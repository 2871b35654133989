/-
  File:      OpenCore/H324/SrpUpperLayer.lean
  Subject:   `UpperLayerRx` WITH ITS POOLS: the chunks of a message are queued one by one, and each
             takes from three pools.

  The function asks beforehand only whether `iTxPacketAlloc` has enough packets. Where another pool
  runs out in the middle, what was queued stays queued, and the sequence number stays advanced.

  * `Delivered` -- the packets queued number on, make up the message, and the last is marked;
  * **`queueFrags_eq_queueMessage`** -- with pools that last, the messages of Srp.lean;
  * **`upperLayerRx_settles_iff`** -- when a message is delivered whole or leaves no trace.
-/
import OpenCore.H324.Nsrp

namespace OpenCore.H324

open List Option
open UInt32 (lt_iff_toNat_lt toNat_add)

/-! ## 1. Pools and fragments -/

/-- What is left of the packets of `iTxPacketAlloc`, of the header fragments of `iCcsrlAllocator`,
    and of the messages of `iTxMediaMsgPoolAlloc`. -/
structure TxPools where
  numMsgAvail : Nat
  ccsrlFrags : Nat
  txMediaMsgs : Nat
deriving DecidableEq, Repr

/-- A memory fragment: what lies behind its pointer, and its length. -/
structure MemFrag where
  ptr : Nat → UInt8
  len : UInt32

namespace MemFrag

def bytes (f : MemFrag) : List UInt8 := (List.range f.len.toNat).map f.ptr

/-- `len` bytes at an offset of a fragment. -/
def part (f : MemFrag) (offset len : UInt32) : MemFrag :=
  ⟨fun i => f.ptr (offset.toNat + i), len⟩

/-- The bytes of a fragment from an offset on. -/
def bytesFrom (f : MemFrag) (offset : UInt32) : List UInt8 :=
  (List.range (f.len.toNat - offset.toNat)).map fun i => f.ptr (offset.toNat + i)

theorem bytes_length (f : MemFrag) : f.bytes.length = f.len.toNat := by
  rw [bytes, length_map, length_range]

theorem bytesFrom_length (f : MemFrag) (offset : UInt32) :
    (f.bytesFrom offset).length = f.len.toNat - offset.toNat := by
  rw [bytesFrom, length_map, length_range]

theorem bytesFrom_zero (f : MemFrag) : f.bytesFrom 0 = f.bytes := by
  unfold bytesFrom bytes
  refine congrArg₂ map (funext fun i => ?_) rfl
  exact congrArg f.ptr (Nat.zero_add i)

theorem part_last (f : MemFrag) {offset : UInt32} (h : offset < f.len) :
    (f.part offset (f.len - offset)).bytes = f.bytesFrom offset := by
  have hlen : (f.len - offset).toNat = f.len.toNat - offset.toNat :=
    UInt32.toNat_sub_of_le _ _ (UInt32.le_of_lt h)
  unfold bytes bytesFrom
  rw [show (f.part offset (f.len - offset)).len = f.len - offset from rfl, hlen]
  rfl

/-- A part that is inside is the beginning of what is left, and the rest follows. -/
theorem part_inside (f : MemFrag) {offset len : UInt32}
    (h : offset.toNat + len.toNat ≤ f.len.toNat) :
    (f.part offset len).bytes = (f.bytesFrom offset).take len.toNat ∧
      f.bytesFrom (offset + len) = (f.bytesFrom offset).drop len.toNat := by
  have hsum : (offset + len).toNat = offset.toNat + len.toNat := by
    have hlt := f.len.toNat_lt
    rw [toNat_add]
    exact Nat.mod_eq_of_lt (by omega)
  unfold bytes bytesFrom
  rw [← map_take, ← map_drop, take_range, hsum]
  constructor
  · rw [Nat.min_eq_left (by omega)]
    rfl
  · refine ext_getElem ?_ fun i hi hi' => ?_
    · simp only [length_map, length_drop, length_range]
      omega
    · simp only [getElem_map, getElem_range, getElem_drop, Nat.add_assoc]

end MemFrag

/-- The byte behind the sequence number: `LAST_CCSRL_CHUNK` or `INTERMEDIATE_CCSRL_CHUNK`. -/
def Packet.ccsrl (p : Packet) : UInt8 := if p.chunk.marker then 0xFF else 0x00

variable {msg : List UInt8}

namespace Srp

/-! ## 2. The function -/

/-- `while (offset < size)`: whether the loop came to its end, and the endpoint behind it. -/
def chunkLoop (iCcsrlSduSize : UInt32) (frag : MemFrag) :
    Nat → Nat → Nat → UInt32 → Srp → Bool × Srp
  | 0, _, _, offset, s => (decide (frag.len ≤ offset), s)
  | numMsgAvail + 1, ccsrlFrags, txMediaMsgs, offset, s =>
    if offset < frag.len then
      if ccsrlFrags = 0 then (false, s)
      else
        let last := frag.len ≤ offset + iCcsrlSduSize
        let len := if last then frag.len - offset else iCcsrlSduSize
        -- the number is counted before the packet is there
        if txMediaMsgs = 0 then (false, s.SrpSendSeqCount)
        else
          chunkLoop iCcsrlSduSize frag numMsgAvail (ccsrlFrags - 1) (txMediaMsgs - 1)
            (offset + len) (s.queueChunk (decide last, (frag.part offset len).bytes))
    else (true, s)

/-- `UpperLayerRx` up to `SrpStateChange`: whether it gets there, and the endpoint then. -/
def queueFrags (s : Srp) (p : TxPools) (pPkt : List MemFrag) : Bool × Srp :=
  match pPkt with
  | [frag] =>
    let iCcsrlSduSize := UInt32.ofNat s.iCcsrlSduSize
    if 0 < iCcsrlSduSize then
      if (frag.len / iCcsrlSduSize + 1).toNat > p.numMsgAvail then (false, s)
      else chunkLoop iCcsrlSduSize frag p.numMsgAvail p.ccsrlFrags p.txMediaMsgs 0 s
    else if p.numMsgAvail = 0 then (false, s)
    else if p.ccsrlFrags = 0 then (false, s)
    else if p.txMediaMsgs = 0 then (false, s.SrpSendSeqCount)
    else (true, s.queueChunk (true, frag.bytes))
  | _ => (false, s)

/-- `UpperLayerRx`. -/
def UpperLayerRxFrom (p : TxPools) (s : Srp) (pPkt : List MemFrag) : Option Srp :=
  if (s.queueFrags p pPkt).1 then (s.queueFrags p pPkt).2.SrpStateChange .EV_PDU .null
  else some (s.queueFrags p pPkt).2

/-! ## 3. The chunks -/

/-- The chunks the loop cuts from an offset on, if no pool runs out. -/
inductive Cut (iCcsrlSduSize : UInt32) (frag : MemFrag) : UInt32 → List (Bool × List UInt8) → Prop where
  | done {offset : UInt32} (hend : frag.len ≤ offset) : Cut iCcsrlSduSize frag offset []
  | last {offset : UInt32} (hin : offset < frag.len) (hlast : frag.len ≤ offset + iCcsrlSduSize) :
      Cut iCcsrlSduSize frag offset [(true, (frag.part offset (frag.len - offset)).bytes)]
  | intermediate {offset : UInt32} {cs : List (Bool × List UInt8)} (hin : offset < frag.len)
      (hmore : offset + iCcsrlSduSize < frag.len)
      (h : Cut iCcsrlSduSize frag (offset + iCcsrlSduSize) cs) :
      Cut iCcsrlSduSize frag offset ((false, (frag.part offset iCcsrlSduSize).bytes) :: cs)

section Chunks

variable {iCcsrlSduSize offset : UInt32} {frag : MemFrag} {cs : List (Bool × List UInt8)}
variable {numMsgAvail ccsrlFrags txMediaMsgs : Nat} {s s' : Srp}

theorem chunkLoop_end (h : frag.len ≤ offset) :
    chunkLoop iCcsrlSduSize frag numMsgAvail ccsrlFrags txMediaMsgs offset s = (true, s) := by
  cases numMsgAvail with
  | zero => rw [chunkLoop, decide_eq_true h]
  | succ n => rw [chunkLoop, if_neg (UInt32.not_lt.mpr h)]

/-- With pools that last, the loop queues the chunks. -/
theorem chunkLoop_of_cut (h : Cut iCcsrlSduSize frag offset cs) (hpackets : cs.length ≤ numMsgAvail)
    (hfrags : cs.length ≤ ccsrlFrags) (hmsgs : cs.length ≤ txMediaMsgs) :
    chunkLoop iCcsrlSduSize frag numMsgAvail ccsrlFrags txMediaMsgs offset s =
      (true, cs.foldl queueChunk s) := by
  induction h generalizing numMsgAvail ccsrlFrags txMediaMsgs s with
  | done hend => exact chunkLoop_end hend
  | @last offset hin hlast =>
    rw [length_singleton] at hpackets hfrags hmsgs
    obtain ⟨n, rfl⟩ := Nat.exists_eq_add_of_le' hpackets
    have hnext : frag.len ≤ offset + (frag.len - offset) := by
      rw [UInt32.add_comm, UInt32.sub_add_cancel]
      exact UInt32.le_refl _
    rw [chunkLoop, if_pos hin, if_neg (by omega), if_neg (by omega), if_pos hlast,
      decide_eq_true hlast, chunkLoop_end hnext]
    rfl
  | @intermediate offset cs hin hmore _ ih =>
    rw [length_cons] at hpackets hfrags hmsgs
    obtain ⟨n, rfl⟩ : ∃ n, numMsgAvail = n + 1 := ⟨numMsgAvail - 1, by omega⟩
    have hnot := UInt32.not_le.mpr hmore
    rw [chunkLoop, if_pos hin, if_neg (by omega), if_neg (by omega), if_neg hnot,
      decide_eq_false hnot]
    exact ih (by omega) (by omega) (by omega)

/-- Where the loop comes to its end, it has queued the chunks, and the pools lasted. -/
theorem cut_of_chunkLoop
    (h : chunkLoop iCcsrlSduSize frag numMsgAvail ccsrlFrags txMediaMsgs offset s = (true, s')) :
    ∃ cs, Cut iCcsrlSduSize frag offset cs ∧ s' = cs.foldl queueChunk s ∧
      cs.length ≤ numMsgAvail ∧ cs.length ≤ ccsrlFrags ∧ cs.length ≤ txMediaMsgs := by
  induction numMsgAvail generalizing ccsrlFrags txMediaMsgs offset s with
  | zero =>
    obtain ⟨hend, rfl⟩ := Prod.mk.inj h
    exact ⟨[], .done (of_decide_eq_true hend), rfl, Nat.zero_le _, Nat.zero_le _, Nat.zero_le _⟩
  | succ n ih =>
    rw [chunkLoop] at h
    by_cases hin : offset < frag.len
    · by_cases hfrags : ccsrlFrags = 0
      · rw [if_pos hin, if_pos hfrags] at h
        cases h
      · by_cases hmsgs : txMediaMsgs = 0
        · rw [if_pos hin, if_neg hfrags, if_pos hmsgs] at h
          cases h
        · rw [if_pos hin, if_neg hfrags, if_neg hmsgs] at h
          by_cases hlast : frag.len ≤ offset + iCcsrlSduSize
          · have hnext : frag.len ≤ offset + (frag.len - offset) := by
              rw [UInt32.add_comm, UInt32.sub_add_cancel]
              exact UInt32.le_refl _
            rw [if_pos hlast, decide_eq_true hlast, chunkLoop_end hnext] at h
            exact ⟨_, .last hin hlast, (Prod.mk.inj h).2.symm, Nat.succ_le_succ (Nat.zero_le n),
              Nat.pos_of_ne_zero hfrags, Nat.pos_of_ne_zero hmsgs⟩
          · rw [if_neg hlast, decide_eq_false hlast] at h
            obtain ⟨cs, hcut, rfl, hpackets', hfrags', hmsgs'⟩ := ih h
            refine ⟨_, .intermediate hin (UInt32.not_le.mp hlast) hcut, rfl, ?_, ?_, ?_⟩ <;>
              rw [length_cons] <;> omega
    · rw [if_neg hin] at h
      obtain rfl := (Prod.mk.inj h).2
      exact ⟨[], .done (UInt32.not_lt.mp hin), rfl, Nat.zero_le _, Nat.zero_le _, Nat.zero_le _⟩

theorem nextSeq_ne (n : Nat) : nextSeq n ≠ n := by
  unfold nextSeq
  split <;> omega

theorem seqCount_eq (s : Srp) : s.SrpSendSeqCount = { s with iSendSeqNumber := nextSeq s.iSendSeqNumber } := by
  unfold SrpSendSeqCount nextSeq
  split <;> rfl

theorem chunkLoop_length : s.iSrpWaitQueue.length ≤
    (chunkLoop iCcsrlSduSize frag numMsgAvail ccsrlFrags txMediaMsgs offset
      s).2.iSrpWaitQueue.length := by
  induction numMsgAvail generalizing ccsrlFrags txMediaMsgs offset s with
  | zero => exact Nat.le_refl _
  | succ n ih =>
    rw [chunkLoop]
    split
    · split
      · exact Nat.le_refl _
      · dsimp only
        split
        · rw [seqCount_eq]
        · refine Nat.le_trans ?_ ih
          rw [queueChunk_eq, length_append]
          exact Nat.le_add_right _ _
    · exact Nat.le_refl _

/-- **A loop that got under way and comes to no end leaves a trace**. -/
theorem chunkLoop_trace
    (h : chunkLoop iCcsrlSduSize frag numMsgAvail ccsrlFrags txMediaMsgs offset s = (false, s'))
    (hpackets : numMsgAvail ≠ 0) (hfrags : ccsrlFrags ≠ 0) :
    s.iSrpWaitQueue.length < s'.iSrpWaitQueue.length ∨ s'.iSendSeqNumber ≠ s.iSendSeqNumber := by
  obtain ⟨n, rfl⟩ := Nat.exists_eq_succ_of_ne_zero hpackets
  rw [chunkLoop] at h
  by_cases hin : offset < frag.len
  · rw [if_pos hin, if_neg hfrags] at h
    by_cases hmsgs : txMediaMsgs = 0
    · right
      rw [if_pos hmsgs, seqCount_eq] at h
      obtain rfl := (Prod.mk.inj h).2
      exact nextSeq_ne _
    · left
      rw [if_neg hmsgs] at h
      have hgrows := congrArg (fun r : Bool × Srp => r.2.iSrpWaitQueue.length) h
      refine Nat.lt_of_lt_of_le ?_ (Nat.le_trans chunkLoop_length (Nat.le_of_eq hgrows))
      rw [queueChunk_eq, length_append]
      exact Nat.lt_succ_self _
  · rw [if_neg hin] at h
    cases h

/-! ## 4. What the chunks are -/

/-- The chunks of `size` bytes. -/
def chunkCount (iCcsrlSduSize size : Nat) : Nat := (size + iCcsrlSduSize - 1) / iCcsrlSduSize

theorem chunkCount_le {sdu size : Nat} (hsdu : 0 < sdu) (hsize : 0 < size) (hle : size ≤ sdu) :
    chunkCount sdu size = 1 := by
  unfold chunkCount
  rw [Nat.div_eq_iff hsdu]
  omega

theorem chunkCount_add {sdu size : Nat} (hsdu : 0 < sdu) (hlt : sdu < size) :
    chunkCount sdu size = chunkCount sdu (size - sdu) + 1 := by
  unfold chunkCount
  rw [← Nat.add_div_right _ hsdu]
  congr 1
  omega

/-- **Chunks that make up the rest of the message** were cut without going around. -/
theorem Cut.count (h : Cut iCcsrlSduSize frag offset cs) (hsdu : 0 < iCcsrlSduSize)
    (hbytes : (cs.map Prod.snd).flatten.length = frag.len.toNat - offset.toNat) :
    cs.length = chunkCount iCcsrlSduSize.toNat (frag.len.toNat - offset.toNat) ∧
      offset.toNat + cs.length * iCcsrlSduSize.toNat < 4294967296 := by
  have hsdu' : 0 < iCcsrlSduSize.toNat := hsdu
  have hword := iCcsrlSduSize.toNat_lt
  induction h with
  | @done offset hend =>
    have hend' : frag.len.toNat ≤ offset.toNat := hend
    have hlt := offset.toNat_lt
    rw [Nat.sub_eq_zero_of_le hend', length_nil]
    refine ⟨?_, by omega⟩
    unfold chunkCount
    rw [Nat.div_eq_of_lt (by omega)]
  | @last offset hin hlast =>
    have hin' : offset.toNat < frag.len.toNat := hin
    have hlen := frag.len.toNat_lt
    rw [UInt32.le_iff_toNat_le, toNat_add] at hlast
    rw [length_singleton, chunkCount_le hsdu' (by omega) (by omega)]
    exact ⟨rfl, by omega⟩
  | @intermediate offset cs hin hmore _ ih =>
    have hin' : offset.toNat < frag.len.toNat := hin
    have hlen := frag.len.toNat_lt
    have hlength : (frag.part offset iCcsrlSduSize).bytes.length = iCcsrlSduSize.toNat :=
      MemFrag.bytes_length _
    rw [lt_iff_toNat_lt, toNat_add] at hmore
    rw [map_cons, flatten_cons, length_append, hlength] at hbytes
    -- a chunk that goes around would be longer than what is left
    have hsum : (offset + iCcsrlSduSize).toNat = offset.toNat + iCcsrlSduSize.toNat := by
      rw [toNat_add]
      exact Nat.mod_eq_of_lt (by omega)
    rw [hsum] at ih
    obtain ⟨hcount, hfits⟩ := ih (by omega)
    rw [length_cons, Nat.succ_mul, hcount, chunkCount_add hsdu'
      (show iCcsrlSduSize.toNat < frag.len.toNat - offset.toNat by omega), Nat.sub_sub]
    rw [hcount] at hfits
    refine ⟨rfl, ?_⟩
    rw [← Nat.sub_sub] at hfits ⊢
    omega

/-- **Without going around** the loop cuts the chunks of `ccsrlChunks`. -/
theorem cut_ccsrlChunks (hsdu : 0 < iCcsrlSduSize) {fuel : Nat}
    (hfuel : frag.len.toNat - offset.toNat < fuel)
    (hfits : offset.toNat + chunkCount iCcsrlSduSize.toNat (frag.len.toNat - offset.toNat) *
      iCcsrlSduSize.toNat < 4294967296) :
    Cut iCcsrlSduSize frag offset
        (ccsrlChunks iCcsrlSduSize.toNat fuel (frag.bytesFrom offset)) ∧
      (ccsrlChunks iCcsrlSduSize.toNat fuel (frag.bytesFrom offset)).length =
        chunkCount iCcsrlSduSize.toNat (frag.len.toNat - offset.toNat) := by
  have hsdu' : 0 < iCcsrlSduSize.toNat := hsdu
  induction fuel generalizing offset with
  | zero => exact absurd hfuel (Nat.not_lt_zero _)
  | succ fuel ih =>
    have hlength := frag.bytesFrom_length offset
    rw [ccsrlChunks, if_neg (Nat.ne_of_gt hsdu')]
    by_cases hin : offset < frag.len
    · have hin' : offset.toNat < frag.len.toNat := hin
      have hne : frag.bytesFrom offset ≠ [] := ne_nil_of_length_pos (by omega)
      rw [if_neg hne, hlength]
      by_cases hlast : frag.len.toNat - offset.toNat ≤ iCcsrlSduSize.toNat
      · rw [if_pos hlast, ← frag.part_last hin, chunkCount_le hsdu' (by omega) hlast]
        rw [chunkCount_le hsdu' (by omega) hlast, Nat.one_mul] at hfits
        refine ⟨.last hin ?_, rfl⟩
        rw [UInt32.le_iff_toNat_le, toNat_add, Nat.mod_eq_of_lt hfits]
        omega
      · have hcount := @chunkCount_add iCcsrlSduSize.toNat (frag.len.toNat - offset.toNat) hsdu'
          (by omega)
        have hlen := frag.len.toNat_lt
        have hsum : (offset + iCcsrlSduSize).toNat = offset.toNat + iCcsrlSduSize.toNat := by
          rw [toNat_add]
          exact Nat.mod_eq_of_lt (by omega)
        obtain ⟨hpart, hrest⟩ := @MemFrag.part_inside frag offset iCcsrlSduSize (by omega)
        have hmore : offset + iCcsrlSduSize < frag.len := by
          rw [lt_iff_toNat_lt, hsum]
          omega
        rw [hcount, Nat.succ_mul] at hfits
        rw [if_neg hlast, ← hpart, ← hrest, hcount, length_cons]
        have hnext := @ih (offset + iCcsrlSduSize)
        rw [hsum, ← Nat.sub_sub] at hnext
        obtain ⟨hcut, hlen'⟩ := hnext (by omega) (by omega)
        exact ⟨.intermediate hin hmore hcut, congrArg (· + 1) hlen'⟩
    · have hin' : ¬ offset.toNat < frag.len.toNat := hin
      have hnil : frag.bytesFrom offset = [] := eq_nil_of_length_eq_zero (by omega)
      rw [if_pos hnil, Nat.sub_eq_zero_of_le (Nat.le_of_not_lt hin')]
      refine ⟨.done (UInt32.not_lt.mp hin), ?_⟩
      unfold chunkCount
      rw [Nat.div_eq_of_lt (by omega)]
      rfl

theorem cut_message (hsdu : 0 < iCcsrlSduSize)
    (hfits : chunkCount iCcsrlSduSize.toNat frag.len.toNat * iCcsrlSduSize.toNat < 4294967296) :
    Cut iCcsrlSduSize frag 0 (ccsrlChunks iCcsrlSduSize.toNat (frag.len.toNat + 1) frag.bytes) ∧
      (ccsrlChunks iCcsrlSduSize.toNat (frag.len.toNat + 1) frag.bytes).length =
        chunkCount iCcsrlSduSize.toNat frag.len.toNat := by
  have hzero : frag.len.toNat - (0 : UInt32).toNat = frag.len.toNat := Nat.sub_zero _
  have hcs := @cut_ccsrlChunks iCcsrlSduSize 0 frag hsdu (frag.len.toNat + 1)
  rw [hzero, show (0 : UInt32).toNat = 0 from rfl, Nat.zero_add, MemFrag.bytesFrom_zero] at hcs
  exact hcs (Nat.lt_succ_self _) hfits

theorem ccsrlChunks_flatten {sdu fuel : Nat} (hsdu : 0 < sdu)
    (hfuel : msg.length < fuel) : ((ccsrlChunks sdu fuel msg).map Prod.snd).flatten = msg := by
  induction fuel generalizing msg with
  | zero => exact absurd hfuel (Nat.not_lt_zero _)
  | succ fuel ih =>
    rw [ccsrlChunks, if_neg (Nat.ne_of_gt hsdu)]
    split
    · rename_i hnil
      rw [hnil]
      rfl
    · split
      · rw [map_singleton, flatten_singleton]
      · rename_i hlong
        rw [map_cons, flatten_cons, ih (by rw [length_drop]; omega),
          take_append_drop]

theorem ccsrlChunks_marked {sdu fuel : Nat} (hsdu : 0 < sdu)
    (hfuel : msg.length < fuel) {i : Nat} {c : Bool × List UInt8}
    (hc : (ccsrlChunks sdu fuel msg)[i]? = some c) :
    c.1 = true ↔ i + 1 = (ccsrlChunks sdu fuel msg).length := by
  induction fuel generalizing msg i with
  | zero => exact absurd hfuel (Nat.not_lt_zero _)
  | succ fuel ih =>
    rw [ccsrlChunks, if_neg (Nat.ne_of_gt hsdu)] at hc ⊢
    by_cases hnil : msg = []
    · rw [if_pos hnil] at hc
      cases hc
    · rw [if_neg hnil] at hc ⊢
      by_cases hlast : sdu ≥ msg.length
      · rw [if_pos hlast] at hc ⊢
        cases i with
        | zero =>
          cases hc
          exact iff_of_true rfl rfl
        | succ i => cases hc
      · rw [if_neg hlast] at hc ⊢
        have hdrop : (msg.drop sdu).length < fuel := by
          rw [length_drop]
          omega
        cases i with
        | zero =>
          cases hc
          -- more of the message follows
          refine iff_of_false Bool.false_ne_true fun hone => ?_
          have hnone : ccsrlChunks sdu fuel (msg.drop sdu) = [] :=
            eq_nil_of_length_eq_zero (Nat.succ.inj hone).symm
          have hflat := ccsrlChunks_flatten hsdu hdrop
          rw [hnone] at hflat
          have hlength := congrArg length hflat
          rw [length_drop] at hlength
          exact hlast (Nat.le_of_sub_eq_zero hlength.symm)
        | succ i =>
          rw [getElem?_cons_succ] at hc
          rw [ih hdrop hc, length_cons, Nat.succ_inj]

end Chunks

/-! ## 5. All of a message or nothing -/

/-- **The message is queued whole**: the packets are behind the queue, number on from the sequence
    number, make up the message, and the last is marked. -/
structure Delivered (s s' : Srp) (msg : List UInt8) (pkts : List Packet) : Prop where
  queue : s'.iSrpWaitQueue = s.iSrpWaitQueue ++ pkts
  numbers : ∀ i p, pkts[i]? = some p → p.seqNum = (s.iSendSeqNumber + i) % 256
  next : s'.iSendSeqNumber = (s.iSendSeqNumber + pkts.length) % 256
  marked : ∀ i p, pkts[i]? = some p → p.ccsrl = if i + 1 = pkts.length then 0xFF else 0x00
  whole : (pkts.map fun p => p.chunk.data).flatten = msg

/-- **The queue and the sequence number are as before**. -/
structure Untouched (s s' : Srp) : Prop where
  queue : s'.iSrpWaitQueue = s.iSrpWaitQueue
  next : s'.iSendSeqNumber = s.iSendSeqNumber

theorem Untouched.trans {s t u : Srp} (h : Untouched s t) (h' : Untouched t u) : Untouched s u :=
  ⟨h'.queue.trans h.queue, h'.next.trans h.next⟩

/-- A message that gets to the state machine is queued whole, any other leaves no trace. -/
def AllOrNothing (s : Srp) (r : Bool × Srp) (msg : List UInt8) : Prop :=
  (r.1 = true → ∃ pkts, Delivered s r.2 msg pkts) ∧ (r.1 = false → Untouched s r.2)

/-- **The pools last, or fail at once**: the message is refused beforehand, or is empty, or the
    first packet is not to be had; or its chunks fit into 32 bits, and each pool has one for each. -/
def PoolsLast (s : Srp) (p : TxPools) (frag : MemFrag) : Prop :=
  if 0 < UInt32.ofNat s.iCcsrlSduSize then
    (frag.len / UInt32.ofNat s.iCcsrlSduSize + 1).toNat > p.numMsgAvail ∨ frag.len = 0 ∨
      p.numMsgAvail = 0 ∨ p.ccsrlFrags = 0 ∨
      chunkCount (UInt32.ofNat s.iCcsrlSduSize).toNat frag.len.toNat *
          (UInt32.ofNat s.iCcsrlSduSize).toNat < 4294967296 ∧
        chunkCount (UInt32.ofNat s.iCcsrlSduSize).toNat frag.len.toNat ≤ p.numMsgAvail ∧
        chunkCount (UInt32.ofNat s.iCcsrlSduSize).toNat frag.len.toNat ≤ p.ccsrlFrags ∧
        chunkCount (UInt32.ofNat s.iCcsrlSduSize).toNat frag.len.toNat ≤ p.txMediaMsgs
  else p.numMsgAvail = 0 ∨ p.ccsrlFrags = 0 ∨ 0 < p.txMediaMsgs

section Message

variable {s s' : Srp} {p : TxPools} {frag : MemFrag} {cs : List (Bool × List UInt8)}

/-- What the queue holds of chunks that were queued. -/
theorem foldl_queueChunk (cs : List (Bool × List UInt8)) (hseq : s.iSendSeqNumber < 256) :
    ∃ pkts : List Packet, (cs.foldl queueChunk s).iSrpWaitQueue = s.iSrpWaitQueue ++ pkts ∧
      pkts.map (fun p => (p.chunk.marker, p.chunk.data)) = cs ∧
      (∀ i p, pkts[i]? = some p → p.seqNum = (s.iSendSeqNumber + i) % 256) ∧
      (cs.foldl queueChunk s).iSendSeqNumber = (s.iSendSeqNumber + cs.length) % 256 := by
  induction cs generalizing s with
  | nil =>
    exact ⟨[], (append_nil _).symm, rfl, fun i p hp => absurd hp (some_ne_none p ·.symm),
      (Nat.mod_eq_of_lt hseq).symm⟩
  | cons c cs ih =>
    have hnext : (s.queueChunk c).iSendSeqNumber = (s.iSendSeqNumber + 1) % 256 := by
      rw [queueChunk_eq, ← nextSeq_mod, Nat.mod_eq_of_lt hseq]
    obtain ⟨pkts, hqueue, hmap, hnumbers, hseq'⟩ :=
      @ih (s.queueChunk c) (by rw [hnext]; exact Nat.mod_lt _ (by decide))
    rw [hnext] at hnumbers hseq'
    rw [queueChunk_eq] at hqueue
    rw [foldl_cons]
    refine ⟨⟨s.iSendSeqNumber % 256, ⟨s.accepted.length, c.1, c.2⟩⟩ :: pkts, ?_, ?_, ?_, ?_⟩
    · rw [queueChunk_eq, hqueue, append_assoc, singleton_append]
    · rw [map_cons, hmap]
    · intro i p hp
      cases i with
      | zero =>
        cases hp
        rfl
      | succ i =>
        rw [hnumbers i p hp]
        omega
    · rw [hseq', length_cons]
      omega

/-- Queued packets that carry the chunks of a message deliver it. -/
theorem delivered_of_chunks (hseq : s.iSendSeqNumber < 256) {msg : List UInt8}
    (hwhole : (cs.map Prod.snd).flatten = msg)
    (hmarked : ∀ i c, cs[i]? = some c → (c.1 = true ↔ i + 1 = cs.length)) :
    ∃ pkts, Delivered s (cs.foldl queueChunk s) msg pkts := by
  obtain ⟨pkts, hqueue, hmap, hnumbers, hnext⟩ := foldl_queueChunk cs hseq
  have hlength : cs.length = pkts.length := by rw [← hmap, length_map]
  refine ⟨pkts, hqueue, hnumbers, by rw [hnext, hlength], ?_, ?_⟩
  · intro i p hp
    have hc : cs[i]? = some (p.chunk.marker, p.chunk.data) := by
      rw [← hmap, getElem?_map, hp]
      rfl
    have hmark := hmarked i _ hc
    rw [hlength] at hmark
    exact if_congr hmark rfl rfl
  · rw [← hwhole, ← hmap, List.map_map]
    rfl

/-- Packets that deliver a message carry its bytes, no more. -/
theorem Delivered.length {pkts : List Packet}
    (h : Delivered s (cs.foldl queueChunk s) msg pkts) (hseq : s.iSendSeqNumber < 256) :
    (cs.map Prod.snd).flatten = msg := by
  obtain ⟨pkts', hqueue, hmap, -, -⟩ := foldl_queueChunk cs hseq
  obtain rfl := append_cancel_left (h.queue.symm.trans hqueue)
  rw [← h.whole, ← hmap, List.map_map]
  rfl

/-- **The message of lean**: with pools that last, the loop queues its chunks. -/
theorem queueFrags_eq_queueMessage (hword : s.iCcsrlSduSize < 4294967296)
    (hlen : frag.len ≠ 0) (hpackets : p.numMsgAvail ≠ 0) (hfrags : p.ccsrlFrags ≠ 0)
    (hasked : 0 < s.iCcsrlSduSize →
      ¬ (frag.len / UInt32.ofNat s.iCcsrlSduSize + 1).toNat > p.numMsgAvail)
    (h : PoolsLast s p frag) : s.queueFrags p [frag] = (true, s.queueMessage frag.bytes) := by
  have hsdu : (UInt32.ofNat s.iCcsrlSduSize).toNat = s.iCcsrlSduSize :=
    UInt32.toNat_ofNat_of_lt' hword
  have hpos : 0 < UInt32.ofNat s.iCcsrlSduSize ↔ 0 < s.iCcsrlSduSize := by
    rw [lt_iff_toNat_lt, hsdu]
    rfl
  unfold queueFrags
  unfold PoolsLast at h
  dsimp only
  by_cases hcut : 0 < s.iCcsrlSduSize
  · have hcut' := hpos.mpr hcut
    rw [if_pos hcut'] at h ⊢
    rw [if_neg (hasked hcut)]
    obtain hrefused | hempty | hpackets' | hfrags' | ⟨hfits, hp, hf, hm⟩ := h
    · exact absurd hrefused (hasked hcut)
    · exact absurd hempty hlen
    · exact absurd hpackets' hpackets
    · exact absurd hfrags' hfrags
    · obtain ⟨hcs, hcount⟩ := cut_message hcut' hfits
      rw [chunkLoop_of_cut hcs (by omega) (by omega) (by omega), hsdu]
      unfold queueMessage
      rw [MemFrag.bytes_length]
  · have hoff : ¬ 0 < UInt32.ofNat s.iCcsrlSduSize := fun hlt => hcut (hpos.mp hlt)
    rw [if_neg hoff] at h ⊢
    have hmsgs := (h.resolve_left hpackets).resolve_left hfrags
    rw [if_neg hpackets, if_neg hfrags, if_neg (Nat.ne_of_gt hmsgs)]
    unfold queueMessage
    rw [ccsrlChunks, if_pos (Nat.eq_zero_of_not_pos hcut)]
    rfl

theorem upperLayerRxFrom_eq (hword : s.iCcsrlSduSize < 4294967296)
    (hlen : frag.len ≠ 0) (hpackets : p.numMsgAvail ≠ 0) (hfrags : p.ccsrlFrags ≠ 0)
    (hasked : 0 < s.iCcsrlSduSize →
      ¬ (frag.len / UInt32.ofNat s.iCcsrlSduSize + 1).toNat > p.numMsgAvail)
    (h : PoolsLast s p frag) : UpperLayerRxFrom p s [frag] = s.UpperLayerRx frag.bytes := by
  unfold UpperLayerRxFrom
  rw [queueFrags_eq_queueMessage hword hlen hpackets hfrags hasked h]
  rfl

theorem allOrNothing_refused : AllOrNothing s (false, s) msg :=
  ⟨fun h => absurd h Bool.false_ne_true, fun _ => ⟨rfl, rfl⟩⟩

/-- A packet that is not to be had once its number is counted. -/
theorem not_allOrNothing_counted :
    ¬ AllOrNothing s (false, s.SrpSendSeqCount) msg := by
  intro h
  have hnext := (h.2 rfl).next
  rw [seqCount_eq] at hnext
  exact nextSeq_ne _ hnext

theorem allOrNothing_delivered {s' : Srp}
    (h : ∃ pkts, Delivered s s' msg pkts) : AllOrNothing s (true, s') msg :=
  ⟨fun _ => h, fun hfalse => absurd hfalse.symm Bool.false_ne_true⟩

theorem allOrNothing_empty (hseq : s.iSendSeqNumber < 256) (hlen : frag.len = 0) :
    AllOrNothing s (true, s) frag.bytes := by
  refine allOrNothing_delivered ⟨[], (append_nil _).symm, fun i p hp => ?_, ?_,
    fun i p hp => ?_, ?_⟩
  · cases hp
  · exact (Nat.mod_eq_of_lt hseq).symm
  · cases hp
  · rw [MemFrag.bytes, hlen]
    rfl

variable {sdu : UInt32} {numMsgAvail ccsrlFrags txMediaMsgs : Nat}

/-- Where the loop leaves all or nothing, and gets under way, the pools last. -/
theorem chunkLoop_lasts (hseq : s.iSendSeqNumber < 256) (hcut : 0 < sdu)
    (h : AllOrNothing s (chunkLoop sdu frag numMsgAvail ccsrlFrags txMediaMsgs 0 s) frag.bytes)
    (hpackets : numMsgAvail ≠ 0) (hfrags : ccsrlFrags ≠ 0) :
    chunkCount sdu.toNat frag.len.toNat * sdu.toNat < 4294967296 ∧
      chunkCount sdu.toNat frag.len.toNat ≤ numMsgAvail ∧
      chunkCount sdu.toNat frag.len.toNat ≤ ccsrlFrags ∧
      chunkCount sdu.toNat frag.len.toNat ≤ txMediaMsgs := by
  generalize hloop : chunkLoop sdu frag numMsgAvail ccsrlFrags txMediaMsgs 0 s = r at h
  obtain ⟨reached, s'⟩ := r
  cases reached with
  | true =>
    obtain ⟨cs, hcs, rfl, hp, hf, hm⟩ := cut_of_chunkLoop hloop
    obtain ⟨pkts, hdelivered⟩ := h.1 rfl
    have hbytes := congrArg length (hdelivered.length hseq)
    rw [MemFrag.bytes_length] at hbytes
    have hzero : frag.len.toNat - (0 : UInt32).toNat = frag.len.toNat := Nat.sub_zero _
    obtain ⟨hcount, hfits⟩ := hcs.count hcut (hbytes.trans hzero.symm)
    rw [hzero] at hcount
    rw [show (0 : UInt32).toNat = 0 from rfl, Nat.zero_add] at hfits
    rw [hcount] at hfits hp hf hm
    exact ⟨hfits, hp, hf, hm⟩
  | false =>
    have hsame := h.2 rfl
    obtain hgrown | hcounted := chunkLoop_trace hloop hpackets hfrags
    · exact absurd (congrArg length hsame.queue) (Nat.ne_of_gt hgrown)
    · exact absurd hsame.next hcounted

theorem allOrNothing_chunkLoop (hseq : s.iSendSeqNumber < 256) (hcut : 0 < sdu) :
    AllOrNothing s (chunkLoop sdu frag numMsgAvail ccsrlFrags txMediaMsgs 0 s) frag.bytes ↔
      frag.len = 0 ∨ numMsgAvail = 0 ∨ ccsrlFrags = 0 ∨
        chunkCount sdu.toNat frag.len.toNat * sdu.toNat < 4294967296 ∧
          chunkCount sdu.toNat frag.len.toNat ≤ numMsgAvail ∧
          chunkCount sdu.toNat frag.len.toNat ≤ ccsrlFrags ∧
          chunkCount sdu.toNat frag.len.toNat ≤ txMediaMsgs := by
  constructor
  · intro hall
    by_contra hnot
    rw [not_or, not_or, not_or] at hnot
    obtain ⟨-, hpackets, hfrags, hnot⟩ := hnot
    exact hnot (chunkLoop_lasts hseq hcut hall hpackets hfrags)
  · intro hlast
    by_cases hlen : frag.len = 0
    · rw [chunkLoop_end (by rw [hlen]; exact UInt32.le_refl 0)]
      exact allOrNothing_empty hseq hlen
    · have hin : (0 : UInt32) < frag.len := UInt32.pos_iff_ne_zero.mpr hlen
      have hnone : ∀ ccsrlFrags, AllOrNothing s
          (chunkLoop sdu frag 0 ccsrlFrags txMediaMsgs 0 s) frag.bytes := by
        intro ccsrlFrags
        rw [chunkLoop, decide_eq_false (UInt32.not_le.mpr hin)]
        exact allOrNothing_refused
      obtain hempty | hpackets | hfrags | ⟨hfits, hp, hf, hm⟩ := hlast
      · exact absurd hempty hlen
      · rw [hpackets]
        exact hnone ccsrlFrags
      · rw [hfrags]
        cases numMsgAvail with
        | zero => exact hnone 0
        | succ n =>
          rw [chunkLoop, if_pos hin, if_pos rfl]
          exact allOrNothing_refused
      · obtain ⟨hcs, hcount⟩ := cut_message hcut hfits
        have hlength : frag.bytes.length < frag.len.toNat + 1 := by
          rw [MemFrag.bytes_length]
          exact Nat.lt_succ_self _
        rw [chunkLoop_of_cut hcs (by omega) (by omega) (by omega)]
        exact allOrNothing_delivered (delivered_of_chunks hseq (ccsrlChunks_flatten hcut hlength)
          fun i c hc => ccsrlChunks_marked hcut hlength hc)

theorem allOrNothing_iff (hseq : s.iSendSeqNumber < 256) :
    AllOrNothing s (s.queueFrags p [frag]) frag.bytes ↔ PoolsLast s p frag := by
  unfold queueFrags PoolsLast
  dsimp only
  generalize UInt32.ofNat s.iCcsrlSduSize = sdu
  by_cases hcut : 0 < sdu
  · rw [if_pos hcut, if_pos hcut]
    by_cases hrefused : (frag.len / sdu + 1).toNat > p.numMsgAvail
    · rw [if_pos hrefused]
      exact iff_of_true allOrNothing_refused (.inl hrefused)
    · rw [if_neg hrefused, or_iff_right hrefused]
      exact allOrNothing_chunkLoop hseq hcut
  · rw [if_neg hcut, if_neg hcut]
    by_cases hpackets : p.numMsgAvail = 0
    · rw [if_pos hpackets]
      exact iff_of_true allOrNothing_refused (.inl hpackets)
    · rw [if_neg hpackets]
      by_cases hfrags : p.ccsrlFrags = 0
      · rw [if_pos hfrags]
        exact iff_of_true allOrNothing_refused (.inr (.inl hfrags))
      · rw [if_neg hfrags]
        by_cases hmsgs : p.txMediaMsgs = 0
        · rw [if_pos hmsgs]
          refine iff_of_false not_allOrNothing_counted fun h => ?_
          exact absurd ((h.resolve_left hpackets).resolve_left hfrags) (by omega)
        · rw [if_neg hmsgs]
          refine iff_of_true (allOrNothing_delivered ?_) (.inr (.inr (Nat.pos_of_ne_zero hmsgs)))
          have hone := @delivered_of_chunks s [(true, frag.bytes)] hseq frag.bytes
            flatten_singleton
          refine hone fun i c hc => ?_
          cases i with
          | zero =>
            cases hc
            exact iff_of_true rfl rfl
          | succ i => cases hc

end Message

/-! ## 6. The whole function -/

variable {s s' : Srp}

theorem untouched_sendSrpCommand (h : s.sendSrpCommand = some s') : Untouched s s' := by
  obtain ⟨pkt, -, h⟩ := bind_eq_some_iff.mp h
  cases h
  exact ⟨rfl, rfl⟩

theorem untouched_sendWnsrpCommand (h : s.sendWnsrpCommand = some s') :
    Untouched s s' := by
  obtain ⟨pkt, -, h⟩ := bind_eq_some_iff.mp h
  obtain ⟨⟨timer, s₁⟩, hfree, h⟩ := bind_eq_some_iff.mp h
  cases h
  unfold GetFreeWnsrpTimer at hfree
  split at hfree
  · cases hfree
  · cases hfree
    exact ⟨rfl, rfl⟩

theorem untouched_sendWnsrpCommands {n : Nat}
    (h : sendWnsrpCommands n s = some s') : Untouched s s' := by
  induction n generalizing s with
  | zero =>
    cases h
    exact ⟨rfl, rfl⟩
  | succ n ih =>
    rw [sendWnsrpCommands] at h
    split at h
    · obtain ⟨s₁, hsend, h⟩ := bind_eq_some_iff.mp h
      exact (untouched_sendWnsrpCommand hsend).trans (ih h)
    · cases h
      exact ⟨rfl, rfl⟩

theorem untouched_Srp_0_1 (h : s.Srp_0_1 = some s') : Untouched s s' := by
  unfold Srp_0_1 at h
  split at h
  · obtain ⟨s₁, hsend, h⟩ := bind_eq_some_iff.mp h
    cases h
    exact (untouched_sendSrpCommand hsend).trans ⟨rfl, rfl⟩
  · obtain ⟨s₁, hsend, h⟩ := bind_eq_some_iff.mp h
    obtain ⟨s₂, hfirst, hsend⟩ := bind_eq_some_iff.mp hsend
    cases h
    exact ((untouched_sendSrpCommand hfirst).trans (untouched_sendWnsrpCommands hsend)).trans
      ⟨rfl, rfl⟩
  · obtain ⟨s₁, hsend, h⟩ := bind_eq_some_iff.mp h
    cases h
    exact (untouched_sendWnsrpCommands hsend).trans ⟨rfl, rfl⟩

theorem untouched_Srp_1_1 (h : s.Srp_1_1 = some s') : Untouched s s' := by
  unfold Srp_1_1 at h
  split at h
  · cases h
    exact ⟨rfl, rfl⟩
  · exact untouched_sendWnsrpCommands h
  · exact untouched_sendWnsrpCommands h

/-- **The state machine takes nothing off the queue** when a message comes. -/
theorem untouched_pdu (h : s.SrpStateChange .EV_PDU .null = some s') :
    Untouched s s' := by
  unfold SrpStateChange at h
  cases hstatus : s.iStatus with
  | STS_IDLE =>
    rw [hstatus] at h
    exact untouched_Srp_0_1 h
  | STS_WAIT_RESPONSE =>
    rw [hstatus] at h
    exact untouched_Srp_1_1 h

/-- **A message is delivered whole or leaves no trace if and only if the pools last** or fail at
    once; a message not of one fragment is refused, and what the state machine does then takes
    nothing off the queue. -/
theorem upperLayerRx_settles_iff (s : Srp) (p : TxPools) (frag : MemFrag)
    (hseq : s.iSendSeqNumber < 256) :
    (AllOrNothing s (s.queueFrags p [frag]) frag.bytes ↔ PoolsLast s p frag) ∧
      (∀ pPkt : List MemFrag, pPkt.length ≠ 1 → UpperLayerRxFrom p s pPkt = some s) ∧
      ∀ s', UpperLayerRxFrom p s [frag] = some s' → Untouched (s.queueFrags p [frag]).2 s' := by
  refine ⟨allOrNothing_iff hseq, ?_, ?_⟩
  · intro pPkt hlength
    cases pPkt with
    | nil => rfl
    | cons frag rest =>
      cases rest with
      | nil => exact absurd rfl hlength
      | cons frag' rest => rfl
  · intro s' h
    unfold UpperLayerRxFrom at h
    split at h
    · exact untouched_pdu h
    · cases h
      exact ⟨rfl, rfl⟩

/-- The pools `SrpInitL` sets up by default: 24 messages, and 36 packets. -/
def defaultPools : TxPools := ⟨36, 48, 24⟩

/-- A message of this many bytes. -/
def messageOf (len : UInt32) : MemFrag := ⟨fun _ => 0x55, len⟩

/-- Six thousand bytes, in 24 chunks. -/
theorem upperLayerRx_settles_24 :
    AllOrNothing (SrpInitL {}) ((SrpInitL {}).queueFrags defaultPools [messageOf 6000])
      (messageOf 6000).bytes := by
  refine (upperLayerRx_settles_iff (SrpInitL {}) defaultPools (messageOf 6000) (by decide)).1.mpr ?_
  refine .inr (.inr (.inr (.inr ?_)))
  decide

/-- **Of a message of 25 chunks the first 24 are queued**, and its last is lost: the packets are
    enough, the messages are not. -/
theorem message_cut_short :
    ((SrpInitL {}).queueFrags defaultPools [messageOf 6400]).1 = false ∧
      ((SrpInitL {}).queueFrags defaultPools [messageOf 6400]).2.iSrpWaitQueue.length = 24 ∧
      ((SrpInitL {}).queueFrags defaultPools [messageOf 6400]).2.iSendSeqNumber = 25 ∧
      ¬ AllOrNothing (SrpInitL {}) ((SrpInitL {}).queueFrags defaultPools [messageOf 6400])
        (messageOf 6400).bytes := by
  have hfails : ((SrpInitL {}).queueFrags defaultPools [messageOf 6400]).1 = false := by
    decide +kernel
  have hseq : ((SrpInitL {}).queueFrags defaultPools [messageOf 6400]).2.iSendSeqNumber = 25 := by
    decide +kernel
  refine ⟨hfails, by decide +kernel, hseq, fun h => ?_⟩
  have hnext := (h.2 hfails).next
  rw [hseq] at hnext
  exact absurd hnext (by decide)

end Srp

end OpenCore.H324
