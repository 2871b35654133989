/-
  File:      OpenCore/H223/AdaptationLayer.lean
  Subject:   ADAPTATION LAYERS 2 AND 3: control field, payload and CRC, made and parsed.

  A packet is media data in fragments. `StartPacket` puts a fragment for the control field in
  front, `CompletePacket` writes the sequence number there and appends the CRC; the peer gets the
  PDU in fragments of its own memory, and `ParsePacket` takes the CRC off, compares it, takes the
  control field off and compares the sequence number with the one it expects.

  **Main result**: `ParsePacket_iff`.
-/
import OpenCore.Tools.CrcCheck

namespace OpenCore.H223

open CRC List Option
open Or (inl inr)

/-! ## 1. Packets -/

/-- Media data: the bytes of its fragments. -/
abbrev Packet := List (List UInt8)

/-- `setMediaFragFilledLen` to a length not above the present one. -/
def setMediaFragFilledLen (pkt : Packet) (index len : Nat) : Packet :=
  pkt.modify index (List.take len)

/-- Bytes written at the pointer of fragment 0; there must be one. -/
def writeHeader (header : List UInt8) : Packet → Option Packet
  | [] => none
  | frag :: rest => some ((header ++ frag.drop header.length) :: rest)

structure IncomingALPduInfo where
  sdu_size : Int
  crc_error : Bool
  seq_num : Nat
  seq_num_error : Int
  deriving DecidableEq, Repr

/-- The `int16` that the size without control field and CRC is stored in. -/
def sduSize (pkt : Packet) (iSNPos crcSize : Nat) : Int :=
  Int.bmod ((getFilledSize pkt : Int) - iSNPos - crcSize) 65536

/-- `PV2WAY_MAX_PACKET_MEM_FRAG`: the length of the array the fragments are copied through. -/
def PV2WAY_MAX_PACKET_MEM_FRAG : Nat := 32

/-- The sequence number `SeqNum` of a PDU against the expected one; `next` is the number after a
    good one. -/
def checkSeqNum (next : Nat → Nat) (modulus iSeqNum SeqNum : Nat) (info : IncomingALPduInfo) :
    IncomingALPduInfo × Nat :=
  if iSeqNum = SeqNum then (info, next iSeqNum)
  else
    let info :=
      if iSeqNum > SeqNum then
        { info with seq_num_error := ((modulus : Int) - iSeqNum) + SeqNum }
      else info
    -- the block "no wrap" stands without an `else` and runs in either case
    let info := { info with seq_num_error := (SeqNum : Int) - iSeqNum }
    (info, (SeqNum + 1) % modulus)

/-! ## 2. Adaptation layer 2 -/

/-- `AdaptationLayer2`: `iSNPos` is 1 with sequence numbers, else 0. -/
structure AdaptationLayer2 where
  iSNPos : Nat
  iSeqNum : Nat
  deriving DecidableEq, Repr

namespace AdaptationLayer2

/-- `StartPacket`: a fragment of one byte for the sequence number. -/
def StartPacket (al : AdaptationLayer2) : Packet := if al.iSNPos ≠ 0 then [[0]] else []

/-- `CompletePacket`: the sequence number into fragment 0, the CRC into a fragment at the end. -/
def CompletePacket (al : AdaptationLayer2) (pkt : Packet) :
    Option (Packet × AdaptationLayer2) := do
  let (pkt, al) ←
    if al.iSNPos ≠ 0 then do
      let pkt ← writeHeader [UInt8.ofNat al.iSeqNum] pkt
      some (pkt, { al with iSeqNum := if al.iSeqNum ≠ 0xff then al.iSeqNum + 1 else 0 })
    else some (pkt, al)
  let Crc ← Crc8Check pkt false
  some (pkt ++ [[Crc]], al)

/-- The fragments put back with `first_frag` in front, where the array holds them; a packet of
    more fragments stays as it is. -/
def rebuild (al : AdaptationLayer2) (first_frag : List UInt8) (pkt : Packet) : Packet :=
  if al.iSNPos ≠ 0 then
    if pkt.length ≤ PV2WAY_MAX_PACKET_MEM_FRAG then first_frag :: pkt.tail else pkt
  else pkt

/-- `ParsePacket`. A read outside a fragment has no result. -/
def ParsePacket (al : AdaptationLayer2) (pkt : Packet) :
    Option (IncomingALPduInfo × Packet × AdaptationLayer2) :=
  let info : IncomingALPduInfo := ⟨sduSize pkt al.iSNPos 1, false, al.iSeqNum, 0⟩
  if info.sdu_size ≤ 0 then some (info, pkt, al)
  else do
    let last_frag ← pkt[pkt.length - 1]?
    let Crc ← last_frag.getLast?
    let pkt := setMediaFragFilledLen pkt (pkt.length - 1) (last_frag.length - 1)
    let first_frag ← pkt[0]?
    let CrcCheck ← Crc8Check pkt false
    if Crc ≠ CrcCheck then
      some ({ info with crc_error := true }, al.rebuild first_frag pkt,
        { al with iSeqNum := (al.iSeqNum + 1) % 256 })
    else if al.iSNPos = 1 then do
      let SeqNum ← first_frag.head?
      let (info, iSeqNum) :=
        checkSeqNum (fun n => (n + 1) % 256) 256 al.iSeqNum SeqNum.toNat info
      some (info, al.rebuild (first_frag.drop al.iSNPos) pkt, { al with iSeqNum := iSeqNum })
    else some (info, al.rebuild first_frag pkt, al)

end AdaptationLayer2

/-! ## 3. Adaptation layer 3 -/

/-- `AdaptationLayer3`: `iSNPos` is the size of the control field, 0, 1 or 2. -/
structure AdaptationLayer3 where
  iSNPos : Nat
  iSeqNum : Nat
  deriving DecidableEq, Repr

namespace AdaptationLayer3

/-- `VrMax`: the largest sequence number of a control field of the given size. -/
def VrMax (iSNPos : Nat) : Nat :=
  match iSNPos with
  | 1 => 0x7F
  | 2 => 0x7FFF
  | _ => 0

/-- The number after `iSeqNum`. -/
def bump (iSNPos iSeqNum : Nat) : Nat := if iSeqNum = VrMax iSNPos then 0 else iSeqNum + 1

/-- `StartPacket`: a fragment for the control field. -/
def StartPacket (al : AdaptationLayer3) : Packet :=
  if al.iSNPos ≠ 0 then [List.replicate al.iSNPos 0] else []

/-- `CompletePacket`: the control field into fragment 0, the CRC into a fragment at the end. -/
def CompletePacket (al : AdaptationLayer3) (pkt : Packet) :
    Option (Packet × AdaptationLayer3) := do
  let (pkt, al) ←
    match al.iSNPos with
    | 1 => do
      let usTmp := al.iSeqNum
      let pkt ← writeHeader [UInt8.ofNat ((usTmp <<< 1) ||| 1)] pkt
      some (pkt, { al with iSeqNum := bump 1 usTmp })
    | 2 => do
      let usTmp := al.iSeqNum
      let pkt ← writeHeader [UInt8.ofNat ((usTmp >>> 7) ||| 1), UInt8.ofNat (usTmp &&& 0xff)] pkt
      some (pkt, { al with iSeqNum := bump 2 usTmp })
    | _ => some (pkt, al)
  let Crc ← Crc16Check pkt false
  some (pkt ++ [[Crc.toUInt8, (Crc >>> 8).toUInt8]], al)

/-- The sequence number in the control field, read from the first fragment. -/
def readSeqNum (iSNPos : Nat) (first_frag : List UInt8) : Option Nat :=
  match iSNPos with
  | 1 => do
    let b ← first_frag[0]?
    some (b.toNat >>> 1)
  | 2 => do
    let b₀ ← first_frag[0]?
    let b₁ ← first_frag[1]?
    some (((b₀.toNat >>> 1) <<< 8) ||| b₁.toNat)
  | _ => some 0

/-- The CRC of two bytes, low byte first. -/
def crcOf (lo hi : UInt8) : UInt16 := (hi.toUInt16 <<< 8) ||| lo.toUInt16

/-- The CRC taken off: both bytes from the last fragment, or one from each of the last two. -/
def takeCrc (pkt : Packet) : Option (UInt16 × Packet) := do
  let n := pkt.length
  let last_frag ← pkt[n - 1]?
  if 2 ≤ last_frag.length then do
    let hi ← last_frag[last_frag.length - 1]?
    let lo ← last_frag[last_frag.length - 2]?
    some (crcOf lo hi, setMediaFragFilledLen pkt (n - 1) (last_frag.length - 2))
  else do
    let second_last_frag ← if 2 ≤ n then pkt[n - 2]? else none
    let hi ← last_frag[0]?
    let lo ← second_last_frag.getLast?
    let pkt := setMediaFragFilledLen pkt (n - 1) (last_frag.length - 1)
    some (crcOf lo hi, setMediaFragFilledLen pkt (n - 2) (second_last_frag.length - 1))

/-- The control field taken off the first fragment; `frags` holds 32 fragments, and one more is
    written outside it. -/
def rebuild (al : AdaptationLayer3) (pkt : Packet) : Option Packet :=
  if al.iSNPos ≠ 0 then do
    let first_frag ← pkt[0]?
    if first_frag.length < al.iSNPos ∨ PV2WAY_MAX_PACKET_MEM_FRAG < pkt.length then none
    else some (first_frag.drop al.iSNPos :: pkt.tail)
  else some pkt

/-- `ParsePacket`. A read or write outside a fragment or an array has no result. -/
def ParsePacket (al : AdaptationLayer3) (pkt : Packet) :
    Option (IncomingALPduInfo × Packet × AdaptationLayer3) :=
  let info : IncomingALPduInfo := ⟨sduSize pkt al.iSNPos 2, false, al.iSeqNum, 0⟩
  if info.sdu_size ≤ 0 then some (info, pkt, al)
  else do
    let first_frag ← pkt[0]?
    let SeqNum ← readSeqNum al.iSNPos first_frag
    let (Crc, pkt) ← takeCrc pkt
    let CrcCheck ← Crc16Check pkt false
    let (info, iSeqNum) :=
      if Crc ≠ CrcCheck then
        ({ info with crc_error := true }, bump al.iSNPos al.iSeqNum)
      else
        checkSeqNum (bump al.iSNPos) (VrMax al.iSNPos + 1) al.iSeqNum SeqNum info
    let pkt ← al.rebuild pkt
    some (info, pkt, { al with iSeqNum := iSeqNum })

end AdaptationLayer3

/-! ## 4. Sizes and fragments -/

theorem bmod_65536 (x : Int) : Int.bmod x 65536 =
    if x % 65536 < 32768 then x % 65536 else x % 65536 - 65536 := rfl

variable {pkt : Packet}

theorem sduSize_of_lt {iSNPos crcSize n : Nat}
    (h : getFilledSize pkt = iSNPos + n + crcSize) (hn : n < 32768) :
    sduSize pkt iSNPos crcSize = n := by
  unfold sduSize
  rw [h, bmod_65536]
  split <;> omega

/-- A size that is reported as positive and exact is below `2^15`. -/
theorem sduSize_eq {iSNPos crcSize n : Nat}
    (h : getFilledSize pkt = iSNPos + n + crcSize) (hs : sduSize pkt iSNPos crcSize = n) :
    n < 32768 := by
  unfold sduSize at hs
  rw [h, bmod_65536] at hs
  split at hs <;> omega

/-- A packet no longer than its control field and CRC has no positive size. -/
theorem lt_of_sduSize {iSNPos crcSize : Nat} (hsmall : iSNPos + crcSize ≤ 32768)
    (hs : ¬ sduSize pkt iSNPos crcSize ≤ 0) : iSNPos + crcSize < getFilledSize pkt := by
  unfold sduSize at hs
  rw [bmod_65536] at hs
  split at hs <;> omega

theorem getFilledSize_of_flatten {header payload trailer : List UInt8}
    (h : pkt.flatten = header ++ payload ++ trailer) :
    getFilledSize pkt = header.length + payload.length + trailer.length := by
  rw [getFilledSize, h, length_append, length_append]

/-- The fragment after `init` cut to `len` bytes. -/
theorem setMediaFragFilledLen_append (init : Packet) (frag : List UInt8) (rest : Packet)
    (len : Nat) :
    setMediaFragFilledLen (init ++ frag :: rest) init.length len = init ++ frag.take len :: rest := by
  unfold setMediaFragFilledLen
  induction init with
  | nil => rfl
  | cons f init ih => simp [ih]

/-- Fragments that all hold bytes, at least one: the last byte stands apart. -/
theorem exists_last (hne : ∀ f ∈ pkt, f ≠ []) (h : pkt ≠ []) :
    ∃ init body b, pkt = init ++ [body ++ [b]] := by
  rcases eq_nil_or_concat pkt with rfl | ⟨init, last, rfl⟩
  · exact absurd rfl h
  · rcases eq_nil_or_concat last with rfl | ⟨body, b, rfl⟩
    · exact absurd rfl (hne [] (by simp))
    · exact ⟨init, body, b, by simp⟩

theorem ne_nil_of_getFilledSize (h : 0 < getFilledSize pkt) : pkt ≠ [] := by
  rintro rfl
  exact absurd h (by decide)

/-- The first byte of the contents stands at the front of the first fragment, where only the last
    fragment may be empty. -/
theorem exists_front {init : Packet} {body first : List UInt8} {rest : Packet} {c : UInt8}
    {data : List UInt8} (hinit : ∀ f ∈ init, f ≠ []) (hfirst : init ++ [body] = first :: rest)
    (hdata : (first :: rest).flatten = c :: data) :
    ∃ tail, first = c :: tail ∧ tail ++ rest.flatten = data := by
  have hne : first ≠ [] := by
    rintro rfl
    rcases init with _ | ⟨f, init⟩
    · cases hfirst
      simp at hdata
    · cases hfirst
      exact hinit [] mem_cons_self rfl
  obtain ⟨d, tail, rfl⟩ := exists_cons_of_ne_nil hne
  simp only [flatten_cons, cons_append, cons.injEq] at hdata
  obtain ⟨rfl, hdata⟩ := hdata
  exact ⟨tail, rfl, hdata⟩

/-! ## 5. What a call returns -/

/-- The payload handed over, no CRC error, and `k` PDUs missing before it. -/
def Exact {α : Type} (result : Option (IncomingALPduInfo × Packet × α)) (payload : List UInt8)
    (k : Nat) : Prop :=
  ∃ info pkt al, result = some (info, pkt, al) ∧ pkt.flatten = payload ∧
    info.sdu_size = payload.length ∧ info.crc_error = false ∧ info.seq_num_error = k

/-- An error reported: no payload, or a wrong CRC. -/
def Reported {α : Type} (result : Option (IncomingALPduInfo × Packet × α)) : Prop :=
  ∃ info pkt al, result = some (info, pkt, al) ∧ (info.sdu_size ≤ 0 ∨ info.crc_error = true)

theorem exact_some {α : Type} (info : IncomingALPduInfo) (pkt : Packet) (al : α)
    (payload : List UInt8) (k : Nat) :
    Exact (some (info, pkt, al)) payload k ↔ pkt.flatten = payload ∧
      info.sdu_size = payload.length ∧ info.crc_error = false ∧ info.seq_num_error = k := by
  constructor
  · rintro ⟨_, _, _, h, hx⟩
    cases h
    exact hx
  · exact fun h => ⟨info, pkt, al, rfl, h⟩

theorem not_exact_none {α : Type} (payload : List UInt8) (k : Nat) :
    ¬ Exact (none : Option (IncomingALPduInfo × Packet × α)) payload k := by
  rintro ⟨_, _, _, h, _⟩
  cases h

theorem exact_map {α β : Type} (g : α → β) (result : Option (IncomingALPduInfo × Packet × α))
    (payload : List UInt8) (k : Nat) :
    Exact (result.map fun r => (r.1, r.2.1, g r.2.2)) payload k ↔ Exact result payload k := by
  rcases result with _ | ⟨info, pkt, al⟩
  · exact iff_of_false (not_exact_none payload k) (not_exact_none payload k)
  · rw [map_some, exact_some, exact_some]

theorem reported_map {α β : Type} (g : α → β)
    (result : Option (IncomingALPduInfo × Packet × α)) :
    Reported (result.map fun r => (r.1, r.2.1, g r.2.2)) ↔ Reported result := by
  rcases result with _ | ⟨info, pkt, al⟩ <;> simp [Reported]

/-- The number of lost PDUs that is stored is the plain difference, whichever is larger. -/
theorem checkSeqNum_spec (next : Nat → Nat) (modulus iSeqNum SeqNum : Nat)
    (info : IncomingALPduInfo) (h : info.seq_num_error = 0) :
    (checkSeqNum next modulus iSeqNum SeqNum info).1
      = { info with seq_num_error := (SeqNum : Int) - iSeqNum } := by
  unfold checkSeqNum
  split
  · next he =>
    subst he
    rw [Int.sub_self, ← h]
  · split <;> rfl

/-! ## 6. Adaptation layer 2, parsed -/

namespace AdaptationLayer2

/-- The result for a PDU without a positive size: the packet as it came. -/
theorem ParsePacket_short (al : AdaptationLayer2) {frags : Packet}
    (hs : sduSize frags al.iSNPos 1 ≤ 0) : al.ParsePacket frags
      = some (⟨sduSize frags al.iSNPos 1, false, al.iSeqNum, 0⟩, frags, al) := by
  unfold ParsePacket
  simp only [hs, if_true]

/-- The result for a PDU with a positive size: the last byte is taken off and compared. -/
theorem ParsePacket_eq (al : AdaptationLayer2) {init : Packet} {body : List UInt8} {b : UInt8}
    {first : List UInt8} {rest : Packet} (hinit : ∀ f ∈ init, f ≠ [])
    (hfirst : init ++ [body] = first :: rest)
    (hs : ¬ sduSize (init ++ [body ++ [b]]) al.iSNPos 1 ≤ 0) :
    al.ParsePacket (init ++ [body ++ [b]]) =
      (let info : IncomingALPduInfo :=
        ⟨sduSize (init ++ [body ++ [b]]) al.iSNPos 1, false, al.iSeqNum, 0⟩
      if b ≠ Crc8 (init ++ [body]).flatten then
        some ({ info with crc_error := true }, al.rebuild first (first :: rest),
          { al with iSeqNum := (al.iSeqNum + 1) % 256 })
      else if al.iSNPos = 1 then do
        let SeqNum ← first.head?
        let (info, iSeqNum) :=
          checkSeqNum (fun n => (n + 1) % 256) 256 al.iSeqNum SeqNum.toNat info
        some (info, al.rebuild (first.drop al.iSNPos) (first :: rest),
          { al with iSeqNum := iSeqNum })
      else some (info, al.rebuild first (first :: rest), al)) := by
  have hlast : (init ++ [body ++ [b]])[(init ++ [body ++ [b]]).length - 1]? = some (body ++ [b]) := by
    simp
  have hpeel : setMediaFragFilledLen (init ++ [body ++ [b]]) ((init ++ [body ++ [b]]).length - 1)
      ((body ++ [b]).length - 1) = first :: rest := by
    rw [← hfirst]
    have hn : (init ++ [body ++ [b]]).length - 1 = init.length := by simp
    rw [hn, setMediaFragFilledLen_append]
    simp
  have hcrc : Crc8Check (first :: rest) false = some (Crc8 (init ++ [body]).flatten) := by
    rw [← hfirst]
    refine Crc8Check_eq_of_closed ?_
    by_cases hbody : body = []
    · exact closed_append hinit (by simp [hbody])
    · exact closed_of_nonempty (by simpa [or_imp, forall_and] using ⟨hinit, hbody⟩)
  unfold ParsePacket
  simp only [hs, if_false, hlast, hpeel, hcrc, getLast?_concat, bind_eq_bind,
    bind_some, getElem?_cons_zero]

/-- The control field for the sequence number `n`. -/
def header (iSNPos n : Nat) : List UInt8 := if iSNPos ≠ 0 then [UInt8.ofNat n] else []

/-- **When a PDU made with the number `n` is returned exactly.** -/
theorem exact_iff (al : AdaptationLayer2) (hpos : al.iSNPos ≤ 1) {frags : Packet}
    (hne : ∀ f ∈ frags, f ≠ []) {n k : Nat} (hn : n < 256) {payload : List UInt8}
    (hflat : frags.flatten = header al.iSNPos n ++ payload
      ++ [Crc8 (header al.iSNPos n ++ payload)]) :
    Exact (al.ParsePacket frags) payload k ↔
      (0 < payload.length ∧ payload.length < 32768) ∧
        (al.iSNPos = 0 ∧ k = 0 ∨
          al.iSNPos ≠ 0 ∧ (n : Int) - al.iSeqNum = k ∧ frags.length ≤ 32) := by
  have hlen : (header al.iSNPos n).length = al.iSNPos := by
    unfold header
    split
    · next h => simp only [length_singleton]; omega
    · next h => simp only [length_nil]; omega
  have hsize : getFilledSize frags = al.iSNPos + payload.length + 1 := by
    rw [getFilledSize_of_flatten hflat, hlen]
    rfl
  by_cases hs : sduSize frags al.iSNPos 1 ≤ 0
  · -- too long for the `int16`, or no payload: the packet comes back with its CRC
    rw [ParsePacket_short al hs, exact_some]
    constructor
    · rintro ⟨h, -⟩
      have := congrArg length h
      rw [show frags.flatten.length = getFilledSize frags from rfl, hsize] at this
      omega
    · rintro ⟨⟨h0, h1⟩, -⟩
      rw [sduSize_of_lt hsize h1] at hs
      omega
  · have hpositive := lt_of_sduSize (by omega) hs
    obtain ⟨init, body, b, rfl⟩ := exists_last hne (ne_nil_of_getFilledSize (by omega))
    have hinit : ∀ f ∈ init, f ≠ [] := fun f hf => hne f (mem_append_left _ hf)
    obtain ⟨first, rest, hfirst⟩ := exists_cons_of_ne_nil (l := init ++ [body]) (by simp)
    have hsplit : (init ++ [body]).flatten ++ [b] = header al.iSNPos n ++ payload
        ++ [Crc8 (header al.iSNPos n ++ payload)] := by
      rw [← hflat]
      simp
    obtain ⟨hbody, hb⟩ := append_inj' hsplit rfl
    have hb : b = Crc8 (init ++ [body]).flatten := by
      rw [hbody]
      exact (cons.inj hb).1
    subst hb
    have hcount : (first :: rest).length
        = (init ++ [body ++ [Crc8 (init ++ [body]).flatten]]).length := by
      rw [← hfirst]
      simp
    rw [ParsePacket_eq al hinit hfirst hs]
    simp only [ne_eq, not_true_eq_false, if_false]
    rw [hfirst] at hbody
    have hexact : sduSize (init ++ [body ++ [Crc8 (init ++ [body]).flatten]]) al.iSNPos 1
          = payload.length ↔ 0 < payload.length ∧ payload.length < 32768 :=
      ⟨fun h => ⟨by omega, sduSize_eq hsize h⟩, fun h => sduSize_of_lt hsize h.2⟩
    rcases Nat.le_one_iff_eq_zero_or_eq_one.mp hpos with h0 | h1
    · have hdata : (first :: rest).flatten = payload := by simpa [header, h0] using hbody
      rw [if_neg (by omega), exact_some]
      simp only [rebuild, h0, ne_eq, not_true_eq_false, if_false, hdata, true_and, false_and,
        or_false, ← hexact]
      refine and_congr_right fun _ => ⟨fun h => ?_, fun h => ?_⟩ <;> omega
    · have hdata : (first :: rest).flatten = UInt8.ofNat n :: payload := by
        simpa [header, h1] using hbody
      obtain ⟨tail, rfl, htail⟩ := exists_front hinit hfirst hdata
      have hseq : (UInt8.ofNat n).toNat = n := by simp; omega
      rw [if_pos h1]
      simp only [head?_cons, bind_eq_bind, bind_some, hseq]
      rw [exact_some, checkSeqNum_spec _ _ _ _ _ rfl]
      simp only [← hexact, true_and]
      by_cases h32 : ((UInt8.ofNat n :: tail) :: rest).length ≤ 32
      · have hstrip : (al.rebuild (drop al.iSNPos (UInt8.ofNat n :: tail))
            ((UInt8.ofNat n :: tail) :: rest)).flatten = payload := by
          simp only [rebuild, h1, PV2WAY_MAX_PACKET_MEM_FRAG, h32, ne_eq, one_ne_zero,
            not_false_eq_true, if_true, drop_one, tail_cons, flatten_cons, htail]
        refine ⟨fun h => ⟨h.2.1, inr ⟨by omega, h.2.2, hcount ▸ h32⟩⟩, fun h => ⟨hstrip, h.1, ?_⟩⟩
        rcases h.2 with ⟨h0, -⟩ | ⟨-, hk, -⟩
        · omega
        · exact hk
      · -- the packet keeps its control field
        have hkeep : (al.rebuild (drop al.iSNPos (UInt8.ofNat n :: tail))
            ((UInt8.ofNat n :: tail) :: rest)).flatten ≠ payload := by
          simp only [rebuild, h1, PV2WAY_MAX_PACKET_MEM_FRAG, h32, ne_eq, one_ne_zero,
            not_false_eq_true, if_true, if_false, hdata]
          exact fun h => absurd (congrArg length h) (by simp)
        refine ⟨fun h => absurd h.1 hkeep, fun h => ?_⟩
        rcases h.2 with ⟨h0, -⟩ | ⟨-, -, h⟩
        · omega
        · exact absurd (hcount ▸ h) h32

/-- **A PDU that is too short or has a wrong CRC is reported.** -/
theorem reported_of_bad (al : AdaptationLayer2) (hpos : al.iSNPos ≤ 1) {frags : Packet}
    (hne : ∀ f ∈ frags, f ≠ [])
    (hbad : getFilledSize frags ≤ al.iSNPos + 1 ∨
      ∀ data b, frags.flatten = data ++ [b] → b ≠ Crc8 data) :
    Reported (al.ParsePacket frags) := by
  by_cases hs : sduSize frags al.iSNPos 1 ≤ 0
  · exact ⟨_, _, _, ParsePacket_short al hs, inl hs⟩
  · have hpositive := lt_of_sduSize (by omega) hs
    rcases hbad with hshort | hcrc
    · omega
    · obtain ⟨init, body, b, rfl⟩ := exists_last hne (ne_nil_of_getFilledSize (by omega))
      have hinit : ∀ f ∈ init, f ≠ [] := fun f hf => hne f (mem_append_left _ hf)
      obtain ⟨first, rest, hfirst⟩ := exists_cons_of_ne_nil (l := init ++ [body]) (by simp)
      have hb : b ≠ Crc8 (init ++ [body]).flatten := hcrc _ b (by simp)
      rw [ParsePacket_eq al hinit hfirst hs]
      simp only [hb, ne_eq, not_false_eq_true, if_true]
      exact ⟨_, _, _, rfl, inr rfl⟩

/-- The number after this one. -/
def next (iSNPos iSeqNum : Nat) : Nat :=
  if iSNPos ≠ 0 then (iSeqNum + 1) % 256 else iSeqNum

/-- **What `CompletePacket` makes**: control field, payload and the CRC over both. -/
theorem CompletePacket_spec (al : AdaptationLayer2) (hpos : al.iSNPos ≤ 1)
    (hn : al.iSNPos = 0 ∨ al.iSeqNum < 256) {payload : Packet} (hne : ∀ f ∈ payload, f ≠ []) :
    ∃ pdu, al.CompletePacket (al.StartPacket ++ payload)
        = some (pdu, { al with iSeqNum := next al.iSNPos al.iSeqNum }) ∧
      pdu.flatten = header al.iSNPos al.iSeqNum ++ payload.flatten
        ++ [Crc8 (header al.iSNPos al.iSeqNum ++ payload.flatten)] := by
  rcases Nat.le_one_iff_eq_zero_or_eq_one.mp hpos with h0 | h1
  · refine ⟨payload ++ [[Crc8 payload.flatten]], ?_, ?_⟩
    · rcases al with ⟨iSNPos, iSeqNum⟩
      obtain rfl : iSNPos = 0 := h0
      simp [CompletePacket, StartPacket, next, Crc8Check_eq_of_closed (closed_of_nonempty hne)]
    · simp [header, h0]
  · have hlt : al.iSeqNum < 256 := by omega
    have hclosed : Closed ([UInt8.ofNat al.iSeqNum] :: payload) :=
      closed_of_nonempty (by simpa using hne)
    have hcrc := Crc8Check_eq_of_closed hclosed
    have hnext : (if al.iSeqNum ≠ 0xff then al.iSeqNum + 1 else 0) = (al.iSeqNum + 1) % 256 := by
      split <;> omega
    refine ⟨([UInt8.ofNat al.iSeqNum] :: payload)
      ++ [[Crc8 ([UInt8.ofNat al.iSeqNum] :: payload).flatten]], ?_, ?_⟩
    · simp only [CompletePacket, StartPacket, h1, ne_eq, one_ne_zero, not_false_eq_true, if_true,
        singleton_append, writeHeader, length_singleton, drop_one, tail_cons,
        append_nil, bind_eq_bind, bind_some, hcrc, next]
      rw [← hnext]
    · simp [header, h1]

end AdaptationLayer2

/-! ## 7. Adaptation layer 3, parsed -/

/-- The two bytes of a CRC, low byte first. -/
def crcBytes (Crc : UInt16) : List UInt8 := [Crc.toUInt8, (Crc >>> 8).toUInt8]

namespace AdaptationLayer3

/-- The CRC read from two bytes is the one they were made of. -/
theorem crcOf_eq_iff (lo hi : UInt8) (Crc : UInt16) :
    crcOf lo hi = Crc ↔ [lo, hi] = crcBytes Crc := by
  have hnat : (crcOf lo hi).toNat = hi.toNat * 256 + lo.toNat := by
    have hlo := lo.toNat_lt
    have hhi := hi.toNat_lt
    have hor := Nat.shiftLeft_add_eq_or_of_lt (i := 8) (b := lo.toNat) hlo hi.toNat
    have hshift : hi.toNat <<< 8 % 65536 = hi.toNat <<< 8 := by
      rw [Nat.shiftLeft_eq]
      exact Nat.mod_eq_of_lt (by omega)
    simp only [crcOf, UInt16.toNat_or, UInt16.toNat_shiftLeft, UInt8.toNat_toUInt16]
    rw [show (8 : UInt16).toNat % 16 = 8 from rfl, show (2 : Nat) ^ 16 = 65536 from rfl, hshift,
      ← hor, Nat.shiftLeft_eq]
  simp only [← UInt16.toNat_inj, hnat, crcBytes, cons.injEq, and_true, ← UInt8.toNat_inj]
  have hlo := lo.toNat_lt
  have hhi := hi.toNat_lt
  have hc := Crc.toNat_lt
  have h1 : Crc.toUInt8.toNat = Crc.toNat % 256 := by simp
  have h2 : (Crc >>> 8).toUInt8.toNat = Crc.toNat / 256 := by
    simp [Nat.shiftRight_eq_div_pow]
    omega
  rw [h1, h2]
  omega

/-- The control field for the sequence number `n`. -/
def header (iSNPos n : Nat) : List UInt8 :=
  match iSNPos with
  | 1 => [UInt8.ofNat ((n <<< 1) ||| 1)]
  | 2 => [UInt8.ofNat ((n >>> 7) ||| 1), UInt8.ofNat (n &&& 0xff)]
  | _ => []

theorem header_length {iSNPos : Nat} (hpos : iSNPos ≤ 2) (n : Nat) :
    (header iSNPos n).length = iSNPos := by
  rcases iSNPos with _ | _ | _ | m
  · rfl
  · rfl
  · rfl
  · omega

/-- The lowest bit of a control field is not part of the number. -/
theorem or_one_shiftRight (n : Nat) : (n ||| 1) >>> 1 = n >>> 1 := by
  rw [Nat.shiftRight_or_distrib]
  simp

/-- A control field in the first fragment gives its number back. -/
theorem readSeqNum_header {iSNPos n : Nat} (hpos : iSNPos ≤ 2) (hn : n ≤ VrMax iSNPos)
    {frag more data : List UInt8} (hlen : iSNPos ≤ frag.length)
    (h : frag ++ more = header iSNPos n ++ data) : readSeqNum iSNPos frag = some n := by
  rcases iSNPos with _ | _ | _ | m
  · simp only [VrMax] at hn
    simp [readSeqNum]
    omega
  · obtain ⟨b, tail, rfl⟩ := exists_cons_of_ne_nil (ne_nil_of_length_pos hlen)
    obtain ⟨rfl, -⟩ := cons.inj h
    simp only [VrMax] at hn
    have hlt : (n <<< 1 ||| 1) < 256 :=
      Nat.or_lt_two_pow (n := 8) (by rw [Nat.shiftLeft_eq]; omega) (by decide)
    show some ((UInt8.ofNat (n <<< 1 ||| 1)).toNat >>> 1) = some n
    rw [UInt8.toNat_ofNat_of_lt' hlt, or_one_shiftRight, Nat.shiftLeft_shiftRight]
  · rcases frag with _ | ⟨b₀, _ | ⟨b₁, tail⟩⟩
    · simp at hlen
    · simp at hlen
    · simp only [header, cons_append, nil_append, cons.injEq] at h
      obtain ⟨rfl, rfl, -⟩ := h
      simp only [VrMax] at hn
      have hlt : (n >>> 7 ||| 1) < 256 :=
        Nat.or_lt_two_pow (n := 8) (by rw [Nat.shiftRight_eq_div_pow]; omega) (by decide)
      have hlow : n &&& 255 = n % 256 := Nat.and_two_pow_sub_one_eq_mod n 8
      have hor := Nat.shiftLeft_add_eq_or_of_lt (i := 8) (b := n % 256)
        (Nat.mod_lt n (by decide)) (n >>> 8)
      have hword : (n >>> 8) <<< 8 ||| n % 256 = n := by
        rw [← hor, Nat.shiftLeft_eq, Nat.shiftRight_eq_div_pow]
        omega
      show some (((UInt8.ofNat (n >>> 7 ||| 1)).toNat >>> 1) <<< 8
        ||| (UInt8.ofNat (n &&& 255)).toNat) = some n
      rw [UInt8.toNat_ofNat_of_lt' hlt, or_one_shiftRight, hlow, ← Nat.shiftRight_add,
        UInt8.toNat_ofNat_of_lt' (Nat.mod_lt n (by decide)), hword]
  · omega

/-- Any control field in the first fragment is read. -/
theorem readSeqNum_isSome {iSNPos : Nat} {frag : List UInt8} (hlen : iSNPos ≤ frag.length) :
    ∃ SeqNum, readSeqNum iSNPos frag = some SeqNum := by
  rcases iSNPos with _ | _ | _ | m
  · exact ⟨0, rfl⟩
  · rcases frag with _ | ⟨b, tail⟩
    · simp at hlen
    · exact ⟨_, rfl⟩
  · rcases frag with _ | ⟨b₀, _ | ⟨b₁, tail⟩⟩
    · simp at hlen
    · simp at hlen
    · exact ⟨_, rfl⟩
  · exact ⟨0, rfl⟩

/-- A control field that goes on in the second fragment is read outside the first. -/
theorem readSeqNum_short {iSNPos : Nat} (hpos : iSNPos ≤ 2) {frag : List UInt8}
    (hlen : frag.length < iSNPos) : readSeqNum iSNPos frag = none := by
  rcases iSNPos with _ | _ | _ | m
  · omega
  · rcases frag with _ | ⟨b, tail⟩
    · rfl
    · simp at hlen
  · rcases frag with _ | ⟨b₀, _ | ⟨b₁, tail⟩⟩
    · rfl
    · rfl
    · simp at hlen
  · omega

/-- The CRC taken off a packet of at least three bytes, in its last fragment or across its last
    two. -/
theorem takeCrc_spec {f : List UInt8} {rest : Packet} (hne : ∀ g ∈ f :: rest, g ≠ [])
    (hsize : 3 ≤ getFilledSize (f :: rest)) :
    ∃ lo hi f' rest', takeCrc (f :: rest) = some (crcOf lo hi, f' :: rest') ∧
      (f :: rest).flatten = (f' :: rest').flatten ++ [lo, hi] ∧ Closed (f' :: rest') ∧
      rest'.length = rest.length ∧
      (∀ m, m + 3 ≤ getFilledSize (f :: rest) → (m ≤ f'.length ↔ m ≤ f.length)) := by
  obtain ⟨init, body, hi, hpkt⟩ := exists_last hne (by simp)
  have hinit : ∀ g ∈ init, g ≠ [] := by
    intro g hg
    exact hne g (by rw [hpkt]; exact mem_append_left _ hg)
  rcases eq_nil_or_concat body with rfl | ⟨body, lo, rfl⟩
  · -- the last fragment is the second CRC byte
    have hinit0 : init ≠ [] := by
      rintro rfl
      rw [hpkt] at hsize
      simp [getFilledSize] at hsize
    obtain ⟨init', body, lo, rfl⟩ := exists_last hinit hinit0
    have hpkt' : f :: rest = init' ++ (body ++ [lo]) :: [[hi]] := by simpa using hpkt
    have hlen : (f :: rest).length = init'.length + 2 := by rw [hpkt']; simp
    obtain ⟨f', rest', hfirst⟩ := exists_cons_of_ne_nil (l := init' ++ [body, []]) (by simp)
    have hinit' : ∀ g ∈ init', g ≠ [] := fun g hg => hinit g (mem_append_left _ hg)
    refine ⟨lo, hi, f', rest', ?_, ?_, ?_, ?_, ?_⟩
    · have h1 : (f :: rest)[init'.length + 1]? = some [hi] := by rw [hpkt']; simp
      have h2 : (f :: rest)[init'.length]? = some (body ++ [lo]) := by rw [hpkt']; simp
      have h3 : setMediaFragFilledLen (f :: rest) (init'.length + 1) 0
          = init' ++ (body ++ [lo]) :: [[]] := by
        have := setMediaFragFilledLen_append (init' ++ [body ++ [lo]]) [hi] [] 0
        rw [hpkt']
        simpa using this
      have h4 : setMediaFragFilledLen (init' ++ (body ++ [lo]) :: [[]]) init'.length body.length
          = f' :: rest' := by
        rw [setMediaFragFilledLen_append, ← hfirst]
        simp
      unfold takeCrc
      simp only [hlen, Nat.add_sub_cancel, show init'.length + 2 - 1 = init'.length + 1 by omega,
        h1, h2, bind_eq_bind, bind_some, length_singleton,
        show ¬ 2 ≤ 1 by omega, if_false, show 2 ≤ init'.length + 2 by omega, if_true,
        getElem?_cons_zero, getLast?_concat, Nat.sub_self, h3, length_append, h4]
    · rw [← hfirst, hpkt']
      simp
    · rw [← hfirst]
      by_cases hbody : body = []
      · exact closed_append hinit' (by simp [hbody])
      · have hfrags : ∀ g ∈ init' ++ [body], g ≠ [] := by
          simpa [or_imp, forall_and] using ⟨hinit', hbody⟩
        have hempty : [([] : List UInt8)].flatten = [] := rfl
        simpa using closed_append hfrags hempty
    · have := congrArg length hfirst
      simp at this hlen
      omega
    · intro m hm
      rw [hpkt'] at hm
      rcases init' with _ | ⟨g, init'⟩
      · cases hfirst
        obtain ⟨rfl, -⟩ := cons.inj hpkt'
        simp [getFilledSize] at hm ⊢
        omega
      · cases hfirst
        obtain ⟨rfl, -⟩ := cons.inj hpkt'
        exact Iff.rfl
  · have hpkt' : f :: rest = init ++ [body ++ [lo, hi]] := by simpa using hpkt
    have hlen : (f :: rest).length = init.length + 1 := by rw [hpkt']; simp
    obtain ⟨f', rest', hfirst⟩ := exists_cons_of_ne_nil (l := init ++ [body]) (by simp)
    refine ⟨lo, hi, f', rest', ?_, ?_, ?_, ?_, ?_⟩
    · have h1 : (f :: rest)[init.length]? = some (body ++ [lo, hi]) := by rw [hpkt']; simp
      have h2 : setMediaFragFilledLen (f :: rest) init.length body.length = f' :: rest' := by
        rw [hpkt', setMediaFragFilledLen_append, ← hfirst]
        simp
      have h3 : (body ++ [lo, hi])[body.length + 1]? = some hi := by simp
      have h4 : (body ++ [lo, hi])[body.length]? = some lo := by simp
      have hfrag : (body ++ [lo, hi]).length = body.length + 2 := by simp
      unfold takeCrc
      simp only [hlen, Nat.add_sub_cancel, h1, bind_eq_bind, bind_some, hfrag,
        show 2 ≤ body.length + 2 by omega, if_true,
        show body.length + 2 - 1 = body.length + 1 by omega, h3, h4, h2]
    · rw [← hfirst, hpkt']
      simp
    · rw [← hfirst]
      by_cases hbody : body = []
      · exact closed_append hinit (by simp [hbody])
      · exact closed_of_nonempty (by simpa [or_imp, forall_and] using ⟨hinit, hbody⟩)
    · have := congrArg length hfirst
      simp at this hlen
      omega
    · intro m hm
      rw [hpkt'] at hm
      rcases init with _ | ⟨g, init⟩
      · cases hfirst
        obtain ⟨rfl, -⟩ := cons.inj hpkt'
        simp [getFilledSize] at hm ⊢
        omega
      · cases hfirst
        obtain ⟨rfl, -⟩ := cons.inj hpkt'
        exact Iff.rfl

section

variable (al : AdaptationLayer3)
include al

/-- The result for a PDU without a positive size: the packet as it came. -/
theorem ParsePacket_short {frags : Packet}
    (hs : sduSize frags al.iSNPos 2 ≤ 0) : al.ParsePacket frags
      = some (⟨sduSize frags al.iSNPos 2, false, al.iSeqNum, 0⟩, frags, al) := by
  unfold ParsePacket
  simp only [hs, if_true]

/-- A control field that does not lie in the first fragment is read outside it. -/
theorem ParsePacket_none (hpos : al.iSNPos ≤ 2) {f : List UInt8}
    {rest : Packet} (hs : ¬ sduSize (f :: rest) al.iSNPos 2 ≤ 0) (hlen : f.length < al.iSNPos) :
    al.ParsePacket (f :: rest) = none := by
  unfold ParsePacket
  simp only [hs, if_false, getElem?_cons_zero, bind_eq_bind, bind_some,
    readSeqNum_short hpos hlen, bind_none]

/-- The result for a PDU with a positive size and its control field in the first fragment. -/
theorem ParsePacket_eq {f f' : List UInt8} {rest rest' : Packet}
    {lo hi : UInt8} {SeqNum : Nat} (hs : ¬ sduSize (f :: rest) al.iSNPos 2 ≤ 0)
    (hseq : readSeqNum al.iSNPos f = some SeqNum)
    (htake : takeCrc (f :: rest) = some (crcOf lo hi, f' :: rest')) (hclosed : Closed (f' :: rest')) :
    al.ParsePacket (f :: rest) =
      (let info : IncomingALPduInfo := ⟨sduSize (f :: rest) al.iSNPos 2, false, al.iSeqNum, 0⟩
      let (info, iSeqNum) :=
        if crcOf lo hi ≠ Crc16 (f' :: rest').flatten then
          ({ info with crc_error := true }, bump al.iSNPos al.iSeqNum)
        else checkSeqNum (bump al.iSNPos) (VrMax al.iSNPos + 1) al.iSeqNum SeqNum info
      (al.rebuild (f' :: rest')).bind fun pkt =>
        some (info, pkt, { al with iSeqNum := iSeqNum })) := by
  unfold ParsePacket
  simp only [hs, if_false, getElem?_cons_zero, bind_eq_bind, bind_some, hseq,
    htake, Crc16Check_eq_of_closed hclosed]

/-- When the fragments are put back: 32 at most, the first one holding the control field. -/
theorem rebuild_iff (f : List UInt8) (rest : Packet) :
    (∃ pkt, al.rebuild (f :: rest) = some pkt) ↔
      al.iSNPos = 0 ∨ (al.iSNPos ≤ f.length ∧ (f :: rest).length ≤ 32) := by
  by_cases h0 : al.iSNPos = 0
  · simp [rebuild, h0]
  · simp [rebuild, h0, PV2WAY_MAX_PACKET_MEM_FRAG]

/-- What is put back: all but the control field. -/
theorem rebuild_flatten {f : List UInt8} {rest pkt : Packet}
    (h : al.rebuild (f :: rest) = some pkt) (hlen : al.iSNPos ≤ f.length) :
    pkt.flatten = (f :: rest).flatten.drop al.iSNPos := by
  by_cases h0 : al.iSNPos = 0
  · simp only [rebuild, h0, ne_eq, not_true_eq_false, if_false, some.injEq] at h
    rw [← h, h0, drop_zero]
  · simp only [rebuild, h0, ne_eq, not_false_eq_true, if_true, getElem?_cons_zero,
      bind_eq_bind, bind_some, tail_cons] at h
    split at h
    · cases h
    · cases h
      rw [flatten_cons, flatten_cons, drop_append_of_le_length hlen]

/-- **When a PDU made with the number `n` is returned exactly.** -/
theorem exact_iff (hpos : al.iSNPos ≤ 2) {frags : Packet}
    (hne : ∀ f ∈ frags, f ≠ []) {n k : Nat} (hn : n ≤ VrMax al.iSNPos) {payload : List UInt8}
    (hflat : frags.flatten = header al.iSNPos n ++ payload
      ++ crcBytes (Crc16 (header al.iSNPos n ++ payload))) :
    Exact (al.ParsePacket frags) payload k ↔
      (0 < payload.length ∧ payload.length < 32768) ∧ (n : Int) - al.iSeqNum = k ∧
        (al.iSNPos = 0 ∨ (al.iSNPos ≤ (frags.headD []).length ∧ frags.length ≤ 32)) := by
  have hsize : getFilledSize frags = al.iSNPos + payload.length + 2 := by
    rw [getFilledSize_of_flatten hflat, header_length hpos]
    rfl
  rcases frags with _ | ⟨f, rest⟩
  · simp [getFilledSize] at hsize
  by_cases hs : sduSize (f :: rest) al.iSNPos 2 ≤ 0
  · -- too long for the `int16`, or no payload: the packet comes back with its CRC
    rw [ParsePacket_short al hs, exact_some]
    constructor
    · rintro ⟨h, -⟩
      have := congrArg length h
      rw [show (f :: rest).flatten.length = getFilledSize (f :: rest) from rfl, hsize] at this
      omega
    · rintro ⟨⟨h0, h1⟩, -⟩
      rw [sduSize_of_lt hsize h1] at hs
      omega
  · have hpositive := lt_of_sduSize (by omega) hs
    have hexact : sduSize (f :: rest) al.iSNPos 2
          = payload.length ↔ 0 < payload.length ∧ payload.length < 32768 :=
      ⟨fun h => ⟨by omega, sduSize_eq hsize h⟩, fun h => sduSize_of_lt hsize h.2⟩
    obtain ⟨lo, hi, f', rest', htake, hsplit, hclosed, hcount, hfront⟩ :=
      takeCrc_spec hne (by omega)
    have hfront := hfront al.iSNPos (by omega)
    by_cases hlen : al.iSNPos ≤ f.length
    · have hseq : readSeqNum al.iSNPos f = some n := by
        have hdata : f ++ rest.flatten = header al.iSNPos n
            ++ (payload ++ crcBytes (Crc16 (header al.iSNPos n ++ payload))) := by
          rw [← flatten_cons, hflat, append_assoc]
        exact readSeqNum_header hpos hn hlen hdata
      rw [hflat] at hsplit
      obtain ⟨hdata, hcrc⟩ := append_inj' hsplit rfl
      have hgood : crcOf lo hi = Crc16 (f' :: rest').flatten := by
        rw [← hdata]
        exact (crcOf_eq_iff lo hi _).mpr hcrc.symm
      have hbuilt : (∃ pkt, al.rebuild (f' :: rest') = some pkt) ↔
          al.iSNPos = 0 ∨ (al.iSNPos ≤ f.length ∧ (f :: rest).length ≤ 32) := by
        rw [rebuild_iff, hfront, length_cons, hcount, length_cons]
      rw [ParsePacket_eq al hs hseq htake hclosed, headD_cons, ← hbuilt]
      simp only [hgood, ne_eq, not_true_eq_false, if_false]
      rcases hr : al.rebuild (f' :: rest') with _ | pkt
      · simp [not_exact_none]
      · have hpkt : pkt.flatten = payload := by
          rw [rebuild_flatten al hr (hfront.mpr hlen), ← hdata,
            drop_left' (header_length hpos n)]
        rw [bind_some, exact_some, checkSeqNum_spec _ _ _ _ _ rfl]
        simp [hpkt, hexact]
    · rw [ParsePacket_none al hpos hs (by omega)]
      refine ⟨fun h => absurd h (not_exact_none _ _), ?_⟩
      rintro ⟨-, -, h0 | ⟨h, -⟩⟩
      · omega
      · exact absurd h hlen

/-- **When a PDU that is too short or has a wrong CRC is reported.** -/
theorem reported_iff_of_bad (hpos : al.iSNPos ≤ 2) {frags : Packet}
    (hne : ∀ f ∈ frags, f ≠ [])
    (hbad : getFilledSize frags ≤ al.iSNPos + 2 ∨
      ∀ data lo hi, frags.flatten = data ++ [lo, hi] → crcOf lo hi ≠ Crc16 data) :
    Reported (al.ParsePacket frags) ↔ sduSize frags al.iSNPos 2 ≤ 0 ∨
      al.iSNPos = 0 ∨ (al.iSNPos ≤ (frags.headD []).length ∧ frags.length ≤ 32) := by
  by_cases hs : sduSize frags al.iSNPos 2 ≤ 0
  · exact ⟨fun _ => inl hs, fun _ => ⟨_, _, _, ParsePacket_short al hs, inl hs⟩⟩
  · have hpositive := lt_of_sduSize (by omega) hs
    rcases frags with _ | ⟨f, rest⟩
    · simp [getFilledSize] at hpositive
    rcases hbad with hshort | hcrc
    · omega
    obtain ⟨lo, hi, f', rest', htake, hsplit, hclosed, hcount, hfront⟩ :=
      takeCrc_spec hne (by omega)
    have hfront := hfront al.iSNPos (by omega)
    by_cases hlen : al.iSNPos ≤ f.length
    · obtain ⟨SeqNum, hseq⟩ := readSeqNum_isSome hlen
      have hbuilt : (∃ pkt, al.rebuild (f' :: rest') = some pkt) ↔
          al.iSNPos = 0 ∨ (al.iSNPos ≤ f.length ∧ (f :: rest).length ≤ 32) := by
        rw [rebuild_iff, hfront, length_cons, hcount, length_cons]
      rw [ParsePacket_eq al hs hseq htake hclosed, headD_cons, ← hbuilt]
      simp only [hcrc _ lo hi hsplit, ne_eq, not_false_eq_true, if_true]
      rcases hr : al.rebuild (f' :: rest') with _ | pkt
      · simp [Reported, hs]
      · simp [Reported]
    · rw [ParsePacket_none al hpos hs (by omega)]
      refine ⟨?_, ?_⟩
      · rintro ⟨_, _, _, h, _⟩
        cases h
      · rintro (h | h | ⟨h, -⟩)
        · exact absurd h hs
        · omega
        · exact absurd h hlen

/-- **What `CompletePacket` makes**: control field, payload and the CRC over both. -/
theorem CompletePacket_spec (hpos : al.iSNPos ≤ 2)
    (hn : al.iSeqNum ≤ VrMax al.iSNPos) {payload : Packet} (hne : ∀ f ∈ payload, f ≠ []) :
    ∃ pdu, al.CompletePacket (al.StartPacket ++ payload)
        = some (pdu, { al with iSeqNum := (al.iSeqNum + 1) % (VrMax al.iSNPos + 1) }) ∧
      pdu.flatten = header al.iSNPos al.iSeqNum ++ payload.flatten
        ++ crcBytes (Crc16 (header al.iSNPos al.iSeqNum ++ payload.flatten)) := by
  have hbump : ∀ p, al.iSeqNum ≤ VrMax p →
      bump p al.iSeqNum = (al.iSeqNum + 1) % (VrMax p + 1) := by
    intro p hp
    unfold bump
    split
    · next h => rw [h, Nat.mod_self]
    · next h => rw [Nat.mod_eq_of_lt (by omega)]
  have hcrc : ∀ header : List UInt8, header ≠ [] → Crc16Check (header :: payload) false
      = some (Crc16 (header :: payload).flatten) := by
    intro header hh
    exact Crc16Check_eq_of_closed (closed_of_nonempty (by simpa using ⟨hh, hne⟩))
  rcases al with ⟨iSNPos, iSeqNum⟩
  simp only at hpos hn hbump
  rcases iSNPos with _ | _ | _ | m
  · have h0 : iSeqNum = 0 := by simp only [VrMax] at hn; omega
    refine ⟨payload ++ [crcBytes (Crc16 payload.flatten)], ?_, ?_⟩
    · simp [CompletePacket, StartPacket, VrMax, h0, crcBytes,
        Crc16Check_eq_of_closed (closed_of_nonempty hne)]
    · simp [header]
  · refine ⟨(header 1 iSeqNum :: payload)
      ++ [crcBytes (Crc16 (header 1 iSeqNum :: payload).flatten)], ?_, ?_⟩
    · simp [CompletePacket, StartPacket, writeHeader, header, crcBytes, hcrc, hbump 1 hn]
    · simp
  · refine ⟨(header 2 iSeqNum :: payload)
      ++ [crcBytes (Crc16 (header 2 iSeqNum :: payload).flatten)], ?_, ?_⟩
    · simp [CompletePacket, StartPacket, writeHeader, header, crcBytes, hcrc, hbump 2 hn,
        replicate]
    · simp
  · omega

end

end AdaptationLayer3

/-! ## 8. Sender and peer -/

/-- The adaptation layer of a channel. -/
inductive AdaptationLayer where
  | layer2 (al : AdaptationLayer2)
  | layer3 (al : AdaptationLayer3)
  deriving DecidableEq, Repr

namespace AdaptationLayer

/-- The size of the control field. -/
def iSNPos : AdaptationLayer → Nat
  | layer2 al => al.iSNPos
  | layer3 al => al.iSNPos

/-- The next sequence number, to be sent or expected. -/
def iSeqNum : AdaptationLayer → Nat
  | layer2 al => al.iSeqNum
  | layer3 al => al.iSeqNum

/-- The size of the CRC. -/
def crcSize : AdaptationLayer → Nat
  | layer2 _ => 1
  | layer3 _ => 2

/-- The sequence modulus; 1 where no numbers are sent. -/
def modulus : AdaptationLayer → Nat
  | layer2 al => if al.iSNPos ≠ 0 then 256 else 1
  | layer3 al => AdaptationLayer3.VrMax al.iSNPos + 1

/-- The CRC field behind the given bytes. -/
def trailer : AdaptationLayer → List UInt8 → List UInt8
  | layer2 _, data => [Crc8 data]
  | layer3 _, data => crcBytes (Crc16 data)

/-- `StartPacket`, the payload appended, `CompletePacket`. -/
def send : AdaptationLayer → Packet → Option (Packet × AdaptationLayer)
  | layer2 al, payload => do
    let (pdu, al) ← al.CompletePacket (al.StartPacket ++ payload)
    some (pdu, layer2 al)
  | layer3 al, payload => do
    let (pdu, al) ← al.CompletePacket (al.StartPacket ++ payload)
    some (pdu, layer3 al)

/-- Payloads sent one after another; their PDUs get lost. -/
def sendAll : AdaptationLayer → List Packet → Option AdaptationLayer
  | al, [] => some al
  | al, payload :: payloads => do
    let (_, al) ← al.send payload
    al.sendAll payloads

/-- `ParsePacket` of the channel's layer. -/
def ParsePacket : AdaptationLayer → Packet →
    Option (IncomingALPduInfo × Packet × AdaptationLayer)
  | layer2 al, pkt => (al.ParsePacket pkt).map fun r => (r.1, r.2.1, layer2 r.2.2)
  | layer3 al, pkt => (al.ParsePacket pkt).map fun r => (r.1, r.2.1, layer3 r.2.2)

/-- Two ends of a channel: the same control field, and the peer expects the number the sender
    sends next. -/
def InSync : AdaptationLayer → AdaptationLayer → Prop
  | layer2 tx, layer2 rx =>
    tx.iSNPos = rx.iSNPos ∧
      (rx.iSNPos = 0 ∨ (rx.iSNPos = 1 ∧ tx.iSeqNum = rx.iSeqNum ∧ rx.iSeqNum < 256))
  | layer3 tx, layer3 rx =>
    tx.iSNPos = rx.iSNPos ∧ rx.iSNPos ≤ 2 ∧ tx.iSeqNum = rx.iSeqNum ∧
      rx.iSeqNum ≤ AdaptationLayer3.VrMax rx.iSNPos
  | _, _ => False

/-- A PDU without a payload, or whose CRC field is not the CRC of the rest. -/
def Bad (al : AdaptationLayer) (pdu : List UInt8) : Prop :=
  pdu.length ≤ al.iSNPos + al.crcSize ∨
    ∀ data crc, pdu = data ++ crc → crc.length = al.crcSize → crc ≠ al.trailer data

/-- The fragments can be put back: there is no control field to take off, or it lies in the first
    of 32 fragments at most. -/
def Fits (al : AdaptationLayer) (frags : Packet) : Prop :=
  al.iSNPos = 0 ∨ (al.iSNPos ≤ (frags.headD []).length ∧ frags.length ≤ 32)

instance (al : AdaptationLayer) (frags : Packet) : Decidable (al.Fits frags) := by
  unfold Fits
  infer_instance

/-! ### The sender -/

variable {lost : List Packet}

theorem sendAll_layer2 {iSNPos n : Nat} (hpos : iSNPos ≤ 1) (hn : iSNPos = 0 ∨ n < 256)
    (hlost : ∀ p ∈ lost, ∀ f ∈ p, f ≠ []) :
    ∃ m, (layer2 ⟨iSNPos, n⟩).sendAll lost = some (layer2 ⟨iSNPos, m⟩) ∧
      (iSNPos = 0 ∨ m = (n + lost.length) % 256) := by
  induction lost generalizing n with
  | nil =>
    refine ⟨n, rfl, hn.imp_right fun h => ?_⟩
    exact (Nat.mod_eq_of_lt h).symm
  | cons payload lost ih =>
    obtain ⟨pdu, hsend, -⟩ := AdaptationLayer2.CompletePacket_spec ⟨iSNPos, n⟩ hpos hn
      (hlost payload mem_cons_self)
    have hn' : iSNPos = 0 ∨ AdaptationLayer2.next iSNPos n < 256 := by
      unfold AdaptationLayer2.next
      rcases hn with h0 | h
      · exact inl h0
      · exact inr (by split <;> omega)
    obtain ⟨m, hall, hm⟩ := ih hn' fun p hp => hlost p (mem_cons_of_mem _ hp)
    refine ⟨m, ?_, ?_⟩
    · simp only [sendAll, send, hsend, bind_eq_bind, bind_some, hall]
    · rcases hm with h0 | hm
      · exact inl h0
      · by_cases h0 : iSNPos = 0
        · exact inl h0
        · right
          rw [hm, AdaptationLayer2.next, if_pos h0, length_cons, Nat.mod_add_mod]
          omega

theorem sendAll_layer3 {iSNPos n : Nat} (hpos : iSNPos ≤ 2)
    (hn : n ≤ AdaptationLayer3.VrMax iSNPos)
    (hlost : ∀ p ∈ lost, ∀ f ∈ p, f ≠ []) :
    (layer3 ⟨iSNPos, n⟩).sendAll lost = some (layer3
      ⟨iSNPos, (n + lost.length) % (AdaptationLayer3.VrMax iSNPos + 1)⟩) := by
  induction lost generalizing n with
  | nil => simp [sendAll, Nat.mod_eq_of_lt (Nat.lt_succ_of_le hn)]
  | cons payload lost ih =>
    obtain ⟨pdu, hsend, -⟩ := AdaptationLayer3.CompletePacket_spec ⟨iSNPos, n⟩ hpos hn
      (hlost payload mem_cons_self)
    have hlt := Nat.mod_lt (n + 1) (Nat.succ_pos (AdaptationLayer3.VrMax iSNPos))
    have hall := ih (Nat.le_of_lt_succ hlt) fun p hp => hlost p (mem_cons_of_mem _ hp)
    simp only [sendAll, send, hsend, bind_eq_bind, bind_some, hall]
    rw [Nat.mod_add_mod, length_cons, show n + 1 + lost.length = n + (lost.length + 1) by omega]

/-! ### The peer -/

/-- The stored difference is the number of lost PDUs if and only if the numbers did not wrap. -/
theorem gap_iff {r k M : Nat} (hr : r < M) (hk : k < M) :
    (((r + k) % M : Nat) : Int) - r = k ↔ r + k < M := by
  by_cases h : r + k < M
  · rw [Nat.mod_eq_of_lt h]
    omega
  · have hmod : (r + k) % M = r + k - M := by
      rw [Nat.mod_eq_sub_mod (by omega), Nat.mod_eq_of_lt (by omega)]
    rw [hmod]
    omega

/-- **When the peer returns the payload and the number of lost PDUs.** -/
theorem exact_iff_of_inSync {tx rx : AdaptationLayer} (hsync : tx.InSync rx)
    (hlost : ∀ p ∈ lost, ∀ f ∈ p, f ≠ []) (hk : lost.length < rx.modulus) {payload : Packet}
    (hpayload : ∀ f ∈ payload, f ≠ []) :
    ∃ tx₁ pdu tx₂, tx.sendAll lost = some tx₁ ∧ tx₁.send payload = some (pdu, tx₂) ∧
      ∀ frags : Packet, frags.flatten = pdu.flatten → (∀ f ∈ frags, f ≠ []) →
        (Exact (rx.ParsePacket frags) payload.flatten lost.length ↔
          (0 < payload.flatten.length ∧ payload.flatten.length < 32768) ∧ rx.Fits frags ∧
            (rx.iSNPos = 0 ∨ rx.iSeqNum + lost.length < rx.modulus)) := by
  rcases tx with ⟨⟨p, n⟩⟩ | ⟨⟨p, n⟩⟩ <;> rcases rx with ⟨⟨p', r⟩⟩ | ⟨⟨p', r⟩⟩
  · obtain ⟨hp, hn⟩ := hsync
    obtain rfl : p = p' := hp
    have hpos : p ≤ 1 := by simp only at hn; omega
    have hn' : p = 0 ∨ n < 256 := by simp only at hn; omega
    obtain ⟨m, hall, hm⟩ := sendAll_layer2 hpos hn' hlost
    have hm' : p = 0 ∨ m < 256 := by omega
    obtain ⟨pdu, hsend, hflat⟩ := AdaptationLayer2.CompletePacket_spec ⟨p, m⟩ hpos hm' hpayload
    refine ⟨_, pdu, layer2 ⟨p, AdaptationLayer2.next p m⟩, hall, ?_, fun frags hfrags hne => ?_⟩
    · simp only [send, hsend, bind_eq_bind, bind_some]
    · rw [hflat] at hfrags
      rw [ParsePacket, exact_map]
      rcases Nat.eq_zero_or_pos p with rfl | hp
      · rw [AdaptationLayer2.exact_iff ⟨0, r⟩ hpos hne (n := 0) (by omega) hfrags]
        simp only [modulus, ne_eq, not_true_eq_false, if_false] at hk
        exact ⟨fun h => ⟨h.1, inl rfl, inl rfl⟩, fun h => ⟨h.1, inl ⟨rfl, by omega⟩⟩⟩
      · have hp1 : p = 1 := by omega
        subst hp1
        simp only [one_ne_zero, false_or, true_and] at hn hm hm'
        obtain ⟨rfl, hr⟩ := hn
        rw [AdaptationLayer2.exact_iff ⟨1, n⟩ hpos hne hm' hfrags]
        have hfirst : 1 ≤ (frags.headD []).length := by
          rcases frags with _ | ⟨f, rest⟩
          · exact absurd (congrArg length hfrags) (by simp)
          · exact length_pos_of_ne_nil (hne f mem_cons_self)
        have hgap := gap_iff (M := 256) hr hk
        simp only [Fits, iSNPos, iSeqNum, modulus, one_ne_zero, false_and, false_or, ne_eq,
          not_false_eq_true, true_and, if_true, hm, hgap, hfirst]
        exact and_congr_right fun _ => and_comm
  · exact hsync.elim
  · exact hsync.elim
  · obtain ⟨hp, hpos, hn, hr⟩ := hsync
    obtain rfl : p = p' := hp
    obtain rfl : n = r := hn
    have hlt := Nat.mod_lt (n + lost.length) (Nat.succ_pos (AdaptationLayer3.VrMax p))
    obtain ⟨pdu, hsend, hflat⟩ := AdaptationLayer3.CompletePacket_spec
      ⟨p, (n + lost.length) % (AdaptationLayer3.VrMax p + 1)⟩ hpos (Nat.le_of_lt_succ hlt) hpayload
    refine ⟨_, pdu, layer3 ⟨p, ((n + lost.length) % (AdaptationLayer3.VrMax p + 1) + 1)
      % (AdaptationLayer3.VrMax p + 1)⟩, sendAll_layer3 hpos hr hlost, ?_, fun frags hfrags hne => ?_⟩
    · simp only [send, hsend, bind_eq_bind, bind_some]
    · rw [hflat] at hfrags
      rw [ParsePacket, exact_map,
        AdaptationLayer3.exact_iff ⟨p, n⟩ hpos hne (Nat.le_of_lt_succ hlt) hfrags]
      have hgap := gap_iff (Nat.lt_succ_of_le hr) hk
      have hnone : p = 0 → n + lost.length < AdaptationLayer3.VrMax p + 1 := by
        rintro rfl
        simp only [modulus, AdaptationLayer3.VrMax] at hk hr ⊢
        omega
      simp only [Fits, iSNPos, iSeqNum, modulus]
      rw [show ((((n + lost.length) % (AdaptationLayer3.VrMax p + 1) : Nat) : Int) - n
        = lost.length) = (n + lost.length < AdaptationLayer3.VrMax p + 1) from propext hgap]
      refine and_congr_right fun _ => ⟨fun h => ⟨h.2, inr h.1⟩, fun h => ⟨?_, h.1⟩⟩
      exact h.2.elim hnone id

/-- **A PDU without payload or with a wrong CRC is reported**, where its fragments can be put
    back or layer 2 leaves them as they are. -/
theorem reported_iff_of_bad {tx rx : AdaptationLayer} (hsync : tx.InSync rx) {frags : Packet}
    (hne : ∀ f ∈ frags, f ≠ []) (hbad : rx.Bad frags.flatten) :
    Reported (rx.ParsePacket frags) ↔
      rx.crcSize = 1 ∨ sduSize frags rx.iSNPos rx.crcSize ≤ 0 ∨ rx.Fits frags := by
  rcases rx with al | al
  · have hpos : al.iSNPos ≤ 1 := by
      rcases tx with tx | tx
      · have := hsync.2
        omega
      · exact hsync.elim
    rw [ParsePacket, reported_map]
    refine iff_of_true (al.reported_of_bad hpos hne (hbad.imp_right fun h data b hb => ?_))
      (inl rfl)
    rintro rfl
    exact h data [Crc8 data] hb rfl rfl
  · have hpos : al.iSNPos ≤ 2 := by
      rcases tx with tx | tx
      · exact hsync.elim
      · exact hsync.2.1
    rw [ParsePacket, reported_map, al.reported_iff_of_bad hpos hne
      (hbad.imp_right fun h data lo hi hb => ?_)]
    · simp only [crcSize, Fits, iSNPos, show (2 : Nat) ≠ 1 by decide, false_or]
    · exact fun hcrc => h data [lo, hi] hb rfl
        ((AdaptationLayer3.crcOf_eq_iff lo hi _).mp hcrc)

end AdaptationLayer

/-! ## 9. The main result -/

open AdaptationLayer in
/-- **A PDU at the peer, after `lost` PDUs that did not arrive.** The peer returns the payload,
    reports no CRC error and counts the lost PDUs if and only if the payload has 1 to 32767 bytes
    and, where there is a control field, it lies in the first of 32 fragments at most and the
    sequence number has not wrapped. A PDU without payload or with a wrong CRC is reported, by
    layer 3 where the fragments can be put back. -/
theorem ParsePacket_iff {tx rx : AdaptationLayer} (hsync : tx.InSync rx) {lost : List Packet}
    (hlost : ∀ p ∈ lost, ∀ f ∈ p, f ≠ []) (hk : lost.length < rx.modulus) {payload : Packet}
    (hpayload : ∀ f ∈ payload, f ≠ []) :
    (∃ tx₁ pdu tx₂, tx.sendAll lost = some tx₁ ∧ tx₁.send payload = some (pdu, tx₂) ∧
      ∀ frags : Packet, frags.flatten = pdu.flatten → (∀ f ∈ frags, f ≠ []) →
        (Exact (rx.ParsePacket frags) payload.flatten lost.length ↔
          (0 < payload.flatten.length ∧ payload.flatten.length < 32768) ∧ rx.Fits frags ∧
            (rx.iSNPos = 0 ∨ rx.iSeqNum + lost.length < rx.modulus))) ∧
    (∀ frags : Packet, (∀ f ∈ frags, f ≠ []) → rx.Bad frags.flatten →
      (Reported (rx.ParsePacket frags) ↔
        rx.crcSize = 1 ∨ sduSize frags rx.iSNPos rx.crcSize ≤ 0 ∨ rx.Fits frags)) :=
  ⟨exact_iff_of_inSync hsync hlost hk hpayload,
    fun _ hne hbad => AdaptationLayer.reported_iff_of_bad hsync hne hbad⟩

/-- The theorem on a channel of layer 3 with a control field of one byte: one PDU lost, none
    wrapped. -/
theorem ParsePacket_iff_one_lost :
    ∃ tx₁ pdu tx₂, (AdaptationLayer.layer3 ⟨1, 5⟩).sendAll [[[1, 2]]] = some tx₁ ∧
      tx₁.send [[3], [4, 5]] = some (pdu, tx₂) ∧
      Exact ((AdaptationLayer.layer3 ⟨1, 5⟩).ParsePacket (pdu.flatten.map fun b => [b]))
        [3, 4, 5] 1 := by
  have hsync : (AdaptationLayer.layer3 ⟨1, 5⟩).InSync (.layer3 ⟨1, 5⟩) :=
    ⟨rfl, by decide, rfl, by decide⟩
  have hlost : ∀ p ∈ [[[(1 : UInt8), 2]]], ∀ f ∈ p, f ≠ [] := by decide
  have hpayload : ∀ f ∈ [[(3 : UInt8)], [4, 5]], f ≠ [] := by decide
  obtain ⟨⟨tx₁, pdu, tx₂, h₁, h₂, h⟩, -⟩ :=
    ParsePacket_iff hsync hlost (by decide) hpayload
  have hsent : (AdaptationLayer.layer3 ⟨1, 5⟩).sendAll [[[1, 2]]]
      = some (.layer3 ⟨1, 6⟩) := by decide +kernel
  have hpdu : (AdaptationLayer.layer3 ⟨1, 6⟩).send [[3], [4, 5]]
      = some ([[13], [3], [4, 5], [248, 168]], .layer3 ⟨1, 7⟩) := by decide +kernel
  obtain rfl := Option.some.inj (h₁.symm.trans hsent)
  obtain ⟨rfl, rfl⟩ := Prod.mk.inj (Option.some.inj (h₂.symm.trans hpdu))
  refine ⟨_, _, _, h₁, h₂, (h _ ?_ ?_).mpr ⟨⟨by decide, by decide⟩, by decide, inr (by decide)⟩⟩
  · decide
  · decide

/-- **The number of lost PDUs across a wrap**: layer 2 expects the number 255, the PDU with that
    number is lost, and the next one, number 0, is reported with −255 lost PDUs. -/
theorem ParsePacket_wrapped_gap :
    (AdaptationLayer.layer2 ⟨1, 255⟩).sendAll [[[1]]] = some (.layer2 ⟨1, 0⟩) ∧
    (AdaptationLayer.layer2 ⟨1, 0⟩).send [[7]] = some ([[0], [7], [117]], .layer2 ⟨1, 1⟩) ∧
    (AdaptationLayer.layer2 ⟨1, 255⟩).ParsePacket [[0], [7], [117]]
      = some (⟨1, false, 255, -255⟩, [[], [7], []], .layer2 ⟨1, 1⟩) ∧
    ¬ Exact ((AdaptationLayer.layer2 ⟨1, 255⟩).ParsePacket [[0], [7], [117]]) [7] 1 := by
  have hparse : (AdaptationLayer.layer2 ⟨1, 255⟩).ParsePacket [[0], [7], [117]]
      = some (⟨1, false, 255, -255⟩, [[], [7], []], .layer2 ⟨1, 1⟩) := by decide +kernel
  refine ⟨by decide +kernel, by decide +kernel, hparse, ?_⟩
  rw [hparse, exact_some]
  decide

end OpenCore.H223
