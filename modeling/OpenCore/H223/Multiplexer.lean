/-
  File:      OpenCore/H223/Multiplexer.lean
  Subject:   MUX-SDUS CUT INTO MUX-PDUS: the multiplex element and `MakePduData`.

  The multiplexer keeps a MUX-SDU that is only partly sent with the number of bytes to send, a
  fragment number and a position in that fragment. Each call of `MakePduData` appends windows of
  the SDU's fragments to the outgoing packet, up to the element's repeat count, the space in the
  PDU and the bytes to send, and tells by the packet marker that a segmentable SDU is used up.

  **Main result**: `MakePduData_calls`.
-/
import OpenCore.Lib.Gather

namespace OpenCore.H223

open Gather List

/-! ## 1. The multiplex element -/

/-- `S_RepeatCount`: the number of octets, or up to the closing flag. -/
inductive RepeatCount where
  | finite (n : Nat)
  | untilClosingFlag
  deriving DecidableEq, Repr

/-- `S_MultiplexElement`: a slot of a logical channel or of a list of elements, repeated. -/
inductive MultiplexElement where
  | logicalChannelNumber (lcn : Nat) (repeatCount : RepeatCount)
  | subElementList (elements : List MultiplexElement) (repeatCount : RepeatCount)

/-- The repeat count of either kind of element. -/
def MultiplexElement.repeatCount : MultiplexElement → RepeatCount
  | .logicalChannelNumber _ r => r
  | .subElementList _ r => r

/-! ## 2. A MUX-SDU on its way -/

/-- `MuxSduData`: the fragments of the SDU, the number of bytes to send (`uint16`), the fragment
    and the position to go on from, and whether its channel is segmentable. -/
structure MuxSduData where
  sdu : List (List UInt8)
  size : Nat
  cur_frag_num : Nat
  cur_pos : Nat
  segmentable : Bool
  deriving DecidableEq, Repr

/-- The entry `UpdateSduDataLists` and `ReleaseMuxSdu` make of a packet; the filled size is cast to
    `uint16`. -/
def MuxSduData.queued (sdu : List (List UInt8)) (segmentable : Bool) : MuxSduData where
  sdu := sdu
  size := sdu.flatten.length % 65536
  cur_frag_num := 0
  cur_pos := 0
  segmentable := segmentable

/-- The bytes of the SDU that are not sent. -/
def MuxSduData.unsent (d : MuxSduData) : List UInt8 := left d.sdu d.cur_frag_num d.cur_pos

/-- The loop of `MakePduData`, for at most `fuel` turns; `none`: no turn left, or a fragment that
    is not there. -/
def muxLoop : Nat → List (List UInt8) → Nat → MuxSduData →
    Option (List (List UInt8) × MuxSduData)
  | _, outgoingPkt, 0, d => some (outgoingPkt, d)
  | 0, _, _ + 1, _ => none
  | fuel + 1, outgoingPkt, bytesToMux + 1, d =>
    match d.sdu[d.cur_frag_num]? with
    | none => none
    | some frag =>
      if d.cur_pos ≤ frag.length then
        let bytesInCurFragment := frag.length - d.cur_pos
        let n := min (bytesToMux + 1) bytesInCurFragment
        let d' := { d with
          cur_pos := (d.cur_pos + n) % 65536
          size := (d.size + 65536 - n) % 65536 }
        muxLoop fuel (outgoingPkt ++ [(frag.drop d.cur_pos).take n]) (bytesToMux + 1 - n)
          (if bytesInCurFragment - n = 0 then
            { d' with cur_frag_num := (d.cur_frag_num + 1) % 65536, cur_pos := 0 }
          else d')
      else none

/-- `bytesToMux` before the loop: the bytes to send, the finite repeat count and the space. A
    negative space (which an assertion reports) leaves nothing to do. -/
def bytesToMux (max_size : Int) (pElement : MultiplexElement) (d : MuxSduData) : Nat :=
  let bytesToMux : Int :=
    match pElement.repeatCount with
    | .finite n => min n d.size
    | .untilClosingFlag => d.size
  (min max_size bytesToMux).toNat

/-- `MakePduData`: the outgoing packet, the SDU's entry and the packet marker `*pm` after it. -/
def MakePduData (fuel : Nat) (outgoingPkt : List (List UInt8)) (max_size : Int)
    (pElement : MultiplexElement) (d : MuxSduData) :
    Option (List (List UInt8) × MuxSduData × Bool) :=
  (muxLoop fuel outgoingPkt (bytesToMux max_size pElement d) d).map fun r =>
    (r.1, r.2, decide (r.2.size = 0) && r.2.segmentable)

/-- What a call of `MakePduData` is given: the packet with its header, the space, the element. -/
structure MuxCall where
  outgoingPkt : List (List UInt8)
  max_size : Int
  pElement : MultiplexElement

/-- A call with the packet and the marker it returned. -/
structure MuxDone where
  call : MuxCall
  outgoingPkt : List (List UInt8)
  pm : Bool

/-- The payload of the call: what follows the fragments the packet had before. -/
def MuxDone.payload (m : MuxDone) : List UInt8 :=
  (m.outgoingPkt.drop m.call.outgoingPkt.length).flatten

/-- Successive calls of `MakePduData` on one SDU. -/
def makeAll (fuel : Nat) : MuxSduData → List MuxCall → Option (List MuxDone × MuxSduData)
  | d, [] => some ([], d)
  | d, c :: cs =>
    (MakePduData fuel c.outgoingPkt c.max_size c.pElement d).bind fun r =>
      (makeAll fuel r.2.1 cs).map fun q => (⟨c, r.1, r.2.2⟩ :: q.1, q.2)

/-! ## 3. One call -/

open MuxSduData (queued unsent)

open MuxDone (call payload)

/-- The cursor stands in the SDU, the sizes fit 16 bits and the bytes to send are those left. -/
structure MuxSduData.Stands (d : MuxSduData) : Prop where
  size_eq : d.size = d.unsent.length
  size_lt : d.sdu.flatten.length < 65536
  frags_lt : d.sdu.length < 65536
  frag_le : d.cur_frag_num ≤ d.sdu.length
  pos_le : ∀ frag, d.sdu[d.cur_frag_num]? = some frag → d.cur_pos ≤ frag.length

theorem MuxSduData.stands_queued {sdu : List (List UInt8)} (segmentable : Bool)
    (hsize : sdu.flatten.length < 65536) (hfrags : sdu.length < 65536) :
    (queued sdu segmentable).Stands where
  size_eq := Nat.mod_eq_of_lt hsize
  size_lt := hsize
  frags_lt := hfrags
  frag_le := Nat.zero_le _
  pos_le := fun _ _ => Nat.zero_le _

theorem MuxSduData.unsent_length_le (d : MuxSduData) :
    d.unsent.length ≤ d.sdu.flatten.length := by
  have hsplit : d.sdu.flatten = (d.sdu.take d.cur_frag_num).flatten
      ++ (d.sdu.drop d.cur_frag_num).flatten := by
    rw [← flatten_append, take_append_drop]
  rw [unsent, left, length_drop, hsplit, length_append]
  omega

/-- What taking some bytes leaves of an SDU: the same SDU, the bytes in front of what is unsent. -/
structure Takes (d : MuxSduData) (bytes : List UInt8) (d' : MuxSduData) : Prop where
  stands : d'.Stands
  sdu_eq : d'.sdu = d.sdu
  segmentable_eq : d'.segmentable = d.segmentable
  unsent_eq : d.unsent = bytes ++ d'.unsent

variable {d : MuxSduData}

/-- A turn of the loop that stops inside a fragment. -/
theorem takes_within (hd : d.Stands) {frag : List UInt8} {n : Nat}
    (hfrag : d.sdu[d.cur_frag_num]? = some frag) (hn : d.cur_pos + n ≤ frag.length) :
    Takes d ((frag.drop d.cur_pos).take n)
      { d with cur_pos := (d.cur_pos + n) % 65536, size := (d.size + 65536 - n) % 65536 } := by
  have hsplit := left_advance hfrag hn
  have hlen : ((frag.drop d.cur_pos).take n).length = n := by
    rw [length_take, length_drop]; omega
  have hall := d.unsent_length_le
  have hsize := hd.size_eq
  have hlt := hd.size_lt
  rw [unsent, hsplit, length_append, hlen] at hsize
  have hfl : frag.length ≤ d.sdu.flatten.length := by
    obtain ⟨hi, hget⟩ := List.getElem?_eq_some_iff.mp hfrag
    exact (sublist_flatten_of_mem (hget ▸ getElem_mem hi)).length_le
  have hpos : (d.cur_pos + n) % 65536 = d.cur_pos + n := Nat.mod_eq_of_lt (by omega)
  have hsz : (d.size + 65536 - n) % 65536 = d.size - n := by
    rw [unsent, hsplit, length_append, hlen] at hall
    omega
  refine ⟨⟨?_, hd.size_lt, hd.frags_lt, hd.frag_le, fun f hf => ?_⟩, rfl, rfl, ?_⟩
  · simp only [unsent, hpos, hsz]
    omega
  · have hsame : frag = f := Option.some.inj (hfrag.symm.trans hf)
    subst hsame
    simp only [hpos]
    exact hn
  · simp only [unsent, hpos]
    exact hsplit

/-- A turn of the loop that reaches the end of a fragment. -/
theorem takes_to_end (hd : d.Stands) {frag : List UInt8} {n : Nat}
    (hfrag : d.sdu[d.cur_frag_num]? = some frag) (hn : d.cur_pos + n = frag.length) :
    Takes d ((frag.drop d.cur_pos).take n)
      { d with cur_frag_num := (d.cur_frag_num + 1) % 65536, cur_pos := 0,
               size := (d.size + 65536 - n) % 65536 } := by
  have h := takes_within hd hfrag hn.le
  obtain ⟨hi, -⟩ := List.getElem?_eq_some_iff.mp hfrag
  have hnum : (d.cur_frag_num + 1) % 65536 = d.cur_frag_num + 1 :=
    Nat.mod_eq_of_lt (by have := hd.frags_lt; omega)
  have hend : left d.sdu d.cur_frag_num ((d.cur_pos + n) % 65536)
      = left d.sdu (d.cur_frag_num + 1) 0 := by
    have hfl : frag.length ≤ d.sdu.flatten.length := by
      obtain ⟨hi, hget⟩ := List.getElem?_eq_some_iff.mp hfrag
      exact (sublist_flatten_of_mem (hget ▸ getElem_mem hi)).length_le
    rw [Nat.mod_eq_of_lt (by have := hd.size_lt; omega), hn, left_next hfrag]
  have hunsent : ∀ s, unsent
      { d with cur_frag_num := (d.cur_frag_num + 1) % 65536, cur_pos := 0, size := s }
      = left d.sdu d.cur_frag_num ((d.cur_pos + n) % 65536) := fun s => by
    simp only [unsent, hnum]
    exact hend.symm
  refine ⟨⟨?_, hd.size_lt, hd.frags_lt, ?_, fun _ _ => Nat.zero_le _⟩, rfl, rfl, ?_⟩
  · rw [hunsent]
    exact h.stands.size_eq
  · simp only [hnum]
    exact hi
  · rw [hunsent]
    exact h.unsent_eq

theorem muxLoop_zero (fuel : Nat) (pkt : List (List UInt8)) (d : MuxSduData) :
    muxLoop fuel pkt 0 d = some (pkt, d) := by
  cases fuel <;> rfl

/-- **The loop** sends exactly the bytes it is to send, as fragments behind those of the packet.
    The induction is on the turns: each turn but the last uses up a fragment. -/
theorem muxLoop_eq (fuel : Nat) (pkt : List (List UInt8)) (b : Nat) (d : MuxSduData)
    (hd : d.Stands) (hb : b ≤ d.size) (hfuel : d.sdu.length - d.cur_frag_num < fuel) :
    ∃ (app : List (List UInt8)) (d' : MuxSduData), muxLoop fuel pkt b d = some (pkt ++ app, d') ∧
      app.flatten.length = b ∧ Takes d app.flatten d' := by
  induction fuel generalizing pkt b d with
  | zero => omega
  | succ fuel ih =>
    cases b with
    | zero => exact ⟨[], d, by simp [muxLoop_zero], rfl, hd, rfl, rfl, rfl⟩
    | succ b =>
      have hsome : left d.sdu d.cur_frag_num d.cur_pos ≠ [] := by
        intro hnil
        have hz := hd.size_eq
        rw [unsent, hnil, length_nil] at hz
        omega
      obtain ⟨frag, hfrag⟩ := exists_frag hsome
      have hpos := hd.pos_le frag hfrag
      obtain ⟨hi, -⟩ := List.getElem?_eq_some_iff.mp hfrag
      have hlen : ∀ n, d.cur_pos + n ≤ frag.length →
          ((frag.drop d.cur_pos).take n).length = n := fun n hn => by
        rw [length_take, length_drop]; omega
      simp only [muxLoop, hfrag, if_pos hpos]
      by_cases hend : frag.length - d.cur_pos ≤ b + 1
      · -- the fragment ends within this turn: one fragment fewer to go
        rw [Nat.min_eq_right hend, if_pos (Nat.sub_self _)]
        have ht := takes_to_end hd hfrag (Nat.add_sub_cancel' hpos)
        have hleft : b + 1 - (frag.length - d.cur_pos) ≤
            (d.size + 65536 - (frag.length - d.cur_pos)) % 65536 := by
          have h1 := ht.stands.size_eq
          have h2 := congrArg length ht.unsent_eq
          have h3 := hd.size_eq
          rw [length_append, hlen _ (Nat.add_sub_cancel' hpos).le] at h2
          simp only at h1
          omega
        have hnum : (d.cur_frag_num + 1) % 65536 = d.cur_frag_num + 1 :=
          Nat.mod_eq_of_lt (by have := hd.frags_lt; omega)
        obtain ⟨app, d', hrun, hcount, htk⟩ :=
          ih (pkt ++ [(frag.drop d.cur_pos).take (frag.length - d.cur_pos)]) _ _ ht.stands hleft
            (by simp only [hnum]; omega)
        refine ⟨(frag.drop d.cur_pos).take (frag.length - d.cur_pos) :: app, d', ?_, ?_, ?_⟩
        · rw [hrun, append_assoc, singleton_append]
        · rw [flatten_cons, length_append, hcount,
            hlen _ (Nat.add_sub_cancel' hpos).le]
          omega
        · refine ⟨htk.stands, htk.sdu_eq, htk.segmentable_eq, ?_⟩
          rw [flatten_cons, append_assoc, ← htk.unsent_eq]
          exact ht.unsent_eq
      · -- the bytes to send end inside the fragment: this is the last turn
        have hn : d.cur_pos + (b + 1) ≤ frag.length := by omega
        have ht := takes_within hd hfrag hn
        rw [Nat.min_eq_left (by omega), if_neg (by omega), Nat.sub_self]
        refine ⟨[(frag.drop d.cur_pos).take (b + 1)], _, muxLoop_zero _ _ _, ?_, ?_⟩
        · simp [hlen _ hn]
        · simpa using ht

/-- **One call.** The packet keeps its fragments, the payload behind them is the front of what was
    unsent, as long as the limits allow, and the marker says that a segmentable SDU is used up. -/
theorem MakePduData_eq {fuel : Nat} (pkt : List (List UInt8)) (max_size : Int)
    (pElement : MultiplexElement) (hd : d.Stands) (hfuel : d.sdu.length < fuel) :
    ∃ app d', MakePduData fuel pkt max_size pElement d
        = some (pkt ++ app, d', decide (d'.size = 0) && d.segmentable) ∧
      app.flatten.length = bytesToMux max_size pElement d ∧ Takes d app.flatten d' := by
  have hb : bytesToMux max_size pElement d ≤ d.size := by
    unfold bytesToMux
    cases pElement.repeatCount <;> simp only <;> omega
  obtain ⟨app, d', hrun, hcount, ht⟩ :=
    muxLoop_eq fuel pkt _ d hd hb (lt_of_le_of_lt (Nat.sub_le _ _) hfuel)
  refine ⟨app, d', ?_, hcount, ht⟩
  rw [MakePduData, hrun, Option.map_some, ht.segmentable_eq]

/-! ## 4. Successive calls -/

/-- Successive calls on one SDU: each appends to its packet a piece as long as its limits allow,
    and the pieces lie one after the other in front of what is unsent. -/
theorem makeAll_eq {fuel : Nat} (calls : List MuxCall) (hd : d.Stands)
    (hfuel : d.sdu.length < fuel) :
    ∃ done d', makeAll fuel d calls = some (done, d') ∧ done.map call = calls ∧
      Takes d (done.map payload).flatten d' ∧
      ∀ pre m post, done = pre ++ m :: post →
        m.call.outgoingPkt <+: m.outgoingPkt ∧
        ((pre.map payload).flatten.length + m.payload.length ≤ d.size) ∧
        m.payload.length = bytesToMux m.call.max_size m.call.pElement
          { d with size := d.size - (pre.map payload).flatten.length } ∧
        (m.pm = true ↔ d.segmentable = true ∧
          ((pre ++ [m]).map payload).flatten.length = d.size) := by
  induction calls generalizing d with
  | nil =>
    exact ⟨[], d, rfl, rfl, ⟨hd, rfl, rfl, rfl⟩, fun pre m post h => by simp at h⟩
  | cons c cs ih =>
    obtain ⟨app, d₁, hone, hcount, ht⟩ :=
      MakePduData_eq c.outgoingPkt c.max_size c.pElement hd hfuel
    obtain ⟨done, d', hrest, hcalls, htr, hall⟩ := ih ht.stands (by rw [ht.sdu_eq]; exact hfuel)
    have hsize : d.size = app.flatten.length + d₁.size := by
      rw [hd.size_eq, ht.stands.size_eq, ht.unsent_eq, length_append]
    have hpay : payload ⟨c, c.outgoingPkt ++ app, decide (d₁.size = 0) && d.segmentable⟩
        = app.flatten := by
      simp [payload]
    refine ⟨⟨c, c.outgoingPkt ++ app, decide (d₁.size = 0) && d.segmentable⟩ :: done, d', ?_, ?_,
      ⟨htr.stands, htr.sdu_eq.trans ht.sdu_eq, htr.segmentable_eq.trans ht.segmentable_eq, ?_⟩, ?_⟩
    · simp only [makeAll, hone, Option.bind_some, hrest, Option.map_some]
    · simp [hcalls]
    · rw [map_cons, flatten_cons, hpay, append_assoc, ← htr.unsent_eq]
      exact ht.unsent_eq
    · intro pre m post hsplit
      cases pre with
      | nil =>
        -- the call itself
        obtain ⟨rfl, -⟩ := cons.inj hsplit
        refine ⟨prefix_append _ _, ?_, ?_, ?_⟩
        · simp only [hpay, map_nil, flatten_nil, length_nil]
          omega
        · simpa [hpay] using hcount
        · simp only [nil_append, map_cons, map_nil, flatten_cons, hpay,
            flatten_nil, append_nil, Bool.and_eq_true, decide_eq_true_eq]
          rw [hsize]
          constructor
          · rintro ⟨h0, hs⟩
            exact ⟨hs, by omega⟩
          · rintro ⟨hs, h0⟩
            exact ⟨by omega, hs⟩
      | cons x pre =>
        -- a later call: what was taken before it counts from the call on
        obtain ⟨rfl, hdone⟩ := cons.inj hsplit
        obtain ⟨hpre, hle, hlen, hpm⟩ := hall pre m post hdone
        have hsub : d.size - (app.flatten.length + (pre.map payload).flatten.length)
            = d₁.size - (pre.map payload).flatten.length := by omega
        refine ⟨hpre, ?_, ?_, ?_⟩
        · rw [map_cons, flatten_cons, hpay, length_append]
          omega
        · rw [map_cons, flatten_cons, hpay, length_append, hsub]
          exact hlen
        · rw [hpm, ht.segmentable_eq, cons_append, map_cons, flatten_cons, hpay,
            length_append, hsize]
          exact and_congr_right fun _ => by omega

/-- **An SDU through any list of calls.** For an SDU of fewer than 65536 bytes in fewer than 65536
    fragments, the calls return; each only adds to its packet, its payload is as long as the repeat
    count, the space and the bytes left allow, the payloads are consecutive pieces of the SDU with
    nothing lost, and they are the whole SDU when no byte is left. The packet marker is returned
    exactly where no byte of a segmentable SDU is left; for a call that takes a byte this is the
    last byte. -/
theorem MakePduData_calls (sdu : List (List UInt8)) (segmentable : Bool) (calls : List MuxCall)
    (fuel : Nat) (hsize : sdu.flatten.length < 65536) (hfrags : sdu.length < 65536)
    (hfuel : sdu.length < fuel) :
    ∃ done d', makeAll fuel (.queued sdu segmentable) calls = some (done, d') ∧
      done.map call = calls ∧
      sdu.flatten = (done.map payload).flatten ++ d'.unsent ∧
      d'.size = d'.unsent.length ∧
      (d'.size = 0 → (done.map payload).flatten = sdu.flatten) ∧
      ∀ pre m post, done = pre ++ m :: post →
        m.call.outgoingPkt <+: m.outgoingPkt ∧
        m.payload.length = bytesToMux m.call.max_size m.call.pElement
          { queued sdu segmentable with
            size := sdu.flatten.length - (pre.map payload).flatten.length } ∧
        (m.pm = true ↔ segmentable = true ∧
          ((pre ++ [m]).map payload).flatten = sdu.flatten) := by
  obtain ⟨done, d', hrun, hcalls, ht, hall⟩ :=
    makeAll_eq calls (MuxSduData.stands_queued segmentable hsize hfrags) hfuel
  have hq : (queued sdu segmentable).size = sdu.flatten.length :=
    Nat.mod_eq_of_lt hsize
  have hbytes : sdu.flatten = (done.map payload).flatten ++ d'.unsent := ht.unsent_eq
  refine ⟨done, d', hrun, hcalls, hbytes, ht.stands.size_eq, fun h0 => ?_, ?_⟩
  · have hnil : d'.unsent = [] := by
      rw [← length_eq_zero_iff, ← ht.stands.size_eq, h0]
    rw [hbytes, hnil, append_nil]
  · intro pre m post hsplit
    obtain ⟨hpre, -, hlen, hpm⟩ := hall pre m post hsplit
    refine ⟨hpre, by rw [hq] at hlen; exact hlen, hpm.trans (and_congr_right fun _ => ?_)⟩
    rw [hq]
    constructor
    · intro hl
      -- the pieces up to this call are a prefix of the SDU, and as long as it
      have hprefix : ((pre ++ [m]).map payload).flatten <+: sdu.flatten := by
        refine ⟨(post.map payload).flatten ++ d'.unsent, ?_⟩
        rw [hbytes, hsplit]
        simp
      exact hprefix.eq_of_length hl
    · intro h
      rw [h]

/-- An SDU of three fragments, one of them empty, over three calls. -/
theorem MakePduData_calls_three :
    ∃ done d', makeAll 4 (.queued [[1, 2], [], [3, 4, 5]] true)
        [⟨[[9]], 1, .logicalChannelNumber 1 .untilClosingFlag⟩,
         ⟨[[9]], 10, .logicalChannelNumber 1 (.finite 3)⟩,
         ⟨[[9]], 10, .logicalChannelNumber 1 (.finite 3)⟩] = some (done, d') ∧
      done.map payload = [[1], [2, 3, 4], [5]] ∧
      done.map MuxDone.pm = [false, false, true] ∧ d'.size = 0 := by
  have h := MakePduData_calls [[1, 2], [], [3, 4, 5]] true
    [⟨[[9]], 1, .logicalChannelNumber 1 .untilClosingFlag⟩,
     ⟨[[9]], 10, .logicalChannelNumber 1 (.finite 3)⟩,
     ⟨[[9]], 10, .logicalChannelNumber 1 (.finite 3)⟩] 4 (by decide) (by decide) (by decide)
  obtain ⟨done, d', hrun, -⟩ := h
  refine ⟨done, d', hrun, ?_⟩
  cases hrun
  exact ⟨by decide +kernel, by decide +kernel, by decide +kernel⟩

/-- An SDU whose filled size is cast to zero: no byte is taken, whatever it holds. -/
theorem MakePduData_of_cast_zero {sdu : List (List UInt8)} (h : sdu.flatten.length % 65536 = 0)
    (fuel : Nat) (pkt : List (List UInt8)) (max_size : Int) (pElement : MultiplexElement)
    (segmentable : Bool) :
    MakePduData fuel pkt max_size pElement (.queued sdu segmentable)
      = some (pkt, .queued sdu segmentable, segmentable) := by
  have hzero : (queued sdu segmentable).size = 0 := h
  have hb : bytesToMux max_size pElement (.queued sdu segmentable) = 0 := by
    unfold bytesToMux
    cases pElement.repeatCount <;> simp only [hzero] <;> omega
  rw [MakePduData, hb, muxLoop_zero, Option.map_some, hzero]
  rfl

/-- The marker is also returned by a call that takes no byte: for a segmentable SDU without bytes,
    and for one that is used up; and an SDU of 65536 bytes is queued as one without bytes. -/
theorem MakePduData_marks_without_bytes :
    MakePduData 9 [] 10 (.logicalChannelNumber 1 .untilClosingFlag) (.queued [] true)
        = some ([], .queued [] true, true) ∧
    (makeAll 9 (.queued [[7]] true)
        [⟨[], 10, .logicalChannelNumber 1 .untilClosingFlag⟩,
         ⟨[], 10, .logicalChannelNumber 1 .untilClosingFlag⟩]).map
        (fun r => r.1.map fun m => (m.payload, m.pm)) = some [([7], true), ([], true)] ∧
    MakePduData 9 [] 10 (.logicalChannelNumber 1 .untilClosingFlag)
        (.queued [List.replicate 65536 0] true)
        = some ([], .queued [List.replicate 65536 0] true, true) := by
  have hcast : [List.replicate 65536 (0 : UInt8)].flatten.length % 65536 = 0 := by
    rw [flatten_singleton, length_replicate]
  exact ⟨by decide +kernel, by decide +kernel, MakePduData_of_cast_zero hcast _ _ _ _ _⟩

end OpenCore.H223
