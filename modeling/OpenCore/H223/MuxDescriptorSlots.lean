/-
  File:      OpenCore/H223/MuxDescriptorSlots.lean
  Subject:   THE SLOTS OF A MULTIPLEX DESCRIPTOR (h223types.cpp): how many bytes of a PDU a descriptor
             gives each logical channel, at least and at most.

  The slots of a sub-element list are collected apart, multiplied by its repeat count and added to
  those of the list around it. A channel that has its own element is put in with `insert`, which
  leaves a slot as it is; and whether a slot is there is asked of the outermost list, in every depth.

  * `Fills` -- the channels of the bytes of a PDU, as a descriptor allows them;
  * `Regular` -- no channel comes where its slot is lost or counted twice, and the space left for a
    sub-element list until the closing flag is right;
  * **`findLcns_bounds`** -- the slots of a regular descriptor are the bounds.
-/
import OpenCore.Lib.Word32
import OpenCore.H223.Demultiplexer

namespace OpenCore.H223

open List Option
open Function (update update_of_ne update_self)

/-! ## 1. The slots -/

/-- `TPVMuxDescriptorSlot`. A `max_size` of 0 is no bound. -/
structure TPVMuxDescriptorSlot where
  lcn : Nat
  min_size : Nat
  max_size : Nat
  deriving DecidableEq, Repr

/-- `TPVMuxDescriptorSlotList`: the slot of each channel that has one. -/
abbrev SlotMap := Nat → Option TPVMuxDescriptorSlot

namespace SlotMap

def empty : SlotMap := fun _ => none

/-- `insert`: a slot that is there stays. -/
def insert (lcns : SlotMap) (slot : TPVMuxDescriptorSlot) : SlotMap :=
  if (lcns slot.lcn).isSome then lcns else update lcns slot.lcn (some slot)

end SlotMap

def TPVMuxDescriptorSlot.is_fit (slot : TPVMuxDescriptorSlot) (that_lcn size : Nat) : Bool :=
  if slot.lcn = that_lcn ∧ size ≠ 0 ∧ slot.max_size ≠ 0 then
    decide (slot.min_size ≤ size ∧ size ≤ slot.max_size)
  else decide (slot.lcn = that_lcn)

/-- `FindLcn` in `iLcns`: the slot of the channel, where it fits. -/
def FindLcn (iLcns : SlotMap) (channel_id len : Nat) : Option TPVMuxDescriptorSlot :=
  (iLcns channel_id).filter fun slot => slot.is_fit channel_id len

/-- The variables of `FindLcns` in its loop. -/
structure LcnWalk where
  lcns : SlotMap
  max_pdu_size : Int
  subelement_size : Int
  num_lcns : Nat

/-- The slots of a sub-element list, multiplied and added to `lcns`; each is a turn of the source's
    loop, and touches its own channel only. `FindLcn` asks `iLcns`, which is `lcns` itself in the
    outermost list. -/
def mergeSlots (iLcns : Option SlotMap) (rc_min rc_max : Nat) (lcns_local lcns : SlotMap) : SlotMap :=
  fun lcn =>
    match lcns_local lcn with
    | none => lcns lcn
    | some slot =>
      let slot_info := (FindLcn (iLcns.getD lcns) (slot.lcn % 65536) 0).getD ⟨0, 0, 0⟩
      some
        { lcn := slot.lcn
          min_size := add32 slot_info.min_size (mul32 slot.min_size rc_min)
          max_size := add32 slot_info.max_size (mul32 slot.max_size rc_max) }

/-- `rc_min` and `rc_max` of a sub-element list of this size; `none` is a division by zero. -/
def repeats (max_pdu_size size : Int) : RepeatCount → Option (Nat × Nat)
  | .finite n => some (n, n)
  | .untilClosingFlag =>
    if size = 0 then none else some (1, toUInt32 (max_pdu_size.tdiv size))

/-- `a += n` for an `int` and an `unsigned`. -/
def addUnsigned (a : Int) (n : Nat) : Int := toInt32 (add32 (toUInt32 a) n)

mutual

/-- One turn of the loop of `FindLcns`; no `iLcns` in the outermost list. -/
def findElement (iLcns : Option SlotMap) : MultiplexElement → LcnWalk → Option LcnWalk
  | .subElementList elements repeatCount, w =>
    (FindLcns (some (iLcns.getD w.lcns)) elements ⟨.empty, w.max_pdu_size, 0, 0⟩).bind fun sub =>
      (repeats w.max_pdu_size sub.subelement_size repeatCount).map fun rc =>
        let subelement_size :=
          addUnsigned w.subelement_size (mul32 rc.2 (toUInt32 sub.subelement_size))
        { lcns := mergeSlots iLcns rc.1 rc.2 sub.lcns w.lcns
          -- all that was counted so far, not this element's
          max_pdu_size := addInt32 w.max_pdu_size (-subelement_size)
          subelement_size := subelement_size
          num_lcns := add32 w.num_lcns sub.num_lcns }
  | .logicalChannelNumber lcn repeatCount, w =>
    let min_size :=
      match repeatCount with
      | .finite n => n
      | .untilClosingFlag => 1
    let max_size :=
      match repeatCount with
      | .finite n => n
      | .untilClosingFlag => 0
    some
      { lcns := w.lcns.insert ⟨lcn, min_size, max_size⟩
        max_pdu_size := addInt32 w.max_pdu_size (-max_size)
        subelement_size := addUnsigned w.subelement_size max_size
        num_lcns := add32 w.num_lcns 1 }

def FindLcns (iLcns : Option SlotMap) : List MultiplexElement → LcnWalk → Option LcnWalk
  | [], w => some w
  | pElement :: es, w => (findElement iLcns pElement w).bind (FindLcns iLcns es)

end

/-- The slots `ConstructL` makes of an element list. -/
def iLcnsOf (elementList : List MultiplexElement) (iMaxPduSize : Nat) : Option SlotMap :=
  (FindLcns none elementList ⟨.empty, toInt32 iMaxPduSize, 0, 0⟩).map LcnWalk.lcns

/-! ## 2. What a descriptor allows -/

open TPVMuxDescriptorSlot (is_fit)

/-- How often an element may come. -/
def RepeatCount.Allows (k : Nat) : RepeatCount → Prop
  | .finite n => k = n
  | .untilClosingFlag => 1 ≤ k

mutual

/-- The channels of consecutive bytes, as an element allows them: whole repeats of it. -/
inductive FillsElement : MultiplexElement → List Nat → Prop where
  | channel {lcn k : Nat} {r : RepeatCount} (h : r.Allows k) :
      FillsElement (.logicalChannelNumber lcn r) (List.replicate k lcn)
  | list {es : List MultiplexElement} {r : RepeatCount} {ls : List (List Nat)}
      (h : r.Allows ls.length) (hfills : ∀ l ∈ ls, Fills es l) :
      FillsElement (.subElementList es r) ls.flatten

/-- The same for a list of elements. -/
inductive Fills : List MultiplexElement → List Nat → Prop where
  | nil : Fills [] []
  | cons {e : MultiplexElement} {es : List MultiplexElement} {l l' : List Nat}
      (h : FillsElement e l) (hs : Fills es l') : Fills (e :: es) (l ++ l')

end

/-- **The bytes a descriptor can give a channel** in a PDU of at most `size` bytes. -/
def canGive (es : List MultiplexElement) (size lcn : Nat) : Set Nat :=
  {n | ∃ l, Fills es l ∧ l.length ≤ size ∧ n = l.count lcn}

/-- A slot holds the bounds of its channel; a maximum of 0 says that the channel goes on until the
    closing flag. -/
def TPVMuxDescriptorSlot.Bounds (es : List MultiplexElement) (size : Nat)
    (slot : TPVMuxDescriptorSlot) : Prop :=
  IsLeast (canGive es size slot.lcn) slot.min_size ∧
  (IsGreatest (canGive es size slot.lcn) slot.max_size ∨
    slot.max_size = 0 ∧ .logicalChannelNumber slot.lcn .untilClosingFlag ∈ es)

/-- **Each channel of the descriptor has a slot with its bounds**, and no other has one. -/
def FindsBounds (es : List MultiplexElement) (size : Nat) : Prop :=
  ∃ lcns, iLcnsOf es size = some lcns ∧
    (∀ lcn, (lcns lcn).isSome ↔ lcn ∈ slotsOf 1 es) ∧
    ∀ lcn slot, lcns lcn = some slot → slot.lcn = lcn ∧ slot.Bounds es size

/-! ## 3. Where the code gets there -/

mutual

/-- No repeat count in the element goes until the closing flag. -/
def MultiplexElement.Finite : MultiplexElement → Prop
  | .logicalChannelNumber _ r => r ≠ .untilClosingFlag
  | .subElementList es r => r ≠ .untilClosingFlag ∧ AllFinite es

/-- The same for all elements of a list. -/
def AllFinite : List MultiplexElement → Prop
  | [] => True
  | e :: es => e.Finite ∧ AllFinite es

end

mutual

/-- No slot is lost or counted twice in the element: its own channel has no slot yet in the list
    the element is in, and the channels of a sub-element list in an inner list have none there and
    none in the outermost list. -/
def MultiplexElement.Clean (outermost : Option (List Nat)) (earlier : List Nat) :
    MultiplexElement → Prop
  | .logicalChannelNumber lcn _ => lcn ∉ earlier
  | .subElementList es _ =>
    (∀ outer ∈ outermost, ∀ lcn ∈ slotsOf 1 es, lcn ∉ outer ∧ lcn ∉ earlier) ∧
    AllClean (some (outermost.getD earlier)) [] es

/-- The same for a list of elements behind `earlier`. -/
def AllClean (outermost : Option (List Nat)) : List Nat → List MultiplexElement → Prop
  | _, [] => True
  | earlier, e :: es =>
    e.Clean outermost earlier ∧ AllClean outermost (earlier ++ e.slots 1) es

end

/-- A logical channel's own element. -/
def MultiplexElement.IsChannel : MultiplexElement → Prop
  | .logicalChannelNumber _ _ => True
  | .subElementList _ _ => False

/-- What comes last, behind finite elements: nothing else, a channel until the closing flag, or a
    finite sub-element list until the closing flag. The space left for that one is right where no
    other sub-element list stands behind the first element. -/
inductive EndsRight : List MultiplexElement → List MultiplexElement → Prop where
  | finite {fs : List MultiplexElement} : EndsRight fs []
  | channel {fs : List MultiplexElement} {lcn : Nat} :
      EndsRight fs [.logicalChannelNumber lcn .untilClosingFlag]
  | list {fs sub : List MultiplexElement} (hsub : AllFinite sub)
      (hspace : ∀ e ∈ fs.tail, e.IsChannel) :
      EndsRight fs [.subElementList sub .untilClosingFlag]

/-- **A descriptor whose bounds are found**, in PDUs of a size that is an `int`. -/
structure Regular (es : List MultiplexElement) (size : Nat) : Prop where
  clean : AllClean none [] es
  ends : ∃ fs last, es = fs ++ last ∧ AllFinite fs ∧ EndsRight fs last
  size_lt : size < 2147483648

/-! ## 4. The fillings -/

open MultiplexElement (Clean WellFormed)

variable {r : RepeatCount}

theorem RepeatCount.times_one (h : r ≠ .untilClosingFlag) :
    r = .finite (r.times 1) := by
  cases r with
  | finite n => rfl
  | untilClosingFlag => exact absurd rfl h

theorem RepeatCount.allows_iff (h : r ≠ .untilClosingFlag) (k : Nat) :
    r.Allows k ↔ k = r.times 1 := by
  cases r with
  | finite n => exact Iff.rfl
  | untilClosingFlag => exact absurd rfl h

theorem eq_replicate_of_forall {α : Type} {a : α} {ls : List α} (h : ∀ l ∈ ls, l = a) :
    ls = replicate ls.length a :=
  eq_replicate_iff.mpr ⟨rfl, h⟩

mutual

/-- A finite element has one filling: its slots. -/
theorem fillsElement_iff :
    ∀ (e : MultiplexElement), e.Finite → ∀ l, FillsElement e l ↔ l = e.slots 1
  | .logicalChannelNumber lcn r, hf, l => by
      rw [MultiplexElement.Finite] at hf
      rw [MultiplexElement.slots]
      constructor
      · intro h
        cases h with
        | channel h => rw [(RepeatCount.allows_iff hf _).mp h]
      · intro h
        rw [h]
        exact .channel ((RepeatCount.allows_iff hf _).mpr rfl)
  | .subElementList es r, hf, l => by
      rw [MultiplexElement.Finite] at hf
      rw [MultiplexElement.slots]
      constructor
      · intro h
        cases h with
        | @list _ _ ls h hfills =>
          have hall : ∀ l ∈ ls, l = slotsOf 1 es := fun l hl =>
            (fills_iff es hf.2 l).mp (hfills l hl)
          rw [eq_replicate_of_forall hall, (RepeatCount.allows_iff hf.1 _).mp h]
      · intro h
        rw [h]
        refine .list ((RepeatCount.allows_iff hf.1 _).mpr length_replicate) fun l hl => ?_
        exact (fills_iff es hf.2 l).mpr (eq_of_mem_replicate hl)

theorem fills_iff : ∀ (es : List MultiplexElement), AllFinite es → ∀ l,
    Fills es l ↔ l = slotsOf 1 es
  | [], _, l => by
      rw [slotsOf]
      constructor
      · intro h
        cases h with
        | nil => rfl
      · intro h
        rw [h]
        exact .nil
  | e :: es, hf, l => by
      rw [AllFinite] at hf
      rw [slotsOf]
      constructor
      · intro h
        cases h with
        | cons h hs => rw [(fillsElement_iff e hf.1 _).mp h, (fills_iff es hf.2 _).mp hs]
      · intro h
        rw [h]
        exact .cons ((fillsElement_iff e hf.1 _).mpr rfl) ((fills_iff es hf.2 _).mpr rfl)

end

theorem slotsOf_append (k : Nat) (es fs : List MultiplexElement) :
    slotsOf k (es ++ fs) = slotsOf k es ++ slotsOf k fs := by
  induction es with
  | nil => simp only [nil_append, slotsOf]
  | cons e es ih => simp only [cons_append, slotsOf, ih, append_assoc]

variable {fs : List MultiplexElement}

/-- Behind finite elements only the last one is free. -/
theorem fills_append_iff (hf : AllFinite fs) (e : MultiplexElement)
    (l : List Nat) :
    Fills (fs ++ [e]) l ↔ ∃ l', FillsElement e l' ∧ l = slotsOf 1 fs ++ l' := by
  induction fs generalizing l with
  | nil =>
    simp only [nil_append, slotsOf]
    constructor
    · intro h
      cases h with
      | cons h hs =>
        cases hs with
        | nil => exact ⟨_, h, append_nil _⟩
    · intro ⟨l', h, hl⟩
      rw [hl, ← append_nil l']
      exact .cons h .nil
  | cons f fs ih =>
    rw [AllFinite] at hf
    rw [cons_append, slotsOf]
    constructor
    · intro h
      cases h with
      | cons h hs =>
        obtain ⟨l', h', hl⟩ := (ih hf.2 _).mp hs
        refine ⟨l', h', ?_⟩
        rw [(fillsElement_iff f hf.1 _).mp h, hl, append_assoc]
    · intro ⟨l', h', hl⟩
      rw [hl, append_assoc]
      exact .cons ((fillsElement_iff f hf.1 _).mpr rfl) ((ih hf.2 _).mpr ⟨l', h', rfl⟩)

/-- The fillings of an element until the closing flag. -/
theorem fillsElement_channel_iff (lcn : Nat) (l : List Nat) :
    FillsElement (.logicalChannelNumber lcn .untilClosingFlag) l ↔
      ∃ k, 1 ≤ k ∧ l = replicate k lcn := by
  constructor
  · intro h
    cases h with
    | @channel _ k _ h => exact ⟨k, h, rfl⟩
  · intro ⟨k, h, hl⟩
    rw [hl]
    exact .channel h

theorem fillsElement_list_iff {sub : List MultiplexElement} (hsub : AllFinite sub) (l : List Nat) :
    FillsElement (.subElementList sub .untilClosingFlag) l ↔
      ∃ k, 1 ≤ k ∧ l = (replicate k (slotsOf 1 sub)).flatten := by
  constructor
  · intro h
    cases h with
    | @list _ _ ls h hfills =>
      have hall : ∀ l ∈ ls, l = slotsOf 1 sub := fun l hl =>
        (fills_iff sub hsub l).mp (hfills l hl)
      exact ⟨ls.length, h, congrArg flatten (eq_replicate_of_forall hall)⟩
  · intro ⟨k, h, hl⟩
    rw [hl]
    refine .list (show 1 ≤ _ by rw [length_replicate]; exact h) fun l hl => ?_
    exact (fills_iff sub hsub l).mpr (eq_of_mem_replicate hl)

/-! ## 5. Counted slots -/

open RepeatCount (times times_one)

/-- The slots of the bytes in `l`: each channel with its number of bytes. -/
def countSlots (l : List Nat) : SlotMap := fun lcn =>
  if lcn ∈ l then some ⟨lcn, l.count lcn, l.count lcn⟩ else none

theorem countSlots_nil : countSlots [] = SlotMap.empty := rfl

variable {l : List Nat} {lcn : Nat}

theorem countSlots_mem (h : lcn ∈ l) :
    countSlots l lcn = some ⟨lcn, l.count lcn, l.count lcn⟩ := if_pos h

theorem countSlots_not_mem (h : lcn ∉ l) :
    countSlots l lcn = none := if_neg h

variable {lcns : SlotMap}

/-- With length 0, `FindLcn` finds the slot that is there. -/
theorem findLcn_zero
    (h : ∀ slot, lcns lcn = some slot → slot.lcn = lcn) : FindLcn lcns lcn 0 = lcns lcn := by
  rw [FindLcn]
  cases hs : lcns lcn with
  | none => rfl
  | some slot =>
    simp only [filter_some, is_fit, h slot hs, ne_eq,
      not_true_eq_false, false_and, and_false, if_false, decide_true, if_true]

theorem findLcn_countSlots (l : List Nat) (lcn : Nat) :
    FindLcn (countSlots l) lcn 0 = countSlots l lcn := by
  refine findLcn_zero fun slot h => ?_
  rw [countSlots] at h
  split at h
  · exact congrArg TPVMuxDescriptorSlot.lcn (some.inj h.symm)
  · exact absurd h.symm (some_ne_none slot)

/-- What is added to, for a channel of a sub-element list: the bytes it has outside, where these
    are counted in `l` or there are none. -/
theorem findLcn_getD {outermost : Option (List Nat)} {l : List Nat} {lcn : Nat}
    (h : ∀ outer ∈ outermost, lcn ∉ outer ∧ lcn ∉ l) :
    let slot_info := (FindLcn ((outermost.map countSlots).getD (countSlots l)) lcn 0).getD ⟨0, 0, 0⟩
    slot_info.min_size = l.count lcn ∧ slot_info.max_size = l.count lcn := by
  cases outermost with
  | none =>
    simp only [map_none, getD_none, findLcn_countSlots]
    by_cases hm : lcn ∈ l
    · rw [countSlots_mem hm]
      exact ⟨rfl, rfl⟩
    · rw [countSlots_not_mem hm, count_eq_zero_of_not_mem hm]
      exact ⟨rfl, rfl⟩
  | some outer =>
    obtain ⟨ho, hl⟩ := h outer rfl
    simp only [map_some, getD_some, findLcn_countSlots]
    rw [countSlots_not_mem ho, count_eq_zero_of_not_mem hl]
    exact ⟨rfl, rfl⟩

/-- The slots of a sub-element list with the bytes `s`, repeated and added to those of `l`. -/
def addedSlots (rc_min rc_max : Nat) (s l : List Nat) : SlotMap := fun lcn =>
  if lcn ∈ s then
    some ⟨lcn, l.count lcn + s.count lcn * rc_min, l.count lcn + s.count lcn * rc_max⟩
  else countSlots l lcn

theorem count_mul_le (s : List Nat) (lcn rc : Nat) : s.count lcn * rc ≤ s.length * rc :=
  Nat.mul_le_mul_right rc count_le_length

/-- **Each channel is added once** where the outermost list has no slot of it. -/
theorem mergeSlots_eq {outermost : Option (List Nat)} {s l : List Nat} {rc_min rc_max : Nat}
    (h : ∀ outer ∈ outermost, ∀ lcn ∈ s, lcn ∉ outer ∧ lcn ∉ l) (hlcn : ∀ lcn ∈ s, lcn < 65536)
    (hmin : l.length + s.length * rc_min < 4294967296)
    (hmax : l.length + s.length * rc_max < 4294967296) :
    mergeSlots (outermost.map countSlots) rc_min rc_max (countSlots s) (countSlots l) =
      addedSlots rc_min rc_max s l := by
  funext lcn
  by_cases hs : lcn ∈ s
  · obtain ⟨hfmin, hfmax⟩ :=
      @findLcn_getD outermost l lcn fun outer ho => h outer ho lcn hs
    have hl : l.count lcn ≤ l.length := count_le_length
    have h1 := count_mul_le s lcn rc_min
    have h2 := count_mul_le s lcn rc_max
    rw [addedSlots, if_pos hs, mergeSlots, countSlots_mem hs]
    simp only [Nat.mod_eq_of_lt (hlcn lcn hs), hfmin, hfmax]
    rw [mul32_eq (by omega), mul32_eq (by omega), add32_eq (by omega), add32_eq (by omega)]
  · rw [addedSlots, if_neg hs, mergeSlots, countSlots_not_mem hs]

variable {n : Nat}

/-- Whole repeats are counted slots again. -/
theorem addedSlots_self (hn : 1 ≤ n) (s l : List Nat) :
    addedSlots n n s l = countSlots (l ++ (replicate n s).flatten) := by
  funext lcn
  have hcount : (replicate n s).flatten.count lcn = s.count lcn * n := by
    rw [count_flatten, map_replicate, sum_replicate, smul_eq_mul, Nat.mul_comm]
  have hmem : lcn ∈ (replicate n s).flatten ↔ lcn ∈ s := by
    rw [mem_flatten]
    constructor
    · intro ⟨l', hl', hm⟩
      exact eq_of_mem_replicate hl' ▸ hm
    · intro hm
      exact ⟨s, mem_replicate.mpr ⟨by omega, rfl⟩, hm⟩
  by_cases hs : lcn ∈ s
  · rw [addedSlots, if_pos hs, countSlots_mem (mem_append_right l (hmem.mpr hs)),
      count_append, hcount]
  · have hnot : lcn ∉ (replicate n s).flatten := fun h => hs (hmem.mp h)
    rw [addedSlots, if_neg hs]
    by_cases hl : lcn ∈ l
    · rw [countSlots_mem hl, countSlots_mem (mem_append_left _ hl), count_append,
        count_eq_zero_of_not_mem hnot, Nat.add_zero]
    · have hboth : lcn ∉ l ++ (replicate n s).flatten := by
        rw [mem_append]
        intro h
        exact h.elim hl hnot
      rw [countSlots_not_mem hl, countSlots_not_mem hboth]

theorem insert_replicate (h : lcn ∉ l) (hn : 1 ≤ n) :
    (countSlots l).insert ⟨lcn, n, n⟩ = countSlots (l ++ replicate n lcn) := by
  rw [SlotMap.insert, countSlots_not_mem h, isSome_none, if_neg Bool.false_ne_true]
  funext c
  by_cases hc : c = lcn
  · have hm : lcn ∈ l ++ replicate n lcn :=
      mem_append_right l (mem_replicate.mpr ⟨by omega, rfl⟩)
    rw [hc, update_self, countSlots_mem hm, count_append,
      count_eq_zero_of_not_mem h, count_replicate_self, Nat.zero_add]
  · have hnot : c ∉ replicate n lcn := fun hm => hc (eq_of_mem_replicate hm)
    rw [update_of_ne hc]
    by_cases hl : c ∈ l
    · rw [countSlots_mem hl, countSlots_mem (mem_append_left _ hl), count_append,
        count_eq_zero_of_not_mem hnot, Nat.add_zero]
    · have hboth : c ∉ l ++ replicate n lcn := by
        rw [mem_append]
        intro h
        exact h.elim hl hnot
      rw [countSlots_not_mem hl, countSlots_not_mem hboth]

/-! ## 6. The walk over finite elements -/

theorem addUnsigned_eq {a n : Nat} (h : a + n < 2147483648) :
    addUnsigned (a : Int) n = ((a + n : Nat) : Int) := by
  rw [addUnsigned, toUInt32_eq (by omega) (by omega), Int.toNat_natCast, add32_eq (by omega),
    toInt32_eq h]

theorem map_getD_countSlots (outermost : Option (List Nat)) (l : List Nat) :
    (outermost.map countSlots).getD (countSlots l) = countSlots (outermost.getD l) := by
  cases outermost with
  | none => rfl
  | some outer => rfl

/-- What an element takes off the space left, behind `before` bytes: its own bytes, or as a
    sub-element list all bytes so far. -/
def MultiplexElement.takesOff (before : Nat) : MultiplexElement → Nat
  | .logicalChannelNumber _ r => r.times 1
  | .subElementList es r => before + ((MultiplexElement.subElementList es r).slots 1).length

theorem findElement_channel {outermost : Option (List Nat)}
    (mp : Int) (num : Nat) (hn : 1 ≤ n) (hclean : lcn ∉ l) (hlt : l.length + n < 2147483648) :
    findElement (outermost.map countSlots) (.logicalChannelNumber lcn (.finite n))
        ⟨countSlots l, mp, l.length, num⟩ =
      some ⟨countSlots (l ++ replicate n lcn), addInt32 mp (-(n : Nat)),
        (l ++ replicate n lcn).length, add32 num 1⟩ := by
  rw [findElement]
  simp only [insert_replicate hclean hn, addUnsigned_eq hlt, length_append,
    length_replicate]

variable {es : List MultiplexElement}

/-- A sub-element list whose slots are found, repeated `n` times. -/
theorem findElement_list {outermost : Option (List Nat)}
    {mp mp' : Int} {num num' : Nat} (hn : 1 ≤ n)
    (hsub : FindLcns ((some (outermost.getD l)).map countSlots) es ⟨.empty, mp, 0, 0⟩ =
      some ⟨countSlots (slotsOf 1 es), mp', (slotsOf 1 es).length, num'⟩)
    (hlcn : ∀ lcn ∈ slotsOf 1 es, lcn < 65536)
    (hclean : ∀ outer ∈ outermost, ∀ lcn ∈ slotsOf 1 es, lcn ∉ outer ∧ lcn ∉ l)
    (hlt : l.length + (slotsOf 1 es).length * n < 2147483648) :
    findElement (outermost.map countSlots) (.subElementList es (.finite n))
        ⟨countSlots l, mp, l.length, num⟩ =
      some ⟨countSlots (l ++ (replicate n (slotsOf 1 es)).flatten),
        addInt32 mp (-(l.length + (slotsOf 1 es).length * n : Nat)),
        (l.length + (slotsOf 1 es).length * n : Nat), add32 num num'⟩ := by
  have hle : (slotsOf 1 es).length ≤ (slotsOf 1 es).length * n := Nat.le_mul_of_pos_right _ hn
  have hsize : mul32 n (toUInt32 ((slotsOf 1 es).length : Int)) = (slotsOf 1 es).length * n := by
    rw [toUInt32_eq (by omega) (by omega), Int.toNat_natCast, Nat.mul_comm _ n,
      mul32_eq (by rw [Nat.mul_comm]; omega)]
  rw [map_some] at hsub
  rw [findElement, map_getD_countSlots, hsub, bind_some, repeats, map_some]
  simp only [hsize, addUnsigned_eq hlt]
  rw [mergeSlots_eq hclean hlcn (by omega) (by omega), addedSlots_self hn]

theorem length_replicate_flatten (n : Nat) (s : List Nat) :
    (replicate n s).flatten.length = s.length * n := by
  rw [length_flatten, map_replicate, sum_replicate, smul_eq_mul, Nat.mul_comm]

mutual

/-- **The slots of a clean finite element are counted right**, in any depth. -/
theorem findElement_finite (outermost : Option (List Nat)) :
    ∀ (e : MultiplexElement) (l : List Nat) (mp : Int) (num : Nat), e.Finite → e.WellFormed →
      (∀ lcn ∈ e.slots 1, lcn < 65536) → e.Clean outermost l →
      l.length + (e.slots 1).length < 2147483648 →
      ∃ num', findElement (outermost.map countSlots) e ⟨countSlots l, mp, l.length, num⟩ =
        some ⟨countSlots (l ++ e.slots 1), addInt32 mp (-(e.takesOff l.length : Nat)),
          (l ++ e.slots 1).length, num'⟩
  | .logicalChannelNumber lcn r, l, mp, num, hf, hwf, _, hclean, hlt => by
      rw [MultiplexElement.Finite] at hf
      rw [WellFormed] at hwf
      rw [Clean] at hclean
      rw [MultiplexElement.slots, length_replicate] at hlt
      rw [MultiplexElement.slots, MultiplexElement.takesOff]
      obtain ⟨n, hr⟩ : ∃ n, r = .finite n := ⟨_, times_one hf⟩
      rw [hr] at hwf hlt ⊢
      exact ⟨_, findElement_channel mp num hwf hclean hlt⟩
  | .subElementList es r, l, mp, num, hf, hwf, hlcn, hclean, hlt => by
      rw [MultiplexElement.Finite] at hf
      rw [WellFormed] at hwf
      rw [Clean] at hclean
      rw [MultiplexElement.takesOff]
      rw [MultiplexElement.slots] at hlcn hlt ⊢
      obtain ⟨n, hr⟩ : ∃ n, r = .finite n := ⟨_, times_one hf.1⟩
      have hn : 1 ≤ n := by
        rw [hr] at hwf
        exact hwf.1
      have htimes : r.times 1 = n := by
        rw [hr]
        rfl
      rw [htimes] at hlcn hlt ⊢
      rw [length_replicate_flatten] at hlt
      have hlcn' : ∀ lcn ∈ slotsOf 1 es, lcn < 65536 := by
        intro lcn h
        exact hlcn lcn (mem_flatten.mpr ⟨_, mem_replicate.mpr ⟨by omega, rfl⟩, h⟩)
      have hle : (slotsOf 1 es).length ≤ (slotsOf 1 es).length * n := Nat.le_mul_of_pos_right _ hn
      obtain ⟨mp', num', hsub⟩ := findLcns_finite (some (outermost.getD l)) es [] mp 0 hf.2 hwf.2.2
        hlcn' hclean.2 (by rw [length_nil]; omega)
      rw [nil_append] at hsub
      rw [hr, length_append, length_replicate_flatten]
      exact ⟨_, findElement_list hn hsub hlcn' hclean.1 hlt⟩

/-- So are those of a clean finite list. -/
theorem findLcns_finite (outermost : Option (List Nat)) :
    ∀ (es : List MultiplexElement) (l : List Nat) (mp : Int) (num : Nat), AllFinite es →
      AllWellFormed es → (∀ lcn ∈ slotsOf 1 es, lcn < 65536) → AllClean outermost l es →
      l.length + (slotsOf 1 es).length < 2147483648 →
      ∃ mp' num', FindLcns (outermost.map countSlots) es ⟨countSlots l, mp, l.length, num⟩ =
        some ⟨countSlots (l ++ slotsOf 1 es), mp', (l ++ slotsOf 1 es).length, num'⟩
  | [], l, mp, num, _, _, _, _, _ => by
      refine ⟨mp, num, ?_⟩
      rw [FindLcns, slotsOf, append_nil]
  | e :: es, l, mp, num, hf, hwf, hlcn, hclean, hlt => by
      rw [AllFinite] at hf
      rw [AllWellFormed] at hwf
      rw [AllClean] at hclean
      rw [slotsOf] at hlcn hlt ⊢
      rw [length_append] at hlt
      obtain ⟨num1, h1⟩ := findElement_finite outermost e l mp num hf.1 hwf.1
        (fun lcn h => hlcn lcn (mem_append_left _ h)) hclean.1 (by omega)
      obtain ⟨mp', num', h2⟩ := findLcns_finite outermost es (l ++ e.slots 1) _ num1 hf.2 hwf.2
        (fun lcn h => hlcn lcn (mem_append_right _ h)) hclean.2
        (by rw [length_append]; omega)
      refine ⟨mp', num', ?_⟩
      rw [FindLcns, h1, bind_some, h2, append_assoc]

end

/-! ## 7. The space left for the last element -/

variable {e : MultiplexElement}

/-- Where a channel's element, or the first element, is taken off, it is the element's bytes. -/
theorem takesOff_eq {before : Nat} (h : e.IsChannel ∨ before = 0) :
    e.takesOff before = (e.slots 1).length := by
  cases e with
  | logicalChannelNumber lcn r =>
    rw [MultiplexElement.takesOff, MultiplexElement.slots, length_replicate]
  | subElementList es r =>
    rw [MultiplexElement.takesOff, h.resolve_left id, Nat.zero_add]

theorem findLcns_channels :
    ∀ (fs : List MultiplexElement) (l : List Nat) (mp num : Nat), (∀ e ∈ fs, e.IsChannel) →
      AllFinite fs → AllWellFormed fs → (∀ lcn ∈ slotsOf 1 fs, lcn < 65536) →
      AllClean none l fs → l.length + (slotsOf 1 fs).length < 2147483648 →
      (slotsOf 1 fs).length ≤ mp → mp < 2147483648 →
      ∃ num', FindLcns none fs ⟨countSlots l, mp, l.length, num⟩ =
        some ⟨countSlots (l ++ slotsOf 1 fs), (mp - (slotsOf 1 fs).length : Nat),
          (l ++ slotsOf 1 fs).length, num'⟩ := by
  intro fs
  induction fs with
  | nil =>
    intro l mp num _ _ _ _ _ _ _ _
    refine ⟨num, ?_⟩
    rw [FindLcns, slotsOf, append_nil, length_nil, Nat.sub_zero]
  | cons e fs ih =>
    intro l mp num hch hf hwf hlcn hclean hlt hle hmp
    rw [AllFinite] at hf
    rw [AllWellFormed] at hwf
    rw [AllClean] at hclean
    rw [slotsOf] at hlcn hlt hle ⊢
    rw [length_append] at hlt hle
    obtain ⟨num1, h1⟩ := findElement_finite none e l mp num hf.1 hwf.1
      (fun lcn h => hlcn lcn (mem_append_left _ h)) hclean.1 (by omega)
    have htake : addInt32 mp (-(e.takesOff l.length : Nat)) = (mp - (e.slots 1).length : Nat) := by
      rw [takesOff_eq (.inl (hch e mem_cons_self)), addInt32_eq (by omega) (by omega)]
      omega
    rw [htake, map_none] at h1
    obtain ⟨num', h2⟩ := ih (l ++ e.slots 1) (mp - (e.slots 1).length) num1
      (fun e' h => hch e' (mem_cons_of_mem e h)) hf.2 hwf.2
      (fun lcn h => hlcn lcn (mem_append_right _ h)) hclean.2
      (by rw [length_append]; omega) (by omega) (by omega)
    refine ⟨num', ?_⟩
    rw [FindLcns, h1, bind_some, h2, append_assoc,
      @length_append _ (e.slots 1), Nat.sub_sub]

variable {size : Nat}

/-- **The space left is right** behind channels, the first element taken apart. -/
theorem findLcns_spaced (hf : AllFinite fs)
    (hwf : AllWellFormed fs) (hlcn : ∀ lcn ∈ slotsOf 1 fs, lcn < 65536)
    (hclean : AllClean none [] fs) (hspace : ∀ e ∈ fs.tail, e.IsChannel)
    (hle : (slotsOf 1 fs).length ≤ size) (hsize : size < 2147483648) :
    ∃ num', FindLcns none fs ⟨.empty, size, 0, 0⟩ =
      some ⟨countSlots (slotsOf 1 fs), (size - (slotsOf 1 fs).length : Nat),
        (slotsOf 1 fs).length, num'⟩ := by
  cases fs with
  | nil =>
    refine ⟨0, ?_⟩
    rw [FindLcns, slotsOf, length_nil, Nat.sub_zero, countSlots_nil]
    rfl
  | cons e fs =>
    rw [AllFinite] at hf
    rw [AllWellFormed] at hwf
    rw [AllClean, nil_append] at hclean
    rw [slotsOf] at hlcn hle ⊢
    rw [length_append] at hle
    obtain ⟨num1, h1⟩ := findElement_finite none e [] size 0 hf.1 hwf.1
      (fun lcn h => hlcn lcn (mem_append_left _ h)) hclean.1
      (by rw [length_nil]; omega)
    have htake : addInt32 size (-(e.takesOff ([] : List Nat).length : Nat)) =
        (size - (e.slots 1).length : Nat) := by
      rw [takesOff_eq (.inr length_nil), addInt32_eq (by omega) (by omega)]
      omega
    rw [htake, map_none, nil_append] at h1
    obtain ⟨num', h2⟩ := findLcns_channels fs (e.slots 1) (size - (e.slots 1).length) num1 hspace
      hf.2 hwf.2 (fun lcn h => hlcn lcn (mem_append_right _ h)) hclean.2 (by omega) (by omega)
      (by omega)
    refine ⟨num', ?_⟩
    have h1' : findElement none e ⟨.empty, size, 0, 0⟩ = _ := h1
    rw [FindLcns, h1', bind_some, h2, length_append, Nat.sub_sub]

/-! ## 8. The last element -/

theorem findLcns_append (iLcns : Option SlotMap) (es fs : List MultiplexElement) (w : LcnWalk) :
    FindLcns iLcns (es ++ fs) w = (FindLcns iLcns es w).bind (FindLcns iLcns fs) := by
  induction es generalizing w with
  | nil => rw [nil_append, FindLcns, bind_some]
  | cons e es ih =>
    rw [cons_append, FindLcns, FindLcns, bind_assoc]
    exact congrArg _ (funext ih)

theorem allClean_append (outermost : Option (List Nat)) (l : List Nat)
    (es fs : List MultiplexElement) :
    AllClean outermost l (es ++ fs) ↔
      AllClean outermost l es ∧ AllClean outermost (l ++ slotsOf 1 es) fs := by
  induction es generalizing l with
  | nil => simp only [nil_append, AllClean, slotsOf, append_nil, true_and]
  | cons e es ih =>
    simp only [cons_append, AllClean, slotsOf, ih, and_assoc, append_assoc]

theorem allWellFormed_append (es fs : List MultiplexElement) :
    AllWellFormed (es ++ fs) ↔ AllWellFormed es ∧ AllWellFormed fs := by
  induction es with
  | nil => simp only [nil_append, AllWellFormed, true_and]
  | cons e es ih => simp only [cons_append, AllWellFormed, ih, and_assoc]

/-- What finite elements give a channel. -/
theorem mem_canGive_finite {fs : List MultiplexElement} (hf : AllFinite fs) {size lcn n : Nat} :
    n ∈ canGive fs size lcn ↔
      (slotsOf 1 fs).length ≤ size ∧ n = (slotsOf 1 fs).count lcn := by
  constructor
  · intro ⟨l, hfills, hle, hn⟩
    rw [(fills_iff fs hf l).mp hfills] at hle hn
    exact ⟨hle, hn⟩
  · intro ⟨hle, hn⟩
    exact ⟨_, (fills_iff fs hf _).mpr rfl, hle, hn⟩

variable {s : List Nat}

/-- What a last element of whole repeats of `s` gives a channel, behind finite elements. -/
theorem mem_canGive_until (hf : AllFinite fs)
    (he : ∀ l, FillsElement e l ↔ ∃ k, 1 ≤ k ∧ l = (replicate k s).flatten)
    :
    n ∈ canGive (fs ++ [e]) size lcn ↔ ∃ k, 1 ≤ k ∧
      (slotsOf 1 fs).length + s.length * k ≤ size ∧
      n = (slotsOf 1 fs).count lcn + s.count lcn * k := by
  have hcount : ∀ k, (replicate k s).flatten.count lcn = s.count lcn * k := by
    intro k
    rw [count_flatten, map_replicate, sum_replicate, smul_eq_mul, Nat.mul_comm]
  constructor
  · intro ⟨l, hfills, hle, hn⟩
    obtain ⟨l', hl', hl⟩ := (fills_append_iff hf e l).mp hfills
    obtain ⟨k, hk, hlk⟩ := (he l').mp hl'
    rw [hl, hlk, length_append, length_replicate_flatten] at hle
    rw [hl, hlk, count_append, hcount] at hn
    exact ⟨k, hk, hle, hn⟩
  · intro ⟨k, hk, hle, hn⟩
    refine ⟨slotsOf 1 fs ++ (replicate k s).flatten,
      (fills_append_iff hf e _).mpr ⟨_, (he _).mpr ⟨k, hk, rfl⟩, rfl⟩, ?_, ?_⟩
    · rw [length_append, length_replicate_flatten]
      exact hle
    · rw [count_append, hcount]
      exact hn

theorem exists_canGive
    (hfit : ∃ l, Fills es l ∧ l.length ≤ size) (lcn : Nat) : ∃ n, n ∈ canGive es size lcn := by
  obtain ⟨l, hl, hle⟩ := hfit
  exact ⟨_, l, hl, hle, rfl⟩

/-! ## 9. The bounds -/

theorem findsBounds_finite (hf : AllFinite es)
    (hwf : AllWellFormed es) (hlcn : ∀ lcn ∈ slotsOf 1 es, lcn < 65536)
    (hclean : AllClean none [] es) (hfit : ∃ l, Fills es l ∧ l.length ≤ size)
    (hsize : size < 2147483648) : FindsBounds es size := by
  obtain ⟨n, hn⟩ := exists_canGive hfit 0
  have hle := ((mem_canGive_finite hf).mp hn).1
  obtain ⟨mp', num', hfind⟩ := findLcns_finite none es [] size 0 hf hwf hlcn hclean
    (by rw [length_nil]; omega)
  rw [nil_append] at hfind
  refine ⟨countSlots (slotsOf 1 es), ?_, ?_, ?_⟩
  · rw [iLcnsOf, toInt32_eq hsize]
    exact congrArg (Option.map LcnWalk.lcns) hfind
  · intro lcn
    by_cases h : lcn ∈ slotsOf 1 es
    · rw [countSlots_mem h]
      exact iff_of_true rfl h
    · rw [countSlots_not_mem h]
      exact iff_of_false Bool.false_ne_true h
  · intro lcn slot hslot
    have hmem : lcn ∈ slotsOf 1 es := by
      by_contra h
      rw [countSlots_not_mem h] at hslot
      exact some_ne_none slot hslot.symm
    rw [countSlots_mem hmem, some.injEq] at hslot
    have hin := (@mem_canGive_finite _ hf _ lcn _).mpr ⟨hle, rfl⟩
    rw [← hslot]
    refine ⟨rfl, ⟨hin, ?_⟩, .inl ⟨hin, ?_⟩⟩
    · intro n hn
      exact ((mem_canGive_finite hf).mp hn).2.ge
    · intro n hn
      exact ((mem_canGive_finite hf).mp hn).2.le

/-- The bounds of a channel where whole repeats of `s` come last. -/
theorem canGive_until_bounds (hf : AllFinite fs)
        (he : ∀ l, FillsElement e l ↔ ∃ k, 1 ≤ k ∧ l = (replicate k s).flatten)
    (hs : 1 ≤ s.length) (hle : (slotsOf 1 fs).length + s.length ≤ size) (lcn : Nat) :
    IsLeast (canGive (fs ++ [e]) size lcn) ((slotsOf 1 fs).count lcn + s.count lcn * 1) ∧
    IsGreatest (canGive (fs ++ [e]) size lcn)
      ((slotsOf 1 fs).count lcn + s.count lcn * ((size - (slotsOf 1 fs).length) / s.length)) := by
  have hdiv : s.length * ((size - (slotsOf 1 fs).length) / s.length) ≤
      size - (slotsOf 1 fs).length := Nat.mul_div_le _ _
  have hone : 1 ≤ (size - (slotsOf 1 fs).length) / s.length :=
    (Nat.one_le_div_iff hs).mpr (by omega)
  refine ⟨⟨(mem_canGive_until hf he).mpr ⟨1, le_refl 1, by omega, rfl⟩, ?_⟩,
    ⟨(mem_canGive_until hf he).mpr ⟨_, hone, by omega, rfl⟩, ?_⟩⟩
  · intro n hn
    obtain ⟨k, hk, _, hn⟩ := (mem_canGive_until hf he).mp hn
    have := Nat.mul_le_mul_left (s.count lcn) hk
    omega
  · intro n hn
    obtain ⟨k, _, hkle, hn⟩ := (mem_canGive_until hf he).mp hn
    have hk : k ≤ (size - (slotsOf 1 fs).length) / s.length := by
      rw [Nat.le_div_iff_mul_le hs, Nat.mul_comm]
      omega
    have := Nat.mul_le_mul_left (s.count lcn) hk
    omega

/-- A channel until the closing flag comes last. -/
theorem findsBounds_channel {c : Nat} (hf : AllFinite fs)
    (hwf : AllWellFormed fs) (hlcn : ∀ lcn ∈ slotsOf 1 fs, lcn < 65536)
    (hclean : AllClean none [] fs) (hc : c ∉ slotsOf 1 fs)
    (hle : (slotsOf 1 fs).length + 1 ≤ size) (hsize : size < 2147483648) :
    FindsBounds (fs ++ [.logicalChannelNumber c .untilClosingFlag]) size := by
  obtain ⟨mp', num', hfind⟩ := findLcns_finite none fs [] size 0 hf hwf hlcn hclean
    (by rw [length_nil]; omega)
  rw [nil_append] at hfind
  have hbounds := canGive_until_bounds hf (s := [c])
    (fun l => by simpa using fillsElement_channel_iff c l) (le_refl 1) hle
  have hslots : slotsOf 1 (fs ++ [.logicalChannelNumber c .untilClosingFlag]) =
      slotsOf 1 fs ++ [c] := slotsOf_append 1 fs _
  refine ⟨update (countSlots (slotsOf 1 fs)) c (some ⟨c, 1, 0⟩), ?_, ?_, ?_⟩
  · have hinsert : (countSlots (slotsOf 1 fs)).insert ⟨c, 1, 0⟩ =
        update (countSlots (slotsOf 1 fs)) c (some ⟨c, 1, 0⟩) := by
      rw [SlotMap.insert, countSlots_not_mem hc, isSome_none, if_neg Bool.false_ne_true]
    have hwhole : FindLcns none fs ⟨.empty, size, 0, 0⟩ = _ := hfind
    rw [iLcnsOf, toInt32_eq hsize, findLcns_append, hwhole, bind_some, FindLcns,
      findElement, bind_some, FindLcns, map_some]
    exact congrArg some hinsert
  · intro lcn
    rw [hslots, mem_append, mem_singleton]
    by_cases h : lcn = c
    · rw [h, update_self]
      exact iff_of_true rfl (.inr rfl)
    · rw [update_of_ne h, countSlots]
      split <;> simp_all
  · intro lcn slot hslot
    by_cases h : lcn = c
    · rw [h, update_self, some.injEq] at hslot
      obtain ⟨hleast, _⟩ := hbounds c
      rw [count_eq_zero_of_not_mem hc, count_singleton_self] at hleast
      rw [← hslot, h]
      exact ⟨rfl, hleast, .inr ⟨rfl, mem_append_right fs mem_cons_self⟩⟩
    · obtain ⟨hleast, hgreatest⟩ := hbounds lcn
      have h0 : [c].count lcn = 0 :=
        count_eq_zero_of_not_mem fun hm => h (mem_singleton.mp hm)
      rw [h0, Nat.zero_mul, Nat.add_zero] at hleast
      rw [h0, Nat.zero_mul, Nat.add_zero] at hgreatest
      rw [update_of_ne h, countSlots] at hslot
      split at hslot
      · rw [some.injEq] at hslot
        rw [← hslot]
        exact ⟨rfl, hleast, .inl hgreatest⟩
      · exact absurd hslot.symm (some_ne_none slot)

theorem one_le_slotsOf_length :
    ∀ (es : List MultiplexElement), AllWellFormed es → es ≠ [] → 1 ≤ (slotsOf 1 es).length
  | [], _, h => absurd rfl h
  | .logicalChannelNumber lcn r :: es, hwf, _ => by
      have h1 : 1 ≤ r.times 1 := hwf.1
      rw [slotsOf, MultiplexElement.slots, length_append, length_replicate]
      omega
  | .subElementList sub r :: es, hwf, _ => by
      have h1 : 1 ≤ r.times 1 := hwf.1.1
      have hsub := one_le_slotsOf_length sub hwf.1.2.2 hwf.1.2.1
      have hle := Nat.mul_le_mul hsub h1
      rw [slotsOf, MultiplexElement.slots, length_append, length_replicate_flatten]
      omega

/-- A finite sub-element list until the closing flag comes last. -/
theorem findsBounds_list {sub : List MultiplexElement} (hf : AllFinite fs)
    (hwf : AllWellFormed fs) (hlcn : ∀ lcn ∈ slotsOf 1 fs, lcn < 65536)
    (hclean : AllClean none [] fs) (hspace : ∀ e ∈ fs.tail, e.IsChannel) (hfsub : AllFinite sub)
    (hwfsub : AllWellFormed sub) (hne : sub ≠ []) (hlcnsub : ∀ lcn ∈ slotsOf 1 sub, lcn < 65536)
    (hcleansub : AllClean (some (slotsOf 1 fs)) [] sub)
    (hle : (slotsOf 1 fs).length + (slotsOf 1 sub).length ≤ size) (hsize : size < 2147483648) :
    FindsBounds (fs ++ [.subElementList sub .untilClosingFlag]) size := by
  have hone := one_le_slotsOf_length sub hwfsub hne
  have hbounds := canGive_until_bounds hf (fillsElement_list_iff hfsub) hone hle
  have hslots : slotsOf 1 (fs ++ [.subElementList sub .untilClosingFlag]) =
      slotsOf 1 fs ++ slotsOf 1 sub := by
    rw [slotsOf_append, slotsOf, slotsOf, MultiplexElement.slots, times,
      append_nil, replicate_one, flatten_singleton]
  have hdiv : (slotsOf 1 sub).length * ((size - (slotsOf 1 fs).length) / (slotsOf 1 sub).length) ≤
      size - (slotsOf 1 fs).length := Nat.mul_div_le _ _
  obtain ⟨num, hfind⟩ := findLcns_spaced hf hwf hlcn hclean hspace (by omega) hsize
  obtain ⟨mp', num', hsub⟩ := findLcns_finite (some (slotsOf 1 fs)) sub []
    (size - (slotsOf 1 fs).length : Nat) 0 hfsub hwfsub hlcnsub hcleansub
    (by rw [length_nil]; omega)
  rw [nil_append] at hsub
  have hsub' : FindLcns (some (countSlots (slotsOf 1 fs))) sub
      ⟨.empty, (size - (slotsOf 1 fs).length : Nat), 0, 0⟩ = _ := hsub
  have hqle := Nat.div_le_self (size - (slotsOf 1 fs).length) (slotsOf 1 sub).length
  obtain ⟨q, hqe⟩ : ∃ q, (size - (slotsOf 1 fs).length) / (slotsOf 1 sub).length = q := ⟨_, rfl⟩
  rw [hqe] at hdiv hqle
  simp only [hqe] at hbounds
  have hq : toUInt32 (((size - (slotsOf 1 fs).length : Nat) : Int).tdiv
      ((slotsOf 1 sub).length : Int)) = q := by
    rw [← Int.ofNat_tdiv, hqe, toUInt32_eq (by omega) (by omega), Int.toNat_natCast]
  have hmerge : mergeSlots none 1 q (countSlots (slotsOf 1 sub)) (countSlots (slotsOf 1 fs)) =
      addedSlots 1 q (slotsOf 1 sub) (slotsOf 1 fs) :=
    @mergeSlots_eq none _ _ 1 q (fun outer h => absurd h (not_mem_none outer)) hlcnsub
      (by omega) (by omega)
  have hne0 : ¬((slotsOf 1 sub).length : Int) = 0 := by omega
  refine ⟨addedSlots 1 q (slotsOf 1 sub) (slotsOf 1 fs), ?_, ?_, ?_⟩
  · rw [iLcnsOf, toInt32_eq hsize, findLcns_append, hfind, bind_some, FindLcns, findElement,
      getD_none, hsub', bind_some, repeats, if_neg hne0, map_some,
      bind_some, FindLcns, map_some, hq, hmerge]
  · intro lcn
    rw [hslots, mem_append, addedSlots]
    by_cases h : lcn ∈ slotsOf 1 sub
    · rw [if_pos h]
      exact iff_of_true rfl (.inr h)
    · rw [if_neg h, countSlots]
      split <;> simp_all
  · intro lcn slot hslot
    obtain ⟨hleast, hgreatest⟩ := hbounds lcn
    by_cases h : lcn ∈ slotsOf 1 sub
    · rw [addedSlots, if_pos h, some.injEq] at hslot
      rw [← hslot]
      exact ⟨rfl, hleast, .inl hgreatest⟩
    · rw [count_eq_zero_of_not_mem h, Nat.zero_mul, Nat.add_zero] at hleast
      rw [count_eq_zero_of_not_mem h, Nat.zero_mul, Nat.add_zero] at hgreatest
      rw [addedSlots, if_neg h, countSlots] at hslot
      split at hslot
      · rw [some.injEq] at hslot
        rw [← hslot]
        exact ⟨rfl, hleast, .inl hgreatest⟩
      · exact absurd hslot.symm (some_ne_none slot)

/-- **A regular descriptor's bounds are found.** -/
theorem Regular.findsBounds (h : Regular es size)
    (hwf : AllWellFormed es) (hlcn : ∀ lcn ∈ slotsOf 1 es, lcn < 65536)
    (hfit : ∃ l, Fills es l ∧ l.length ≤ size) : FindsBounds es size := by
  obtain ⟨hclean, ⟨fs, last, hes, hf, hends⟩, hsize⟩ := h
  rw [hes] at hwf hlcn hclean hfit ⊢
  rw [slotsOf_append] at hlcn
  obtain ⟨hwff, hwfl⟩ := (allWellFormed_append fs last).mp hwf
  obtain ⟨hcleanf, hcleanl⟩ := (allClean_append none [] fs last).mp hclean
  have hlcnf : ∀ lcn ∈ slotsOf 1 fs, lcn < 65536 := fun lcn h =>
    hlcn lcn (mem_append_left _ h)
  rw [nil_append] at hcleanl
  cases hends with
  | finite =>
    rw [append_nil] at hfit ⊢
    exact findsBounds_finite hf hwff hlcnf hcleanf hfit hsize
  | @channel c =>
    obtain ⟨n, hn⟩ := exists_canGive hfit 0
    obtain ⟨k, hk, hle, _⟩ := (mem_canGive_until hf (s := [c])
      (fun l => by simpa using fillsElement_channel_iff c l)).mp hn
    rw [length_singleton] at hle
    exact findsBounds_channel hf hwff hlcnf hcleanf hcleanl.1 (by omega) hsize
  | @list sub hsub hspace =>
    obtain ⟨n, hn⟩ := exists_canGive hfit 0
    obtain ⟨k, hk, hle, _⟩ := (mem_canGive_until hf (fillsElement_list_iff hsub)).mp hn
    have hmul : (slotsOf 1 sub).length ≤ (slotsOf 1 sub).length * k := Nat.le_mul_of_pos_right _ hk
    have hcsub : AllClean (some (slotsOf 1 fs)) [] sub := by
      have h := hcleanl.1
      rw [Clean] at h
      exact h.2
    refine findsBounds_list hf hwff hlcnf hcleanf hspace hsub hwfl.1.2.2 hwfl.1.2.1 ?_ hcsub
      (by omega) hsize
    intro lcn h
    refine hlcn lcn (mem_append_right _ ?_)
    rw [slotsOf, MultiplexElement.slots, times, replicate_one,
      flatten_singleton]
    exact mem_append_left _ h

/-! ## 10. The least filling -/

theorem RepeatCount.allows_times (r : RepeatCount) : r.Allows (r.times 1) := by
  cases r with
  | finite n => exact rfl
  | untilClosingFlag => exact le_refl 1

theorem RepeatCount.Allows.times_le {k : Nat} (h : r.Allows k) :
    r.times 1 ≤ k := by
  cases r with
  | finite n => exact (show k = n from h).ge
  | untilClosingFlag => exact h

theorem replicate_flatten_sublist :
    ∀ (n : Nat) (ls : List (List Nat)), n ≤ ls.length → (∀ l ∈ ls, s.Sublist l) →
      (replicate n s).flatten.Sublist ls.flatten
  | 0, ls, _, _ => nil_sublist ls.flatten
  | n + 1, [], h, _ => absurd h (Nat.not_succ_le_zero n)
  | n + 1, l :: ls, h, hs => by
      rw [replicate_succ, flatten_cons, flatten_cons]
      exact (hs l mem_cons_self).append
        (replicate_flatten_sublist n ls (Nat.le_of_succ_le_succ h)
          fun l' hl' => hs l' (mem_cons_of_mem l hl'))

mutual

/-- Every filling holds the slots, each element repeated as often as it must be. -/
theorem FillsElement.slots_sublist :
    ∀ (e : MultiplexElement) (l : List Nat), FillsElement e l → (e.slots 1).Sublist l
  | .logicalChannelNumber lcn r, l, h => by
      rw [MultiplexElement.slots]
      cases h with
      | channel h => exact (replicate_sublist_replicate lcn).mpr h.times_le
  | .subElementList es r, l, h => by
      rw [MultiplexElement.slots]
      cases h with
      | @list _ _ ls h hfills =>
        exact replicate_flatten_sublist _ ls h.times_le
          fun l hl => Fills.slotsOf_sublist es l (hfills l hl)

theorem Fills.slotsOf_sublist :
    ∀ (es : List MultiplexElement) (l : List Nat), Fills es l → (slotsOf 1 es).Sublist l
  | [], l, _ => by
      rw [slotsOf]
      exact nil_sublist l
  | e :: es, l, h => by
      rw [slotsOf]
      cases h with
      | cons h hs => exact (FillsElement.slots_sublist e _ h).append (Fills.slotsOf_sublist es _ hs)

end

mutual

theorem fillsElement_slots : ∀ (e : MultiplexElement), FillsElement e (e.slots 1)
  | .logicalChannelNumber lcn r => by
      rw [MultiplexElement.slots]
      exact .channel r.allows_times
  | .subElementList es r => by
      rw [MultiplexElement.slots]
      refine .list (by rw [length_replicate]; exact r.allows_times) fun l hl => ?_
      rw [eq_of_mem_replicate hl]
      exact fills_slotsOf es

theorem fills_slotsOf : ∀ (es : List MultiplexElement), Fills es (slotsOf 1 es)
  | [] => by
      rw [slotsOf]
      exact .nil
  | e :: es => by
      rw [slotsOf]
      exact .cons (fillsElement_slots e) (fills_slotsOf es)

end

/-- The least number of bytes of a channel: those of the slots. -/
theorem isLeast_canGive
    (hfit : ∃ l, Fills es l ∧ l.length ≤ size) (lcn : Nat) :
    IsLeast (canGive es size lcn) ((slotsOf 1 es).count lcn) := by
  obtain ⟨l, hl, hle⟩ := hfit
  refine ⟨⟨_, fills_slotsOf es, (Fills.slotsOf_sublist es l hl).length_le.trans hle, rfl⟩, ?_⟩
  intro n ⟨l', hl', _, hn⟩
  rw [hn]
  exact (Fills.slotsOf_sublist es l' hl').count_le lcn

/-! ## 11. What is lost -/

/-- A sub-element list holds no other one. -/
def MultiplexElement.Shallow : MultiplexElement → Prop
  | .logicalChannelNumber _ _ => True
  | .subElementList es _ => ∀ e ∈ es, e.IsChannel

/-- The minimum in a channel's slot. -/
def SlotMap.minimum (lcns : SlotMap) (c : Nat) : Nat := (lcns c).elim 0 (·.min_size)

/-- The channels of `l` have slots, under their numbers. -/
structure SlotMap.Tracks (lcns : SlotMap) (l : List Nat) : Prop where
  keyed : ∀ c slot, lcns c = some slot → slot.lcn = c
  dom : ∀ c, (lcns c).isSome ↔ c ∈ l

/-- From `lcns` with the channels of `l`, over the slots `s`, to `lcns'`: at most the bytes of `s`
    are added; fewer, where the walk was not `clean`. -/
structure Tallies (lcns lcns' : SlotMap) (l s : List Nat) (clean : Prop) : Prop where
  tracks : lcns'.Tracks (l ++ s)
  le : ∀ c, lcns'.minimum c ≤ lcns.minimum c + s.count c
  lost : ¬clean → ∃ c, lcns'.minimum c < lcns.minimum c + s.count c

/-- An element's turn counts so, wherever it stands. -/
def TalliesElement (iLcns : Option SlotMap) (outermost : Option (List Nat))
    (e : MultiplexElement) : Prop :=
  ∀ w w' l, w.lcns.Tracks l → findElement iLcns e w = some w' →
    Tallies w.lcns w'.lcns l (e.slots 1) (e.Clean outermost l)

theorem Tallies.trans {lcns1 lcns2 : SlotMap} {t : List Nat} {p q : Prop}
    (h1 : Tallies lcns lcns1 l s p) (h2 : Tallies lcns1 lcns2 (l ++ s) t q) :
    Tallies lcns lcns2 l (s ++ t) (p ∧ q) := by
  refine ⟨?_, ?_, ?_⟩
  · rw [← append_assoc]
    exact h2.tracks
  · intro c
    have hle1 := h1.le c
    have hle2 := h2.le c
    rw [count_append]
    omega
  · intro hpq
    by_cases hp : p
    · obtain ⟨c, hc⟩ := h2.lost fun hq => hpq ⟨hp, hq⟩
      have hle := h1.le c
      refine ⟨c, ?_⟩
      rw [count_append]
      omega
    · obtain ⟨c, hc⟩ := h1.lost hp
      have hle := h2.le c
      refine ⟨c, ?_⟩
      rw [count_append]
      omega

/-- What the elements do, the list does. -/
theorem tallies_list {iLcns : Option SlotMap} {outermost : Option (List Nat)}
    (es : List MultiplexElement) (hes : ∀ e ∈ es, TalliesElement iLcns outermost e) :
    ∀ (w w' : LcnWalk) (l : List Nat), w.lcns.Tracks l → FindLcns iLcns es w = some w' →
      Tallies w.lcns w'.lcns l (slotsOf 1 es) (AllClean outermost l es) := by
  induction es with
  | nil =>
    intro w w' l hl h
    rw [FindLcns, some.injEq] at h
    rw [← h, slotsOf]
    refine ⟨?_, fun c => le_refl _, fun hn => absurd trivial hn⟩
    rw [append_nil]
    exact hl
  | cons e es ih =>
    intro w w' l hl h
    rw [FindLcns] at h
    obtain ⟨w1, h1, h2⟩ := bind_eq_some_iff.mp h
    have hc1 := hes e mem_cons_self w w1 l hl h1
    have hc2 := ih (fun e' he' => hes e' (mem_cons_of_mem e he')) w1 w' _ hc1.tracks h2
    rw [slotsOf]
    exact hc1.trans hc2

/-- A channel's element: with a slot there, its bytes are lost. -/
theorem talliesElement_channel (iLcns : Option SlotMap) (outermost : Option (List Nat)) (lcn : Nat)
    (hr : 1 ≤ r.times 1) :
    TalliesElement iLcns outermost (.logicalChannelNumber lcn r) := by
  intro w w' l hl h
  have hlcns : ∃ max_size, w'.lcns = w.lcns.insert ⟨lcn, r.times 1, max_size⟩ := by
    cases r with
    | finite n =>
      rw [findElement, some.injEq] at h
      exact ⟨n, (congrArg LcnWalk.lcns h).symm⟩
    | untilClosingFlag =>
      rw [findElement, some.injEq] at h
      exact ⟨0, (congrArg LcnWalk.lcns h).symm⟩
  obtain ⟨max_size, hlcns⟩ := hlcns
  rw [hlcns, MultiplexElement.slots, Clean, SlotMap.insert]
  have hself : lcn ∈ replicate (r.times 1) lcn := mem_replicate.mpr ⟨by omega, rfl⟩
  by_cases hm : lcn ∈ l
  · rw [if_pos ((hl.dom lcn).mpr hm)]
    refine ⟨⟨hl.keyed, fun c => ?_⟩, fun c => Nat.le_add_right _ _, fun _ => ⟨lcn, ?_⟩⟩
    · rw [hl.dom c, mem_append]
      constructor
      · intro hc
        exact .inl hc
      · intro hc
        exact hc.elim id fun hc => eq_of_mem_replicate hc ▸ hm
    · rw [count_replicate_self]
      omega
  · have hnone : ¬(w.lcns lcn).isSome = true := fun hs => hm ((hl.dom lcn).mp hs)
    rw [if_neg hnone]
    refine ⟨⟨fun c slot hslot => ?_, fun c => ?_⟩, fun c => ?_, fun hn => absurd hm hn⟩
    · by_cases hc : c = lcn
      · rw [hc, update_self, some.injEq] at hslot
        rw [hc, ← hslot]
      · rw [update_of_ne hc] at hslot
        exact hl.keyed c slot hslot
    · by_cases hc : c = lcn
      · rw [hc, update_self]
        exact iff_of_true rfl (mem_append_right l hself)
      · rw [update_of_ne hc, hl.dom c, mem_append]
        constructor
        · intro h
          exact .inl h
        · intro h
          exact h.elim id fun h => absurd (eq_of_mem_replicate h) hc
    · by_cases hc : c = lcn
      · rw [hc, SlotMap.minimum, update_self, count_replicate_self]
        exact Nat.le_add_left _ _
      · rw [SlotMap.minimum, update_of_ne hc]
        exact Nat.le_add_right _ _

/-- The minima of a sub-element list in the outermost list are added. -/
theorem mergeSlots_none {lcns_local : SlotMap} (rc_min rc_max : Nat)
    (hs : lcns_local.Tracks s) (hl : lcns.Tracks l) (hlcn : ∀ lcn ∈ s, lcn < 65536) (c : Nat) :
    (∀ slot, mergeSlots none rc_min rc_max lcns_local lcns c = some slot → slot.lcn = c) ∧
    ((mergeSlots none rc_min rc_max lcns_local lcns c).isSome ↔ c ∈ l ∨ c ∈ s) ∧
    (mergeSlots none rc_min rc_max lcns_local lcns).minimum c ≤
      lcns.minimum c + lcns_local.minimum c * rc_min := by
  rw [SlotMap.minimum, SlotMap.minimum, SlotMap.minimum, ← hl.dom c, ← hs.dom c, mergeSlots]
  cases hsc : lcns_local c with
  | none =>
    refine ⟨hl.keyed c, ?_, Nat.le_add_right _ _⟩
    simp only [isSome_none, Bool.false_eq_true, or_false]
  | some slot =>
    have hc : slot.lcn = c := hs.keyed c slot hsc
    have hlt : c < 65536 := hlcn c ((hs.dom c).mp (by rw [hsc]; rfl))
    have hfind : FindLcn lcns c 0 = lcns c := findLcn_zero (hl.keyed c)
    have hadd : ∀ a, add32 a (mul32 slot.min_size rc_min) ≤ a + slot.min_size * rc_min := by
      intro a
      unfold add32 mul32
      exact (Nat.mod_le _ _).trans (Nat.add_le_add_left (Nat.mod_le _ _) a)
    simp only [hc, Nat.mod_eq_of_lt hlt, getD_none, hfind]
    refine ⟨?_, iff_of_true rfl (.inr rfl), ?_⟩
    · intro slot' h
      exact congrArg TPVMuxDescriptorSlot.lcn (some.inj h.symm)
    · cases lcns c with
      | none => exact hadd 0
      | some outer => exact hadd outer.min_size

/-- A sub-element list of channels in the outermost list: what is lost in it stays lost. -/
theorem talliesElement_list
    (hes : ∀ e ∈ es, ∀ iLcns outermost, TalliesElement iLcns outermost e) (hr : 1 ≤ r.times 1)
    (hlcn : ∀ lcn ∈ slotsOf 1 es, lcn < 65536) :
    TalliesElement none none (.subElementList es r) := by
  intro w w' l hl h
  rw [findElement] at h
  obtain ⟨sub, hsub, h⟩ := bind_eq_some_iff.mp h
  obtain ⟨rc, hrc, h⟩ := map_eq_some_iff.mp h
  have hmin : rc.1 = r.times 1 := by
    cases r with
    | finite n => exact (congrArg Prod.fst (some.inj hrc)).symm
    | untilClosingFlag =>
      rw [repeats] at hrc
      split at hrc
      · exact absurd hrc.symm (some_ne_none rc)
      · exact (congrArg Prod.fst (some.inj hrc)).symm
  have hempty : SlotMap.empty.Tracks [] :=
    ⟨fun c slot h => absurd h.symm (some_ne_none slot),
      fun c => iff_of_false Bool.false_ne_true not_mem_nil⟩
  have htally := @tallies_list _ (some l) es
    (fun e he => hes e he _ _) _ sub [] hempty hsub
  have htracks : sub.lcns.Tracks (slotsOf 1 es) := htally.tracks
  have hlcns : w'.lcns = mergeSlots none (r.times 1) rc.2 sub.lcns w.lcns := by
    rw [← hmin]
    exact (congrArg LcnWalk.lcns h).symm
  have hmerge := mergeSlots_none (r.times 1) rc.2 htracks hl hlcn
  have hcount : ∀ c, (replicate (r.times 1) (slotsOf 1 es)).flatten.count c =
      (slotsOf 1 es).count c * r.times 1 := by
    intro c
    rw [count_flatten, map_replicate, sum_replicate, smul_eq_mul, Nat.mul_comm]
  have hmem : ∀ c, c ∈ (replicate (r.times 1) (slotsOf 1 es)).flatten ↔ c ∈ slotsOf 1 es := by
    intro c
    rw [← count_pos_iff, ← count_pos_iff, hcount]
    exact ⟨fun h => Nat.pos_of_mul_pos_right h, fun h => Nat.mul_pos h hr⟩
  rw [hlcns, MultiplexElement.slots, Clean, getD_none]
  refine ⟨⟨fun c => (hmerge c).1, fun c => ?_⟩, fun c => ?_, fun hnot => ?_⟩
  · rw [(hmerge c).2.1, mem_append, hmem]
  · have hle : sub.lcns.minimum c ≤ (slotsOf 1 es).count c :=
      (htally.le c).trans_eq (Nat.zero_add _)
    have := Nat.mul_le_mul_right (r.times 1) hle
    have := (hmerge c).2.2
    rw [hcount]
    omega
  · have hunclean : ¬AllClean (some l) [] es := fun hc => hnot ⟨(fun outer h => nomatch h), hc⟩
    obtain ⟨c, hc⟩ := htally.lost hunclean
    have hlt : sub.lcns.minimum c < (slotsOf 1 es).count c := hc.trans_eq (Nat.zero_add _)
    have := Nat.mul_lt_mul_of_pos_right hlt hr
    have := (hmerge c).2.2
    refine ⟨c, ?_⟩
    rw [hcount]
    omega

theorem wellFormed_of_mem (es : List MultiplexElement) (hwf : AllWellFormed es)
    (hlcn : ∀ lcn ∈ slotsOf 1 es, lcn < 65536) :
    ∀ e ∈ es, e.WellFormed ∧ ∀ lcn ∈ e.slots 1, lcn < 65536 := by
  induction es with
  | nil => exact fun e h => absurd h not_mem_nil
  | cons a es ih =>
    rw [AllWellFormed] at hwf
    rw [slotsOf] at hlcn
    intro e he
    obtain he | he := mem_cons.mp he
    · rw [he]
      exact ⟨hwf.1, fun lcn h => hlcn lcn (mem_append_left _ h)⟩
    · exact ih hwf.2 (fun lcn h => hlcn lcn (mem_append_right _ h)) e he

/-- All elements of a shallow descriptor count so. -/
theorem talliesElement_all (es : List MultiplexElement) (hwf : AllWellFormed es)
    (hlcn : ∀ lcn ∈ slotsOf 1 es, lcn < 65536) (hshallow : ∀ e ∈ es, e.Shallow) :
    ∀ e ∈ es, TalliesElement none none e := by
  intro e he
  obtain ⟨hwfe, hlcne⟩ := wellFormed_of_mem es hwf hlcn e he
  cases e with
  | logicalChannelNumber lcn r => exact talliesElement_channel none none lcn hwfe
  | subElementList sub r =>
    have hflat : ∀ e' ∈ sub, e'.IsChannel := hshallow _ he
    have hlcnsub : ∀ lcn ∈ slotsOf 1 sub, lcn < 65536 := by
      intro lcn h
      refine hlcne lcn ?_
      rw [MultiplexElement.slots]
      have hone : 1 ≤ r.times 1 := hwfe.1
      exact mem_flatten.mpr ⟨_, mem_replicate.mpr ⟨by omega, rfl⟩, h⟩
    refine talliesElement_list (fun e' he' iLcns outermost => ?_) hwfe.1 hlcnsub
    obtain ⟨hwfe', _⟩ := wellFormed_of_mem sub hwfe.2.2 hlcnsub e' he'
    cases e' with
    | logicalChannelNumber lcn r' => exact talliesElement_channel iLcns outermost lcn hwfe'
    | subElementList _ _ => exact absurd (hflat _ he') id

/-- A slot with the right bounds has the bytes of the least filling as its minimum. -/
theorem FindsBounds.min_size_eq
    (h : FindsBounds es size) (hfit : ∃ l, Fills es l ∧ l.length ≤ size)
    (hlcns : iLcnsOf es size = some lcns) {c : Nat} {slot : TPVMuxDescriptorSlot}
    (hslot : lcns c = some slot) : slot.min_size = (slotsOf 1 es).count c := by
  obtain ⟨lcns', hlcns', _, hbounds⟩ := h
  rw [hlcns, some.injEq] at hlcns'
  rw [hlcns'] at hslot
  obtain ⟨hc, hleast, _⟩ := hbounds c slot hslot
  rw [hc] at hleast
  exact hleast.unique (isLeast_canGive hfit c)

/-- **A lost byte shows**: where no sub-element list holds another, only clean descriptors have
    their bounds found. -/
theorem FindsBounds.clean (h : FindsBounds es size)
    (hwf : AllWellFormed es) (hlcn : ∀ lcn ∈ slotsOf 1 es, lcn < 65536)
    (hfit : ∃ l, Fills es l ∧ l.length ≤ size) (hshallow : ∀ e ∈ es, e.Shallow) :
    AllClean none [] es := by
  obtain ⟨lcns, hlcns, hdom, _⟩ := id h
  obtain ⟨w', hw', hw'lcns⟩ := map_eq_some_iff.mp hlcns
  have hempty : SlotMap.empty.Tracks [] :=
    ⟨fun c slot h => absurd h.symm (some_ne_none slot),
      fun c => iff_of_false Bool.false_ne_true not_mem_nil⟩
  have htally := @tallies_list _ none es
    (talliesElement_all es hwf hlcn hshallow) _ w' [] hempty hw'
  by_contra hunclean
  obtain ⟨c, hc⟩ := htally.lost hunclean
  rw [hw'lcns] at hc
  have hlt : lcns.minimum c < (slotsOf 1 es).count c := hc.trans_eq (Nat.zero_add _)
  have hmem : c ∈ slotsOf 1 es := count_pos_iff.mp (by omega)
  obtain ⟨slot, hslot⟩ := isSome_iff_exists.mp ((hdom c).mpr hmem)
  rw [SlotMap.minimum, hslot, elim_some, h.min_size_eq hfit hlcns hslot] at hlt
  exact Nat.lt_irrefl _ hlt

end OpenCore.H223
