/-
  File:      OpenCore/GenData/BoolArray.lean
  Subject:   `BoolArray` (bool_array.h): truth values in words of 32 bits, against a plain list.

  `set_size` tests the size there is, not the one it is given. `set_range` takes the mask of the
  last word for a range inside one word, and so writes what stands ahead of the range there, too.

  **Main result**: `calls_agree_iff`.
-/
import Mathlib

namespace OpenCore.GenData

/-! ## 1. The code -/

structure BoolArray (max_array_size : Nat) where
  size : Int
  array : Vector (BitVec 32) ((max_array_size + 31) / 32)
  deriving DecidableEq

namespace BoolArray

variable {m : Nat}

def mask_array : Vector (BitVec 32) 33 :=
  #v[0, 0x1, 0x3, 0x7, 0xF, 0x1F, 0x3F, 0x7F, 0xFF, 0x1FF, 0x3FF, 0x7FF, 0xFFF, 0x1FFF, 0x3FFF,
    0x7FFF, 0xFFFF, 0x1FFFF, 0x3FFFF, 0x7FFFF, 0xFFFFF, 0x1FFFFF, 0x3FFFFF, 0x7FFFFF, 0xFFFFFF,
    0x1FFFFFF, 0x3FFFFFF, 0x7FFFFFF, 0xFFFFFFF, 0x1FFFFFFF, 0x3FFFFFFF, 0x7FFFFFFF, 0xFFFFFFFF]

def set_size (b : BoolArray m) (in_size : Int) : Bool × BoolArray m :=
  if b.size ≤ 0 ∨ b.size > m then (false, b) else (true, { b with size := in_size })

/-- The bits of `mask` become `value`. -/
def write (value : Bool) (mask word : BitVec 32) : BitVec 32 :=
  if value then word ||| mask else word &&& ~~~mask

/-- What the loop of `set_range` writes in word `ii`: the last word is asked for first. -/
def rangeMask (first last ii : Nat) : BitVec 32 :=
  if ii = last / 32 then mask_array.get ⟨last % 32 + 1, by omega⟩
  else if ii = first / 32 then ~~~mask_array.get ⟨first % 32, by omega⟩
  else mask_array.get 32

/-- The loop, for `k` words from `ii` on; `none` is an access outside `array`. -/
def setWords {n : Nat} (value : Bool) (first last : Nat) :
    Nat → Nat → Vector (BitVec 32) n → Option (Vector (BitVec 32) n)
  | 0, _, ws => some ws
  | k + 1, ii, ws =>
    if h : ii < n then
      setWords value first last k (ii + 1)
        (ws.set ii (write value (rangeMask first last ii) ws[ii]))
    else none

def set_range (b : BoolArray m) (value : Bool) (first_index last_index : Int) :
    Option (Bool × BoolArray m) :=
  let last_index := if last_index < 0 then b.size - 1 else last_index
  if first_index < 0 ∨ first_index > last_index ∨ last_index ≥ b.size then some (false, b)
  else
    let first := first_index.toNat
    let last := last_index.toNat
    (setWords value first last (last / 32 + 1 - first / 32) (first / 32) b.array).map
      fun array => (true, { b with array })

def set_value (b : BoolArray m) (index : Int) (value : Bool) : Option (Bool × BoolArray m) :=
  if index < 0 ∨ index ≥ b.size then some (false, b)
  else
    let i := index.toNat
    if h : i / 32 < (m + 31) / 32 then
      let word := write value (1#32 <<< (i % 32)) b.array[i / 32]
      some (true, { b with array := b.array.set (i / 32) word })
    else none

def get_value (b : BoolArray m) (index : Int) : Option Bool :=
  if index < 0 ∨ index ≥ b.size then some false
  else b.array[index.toNat / 32]?.map fun word => (word &&& 1#32 <<< (index.toNat % 32)) != 0

inductive Call where
  | set_size (in_size : Int)
  | set_range (value : Bool) (first_index last_index : Int)
  | set_value (index : Int) (value : Bool)
  | get_value (index : Int)

def step (b : BoolArray m) : Call → Option (Bool × BoolArray m)
  | .set_size n => some (b.set_size n)
  | .set_range v first last => b.set_range v first last
  | .set_value i v => b.set_value i v
  | .get_value i => (b.get_value i).map (·, b)

end BoolArray

/-! ## 2. The plain list -/

structure TruthList (m : Nat) where
  size : Nat
  values : Vector Bool m
  size_pos : 0 < size
  size_le : size ≤ m

namespace TruthList

open BoolArray

variable {m : Nat}

def fill (p : TruthList m) (v : Bool) (first last : Nat) : TruthList m :=
  { p with values := .ofFn fun i => if first ≤ i ∧ i ≤ last then v else p.values[i] }

/-- A negative `last_index` stands for the last element. -/
def last (p : TruthList m) (last_index : Int) : Int :=
  if last_index < 0 then p.size - 1 else last_index

theorem fill_get (p : TruthList m) (v : Bool) (first last : Nat) {i : Nat} (hi : i < m) :
    (p.fill v first last).values[i] = if first ≤ i ∧ i ≤ last then v else p.values[i] :=
  Vector.getElem_ofFn hi

def step (p : TruthList m) : Call → Bool × TruthList m
  | .set_size n =>
    if h : 0 < n ∧ n ≤ m then
      (true, { p with size := n.toNat, size_pos := by omega, size_le := by omega })
    else (false, p)
  | .set_range v a b =>
    if 0 ≤ a ∧ a ≤ p.last b ∧ p.last b < p.size then (true, p.fill v a.toNat (p.last b).toNat)
    else (false, p)
  | .set_value i v => if 0 ≤ i ∧ i < p.size then (true, p.fill v i.toNat i.toNat) else (false, p)
  | .get_value i => (decide (0 ≤ i ∧ i < p.size) && p.values[i.toNat]?.getD false, p)

/-- The calls that do on the words what they do on the list: a size that is allowed, and a range
    over several words, or with nothing but its own value ahead of it in its word. -/
def Fits (p : TruthList m) : Call → Prop
  | .set_size n => 0 < n ∧ n ≤ m
  | .set_range v a b =>
    0 ≤ a ∧ a ≤ p.last b ∧ p.last b < p.size → a.toNat / 32 = (p.last b).toNat / 32 →
      ∀ i (_ : i < m), i / 32 = a.toNat / 32 → i < a.toNat → p.values[i] = v
  | .set_value _ _ => True
  | .get_value _ => True

instance (p : TruthList m) : DecidablePred p.Fits
  | .set_size n => inferInstanceAs (Decidable (0 < n ∧ n ≤ m))
  | .set_range _ _ _ => inferInstanceAs (Decidable (_ → _ → _))
  | .set_value _ _ => inferInstanceAs (Decidable True)
  | .get_value _ => inferInstanceAs (Decidable True)

/-- Every call of the run fits the list it finds. -/
def AllFit : TruthList m → List Call → Prop
  | _, [] => True
  | p, c :: cs => p.Fits c ∧ AllFit (p.step c).2 cs

instance decidableAllFit : (p : TruthList m) → (cs : List Call) → Decidable (p.AllFit cs)
  | _, [] => inferInstanceAs (Decidable True)
  | p, c :: cs =>
    have := decidableAllFit (p.step c).2 cs
    inferInstanceAs (Decidable (_ ∧ _))

end TruthList

namespace BoolArray

variable {m : Nat}

/-- The list an array of an allowed size holds. -/
def content (b : BoolArray m) (h : 0 < b.size ∧ b.size ≤ m) : TruthList m where
  size := b.size.toNat
  values := .ofFn fun i => b.array[i.val / 32].getLsbD (i % 32)
  size_pos := by omega
  size_le := by omega

def Represents (b : BoolArray m) (p : TruthList m) : Prop :=
  b.size = p.size ∧ ∀ i (_ : i < m), b.array[i / 32].getLsbD (i % 32) = p.values[i]

/-- Each call of the run answers as the list does and leaves what the list becomes. -/
def Agree : BoolArray m → TruthList m → List Call → Prop
  | _, _, [] => True
  | b, p, c :: cs => ∃ b', b.step c = some ((p.step c).1, b') ∧ b'.Represents (p.step c).2 ∧
      Agree b' (p.step c).2 cs

/-! ## 3. Words -/

theorem mask_array_bit : ∀ k : Fin 33, ∀ t : Fin 32,
    (mask_array.get k).getLsbD t = decide (t.val < k.val) := by
  decide

theorem write_bit (v : Bool) (mask w : BitVec 32) {t : Nat} (ht : t < 32) :
    (write v mask w).getLsbD t = if mask.getLsbD t then v else w.getLsbD t := by
  cases v with
  | false => simp [write, ht]; grind
  | true => simp [write]; grind

theorem one_shiftLeft_bit {k t : Nat} (ht : t < 32) :
    (1#32 <<< k).getLsbD t = decide (t = k) := by
  rw [← BitVec.twoPow_eq, BitVec.getLsbD_twoPow]
  grind

theorem and_one_shiftLeft (w : BitVec 32) {k : Nat} (hk : k < 32) :
    ((w &&& 1#32 <<< k) != 0) = w.getLsbD k := by
  rw [← BitVec.twoPow_eq, BitVec.and_twoPow]
  cases h : w.getLsbD k with
  | false => rfl
  | true =>
    have hne : BitVec.twoPow 32 k ≠ 0 := by
      intro h0
      have hbit := congrArg (·.getLsbD k) h0
      simp [hk] at hbit
    rw [if_pos rfl]
    exact bne_iff_ne.mpr hne

theorem rangeMask_bit {first last j t : Nat} (hj : first / 32 ≤ j)
    (hj' : j ≤ last / 32) (ht : t < 32) :
    (rangeMask first last j).getLsbD t =
      decide (32 * j + t ≤ last ∧ (first ≤ 32 * j + t ∨ first / 32 = last / 32)) := by
  have hbit := fun k => mask_array_bit k ⟨t, ht⟩
  unfold rangeMask
  split
  · rw [hbit, decide_eq_decide]
    simp only
    omega
  · split
    · rw [BitVec.getLsbD_not, hbit, decide_eq_true ht, Bool.true_and, ← decide_not,
        decide_eq_decide]
      simp only
      omega
    · rw [hbit, decide_eq_decide]
      simp only [Fin.isValue]
      omega

theorem setWords_spec {n : Nat} (v : Bool) (first last k : Nat) :
    ∀ (ii : Nat) (ws : Vector (BitVec 32) n), ii + k ≤ n →
      ∃ ws', setWords v first last k ii ws = some ws' ∧ ∀ j (_ : j < n),
        ws'[j] = if ii ≤ j ∧ j < ii + k then write v (rangeMask first last j) ws[j] else ws[j] := by
  induction k with
  | zero =>
    intro ii ws _
    refine ⟨ws, rfl, fun j _ => ?_⟩
    rw [if_neg (by omega)]
  | succ k ih =>
    intro ii ws hle
    have hii : ii < n := by omega
    obtain ⟨ws', he, hws'⟩ :=
      ih (ii + 1) (ws.set ii (write v (rangeMask first last ii) ws[ii])) (by omega)
    refine ⟨ws', by rw [setWords, dif_pos hii, he], fun j hj => ?_⟩
    rw [hws' j hj, Vector.getElem_set]
    by_cases hij : ii = j
    · subst hij
      simp
    · rw [if_neg hij]
      exact if_congr (by omega) rfl rfl

/-! ## 4. One call -/

variable {b : BoolArray m} {p : TruthList m}

theorem represents_content (h : 0 < b.size ∧ b.size ≤ m) : b.Represents (b.content h) :=
  ⟨(Int.toNat_of_nonneg h.1.le).symm, fun i _ => by simp [content]⟩

section

variable (hr : b.Represents p)
include hr

theorem set_size_iff (n : Int) : p.Fits (.set_size n) ↔
    ∃ b', b.step (.set_size n) = some ((p.step (.set_size n)).1, b') ∧
      b'.Represents (p.step (.set_size n)).2 := by
  have hpos := p.size_pos
  have hle := p.size_le
  have hsize : b.set_size n = (true, { b with size := n }) := if_neg (by rw [hr.1]; omega)
  simp only [step, hsize, TruthList.step, TruthList.Fits]
  by_cases hn : 0 < n ∧ n ≤ m
  · rw [dif_pos hn]
    exact iff_of_true hn ⟨_, rfl, (Int.toNat_of_nonneg hn.1.le).symm, hr.2⟩
  · rw [dif_neg hn]
    exact iff_of_false hn (by simp)

/-- What `set_range` writes: with one word only, everything from the start of the word on. -/
theorem set_range_bits (v : Bool) {first last : Nat} (hle : first ≤ last)
    (hlast : last < p.size) :
    ∃ ws, setWords v first last (last / 32 + 1 - first / 32) (first / 32) b.array = some ws ∧
      ∀ i (hi : i < m), ws[i / 32].getLsbD (i % 32) =
        if i ≤ last ∧ (first ≤ i ∨ first / 32 = last / 32 ∧ i / 32 = first / 32) then v
        else p.values[i] := by
  have hsize := p.size_le
  obtain ⟨ws, he, hws⟩ := setWords_spec v first last (last / 32 + 1 - first / 32) (first / 32)
    b.array (by omega)
  refine ⟨ws, he, fun i hi => ?_⟩
  rw [hws (i / 32) (by omega), ← hr.2 i hi]
  split
  · rw [write_bit _ _ _ (by omega), rangeMask_bit (by omega) (by omega) (by omega)]
    refine if_congr ?_ rfl rfl
    rw [decide_eq_true_iff]
    omega
  · rw [if_neg (by omega)]

theorem set_range_eq (v : Bool) (a z : Int) : b.set_range v a z =
    if 0 ≤ a ∧ a ≤ p.last z ∧ p.last z < p.size then
      (setWords v a.toNat (p.last z).toNat ((p.last z).toNat / 32 + 1 - a.toNat / 32)
        (a.toNat / 32) b.array).map fun array => (true, { b with array })
    else some (false, b) := by
  have hlast : (if z < 0 then b.size - 1 else z) = p.last z := by rw [hr.1]; rfl
  unfold set_range
  rw [hlast, hr.1]
  by_cases hin : 0 ≤ a ∧ a ≤ p.last z ∧ p.last z < p.size
  · rw [if_neg (by omega), if_pos hin]
  · rw [if_pos (by omega), if_neg hin]

theorem set_range_iff (v : Bool) (a z : Int) : p.Fits (.set_range v a z) ↔
    ∃ b', b.step (.set_range v a z) = some ((p.step (.set_range v a z)).1, b') ∧
      b'.Represents (p.step (.set_range v a z)).2 := by
  simp only [step, set_range_eq hr, TruthList.step, TruthList.Fits]
  by_cases hin : 0 ≤ a ∧ a ≤ p.last z ∧ p.last z < p.size
  case neg =>
    rw [if_neg hin, if_neg hin]
    exact iff_of_true (fun h => absurd h hin) ⟨b, rfl, hr⟩
  obtain ⟨ws, he, hws⟩ := set_range_bits hr v (Int.toNat_le_toNat hin.2.1)
    (by omega : (p.last z).toNat < p.size)
  rw [if_pos hin, if_pos hin, he, Option.map_some]
  constructor
  · intro h
    refine ⟨_, rfl, hr.1, fun i hi => ?_⟩
    simp only [hws i hi, TruthList.fill_get]
    by_cases hahead : a.toNat / 32 = (p.last z).toNat / 32 ∧ i / 32 = a.toNat / 32 ∧ i < a.toNat
    · rw [if_pos (by omega), if_neg (by omega), h hin hahead.1 i hi hahead.2.1 hahead.2.2]
    · exact if_congr (by omega) rfl rfl
  · intro h _ hword i hi hi' hlt
    obtain ⟨b', hb', -, hbits⟩ := h
    cases hb'
    have hbit := hbits i hi
    simp only [hws i hi, TruthList.fill_get] at hbit
    rw [if_pos (by omega), if_neg (by omega)] at hbit
    exact hbit.symm

theorem set_value_step (i : Int) (v : Bool) :
    ∃ b', b.step (.set_value i v) = some ((p.step (.set_value i v)).1, b') ∧
      b'.Represents (p.step (.set_value i v)).2 := by
  have hsize := p.size_le
  have hb := hr.1
  simp only [step, set_value, TruthList.step]
  by_cases hin : 0 ≤ i ∧ i < p.size
  case neg =>
    rw [if_pos (by omega), if_neg hin]
    exact ⟨b, rfl, hr⟩
  rw [if_neg (by omega), if_pos hin, dif_pos (by omega)]
  refine ⟨_, rfl, hb, fun j hj => ?_⟩
  simp only [TruthList.fill_get, Vector.getElem_set, ← hr.2 j hj]
  by_cases hword : i.toNat / 32 = j / 32
  · rw [if_pos hword, write_bit _ _ _ (by omega), one_shiftLeft_bit (by omega)]
    simp only [hword]
    refine if_congr ?_ rfl rfl
    rw [decide_eq_true_iff]
    omega
  · rw [if_neg hword, if_neg (by omega)]

theorem get_value_eq (i : Int) :
    b.get_value i = some (p.step (.get_value i)).1 := by
  have hsize := p.size_le
  have hb := hr.1
  simp only [get_value, TruthList.step]
  by_cases hin : 0 ≤ i ∧ i < p.size
  · have hbit := hr.2 i.toNat (by omega)
    rw [if_neg (by omega), Vector.getElem?_eq_getElem (by omega), Option.map_some,
      and_one_shiftLeft _ (by omega), hbit, decide_eq_true hin,
      Vector.getElem?_eq_getElem (by omega)]
    rfl
  · rw [if_pos (by omega), decide_eq_false hin, Bool.false_and]

theorem step_iff (c : Call) : p.Fits c ↔
    ∃ b', b.step c = some ((p.step c).1, b') ∧ b'.Represents (p.step c).2 := by
  cases c with
  | set_size n => exact set_size_iff hr n
  | set_range v a z => exact set_range_iff hr v a z
  | set_value i v => exact iff_of_true trivial (set_value_step hr i v)
  | get_value i =>
    refine iff_of_true trivial ⟨b, ?_, hr⟩
    rw [step, get_value_eq hr i]
    rfl

end

/-! ## 5. Runs -/

theorem agree_iff (cs : List Call) :
    ∀ {b : BoolArray m} {p : TruthList m}, b.Represents p → (b.Agree p cs ↔ p.AllFit cs) := by
  induction cs with
  | nil => exact fun _ => Iff.rfl
  | cons c cs ih =>
    intro b p hr
    simp only [Agree, TruthList.AllFit, step_iff hr c]
    constructor
    · intro h
      obtain ⟨b', he, hr', hcs⟩ := h
      exact ⟨⟨b', he, hr'⟩, (ih hr').mp hcs⟩
    · intro h
      obtain ⟨⟨b', he, hr'⟩, hcs⟩ := h
      exact ⟨b', he, hr', (ih hr').mpr hcs⟩

/-- A run answers and acts as on the plain list exactly when every call fits the list it finds. -/
theorem calls_agree_iff (b : BoolArray m) (h : 0 < b.size ∧ b.size ≤ m) (cs : List Call) :
    b.Agree (b.content h) cs ↔ (b.content h).AllFit cs :=
  agree_iff cs (represents_content h)

/-- Elements 2 to 9 of 34 are set, with elements 0 and 1 set before. -/
theorem calls_fit : (⟨34, #v[0, 0]⟩ : BoolArray 34).Agree (content ⟨34, #v[0, 0]⟩ (by decide))
    [.set_range true 0 1, .set_size 33, .get_value 32, .set_range true 2 9] :=
  (calls_agree_iff _ (by decide) _).mpr (by decide)

/-- Setting elements 5 to 9 sets element 0, too. -/
theorem range_writes_ahead : ¬ ∀ (b : BoolArray 32) (h : 0 < b.size ∧ b.size ≤ 32)
    (cs : List Call), b.Agree (b.content h) cs := by
  intro h
  obtain ⟨b', he, hr, -⟩ := h ⟨32, #v[0]⟩ (by decide) [.set_range true 5 9]
  have hb' : b' = ⟨32, #v[0x3FF]⟩ := by
    have hstep : (⟨32, #v[0]⟩ : BoolArray 32).step (.set_range true 5 9) =
        some (true, ⟨32, #v[0x3FF]⟩) := by decide
    rw [hstep] at he
    simpa using (congrArg (fun o => o.map Prod.snd) he).symm
  subst hb'
  exact absurd (hr.2 0 (by decide)) (by decide)

end BoolArray

end OpenCore.GenData
