/-
  File:      OpenCore/Lib/ExchangeSort.lean
  Subject:   SORTING BY EXCHANGE: for each place in turn, every later entry that belongs in front
             of the one in the place is exchanged with it.

  `before a b` says that `a` belongs in front of `b`. One pass brings a first entry to the front
  and keeps the entries; the rounds sort what is left.

  **Main result**: `exchangeSort_perm`, `pairwise_exchangeSort`, `exchangeSort_key`.
-/
import Mathlib

namespace OpenCore.Lib

open List

variable {α : Type*} (before : α → α → Bool)

/-! ## 1. The loops -/

/-- The inner loop: the entry in the place, and the later ones. -/
def exchangePass : α → List α → α × List α
  | x, [] => (x, [])
  | x, y :: ys =>
    if before y x then ((exchangePass y ys).1, x :: (exchangePass y ys).2)
    else ((exchangePass x ys).1, y :: (exchangePass x ys).2)

/-- The outer loop, for so many places. -/
def exchangeRounds : Nat → List α → List α
  | 0, l => l
  | _ + 1, [] => []
  | n + 1, x :: xs =>
    (exchangePass before x xs).1 :: exchangeRounds n (exchangePass before x xs).2

/-- The last place needs no round of its own. -/
def exchangeSort (l : List α) : List α := exchangeRounds before (l.length - 1) l

/-! ## 2. The entries stay the same -/

theorem exchangePass_perm (x : α) (l : List α) :
    ((exchangePass before x l).1 :: (exchangePass before x l).2).Perm (x :: l) := by
  induction l generalizing x with
  | nil => exact Perm.refl _
  | cons y ys ih =>
    rw [exchangePass]
    split
    · exact (Perm.swap x _ _).trans ((ih y).cons x)
    · exact ((Perm.swap y _ _).trans ((ih x).cons y)).trans (Perm.swap x y ys)

theorem exchangePass_length (x : α) (l : List α) :
    (exchangePass before x l).2.length = l.length := by
  have h := (exchangePass_perm before x l).length_eq
  rw [length_cons, length_cons] at h
  omega

theorem exchangeRounds_perm (n : Nat) (l : List α) : (exchangeRounds before n l).Perm l := by
  induction n generalizing l with
  | zero => exact Perm.refl _
  | succ n ih =>
    cases l with
    | nil => exact Perm.refl _
    | cons x xs => exact ((ih _).cons _).trans (exchangePass_perm before x xs)

/-- **Sorting keeps the entries.** -/
theorem exchangeSort_perm (l : List α) : (exchangeSort before l).Perm l :=
  exchangeRounds_perm before _ l

/-! ## 3. They are in order -/

section Order

variable {before : α → α → Bool} {l : List α}
  (hasymm : ∀ a b, before a b = true → before b a = false)
  (hskip : ∀ a b c, before b a = false → before c b = false → before c a = false)

include hasymm hskip

/-- After the pass nothing belongs in front of the entry in the place. -/
theorem exchangePass_first (x : α) (l : List α) :
    ∀ z ∈ x :: l, before z (exchangePass before x l).1 = false := by
  have hself : ∀ a, before a a = false := fun a => by
    cases h : before a a with
    | false => rfl
    | true => rw [← h, hasymm a a h]
  induction l generalizing x with
  | nil =>
    intro z hz
    rw [mem_singleton] at hz
    rw [hz]
    exact hself x
  | cons y ys ih =>
    intro z hz
    rw [exchangePass]
    split
    case isTrue hyx =>
      rcases mem_cons.mp hz with rfl | hz
      · exact hskip _ y z (ih y y mem_cons_self) (hasymm y z hyx)
      · exact ih y z hz
    case isFalse hyx =>
      rcases mem_cons.mp hz with rfl | hz
      · exact ih z z mem_cons_self
      · rcases mem_cons.mp hz with rfl | hz
        · exact hskip _ x z (ih x x mem_cons_self) (Bool.not_eq_true _ ▸ hyx)
        · exact ih x z (mem_cons_of_mem x hz)

theorem pairwise_exchangeRounds (n : Nat) (l : List α) (hn : l.length ≤ n + 1) :
    (exchangeRounds before n l).Pairwise fun a b => before b a = false := by
  induction n generalizing l with
  | zero =>
    cases l with
    | nil => exact Pairwise.nil
    | cons x xs =>
      have hxs : xs = [] := eq_nil_of_length_eq_zero (by rw [length_cons] at hn; omega)
      rw [hxs]
      exact pairwise_singleton _ _
  | succ n ih =>
    cases l with
    | nil => exact Pairwise.nil
    | cons x xs =>
      rw [exchangeRounds, pairwise_cons]
      refine ⟨?_, ih _ ?_⟩
      · intro z hz
        have hmem := (exchangeRounds_perm before n _).subset hz
        exact exchangePass_first hasymm hskip x xs z
          ((exchangePass_perm before x xs).subset (mem_cons_of_mem _ hmem))
      · rw [exchangePass_length]
        rw [length_cons] at hn
        omega

/-- **The sorted list is in order**: nothing behind an entry belongs in front of it. -/
theorem pairwise_exchangeSort (l : List α) :
    (exchangeSort before l).Pairwise fun a b => before b a = false :=
  pairwise_exchangeRounds hasymm hskip _ l (by omega)

/-- **There is one such order** where two different entries always have one that goes first. -/
theorem exchangeSort_eq {l l' : List α} (hp : l'.Perm l)
    (ho : l'.Pairwise fun a b => before b a = false)
    (hdiff : ∀ a ∈ l, ∀ b ∈ l, before a b = false → before b a = false → a = b) :
    exchangeSort before l = l' := by
  refine Perm.eq_of_pairwise ?_ (pairwise_exchangeSort hasymm hskip l) ho
    ((exchangeSort_perm before l).trans hp.symm)
  intro a b ha hb hba hab
  exact hdiff a ((exchangeSort_perm before l).subset ha) b (hp.subset hb) hab hba

end Order

/-- **Sorting by a key that no two entries share**; it is enough that the keys agree on the list. -/
theorem exchangeSort_key {κ : Type*} [LinearOrder κ] {key key' : α → κ} {l : List α}
    (hkey : ∀ a ∈ l, key a = key' a) (hinj : ∀ a ∈ l, ∀ b ∈ l, key' a = key' b → a = b) :
    exchangeSort (fun a b => decide (key a < key b)) l =
      l.insertionSort fun a b => key' a ≤ key' b := by
  have : Std.Total fun a b : α => key' a ≤ key' b := ⟨fun a b => le_total (key' a) (key' b)⟩
  have : IsTrans α fun a b => key' a ≤ key' b := ⟨fun _ _ _ => le_trans⟩
  have hp : (l.insertionSort fun a b => key' a ≤ key' b).Perm l := perm_insertionSort _ l
  refine exchangeSort_eq ?_ ?_ hp ?_ ?_
  · intro a b hab
    rw [decide_eq_true_eq] at hab
    exact decide_eq_false hab.le.not_gt
  · intro a b c hba hcb
    rw [decide_eq_false_iff_not, not_lt] at hba hcb ⊢
    exact hba.trans hcb
  · refine (pairwise_insertionSort (fun a b => key' a ≤ key' b) l).imp_of_mem ?_
    intro a b ha hb hab
    rw [decide_eq_false_iff_not, not_lt, hkey a (hp.subset ha), hkey b (hp.subset hb)]
    exact hab
  · intro a ha b hb hab hba
    rw [decide_eq_false_iff_not, not_lt] at hab hba
    rw [hkey a ha, hkey b hb] at hab hba
    exact hinj a ha b hb (le_antisymm hba hab)

end OpenCore.Lib
