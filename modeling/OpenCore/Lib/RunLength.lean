/-
  File:      OpenCore/Lib/RunLength.lean
  Subject:   Sequences given by runs: run `k` is `count k` times the element `value k`.

  * `expand` -- the sequence of the first `k` runs, `before` its length;
  * `expand_getElem?` -- element `n` is the value of the run that `n` lies in;
  * `sumTo` -- the sum of the first `n` elements, `span` the one of the first `k` runs;
  * **`sumTo_run`** -- inside a run the sum grows by the run's value with each element.
-/
import Mathlib

namespace OpenCore.RunLength

open List

variable {α : Type} (count : Nat → Nat) (value : Nat → α)

/-! ## 1. The sequence -/

/-- The elements of the first runs. -/
def expand : Nat → List α
  | 0 => []
  | k + 1 => expand k ++ List.replicate (count k) (value k)

/-- How many elements stand before run `k`. -/
def before : Nat → Nat
  | 0 => 0
  | k + 1 => before k + count k

@[simp] theorem before_zero : before count 0 = 0 := rfl

theorem before_succ (k : Nat) : before count (k + 1) = before count k + count k := rfl

theorem length_expand (k : Nat) : (expand count value k).length = before count k := by
  induction k with
  | zero => rfl
  | succ k ih => rw [expand, length_append, ih, length_replicate, before_succ]

theorem before_mono {k m : Nat} (h : k ≤ m) : before count k ≤ before count m := by
  induction m, h using Nat.le_induction with
  | base => exact Nat.le_refl _
  | succ m _ ih =>
    rw [before_succ]
    omega

theorem expand_eq_append {k m : Nat} (h : k ≤ m) :
    ∃ rest, expand count value m = expand count value k ++ rest := by
  induction m, h using Nat.le_induction with
  | base => exact ⟨[], (append_nil _).symm⟩
  | succ m _ ih =>
    obtain ⟨rest, hrest⟩ := ih
    exact ⟨rest ++ replicate (count m) (value m), by
      rw [expand, hrest, append_assoc]⟩

theorem exists_run {m n : Nat} (h : n < before count m) :
    ∃ i < m, before count i ≤ n ∧ n < before count (i + 1) := by
  induction m with
  | zero => exact absurd h (Nat.not_lt_zero n)
  | succ m ih =>
    by_cases hn : n < before count m
    · obtain ⟨i, hi, hle, hlt⟩ := ih hn
      exact ⟨i, Nat.lt_succ_of_lt hi, hle, hlt⟩
    · exact ⟨m, Nat.lt_succ_self m, Nat.le_of_not_lt hn, h⟩

theorem run_unique {i j n : Nat} (hi : before count i ≤ n) (hi' : n < before count (i + 1))
    (hj : before count j ≤ n) (hj' : n < before count (j + 1)) : i = j := by
  rcases Nat.lt_trichotomy i j with h | h | h
  · have : before count (i + 1) ≤ before count j := before_mono count h
    omega
  · exact h
  · have : before count (j + 1) ≤ before count i := before_mono count h
    omega

/-- **The element at a place** is the value of its run. -/
theorem expand_getElem? {i m n : Nat} (him : i < m) (hle : before count i ≤ n)
    (hlt : n < before count (i + 1)) : (expand count value m)[n]? = some (value i) := by
  obtain ⟨rest, hrest⟩ := @expand_eq_append _ count value (i + 1) m him
  have hlen := length_expand count value i
  have hlen' := length_expand count value (i + 1)
  have hsucc := before_succ count i
  rw [hrest, getElem?_append_left (by omega), expand,
    getElem?_append_right (by omega), getElem?_replicate, if_pos (by omega)]

/-! ## 2. Sums -/

variable (value : Nat → Nat)

/-- The sum of the first `n` elements. -/
def sumTo (m n : Nat) : Nat := ((expand count value m).take n).sum

/-- The sum of the first runs. -/
def span : Nat → Nat
  | 0 => 0
  | k + 1 => span k + count k * value k

theorem span_succ (k : Nat) : span count value (k + 1) = span count value k + count k * value k :=
  rfl

theorem sum_expand (k : Nat) : (expand count value k).sum = span count value k := by
  induction k with
  | zero => rfl
  | succ k ih =>
    rw [expand, sum_append, ih, sum_replicate, span_succ, Nat.nsmul_eq_mul]

/-- **The sum inside a run**: what the runs before it amount to, and its value for every element of
    its own. -/
theorem sumTo_run {i m j : Nat} (him : i < m) (hj : j ≤ count i) :
    sumTo count value m (before count i + j) = span count value i + j * value i := by
  obtain ⟨rest, hrest⟩ := @expand_eq_append _ count value (i + 1) m him
  have hlen := length_expand count value i
  have hlen' := length_expand count value (i + 1)
  have hsucc := before_succ count i
  unfold sumTo
  rw [hrest, take_append_of_le_length (by omega), expand, take_append, ← hlen,
    take_of_length_le (by omega), sum_append, sum_expand, Nat.add_sub_cancel_left,
    take_replicate, Nat.min_eq_left hj, sum_replicate, Nat.nsmul_eq_mul]

theorem sumTo_before {i m : Nat} (him : i < m) :
    sumTo count value m (before count i) = span count value i := by
  have h := sumTo_run count value him (Nat.zero_le _)
  rwa [Nat.add_zero, Nat.zero_mul, Nat.add_zero] at h

theorem sumTo_zero (m : Nat) : sumTo count value m 0 = 0 := rfl

theorem sumTo_mono (m : Nat) {n n' : Nat} (h : n ≤ n') :
    sumTo count value m n ≤ sumTo count value m n' := by
  unfold sumTo
  obtain ⟨d, rfl⟩ := Nat.exists_eq_add_of_le h
  rw [take_add, sum_append]
  exact Nat.le_add_right _ _

/-- Values below a bound: so is their sum, per element. -/
theorem span_le_mul {bound : Nat} (hvalue : ∀ k, value k ≤ bound) (k : Nat) :
    span count value k ≤ before count k * bound := by
  induction k with
  | zero => exact Nat.zero_le _
  | succ k ih =>
    rw [span_succ, before_succ, Nat.add_mul]
    exact Nat.add_le_add ih (Nat.mul_le_mul_left _ (hvalue k))

end OpenCore.RunLength
