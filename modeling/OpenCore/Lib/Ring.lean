/-
  File:      OpenCore/Lib/Ring.lean
  Subject:   POSITIONS AROUND A RING of `n` slots.

  `ringPos n r t` is the number of slots a reader at `r` passes before it reaches slot `t`. A
  reader that looks at `r`, `r + 1`, … sees each slot once in `n` steps, in the order of `ringPos`.
  `ringList vec r` is what it finds in the slots: one occupied slot cleared is its head taken.
-/
import Mathlib

namespace OpenCore

open List

/-- How far slot `t` lies ahead of position `r` on a ring of `n` slots. -/
def ringPos (n r t : Nat) : Nat := (t + (n - r % n)) % n

variable {n : Nat}

theorem ringPos_lt (hn : 0 < n) (r t : Nat) : ringPos n r t < n := Nat.mod_lt _ hn

/-- Going that far ahead reaches the slot. -/
theorem add_ringPos (hn : 0 < n) (r : Nat) {t : Nat} (ht : t < n) :
    (r + ringPos n r t) % n = t := by
  have hr : r % n < n := Nat.mod_lt _ hn
  unfold ringPos
  rw [Nat.add_mod_mod, Nat.add_comm t, ← Nat.add_assoc, Nat.add_mod, Nat.add_mod r (n - r % n)]
  have h : (r % n + (n - r % n) % n) % n = 0 := by
    rw [Nat.add_mod_mod, Nat.add_sub_of_le (le_of_lt hr), Nat.mod_self]
  rw [h, Nat.zero_add, Nat.mod_mod, Nat.mod_eq_of_lt ht]

/-- No other distance below `n` reaches it. -/
theorem ringPos_unique (hn : 0 < n) {r t j : Nat} (hj : j < n) (h : (r + j) % n = t) :
    ringPos n r t = j := by
  have hr : r % n < n := Nat.mod_lt _ hn
  subst h
  unfold ringPos
  rw [Nat.mod_add_mod, show r + j + (n - r % n) = j + (r + (n - r % n)) by omega,
    Nat.add_mod, Nat.add_mod r (n - r % n)]
  have h : (r % n + (n - r % n) % n) % n = 0 := by
    rw [Nat.add_mod_mod, Nat.add_sub_of_le (le_of_lt hr), Nat.mod_self]
  rw [h, Nat.add_zero, Nat.mod_mod, Nat.mod_eq_of_lt hj]

/-- Different slots lie at different distances. -/
theorem ringPos_inj (hn : 0 < n) {r t t' : Nat} (ht : t < n) (ht' : t' < n)
    (h : ringPos n r t = ringPos n r t') : t = t' := by
  rw [← add_ringPos hn r ht, h, add_ringPos hn r ht']

/-- The position a reader uses: past the end it starts again at 0. -/
theorem wrap_eq_mod {r : Nat} (h : r ≤ n) : (if n ≤ r then 0 else r) = r % n := by
  rcases Nat.lt_or_ge r n with hr | hr
  · rw [if_neg (by omega), Nat.mod_eq_of_lt hr]
  · have e : r = n := by omega
    rw [if_pos hr, e, Nat.mod_self]

/-! ## What a reader finds -/

section RingList

variable {α : Type*} {vec : List (Option α)} {r : Nat}

/-- The contents of the occupied slots, from position `r` round the ring. -/
def ringList (vec : List (Option α)) (r : Nat) : List α := (vec.rotate r).reduceOption

theorem ringList_mod (vec : List (Option α)) (r : Nat) :
    ringList vec (r % vec.length) = ringList vec r := by
  rw [ringList, rotate_mod, ringList]

/-- The slot under the reader comes first, the rest is one round from the next slot. -/
theorem rotate_eq_getElem_cons (hr : r < vec.length) :
    vec.rotate r = vec[r] :: (vec.drop (r + 1) ++ vec.take r) ∧
      vec.rotate (r + 1) = (vec.drop (r + 1) ++ vec.take r) ++ [vec[r]] := by
  constructor
  · rw [rotate_eq_drop_append_take (le_of_lt hr), drop_eq_getElem_cons hr,
      cons_append]
  · rw [rotate_eq_drop_append_take hr, ← take_append_getElem hr, append_assoc]

theorem reduceOption_concat_none (l : List (Option α)) :
    (l ++ [none]).reduceOption = l.reduceOption := by
  rw [reduceOption_append, reduceOption_cons_of_none, reduceOption_nil,
    append_nil]

theorem ringList_skip (hr : r < vec.length) (h : vec[r] = none) :
    ringList vec r = ringList vec (r + 1) := by
  obtain ⟨h1, h2⟩ := rotate_eq_getElem_cons hr
  rw [ringList, ringList, h1, h2, h, reduceOption_cons_of_none, reduceOption_concat_none]

/-- An occupied slot gives its content, and what is left is read from the next slot on. -/
theorem ringList_take (hr : r < vec.length) {x : α} (h : vec[r] = some x) :
    ringList vec r = x :: ringList (vec.set r none) (r + 1) := by
  obtain ⟨h1, -⟩ := rotate_eq_getElem_cons hr
  obtain ⟨-, h2⟩ := rotate_eq_getElem_cons
    (show r < (vec.set r none).length by simpa using hr)
  rw [ringList, ringList, h1, h2, h, reduceOption_cons_of_some,
    drop_set_of_lt (Nat.lt_succ_self r), take_set_of_le (Nat.le_refl r),
    getElem_set_self, reduceOption_concat_none]

theorem mem_ringList {x : α} : x ∈ ringList vec r ↔ some x ∈ vec := by
  rw [ringList, reduceOption_mem_iff, mem_rotate]

theorem ringList_eq_nil (h : ∀ o ∈ vec, o = none) : ringList vec r = [] := by
  refine eq_nil_iff_forall_not_mem.mpr fun x hx => ?_
  cases h _ (mem_ringList.mp hx)

/-- Where every content lies in the slot `f` gives it, the list is in the order of the slots'
    positions. -/
theorem ringList_pairwise {f : α → Nat}
    (hf : ∀ (i : Nat) (hi : i < vec.length) (x : α), vec[i] = some x → f x = i) :
    (ringList vec r).Pairwise
      fun x y => ringPos vec.length r (f x) < ringPos vec.length r (f y) := by
  have hpos : ∀ (i : Nat) (hi : i < (vec.rotate r).length) (x : α), (vec.rotate r)[i] = some x →
      ringPos vec.length r (f x) = i := by
    intro i hi x hx
    rw [length_rotate] at hi
    rw [getElem_rotate] at hx
    rw [hf _ _ x hx]
    exact ringPos_unique (by omega) hi (by rw [Nat.add_comm])
  rw [ringList, reduceOption, pairwise_filterMap, pairwise_iff_getElem]
  intro i j hi hj hij x hx y hy
  rw [hpos i hi x hx, hpos j hj y hy]
  exact hij

end RingList

end OpenCore
