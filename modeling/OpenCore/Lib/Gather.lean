/-
  File:      OpenCore/Lib/Gather.lean
  Subject:   READING A LIST OF FRAGMENTS from a cursor: the fragment number and the position in it.

  The bytes of a scattered buffer are the concatenation of its fragments. `left` is what lies from
  the cursor on; the two lemmas on moving the cursor are all a reader of the fragments needs.
-/
import Mathlib

namespace OpenCore.Gather

open List

variable {α : Type*} {frags : List (List α)} {frag : List α} {i pos n : Nat}

/-- What lies from position `pos` of fragment `i` on. -/
def left (frags : List (List α)) (i pos : Nat) : List α := (frags.drop i).flatten.drop pos

/-- Behind the last fragment nothing is left. -/
theorem left_eq_nil (h : frags.length ≤ i) : left frags i pos = [] := by
  rw [left, drop_eq_nil_of_le h, flatten_nil, drop_nil]

/-- From a position inside fragment `i`: the rest of that fragment, then the later fragments. -/
theorem left_eq_append (h : frags[i]? = some frag) (hpos : pos ≤ frag.length) :
    left frags i pos = frag.drop pos ++ left frags (i + 1) 0 := by
  obtain ⟨hi, rfl⟩ := List.getElem?_eq_some_iff.mp h
  rw [left, drop_eq_getElem_cons hi, flatten_cons, drop_append_of_le_length hpos]
  simp [left]

/-- **Moving the cursor inside a fragment** takes the bytes it passes over. -/
theorem left_advance (h : frags[i]? = some frag) (hpos : pos + n ≤ frag.length) :
    left frags i pos = (frag.drop pos).take n ++ left frags i (pos + n) := by
  rw [left_eq_append h (by omega), left_eq_append h hpos, ← append_assoc, ← drop_drop,
    take_append_drop]

/-- **Moving the cursor to the next fragment** takes nothing. -/
theorem left_next (h : frags[i]? = some frag) :
    left frags i frag.length = left frags (i + 1) 0 := by
  rw [left_eq_append h le_rfl, drop_length, nil_append]

/-- Where something is left, the cursor stands at a fragment. -/
theorem exists_frag (h : left frags i pos ≠ []) : ∃ frag, frags[i]? = some frag := by
  by_contra hno
  have hnone : frags[i]? = none := by
    simpa [Option.eq_none_iff_forall_ne_some] using hno
  exact h (left_eq_nil (getElem?_eq_none_iff.mp hnone))

end OpenCore.Gather
