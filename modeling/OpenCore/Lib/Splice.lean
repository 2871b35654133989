/-
  File:      OpenCore/Lib/Splice.lean
  Subject:   Copying a block of data into a list at an offset, and taking one out, read by position.
-/
import Mathlib

namespace OpenCore

open List

variable {α : Type*}

/-- `n` entries of the list from the offset on. -/
def slice (l : List α) (off n : Nat) : List α := (l.drop off).take n

/-- The list with the data copied over it from the offset on; it grows where the data ends behind
    its end. -/
def splice (l : List α) (off : Nat) (data : List α) : List α :=
  l.take off ++ data ++ l.drop (off + data.length)

theorem length_slice (l : List α) (off n : Nat) :
    (slice l off n).length = min n (l.length - off) := by
  rw [slice, length_take, length_drop]

theorem length_slice_le (l : List α) (off n : Nat) : (slice l off n).length ≤ n := by
  rw [length_slice]
  exact Nat.min_le_left _ _

variable {l : List α} {off : Nat}

theorem length_slice_of_le {n : Nat} (h : off + n ≤ l.length) :
    (slice l off n).length = n := by
  rw [length_slice]
  omega

theorem getElem?_slice {n i : Nat} (h : i < n) :
    (slice l off n)[i]? = l[off + i]? := by
  rw [slice, getElem?_take_of_lt h, getElem?_drop]

theorem slice_congr {l' : List α} {n : Nat} (h : ∀ j, off ≤ j → l[j]? = l'[j]?) :
    slice l off n = slice l' off n := by
  refine ext_getElem? fun i => ?_
  rw [slice, slice, getElem?_take, getElem?_take, getElem?_drop,
    getElem?_drop, h (off + i) (Nat.le_add_right off i)]

/-- Two slices one behind the other are one slice. -/
theorem slice_append (l : List α) (off m n : Nat) :
    slice l off m ++ slice l (off + m) n = slice l off (m + n) := by
  rw [slice, slice, slice, take_add, drop_drop]

theorem slice_zero (l : List α) (off : Nat) : slice l off 0 = [] := take_zero

section

variable (h : off ≤ l.length)
include h

theorem length_splice (data : List α) :
    (splice l off data).length = max l.length (off + data.length) := by
  rw [splice, length_append, length_append, length_take, length_drop]
  omega

/-- Before the offset nothing changes. -/
theorem getElem?_splice_lt {data : List α} {i : Nat} (hi : i < off) :
    (splice l off data)[i]? = l[i]? := by
  rw [splice, append_assoc, getElem?_append_left (by rw [length_take]; omega),
    getElem?_take_of_lt hi]

theorem getElem?_splice_mid {data : List α} {i : Nat}
    (hi : i < data.length) : (splice l off data)[off + i]? = data[i]? := by
  have hlen : (l.take off).length = off := by rw [length_take]; omega
  rw [splice, append_assoc, getElem?_append_right (by omega), hlen,
    getElem?_append_left (by omega), Nat.add_sub_cancel_left]

theorem getElem?_splice_ge {data : List α} {i : Nat}
    (hi : off + data.length ≤ i) : (splice l off data)[i]? = l[i]? := by
  have hlen : (l.take off ++ data).length = off + data.length := by
    rw [length_append, length_take]
    omega
  rw [splice, getElem?_append_right (by omega), hlen, getElem?_drop]
  congr 1
  omega

end

theorem splice_nil (l : List α) (off : Nat) : splice l off [] = l := by
  rw [splice, append_nil, length_nil, Nat.add_zero, take_append_drop]

/-- Two blocks one behind the other are one block. -/
theorem splice_append {a b : List α} (h : off ≤ l.length) :
    splice (splice l off a) (off + a.length) b = splice l off (a ++ b) := by
  have hlen : (l.take off ++ a).length = off + a.length := by
    rw [length_append, length_take]
    omega
  have htake : (splice l off a).take (off + a.length) = l.take off ++ a := by
    rw [splice, ← hlen, take_left]
  have hdrop : (splice l off a).drop (off + a.length + b.length) =
      l.drop (off + a.length + b.length) := by
    rw [← drop_drop, splice, ← hlen, drop_left, hlen, drop_drop]
  rw [splice, htake, hdrop, splice, length_append, Nat.add_assoc, append_assoc (l.take off)]

end OpenCore
