/-
  File:      OpenCore/GenData/BufFragGroup.lean
  Subject:   `seekBufFragGroup` (buf_frag_group.cpp): moving a position over a group of fragments.

  Forward, a move beyond the end leaves an index behind the last fragment. Backward, the search
  begins with the fragment it starts in, and where it stops the pointer is set from the remainder,
  not from the new offset; so no move back into an earlier fragment arrives.

  **Main result** `seek_right_iff`: exactly which moves arrive.
-/
import Mathlib

namespace OpenCore.GenData

open List

/-! ## 1. The code -/

structure BufferFragment where
  ptr : Int
  len : Nat
  deriving DecidableEq, Repr, Inhabited

/-- What a call returns, and what it leaves in the arguments that are references. -/
structure Sought where
  returned : Bool
  idx : Int
  offset : Int
  ptr : Int
  boundaryReached : Bool
  deriving DecidableEq, Repr

/-- The negation is one of 32 bits. -/
def oscl_abs (aVal : Int) : Int := if aVal < 0 then (-aVal).bmod (2 ^ 32) else aVal

/-- The loop forward, over the fragments from `idx` on; `frag` is the last one looked at. -/
def seekForward : List BufferFragment → Int → Int → BufferFragment → Sought
  | [], idx, _, frag => ⟨true, idx, frag.len, frag.ptr + frag.len - 1, true⟩
  | next :: rest, idx, remain, _ =>
    if next.len ≥ remain then ⟨true, idx, remain, next.ptr + remain, false⟩
    else seekForward rest (idx + 1) (remain - next.len) next

/-- The loop backward, over the first fragments of the group. -/
def seekBackward (group : List BufferFragment) : Nat → Int → Sought
  | 0, _ => ⟨true, 0, 0, (group.getD 0 default).ptr, true⟩
  | idx + 1, remain =>
    let frag := group.getD idx default
    if frag.len > oscl_abs remain then ⟨true, idx, frag.len + remain, frag.ptr + remain, false⟩
    else seekBackward group idx (remain + frag.len)

def seekBufFragGroup (fragments : List BufferFragment) (idx offset ptr : Int)
    (delta_in_bytes num_reserved_frags : Int) : Sought :=
  if idx + num_reserved_frags ≥ fragments.length ∨ idx < 0 ∨ num_reserved_frags < 0 then
    ⟨false, idx, offset, ptr, true⟩
  else
    let group := fragments.drop num_reserved_frags.toNat
    let frag := group.getD idx.toNat default
    let first_frag_size := frag.len - offset
    if first_frag_size < 0 then ⟨false, idx, offset, ptr, false⟩
    else if delta_in_bytes > 0 then
      if first_frag_size ≥ delta_in_bytes then
        ⟨true, idx, offset + delta_in_bytes, frag.ptr + (offset + delta_in_bytes), false⟩
      else
        seekForward (group.drop (idx.toNat + 1)) (idx + 1) (delta_in_bytes - first_frag_size) frag
    else if offset ≥ oscl_abs delta_in_bytes then
      ⟨true, idx, offset + delta_in_bytes, frag.ptr + (offset + delta_in_bytes), false⟩
    else seekBackward group (idx.toNat + 1) (delta_in_bytes + offset)

/-! ## 2. What a move is to do -/

/-- The bytes of the first `k` fragments. -/
def before (group : List BufferFragment) (k : Nat) : Nat := ((group.take k).map (·.len)).sum

/-- A move from a valid position. The sizes are those that an `int32` holds. -/
structure Seek where
  fragments : List BufferFragment
  idx : Nat
  offset : Nat
  ptr : Int
  delta : Int
  reserved : Nat
  idx_lt : idx + reserved < fragments.length
  offset_le : offset ≤ ((fragments.drop reserved).getD idx default).len
  len_lt : ∀ frag ∈ fragments, frag.len < 2 ^ 31
  delta_ge : -2 ^ 31 ≤ delta
  delta_lt : delta < 2 ^ 31

namespace Seek

def group (s : Seek) : List BufferFragment := s.fragments.drop s.reserved

/-- The size of the fragment the move starts in. -/
def size (s : Seek) : Nat := (s.group.getD s.idx default).len

def total (s : Seek) : Nat := before s.group s.group.length

def target (s : Seek) : Int := before s.group s.idx + s.offset + s.delta

def run (s : Seek) : Sought :=
  seekBufFragGroup s.fragments s.idx s.offset s.ptr s.delta s.reserved

/-- The move arrives at the target, or at the end it went over. -/
def Right (s : Seek) : Prop :=
  s.run.returned = true ∧
    (s.run.boundaryReached = true ↔ s.target < 0 ∨ s.total < s.target) ∧
    ∃ i < s.group.length, s.run.idx = i ∧ 0 ≤ s.run.offset ∧
      s.run.offset ≤ (s.group.getD i default).len ∧
      before s.group i + s.run.offset = max 0 (min (s.total : Int) s.target) ∧
      s.run.ptr = (s.group.getD i default).ptr + s.run.offset

/-- The moves that arrive: forward up to the end, backward inside the fragment, and backward over
    the beginning by the size of the fragment at least. -/
def Arrives (s : Seek) : Prop :=
  0 < s.delta ∧ s.target ≤ s.total ∨
    s.delta ≤ 0 ∧ -2 ^ 31 < s.delta ∧
      (-s.delta ≤ s.offset ∨ s.target < 0 ∧ s.target + s.size ≤ 0)

end Seek

/-! ## 3. The loops -/

theorem oscl_abs_of_nonpos {aVal : Int} (h : aVal ≤ 0) (h' : -2 ^ 31 < aVal) :
    oscl_abs aVal = -aVal := by
  unfold oscl_abs
  split
  · rw [Int.bmod_eq_of_le (by omega) (by omega)]
  · omega

theorem before_succ {group : List BufferFragment} {k : Nat} (h : k < group.length) :
    before group (k + 1) = before group k + (group.getD k default).len := by
  rw [before, take_succ_eq_append_getElem h, map_append, sum_append,
    getD_eq_getElem _ _ h]
  simp [before]

theorem before_add (group : List BufferFragment) (k j : Nat) :
    before group (k + j) = before group k + before (group.drop k) j := by
  rw [before, take_add, map_append, sum_append]
  rfl

theorem before_cons (frag : BufferFragment) (rest : List BufferFragment) (k : Nat) :
    before (frag :: rest) (k + 1) = frag.len + before rest k := by
  simp [before]

/-- The loop forward finds the fragment in which the remainder ends, or leaves the group. -/
theorem seekForward_cases (rest : List BufferFragment) : ∀ (idx remain : Int)
    (frag : BufferFragment), 0 < remain →
    (∃ j < rest.length, ∃ o : Nat, before rest j + o = remain ∧ o ≤ (rest.getD j default).len ∧
      seekForward rest idx remain frag = ⟨true, idx + j, o, (rest.getD j default).ptr + o, false⟩) ∨
    (before rest rest.length < remain ∧
      (seekForward rest idx remain frag).idx = idx + rest.length) := by
  induction rest with
  | nil => exact fun idx remain frag h => .inr ⟨by simpa [before] using h, by simp [seekForward]⟩
  | cons next rest ih =>
    intro idx remain frag hpos
    rw [seekForward]
    by_cases hle : next.len ≥ remain
    · rw [if_pos hle]
      exact .inl ⟨0, by simp, remain.toNat, by simp [before]; omega, by simp; omega,
        by simp [Int.toNat_of_nonneg hpos.le]⟩
    · rw [if_neg hle]
      rcases ih (idx + 1) (remain - next.len) next (by omega) with h | h
      · obtain ⟨j, hj, o, hsum, ho, he⟩ := h
        refine .inl ⟨j + 1, by simpa using hj, o, ?_, by simpa using ho, ?_⟩
        · rw [before_cons]
          omega
        · rw [he]
          simp only [getD_cons_succ, Nat.cast_add, Nat.cast_one, Sought.mk.injEq, true_and, and_true]
          omega
      · refine .inr ⟨?_, ?_⟩
        · rw [length_cons, before_cons]
          omega
        · rw [h.2, length_cons]
          omega

/-- The loop backward stops with a pointer outside the fragment, or goes over the beginning. -/
theorem seekBackward_cases {group : List BufferFragment} (k : Nat) : ∀ remain : Int,
    k ≤ group.length → remain ≤ 0 → -2 ^ 31 < remain →
    (0 < remain + before group k ∧ ∃ j < group.length,
      (seekBackward group k remain).idx = j ∧
      (seekBackward group k remain).ptr ≠
        (group.getD j default).ptr + (seekBackward group k remain).offset) ∨
    (remain + before group k ≤ 0 ∧
      seekBackward group k remain = ⟨true, 0, 0, (group.getD 0 default).ptr, true⟩) := by
  induction k with
  | zero => exact fun remain _ h _ => .inr ⟨by simpa [before] using h, rfl⟩
  | succ k ih =>
    intro remain hk hle hge
    have hsum := before_succ (Nat.lt_of_succ_le hk)
    rw [seekBackward, oscl_abs_of_nonpos hle hge]
    by_cases hfound : ((group.getD k default).len : Int) > -remain
    · rw [if_pos hfound]
      refine .inl ⟨by omega, k, hk, rfl, ?_⟩
      simp only
      omega
    · rw [if_neg hfound]
      have hrest := ih (remain + (group.getD k default).len) (by omega) (by omega) (by omega)
      rw [show remain + (group.getD k default).len + before group k =
        remain + before group (k + 1) by omega] at hrest
      exact hrest

/-! ## 4. The moves -/

namespace Seek

variable (s : Seek)

theorem idx_lt_group : s.idx < s.group.length := by
  have h := s.idx_lt
  rw [group, length_drop]
  omega

theorem before_le_total {k : Nat} (h : k ≤ s.group.length) : before s.group k ≤ s.total := by
  have hadd := before_add s.group k (s.group.length - k)
  rw [Nat.add_sub_cancel' h] at hadd
  rw [total]
  omega

theorem size_lt : s.size < 2 ^ 31 := by
  have hidx := s.idx_lt_group
  rw [size, getD_eq_getElem _ _ hidx]
  exact s.len_lt _ (mem_of_mem_drop (getElem_mem hidx))

theorem run_eq : s.run =
    if s.delta > 0 then
      if (s.size : Int) - s.offset ≥ s.delta then
        ⟨true, s.idx, s.offset + s.delta,
          (s.group.getD s.idx default).ptr + (s.offset + s.delta), false⟩
      else seekForward (s.group.drop (s.idx + 1)) (s.idx + 1) (s.delta - (s.size - s.offset))
        (s.group.getD s.idx default)
    else if s.offset ≥ oscl_abs s.delta then
      ⟨true, s.idx, s.offset + s.delta,
        (s.group.getD s.idx default).ptr + (s.offset + s.delta), false⟩
    else seekBackward s.group (s.idx + 1) (s.delta + s.offset) := by
  have hidx := s.idx_lt
  have hoff := s.offset_le
  rw [run, seekBufFragGroup, if_neg (by omega)]
  simp only [Int.toNat_natCast]
  rw [if_neg (by omega)]
  rfl

/-- A move inside the fragment arrives. -/
theorem right_of_inside
    (h : s.run = ⟨true, s.idx, s.offset + s.delta,
      (s.group.getD s.idx default).ptr + (s.offset + s.delta), false⟩)
    (hge : 0 ≤ s.offset + s.delta) (hle : s.offset + s.delta ≤ s.size) : s.Right := by
  have hsum := before_succ s.idx_lt_group
  have htot := s.before_le_total (Nat.succ_le_of_lt s.idx_lt_group)
  have htarget : s.target = before s.group s.idx + s.offset + s.delta := rfl
  rw [Nat.succ_eq_add_one] at htot
  rw [size] at hle
  rw [Right, h]
  refine ⟨rfl, by simp; omega, s.idx, s.idx_lt_group, rfl, hge, hle, ?_, rfl⟩
  simp only
  omega

theorem right_iff_forward (hpos : 0 < s.delta) : s.Right ↔ s.target ≤ s.total := by
  have hidx := s.idx_lt_group
  have hsum := before_succ hidx
  have htarget : s.target = before s.group s.idx + s.offset + s.delta := rfl
  have hsplit := before_add s.group (s.idx + 1)
  have hrun := s.run_eq
  rw [if_pos hpos] at hrun
  rw [← size] at hsum
  by_cases hin : (s.size : Int) - s.offset ≥ s.delta
  · rw [if_pos hin] at hrun
    have htot := s.before_le_total (Nat.succ_le_of_lt hidx)
    rw [Nat.succ_eq_add_one] at htot
    exact iff_of_true (s.right_of_inside hrun (by omega) (by omega)) (by omega)
  · rw [if_neg hin] at hrun
    have hlen : (s.group.drop (s.idx + 1)).length = s.group.length - (s.idx + 1) := length_drop
    have htotal := hsplit (s.group.length - (s.idx + 1))
    rw [Nat.add_sub_cancel' hidx, ← hlen] at htotal
    change s.total = _ at htotal
    rcases seekForward_cases (s.group.drop (s.idx + 1)) (s.idx + 1)
      (s.delta - (s.size - s.offset)) (s.group.getD s.idx default) (by omega) with h | h
    · obtain ⟨j, hj, o, ho, hole, he⟩ := h
      have hget : (s.group.drop (s.idx + 1)).getD j default =
          s.group.getD (s.idx + 1 + j) default := by
        simp [getD_eq_getElem?_getD, getElem?_drop]
      have hnext := s.before_le_total (k := s.idx + 1 + j + 1) (by omega)
      have hlt : s.idx + 1 + j < s.group.length := by omega
      have hlast := before_succ hlt
      have hj' := hsplit j
      rw [he, hget] at hrun
      rw [hget] at hole
      refine iff_of_true ?_ (by omega)
      rw [Right, hrun]
      refine ⟨rfl, by simp; omega, s.idx + 1 + j, by omega, by simp, by simp, by simpa using hole,
        ?_, rfl⟩
      simp only
      omega
    · refine iff_of_false ?_ (by omega)
      intro hr
      obtain ⟨-, -, i, hi, hidx', -⟩ := hr
      rw [hrun, h.2] at hidx'
      omega

theorem right_iff_backward (hle : s.delta ≤ 0) : s.Right ↔
    -2 ^ 31 < s.delta ∧ (-s.delta ≤ s.offset ∨ s.target < 0 ∧ s.target + s.size ≤ 0) := by
  have hidx := s.idx_lt_group
  have hoff : s.offset ≤ s.size := s.offset_le
  have hsize := s.size_lt
  have hge := s.delta_ge
  have hsum := before_succ hidx
  have htarget : s.target = before s.group s.idx + s.offset + s.delta := rfl
  have hrun := s.run_eq
  rw [if_neg (by omega)] at hrun
  rw [← size] at hsum
  by_cases hmin : s.delta = -2 ^ 31
  · -- the negation is the number itself, and the offset is not below it
    have habs : oscl_abs s.delta = -2 ^ 31 := by rw [hmin]; rfl
    rw [habs, if_pos (by omega)] at hrun
    refine iff_of_false ?_ (by omega)
    intro hr
    obtain ⟨-, -, i, -, -, hneg, -⟩ := hr
    rw [hrun] at hneg
    simp only at hneg
    omega
  rw [oscl_abs_of_nonpos hle (by omega)] at hrun
  by_cases hin : (s.offset : Int) ≥ -s.delta
  · rw [if_pos hin] at hrun
    exact iff_of_true (s.right_of_inside hrun (by omega) (by omega)) (by omega)
  rw [if_neg hin] at hrun
  have hneg : s.delta + s.offset ≤ 0 := by omega
  rcases seekBackward_cases (s.idx + 1) (s.delta + s.offset) hidx hneg (by omega) with h | h
  · obtain ⟨hpos, j, -, hj, hptr⟩ := h
    refine iff_of_false ?_ (by omega)
    intro hr
    obtain ⟨-, -, i, -, hi, -, -, -, hptr'⟩ := hr
    rw [hrun] at hi hptr'
    rw [hj, Int.natCast_inj] at hi
    rw [← hi] at hptr'
    exact hptr hptr'
  · have htot := s.before_le_total (k := 0) (Nat.zero_le _)
    have hzero : before s.group 0 = 0 := by simp [before]
    rw [Right, hrun, h.2]
    constructor
    · intro hr
      obtain ⟨-, hb, -⟩ := hr
      have hb := hb.mp rfl
      omega
    · intro hc
      refine ⟨rfl, iff_of_true rfl (by omega), 0, by omega, rfl, le_rfl, by simp, ?_, by simp⟩
      simp only
      omega

end Seek

/-- **Exactly the moves of `Arrives`** end at the byte that is the old distance and the step from
    the start, or at the end they go over, with its address and the right flag. -/
theorem seek_right_iff (s : Seek) : s.Right ↔ s.Arrives := by
  unfold Seek.Arrives
  by_cases hpos : 0 < s.delta
  · rw [s.right_iff_forward hpos]
    omega
  · rw [s.right_iff_backward (by omega)]
    omega

/-- From the third byte of the second fragment, four bytes back are in the first one. -/
def backOver : Seek where
  fragments := [⟨1000, 5⟩, ⟨2000, 5⟩]
  idx := 1
  offset := 2
  ptr := 2002
  delta := -4
  reserved := 0
  idx_lt := by decide
  offset_le := by decide
  len_lt := by decide
  delta_ge := by decide
  delta_lt := by decide

/-- That move ends in the second fragment, with a pointer ahead of it. -/
theorem seek_back_astray : backOver.run = ⟨true, 1, 3, 1998, false⟩ ∧ ¬ backOver.Right := by
  have hrun : backOver.run = ⟨true, 1, 3, 1998, false⟩ := by decide
  refine ⟨hrun, ?_⟩
  intro hr
  obtain ⟨-, -, i, -, hi, -, -, -, hptr⟩ := hr
  rw [hrun] at hi hptr
  rw [← Int.natCast_inj.mp (hi : ((1 : Nat) : Int) = i)] at hptr
  exact absurd hptr (by decide)

end OpenCore.GenData
