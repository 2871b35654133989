/-
  File:      OpenCore/Lib/HeapOrder.lean
  Subject:   BINARY MAX-HEAPS IN LEVEL ORDER, as an order on positions.

  The entries are a partial function `g : Nat → Option α` (a list read by position); the order is
  a computed strict comparison `lt`, the strict part of a total preorder (`StrictPart`). A sift
  moves one entry along a path, so all of it is said by two conditions: `UpOrder` (only the edge
  into `k` may be wrong) and `DownOrder` (only the edges out of `k` may be wrong), each with a `move`
  rule, for one swap along the path, and a `finish` rule. A program may sift with a comparison of its
  own, as long as it never contradicts the order (`Refines`).
-/
import Mathlib

namespace OpenCore.HeapOrder

open Function (comp_apply)

variable {α : Type*}

/-- `lt` is the strict part of a total preorder; `lt a b = false` reads `b ≤ a`. -/
structure StrictPart (lt : α → α → Bool) : Prop where
  asymm : ∀ a b, lt a b = true → lt b a = false
  le_trans : ∀ a b c, lt a b = false → lt b c = false → lt a c = false

theorem StrictPart.irrefl {lt : α → α → Bool} (h : StrictPart lt) (a : α) : lt a a = false := by
  cases e : lt a a with
  | false => rfl
  | true => rw [← e]; exact h.asymm a a e

/-- A comparison that never contradicts `lt` on the elements of `c`: where it says "less" the
    other is not below, and where it does not, the first is not. Ties it may break either way. -/
structure Refines (compare lt : α → α → Bool) (c : List α) : Prop where
  of_true : ∀ a ∈ c, ∀ b ∈ c, compare a b = true → lt b a = false
  of_false : ∀ a ∈ c, ∀ b ∈ c, compare a b = false → lt a b = false

theorem StrictPart.refines {lt : α → α → Bool} (h : StrictPart lt) (c : List α) :
    Refines lt lt c :=
  ⟨fun a _ b _ => h.asymm a b, fun _ _ _ _ => id⟩

theorem Refines.mono {compare lt : α → α → Bool} {c c' : List α} (h : Refines compare lt c)
    (hs : ∀ a ∈ c', a ∈ c) : Refines compare lt c' :=
  ⟨fun a ha b hb => h.of_true a (hs a ha) b (hs b hb),
    fun a ha b hb => h.of_false a (hs a ha) b (hs b hb)⟩

theorem Refines.perm {compare lt : α → α → Bool} {c c' : List α} (h : Refines compare lt c)
    (hp : c'.Perm c) : Refines compare lt c' := h.mono fun _ => hp.mem_iff.mp

/-- The position above `i`. -/
def parent (i : Nat) : Nat := (i - 1) / 2

theorem parent_lt {i : Nat} (h : 0 < i) : parent i < i := by
  unfold parent; omega

theorem parent_eq_iff {i k : Nat} (h : 0 < i) : parent i = k ↔ i = 2 * k + 1 ∨ i = 2 * k + 2 := by
  unfold parent; omega

/-- The entry at `j`, where both are there, is not greater than the entry at `i`. -/
def Above (lt : α → α → Bool) (g : Nat → Option α) (i j : Nat) : Prop :=
  ∀ a b, g i = some a → g j = some b → lt a b = false

/-- The order of a heap on the positions below `n`. -/
def HeapOn (lt : α → α → Bool) (g : Nat → Option α) (n : Nat) : Prop :=
  ∀ i, 0 < i → i < n → Above lt g (parent i) i

/-- Only the edge into `k` may be out of order. -/
structure UpOrder (lt : α → α → Bool) (g : Nat → Option α) (n k : Nat) : Prop where
  except : ∀ i, 0 < i → i < n → i ≠ k → Above lt g (parent i) i
  grand : 0 < k → ∀ i, 0 < i → i < n → parent i = k → Above lt g (parent k) i

/-- Only the edges out of `k` may be out of order. -/
structure DownOrder (lt : α → α → Bool) (g : Nat → Option α) (n k : Nat) : Prop where
  except : ∀ i, 0 < i → i < n → parent i ≠ k → Above lt g (parent i) i
  grand : 0 < k → ∀ i, 0 < i → i < n → parent i = k → Above lt g (parent k) i

variable {lt : α → α → Bool} {g : Nat → Option α} {n k : Nat}

theorem HeapOn.mono {m : Nat} (h : HeapOn lt g n) (hm : m ≤ n) : HeapOn lt g m :=
  fun i h0 hi => h i h0 (by omega)

/-- A heap read through positions that agree below `n` is a heap. -/
theorem HeapOn.congr {g' : Nat → Option α} (h : HeapOn lt g n) (he : ∀ i, i < n → g' i = g i) :
    HeapOn lt g' n := by
  intro i h0 hi a b ha hb
  rw [he _ (by have := parent_lt h0; omega)] at ha
  rw [he _ hi] at hb
  exact h i h0 hi a b ha hb

/-- The heap order of an order that agrees on the entries. -/
theorem HeapOn.order_congr {lt' : α → α → Bool} (h : HeapOn lt g n)
    (he : ∀ i j a b, g i = some a → g j = some b → lt' a b = lt a b) : HeapOn lt' g n := by
  intro i h0 hi a b ha hb
  rw [he _ _ a b ha hb]
  exact h i h0 hi a b ha hb

section Order

variable (hlt : StrictPart lt)
include hlt

theorem Above.trans {i j l : Nat} (hj : (g j).isSome) (h1 : Above lt g i j)
    (h2 : Above lt g j l) : Above lt g i l := by
  intro a c ha hc
  obtain ⟨b, hb⟩ := Option.isSome_iff_exists.mp hj
  exact hlt.le_trans a b c (h1 a b ha hb) (h2 b c hb hc)

/-- The chain of parents ends at the root, so the root is above every position. -/
theorem root_greatest (h : HeapOn lt g n) (hg : ∀ i, i < n → (g i).isSome) :
    ∀ i, i < n → Above lt g 0 i := by
  intro i
  induction i using Nat.strongRecOn with
  | ind i ih =>
    intro hi
    rcases Nat.eq_zero_or_pos i with rfl | h0
    · intro a b ha hb
      rw [ha] at hb
      cases hb
      exact hlt.irrefl a
    · have hp := parent_lt h0
      exact Above.trans hlt (hg _ (by omega)) (ih _ hp (by omega)) (h i h0 hi)

/-! ## Sifting up -/

/-- One swap of a sift up: the wrong edge moves to the parent. -/
theorem UpOrder.move (h : UpOrder lt g n k) (hk : 0 < k) (hkn : k < n)
    (hg : ∀ i, i < n → (g i).isSome)
    (hback : Above lt g k (parent k)) :
    UpOrder lt (g ∘ Equiv.swap k (parent k)) n (parent k) := by
  have hpk := parent_lt hk
  -- what lay on the path above keeps its place, what hung below `k` now hangs below its parent
  have hpp : 0 < parent k → Above lt g (parent (parent k)) (parent k) :=
    fun h0 => h.except _ h0 (by omega) (by omega)
  have key : ∀ i, 0 < i → i < n → i ≠ parent k → parent i ≠ parent k →
      Above lt (g ∘ Equiv.swap k (parent k)) (parent i) i := by
    intro i h0 hi hik hpi a b ha hb
    by_cases hki : i = k
    · exact absurd (by rw [hki]) hpi
    · rw [comp_apply, Equiv.swap_apply_of_ne_of_ne hki hik] at hb
      by_cases hpik : parent i = k
      · rw [comp_apply, hpik, Equiv.swap_apply_left] at ha
        exact h.grand hk i h0 hi hpik a b ha hb
      · rw [comp_apply, Equiv.swap_apply_of_ne_of_ne hpik hpi] at ha
        exact h.except i h0 hi hki a b ha hb
  refine ⟨fun i h0 hi hik a b ha hb => ?_, fun hp0 i h0 hi hpi a b ha hb => ?_⟩
  · by_cases hpi : parent i = parent k
    · rw [comp_apply, hpi, Equiv.swap_apply_right] at ha
      by_cases hki : i = k
      · rw [comp_apply, hki, Equiv.swap_apply_left] at hb
        exact hback a b ha hb
      · rw [comp_apply, Equiv.swap_apply_of_ne_of_ne hki hik] at hb
        have hi' := h.except i h0 hi hki
        rw [hpi] at hi'
        exact Above.trans hlt (hg _ (by omega)) hback hi' a b ha hb
    · exact key i h0 hi hik hpi a b ha hb
  · have hne : parent (parent k) ≠ parent k := by have := parent_lt hp0; omega
    have hnk : parent (parent k) ≠ k := by have := parent_lt hp0; omega
    rw [comp_apply, Equiv.swap_apply_of_ne_of_ne hnk hne] at ha
    by_cases hki : i = k
    · rw [comp_apply, hki, Equiv.swap_apply_left] at hb
      exact hpp hp0 a b ha hb
    · have hik : i ≠ parent k := by have := parent_lt h0; omega
      rw [comp_apply, Equiv.swap_apply_of_ne_of_ne hki hik] at hb
      have hi' := h.except i h0 hi hki
      rw [hpi] at hi'
      exact Above.trans hlt (hg _ (by omega)) (hpp hp0) hi' a b ha hb

omit hlt in
theorem UpOrder.finish (h : UpOrder lt g n k) (hk : 0 < k → Above lt g (parent k) k) :
    HeapOn lt g n := by
  intro i h0 hi
  by_cases hik : i = k
  · subst hik; exact hk h0
  · exact h.except i h0 hi hik

/-! ## Sifting down -/

omit hlt in
/-- One swap of a sift down, with a greatest child `c` of `k`: the wrong edges move to `c`. -/
theorem DownOrder.move (h : DownOrder lt g n k) {c : Nat} (hc0 : 0 < c) (hcn : c < n)
    (hck : parent c = k)
    (hmax : ∀ i, 0 < i → i < n → parent i = k → Above lt g c i)
    (hback : Above lt g c k) : DownOrder lt (g ∘ Equiv.swap k c) n c := by
  have hkc : k < c := by have := parent_lt hc0; omega
  refine ⟨fun i h0 hi hpi a b ha hb => ?_, fun _ i h0 hi hpi a b ha hb => ?_⟩
  · by_cases hpk : parent i = k
    · rw [comp_apply, hpk, Equiv.swap_apply_left] at ha
      by_cases hic : i = c
      · rw [comp_apply, hic, Equiv.swap_apply_right] at hb
        exact hback a b ha hb
      · have hik : i ≠ k := by have := parent_lt h0; omega
        rw [comp_apply, Equiv.swap_apply_of_ne_of_ne hik hic] at hb
        exact hmax i h0 hi hpk a b ha hb
    · have hic : i ≠ c := fun e => hpk (e ▸ hck)
      rw [comp_apply, Equiv.swap_apply_of_ne_of_ne hpk hpi] at ha
      by_cases hik : i = k
      · rw [comp_apply, hik, Equiv.swap_apply_left] at hb
        rw [hik] at ha h0
        exact h.grand h0 c hc0 hcn hck a b ha hb
      · rw [comp_apply, Equiv.swap_apply_of_ne_of_ne hik hic] at hb
        exact h.except i h0 hi hpk a b ha hb
  · rw [comp_apply, hck, Equiv.swap_apply_left] at ha
    have hci : c < i := by have := parent_lt h0; omega
    rw [comp_apply, Equiv.swap_apply_of_ne_of_ne (by omega) (by omega)] at hb
    have hi' := h.except i h0 hi (by omega)
    rw [hpi] at hi'
    exact hi' a b ha hb

omit hlt in
theorem DownOrder.finish (h : DownOrder lt g n k)
    (hk : ∀ i, 0 < i → i < n → parent i = k → Above lt g k i) : HeapOn lt g n := by
  intro i h0 hi
  by_cases hik : parent i = k
  · have := hk i h0 hi hik; rw [← hik] at this; exact this
  · exact h.except i h0 hi hik

end Order

end OpenCore.HeapOrder
