/-
  File:      OpenCore/Lib/Segments.lean
  Subject:   SEGMENTS OF A RANGE: what it means that they tile it, and how splitting and joining
             keep it.

  A segment may be empty. Two segments are apart when neither reaches into the other, and
  separated when they do not touch either; segments that tile a range and are separated are one.

  **Main result**: `Tiles.single`.
-/
import Mathlib.Data.List.Pairwise
import Mathlib.Data.List.Perm.Basic

namespace OpenCore.Lib

open List

/-! ## 1. Segments -/

/-- `len` places from `ptr` on. -/
structure Segment where
  ptr : Nat
  len : Nat
  deriving DecidableEq

namespace Segment

/-- The place behind the segment. -/
def stop (s : Segment) : Nat := s.ptr + s.len

/-- A place is in the segment. -/
def Has (s : Segment) (a : Nat) : Prop := s.ptr ≤ a ∧ a < s.stop

/-- Neither segment reaches into the other one. -/
def Apart (s t : Segment) : Prop := s.stop ≤ t.ptr ∨ t.stop ≤ s.ptr

/-- Nor do they touch. -/
def Separated (s t : Segment) : Prop := s.stop < t.ptr ∨ t.stop < s.ptr

instance (s t : Segment) : Decidable (s.Apart t) := inferInstanceAs (Decidable (_ ∨ _))

instance (s t : Segment) : Decidable (s.Separated t) := inferInstanceAs (Decidable (_ ∨ _))

theorem Apart.symm {s t : Segment} (h : s.Apart t) : t.Apart s := Or.symm h

instance : Std.Symm Separated := ⟨fun _ _ => Or.symm⟩

end Segment

open Segment

/-- The segments tile `size` places from `base` on. -/
structure Tiles (base size : Nat) (segments : List Segment) : Prop where
  apart : segments.Pairwise Apart
  inside : ∀ s ∈ segments, base ≤ s.ptr ∧ s.stop ≤ base + size
  covers : ∀ a, base ≤ a → a < base + size → ∃ s ∈ segments, s.Has a

section Tiles

variable {base size : Nat} {l l' : List Segment} {s t c : Segment}

theorem Tiles.perm (h : Tiles base size l) (hp : l.Perm l') : Tiles base size l' := by
  refine ⟨(hp.pairwise_iff Apart.symm).mp h.apart, fun s hs => h.inside s (hp.mem_iff.mpr hs),
    fun a h1 h2 => ?_⟩
  obtain ⟨s, hs, ha⟩ := h.covers a h1 h2
  exact ⟨s, hp.mem_iff.mp hs, ha⟩

theorem Tiles.whole (base size : Nat) : Tiles base size [⟨base, size⟩] := by
  refine ⟨pairwise_singleton _ _, fun s hs => ?_, fun a h1 h2 => ?_⟩
  · rw [mem_singleton.mp hs]
    exact ⟨Nat.le_refl base, Nat.le_refl _⟩
  · exact ⟨_, mem_cons_self, h1, h2⟩

theorem Tiles.split {n : Nat} (h : Tiles base size (s :: l)) (hn : n ≤ s.len) :
    Tiles base size (⟨s.ptr, n⟩ :: ⟨s.ptr + n, s.len - n⟩ :: l) := by
  obtain ⟨hs, hl⟩ := pairwise_cons.mp h.apart
  have hin := h.inside s mem_cons_self
  have hstop : s.stop = s.ptr + s.len := rfl
  have hstop2 : (⟨s.ptr + n, s.len - n⟩ : Segment).stop = s.stop := by
    show s.ptr + n + (s.len - n) = s.ptr + s.len
    omega
  refine ⟨?_, ?_, fun a h1 h2 => ?_⟩
  · refine pairwise_cons.mpr ⟨?_, pairwise_cons.mpr ⟨?_, hl⟩⟩
    · intro x hx
      rcases mem_cons.mp hx with rfl | hx
      · exact .inl (Nat.le_refl _)
      · exact (hs x hx).imp (fun hle => by show s.ptr + n ≤ x.ptr; omega) id
    · intro x hx
      refine (hs x hx).imp (fun hle => by rw [hstop2]; exact hle) fun hle => ?_
      show x.stop ≤ s.ptr + n
      omega
  · intro x hx
    rcases mem_cons.mp hx with rfl | hx
    · exact ⟨hin.1, by show s.ptr + n ≤ _; omega⟩
    · rcases mem_cons.mp hx with rfl | hx
      · exact ⟨by show base ≤ s.ptr + n; omega, by rw [hstop2]; exact hin.2⟩
      · exact h.inside x (mem_cons_of_mem s hx)
  · obtain ⟨x, hx, ha⟩ := h.covers a h1 h2
    rcases mem_cons.mp hx with rfl | hx
    · by_cases hcut : a < x.ptr + n
      · exact ⟨_, mem_cons_self, ha.1, hcut⟩
      · refine ⟨_, mem_cons_of_mem _ mem_cons_self, by show x.ptr + n ≤ a; omega, ?_⟩
        rw [hstop2]
        exact ha.2
    · exact ⟨x, mem_cons_of_mem _ (mem_cons_of_mem _ hx), ha⟩

/-- Two segments that touch are joined; no empty segment is where they do. -/
theorem Tiles.join (h : Tiles base size (s :: t :: l)) (ht : s.stop = t.ptr)
    (hseam : ∀ x ∈ l, 0 < x.len ∨ x.ptr ≠ t.ptr) :
    Tiles base size (⟨s.ptr, s.len + t.len⟩ :: l) := by
  obtain ⟨hs, htl⟩ := pairwise_cons.mp h.apart
  obtain ⟨ht', hl⟩ := pairwise_cons.mp htl
  have hins := h.inside s mem_cons_self
  have hint := h.inside t (mem_cons_of_mem s mem_cons_self)
  have hstop : (⟨s.ptr, s.len + t.len⟩ : Segment).stop = t.stop := by
    show s.ptr + (s.len + t.len) = t.ptr + t.len
    rw [← ht, stop, Nat.add_assoc]
  have hss : s.stop = s.ptr + s.len := rfl
  have hts : t.stop = t.ptr + t.len := rfl
  refine ⟨pairwise_cons.mpr ⟨fun x hx => ?_, hl⟩, fun x hx => ?_, fun a h1 h2 => ?_⟩
  · have hxs := hs x (mem_cons_of_mem t hx)
    have hxt := ht' x hx
    unfold Apart at hxs hxt ⊢
    have hxx : x.stop = x.ptr + x.len := rfl
    have hx0 := hseam x hx
    rw [hstop]
    show t.stop ≤ x.ptr ∨ x.stop ≤ s.ptr
    omega
  · rcases mem_cons.mp hx with rfl | hx
    · exact ⟨hins.1, by rw [hstop]; exact hint.2⟩
    · exact h.inside x (mem_cons_of_mem s (mem_cons_of_mem t hx))
  · obtain ⟨x, hx, ha⟩ := h.covers a h1 h2
    rcases mem_cons.mp hx with rfl | hx
    · refine ⟨_, mem_cons_self, ha.1, ?_⟩
      rw [hstop]
      exact Nat.lt_of_lt_of_le ha.2 (by omega)
    · rcases mem_cons.mp hx with rfl | hx
      · refine ⟨_, mem_cons_self, ?_, by rw [hstop]; exact ha.2⟩
        show s.ptr ≤ a
        have := ha.1
        omega
      · exact ⟨x, mem_cons_of_mem _ hx, ha⟩

theorem Tiles.drop_empty (h : Tiles base size (s :: l)) (hs : s.len = 0) : Tiles base size l := by
  obtain ⟨-, hl⟩ := pairwise_cons.mp h.apart
  refine ⟨hl, fun x hx => h.inside x (mem_cons_of_mem s hx), fun a h1 h2 => ?_⟩
  obtain ⟨x, hx, ha⟩ := h.covers a h1 h2
  rcases mem_cons.mp hx with rfl | hx
  · obtain ⟨h3, h4⟩ := ha
    unfold stop at h4
    omega
  · exact ⟨x, hx, ha⟩

/-- And it may come, where it is in no segment. -/
theorem Tiles.add_empty (h : Tiles base size l) (hs : s.len = 0)
    (hin : base ≤ s.ptr ∧ s.stop ≤ base + size) (ha : ∀ x ∈ l, s.Apart x) :
    Tiles base size (s :: l) := by
  refine ⟨pairwise_cons.mpr ⟨ha, h.apart⟩, fun x hx => ?_, fun a h1 h2 => ?_⟩
  · rcases mem_cons.mp hx with rfl | hx
    · exact hin
    · exact h.inside x hx
  · obtain ⟨x, hx, hax⟩ := h.covers a h1 h2
    exact ⟨x, mem_cons_of_mem s hx, hax⟩

/-- Separated segments that tile a range are the whole of it. -/
theorem Tiles.single (h : Tiles base size l) (hsep : l.Pairwise Separated) (hsize : 0 < size) :
    l = [⟨base, size⟩] := by
  obtain ⟨s, hs, hbase⟩ := h.covers base (Nat.le_refl base) (by omega)
  have hin := h.inside s hs
  -- What is behind `s` would touch it.
  have hstop : s.stop = base + size := by
    by_contra hne
    obtain ⟨t, ht, ha⟩ := h.covers s.stop (by have := hbase.2; omega) (by omega)
    by_cases hst : t = s
    · rw [hst] at ha
      exact Nat.lt_irrefl _ ha.2
    · have hst' := hsep.forall ht hs hst
      have h1 := ha.1
      have h2 := ha.2
      unfold Separated at hst'
      have hss : s.stop = s.ptr + s.len := rfl
      omega
  have hwhole : s = ⟨base, size⟩ := by
    have hptr : s.ptr = base := Nat.le_antisymm hbase.1 hin.1
    have hlen : s.len = size := by
      unfold stop at hstop
      omega
    rw [← hptr, ← hlen]
  have hall : ∀ x ∈ l, x = s := by
    intro x hx
    by_contra hne
    have hxs := hsep.forall hx hs hne
    have hxin := h.inside x hx
    have hxx : x.stop = x.ptr + x.len := rfl
    have := hbase.1
    unfold Separated at hxs
    omega
  cases l with
  | nil => exact absurd hs not_mem_nil
  | cons x l =>
    cases l with
    | nil => rw [hall x mem_cons_self, hwhole]
    | cons y l =>
      have hxy := (pairwise_cons.mp hsep).1 y mem_cons_self
      rw [hall x mem_cons_self,
        hall y (mem_cons_of_mem x mem_cons_self)] at hxy
      unfold Separated stop at hxy
      omega

end Tiles

end OpenCore.Lib
