/-
  File:      OpenCore/Lib/LinkedRing.lean
  Subject:   RINGS OF LINKED CELLS: chains that lead back to where they start.

  `LinkedRing mem p xs`: from the cell at `p` the links lead through the cells `xs`, none of them
  twice, and from the last one back to `p`. A ring is read from another cell by turning it; data are
  put into a cell, and a new cell behind the last one, without leaving the ring.

  **Main result** `LinkedRing.reaches_iff`: the cells of a ring are exactly what the links reach.
-/
import OpenCore.Lib.Chain

namespace OpenCore

open List
open Prod (fst)

variable {P D : Type*}

/-- One cell's link. -/
def Link (mem : P → Option (Cell P D)) (a b : P) : Prop := ∃ c, mem a = some c ∧ c.next = some b

structure LinkedRing (mem : P → Option (Cell P D)) (p : P) (xs : List (P × D)) : Prop where
  around : Linked mem (some p) xs (some p)
  nodup : (xs.map fst).Nodup
  ne_nil : xs ≠ []

namespace LinkedRing

variable {mem : P → Option (Cell P D)} {p a : P} {x y : P × D} {l r xs : List (P × D)} {d : D}

/-- The first cell is the one the ring is read from. -/
theorem first (h : LinkedRing mem p (x :: xs)) : x.1 = p := (Option.some.inj h.around.1).symm

/-- The cell in front of another one. -/
theorem link (h : LinkedRing mem p (l ++ x :: y :: r)) : mem x.1 = some ⟨some y.1, x.2⟩ := by
  obtain ⟨-, n, hn, hrest⟩ := linked_middle.mp h.around
  rw [hn, hrest.1]

/-- The last cell. -/
theorem link_last (h : LinkedRing mem p (l ++ [x])) : mem x.1 = some ⟨some p, x.2⟩ :=
  (linked_concat.mp h.around).2

theorem mem_eq (h : LinkedRing mem p (l ++ x :: r)) : ∃ n, mem x.1 = some ⟨n, x.2⟩ := by
  obtain ⟨-, n, hn, -⟩ := linked_middle.mp h.around
  exact ⟨n, hn⟩

/-- **The ring read from the next cell.** -/
theorem turn (h : LinkedRing mem p (x :: xs)) :
    ∃ q, mem x.1 = some ⟨some q, x.2⟩ ∧ LinkedRing mem q (xs ++ [x]) := by
  have hp := h.first
  have hnodup : ((xs ++ [x]).map fst).Nodup := by
    refine (Perm.nodup_iff ?_).mp h.nodup
    exact (perm_append_singleton x xs).symm.map fst
  have hne : xs ++ [x] ≠ [] := append_ne_nil_of_right_ne_nil _ (cons_ne_nil _ _)
  obtain ⟨-, n, hn, hrest⟩ := h.around
  cases xs with
  | nil =>
    rw [linked_nil] at hrest
    subst hrest
    exact ⟨p, hn, ⟨hp ▸ rfl, some p, hn, rfl⟩, hnodup, hne⟩
  | cons y xs =>
    have hy := hrest.1
    subst hy
    refine ⟨y.1, hn, linked_concat.mpr ⟨?_, hn⟩, hnodup, hne⟩
    rw [hp]
    exact hrest

theorem not_mem_sides (h : LinkedRing mem p (l ++ x :: r)) :
    x.1 ∉ l.map fst ∧ x.1 ∉ r.map fst := by
  have hnodup := h.nodup
  rw [map_append, map_cons, nodup_append] at hnodup
  obtain ⟨-, hr, hlr⟩ := hnodup
  exact ⟨fun hx => hlr _ hx _ mem_cons_self rfl, (nodup_cons.mp hr).1⟩

/-- **New data in a cell** leave the ring as it is. -/
theorem setData [DecidableEq P] (h : LinkedRing mem p (l ++ x :: r)) {n : Option P}
    (hn : mem x.1 = some ⟨n, x.2⟩) :
    LinkedRing (Function.update mem x.1 (some ⟨n, d⟩)) p (l ++ (x.1, d) :: r) := by
  obtain ⟨hl, hr⟩ := h.not_mem_sides
  obtain ⟨hbefore, n', hn', hbehind⟩ := linked_middle.mp h.around
  rw [hn] at hn'
  cases hn'
  refine ⟨linked_middle.mpr ⟨hbefore.update _ hl, n, ?_, hbehind.update _ hr⟩, ?_, ?_⟩
  · exact Function.update_self ..
  · have hnodup := h.nodup
    rw [map_append, map_cons] at hnodup ⊢
    exact hnodup
  · exact append_ne_nil_of_right_ne_nil _ (cons_ne_nil _ _)

/-- **A new cell behind the last one**, which leads back to the first. -/
theorem insertLast [DecidableEq P] (h : LinkedRing mem p (l ++ [x]))
    (ha : a ∉ (l ++ [x]).map fst) :
    LinkedRing (Function.update (Function.update mem x.1 (some ⟨some a, x.2⟩)) a
      (some ⟨some p, d⟩)) p ((l ++ [x]) ++ [(a, d)]) := by
  have hl := h.not_mem_sides.1
  refine ⟨linked_concat.mpr ⟨?_, ?_⟩, ?_, ?_⟩
  · exact (h.around.set_last hl).update _ ha
  · exact Function.update_self ..
  · rw [map_append, nodup_append]
    refine ⟨h.nodup, nodup_singleton a, fun b hb c hc hbc => ?_⟩
    have hca : c = a := mem_singleton.mp hc
    rw [hbc, hca] at hb
    exact ha hb
  · exact append_ne_nil_of_right_ne_nil _ (cons_ne_nil _ _)

/-- A link leads to a cell of the ring. -/
theorem link_mem (h : LinkedRing mem p xs) {b : P} (ha : a ∈ xs.map fst) (hab : Link mem a b) :
    b ∈ xs.map fst := by
  obtain ⟨y, hy, rfl⟩ := mem_map.mp ha
  obtain ⟨l, r, rfl⟩ := append_of_mem hy
  obtain ⟨c, hc, hb⟩ := hab
  cases r with
  | nil =>
    rw [h.link_last] at hc
    cases hc
    cases hb
    cases l with
    | nil => exact h.first ▸ mem_cons_self
    | cons z l => exact h.first ▸ mem_cons_self
  | cons z r =>
    rw [h.link] at hc
    cases hc
    cases hb
    rw [map_append, map_cons, map_cons]
    exact mem_append_right _ (mem_cons_of_mem _ mem_cons_self)

/-- **The cells of the ring are what the links reach from `p`.** -/
theorem reaches_iff (h : LinkedRing mem p xs) :
    Relation.ReflTransGen (Link mem) p a ↔ a ∈ xs.map fst := by
  constructor
  · intro hpa
    induction hpa with
    | refl =>
      cases xs with
      | nil => exact absurd rfl h.ne_nil
      | cons x xs => exact h.first ▸ mem_cons_self
    | tail _ hab ih => exact h.link_mem ih hab
  · -- induction on how far the cell lies behind the first
    intro ha
    obtain ⟨y, hy, rfl⟩ := mem_map.mp ha
    obtain ⟨l, r, rfl⟩ := append_of_mem hy
    induction l using reverseRecOn generalizing y r with
    | nil =>
      rw [nil_append] at h
      rw [h.first]
    | append_singleton l z ih =>
      rw [append_assoc, singleton_append] at h
      have hz := ih z (y :: r) (by simpa using h) (by simp) (by simp)
      exact hz.tail ⟨_, h.link, rfl⟩

end LinkedRing

end OpenCore
