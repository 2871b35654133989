/-
  File:      OpenCore/Lib/Chain.lean
  Subject:   SINGLY LINKED CELLS in a memory, cut and joined at a link.

  `Linked mem p xs q`: from the pointer `p` the links lead through the cells `xs`, each with its
  data, to the pointer `q`. A list is a chain that ends in no pointer; such a chain meets no cell
  twice.
-/
import Mathlib

namespace OpenCore

open List
open Prod (fst)

/-- A cell: the address of the next one, and its data. -/
structure Cell (P D : Type*) where
  next : Option P
  data : D

variable {P D : Type*}

def Linked (mem : P → Option (Cell P D)) : Option P → List (P × D) → Option P → Prop
  | p, [], q => p = q
  | p, x :: xs, q => p = some x.1 ∧ ∃ n, mem x.1 = some ⟨n, x.2⟩ ∧ Linked mem n xs q

/-- The address of the last cell. -/
def lastAddr (xs : List (P × D)) : Option P := xs.getLast?.map fst

@[simp] theorem lastAddr_concat (xs : List (P × D)) (x : P × D) :
    lastAddr (xs ++ [x]) = some x.1 := by
  rw [lastAddr, getLast?_concat, Option.map_some]

/-- A list is empty, or it ends in the cell at its last address. -/
theorem lastAddr_cases (xs : List (P × D)) :
    (xs = [] ∧ lastAddr xs = none) ∨
      ∃ l x, xs = l ++ [x] ∧ lastAddr xs = some x.1 := by
  rcases eq_nil_or_concat xs with rfl | ⟨l, x, rfl⟩
  · exact .inl ⟨rfl, rfl⟩
  · rw [concat_eq_append]
    exact .inr ⟨l, x, rfl, lastAddr_concat l x⟩

theorem lastAddr_append_cons (xs ys : List (P × D)) (y : P × D) :
    lastAddr (xs ++ y :: ys) = lastAddr (y :: ys) := by
  rw [lastAddr, lastAddr, getLast?_append_cons]

theorem lastAddr_mem {xs : List (P × D)} {a : P} (h : lastAddr xs = some a) :
    a ∈ xs.map fst := by
  obtain ⟨x, hx, rfl⟩ := Option.map_eq_some_iff.mp h
  exact mem_map_of_mem (mem_of_getLast? hx)

variable {mem mem' : P → Option (Cell P D)} {p q q' : Option P} {xs ys : List (P × D)}

@[simp] theorem linked_nil : Linked mem p [] q ↔ p = q := Iff.rfl

variable {x : P × D}

theorem linked_cons : Linked mem p (x :: xs) q ↔
    p = some x.1 ∧ ∃ n, mem x.1 = some ⟨n, x.2⟩ ∧ Linked mem n xs q := Iff.rfl

/-- **The seam**: two chains make one where the first ends in the pointer the second begins
    with. -/
theorem linked_append :
    Linked mem p (xs ++ ys) q ↔ ∃ m, Linked mem p xs m ∧ Linked mem m ys q := by
  induction xs generalizing p with
  | nil => simp
  | cons x xs ih =>
    rw [cons_append, linked_cons]
    constructor
    · rintro ⟨hp, n, hn, h⟩
      obtain ⟨m, h1, h2⟩ := ih.mp h
      exact ⟨m, ⟨hp, n, hn, h1⟩, h2⟩
    · rintro ⟨m, ⟨hp, n, hn, h1⟩, h2⟩
      exact ⟨hp, n, hn, ih.mpr ⟨m, h1, h2⟩⟩

theorem linked_concat :
    Linked mem p (xs ++ [x]) q ↔ Linked mem p xs (some x.1) ∧ mem x.1 = some ⟨q, x.2⟩ := by
  rw [linked_append]
  constructor
  · rintro ⟨m, h1, rfl, n, hn, rfl⟩
    exact ⟨h1, hn⟩
  · rintro ⟨h1, hn⟩
    exact ⟨_, h1, rfl, _, hn, rfl⟩

theorem linked_middle :
    Linked mem p (xs ++ x :: ys) q ↔
      Linked mem p xs (some x.1) ∧ ∃ n, mem x.1 = some ⟨n, x.2⟩ ∧ Linked mem n ys q := by
  rw [linked_append]
  constructor
  · rintro ⟨m, h1, rfl, h2⟩
    exact ⟨h1, h2⟩
  · rintro ⟨h1, h2⟩
    exact ⟨_, h1, rfl, h2⟩

/-- A chain does not see the cells it does not lead through. -/
theorem Linked.congr (h : Linked mem p xs q) (hm : ∀ x ∈ xs, mem' x.1 = mem x.1) :
    Linked mem' p xs q := by
  induction xs generalizing p with
  | nil => exact h
  | cons x xs ih =>
    obtain ⟨hp, n, hn, h⟩ := h
    exact ⟨hp, n, (hm x mem_cons_self).trans hn,
      ih h fun y hy => hm y (mem_cons_of_mem x hy)⟩

theorem Linked.update [DecidableEq P] (h : Linked mem p xs q) {a : P} (c : Option (Cell P D))
    (ha : a ∉ xs.map fst) : Linked (Function.update mem a c) p xs q :=
  h.congr fun x hx =>
    Function.update_of_ne (fun e => ha (by rw [← e]; exact mem_map_of_mem hx)) _ _

theorem Linked.mem_isSome (h : Linked mem p xs q) {a : P} (ha : a ∈ xs.map fst) :
    (mem a).isSome := by
  induction xs generalizing p with
  | nil => exact absurd ha not_mem_nil
  | cons x xs ih =>
    obtain ⟨-, n, hn, h⟩ := h
    rcases mem_cons.mp ha with rfl | ha
    · rw [hn, Option.isSome_some]
    · exact ih h ha

theorem Linked.eq_none_iff (h : Linked mem p xs none) : p = none ↔ xs = [] := by
  cases xs with
  | nil => exact iff_of_true h rfl
  | cons x xs =>
    rw [h.1]
    exact iff_of_false (Option.some_ne_none _) (cons_ne_nil _ _)

/-- A chain to the end is determined by where it starts. -/
theorem Linked.unique (h : Linked mem p xs none) (h' : Linked mem p ys none) : xs = ys := by
  induction xs generalizing p ys with
  | nil => exact (h'.eq_none_iff.mp h).symm
  | cons x xs ih =>
    obtain ⟨hp, n, hn, h⟩ := h
    cases ys with
    | nil =>
      rw [linked_nil] at h'
      rw [hp] at h'
      cases h'
    | cons y ys =>
      obtain ⟨hp', n', hn', h'⟩ := h'
      rw [hp] at hp'
      have ha : x.1 = y.1 := Option.some.inj hp'
      rw [← ha, hn] at hn'
      obtain ⟨rfl, hd⟩ := Cell.mk.inj (Option.some.inj hn')
      rw [Prod.ext ha hd, ih h h']

/-- **A chain to the end meets no cell twice.** -/
theorem Linked.nodup (h : Linked mem p xs none) : (xs.map fst).Nodup := by
  induction xs generalizing p with
  | nil => exact nodup_nil
  | cons x xs ih =>
    obtain ⟨-, n, hn, h⟩ := h
    refine nodup_cons.mpr ⟨fun hx => ?_, ih h⟩
    obtain ⟨y, hy, hyx⟩ := mem_map.mp hx
    obtain ⟨l, r, hlr⟩ := append_of_mem hy
    have htail := h
    rw [hlr] at htail
    obtain ⟨-, hrest⟩ := linked_middle.mp htail
    have hwhole : Linked mem (some x.1) (x :: xs) none := ⟨rfl, n, hn, h⟩
    have hagain : Linked mem (some x.1) (y :: r) none := ⟨by rw [hyx], hrest⟩
    have heq := hwhole.unique hagain
    have hlen := congrArg length heq
    rw [hlr, length_cons, length_append, length_cons] at hlen
    omega

/-- **A link set at the last cell** joins the chain to another pointer. -/
theorem Linked.set_last [DecidableEq P] (h : Linked mem p (xs ++ [x]) q)
    (hx : x.1 ∉ xs.map fst) :
    Linked (Function.update mem x.1 (some ⟨q', x.2⟩)) p (xs ++ [x]) q' :=
  linked_concat.mpr ⟨(linked_concat.mp h).1.update _ hx, Function.update_self ..⟩

end OpenCore
