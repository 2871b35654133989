/-
  File:      OpenCore/OsclUtil/PriQueueRun.lean
  Subject:   Whole runs of `OsclPriorityQueue` against the bag it stands for.

  Whatever the comparison, each call changes the stored elements as the bag says (`content_step`).
  In a run whose `remove` calls each take out the root, one of the last four entries, or nothing
  (`SafeCall`), the vector is a heap in every state and the run is one of the bag.
-/
import OpenCore.OsclUtil.PriQueueHeap

namespace OpenCore.OsclPriorityQueue

open HeapOrder

variable {α : Type*} {compare : α → α → Bool}

/-! ## 1. `validate` and `top` -/

theorem validateFrom_eq (v : List α) (left par : Nat) :
    validateFrom compare v left par = -1 ↔
      ∀ p, par ≤ p → p < par + left → ∀ i, i < v.length → i = 2 * p + 1 ∨ i = 2 * p + 2 →
        compareLT compare v p i = false := by
  induction left generalizing par with
  | zero => simp [validateFrom]; omega
  | succ left ih =>
    have hpar : ((par : Nat) : Int) ≠ -1 := by omega
    unfold validateFrom
    split
    · rename_i h
      refine iff_of_false hpar fun hall => ?_
      have := hall par (le_refl _) (by omega) _ h.1 (Or.inl rfl)
      rw [h.2] at this; cases this
    · split
      · rename_i h
        refine iff_of_false hpar fun hall => ?_
        have := hall par (le_refl _) (by omega) _ h.1 (Or.inr rfl)
        rw [h.2] at this; cases this
      · rename_i h1 h2
        rw [ih]
        constructor
        · intro hall p hp1 hp2 i hi hc
          rcases Nat.eq_or_lt_of_le hp1 with rfl | hlt
          · rcases hc with rfl | rfl
            · simpa [hi] using h1
            · simpa [hi] using h2
          · exact hall p hlt (by omega) i hi hc
        · intro hall p hp1 hp2
          exact hall p (by omega) (by omega)

/-- **`validate` finds nothing exactly on a heap.** -/
theorem validate_eq_iff (v : List α) :
    validate compare v = -1 ↔ HeapOn compare (entries v) v.length := by
  unfold validate
  rw [validateFrom_eq]
  constructor
  · intro hall i h0 hi
    have hp := parent_lt h0
    exact (compareLT_eq_false_iff v _ _).mp
      (hall _ (Nat.zero_le _) (by omega) i hi ((parent_eq_iff h0).mp rfl))
  · intro h p _ hp i hi hc
    have hpar : parent i = p := (parent_eq_iff (by omega)).mpr hc
    exact hpar ▸ (compareLT_eq_false_iff v _ _).mpr (h i (by omega) hi)

variable {v : List α}

/-- The top of a heap is a greatest element. -/
theorem top_greatest (hlt : StrictPart compare)
    (h : HeapOn compare (entries v) v.length) {t : α} (ht : top v = some t) :
    ∀ y ∈ v, compare t y = false := by
  intro y hy
  obtain ⟨i, hi, rfl⟩ := List.mem_iff_getElem.mp hy
  refine root_greatest hlt h (entries_isSome (le_refl _)) i hi t v[i] ?_
    (List.getElem?_eq_getElem hi)
  simpa [entries, top, List.head?_eq_getElem?] using ht

/-! ## 2. What each call does to the stored elements -/

variable (compare) in
theorem push_perm (v : List α) (x : α) : (push compare v x).Perm (x :: v) :=
  (pushHeap_perm _ _ _).trans (List.perm_append_singleton x v)

variable (compare) in
theorem pop_perm {t : α} (ht : top v = some t) :
    (t :: pop compare v).Perm v := by
  refine dropLast_popHeap_perm ?_
  simpa [top, List.head?_eq_getElem?] using ht

variable {x : α}

variable (compare) in
theorem removeAt_perm {pos : Nat} (hx : v[pos]? = some x) :
    (x :: removeAt compare v pos).Perm v := by
  obtain ⟨hp, rfl⟩ := List.getElem?_eq_some_iff.mp hx
  unfold removeAt
  split
  · rename_i h
    have hne : v ≠ [] := by intro e; subst e; simp at hp
    have hl : v.getLast hne = v[pos] := by
      rw [List.getLast_eq_getElem]; congr 1; omega
    refine (List.perm_append_singleton _ _).symm.trans ?_
    rw [← hl, List.dropLast_append_getLast]
  · refine ((pushHeap_perm 0 (pos + 1) _).cons _).trans ?_
    exact dropLast_popHeap_perm hx

variable [DecidableEq α]

theorem findHeap_some {pos : Nat} (h : findHeap x v = some pos) :
    v[pos]? = some x := by
  obtain ⟨hp, he, -⟩ := List.findIdx?_eq_some_iff_getElem.mp h
  rw [List.getElem?_eq_getElem hp]
  simpa using he

theorem findHeap_none (h : findHeap x v = none) : x ∉ v := by
  intro hx
  have := List.findIdx?_eq_none_iff.mp h x hx
  simp at this

/-- `remove` answers 1 exactly where an element was stored, and takes out one occurrence. -/
theorem remove_spec (v : List α) (x : α) :
    ((remove compare v x).1 : Multiset α) = (v : Multiset α).erase x ∧
      (remove compare v x).2 = if x ∈ v then 1 else 0 := by
  unfold remove
  cases h : findHeap x v with
  | none =>
    have hx := findHeap_none h
    exact ⟨(Multiset.erase_of_notMem (by simpa using hx)).symm, by simp [hx]⟩
  | some pos =>
    have hp := findHeap_some h
    have hmem : x ∈ v := List.mem_of_getElem? hp
    refine ⟨?_, by simp [hmem]⟩
    have := Multiset.coe_eq_coe.mpr (removeAt_perm compare hp)
    rw [← this, ← Multiset.cons_coe, Multiset.erase_cons_head]

variable {op : Op α}

variable {v' : List α}

/-- The bag after a call, for any comparison: `pop` takes the top, whatever it is. -/
theorem content_step (h : step compare v op = some v') :
    (v' : Multiset α) = match op with
      | .push x => x ::ₘ (v : Multiset α)
      | .pop => match top v with
        | some t => (v : Multiset α).erase t
        | none => v
      | .remove x => (v : Multiset α).erase x := by
  cases op with
  | push x => cases h; exact Multiset.coe_eq_coe.mpr (push_perm compare v x)
  | pop =>
    cases v with
    | nil => simp [step] at h
    | cons t v =>
      simp only [step, List.cons_ne_nil, if_false, Option.some.injEq] at h
      subst h
      have := Multiset.coe_eq_coe.mpr (pop_perm compare (v := t :: v) rfl)
      simp only [top, List.head?_cons]
      rw [← this, ← Multiset.cons_coe, Multiset.erase_cons_head]
  | remove x => cases h; exact (remove_spec v x).1

/-! ## 3. Runs -/

/-- A `remove` takes out the root or one of the last four entries, or finds nothing. -/
def SafeCall (v : List α) : Op α → Prop
  | .remove x => ∀ pos ∈ findHeap x v, pos = 0 ∨ v.length ≤ pos + 4
  | _ => True

instance : ∀ (v : List α) (op : Op α), Decidable (SafeCall v op)
  | _, .push _ => instDecidableTrue
  | _, .pop => instDecidableTrue
  | v, .remove x => inferInstanceAs (Decidable (∀ pos ∈ findHeap x v, pos = 0 ∨ v.length ≤ pos + 4))

/-- A `remove` of a safe kind keeps the heap. -/
theorem remove_heap {lt : α → α → Bool} (hlt : StrictPart lt)
    (hr : Refines compare lt v) (h : HeapOn lt (entries v) v.length)
    (hsafe : SafeCall v (.remove x)) :
    HeapOn lt (entries (remove compare v x).1) (remove compare v x).1.length := by
  unfold remove
  cases hf : findHeap x v with
  | none => exact h
  | some pos =>
    have hp := findHeap_some hf
    obtain ⟨hpl, -⟩ := List.getElem?_eq_some_iff.mp hp
    have hl : (removeAt compare v pos).length = v.length - 1 := by
      have := (removeAt_perm compare hp).length_eq
      simp only [List.length_cons] at this; omega
    dsimp only
    rw [hl]
    exact removeAt_heap hlt hr h hpl (hsafe pos hf)

/-- One call of a safe kind keeps the heap. -/
theorem heap_step (hlt : StrictPart compare)
    (h : HeapOn compare (entries v) v.length) (hsafe : SafeCall v op)
    (hs : step compare v op = some v') : HeapOn compare (entries v') v'.length := by
  cases op with
  | push x => cases hs; exact push_heap hlt (hlt.refines _) h
  | pop =>
    simp only [step] at hs
    split at hs
    · cases hs
    · cases hs; exact pop_heap hlt (hlt.refines _) h
  | remove x => cases hs; exact remove_heap hlt (hlt.refines _) h hsafe

/-- A call is a step of the bag for any order its top is greatest in. -/
theorem bag_step_of_top {lt : α → α → Bool}
    (hmax : ∀ t, top v = some t → ∀ y ∈ v, lt t y = false) (hs : step compare v op = some v') :
    BagStep lt (v : Multiset α) op v' := by
  rw [content_step hs]
  cases op with
  | push x => exact .push _ x
  | remove x => exact .remove _ x
  | pop =>
    cases v with
    | nil => simp [step] at hs
    | cons t v => exact .pop _ t (by simp) fun y hy => hmax t rfl y (by simpa using hy)

theorem bag_step (hlt : StrictPart compare)
    (h : HeapOn compare (entries v) v.length) (hs : step compare v op = some v') :
    BagStep compare (v : Multiset α) op v' :=
  bag_step_of_top (fun _ ht => top_greatest hlt h ht) hs

/-- **Nothing is lost or doubled**, whatever the comparison and whichever elements are removed:
    every run is one of the bag without an order. -/
theorem elements_kept {ops : List (Op α)} {v : List α}
    (hr : Run (stepsOf (step compare)) [] ops v) :
    Run (BagStep fun _ _ => false) 0 ops (v : Multiset α) := by
  obtain ⟨_, hrun, rfl⟩ := hr.simulate (A := BagStep fun _ _ => false)
    (R := fun (v : List α) s => (v : Multiset α) = s) (t := 0) rfl (by
      rintro v op v' _ rfl hs
      exact ⟨_, bag_step_of_top (fun _ _ _ _ => rfl) hs, rfl⟩)
  exact hrun

/-- The comparison of natural numbers. -/
def natLess (a b : Nat) : Bool := decide (a < b)

theorem natLess_strictPart : StrictPart natLess where
  asymm a b h := by simp only [natLess, decide_eq_true_eq, decide_eq_false_iff_not] at *; omega
  le_trans a b v h1 h2 := by simp only [natLess, decide_eq_false_iff_not] at *; omega

theorem elements_kept_heap_broken :
    Run (BagStep fun _ _ => false) 0 [.push 10, .push 4, .push 9, .push 2, .push 1, .push 8,
      .push 5, .remove 9] (([10, 4, 5, 2, 1, 8] : List Nat) : Multiset Nat) :=
  elements_kept (Run.of_execAll (f := step natLess) (by decide))

end OpenCore.OsclPriorityQueue
