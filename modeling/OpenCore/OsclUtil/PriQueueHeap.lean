/-
  File:      OpenCore/OsclUtil/PriQueueHeap.lean
  Subject:   What each operation of `OsclPriorityQueue` does to the heap order and to the
             stored elements.

  Every operation only swaps entries, so the multiset of stored elements is exact without any
  condition (`push_perm`, `pop_perm`, `remove_perm`). The heap order is kept by `push` and `pop`.
  `remove` sifts down with child indices RELATIVE to the removed position `pos`: at `pos = 0` they
  are the heap's own, and with at most four entries from `pos` on the sift ends after one swap
  and the climb from `pos` repairs it (`removeAt_heap`). In between the order may be lost.
-/
import OpenCore.Lib.HeapOrder
import OpenCore.OsclUtil.PriQueue

namespace OpenCore.OsclPriorityQueue

open HeapOrder
open Function (comp_apply)

variable {α : Type*}

/-- The vector read by position. -/
def entries (v : List α) : Nat → Option α := fun i => v[i]?

variable {v : List α}

theorem entries_isSome {n : Nat} (hn : n ≤ v.length) (i : Nat) (hi : i < n) :
    (entries v i).isSome := by
  simp only [entries, isSome_getElem?]; omega

/-! ## 1. `swap` and `compare_LT` -/

@[simp] theorem length_swap (v : List α) (i j : Nat) : (swap v i j).length = v.length := by
  unfold swap; split <;> simp

theorem getElem?_swap {i j : Nat} (hi : i < v.length) (hj : j < v.length) (k : Nat) :
    (swap v i j)[k]? = v[Equiv.swap i j k]? := by
  have e : swap v i j = (v.set i v[j]).set j v[i] := by
    simp only [swap, List.getElem?_eq_getElem hi, List.getElem?_eq_getElem hj]
  rw [e, Equiv.swap_apply_def]
  split_ifs with h1 h2
  · subst h1
    by_cases hkj : j = k
    · subst hkj; simp [hi]
    · simp [hkj, hi, hj]
  · subst h2; simp [hi, hj]
  · simp [Ne.symm h1, Ne.symm h2]

theorem entries_swap {i j : Nat} (hi : i < v.length) (hj : j < v.length) :
    entries (swap v i j) = entries v ∘ Equiv.swap i j :=
  funext fun k => getElem?_swap hi hj k

theorem swap_perm (v : List α) (i j : Nat) : (swap v i j).Perm v := by
  unfold swap
  split
  · rename_i a b ha hb
    obtain ⟨hi, rfl⟩ := List.getElem?_eq_some_iff.mp ha
    obtain ⟨hj, rfl⟩ := List.getElem?_eq_some_iff.mp hb
    exact List.set_set_perm hi hj
  · exact List.Perm.refl v

variable {compare : α → α → Bool}

theorem compareLT_eq_false_iff (v : List α) (i j : Nat) :
    compareLT compare v i j = false ↔ Above compare (entries v) i j := by
  unfold compareLT Above entries
  cases v[i]? with
  | none => simp
  | some a =>
    cases v[j]? with
    | none => simp
    | some b => simp

variable {lt : α → α → Bool}

/-- Where the comparison does not say "less", the first entry is not below the second. -/
theorem above_of_compareLT (hr : Refines compare lt v) {i j : Nat}
    (h : compareLT compare v i j = false) : Above lt (entries v) i j := by
  intro a b ha hb
  simp only [entries] at ha hb
  refine hr.of_false a (List.mem_of_getElem? ha) b (List.mem_of_getElem? hb) ?_
  simpa only [compareLT, ha, hb] using h

/-- Where it does, the second is not below the first. -/
theorem above_of_compareLT_true (hr : Refines compare lt v) {i j : Nat}
    (h : compareLT compare v i j = true) : Above lt (entries v) j i := by
  intro b a hb ha
  simp only [entries] at ha hb
  refine hr.of_true a (List.mem_of_getElem? ha) b (List.mem_of_getElem? hb) ?_
  simpa only [compareLT, ha, hb] using h

/-! ## 2. The loops only permute -/

theorem pushHeapLoop_perm (first fuel index : Nat) (v : List α) :
    (pushHeapLoop compare first fuel index v).Perm v := by
  induction fuel generalizing index v with
  | zero => exact List.Perm.refl v
  | succ fuel ih =>
    unfold pushHeapLoop
    split
    · exact (ih _ _).trans (swap_perm _ _ _)
    · exact List.Perm.refl v

theorem popHeapLoop_perm (first newLast fuel index : Nat) (v : List α) :
    (popHeapLoop compare first newLast fuel index v).Perm v := by
  induction fuel generalizing index v with
  | zero => exact List.Perm.refl v
  | succ fuel ih =>
    unfold popHeapLoop
    dsimp only
    split
    · split
      · exact (ih _ _).trans (swap_perm _ _ _)
      · exact List.Perm.refl v
    · exact List.Perm.refl v

theorem pushHeap_perm (first last : Nat) (v : List α) : (pushHeap compare first last v).Perm v :=
  pushHeapLoop_perm _ _ _ _

variable (compare) in
theorem popHeap_perm (first last : Nat) (v : List α) : (popHeap compare first last v).Perm v :=
  (popHeapLoop_perm _ _ _ _ _).trans (swap_perm _ _ _)

@[simp] theorem length_pushHeap (first last : Nat) (v : List α) :
    (pushHeap compare first last v).length = v.length := (pushHeap_perm _ _ _).length_eq

variable (compare) in
@[simp] theorem length_popHeap (first last : Nat) (v : List α) :
    (popHeap compare first last v).length = v.length := (popHeap_perm compare _ _ _).length_eq

variable (compare) in
theorem greaterChild_cases (first newLast : Nat) (v : List α) (child : Nat) :
    greaterChild compare first newLast v child = child ∨
      (greaterChild compare first newLast v child = child + 1 ∧ child + 1 < newLast) := by
  unfold greaterChild
  split
  · rename_i h; exact Or.inr ⟨rfl, h.1⟩
  · exact Or.inl rfl

variable {newLast : Nat}

variable (compare) in
theorem greaterChild_lt (first : Nat) {child : Nat} (v : List α) (h : child < newLast) :
    greaterChild compare first newLast v child < newLast := by
  rcases greaterChild_cases compare first newLast v child with e | ⟨e, h'⟩ <;> omega

/-- The sift down of `pop_heap` touches the positions of its range only. -/
theorem getElem?_popHeapLoop {first fuel index : Nat}
    (hc : first + newLast ≤ v.length) (hi : index < newLast) {k : Nat}
    (hk : k < first ∨ first + newLast ≤ k) :
    (popHeapLoop compare first newLast fuel index v)[k]? = v[k]? := by
  induction fuel generalizing index v with
  | zero => rfl
  | succ fuel ih =>
    unfold popHeapLoop
    dsimp only
    split
    · rename_i hch
      have hlt := greaterChild_lt compare first v hch
      split
      · rw [ih (by simpa using hc) hlt, getElem?_swap (by omega) (by omega),
          Equiv.swap_apply_of_ne_of_ne (by omega) (by omega)]
      · rfl
    · rfl

variable (compare) in
/-- `pop_heap` leaves the first entry of its range at the end of it. -/
theorem getElem?_popHeap_last {first last : Nat} (hf : first < last)
    (hl : last ≤ v.length) : (popHeap compare first last v)[last - 1]? = v[first]? := by
  unfold popHeap
  rcases Nat.eq_or_lt_of_le (Nat.succ_le_of_lt hf) with e | hlt
  · have e0 : last - first - 1 = 0 := by omega
    have e1 : last - 1 = first := by omega
    rw [e0, e1]
    obtain ⟨fuel, hfuel⟩ : ∃ m, last - first = m + 1 := ⟨last - first - 1, by omega⟩
    rw [hfuel, popHeapLoop, if_neg (by omega), getElem?_swap (by omega) (by omega)]
    simp
  · rw [getElem?_popHeapLoop (by simp; omega) (by omega) (by omega),
      getElem?_swap (by omega) (by omega), Equiv.swap_apply_right]

/-- `pop_heap`, then `pop_back`: the first entry of the range is gone. -/
theorem dropLast_popHeap_perm {first : Nat} {x : α} (hx : v[first]? = some x) :
    (x :: (popHeap compare first v.length v).dropLast).Perm v := by
  obtain ⟨hf, -⟩ := List.getElem?_eq_some_iff.mp hx
  have hlast := getElem?_popHeap_last compare hf (le_refl v.length)
  rw [hx] at hlast
  have hne : popHeap compare first v.length v ≠ [] := by
    intro e
    have := length_popHeap compare first v.length v
    rw [e] at this; simp at this; omega
  have hg : (popHeap compare first v.length v).getLast hne = x := by
    rw [← Option.some.injEq, ← hlast, ← List.getLast?_eq_some_getLast, List.getLast?_eq_getElem?]
    simp
  have happ := List.dropLast_append_getLast hne
  rw [hg] at happ
  refine (List.perm_append_singleton x _).symm.trans ?_
  rw [happ]
  exact popHeap_perm _ _ _ _

/-! ## 3. The loops restore the order -/

section Order

variable (hlt : StrictPart lt)
include hlt

/-- `push_heap` from an entry that may be greater than its parent ends in a heap. -/
theorem pushHeapLoop_heap {n fuel index : Nat} (hr : Refines compare lt v)
    (hn : n ≤ v.length) (hi : index < n) (hf : index ≤ fuel) (h : UpOrder lt (entries v) n index) :
    HeapOn lt (entries (pushHeapLoop compare 0 fuel index v)) n := by
  induction fuel generalizing index v with
  | zero => exact h.finish (fun h0 => absurd h0 (by omega))
  | succ fuel ih =>
    unfold pushHeapLoop
    split
    · rename_i hup
      obtain ⟨h0, hup⟩ := hup
      simp only [Nat.zero_add] at hup ⊢
      have hp := parent_lt h0
      refine ih (hr.perm (swap_perm _ _ _)) (by simpa using hn) (by unfold parent at hp; omega)
        (by unfold parent at hp; omega) ?_
      rw [entries_swap (by omega) (by unfold parent at hp; omega)]
      exact h.move hlt h0 hi (entries_isSome hn) (above_of_compareLT_true hr hup)
    · rename_i hup
      refine h.finish fun h0 => above_of_compareLT hr ?_
      simpa [h0, parent] using hup

/-- The child `pop_heap` chooses is above every (relative) child of `index`. -/
theorem greaterChild_max {f index i : Nat}
    (hr : Refines compare lt v) (h0 : 0 < i)
    (hi : i < newLast) (hp : parent i = index) :
    Above lt (entries v) (f + greaterChild compare f newLast v (2 * index + 1)) (f + i) := by
  unfold greaterChild
  have hself : ∀ j, Above lt (entries v) j j := by
    intro j a b ha hb
    rw [ha] at hb; cases hb; exact hlt.irrefl a
  split
  · rename_i hc
    rcases (parent_eq_iff h0).mp hp with rfl | rfl
    · exact above_of_compareLT_true hr hc.2
    · exact hself _
  · rename_i hc
    rcases (parent_eq_iff h0).mp hp with rfl | rfl
    · exact hself _
    · exact above_of_compareLT hr (by simpa [hi] using hc)

/-- `pop_heap` from an entry that may be less than its children ends in a heap. -/
theorem popHeapLoop_heap {fuel index : Nat} (hr : Refines compare lt v)
    (hn : newLast ≤ v.length)
    (hf : newLast ≤ index + fuel) (h : DownOrder lt (entries v) newLast index) :
    HeapOn lt (entries (popHeapLoop compare 0 newLast fuel index v)) newLast := by
  induction fuel generalizing index v with
  | zero =>
    refine h.finish fun i h0 hi hp => ?_
    have := parent_lt h0
    omega
  | succ fuel ih =>
    unfold popHeapLoop
    dsimp only
    split
    · rename_i hch
      have hmax : ∀ i, 0 < i → i < newLast → parent i = index →
          Above lt (entries v) (greaterChild compare 0 newLast v (2 * index + 1)) i := by
        intro i h0 hi hp
        have hmax := greaterChild_max (f := 0) hlt hr h0 hi hp
        rwa [Nat.zero_add, Nat.zero_add] at hmax
      have hcl := greaterChild_lt compare 0 v hch
      have hcases := greaterChild_cases compare 0 newLast v (2 * index + 1)
      generalize greaterChild compare 0 newLast v (2 * index + 1) = child at hmax hcl hcases ⊢
      have hpc : parent child = index := (parent_eq_iff (by omega)).mpr (by omega)
      simp only [Nat.zero_add]
      split
      · rename_i hdn
        refine ih (hr.perm (swap_perm _ _ _)) (by simpa using hn) (by omega) ?_
        rw [entries_swap (by omega) (by omega)]
        exact h.move (by omega) hcl hpc hmax (above_of_compareLT_true hr hdn)
      · rename_i hdn
        refine h.finish fun i h0 hi hp => ?_
        exact Above.trans hlt (entries_isSome hn _ hcl)
          (above_of_compareLT hr (by simpa using hdn)) (hmax i h0 hi hp)
    · rename_i hch
      refine h.finish fun i h0 hi hp => ?_
      have := (parent_eq_iff h0).mp hp
      omega

/-! ## 4. `push` and `pop` -/

omit hlt in
theorem entries_append_lt (v : List α) (x : α) {i : Nat} (hi : i < v.length) :
    entries (v ++ [x]) i = entries v i := by
  simp [entries, List.getElem?_append_left hi]

omit hlt in
theorem entries_dropLast (v : List α) {i : Nat} (hi : i < v.length - 1) :
    entries v.dropLast i = entries v i := by
  simp [entries, hi]

theorem push_heap {x : α} (hr : Refines compare lt (x :: v))
    (h : HeapOn lt (entries v) v.length) :
    HeapOn lt (entries (push compare v x)) (push compare v x).length := by
  have hl : (push compare v x).length = v.length + 1 := by simp [push]
  rw [hl]
  refine pushHeapLoop_heap hlt (hr.perm (List.perm_append_singleton x v)) (by simp) (by omega)
    (by omega) ⟨fun i h0 hi hne => ?_, ?_⟩
  · have hp := parent_lt h0
    intro a b ha hb
    rw [entries_append_lt v x (by omega)] at ha hb
    exact h i h0 (by omega) a b ha hb
  · intro _ i h0 hi hp
    have := parent_lt h0
    omega

theorem pop_heap (hr : Refines compare lt v)
    (h : HeapOn lt (entries v) v.length) :
    HeapOn lt (entries (pop compare v)) (pop compare v).length := by
  have hl : (pop compare v).length = v.length - 1 := by simp [pop]
  rw [hl]
  rcases Nat.lt_or_ge v.length 2 with hs | hs
  · intro i h0 hi; omega
  have hheap : HeapOn lt (entries (popHeap compare 0 v.length v)) (v.length - 1) := by
    refine popHeapLoop_heap hlt (hr.perm (swap_perm _ _ _)) (by simp) (by omega)
      ⟨fun i h0 hi hp => ?_, ?_⟩
    · rw [entries_swap (by omega) (by omega)]
      intro a b ha hb
      have hpi := parent_lt h0
      rw [comp_apply, Equiv.swap_apply_of_ne_of_ne (by omega) (by omega)] at ha hb
      exact h i h0 (by omega) a b ha hb
    · intro h0; omega
  exact hheap.congr fun i hi => entries_dropLast _ (by simpa using hi)

/-! ## 5. `remove` at the root and near the end -/

omit hlt in
theorem popHeapLoop_stop {first fuel index : Nat}
    (h : newLast ≤ 2 * index + 1) : popHeapLoop compare first newLast fuel index v = v := by
  cases fuel with
  | zero => rfl
  | succ fuel => rw [popHeapLoop, if_neg (by omega)]

/-- With at most two entries behind the removed one, the relative sift swaps at most once, and
    the entry it leaves at `first` is a greatest one of the range. -/
theorem popHeapLoop_short (first newLast fuel : Nat)
    (hr : Refines compare lt v) (h3 : newLast ≤ 3)
    (hf : newLast ≤ fuel) (hc : first + newLast ≤ v.length) :
    (popHeapLoop compare first newLast fuel 0 v = v ∧
      ∀ i, 0 < i → i < newLast → Above lt (entries v) first (first + i)) ∨
    ∃ ch, 0 < ch ∧ ch < newLast ∧
      popHeapLoop compare first newLast fuel 0 v = swap v first (first + ch) ∧
      Above lt (entries v) (first + ch) first ∧
      ∀ i, 0 < i → i < newLast → Above lt (entries v) (first + ch) (first + i) := by
  rcases Nat.lt_or_ge 1 newLast with h1 | h1
  · obtain ⟨f, rfl⟩ : ∃ f, fuel = f + 1 := ⟨fuel - 1, by omega⟩
    have hmax : ∀ i, 0 < i → i < newLast → Above lt (entries v)
        (first + greaterChild compare first newLast v 1) (first + i) := by
      intro i h0 hi
      have hp : parent i = 0 := (parent_eq_iff h0).mpr (by omega)
      simpa using greaterChild_max (f := first) hlt hr h0 hi hp
    have hcl := greaterChild_lt compare first v h1
    have hcases := greaterChild_cases compare first newLast v 1
    rw [popHeapLoop, if_pos (by omega)]
    dsimp only
    simp only [Nat.mul_zero, Nat.zero_add, Nat.add_zero]
    generalize greaterChild compare first newLast v 1 = ch at hmax hcl hcases ⊢
    split
    · rename_i hdn
      exact Or.inr ⟨ch, by omega, hcl, popHeapLoop_stop (by omega),
        above_of_compareLT_true hr hdn, hmax⟩
    · rename_i hdn
      refine Or.inl ⟨rfl, fun i h0 hi => ?_⟩
      exact Above.trans hlt (entries_isSome hc _ (by omega))
        (above_of_compareLT hr (by simpa using hdn)) (hmax i h0 hi)
  · exact Or.inl ⟨popHeapLoop_stop (by omega), fun i h0 hi => by omega⟩

/-- What the sift of `remove` leaves when the removed position is one of the last four: only the
    edge into that position may be wrong. -/
theorem popHeap_tail_upOrder {pos : Nat} (hr : Refines compare lt v)
    (h : HeapOn lt (entries v) v.length) (h0 : 0 < pos) (hpos : pos + 1 < v.length) (htail : v.length ≤ pos + 4) :
    UpOrder lt (entries (popHeap compare pos v.length v)) (v.length - 1) pos := by
  obtain ⟨m, hm⟩ : ∃ m, v.length = m + 1 := ⟨v.length - 1, by omega⟩
  have hpm : parent pos < pos := parent_lt h0
  have hsome : ∀ i, i < v.length → (entries v i).isSome := entries_isSome (le_refl _)
  have hg1 : entries (swap v pos (v.length - 1)) = entries v ∘ Equiv.swap pos m := by
    rw [hm, Nat.add_sub_cancel]; exact entries_swap (by omega) (by omega)
  -- away from `pos`, the vector with the ends exchanged is the old one
  have hold : ∀ i, i < m → i ≠ pos → entries (swap v pos (v.length - 1)) i = entries v i := by
    intro i hi hne
    rw [hg1, comp_apply, Equiv.swap_apply_of_ne_of_ne hne (by omega)]
  have hchild : ∀ i, 0 < i → i < m → parent i = pos → pos < i ∧ i < pos + 3 := by
    intro i hi0 hi hp
    have := parent_lt hi0
    omega
  unfold popHeap
  rcases popHeapLoop_short hlt pos (v.length - pos - 1) (v.length - pos)
      (hr.perm (swap_perm v pos (v.length - 1))) (by omega) (by omega)
      (by simp; omega) with ⟨he, hab⟩ | ⟨ch, hch0, hch, he, hlt', hab⟩
  · rw [he, hm, Nat.add_sub_cancel]
    refine ⟨fun i hi0 hi hne a b ha hb => ?_, fun _ i hi0 hi hp a b ha hb => ?_⟩
    · rw [← Nat.add_sub_cancel (n := m) (m := 1), ← hm] at ha hb
      by_cases hp : parent i = pos
      · have hc := hchild i hi0 hi hp
        rw [hp] at ha
        have := hab (i - pos) (by omega) (by omega)
        rw [Nat.add_sub_of_le (by omega)] at this
        exact this a b ha hb
      · have hpi := parent_lt hi0
        rw [hold _ (by omega) hp] at ha
        rw [hold _ hi hne] at hb
        exact h i hi0 (by omega) a b ha hb
    · have hc := hchild i hi0 hi hp
      rw [← Nat.add_sub_cancel (n := m) (m := 1), ← hm] at ha hb
      rw [hold _ (by omega) (by omega)] at ha hb
      have hi' := h i hi0 (by omega)
      rw [hp] at hi'
      exact Above.trans hlt (hsome pos (by omega)) (h pos h0 (by omega)) hi' a b ha hb
  · -- the last entry `v` went below a greater one, at position `pos + ch`
    have hq : pos + ch < m := by omega
    have hg2 : entries (swap (swap v pos (v.length - 1)) pos (pos + ch)) =
        entries (swap v pos (v.length - 1)) ∘ Equiv.swap pos (pos + ch) :=
      entries_swap (by simp; omega) (by simp; omega)
    have hqold := hold (pos + ch) hq (by omega)
    have hle : ∀ j, Above lt (entries v) j (pos + ch) →
        ∀ a b, entries v j = some a → entries (swap v pos (v.length - 1)) pos = some b →
          lt a b = false := by
      intro j hj a b ha hb
      obtain ⟨d, hd⟩ := Option.isSome_iff_exists.mp (hsome (pos + ch) (by omega))
      exact hlt.le_trans a d b (hj a d ha hd) (hlt' d b (hqold.trans hd) hb)
    have hother : ∀ i, i < m → i ≠ pos → i ≠ pos + ch →
        entries (swap (swap v pos (v.length - 1)) pos (pos + ch)) i = entries v i := by
      intro i hi hne hne'
      rw [hg2, comp_apply, Equiv.swap_apply_of_ne_of_ne hne hne', hold i hi hne]
    have hat : entries (swap (swap v pos (v.length - 1)) pos (pos + ch)) pos =
        entries v (pos + ch) := by
      rw [hg2, comp_apply, Equiv.swap_apply_left, hqold]
    have hatq : entries (swap (swap v pos (v.length - 1)) pos (pos + ch)) (pos + ch) =
        entries (swap v pos (v.length - 1)) pos := by
      rw [hg2, comp_apply, Equiv.swap_apply_right]
    have hself : Above lt (entries v) (pos + ch) (pos + ch) := by
      intro a b ha hb
      rw [ha] at hb; cases hb; exact hlt.irrefl a
    have habc : ∀ i, pos < i → i < m → i < pos + 3 → Above lt (entries v) (pos + ch) i := by
      intro i hpi hi hi3 a b ha hb
      have := hab (i - pos) (by omega) (by omega)
      rw [Nat.add_sub_of_le (by omega)] at this
      exact this a b (hqold.trans ha) ((hold i hi (by omega)).trans hb)
    rw [he, show v.length - 1 = m by omega]
    rw [show v.length - 1 = m by omega] at hother hat hatq hle
    refine ⟨fun i hi0 hi hne a b ha hb => ?_, fun _ i hi0 hi hp a b ha hb => ?_⟩
    · have hpi := parent_lt hi0
      by_cases hp : parent i = pos
      · have hc := hchild i hi0 hi hp
        rw [hp, hat] at ha
        by_cases hiq : i = pos + ch
        · rw [hiq, hatq] at hb
          exact hle _ hself a b ha hb
        · rw [hother i hi hne hiq] at hb
          exact habc i hc.1 hi hc.2 a b ha hb
      · have hpq : parent i ≠ pos + ch := by
          intro e
          have := (parent_eq_iff hi0).mp e
          omega
        rw [hother _ (by omega) hp hpq] at ha
        by_cases hiq : i = pos + ch
        · rw [hiq, hatq] at hb
          exact hle _ (by rw [← hiq]; exact h i hi0 (by omega)) a b ha hb
        · rw [hother i hi hne hiq] at hb
          exact h i hi0 (by omega) a b ha hb
    · have hc := hchild i hi0 hi hp
      rw [hother _ (by omega) (by omega) (by omega)] at ha
      have hi' := h i hi0 (by omega)
      rw [hp] at hi'
      have hpi' := Above.trans hlt (hsome pos (by omega)) (h pos h0 (by omega)) hi'
      by_cases hiq : i = pos + ch
      · rw [hiq, hatq] at hb
        exact hle _ (by rw [← hiq]; exact hpi') a b ha hb
      · rw [hother i hi (by omega) hiq] at hb
        exact hpi' a b ha hb

/-- **`remove` keeps the heap where the removed entry is the root or one of the last four.** -/
theorem removeAt_heap {pos : Nat} (hr : Refines compare lt v)
    (h : HeapOn lt (entries v) v.length) (hpos : pos < v.length) (hsafe : pos = 0 ∨ v.length ≤ pos + 4) :
    HeapOn lt (entries (removeAt compare v pos)) (v.length - 1) := by
  unfold removeAt
  split
  · exact (h.mono (by omega)).congr fun i hi => entries_dropLast _ hi
  · rename_i hne
    rcases Nat.eq_zero_or_pos pos with rfl | h0
    · have hp := pop_heap hlt hr h
      rw [show (pop compare v).length = v.length - 1 by simp [pop]] at hp
      exact hp
    · have hup := popHeap_tail_upOrder hlt hr h h0 (by omega) (by omega)
      have hr' : Refines compare lt (popHeap compare pos v.length v).dropLast := hr.mono fun a ha =>
        (popHeap_perm compare pos v.length v).mem_iff.mp (List.dropLast_subset _ ha)
      refine pushHeapLoop_heap hlt hr' (by simp) (by omega) (by omega)
        ⟨fun i hi0 hi hip a b ha hb => ?_, fun hp0 i hi0 hi hip a b ha hb => ?_⟩
      · have := parent_lt hi0
        rw [entries_dropLast _ (by simp; omega)] at ha hb
        exact hup.except i hi0 hi (by omega) a b ha hb
      · have := parent_lt hi0
        have := parent_lt h0
        have hpi : parent i = pos := by omega
        rw [entries_dropLast _ (by simp; omega)] at hb
        rw [entries_dropLast _ (by simp; unfold parent at *; omega)] at ha
        exact hup.grand h0 i hi0 hi hpi a b ha hb

end Order

end OpenCore.OsclPriorityQueue
