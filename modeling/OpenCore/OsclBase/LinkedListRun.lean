/-
  File:      OpenCore/OsclBase/LinkedListRun.lean
  Subject:   `Oscl_Linked_List` is the list it stands for, over every run of calls: chain, tail,
             count and iteration stay in agreement, and an iteration visits what is left.
-/
import OpenCore.OsclBase.LinkedList

namespace OpenCore.OsclBase

open List Option
open Prod (fst snd)
open Function (update_of_ne update_self)

variable {α : Type}

/-! ## 1. The views of one list -/

open Listing (eraseAt indexOf move position rest step)

/-- The elements `ns`, as all four views of the list have them. -/
structure Stands (s : LinkedList α) (ns : List (Nat × α)) (cursor : Nat) : Prop where
  linked : Linked s.mem s.head ns none
  tail : s.tail = lastAddr ns
  count : s.numElements = ns.length
  le : cursor ≤ ns.length
  iterator : s.iterator = lastAddr (ns.take cursor)

/-- The chain from the head holds the items in order. -/
def Represents (s : LinkedList α) (t : Listing α) : Prop :=
  ∃ ns, Stands s ns t.cursor ∧ t.items = ns.map snd

theorem represents_init : Represents (LinkedList.init : LinkedList α) {} :=
  ⟨[], ⟨rfl, rfl, rfl, Nat.le_refl 0, rfl⟩, rfl⟩

variable {β : Type} {i : Nat}

section Positions

variable {l r : List (Nat × α)} {x : Nat × α} {k : Nat}

theorem eraseIdx_middle (l r : List β) (x : β) :
    (l ++ x :: r).eraseIdx l.length = l ++ r := by
  rw [eraseIdx_append_of_length_le (Nat.le_refl _), Nat.sub_self, eraseIdx_cons_zero]

theorem insertIdx_middle (l r : List β) (x : β) :
    (l ++ r).insertIdx l.length x = l ++ x :: r := by
  induction l with
  | nil => exact insertIdx_zero
  | cons y l ih => rw [cons_append, length_cons, insertIdx_succ_cons, ih]; rfl

theorem lastAddr_cons_ne {x : Nat × α} (h : r ≠ []) : lastAddr (x :: r) = lastAddr r := by
  obtain ⟨y, r, rfl⟩ := exists_cons_of_ne_nil h
  exact lastAddr_append_cons [x] r y

/-- The last element of a list with one element taken out. -/
theorem lastAddr_unlink (hd : ((l ++ x :: r).map fst).Nodup) :
    (if lastAddr (l ++ x :: r) = some x.1 then lastAddr l else lastAddr (l ++ x :: r)) =
      lastAddr (l ++ r) := by
  rw [lastAddr_append_cons]
  cases r with
  | nil =>
    have hlast : lastAddr [x] = some x.1 := lastAddr_concat [] x
    rw [if_pos hlast, append_nil]
  | cons y r =>
    rw [lastAddr_cons_ne (cons_ne_nil y r), lastAddr_append_cons, if_neg]
    intro e
    rw [map_append, map_cons] at hd
    exact (nodup_cons.mp (nodup_append.mp hd).2.1).1 (lastAddr_mem e)

/-- The place of an iteration when an element comes out. -/
theorem lastAddr_take_unlink (hd : ((l ++ x :: r).map fst).Nodup) :
    (if lastAddr ((l ++ x :: r).take k) = some x.1 then lastAddr l
      else lastAddr ((l ++ x :: r).take k)) =
      lastAddr ((l ++ r).take (if l.length < k then k - 1 else k)) := by
  rcases Nat.lt_or_ge l.length k with h | h
  · obtain ⟨j, rfl⟩ : ∃ j, k = l.length + 1 + j := ⟨k - l.length - 1, by omega⟩
    have htake : (l ++ x :: r).take (l.length + 1 + j) = l ++ x :: r.take j := by
      rw [Nat.add_assoc, take_length_add_append, Nat.add_comm 1 j, take_succ_cons]
    have htake' : (l ++ r).take (l.length + 1 + j - 1) = l ++ r.take j := by
      rw [show l.length + 1 + j - 1 = l.length + j by omega, take_length_add_append]
    rw [if_pos h, htake, htake']
    refine lastAddr_unlink (hd.sublist ?_)
    exact ((take_sublist j r).cons_cons x |>.append_left l).map fst
  · rw [if_neg (Nat.not_lt.mpr h), take_append_of_le_length h,
      take_append_of_le_length h, if_neg]
    intro e
    rw [map_append, map_cons] at hd
    have hmem := lastAddr_mem e
    rw [map_take] at hmem
    exact (nodup_append.mp hd).2.2 x.1 (mem_of_mem_take hmem) x.1
      mem_cons_self rfl

/-- The place of an iteration when an element comes in. -/
theorem lastAddr_take_insert (h : k ≤ (l ++ r).length) :
    lastAddr ((l ++ x :: r).take (if l.length < k then k + 1 else k)) =
      lastAddr ((l ++ r).take k) := by
  rcases Nat.lt_or_ge l.length k with hk | hk
  · obtain ⟨j, rfl⟩ : ∃ j, k = l.length + 1 + j := ⟨k - l.length - 1, by omega⟩
    rw [length_append] at h
    obtain ⟨y, r, rfl⟩ := exists_cons_of_ne_nil (l := r) (by rintro rfl; simp at h; omega)
    rw [if_pos hk, show l.length + 1 + j + 1 = l.length + (j + 1 + 1) by omega,
      show l.length + 1 + j = l.length + (j + 1) by omega, take_length_add_append,
      take_length_add_append, take_succ_cons, take_succ_cons, lastAddr_append_cons,
      lastAddr_append_cons]
    exact lastAddr_cons_ne (cons_ne_nil _ _)
  · rw [if_neg (Nat.not_lt.mpr hk), take_append_of_le_length hk,
      take_append_of_le_length hk]

theorem cursor_insert_le {j m : Nat} (h : j ≤ m) : (if i < j then j + 1 else j) ≤ m + 1 := by
  split <;> omega

end Positions

/-! ## 2. The loops -/

section Loops

variable {mem : Nat → Option (LinkedListElement α)} {p q prev : Option Nat}
  {xs : List (Nat × α)}

theorem follow_linked (h : Linked mem p xs q) : follow mem xs.length p = some q := by
  induction xs generalizing p with
  | nil => rw [linked_nil] at h; rw [h]; rfl
  | cons x xs ih =>
    obtain ⟨rfl, n, hn, h⟩ := h
    rw [length_cons, follow, bind_some, hn, bind_some, ih h]

theorem seek_linked (h : Linked mem p xs q) :
    seek mem xs.length prev p = some ((lastAddr xs).or prev, q, 0) := by
  induction xs generalizing p prev with
  | nil => rw [linked_nil] at h; rw [h]; rfl
  | cons x xs ih =>
    obtain ⟨rfl, n, hn, h⟩ := h
    rw [length_cons, seek, hn, bind_some, ih h]
    rcases lastAddr_cases xs with ⟨rfl, he⟩ | ⟨l, y, rfl, he⟩
    · rw [he]
      rfl
    · rw [lastAddr_cons_ne (append_ne_nil_of_right_ne_nil l (cons_ne_nil y [])), he]
      rfl

theorem countFrom_linked (h : Linked mem p xs none) (ii : Int) :
    countFrom mem xs.length p ii = some (ii + xs.length) := by
  induction xs generalizing p ii with
  | nil => rw [linked_nil] at h; rw [h]; simp [countFrom]
  | cons x xs ih =>
    obtain ⟨rfl, n, hn, h⟩ := h
    rw [length_cons, countFrom, hn, bind_some, ih h, Nat.cast_add, Nat.cast_one,
      Int.add_right_comm, Int.add_assoc]

/-- **The search**: it ends at the first element that compares equal, with the one before it, or
    at the end of the list. -/
theorem findData_linked (eq : α → α → Bool) (data : α) (prev : Option Nat) (h : Linked mem p xs none) (index : Nat) :
    findData eq mem data xs.length prev p index =
        some none ∧ (∀ x ∈ xs, eq x.2 data = false) ∨
      ∃ l x r, xs = l ++ x :: r ∧ (∀ y ∈ l, eq y.2 data = false) ∧ eq x.2 data = true ∧
        findData eq mem data xs.length prev p index =
          some (some ((lastAddr l).or prev, x.1, index + l.length)) := by
  induction xs generalizing p prev index with
  | nil =>
    rw [linked_nil] at h
    rw [h]
    exact .inl ⟨rfl, fun _ hx => absurd hx not_mem_nil⟩
  | cons x xs ih =>
    obtain ⟨rfl, n, hn, h⟩ := h
    rw [length_cons, findData, hn, bind_some]
    by_cases he : eq x.2 data = true
    · rw [if_pos he]
      exact .inr ⟨[], x, xs, rfl, fun _ hy => absurd hy not_mem_nil, he, rfl⟩
    · rw [if_neg he]
      rcases ih (some x.1) h (index + 1) with ⟨hf, hall⟩ | ⟨l, y, r, rfl, hl, hy, hf⟩
      · exact .inl ⟨hf, forall_mem_cons.mpr ⟨Bool.eq_false_of_not_eq_true he, hall⟩⟩
      · refine .inr ⟨x :: l, y, r, rfl,
          forall_mem_cons.mpr ⟨Bool.eq_false_of_not_eq_true he, hl⟩, hy, ?_⟩
        rw [hf, length_cons, Nat.add_right_comm, Nat.add_assoc]
        rcases lastAddr_cases l with ⟨rfl, e⟩ | ⟨l, z, rfl, e⟩
        · rw [e]
          rfl
        · rw [lastAddr_cons_ne (append_ne_nil_of_right_ne_nil l (cons_ne_nil z [])), e]
          rfl

end Loops

/-! ## 3. The operations -/

variable {a ptr : Nat} {v : α}

section Operations

variable {s s' : LinkedList α} {ns l r : List (Nat × α)} {x : Nat × α} {k : Nat}

theorem Stands.fresh (h : Stands s ns k) (ha : s.mem a = none) :
    a ∉ ns.map fst := by
  intro hm
  have := h.linked.mem_isSome hm
  rw [ha] at this
  cases this

theorem Stands.nodup (h : Stands s ns k) : (ns.map fst).Nodup := h.linked.nodup

theorem Stands.length_toNat (h : Stands s ns k) : s.numElements.toNat = ns.length := by
  rw [h.count, Int.toNat_natCast]

theorem setNext_eq {c : LinkedListElement α} (h : s.mem a = some c) (q : Option Nat) :
    setNext s a q = some { s with mem := Function.update s.mem a (some ⟨q, c.data⟩) } := by
  rw [setNext, h, map_some]

theorem allocate_eq (h : s.mem a = none) (v : α) :
    allocate s a v = some { s with mem := Function.update s.mem a (some ⟨none, v⟩) } := by
  rw [allocate, h]
  rfl

/-- `add_element` puts the element behind the last one. -/
theorem addElement_stands (h : Stands s ns k) (hptr : s.mem ptr = none)
    (hn : s.numElements < 2147483647) :
    ∃ s', addElement s v ptr = some (s', 1) ∧ Stands s' (ns ++ [(ptr, v)]) k := by
  have htake : lastAddr ((ns ++ [(ptr, v)]).take k) = lastAddr (ns.take k) := by
    rw [take_append_of_le_length h.le]
  have hle : k ≤ (ns ++ [(ptr, v)]).length := by
    rw [length_append]
    exact Nat.le_add_right_of_le h.le
  have hcount : s.numElements + 1 = ((ns ++ [(ptr, v)]).length : Int) := by
    rw [h.count, length_append, length_singleton, Nat.cast_add, Nat.cast_one]
  have hit := h.iterator
  have htail := h.tail
  unfold addElement linkLast
  simp only [allocate_eq hptr, bind_eq_bind, bind_some]
  rcases lastAddr_cases ns with ⟨rfl, hlast⟩ | ⟨l, y, rfl, hlast⟩
  · -- the list was empty
    rw [htail, hlast]
    dsimp only
    rw [bind_some, countUp, if_pos hn]
    refine ⟨_, rfl, ?_, ?_, hcount, hle, hit.trans htake.symm⟩
    · exact ⟨rfl, none, update_self .., rfl⟩
    · rfl
  · rw [htail, hlast]
    dsimp only
    have hy : y.1 ≠ ptr := by
      rintro rfl
      exact h.fresh hptr (mem_map_of_mem (mem_append_right l (mem_singleton_self y)))
    have hcell := (linked_concat.mp h.linked).2
    rw [setNext_eq (c := ⟨none, y.2⟩) ((update_of_ne hy _ _).trans hcell),
      map_some, bind_some, countUp, if_pos hn, bind_some]
    refine ⟨_, rfl, linked_concat.mpr ⟨?_, ?_⟩, ?_, hcount, hle, hit.trans htake.symm⟩
    · refine (h.linked.update _ (h.fresh hptr)).set_last ?_
      have hd := h.nodup
      rw [map_append, map_singleton] at hd
      exact fun hm => (nodup_append.mp hd).2.2 y.1 hm y.1 (mem_singleton_self _) rfl
    · exact (update_of_ne (Ne.symm hy) _ _).trans (update_self ..)
    · exact (lastAddr_concat (l ++ [y]) (ptr, v)).symm

theorem addToFront_stands (h : Stands s ns k) (hptr : s.mem ptr = none)
    (hn : s.numElements < 2147483647) :
    ∃ s', addToFront s v ptr = some (s', 1) ∧
      Stands s' ((ptr, v) :: ns) (if 0 < k then k + 1 else k) := by
  have htake := lastAddr_take_insert (l := []) (x := (ptr, v)) h.le
  have hle : (if 0 < k then k + 1 else k) ≤ ((ptr, v) :: ns).length := cursor_insert_le h.le
  have hcount : s.numElements + 1 = (((ptr, v) :: ns).length : Int) := by
    rw [h.count, length_cons, Nat.cast_add, Nat.cast_one]
  have hit := h.iterator.trans htake.symm
  have hkeep : Linked (Function.update s.mem ptr (some ⟨s.head, v⟩)) s.head ns none :=
    h.linked.update _ (h.fresh hptr)
  unfold addToFront linkFirst
  simp only [allocate_eq hptr, bind_eq_bind, bind_some]
  cases hhead : s.head with
  | none =>
    have hnil := h.linked.eq_none_iff.mp hhead
    subst hnil
    dsimp only
    rw [bind_some, countUp, if_pos hn]
    exact ⟨_, rfl, ⟨rfl, none, update_self .., rfl⟩, rfl, hcount, hle, hit⟩
  | some head =>
    dsimp only
    rw [setNext_eq (update_self ..), map_some, bind_some, countUp, if_pos hn,
      bind_some]
    have hne : ns ≠ [] := by
      intro e
      rw [h.linked.eq_none_iff.mpr e] at hhead
      cases hhead
    rw [hhead] at hkeep
    refine ⟨_, rfl, ⟨rfl, some head, update_self .., ?_⟩, ?_, hcount, hle, hit⟩
    · rw [Function.update_idem]
      exact hkeep
    · exact h.tail.trans (lastAddr_cons_ne hne).symm

/-- `insert_element` between two elements. -/
theorem insertElement_stands (h : Stands s (l ++ r) k)
    (hptr : s.mem ptr = none) (hn : s.numElements < 2147483647) (hl : l ≠ []) (hr : r ≠ []) :
    ∃ s', insertElement s v l.length ptr = some (s', 1) ∧
      Stands s' (l ++ (ptr, v) :: r) (if l.length < k then k + 1 else k) := by
  have htake := lastAddr_take_insert (x := (ptr, v)) h.le
  have hle : (if l.length < k then k + 1 else k) ≤ (l ++ (ptr, v) :: r).length := by
    have := h.le
    rw [length_append] at this
    rw [length_append, length_cons]
    split <;> omega
  have hcount : s.numElements + 1 = ((l ++ (ptr, v) :: r).length : Int) := by
    rw [h.count, length_append, length_append, length_cons]
    push_cast
    ring
  have hrlen : 0 < r.length := length_pos_of_ne_nil hr
  obtain ⟨l', y, rfl⟩ : ∃ l' y, l = l' ++ [y] := by
    rcases lastAddr_cases l with ⟨e, -⟩ | ⟨l', y, e, -⟩
    · exact absurd e hl
    · exact ⟨l', y, e⟩
  have hlen : (l' ++ [y]).length = l'.length + 1 := by
    rw [length_append, length_singleton]
  obtain ⟨m, hfront, hback⟩ := linked_append.mp h.linked
  obtain ⟨hpre, hcell⟩ := linked_concat.mp hfront
  have hd := h.nodup
  rw [map_append, map_append, map_singleton] at hd
  have hptr' := h.fresh hptr
  have hy : y.1 ≠ ptr := by
    rintro rfl
    exact hptr' (by simp)
  unfold insertElement
  rw [if_neg (by rw [h.count, length_append]; push_cast; omega),
    if_neg (by rw [hlen]; omega), if_neg (by omega), hlen,
    show ((l'.length + 1 : Nat) - 1 : Int).toNat = l'.length by omega]
  simp only [follow_linked hpre, bind_eq_bind, bind_some, hcell, allocate_eq hptr]
  rw [setNext_eq (c := ⟨m, y.2⟩) ((update_of_ne hy _ _).trans hcell), bind_some,
    setNext_eq (c := ⟨none, v⟩)
      ((update_of_ne (Ne.symm hy) _ _).trans (update_self ..)),
    bind_some, countUp, if_pos hn, bind_some]
  refine ⟨_, rfl, linked_middle.mpr ⟨?_, m, update_self .., ?_⟩, ?_, hcount,
    by rwa [hlen] at hle, ?_⟩
  · refine Linked.update (linked_concat.mpr ⟨?_, update_self ..⟩) _ ?_
    · refine (hpre.update _ fun hm => hptr' ?_).update _ fun hm => ?_
      · rw [map_append, map_append]
        exact mem_append_left _ (mem_append_left _ hm)
      · exact (nodup_append.mp (nodup_append.mp hd).1).2.2 y.1 hm y.1
          (mem_singleton_self _) rfl
    · intro hm
      exact hptr' (by rw [map_append]; exact mem_append_left _ hm)
  · refine ((hback.update _ fun hm => hptr' ?_).update _ fun hm => ?_).update _ fun hm => hptr' ?_
    · rw [map_append]
      exact mem_append_right _ hm
    · exact (nodup_append.mp hd).2.2 y.1
        (mem_append_right _ (mem_singleton_self _)) y.1 hm rfl
    · rw [map_append]
      exact mem_append_right _ hm
  · obtain ⟨z, r, rfl⟩ := exists_cons_of_ne_nil hr
    refine h.tail.trans ?_
    rw [lastAddr_append_cons, lastAddr_append_cons, lastAddr_cons_ne hr]
  · rw [hlen] at htake
    exact h.iterator.trans htake.symm

section

variable (h : Stands s (l ++ x :: r) k)
include h

/-- **An element unlinked**: the chain leads past it, and the iteration keeps its place. -/
theorem unlink_stands :
    ∃ s', unlink s (lastAddr l) x.1 = some s' ∧
      Linked s'.mem s'.head (l ++ r) none ∧ (∃ n, s'.mem x.1 = some ⟨n, x.2⟩) ∧
      s'.iterator = lastAddr ((l ++ r).take (if l.length < k then k - 1 else k)) ∧
      s'.tail = s.tail ∧ s'.numElements = s.numElements ∧ (l ≠ [] → s'.head = s.head) := by
  have hd := h.nodup
  have hit := lastAddr_take_unlink (k := k) hd
  rw [← h.iterator] at hit
  obtain ⟨hpre, n, hcell, hpost⟩ := linked_middle.mp h.linked
  rcases lastAddr_cases l with ⟨rfl, hlast⟩ | ⟨l', y, rfl, hlast⟩
  · rw [hlast] at hit ⊢
    rw [unlink, unlinkHead, hcell, map_some]
    exact ⟨_, rfl, hpost, ⟨n, hcell⟩, hit, rfl, rfl, fun hl => absurd rfl hl⟩
  · rw [hlast] at hit ⊢
    obtain ⟨hpre', hy⟩ := linked_concat.mp hpre
    rw [map_append, map_append, map_singleton, map_cons] at hd
    have hyx : x.1 ≠ y.1 := fun e => (nodup_append.mp hd).2.2 y.1
      (mem_append_right _ (mem_singleton_self _)) x.1 mem_cons_self e.symm
    rw [unlink, unlinkAfter]
    simp only [hcell, bind_eq_bind, bind_some, setNext_eq hy]
    refine ⟨_, rfl, linked_append.mpr ⟨n, hpre.set_last ?_, hpost.update _ ?_⟩,
      ⟨n, (update_of_ne hyx _ _).trans hcell⟩, hit, rfl, rfl, fun _ => rfl⟩
    · exact fun hm => (nodup_append.mp (nodup_append.mp hd).1).2.2 y.1 hm y.1
        (mem_singleton_self _) rfl
    · exact fun hm => (nodup_append.mp hd).2.2 y.1
        (mem_append_right _ (mem_singleton_self _)) y.1 (mem_cons_of_mem _ hm) rfl

theorem Stands.not_mem_unlinked : x.1 ∉ (l ++ r).map fst := by
  have hd := h.nodup
  rw [map_append, map_cons] at hd
  rw [map_append]
  intro hm
  rcases mem_append.mp hm with hm | hm
  · exact (nodup_append.mp hd).2.2 x.1 hm x.1 mem_cons_self rfl
  · exact (nodup_cons.mp (nodup_append.mp hd).2.1).1 hm

theorem Stands.le_unlinked :
    (if l.length < k then k - 1 else k) ≤ (l ++ r).length := by
  have := h.le
  rw [length_append, length_cons] at this
  rw [length_append]
  split <;> omega

theorem Stands.count_unlinked :
    s.numElements - 1 = ((l ++ r).length : Int) := by
  rw [h.count, length_append, length_append, length_cons]
  push_cast
  ring

/-- Both `remove_element` take out the element they found. -/
theorem removeFound_stands :
    ∃ s', removeFound s (lastAddr l) x.1 = some (s', 1) ∧
      Stands s' (l ++ r) (if l.length < k then k - 1 else k) := by
  obtain ⟨s₁, hs₁, hlinked, -, hit, htail, hcount, -⟩ := unlink_stands h
  unfold removeFound
  simp only [hs₁, bind_eq_bind, bind_some]
  refine ⟨_, rfl, hlinked.update _ h.not_mem_unlinked, ?_, ?_, h.le_unlinked, hit⟩
  · dsimp only
    rw [htail, h.tail]
    exact lastAddr_unlink h.nodup
  · exact (congrArg (· - 1) hcount).trans h.count_unlinked

theorem Stands.head_ne (hl : l ≠ []) : s.head ≠ some x.1 := by
  obtain ⟨y, l, rfl⟩ := exists_cons_of_ne_nil hl
  have hd := h.nodup
  have hp := h.linked.1
  intro e
  rw [e] at hp
  rw [cons_append, map_cons, map_append, map_cons] at hd
  refine (nodup_cons.mp hd).1 ?_
  rw [← some.inj hp]
  exact mem_append_right _ mem_cons_self

theorem Stands.count_moved :
    s.numElements = ((l ++ r).length + 1 : Nat) := by
  have := h.count_unlinked
  push_cast
  omega

/-- `move_to_end` of an element that is not the last one. -/
theorem moveToEnd_stands {eq : α → α → Bool} {data : α}
    (hf : find eq s data = some (some (lastAddr l, x.1, i))) (hr : r ≠ []) :
    ∃ s', moveToEnd eq s data = some (s', 1) ∧
      Stands s' (l ++ r ++ [x]) (if l.length < k then k - 1 else k) := by
  obtain ⟨s₁, hs₁, hlinked, ⟨n, hcell⟩, hit, htail, hcount, hhead⟩ := unlink_stands h
  have hout := h.not_mem_unlinked
  have hd := hlinked.nodup
  obtain ⟨r, z, rfl⟩ : ∃ r' z, r = r' ++ [z] := by
    rcases lastAddr_cases r with ⟨e, -⟩ | ⟨r', z, e, -⟩
    · exact absurd e hr
    · exact ⟨r', z, e⟩
  have hz : s.tail = some z.1 := by
    rw [h.tail, lastAddr_append_cons, lastAddr_cons_ne hr, lastAddr_concat]
  have hzx : z.1 ≠ x.1 := by
    intro e
    refine hout ?_
    rw [← e]
    exact mem_map_of_mem (by simp)
  have hpos : unlinkInner s (lastAddr l) x.1 = some (if l = [] then s else s₁) ∧
      unlinkAtHead (if l = [] then s else s₁) x.1 = some s₁ := by
    unfold unlinkAtHead
    rcases lastAddr_cases l with ⟨rfl, e⟩ | ⟨l', y, rfl, e⟩
    · rw [e] at hs₁
      rw [e, if_pos rfl, if_pos h.linked.1]
      exact ⟨rfl, hs₁⟩
    · have hne : l' ++ [y] ≠ [] := append_ne_nil_of_right_ne_nil l' (cons_ne_nil y [])
      rw [e] at hs₁
      rw [e, if_neg hne, if_neg (by rw [hhead hne]; exact h.head_ne hne)]
      exact ⟨hs₁, rfl⟩
  rw [← append_assoc] at hlinked hd hout
  obtain ⟨hpre, hzcell⟩ := linked_concat.mp hlinked
  unfold moveToEnd
  simp only [hf, bind_eq_bind, bind_some, hz, some.injEq, if_neg hzx, hpos.1,
    hpos.2, htail, setNext_eq hzcell]
  rw [setNext_eq (c := ⟨n, x.2⟩) ((update_of_ne (Ne.symm hzx) _ _).trans hcell),
    bind_some]
  refine ⟨_, rfl, linked_concat.mpr ⟨?_, update_self ..⟩, ?_, ?_, ?_, ?_⟩
  · rw [← append_assoc]
    refine (hlinked.set_last ?_).update _ hout
    rw [map_append, map_singleton] at hd
    exact fun hm => (nodup_append.mp hd).2.2 z.1 hm z.1 (mem_singleton_self _) rfl
  · exact (lastAddr_concat _ _).symm
  · refine (hcount.trans h.count_moved).trans ?_
    simp only [length_append, length_singleton]
  · exact le_trans h.le_unlinked (by simp only [length_append, length_singleton]; omega)
  · rw [take_append_of_le_length h.le_unlinked]
    exact hit

/-- `move_to_front` of an element that is not the first one. -/
theorem moveToFront_stands {eq : α → α → Bool} {data : α}
    (hf : find eq s data = some (some (lastAddr l, x.1, i))) (hl : l ≠ []) :
    ∃ s', moveToFront eq s data = some (s', 1) ∧
      Stands s' (x :: (l ++ r)) (if 0 < (if l.length < k then k - 1 else k)
        then (if l.length < k then k - 1 else k) + 1 else if l.length < k then k - 1 else k) := by
  obtain ⟨s₁, hs₁, hlinked, ⟨n, hcell⟩, hit, htail, hcount, hhead⟩ := unlink_stands h
  have hout := h.not_mem_unlinked
  have hle := h.le_unlinked
  have hinner : unlinkInner s (lastAddr l) x.1 = some s₁ := by
    rcases lastAddr_cases l with ⟨e, -⟩ | ⟨l', y, -, e⟩
    · exact absurd e hl
    · rw [e] at hs₁ ⊢
      exact hs₁
  have htail' := lastAddr_unlink h.nodup
  rw [← h.tail, ← htail] at htail'
  have hne : l ++ r ≠ [] := append_ne_nil_of_left_ne_nil hl r
  unfold moveToFront
  simp only [hf, bind_eq_bind, bind_some, if_neg (h.head_ne hl), hinner]
  rw [setNext_eq (s := { s₁ with tail := if s₁.tail = some x.1 then lastAddr l else s₁.tail })
    (c := ⟨n, x.2⟩) hcell, bind_some]
  refine ⟨_, rfl, ⟨rfl, s₁.head, update_self .., hlinked.update _ hout⟩, ?_, ?_, ?_, ?_⟩
  · rw [lastAddr_cons_ne hne]
    exact htail'
  · exact (hcount.trans h.count_moved).trans (by rw [length_cons])
  · rw [length_cons]
    exact cursor_insert_le hle
  · exact hit.trans (lastAddr_take_insert (l := []) (x := x) hle).symm

end

theorem getNext_stands (h : Stands s (l ++ x :: r) l.length) :
    ∃ s', getNext s = some (s', some x.2) ∧ Stands s' (l ++ x :: r) (l.length + 1) := by
  have hit := h.iterator
  rw [take_left] at hit
  obtain ⟨hpre, n, hcell, -⟩ := linked_middle.mp h.linked
  have hd := h.nodup
  rw [map_append] at hd
  have hne : s.iterator ≠ s.tail := by
    rw [hit, h.tail, lastAddr_append_cons]
    intro e
    rcases lastAddr_cases (x :: r) with ⟨e', -⟩ | ⟨r', z, e', hz⟩
    · cases e'
    · rw [hz] at e
      refine (nodup_append.mp hd).2.2 z.1 (lastAddr_mem e) z.1 ?_ rfl
      rw [e']
      exact mem_map_of_mem (by simp)
  have hnew : Stands { s with iterator := some x.1 } (l ++ x :: r) (l.length + 1) := by
    refine ⟨h.linked, h.tail, h.count, ?_, ?_⟩
    · rw [length_append, length_cons]
      omega
    · rw [take_length_add_append, take_succ_cons, take_zero, lastAddr_concat]
  unfold getNext
  rw [if_neg hne]
  rcases lastAddr_cases l with ⟨rfl, e⟩ | ⟨l', y, rfl, e⟩
  · refine ⟨_, ?_, hnew⟩
    rw [hit, e]
    dsimp only
    rw [linked_nil.mp hpre]
    dsimp only
    rw [hcell]
    rfl
  · rw [hit, e]
    dsimp only
    rw [(linked_concat.mp hpre).2, bind_some, bind_some, hcell]
    exact ⟨_, rfl, hnew⟩

/-- `destroy` comes to the end of the list. -/
theorem destroyLoop_linked (h : Linked s.mem s.head ns none) (hn : s.numElements = ns.length) :
    ∃ s', destroyLoop ns.length s = some s' ∧ s'.numElements = 0 := by
  induction ns generalizing s with
  | nil =>
    have h0 : s.numElements = 0 := hn
    unfold destroyLoop
    rw [if_pos h0]
    exact ⟨s, rfl, h0⟩
  | cons x ns ih =>
    have hd := h.nodup
    obtain ⟨hp, n, hcell, h⟩ := h
    rw [length_cons] at hn ⊢
    unfold destroyLoop
    rw [if_neg (by omega), hp]
    dsimp only
    rw [hcell, bind_some]
    exact ih (h.update _ (nodup_cons.mp hd).1) (by push_cast at hn; dsimp only; omega)

/-- The search from the head, and the position it stands for. -/
theorem find_stands (eq : α → α → Bool) (data : α) (h : Stands s ns k) :
    find eq s data = some none ∧ (ns.map snd).findIdx? (fun d => eq d data) = none ∨
      ∃ l x r, ns = l ++ x :: r ∧
        (ns.map snd).findIdx? (fun d => eq d data) = some l.length ∧
        find eq s data = some (some (lastAddr l, x.1, l.length)) := by
  unfold find
  rw [h.length_toNat]
  rcases findData_linked eq data none h.linked 0 with
    ⟨hf, hall⟩ | ⟨l, x, r, rfl, hl, hx, hf⟩
  · refine .inl ⟨hf, findIdx?_eq_none_iff.mpr fun d hd => ?_⟩
    obtain ⟨y, hy, rfl⟩ := mem_map.mp hd
    exact hall y hy
  · refine .inr ⟨l, x, r, rfl, ?_, ?_⟩
    · have hnone : (l.map snd).findIdx? (fun d => eq d data) = none := by
        refine findIdx?_eq_none_iff.mpr fun d hd => ?_
        obtain ⟨y, hy, rfl⟩ := mem_map.mp hd
        exact hl y hy
      rw [map_append, findIdx?_append, hnone, none_or, map_cons,
        findIdx?_cons, if_pos hx, map_some, length_map, Nat.zero_add]
    · rw [hf, or_none, Nat.zero_add]

end Operations

/-! ## 4. One call -/

variable {op : ListOp α}

section Calls

variable {s s' : LinkedList α} {t : Listing α} {ns l r : List (Nat × α)} {x : Nat × α} {k : Nat}

theorem exists_split (ns : List β) (i : Nat) (hi : i < ns.length) :
    ∃ l x r, ns = l ++ x :: r ∧ l.length = i :=
  ⟨ns.take i, ns[i], ns.drop (i + 1),
    by rw [← drop_eq_getElem_cons hi, take_append_drop],
    by rw [length_take, Nat.min_eq_left (Nat.le_of_lt hi)]⟩

theorem map_eraseIdx_middle (l r : List (Nat × α)) (x : Nat × α) :
    ((l ++ x :: r).map snd).eraseIdx l.length = (l ++ r).map snd := by
  have h := eraseIdx_middle (l.map snd) (r.map snd) x.2
  rwa [length_map, ← map_cons, ← map_append, ← map_append] at h

theorem map_insertIdx_middle (l r : List (Nat × α)) (x : Nat × α) :
    ((l ++ r).map snd).insertIdx l.length x.2 = (l ++ x :: r).map snd := by
  have h := insertIdx_middle (l.map snd) (r.map snd) x.2
  rwa [length_map, ← map_cons, ← map_append, ← map_append] at h

/-- The list with the element at the cut taken out. -/
theorem represents_eraseAt (h : Stands s' (l ++ r) (if l.length < t.cursor then t.cursor - 1
      else t.cursor)) (ht : t.items = (l ++ x :: r).map snd) :
    Represents s' (t.eraseAt l.length) :=
  ⟨l ++ r, h, by rw [eraseAt, ht]; exact map_eraseIdx_middle l r x⟩

/-- The list with an element put in at the cut. -/
theorem represents_insertAt (h : Stands s' (l ++ x :: r) (if l.length < t.cursor then t.cursor + 1
      else t.cursor)) (ht : t.items = (l ++ r).map snd) :
    Represents s' (t.insertAt l.length x.2) :=
  ⟨l ++ x :: r, h, by rw [Listing.insertAt, ht]; exact map_insertIdx_middle l r x⟩

/-- The allocator hands out an address that is not in use, and the count has room. -/
def canAllocate (s : LinkedList α) : ListOp α → Prop
  | .addElement _ ptr | .addToFront _ ptr => s.mem ptr = none ∧ s.numElements < 2147483647
  | .insertElement _ index ptr =>
    index < 0 ∨ s.mem ptr = none ∧ s.numElements < 2147483647
  | _ => True

theorem addElement_represents (h : Represents s t) (hptr : s.mem ptr = none)
    (hn : s.numElements < 2147483647) :
    ∃ s', addElement s v ptr = some (s', 1) ∧ Represents s' (t.insertAt t.items.length v) := by
  obtain ⟨ns, h, ht⟩ := h
  obtain ⟨s', hs', h'⟩ := addElement_stands h hptr hn (v := v)
  have hlen : t.items.length = ns.length := by rw [ht, length_map]
  refine ⟨s', hs', ?_⟩
  rw [hlen]
  refine represents_insertAt (x := (ptr, v)) (r := []) ?_ (by rwa [append_nil])
  rwa [if_neg (Nat.not_lt.mpr h.le)]

theorem addToFront_represents (h : Represents s t) (hptr : s.mem ptr = none)
    (hn : s.numElements < 2147483647) :
    ∃ s', addToFront s v ptr = some (s', 1) ∧ Represents s' (t.insertAt 0 v) := by
  obtain ⟨ns, h, ht⟩ := h
  obtain ⟨s', hs', h'⟩ := addToFront_stands h hptr hn (v := v)
  exact ⟨s', hs', represents_insertAt (l := []) (x := (ptr, v)) h' ht⟩

theorem insertElement_represents (h : Represents s t) {index : Int}
    (h0 : 0 ≤ index) (hptr : s.mem ptr = none) (hn : s.numElements < 2147483647) :
    ∃ s', insertElement s v index ptr = some (s', 1) ∧
      Represents s' (t.insertAt (min index.toNat t.items.length) v) := by
  have hstands := h
  obtain ⟨ns, hns, ht⟩ := hstands
  have hlen : t.items.length = ns.length := by rw [ht, length_map]
  rcases lt_or_ge index s.numElements with hi | hi
  · rw [hns.count] at hi
    rcases eq_or_lt_of_le h0 with rfl | hpos
    · -- at the front
      obtain ⟨s', hs', h'⟩ := addToFront_represents h hptr hn (v := v)
      refine ⟨s', ?_, by rwa [Int.toNat_zero, Nat.zero_min]⟩
      rwa [insertElement, if_neg (by rw [hns.count]; omega), if_pos rfl]
    · obtain ⟨l, x, r, rfl, hl⟩ := exists_split ns index.toNat (by omega)
      have hindex : index = l.length := by omega
      obtain ⟨s', hs', h'⟩ := insertElement_stands hns hptr hn (v := v)
        (by rintro rfl; simp at hindex; omega) (cons_ne_nil x r)
      refine ⟨s', by rwa [hindex], ?_⟩
      rw [Nat.min_eq_left (by omega), ← hl]
      exact represents_insertAt (x := (ptr, v)) h' ht
  · obtain ⟨s', hs', h'⟩ := addElement_represents h hptr hn (v := v)
    refine ⟨s', ?_, ?_⟩
    · rwa [insertElement, if_pos hi]
    · rw [hns.count] at hi
      rwa [Nat.min_eq_right (by omega)]

theorem getFirst_represents (h : Represents s t) :
    ∃ s', getFirst s = some (s', t.items.head?) ∧
      Represents s' { t with cursor := min 1 t.items.length } := by
  obtain ⟨ns, h, ht⟩ := h
  have hp := h.linked
  unfold getFirst
  cases ns with
  | nil =>
    have hc : t.cursor = 0 := Nat.le_zero.mp h.le
    rw [linked_nil.mp hp, ht]
    exact ⟨s, rfl, [], by rwa [hc] at h, rfl⟩
  | cons x r =>
    obtain ⟨hp, n, hcell, -⟩ := hp
    refine ⟨{ s with iterator := some x.1 }, ?_, x :: r, ?_, ht⟩
    · rw [hp, ht]
      dsimp only
      rw [hcell]
      rfl
    · rw [ht, map_cons, length_cons, Nat.min_eq_left (Nat.succ_le_succ (Nat.zero_le _))]
      exact ⟨h.linked, h.tail, h.count, Nat.succ_le_succ (Nat.zero_le _), rfl⟩

theorem getNext_represents (h : Represents s t) :
    ∃ s', getNext s = some (s', t.rest.head?) ∧ Represents s' t.next := by
  obtain ⟨ns, h, ht⟩ := h
  have hlen : t.items.length = ns.length := by rw [ht, length_map]
  rcases Nat.lt_or_ge t.cursor ns.length with hc | hc
  · obtain ⟨l, x, r, rfl, hl⟩ := exists_split ns t.cursor hc
    rw [← hl] at h
    obtain ⟨s', hs', h'⟩ := getNext_stands h
    refine ⟨s', ?_, l ++ x :: r, ?_, ?_⟩
    · rw [hs', rest, ht, ← hl, ← map_drop, drop_left, map_cons,
        head?_cons]
    · rw [Listing.next, if_pos (by rwa [hlen]), ← hl]
      exact h'
    · rw [Listing.next, if_pos (by rwa [hlen])]
      exact ht
  · have hit := h.iterator
    rw [take_of_length_le hc, ← h.tail] at hit
    refine ⟨s, ?_, ns, ?_, ?_⟩
    · rw [getNext, if_pos hit, rest, drop_eq_nil_of_le (by rwa [hlen]),
        head?_nil]
    · rwa [Listing.next, if_neg (by rw [hlen]; exact Nat.not_lt.mpr hc)]
    · rwa [Listing.next, if_neg (by rw [hlen]; exact Nat.not_lt.mpr hc)]

theorem Represents.count (h : Represents s t) : s.numElements = t.items.length := by
  obtain ⟨ns, h, ht⟩ := h
  rw [h.count, ht, length_map]

theorem checkList_represents (h : Represents s t) : checkList s = some 1 := by
  obtain ⟨ns, h, -⟩ := h
  rw [checkList, h.length_toNat, countFrom_linked h.linked, map_some, h.count,
    if_pos (Int.zero_add _)]

theorem getElement_represents (h : Represents s t) (index : Int) :
    getElement s index = some ((t.position index).bind fun i => t.items[i]?) := by
  obtain ⟨ns, h, ht⟩ := h
  have hlen : t.items.length = ns.length := by rw [ht, length_map]
  unfold getElement position
  by_cases hi : index < 0 ∨ s.numElements ≤ index
  · rw [if_pos hi, if_neg (by rw [h.count] at hi; omega)]
    rfl
  · rw [h.count] at hi
    obtain ⟨l, x, r, rfl, hl⟩ := exists_split ns index.toNat (by omega)
    obtain ⟨hpre, n, hcell, -⟩ := linked_middle.mp h.linked
    rw [if_neg (by rwa [h.count]), if_pos (by omega), ← hl]
    simp only [follow_linked hpre, bind_eq_bind, bind_some, hcell]
    rw [ht, getElem?_map, getElem?_append_right (Nat.le_refl _), Nat.sub_self]
    rfl

theorem removeAt_represents (h : Represents s t) (index : Int) :
    ∃ s', removeAt s index = some (s', (t.removeAt index).2) ∧
      Represents s' (t.removeAt index).1 := by
  have hrep := h
  obtain ⟨ns, h, ht⟩ := h
  have hlen : t.items.length = ns.length := by rw [ht, length_map]
  unfold removeAt Listing.removeAt position
  by_cases hi : index < 0 ∨ s.numElements ≤ index
  · rw [if_pos hi, if_neg (by rw [h.count] at hi; omega)]
    exact ⟨s, rfl, hrep⟩
  · rw [h.count] at hi
    obtain ⟨l, x, r, rfl, hl⟩ := exists_split ns index.toNat (by omega)
    obtain ⟨hpre, n, hcell, -⟩ := linked_middle.mp h.linked
    obtain ⟨s', hs', h'⟩ := removeFound_stands h
    rw [if_neg (by rwa [h.count]), if_pos (by omega), ← hl, seek_linked hpre]
    rw [or_none, bind_some, if_neg (by simp), bind_some]
    exact ⟨s', hs', represents_eraseAt h' ht⟩

theorem find_represents (eq : α → α → Bool) (data : α) (h : Represents s t) :
    find eq s data = some none ∧ t.indexOf eq data = none ∨
      ∃ l x r, Stands s (l ++ x :: r) t.cursor ∧ t.items = (l ++ x :: r).map snd ∧
        t.indexOf eq data = some l.length ∧
        find eq s data = some (some (lastAddr l, x.1, l.length)) := by
  obtain ⟨ns, h, ht⟩ := h
  rcases find_stands eq data h with ⟨hf, hi⟩ | ⟨l, x, r, rfl, hi, hf⟩
  · exact .inl ⟨hf, by rw [indexOf, ht, hi]⟩
  · exact .inr ⟨l, x, r, h, ht, by rw [indexOf, ht, hi], hf⟩

variable {eq : α → α → Bool} {data : α}

theorem removeData_represents (h : Represents s t) :
    ∃ s', listStep eq s (.removeData data) = some (s', (t.step eq (.removeData data)).2) ∧
      Represents s' (t.step eq (.removeData data)).1 := by
  rcases find_represents eq data h with ⟨hf, hi⟩ | ⟨l, x, r, h', ht, hi, hf⟩
  · simp only [listStep, step, removeData, hf, hi, bind_some, map_some]
    exact ⟨s, rfl, h⟩
  · obtain ⟨s', hs', h'⟩ := removeFound_stands h'
    simp only [listStep, step, removeData, hf, hi, bind_some, hs', map_some]
    exact ⟨s', rfl, represents_eraseAt h' ht⟩

theorem getElem?_middle (l r : List (Nat × α)) (x : Nat × α) :
    ((l ++ x :: r).map snd)[l.length]? = some x.2 := by
  rw [getElem?_map, getElem?_append_right (Nat.le_refl _), Nat.sub_self]
  rfl

theorem moveToEnd_represents (h : Represents s t) :
    ∃ s', listStep eq s (.moveToEnd data) = some (s', (t.step eq (.moveToEnd data)).2) ∧
      Represents s' (t.step eq (.moveToEnd data)).1 := by
  rcases find_represents eq data h with ⟨hf, hi⟩ | ⟨l, x, r, h', ht, hi, hf⟩
  · simp only [listStep, step, moveToEnd, hf, hi, bind_eq_bind, bind_some]
    exact ⟨s, rfl, h⟩
  · have hlen : t.items.length = l.length + (r.length + 1) := by
      rw [ht, length_map, length_append, length_cons]
    simp only [listStep, step, hi, move, ht, getElem?_middle]
    rw [← ht, hlen]
    by_cases hr : r = []
    · subst hr
      rw [if_pos (by simp)]
      refine ⟨s, ?_, h⟩
      have htail : s.tail = some x.1 := by rw [h'.tail, lastAddr_concat]
      simp only [moveToEnd, hf, bind_eq_bind, bind_some, if_pos htail]
      rfl
    · have hpos := length_pos_of_ne_nil hr
      obtain ⟨s', hs', h''⟩ := moveToEnd_stands h' hf hr
      rw [if_neg (by omega), hs']
      refine ⟨s', rfl, ?_⟩
      have hcursor : Stands s' (l ++ r ++ [x]) (if (l ++ r).length < (t.eraseAt l.length).cursor
          then (t.eraseAt l.length).cursor + 1 else (t.eraseAt l.length).cursor) := by
        rw [if_neg (Nat.not_lt.mpr (by exact h'.le_unlinked))]
        exact h''
      have hins := represents_insertAt (r := []) (x := x) hcursor
        (by rw [append_nil, eraseAt, ht]; exact map_eraseIdx_middle l r x)
      rwa [length_append, show l.length + r.length = l.length + (r.length + 1) - 1 by omega]
        at hins

theorem moveToFront_represents (h : Represents s t) :
    ∃ s', listStep eq s (.moveToFront data) = some (s', (t.step eq (.moveToFront data)).2) ∧
      Represents s' (t.step eq (.moveToFront data)).1 := by
  rcases find_represents eq data h with ⟨hf, hi⟩ | ⟨l, x, r, h', ht, hi, hf⟩
  · simp only [listStep, step, moveToFront, hf, hi, bind_eq_bind, bind_some]
    exact ⟨s, rfl, h⟩
  · simp only [listStep, step, hi, move, ht, getElem?_middle]
    by_cases hl : l = []
    · subst hl
      rw [if_pos length_nil]
      refine ⟨s, ?_, h⟩
      have hhead : s.head = some x.1 := h'.linked.1
      simp only [moveToFront, hf, bind_eq_bind, bind_some, if_pos hhead]
      rfl
    · obtain ⟨s', hs', h''⟩ := moveToFront_stands h' hf hl
      rw [if_neg (fun e => hl (length_eq_zero_iff.mp e)), hs']
      exact ⟨s', rfl, represents_insertAt (t := t.eraseAt l.length) (l := []) (r := l ++ r) h''
        (by rw [eraseAt, ht]; exact map_eraseIdx_middle l r x)⟩

theorem clear_represents (h : Represents s t) :
    ∃ s', clearList s = some s' ∧ Represents s' ({} : Listing α) := by
  obtain ⟨ns, h, -⟩ := h
  obtain ⟨s', hs', hn⟩ := destroyLoop_linked h.linked h.count
  refine ⟨_, by rw [clearList, h.length_toNat, hs']; rfl, [], ?_, rfl⟩
  exact ⟨rfl, rfl, hn, Nat.le_refl 0, rfl⟩

/-- **One call.** Where the allocator does its part, a call is defined, answers what the list
    says, and leaves the list changed as it should be. -/
theorem listStep_represents (eq : α → α → Bool) (h : Represents s t) (ha : canAllocate s op) :
    ∃ s', listStep eq s op = some (s', (t.step eq op).2) ∧ Represents s' (t.step eq op).1 := by
  cases op with
  | getFirst =>
    obtain ⟨s', hs', h'⟩ := getFirst_represents h
    exact ⟨s', by rw [listStep, hs']; rfl, h'⟩
  | getNext =>
    obtain ⟨s', hs', h'⟩ := getNext_represents h
    exact ⟨s', by rw [listStep, hs']; rfl, h'⟩
  | checkList => exact ⟨s, by rw [listStep, checkList_represents h]; rfl, h⟩
  | getNumElements => exact ⟨s, by rw [listStep, h.count]; rfl, h⟩
  | addElement x ptr =>
    obtain ⟨s', hs', h'⟩ := addElement_represents h ha.1 ha.2
    exact ⟨s', by rw [listStep, hs']; rfl, h'⟩
  | addToFront x ptr =>
    obtain ⟨s', hs', h'⟩ := addToFront_represents h ha.1 ha.2
    exact ⟨s', by rw [listStep, hs']; rfl, h'⟩
  | insertElement x index ptr =>
    rw [listStep, step]
    rcases lt_or_ge index 0 with hneg | hpos
    · have hcount := h.count
      rw [if_pos hneg, insertElement, if_neg (by omega), if_neg (by omega), if_pos hneg]
      exact ⟨s, rfl, h⟩
    · have hroom := ha.resolve_left (not_lt.mpr hpos)
      obtain ⟨s', hs', h'⟩ := insertElement_represents h hpos hroom.1 hroom.2 (v := x)
      rw [if_neg (not_lt.mpr hpos)]
      exact ⟨s', by rw [hs']; rfl, h'⟩
  | getElement index => exact ⟨s, by rw [listStep, getElement_represents h]; rfl, h⟩
  | getIndex data =>
    refine ⟨s, ?_, h⟩
    rw [listStep, getIndex, step]
    rcases find_represents eq data h with ⟨hf, hi⟩ | ⟨l, x, r, -, -, hi, hf⟩
    · rw [hf, hi]
      rfl
    · rw [hf, hi]
      rfl
  | removeData data => exact removeData_represents h
  | removeAt index =>
    obtain ⟨s', hs', h'⟩ := removeAt_represents h index
    exact ⟨s', by rw [listStep, hs']; rfl, h'⟩
  | moveToEnd data => exact moveToEnd_represents h
  | moveToFront data => exact moveToFront_represents h
  | dequeueElement =>
    obtain ⟨s', hs', h'⟩ := removeAt_represents h 0
    refine ⟨s', ?_, h'⟩
    have hget : getElement s 0 = some t.items.head? := by
      rw [getElement_represents h, position]
      cases t.items with
      | nil => rfl
      | cons x l => rw [if_pos ⟨le_refl _, by rw [length_cons]; omega⟩]; rfl
    simp only [listStep, dequeueElement, hget, bind_eq_bind, bind_some, hs']
    rfl
  | clear =>
    obtain ⟨s', hs', h'⟩ := clear_represents h
    exact ⟨s', by rw [listStep, hs']; rfl, h'⟩

theorem allocate_isSome (h : allocate s ptr v = some s') :
    s.mem ptr = none ∧ s'.numElements = s.numElements := by
  unfold allocate at h
  split at h
  · cases h
    exact ⟨isNone_iff_eq_none.mp ‹_›, rfl⟩
  · cases h

theorem setNext_count {q : Option Nat} (h : setNext s a q = some s') :
    s'.numElements = s.numElements := by
  obtain ⟨c, -, rfl⟩ := map_eq_some_iff.mp h
  rfl

theorem countUp_room (h : countUp s = some s') : s.numElements < 2147483647 := by
  unfold countUp at h
  split at h
  · assumption
  · cases h

theorem canAllocate_of_addElement {a : LinkedList α × Int}
    (h : addElement s v ptr = some a) : s.mem ptr = none ∧ s.numElements < 2147483647 := by
  obtain ⟨s₁, h₁, h⟩ := bind_eq_some_iff.mp h
  obtain ⟨s₂, h₂, h⟩ := bind_eq_some_iff.mp h
  obtain ⟨s₃, h₃, -⟩ := bind_eq_some_iff.mp h
  obtain ⟨hfree, e₁⟩ := allocate_isSome h₁
  have e₂ : s₂.numElements = s₁.numElements := by
    unfold linkLast at h₂
    split at h₂
    · cases h₂
      rfl
    · obtain ⟨s₄, h₄, rfl⟩ := map_eq_some_iff.mp h₂
      have e := setNext_count h₄
      exact e
  exact ⟨hfree, by rw [← e₁, ← e₂]; exact countUp_room h₃⟩

theorem canAllocate_of_addToFront {a : LinkedList α × Int}
    (h : addToFront s v ptr = some a) : s.mem ptr = none ∧ s.numElements < 2147483647 := by
  obtain ⟨s₁, h₁, h⟩ := bind_eq_some_iff.mp h
  obtain ⟨s₂, h₂, h⟩ := bind_eq_some_iff.mp h
  obtain ⟨s₃, h₃, -⟩ := bind_eq_some_iff.mp h
  obtain ⟨hfree, e₁⟩ := allocate_isSome h₁
  have e₂ : s₂.numElements = s₁.numElements := by
    unfold linkFirst at h₂
    split at h₂
    · cases h₂
      rfl
    · obtain ⟨s₄, h₄, rfl⟩ := map_eq_some_iff.mp h₂
      have e := setNext_count h₄
      exact e
  exact ⟨hfree, by rw [← e₁, ← e₂]; exact countUp_room h₃⟩

/-- A call that allocates is defined only where the allocator does its part. -/
theorem canAllocate_of_listStep {a : LinkedList α × ListAnswer α}
    (h : listStep eq s op = some a) : canAllocate s op := by
  cases op with
  | addElement x ptr =>
    obtain ⟨r, hr, -⟩ := map_eq_some_iff.mp h
    exact canAllocate_of_addElement hr
  | addToFront x ptr =>
    obtain ⟨r, hr, -⟩ := map_eq_some_iff.mp h
    exact canAllocate_of_addToFront hr
  | insertElement x index ptr =>
    obtain ⟨r, hr, -⟩ := map_eq_some_iff.mp h
    unfold insertElement at hr
    split at hr
    · exact .inr (canAllocate_of_addElement hr)
    split at hr
    · exact .inr (canAllocate_of_addToFront hr)
    split at hr
    · exact .inl ‹_›
    · obtain ⟨p, -, hr⟩ := bind_eq_some_iff.mp hr
      obtain ⟨tmp, -, hr⟩ := bind_eq_some_iff.mp hr
      obtain ⟨e, -, hr⟩ := bind_eq_some_iff.mp hr
      obtain ⟨s₁, h₁, hr⟩ := bind_eq_some_iff.mp hr
      obtain ⟨s₂, h₂, hr⟩ := bind_eq_some_iff.mp hr
      obtain ⟨s₃, h₃, hr⟩ := bind_eq_some_iff.mp hr
      obtain ⟨s₄, h₄, -⟩ := bind_eq_some_iff.mp hr
      obtain ⟨hfree, e₁⟩ := allocate_isSome h₁
      refine .inr ⟨hfree, ?_⟩
      rw [← e₁, ← setNext_count h₂, ← setNext_count h₃]
      exact countUp_room h₄
  | _ => trivial

end Calls

/-! ## 5. Runs -/

variable {eq : α → α → Bool} {s s' : LinkedList α} {t t' : Listing α}

/-- One call of the code, with its answer. -/
def ListStep (eq : α → α → Bool) (s : LinkedList α) (l : ListOp α × ListAnswer α)
    (s' : LinkedList α) : Prop :=
  listStep eq s l.1 = some (s', l.2)

/-- One call on the list, with its answer. -/
def ListingStep (eq : α → α → Bool) (t : Listing α) (l : ListOp α × ListAnswer α)
    (t' : Listing α) : Prop :=
  t.step eq l.1 = (t', l.2)

theorem listStep_simulates {l : ListOp α × ListAnswer α} (h : Represents s t)
    (hs : ListStep eq s l s') : ∃ t', ListingStep eq t l t' ∧ Represents s' t' := by
  obtain ⟨s₁, hs₁, h₁⟩ := listStep_represents eq h (canAllocate_of_listStep hs)
  rw [ListStep, hs₁, some.injEq, Prod.mk.injEq] at hs
  obtain ⟨rfl, ha⟩ := hs
  exact ⟨_, Prod.ext rfl ha, h₁⟩

/-- The calls an iteration may be interleaved with: the next element, a look at the list, and the
    removal of an element the iteration has returned already, such as the one returned last. -/
def passes (eq : α → α → Bool) (t : Listing α) : ListOp α → Prop
  | .getNext | .checkList | .getNumElements | .getElement _ | .getIndex _ => True
  | .removeData data => ∃ d ∈ t.items.take t.cursor, eq d data = true
  | .removeAt index => index < t.cursor
  | .dequeueElement => 0 < t.cursor
  | _ => False

/-- The elements `get_next` hands out in a list of calls. -/
def visited (ls : List (ListOp α × ListAnswer α)) : List α :=
  ls.filterMap fun l => match l.1 with
    | .getNext => l.2.element
    | _ => none

theorem eraseAt_rest (hi : i < t.cursor) : (t.eraseAt i).rest = t.rest := by
  rw [rest, rest, eraseAt, if_pos hi, eraseIdx_eq_take_drop_succ]
  dsimp only
  rcases Nat.lt_or_ge i t.items.length with h | h
  · rw [drop_append, drop_eq_nil_of_le (by rw [length_take]; omega),
      nil_append, length_take, drop_drop, Nat.min_eq_left (Nat.le_of_lt h),
      show i + 1 + (t.cursor - 1 - i) = t.cursor by omega]
  · have hdrop : t.items.drop (i + 1) = [] := drop_eq_nil_of_le (by omega)
    rw [take_of_length_le h, hdrop, append_nil, drop_eq_nil_of_le (by omega),
      drop_eq_nil_of_le (by omega)]

theorem removeAt_rest {index : Int} (hi : index < t.cursor) : (t.removeAt index).1.rest = t.rest := by
  unfold Listing.removeAt position
  split
  · rfl
  · rename_i i h
    split at h
    · cases h
      exact eraseAt_rest (by omega)
    · cases h

/-- One call of an iteration: what `get_next` hands out is the first of the elements left. -/
theorem passes_rest (hp : passes eq t op) :
    visited [(op, (t.step eq op).2)] ++ (t.step eq op).1.rest = t.rest := by
  cases op with
  | getNext =>
    show (toList t.rest.head?) ++ t.next.rest = t.rest
    unfold Listing.next
    split
    · rename_i h
      rw [rest, rest, drop_eq_getElem_cons h]
      rfl
    · rename_i h
      rw [rest, drop_eq_nil_of_le (Nat.not_lt.mp h)]
      rfl
  | removeData data =>
    obtain ⟨d, hd, he⟩ := hp
    show (t.step eq (.removeData data)).1.rest = t.rest
    unfold step
    dsimp only
    split
    · rfl
    · rename_i i hi
      refine eraseAt_rest ?_
      obtain ⟨j, hj, rfl⟩ := mem_iff_getElem.mp hd
      rw [getElem_take] at he
      rw [length_take] at hj
      rw [indexOf, findIdx?_eq_some_iff_getElem] at hi
      obtain ⟨hlen, -, hbefore⟩ := hi
      by_contra hge
      exact hbefore j (by omega) he
  | removeAt index => exact removeAt_rest hp
  | dequeueElement => exact removeAt_rest (Int.natCast_pos.mpr hp)
  | checkList => rfl
  | getNumElements => rfl
  | getElement index => rfl
  | getIndex data => rfl
  | getFirst => exact hp.elim
  | addElement x ptr => exact hp.elim
  | addToFront x ptr => exact hp.elim
  | insertElement x index ptr => exact hp.elim
  | moveToEnd data => exact hp.elim
  | moveToFront data => exact hp.elim
  | clear => exact hp.elim

/-- **An iteration**: what it has visited and what it has still to visit are together what it had
    to visit at its start, in order. -/
theorem iteration_visits {ls : List (ListOp α × ListAnswer α)}
    (hr : Run (onlyWhen (fun t l => passes eq t l.1) (ListingStep eq)) t ls t') :
    visited ls ++ t'.rest = t.rest := by
  induction hr with
  | start => rfl
  | @step ls t₁ t₂ l hr hs ih =>
    obtain ⟨hp, hs⟩ := hs
    have hone := passes_rest hp
    rw [hs] at hone
    rw [← ih, visited, filterMap_append, append_assoc]
    exact congrArg _ hone

/-- **The linked list is the list**: over every run of calls the code gives the answers of the
    list with a cursor, its chain, tail and count hold the items in order, every call the allocator
    can serve is defined, and an iteration, whatever removals of elements it has returned it is
    interleaved with, visits each remaining element exactly once. -/
theorem linked_list_run (eq : α → α → Bool) {ls : List (ListOp α × ListAnswer α)}
    {s : LinkedList α} (hr : Run (ListStep eq) LinkedList.init ls s) :
    ∃ t, Run (ListingStep eq) {} ls t ∧ Represents s t ∧
      (∀ op, canAllocate s op → (listStep eq s op).isSome) ∧
      ∀ ls' s', Run (ListStep eq) s ls' s' →
        ∃ t', Run (ListingStep eq) t ls' t' ∧ Represents s' t' ∧
          ((∀ pre l post, ls' = pre ++ l :: post → ∀ t₁, Run (ListingStep eq) t pre t₁ →
              passes eq t₁ l.1) →
            visited ls' ++ t'.rest = t.rest) := by
  have hsim : ∀ s l s' t, Represents s t → ListStep eq s l s' →
      ∃ t', ListingStep eq t l t' ∧ Represents s' t' := fun _ _ _ _ h hs => listStep_simulates h hs
  obtain ⟨t, ht, h⟩ := Run.simulate represents_init hsim hr
  refine ⟨t, ht, h, fun op ha => ?_, fun ls' s' hr' => ?_⟩
  · obtain ⟨s', hs', -⟩ := listStep_represents eq h ha
    rw [hs', isSome_some]
  · obtain ⟨t', ht', h'⟩ := Run.simulate h hsim hr'
    exact ⟨t', ht', h', fun hp => iteration_visits (ht'.to_onlyWhen hp)⟩

/-- Three elements, an iteration that removes the element it has returned first, one moved to the
    front and one to the end. -/
theorem linked_list_run_nat : ∃ s : LinkedList Nat, ∃ t : Listing Nat, Represents s t ∧
    Run (ListingStep (fun a b => a == b)) {}
      [(.addElement 4 10, ⟨1, none⟩), (.addElement 5 20, ⟨1, none⟩), (.addToFront 6 30, ⟨1, none⟩),
        (.getFirst, ⟨1, some 6⟩), (.removeAt 0, ⟨1, none⟩), (.getNext, ⟨1, some 4⟩),
        (.insertElement 7 1 30, ⟨1, none⟩), (.moveToEnd 4, ⟨1, none⟩), (.moveToFront 5, ⟨1, none⟩),
        (.getElement 1, ⟨1, some 7⟩), (.removeData 9, ⟨0, none⟩)] t := by
  have hsome : (execAll (answering (listStep (fun a b : Nat => a == b))) LinkedList.init
      [(.addElement 4 10, ⟨1, none⟩), (.addElement 5 20, ⟨1, none⟩), (.addToFront 6 30, ⟨1, none⟩),
        (.getFirst, ⟨1, some 6⟩), (.removeAt 0, ⟨1, none⟩), (.getNext, ⟨1, some 4⟩),
        (.insertElement 7 1 30, ⟨1, none⟩), (.moveToEnd 4, ⟨1, none⟩), (.moveToFront 5, ⟨1, none⟩),
        (.getElement 1, ⟨1, some 7⟩), (.removeData 9, ⟨0, none⟩)]).isSome := by
    decide +kernel
  obtain ⟨s, hs⟩ := isSome_iff_exists.mp hsome
  have hr : Run (ListStep fun a b => a == b) _ _ _ :=
    (Run.of_execAll hs).mono fun _ _ _ h => answering_eq_some.mp h
  obtain ⟨t, ht, h, -⟩ := linked_list_run (fun a b : Nat => a == b) hr
  exact ⟨s, t, h, ht⟩

end OpenCore.OsclBase
