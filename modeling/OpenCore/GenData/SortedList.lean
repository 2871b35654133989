/-
  File:      OpenCore/GenData/SortedList.lean
  Subject:   `SortedList` (sorted_list.h) as the code computes it, and its chain in order.

  The nodes are those of the linked list: head, tail, iterator and count over a memory of cells.
  A node is kept in front of the first element that is not smaller; the search for an element
  gives up at the first one that is greater.
-/
import OpenCore.OsclBase.LinkedListRun

namespace OpenCore.GenData

open OsclBase List Option

variable {α : Type}

/-! ## 1. The code -/

/-- `SortedList`, with the comparisons of its class. -/
abbrev SortedList (α : Type) := LinkedList α

/-- Where the loop of `add_element` ends: in front of an element, behind the last one, or at a
    null pointer before the count is reached. -/
inductive Place where
  | before (prev : Option Nat) (cur : Nat)
  | last
  | nowhere

/-- The loop of `add_element`, with `left` elements to go. -/
def findPlace (le : α → α → Bool) (mem : Nat → Option (LinkedListElement α)) (newElement : α) :
    Nat → Option Nat → Option Nat → Option Place
  | 0, _, _ => some .last
  | _ + 1, _, none => some .nowhere
  | left + 1, prev, some cur =>
    (mem cur).bind fun c =>
      if le newElement c.data then some (.before prev cur)
      else findPlace le mem newElement left (some cur) c.next

/-- The new element linked in at its place. -/
def linkAt (s : SortedList α) (newElement : α) (ptr : Nat) : Place → Option (SortedList α)
  | .before (some prev) cur => do
    let s ← allocate s ptr newElement
    let s ← setNext s prev (some ptr)
    setNext s ptr (some cur)
  | .before none _ => do
    let s ← allocate s ptr newElement
    let s ← setNext s ptr s.head
    return { s with head := some ptr }
  | .last => do
    let s ← allocate s ptr newElement
    linkLast s ptr
  | .nowhere => some s

/-- `if (!tail) ... else ...` of `add_element`: an empty list needs no search. -/
def place (le : α → α → Bool) (s : SortedList α) (newElement : α) : Option Place :=
  if s.tail.isNone then some .last
  else findPlace le s.mem newElement s.numElements.toNat none s.head

/-- `add_element`. -/
def SortedList.addElement (le : α → α → Bool) (s : SortedList α) (newElement : α) (ptr : Nat) :
    Option (SortedList α × Int) := do
  let place ← place le s newElement
  let s ← linkAt s newElement ptr place
  let s ← countUp s
  return (s, 1)

/-- The loop of `remove_element`: the element that compares equal with the one before it, nothing
    where a greater one or the end comes first. -/
def findSorted (eq gt : α → α → Bool) (mem : Nat → Option (LinkedListElement α)) (data : α) :
    Nat → Option Nat → Option Nat → Option (Option (Option Nat × Nat))
  | _, _, none => some none
  | 0, _, some _ => none
  | fuel + 1, prev, some tmp =>
    (mem tmp).bind fun c =>
      if eq c.data data then some (some (prev, tmp))
      else if gt c.data data then some none
      else findSorted eq gt mem data fuel (some tmp) c.next

/-- `remove_element` by value. -/
def SortedList.removeElement (eq gt : α → α → Bool) (s : SortedList α) (dataToRemove : α) :
    Option (SortedList α × Int) :=
  (findSorted eq gt s.mem dataToRemove s.numElements.toNat none s.head).bind fun r =>
    match r with
    | none => some (s, 0)
    | some (prev, tmp) => removeFound s prev tmp

/-! ## 2. The elements in order -/

/-- The chain of a list holds these elements. -/
def Holds (s : SortedList α) (xs : List α) : Prop :=
  ∃ ns k, Stands s ns k ∧ xs = ns.map Prod.snd

theorem holds_init : Holds (LinkedList.init : SortedList α) [] :=
  ⟨[], 0, ⟨rfl, rfl, rfl, Nat.le_refl 0, rfl⟩, rfl⟩

variable {mem : Nat → Option (LinkedListElement α)} {ptr : Nat}

section Elements

variable {s : SortedList α} {xs l r : List α} {x : α}

theorem Holds.count (h : Holds s xs) : s.numElements = xs.length := by
  obtain ⟨ns, k, hs, rfl⟩ := h
  rw [hs.count, length_map]

/-- The nodes of a list cut where its elements are cut. -/
theorem Holds.cut (h : Holds s (l ++ r)) :
    ∃ ls rs k, Stands s (ls ++ rs) k ∧ l = ls.map Prod.snd ∧ r = rs.map Prod.snd := by
  obtain ⟨ns, k, hs, e⟩ := h
  obtain ⟨ls, rs, rfl, hl, hr⟩ := append_eq_map_iff.mp e
  exact ⟨ls, rs, k, hs, hl.symm, hr.symm⟩

theorem Holds.getElement (h : Holds s xs) {i : Nat} (hi : i < xs.length) :
    getElement s i = some (some (xs[i])) := by
  obtain ⟨ns, k, hs, rfl⟩ := h
  rw [length_map] at hi
  have hcount := hs.count
  have hsplit : ns = ns.take i ++ ns[i] :: ns.drop (i + 1) := by
    rw [cons_getElem_drop_succ, take_append_drop]
  have hlinked := hs.linked
  rw [hsplit] at hlinked
  obtain ⟨hpre, n, hcell, -⟩ := linked_middle.mp hlinked
  have hfollow := follow_linked hpre
  rw [length_take, Nat.min_eq_left (Nat.le_of_lt hi)] at hfollow
  unfold getElement
  rw [if_neg (by omega), Int.toNat_natCast]
  simp only [hfollow, bind_eq_bind, bind_some, hcell, getElem_map]
  rfl

/-- The place in front of a list of nodes. -/
def placeBefore (prev : Option Nat) : List (Nat × α) → Place
  | [] => .last
  | y :: _ => .before prev y.1

variable {ls rs : List (Nat × α)}

/-- The loop of `add_element` stops at the first element that is not smaller. -/
theorem findPlace_linked (le : α → α → Bool)
    {p : Option Nat} (prev : Option Nat) (h : Linked mem p (ls ++ rs) none)
    (hl : ∀ y ∈ ls, le x y.2 = false) (hr : ∀ y ∈ rs.head?, le x y.2 = true) :
    findPlace le mem x (ls ++ rs).length prev p =
      some (placeBefore ((lastAddr ls).or prev) rs) := by
  induction ls generalizing p prev with
  | nil =>
    cases rs with
    | nil => rfl
    | cons y rs =>
      obtain ⟨rfl, n, hn, -⟩ := h
      have hy : le x y.2 = true := hr y rfl
      rw [nil_append, length_cons, findPlace, hn, bind_some, if_pos hy]
      rfl
  | cons z ls ih =>
    obtain ⟨rfl, n, hn, h⟩ := h
    obtain ⟨hz, hl⟩ := forall_mem_cons.mp hl
    rw [cons_append, length_cons, findPlace, hn, bind_some,
      if_neg (by rw [hz]; exact Bool.false_ne_true), ih (some z.1) h hl]
    cases rs with
    | nil => rfl
    | cons y rs =>
      rcases lastAddr_cases ls with ⟨rfl, e⟩ | ⟨l', w, rfl, e⟩
      · rw [e]
        rfl
      · rw [lastAddr_cons_ne (append_ne_nil_of_right_ne_nil l' (cons_ne_nil w [])), e]
        rfl

/-- The loop does not run out of nodes before the count is reached. -/
theorem findPlace_ne_nowhere (le : α → α → Bool)
    {p prev : Option Nat} {ns : List (Nat × α)} (h : Linked mem p ns none) :
    findPlace le mem x ns.length prev p ≠ some .nowhere := by
  induction ns generalizing p prev with
  | nil =>
    rw [length_nil, findPlace]
    exact fun e => Place.noConfusion (some.inj e)
  | cons z ns ih =>
    obtain ⟨rfl, n, hn, h⟩ := h
    rw [length_cons, findPlace, hn, bind_some]
    split
    · exact fun e => Place.noConfusion (some.inj e)
    · exact ih h

theorem Holds.place_ne_nowhere (h : Holds s xs) (le : α → α → Bool) :
    place le s x ≠ some .nowhere := by
  obtain ⟨ns, k, hs, -⟩ := h
  unfold place
  split
  · exact fun e => Place.noConfusion (some.inj e)
  · rw [hs.length_toNat]
    exact findPlace_ne_nowhere le hs.linked

/-- A call that is defined was given a free cell. -/
theorem fresh_of_linkAt {s' : SortedList α} {p : Place} (hp : p ≠ .nowhere)
    (h : linkAt s x ptr p = some s') : s.mem ptr = none := by
  have hallocate : ∀ {f : SortedList α → Option (SortedList α)},
      (allocate s ptr x).bind f = some s' → s.mem ptr = none := fun {_} h => by
    obtain ⟨s₁, h₁, -⟩ := bind_eq_some_iff.mp h
    exact (allocate_isSome h₁).1
  cases p with
  | before prev cur =>
    cases prev with
    | none => exact hallocate h
    | some prev => exact hallocate h
  | last => exact hallocate h
  | nowhere => exact absurd rfl hp

theorem Holds.fresh_of_addElement {le : α → α → Bool} {r : SortedList α × Int}
    (h : Holds s xs) (hs : SortedList.addElement le s x ptr = some r) : s.mem ptr = none := by
  obtain ⟨p, hp, hs⟩ := bind_eq_some_iff.mp hs
  obtain ⟨s₁, hs₁, -⟩ := bind_eq_some_iff.mp hs
  refine fresh_of_linkAt ?_ hs₁
  rintro rfl
  exact h.place_ne_nowhere le hp

/-- An element linked in between two others is `insert_element` of the linked list. -/
theorem addElement_between {s : SortedList α} {k : Nat} {y z : Nat × α}
    (h : Stands s ((ls ++ [y]) ++ z :: rs) k) (x : α) (ptr : Nat) :
    (do
      let s ← linkAt s x ptr (.before (some y.1) z.1)
      let s ← countUp s
      return (s, (1 : Int))) = insertElement s x (ls ++ [y]).length ptr := by
  obtain ⟨m, hfront, hback⟩ := linked_append.mp h.linked
  obtain ⟨hpre, hcell⟩ := linked_concat.mp hfront
  obtain ⟨rfl, -⟩ := hback
  have hcount := h.count
  have hlen : (ls ++ [y]).length = ls.length + 1 := by
    rw [length_append, length_singleton]
  rw [length_append, length_cons, hlen] at hcount
  unfold insertElement linkAt
  rw [hlen, if_neg (by omega), if_neg (by omega), if_neg (by omega),
    show ((ls.length + 1 : Nat) - 1 : Int).toNat = ls.length by omega]
  simp only [follow_linked hpre, bind_eq_bind, bind_some, hcell, bind_assoc]

/-- **`add_element`** puts an element in front of the first one that is not smaller. -/
theorem Holds.addElement (le : α → α → Bool) (h : Holds s (l ++ r))
    (hptr : s.mem ptr = none) (hn : s.numElements < 2147483647)
    (hl : ∀ y ∈ l, le x y = false) (hr : ∀ y ∈ r.head?, le x y = true) :
    ∃ s', SortedList.addElement le s x ptr = some (s', 1) ∧ Holds s' (l ++ x :: r) := by
  obtain ⟨ls, rs, k, hs, rfl, rfl⟩ := h.cut
  have hplace := findPlace_linked (x := x) le none hs.linked
    (fun y hy => hl y.2 (mem_map_of_mem hy)) (fun y hy => hr y.2 (by
      rw [head?_map, hy]
      rfl))
  rw [← hs.length_toNat] at hplace
  have hheld : ∀ {s' : SortedList α} {k' : Nat}, Stands s' (ls ++ (ptr, x) :: rs) k' →
      Holds s' (ls.map Prod.snd ++ x :: rs.map Prod.snd) := fun {_} {k'} h' =>
    ⟨_, k', h', by rw [map_append, map_cons]⟩
  unfold SortedList.addElement
  cases rs with
  | nil =>
    -- an empty list, or every element is smaller
    rw [append_nil] at hs
    obtain ⟨s', hs', h'⟩ := addElement_stands hs hptr hn
    refine ⟨s', ?_, hheld h'⟩
    have hlast : place le s x = some .last := by
      unfold place
      split
      · rfl
      · exact hplace
    rw [hlast, bind_eq_bind, bind_some, ← hs']
    simp only [linkAt, addElement, bind_eq_bind, bind_assoc]
  | cons z rs =>
    have htail : s.tail.isNone = false := by
      rw [hs.tail, lastAddr_append_cons]
      rcases lastAddr_cases (z :: rs) with ⟨e, -⟩ | ⟨_, w, -, e⟩
      · cases e
      · rw [e]
        rfl
    rw [place, htail, if_neg Bool.false_ne_true, hplace, bind_eq_bind, bind_some]
    rcases lastAddr_cases ls with ⟨rfl, e⟩ | ⟨ls, y, rfl, e⟩
    · obtain ⟨s', hs', h'⟩ := addToFront_stands hs hptr hn (v := x)
      refine ⟨s', ?_, hheld h'⟩
      have hhead : s.head = some z.1 := hs.linked.1
      rw [← hs', e]
      simp only [linkAt, addToFront, linkFirst, allocate_eq hptr, bind_eq_bind,
        bind_some, hhead, none_or]
      rw [setNext_eq (Function.update_self ..)]
      rfl
    · obtain ⟨s', hs', h'⟩ := insertElement_stands hs hptr hn
        (append_ne_nil_of_right_ne_nil ls (cons_ne_nil y [])) (cons_ne_nil z rs)
        (v := x)
      refine ⟨s', ?_, hheld h'⟩
      rw [e, ← hs', ← addElement_between hs x ptr]
      rfl

/-- The search of `remove_element` passes the elements that are neither equal nor greater. -/
theorem findSorted_linked (eq gt : α → α → Bool)
    {p : Option Nat} (prev : Option Nat) {y : Nat × α}
    (h : Linked mem p (ls ++ y :: rs) none)
    (hl : ∀ z ∈ ls, eq z.2 x = false ∧ gt z.2 x = false) (hy : eq y.2 x = true) :
    findSorted eq gt mem x (ls ++ y :: rs).length prev p =
      some (some ((lastAddr ls).or prev, y.1)) := by
  induction ls generalizing p prev with
  | nil =>
    obtain ⟨rfl, n, hn, -⟩ := h
    rw [nil_append, length_cons, findSorted, hn, bind_some, if_pos hy]
    rfl
  | cons z ls ih =>
    obtain ⟨rfl, n, hn, h⟩ := h
    obtain ⟨⟨hz, hg⟩, hl⟩ := forall_mem_cons.mp hl
    rw [cons_append, length_cons, findSorted, hn, bind_some,
      if_neg (by rw [hz]; exact Bool.false_ne_true),
      if_neg (by rw [hg]; exact Bool.false_ne_true), ih (some z.1) h hl]
    rcases lastAddr_cases ls with ⟨rfl, e⟩ | ⟨l', w, rfl, e⟩
    · rw [e]
      rfl
    · rw [lastAddr_cons_ne (append_ne_nil_of_right_ne_nil l' (cons_ne_nil w [])), e]
      rfl

/-- **`remove_element`** takes out the first element that compares equal, where no greater one
    comes before it. -/
theorem Holds.removeElement (eq gt : α → α → Bool) {y : α} (h : Holds s (l ++ y :: r))
    (hl : ∀ z ∈ l, eq z x = false ∧ gt z x = false) (hy : eq y x = true) :
    ∃ s', SortedList.removeElement eq gt s x = some (s', 1) ∧ Holds s' (l ++ r) := by
  obtain ⟨ls, rs, k, hs, rfl, hr⟩ := h.cut
  obtain ⟨w, rs, rfl, rfl, rfl⟩ := map_eq_cons_iff.mp hr.symm
  have hfind := findSorted_linked eq gt none hs.linked
    (fun z hz => hl z.2 (mem_map_of_mem hz)) hy
  rw [← hs.length_toNat, or_none] at hfind
  obtain ⟨s', hs', h'⟩ := removeFound_stands hs
  refine ⟨s', ?_, _, _, h', by rw [map_append]⟩
  rw [SortedList.removeElement, hfind, bind_some]
  exact hs'

end Elements

end OpenCore.GenData
