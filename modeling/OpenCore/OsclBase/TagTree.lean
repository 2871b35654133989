/-
  File:      OpenCore/OsclBase/TagTree.lean
  Subject:   `Oscl_TagTree` (oscl_tagtree.h, oscl_tagtree.cpp): the map from tags to nodes and the
             parent and child pointers between the nodes, over every run of calls.

  The nodes lie in memory under addresses; an address no node lies at is one a pointer must not
  refer to. `insert` takes the blocks the allocator hands out, each with what its memory happens
  to hold in the parent field, which `create_node` leaves alone.
-/
import OpenCore.Lib.Run

namespace OpenCore.OsclBase

open List Option
open Function (update_of_ne update_self)
open Function (update)

/-! ## 1. Tags -/

/-- The characters of a tag, without the terminator. -/
abbrev Tag := List Char

/-- Where the loop of `tag_ancestor` stops when it comes down from `endptr`. -/
def ancestorEnd (src : Tag) : Nat → Nat
  | 0 => 0
  | endptr + 1 => if src[endptr + 1]? = some '.' then endptr + 1 else ancestorEnd src endptr

/-- `Oscl_Tag_Base::tag_ancestor`. -/
def tagAncestor (src : Tag) : Tag := src.take (ancestorEnd src src.length)

/-- `Oscl_Tag_Base::tag_depth`. -/
def tagDepth (t : Tag) : Nat := if t = [] then 0 else 1 + t.count '.'

theorem ancestorEnd_le (src : Tag) (k : Nat) : ancestorEnd src k ≤ k := by
  induction k with
  | zero => exact Nat.le_refl 0
  | succ k ih =>
    unfold ancestorEnd
    split
    · exact Nat.le_refl _
    · exact Nat.le_succ_of_le ih

theorem ancestorEnd_dot (src : Tag) (k : Nat) :
    ancestorEnd src k = 0 ∨ src[ancestorEnd src k]? = some '.' := by
  induction k with
  | zero => exact .inl rfl
  | succ k ih =>
    unfold ancestorEnd
    split
    · exact .inr ‹_›
    · exact ih

theorem not_dot_of_ancestorEnd_lt (src : Tag) (k : Nat) {j : Nat} (hj : ancestorEnd src k < j)
    (hk : j ≤ k) : src[j]? ≠ some '.' := by
  induction k with
  | zero => exact absurd hj (by omega)
  | succ k ih =>
    unfold ancestorEnd at hj
    split at hj
    · omega
    · rcases Nat.lt_or_ge k j with h | h
      · have e : j = k + 1 := by omega
        rw [e]
        assumption
      · exact ih hj h

variable {t : Tag}

theorem ancestorEnd_lt (h : t ≠ []) : ancestorEnd t t.length < t.length := by
  obtain ⟨c, l, rfl⟩ := exists_cons_of_ne_nil h
  rw [length_cons]
  unfold ancestorEnd
  rw [if_neg (by simp)]
  exact Nat.lt_succ_of_le (ancestorEnd_le _ _)

/-- Behind the place where `tag_ancestor` cuts there is no dot. -/
theorem count_drop_ancestorEnd (t : Tag) :
    (t.drop (ancestorEnd t t.length + 1)).count '.' = 0 := by
  refine count_eq_zero_of_not_mem fun hm => ?_
  obtain ⟨i, hi⟩ := mem_iff_getElem?.mp hm
  rw [getElem?_drop] at hi
  refine not_dot_of_ancestorEnd_lt t t.length (by omega) ?_ hi
  obtain ⟨h, -⟩ := List.getElem?_eq_some_iff.mp hi
  exact Nat.le_of_lt h

/-- An ancestor cut off at a dot is one level up. -/
theorem tagDepth_ancestor_of_pos (h : ancestorEnd t t.length ≠ 0) :
    tagDepth (tagAncestor t) + 1 = tagDepth t := by
  have ht : t ≠ [] := by rintro rfl; exact h rfl
  have hdot := (ancestorEnd_dot t t.length).resolve_left h
  have hlt := ancestorEnd_lt ht
  have hne : tagAncestor t ≠ [] := by
    intro e
    have := congrArg length e
    rw [tagAncestor, length_take, length_nil] at this
    omega
  have hcount : t.count '.' = (tagAncestor t).count '.' + 1 := by
    conv_lhs => rw [← take_append_drop (ancestorEnd t t.length) t]
    rw [count_append, drop_eq_getElem_cons hlt,
      (List.getElem?_eq_some_iff.mp hdot).2, count_cons_self, count_drop_ancestorEnd]
    rfl
  rw [tagDepth, if_neg hne, tagDepth, if_neg ht, hcount]
  omega

theorem tagAncestor_eq_nil (h : ancestorEnd t t.length = 0) : tagAncestor t = [] := by
  rw [tagAncestor, h, take_zero]

theorem tagDepth_pos (h : t ≠ []) : 0 < tagDepth t := by
  rw [tagDepth, if_neg h]
  omega

theorem tagDepth_ancestor_lt (h : t ≠ []) : tagDepth (tagAncestor t) < tagDepth t := by
  by_cases he : ancestorEnd t t.length = 0
  · rw [tagAncestor_eq_nil he]
    exact tagDepth_pos h
  · rw [← tagDepth_ancestor_of_pos he]
    exact Nat.lt_succ_self _

/-- An ancestor is one level up, unless the tag begins with a dot. -/
theorem tagDepth_ancestor (h : t ≠ []) (hd : t.head? ≠ some '.') :
    tagDepth (tagAncestor t) + 1 = tagDepth t := by
  by_cases he : ancestorEnd t t.length = 0
  · have hcount := count_drop_ancestorEnd t
    rw [he] at hcount
    obtain ⟨c, l, rfl⟩ := exists_cons_of_ne_nil h
    have hc : c ≠ '.' := fun e => hd (by rw [e, head?_cons])
    rw [tagAncestor_eq_nil he, tagDepth, if_pos rfl, tagDepth, if_neg h,
      count_cons_of_ne hc]
    rw [drop_succ_cons, drop_zero] at hcount
    rw [hcount]
  · exact tagDepth_ancestor_of_pos he

theorem head_ancestor (hd : t.head? ≠ some '.') :
    (tagAncestor t).head? ≠ some '.' := by
  rw [tagAncestor]
  cases ancestorEnd t t.length with
  | zero => simp
  | succ k => rwa [head?_take, if_neg (Nat.succ_ne_zero k)]

/-! ## 2. The tree -/

variable {T : Type*}

structure Node (T : Type*) where
  tag : Tag
  value : T
  parent : Option Nat
  children : List Nat

/-- `Oscl_TagTree`: the nodes in memory, and `nodeMap`. -/
structure TagTree (T : Type*) where
  nodes : Nat → Option (Node T)
  nodeMap : Tag → Option Nat

/-- A block of memory from the allocator: its address, and what stands in the parent field. -/
abbrev Block := Nat × Option Nat

/-- `create_node`, and `nodeMap.insert` of the node under its tag. The allocator gives no block
    that is in use. -/
def createNode (s : TagTree T) (block : Block) (t : Tag) (x : T) : Option (TagTree T) :=
  if (s.nodes block.1).isNone then
    some
      { nodes := update s.nodes block.1
          (some { tag := t, value := x, parent := block.2, children := [] })
        nodeMap := update s.nodeMap t (some block.1) }
  else none

/-- `child->parent = p; child->parent->children.push_back(child)`. -/
def setParent (s : TagTree T) (child p : Nat) : Option (TagTree T) :=
  (s.nodes child).bind fun c =>
    let nodes := update s.nodes child (some { c with parent := some p })
    (nodes p).map fun q =>
      { s with nodes := update nodes p (some { q with children := q.children ++ [child] }) }

/-- `if (child) ...`. -/
def setParentOf (s : TagTree T) (child : Option Nat) (p : Nat) : Option (TagTree T) :=
  match child with
  | none => some s
  | some c => setParent s c p

/-- The loop of `insert`: `maxloops` passes are left, and `result` is `none` before the first. -/
def insertLoop [Inhabited T] (x : T) :
    Nat → Tag → Option Nat → Option (Nat × Bool) → List Block → TagTree T →
      Option (TagTree T × Option (Nat × Bool))
  | 0, _, _, result, _, s => some (s, result)
  | maxloops + 1, currenttag, child, result, blocks, s =>
    match s.nodeMap currenttag with
    | some p => (setParentOf s child p).map fun s' => (s', result.or (some (p, false)))
    | none =>
      match blocks with
      | [] => none
      | block :: blocks =>
        (createNode s block currenttag (if result.isNone then x else default)).bind fun s' =>
          (setParentOf s' child block.1).bind fun s'' =>
            insertLoop x maxloops (tagAncestor currenttag) (some block.1)
              (result.or (some (block.1, true))) blocks s''

/-- A tag that exceeds the depth of the tree, cut down to it. -/
def truncate (maxDepth : Nat) (t : Tag) : Tag :=
  if 0 < maxDepth ∧ maxDepth < tagDepth t then tagAncestor^[tagDepth t - maxDepth] t else t

/-- `insert`: the node of the tag, and whether it is new. -/
def insert [Inhabited T] (maxDepth : Nat) (s : TagTree T) (t : Tag) (x : T)
    (blocks : List Block) : Option (TagTree T × Option (Nat × Bool)) :=
  let currenttag := truncate maxDepth t
  insertLoop x (tagDepth currenttag + 1) currenttag none none blocks s

/-- `operator[]`: the node whose value it gives. -/
def index [Inhabited T] (maxDepth : Nat) (s : TagTree T) (t : Tag) (blocks : List Block) :
    Option (TagTree T × Option Nat) :=
  (insert maxDepth s t default blocks).map fun r => (r.1, r.2.map Prod.fst)

/-- `erase` of the node the iterator is at. -/
def eraseAt [Inhabited T] (s : TagTree T) (position : Nat) : Option (TagTree T) :=
  (s.nodes position).map fun n =>
    if n.children ≠ [] then
      { s with nodes := update s.nodes position (some { n with value := default }) }
    else
      { nodes := update s.nodes position none
        nodeMap := update s.nodeMap n.tag none }

/-- `erase` by tag, and the number of nodes it says it erased. -/
def erase [Inhabited T] (s : TagTree T) (x : Tag) : Option (TagTree T × Nat) :=
  match s.nodeMap x with
  | none => some (s, 0)
  | some position => (eraseAt s position).map fun s' => (s', 1)

/-- `clear`: each node the map holds, under its own tag, is destroyed. -/
def clear (s : TagTree T) : TagTree T where
  nodes := fun a => (s.nodes a).filter fun n => s.nodeMap n.tag ≠ some a
  nodeMap := fun _ => none

/-- The constructor: the root alone. -/
def TagTree.init [Inhabited T] (root : Nat) : TagTree T where
  nodes := update (fun _ => none) root
    (some { tag := [], value := default, parent := none, children := [] })
  nodeMap := update (fun _ => none) [] (some root)

/-- A call. -/
inductive TagOp (T : Type*) where
  | insert (t : Tag) (x : T) (blocks : List Block)
  | index (t : Tag) (blocks : List Block)
  | erase (x : Tag)
  | clear

def tagStep [Inhabited T] (maxDepth : Nat) (s : TagTree T) : TagOp T → Option (TagTree T)
  | .insert t x blocks => (OsclBase.insert maxDepth s t x blocks).map Prod.fst
  | .index t blocks => (OsclBase.index maxDepth s t blocks).map Prod.fst
  | .erase x => (OsclBase.erase s x).map Prod.fst
  | .clear => some (OsclBase.clear s)

/-! ## 3. Map and pointers agree -/

open TagTree (init)

/-- The map holds exactly the nodes in memory, each under its tag; every node but the root has its
    parent in the map; and the children of a node are the nodes with its tag as ancestor, each
    once. -/
structure Consistent (s : TagTree T) : Prop where
  stored : ∀ t a, s.nodeMap t = some a ↔ ∃ n, s.nodes a = some n ∧ n.tag = t
  parent : ∀ a n, s.nodes a = some n → n.tag ≠ [] →
    ∃ p, n.parent = some p ∧ s.nodeMap (tagAncestor n.tag) = some p
  nodup : ∀ a n, s.nodes a = some n → n.children.Nodup
  children : ∀ a n, s.nodes a = some n → ∀ c,
    c ∈ n.children ↔ ∃ m, s.nodes c = some m ∧ m.tag ≠ [] ∧ tagAncestor m.tag = n.tag

variable {s : TagTree T} {n : Node T}

theorem Consistent.live (h : Consistent s) {a c : Nat}
    (hn : s.nodes a = some n) (hc : c ∈ n.children) : s.nodes c ≠ none := by
  obtain ⟨m, hm, -⟩ := (h.children a n hn c).mp hc
  rw [hm]
  exact some_ne_none m

/-- The same while the nodes at `orphans` have no parent yet. -/
structure ConsistentBut (orphans : Set Nat) (s : TagTree T) : Prop where
  stored : ∀ t a, s.nodeMap t = some a ↔ ∃ n, s.nodes a = some n ∧ n.tag = t
  parent : ∀ a n, s.nodes a = some n → n.tag ≠ [] → a ∉ orphans →
    ∃ p, n.parent = some p ∧ s.nodeMap (tagAncestor n.tag) = some p
  nodup : ∀ a n, s.nodes a = some n → n.children.Nodup
  children : ∀ a n, s.nodes a = some n → ∀ c,
    c ∈ n.children ↔
      c ∉ orphans ∧ ∃ m, s.nodes c = some m ∧ m.tag ≠ [] ∧ tagAncestor m.tag = n.tag

theorem Consistent.but (h : Consistent s) : ConsistentBut ∅ s where
  stored := h.stored
  parent := fun a n hn ht _ => h.parent a n hn ht
  nodup := h.nodup
  children := fun a n hn c => by
    rw [h.children a n hn c]
    exact (and_iff_right (Set.notMem_empty c)).symm

variable {orphans : Set Nat}

theorem ConsistentBut.of_root (h : ConsistentBut orphans s)
    (hroot : ∀ a ∈ orphans, s.nodeMap [] = some a) : Consistent s where
  stored := h.stored
  parent := fun a n hn ht => by
    refine h.parent a n hn ht fun ha => ht ?_
    obtain ⟨n', hn', ht'⟩ := (h.stored [] a).mp (hroot a ha)
    rw [hn] at hn'
    cases hn'
    exact ht'
  nodup := h.nodup
  children := fun a n hn c => by
    rw [h.children a n hn c]
    refine and_iff_right_of_imp ?_
    rintro ⟨m, hm, ht, -⟩ hc
    obtain ⟨m', hm', ht'⟩ := (h.stored [] c).mp (hroot c hc)
    rw [hm] at hm'
    cases hm'
    exact ht ht'

/-- Two nodes with one tag are one node. -/
theorem ConsistentBut.inj (h : ConsistentBut orphans s)
    {a b : Nat} {m : Node T} (hn : s.nodes a = some n) (hm : s.nodes b = some m)
    (ht : n.tag = m.tag) : a = b := by
  have ha := (h.stored n.tag a).mpr ⟨n, hn, rfl⟩
  have hb := (h.stored m.tag b).mpr ⟨m, hm, rfl⟩
  rw [ht, hb] at ha
  exact (some.inj ha).symm

variable {x : T}

variable {s' : TagTree T}

theorem createNode_cases {block : Block}
    (h : createNode s block t x = some s') :
    s.nodes block.1 = none ∧
      s'.nodes = update s.nodes block.1
        (some { tag := t, value := x, parent := block.2, children := [] }) ∧
      s'.nodeMap = update s.nodeMap t (some block.1) := by
  unfold createNode at h
  split at h
  · cases h
    exact ⟨isNone_iff_eq_none.mp ‹_›, rfl, rfl⟩
  · cases h

/-- A new node is an orphan, and so far without children: no node of the tree has the new tag as
    ancestor, but the orphans. -/
theorem ConsistentBut.createNode {block : Block}
    (h : ConsistentBut orphans s) (hs : createNode s block t x = some s')
    (ht : s.nodeMap t = none) : ConsistentBut (Insert.insert block.1 orphans) s' := by
  obtain ⟨hfree, hnodes, hmap⟩ := createNode_cases hs
  have hnew : s'.nodes block.1 = some { tag := t, value := x, parent := block.2, children := [] } :=
    by rw [hnodes, update_self]
  have hold : ∀ {a n}, s'.nodes a = some n → a ≠ block.1 → s.nodes a = some n := by
    intro a n hn ha
    rwa [hnodes, update_of_ne ha] at hn
  have hkeep : ∀ {a n}, s.nodes a = some n → s'.nodes a = some n ∧ a ≠ block.1 := by
    intro a n hn
    have ha : a ≠ block.1 := by rintro rfl; rw [hfree] at hn; cases hn
    exact ⟨by rwa [hnodes, update_of_ne ha], ha⟩
  have htag : ∀ {a n}, s.nodes a = some n → n.tag ≠ t := by
    rintro a n hn rfl
    rw [(h.stored n.tag a).mpr ⟨n, hn, rfl⟩] at ht
    cases ht
  refine ⟨?_, ?_, ?_, ?_⟩
  · intro u a
    rw [hmap]
    by_cases hu : u = t
    · rw [hu, update_self]
      constructor
      · rintro ⟨⟩
        exact ⟨_, hnew, rfl⟩
      · rintro ⟨n, hn, hnt⟩
        by_cases ha : a = block.1
        · rw [ha]
        · exact absurd hnt (htag (hold hn ha))
    · rw [update_of_ne hu, h.stored u a]
      constructor
      · rintro ⟨n, hn, hnt⟩
        exact ⟨n, (hkeep hn).1, hnt⟩
      · rintro ⟨n, hn, hnt⟩
        refine ⟨n, hold hn ?_, hnt⟩
        rintro rfl
        rw [hnew] at hn
        cases hn
        exact hu hnt.symm
  · intro a n hn hne ho
    rw [Set.mem_insert_iff, not_or] at ho
    obtain ⟨p, hp, hpm⟩ := h.parent a n (hold hn ho.1) hne ho.2
    refine ⟨p, hp, ?_⟩
    rw [hmap, update_of_ne]
    · exact hpm
    · intro e
      rw [e, ht] at hpm
      cases hpm
  · intro a n hn
    by_cases ha : a = block.1
    · rw [ha, hnew] at hn
      cases hn
      exact nodup_nil
    · exact h.nodup a n (hold hn ha)
  · intro a n hn c
    rw [Set.mem_insert_iff, not_or]
    by_cases ha : a = block.1
    · rw [ha, hnew] at hn
      cases hn
      refine iff_of_false not_mem_nil ?_
      rintro ⟨⟨hc, ho⟩, m, hm, hne, hanc⟩
      obtain ⟨p, -, hpm⟩ := h.parent c m (hold hm hc) hne ho
      rw [hanc, ht] at hpm
      cases hpm
    · rw [h.children a n (hold hn ha) c]
      constructor
      · rintro ⟨ho, m, hm, hrest⟩
        exact ⟨⟨(hkeep hm).2, ho⟩, m, (hkeep hm).1, hrest⟩
      · rintro ⟨⟨hc, ho⟩, m, hm, hrest⟩
        exact ⟨ho, m, hold hm hc, hrest⟩

theorem setParent_cases {child p : Nat} (h : setParent s child p = some s') :
    ∃ c q, s.nodes child = some c ∧
      update s.nodes child (some { c with parent := some p }) p = some q ∧
      s'.nodeMap = s.nodeMap ∧
      s'.nodes = update
        (update s.nodes child (some { c with parent := some p })) p
        (some { q with children := q.children ++ [child] }) := by
  obtain ⟨c, hc, h⟩ := bind_eq_some_iff.mp h
  obtain ⟨q, hq, h⟩ := map_eq_some_iff.mp h
  cases h
  exact ⟨c, q, hc, hq, rfl, rfl⟩

/-- An orphan gets the node with its ancestor's tag as parent, and is no orphan any more. -/
theorem ConsistentBut.setParent {child p : Nat} {c : Node T}
    (h : ConsistentBut orphans s) (hs : setParent s child p = some s')
    (hc : s.nodes child = some c) (ho : child ∈ orphans) (hne : c.tag ≠ [])
    (hp : s.nodeMap (tagAncestor c.tag) = some p) : ConsistentBut (orphans \ {child}) s' := by
  obtain ⟨c', q, hc', hq, hmap, hnodes⟩ := setParent_cases hs
  rw [hc] at hc'
  cases hc'
  obtain ⟨q', hq', hqt⟩ := (h.stored _ p).mp hp
  have hpc : p ≠ child := by
    rintro rfl
    rw [hc] at hq'
    cases hq'
    exact absurd (congrArg tagDepth hqt) (Nat.ne_of_gt (tagDepth_ancestor_lt hne))
  rw [update_of_ne hpc, hq'] at hq
  cases hq
  -- every node keeps its tag; the child's parent and the parent's children are all that changes
  have hsame : ∀ a, a ≠ child → a ≠ p → s'.nodes a = s.nodes a := by
    intro a h1 h2
    rw [hnodes, update_of_ne h2, update_of_ne h1]
  have hchild : s'.nodes child = some { c with parent := some p } := by
    rw [hnodes, update_of_ne (Ne.symm hpc), update_self]
  have hparent : s'.nodes p = some { q with children := q.children ++ [child] } := by
    rw [hnodes, update_self]
  have htag : ∀ a u, (∃ n, s'.nodes a = some n ∧ n.tag = u) ↔ ∃ n, s.nodes a = some n ∧ n.tag = u := by
    intro a u
    by_cases h1 : a = child
    · subst h1
      rw [hchild, hc]
      simp
    by_cases h2 : a = p
    · subst h2
      rw [hparent, hq']
      simp
    rw [hsame a h1 h2]
  have hkids : ∀ a u, (∃ n, s'.nodes a = some n ∧ n.tag ≠ [] ∧ tagAncestor n.tag = u) ↔
      ∃ n, s.nodes a = some n ∧ n.tag ≠ [] ∧ tagAncestor n.tag = u := by
    intro a u
    constructor
    · rintro ⟨n, hn, hrest⟩
      obtain ⟨m, hm, hmt⟩ := (htag a n.tag).mp ⟨n, hn, rfl⟩
      exact ⟨m, hm, by rwa [hmt]⟩
    · rintro ⟨n, hn, hrest⟩
      obtain ⟨m, hm, hmt⟩ := (htag a n.tag).mpr ⟨n, hn, rfl⟩
      exact ⟨m, hm, by rwa [hmt]⟩
  have hnot : child ∉ q.children := fun hm => ((h.children p q hq' child).mp hm).1 ho
  refine ⟨?_, ?_, ?_, ?_⟩
  · intro u a
    rw [hmap, h.stored u a, htag]
  · intro a n hn hnt hao
    by_cases h1 : a = child
    · subst h1
      rw [hchild] at hn
      cases hn
      exact ⟨p, rfl, by rwa [hmap]⟩
    have hao' : a ∉ orphans := fun ha => hao ⟨ha, h1⟩
    by_cases h2 : a = p
    · subst h2
      rw [hparent] at hn
      cases hn
      obtain ⟨p', hp'⟩ := h.parent a q hq' hnt hao'
      exact ⟨p', hp'.1, by rw [hmap]; exact hp'.2⟩
    rw [hsame a h1 h2] at hn
    rw [hmap]
    exact h.parent a n hn hnt hao'
  · intro a n hn
    by_cases h1 : a = child
    · subst h1
      rw [hchild] at hn
      cases hn
      exact h.nodup a c hc
    by_cases h2 : a = p
    · subst h2
      rw [hparent] at hn
      cases hn
      refine nodup_append.mpr ⟨h.nodup a q hq', nodup_singleton _, ?_⟩
      intro x hx y hy e
      rw [mem_singleton] at hy
      exact hnot (by rwa [← hy, ← e])
    rw [hsame a h1 h2] at hn
    exact h.nodup a n hn
  · intro a n hn d
    rw [hkids]
    have hdiff : d ∉ orphans \ {child} ↔ d ∉ orphans ∨ d = child := by
      rw [Set.mem_sdiff, Set.mem_singleton_iff]
      tauto
    rw [hdiff]
    by_cases h2 : a = p
    · subst h2
      rw [hparent] at hn
      cases hn
      rw [mem_append, mem_singleton, h.children a q hq' d]
      constructor
      · rintro (⟨h3, h4⟩ | rfl)
        · exact ⟨.inl h3, h4⟩
        · exact ⟨.inr rfl, c, hc, hne, hqt.symm⟩
      · rintro ⟨h3 | rfl, h4⟩
        · exact .inl ⟨h3, h4⟩
        · exact .inr rfl
    -- another node has another tag, so the child is none of its children
    have hold : ∃ n', s.nodes a = some n' ∧ n'.tag = n.tag ∧ n'.children = n.children := by
      by_cases h1 : a = child
      · subst h1
        rw [hchild] at hn
        cases hn
        exact ⟨c, hc, rfl, rfl⟩
      · exact ⟨n, by rwa [← hsame a h1 h2], rfl, rfl⟩
    obtain ⟨n', hn', ht', hch⟩ := hold
    rw [← hch, h.children a n' hn' d, ht']
    constructor
    · rintro ⟨h3, h4⟩
      exact ⟨.inl h3, h4⟩
    · rintro ⟨h3 | rfl, m, hm, hmt, hanc⟩
      · exact ⟨h3, m, hm, hmt, hanc⟩
      · rw [hc] at hm
        cases hm
        exact absurd (h.inj hn' hq' (by rw [ht', hqt, ← hanc])) h2

/-! ## 4. The calls -/

theorem clear_consistent (h : Consistent s) : Consistent (clear s) := by
  have hnone : ∀ a n, (clear s).nodes a ≠ some n := by
    intro a n hn
    obtain ⟨hn, hne⟩ := filter_eq_some_iff.mp hn
    have := (h.stored n.tag a).mpr ⟨n, hn, rfl⟩
    exact absurd this (by simpa using hne)
  constructor
  · intro t a
    refine iff_of_false (fun e => by cases e) ?_
    rintro ⟨n, hn, -⟩
    exact hnone a n hn
  all_goals
    intro a n hn
    exact absurd hn (hnone a n)

/-- A childless root goes: no node has it as parent. -/
theorem eraseAt_root {a : Nat} (h : Consistent s)
    (hn : s.nodes a = some n) (ht : n.tag = []) (hch : n.children = []) :
    Consistent { nodes := update s.nodes a none
                 nodeMap := update s.nodeMap n.tag none } := by
  have hold : ∀ {b m}, update s.nodes a none b = some m → b ≠ a ∧ s.nodes b = some m := by
    intro b m hm
    by_cases hb : b = a
    · rw [hb, update_self] at hm
      cases hm
    · exact ⟨hb, by rwa [update_of_ne hb] at hm⟩
  have hroot : s.nodeMap [] = some a := (h.stored [] a).mpr ⟨n, hn, ht⟩
  have htag : ∀ {b m}, s.nodes b = some m → b ≠ a → m.tag ≠ [] := by
    intro b m hm hb ht'
    have := (h.stored [] b).mpr ⟨m, hm, ht'⟩
    rw [hroot] at this
    exact hb (some.inj this).symm
  have hanc : ∀ {b m}, s.nodes b = some m → m.tag ≠ [] → tagAncestor m.tag ≠ [] := by
    intro b m hm hmt he
    have := (h.children a n hn b).mpr ⟨m, hm, hmt, by rw [he, ht]⟩
    rw [hch] at this
    exact not_mem_nil this
  constructor
  · intro t b
    dsimp only
    rw [ht]
    by_cases htn : t = []
    · rw [htn, update_self]
      refine iff_of_false (by simp) ?_
      rintro ⟨m, hm, hmt⟩
      obtain ⟨hb, hm⟩ := hold hm
      exact htag hm hb hmt
    · rw [update_of_ne htn, h.stored t b]
      constructor
      · rintro ⟨m, hm, hmt⟩
        have hb : b ≠ a := by
          rintro rfl
          rw [hn] at hm
          cases hm
          exact htn (by rw [← hmt, ht])
        exact ⟨m, by rwa [update_of_ne hb], hmt⟩
      · rintro ⟨m, hm, hmt⟩
        exact ⟨m, (hold hm).2, hmt⟩
  · intro b m hm hmt
    obtain ⟨-, hm⟩ := hold hm
    obtain ⟨p, hp, hpm⟩ := h.parent b m hm hmt
    refine ⟨p, hp, ?_⟩
    dsimp only
    rw [ht, update_of_ne (hanc hm hmt)]
    exact hpm
  · intro b m hm
    exact h.nodup b m (hold hm).2
  · intro b m hm c
    obtain ⟨hb, hm⟩ := hold hm
    rw [h.children b m hm c]
    constructor
    · rintro ⟨k, hk, hkt, he⟩
      have hc : c ≠ a := by
        rintro rfl
        rw [hn] at hk
        cases hk
        exact hkt ht
      exact ⟨k, (update_of_ne hc _ _).trans hk, hkt, he⟩
    · rintro ⟨k, hk, hkt, he⟩
      exact ⟨k, (hold hk).2, hkt, he⟩

variable [Inhabited T]

/-- **The loop of `insert`.** It leaves the tree consistent: it meets the root it looks for, or,
    where there is none, it makes the root in its last pass. -/
theorem insertLoop_consistent {maxloops : Nat} {currenttag : Tag} {child : Option Nat}
    {result : Option (Nat × Bool)} {blocks : List Block}
    {r : Option (Nat × Bool)}
    (hs : insertLoop x maxloops currenttag child result blocks s = some (s', r))
    (h : ConsistentBut {c | child = some c} s)
    (hchild : ∀ c, child = some c →
      ∃ n, s.nodes c = some n ∧ n.tag ≠ [] ∧ tagAncestor n.tag = currenttag)
    (hloops : (s.nodeMap [] ≠ none ∧ tagDepth currenttag < maxloops) ∨
      (currenttag.head? ≠ some '.' ∧ tagDepth currenttag + 1 = maxloops)) :
    Consistent s' := by
  -- induction on the passes that are left; the child's parent is looked for in this one
  induction maxloops generalizing currenttag child result blocks s with
  | zero => omega
  | succ maxloops ih =>
    have hset : ∀ {s₁ s₂ : TagTree T} {p : Nat} {orphans : Set Nat},
        setParentOf s₁ child p = some s₂ → ConsistentBut orphans s₁ →
        (∀ c, child = some c → c ∈ orphans ∧
          ∃ n, s₁.nodes c = some n ∧ n.tag ≠ [] ∧ tagAncestor n.tag = currenttag) →
        s₁.nodeMap currenttag = some p →
        ConsistentBut (orphans \ {c | child = some c}) s₂ ∧ s₂.nodeMap = s₁.nodeMap := by
      intro s₁ s₂ p orphans hs₁ h₁ hc₁ hp
      cases child with
      | none =>
        cases hs₁
        refine ⟨?_, rfl⟩
        have e : orphans \ {c | (none : Option Nat) = some c} = orphans := by ext; simp
        rwa [e]
      | some c =>
        obtain ⟨ho, n, hn, hne, hanc⟩ := hc₁ c rfl
        have e : {c' | some c = some c'} = ({c} : Set Nat) := by ext; simp [eq_comm]
        rw [e]
        obtain ⟨-, -, -, -, hmap, -⟩ := setParent_cases hs₁
        exact ⟨h₁.setParent hs₁ hn ho hne (by rwa [hanc]), hmap⟩
    unfold insertLoop at hs
    split at hs
    · -- the tag is there
      rename_i p hp
      obtain ⟨s₂, hs₂, e⟩ := map_eq_some_iff.mp hs
      cases e
      obtain ⟨h₂, -⟩ := hset hs₂ h (fun c hc => ⟨hc, hchild c hc⟩) hp
      rw [Set.sdiff_self] at h₂
      exact h₂.of_root fun a ha => absurd ha (Set.notMem_empty a)
    · rename_i hnone
      split at hs
      · cases hs
      · rename_i block blocks'
        obtain ⟨s₁, hs₁, hs⟩ := bind_eq_some_iff.mp hs
        obtain ⟨s₂, hs₂, hs⟩ := bind_eq_some_iff.mp hs
        obtain ⟨hfree, hnodes, hmap⟩ := createNode_cases hs₁
        have hfresh : ∀ c, child = some c → c ≠ block.1 := by
          rintro c hc rfl
          obtain ⟨n, hn, -⟩ := hchild _ hc
          rw [hfree] at hn
          cases hn
        obtain ⟨h₂, hmap₂⟩ := hset hs₂ (h.createNode hs₁ hnone)
          (fun c hc => by
            obtain ⟨n, hn, hrest⟩ := hchild c hc
            refine ⟨Set.mem_insert_of_mem _ hc, n, ?_, hrest⟩
            rw [hnodes, update_of_ne (hfresh c hc), hn])
          (by rw [hmap, update_self])
        have hold : Insert.insert block.1 {c | child = some c} \ {c | child = some c}
            = {c | some block.1 = some c} := by
          ext a
          simp only [Set.mem_sdiff, Set.mem_insert_iff, Set.mem_ofPred_eq, some.injEq]
          constructor
          · rintro ⟨h1 | h1, h2⟩
            · exact h1.symm
            · exact absurd h1 h2
          · rintro rfl
            exact ⟨.inl rfl, fun hc => hfresh _ hc rfl⟩
        rw [hold] at h₂
        have hpos : s₂.nodeMap currenttag = some block.1 := by
          rw [hmap₂, hmap, update_self]
        by_cases hroot : currenttag = []
        · -- the root is new: this was the last pass
          subst hroot
          have hz : maxloops = 0 := by
            rcases hloops with ⟨h1, -⟩ | ⟨-, h1⟩
            · exact absurd hnone h1
            · have : tagDepth [] = 0 := rfl
              omega
          subst hz
          cases hs
          exact h₂.of_root fun a ha => by cases ha; exact hpos
        · refine ih hs h₂ ?_ ?_
          · rintro c ⟨⟩
            obtain ⟨n, hn, ht⟩ := (h₂.stored _ _).mp hpos
            exact ⟨n, hn, by rwa [ht], by rw [ht]⟩
          · rcases hloops with ⟨h1, h2⟩ | ⟨h1, h2⟩
            · refine .inl ⟨?_, ?_⟩
              · rw [hmap₂, hmap, update_of_ne (Ne.symm hroot)]
                exact h1
              · have := tagDepth_ancestor_lt hroot
                omega
            · refine .inr ⟨head_ancestor h1, ?_⟩
              have := tagDepth_ancestor hroot h1
              omega

theorem insert_consistent {maxDepth : Nat}
    {blocks : List Block} {r : Option (Nat × Bool)} (h : Consistent s)
    (hs : insert maxDepth s t x blocks = some (s', r))
    (hok : s.nodeMap [] ≠ none ∨ (truncate maxDepth t).head? ≠ some '.') : Consistent s' := by
  refine insertLoop_consistent hs ?_ (fun c hc => by cases hc) ?_
  · have e : {c | (none : Option Nat) = some c} = ∅ := by ext; simp
    rw [e]
    exact h.but
  · exact hok.imp (fun h1 => ⟨h1, Nat.lt_succ_self _⟩) fun h1 => ⟨h1, rfl⟩

/-- A node with children stays, with another value. -/
theorem eraseAt_inner {a : Nat} (h : Consistent s)
    (hn : s.nodes a = some n) :
    Consistent
      { s with nodes := update s.nodes a (some { n with value := default }) } := by
  -- only a value changes: each node read afterwards is a node before, but for its value
  have hsame : ∀ b m', update s.nodes a (some { n with value := default }) b = some m' ↔
      ∃ m, s.nodes b = some m ∧ m' = if b = a then { m with value := default } else m := by
    intro b m'
    by_cases hb : b = a
    · subst hb
      rw [update_self, hn]
      simp [eq_comm]
    · rw [update_of_ne hb]
      simp [hb]
  have hfield : ∀ (b : Nat) (m : Node T),
      (if b = a then { m with value := default } else m).tag = m.tag ∧
        (if b = a then { m with value := default } else m).parent = m.parent ∧
          (if b = a then { m with value := default } else m).children = m.children := by
    intro b m
    split <;> exact ⟨rfl, rfl, rfl⟩
  constructor
  · intro t b
    rw [h.stored t b]
    constructor
    · rintro ⟨m, hm, ht⟩
      exact ⟨_, (hsame b _).mpr ⟨m, hm, rfl⟩, by rw [(hfield b m).1]; exact ht⟩
    · rintro ⟨m', hm', ht⟩
      obtain ⟨m, hm, rfl⟩ := (hsame b _).mp hm'
      exact ⟨m, hm, by rwa [(hfield b m).1] at ht⟩
  · intro b m' hm' ht
    obtain ⟨m, hm, rfl⟩ := (hsame b _).mp hm'
    rw [(hfield b m).1] at ht ⊢
    rw [(hfield b m).2.1]
    exact h.parent b m hm ht
  · intro b m' hm'
    obtain ⟨m, hm, rfl⟩ := (hsame b _).mp hm'
    rw [(hfield b m).2.2]
    exact h.nodup b m hm
  · intro b m' hm' c
    obtain ⟨m, hm, rfl⟩ := (hsame b _).mp hm'
    rw [(hfield b m).2.2, (hfield b m).1, h.children b m hm c]
    constructor
    · rintro ⟨k, hk, hkt, hanc⟩
      refine ⟨_, (hsame c _).mpr ⟨k, hk, rfl⟩, ?_⟩
      rw [(hfield c k).1]
      exact ⟨hkt, hanc⟩
    · rintro ⟨k', hk', hkt, hanc⟩
      obtain ⟨k, hk, rfl⟩ := (hsame c _).mp hk'
      rw [(hfield c k).1] at hkt hanc
      exact ⟨k, hk, hkt, hanc⟩

theorem init_consistent (root : Nat) : Consistent (init (T := T) root) := by
  have hroot : ∀ {a n}, (init (T := T) root).nodes a = some n →
      a = root ∧ n = { tag := [], value := default, parent := none, children := [] } := by
    intro a n hn
    unfold init at hn
    dsimp only at hn
    by_cases ha : a = root
    · rw [ha, update_self] at hn
      cases hn
      exact ⟨ha, rfl⟩
    · rw [update_of_ne ha] at hn
      cases hn
  constructor
  · intro t a
    unfold init
    dsimp only
    by_cases ht : t = []
    · rw [ht, update_self]
      constructor
      · rintro ⟨⟩
        exact ⟨_, update_self .., rfl⟩
      · rintro ⟨n, hn, -⟩
        rw [(hroot hn).1]
    · rw [update_of_ne ht]
      refine iff_of_false (by simp) ?_
      rintro ⟨n, hn, hnt⟩
      rw [(hroot hn).2] at hnt
      exact ht hnt.symm
  · intro a n hn ht
    exact absurd (by rw [(hroot hn).2]) ht
  · intro a n hn
    rw [(hroot hn).2]
    exact nodup_nil
  · intro a n hn c
    rw [(hroot hn).2]
    refine iff_of_false not_mem_nil ?_
    rintro ⟨m, hm, ht, -⟩
    rw [(hroot hm).2] at ht
    exact ht rfl

/-! ## 5. Runs -/

/-- The calls that keep map and pointers in agreement: an insertion into a tree with its root, or
    of a tag that does not begin with a dot; an erasure that finds nothing, the root, or a node
    with children. -/
def safeCall (maxDepth : Nat) (s : TagTree T) : TagOp T → Bool
  | .insert t _ _ | .index t _ =>
    (s.nodeMap []).isSome || decide ((truncate maxDepth t).head? ≠ some '.')
  | .erase x =>
    match s.nodeMap x with
    | none => true
    | some a => decide (x = []) || (s.nodes a).all fun n => decide (n.children ≠ [])
  | .clear => true

theorem tagStep_consistent {maxDepth : Nat} {op : TagOp T}
    (h : Consistent s) (hok : safeCall maxDepth s op) (hs : tagStep maxDepth s op = some s') :
    Consistent s' := by
  have hins : ∀ {t : Tag}, ((s.nodeMap []).isSome ||
      decide ((truncate maxDepth t).head? ≠ some '.')) = true →
      s.nodeMap [] ≠ none ∨ (truncate maxDepth t).head? ≠ some '.' := by
    intro t ht
    rw [Bool.or_eq_true, decide_eq_true_iff, isSome_iff_ne_none] at ht
    exact ht
  cases op with
  | insert t x blocks =>
    obtain ⟨⟨s₁, r⟩, hr, rfl⟩ := map_eq_some_iff.mp hs
    exact insert_consistent h hr (hins hok)
  | index t blocks =>
    obtain ⟨⟨s₁, r⟩, hr, rfl⟩ := map_eq_some_iff.mp hs
    obtain ⟨⟨s₂, r'⟩, hr', e⟩ := map_eq_some_iff.mp hr
    cases e
    exact insert_consistent h hr' (hins hok)
  | erase x =>
    obtain ⟨⟨s₁, r⟩, hr, rfl⟩ := map_eq_some_iff.mp hs
    unfold erase at hr
    unfold safeCall at hok
    split at hr
    · cases hr
      exact h
    · rename_i a ha
      obtain ⟨s₂, hs₂, e⟩ := map_eq_some_iff.mp hr
      cases e
      obtain ⟨n, hn, rfl⟩ := map_eq_some_iff.mp hs₂
      simp only [ha, hn, all_some, Bool.or_eq_true, decide_eq_true_iff] at hok
      obtain ⟨n', hn', hnt⟩ := (h.stored x a).mp ha
      rw [hn] at hn'
      cases hn'
      split
      · exact eraseAt_inner h hn
      · rename_i hch
        rcases hok with hx | hok
        · exact eraseAt_root h hn (hnt.trans hx) (not_not.mp hch)
        · exact absurd hok hch
  | clear =>
    cases hs
    exact clear_consistent h

/-- **The tree is consistent all along every run of safe calls**: each node's children are exactly
    the nodes of the tree under its tag, each once, and each parent pointer is right. -/
theorem consistent_of_safe_run (maxDepth root : Nat) {ops : List (TagOp T)} {s : TagTree T}
    (hr : Run (onlyWhen (fun s op => safeCall maxDepth s op) (stepsOf (tagStep maxDepth)))
      (init root) ops s) :
    Consistent s :=
  Run.invariant (init_consistent root)
    (fun _ _ _ h hs => tagStep_consistent h hs.1 hs.2) hr

/-- A safe run: a tag with its ancestor, another by `operator[]`, the value of an inner node
    erased, everything cleared, and a tree built again. -/
theorem consistent_of_safe_run_ab : ∃ s : TagTree Nat,
    Run (onlyWhen (fun s op => safeCall 2 s op) (stepsOf (tagStep 2))) (init 0)
      [.insert ['a', '.', 'b', '.', 'c'] 5 [(1, none), (2, some 7)], .index ['d'] [(3, none)],
        .erase ['a'], .clear, .insert ['d'] 6 [(2, none), (1, some 9)]] s ∧
      Consistent s := by
  have hsome : (execAll (guarded (fun s op => safeCall 2 s op = true) (tagStep 2))
      (init (T := Nat) 0)
      [.insert ['a', '.', 'b', '.', 'c'] 5 [(1, none), (2, some 7)], .index ['d'] [(3, none)],
        .erase ['a'], .clear, .insert ['d'] 6 [(2, none), (1, some 9)]]).isSome := by
    decide +kernel
  obtain ⟨s, hs⟩ := isSome_iff_exists.mp hsome
  have hr := Run.of_guarded hs
  exact ⟨s, hr, consistent_of_safe_run 2 0 hr⟩

/-- A leaf inserted and erased: the root keeps a pointer to the freed node. -/
theorem erased_leaf_dangles : ∃ s : TagTree Nat,
    execAll (tagStep 0) (init 0) [.insert ['a'] 1 [(1, none)], .erase ['a']] = some s ∧
      (s.nodes 0).map Node.children = some [1] ∧ s.nodes 1 = none ∧ ¬ Consistent s := by
  have hrun : (execAll (tagStep 0) (init (T := Nat) 0)
      [.insert ['a'] 1 [(1, none)], .erase ['a']]).map
        (fun s => ((s.nodes 0).map Node.children, (s.nodes 1).isNone)) =
      some (some [1], true) := by decide +kernel
  obtain ⟨s, hs, hv⟩ := map_eq_some_iff.mp hrun
  rw [Prod.mk.injEq, isNone_iff_eq_none] at hv
  refine ⟨s, hs, hv.1, hv.2, fun h => ?_⟩
  obtain ⟨n, hn, hch⟩ := map_eq_some_iff.mp hv.1
  exact h.live hn (by rw [hch]; exact mem_singleton_self 1) hv.2

-- Without a root, a tag that begins with a dot takes a pass too many: the new root becomes its own
-- child.
example : ((execAll (tagStep 0) (init (T := Nat) 0)
    [.clear, .insert ['.', 'a'] 1 [(1, none), (2, none)]]).bind fun s => s.nodes 2).map
      Node.children = some [1, 2] := by decide +kernel

end OpenCore.OsclBase
