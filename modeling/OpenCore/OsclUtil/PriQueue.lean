/-
  File:      OpenCore/OsclUtil/PriQueue.lean
  Subject:   `OsclPriorityQueue` (oscl_priqueue.h, oscl_priqueue.cpp), as the code computes it.

  The vector `v` is a list, an iterator is a position. `compare` is the `comp.compare` of the
  template ("priority of a is less than priority of b"); the sifts of the source take iterators
  `first`, `last` and compute parents and children RELATIVE to `first`, and so do the ones here.
-/
import OpenCore.Lib.Run

namespace OpenCore.OsclPriorityQueue

variable {α : Type*}

/-! ## 1. The operations of the opaque element type -/

/-- `compare_LT` on two positions of the vector. -/
def compareLT (compare : α → α → Bool) (v : List α) (i j : Nat) : Bool :=
  match v[i]?, v[j]? with
  | some a, some b => compare a b
  | _, _ => false

/-- `swap` on two positions of the vector. -/
def swap (v : List α) (i j : Nat) : List α :=
  match v[i]?, v[j]? with
  | some a, some b => (v.set i b).set j a
  | _, _ => v

/-! ## 2. `push_heap`, `pop_heap`, `find_heap` -/

section Heap

variable (compare : α → α → Bool)

/-- The loop of `push_heap`: `index` climbs to `(index - 1) / 2` while its parent is less. -/
def pushHeapLoop (first : Nat) : Nat → Nat → List α → List α
  | 0, _, v => v
  | fuel + 1, index, v =>
    if 0 < index ∧ compareLT compare v (first + (index - 1) / 2) (first + index) then
      pushHeapLoop first fuel ((index - 1) / 2)
        (swap v (first + index) (first + (index - 1) / 2))
    else v

/-- `push_heap(first, last)`. -/
def pushHeap (first last : Nat) (v : List α) : List α :=
  pushHeapLoop compare first (last - first) (last - first - 1) v

/-- The child `pop_heap` goes on with: the right one where the left one is less. -/
def greaterChild (first newLast : Nat) (v : List α) (child : Nat) : Nat :=
  if child + 1 < newLast ∧ compareLT compare v (first + child) (first + (child + 1)) then child + 1
  else child

/-- The loop of `pop_heap`, with `new_last_index` in `newLast`. -/
def popHeapLoop (first newLast : Nat) : Nat → Nat → List α → List α
  | 0, _, v => v
  | fuel + 1, index, v =>
    if 2 * index + 1 < newLast then
      let child := greaterChild compare first newLast v (2 * index + 1)
      if compareLT compare v (first + index) (first + child) then
        popHeapLoop first newLast fuel child (swap v (first + index) (first + child))
      else v
    else v

/-- `pop_heap(first, last)`: the first entry goes to the end, the rest is sifted down. -/
def popHeap (first last : Nat) (v : List α) : List α :=
  popHeapLoop compare first (last - first - 1) (last - first) 0 (swap v first (last - 1))

/-- `find_heap`: the first position whose element is equal to the input. -/
def findHeap [DecidableEq α] (input : α) (v : List α) : Option Nat :=
  v.findIdx? (fun e => e == input)

/-! ## 3. The queue -/

def top (v : List α) : Option α := v.head?

def push (v : List α) (input : α) : List α :=
  pushHeap compare 0 (v.length + 1) (v ++ [input])

/-- Remove the top element (of a queue that has one). -/
def pop (v : List α) : List α :=
  (popHeap compare 0 v.length v).dropLast

/-- `OsclPriorityQueueBase::remove` past `find_heap`: the entry at `pos` is taken out. -/
def removeAt (v : List α) (pos : Nat) : List α :=
  if pos + 1 = v.length then v.dropLast
  else pushHeap compare 0 (pos + 1) (popHeap compare pos v.length v).dropLast

/-- `remove`: the first match goes; the answer is the number of items removed. -/
def remove [DecidableEq α] (v : List α) (input : α) : List α × Nat :=
  match findHeap input v with
  | some pos => (removeAt compare v pos, 1)
  | none => (v, 0)

/-- `validate` from position `par` on, for `left` more positions. -/
def validateFrom (v : List α) : Nat → Nat → Int
  | 0, _ => -1
  | left + 1, par =>
    if 2 * par + 1 < v.length ∧ compareLT compare v par (2 * par + 1) then par
    else if 2 * par + 2 < v.length ∧ compareLT compare v par (2 * par + 2) then par
    else validateFrom v left (par + 1)

/-- `validate`: the first parent less than one of its children, or -1. -/
def validate (v : List α) : Int := validateFrom compare v v.length 0

end Heap

/-! ## 4. Runs -/

/-- The calls on a queue. -/
inductive Op (α : Type*) where
  | push (x : α)
  | pop
  | remove (x : α)

/-- What one call does. `pop` reads the element before `end()`, so an empty queue has none. -/
def step [DecidableEq α] (compare : α → α → Bool) (v : List α) : Op α → Option (List α)
  | .push x => some (push compare v x)
  | .pop => if v = [] then none else some (pop compare v)
  | .remove x => some (remove compare v x).1

/-- **The purpose of the queue**: a bag, from which `pop` takes a greatest element and `remove`
    takes one occurrence of its argument. -/
inductive BagStep [DecidableEq α] (compare : α → α → Bool) :
    Multiset α → Op α → Multiset α → Prop where
  | push (s : Multiset α) (x : α) : BagStep compare s (.push x) (x ::ₘ s)
  | pop (s : Multiset α) (t : α) (ht : t ∈ s) (hmax : ∀ y ∈ s, compare t y = false) :
      BagStep compare s .pop (s.erase t)
  | remove (s : Multiset α) (x : α) : BagStep compare s (.remove x) (s.erase x)

end OpenCore.OsclPriorityQueue
