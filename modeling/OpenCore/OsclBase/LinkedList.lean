/-
  File:      OpenCore/OsclBase/LinkedList.lean
  Subject:   `Oscl_Linked_List` (oscl_linked_list.h, oscl_linked_list.cpp) as the code computes it,
             and the list with a cursor it stands for.

  The elements lie in memory under addresses. A call that allocates is given the address the
  allocator hands out; it is undefined (`none`) where that address is in use. A dereference of a
  null or freed pointer, and an `int32` count past its range, are undefined too.
-/
import OpenCore.Lib.Chain
import OpenCore.Lib.Run

namespace OpenCore.OsclBase

variable {α : Type}

/-! ## 1. The code -/

abbrev LinkedListElement (α : Type) := Cell Nat α

/-- `Oscl_Linked_List_Base`. -/
structure LinkedList (α : Type) where
  mem : Nat → Option (LinkedListElement α)
  head : Option Nat
  tail : Option Nat
  iterator : Option Nat
  numElements : Int

/-- `construct`. -/
def LinkedList.init : LinkedList α where
  mem := fun _ => none
  head := none
  tail := none
  iterator := none
  numElements := 0

/-- `allocate` and `construct` of an element. -/
def allocate (s : LinkedList α) (p : Nat) (x : α) : Option (LinkedList α) :=
  if (s.mem p).isNone then some { s with mem := Function.update s.mem p (some ⟨none, x⟩) }
  else none

/-- `set_next`. -/
def setNext (s : LinkedList α) (elem : Nat) (nextelem : Option Nat) : Option (LinkedList α) :=
  (s.mem elem).map fun c =>
    { s with mem := Function.update s.mem elem (some ⟨nextelem, c.data⟩) }

/-- `++num_elements`. -/
def countUp (s : LinkedList α) : Option (LinkedList α) :=
  if s.numElements < 2147483647 then some { s with numElements := s.numElements + 1 } else none

/-- `get_first`: the element it returns with 1, nothing with 0. -/
def getFirst (s : LinkedList α) : Option (LinkedList α × Option α) :=
  match s.head with
  | none => some (s, none)
  | some p => (s.mem p).map fun c => ({ s with iterator := some p }, some c.data)

/-- `get_next`. -/
def getNext (s : LinkedList α) : Option (LinkedList α × Option α) :=
  if s.iterator = s.tail then some (s, none)
  else
    match s.iterator with
    | none =>
      match s.head with
      | none => some (s, none)
      | some p => (s.mem p).map fun c => ({ s with iterator := some p }, some c.data)
    | some it =>
      (s.mem it).bind fun e =>
        e.next.bind fun p =>
          (s.mem p).map fun c => ({ s with iterator := some p }, some c.data)

/-- The loop of `check_list`, which counts the elements from `tmp` on. -/
def countFrom (mem : Nat → Option (LinkedListElement α)) : Nat → Option Nat → Int → Option Int
  | _, none, ii => some ii
  | 0, some _, _ => none
  | fuel + 1, some tmp, ii => (mem tmp).bind fun c => countFrom mem fuel c.next (ii + 1)

/-- `check_list`. -/
def checkList (s : LinkedList α) : Option Int :=
  (countFrom s.mem s.numElements.toNat s.head 0).map fun ii =>
    if ii = s.numElements then 1 else 0

/-- The new element linked in behind the tail. -/
def linkLast (s : LinkedList α) (ptr : Nat) : Option (LinkedList α) :=
  match s.tail with
  | none => some { s with head := some ptr, tail := some ptr }
  | some tail => (setNext s tail (some ptr)).map fun s => { s with tail := some ptr }

/-- `add_element`. -/
def addElement (s : LinkedList α) (x : α) (ptr : Nat) : Option (LinkedList α × Int) := do
  let s ← allocate s ptr x
  let s ← linkLast s ptr
  let s ← countUp s
  return (s, 1)

/-- The new element linked in before the head. -/
def linkFirst (s : LinkedList α) (ptr : Nat) : Option (LinkedList α) :=
  match s.head with
  | none => some { s with head := some ptr, tail := some ptr }
  | some head => (setNext s ptr (some head)).map fun s => { s with head := some ptr }

/-- `add_to_front`. -/
def addToFront (s : LinkedList α) (x : α) (ptr : Nat) : Option (LinkedList α × Int) := do
  let s ← allocate s ptr x
  let s ← linkFirst s ptr
  let s ← countUp s
  return (s, 1)

/-- `get_next` taken `ii` times from `tmp`. -/
def follow (mem : Nat → Option (LinkedListElement α)) : Nat → Option Nat → Option (Option Nat)
  | 0, tmp => some tmp
  | ii + 1, tmp => tmp.bind fun a => (mem a).bind fun c => follow mem ii c.next

/-- `get_element`. -/
def getElement (s : LinkedList α) (index : Int) : Option (Option α) :=
  if index < 0 ∨ s.numElements ≤ index then some none
  else do
    let tmp ← follow s.mem index.toNat s.head
    let a ← tmp
    let c ← s.mem a
    return some c.data

/-- `insert_element`. -/
def insertElement (s : LinkedList α) (x : α) (index : Int) (newelem : Nat) :
    Option (LinkedList α × Int) :=
  if s.numElements ≤ index then addElement s x newelem
  else if index = 0 then addToFront s x newelem
  else if index < 0 then some (s, 0)
  else do
    let tmp ← (← follow s.mem (index - 1).toNat s.head)
    let e ← s.mem tmp
    let s ← allocate s newelem x
    let s ← setNext s tmp (some newelem)
    let s ← setNext s newelem e.next
    let s ← countUp s
    return (s, 1)

/-- The search for data that compares equal: where `tmp` stops, with `prev` and the number of
    elements passed. -/
def findData (eq : α → α → Bool) (mem : Nat → Option (LinkedListElement α)) (data : α) :
    Nat → Option Nat → Option Nat → Nat → Option (Option (Option Nat × Nat × Nat))
  | _, _, none, _ => some none
  | 0, _, some _, _ => none
  | fuel + 1, prev, some tmp, index =>
    (mem tmp).bind fun c =>
      if eq c.data data then some (some (prev, tmp, index))
      else findData eq mem data fuel (some tmp) c.next (index + 1)

/-- The search from the head. -/
def find (eq : α → α → Bool) (s : LinkedList α) (data : α) :
    Option (Option (Option Nat × Nat × Nat)) :=
  findData eq s.mem data s.numElements.toNat none s.head 0

/-- `get_index`. -/
def getIndex (eq : α → α → Bool) (s : LinkedList α) (data : α) : Option Int :=
  (find eq s data).map fun r =>
    match r with
    | none => -1
    | some (_, _, index) => index

/-- `set_next(prev, get_next(tmp)); if (iterator == tmp) iterator = prev`. -/
def unlinkAfter (s : LinkedList α) (prev tmp : Nat) : Option (LinkedList α) := do
  let c ← s.mem tmp
  let s ← setNext s prev c.next
  return { s with iterator := if s.iterator = some tmp then some prev else s.iterator }

/-- `head = get_next(tmp); if (iterator == tmp) iterator = NULL`. -/
def unlinkHead (s : LinkedList α) (tmp : Nat) : Option (LinkedList α) :=
  (s.mem tmp).map fun c =>
    { s with head := c.next
             iterator := if s.iterator = some tmp then none else s.iterator }

/-- `if (prev) ... else ...` of both `remove_element`. -/
def unlink (s : LinkedList α) (prev : Option Nat) (tmp : Nat) : Option (LinkedList α) :=
  match prev with
  | some prev => unlinkAfter s prev tmp
  | none => unlinkHead s tmp

/-- What both `remove_element` do with the element they found. -/
def removeFound (s : LinkedList α) (prev : Option Nat) (tmp : Nat) : Option (LinkedList α × Int) := do
  let s ← unlink s prev tmp
  return ({ s with tail := if s.tail = some tmp then prev else s.tail
                   mem := Function.update s.mem tmp none
                   numElements := s.numElements - 1 }, 1)

/-- `remove_element` by value. -/
def removeData (eq : α → α → Bool) (s : LinkedList α) (data : α) : Option (LinkedList α × Int) :=
  (find eq s data).bind fun r =>
    match r with
    | none => some (s, 0)
    | some (prev, tmp, _) => removeFound s prev tmp

/-- The loop of `remove_element` by position: `prev`, `tmp` and the steps it did not take. -/
def seek (mem : Nat → Option (LinkedListElement α)) :
    Nat → Option Nat → Option Nat → Option (Option Nat × Option Nat × Nat)
  | 0, prev, tmp => some (prev, tmp, 0)
  | left + 1, prev, none => some (prev, none, left + 1)
  | left + 1, _, some tmp => (mem tmp).bind fun c => seek mem left (some tmp) c.next

/-- `remove_element` by position. -/
def removeAt (s : LinkedList α) (index : Int) : Option (LinkedList α × Int) :=
  if index < 0 ∨ s.numElements ≤ index then some (s, 0)
  else
    (seek s.mem index.toNat none s.head).bind fun r =>
      if r.2.2 ≠ 0 then some (s, 0) else r.2.1.bind fun tmp => removeFound s r.1 tmp

/-- `if (prev) ...` of `move_to_end` and `move_to_front`. -/
def unlinkInner (s : LinkedList α) (prev : Option Nat) (tmp : Nat) : Option (LinkedList α) :=
  match prev with
  | some prev => unlinkAfter s prev tmp
  | none => some s

/-- `if (tmp == head) ...` of `move_to_end`. -/
def unlinkAtHead (s : LinkedList α) (tmp : Nat) : Option (LinkedList α) :=
  if s.head = some tmp then unlinkHead s tmp else some s

/-- `move_to_end`. -/
def moveToEnd (eq : α → α → Bool) (s : LinkedList α) (data : α) : Option (LinkedList α × Int) := do
  match ← find eq s data with
  | none => return (s, 0)
  | some (prev, tmp, _) =>
    if s.tail = some tmp then return (s, 1)
    else
      let s ← unlinkInner s prev tmp
      let s ← unlinkAtHead s tmp
      let tail ← s.tail
      let s ← setNext s tail (some tmp)
      let s ← setNext s tmp none
      return ({ s with tail := some tmp }, 1)

/-- `move_to_front`. -/
def moveToFront (eq : α → α → Bool) (s : LinkedList α) (data : α) :
    Option (LinkedList α × Int) := do
  match ← find eq s data with
  | none => return (s, 0)
  | some (prev, tmp, _) =>
    if s.head = some tmp then return (s, 1)
    else
      let s ← unlinkInner s prev tmp
      let s : LinkedList α := { s with tail := if s.tail = some tmp then prev else s.tail }
      let s ← setNext s tmp s.head
      return ({ s with head := some tmp }, 1)

/-- `dequeue_element`. -/
def dequeueElement (s : LinkedList α) : Option (LinkedList α × Int × Option α) := do
  let element ← getElement s 0
  let (s, r) ← removeAt s 0
  return (s, r, element)

/-- The loop of `destroy`, at most as often as it counts down. -/
def destroyLoop : Nat → LinkedList α → Option (LinkedList α)
  | fuel, s =>
    if s.numElements = 0 then some s
    else
      match s.head, fuel with
      | none, _ => some s
      | some _, 0 => none
      | some head, fuel + 1 =>
        (s.mem head).bind fun c =>
          destroyLoop fuel
            { s with mem := Function.update s.mem head none
                     numElements := s.numElements - 1
                     head := c.next }

/-- `clear`, which is `destroy`. -/
def clearList (s : LinkedList α) : Option (LinkedList α) :=
  (destroyLoop s.numElements.toNat s).map fun s =>
    { s with head := none, tail := none, iterator := none }

/-- A call. The last address is the one the allocator hands out. -/
inductive ListOp (α : Type) where
  | getFirst
  | getNext
  | checkList
  | getNumElements
  | addElement (x : α) (ptr : Nat)
  | addToFront (x : α) (ptr : Nat)
  | insertElement (x : α) (index : Int) (ptr : Nat)
  | getElement (index : Int)
  | getIndex (data : α)
  | removeData (data : α)
  | removeAt (index : Int)
  | moveToEnd (data : α)
  | moveToFront (data : α)
  | dequeueElement
  | clear

/-- What a call returns, and the element it hands out. -/
structure ListAnswer (α : Type) where
  code : Int
  element : Option α := none
  deriving DecidableEq

/-- The answer of a call that returns 1 with an element and 0 without. -/
def ListAnswer.ofElement (ele : Option α) : ListAnswer α where
  code := if ele.isSome then 1 else 0
  element := ele

def listStep (eq : α → α → Bool) (s : LinkedList α) :
    ListOp α → Option (LinkedList α × ListAnswer α)
  | .getFirst => (OsclBase.getFirst s).map fun r => (r.1, .ofElement r.2)
  | .getNext => (OsclBase.getNext s).map fun r => (r.1, .ofElement r.2)
  | .checkList => (OsclBase.checkList s).map fun r => (s, ⟨r, none⟩)
  | .getNumElements => some (s, ⟨s.numElements, none⟩)
  | .addElement x ptr => (OsclBase.addElement s x ptr).map fun r => (r.1, ⟨r.2, none⟩)
  | .addToFront x ptr => (OsclBase.addToFront s x ptr).map fun r => (r.1, ⟨r.2, none⟩)
  | .insertElement x index ptr =>
    (OsclBase.insertElement s x index ptr).map fun r => (r.1, ⟨r.2, none⟩)
  | .getElement index => (OsclBase.getElement s index).map fun r => (s, .ofElement r)
  | .getIndex data => (OsclBase.getIndex eq s data).map fun r => (s, ⟨r, none⟩)
  | .removeData data => (OsclBase.removeData eq s data).map fun r => (r.1, ⟨r.2, none⟩)
  | .removeAt index => (OsclBase.removeAt s index).map fun r => (r.1, ⟨r.2, none⟩)
  | .moveToEnd data => (OsclBase.moveToEnd eq s data).map fun r => (r.1, ⟨r.2, none⟩)
  | .moveToFront data => (OsclBase.moveToFront eq s data).map fun r => (r.1, ⟨r.2, none⟩)
  | .dequeueElement => (OsclBase.dequeueElement s).map fun r => (r.1, ⟨r.2.1, r.2.2⟩)
  | .clear => (clearList s).map fun r => (r, ⟨0, none⟩)

/-! ## 2. The list it stands for -/

/-- A list with an iteration: `cursor` elements lie up to the one that was returned last. -/
structure Listing (α : Type) where
  items : List α := []
  cursor : Nat := 0

/-- The elements an iteration has still to visit. -/
def Listing.rest (t : Listing α) : List α := t.items.drop t.cursor

/-- The element at a position comes out; the iteration keeps its place. -/
def Listing.eraseAt (t : Listing α) (i : Nat) : Listing α where
  items := t.items.eraseIdx i
  cursor := if i < t.cursor then t.cursor - 1 else t.cursor

/-- An element comes in at a position; the iteration keeps its place. -/
def Listing.insertAt (t : Listing α) (i : Nat) (x : α) : Listing α where
  items := t.items.insertIdx i x
  cursor := if i < t.cursor then t.cursor + 1 else t.cursor

/-- The element at a position moves to another one. -/
def Listing.move (t : Listing α) (i j : Nat) : Listing α :=
  match t.items[i]? with
  | none => t
  | some x => if i = j then t else (t.eraseAt i).insertAt j x

/-- The next element of the iteration. -/
def Listing.next (t : Listing α) : Listing α :=
  if t.cursor < t.items.length then { t with cursor := t.cursor + 1 } else t

/-- Where the first element that compares equal stands. -/
def Listing.indexOf (eq : α → α → Bool) (t : Listing α) (data : α) : Option Nat :=
  t.items.findIdx? fun d => eq d data

/-- The position a call by index is about. -/
def Listing.position (t : Listing α) (index : Int) : Option Nat :=
  if 0 ≤ index ∧ index < t.items.length then some index.toNat else none

/-- The element at a position comes out, if there is one. -/
def Listing.removeAt (t : Listing α) (index : Int) : Listing α × Int :=
  match t.position index with
  | none => (t, 0)
  | some i => (t.eraseAt i, 1)

/-- What each call means for the list. -/
def Listing.step (eq : α → α → Bool) (t : Listing α) : ListOp α → Listing α × ListAnswer α
  | .getFirst => ({ t with cursor := min 1 t.items.length }, .ofElement t.items.head?)
  | .getNext => (t.next, .ofElement t.rest.head?)
  | .checkList => (t, ⟨1, none⟩)
  | .getNumElements => (t, ⟨t.items.length, none⟩)
  | .addElement x _ => (t.insertAt t.items.length x, ⟨1, none⟩)
  | .addToFront x _ => (t.insertAt 0 x, ⟨1, none⟩)
  | .insertElement x index _ =>
    if index < 0 then (t, ⟨0, none⟩)
    else (t.insertAt (min index.toNat t.items.length) x, ⟨1, none⟩)
  | .getElement index => (t, .ofElement ((t.position index).bind fun i => t.items[i]?))
  | .getIndex data =>
    (t, ⟨match t.indexOf eq data with | none => -1 | some i => i, none⟩)
  | .removeData data =>
    match t.indexOf eq data with
    | none => (t, ⟨0, none⟩)
    | some i => (t.eraseAt i, ⟨1, none⟩)
  | .removeAt index => ((t.removeAt index).1, ⟨(t.removeAt index).2, none⟩)
  | .moveToEnd data =>
    match t.indexOf eq data with
    | none => (t, ⟨0, none⟩)
    | some i => (t.move i (t.items.length - 1), ⟨1, none⟩)
  | .moveToFront data =>
    match t.indexOf eq data with
    | none => (t, ⟨0, none⟩)
    | some i => (t.move i 0, ⟨1, none⟩)
  | .dequeueElement => ((t.removeAt 0).1, ⟨(t.removeAt 0).2, t.items.head?⟩)
  | .clear => ({}, ⟨0, none⟩)

end OpenCore.OsclBase
