/-
  File:      OpenCore/GenData/HashTable.lean
  Subject:   `HashTable` (hashtable.h) as the code computes it, and the finite map it stands for.

  The buckets are sorted lists; each has its own memory of nodes. The calls that take a key beside
  the full key are given what `compute_hash` makes of the full key, as the calls without it do. A
  call that allocates is given the address the allocator hands out. An index past the array of
  buckets, an element read before one was stored, and an `int` count past its range are undefined
  (`none`).
-/
import OpenCore.GenData.SortedList

namespace OpenCore.GenData

open OsclBase

variable {K D : Type}

/-! ## 1. The code -/

structure HashListElement (K D : Type) where
  fullkey : K
  data : D

section Comparisons

variable [LinearOrder K]

/-- `operator==`. -/
def HashListElement.eq [BEq D] (a b : HashListElement K D) : Bool :=
  decide (a.fullkey = b.fullkey) && a.data == b.data

/-- `operator<=`. -/
def HashListElement.le (a b : HashListElement K D) : Bool := decide (a.fullkey ≤ b.fullkey)

/-- `operator>`. -/
def HashListElement.gt (a b : HashListElement K D) : Bool := decide (b.fullkey < a.fullkey)

end Comparisons

structure HashTable (K D : Type) where
  hashTable : Nat → SortedList (HashListElement K D)
  hashMask : UInt32
  hashTableSize : UInt32
  numElements : Int

/-- `for (cnt = 0; tmp; tmp >>= 1, ++cnt)`. -/
def countShifts : Nat → Int → Nat → Option Nat
  | fuel, tmp, cnt =>
    if tmp = 0 then some cnt
    else match fuel with
      | 0 => none
      | fuel + 1 => countShifts fuel (tmp >>> (1 : Nat)) (cnt + 1)

/-- The constructor. -/
def HashTable.init (inHashTableSize : Int) : Option (HashTable K D) :=
  let hashTableSize := UInt32.ofInt inHashTableSize
  let hashMask := hashTableSize - 1
  if hashMask &&& hashTableSize ≠ 0 then
    -- the next larger power of two
    (countShifts 32 inHashTableSize 0).map fun cnt =>
      let hashTableSize : UInt32 := 1 <<< UInt32.ofNat cnt
      ⟨fun _ => LinkedList.init, hashTableSize - 1, hashTableSize, 0⟩
  else some ⟨fun _ => LinkedList.init, hashMask, hashTableSize, 0⟩

/-- `hash_table[i]`. -/
def HashTable.bucket (t : HashTable K D) (i : Nat) : Option (SortedList (HashListElement K D)) :=
  if i < t.hashTableSize.toNat then some (t.hashTable i) else none

def HashTable.setBucket (t : HashTable K D) (i : Nat) (b : SortedList (HashListElement K D)) :
    HashTable K D :=
  { t with hashTable := Function.update t.hashTable i b }

/-- `key & hash_mask`. -/
def HashTable.masked (t : HashTable K D) (key : UInt32) : Nat := (key &&& t.hashMask).toNat

/-- `++num_elements`. -/
def HashTable.countUp (t : HashTable K D) : Option (HashTable K D) :=
  if t.numElements < 2147483647 then some { t with numElements := t.numElements + 1 } else none

section Calls

variable [LinearOrder K]

/-- The loop of `is_unique` with `left` elements to go: what `tmp` holds at an element with the
    key. -/
def uniqueLoop (b : SortedList (HashListElement K D)) (key : K) :
    Nat → Int → Option (HashListElement K D) → Option (Option (HashListElement K D))
  | 0, _, _ => some none
  | left + 1, ii, tmp => do
    let tmp ← (← getElement b ii).or tmp
    if tmp.fullkey = key then some (some tmp) else uniqueLoop b key left (ii + 1) (some tmp)

/-- The loop of `remove_element` and `get_element`, which gives up at a greater key. -/
def keyLoop (b : SortedList (HashListElement K D)) (fullkey : K) :
    Nat → Int → Option (HashListElement K D) → Option (Option (HashListElement K D))
  | 0, _, _ => some none
  | left + 1, ii, tmp => do
    let tmp ← (← getElement b ii).or tmp
    if tmp.fullkey = fullkey then some (some tmp)
    else if fullkey < tmp.fullkey then some none
    else keyLoop b fullkey left (ii + 1) (some tmp)

/-- `is_unique`. -/
def HashTable.isUnique (computeHash : K → UInt32) (t : HashTable K D) (key : K) : Option Int := do
  let b ← t.bucket (t.masked (computeHash key))
  let found ← uniqueLoop b key b.numElements.toNat 0 none
  return if found.isSome then 0 else 1

/-- `get_element` by key: the data it stores with 1, nothing with 0. -/
def HashTable.getElement (t : HashTable K D) (key : UInt32) (fullkey : K) : Option (Option D) := do
  let b ← t.bucket (t.masked key)
  let found ← keyLoop b fullkey b.numElements.toNat 0 none
  return found.map HashListElement.data

/-- `add_element`. -/
def HashTable.addElement (computeHash : K → UInt32) (t : HashTable K D) (key : UInt32) (fullkey : K)
    (data : D) (ptr : Nat) : Option (HashTable K D × Int) := do
  let found ← t.getElement (computeHash fullkey) fullkey
  if found.isSome then return (t, 0)
  else
    let b ← t.bucket (t.masked key)
    let (b, _) ← SortedList.addElement HashListElement.le b ⟨fullkey, data⟩ ptr
    let t ← (t.setBucket (t.masked key) b).countUp
    return (t, 1)

/-- `remove_element`. -/
def HashTable.removeElement [BEq D] (t : HashTable K D) (key : UInt32) (fullkey : K) :
    Option (HashTable K D × Int) := do
  let b ← t.bucket (t.masked key)
  match ← keyLoop b fullkey b.numElements.toNat 0 none with
  | none => return (t, 0)
  | some tmp =>
    let (b, _) ← SortedList.removeElement HashListElement.eq HashListElement.gt b tmp
    return ({ t.setBucket (t.masked key) b with numElements := t.numElements - 1 }, 1)

/-- The loop of `get_element` by position over the buckets, with `left` of them to go. -/
def HashTable.seekBucket (t : HashTable K D) : Nat → Nat → Int → Nat × Int
  | 0, hashIdx, index => (hashIdx, index)
  | left + 1, hashIdx, index =>
    if index < (t.hashTable hashIdx).numElements then (hashIdx, index)
    else t.seekBucket left (hashIdx + 1) (index - (t.hashTable hashIdx).numElements)

/-- `get_element` by position: the element it stores with 1, nothing with 0. -/
def HashTable.getElementAt (t : HashTable K D) (index : Int) : Option (Option (HashListElement K D)) :=
  if index < 0 ∨ t.numElements ≤ index then some none
  else
    let r := t.seekBucket t.hashTableSize.toNat 0 index
    (t.bucket r.1).bind fun b => OsclBase.getElement b r.2

/-- A call. The last address is the one the allocator hands out. -/
inductive HashOp (K D : Type) where
  | isUnique (key : K)
  | addElement (fullkey : K) (data : D) (ptr : Nat)
  | removeElement (fullkey : K)
  | getElement (fullkey : K)
  | getElementAt (index : Int)
  | getNumElements

/-- What a call returns and what it stores through its references. -/
structure HashAnswer (K D : Type) where
  code : Int
  key : Option UInt32 := none
  fullkey : Option K := none
  data : Option D := none
  deriving DecidableEq

/-- The answer of `get_element` by position. -/
def HashAnswer.ofElement (computeHash : K → UInt32) :
    Option (HashListElement K D) → HashAnswer K D
  | none => ⟨0, none, none, none⟩
  | some tmp => ⟨1, some (computeHash tmp.fullkey), some tmp.fullkey, some tmp.data⟩

def hashStep [BEq D] (computeHash : K → UInt32) (t : HashTable K D) :
    HashOp K D → Option (HashTable K D × HashAnswer K D)
  | .isUnique key => (t.isUnique computeHash key).map fun r => (t, ⟨r, none, none, none⟩)
  | .addElement fullkey data ptr =>
    (t.addElement computeHash (computeHash fullkey) fullkey data ptr).map fun r =>
      (r.1, ⟨r.2, none, none, none⟩)
  | .removeElement fullkey =>
    (t.removeElement (computeHash fullkey) fullkey).map fun r => (r.1, ⟨r.2, none, none, none⟩)
  | .getElement fullkey =>
    (t.getElement (computeHash fullkey) fullkey).map fun r =>
      (t, ⟨if r.isSome then 1 else 0, none, none, r⟩)
  | .getElementAt index =>
    (t.getElementAt index).map fun r => (t, .ofElement computeHash r)
  | .getNumElements => some (t, ⟨t.numElements, none, none, none⟩)

end Calls

/-! ## 2. The finite map it stands for -/

section Map

variable [LinearOrder K]

/-- What each call means for the map. -/
def MapStep (computeHash : K → UInt32) (m : Finmap fun _ : K => D) :
    HashOp K D → HashAnswer K D → (Finmap fun _ : K => D) → Prop
  | .isUnique key, a, m' => m' = m ∧ a = ⟨if key ∈ m then 0 else 1, none, none, none⟩
  | .addElement fullkey data _, a, m' =>
    if fullkey ∈ m then m' = m ∧ a = ⟨0, none, none, none⟩
    else m' = m.insert fullkey data ∧ a = ⟨1, none, none, none⟩
  | .removeElement fullkey, a, m' =>
    m' = m.erase fullkey ∧ a = ⟨if fullkey ∈ m then 1 else 0, none, none, none⟩
  | .getElement fullkey, a, m' =>
    m' = m ∧ a = ⟨if fullkey ∈ m then 1 else 0, none, none, m.lookup fullkey⟩
  | .getElementAt index, a, m' =>
    m' = m ∧
      if 0 ≤ index ∧ index < m.keys.card then
        ∃ k d, m.lookup k = some d ∧ a = ⟨1, some (computeHash k), some k, some d⟩
      else a = ⟨0, none, none, none⟩
  | .getNumElements, a, m' => m' = m ∧ a = ⟨m.keys.card, none, none, none⟩

end Map

end OpenCore.GenData
