/-
  File:      OpenCore/HttpParcom/StringKeyValueStore.lean
  Subject:   KEYS AND THEIR VALUES: the hash table of the HTTP library.

  The table has a half for the keys at the place of their checksum and a half for the others, which
  is searched from its start. The first value of a key has its own table; the others are elements of
  a vector, linked by their addresses. An address is an allocation of the vector and an index; where
  the vector has been allocated anew since, what is behind it is not the store's any more, and a
  method that follows it has no result here.

  **Main results** `Holds.find_of_mem`, `Holds.find_of_not_mem`.
-/
import OpenCore.Lib.Chain
import OpenCore.Lib.MultiMap

namespace OpenCore.HttpParcom

open List Option
open Prod (fst snd)
open Function (update update_of_ne update_self)

/-! ## 1. Strings -/

abbrev Str := List UInt8

def isLetter (c : UInt8) : Bool := (65 ≤ c && c ≤ 90) || (97 ≤ c && c ≤ 122)

/-- `OSCL_ASCII_CASE_MAGIC_BIT`. -/
def caseBit : UInt8 := 0x20

def isCIPrefixOf : Str → Str → Bool
  | [], _ => true
  | _ :: _, [] => false
  | a :: as, b :: bs =>
    (a == b || isLetter a && (a ^^^ b) ||| caseBit == caseBit) && isCIPrefixOf as bs

/-- A `char` as a number of sixteen bits; whether `char` is signed depends on the platform. -/
def charValue (charSigned : Bool) (c : UInt8) : BitVec 16 :=
  if charSigned then c.toBitVec.signExtend 16 else c.toBitVec.zeroExtend 16

/-- `StrCSumPtrLen::setCheckSum`. -/
def checkSum (charSigned : Bool) (s : Str) : BitVec 16 :=
  s.foldl (fun sum c => sum + charValue charSigned (if isLetter c then c ||| caseBit else c)) 0

def isCIEquivalentTo (charSigned : Bool) (a b : Str) : Bool :=
  checkSum charSigned a == checkSum charSigned b && a.length == b.length && isCIPrefixOf a b

def getChecksum (charSigned : Bool) (k : Str) : Nat :=
  ((checkSum charSigned k).signExtend 32).toNat % 1000 / 2

/-! ## 2. The store -/

/-- The address of an element: the allocation of the vector, and the index. -/
structure Ref where
  buffer : Nat
  index : Nat
  deriving DecidableEq, Repr

structure StrCSumPtrLenWrapper where
  iStr : Str
  iNext : Option Ref
  deriving DecidableEq, Repr

def StrCSumPtrLenWrapper.empty (w : StrCSumPtrLenWrapper) : Bool :=
  w.iNext.isNone && w.iStr.length == 0

structure StringKeyValueStore where
  iTotalNumberOfKeyValuePairs : UInt32
  iTotalKeyValueLength : UInt32
  iFieldKeys : Nat → StrCSumPtrLenWrapper
  iFieldVals : Nat → Str
  iStrCSumPtrLenWrapperVector : List StrCSumPtrLenWrapper
  /-- The allocation of that vector, and its size. -/
  buffer : Nat
  bufsize : Nat
  iFieldKeyTableIndexVector : List Nat
  iNumConflicts : Nat

namespace StringKeyValueStore

/-- `construct`. -/
def create : StringKeyValueStore :=
  { iTotalNumberOfKeyValuePairs := 0
    iTotalKeyValueLength := 0
    iFieldKeys := fun _ => ⟨[], none⟩
    iFieldVals := fun _ => []
    iStrCSumPtrLenWrapperVector := []
    buffer := 0
    bufsize := 10
    iFieldKeyTableIndexVector := []
    iNumConflicts := 0 }

/-- The element at an address. -/
def deref (s : StringKeyValueStore) (r : Ref) : Option StrCSumPtrLenWrapper :=
  if r.buffer = s.buffer then s.iStrCSumPtrLenWrapperVector[r.index]? else none

/-- The values linked from an address on. A link leads to a later element. -/
def linkedValues (s : StringKeyValueStore) : Nat → Option Ref → Option (List Str)
  | _, none => some []
  | 0, some _ => none
  | fuel + 1, some r => do
      let w ← s.deref r
      let rest ← linkedValues s fuel w.iNext
      some (w.iStr :: rest)

/-- The address behind `n` links. -/
def follow (s : StringKeyValueStore) : Nat → Option Ref → Option (Option Ref)
  | 0, p => some p
  | _ + 1, none => some none
  | n + 1, some r => do
      let w ← s.deref r
      follow s n w.iNext

/-- The address of the last element linked from `r` on. -/
def lastLinked (s : StringKeyValueStore) : Nat → Ref → Option Ref
  | 0, _ => none
  | fuel + 1, r => do
      let w ← s.deref r
      match w.iNext with
      | none => some r
      | some r' => lastLinked s fuel r'

/-- `StrCSumPtrLenWrapper::push_back` on the key at `i`. -/
def link (s : StringKeyValueStore) (i : Nat) (r : Ref) : Option StringKeyValueStore :=
  match (s.iFieldKeys i).iNext with
  | none =>
    some { s with
      iFieldKeys := update s.iFieldKeys i { s.iFieldKeys i with iNext := some r } }
  | some p => do
      let last ← s.lastLinked s.iStrCSumPtrLenWrapperVector.length p
      let w ← s.deref last
      some { s with iStrCSumPtrLenWrapperVector :=
        s.iStrCSumPtrLenWrapperVector.set last.index { w with iNext := some r } }

/-- `Oscl_Vector::push_back` on `iStrCSumPtrLenWrapperVector`, and the address of the element. -/
def pushWrapper (s : StringKeyValueStore) (w : StrCSumPtrLenWrapper) : StringKeyValueStore × Ref :=
  let s :=
    if s.iStrCSumPtrLenWrapperVector.length = s.bufsize then
      { s with
        buffer := s.buffer + 1, bufsize := if s.bufsize = 0 then 2 else 2 * s.bufsize }
    else s
  ({ s with iStrCSumPtrLenWrapperVector := s.iStrCSumPtrLenWrapperVector ++ [w] },
    ⟨s.buffer, s.iStrCSumPtrLenWrapperVector.length⟩)

section Methods

variable (charSigned : Bool) (s : StringKeyValueStore)

def query (aKey : Str) : Option Nat :=
  ((List.range s.iNumConflicts).find? fun i =>
    isCIEquivalentTo charSigned (s.iFieldKeys (500 + i)).iStr aKey).map (500 + ·)

def getHashTableIndex (aKey : Str) (aFindKey : Bool) : Option Nat × StringKeyValueStore :=
  let aTableIndex := getChecksum charSigned aKey
  if (s.iFieldKeys aTableIndex).empty then
    if aFindKey then (query charSigned s aKey, s) else (some aTableIndex, s)
  else if isCIEquivalentTo charSigned (s.iFieldKeys aTableIndex).iStr aKey then
    (some aTableIndex, s)
  else if aFindKey then (query charSigned s aKey, s)
  else
    match query charSigned s aKey with
    | some index => (some index, s)
    | none =>
      if s.iNumConflicts + 1 ≥ 500 then (none, s)
      else (some (500 + s.iNumConflicts), { s with iNumConflicts := s.iNumConflicts + 1 })

def addKeyToStore (aNewKey : Str) (tableIndex : Nat) : StringKeyValueStore :=
  if (s.iFieldKeys tableIndex).empty then
    { s with
      iFieldKeyTableIndexVector := s.iFieldKeyTableIndexVector ++ [tableIndex]
      iFieldKeys := update s.iFieldKeys tableIndex ⟨aNewKey, none⟩
      iTotalKeyValueLength := s.iTotalKeyValueLength + UInt32.ofNat aNewKey.length }
  else s

/-- `addKeyValuePair`, and what it returns: `false`, where there is no place in the table, is the
    number for success. -/
def addKeyValuePair (aNewKey aNewValue : Str) (aNeedReplaceOldValue : Bool) :
    Option (Int × StringKeyValueStore) :=
  match getHashTableIndex charSigned s aNewKey false with
  | (none, s) => some (0, s)
  | (some tableIndex, s) => do
      let s := addKeyToStore s aNewKey tableIndex
      let s ←
        if (s.iFieldVals tableIndex).length = 0 then
          some { s with iFieldVals := update s.iFieldVals tableIndex aNewValue }
        else if aNeedReplaceOldValue then
          some { s with
            iTotalKeyValueLength :=
              s.iTotalKeyValueLength - UInt32.ofNat (s.iFieldVals tableIndex).length
            iFieldVals := update s.iFieldVals tableIndex aNewValue
            iTotalNumberOfKeyValuePairs := s.iTotalNumberOfKeyValuePairs - 1 }
        else do
          let (s, r) := s.pushWrapper ⟨aNewValue, none⟩
          let s ← s.link tableIndex r
          some { s with iTotalKeyValueLength :=
            s.iTotalKeyValueLength + UInt32.ofNat (s.iFieldKeys tableIndex).iStr.length }
      some (0, { s with
        iTotalKeyValueLength := s.iTotalKeyValueLength + UInt32.ofNat aNewValue.length
        iTotalNumberOfKeyValuePairs := s.iTotalNumberOfKeyValuePairs + 1 })

def getCurrentKeyList : List Str :=
  s.iFieldKeyTableIndexVector.map fun i => (s.iFieldKeys i).iStr

/-- `getValueByKey`: the value, or nothing where it returns `false`. -/
def getValueByKey (aKey : Str) (index : Nat) : Option (Option Str) :=
  match (getHashTableIndex charSigned s aKey true).1 with
  | none => some none
  | some tableIndex =>
    if index = 0 then some (some (s.iFieldVals tableIndex))
    else do
      match ← s.follow (index - 1) (s.iFieldKeys tableIndex).iNext with
      | none => some none
      | some r => do
          let w ← s.deref r
          some (some w.iStr)

def getNumberOfValuesByKey (aKey : Str) : Option Nat :=
  match (getHashTableIndex charSigned s aKey true).1 with
  | none => some 0
  | some tableIndex => do
      let rest ← s.linkedValues s.iStrCSumPtrLenWrapperVector.length
        (s.iFieldKeys tableIndex).iNext
      some (1 + rest.length)

/-- The loop over `iFieldKeyTableIndexVector`: behind an erased index the next one is not looked
    at. -/
def eraseKey (aKey : Str) : List Nat → List Nat
  | [] => []
  | i :: l =>
    if isCIEquivalentTo charSigned (s.iFieldKeys i).iStr aKey then
      match l with
      | [] => []
      | j :: l => j :: eraseKey aKey l
    else i :: eraseKey aKey l

def removeKeyValuePair (aKey : Str) : Option StringKeyValueStore := do
  let numValues ← getNumberOfValuesByKey charSigned s aKey
  match (getHashTableIndex charSigned s aKey true).1 with
  | none => some s
  | some tableIndex =>
    let key := s.iFieldKeys tableIndex
    let rest ← s.linkedValues s.iStrCSumPtrLenWrapperVector.length key.iNext
    let released := key.iStr.length * numValues + (s.iFieldVals tableIndex).length +
      (rest.map List.length).sum
    some { s with
      iTotalNumberOfKeyValuePairs := s.iTotalNumberOfKeyValuePairs - UInt32.ofNat numValues
      iTotalKeyValueLength := s.iTotalKeyValueLength - UInt32.ofNat released
      iFieldKeyTableIndexVector := eraseKey charSigned s aKey s.iFieldKeyTableIndexVector
      iFieldKeys := update s.iFieldKeys tableIndex ⟨[], none⟩
      iFieldVals := update s.iFieldVals tableIndex [] }

/-- The values of a key are added, from the one at `j` on. -/
def copyValues (aStore : StringKeyValueStore) (aKey : Str) (j : Nat) :
    Nat → StringKeyValueStore → Option (Bool × StringKeyValueStore)
  | 0, s => some (true, s)
  | n + 1, s => do
      match ← getValueByKey charSigned aStore aKey j with
      | none => some (false, s)
      | some fieldValue => do
          let (err, s) ← addKeyValuePair charSigned s aKey fieldValue false
          if err ≠ 0 then some (false, s) else copyValues aStore aKey (j + 1) n s

/-- The loop of `copy` over the pairs, from the one at `i` on: it takes its keys from the list of
    keys, and has no result behind its end. -/
def copyKeys (aStore : StringKeyValueStore) (keyList : List Str) (i : Nat) :
    Nat → StringKeyValueStore → Option (Bool × StringKeyValueStore)
  | 0, s => some (true, s)
  | n + 1, s => do
      let aKey ← keyList[i]?
      let numValuesByKey ← getNumberOfValuesByKey charSigned aStore aKey
      let (ok, s) ← copyValues charSigned aStore aKey 0 numValuesByKey s
      if ok then copyKeys aStore keyList (i + 1) n s else some (false, s)

def copy (aStore : StringKeyValueStore) : Option (Bool × StringKeyValueStore) :=
  let numKeyValuePairs := aStore.iTotalNumberOfKeyValuePairs.toNat
  if numKeyValuePairs = 0 ∨ aStore.iFieldKeyTableIndexVector.length = 0 then some (true, s)
  else copyKeys charSigned aStore aStore.getCurrentKeyList 0 numKeyValuePairs s

end Methods

end StringKeyValueStore

/-! ## 3. Keys that are the same -/

def lower (c : UInt8) : UInt8 := if isLetter c then c ||| caseBit else c

/-- The form that keys which are the same share. -/
def lowered (k : Str) : Str := k.map lower

theorem forall_octet {P : UInt8 → Prop} (h : ∀ n < 256, P (UInt8.ofNat n)) (c : UInt8) : P c := by
  have hc := h c.toNat c.toNat_lt
  rwa [UInt8.ofNat_toNat] at hc

theorem lower_other_case {a : UInt8} (ha : isLetter a = true) : lower (a ^^^ caseBit) = lower a := by
  have hall : ∀ n < 256, isLetter (UInt8.ofNat n) = true →
      lower (UInt8.ofNat n ^^^ caseBit) = lower (UInt8.ofNat n) := by decide +kernel
  exact forall_octet (P := fun a => isLetter a = true → lower (a ^^^ caseBit) = lower a) hall a ha

/-- An octet is its lower form, or a letter that differs from it in the case bit. -/
theorem lower_cases (a : UInt8) :
    a = lower a ∨ isLetter a = true ∧ isLetter (lower a) = true ∧ a = lower a ^^^ caseBit := by
  have hall : ∀ n < 256, UInt8.ofNat n = lower (UInt8.ofNat n) ∨ isLetter (UInt8.ofNat n) = true ∧
      isLetter (lower (UInt8.ofNat n)) = true ∧
        UInt8.ofNat n = lower (UInt8.ofNat n) ^^^ caseBit := by decide +kernel
  exact forall_octet (P := fun a => a = lower a ∨ isLetter a = true ∧ isLetter (lower a) = true ∧
    a = lower a ^^^ caseBit) hall a

theorem or_caseBit_eq (d : UInt8) : d ||| caseBit = caseBit ↔ d = 0 ∨ d = caseBit := by
  have hall : ∀ n < 256, (UInt8.ofNat n ||| caseBit = caseBit ↔
      UInt8.ofNat n = 0 ∨ UInt8.ofNat n = caseBit) := by decide +kernel
  exact forall_octet (P := fun d => d ||| caseBit = caseBit ↔ d = 0 ∨ d = caseBit) hall d

theorem xor_eq_iff (a b d : UInt8) : a ^^^ b = d ↔ b = a ^^^ d := by
  constructor
  all_goals
    rintro rfl
    rw [← UInt8.xor_assoc, UInt8.xor_self, UInt8.zero_xor]

/-- Two octets compare as the same where their lower forms are. -/
theorem same_octet_iff (a b : UInt8) :
    (a == b || isLetter a && (a ^^^ b) ||| caseBit == caseBit) = true ↔ lower a = lower b := by
  rw [Bool.or_eq_true, Bool.and_eq_true, beq_iff_eq, beq_iff_eq, or_caseBit_eq, xor_eq_iff,
    xor_eq_iff, UInt8.xor_zero]
  constructor
  · rintro (rfl | ⟨hl, rfl | rfl⟩)
    · rfl
    · rfl
    · rw [lower_other_case hl]
  · intro h
    rcases lower_cases a with ha | ⟨hla, hl, ha⟩ <;> rcases lower_cases b with hb | ⟨hlb, hl', hb⟩
    · exact Or.inl (by rw [ha, hb, h])
    · rw [← h, ← ha] at hl' hb
      exact Or.inr ⟨hl', Or.inr hb⟩
    · rw [h, ← hb] at ha
      refine Or.inr ⟨hla, Or.inr ?_⟩
      rw [ha, UInt8.xor_assoc, UInt8.xor_self, UInt8.xor_zero]
    · exact Or.inl (by rw [ha, hb, h])

theorem isCIPrefixOf_iff {a b : Str} (h : a.length = b.length) :
    isCIPrefixOf a b = true ↔ lowered a = lowered b := by
  induction a generalizing b with
  | nil =>
    rcases b with _ | ⟨d, b⟩
    · exact iff_of_true rfl rfl
    · cases h
  | cons c a ih =>
    rcases b with _ | ⟨d, b⟩
    · cases h
    · rw [isCIPrefixOf, Bool.and_eq_true, same_octet_iff, ih (Nat.succ.inj h), lowered, lowered,
        lowered, lowered, map_cons, map_cons, cons.injEq]

section Keys

variable (charSigned : Bool)

theorem checkSum_congr {a b : Str} (h : lowered a = lowered b) :
    checkSum charSigned a = checkSum charSigned b := by
  have hfold : ∀ s : Str, checkSum charSigned s =
      (lowered s).foldl (fun sum c => sum + charValue charSigned c) 0 := by
    intro s
    rw [lowered, foldl_map]
    rfl
  rw [hfold, hfold, h]

theorem isCIEquivalentTo_iff (a b : Str) :
    isCIEquivalentTo charSigned a b = true ↔ lowered a = lowered b := by
  rw [isCIEquivalentTo, Bool.and_eq_true, Bool.and_eq_true, beq_iff_eq, beq_iff_eq]
  constructor
  · rintro ⟨⟨-, hlen⟩, hpre⟩
    exact (isCIPrefixOf_iff hlen).1 hpre
  · intro h
    have hlen : a.length = b.length := by
      have hmap := congrArg length h
      rwa [lowered, lowered, length_map, length_map] at hmap
    exact ⟨⟨checkSum_congr charSigned h, hlen⟩, (isCIPrefixOf_iff hlen).2 h⟩

theorem getChecksum_congr {a b : Str} (h : lowered a = lowered b) :
    getChecksum charSigned a = getChecksum charSigned b := by
  rw [getChecksum, getChecksum, checkSum_congr charSigned h]

theorem getChecksum_lt (k : Str) : getChecksum charSigned k < 500 := by
  unfold getChecksum
  omega

end Keys

variable {k : Str}

theorem lowered_eq_nil : lowered k = lowered [] ↔ k = [] := map_eq_nil_iff

variable {r : Ref} {i : Nat} {e : Entry}

namespace StringKeyValueStore

/-! ## 4. Linked values -/

/-- The elements of the vector, as cells at their addresses. -/
def memory (s : StringKeyValueStore) (r : Ref) : Option (Cell Ref Str) :=
  (s.deref r).map fun w => ⟨w.iNext, w.iStr⟩

section Linked

variable {s : StringKeyValueStore} {p : Option Ref} {xs : List (Ref × Str)}

theorem deref_of_memory {n : Option Ref} {d : Str} (h : s.memory r = some ⟨n, d⟩) :
    s.deref r = some ⟨d, n⟩ := by
  obtain ⟨w, hw, heq⟩ := map_eq_some_iff.1 h
  rw [hw, ← Cell.mk.inj heq |>.1, ← (Cell.mk.inj heq).2]

theorem deref_valid (h : (s.deref r).isSome) :
    r.buffer = s.buffer ∧ r.index < s.iStrCSumPtrLenWrapperVector.length := by
  unfold deref at h
  split at h
  · rename_i hb
    exact ⟨hb, by simpa using h⟩
  · cases h

theorem memory_valid (h : (s.memory r).isSome) :
    r.buffer = s.buffer ∧ r.index < s.iStrCSumPtrLenWrapperVector.length := by
  rw [memory, isSome_map] at h
  exact deref_valid h

/-- A key has no more linked values than the vector has elements. -/
theorem linked_length (h : Linked s.memory p xs none) :
    xs.length ≤ s.iStrCSumPtrLenWrapperVector.length := by
  have hvalid : ∀ r ∈ xs.map fst,
      r.buffer = s.buffer ∧ r.index < s.iStrCSumPtrLenWrapperVector.length :=
    fun r hr => memory_valid (h.mem_isSome hr)
  have hnodup : ((xs.map fst).map Ref.index).Nodup := by
    refine (nodup_map_iff_inj_on h.nodup).2 fun r hr r' hr' heq => ?_
    have hb := (hvalid r hr).1.trans (hvalid r' hr').1.symm
    rcases r with ⟨b, i⟩
    rcases r' with ⟨b', i'⟩
    simp only at hb heq
    rw [hb, heq]
  have hsub : (xs.map fst).map Ref.index ⊆
      range s.iStrCSumPtrLenWrapperVector.length := by
    intro i hi
    obtain ⟨r, hr, rfl⟩ := mem_map.1 hi
    exact mem_range.2 (hvalid r hr).2
  have hle := (subperm_of_subset hnodup hsub).length_le
  simpa using hle

theorem linkedValues_eq {fuel : Nat} (h : Linked s.memory p xs none) (hf : xs.length ≤ fuel) :
    s.linkedValues fuel p = some (xs.map snd) := by
  induction xs generalizing fuel p with
  | nil =>
    rw [linked_nil] at h
    subst h
    rcases fuel with _ | fuel <;> rfl
  | cons x xs ih =>
    obtain ⟨rfl, n, hn, hrest⟩ := h
    rcases fuel with _ | fuel
    · cases hf
    · rw [linkedValues, deref_of_memory hn]
      simp only [bind_eq_bind, bind_some]
      rw [ih hrest (Nat.le_of_succ_le_succ hf)]
      rfl

theorem follow_eq (h : Linked s.memory p xs none) (n : Nat) :
    s.follow n p = some ((xs.drop n).head?.map fst) := by
  induction n generalizing p xs with
  | zero =>
    rcases xs with _ | ⟨x, xs⟩
    · rw [linked_nil] at h
      subst h
      rfl
    · rw [h.1]
      rfl
  | succ n ih =>
    rcases xs with _ | ⟨x, xs⟩
    · rw [linked_nil] at h
      subst h
      rfl
    · obtain ⟨rfl, m, hm, hrest⟩ := h
      rw [follow, deref_of_memory hm]
      simp only [bind_eq_bind, bind_some]
      exact ih hrest

theorem lastLinked_eq {fuel : Nat} {x : Ref × Str}
    (h : Linked s.memory (some r) (xs ++ [x]) none) (hf : xs.length < fuel) :
    s.lastLinked fuel r = some x.1 := by
  induction xs generalizing fuel r with
  | nil =>
    obtain ⟨hr, n, hn, hrest⟩ := h
    rw [linked_nil] at hrest
    subst hrest
    cases hr
    rcases fuel with _ | fuel
    · cases hf
    · rw [lastLinked, deref_of_memory hn]
      rfl
  | cons y xs ih =>
    obtain ⟨hr, n, hn, hrest⟩ := h
    cases hr
    rcases fuel with _ | fuel
    · cases hf
    · rw [lastLinked, deref_of_memory hn]
      simp only [bind_eq_bind, bind_some]
      rcases n with _ | r'
      · rcases xs with _ | ⟨z, xs⟩
        · exact absurd hrest.1 (by simp)
        · exact absurd hrest.1 (by simp)
      · exact ih hrest (Nat.lt_of_succ_lt_succ hf)

/-- The memory after a link has been set. -/
theorem memory_set {r : Ref} {w w' : StrCSumPtrLenWrapper} (h : s.deref r = some w) :
    memory { s with iStrCSumPtrLenWrapperVector := s.iStrCSumPtrLenWrapperVector.set r.index w' } =
      update s.memory r (some ⟨w'.iNext, w'.iStr⟩) := by
  obtain ⟨hb, hi⟩ := deref_valid (s := s) (r := r) (by rw [h]; rfl)
  funext q
  by_cases hq : q = r
  · subst hq
    rw [update_self]
    simp [memory, deref, hb, hi]
  · rw [update_of_ne hq]
    unfold memory deref
    dsimp only
    by_cases hqb : q.buffer = s.buffer
    · have hne : r.index ≠ q.index := by
        intro heq
        apply hq
        rcases q with ⟨b, i⟩
        rcases r with ⟨b', i'⟩
        simp only at hqb hb heq
        rw [hqb, hb, heq]
      rw [if_pos hqb, if_pos hqb, getElem?_set_ne hne]
    · rw [if_neg hqb, if_neg hqb]

/-- **A value is linked** behind those of a key; nothing else changes. -/
theorem link_spec (h : Linked s.memory (s.iFieldKeys i).iNext xs none) (r : Ref) :
    ∃ keys wrappers, s.link i r = some { s with
        iFieldKeys := keys, iStrCSumPtrLenWrapperVector := wrappers } ∧
      (keys i).iStr = (s.iFieldKeys i).iStr ∧ (∀ j, j ≠ i → keys j = s.iFieldKeys j) ∧
      wrappers.length = s.iStrCSumPtrLenWrapperVector.length ∧
      Linked (memory { s with iFieldKeys := keys, iStrCSumPtrLenWrapperVector := wrappers })
        (keys i).iNext xs (some r) ∧
      ∀ q, q ∉ xs.map fst →
        memory { s with iFieldKeys := keys, iStrCSumPtrLenWrapperVector := wrappers } q =
          s.memory q := by
  rcases eq_nil_or_concat xs with rfl | ⟨ys, x, rfl⟩
  · rw [linked_nil] at h
    refine ⟨update s.iFieldKeys i { s.iFieldKeys i with iNext := some r },
      s.iStrCSumPtrLenWrapperVector, ?_, ?_, ?_, rfl, ?_, fun _ _ => rfl⟩
    · unfold link
      split
      · rfl
      · rename_i p hp
        rw [h] at hp
        cases hp
    · rw [update_self]
    · exact fun j hj => update_of_ne hj _ _
    · rw [update_self]
      exact rfl
  · rw [concat_eq_append] at h ⊢
    have hlen := linked_length h
    rw [length_append] at hlen
    have hnodup := h.nodup
    obtain ⟨hpre, hlast⟩ := linked_concat.1 h
    have hd := deref_of_memory hlast
    refine ⟨s.iFieldKeys, s.iStrCSumPtrLenWrapperVector.set x.1.index ⟨x.2, some r⟩, ?_, rfl,
      fun _ _ => rfl, length_set, ?_, ?_⟩
    · unfold link
      split
      · rename_i hnone
        rw [hnone] at h
        exact absurd (h.eq_none_iff.1 rfl) (by simp)
      · rename_i p hp
        rw [hp] at h
        rw [lastLinked_eq h (Nat.lt_of_lt_of_le (Nat.lt_succ_self _) hlen)]
        simp only [bind_eq_bind, bind_some]
        rw [hd]
        rfl
    · have hx : x.1 ∉ ys.map fst := by
        rw [map_append, nodup_append] at hnodup
        exact fun hx => hnodup.2.2 _ hx _ (mem_singleton.2 rfl) rfl
      exact (@memory_set _ _ _ ⟨x.2, some r⟩ hd) ▸ h.set_last hx
    · intro q hq
      have hne : q ≠ x.1 := by
        rintro rfl
        exact hq (by simp)
      exact (congrFun (@memory_set _ _ _ ⟨x.2, some r⟩ hd) q).trans
        (update_of_ne hne _ _)

/-- **An element is added** to the vector. Where that is not allocated anew, or no value is linked,
    nothing else is seen to change. -/
theorem pushWrapper_spec (s : StringKeyValueStore) (v : Str) :
    ∃ buffer bufsize, s.pushWrapper ⟨v, none⟩ =
      ({ s with
        iStrCSumPtrLenWrapperVector := s.iStrCSumPtrLenWrapperVector ++ [⟨v, none⟩]
        buffer := buffer, bufsize := bufsize },
        ⟨buffer, s.iStrCSumPtrLenWrapperVector.length⟩) ∧
      (s.iStrCSumPtrLenWrapperVector.length < s.bufsize → buffer = s.buffer) ∧
      (s.iStrCSumPtrLenWrapperVector.length ≤ s.bufsize →
        s.iStrCSumPtrLenWrapperVector.length + 1 ≤ bufsize) := by
  unfold pushWrapper
  by_cases hfull : s.iStrCSumPtrLenWrapperVector.length = s.bufsize
  · rw [if_pos hfull]
    refine ⟨_, _, rfl, fun hlt => absurd hlt (by omega), fun _ => ?_⟩
    dsimp only
    split <;> omega
  · rw [if_neg hfull]
    exact ⟨_, _, rfl, fun _ => rfl, fun hle => by omega⟩

theorem memory_push_self (v : Str) (buffer bufsize : Nat) :
    memory { s with
        iStrCSumPtrLenWrapperVector := s.iStrCSumPtrLenWrapperVector ++ [⟨v, none⟩]
        buffer := buffer, bufsize := bufsize } ⟨buffer, s.iStrCSumPtrLenWrapperVector.length⟩ =
      some ⟨none, v⟩ := by
  simp [memory, deref]

theorem memory_push_of_isSome (v : Str) (bufsize : Nat) (h : (s.memory r).isSome) :
    memory { s with
        iStrCSumPtrLenWrapperVector := s.iStrCSumPtrLenWrapperVector ++ [⟨v, none⟩]
        buffer := s.buffer, bufsize := bufsize } r = s.memory r := by
  obtain ⟨hb, hi⟩ := memory_valid h
  simp only [memory, deref, if_pos hb, getElem?_append_left hi]

end Linked

/-! ## 5. What the store holds -/

/-- A key in the table: its place, its first value, and the others at their addresses. -/
structure Entry where
  slot : Nat
  key : Str
  first : Str
  more : List (Ref × Str)

def Entry.pair (e : Entry) : Str × List Str := (e.key, e.first :: e.more.map snd)

/-- The addresses of the linked values. -/
def Entry.links (e : Entry) : List Ref := e.more.map fst

/-- The octets of the pairs of a map. -/
def octets (m : MultiMap Str Str) : Nat :=
  (m.map fun e => e.1.length * e.2.length + (e.2.map List.length).sum).sum

variable (charSigned : Bool)

/-- Where the key of an entry is, and what is there. -/
structure Held (s : StringKeyValueStore) (e : Entry) : Prop where
  key_ne : e.key ≠ []
  key : (s.iFieldKeys e.slot).iStr = e.key
  first : s.iFieldVals e.slot = e.first
  more : Linked s.memory (s.iFieldKeys e.slot).iNext e.more none
  place : e.slot = getChecksum charSigned e.key ∨
    500 ≤ e.slot ∧ e.slot < 500 + s.iNumConflicts

/-- An entry is held as long as its place and its linked values are as they were. -/
theorem Held.congr {s s' : StringKeyValueStore} (h : Held charSigned s e)
    (hkey : s'.iFieldKeys e.slot = s.iFieldKeys e.slot)
    (hval : s'.iFieldVals e.slot = s.iFieldVals e.slot)
    (hmem : ∀ r ∈ e.links, s'.memory r = s.memory r) (hn : s.iNumConflicts ≤ s'.iNumConflicts) :
    Held charSigned s' e where
  key_ne := h.key_ne
  key := by rw [hkey, h.key]
  first := by rw [hval, h.first]
  more := by
    rw [hkey]
    exact h.more.congr fun x hx => hmem _ (mem_map_of_mem hx)
  place := by
    rcases h.place with hp | hp
    · exact Or.inl hp
    · exact Or.inr ⟨hp.1, by omega⟩

/-- **The store holds these entries**, in the order in which their keys came. -/
structure Holds (s : StringKeyValueStore) (es : List Entry) : Prop where
  slots : s.iFieldKeyTableIndexVector = es.map Entry.slot
  slots_nodup : (es.map Entry.slot).Nodup
  keys_nodup : (es.map fun e => lowered e.key).Nodup
  held : ∀ e ∈ es, Held charSigned s e
  links_nodup : (es.flatMap Entry.links).Nodup
  free : ∀ i, i ∉ es.map Entry.slot → s.iFieldKeys i = ⟨[], none⟩ ∧ s.iFieldVals i = []
  conflicts : s.iNumConflicts ≤ 499
  bufsize : s.iStrCSumPtrLenWrapperVector.length ≤ s.bufsize
  pairs : s.iTotalNumberOfKeyValuePairs = UInt32.ofNat (MultiMap.pairs (es.map Entry.pair))
  lengths : s.iTotalKeyValueLength = UInt32.ofNat (octets (es.map Entry.pair))

theorem create_holds : Holds charSigned create [] where
  slots := rfl
  slots_nodup := nodup_nil
  keys_nodup := nodup_nil
  held := fun _ h => absurd h not_mem_nil
  links_nodup := nodup_nil
  free := fun _ _ => ⟨rfl, rfl⟩
  conflicts := Nat.zero_le _
  bufsize := Nat.zero_le _
  pairs := rfl
  lengths := rfl

section Find

variable {charSigned} {s : StringKeyValueStore} {es : List Entry}

theorem Holds.entry_unique (h : Holds charSigned s es) {e' : Entry} (he : e ∈ es) (he' : e' ∈ es)
    (hkey : lowered e.key = lowered e'.key) : e = e' :=
  inj_on_of_nodup_map h.keys_nodup he he' hkey

/-- A key in the table that is `k`: it is that of an entry, or `k` is empty, and so is the place. -/
theorem Holds.at_slot (h : Holds charSigned s es)
    (hi : lowered (s.iFieldKeys i).iStr = lowered k) :
    (∃ e ∈ es, e.slot = i ∧ lowered e.key = lowered k) ∨ k = [] := by
  by_cases hmem : i ∈ es.map Entry.slot
  · obtain ⟨e, he, rfl⟩ := mem_map.1 hmem
    rw [(h.held e he).key] at hi
    exact Or.inl ⟨e, he, rfl, hi⟩
  · rw [(h.free i hmem).1] at hi
    exact Or.inr (lowered_eq_nil.1 hi.symm)

/-- A place is empty where it is that of no entry. -/
theorem Holds.empty_iff (h : Holds charSigned s es) (i : Nat) :
    (s.iFieldKeys i).empty = true ↔ i ∉ es.map Entry.slot := by
  constructor
  · intro hempty hmem
    obtain ⟨e, he, rfl⟩ := mem_map.1 hmem
    rw [StrCSumPtrLenWrapper.empty, Bool.and_eq_true, beq_iff_eq, (h.held e he).key] at hempty
    exact (h.held e he).key_ne (eq_nil_of_length_eq_zero hempty.2)
  · intro hmem
    rw [(h.free i hmem).1]
    rfl

theorem query_some (h : query charSigned s k = some i) :
    500 ≤ i ∧ i < 500 + s.iNumConflicts ∧ lowered (s.iFieldKeys i).iStr = lowered k := by
  obtain ⟨j, hj, rfl⟩ := map_eq_some_iff.1 h
  have hlt := mem_range.1 (mem_of_find?_eq_some hj)
  have hsame := find?_some hj
  exact ⟨by omega, by omega, (isCIEquivalentTo_iff charSigned _ _).1 hsame⟩

theorem query_none (h : query charSigned s k = none) (hi : 500 ≤ i)
    (hi' : i < 500 + s.iNumConflicts) : lowered (s.iFieldKeys i).iStr ≠ lowered k := by
  rw [query, map_eq_none_iff, find?_eq_none] at h
  have hnot := h (i - 500) (mem_range.2 (by omega))
  rw [show 500 + (i - 500) = i by omega] at hnot
  exact fun heq => hnot ((isCIEquivalentTo_iff charSigned _ _).2 heq)

/-- In the half that is searched, a key is found where it is. -/
theorem Holds.query_of_mem (h : Holds charSigned s es) (he : e ∈ es)
    (hk : lowered e.key = lowered k) (hslot : 500 ≤ e.slot) :
    query charSigned s k = some e.slot := by
  have hheld := h.held e he
  have hlt : e.slot < 500 + s.iNumConflicts := by
    rcases hheld.place with hp | hp
    · have := getChecksum_lt charSigned e.key
      omega
    · exact hp.2
  rcases hq : query charSigned s k with _ | i
  · exact absurd (by rw [hheld.key, hk]) (query_none hq hslot hlt)
  · obtain ⟨hi, hi', hsame⟩ := query_some hq
    rcases h.at_slot hsame with ⟨e', he', rfl, hk'⟩ | rfl
    · rw [h.entry_unique he' he (hk'.trans hk.symm)]
    · exact absurd (lowered_eq_nil.1 hk) hheld.key_ne

theorem Holds.find_of_mem (h : Holds charSigned s es) (he : e ∈ es)
    (hk : lowered e.key = lowered k) :
    getHashTableIndex charSigned s k true = (some e.slot, s) := by
  have hheld := h.held e he
  have hsum := getChecksum_congr charSigned hk
  unfold getHashTableIndex
  dsimp only
  rcases hheld.place with hp | ⟨hp, -⟩
  · rw [hsum] at hp
    rw [← hp, if_neg fun hempty => (h.empty_iff e.slot).1 hempty (mem_map_of_mem he), if_pos]
    rw [isCIEquivalentTo_iff, hheld.key, hk]
  · have hlt := getChecksum_lt charSigned k
    split
    · rw [if_pos rfl, h.query_of_mem he hk hp]
    · split
      · rename_i hsame
        rcases h.at_slot ((isCIEquivalentTo_iff charSigned _ _).1 hsame) with
          ⟨e', he', hs, hk'⟩ | rfl
        · rw [h.entry_unique he' he (hk'.trans hk.symm)] at hs
          omega
        · exact absurd (lowered_eq_nil.1 hk) hheld.key_ne
      · rw [if_pos rfl, h.query_of_mem he hk hp]

/-- The keys that can be asked for: the empty one only while no place is found for it. -/
def Askable (charSigned : Bool) (s : StringKeyValueStore) (k : Str) : Prop :=
  k = [] → query charSigned s [] = none

theorem Holds.query_of_not_mem (h : Holds charSigned s es)
    (hk : ∀ e ∈ es, lowered e.key ≠ lowered k) (hask : Askable charSigned s k) :
    query charSigned s k = none := by
  rcases hq : query charSigned s k with _ | i
  · rfl
  · obtain ⟨-, -, hsame⟩ := query_some hq
    rcases h.at_slot hsame with ⟨e, he, -, hk'⟩ | rfl
    · exact absurd hk' (hk e he)
    · rw [hask rfl] at hq
      cases hq

/-- A key that is not there is not found. -/
theorem Holds.find_of_not_mem (h : Holds charSigned s es)
    (hk : ∀ e ∈ es, lowered e.key ≠ lowered k) (hask : Askable charSigned s k) :
    getHashTableIndex charSigned s k true = (none, s) := by
  unfold getHashTableIndex
  dsimp only
  rw [h.query_of_not_mem hk hask]
  split
  · rw [if_pos rfl]
  · rename_i hempty
    rw [if_neg, if_pos rfl]
    intro hsame
    have hmem := not_not.1 (mt (h.empty_iff _).2 hempty)
    obtain ⟨e, he, hs⟩ := mem_map.1 hmem
    rw [isCIEquivalentTo_iff, ← hs, (h.held e he).key] at hsame
    exact hk e he hsame

end Find

end StringKeyValueStore

end OpenCore.HttpParcom
