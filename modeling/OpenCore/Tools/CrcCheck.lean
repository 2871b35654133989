/-
  File:      OpenCore/Tools/CrcCheck.lean
  Subject:   THE 8- AND 16-BIT CRC OF THE ADAPTATION LAYERS, over media data in fragments.

  `CRC` builds two tables of 256 words and steps through the data a byte at a time. Over media
  data it walks the fragments with a count of bytes left in the current one, which is compared
  before it is used up, so that an empty fragment makes it read one byte past that fragment.

  **Main results** `Crc8Check_eq_of_closed`, `Crc16Check_eq_of_closed`.
-/
import Mathlib

namespace OpenCore.CRC

/-! ## 1. The tables -/

/-- `CRC_X8`: x^8 + x^2 + x + 1. -/
def CRC_X8 : UInt8 := 0xe0

/-- `CRC_X`: x^16 + x^12 + x^5 + 1. -/
def CRC_X : UInt16 := 0x8408

/-- One turn of the inner loop of the 8-bit table. -/
def shift8 (Crc : UInt8) : UInt8 :=
  if Crc &&& 1 ≠ 0 then (Crc >>> 1) ^^^ CRC_X8 else Crc >>> 1

/-- One turn of the inner loop of the 16-bit table. -/
def shift16 (Crc16 : UInt16) : UInt16 :=
  if Crc16 &&& 1 ≠ 0 then (Crc16 >>> 1) ^^^ CRC_X else Crc16 >>> 1

/-- `CrcTbl8`: eight turns for each byte. -/
def CrcTbl8 (i : UInt8) : UInt8 := shift8^[8] i

/-- `CrcTbl16`: eight turns for each byte. -/
def CrcTbl16 (n : UInt8) : UInt16 := shift16^[8] n.toUInt16

/-- A byte through the 8-bit CRC; the old value shifted by eight bits is 0. -/
def step8 (crc : UInt8) (byte : UInt8) : UInt8 := CrcTbl8 (crc ^^^ byte)

/-- A byte through the 16-bit CRC. -/
def step16 (crc : UInt16) (byte : UInt8) : UInt16 :=
  (crc >>> 8) ^^^ CrcTbl16 (crc.toUInt8 ^^^ byte)

/-- `Crc8Check` of a flat buffer. -/
def Crc8 (data : List UInt8) : UInt8 := data.foldl step8 0

/-- `Crc16Check` of a flat buffer. -/
def Crc16 (data : List UInt8) : UInt16 := data.foldl step16 0xffff ^^^ 0xffff

/-! ## 2. The walk over the fragments -/

section Walk

variable {σ : Type} (step : σ → UInt8 → σ)

/-- What the loop does with a byte at `pData`: outside the fragment (`none`) or through the CRC. -/
def readByte (crc : σ) : List UInt8 → Option (σ × List UInt8)
  | [] => none
  | byte :: pData => some (step crc byte, pData)

/-- The loop of both CRCs over media data: `dataSize` turns, `curSize` bytes left of the fragment
    `frag`, the rest of it at `pData`, and the fragments from `fragIdx` on. Where there is no
    further fragment the 8-bit CRC returns 0 (`missing`), the 16-bit CRC takes the last one
    again. -/
def walk (missing : Option σ) :
    Nat → Nat → List UInt8 → List UInt8 → List (List UInt8) → σ → Option σ
  | 0, _, _, _, _, crc => some crc
  | dataSize + 1, curSize, frag, pData, frags, crc =>
    if curSize - 1 = 0 then
      match frags, missing with
      | frag' :: rest, _ => do
        let (crc, pData) ← readByte step crc frag'
        walk missing dataSize frag'.length frag' pData rest crc
      | [], some value => some value
      | [], none => do
        let (crc, pData) ← readByte step crc frag
        walk missing dataSize frag.length frag pData [] crc
    else do
      let (crc, pData) ← readByte step crc pData
      walk missing dataSize (curSize - 1) frag pData frags crc

end Walk

/-- `getFilledSize`: the bytes of all fragments. -/
def getFilledSize (frags : List (List UInt8)) : Nat := frags.flatten.length

/-- `Crc8Check` over media data, with or without the CRC field at its end. -/
def Crc8Check (mediaData : List (List UInt8)) (hasCRC : Bool) : Option UInt8 :=
  let dataSize := if hasCRC then getFilledSize mediaData - 1 else getFilledSize mediaData
  walk step8 (some 0) dataSize 0 [] [] mediaData 0

/-- `Crc16Check` over media data, with or without the CRC field at its end. -/
def Crc16Check (mediaData : List (List UInt8)) (hasCRC : Bool) : Option UInt16 :=
  let dataSize := if hasCRC then getFilledSize mediaData - 2 else getFilledSize mediaData
  (walk step16 none dataSize 0 [] [] mediaData 0xffff).map (· ^^^ 0xffff)

/-! ## 3. The walk is the walk over the contents -/

/-- No empty fragment stands before a byte. -/
def Closed : List (List UInt8) → Prop
  | [] => True
  | frag :: rest => (frag = [] → rest.flatten = []) ∧ Closed rest

variable {frags : List (List UInt8)}

theorem closed_of_nonempty (h : ∀ f ∈ frags, f ≠ []) :
    Closed frags := by
  induction frags with
  | nil => trivial
  | cons f rest ih =>
    refine ⟨fun hf => ?_, ih fun g hg => h g (List.mem_cons_of_mem f hg)⟩
    exact absurd hf (h f List.mem_cons_self)

/-- Empty fragments at the end do no harm. -/
theorem closed_append {tail : List (List UInt8)} (h : ∀ f ∈ frags, f ≠ [])
    (htail : tail.flatten = []) : Closed (frags ++ tail) := by
  induction frags with
  | nil =>
    clear h
    induction tail with
    | nil => trivial
    | cons f rest ih =>
      have hrest : rest.flatten = [] := by simp at htail ⊢; exact htail.2
      exact ⟨fun _ => hrest, ih hrest⟩
  | cons f rest ih =>
    refine ⟨fun hf => ?_, ih fun g hg => h g (List.mem_cons_of_mem f hg)⟩
    exact absurd hf (h f List.mem_cons_self)

section Walk

variable {σ : Type} (step : σ → UInt8 → σ)

section

variable (missing : Option σ)
include missing

/-- A byte of the next fragment, the current one being used up. -/
theorem walk_fetch (dataSize : Nat) {curSize : Nat} (frag pData : List UInt8)
    (byte : UInt8) (next : List UInt8) (rest : List (List UInt8)) (crc : σ)
    (hcur : curSize - 1 = 0) :
    walk step missing (dataSize + 1) curSize frag pData ((byte :: next) :: rest) crc
      = walk step missing dataSize (next.length + 1) (byte :: next) next rest (step crc byte) := by
  simp [walk, readByte, hcur]

theorem walk_next (dataSize : Nat) {curSize : Nat} (frag : List UInt8)
    (byte : UInt8) (pData : List UInt8) (frags : List (List UInt8)) (crc : σ)
    (hcur : curSize - 1 ≠ 0) :
    walk step missing (dataSize + 1) curSize frag (byte :: pData) frags crc
      = walk step missing dataSize (curSize - 1) frag pData frags (step crc byte) := by
  simp [walk, readByte, hcur]

/-- The walk from the middle of a fragment: the bytes at `pData` and then those of the fragments
    that follow, `curSize` being one more than the bytes at `pData`. -/
theorem walk_eq_foldl (dataSize curSize : Nat) (frag pData : List UInt8)
    (frags : List (List UInt8)) (crc : σ) (hcur : curSize - 1 = pData.length)
    (hclosed : Closed frags) (hsize : dataSize ≤ pData.length + frags.flatten.length) :
    walk step missing dataSize curSize frag pData frags crc
      = some (((pData ++ frags.flatten).take dataSize).foldl step crc) := by
  induction dataSize generalizing curSize frag pData frags crc with
  | zero => simp [walk]
  | succ dataSize ih =>
    rcases pData with _ | ⟨byte, pData⟩
    · -- the fragment is used up: its successor holds the next byte
      rcases frags with _ | ⟨_ | ⟨byte, next⟩, rest⟩
      · simp at hsize
      · rw [List.flatten_cons, hclosed.1 rfl] at hsize
        simp at hsize
      · rw [walk_fetch step missing dataSize frag [] byte next rest crc hcur,
          ih _ _ next rest (step crc byte) (by simp) hclosed.2 (by simp at hsize ⊢; omega)]
        simp
    · have hne : curSize - 1 ≠ 0 := by simp at hcur; omega
      rw [walk_next step missing dataSize frag byte pData frags crc hne,
        ih _ frag pData frags (step crc byte) (by simp at hcur ⊢; omega) hclosed
          (by simp at hsize ⊢; omega)]
      simp

theorem walk_all (crc : σ)
    (hclosed : Closed frags) :
    walk step missing frags.flatten.length 0 [] [] frags crc
      = some (frags.flatten.foldl step crc) := by
  rw [walk_eq_foldl step missing _ 0 [] [] frags crc rfl hclosed (by simp), List.nil_append,
    List.take_length]

end

end Walk

/-- **The 8-bit CRC over fragments is the CRC of their contents.** -/
theorem Crc8Check_eq_of_closed {mediaData : List (List UInt8)} (h : Closed mediaData) :
    Crc8Check mediaData false = some (Crc8 mediaData.flatten) :=
  walk_all step8 (some 0) 0 h

/-- **The 16-bit CRC over fragments is the CRC of their contents.** -/
theorem Crc16Check_eq_of_closed {mediaData : List (List UInt8)} (h : Closed mediaData) :
    Crc16Check mediaData false = some (Crc16 mediaData.flatten) := by
  show (walk step16 none mediaData.flatten.length 0 [] [] mediaData 0xffff).map _ = _
  rw [walk_all step16 none 0xffff h]
  rfl

end OpenCore.CRC
