/-
  File:      OpenCore/OsclUtil/BinStream.lean
  Subject:   `OsclBinOStreamBigEndian` and `OsclBinIStreamBigEndian` (oscl_bin_stream.inl) over one
             block of memory, as the code computes them.

  An output stream holds what was written to the block so far. A failed stream writes nothing
  more, so what was written only grows and never passes the end of the block.
-/
import Mathlib

namespace OpenCore.OsclUtil

open List

/-- `state_t`. -/
inductive StreamState where
  | GOOD_STATE
  | EOF_STATE
  | FAIL_STATE
  deriving DecidableEq

/-! ## 1. Big endian words -/

/-- The bytes `WriteUnsignedShort` stores. -/
def shortBytes (data : UInt16) : List UInt8 := [(data >>> 8).toUInt8, data.toUInt8]

/-- The bytes `WriteUnsignedLong` stores. -/
def longBytes (data : UInt32) : List UInt8 :=
  [(data >>> 24).toUInt8, (data >>> 16).toUInt8, (data >>> 8).toUInt8, data.toUInt8]

/-- `(byteA << NO_BITS_IN_BYTE) | byteB`. -/
def shortOf (byteA byteB : UInt8) : UInt16 := byteA.toUInt16 <<< 8 ||| byteB.toUInt16

/-- `(result << NO_BITS_IN_BYTE) | byte` over four bytes. -/
def longOf (byteA byteB byteC byteD : UInt8) : UInt32 :=
  ((byteA.toUInt32 <<< 8 ||| byteB.toUInt32) <<< 8 ||| byteC.toUInt32) <<< 8 ||| byteD.toUInt32

/-! ## 2. The output stream -/

structure OsclBinOStream where
  length : Nat
  written : List UInt8 := []
  state : StreamState := .GOOD_STATE

namespace OsclBinOStream

def fail (s : OsclBinOStream) : Bool := s.state == .FAIL_STATE

/-- `tellg`, which is `PositionInBlock` in one block. -/
def tellg (s : OsclBinOStream) : Nat := s.written.length

def ReserveSpace (s : OsclBinOStream) (size : Nat) : Bool × OsclBinOStream :=
  if s.fail then (false, s)
  else if s.length < s.tellg + size then (false, { s with state := .FAIL_STATE })
  else if s.tellg + size = s.length then (true, { s with state := .EOF_STATE })
  else (true, s)

/-- `write`, and every `operator<<` with the bytes of its data. -/
def write (s : OsclBinOStream) (data : List UInt8) : OsclBinOStream :=
  let r := s.ReserveSpace data.length
  if r.1 then { r.2 with written := r.2.written ++ data } else r.2

def put8 (s : OsclBinOStream) (data : UInt8) : OsclBinOStream := s.write [data]

def put16 (s : OsclBinOStream) (data : UInt16) : OsclBinOStream := s.write (shortBytes data)

def put32 (s : OsclBinOStream) (data : UInt32) : OsclBinOStream := s.write (longBytes data)

end OsclBinOStream

/-! ## 3. The input stream -/

structure OsclBinIStream where
  block : List UInt8
  position : Nat := 0
  state : StreamState := .GOOD_STATE

namespace OsclBinIStream

def fail (s : OsclBinIStream) : Bool := s.state == .FAIL_STATE

def eof (s : OsclBinIStream) : Bool := s.state == .EOF_STATE

def HaveRoomInCurrentBlock (s : OsclBinIStream) (size : Nat) : Bool × OsclBinIStream :=
  let pos := s.position + size
  if pos < s.block.length then (true, s)
  else if pos = s.block.length then (true, { s with state := .EOF_STATE })
  else (false, s)

/-- `*pPosition++`. -/
def next (s : OsclBinIStream) : UInt8 × OsclBinIStream :=
  (s.block.getD s.position 0, { s with position := s.position + 1 })

def Read_uint8 (s : OsclBinIStream) : UInt8 × OsclBinIStream :=
  let r := s.HaveRoomInCurrentBlock 1
  if r.1 then r.2.next else (0, { r.2 with state := .FAIL_STATE })

def Read_uint16 (s : OsclBinIStream) : UInt16 × OsclBinIStream :=
  let r := s.HaveRoomInCurrentBlock 2
  let read := if r.1 then next else Read_uint8
  let a := read r.2
  let b := read a.2
  (shortOf a.1 b.1, b.2)

def Read_uint32 (s : OsclBinIStream) : UInt32 × OsclBinIStream :=
  let r := s.HaveRoomInCurrentBlock 4
  let read := if r.1 then next else Read_uint8
  let a := read r.2
  let b := read a.2
  let c := read b.2
  let d := read c.2
  (longOf a.1 b.1 c.1 d.1, d.2)

def Seek (s : OsclBinIStream) (absPosition : Nat) : OsclBinIStream :=
  if absPosition < s.block.length then { s with position := absPosition }
  else
    { s with position := s.block.length
             state := if absPosition = s.block.length then .EOF_STATE else .FAIL_STATE }

/-- `seekFromCurrentPosition`; the sum is one of 32 bits. -/
def seekFromCurrentPosition (s : OsclBinIStream) (offset : Int) : OsclBinIStream :=
  s.Seek (((s.position : Int) + offset) % 4294967296).toNat

end OsclBinIStream

/-! ## 4. What was written -/

section Written

variable {s : OsclBinOStream} {data : List UInt8}

/-- **A write** stores its bytes and keeps the stream sound, or it fails and stores nothing. -/
theorem write_cases (s : OsclBinOStream) (data : List UInt8) :
    (s.fail = false ∧ s.tellg + data.length ≤ s.length ∧ (s.write data).fail = false ∧
      (s.write data).written = s.written ++ data ∧ (s.write data).length = s.length) ∨
    ((s.fail = true ∨ s.length < s.tellg + data.length) ∧ (s.write data).fail = true ∧
      (s.write data).written = s.written ∧ (s.write data).length = s.length) := by
  unfold OsclBinOStream.write OsclBinOStream.ReserveSpace
  by_cases hf : s.fail = true
  · rw [if_pos hf]
    exact .inr ⟨.inl hf, hf, rfl, rfl⟩
  rw [if_neg hf]
  have hok := Bool.eq_false_of_not_eq_true hf
  by_cases hlt : s.length < s.tellg + data.length
  · rw [if_pos hlt]
    exact .inr ⟨.inr hlt, rfl, rfl, rfl⟩
  rw [if_neg hlt]
  by_cases heq : s.tellg + data.length = s.length
  · rw [if_pos heq]
    exact .inl ⟨hok, Nat.le_of_not_lt hlt, rfl, rfl, rfl⟩
  · rw [if_neg heq]
    exact .inl ⟨hok, Nat.le_of_not_lt hlt, hok, rfl, rfl⟩

theorem write_grows (s : OsclBinOStream) (data : List UInt8) :
    s.written <+: (s.write data).written := by
  rcases write_cases s data with ⟨-, -, -, hw, -⟩ | ⟨-, -, hw, -⟩
  · rw [hw]
    exact prefix_append _ _
  · rw [hw]

theorem foldl_put8_grows (data : List UInt8) (s : OsclBinOStream) :
    s.written <+: (data.foldl OsclBinOStream.put8 s).written := by
  induction data generalizing s with
  | nil => exact prefix_refl _
  | cons b data ih => exact (write_grows s [b]).trans (ih _)

theorem foldl_put32_grows (data : List UInt32) (s : OsclBinOStream) :
    s.written <+: (data.foldl OsclBinOStream.put32 s).written := by
  induction data generalizing s with
  | nil => exact prefix_refl _
  | cons w data ih => exact (write_grows s (longBytes w)).trans (ih _)

/-- A stream that is still sound after a write has the bytes behind what it had. -/
theorem written_write (h : (s.write data).fail = false) :
    s.fail = false ∧ (s.write data).written = s.written ++ data := by
  rcases write_cases s data with ⟨hs, -, -, hw, -⟩ | ⟨-, hf, -, -⟩
  · exact ⟨hs, hw⟩
  · rw [h] at hf
    cases hf

/-- A write into the room that is left. -/
theorem write_room (hs : s.fail = false) (h : s.tellg + data.length ≤ s.length) :
    (s.write data).fail = false ∧ (s.write data).written = s.written ++ data ∧
      (s.write data).length = s.length := by
  rcases write_cases s data with ⟨-, -, hf, hw, hl⟩ | ⟨hbad, -, -, -⟩
  · exact ⟨hf, hw, hl⟩
  · rcases hbad with hbad | hbad
    · rw [hs] at hbad
      cases hbad
    · exact absurd h (Nat.not_le.mpr hbad)

end Written

/-! ## 5. What is left to read -/

section Reading

variable {s : OsclBinIStream} {rest : List UInt8} {a b c d : UInt8}

/-- A sound stream with these bytes in front of it. -/
structure At (s : OsclBinIStream) (rest : List UInt8) : Prop where
  sound : s.fail = false
  rest : s.block.drop s.position = rest
  le : s.position ≤ s.block.length

theorem At.length (h : At s rest) : s.position + rest.length = s.block.length := by
  have hlen := congrArg List.length h.rest
  rw [length_drop] at hlen
  have := h.le
  omega

/-- Attached to a block, a stream has all of it in front of it. -/
theorem at_attach (block : List UInt8) : At { block := block } block :=
  ⟨rfl, rfl, Nat.zero_le _⟩

/-- Room for the bytes in front of the stream: it is at its end where there are no more. -/
theorem At.room (h : At s rest) {size : Nat} (hsize : size ≤ rest.length) :
    ∃ s', s.HaveRoomInCurrentBlock size = (true, s') ∧ At s' rest ∧ s'.block = s.block ∧
      s'.position = s.position ∧ (size < rest.length → s' = s) := by
  have hlen := h.length
  unfold OsclBinIStream.HaveRoomInCurrentBlock
  dsimp only
  by_cases hlt : s.position + size < s.block.length
  · rw [if_pos hlt]
    exact ⟨s, rfl, h, rfl, rfl, fun _ => rfl⟩
  · rw [if_neg hlt, if_pos (by omega)]
    exact ⟨_, rfl, ⟨rfl, h.rest, h.le⟩, rfl, rfl, fun hmore => by omega⟩

theorem At.next (h : At s (b :: rest)) :
    ∃ s', s.next = (b, s') ∧ At s' rest ∧ s'.block = s.block ∧ s'.position = s.position + 1 ∧
      s'.state = s.state := by
  have hlen := h.length
  have hpos : s.position < s.block.length := by
    rw [length_cons] at hlen
    omega
  have hrest := h.rest
  rw [drop_eq_getElem_cons hpos] at hrest
  obtain ⟨hb, hrest⟩ := cons.inj hrest
  refine ⟨{ s with position := s.position + 1 }, ?_, ⟨h.sound, hrest, hpos⟩, rfl, rfl, rfl⟩
  rw [OsclBinIStream.next, getD_eq_getElem _ _ hpos, hb]

/-- **A byte read**. -/
theorem At.read8 (h : At s (b :: rest)) :
    ∃ s', s.Read_uint8 = (b, s') ∧ At s' rest ∧ s'.block = s.block ∧
      s'.position = s.position + 1 ∧ (rest ≠ [] → s'.state = s.state) := by
  obtain ⟨s₁, h₁, hat, hblock, hpos, hsame⟩ := h.room (Nat.succ_le_succ (Nat.zero_le rest.length))
  obtain ⟨s₂, h₂, hat₂, hblock₂, hpos₂, hstate⟩ := hat.next
  refine ⟨s₂, ?_, hat₂, hblock₂.trans hblock, by rw [hpos₂, hpos], fun hne => ?_⟩
  · rw [OsclBinIStream.Read_uint8, h₁]
    exact h₂
  · rw [hstate, hsame (by
      have := length_pos_of_ne_nil hne
      rw [length_cons]
      omega)]

/-- **A short read**. -/
theorem At.read16 (h : At s (a :: b :: rest)) :
    ∃ s', s.Read_uint16 = (shortOf a b, s') ∧ At s' rest ∧ s'.block = s.block ∧
      s'.position = s.position + 2 := by
  obtain ⟨s₁, h₁, hat, hblock, hpos, -⟩ := h.room
    (Nat.succ_le_succ (Nat.succ_le_succ (Nat.zero_le rest.length)))
  obtain ⟨s₂, h₂, hat₂, hblock₂, hpos₂, -⟩ := hat.next
  obtain ⟨s₃, h₃, hat₃, hblock₃, hpos₃, -⟩ := hat₂.next
  refine ⟨s₃, ?_, hat₃, by rw [hblock₃, hblock₂, hblock], by rw [hpos₃, hpos₂, hpos]⟩
  rw [OsclBinIStream.Read_uint16, h₁]
  dsimp only
  rw [if_pos rfl, h₂, h₃]

/-- **A long read**. -/
theorem At.read32 (h : At s (a :: b :: c :: d :: rest)) :
    ∃ s', s.Read_uint32 = (longOf a b c d, s') ∧ At s' rest ∧ s'.block = s.block ∧
      s'.position = s.position + 4 := by
  obtain ⟨s₁, h₁, hat, hblock, hpos, -⟩ := h.room
    (Nat.succ_le_succ (Nat.succ_le_succ (Nat.succ_le_succ (Nat.succ_le_succ
      (Nat.zero_le rest.length)))))
  obtain ⟨s₂, h₂, hat₂, hblock₂, hpos₂, -⟩ := hat.next
  obtain ⟨s₃, h₃, hat₃, hblock₃, hpos₃, -⟩ := hat₂.next
  obtain ⟨s₄, h₄, hat₄, hblock₄, hpos₄, -⟩ := hat₃.next
  obtain ⟨s₅, h₅, hat₅, hblock₅, hpos₅, -⟩ := hat₄.next
  refine ⟨s₅, ?_, hat₅, by rw [hblock₅, hblock₄, hblock₃, hblock₂, hblock],
    by rw [hpos₅, hpos₄, hpos₃, hpos₂, hpos]⟩
  rw [OsclBinIStream.Read_uint32, h₁]
  dsimp only
  rw [if_pos rfl, h₂, h₃, h₄, h₅]

/-- What `WriteUnsignedShort` stores reads back. -/
theorem shortOf_shortBytes (data : UInt16) :
    shortOf (data >>> 8).toUInt8 data.toUInt8 = data := by
  refine UInt16.toBitVec_inj.mp (BitVec.eq_of_getLsbD_eq fun i hi => ?_)
  unfold shortOf
  interval_cases i <;> simp [-UInt16.toUInt16_toUInt8]

/-- What `WriteUnsignedLong` stores reads back. -/
theorem longOf_longBytes (data : UInt32) :
    longOf (data >>> 24).toUInt8 (data >>> 16).toUInt8 (data >>> 8).toUInt8 data.toUInt8 =
      data := by
  refine UInt32.toBitVec_inj.mp (BitVec.eq_of_getLsbD_eq fun i hi => ?_)
  unfold longOf
  interval_cases i <;> simp [-UInt32.toUInt32_toUInt8]

theorem At.readLong {data : UInt32} (h : At s (longBytes data ++ rest)) :
    ∃ s', s.Read_uint32 = (data, s') ∧ At s' rest ∧ s'.block = s.block ∧
      s'.position = s.position + 4 := by
  have hread := At.read32 h
  rwa [longOf_longBytes] at hread

/-- **Bytes skipped**, in a block of fewer than 2^32. -/
theorem At.skip {skipped : List UInt8} (h : At s (skipped ++ rest))
    (hblock : s.block.length < 4294967296) :
    let r := s.seekFromCurrentPosition skipped.length
    At r rest ∧ r.block = s.block ∧ r.position = s.position + skipped.length := by
  have hlen := h.length
  rw [length_append] at hlen
  have hto : (((s.position : Int) + skipped.length) % 4294967296).toNat =
      s.position + skipped.length := by omega
  have hdrop : s.block.drop (s.position + skipped.length) = rest := by
    rw [← drop_drop, h.rest, drop_left]
  unfold OsclBinIStream.seekFromCurrentPosition OsclBinIStream.Seek
  rw [hto]
  split
  · exact ⟨⟨h.sound, hdrop, by dsimp only; omega⟩, rfl, rfl⟩
  · rename_i hend
    have heq : s.position + skipped.length = s.block.length := by omega
    rw [if_pos heq]
    exact ⟨⟨rfl, by rw [← heq]; exact hdrop, Nat.le_refl _⟩, rfl, heq.symm⟩

end Reading

end OpenCore.OsclUtil
