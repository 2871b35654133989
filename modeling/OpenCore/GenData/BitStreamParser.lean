/-
  File:      OpenCore/GenData/BitStreamParser.lean
  Subject:   READING AND WRITING BITS IN A BUFFER.

  A parser is at a bit position of its buffer (`BitStreamParser.at`). What a call is to do is said
  over the bits of the buffer, highest first (`WellDone`). `NextBits` fails where it arrives exactly
  at the end, and `WriteBits` reads its data with a second parser that always arrives there.

  **Main result**: `calls_wellDone_iff`.
-/
import OpenCore.Lib.MsbBits
import OpenCore.Lib.Reading

namespace OpenCore.GenData

open MsbBits List

/-! ## 1. The parser -/

/-- Why a call does not return: it leaves, or it touches memory beyond the buffer. -/
inductive Leave where
  | OsclErrOverflow
  | outside
  deriving DecidableEq, Repr

/-- `BitStreamParser`; `stream` is the buffer from `start` on and `bytepos` an index into it. -/
structure BitStreamParser where
  stream : List UInt8
  bytepos : Nat
  bitpos : Nat
  deriving DecidableEq, Repr

/-- A method of the parser. -/
abbrev ParserM := ReadM Leave BitStreamParser

namespace BitStreamParser

def MOST_SIG_BIT : Nat := 7

/-- The constructor, for the whole of `stream`. -/
def ofStream (stream : List UInt8) : BitStreamParser := ⟨stream, 0, MOST_SIG_BIT⟩

def BytesLeft (s : BitStreamParser) : Nat := (s.stream.length + 2 ^ 32 - s.bytepos) % 2 ^ 32

def BitsLeft (s : BitStreamParser) : Nat :=
  ((s.BytesLeft + 2 ^ 32 - 1) * 8 + (1 + s.bitpos)) % 2 ^ 32

/-- `*bytepos` is read. -/
def load : ParserM UInt8 := do
  let s ← get
  match s.stream[s.bytepos]? with
  | some byte => return byte
  | none => throw .outside

/-- `*bytepos` is written. -/
def store (byte : UInt8) : ParserM Unit := do
  let s ← get
  if s.bytepos < s.stream.length then set { s with stream := s.stream.set s.bytepos byte }
  else throw .outside

/-- The check against the end of the buffer. -/
def checkEnd : ParserM Unit := do
  let s ← get
  if s.bytepos ≥ s.stream.length then throw .OsclErrOverflow

/-- `bytepos++`. -/
def nextByte : ParserM Unit := modify fun s => { s with bytepos := s.bytepos + 1 }

def NextBit : ParserM Unit := do
  let s ← get
  if s.bitpos ≠ 0 then set { s with bitpos := s.bitpos - 1 }
  else do
    checkEnd
    set { s with bitpos := MOST_SIG_BIT, bytepos := s.bytepos + 1 }

def NextBits (numberOfBits : Nat) : ParserM Unit := do
  let s ← get
  let newbitpos := (numberOfBits + (MOST_SIG_BIT - s.bitpos)) % 2 ^ 32
  set { s with bitpos := MOST_SIG_BIT - newbitpos % 8, bytepos := s.bytepos + newbitpos / 8 }
  checkEnd

def bitmask : List Nat := [0x00, 0x01, 0x03, 0x07, 0x0f, 0x1f, 0x3f, 0x7f, 0xff]

/-- The loop of `ReadBits`. -/
def readLoop : Nat → Nat → Nat → ParserM Nat
  | 0, _, output => return output
  | fuel + 1, numberOfBits, output =>
    if numberOfBits = 0 then return output
    else do
      checkEnd
      let s ← get
      if numberOfBits ≥ 8 ∧ s.bitpos = MOST_SIG_BIT then do
        let byte ← load
        nextByte
        readLoop fuel (numberOfBits - 8) ((output <<< 8 ||| byte.toNat) % 2 ^ 32)
      else do
        let bitsFromThisByte := min (s.bitpos + 1) numberOfBits
        let byte ← load
        NextBits bitsFromThisByte
        readLoop fuel (numberOfBits - bitsFromThisByte)
          ((output <<< bitsFromThisByte |||
            ((byte.toNat >>> (s.bitpos - (bitsFromThisByte - 1))) &&&
              bitmask.getD bitsFromThisByte 0)) % 2 ^ 32)

def ReadBits (numberOfBits : Nat) : ParserM Nat := readLoop 32 (min numberOfBits 32) 0

def ReadUInt8 : ParserM Nat := do
  let s ← get
  if s.bitpos ≠ MOST_SIG_BIT then ReadBits 8
  else do
    checkEnd
    let read ← load
    nextByte
    return read.toNat

def ReadUInt16 : ParserM Nat := do
  let b0 ← ReadUInt8
  let b1 ← ReadUInt8
  return b0 * 2 ^ 8 + b1

def ReadUInt32 : ParserM Nat := do
  let b0 ← ReadUInt8
  let b1 ← ReadUInt8
  let b2 ← ReadUInt8
  let b3 ← ReadUInt8
  return b0 * 2 ^ 24 + b1 * 2 ^ 16 + b2 * 2 ^ 8 + b3

/-- The loop of `WriteBits`, with the parser over the data. -/
def writeLoop : Nat → BitStreamParser → ParserM Unit
  | 0, _ => return
  | numberOfBits + 1, input => do
      let s ← get
      let byte ← load
      let cleared := byte &&& ~~~ (1 <<< UInt8.ofNat s.bitpos)
      match (ReadBits 1).exec input with
      | (.error x, _) => throw x
      | (.ok bit, input) => do
          store (cleared ||| (UInt8.ofNat bit <<< UInt8.ofNat s.bitpos))
          NextBit
          writeLoop numberOfBits input

def BITS_TO_BYTES (bits : Nat) : Nat := (bits + MOST_SIG_BIT) / 8

def WriteBits (numberOfBits : Nat) (data : List UInt8) : ParserM Unit :=
  let input := ofStream (data.take (BITS_TO_BYTES numberOfBits))
  match (NextBits ((input.BitsLeft + 2 ^ 32 - numberOfBits) % 2 ^ 32)).exec input with
  | (.error x, _) => throw x
  | (.ok _, input) => writeLoop numberOfBits input

def WriteUInt8 (data : UInt8) : ParserM Unit := do
  let s ← get
  if s.bitpos ≠ MOST_SIG_BIT then WriteBits 8 [data]
  else do
    checkEnd
    store data
    nextByte

def WriteUInt16 (data : UInt16) : ParserM Unit := do
  WriteUInt8 (data >>> 8).toUInt8
  WriteUInt8 data.toUInt8

def WriteUInt32 (data : UInt32) : ParserM Unit := do
  WriteUInt8 (data >>> 24).toUInt8
  WriteUInt8 (data >>> 16).toUInt8
  WriteUInt8 (data >>> 8).toUInt8
  WriteUInt8 data.toUInt8

/-- The parser at a bit position. -/
def atBit (stream : List UInt8) (p : Nat) : BitStreamParser := ⟨stream, p / 8, 7 - p % 8⟩

end BitStreamParser

/-- The calls. -/
inductive Call where
  | ReadBits (numberOfBits : Nat)
  | ReadUInt8
  | ReadUInt16
  | ReadUInt32
  | NextBits (numberOfBits : Nat)
  | WriteBits (numberOfBits : Nat) (data : List UInt8)
  | WriteUInt8 (data : UInt8)
  | WriteUInt16 (data : UInt16)
  | WriteUInt32 (data : UInt32)
  deriving DecidableEq, Repr

namespace Call

/-- The call of the parser. -/
def run : Call → ParserM Nat
  | ReadBits n => BitStreamParser.ReadBits n
  | ReadUInt8 => BitStreamParser.ReadUInt8
  | ReadUInt16 => BitStreamParser.ReadUInt16
  | ReadUInt32 => BitStreamParser.ReadUInt32
  | NextBits n => do
      BitStreamParser.NextBits n
      return 0
  | WriteBits n data => do
      BitStreamParser.WriteBits n data
      return 0
  | WriteUInt8 data => do
      BitStreamParser.WriteUInt8 data
      return 0
  | WriteUInt16 data => do
      BitStreamParser.WriteUInt16 data
      return 0
  | WriteUInt32 data => do
      BitStreamParser.WriteUInt32 data
      return 0

/-! ## 2. What a call is to do -/

/-- The arguments that a call is documented for. -/
def Legal : Call → Prop
  | ReadBits n => n ≤ 32
  | NextBits n => n < 2 ^ 32
  | WriteBits n data => n < 2 ^ 8 ∧ BitStreamParser.BITS_TO_BYTES n ≤ data.length
  | _ => True

/-- The bits that a call needs. -/
def width : Call → Nat
  | ReadBits n | NextBits n | WriteBits n _ => n
  | ReadUInt8 | WriteUInt8 _ => 8
  | ReadUInt16 | WriteUInt16 _ => 16
  | ReadUInt32 | WriteUInt32 _ => 32

/-- The bits that a call writes. -/
def written : Call → Option (List Bool)
  | WriteBits n data =>
    let octets := data.take (BitStreamParser.BITS_TO_BYTES n)
    some ((bits octets).drop (8 * octets.length - n))
  | WriteUInt8 data => some (ofNum 8 data.toNat)
  | WriteUInt16 data => some (ofNum 16 data.toNat)
  | WriteUInt32 data => some (ofNum 32 data.toNat)
  | _ => none

/-- What a call returns, from the bits `l` of the buffer. -/
def answer (l : List Bool) (p : Nat) : Call → Nat
  | ReadBits n => num ((l.drop p).take n)
  | ReadUInt8 => num ((l.drop p).take 8)
  | ReadUInt16 => num ((l.drop p).take 16)
  | ReadUInt32 => num ((l.drop p).take 32)
  | _ => 0

/-- The bits of the buffer behind a call. -/
def changed (c : Call) (l : List Bool) (p : Nat) : List Bool :=
  match c.written with
  | none => l
  | some w => l.take p ++ w ++ l.drop (p + c.width)

/-- The call that reads back what a call wrote. -/
def readBack : Call → Call
  | WriteBits n _ => ReadBits n
  | WriteUInt8 _ => ReadUInt8
  | WriteUInt16 _ => ReadUInt16
  | WriteUInt32 _ => ReadUInt32
  | c => c

/-- **What a call is to do** at a position: return the bits, write its own and go on, with what it
    wrote to be read back; or leave where it needs bits beyond the buffer. -/
def WellDone (c : Call) (stream : List UInt8) (p : Nat) : Prop :=
  if p + c.width ≤ 8 * stream.length then
    ∃ stream', c.run.exec (.atBit stream p) =
        (.ok (c.answer (bits stream) p), .atBit stream' (p + c.width)) ∧
      bits stream' = c.changed (bits stream) p ∧
      ∀ w ∈ c.written, (c.readBack.run.exec (.atBit stream' p)).1 = .ok (num w)
  else (c.run.exec (.atBit stream p)).1 = .error .OsclErrOverflow

/-- Where the parser does that: a read does not end within the last octet; a jump does not arrive
    at the end, and its number of bits is far from the range of its type; nothing is written across
    octets, unless what is written does not fit behind its first octet. -/
def Fine (c : Call) (len p : Nat) : Prop :=
  match c with
  | ReadBits n => p + n = 8 * len → p % 8 ≠ 0 → 8 ≤ n
  | NextBits n => p + n ≠ 8 * len ∧ p % 8 + n < 2 ^ 32
  | WriteBits _ _ => False
  | WriteUInt8 _ => p % 8 = 0
  | WriteUInt16 _ => p % 8 = 0 ∨ p + 8 ≤ 8 * len ∧ 8 * len < p + 16
  | WriteUInt32 _ => p % 8 = 0 ∨ p + 8 ≤ 8 * len ∧ 8 * len < p + 32
  | _ => True

end Call

/-! ## 3. The parser at a position -/

variable {n b : Nat} {data : List UInt8}

namespace BitStreamParser

variable {stream : List UInt8} {p : Nat}

theorem exec_load (h : p < 8 * stream.length) :
    ∃ byte, stream[p / 8]? = some byte ∧ load.exec (atBit stream p) = (.ok byte, atBit stream p) := by
  have hlt : p / 8 < stream.length := by omega
  refine ⟨stream[p / 8], getElem?_eq_getElem hlt, ?_⟩
  unfold load
  rw [exec_bind, exec_get]
  dsimp only [atBit]
  rw [getElem?_eq_getElem hlt]
  rfl

theorem exec_load_outside (h : 8 * stream.length ≤ p) :
    load.exec (atBit stream p) = (.error .outside, atBit stream p) := by
  unfold load
  rw [exec_bind, exec_get]
  dsimp only [atBit]
  rw [getElem?_eq_none (by omega)]
  rfl

theorem exec_store (h : p < 8 * stream.length) (byte : UInt8) :
    (store byte).exec (atBit stream p) = (.ok (), atBit (stream.set (p / 8) byte) p) := by
  have hlt : p / 8 < stream.length := by omega
  unfold store
  rw [exec_bind, exec_get]
  dsimp only [atBit]
  rw [if_pos hlt]
  rfl

theorem exec_checkEnd (stream : List UInt8) (p : Nat) :
    checkEnd.exec (atBit stream p) =
      (if 8 * stream.length ≤ p then .error .OsclErrOverflow else .ok (), atBit stream p) := by
  unfold checkEnd
  rw [exec_bind, exec_get]
  dsimp only [atBit]
  by_cases h : 8 * stream.length ≤ p
  · rw [if_pos h, if_pos (by omega)]
    rfl
  · rw [if_neg h, if_neg (by omega)]
    rfl

theorem exec_nextByte (h : p % 8 = 0) :
    nextByte.exec (atBit stream p) = (.ok (), atBit stream (p + 8)) := by
  have hb : p / 8 + 1 = (p + 8) / 8 := by omega
  have hp : (p + 8) % 8 = p % 8 := by omega
  unfold nextByte
  rw [exec_modify]
  dsimp only [atBit]
  rw [hb, hp]

/-- `NextBit` does not fail within the buffer, nor where it arrives at the end. -/
theorem exec_NextBit (h : p < 8 * stream.length) :
    NextBit.exec (atBit stream p) = (.ok (), atBit stream (p + 1)) := by
  unfold NextBit
  rw [exec_bind, exec_get]
  dsimp only
  by_cases h7 : p % 8 = 7
  · have hb : p / 8 + 1 = (p + 1) / 8 := by omega
    have hp : (p + 1) % 8 = 0 := by omega
    rw [if_neg (by dsimp only [atBit]; omega), exec_bind, exec_checkEnd, if_neg (by omega)]
    dsimp only
    rw [exec_set]
    dsimp only [atBit, MOST_SIG_BIT]
    rw [hb, hp]
  · have hb : p / 8 = (p + 1) / 8 := by omega
    have hp : 7 - p % 8 - 1 = 7 - (p + 1) % 8 := by omega
    rw [if_pos (by dsimp only [atBit]; omega), exec_set]
    dsimp only [atBit]
    rw [hb, hp]

theorem exec_NextBits_mod : (NextBits n).exec (atBit stream p) =
    (if 8 * stream.length ≤ p / 8 * 8 + (n + p % 8) % 2 ^ 32 then .error .OsclErrOverflow
      else .ok (), atBit stream (p / 8 * 8 + (n + p % 8) % 2 ^ 32)) := by
  have hbit : MOST_SIG_BIT - (atBit stream p).bitpos = p % 8 := by
    dsimp only [atBit, MOST_SIG_BIT]
    omega
  have hat : ∀ d, ({ atBit stream p with
      bitpos := MOST_SIG_BIT - d % 8
      bytepos := (atBit stream p).bytepos + d / 8 } : BitStreamParser) =
        atBit stream (p / 8 * 8 + d) := by
    intro d
    have hb : p / 8 + d / 8 = (p / 8 * 8 + d) / 8 := by omega
    have hm : d % 8 = (p / 8 * 8 + d) % 8 := by omega
    dsimp only [atBit, MOST_SIG_BIT]
    rw [hb, ← hm]
  unfold NextBits
  rw [exec_bind, exec_get]
  dsimp only
  rw [hbit, exec_bind, exec_set]
  dsimp only
  rw [hat, exec_checkEnd]

theorem exec_NextBits (h : p % 8 + n < 2 ^ 32) :
    (NextBits n).exec (atBit stream p) =
      (if 8 * stream.length ≤ p + n then .error .OsclErrOverflow else .ok (),
        atBit stream (p + n)) := by
  have hq : p / 8 * 8 + (n + p % 8) % 2 ^ 32 = p + n := by omega
  rw [exec_NextBits_mod, hq]

/-- Beyond the range of its type, a number of bits moves the position to too small a value. -/
theorem exec_NextBits_wrapped (hn : n < 2 ^ 32) (h : 2 ^ 32 ≤ p % 8 + n) :
    (NextBits n).exec (atBit stream p) =
      (if 8 * stream.length ≤ p + n - 2 ^ 32 then .error .OsclErrOverflow else .ok (),
        atBit stream (p + n - 2 ^ 32)) := by
  have hq : p / 8 * 8 + (n + p % 8) % 2 ^ 32 = p + n - 2 ^ 32 := by omega
  rw [exec_NextBits_mod, hq]

/-! ## 4. Reading -/

theorem octet_bits (byte : UInt8) {k : Nat} (h : k + b ≤ 8) :
    num (((octetBits byte).drop k).take b) = (byte.toNat >>> (8 - k - b)) % 2 ^ b := by
  obtain ⟨x, y, z, hx, hy, hz, hall⟩ : ∃ x y z : List Bool, x.length = k ∧ y.length = b ∧
      z.length = 8 - k - b ∧ octetBits byte = x ++ (y ++ z) := by
    refine ⟨(octetBits byte).take k, ((octetBits byte).drop k).take b,
      ((octetBits byte).drop k).drop b, ?_, ?_, ?_, ?_⟩
    · rw [length_take, octetBits_length]
      omega
    · rw [length_take, length_drop, octetBits_length]
      omega
    · rw [length_drop, length_drop, octetBits_length]
    · rw [take_append_drop, take_append_drop]
  have hnum := num_octetBits byte
  rw [hall] at hnum ⊢
  rw [← hx, drop_left, ← hy, take_left, hx, hy, ← hz, ← hnum, Nat.shiftRight_eq_div_pow,
    ← append_assoc, num_div, ← hy, num_mod]

/-- The bits at a position that lie in one octet. -/
theorem part_value {byte : UInt8} (hbyte : stream[p / 8]? = some byte)
    (h : p % 8 + b ≤ 8) :
    num (((bits stream).drop p).take b) = (byte.toNat >>> (8 - p % 8 - b)) % 2 ^ b := by
  obtain ⟨hlt, hget⟩ := List.getElem?_eq_some_iff.mp hbyte
  have hp : p = 8 * (p / 8) + p % 8 := by omega
  have hdrop : (bits stream).drop p =
      (octetBits byte ++ bits (stream.drop (p / 8 + 1))).drop (p % 8) := by
    rw [← bits_cons, ← hget, getElem_cons_drop hlt, bits_drop, drop_drop, ← hp]
  rw [hdrop, drop_append_of_le_length (by rw [octetBits_length]; omega),
    take_append_of_le_length (by rw [length_drop, octetBits_length]; omega),
    octet_bits byte h]

theorem readLoop_zero (fuel output : Nat) (s : BitStreamParser) :
    (readLoop fuel 0 output).exec s = (.ok output, s) := by
  cases fuel with
  | zero => rfl
  | succ fuel =>
    rw [readLoop, if_pos rfl]
    rfl

theorem readLoop_end (hn : 0 < n) (h : 8 * stream.length ≤ p) (fuel output : Nat) :
    (readLoop (fuel + 1) n output).exec (atBit stream p) =
      (.error .OsclErrOverflow, atBit stream p) := by
  rw [readLoop, if_neg (by omega), exec_bind, exec_checkEnd, if_pos h]

theorem readLoop_whole (hn : 8 ≤ n) (hp : p % 8 = 0) (h : p < 8 * stream.length)
    (fuel output : Nat) :
    (readLoop (fuel + 1) n output).exec (atBit stream p) =
      (readLoop fuel (n - 8) ((output * 2 ^ 8 + num (((bits stream).drop p).take 8)) % 2 ^ 32)).exec
        (atBit stream (p + 8)) := by
  obtain ⟨byte, hbyte, hload⟩ := exec_load h
  have hval : num (((bits stream).drop p).take 8) = byte.toNat := by
    have hshift : 8 - p % 8 - 8 = 0 := by omega
    rw [part_value hbyte (by omega), hshift, Nat.shiftRight_zero]
    exact Nat.mod_eq_of_lt byte.toNat_lt
  have h7 : n ≥ 8 ∧ (atBit stream p).bitpos = MOST_SIG_BIT := by
    refine ⟨hn, ?_⟩
    dsimp only [atBit, MOST_SIG_BIT]
    omega
  rw [readLoop, if_neg (by omega), exec_bind, exec_checkEnd, if_neg (by omega)]
  dsimp only
  rw [exec_bind, exec_get]
  dsimp only
  rw [if_pos h7, exec_bind, hload]
  dsimp only
  rw [exec_bind, exec_nextByte hp]
  dsimp only
  rw [hval, ← Nat.shiftLeft_eq, Nat.shiftLeft_add_eq_or_of_lt byte.toNat_lt]

theorem and_bitmask (hb : b ≤ 8) (x : Nat) : x &&& bitmask.getD b 0 = x % 2 ^ b := by
  have hmask : bitmask.getD b 0 = 2 ^ b - 1 := by
    interval_cases b <;> rfl
  rw [hmask, Nat.and_two_pow_sub_one_eq_mod]

/-- Bits of one octet are read; then the parser may be at the end. -/
theorem readLoop_part (hn : 0 < n) (hpart : ¬ (8 ≤ n ∧ p % 8 = 0))
    (h : p < 8 * stream.length) (hb : min (8 - p % 8) n = b) (fuel output : Nat) :
    (readLoop (fuel + 1) n output).exec (atBit stream p) =
      if 8 * stream.length ≤ p + b then (.error .OsclErrOverflow, atBit stream (p + b))
      else (readLoop fuel (n - b)
        ((output * 2 ^ b + num (((bits stream).drop p).take b)) % 2 ^ 32)).exec
          (atBit stream (p + b)) := by
  obtain ⟨byte, hbyte, hload⟩ := exec_load h
  have h7 : ¬ (n ≥ 8 ∧ (atBit stream p).bitpos = MOST_SIG_BIT) := by
    dsimp only [atBit, MOST_SIG_BIT]
    omega
  have hmin : min ((atBit stream p).bitpos + 1) n = b := by
    have h8 : 7 - p % 8 + 1 = 8 - p % 8 := by omega
    dsimp only [atBit]
    rw [h8, hb]
  have hshift : (atBit stream p).bitpos - (b - 1) = 8 - p % 8 - b := by
    dsimp only [atBit]
    omega
  have hlt := num_lt (((bits stream).drop p).take b)
  have hlen : (((bits stream).drop p).take b).length ≤ b := by
    rw [length_take]
    exact Nat.min_le_left _ _
  have hval := part_value hbyte (show p % 8 + b ≤ 8 by omega)
  rw [readLoop, if_neg (by omega), exec_bind, exec_checkEnd, if_neg (by omega)]
  dsimp only
  rw [exec_bind, exec_get]
  dsimp only
  rw [if_neg h7, exec_bind, hload]
  dsimp only
  rw [hmin, hshift, exec_bind, exec_NextBits (by omega), and_bitmask (by omega), ← hval,
    ← Nat.shiftLeft_add_eq_or_of_lt (hlt.trans_le (Nat.pow_le_pow_right (by decide) hlen)),
    Nat.shiftLeft_eq]
  by_cases hend : 8 * stream.length ≤ p + b
  · rw [if_pos hend, if_pos hend]
  · rw [if_neg hend, if_neg hend]

theorem num_take_add (l : List Bool) {a : Nat} (h : a + b ≤ l.length) :
    num (l.take (a + b)) = num (l.take a) * 2 ^ b + num ((l.drop a).take b) := by
  rw [take_add, num_append, length_take, length_drop, Nat.min_eq_left (by omega)]

/-- **The loop reads** the bits, unless it ends within the last octet. -/
theorem readLoop_reads (fuel : Nat) {output : Nat} (hfuel : n ≤ fuel)
    (hin : p + n ≤ 8 * stream.length)
    (hfine : p + n = 8 * stream.length → p % 8 ≠ 0 → 8 ≤ n)
    (hout : (output + 1) * 2 ^ n ≤ 2 ^ 32) :
    (readLoop fuel n output).exec (atBit stream p) =
      (.ok (output * 2 ^ n + num (((bits stream).drop p).take n)), atBit stream (p + n)) := by
  induction fuel generalizing n output p with
  | zero =>
    obtain rfl : n = 0 := by omega
    rw [readLoop_zero]
    simp
  | succ fuel ih =>
    by_cases hn : n = 0
    · subst hn
      rw [readLoop_zero]
      simp
    have hlen : ((bits stream).drop p).length = 8 * stream.length - p := by
      rw [length_drop, bits_length]
    -- the bits that are read in one round
    have hround : ∀ b ≤ n, b ≤ 8 → (output * 2 ^ b + num (((bits stream).drop p).take b) + 1) *
          2 ^ (n - b) ≤ 2 ^ 32 ∧
        output * 2 ^ n + num (((bits stream).drop p).take n) =
          (output * 2 ^ b + num (((bits stream).drop p).take b)) * 2 ^ (n - b) +
            num (((bits stream).drop (p + b)).take (n - b)) := by
      intro b hb h8
      have hsum : n = b + (n - b) := by omega
      have hpow : 2 ^ n = 2 ^ b * 2 ^ (n - b) := by rw [← pow_add, ← hsum]
      have hlt := num_lt (((bits stream).drop p).take b)
      rw [length_take, Nat.min_eq_left (by omega)] at hlt
      refine ⟨?_, ?_⟩
      · refine le_trans ?_ hout
        rw [hpow, ← Nat.mul_assoc]
        refine Nat.mul_le_mul_right _ ?_
        rw [Nat.add_mul]
        omega
      · have htake := num_take_add ((bits stream).drop p) (a := b) (b := n - b) (by omega)
        rw [← hsum, drop_drop] at htake
        rw [htake, hpow]
        ring
    by_cases hw : 8 ≤ n ∧ p % 8 = 0
    · obtain ⟨hbound, hval⟩ := hround 8 hw.1 (Nat.le_refl 8)
      have hpos : 0 < 2 ^ (n - 8) := Nat.two_pow_pos _
      have hmod : (output * 2 ^ 8 + num (((bits stream).drop p).take 8)) % 2 ^ 32 =
          output * 2 ^ 8 + num (((bits stream).drop p).take 8) :=
        Nat.mod_eq_of_lt ((Nat.le_mul_of_pos_right _ hpos).trans hbound)
      rw [readLoop_whole hw.1 hw.2 (by omega), hmod,
        ih (by omega) (by omega) (fun _ h => absurd (by omega) h) hbound, hval]
      have hsum : p + 8 + (n - 8) = p + n := by omega
      rw [hsum]
    · obtain ⟨b, hb⟩ : ∃ b, min (8 - p % 8) n = b := ⟨_, rfl⟩
      obtain ⟨hbound, hval⟩ := hround b (by omega) (by omega)
      have hpos : 0 < 2 ^ (n - b) := Nat.two_pow_pos _
      have hmod : (output * 2 ^ b + num (((bits stream).drop p).take b)) % 2 ^ 32 =
          output * 2 ^ b + num (((bits stream).drop p).take b) :=
        Nat.mod_eq_of_lt ((Nat.le_mul_of_pos_right _ hpos).trans hbound)
      rw [readLoop_part (by omega) hw (by omega) hb, if_neg (by omega), hmod,
        ih (by omega) (by omega) (fun _ h => by omega) hbound, hval]
      have hsum : p + b + (n - b) = p + n := by omega
      rw [hsum]

/-- **The loop leaves** where bits are missing, and where it ends within the last octet. -/
theorem readLoop_leaves (fuel : Nat) (output : Nat) (hfuel : n ≤ fuel) (hn : 0 < n)
    (hp : p ≤ 8 * stream.length)
    (h : 8 * stream.length < p + n ∨ p + n = 8 * stream.length ∧ p % 8 ≠ 0 ∧ n < 8) :
    ∃ s, (readLoop fuel n output).exec (atBit stream p) = (.error .OsclErrOverflow, s) := by
  induction fuel generalizing n output p with
  | zero => omega
  | succ fuel ih =>
    by_cases hend : 8 * stream.length ≤ p
    · exact ⟨_, readLoop_end hn hend fuel output⟩
    by_cases hw : 8 ≤ n ∧ p % 8 = 0
    · rw [readLoop_whole hw.1 hw.2 (by omega)]
      exact ih _ (by omega) (by omega) (by omega) (by omega)
    · obtain ⟨b, hb⟩ : ∃ b, min (8 - p % 8) n = b := ⟨_, rfl⟩
      rw [readLoop_part hn hw (by omega) hb]
      by_cases hat : 8 * stream.length ≤ p + b
      · rw [if_pos hat]
        exact ⟨_, rfl⟩
      · rw [if_neg hat]
        exact ih _ (by omega) (by omega) (by omega) (by omega)

theorem ReadBits_reads (hn : n ≤ 32) (hin : p + n ≤ 8 * stream.length)
    (hfine : p + n = 8 * stream.length → p % 8 ≠ 0 → 8 ≤ n) :
    (ReadBits n).exec (atBit stream p) =
      (.ok (num (((bits stream).drop p).take n)), atBit stream (p + n)) := by
  have hpow : (0 + 1) * 2 ^ n ≤ 2 ^ 32 := by
    rw [Nat.zero_add, Nat.one_mul]
    exact Nat.pow_le_pow_right (by decide) hn
  unfold ReadBits
  rw [Nat.min_eq_left hn, readLoop_reads 32 hn hin hfine hpow, Nat.zero_mul, Nat.zero_add]

theorem ReadBits_leaves {n : Nat} (hn : n ≤ 32) (hp : p ≤ 8 * stream.length) (h0 : 0 < n)
    (h : 8 * stream.length < p + n ∨ p + n = 8 * stream.length ∧ p % 8 ≠ 0 ∧ n < 8) :
    ∃ s, (ReadBits n).exec (atBit stream p) = (.error .OsclErrOverflow, s) := by
  unfold ReadBits
  rw [Nat.min_eq_left hn]
  exact readLoop_leaves 32 0 hn h0 hp h

theorem bitpos_atBit (stream : List UInt8) (p : Nat) :
    (atBit stream p).bitpos ≠ MOST_SIG_BIT ↔ p % 8 ≠ 0 := by
  dsimp only [atBit, MOST_SIG_BIT]
  omega

theorem ReadUInt8_reads (hin : p + 8 ≤ 8 * stream.length) :
    ReadUInt8.exec (atBit stream p) =
      (.ok (num (((bits stream).drop p).take 8)), atBit stream (p + 8)) := by
  unfold ReadUInt8
  rw [exec_bind, exec_get]
  dsimp only
  by_cases hp : p % 8 = 0
  · obtain ⟨byte, hbyte, hload⟩ := @exec_load stream p (by omega)
    have hval : num (((bits stream).drop p).take 8) = byte.toNat := by
      have hshift : 8 - p % 8 - 8 = 0 := by omega
      rw [part_value hbyte (by omega), hshift, Nat.shiftRight_zero]
      exact Nat.mod_eq_of_lt byte.toNat_lt
    rw [if_neg (fun h => (bitpos_atBit stream p).mp h hp), exec_bind, exec_checkEnd,
      if_neg (by omega)]
    dsimp only
    rw [exec_bind, hload]
    dsimp only
    rw [exec_bind, exec_nextByte hp, hval]
    rfl
  · rw [if_pos ((bitpos_atBit stream p).mpr hp)]
    exact ReadBits_reads (by decide) hin fun _ _ => Nat.le_refl 8

theorem ReadUInt8_leaves (hp : p ≤ 8 * stream.length) (hend : 8 * stream.length < p + 8) :
    ∃ s, ReadUInt8.exec (atBit stream p) = (.error .OsclErrOverflow, s) := by
  unfold ReadUInt8
  rw [exec_bind, exec_get]
  dsimp only
  by_cases h8 : p % 8 = 0
  · rw [if_neg (fun h => (bitpos_atBit stream p).mp h h8), exec_bind, exec_checkEnd,
      if_pos (by omega)]
    exact ⟨_, rfl⟩
  · rw [if_pos ((bitpos_atBit stream p).mpr h8)]
    exact ReadBits_leaves (by decide) hp (by decide) (.inl hend)

/-- The bits of two numbers one behind the other. -/
theorem num_take_two (p : Nat) {a b : Nat} (h : p + (a + b) ≤ 8 * stream.length) :
    num (((bits stream).drop p).take (a + b)) =
      num (((bits stream).drop p).take a) * 2 ^ b + num (((bits stream).drop (p + a)).take b) := by
  rw [num_take_add _ (by rw [length_drop, bits_length]; omega), drop_drop]

theorem ReadUInt16_reads (hin : p + 16 ≤ 8 * stream.length) :
    ReadUInt16.exec (atBit stream p) =
      (.ok (num (((bits stream).drop p).take 16)), atBit stream (p + 16)) := by
  have h1 := @num_take_two stream p 8 8 hin
  unfold ReadUInt16
  rw [exec_bind, ReadUInt8_reads (by omega)]
  dsimp only
  rw [exec_bind, ReadUInt8_reads (by omega), h1]
  rfl

theorem ReadUInt16_leaves (hp : p ≤ 8 * stream.length) (hend : 8 * stream.length < p + 16) :
    ∃ s, ReadUInt16.exec (atBit stream p) = (.error .OsclErrOverflow, s) := by
  unfold ReadUInt16
  rw [exec_bind]
  by_cases h : p + 8 ≤ 8 * stream.length
  · obtain ⟨s, hs⟩ := ReadUInt8_leaves h (by omega)
    rw [ReadUInt8_reads h]
    dsimp only
    rw [exec_bind, hs]
    exact ⟨_, rfl⟩
  · obtain ⟨s, hs⟩ := ReadUInt8_leaves hp (by omega)
    rw [hs]
    exact ⟨_, rfl⟩

/-- `ReadUInt32` is two `ReadUInt16` one behind the other. -/
theorem exec_ReadUInt32 (s : BitStreamParser) :
    ReadUInt32.exec s = (do return (← ReadUInt16) * 2 ^ 16 + (← ReadUInt16) : ParserM Nat).exec s := by
  unfold ReadUInt32 ReadUInt16
  simp only [exec_bind, exec_pure]
  rcases ReadUInt8.exec s with ⟨_ | b0, s₁⟩
  · rfl
  dsimp only
  rcases ReadUInt8.exec s₁ with ⟨_ | b1, s₂⟩
  · rfl
  dsimp only
  rcases ReadUInt8.exec s₂ with ⟨_ | b2, s₃⟩
  · rfl
  dsimp only
  rcases ReadUInt8.exec s₃ with ⟨_ | b3, s₄⟩
  · rfl
  have hsum : b0 * 2 ^ 24 + b1 * 2 ^ 16 + b2 * 2 ^ 8 + b3 =
      (b0 * 2 ^ 8 + b1) * 2 ^ 16 + (b2 * 2 ^ 8 + b3) := by
    ring
  dsimp only
  rw [hsum]

theorem ReadUInt32_reads (hin : p + 32 ≤ 8 * stream.length) :
    ReadUInt32.exec (atBit stream p) =
      (.ok (num (((bits stream).drop p).take 32)), atBit stream (p + 32)) := by
  have h1 := @num_take_two stream p 16 16 hin
  rw [exec_ReadUInt32, exec_bind, ReadUInt16_reads (by omega)]
  dsimp only
  rw [exec_bind, ReadUInt16_reads (by omega), h1]
  rfl

theorem ReadUInt32_leaves (hp : p ≤ 8 * stream.length) (hend : 8 * stream.length < p + 32) :
    ∃ s, ReadUInt32.exec (atBit stream p) = (.error .OsclErrOverflow, s) := by
  rw [exec_ReadUInt32, exec_bind]
  by_cases h : p + 16 ≤ 8 * stream.length
  · obtain ⟨s, hs⟩ := ReadUInt16_leaves h (by omega)
    rw [ReadUInt16_reads h]
    dsimp only
    rw [exec_bind, hs]
    exact ⟨_, rfl⟩
  · obtain ⟨s, hs⟩ := ReadUInt16_leaves hp (by omega)
    rw [hs]
    exact ⟨_, rfl⟩

/-! ## 5. Writing -/

/-- The last bit of the data is not read: the loop leaves there. -/
theorem writeLoop_leaves (n : Nat) {q : Nat} (hn : 0 < n)
    (hq : q + n = 8 * data.length) (hin : p + n ≤ 8 * stream.length) :
    ∃ s, (writeLoop n (atBit data q)).exec (atBit stream p) = (.error .OsclErrOverflow, s) := by
  induction n generalizing stream p q with
  | zero => omega
  | succ n ih =>
    obtain ⟨byte, -, hload⟩ := @exec_load stream p (by omega)
    unfold writeLoop
    rw [exec_bind, exec_get]
    dsimp only
    rw [exec_bind, hload]
    dsimp only
    by_cases h0 : n = 0
    · obtain ⟨s, hs⟩ := @ReadBits_leaves data q 1 (by decide) (by omega)
        (by decide) (.inr ⟨by omega, by omega, by decide⟩)
      rw [hs]
      exact ⟨_, rfl⟩
    · rw [ReadBits_reads (by decide) (by omega) (fun h => by omega)]
      dsimp only
      rw [exec_bind, exec_store (by omega)]
      dsimp only
      rw [exec_bind, exec_NextBit (by rw [length_set]; omega)]
      dsimp only
      exact ih (by omega) (by omega) (by rw [length_set]; omega)

/-- Bits behind the end of the buffer are touched. -/
theorem writeLoop_outside (n : Nat) {q : Nat}
    (hq : q + n = 8 * data.length) (hp : p ≤ 8 * stream.length) (hend : 8 * stream.length < p + n) :
    ∃ s, (writeLoop n (atBit data q)).exec (atBit stream p) = (.error .outside, s) := by
  induction n generalizing stream p q with
  | zero => omega
  | succ n ih =>
    unfold writeLoop
    rw [exec_bind, exec_get]
    dsimp only
    rw [exec_bind]
    by_cases hat : 8 * stream.length ≤ p
    · rw [exec_load_outside hat]
      exact ⟨_, rfl⟩
    · obtain ⟨byte, -, hload⟩ := @exec_load stream p (by omega)
      rw [hload]
      dsimp only
      rw [ReadBits_reads (by decide) (by omega) (fun h => by omega)]
      dsimp only
      rw [exec_bind, exec_store (by omega)]
      dsimp only
      rw [exec_bind, exec_NextBit (by rw [length_set]; omega)]
      dsimp only
      exact ih (by omega) (by rw [length_set]; omega) (by rw [length_set]; omega)

/-- The parser over the data of `WriteBits`. -/
theorem WriteBits_eq (h0 : 0 < n) (hn : n < 2 ^ 8)
    (hdata : BITS_TO_BYTES n ≤ data.length) :
    WriteBits n data = writeLoop n (atBit (data.take (BITS_TO_BYTES n))
      (8 * (data.take (BITS_TO_BYTES n)).length - n)) := by
  obtain ⟨l, hl⟩ : ∃ l, data.take (BITS_TO_BYTES n) = l := ⟨_, rfl⟩
  have hlen : l.length = (n + 7) / 8 := by
    rw [← hl, length_take, Nat.min_eq_left hdata]
    rfl
  have hleft : ((ofStream l).BitsLeft + 2 ^ 32 - n) % 2 ^ 32 = 8 * l.length - n := by
    unfold BitsLeft BytesLeft
    dsimp only [ofStream, MOST_SIG_BIT]
    omega
  have hof : ofStream l = atBit l 0 := rfl
  unfold WriteBits
  rw [hl]
  dsimp only
  rw [hleft, hof, exec_NextBits (by omega), if_neg (by omega), Nat.zero_add]

theorem WriteBits_zero (data : List UInt8) (s : BitStreamParser) :
    (WriteBits 0 data).exec s = (.error .OsclErrOverflow, s) := rfl

theorem WriteBits_leaves {n : Nat} {data : List UInt8} (hn : n < 2 ^ 8)
    (hdata : BITS_TO_BYTES n ≤ data.length) (hin : p + n ≤ 8 * stream.length) :
    ∃ s, (WriteBits n data).exec (atBit stream p) = (.error .OsclErrOverflow, s) := by
  rcases Nat.eq_zero_or_pos n with rfl | h0
  · exact ⟨_, WriteBits_zero data _⟩
  · have hlen : (data.take (BITS_TO_BYTES n)).length = (n + 7) / 8 := by
      rw [length_take, Nat.min_eq_left hdata]
      rfl
    rw [WriteBits_eq h0 hn hdata]
    exact writeLoop_leaves n h0 (by omega) hin

theorem WriteBits_outside {n : Nat} {data : List UInt8} (hn : n < 2 ^ 8)
    (hdata : BITS_TO_BYTES n ≤ data.length) (hp : p ≤ 8 * stream.length)
    (hend : 8 * stream.length < p + n) :
    ∃ s, (WriteBits n data).exec (atBit stream p) = (.error .outside, s) := by
  have hlen : (data.take (BITS_TO_BYTES n)).length = (n + 7) / 8 := by
    rw [length_take, Nat.min_eq_left hdata]
    rfl
  rw [WriteBits_eq (by omega) hn hdata]
  exact writeLoop_outside n (by omega) hp hend

/-- The octet at a whole position is written. -/
theorem WriteUInt8_writes (hp : p % 8 = 0) (hin : p + 8 ≤ 8 * stream.length) (data : UInt8) :
    (WriteUInt8 data).exec (atBit stream p) =
      (.ok (), atBit (stream.set (p / 8) data) (p + 8)) := by
  unfold WriteUInt8
  rw [exec_bind, exec_get]
  dsimp only
  rw [if_neg (fun h => (bitpos_atBit stream p).mp h hp), exec_bind, exec_checkEnd,
    if_neg (by omega)]
  dsimp only
  rw [exec_bind, exec_store (by omega)]
  dsimp only
  rw [exec_nextByte hp]

theorem bits_set (hp : p % 8 = 0) (hin : p + 8 ≤ 8 * stream.length) (data : UInt8) :
    bits (stream.set (p / 8) data) =
      (bits stream).take p ++ octetBits data ++ (bits stream).drop (p + 8) := by
  have h8 : 8 * (p / 8) = p := by omega
  have h88 : 8 * (p / 8 + 1) = p + 8 := by omega
  rw [set_eq_take_append_cons_drop, if_pos (by omega), bits_append, bits_cons, bits_take,
    bits_drop, h8, h88, append_assoc]

theorem WriteUInt8_leaves (h8 : p % 8 = 0) (hend : 8 * stream.length ≤ p) (data : UInt8) :
    ∃ s, (WriteUInt8 data).exec (atBit stream p) = (.error .OsclErrOverflow, s) := by
  unfold WriteUInt8
  rw [exec_bind, exec_get]
  dsimp only
  rw [if_neg (fun h => (bitpos_atBit stream p).mp h h8), exec_bind, exec_checkEnd, if_pos hend]
  exact ⟨_, rfl⟩

/-- Within an octet, the octet is given to `WriteBits`. -/
theorem WriteUInt8_unaligned (h8 : p % 8 ≠ 0) (data : UInt8) :
    (WriteUInt8 data).exec (atBit stream p) = (WriteBits 8 [data]).exec (atBit stream p) := by
  unfold WriteUInt8
  rw [exec_bind, exec_get]
  dsimp only
  rw [if_pos ((bitpos_atBit stream p).mpr h8)]

/-- Octets are written one after another. -/
def writeOctets : List UInt8 → ParserM Unit
  | [] => return
  | data :: octets => do
      WriteUInt8 data
      writeOctets octets

theorem exec_WriteUInt16 (data : UInt16) (s : BitStreamParser) :
    (WriteUInt16 data).exec s =
      (writeOctets [(data >>> 8).toUInt8, data.toUInt8]).exec s := by
  simp only [WriteUInt16, writeOctets, exec_bind, exec_pure]
  rcases (WriteUInt8 (data >>> 8).toUInt8).exec s with ⟨_ | _, s₁⟩
  · rfl
  dsimp only
  rcases (WriteUInt8 data.toUInt8).exec s₁ with ⟨_ | _, s₂⟩ <;> rfl

theorem exec_WriteUInt32 (data : UInt32) (s : BitStreamParser) :
    (WriteUInt32 data).exec s =
      (writeOctets [(data >>> 24).toUInt8, (data >>> 16).toUInt8, (data >>> 8).toUInt8,
        data.toUInt8]).exec s := by
  simp only [WriteUInt32, writeOctets, exec_bind, exec_pure]
  rcases (WriteUInt8 (data >>> 24).toUInt8).exec s with ⟨_ | _, s₁⟩
  · rfl
  dsimp only
  rcases (WriteUInt8 (data >>> 16).toUInt8).exec s₁ with ⟨_ | _, s₂⟩
  · rfl
  dsimp only
  rcases (WriteUInt8 (data >>> 8).toUInt8).exec s₂ with ⟨_ | _, s₃⟩
  · rfl
  dsimp only
  rcases (WriteUInt8 data.toUInt8).exec s₃ with ⟨_ | _, s₄⟩ <;> rfl

/-- Octets at a whole position are written. -/
theorem writeOctets_writes (octets : List UInt8) (hp : p % 8 = 0)
    (hin : p + 8 * octets.length ≤ 8 * stream.length) :
    ∃ stream', (writeOctets octets).exec (atBit stream p) =
        (.ok (), atBit stream' (p + 8 * octets.length)) ∧
      bits stream' = (bits stream).take p ++ bits octets ++
        (bits stream).drop (p + 8 * octets.length) := by
  induction octets generalizing stream p with
  | nil =>
    refine ⟨stream, rfl, ?_⟩
    simp
  | cons data octets ih =>
    rw [length_cons] at hin ⊢
    have hset := @bits_set stream p hp (by omega) data
    obtain ⟨stream', hexec, hbits⟩ := @ih (stream.set (p / 8) data) (p + 8)
      (by omega) (by rw [length_set]; omega)
    have hsum : p + 8 + 8 * octets.length = p + 8 * (octets.length + 1) := by omega
    refine ⟨stream', ?_, ?_⟩
    · unfold writeOctets
      rw [exec_bind, WriteUInt8_writes hp (by omega)]
      dsimp only
      rw [hexec, hsum]
    · have hlen : ((bits stream).take p ++ octetBits data).length = p + 8 := by
        rw [length_append, length_take, bits_length, octetBits_length,
          Nat.min_eq_left (by omega)]
      rw [hbits, hset, take_left' hlen, drop_append, hlen, hsum,
        drop_eq_nil_of_le (by rw [hlen]; omega), nil_append, drop_drop, bits_cons,
        append_assoc _ (octetBits data)]
      congr 2
      omega

/-- Octets at a whole position that do not fit. -/
theorem writeOctets_leaves (octets : List UInt8) (hp : p % 8 = 0) (hle : p ≤ 8 * stream.length)
    (hend : 8 * stream.length < p + 8 * octets.length) :
    ∃ s, (writeOctets octets).exec (atBit stream p) = (.error .OsclErrOverflow, s) := by
  induction octets generalizing stream p with
  | nil =>
    rw [length_nil] at hend
    omega
  | cons data octets ih =>
    rw [length_cons] at hend
    unfold writeOctets
    rw [exec_bind]
    by_cases hat : 8 * stream.length ≤ p
    · obtain ⟨s, hs⟩ := WriteUInt8_leaves hp hat data
      rw [hs]
      exact ⟨_, rfl⟩
    · rw [WriteUInt8_writes hp (by omega)]
      dsimp only
      exact ih (by omega) (by rw [length_set]; omega) (by rw [length_set]; omega)

/-- Octets within an octet: `WriteBits` leaves, or touches what is behind the buffer. -/
theorem writeOctets_unaligned (data : UInt8) (octets : List UInt8) (hp : p % 8 ≠ 0)
    (hle : p ≤ 8 * stream.length) :
    ∃ s, (writeOctets (data :: octets)).exec (atBit stream p) =
      (.error (if p + 8 ≤ 8 * stream.length then .OsclErrOverflow else .outside), s) := by
  unfold writeOctets
  rw [exec_bind, WriteUInt8_unaligned hp]
  by_cases hin : p + 8 ≤ 8 * stream.length
  · obtain ⟨s, hs⟩ := @WriteBits_leaves stream p 8 [data]
      (by decide) (Nat.le_refl 1) hin
    rw [hs, if_pos hin]
    exact ⟨_, rfl⟩
  · obtain ⟨s, hs⟩ := @WriteBits_outside stream p 8 [data]
      (by decide) (Nat.le_refl 1) hle (by omega)
    rw [hs, if_neg hin]
    exact ⟨_, rfl⟩

end BitStreamParser

/-! ## 6. Calls -/

variable {c : Call}

namespace Call

open BitStreamParser

variable {stream : List UInt8} {p : Nat}

theorem wellDone_of_reads (hw : c.written = none)
    (hreads : p + c.width ≤ 8 * stream.length → c.run.exec (.atBit stream p) =
      (.ok (c.answer (bits stream) p), .atBit stream (p + c.width)))
    (hleaves : 8 * stream.length < p + c.width →
      ∃ s, c.run.exec (.atBit stream p) = (.error .OsclErrOverflow, s)) :
    c.WellDone stream p := by
  unfold WellDone
  split
  · rename_i hin
    refine ⟨stream, hreads hin, ?_, ?_⟩
    · rw [changed, hw]
    · rw [hw]
      exact fun w h => absurd h (Option.not_mem_none w)
  · rename_i hend
    obtain ⟨s, hs⟩ := hleaves (by omega)
    rw [hs]

/-- A call that leaves where it should not, or touches what is behind the buffer. -/
theorem not_wellDone_of_error {x : Leave} {s : BitStreamParser}
    (hs : c.run.exec (.atBit stream p) = (.error x, s))
    (hx : p + c.width ≤ 8 * stream.length ∨ x = .outside) : ¬ c.WellDone stream p := by
  unfold WellDone
  rw [hs]
  split
  · rintro ⟨stream', h, -⟩
    cases congrArg Prod.fst h
  · rename_i hend
    intro h
    rcases hx with hin | rfl
    · exact hend hin
    · cases h

theorem bits_UInt16 (data : UInt16) :
    ofNum 16 data.toNat = bits [(data >>> 8).toUInt8, data.toUInt8] := by
  refine num_inj (by simp) ?_
  have hlt := data.toNat_lt
  rw [num_ofNum_of_lt hlt, num_bits_cons, num_bits_cons]
  simp
  omega

theorem bits_UInt32 (data : UInt32) :
    ofNum 32 data.toNat = bits [(data >>> 24).toUInt8, (data >>> 16).toUInt8,
      (data >>> 8).toUInt8, data.toUInt8] := by
  refine num_inj (by simp) ?_
  have hlt := data.toNat_lt
  rw [num_ofNum_of_lt hlt, num_bits_cons, num_bits_cons, num_bits_cons, num_bits_cons]
  simp
  omega

/-- A call that writes octets. -/
structure WritesOctets (c : Call) (octets : List UInt8) : Prop where
  run : ∀ s, c.run.exec s = (do writeOctets octets; return 0 : ParserM Nat).exec s
  width : c.width = 8 * octets.length
  written : c.written = some (bits octets)
  answer : ∀ l p, c.answer l p = 0
  readBack : ∀ stream p, p + c.width ≤ 8 * stream.length →
    (c.readBack.run.exec (.atBit stream p)).1 = .ok (num (((bits stream).drop p).take c.width))

/-- Where it stands at a whole position, or leaves for good reason, it does what it is to do. -/
theorem WritesOctets.wellDone_iff {data : UInt8} {octets : List UInt8}
    (h : c.WritesOctets (data :: octets)) (hp : p ≤ 8 * stream.length) :
    c.WellDone stream p ↔
      p % 8 = 0 ∨ p + 8 ≤ 8 * stream.length ∧ 8 * stream.length < p + c.width := by
  have hrun := h.run (.atBit stream p)
  rw [exec_bind] at hrun
  by_cases h8 : p % 8 = 0
  · refine ⟨fun _ => .inl h8, fun _ => ?_⟩
    unfold WellDone
    split
    · rename_i hin
      obtain ⟨stream', hexec, hbits⟩ := writeOctets_writes (data :: octets) h8 (h.width ▸ hin)
      rw [hexec] at hrun
      have htotal := congrArg length hbits
      rw [length_append, length_append, length_take, length_drop, bits_length,
        bits_length, bits_length] at htotal
      refine ⟨stream', ?_, ?_, ?_⟩
      · rw [hrun, h.answer, h.width]
        rfl
      · rw [changed, h.written, hbits, h.width]
      · intro w hw
        rw [h.written] at hw
        cases hw
        have htake : ((bits stream).take p).length = p := by
          rw [length_take, bits_length, Nat.min_eq_left (by omega)]
        rw [h.readBack stream' p (by rw [h.width] at hin ⊢; omega), hbits, append_assoc,
          drop_left' htake, take_left' (by rw [bits_length, h.width])]
    · rename_i hend
      obtain ⟨s, hs⟩ := writeOctets_leaves (data :: octets) h8 hp
        (by rw [← h.width]; omega)
      rw [hrun, hs]
  · obtain ⟨s, hs⟩ := writeOctets_unaligned data octets h8 hp
    rw [hs] at hrun
    have hwidth := h.width
    rw [length_cons] at hwidth
    by_cases hin : p + 8 ≤ 8 * stream.length
    · rw [if_pos hin] at hrun
      by_cases hend : p + c.width ≤ 8 * stream.length
      · refine ⟨fun hd => absurd hd (not_wellDone_of_error hrun (.inl hend)), fun hd => ?_⟩
        omega
      · refine ⟨fun _ => .inr ⟨hin, by omega⟩, fun _ => ?_⟩
        unfold WellDone
        rw [if_neg hend, hrun]
    · rw [if_neg hin] at hrun
      refine ⟨fun hd => absurd hd (not_wellDone_of_error hrun (.inr rfl)), fun hd => ?_⟩
      omega

theorem writesOctets_UInt8 (data : UInt8) : (WriteUInt8 data).WritesOctets [data] where
  run s := by
    show (do BitStreamParser.WriteUInt8 data; return 0 : ParserM Nat).exec s = _
    rw [exec_bind, exec_bind]
    unfold writeOctets
    rw [exec_bind]
    rcases (BitStreamParser.WriteUInt8 data).exec s with ⟨_ | _, s₁⟩ <;> rfl
  width := rfl
  written := by rw [written, bits_cons, bits_nil, append_nil, octetBits]
  answer _ _ := rfl
  readBack stream p h := by
    show (BitStreamParser.ReadUInt8.exec _).1 = _
    rw [ReadUInt8_reads h]
    rfl

theorem writesOctets_UInt16 (data : UInt16) :
    (WriteUInt16 data).WritesOctets [(data >>> 8).toUInt8, data.toUInt8] where
  run s := by
    show (do BitStreamParser.WriteUInt16 data; return 0 : ParserM Nat).exec s = _
    rw [exec_bind, exec_bind, exec_WriteUInt16]
  width := rfl
  written := by rw [written, bits_UInt16]
  answer _ _ := rfl
  readBack stream p h := by
    show (BitStreamParser.ReadUInt16.exec _).1 = _
    rw [ReadUInt16_reads h]
    rfl

theorem writesOctets_UInt32 (data : UInt32) :
    (WriteUInt32 data).WritesOctets [(data >>> 24).toUInt8, (data >>> 16).toUInt8,
      (data >>> 8).toUInt8, data.toUInt8] where
  run s := by
    show (do BitStreamParser.WriteUInt32 data; return 0 : ParserM Nat).exec s = _
    rw [exec_bind, exec_bind, exec_WriteUInt32]
  width := rfl
  written := by rw [written, bits_UInt32]
  answer _ _ := rfl
  readBack stream p h := by
    show (BitStreamParser.ReadUInt32.exec _).1 = _
    rw [ReadUInt32_reads h]
    rfl

theorem wellDone_NextBits (hn : n < 2 ^ 32) (hp : p ≤ 8 * stream.length) :
    (NextBits n).WellDone stream p ↔ (NextBits n).Fine stream.length p := by
  have hrun : (NextBits n).run.exec (.atBit stream p) =
      match (BitStreamParser.NextBits n).exec (.atBit stream p) with
      | (.ok _, s) => (.ok 0, s)
      | (.error x, s) => (.error x, s) := by
    show (do BitStreamParser.NextBits n; return 0 : ParserM Nat).exec _ = _
    rw [exec_bind]
    rcases (BitStreamParser.NextBits n).exec (.atBit stream p) with ⟨_ | _, s⟩ <;> rfl
  by_cases hwrap : p % 8 + n < 2 ^ 32
  · rw [exec_NextBits hwrap] at hrun
    by_cases hend : 8 * stream.length ≤ p + n
    · rw [if_pos hend] at hrun
      by_cases hat : p + n = 8 * stream.length
      · refine ⟨fun hd => absurd hd (not_wellDone_of_error hrun (.inl ?_)), fun hf => ?_⟩
        · exact Nat.le_of_eq hat
        · exact absurd hat hf.1
      · refine ⟨fun _ => ⟨hat, hwrap⟩, fun _ => wellDone_of_reads rfl (fun hin => ?_) fun _ => ?_⟩
        · exact absurd (show p + n ≤ 8 * stream.length from hin) (by omega)
        · exact ⟨_, hrun⟩
    · rw [if_neg hend] at hrun
      refine ⟨fun _ => ⟨by omega, hwrap⟩, fun _ => wellDone_of_reads rfl (fun _ => hrun) fun h => ?_⟩
      exact absurd (show 8 * stream.length < p + n from h) (by omega)
  · refine ⟨fun hd => ?_, fun hf => absurd hf.2 hwrap⟩
    rw [exec_NextBits_wrapped hn (by omega), if_neg (by omega)] at hrun
    unfold WellDone at hd
    rw [hrun] at hd
    split at hd
    · -- the position is too small
      obtain ⟨stream', h, -⟩ := hd
      have hpos := congrArg (fun s : BitStreamParser => 8 * s.bytepos) (congrArg Prod.snd h)
      dsimp only [atBit, width] at hpos
      omega
    · cases hd

/-- **One call** does what it is to do exactly when it is fine. -/
theorem wellDone_iff_fine (hc : c.Legal) (hp : p ≤ 8 * stream.length) :
    c.WellDone stream p ↔ c.Fine stream.length p := by
  cases c with
  | ReadBits n =>
    by_cases hf : (ReadBits n).Fine stream.length p
    · refine ⟨fun _ => hf, fun _ => wellDone_of_reads rfl (fun h => ReadBits_reads hc h hf)
        fun h => ReadBits_leaves hc hp ?_ (.inl h)⟩
      have : 8 * stream.length < p + n := h
      omega
    · refine ⟨fun hd => ?_, fun h => absurd h hf⟩
      have hf' : ¬ (p + n = 8 * stream.length → p % 8 ≠ 0 → 8 ≤ n) := hf
      push Not at hf'
      obtain ⟨hsum, h8, hlt⟩ := hf'
      obtain ⟨s, hs⟩ := ReadBits_leaves (n := n) hc hp (by omega) (.inr ⟨hsum, h8, hlt⟩)
      exact absurd hd (not_wellDone_of_error hs (.inl (Nat.le_of_eq hsum)))
  | ReadUInt8 =>
    exact ⟨fun _ => trivial, fun _ => wellDone_of_reads rfl ReadUInt8_reads (ReadUInt8_leaves hp)⟩
  | ReadUInt16 =>
    exact ⟨fun _ => trivial, fun _ => wellDone_of_reads rfl ReadUInt16_reads (ReadUInt16_leaves hp)⟩
  | ReadUInt32 =>
    exact ⟨fun _ => trivial, fun _ => wellDone_of_reads rfl ReadUInt32_reads (ReadUInt32_leaves hp)⟩
  | NextBits n => exact wellDone_NextBits hc hp
  | WriteBits n data =>
    refine ⟨fun hd => ?_, fun hf => absurd hf id⟩
    have herr : ∀ {x : Leave} {s : BitStreamParser},
        (BitStreamParser.WriteBits n data).exec (.atBit stream p) = (.error x, s) →
          (WriteBits n data).run.exec (.atBit stream p) = (.error x, s) := by
      intro x s hs
      show (do BitStreamParser.WriteBits n data; return 0 : ParserM Nat).exec _ = _
      rw [exec_bind, hs]
    by_cases hin : p + n ≤ 8 * stream.length
    · obtain ⟨s, hs⟩ := @WriteBits_leaves stream p _ _ hc.1 hc.2 hin
      exact not_wellDone_of_error (herr hs) (.inl hin) hd
    · obtain ⟨s, hs⟩ := @WriteBits_outside stream p _ _ hc.1 hc.2 hp (by omega)
      exact not_wellDone_of_error (herr hs) (.inr rfl) hd
  | WriteUInt8 data =>
    refine ((writesOctets_UInt8 data).wellDone_iff hp).trans ⟨fun h => ?_, .inl⟩
    rcases h with h | ⟨h1, h2⟩
    · exact h
    · exact absurd h1 (Nat.not_le_of_lt h2)
  | WriteUInt16 data => exact (writesOctets_UInt16 data).wellDone_iff hp
  | WriteUInt32 data => exact (writesOctets_UInt32 data).wellDone_iff hp

/-! ## 7. Sequences of calls -/

/-- Every call of a sequence does what it is to do, up to the first that leaves. -/
def AllWellDone : List UInt8 → Nat → List Call → Prop
  | _, _, [] => True
  | stream, p, c :: calls => c.WellDone stream p ∧
      ∀ v stream', c.run.exec (.atBit stream p) = (.ok v, .atBit stream' (p + c.width)) →
        AllWellDone stream' (p + c.width) calls

/-- Every call is fine at its position, up to the first that needs bits beyond the buffer. -/
def AllFine (len : Nat) : Nat → List Call → Prop
  | _, [] => True
  | p, c :: calls => c.Fine len p ∧ (p + c.width ≤ 8 * len → AllFine len (p + c.width) calls)

theorem changed_length (hf : c.Fine stream.length p)
    (hin : p + c.width ≤ 8 * stream.length) :
    (c.changed (bits stream) p).length = 8 * stream.length := by
  have hwrites : ∀ w, c.written = some w → w.length = c.width := by
    intro w hw
    cases c <;> cases hw
    · exact absurd hf id
    all_goals exact ofNum_length _ _
  unfold changed
  split
  · exact bits_length _
  · rename_i w hw
    rw [length_append, length_append, length_take, length_drop, bits_length,
      hwrites w hw]
    omega

/-- **The calls of a sequence** do what they are to do exactly when each of them is fine. -/
theorem calls_wellDone_iff (stream : List UInt8) (calls : List Call)
    (hlegal : ∀ c ∈ calls, c.Legal) :
    AllWellDone stream 0 calls ↔ AllFine stream.length 0 calls := by
  have hrun : ∀ (calls : List Call) (stream : List UInt8) (p : Nat), (∀ c ∈ calls, c.Legal) →
      p ≤ 8 * stream.length → (AllWellDone stream p calls ↔ AllFine stream.length p calls) := by
    intro calls
    induction calls with
    | nil => exact fun _ _ _ _ => Iff.rfl
    | cons c calls ih =>
      intro stream p hlegal hp
      have hone := wellDone_iff_fine (hlegal c mem_cons_self) hp
      have hrest := fun c' h => hlegal c' (mem_cons_of_mem c h)
      constructor
      · rintro ⟨hd, hcalls⟩
        have hf := hone.mp hd
        refine ⟨hf, fun hin => ?_⟩
        unfold WellDone at hd
        rw [if_pos hin] at hd
        obtain ⟨stream', hexec, hbits, -⟩ := hd
        have hlen : stream'.length = stream.length := by
          have := congrArg List.length hbits
          rw [bits_length, changed_length hf hin] at this
          omega
        have := (ih stream' _ hrest (by omega)).mp (hcalls _ _ hexec)
        rwa [hlen] at this
      · rintro ⟨hf, hcalls⟩
        have hd := hone.mpr hf
        refine ⟨hd, fun v stream' hexec => ?_⟩
        unfold WellDone at hd
        split at hd
        · rename_i hin
          obtain ⟨stream'', hexec', hbits, -⟩ := hd
          have hstream : stream' = stream'' :=
            congrArg BitStreamParser.stream (congrArg Prod.snd (hexec.symm.trans hexec'))
          have hlen : stream'.length = stream.length := by
            have := congrArg List.length hbits
            rw [bits_length, changed_length hf hin, ← hstream] at this
            omega
          refine (ih stream' _ hrest (by omega)).mpr ?_
          rw [hlen]
          exact hcalls hin
        · rw [hexec] at hd
          cases hd
  exact hrun calls stream 0 hlegal (Nat.zero_le _)

/-- Four bits and an octet are read, four bits are left out, and an octet is written at the end. -/
theorem sample_calls_wellDone_iff :
    AllWellDone [0xA5, 0x3C, 0x0F] 0 [ReadBits 4, ReadUInt8, NextBits 4, WriteUInt8 7] ↔
      AllFine 3 0 [ReadBits 4, ReadUInt8, NextBits 4, WriteUInt8 7] :=
  calls_wellDone_iff _ _ (by simp [Legal])

/-- The last four bits of a buffer are not read. -/
theorem last_bits_not_read :
    (∀ c ∈ [ReadBits 4, ReadBits 4], c.Legal) ∧ ([ReadBits 4, ReadBits 4].map width).sum = 8 ∧
      ((ReadBits 4).run.exec (.atBit [0xA5] 4)).1 = .error .OsclErrOverflow ∧
      ¬ AllWellDone [0xA5] 0 [ReadBits 4, ReadBits 4] := by
  have herr : ((ReadBits 4).run.exec (.atBit [0xA5] 4)).1 = .error .OsclErrOverflow := rfl
  refine ⟨by simp [Legal], rfl, herr, ?_⟩
  rintro ⟨-, h⟩
  obtain ⟨hd, -⟩ := h 10 [0xA5] rfl
  unfold WellDone at hd
  rw [if_pos (by decide)] at hd
  obtain ⟨stream', hexec, -⟩ := hd
  cases herr.symm.trans (congrArg Prod.fst hexec)

end Call

end OpenCore.GenData
