/-
  File:      OpenCore/M4vH263/EncBitstream.lean
  Subject:   The bit writer of the MPEG-4 and H.263 encoder (bitstream_io.cpp): a pending word over
             a buffer, and streams that are appended to one another.

  The bits of a stream are the bytes saved and the used low bits of the pending word; what is above
  them in the word is not looked at, but for one case: where the second stream of an unaligned
  append has nothing pending, its word is put with zero bits. What stands in it then are the bits
  put last, and they are already there (`Writing.echo`). C leaves a shift by 32 open; machines
  leave the word or make zero of it (`Host`).

  **Main result**: `bits_kept`.
-/
import OpenCore.Avc.Ebsp

namespace OpenCore.M4vH263

open MsbBits Avc List Option
open Nat (mod_lt mod_mod_of_dvd shiftLeft_eq zero_mod zero_or)

/-! ## 1. The streams -/

/-- `BitstreamEncVideo`; 1 to 32 bits are left in the word. -/
structure BitstreamEncVideo where
  bitstreamBuffer : List UInt8
  bufferSize : Nat
  byteCount : Nat
  word : Nat
  bitLeft : Nat
  deriving DecidableEq

/-- What the machine makes of a word shifted by 32 (it leaves it, where the count is taken modulo
    32, or makes zero of it), and the way to more buffer for so many bytes. -/
structure Host where
  left32 : Nat → Nat
  right32 : Nat → Nat
  left32_eq : ∀ w, left32 w = w ∨ left32 w = 0
  right32_eq : ∀ w, right32 w = w ∨ right32 w = 0
  BitstreamUseOverrunBuffer : BitstreamEncVideo → Nat → Bool × BitstreamEncVideo

namespace Host

variable (m : Host)

/-- `w << n`. -/
def shl (w n : Nat) : Nat := if n < 32 then (w <<< n) % 2 ^ 32 else m.left32 w

/-- `w >> n`. -/
def shr (w n : Nat) : Nat := if n < 32 then w >>> n else m.right32 w

end Host

/-- Bytes written into a buffer, within it. -/
def store (buffer : List UInt8) (pos : Nat) (bytes : List UInt8) : Option (List UInt8) :=
  if pos + bytes.length ≤ buffer.length then
    some (buffer.take pos ++ bytes ++ buffer.drop (pos + bytes.length))
  else none

namespace BitstreamEncVideo

def BitStreamCreateEnc (bufferSize : Nat) : BitstreamEncVideo where
  bitstreamBuffer := List.replicate bufferSize 0
  bufferSize := bufferSize
  byteCount := 0
  word := 0
  bitLeft := 32

variable (m : Host)

/-- Room for `n` bytes more, in the buffer or in the one that is used then; the bytes are counted
    where there is none. -/
def room (s : BitstreamEncVideo) (n : Nat) : Bool × BitstreamEncVideo :=
  if s.byteCount + n > s.bufferSize then
    let r := m.BitstreamUseOverrunBuffer s n
    if r.1 then r else (false, { r.2 with byteCount := r.2.byteCount + n })
  else (true, s)

def BitstreamSaveWord (s : BitstreamEncVideo) : Option (Bool × BitstreamEncVideo) :=
  let r := s.room m 4
  if r.1 then
    (store r.2.bitstreamBuffer r.2.byteCount (wordBytes 4 r.2.word)).map fun buffer =>
      (true, { r.2 with
        bitstreamBuffer := buffer, word := 0, byteCount := r.2.byteCount + 4, bitLeft := 32 })
  else some r

def BitstreamPutBits (s : BitstreamEncVideo) (Length Value : Nat) :
    Option (Bool × BitstreamEncVideo) :=
  if s.bitLeft > Length then
    some (true, { s with word := m.shl s.word Length ||| Value, bitLeft := s.bitLeft - Length })
  else
    let rest := Length - s.bitLeft
    (BitstreamSaveWord m { s with word := m.shl s.word s.bitLeft ||| m.shr Value rest }).map
      fun r => if r.1 then (true, { r.2 with word := Value, bitLeft := r.2.bitLeft - rest }) else r

def BitstreamPutGT16Bits (s : BitstreamEncVideo) (Length Value : Nat) :
    Option (Bool × BitstreamEncVideo) :=
  let topValue := Value >>> 16
  let topLength := Length - 16
  if topLength > 0 then do
    let r ← s.BitstreamPutBits m topLength topValue
    if r.1 then r.2.BitstreamPutBits m 16 (Value &&& 0xFFFF) else return r
  else s.BitstreamPutBits m Length Value

/-- The loop of `BitstreamSavePartial`: the bytes from the top of the word, and what is left of
    it. -/
def saveLoop : Nat → Nat → List UInt8 × Nat
  | 0, word => ([], word)
  | numbyte + 1, word =>
    let r := saveLoop numbyte ((word <<< 8) % 2 ^ 32)
    (UInt8.ofNat ((word >>> 24) &&& 0xFF) :: r.1, r.2)

/-- `BitstreamSavePartial`, with `fraction` where it succeeds. -/
def BitstreamSavePartial (s : BitstreamEncVideo) : Option (Option Nat × BitstreamEncVideo) :=
  let bitused := 32 - s.bitLeft
  let numbyte := bitused >>> 3
  let r := s.room m numbyte
  if r.1 then
    let word := m.shl r.2.word s.bitLeft
    let bitfrac := bitused - (numbyte <<< 3)
    let fraction := if bitfrac ≠ 0 then 1 else 0
    let bitleft := 32 - bitfrac
    let saved := saveLoop numbyte word
    (store r.2.bitstreamBuffer r.2.byteCount saved.1).map fun buffer =>
      (some fraction, { r.2 with
        bitstreamBuffer := buffer, byteCount := r.2.byteCount + numbyte, bitLeft := bitleft
        word := m.shr saved.2 bitleft })
  else some (none, r.2)

/-- The stuffing bits are put, if there are any. -/
def putRest (s : BitstreamEncVideo) (restBits Value : Nat) : Option BitstreamEncVideo :=
  if restBits ≠ 0 then (s.BitstreamPutBits m restBits Value).map Prod.snd else some s

/-- What the two stuffings end with. -/
def saveStuffed (s : BitstreamEncVideo) : Option BitstreamEncVideo :=
  if s.bitLeft ≠ 32 then (s.BitstreamSavePartial m).map Prod.snd else some s

/-- `BitstreamShortHeaderByteAlignStuffing`: the number of bits stuffed, and the stream. -/
def BitstreamShortHeaderByteAlignStuffing (s : BitstreamEncVideo) :
    Option (Nat × BitstreamEncVideo) := do
  let restBits := s.bitLeft &&& 0x7
  let s ← s.putRest m restBits 0
  return (restBits, ← s.saveStuffed m)

def Mask (n : Nat) : Nat :=
  [0x00, 0x01, 0x03, 0x07, 0x0F, 0x1F, 0x3F, 0x7F, 0xFF].getD n 0

def BitstreamMpeg4ByteAlignStuffing (s : BitstreamEncVideo) :
    Option (Nat × BitstreamEncVideo) := do
  let s ← (s.BitstreamPutBits m 1 0).map Prod.snd
  let restBits := s.bitLeft &&& 0x7
  let s ← s.putRest m restBits (Mask restBits)
  return (restBits, ← s.saveStuffed m)

/-- The bytes of a stream, where they are within its buffer. -/
def saved (s : BitstreamEncVideo) : Option (List UInt8) :=
  if s.byteCount ≤ s.bitstreamBuffer.length then some (s.bitstreamBuffer.take s.byteCount) else none

def BitstreamAppendPacket (s t : BitstreamEncVideo) : Option (Bool × BitstreamEncVideo) :=
  let r := s.room m t.byteCount
  if r.1 then do
    let buffer ← store r.2.bitstreamBuffer r.2.byteCount (← t.saved)
    return (true, { r.2 with
      bitstreamBuffer := buffer, byteCount := r.2.byteCount + t.byteCount
      word := t.word, bitLeft := t.bitLeft })
  else some r

/-- The loop of `BitstreamAppendEnc`: the bytes that are written, and `byteBS1`. -/
def appendLoop (bitused bitleft : Nat) : List UInt8 → Nat → List UInt8 × Nat
  | [], byteBS1 => ([], byteBS1)
  | byteBS2 :: rest, byteBS1 =>
    let r := appendLoop bitused bitleft rest ((byteBS2.toNat <<< bitleft) % 2 ^ 8)
    (UInt8.ofNat (byteBS1 ||| (byteBS2.toNat >>> bitused)) :: r.1, r.2)

/-- The part of `BitstreamAppendEnc` for a stream that is not byte-aligned, with `offset` bytes
    for the fractions. -/
def appendUnaligned (s t : BitstreamEncVideo) (offset : Nat) : Option (Bool × BitstreamEncVideo) :=
  let r := s.room m (t.byteCount + offset)
  if r.1 then do
    let bitused := 32 - r.2.bitLeft
    let bitleft := 8 - bitused
    let shifted := appendLoop bitused bitleft (← t.saved) (((r.2.word % 2 ^ 8) <<< bitleft) % 2 ^ 8)
    let buffer ← store r.2.bitstreamBuffer r.2.byteCount shifted.1
    let s := { r.2 with
      bitstreamBuffer := buffer, byteCount := r.2.byteCount + t.byteCount
      word := shifted.2 >>> bitleft }
    s.BitstreamPutBits m (32 - t.bitLeft) t.word
  else some r

/-- `BitstreamAppendEnc`: the status and both streams. -/
def BitstreamAppendEnc (s t : BitstreamEncVideo) :
    Option (Bool × BitstreamEncVideo × BitstreamEncVideo) := do
  let p ← s.BitstreamSavePartial m
  match p.1 with
  | none => return (false, p.2, t)
  | some offset =>
    let q ← t.BitstreamSavePartial m
    match q.1 with
    | none => return (false, p.2, q.2)
    | some fraction =>
      let r ← if offset = 0 then p.2.BitstreamAppendPacket m q.2
        else p.2.appendUnaligned m q.2 (offset + fraction)
      return (r.1, r.2, q.2)

end BitstreamEncVideo

section Calls

variable {ι : Type*}

/-- The calls on streams that are named by `ι`; the first of two streams is appended to. -/
inductive EncCall (ι : Type*) where
  | putBits (i : ι) (Length Value : Nat)
  | putGT16Bits (i : ι) (Length Value : Nat)
  | savePartial (i : ι)
  | shortHeaderStuffing (i : ι)
  | mpeg4Stuffing (i : ι)
  | appendEnc (i j : ι)
  | appendPacket (i j : ι)

variable [DecidableEq ι] (m : Host)

/-- One call: its status (the stuffings have none), and the streams behind it. -/
def encCall (s : ι → BitstreamEncVideo) : EncCall ι → Option (Bool × (ι → BitstreamEncVideo))
  | .putBits i n v =>
    ((s i).BitstreamPutBits m n v).map fun r => (r.1, Function.update s i r.2)
  | .putGT16Bits i n v =>
    ((s i).BitstreamPutGT16Bits m n v).map fun r => (r.1, Function.update s i r.2)
  | .savePartial i =>
    ((s i).BitstreamSavePartial m).map fun r => (r.1.isSome, Function.update s i r.2)
  | .shortHeaderStuffing i =>
    ((s i).BitstreamShortHeaderByteAlignStuffing m).map fun r => (true, Function.update s i r.2)
  | .mpeg4Stuffing i =>
    ((s i).BitstreamMpeg4ByteAlignStuffing m).map fun r => (true, Function.update s i r.2)
  | .appendEnc i j =>
    ((s i).BitstreamAppendEnc m (s j)).map fun r =>
      (r.1, Function.update (Function.update s i r.2.1) j r.2.2)
  | .appendPacket i j =>
    ((s i).BitstreamAppendPacket m (s j)).map fun r => (r.1, Function.update s i r.2)

/-! ## 2. The bits -/

/-- The bits written to each stream, behind a call. -/
def writes (l : ι → List Bool) : EncCall ι → ι → List Bool
  | .putBits i n v => Function.update l i (l i ++ ofNum n v)
  | .putGT16Bits i n v => Function.update l i (l i ++ ofNum n v)
  | .savePartial _ => l
  | .shortHeaderStuffing i =>
    Function.update l i (l i ++ List.replicate ((8 - (l i).length % 8) % 8) false)
  | .mpeg4Stuffing i =>
    Function.update l i (l i ++ false :: List.replicate (7 - (l i).length % 8) true)
  | .appendEnc i j => Function.update l i (l i ++ l j)
  | .appendPacket i j => Function.update l i (l i ++ l j)

end Calls

/-- The streams and the bits written to each. -/
structure Encoding (ι : Type*) where
  streams : ι → BitstreamEncVideo
  written : ι → List Bool

section Runs

variable {ι : Type*} [DecidableEq ι] (m : Host)

/-- Streams with buffers of the given sizes. -/
def Encoding.created (size : ι → Nat) : Encoding ι where
  streams i := .BitStreamCreateEnc (size i)
  written _ := []

/-- One call on the streams and on the bits. -/
def encStep (e : Encoding ι) (c : EncCall ι) : Option (Encoding ι) :=
  (encCall m e.streams c).map fun r => ⟨r.2, writes e.written c⟩

/-- A call as it is meant: lengths and values in range, two streams, and a buffer that is large
    enough for the bits, in `BitstreamAppendEnc` with a byte for each of two fractions. A packet is
    appended to a stream without pending bits. -/
def EncFits (e : Encoding ι) : EncCall ι → Prop
  | .putBits i n v =>
    1 ≤ n ∧ n ≤ 16 ∧ v < 2 ^ n ∧ (e.written i).length + n ≤ 8 * (e.streams i).bufferSize
  | .putGT16Bits i n v =>
    17 ≤ n ∧ n ≤ 32 ∧ v < 2 ^ n ∧ (e.written i).length + n ≤ 8 * (e.streams i).bufferSize
  | .savePartial _ | .shortHeaderStuffing _ => True
  | .mpeg4Stuffing i => (e.written i).length + 1 ≤ 8 * (e.streams i).bufferSize
  | .appendEnc i j =>
    i ≠ j ∧ (e.written i).length + (e.written j).length + 16 ≤ 8 * (e.streams i).bufferSize
  | .appendPacket i j =>
    i ≠ j ∧ (e.written i).length + (e.written j).length ≤ 8 * (e.streams i).bufferSize ∧
      (e.streams i).bitLeft = 32

instance decidableEncFits (e : Encoding ι) : ∀ c : EncCall ι, Decidable (EncFits e c)
  | .putBits i n v => inferInstanceAs (Decidable (1 ≤ n ∧ n ≤ 16 ∧ v < 2 ^ n ∧
      (e.written i).length + n ≤ 8 * (e.streams i).bufferSize))
  | .putGT16Bits i n v => inferInstanceAs (Decidable (17 ≤ n ∧ n ≤ 32 ∧ v < 2 ^ n ∧
      (e.written i).length + n ≤ 8 * (e.streams i).bufferSize))
  | .savePartial _ | .shortHeaderStuffing _ => isTrue trivial
  | .mpeg4Stuffing i =>
    inferInstanceAs (Decidable ((e.written i).length + 1 ≤ 8 * (e.streams i).bufferSize))
  | .appendEnc i j => inferInstanceAs (Decidable (i ≠ j ∧
      (e.written i).length + (e.written j).length + 16 ≤ 8 * (e.streams i).bufferSize))
  | .appendPacket i j => inferInstanceAs (Decidable (i ≠ j ∧
      (e.written i).length + (e.written j).length ≤ 8 * (e.streams i).bufferSize ∧
      (e.streams i).bitLeft = 32))

end Runs

/-- The stream holds the bits `l`: the bytes saved, and the used bits of the pending word. -/
def HoldsBits (s : BitstreamEncVideo) (l : List Bool) : Prop :=
  l = bits (s.bitstreamBuffer.take s.byteCount) ++ ofNum (32 - s.bitLeft) s.word

/-! ## 3. Words and buffers -/

variable {n : Nat}

/-- Bits put at the low end of a word. -/
theorem ofNum_put {k v : Nat} (w : Nat) (hkn : k + n ≤ 32) (hv : v < 2 ^ n) :
    ofNum (k + n) ((w <<< n) % 2 ^ 32 ||| v) = ofNum k w ++ ofNum n v := by
  have hmod : v % 2 ^ 32 = v :=
    Nat.mod_eq_of_lt (hv.trans_le (Nat.pow_le_pow_right (by decide) (by omega)))
  rw [← hmod, ← Nat.or_mod_two_pow, hmod, ofNum_mod_of_le hkn, ofNum_or k w hv]

/-- The used bits of a word, moved to its top. -/
theorem shiftLeft_used {k : Nat} (hk : k ≤ 32) (w : Nat) :
    (w <<< (32 - k)) % 2 ^ 32 = word 32 (ofNum k w) := by
  have hpow : 2 ^ 32 = 2 ^ k * 2 ^ (32 - k) := by
    rw [← pow_add]
    congr 1
    omega
  rw [word, fit_eq_append (by rw [ofNum_length]; exact hk), num_append, num_replicate_false,
    num_ofNum, ofNum_length, length_replicate, shiftLeft_eq, Nat.add_zero]
  conv_lhs => rw [hpow, Nat.mul_mod_mul_right]

theorem store_spec (buffer : List UInt8) (pos : Nat) (bytes : List UInt8)
    (h : pos + bytes.length ≤ buffer.length) :
    ∃ buffer', store buffer pos bytes = some buffer' ∧ buffer'.length = buffer.length ∧
      buffer'.take (pos + bytes.length) = buffer.take pos ++ bytes := by
  have hpos : (buffer.take pos).length = pos := by
    rw [length_take, Nat.min_eq_left (by omega)]
  refine ⟨_, if_pos h, ?_, ?_⟩
  · rw [length_append, length_append, hpos, length_drop]
    omega
  · exact take_left' (by rw [length_append, hpos])

/-- The loop takes bytes from the top of a word. -/
theorem saveLoop_spec {l : List Bool} (hl : l.length ≤ 32) (hn : 8 * n ≤ l.length) :
    ∃ bytes, BitstreamEncVideo.saveLoop n (word 32 l) = (bytes, word 32 (l.drop (8 * n))) ∧
      bytes.length = n ∧ bits bytes = l.take (8 * n) := by
  induction n generalizing l with
  | zero => exact ⟨[], rfl, rfl, rfl⟩
  | succ n ih =>
    obtain ⟨bytes, hloop, hlen, hbits⟩ :=
      ih (l := l.drop 8) (by rw [length_drop]; omega) (by rw [length_drop]; omega)
    have hfirst : l.take 8 = fit 8 l := (fit_eq_take (by omega)).symm
    have hlt : num (fit 8 l) < 256 := by
      have := num_lt (fit 8 l)
      rw [fit_length] at this
      exact this
    have hbyte : (word 32 l >>> 24) &&& 0xFF = num (fit 8 l) := by
      have hshift : word 32 l >>> 24 = num (fit 8 l) := word_shiftRight (n := 8) (by decide) l
      rw [hshift]
      exact (Nat.and_two_pow_sub_one_eq_mod _ 8).trans (Nat.mod_eq_of_lt hlt)
    have h8 : 8 + 8 * n = 8 * (n + 1) := by omega
    refine ⟨UInt8.ofNat (num (fit 8 l)) :: bytes, ?_, by rw [length_cons, hlen], ?_⟩
    · rw [BitstreamEncVideo.saveLoop, word_shiftLeft hl, hloop, hbyte, drop_drop, h8]
    · have hoctet : octetBits (UInt8.ofNat (num (fit 8 l))) = fit 8 l := by
        have htake : (fit 8 l).take 8 = fit 8 l := take_of_length_le (by rw [fit_length])
        have := octetBits_octet (fit_length 8 l)
        rwa [octet, htake] at this
      rw [bits_cons, hoctet, hbits, ← hfirst, ← h8, take_add]

/-- The loop moves bytes behind the `f` bits of a fraction. -/
theorem appendLoop_spec {f : Nat} (hf1 : 1 ≤ f) (hf : f ≤ 7) (bytes : List UInt8) {l : List Bool}
    (hl : l.length = f) :
    ∃ out l', BitstreamEncVideo.appendLoop f (8 - f) bytes (word 8 l) = (out, word 8 l') ∧
      out.length = bytes.length ∧ l'.length = f ∧ bits out ++ l' = l ++ bits bytes := by
  induction bytes generalizing l with
  | nil => exact ⟨[], l, rfl, rfl, hl, by rw [bits_nil, nil_append, append_nil]⟩
  | cons b rest ih =>
    have hlast : ((octetBits b).drop (8 - f)).length = f := by
      rw [length_drop, octetBits_length]
      omega
    obtain ⟨out, l', hloop, hlen, hl', hbits⟩ := ih hlast
    have hb : b.toNat = word 8 (octetBits b) := by
      rw [word, fit_eq_take (by rw [octetBits_length]), take_of_length_le (by simp),
        num_octetBits]
    have hnext : (b.toNat <<< (8 - f)) % 2 ^ 8 = word 8 ((octetBits b).drop (8 - f)) := by
      rw [hb]
      exact word_shiftLeft (by rw [octetBits_length])
    have hor : word 8 l ||| (b.toNat >>> f) = num (fit 8 (l ++ octetBits b)) := by
      have := word_or (w := 8) (l := l) (by omega) (octetBits b)
      rw [hl, ← hb] at this
      exact this
    have hoctet : octetBits (UInt8.ofNat (num (fit 8 (l ++ octetBits b)))) =
        fit 8 (l ++ octetBits b) := by
      have htake : (fit 8 (l ++ octetBits b)).take 8 = fit 8 (l ++ octetBits b) :=
        take_of_length_le (by rw [fit_length])
      have := octetBits_octet (fit_length 8 (l ++ octetBits b))
      rwa [octet, htake] at this
    have hfit : fit 8 (l ++ octetBits b) = l ++ (octetBits b).take (8 - f) := by
      rw [fit_eq_take (by rw [length_append, octetBits_length]; omega), take_append, hl,
        take_of_length_le (by omega)]
    refine ⟨UInt8.ofNat (num (fit 8 (l ++ octetBits b))) :: out, l', ?_, ?_, hl', ?_⟩
    · rw [BitstreamEncVideo.appendLoop, hnext, hloop, hor]
    · rw [length_cons, length_cons, hlen]
    · rw [bits_cons, hoctet, hfit, append_assoc, hbits, bits_cons, append_assoc,
        ← append_assoc ((octetBits b).take (8 - f)), take_append_drop]

/-! ## 4. One call on a stream -/

/-- The last of the bytes. -/
def lastByte (bytes : List UInt8) : Nat := (bytes.getLastD 0).toNat

theorem lastByte_append (l : List UInt8) {k : List UInt8} (hk : k ≠ []) :
    lastByte (l ++ k) = lastByte k := by
  rw [lastByte, lastByte, getLastD_eq_getLast?, getLastD_eq_getLast?,
    getLast?_append_of_ne_nil l hk]

theorem lastByte_wordBytes (l : List UInt8) (w : Nat) :
    lastByte (l ++ wordBytes 4 w) = w % 2 ^ 8 := by
  have hand : w &&& 0xFF = w % 2 ^ 8 := Nat.and_two_pow_sub_one_eq_mod _ 8
  have hne : wordBytes 4 w ≠ [] := cons_ne_nil _ _
  rw [lastByte_append l hne]
  show (UInt8.ofNat ((w >>> 0) &&& 0xFF)).toNat = w % 2 ^ 8
  rw [Nat.shiftRight_zero, hand]
  exact UInt8.toNat_ofNat_of_lt' (mod_lt _ (by decide))

theorem or_mod_same (w v : Nat) : v % 2 ^ 8 ||| (w ||| v) % 2 ^ 8 = (w ||| v) % 2 ^ 8 := by
  rw [← Nat.or_mod_two_pow, Nat.or_comm w v, ← Nat.or_assoc, Nat.or_self]

/-- The stream holds the bits, within its buffer. Where nothing is pending, the last byte has all
    the bits of the word's. -/
structure Writing (s : BitstreamEncVideo) (l : List Bool) : Prop where
  size : s.bufferSize = s.bitstreamBuffer.length
  count_le : s.byteCount ≤ s.bufferSize
  left_pos : 1 ≤ s.bitLeft
  left_le : s.bitLeft ≤ 32
  fits : l.length ≤ 8 * s.bufferSize
  holds : HoldsBits s l
  echo : s.bitLeft = 32 → s.word % 2 ^ 8 ||| lastByte (s.bitstreamBuffer.take s.byteCount) =
    lastByte (s.bitstreamBuffer.take s.byteCount)

theorem Writing.created (bufferSize : Nat) :
    Writing (.BitStreamCreateEnc bufferSize) [] where
  size := (length_replicate).symm
  count_le := Nat.zero_le _
  left_pos := by show 1 ≤ 32; decide
  left_le := Nat.le_refl 32
  fits := Nat.zero_le _
  holds := rfl
  echo _ := zero_or _

section Stream

variable {s t : BitstreamEncVideo} {l k : List Bool} (m : Host)

theorem Writing.length (h : Writing s l) : l.length = 8 * s.byteCount + (32 - s.bitLeft) := by
  have hle : s.byteCount ≤ s.bitstreamBuffer.length := by
    rw [← h.size]
    exact h.count_le
  rw [h.holds, length_append, bits_length, length_take, ofNum_length,
    Nat.min_eq_left hle]

theorem room_eq (h : s.byteCount + n ≤ s.bufferSize) : s.room m n = (true, s) :=
  if_neg (by omega)

theorem shl_eq_of_lt (w : Nat) (h : n < 32) : m.shl w n = (w <<< n) % 2 ^ 32 := if_pos h

theorem shr_eq_of_lt (w : Nat) (h : n < 32) : m.shr w n = w >>> n := if_pos h

theorem saveWord_spec (hsize : s.bufferSize = s.bitstreamBuffer.length)
    (hroom : s.byteCount + 4 ≤ s.bufferSize) :
    ∃ s', s.BitstreamSaveWord m = some (true, s') ∧ s'.bufferSize = s.bufferSize ∧
      s'.bufferSize = s'.bitstreamBuffer.length ∧ s'.byteCount = s.byteCount + 4 ∧
      s'.bitLeft = 32 ∧ s'.bitstreamBuffer.take s'.byteCount =
        s.bitstreamBuffer.take s.byteCount ++ wordBytes 4 s.word := by
  obtain ⟨buffer, hstore, hlen, htake⟩ :=
    store_spec s.bitstreamBuffer s.byteCount (wordBytes 4 s.word) (hsize ▸ hroom)
  refine ⟨{ s with
    bitstreamBuffer := buffer, word := 0, byteCount := s.byteCount + 4, bitLeft := 32 },
    ?_, rfl, hsize.trans hlen.symm, rfl, rfl, htake⟩
  simp only [BitstreamEncVideo.BitstreamSaveWord, room_eq m hroom, if_true, hstore,
    map_some]

section

variable (h : Writing s l)
include h

/-- **`BitstreamPutBits`** puts the bits of the value. -/
theorem Writing.putBits {v : Nat} (hn1 : 1 ≤ n) (hn : n ≤ 16) (hv : v < 2 ^ n)
    (hroom : l.length + n ≤ 8 * s.bufferSize) :
    ∃ s', s.BitstreamPutBits m n v = some (true, s') ∧ Writing s' (l ++ ofNum n v) ∧
      s'.bufferSize = s.bufferSize := by
  have hpos := h.left_pos
  have hle := h.left_le
  have hlen := h.length
  unfold BitstreamEncVideo.BitstreamPutBits
  by_cases hfit : s.bitLeft > n
  · rw [if_pos hfit]
    refine ⟨_, rfl, ⟨h.size, h.count_le, ?_, ?_, ?_, ?_, ?_⟩, rfl⟩
    · show 1 ≤ s.bitLeft - n
      omega
    · show s.bitLeft - n ≤ 32
      omega
    · rw [length_append, ofNum_length]
      exact hroom
    · have hused : 32 - (s.bitLeft - n) = (32 - s.bitLeft) + n := by omega
      show _ = _ ++ ofNum (32 - (s.bitLeft - n)) (m.shl s.word n ||| v)
      rw [hused, shl_eq_of_lt m _ (by omega), ofNum_put s.word (by omega) hv, h.holds,
        append_assoc]
    · show s.bitLeft - n = 32 → _
      omega
  · -- the first bits fill the word, the others are the word that follows
    rw [if_neg hfit]
    obtain ⟨rest, hrest⟩ : ∃ rest, n = s.bitLeft + rest := ⟨n - s.bitLeft, by omega⟩
    have hsub : n - s.bitLeft = rest := by omega
    have hhigh : v >>> rest < 2 ^ s.bitLeft := shiftRight_lt (by rwa [← hrest])
    have hvalue : ofNum n v = ofNum s.bitLeft (v >>> rest) ++ ofNum rest v := by
      rw [hrest, Nat.shiftRight_eq_div_pow, ofNum_split]
    obtain ⟨full, hfull⟩ : ∃ full : BitstreamEncVideo,
        full = { s with word := m.shl s.word s.bitLeft ||| m.shr v rest } := ⟨_, rfl⟩
    have hsize : full.bufferSize = full.bitstreamBuffer.length := by rw [hfull]; exact h.size
    have hroom' : full.byteCount + 4 ≤ full.bufferSize := by
      rw [hfull]
      show s.byteCount + 4 ≤ s.bufferSize
      omega
    obtain ⟨s', hs', hsize', hlen', hcount', hleft', htake'⟩ := saveWord_spec m hsize hroom'
    have hword : ofNum 32 full.word = ofNum (32 - s.bitLeft) s.word ++
        ofNum s.bitLeft (v >>> rest) := by
      have hput := ofNum_put (k := 32 - s.bitLeft) s.word (by omega) hhigh
      have h32 : 32 - s.bitLeft + s.bitLeft = 32 := by omega
      rw [h32] at hput
      rw [hfull, ← hput]
      show ofNum 32 (m.shl s.word s.bitLeft ||| m.shr v rest) = _
      rw [shl_eq_of_lt m _ (by omega), shr_eq_of_lt m _ (by omega)]
    have hbuffer : full.bitstreamBuffer.take full.byteCount =
        s.bitstreamBuffer.take s.byteCount := by rw [hfull]
    have hsz : full.bufferSize = s.bufferSize := by rw [hfull]
    refine ⟨{ s' with word := v, bitLeft := s'.bitLeft - rest }, ?_,
      ⟨hlen', ?_, ?_, ?_, ?_, ?_, ?_⟩, hsize'.trans hsz⟩
    · simp only [hsub, ← hfull, hs', map_some, if_true]
    · show s'.byteCount ≤ s'.bufferSize
      omega
    · show 1 ≤ s'.bitLeft - rest
      omega
    · show s'.bitLeft - rest ≤ 32
      omega
    · rw [length_append, ofNum_length]
      show l.length + n ≤ 8 * s'.bufferSize
      rw [hsize', hsz]
      exact hroom
    · have hused : 32 - (s'.bitLeft - rest) = rest := by omega
      show _ = bits (s'.bitstreamBuffer.take s'.byteCount) ++ ofNum (32 - (s'.bitLeft - rest)) v
      rw [hused, htake', bits_append, bits_wordBytes, hword, hbuffer, h.holds, hvalue,
        append_assoc, append_assoc, append_assoc]
    · intro hall
      have hrest0 : rest = 0 := by
        have : s'.bitLeft - rest = 32 := hall
        omega
      have hlow : full.word = m.shl s.word s.bitLeft ||| v := by
        rw [hfull, hrest0]
        show _ ||| m.shr v 0 = _
        rw [shr_eq_of_lt m _ (by decide), Nat.shiftRight_zero]
      show v % 2 ^ 8 ||| lastByte (s'.bitstreamBuffer.take s'.byteCount) =
        lastByte (s'.bitstreamBuffer.take s'.byteCount)
      rw [htake', lastByte_wordBytes, hlow]
      exact or_mod_same _ v

/-- **`BitstreamPutGT16Bits`** puts the bits of the value. -/
theorem Writing.putGT16Bits {v : Nat} (hn17 : 17 ≤ n) (hn : n ≤ 32)
    (hv : v < 2 ^ n) (hroom : l.length + n ≤ 8 * s.bufferSize) :
    ∃ s', s.BitstreamPutGT16Bits m n v = some (true, s') ∧ Writing s' (l ++ ofNum n v) ∧
      s'.bufferSize = s.bufferSize := by
  have htop : n - 16 > 0 := by omega
  have h16 : n - 16 + 16 = n := by omega
  have htopv : v >>> 16 < 2 ^ (n - 16) := shiftRight_lt (by rwa [h16])
  have hlow : v &&& 0xFFFF = v % 2 ^ 16 := Nat.and_two_pow_sub_one_eq_mod _ 16
  have hvalue : ofNum n v = ofNum (n - 16) (v >>> 16) ++ ofNum 16 (v &&& 0xFFFF) := by
    rw [hlow, ofNum_mod, Nat.shiftRight_eq_div_pow, ← ofNum_split, h16]
  obtain ⟨s₁, hs₁, h₁, hsize₁⟩ := h.putBits m (n := n - 16) (by omega) (by omega) htopv (by omega)
  have hlen₁ : (l ++ ofNum (n - 16) (v >>> 16)).length = l.length + (n - 16) := by
    rw [length_append, ofNum_length]
  obtain ⟨s₂, hs₂, h₂, hsize₂⟩ := h₁.putBits m (n := 16) (v := v &&& 0xFFFF) (by decide)
    (Nat.le_refl 16)
    (by rw [hlow]; exact mod_lt _ (by decide)) (by rw [hlen₁, hsize₁]; omega)
  refine ⟨s₂, ?_, by rw [hvalue, ← append_assoc]; exact h₂, hsize₂.trans hsize₁⟩
  simp only [BitstreamEncVideo.BitstreamPutGT16Bits, if_pos htop, hs₁, bind_eq_bind,
    bind_some, if_true, hs₂]

/-- **`BitstreamSavePartial`** saves the whole bytes; a fraction stays in the word by itself. -/
theorem Writing.savePartial :
    ∃ s', s.BitstreamSavePartial m = some (some (if l.length % 8 ≠ 0 then 1 else 0), s') ∧
      Writing s' l ∧ s'.bufferSize = s.bufferSize ∧ s'.byteCount = l.length / 8 ∧
      s'.bitLeft = 32 - l.length % 8 ∧
      (l.length % 8 ≠ 0 → s'.word < 2 ^ (l.length % 8)) := by
  have hpos := h.left_pos
  have hle := h.left_le
  have hlen := h.length
  have hfits := h.fits
  obtain ⟨used, hused⟩ : ∃ used, 32 - s.bitLeft = used := ⟨_, rfl⟩
  have hleft : s.bitLeft = 32 - used := by omega
  have h8 : used >>> 3 = used / 8 := Nat.shiftRight_eq_div_pow used 3
  have hback : (used / 8) <<< 3 = used / 8 * 8 := shiftLeft_eq (used / 8) 3
  have hfrac : used - used / 8 * 8 = l.length % 8 := by omega
  have hbytes : s.byteCount + used / 8 = l.length / 8 := by omega
  -- the word that is taken apart, and what is left of it
  obtain ⟨bytes, rest, hloop, hlen', hbits, hrest⟩ : ∃ bytes rest,
      BitstreamEncVideo.saveLoop (used / 8) (m.shl s.word s.bitLeft) = (bytes, rest) ∧
        bytes.length = used / 8 ∧
        bits bytes ++ ofNum (l.length % 8) (m.shr rest (32 - l.length % 8)) = ofNum used s.word ∧
        (used = 0 ∧ (m.shr rest (32 - l.length % 8) = s.word ∨
            m.shr rest (32 - l.length % 8) = 0) ∨
          0 < used ∧ m.shr rest (32 - l.length % 8) < 2 ^ (l.length % 8)) := by
    by_cases h0 : used = 0
    · have h32 : s.bitLeft = 32 := by omega
      have hmod : l.length % 8 = 0 := by omega
      rw [h0, hmod, h32]
      refine ⟨[], _, rfl, rfl, rfl, .inl ⟨rfl, ?_⟩⟩
      show m.right32 (m.left32 s.word) = s.word ∨ m.right32 (m.left32 s.word) = 0
      rcases m.right32_eq (m.left32 s.word) with hr | hr
      · rw [hr]
        exact m.left32_eq s.word
      · exact .inr hr
    · have hcut : (ofNum used s.word).length = used := ofNum_length _ _
      obtain ⟨bytes, hloop, hlen', hbits⟩ := saveLoop_spec (n := used / 8) (l := ofNum used s.word)
        (by omega) (by omega)
      have hdrop : ((ofNum used s.word).drop (8 * (used / 8))).length = l.length % 8 := by
        rw [length_drop, hcut]
        omega
      have hshl : m.shl s.word s.bitLeft = word 32 (ofNum used s.word) := by
        rw [shl_eq_of_lt m _ (by omega), hleft, shiftLeft_used (by omega)]
      have hshr : m.shr (word 32 ((ofNum used s.word).drop (8 * (used / 8))))
          (32 - l.length % 8) = num ((ofNum used s.word).drop (8 * (used / 8))) := by
        by_cases hzero : l.length % 8 = 0
        · have hnil := eq_nil_of_length_eq_zero (hdrop.trans hzero)
          rw [hnil, hzero, word_nil]
          exact or_self_iff.mp (m.right32_eq 0)
        · rw [shr_eq_of_lt m _ (by omega), word_shiftRight (by omega), ← hdrop,
            fit_eq_take (Nat.le_refl _), take_length]
      have hnum := num_lt ((ofNum used s.word).drop (8 * (used / 8)))
      refine ⟨bytes, _, by rw [hshl, hloop], hlen', ?_, .inr ⟨by omega, ?_⟩⟩
      · rw [hshr, hbits, ← hdrop, ofNum_num, take_append_drop]
      · rw [hshr, ← hdrop]
        exact hnum
  obtain ⟨buffer, hstore, hlenb, htake⟩ := store_spec s.bitstreamBuffer
    s.byteCount bytes (by rw [hlen', hbytes, ← h.size]; omega)
  refine ⟨{ s with
    bitstreamBuffer := buffer, byteCount := s.byteCount + used / 8, bitLeft := 32 - l.length % 8
    word := m.shr rest (32 - l.length % 8) }, ?_,
    ⟨h.size.trans hlenb.symm, ?_, ?_, ?_, hfits, ?_, ?_⟩, rfl, hbytes, rfl, ?_⟩
  · simp only [BitstreamEncVideo.BitstreamSavePartial, hused, h8, hback, hfrac,
      room_eq m (show s.byteCount + used / 8 ≤ s.bufferSize by omega), if_true, hloop, hstore,
      map_some]
  · show s.byteCount + used / 8 ≤ s.bufferSize
    omega
  · show 1 ≤ 32 - l.length % 8
    omega
  · show 32 - l.length % 8 ≤ 32
    omega
  · have hfull : 32 - (32 - l.length % 8) = l.length % 8 := by omega
    show l = bits (buffer.take (s.byteCount + used / 8)) ++
      ofNum (32 - (32 - l.length % 8)) (m.shr rest (32 - l.length % 8))
    rw [hfull, ← hlen', htake, bits_append, append_assoc, hbits, ← hused]
    exact h.holds
  · intro hall
    have hall' : 32 - l.length % 8 = 32 := hall
    show m.shr rest (32 - l.length % 8) % 2 ^ 8 |||
        lastByte (buffer.take (s.byteCount + used / 8)) =
      lastByte (buffer.take (s.byteCount + used / 8))
    rcases hrest with ⟨h0, hsame | hzero⟩ | ⟨-, hlt⟩
    · have hnil : bytes = [] := eq_nil_of_length_eq_zero (by rw [hlen', h0])
      rw [hsame, ← hlen', htake, hnil, append_nil]
      exact h.echo (by omega)
    · rw [hzero, zero_mod, zero_or]
    · have hmod : l.length % 8 = 0 := by omega
      rw [hmod, pow_zero, Nat.lt_one_iff] at hlt
      rw [hmod, hlt, zero_mod, zero_or]
  · intro hne
    exact (hrest.resolve_left fun h0 => hne (by omega)).2

theorem Writing.saveStuffed :
    ∃ s', s.saveStuffed m = some s' ∧ Writing s' l ∧ s'.bufferSize = s.bufferSize := by
  unfold BitstreamEncVideo.saveStuffed
  by_cases h32 : s.bitLeft ≠ 32
  · obtain ⟨s', hs', h', hsize, -⟩ := h.savePartial m
    rw [if_pos h32, hs', map_some]
    exact ⟨s', rfl, h', hsize⟩
  · rw [if_neg h32]
    exact ⟨s, rfl, h, rfl⟩

theorem Writing.restBits : s.bitLeft &&& 0x7 = (8 - l.length % 8) % 8 := by
  have hlen := h.length
  have hle := h.left_le
  have hand : s.bitLeft &&& 0x7 = s.bitLeft % 8 := Nat.and_two_pow_sub_one_eq_mod _ 3
  omega

theorem Writing.putRest {v : Nat} (hn : n ≤ 7) (hv : v < 2 ^ n)
    (hroom : l.length + n ≤ 8 * s.bufferSize) :
    ∃ s', s.putRest m n v = some s' ∧ Writing s' (l ++ ofNum n v) ∧
      s'.bufferSize = s.bufferSize := by
  unfold BitstreamEncVideo.putRest
  by_cases h0 : n ≠ 0
  · obtain ⟨s', hs', h', hsize⟩ := h.putBits m (n := n) (by omega) (by omega) hv hroom
    rw [if_pos h0, hs', map_some]
    exact ⟨s', rfl, h', hsize⟩
  · obtain rfl : n = 0 := by omega
    rw [if_neg h0]
    exact ⟨s, rfl, by rw [ofNum, append_nil]; exact h, rfl⟩

end

theorem ofNum_zero (n : Nat) : ofNum n 0 = replicate n false := by
  refine num_inj (by rw [ofNum_length, length_replicate]) ?_
  rw [num_ofNum, num_replicate_false, zero_mod]

theorem mask_spec (hn : n ≤ 7) :
    BitstreamEncVideo.Mask n < 2 ^ n ∧
      ofNum n (BitstreamEncVideo.Mask n) = replicate n true := by
  interval_cases n <;> decide

/-- **`BitstreamShortHeaderByteAlignStuffing`** puts zeros up to the next byte. -/
theorem Writing.shortHeaderStuffing (h : Writing s l) :
    ∃ s', s.BitstreamShortHeaderByteAlignStuffing m = some ((8 - l.length % 8) % 8, s') ∧
      Writing s' (l ++ replicate ((8 - l.length % 8) % 8) false) ∧
      s'.bufferSize = s.bufferSize := by
  have hfits := h.fits
  obtain ⟨s₁, hs₁, h₁, hsize₁⟩ := h.putRest m (n := (8 - l.length % 8) % 8) (v := 0) (by omega)
    (by positivity) (by omega)
  obtain ⟨s₂, hs₂, h₂, hsize₂⟩ := h₁.saveStuffed m
  rw [ofNum_zero] at h₂
  refine ⟨s₂, ?_, h₂, hsize₂.trans hsize₁⟩
  simp only [BitstreamEncVideo.BitstreamShortHeaderByteAlignStuffing, h.restBits, hs₁, hs₂,
    bind_eq_bind, bind_some, Option.pure_def]

/-- **`BitstreamMpeg4ByteAlignStuffing`** puts a zero and ones up to the next byte. -/
theorem Writing.mpeg4Stuffing (h : Writing s l) (hroom : l.length + 1 ≤ 8 * s.bufferSize) :
    ∃ s', s.BitstreamMpeg4ByteAlignStuffing m = some (7 - l.length % 8, s') ∧
      Writing s' (l ++ false :: replicate (7 - l.length % 8) true) ∧
      s'.bufferSize = s.bufferSize := by
  obtain ⟨s₁, hs₁, h₁, hsize₁⟩ := h.putBits m (n := 1) (v := 0) (by decide) (by decide)
    (by decide) hroom
  have hlen₁ : (l ++ ofNum 1 0).length = l.length + 1 := by rw [length_append, ofNum_length]
  have hrest : (8 - (l.length + 1) % 8) % 8 = 7 - l.length % 8 := by omega
  obtain ⟨hlt, hmask⟩ := mask_spec (n := 7 - l.length % 8) (by omega)
  obtain ⟨s₂, hs₂, h₂, hsize₂⟩ := h₁.putRest m (n := 7 - l.length % 8) (by omega) hlt
    (by rw [hlen₁, hsize₁]; omega)
  obtain ⟨s₃, hs₃, h₃, hsize₃⟩ := h₂.saveStuffed m
  rw [hmask, append_assoc] at h₃
  refine ⟨s₃, ?_, h₃, hsize₃.trans (hsize₂.trans hsize₁)⟩
  have hbits := h₁.restBits
  rw [hlen₁, hrest] at hbits
  simp only [BitstreamEncVideo.BitstreamMpeg4ByteAlignStuffing, hs₁, map_some, hbits, hs₂,
    hs₃, bind_eq_bind, bind_some, Option.pure_def]

theorem Writing.saved (h : Writing t k) :
    t.saved = some (t.bitstreamBuffer.take t.byteCount) ∧
      (t.bitstreamBuffer.take t.byteCount).length = t.byteCount := by
  have hle : t.byteCount ≤ t.bitstreamBuffer.length := by
    rw [← h.size]
    exact h.count_le
  exact ⟨if_pos hle, by rw [length_take, Nat.min_eq_left hle]⟩

/-- **`BitstreamAppendPacket`** behind a stream without pending bits. -/
theorem Writing.appendPacket (h : Writing s l) (ht : Writing t k) (h32 : s.bitLeft = 32)
    (hroom : l.length + k.length ≤ 8 * s.bufferSize) :
    ∃ s', s.BitstreamAppendPacket m t = some (true, s') ∧ Writing s' (l ++ k) ∧
      s'.bufferSize = s.bufferSize := by
  have hlen := h.length
  have hlent := ht.length
  obtain ⟨hsaved, hcount⟩ := ht.saved
  obtain ⟨buffer, hstore, hlenb, htake⟩ := store_spec s.bitstreamBuffer
    s.byteCount (t.bitstreamBuffer.take t.byteCount) (by rw [hcount, ← h.size]; omega)
  refine ⟨{ s with
    bitstreamBuffer := buffer, byteCount := s.byteCount + t.byteCount, word := t.word
    bitLeft := t.bitLeft }, ?_, ⟨h.size.trans hlenb.symm, ?_, ht.left_pos, ht.left_le, ?_, ?_, ?_⟩,
    rfl⟩
  · simp only [BitstreamEncVideo.BitstreamAppendPacket,
      room_eq m (show s.byteCount + t.byteCount ≤ s.bufferSize by omega), if_true, hsaved, hstore,
      bind_eq_bind, bind_some, Option.pure_def]
  · show s.byteCount + t.byteCount ≤ s.bufferSize
    omega
  · rw [length_append]
    exact hroom
  · have hl : l = bits (s.bitstreamBuffer.take s.byteCount) := by
      have := h.holds
      rw [HoldsBits, h32, Nat.sub_self, ofNum, append_nil] at this
      exact this
    rw [hcount] at htake
    show l ++ k = bits (buffer.take (s.byteCount + t.byteCount)) ++ ofNum (32 - t.bitLeft) t.word
    rw [htake, bits_append, append_assoc, ← hl]
    exact congrArg (l ++ ·) ht.holds
  · intro hall
    rw [hcount] at htake
    have hecho := ht.echo hall
    show t.word % 2 ^ 8 ||| lastByte (buffer.take (s.byteCount + t.byteCount)) =
      lastByte (buffer.take (s.byteCount + t.byteCount))
    rw [htake]
    by_cases hnil : t.bitstreamBuffer.take t.byteCount = []
    · have hzero : t.word % 2 ^ 8 = 0 := by
        rw [hnil] at hecho
        exact (Nat.or_eq_zero_iff.mp hecho).1
      rw [hzero, zero_or]
    · rw [lastByte_append _ hnil]
      exact hecho

/-- No bits are put: what is or-ed to the word is already there. -/
theorem Writing.putNone (h : Writing s l) {v : Nat} (hleft : s.bitLeft ≤ 31)
    (hv : s.word % 2 ^ (32 - s.bitLeft) ||| v % 2 ^ (32 - s.bitLeft) =
      s.word % 2 ^ (32 - s.bitLeft)) :
    ∃ s', s.BitstreamPutBits m 0 v = some (true, s') ∧ Writing s' l ∧
      s'.bufferSize = s.bufferSize := by
  have hpos := h.left_pos
  refine ⟨_, if_pos hpos, ⟨h.size, h.count_le, hpos, h.left_le, h.fits, ?_, ?_⟩, rfl⟩
  · have hsame : ofNum (32 - s.bitLeft) (m.shl s.word 0 ||| v) = ofNum (32 - s.bitLeft) s.word := by
      rw [shl_eq_of_lt m _ (by decide), Nat.shiftLeft_zero, ← ofNum_mod, Nat.or_mod_two_pow,
        mod_mod_of_dvd _ (pow_dvd_pow 2 (by omega)), hv, ofNum_mod]
    show l = _ ++ ofNum (32 - (s.bitLeft - 0)) (m.shl s.word 0 ||| v)
    rw [Nat.sub_zero, hsame]
    exact h.holds
  · show s.bitLeft - 0 = 32 → _
    omega

/-- The bits of a word that the last byte has are in the fraction behind that byte. -/
theorem fraction_or {f : Nat} (hf : f ≤ 7) {out bytes : List UInt8} {p l' : List Bool}
    (hl' : l'.length = f) (hbits : bits out ++ l' = p ++ bits bytes) {w : Nat}
    (hw : w % 2 ^ 8 ||| lastByte bytes = lastByte bytes) : num l' ||| w % 2 ^ f = num l' := by
  have hdvd : 2 ^ f ∣ 2 ^ 8 := pow_dvd_pow 2 (by omega)
  rcases eq_nil_or_concat bytes with rfl | ⟨init, b, rfl⟩
  · have hzero : w % 2 ^ 8 = 0 := (Nat.or_eq_zero_iff.mp hw).1
    rw [← mod_mod_of_dvd w hdvd, hzero, zero_mod, Nat.or_zero]
  · rw [concat_eq_append] at hw hbits
    have hlast : lastByte (init ++ [b]) = b.toNat := lastByte_append init (cons_ne_nil b [])
    have hdrop : ((octetBits b).drop (8 - f)).length = f := by
      rw [length_drop, octetBits_length]
      omega
    have hl : l' = (octetBits b).drop (8 - f) := by
      have hsplit : p ++ bits (init ++ [b]) =
          (p ++ bits init ++ (octetBits b).take (8 - f)) ++ (octetBits b).drop (8 - f) := by
        rw [bits_append, bits_cons, bits_nil, append_nil, append_assoc _ _
          (drop _ _), take_append_drop, append_assoc]
      rw [hsplit] at hbits
      exact (append_inj' hbits (hl'.trans hdrop.symm)).2
    have hnum : num l' = b.toNat % 2 ^ f := by
      have := num_mod ((octetBits b).take (8 - f)) ((octetBits b).drop (8 - f))
      rw [take_append_drop, num_octetBits, hdrop, ← hl] at this
      exact this.symm
    rw [hlast] at hw
    rw [hnum, ← mod_mod_of_dvd w hdvd, ← Nat.or_mod_two_pow, Nat.or_comm, hw]

/-- The unaligned append moves the bytes of the second stream behind the fraction of the first,
    and puts its pending bits. -/
theorem Writing.appendUnaligned (h : Writing s l) (ht : Writing t k) (offset : Nat)
    (hs1 : 25 ≤ s.bitLeft) (hs7 : s.bitLeft ≤ 31) (ht7 : 25 ≤ t.bitLeft)
    (hclean : t.bitLeft ≠ 32 → t.word < 2 ^ (32 - t.bitLeft)) (hoffset : offset ≤ 2)
    (hroom : l.length + k.length + 16 ≤ 8 * s.bufferSize) :
    ∃ s', s.appendUnaligned m t offset = some (true, s') ∧ Writing s' (l ++ k) ∧
      s'.bufferSize = s.bufferSize := by
  have hlen := h.length
  have hlent := ht.length
  have hleft := ht.left_le
  obtain ⟨f, hf⟩ : ∃ f, 32 - s.bitLeft = f := ⟨_, rfl⟩
  obtain ⟨hsaved, hcount⟩ := ht.saved
  have hfraction : ((s.word % 2 ^ 8) <<< (8 - f)) % 2 ^ 8 = word 8 (ofNum f s.word) := by
    have hpow : 2 ^ 8 = 2 ^ f * 2 ^ (8 - f) := by
      rw [← pow_add]
      congr 1
      omega
    rw [word, fit_eq_append (by rw [ofNum_length]; omega), num_append, num_replicate_false,
      num_ofNum, ofNum_length, length_replicate, shiftLeft_eq, Nat.add_zero]
    conv_lhs => rw [hpow, Nat.mul_mod_mul_right, mod_mod_of_dvd _ (Nat.dvd_mul_right _ _)]
  obtain ⟨out, l', hloop, hout, hl', hbits⟩ := appendLoop_spec (f := f) (by omega) (by omega)
    (t.bitstreamBuffer.take t.byteCount) (ofNum_length f s.word)
  rw [hcount] at hout
  obtain ⟨buffer, hstore, hlenb, htake⟩ := store_spec s.bitstreamBuffer
    s.byteCount out (by rw [hout, ← h.size]; omega)
  rw [hout] at htake
  have hword : word 8 l' >>> (8 - f) = num l' := by
    rw [word_shiftRight (by omega), ← hl', fit_eq_take (Nat.le_refl _), take_length]
  obtain ⟨moved, hmoved⟩ : ∃ moved : BitstreamEncVideo, moved =
      { s with
        bitstreamBuffer := buffer, byteCount := s.byteCount + t.byteCount
        word := word 8 l' >>> (8 - f) } := ⟨_, rfl⟩
  have hl : l = bits (s.bitstreamBuffer.take s.byteCount) ++ ofNum f s.word := by
    rw [← hf]
    exact h.holds
  have hmid : Writing moved (l ++ bits (t.bitstreamBuffer.take t.byteCount)) := by
    rw [hmoved]
    refine ⟨h.size.trans hlenb.symm, ?_, h.left_pos, h.left_le, ?_, ?_, ?_⟩
    · show s.byteCount + t.byteCount ≤ s.bufferSize
      omega
    · rw [length_append, bits_length, hcount]
      show _ ≤ 8 * s.bufferSize
      omega
    · show _ = bits (buffer.take (s.byteCount + t.byteCount)) ++
        ofNum (32 - s.bitLeft) (word 8 l' >>> (8 - f))
      have hlast : ofNum f (num l') = l' := by rw [← hl', ofNum_num]
      rw [htake, hf, hword, hlast, bits_append, append_assoc, hbits, ← append_assoc, ← hl]
    · show s.bitLeft = 32 → _
      omega
  have hmidlen : (l ++ bits (t.bitstreamBuffer.take t.byteCount)).length =
      l.length + 8 * t.byteCount := by
    rw [length_append, bits_length, hcount]
  have hmsize : moved.bufferSize = s.bufferSize := by rw [hmoved]
  have hmleft : moved.bitLeft = s.bitLeft := by rw [hmoved]
  have hmword : moved.word = num l' := by rw [hmoved, ← hword]
  obtain ⟨s', hs', h', hsize'⟩ : ∃ s',
      moved.BitstreamPutBits m (32 - t.bitLeft) t.word = some (true, s') ∧
        Writing s' (l ++ bits (t.bitstreamBuffer.take t.byteCount) ++
          ofNum (32 - t.bitLeft) t.word) ∧ s'.bufferSize = moved.bufferSize := by
    by_cases h32 : t.bitLeft = 32
    · rw [h32, Nat.sub_self, ofNum, append_nil]
      refine hmid.putNone m (by omega) ?_
      have hnum : num l' % 2 ^ f = num l' := by
        rw [← hl']
        exact Nat.mod_eq_of_lt (num_lt l')
      rw [hmleft, hf, hmword, hnum]
      exact fraction_or (by omega) hl' hbits (ht.echo h32)
    · exact hmid.putBits m (by omega) (by omega) (hclean h32) (by rw [hmidlen, hmsize]; omega)
  refine ⟨s', ?_, ?_, hsize'.trans hmsize⟩
  · simp only [BitstreamEncVideo.appendUnaligned,
      room_eq m (show s.byteCount + (t.byteCount + offset) ≤ s.bufferSize by omega), if_true,
      hsaved, hf, hfraction, hloop, hstore, ← hmoved, hs', bind_eq_bind, bind_some]
  · rw [append_assoc] at h'
    have hk : bits (t.bitstreamBuffer.take t.byteCount) ++ ofNum (32 - t.bitLeft) t.word = k :=
      ht.holds.symm
    rw [hk] at h'
    exact h'

/-- **`BitstreamAppendEnc`** at any offset. -/
theorem Writing.appendEnc (h : Writing s l) (ht : Writing t k)
    (hroom : l.length + k.length + 16 ≤ 8 * s.bufferSize) :
    ∃ s' t', s.BitstreamAppendEnc m t = some (true, s', t') ∧ Writing s' (l ++ k) ∧
      s'.bufferSize = s.bufferSize ∧ Writing t' k ∧ t'.bufferSize = t.bufferSize := by
  have hlen := h.length
  obtain ⟨s₁, hs₁, h₁, hsize₁, -, hleft₁, -⟩ := h.savePartial m
  obtain ⟨t₁, ht₁, h₂, hsize₂, -, hleft₂, hword₂⟩ := ht.savePartial m
  unfold BitstreamEncVideo.BitstreamAppendEnc
  simp only [hs₁, ht₁, bind_eq_bind, bind_some]
  by_cases h0 : l.length % 8 = 0
  · obtain ⟨s', hs', h', hsize'⟩ := h₁.appendPacket m h₂ (by omega) (by omega)
    refine ⟨s', t₁, ?_, h', hsize'.trans hsize₁, h₂, hsize₂⟩
    have hoff : (if l.length % 8 ≠ 0 then 1 else 0) = 0 := if_neg (not_not_intro h0)
    simp only [hoff, if_true, hs', bind_some, Option.pure_def]
  · have hclean : t₁.bitLeft ≠ 32 → t₁.word < 2 ^ (32 - t₁.bitLeft) := by
      intro hne
      have hsub : 32 - t₁.bitLeft = k.length % 8 := by omega
      rw [hsub]
      exact hword₂ (by omega)
    obtain ⟨s', hs', h', hsize'⟩ := h₁.appendUnaligned m h₂
      (1 + if k.length % 8 ≠ 0 then 1 else 0) (by omega) (by omega) (by omega) hclean
      (by split <;> omega) (by omega)
    refine ⟨s', t₁, ?_, h', hsize'.trans hsize₁, h₂, hsize₂⟩
    have hoff : (if l.length % 8 ≠ 0 then 1 else 0) = 1 := if_pos h0
    simp only [hoff, Nat.one_ne_zero, if_false, hs', bind_some, Option.pure_def]

end Stream

/-! ## 5. Runs -/

section Kept

variable {ι : Type*} [DecidableEq ι] {size : ι → Nat} {e : Encoding ι} (m : Host)

/-- Every stream holds what was written to it, in the buffer it was created with. -/
def Kept (size : ι → Nat) (e : Encoding ι) : Prop :=
  ∀ i, Writing (e.streams i) (e.written i) ∧ (e.streams i).bufferSize = size i

omit [DecidableEq ι] in
theorem Kept.created (size : ι → Nat) : Kept size (.created size) :=
  fun i => ⟨.created (size i), rfl⟩

theorem Kept.update (h : Kept size e) (i : ι) {s : BitstreamEncVideo} {l : List Bool}
    (hs : Writing s l) (hsize : s.bufferSize = (e.streams i).bufferSize) :
    Kept size ⟨Function.update e.streams i s, Function.update e.written i l⟩ := by
  intro j
  by_cases hj : j = i
  · subst hj
    simp only [Function.update_self]
    exact ⟨hs, hsize.trans (h j).2⟩
  · simp only [Function.update_of_ne hj]
    exact h j

/-- A stream changes that holds the same bits as before. -/
theorem Kept.update_same (h : Kept size e) (i : ι) {s : BitstreamEncVideo}
    (hs : Writing s (e.written i)) (hsize : s.bufferSize = (e.streams i).bufferSize) :
    Kept size ⟨Function.update e.streams i s, e.written⟩ := by
  have := h.update i hs hsize
  rwa [Function.update_eq_self] at this

/-- **One call** succeeds and keeps the bits. -/
theorem Kept.call (h : Kept size e) {c : EncCall ι} (hc : EncFits e c) :
    ∃ streams, encCall m e.streams c = some (true, streams) ∧
      Kept size ⟨streams, writes e.written c⟩ := by
  cases c with
  | putBits i n v =>
    obtain ⟨h1, h16, hv, hroom⟩ := hc
    obtain ⟨s', hs', h', hsize⟩ := (h i).1.putBits m h1 h16 hv hroom
    exact ⟨_, by rw [encCall, hs', map_some], h.update i h' hsize⟩
  | putGT16Bits i n v =>
    obtain ⟨h17, h32, hv, hroom⟩ := hc
    obtain ⟨s', hs', h', hsize⟩ := (h i).1.putGT16Bits m h17 h32 hv hroom
    exact ⟨_, by rw [encCall, hs', map_some], h.update i h' hsize⟩
  | savePartial i =>
    obtain ⟨s', hs', h', hsize, -⟩ := (h i).1.savePartial m
    exact ⟨_, by rw [encCall, hs', map_some]; rfl, h.update_same i h' hsize⟩
  | shortHeaderStuffing i =>
    obtain ⟨s', hs', h', hsize⟩ := (h i).1.shortHeaderStuffing m
    exact ⟨_, by rw [encCall, hs', map_some], h.update i h' hsize⟩
  | mpeg4Stuffing i =>
    obtain ⟨s', hs', h', hsize⟩ := (h i).1.mpeg4Stuffing m hc
    exact ⟨_, by rw [encCall, hs', map_some], h.update i h' hsize⟩
  | appendEnc i j =>
    obtain ⟨hij, hroom⟩ := hc
    obtain ⟨s', t', hs', h', hsize, ht', hsizet⟩ := (h i).1.appendEnc m (h j).1 hroom
    refine ⟨_, by rw [encCall, hs', map_some], ?_⟩
    have hi := h.update i h' hsize
    have hj : j ≠ i := fun he => hij he.symm
    have htj : Writing t' (Function.update e.written i (e.written i ++ e.written j) j) := by
      rw [Function.update_of_ne hj]
      exact ht'
    refine hi.update_same j htj ?_
    show t'.bufferSize = (Function.update e.streams i s' j).bufferSize
    rw [Function.update_of_ne hj]
    exact hsizet
  | appendPacket i j =>
    obtain ⟨-, hroom, h32⟩ := hc
    obtain ⟨s', hs', h', hsize⟩ := (h i).1.appendPacket m (h j).1 h32 hroom
    exact ⟨_, by rw [encCall, hs', map_some], h.update i h' hsize⟩

/-- **The bits of all streams.** For streams of any buffer sizes and every run of calls that fit:
    in every state reached, each stream's bytes and used bits are exactly the bits written to it,
    in order, within its buffer; and every next call that fits is made and succeeds. -/
theorem bits_kept {calls : List (EncCall ι)}
    (h : Run (onlyWhen EncFits (stepsOf (encStep m))) (.created size) calls e) :
    (∀ i, HoldsBits (e.streams i) (e.written i) ∧
      (e.streams i).byteCount ≤ (e.streams i).bufferSize ∧ (e.streams i).bufferSize = size i) ∧
    ∀ c, EncFits e c → ∃ streams, encCall m e.streams c = some (true, streams) := by
  have hkept : Kept size e := by
    refine h.invariant (Kept.created size) ?_
    intro e c e' he hstep
    obtain ⟨streams, hcall, hnext⟩ := he.call m hstep.1
    have hs : encStep m e c = some e' := hstep.2
    rw [encStep, hcall, map_some] at hs
    cases hs
    exact hnext
  refine ⟨fun i => ⟨(hkept i).1.holds, (hkept i).1.count_le, (hkept i).2⟩, ?_⟩
  intro c hc
  obtain ⟨streams, hcall, -⟩ := hkept.call m hc
  exact ⟨streams, hcall⟩

end Kept

/-- A machine that takes the count of a shift modulo 32, with no more buffer than there is. -/
def maskingHost : Host where
  left32 := id
  right32 := id
  left32_eq _ := .inl rfl
  right32_eq _ := .inl rfl
  BitstreamUseOverrunBuffer s _ := (false, s)

/-- Two streams: the second one is stuffed and put behind 25 bits of the first. -/
theorem bits_kept_two :
    ∃ e, execAll (guarded EncFits (encStep maskingHost)) (.created fun _ : Bool => 16)
        [.putBits false 9 0x1FF, .putBits false 16 0xABCD, .putGT16Bits true 31 0x12345678,
          .mpeg4Stuffing true, .putBits true 3 5, .appendEnc false true] = some e ∧
      (∀ i, HoldsBits (e.streams i) (e.written i) ∧
        (e.streams i).byteCount ≤ (e.streams i).bufferSize ∧ (e.streams i).bufferSize = 16) ∧
      ∀ c, EncFits e c → ∃ streams, encCall maskingHost e.streams c = some (true, streams) := by
  obtain ⟨e, he⟩ := isSome_iff_exists.mp
    (show (execAll (guarded EncFits (encStep maskingHost)) (.created fun _ : Bool => 16)
        [.putBits false 9 0x1FF, .putBits false 16 0xABCD, .putGT16Bits true 31 0x12345678,
          .mpeg4Stuffing true, .putBits true 3 5, .appendEnc false true]).isSome = true by
      decide +kernel)
  exact ⟨e, he, bits_kept maskingHost (.of_guarded he)⟩

instance decidableHoldsBits (s : BitstreamEncVideo) (l : List Bool) : Decidable (HoldsBits s l) :=
  inferInstanceAs (Decidable (_ = _))

/-- A packet is appended behind pending bits, three or eight of them: they are lost. -/
theorem appendPacket_loses_bits :
    (execAll (encStep maskingHost) (.created fun _ : Bool => 16)
        [.putBits false 3 5, .putBits true 8 0, .appendPacket false true]).map
      (fun e => decide (HoldsBits (e.streams false) (e.written false))) = some false ∧
    (execAll (encStep maskingHost) (.created fun _ : Bool => 16)
        [.putBits false 8 0xFF, .putBits true 8 0, .appendPacket false true]).map
      (fun e => decide (HoldsBits (e.streams false) (e.written false))) = some false := by
  decide +kernel

end OpenCore.M4vH263
