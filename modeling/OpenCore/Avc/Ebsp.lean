/-
  File:      OpenCore/Avc/Ebsp.lean
  Subject:   EMULATION PREVENTION: the encoder's bit writer puts 03 bytes between the bytes of an
             RBSP, the decoder takes them out in place.

  The writer collects bits in a word, and counts zero bytes while it saves the word; the bytes it
  leaves are those of `encoderRule`. The decoder skips a 03 behind two zero bytes and copies the
  byte behind it, without looking whether there is one.

  **Main result**: `EBSPtoRBSP_iff`.
-/
import OpenCore.Lib.Run
import OpenCore.Lib.MsbBits

namespace OpenCore.Avc

open MsbBits List

/-! ## 1. The encoder's bit writer -/

/-- Whether the overrun buffer is absent, in reserve or in use. -/
inductive Overrun where
  | absent
  | spare
  | used
  deriving DecidableEq, Repr

/-- `AVCEncBitstream`; `write_pos` is the number of bytes in the buffer. A stream that is written to
    after a failure can have `bit_left` below zero. -/
structure AVCEncBitstream where
  bitstreamBuffer : List UInt8
  buf_size : Int
  count_zeros : Nat
  current_word : Nat
  bit_left : Int
  overrunBuffer : Overrun
  oBSize : Int
  deriving DecidableEq, Repr

namespace AVCEncBitstream

/-- `BitstreamEncInit`. -/
def init (buf_size : Int) (overrunBuffer : Overrun) (oBSize : Int) : AVCEncBitstream where
  bitstreamBuffer := []
  buf_size := buf_size
  count_zeros := 0
  current_word := 0
  bit_left := 32
  overrunBuffer := overrunBuffer
  oBSize := oBSize

/-- The size of a new overrun buffer: a multiple of 4. -/
def newSize (s : AVCEncBitstream) (numExtraBytes : Nat) : Int :=
  let n : Int := s.bitstreamBuffer.length + numExtraBytes + 100
  n - n % 4

/-- `AVCBitstreamUseOverrunBuffer`; `malloc` is the callback that allocates. -/
def AVCBitstreamUseOverrunBuffer (malloc : Int → Bool) (s : AVCEncBitstream)
    (numExtraBytes : Nat) : Bool × AVCEncBitstream :=
  match s.overrunBuffer with
  | .absent => (false, s)
  | .spare =>
    if (s.bitstreamBuffer.length : Int) + numExtraBytes ≥ s.oBSize then
      let s := { s with oBSize := s.newSize numExtraBytes }
      if malloc s.oBSize then (true, { s with overrunBuffer := .used, buf_size := s.oBSize })
      else (false, { s with overrunBuffer := .absent })
    else (true, { s with overrunBuffer := .used, buf_size := s.oBSize })
  | .used =>
    let s := { s with oBSize := s.newSize numExtraBytes }
    if malloc s.oBSize then (true, { s with buf_size := s.oBSize }) else (false, s)

/-- One turn of the loop of `AVCBitstreamSaveWord`: a byte, and 03 behind the second zero. -/
def put (s : AVCEncBitstream) (byte : UInt8) : AVCEncBitstream :=
  if byte ≠ 0 then
    { s with bitstreamBuffer := s.bitstreamBuffer ++ [byte], count_zeros := 0 }
  else if s.count_zeros + 1 = 2 then
    { s with bitstreamBuffer := s.bitstreamBuffer ++ [byte, 0x3], count_zeros := 0 }
  else
    { s with bitstreamBuffer := s.bitstreamBuffer ++ [byte], count_zeros := s.count_zeros + 1 }

/-- The loop of `AVCBitstreamSaveWord`, for so many bytes of the word. -/
def saveBytes : Nat → Nat → AVCEncBitstream → AVCEncBitstream
  | 0, _, s => s
  | n + 1, current_word, s =>
    saveBytes n current_word (s.put (UInt8.ofNat ((current_word >>> (8 * n)) &&& 0xFF)))

/-- `AVCBitstreamSaveWord`, for a word of whole bytes. -/
def AVCBitstreamSaveWord (malloc : Int → Bool) (s : AVCEncBitstream) : Bool × AVCEncBitstream :=
  let num_bits := (32 - s.bit_left).toNat
  let room := if s.buf_size - s.bitstreamBuffer.length ≤ ((num_bits >>> 3) + 2 : Nat) then
      s.AVCBitstreamUseOverrunBuffer malloc ((num_bits >>> 3) + 2)
    else (true, s)
  if room.1 then
    (true, { saveBytes (num_bits >>> 3) s.current_word room.2 with
      current_word := 0, bit_left := 32 })
  else room

def BitstreamWriteBits (malloc : Int → Bool) (s : AVCEncBitstream) (nBits code : Nat) :
    Bool × AVCEncBitstream :=
  if nBits > 32 then (false, s)
  else if nBits ≤ s.bit_left then
    let s := { s with
      current_word := ((s.current_word <<< nBits) ||| code) % 2 ^ 32
      bit_left := s.bit_left - nBits }
    if s.bit_left = 0 then s.AVCBitstreamSaveWord malloc else (true, s)
  else
    let left := (nBits - s.bit_left).toNat
    let r := AVCBitstreamSaveWord malloc { s with
      current_word := ((s.current_word <<< s.bit_left.toNat) ||| (code >>> left)) % 2 ^ 32
      bit_left := 0 }
    (r.1, { r.2 with bit_left := 32 - left, current_word := code })

def BitstreamWrite1Bit (malloc : Int → Bool) (s : AVCEncBitstream) (code : Nat) :
    Bool × AVCEncBitstream :=
  let s := { s with
    current_word := ((s.current_word <<< 1) ||| code) % 2 ^ 32, bit_left := s.bit_left - 1 }
  if s.bit_left = 0 then s.AVCBitstreamSaveWord malloc else (true, s)

def trailing_bits (n : Nat) : Nat := [0, 0x1, 0x2, 0x4, 0x8, 0x10, 0x20, 0x40, 0x80].getD n 0

def BitstreamTrailingBits (malloc : Int → Bool) (s : AVCEncBitstream) : Bool × AVCEncBitstream :=
  let bit_left := if s.bit_left % 8 = 0 then 8 else (s.bit_left % 8).toNat
  let r := s.BitstreamWriteBits malloc bit_left (trailing_bits bit_left)
  if r.1 then r.2.AVCBitstreamSaveWord malloc else r

end AVCEncBitstream

/-- The calls of the bit writer. -/
inductive WriteCall where
  | bits (nBits code : Nat)
  | bit (code : Nat)
  | trailing

/-- One call: its status, and the stream behind it. -/
def writeCall (malloc : Int → Bool) (s : AVCEncBitstream) : WriteCall → Bool × AVCEncBitstream
  | .bits nBits code => s.BitstreamWriteBits malloc nBits code
  | .bit code => s.BitstreamWrite1Bit malloc code
  | .trailing => s.BitstreamTrailingBits malloc

/-- The stream after a sequence of calls, whatever their statuses. -/
def writeAll (malloc : Int → Bool) (s : AVCEncBitstream) (calls : List WriteCall) :
    AVCEncBitstream :=
  calls.foldl (fun s c => (writeCall malloc s c).2) s

/-! ## 2. The decoder -/

/-- The loop of `EBSPtoRBSP` on the buffer `nal_unit` of `size` bytes; `none` when it reads outside
    of it. -/
def ebspLoop : Nat → List UInt8 → Nat → Nat → Nat → Option (List UInt8 × Nat)
  | 0, nal_unit, _, j, _ => some (nal_unit, j)
  | fuel + 1, nal_unit, i, j, count =>
    if i < nal_unit.length then do
      let skip := count = 2 ∧ nal_unit[i]? = some 0x03
      let i := if skip then i + 1 else i
      let count := if skip then 0 else count
      let b ← nal_unit[i]?
      ebspLoop fuel (nal_unit.set j b) (i + 1) (j + 1) (if b = 0 then count + 1 else 0)
    else some (nal_unit, j)

/-- `EBSPtoRBSP`: the buffer after it, and the new size. -/
def EBSPtoRBSP (nal_unit : List UInt8) : Option (List UInt8 × Nat) :=
  ebspLoop (nal_unit.length + 1) nal_unit 0 0 0

/-! ## 3. The rules of emulation prevention -/

/-- The number of zero bytes the encoder has counted after a byte. -/
def nextCount (count : Nat) (b : UInt8) : Nat :=
  if b ≠ 0 then 0 else if count + 1 = 2 then 0 else count + 1

/-- The encoder's rule: 03 behind every two zero bytes. -/
def encoderRule : Nat → List UInt8 → List UInt8
  | _, [] => []
  | count, b :: l =>
    (if b = 0 ∧ count + 1 = 2 then [b, 0x3] else [b]) ++ encoderRule (nextCount count b) l

/-- The standard's rule: 03 before a byte up to 03 that follows two zero bytes, and behind two zero
    bytes at the end. -/
def standardRule : Nat → List UInt8 → List UInt8
  | count, [] => if count = 2 then [0x3] else []
  | count, b :: l =>
    if count = 2 ∧ b ≤ 3 then 0x3 :: b :: standardRule (if b = 0 then 1 else 0) l
    else b :: standardRule (if b = 0 then count + 1 else 0) l

/-- The zero bytes at the end. -/
def zerosAtEnd (l : List UInt8) : Nat := (l.reverse.takeWhile (· = 0)).length

/-! ## 4. What the writer leaves -/

/-- The count after a list of bytes. -/
def countAfter (count : Nat) (l : List UInt8) : Nat := l.foldl nextCount count

theorem encoderRule_append (count : Nat) (l m : List UInt8) :
    encoderRule count (l ++ m) = encoderRule count l ++ encoderRule (countAfter count l) m := by
  induction l generalizing count with
  | nil => rfl
  | cons b l ih =>
    rw [cons_append, encoderRule, ih, encoderRule, append_assoc]
    rfl

theorem countAfter_append (count : Nat) (l m : List UInt8) :
    countAfter count (l ++ m) = countAfter (countAfter count l) m := foldl_append

/-- The buffer holds some bytes under the encoder's rule. -/
def Emulated (s : AVCEncBitstream) (raw : List UInt8) : Prop :=
  s.bitstreamBuffer = encoderRule 0 raw ∧ s.count_zeros = countAfter 0 raw

variable {s : AVCEncBitstream} {raw : List UInt8}

theorem Emulated.put (h : Emulated s raw) (b : UInt8) :
    Emulated (s.put b) (raw ++ [b]) := by
  obtain ⟨h1, h2⟩ := h
  have e : encoderRule 0 (raw ++ [b]) =
      encoderRule 0 raw ++ if b = 0 ∧ countAfter 0 raw + 1 = 2 then [b, 0x3] else [b] := by
    rw [encoderRule_append, encoderRule, encoderRule, append_nil]
  have ec : countAfter 0 (raw ++ [b]) = nextCount (countAfter 0 raw) b := by
    rw [countAfter_append]
    rfl
  rw [Emulated, e, ec, ← h1, ← h2]
  unfold AVCEncBitstream.put nextCount
  by_cases hb : b = 0
  · by_cases hc : s.count_zeros + 1 = 2
    · simp [hb, hc]
    · simp [hb, hc]
  · simp [hb]

/-- The bytes of a word, highest first. -/
def wordBytes : Nat → Nat → List UInt8
  | 0, _ => []
  | n + 1, w => UInt8.ofNat ((w >>> (8 * n)) &&& 0xFF) :: wordBytes n w

theorem Emulated.saveBytes (h : Emulated s raw)
    (n w : Nat) : Emulated (AVCEncBitstream.saveBytes n w s) (raw ++ wordBytes n w) := by
  induction n generalizing s raw with
  | zero =>
    rw [wordBytes, append_nil]
    exact h
  | succ n ih =>
    have := ih (h.put (UInt8.ofNat ((w >>> (8 * n)) &&& 0xFF)))
    rw [append_assoc] at this
    exact this

theorem useOverrun_frame (malloc : Int → Bool) (s : AVCEncBitstream) (n : Nat) :
    let r := s.AVCBitstreamUseOverrunBuffer malloc n
    r.2.bitstreamBuffer = s.bitstreamBuffer ∧ r.2.count_zeros = s.count_zeros ∧
      r.2.current_word = s.current_word ∧ r.2.bit_left = s.bit_left := by
  intro r
  simp only [r, AVCEncBitstream.AVCBitstreamUseOverrunBuffer]
  split
  · simp
  · split
    · split <;> simp
    · simp
  · split <;> simp

/-- Saving a word: make room without touching the bytes, then save the bytes of the word. -/
theorem saveWord_eq (malloc : Int → Bool) (s : AVCEncBitstream) :
    ∃ room : Bool × AVCEncBitstream,
      (room.2.bitstreamBuffer = s.bitstreamBuffer ∧ room.2.count_zeros = s.count_zeros) ∧
      s.AVCBitstreamSaveWord malloc =
        if room.1 then
          (true, {
            AVCEncBitstream.saveBytes ((32 - s.bit_left).toNat >>> 3) s.current_word room.2 with
            current_word := 0, bit_left := 32 })
        else room := by
  refine ⟨if s.buf_size - s.bitstreamBuffer.length ≤
        (((32 - s.bit_left).toNat >>> 3) + 2 : Nat) then
      s.AVCBitstreamUseOverrunBuffer malloc (((32 - s.bit_left).toNat >>> 3) + 2)
    else (true, s), ?_, rfl⟩
  split
  · have := useOverrun_frame malloc s ((32 - s.bit_left).toNat >>> 3 + 2)
    exact ⟨this.1, this.2.1⟩
  · exact ⟨rfl, rfl⟩

/-- Saving a word adds its bytes, or none when there is no room. -/
theorem Emulated.saveWord (h : Emulated s raw)
    (malloc : Int → Bool) :
    Emulated (s.AVCBitstreamSaveWord malloc).2 (raw ++
      if (s.AVCBitstreamSaveWord malloc).1 then
        wordBytes ((32 - s.bit_left).toNat >>> 3) s.current_word
      else []) := by
  obtain ⟨room, ⟨hb, hc⟩, e⟩ := saveWord_eq malloc s
  have hE : Emulated room.2 raw := ⟨hb.trans h.1, hc.trans h.2⟩
  rw [e]
  by_cases h1 : room.1 = true
  · rw [if_pos h1]
    exact hE.saveBytes _ _
  · rw [if_neg h1, if_neg h1, append_nil]
    exact hE

/-- Whatever is called, the buffer holds bytes under the encoder's rule. -/
theorem Emulated.writeBits (h : Emulated s raw)
    (malloc : Int → Bool) (nBits code : Nat) :
    ∃ raw', Emulated (s.BitstreamWriteBits malloc nBits code).2 raw' := by
  unfold AVCEncBitstream.BitstreamWriteBits
  split
  · exact ⟨raw, h⟩
  · split
    · simp only
      split
      · exact ⟨_, Emulated.saveWord (s := { s with
          current_word := ((s.current_word <<< nBits) ||| code) % 2 ^ 32
          bit_left := s.bit_left - nBits }) h malloc⟩
      · exact ⟨raw, h⟩
    · exact ⟨_, Emulated.saveWord (s := { s with
        current_word := ((s.current_word <<< s.bit_left.toNat) |||
          (code >>> ((nBits : Int) - s.bit_left).toNat)) % 2 ^ 32
        bit_left := 0 }) h malloc⟩

theorem Emulated.writeCall (h : Emulated s raw)
    (malloc : Int → Bool) (c : WriteCall) :
    ∃ raw', Emulated (writeCall malloc s c).2 raw' := by
  cases c with
  | bits nBits code => exact h.writeBits malloc nBits code
  | bit code =>
    show ∃ raw', Emulated (s.BitstreamWrite1Bit malloc code).2 raw'
    unfold AVCEncBitstream.BitstreamWrite1Bit
    simp only
    split
    · exact ⟨_, Emulated.saveWord (s := { s with
        current_word := ((s.current_word <<< 1) ||| code) % 2 ^ 32
        bit_left := s.bit_left - 1 }) h malloc⟩
    · exact ⟨raw, h⟩
  | trailing =>
    show ∃ raw', Emulated (s.BitstreamTrailingBits malloc).2 raw'
    unfold AVCEncBitstream.BitstreamTrailingBits
    simp only
    generalize (if s.bit_left % 8 = 0 then 8 else (s.bit_left % 8).toNat) = n
    obtain ⟨raw', h'⟩ := h.writeBits malloc n (AVCEncBitstream.trailing_bits n)
    split
    · exact ⟨_, h'.saveWord malloc⟩
    · exact ⟨raw', h'⟩

theorem Emulated.writeAll (h : Emulated s raw)
    (malloc : Int → Bool) (calls : List WriteCall) :
    ∃ raw', Emulated (writeAll malloc s calls) raw' := by
  induction calls generalizing s raw with
  | nil => exact ⟨raw, h⟩
  | cons c calls ih =>
    obtain ⟨raw', h'⟩ := h.writeCall malloc c
    exact ih h'

variable {count : Nat} {l : List UInt8}

/-- Two zero bytes under the encoder's rule are followed by 03. -/
theorem encoderRule_zeros (hc : count < 2) {p q : List UInt8}
    (h : replicate count 0 ++ encoderRule count l = p ++ 0 :: 0 :: q) :
    ∃ t, q = 0x3 :: t := by
  induction l generalizing count p with
  | nil =>
    have hlen := congrArg length h
    simp [encoderRule] at hlen
    omega
  | cons b l ih =>
    obtain rfl | rfl : count = 0 ∨ count = 1 := by omega
    · by_cases hb : b = 0
      · have e : replicate 1 0 ++ encoderRule 1 l = p ++ 0 :: 0 :: q := by
          rw [← h, encoderRule, nextCount]
          simp [hb]
        exact ih (by decide) e
      · have e : b :: encoderRule 0 l = p ++ 0 :: 0 :: q := by
          rw [← h, encoderRule, nextCount]
          simp [hb]
        rcases p with _ | ⟨x, p⟩
        · exact absurd (cons.inj e).1 hb
        · exact ih (show 0 < 2 by decide) (cons.inj e).2
    · by_cases hb : b = 0
      · have e : 0 :: 0 :: 0x3 :: encoderRule 0 l = p ++ 0 :: 0 :: q := by
          rw [← h, encoderRule, nextCount]
          simp [hb]
        rcases p with _ | ⟨x, _ | ⟨y, _ | ⟨z, p⟩⟩⟩
        · exact ⟨_, ((cons.inj (cons.inj e).2).2).symm⟩
        · exact absurd (cons.inj (cons.inj (cons.inj e).2).2).1 (by decide)
        · exact absurd (cons.inj (cons.inj (cons.inj e).2).2).1 (by decide)
        · exact ih (show 0 < 2 by decide) (cons.inj (cons.inj (cons.inj e).2).2).2
      · have e : 0 :: b :: encoderRule 0 l = p ++ 0 :: 0 :: q := by
          rw [← h, encoderRule, nextCount]
          simp [hb]
        rcases p with _ | ⟨x, _ | ⟨y, p⟩⟩
        · exact absurd (cons.inj (cons.inj e).2).1 hb
        · exact absurd (cons.inj (cons.inj e).2).1 hb
        · exact ih (show 0 < 2 by decide) (cons.inj (cons.inj e).2).2

theorem encoderRule_clean {x : UInt8} (hx : x < 3) (raw : List UInt8) :
    ¬ [0, 0, x] <:+: encoderRule 0 raw := by
  rintro ⟨p, q, e⟩
  obtain ⟨t, ht⟩ := encoderRule_zeros (show 0 < 2 by decide) (l := raw) (p := p) (q := x :: q)
    (by simpa using e.symm)
  rw [(cons.inj ht).1] at hx
  exact absurd hx (by decide)

/-- No start code, and nothing else that is reserved, in what the writer leaves. -/
theorem writeAll_clean (malloc : Int → Bool) (buf_size : Int) (o : Overrun) (oBSize : Int)
    (calls : List WriteCall) {x : UInt8} (hx : x < 3) :
    ¬ [0, 0, x] <:+:
      (writeAll malloc (.init buf_size o oBSize) calls).bitstreamBuffer := by
  have h0 : Emulated (.init buf_size o oBSize) [] := ⟨rfl, rfl⟩
  obtain ⟨raw, h, -⟩ := h0.writeAll malloc calls
  rw [h]
  exact encoderRule_clean hx raw

/-! ## 5. The bits that are written -/

theorem bits_wordBytes (n w : Nat) : bits (wordBytes n w) = ofNum (8 * n) w := by
  induction n with
  | zero => rfl
  | succ n ih =>
    have hbyte : octetBits (UInt8.ofNat ((w >>> (8 * n)) &&& 0xFF)) =
        ofNum 8 (w / 2 ^ (8 * n)) := by
      have hand : (w >>> (8 * n)) &&& 0xFF = w / 2 ^ (8 * n) % 2 ^ 8 := by
        rw [Nat.shiftRight_eq_div_pow]
        exact Nat.and_two_pow_sub_one_eq_mod _ 8
      have hlt : w / 2 ^ (8 * n) % 2 ^ 8 < 256 := Nat.mod_lt _ (by decide)
      rw [octetBits, hand, UInt8.toNat_ofNat_of_lt' hlt, ofNum_mod]
    rw [wordBytes, bits_cons, ih, hbyte, Nat.mul_succ, Nat.add_comm, ofNum_split]

/-- The bits a call adds to the bits `l`. -/
def callBits (l : List Bool) : WriteCall → List Bool
  | .bits nBits code => ofNum nBits code
  | .bit code => ofNum 1 code
  | .trailing => true :: List.replicate (7 - l.length % 8) false

/-- The unused bits of a code are zero. -/
def WriteCall.Fits : WriteCall → Prop
  | .bits nBits code => code < 2 ^ nBits
  | .bit code => code < 2
  | .trailing => True

/-- The bits of a sequence of calls behind the bits `l`. -/
def allBits (l : List Bool) : List WriteCall → List Bool
  | [] => l
  | c :: calls => allBits (l ++ callBits l c) calls

/-! ## 6. What the decoder makes of it -/

/-- `EBSPtoRBSP` as a function of the bytes read: `none` when the byte behind a skipped 03 is
    missing. -/
def strip : Nat → List UInt8 → Option (List UInt8)
  | _, [] => some []
  | count, b :: l =>
    if count = 2 ∧ b = 0x3 then
      match l with
      | [] => none
      | c :: l => (strip (if c = 0 then 1 else 0) l).map (c :: ·)
    else (strip (if b = 0 then count + 1 else 0) l).map (b :: ·)

theorem strip_cons (count : Nat) (b : UInt8) (l : List UInt8) :
    strip count (b :: l) =
      if count = 2 ∧ b = 0x3 then
        match l with
        | [] => none
        | c :: l => (strip (if c = 0 then 1 else 0) l).map (c :: ·)
      else (strip (if b = 0 then count + 1 else 0) l).map (b :: ·) := by
  rw [strip.eq_def]

/-- Behind a skipped 03 the count begins anew. -/
theorem strip_three (hl : l ≠ []) : strip 2 (0x3 :: l) = strip 0 l := by
  rcases l with _ | ⟨c, l⟩
  · exact absurd rfl hl
  · rw [strip_cons, if_pos ⟨rfl, rfl⟩, strip_cons, if_neg (by simp)]

variable {b : UInt8}

theorem strip_copy (h : ¬ (count = 2 ∧ b = 0x3)) (l : List UInt8) :
    strip count (b :: l) = (strip (if b = 0 then count + 1 else 0) l).map (b :: ·) := by
  rw [strip_cons, if_neg h]

theorem set_behind (done junk rest : List UInt8) (hj : junk ≠ []) (b : UInt8) :
    (done ++ junk ++ rest).set done.length b = (done ++ [b]) ++ junk.tail ++ rest := by
  rcases junk with _ | ⟨x, junk⟩
  · exact absurd rfl hj
  · rw [append_assoc, set_append_right _ _ (Nat.le_refl _), Nat.sub_self]
    simp

/-- What the loop leaves of the bytes it has still to read. -/
def LoopLeaves (done : List UInt8) (r : Option (List UInt8 × Nat)) :
    Option (List UInt8) → Prop
  | none => r = none
  | some out => ∃ buf, r = some (buf, (done ++ out).length) ∧
      buf.take (done ++ out).length = done ++ out

theorem LoopLeaves.cons {done : List UInt8} {r : Option (List UInt8 × Nat)}
    {o : Option (List UInt8)} (h : LoopLeaves (done ++ [b]) r o) :
    LoopLeaves done r (o.map (b :: ·)) := by
  cases o with
  | none => exact h
  | some out =>
    have e : done ++ [b] ++ out = done ++ b :: out := by simp
    obtain ⟨buf, h1, h2⟩ := h
    rw [e] at h1 h2
    exact ⟨buf, h1, h2⟩

/-- The loop with two cursors reads the rest of the buffer as it was: the bytes it writes are
    always behind the cursor that reads. -/
theorem ebspLoop_strip (fuel : Nat) (done junk rest : List UInt8) (count : Nat)
    (hf : rest.length < fuel) :
    LoopLeaves done
      (ebspLoop fuel (done ++ junk ++ rest) (done.length + junk.length) done.length count)
      (strip count rest) := by
  induction fuel generalizing done junk rest count with
  | zero => omega
  | succ fuel ih =>
    have hi : (done ++ junk).length = done.length + junk.length := length_append
    rcases rest with _ | ⟨b, l⟩
    · have hend : ¬ done.length + junk.length < (done ++ junk ++ []).length := by simp
      rw [ebspLoop, if_neg hend, strip]
      exact ⟨done ++ junk, by simp, by simp⟩
    · have hin : done.length + junk.length < (done ++ junk ++ b :: l).length := by
        rw [length_append, hi, length_cons]
        omega
      have hb : (done ++ junk ++ b :: l)[done.length + junk.length]? = some b := by
        rw [← hi, getElem?_append_right (Nat.le_refl _), Nat.sub_self]
        rfl
      rw [ebspLoop, if_pos hin, strip_cons, hb]
      by_cases hskip : count = 2 ∧ b = 0x3
      · have hskip' : count = 2 ∧ some b = some 0x3 := ⟨hskip.1, by rw [hskip.2]⟩
        simp only [if_pos hskip, if_pos hskip']
        rcases l with _ | ⟨c, l⟩
        · have hc : (done ++ junk ++ [b])[done.length + junk.length + 1]? = none := by
            rw [getElem?_eq_none]
            rw [length_append, hi, length_singleton]
          rw [hc]
          rfl
        · have e : done ++ junk ++ b :: c :: l = done ++ (junk ++ [b, c]) ++ l := by simp
          have hc : (done ++ junk ++ b :: c :: l)[done.length + junk.length + 1]? = some c := by
            rw [← hi, getElem?_append_right (by omega), Nat.add_sub_cancel_left]
            rfl
          rw [hc, e]
          simp only [Option.bind_eq_bind, Option.bind_some]
          rw [set_behind _ _ _ (by simp)]
          have hl : done.length + junk.length + 1 + 1 =
              (done ++ [c]).length + (junk ++ [b, c]).tail.length := by simp; omega
          have hd : done.length + 1 = (done ++ [c]).length := by simp
          rw [hl, hd]
          exact (ih _ _ _ _ (by simp only [length_cons] at hf; omega)).cons
      · have hskip' : ¬ (count = 2 ∧ some b = some 0x3) := fun h =>
          hskip ⟨h.1, Option.some.inj h.2⟩
        have e : done ++ junk ++ b :: l = done ++ (junk ++ [b]) ++ l := by simp
        simp only [if_neg hskip, if_neg hskip', hb]
        rw [e]
        simp only [Option.bind_eq_bind, Option.bind_some]
        rw [set_behind _ _ _ (by simp)]
        have hl : done.length + junk.length + 1 =
            (done ++ [b]).length + (junk ++ [b]).tail.length := by simp; omega
        have hd : done.length + 1 = (done ++ [b]).length := by simp
        rw [hl, hd]
        exact (ih _ _ _ _ (by simp only [length_cons] at hf; omega)).cons

/-! ## 7. Rules and decoder together -/

/-- The unit `e` is turned into the RBSP `r` and its length, with no byte read outside of `e`. -/
def Recovers (e r : List UInt8) : Prop :=
  ∃ buf, EBSPtoRBSP e = some (buf, r.length) ∧ buf.take r.length = r

theorem recovers_iff (e r : List UInt8) : Recovers e r ↔ strip 0 e = some r := by
  have h := ebspLoop_strip (e.length + 1) [] [] e 0 (by omega)
  simp only [nil_append, length_nil, Nat.add_zero] at h
  cases hs : strip 0 e with
  | none =>
    rw [hs] at h
    have hn : EBSPtoRBSP e = none := h
    refine iff_of_false ?_ (by simp)
    rintro ⟨buf, hbuf, -⟩
    rw [hn] at hbuf
    exact absurd hbuf (by simp)
  | some out =>
    rw [hs] at h
    obtain ⟨buf, h1, h2⟩ := h
    rw [nil_append] at h1 h2
    constructor
    · rintro ⟨buf', h1', h2'⟩
      have he : some (buf, out.length) = some (buf', r.length) := h1.symm.trans h1'
      obtain ⟨rfl, hlen⟩ := Prod.mk.inj (Option.some.inj he)
      rw [← h2, ← h2', hlen]
    · intro ho
      cases ho
      exact ⟨buf, h1, h2⟩

theorem zerosAtEnd_zeros (n : Nat) : zerosAtEnd (replicate n 0) = n := by
  simp [zerosAtEnd]

/-- A byte that is not zero ends the count. -/
theorem zerosAtEnd_append (p : List UInt8) (hb : b ≠ 0) (l : List UInt8) :
    zerosAtEnd (p ++ b :: l) = zerosAtEnd l := by
  have e : (p ++ b :: l).reverse = l.reverse ++ ([b] ++ p.reverse) := by simp
  have hstop : takeWhile (· = 0) ([b] ++ p.reverse) = [] := by simp [hb]
  rw [zerosAtEnd, e, takeWhile_append, hstop]
  split
  · rename_i h
    rw [append_nil]
    exact h.symm
  · rfl

/-- Only zeros, or a byte that is not zero in front of the rest. -/
theorem zeros_or_split (l : List UInt8) :
    (∃ n, l = replicate n 0) ∨ ∃ p b m, l = p ++ b :: m ∧ b ≠ 0 := by
  induction l with
  | nil => exact .inl ⟨0, rfl⟩
  | cons a l ih =>
    by_cases ha : a = 0
    · rcases ih with ⟨n, rfl⟩ | ⟨p, b, m, rfl, hb⟩
      · exact .inl ⟨n + 1, by rw [ha, replicate_succ]⟩
      · exact .inr ⟨a :: p, b, m, rfl, hb⟩
    · exact .inr ⟨[], a, l, rfl, ha⟩

/-- Whether the last byte that is put in has nothing behind it. -/
def DanglingThree (r : List UInt8) : Prop := 0 < zerosAtEnd r ∧ zerosAtEnd r % 2 = 0

theorem danglingThree_split (p : List UInt8) (hb : b ≠ 0) (l : List UInt8) :
    DanglingThree (p ++ b :: l) ↔ DanglingThree l := by
  rw [DanglingThree, DanglingThree, zerosAtEnd_append p hb]

/-- Two zero bytes more in front of the rest, when there is a rest. -/
theorem danglingThree_zeros (hl : l ≠ []) :
    DanglingThree (0 :: 0 :: l) ↔ DanglingThree l := by
  rcases zeros_or_split l with ⟨n, rfl⟩ | ⟨p, b, m, rfl, hb⟩
  · have e : (0 : UInt8) :: 0 :: replicate n 0 = replicate (n + 2) 0 := rfl
    have hn : n ≠ 0 := fun h => hl (by rw [h, replicate_zero])
    rw [DanglingThree, DanglingThree, e, zerosAtEnd_zeros, zerosAtEnd_zeros]
    omega
  · have e : (0 : UInt8) :: 0 :: (p ++ b :: m) = (0 :: 0 :: p) ++ b :: m := rfl
    rw [e, danglingThree_split _ hb, danglingThree_split _ hb]

theorem danglingThree_two : DanglingThree [0, 0] := by
  have e : ([0, 0] : List UInt8) = replicate 2 0 := rfl
  rw [DanglingThree, e, zerosAtEnd_zeros]
  decide

theorem not_danglingThree_short {n : Nat} (hn : n < 2) : ¬ DanglingThree (replicate n 0) := by
  rw [DanglingThree, zerosAtEnd_zeros]
  omega

theorem map_cons_eq_some {o : Option (List UInt8)} :
    o.map (b :: ·) = some (b :: l) ↔ o = some l := by
  cases o <;> simp

/-- The encoder's rule, from any count on. -/
theorem strip_encoderRule (hc : count < 2) (r : List UInt8) :
    strip count (encoderRule count r) = some r ↔ ¬ DanglingThree (replicate count 0 ++ r) := by
  induction r generalizing count with
  | nil =>
    rw [encoderRule, strip, append_nil]
    exact iff_of_true rfl (not_danglingThree_short hc)
  | cons b l ih =>
    by_cases hb : b = 0
    · subst hb
      obtain rfl | rfl : count = 0 ∨ count = 1 := by omega
      · have e : encoderRule 0 (0 :: l) = 0 :: encoderRule 1 l := rfl
        rw [e, strip_copy (by simp), map_cons_eq_some]
        exact ih (by decide)
      · have e : encoderRule 1 (0 :: l) = 0 :: 0x3 :: encoderRule 0 l := rfl
        have e2 : replicate 1 (0 : UInt8) ++ 0 :: l = 0 :: 0 :: l := rfl
        rw [e, strip_copy (by simp), map_cons_eq_some, e2]
        by_cases hl : l = []
        · subst hl
          exact iff_of_false (by simp [encoderRule, strip]) (by simpa using danglingThree_two)
        · have hne : encoderRule 0 l ≠ [] := by
            rcases l with _ | ⟨c, l⟩
            · exact absurd rfl hl
            · rw [encoderRule]
              split <;> simp
          rw [danglingThree_zeros hl]
          show strip 2 _ = _ ↔ _
          rw [strip_three hne]
          exact ih (by decide)
    · have e : encoderRule count (b :: l) = b :: encoderRule 0 l := by
        rw [encoderRule, nextCount]
        simp [hb]
      rw [e, strip_copy (by omega), if_neg hb, map_cons_eq_some, danglingThree_split _ hb]
      exact ih (by decide)

/-- The standard's rule, from any count on. -/
theorem strip_standardRule (hc : count ≤ 2) (r : List UInt8) :
    strip count (standardRule count r) = some r ↔
      ¬ DanglingThree (replicate count 0 ++ r) := by
  induction r generalizing count with
  | nil =>
    rw [append_nil, standardRule]
    by_cases h2 : count = 2
    · subst h2
      exact iff_of_false (by simp [strip]) (by simpa using danglingThree_two)
    · rw [if_neg h2]
      exact iff_of_true rfl (not_danglingThree_short (by omega))
  | cons b l ih =>
    by_cases h3 : count = 2 ∧ b ≤ 3
    · -- 03 is put in, and the byte behind it is copied whatever it is
      have e : standardRule count (b :: l) =
          0x3 :: b :: standardRule (if b = 0 then 1 else 0) l := by
        rw [standardRule, if_pos h3]
      have e2 : replicate 2 (0 : UInt8) ++ b :: l = 0 :: 0 :: b :: l := rfl
      rw [e, h3.1, strip_three (by simp), strip_copy (by simp), map_cons_eq_some, e2,
        danglingThree_zeros (by simp)]
      by_cases hb : b = 0
      · subst hb
        exact ih (by decide)
      · rw [if_neg hb, ← nil_append (b :: l), danglingThree_split [] hb]
        exact ih (by decide)
    · have e : standardRule count (b :: l) =
          b :: standardRule (if b = 0 then count + 1 else 0) l := by
        rw [standardRule, if_neg h3]
      have hskip : ¬ (count = 2 ∧ b = 0x3) := by
        rintro ⟨h, rfl⟩
        exact h3 ⟨h, by decide⟩
      rw [e, strip_copy hskip, map_cons_eq_some]
      by_cases hb : b = 0
      · subst hb
        have hlt : count < 2 := by
          by_contra h
          exact h3 ⟨by omega, by decide⟩
        have e2 : replicate count (0 : UInt8) ++ 0 :: l =
            replicate (count + 1) 0 ++ l := by
          rw [replicate_succ', append_assoc]
          rfl
        have hle : count + 1 ≤ 2 := by omega
        rw [e2]
        exact ih hle
      · rw [if_neg hb, danglingThree_split _ hb]
        exact ih (by decide)

/-- **Emulation prevention.** The writer's output has no two zero bytes before 00, 01 or 02; what
    either rule makes of an RBSP is turned back into it exactly when its zero bytes at the end are
    not an even, positive number. -/
theorem EBSPtoRBSP_iff (malloc : Int → Bool) (buf_size : Int) (o : Overrun) (oBSize : Int)
    (calls : List WriteCall) (r : List UInt8) :
    (∀ x : UInt8, x < 3 →
      ¬ [0, 0, x] <:+: (writeAll malloc (.init buf_size o oBSize) calls).bitstreamBuffer) ∧
    (Recovers (encoderRule 0 r) r ↔ ¬ (0 < zerosAtEnd r ∧ zerosAtEnd r % 2 = 0)) ∧
    (Recovers (standardRule 0 r) r ↔ ¬ (0 < zerosAtEnd r ∧ zerosAtEnd r % 2 = 0)) := by
  refine ⟨fun x hx => writeAll_clean malloc buf_size o oBSize calls hx, ?_, ?_⟩
  · rw [recovers_iff]
    exact strip_encoderRule (by decide) r
  · rw [recovers_iff]
    exact strip_standardRule (by decide) r

/-- An RBSP that ends in two zero bytes: the byte behind the last 03 is read outside of the unit. -/
theorem final_zeros_read_outside :
    encoderRule 0 [0x65, 0x00, 0x00] = [0x65, 0x00, 0x00, 0x03] ∧
      standardRule 0 [0x65, 0x00, 0x00] = [0x65, 0x00, 0x00, 0x03] ∧
      EBSPtoRBSP [0x65, 0x00, 0x00, 0x03] = none ∧
      ¬ Recovers [0x65, 0x00, 0x00, 0x03] [0x65, 0x00, 0x00] := by
  have hnone : EBSPtoRBSP [0x65, 0x00, 0x00, 0x03] = none := by decide
  refine ⟨by decide, by decide, hnone, ?_⟩
  rintro ⟨buf, h, -⟩
  rw [hnone] at h
  exact absurd h (by simp)

/-- An odd number of zero bytes at the end, and a 03 of the RBSP itself. -/
theorem EBSPtoRBSP_odd_zeros :
    Recovers (encoderRule 0 [0x00, 0x00, 0x03, 0x65, 0x00]) [0x00, 0x00, 0x03, 0x65, 0x00] ∧
      ¬ [0, 0, 1] <:+: (writeAll (fun _ => true) (.init 100 .absent 0)
        [.bits 31 0, .bits 9 2, .trailing]).bitstreamBuffer := by
  have h := EBSPtoRBSP_iff (fun _ => true) 100 .absent 0 [.bits 31 0, .bits 9 2, .trailing]
    [0x00, 0x00, 0x03, 0x65, 0x00]
  exact ⟨h.2.1.mpr (by decide), h.1 1 (by decide)⟩

end OpenCore.Avc
