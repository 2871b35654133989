/-
  File:      OpenCore/Avc/Bitstream.lean
  Subject:   THE DECODER'S CACHED BIT READER: two words of 32 bits, each with a count of its valid
             bits, over the bytes of the RBSP.

  Both words hold bits of the RBSP from the left, with zeros behind them (`Reads`); filling the
  cache moves bits from the second word to the first and loads four bytes, or the one to three
  that are left (`Reads.fill`).

  **Main result**: `reader_agrees_iff`.
-/
import OpenCore.Avc.Ebsp
import OpenCore.Lib.Word32

namespace OpenCore.Avc

open MsbBits List Option

/-! ## 1. The reader -/

structure AVCDecBitstream where
  bitstreamBuffer : List UInt8
  nal_size : Nat
  data_end_pos : Nat
  read_pos : Nat
  curr_word : Nat
  next_word : Nat
  bitcnt : Int
  incnt : Int
  incnt_next : Int
  deriving DecidableEq, Repr

namespace AVCDecBitstream

/-- What `BitstreamInit` makes of a buffer and the size of the RBSP in it. -/
def opened (buffer : List UInt8) (size : Nat) : AVCDecBitstream where
  bitstreamBuffer := buffer
  nal_size := size
  data_end_pos := size
  read_pos := 0
  curr_word := 0
  next_word := 0
  bitcnt := 0
  incnt := 0
  incnt_next := 0

def BitstreamInit (buffer : List UInt8) : Option AVCDecBitstream :=
  (EBSPtoRBSP buffer).map fun r => opened r.1 r.2

/-- The loop that loads the first `n` bytes of `v` into a word. -/
def loadBytes (v : List UInt8) : Nat → Nat
  | 0 => 0
  | i + 1 => loadBytes v i ||| ((v.getD i 0).toNat <<< ((3 - i) <<< 3))

def AVC_BitstreamFillCache (s : AVCDecBitstream) : AVCDecBitstream :=
  let curr_word := s.curr_word ||| (s.next_word >>> s.incnt.toNat)
  let next_word := (((s.next_word <<< (31 - s.incnt).toNat) % 2 ^ 32) <<< 1) % 2 ^ 32
  let num_bits := s.incnt_next + s.incnt
  let v := s.bitstreamBuffer.drop s.read_pos
  if num_bits ≥ 32 then
    { s with curr_word, next_word, incnt_next := s.incnt_next - (32 - s.incnt), incnt := 32 }
  else if (s.read_pos : Int) > (s.data_end_pos : Int) - 4 then
    if s.data_end_pos ≤ s.read_pos then
      { s with curr_word, next_word, incnt := num_bits, incnt_next := 0 }
    else
      let i := s.data_end_pos - s.read_pos
      let next_word := loadBytes v i
      let curr_word := curr_word ||| (next_word >>> num_bits.toNat)
      let next_word := (((next_word <<< (31 - num_bits).toNat) % 2 ^ 32) <<< 1) % 2 ^ 32
      let incnt := s.incnt + s.incnt_next
      let incnt_next := (i <<< 3 : Nat) - (32 - incnt)
      if incnt_next < 0 then
        { s with
          curr_word, next_word, read_pos := s.data_end_pos
          incnt := incnt + (i <<< 3 : Nat), incnt_next := 0 }
      else
        { s with curr_word, next_word, read_pos := s.data_end_pos, incnt := 32, incnt_next }
  else
    let next_word := ((v.getD 0 0).toNat <<< 24) ||| ((v.getD 1 0).toNat <<< 16) |||
      ((v.getD 2 0).toNat <<< 8) ||| (v.getD 3 0).toNat
    let curr_word := curr_word ||| (next_word >>> num_bits.toNat)
    let next_word := (((next_word <<< (31 - num_bits).toNat) % 2 ^ 32) <<< 1) % 2 ^ 32
    { s with
      curr_word, next_word, read_pos := s.read_pos + 4
      incnt_next := s.incnt_next + s.incnt, incnt := 32 }

def BitstreamFlushBits (s : AVCDecBitstream) (n : Nat) : AVCDecBitstream :=
  { s with
    bitcnt := s.bitcnt + n, incnt := s.incnt - n, curr_word := (s.curr_word <<< n) % 2 ^ 32 }

def BitstreamShowBits (s : AVCDecBitstream) (nBits : Nat) : AVCDecBitstream × Nat :=
  let s := if s.incnt < nBits then s.AVC_BitstreamFillCache else s
  (s, s.curr_word >>> (32 - nBits))

def BitstreamReadBits (s : AVCDecBitstream) (nBits : Nat) : AVCDecBitstream × Nat :=
  let s := if s.incnt < nBits then s.AVC_BitstreamFillCache else s
  (s.BitstreamFlushBits nBits, s.curr_word >>> (32 - nBits))

def BitstreamRead1Bit (s : AVCDecBitstream) : AVCDecBitstream × Nat :=
  let s := if s.incnt < 1 then s.AVC_BitstreamFillCache else s
  (s.BitstreamFlushBits 1, s.curr_word >>> 31)

/-- The bits up to the next byte. -/
def n_stuffed (s : AVCDecBitstream) : Int := (8 - s.bitcnt % 8) % 8

def BitstreamByteAlign (s : AVCDecBitstream) : AVCDecBitstream :=
  let n := s.n_stuffed
  let bitcnt := s.bitcnt + n
  let incnt := s.incnt - n
  let curr_word := (s.curr_word <<< n.toNat) % 2 ^ 32
  if incnt < 0 then { s with bitcnt := bitcnt + incnt, incnt := 0, curr_word }
  else { s with bitcnt, incnt, curr_word }

/-- `PV_CLZ`: the zeros in front of the highest bit of 16. -/
def PV_CLZ : Nat → Nat → Nat → Nat
  | 0, leading_zeros, _ => leading_zeros
  | fuel + 1, leading_zeros, tmp_cnt =>
    if tmp_cnt &&& 0x8000 = 0 then PV_CLZ fuel (leading_zeros + 1) ((tmp_cnt <<< 1) % 2 ^ 32)
    else leading_zeros

/-- What `ue_v` and `se_v` read: the stream behind the code, and the code with its leading 1. -/
def readCode (s : AVCDecBitstream) : AVCDecBitstream × Nat :=
  let r := s.BitstreamShowBits 16
  let leading_zeros := PV_CLZ 16 0 (r.2 ||| 0x1)
  if leading_zeros < 8 then
    (r.1.BitstreamFlushBits ((leading_zeros <<< 1) + 1), r.2 >>> (15 - (leading_zeros <<< 1)))
  else r.1.BitstreamReadBits ((leading_zeros <<< 1) + 1)

def ue_v (s : AVCDecBitstream) : AVCDecBitstream × Nat :=
  let r := s.readCode
  (r.1, sub32 r.2 1)

def se_v (s : AVCDecBitstream) : AVCDecBitstream × Int :=
  let r := s.readCode
  let value : Int := (r.2 >>> 1 : Nat)
  (r.1, if r.2 &&& 0x01 = 1 then -value else value)

end AVCDecBitstream

/-- The calls of the reader. -/
inductive ReadCall where
  | readBits (nBits : Nat)
  | read1Bit
  | showBits (nBits : Nat)
  | ue_v
  | se_v
  | byteAlign
  deriving DecidableEq, Repr

/-- One call: the stream behind it, and its answer. -/
def readCall (s : AVCDecBitstream) : ReadCall → AVCDecBitstream × Int
  | .readBits n => ((s.BitstreamReadBits n).1, (s.BitstreamReadBits n).2)
  | .read1Bit => (s.BitstreamRead1Bit.1, s.BitstreamRead1Bit.2)
  | .showBits n => ((s.BitstreamShowBits n).1, (s.BitstreamShowBits n).2)
  | .ue_v => (s.ue_v.1, s.ue_v.2)
  | .se_v => s.se_v
  | .byteAlign => (s.BitstreamByteAlign, 0)

/-! ## 2. The bit string -/

/-- The zeros in front of the first 1. -/
def zerosInFront (l : List Bool) : Nat := (l.takeWhile (! ·)).length

/-- The Exp-Golomb code at the beginning of a bit string: its length and `codeNum`. -/
def expGolomb (l : List Bool) : Option (Nat × Nat) :=
  let z := zerosInFront l
  if 2 * z + 1 ≤ l.length then some (2 * z + 1, 2 ^ z - 1 + num ((l.drop (z + 1)).take z))
  else none

/-- The signed value of a `codeNum`. -/
def signed (codeNum : Nat) : Int :=
  if codeNum % 2 = 1 then ((codeNum + 1) / 2 : Nat) else -((codeNum / 2 : Nat) : Int)

/-- A call on the bit string at a position: the position behind it and the answer, where the call
    stays within the data. -/
def specCall (D : List Bool) (p : Nat) : ReadCall → Option (Nat × Int)
  | .readBits n =>
    if 1 ≤ n ∧ n ≤ 31 ∧ p + n ≤ D.length then some (p + n, num ((D.drop p).take n)) else none
  | .read1Bit => if p + 1 ≤ D.length then some (p + 1, num ((D.drop p).take 1)) else none
  | .showBits n =>
    if 1 ≤ n ∧ n ≤ 32 ∧ p + n ≤ D.length then some (p, num ((D.drop p).take n)) else none
  | .ue_v => (expGolomb (D.drop p)).map fun c => (p + c.1, (c.2 : Int))
  | .se_v => (expGolomb (D.drop p)).map fun c => (p + c.1, signed c.2)
  | .byteAlign => some ((p + 7) / 8 * 8, 0)

/-- Every call that stays within the data returns what the bit string has there, and leaves the
    number of bits consumed in `bitcnt`. -/
def Agrees (D : List Bool) : AVCDecBitstream → Nat → List ReadCall → Prop
  | _, _, [] => True
  | s, p, c :: cs =>
    match specCall D p c with
    | none => True
    | some (q, answer) =>
      (readCall s c).2 = answer ∧ (readCall s c).1.bitcnt = q ∧ Agrees D (readCall s c).1 q cs

/-- The code read has at most 15 zeros in front; the bits skipped are in the first word. -/
def CallFits (D : List Bool) (s : AVCDecBitstream) (p : Nat) : ReadCall → Prop
  | .ue_v => zerosInFront (D.drop p) ≤ 15
  | .se_v => zerosInFront (D.drop p) ≤ 15
  | .byteAlign => s.n_stuffed ≤ s.incnt
  | _ => True

/-- Every call of a sequence that stays within the data fits. -/
def CallsFit (D : List Bool) : AVCDecBitstream → Nat → List ReadCall → Prop
  | _, _, [] => True
  | s, p, c :: cs =>
    match specCall D p c with
    | none => True
    | some (q, _) => CallFits D s p c ∧ CallsFit D (readCall s c).1 q cs

instance decidableAgrees (D : List Bool) :
    ∀ (s : AVCDecBitstream) (p : Nat) (calls : List ReadCall), Decidable (Agrees D s p calls)
  | _, _, [] => isTrue trivial
  | s, p, c :: cs =>
    have (o : Option (Nat × Int)) : Decidable (match o with
        | none => True
        | some (q, answer) =>
          (readCall s c).2 = answer ∧ (readCall s c).1.bitcnt = q ∧
            Agrees D (readCall s c).1 q cs) :=
      match o with
      | none => isTrue trivial
      | some (q, _) =>
        have := decidableAgrees D (readCall s c).1 q cs
        inferInstance
    this (specCall D p c)

/-! ## 3. Words -/

variable {k : Nat}

theorem fit_take {n : Nat} (h : n ≤ k) (l : List Bool) : fit n (l.take k) = fit n l := by
  rcases Nat.le_total k l.length with hk | hk
  · rw [fit_eq_take (by rw [length_take]; omega), take_take, Nat.min_eq_left h,
      fit_eq_take (by omega)]
  · rw [take_of_length_le hk]

theorem word_take {n : Nat} (h : n ≤ k) (l : List Bool) : word n (l.take k) = word n l := by
  rw [word, word, fit_take h]

variable {l : List Bool}

/-- Shifting left in two parts, as the code does. -/
theorem shiftLeft_twice {n : Nat} (hn : n ≤ 31) (hl : l.length ≤ 32) :
    (((word 32 l <<< (31 - n)) % 2 ^ 32) <<< 1) % 2 ^ 32 = word 32 (l.drop (32 - n)) := by
  have h1 : (l.drop (31 - n)).length ≤ 32 := by
    rw [length_drop]
    omega
  rw [word_shiftLeft hl, word_shiftLeft h1, drop_drop]
  congr 2
  omega

/-- Loaded bytes are the bits of the bytes from the left. -/
theorem loadBytes_eq (v : List UInt8) {n : Nat} (hn : n ≤ 4) (hv : n ≤ v.length) :
    AVCDecBitstream.loadBytes v n = word 32 (bits (v.take n)) := by
  induction n with
  | zero => simp [AVCDecBitstream.loadBytes]
  | succ n ih =>
    have hlen : (bits (v.take n)).length = 8 * n := by
      rw [bits_length, length_take, Nat.min_eq_left (by omega)]
    have hb : v.getD n 0 = v[n] := by
      rw [getD_eq_getElem?_getD, getElem?_eq_getElem (by omega), getD_some]
    have htake : v.take (n + 1) = v.take n ++ [v[n]] := take_succ_eq_append_getElem (by omega)
    have hbyte : word 32 (bits [v[n]]) = v[n].toNat * 2 ^ 24 := by
      have h24 : 32 - (octetBits v[n]).length = 24 := by rw [octetBits_length]
      rw [bits_cons, bits_nil, append_nil, word, fit_eq_append (by simp), num_append,
        num_replicate_false, length_replicate, num_octetBits, h24, Nat.add_zero]
    have hshift : (v[n].toNat * 2 ^ 24) >>> (8 * n) = v[n].toNat <<< ((3 - n) <<< 3) := by
      have h24 : (3 - n) <<< 3 = 24 - 8 * n := by
        rw [Nat.shiftLeft_eq]
        omega
      have hpow : 2 ^ 24 = 2 ^ (24 - 8 * n) * 2 ^ (8 * n) := by
        rw [← pow_add]
        congr 1
        omega
      rw [h24, Nat.shiftRight_eq_div_pow, Nat.shiftLeft_eq, hpow, ← Nat.mul_assoc,
        Nat.mul_div_cancel _ (by positivity)]
    rw [AVCDecBitstream.loadBytes, ih (by omega) (by omega), hb, htake, bits_append,
      ← word_or (by omega), hbyte, hlen, hshift]

/-! ## 4. What the cache holds -/

/-- The reader over the RBSP `r` stands at bit `p`; `n` and `m` bits are in its two words. -/
structure Reads (r : List UInt8) (s : AVCDecBitstream) (p n m : Nat) : Prop where
  buffer : ∃ rest, s.bitstreamBuffer = r ++ rest
  end_pos : s.data_end_pos = r.length
  pos_le : s.read_pos ≤ r.length
  cached : p + n + m = 8 * s.read_pos
  count : s.bitcnt = p
  incnt : s.incnt = n
  incnt_le : n ≤ 32
  curr : s.curr_word = word 32 (((bits r).drop p).take n)
  incnt_next : s.incnt_next = m
  next_le : m ≤ 32
  next : s.next_word = word 32 (((bits r).drop (p + n)).take m)

theorem Reads.opened (r rest : List UInt8) :
    Reads r (.opened (r ++ rest) r.length) 0 0 0 where
  buffer := ⟨rest, rfl⟩
  end_pos := rfl
  pos_le := Nat.zero_le _
  cached := rfl
  count := rfl
  incnt := rfl
  incnt_le := Nat.zero_le _
  curr := by rw [take_zero, word_nil]; rfl
  incnt_next := rfl
  next_le := Nat.zero_le _
  next := by rw [take_zero, word_nil]; rfl

section Fill

variable {r : List UInt8} {s : AVCDecBitstream} {p n m : Nat}

theorem Reads.slice_length (h : Reads r s p n m) :
    (((bits r).drop p).take n).length = n ∧ (((bits r).drop (p + n)).take m).length = m := by
  have h1 := h.cached
  have h2 := h.pos_le
  rw [length_take, length_take, length_drop, length_drop, bits_length]
  omega

theorem slices_append (l : List Bool) (p n m : Nat) :
    (l.drop p).take n ++ (l.drop (p + n)).take m = (l.drop p).take (n + m) := by
  rw [← drop_drop, take_add]

section

variable (h : Reads r s p n m)
include h

/-- The bits of the second word are put behind those of the first. -/
theorem Reads.joined :
    s.curr_word ||| (s.next_word >>> s.incnt.toNat) = word 32 (((bits r).drop p).take (n + m)) := by
  have hn : s.incnt.toNat = n := by rw [h.incnt]; rfl
  have hlen := h.slice_length.1
  have hor := word_or (w := 32) (l := ((bits r).drop p).take n) (by rw [hlen]; exact h.incnt_le)
    (((bits r).drop (p + n)).take m)
  rw [hlen, slices_append] at hor
  rw [h.curr, h.next, hn, hor]

theorem Reads.shifted (hn : n ≤ 31) :
    (((s.next_word <<< (31 - s.incnt).toNat) % 2 ^ 32) <<< 1) % 2 ^ 32 =
      word 32 (((bits r).drop (p + 32)).take (m - (32 - n))) := by
  have h31 : (31 - s.incnt).toNat = 31 - n := by
    have := h.incnt
    omega
  have hl : (((bits r).drop (p + n)).take m).length ≤ 32 := by
    rw [h.slice_length.2]
    exact h.next_le
  have hdrop : p + n + (32 - n) = p + 32 := by omega
  rw [h31, h.next, shiftLeft_twice hn hl, drop_take, drop_drop, hdrop]

/-- The loaded bytes are the next bits. -/
theorem Reads.loaded {i : Nat} (hi : i ≤ 4)
    (hr : s.read_pos + i ≤ r.length) :
    AVCDecBitstream.loadBytes (s.bitstreamBuffer.drop s.read_pos) i =
      word 32 (((bits r).drop (p + n + m)).take (8 * i)) := by
  obtain ⟨rest, hb⟩ := h.buffer
  have hdrop : s.bitstreamBuffer.drop s.read_pos = r.drop s.read_pos ++ rest := by
    rw [hb, drop_append_of_le_length h.pos_le]
  have hlen : i ≤ (r.drop s.read_pos).length := by
    rw [length_drop]
    omega
  rw [hdrop, loadBytes_eq _ hi (by rw [length_append]; omega),
    take_append_of_le_length hlen, bits_take, bits_drop, h.cached]

/-- Some bytes are loaded, when fewer than 32 bits are in the two words: four, or all there are. -/
theorem Reads.load (hnm : n + m < 32) {i : Nat} (hi : i ≤ 4)
    (hr : s.read_pos + i ≤ r.length) {t : AVCDecBitstream}
    (hbuf : t.bitstreamBuffer = s.bitstreamBuffer)
    (hdep : t.data_end_pos = s.data_end_pos) (hcnt : t.bitcnt = s.bitcnt)
    (hpos : t.read_pos = s.read_pos + i)
    (hcw : t.curr_word = (s.curr_word ||| (s.next_word >>> s.incnt.toNat)) |||
      (AVCDecBitstream.loadBytes (s.bitstreamBuffer.drop s.read_pos) i >>>
        (s.incnt_next + s.incnt).toNat))
    (hnw : t.next_word = (((AVCDecBitstream.loadBytes (s.bitstreamBuffer.drop s.read_pos) i <<<
      (31 - (s.incnt_next + s.incnt)).toNat) % 2 ^ 32) <<< 1) % 2 ^ 32)
    (hin : t.incnt = min 32 (n + m + 8 * i : Nat))
    (hinn : t.incnt_next = (n + m + 8 * i - 32 : Nat)) :
    Reads r t p (min 32 (n + m + 8 * i)) (n + m + 8 * i - 32) := by
  have hc := h.cached
  have hsum : (s.incnt_next + s.incnt).toNat = n + m := by
    rw [h.incnt, h.incnt_next]
    omega
  have hsum' : (31 - (s.incnt_next + s.incnt)).toNat = 31 - (n + m) := by
    rw [h.incnt, h.incnt_next]
    omega
  have hlen : (((bits r).drop p).take (n + m)).length = n + m := by
    rw [length_take, length_drop, bits_length]
    omega
  have hll : (((bits r).drop (p + n + m)).take (8 * i)).length = 8 * i := by
    rw [length_take, length_drop, bits_length]
    omega
  refine ⟨by rw [hbuf]; exact h.buffer, by rw [hdep]; exact h.end_pos, by omega, ?_,
    by rw [hcnt]; exact h.count, hin, Nat.min_le_left _ _, ?_, hinn, by omega, ?_⟩
  · rw [hpos, Nat.min_def]
    split <;> omega
  · have hor := word_or (w := 32) (l := ((bits r).drop p).take (n + m)) (by rw [hlen]; omega)
      (((bits r).drop (p + n + m)).take (8 * i))
    rw [hlen, Nat.add_assoc p n m, slices_append] at hor
    rw [hcw, h.joined, h.loaded hi hr, hsum, Nat.add_assoc p n m, hor,
      ← take_take, word_take (Nat.le_refl 32)]
  · rw [hnw, h.loaded hi hr, hsum', shiftLeft_twice (by omega) (by rw [hll]; omega),
      drop_take, drop_drop]
    have h1 : 8 * i - (32 - (n + m)) = n + m + 8 * i - 32 := by omega
    rw [h1]
    rcases Nat.le_total 32 (n + m + 8 * i) with h32 | h32
    · have h2 : p + n + m + (32 - (n + m)) = p + min 32 (n + m + 8 * i) := by
        rw [Nat.min_eq_left h32]
        omega
      rw [h2]
    · have h0 : n + m + 8 * i - 32 = 0 := by omega
      rw [h0, take_zero, take_zero]

end

theorem getD_four (v : List UInt8) :
    ((v.getD 0 0).toNat <<< 24) ||| ((v.getD 1 0).toNat <<< 16) ||| ((v.getD 2 0).toNat <<< 8) |||
      (v.getD 3 0).toNat = AVCDecBitstream.loadBytes v 4 := by
  simp [AVCDecBitstream.loadBytes]

section

variable (h : Reads r s p n m)
include h

/-- Filling the cache keeps the position; as many of the next 32 bits as there are come into the
    first word. -/
theorem Reads.fill (hn : n ≤ 31) :
    ∃ m', Reads r s.AVC_BitstreamFillCache p (min 32 (8 * r.length - p)) m' := by
  have hc := h.cached
  have hp := h.pos_le
  have hin := h.incnt
  have hinn := h.incnt_next
  have hdep := h.end_pos
  have hm := h.next_le
  unfold AVCDecBitstream.AVC_BitstreamFillCache
  simp only
  split
  · -- the second word has enough
    have hmin : min 32 (8 * r.length - p) = 32 := by omega
    rw [hmin]
    refine ⟨m - (32 - n), h.buffer, h.end_pos, h.pos_le, ?_, h.count, rfl, Nat.le_refl _, ?_, ?_,
      by omega, h.shifted hn⟩
    · show p + 32 + (m - (32 - n)) = 8 * s.read_pos
      omega
    · have hle : 32 ≤ n + m := by omega
      show s.curr_word ||| (s.next_word >>> s.incnt.toNat) = _
      rw [h.joined, word_take hle, word_take (Nat.le_refl 32)]
    · show s.incnt_next - (32 - s.incnt) = _
      omega
  · have hnm : n + m < 32 := by omega
    split
    · split
      · -- no byte is left
        have hmin : min 32 (8 * r.length - p) = n + m := by omega
        rw [hmin]
        refine ⟨0, h.buffer, h.end_pos, h.pos_le,
          by show p + (n + m) + 0 = 8 * s.read_pos; omega, h.count, ?_, by omega, h.joined, rfl,
          Nat.zero_le _, ?_⟩
        · show s.incnt_next + s.incnt = _
          omega
        · show _ = word 32 (take 0 _)
          rw [h.shifted hn]
          have h0 : m - (32 - n) = 0 := by omega
          rw [h0, take_zero, take_zero]
      · -- one to three bytes are left
        obtain ⟨i, hi⟩ : ∃ i, s.data_end_pos - s.read_pos = i := ⟨_, rfl⟩
        have hmin : min 32 (8 * r.length - p) = min 32 (n + m + 8 * i) := by omega
        have hi3 : (i <<< 3 : Nat) = 8 * i := by
          rw [Nat.shiftLeft_eq]
          omega
        rw [hi, hi3, hmin]
        split
        · exact ⟨_, h.load hnm (by omega) (by omega) rfl rfl rfl (by show s.data_end_pos = _; omega)
            rfl rfl (by show s.incnt + s.incnt_next + _ = _; omega) (by show (0 : Int) = _; omega)⟩
        · exact ⟨_, h.load hnm (by omega) (by omega) rfl rfl rfl (by show s.data_end_pos = _; omega)
            rfl rfl (by show (32 : Int) = _; omega)
            (by show _ - (32 - (s.incnt + s.incnt_next)) = _; omega)⟩
    · -- four bytes
      have hmin : min 32 (8 * r.length - p) = min 32 (n + m + 8 * 4) := by omega
      rw [getD_four, hmin]
      exact ⟨_, h.load hnm (Nat.le_refl 4) (by omega) rfl rfl rfl rfl rfl rfl
        (by show (32 : Int) = _; omega) (by show s.incnt_next + s.incnt = _; omega)⟩

/-! ## 5. Reading -/

/-- The cache is filled when it has fewer bits than wanted. -/
theorem Reads.peek (hk : k ≤ 32) :
    ∃ n' m', Reads r (if s.incnt < k then s.AVC_BitstreamFillCache else s) p n' m' ∧
      (k ≤ n' ∨ n' = 8 * r.length - p) := by
  have hin := h.incnt
  by_cases hlt : s.incnt < k
  · rw [if_pos hlt]
    obtain ⟨m', h'⟩ := h.fill (by omega)
    exact ⟨_, m', h', by omega⟩
  · rw [if_neg hlt]
    exact ⟨n, m, h, .inl (by omega)⟩

/-- The first bits of the word are the next bits, with zeros behind the last. -/
theorem Reads.value (hk : k ≤ 32)
    (hn : k ≤ n ∨ n = 8 * r.length - p) :
    s.curr_word >>> (32 - k) = num (fit k ((bits r).drop p)) := by
  rw [h.curr, word_shiftRight hk]
  rcases hn with hn | hn
  · rw [fit_take hn]
  · rw [take_of_length_le (by rw [length_drop, bits_length]; omega)]

theorem Reads.flush (hk : k ≤ n) :
    Reads r (s.BitstreamFlushBits k) (p + k) (n - k) m := by
  have hc := h.cached
  have hin := h.incnt
  have hle := h.incnt_le
  have hcount := h.count
  have hpn : p + k + (n - k) = p + n := by omega
  refine ⟨h.buffer, h.end_pos, h.pos_le, ?_, ?_, ?_, by omega, ?_, h.incnt_next, h.next_le, ?_⟩
  · show p + k + (n - k) + m = 8 * s.read_pos
    omega
  · show s.bitcnt + k = _
    omega
  · show s.incnt - k = _
    omega
  · show (s.curr_word <<< k) % 2 ^ 32 = _
    rw [h.curr, word_shiftLeft (by rw [h.slice_length.1]; exact h.incnt_le), drop_take,
      drop_drop]
  · rw [hpn]
    exact h.next

/-- `BitstreamShowBits` keeps the position. -/
theorem Reads.showBits (hk : k ≤ 32) :
    (∃ n' m', Reads r (s.BitstreamShowBits k).1 p n' m' ∧ (k ≤ n' ∨ n' = 8 * r.length - p)) ∧
      (s.BitstreamShowBits k).2 = num (fit k ((bits r).drop p)) := by
  obtain ⟨n', m', h', hn'⟩ := h.peek hk
  exact ⟨⟨n', m', h', hn'⟩, h'.value hk hn'⟩

end

theorem fit_drop {p : Nat} (hin : p + k ≤ 8 * r.length) :
    fit k ((bits r).drop p) = ((bits r).drop p).take k :=
  fit_eq_take (by rw [length_drop, bits_length]; omega)

theorem Reads.readBits (h : Reads r s p n m) (hk : k ≤ 32)
    (hin : p + k ≤ 8 * r.length) :
    (∃ n' m', Reads r (s.BitstreamReadBits k).1 (p + k) n' m') ∧
      (s.BitstreamReadBits k).2 = num (((bits r).drop p).take k) := by
  obtain ⟨n', m', h', hn'⟩ := h.peek hk
  have hv := h'.value hk hn'
  rw [fit_drop hin] at hv
  exact ⟨⟨n' - k, m', h'.flush (by omega)⟩, hv⟩

end Fill

/-! ## 6. Exp-Golomb codes -/

theorem zerosInFront_replicate (z : Nat) (l : List Bool) :
    zerosInFront (replicate z false ++ true :: l) = z := by
  simp [zerosInFront]

/-- A bit string with a 1 in it, from its zeros on. -/
theorem zerosInFront_split (h : zerosInFront l < l.length) :
    ∃ rest, l = replicate (zerosInFront l) false ++ true :: rest := by
  induction l with
  | nil => simp at h
  | cons b l ih =>
    cases b with
    | true => exact ⟨l, by simp [zerosInFront]⟩
    | false =>
      have e : zerosInFront (false :: l) = zerosInFront l + 1 := by simp [zerosInFront]
      rw [e, length_cons] at h
      obtain ⟨rest, hrest⟩ := ih (by omega)
      refine ⟨rest, ?_⟩
      rw [e, replicate_succ, cons_append, ← hrest]

theorem and_top_bit {x : Nat} (hx : x < 2 ^ 15) (c : Bool) :
    (c.toNat * 2 ^ 15 + x) &&& 0x8000 = c.toNat * 2 ^ 15 := by
  have h8 : (0x8000 : Nat) = 2 ^ 15 := by decide
  have hbit : (c.toNat * 2 ^ 15 + x).testBit 15 = c := by
    cases c with
    | false =>
      rw [Bool.toNat_false, Nat.zero_mul, Nat.zero_add]
      exact Nat.testBit_lt_two_pow hx
    | true =>
      rw [Bool.toNat_true, Nat.one_mul, Nat.testBit_two_pow_add_eq, Nat.testBit_lt_two_pow hx]
      rfl
  rw [h8, Nat.and_two_pow, hbit]

/-- The loop of `PV_CLZ`, at the 16 bits `l` and zeros shifted in behind. -/
theorem PV_CLZ_eq (fuel a : Nat) (l : List Bool) (hl : l.length ≤ 16)
    (hz : zerosInFront l < l.length) (hf : l.length ≤ fuel) :
    AVCDecBitstream.PV_CLZ fuel a (num l * 2 ^ (16 - l.length)) = a + zerosInFront l := by
  induction l generalizing fuel a with
  | nil => simp at hz
  | cons b l ih =>
    obtain ⟨fuel, rfl⟩ : ∃ k, fuel = k + 1 := ⟨fuel - 1, by simp at hf; omega⟩
    have hlt : num l * 2 ^ (15 - l.length) < 2 ^ 15 := by
      have hpow : 2 ^ 15 = 2 ^ l.length * 2 ^ (15 - l.length) := by
        rw [← pow_add]
        congr 1
        simp at hl
        omega
      rw [hpow]
      exact Nat.mul_lt_mul_of_pos_right (num_lt l) (by positivity)
    have hsub : 16 - (b :: l).length = 15 - l.length := by simp
    have hval : num (b :: l) * 2 ^ (15 - l.length) =
        b.toNat * 2 ^ 15 + num l * 2 ^ (15 - l.length) := by
      have hpow : 2 ^ l.length * 2 ^ (15 - l.length) = 2 ^ 15 := by
        rw [← pow_add]
        congr 1
        simp at hl
        omega
      rw [num_cons, Nat.add_mul, Nat.mul_assoc, hpow]
    have hand : (b.toNat * 2 ^ 15 + num l * 2 ^ (15 - l.length)) &&& 0x8000 = b.toNat * 2 ^ 15 :=
      and_top_bit hlt b
    rw [AVCDecBitstream.PV_CLZ, hsub, hval]
    cases b with
    | true =>
      rw [if_neg (by rw [hand]; decide)]
      simp [zerosInFront]
    | false =>
      have e : zerosInFront (false :: l) = zerosInFront l + 1 := by simp [zerosInFront]
      have hne : 1 ≤ l.length := by
        rw [e, length_cons] at hz
        omega
      rw [if_pos (by rw [hand]; rfl), e]
      have hshift : (false.toNat * 2 ^ 15 + num l * 2 ^ (15 - l.length)) <<< 1 % 2 ^ 32 =
          num l * 2 ^ (16 - l.length) := by
        have hsucc : 16 - l.length = 15 - l.length + 1 := by
          simp at hl
          omega
        rw [Bool.toNat_false, Nat.zero_mul, Nat.zero_add, Nat.shiftLeft_eq, pow_one,
          Nat.mod_eq_of_lt (by omega), hsucc, pow_succ, Nat.mul_assoc]
      rw [hshift, ih fuel (a + 1) (by simp at hl; omega) (by rw [e, length_cons] at hz; omega)
        (by simpa using hf)]
      omega

/-- The lowest bit set keeps the count at 15. -/
theorem zerosInFront_fit (h : zerosInFront l < l.length) :
    zerosInFront (fit 15 l ++ [true]) = min (zerosInFront l) 15 := by
  obtain ⟨rest, hl⟩ := zerosInFront_split h
  obtain ⟨z, hz⟩ : ∃ z, zerosInFront l = z := ⟨_, rfl⟩
  rw [hz] at hl ⊢
  have hfit : fit 15 l =
      (replicate z false ++ true :: (rest ++ replicate 15 false)).take 15 := by
    rw [fit, hl, append_assoc, cons_append]
  rcases Nat.lt_or_ge z 15 with h15 | h15
  · obtain ⟨k, hk⟩ : ∃ k, 15 - z = k + 1 := ⟨14 - z, by omega⟩
    rw [hfit, take_append, length_replicate, hk, take_replicate,
      Nat.min_eq_right (by omega), take_succ_cons, append_assoc, cons_append,
      zerosInFront_replicate, Nat.min_eq_left (by omega)]
  · have e : (replicate z false ++ true :: (rest ++ replicate 15 false)).take 15 =
        replicate 15 false := by
      rw [take_append_of_le_length (by rw [length_replicate]; exact h15),
        take_replicate, Nat.min_eq_left h15]
    rw [hfit, e, zerosInFront_replicate, Nat.min_eq_right h15]

/-- The bits shown, with the lowest one set. -/
theorem shown_or_one (l : List Bool) : num (fit 16 l) ||| 0x1 = num (fit 15 l ++ [true]) := by
  have hlen : (fit 16 l).length = 15 + 1 := fit_length _ _
  obtain ⟨b, hb⟩ : ∃ b, fit 16 l = fit 15 l ++ [b] := by
    have htake : (fit 16 l).take 15 = fit 15 l := take_fit (by decide) l
    obtain ⟨b, hb⟩ := length_eq_one_iff.mp
      (show ((fit 16 l).drop 15).length = 1 by rw [length_drop, hlen])
    exact ⟨b, by rw [← htake, ← hb, take_append_drop]⟩
  rw [hb, num_concat, num_concat]
  have hb1 : b.toNat < 2 ^ 1 := b.toNat_lt
  have hsh : 2 * num (fit 15 l) = num (fit 15 l) <<< 1 := by rw [Nat.shiftLeft_eq]; ring
  rw [hsh, Nat.shiftLeft_add_eq_or_of_lt hb1, Nat.shiftLeft_add_eq_or_of_lt (by decide),
    Nat.or_assoc]
  cases b <;> rfl

theorem zerosInFront_concat_le (l : List Bool) : zerosInFront (l ++ [true]) ≤ l.length := by
  induction l with
  | nil => exact Nat.le_refl 0
  | cons b l ih =>
    cases b with
    | true => exact Nat.zero_le _
    | false =>
      have e : zerosInFront (false :: (l ++ [true])) = zerosInFront (l ++ [true]) + 1 := by
        simp [zerosInFront]
      rw [cons_append, e, length_cons]
      omega

/-- What `PV_CLZ` counts: the zeros in front of the bits shown, the lowest one set. -/
theorem PV_CLZ_fit (l : List Bool) :
    AVCDecBitstream.PV_CLZ 16 0 (num (fit 16 l) ||| 0x1) = zerosInFront (fit 15 l ++ [true]) := by
  have hl16 : (fit 15 l ++ [true]).length = 16 := by rw [length_append, fit_length]; rfl
  have hz := zerosInFront_concat_le (fit 15 l)
  rw [fit_length] at hz
  have hclz := PV_CLZ_eq 16 0 (fit 15 l ++ [true]) (by omega) (by omega) (by omega)
  rw [hl16, Nat.sub_self, pow_zero, Nat.mul_one, Nat.zero_add] at hclz
  rw [shown_or_one, hclz]

/-- What `PV_CLZ` counts in the bits that are shown. -/
theorem PV_CLZ_shown (h : zerosInFront l < l.length) :
    AVCDecBitstream.PV_CLZ 16 0 (num (fit 16 l) ||| 0x1) = min (zerosInFront l) 15 := by
  rw [PV_CLZ_fit, zerosInFront_fit h]

section Codes

variable {r : List UInt8} {s : AVCDecBitstream} {p n m : Nat}

theorem double (c : Nat) : c <<< 1 = 2 * c := by
  rw [Nat.shiftLeft_eq, pow_one, Nat.mul_comm]

/-- At most 31 bits are read as a code. -/
theorem Reads.readCode (h : Reads r s p n m) {z : Nat} (hz : zerosInFront ((bits r).drop p) = z)
    (hin : p + (2 * z + 1) ≤ 8 * r.length) :
    (∃ n' m', Reads r s.readCode.1 (p + (2 * min z 15 + 1)) n' m') ∧
      s.readCode.2 = num (((bits r).drop p).take (2 * min z 15 + 1)) := by
  have hlt : zerosInFront ((bits r).drop p) < ((bits r).drop p).length := by
    rw [hz, length_drop, bits_length]
    omega
  obtain ⟨⟨n', m', h', hn'⟩, hv⟩ := h.showBits (k := 16) (by decide)
  have hclz : AVCDecBitstream.PV_CLZ 16 0 ((s.BitstreamShowBits 16).2 ||| 0x1) = min z 15 := by
    rw [hv, PV_CLZ_shown hlt, hz]
  obtain ⟨c, hc⟩ : ∃ c, min z 15 = c := ⟨_, rfl⟩
  unfold AVCDecBitstream.readCode
  simp only [hclz, hc, double]
  split
  · -- the code is within the bits that were shown
    refine ⟨⟨_, m', h'.flush (by omega)⟩, ?_⟩
    have hsub : 15 - 2 * c = 16 - (2 * c + 1) := by omega
    have h16 : num (fit 16 ((bits r).drop p)) = word 16 ((bits r).drop p) := rfl
    show (s.BitstreamShowBits 16).2 >>> (15 - 2 * c) = _
    rw [hv, hsub, h16, word_shiftRight (by omega), fit_drop (by omega)]
  · exact h'.readBits (by omega) (by omega)

/-- The number that is read with the leading 1 in front. -/
theorem num_code {z : Nat} (hz : zerosInFront l = z) (hin : 2 * z + 1 ≤ l.length) :
    num (l.take (2 * z + 1)) = 2 ^ z + num ((l.drop (z + 1)).take z) := by
  obtain ⟨rest, hl⟩ := zerosInFront_split (l := l) (by omega)
  rw [hz] at hl
  have hlen : z ≤ rest.length := by
    rw [hl] at hin
    simp at hin
    omega
  have htake : l.take (2 * z + 1) = replicate z false ++ true :: rest.take z := by
    have h2 : 2 * z + 1 - z = z + 1 := by omega
    rw [hl, take_append, length_replicate, h2, take_succ_cons, take_replicate,
      Nat.min_eq_right (by omega)]
  have hdrop : l.drop (z + 1) = rest := by
    have h1 : z + 1 - z = 1 := by omega
    rw [hl, drop_append, length_replicate, h1, drop_replicate,
      Nat.sub_eq_zero_of_le (by omega)]
    rfl
  rw [htake, hdrop, num_append, num_replicate_false, num_cons, length_take,
    Nat.min_eq_left hlen, Bool.toNat_true]
  ring

theorem expGolomb_eq_some {len codeNum : Nat}
    (h : expGolomb l = some (len, codeNum)) :
    ∃ z, zerosInFront l = z ∧ len = 2 * z + 1 ∧ 2 * z + 1 ≤ l.length ∧
      codeNum + 1 = num (l.take (2 * z + 1)) := by
  unfold expGolomb at h
  simp only [ite_none_right_eq_some] at h
  obtain ⟨hle, he⟩ := h
  cases he
  refine ⟨_, rfl, rfl, hle, ?_⟩
  rw [num_code rfl hle]
  have := Nat.one_le_two_pow (n := zerosInFront l)
  omega

/-- The signed value from the code with its leading 1. -/
theorem signed_of_code (code : Nat) (hc : 1 ≤ code) :
    (if code &&& 0x01 = 1 then -((code >>> 1 : Nat) : Int) else ((code >>> 1 : Nat) : Int)) =
      signed (code - 1) := by
  rw [Nat.and_one_is_mod, Nat.shiftRight_eq_div_pow, pow_one, signed]
  by_cases h1 : code % 2 = 1
  · rw [if_pos h1, if_neg (by omega)]
    congr 2
    omega
  · rw [if_neg h1, if_pos (by omega)]
    congr 1
    omega

section

variable (h : Reads r s p n m)
include h

/-- A code with at most 15 zeros in front is read, another one is not passed. -/
theorem Reads.code {len codeNum : Nat}
    (he : expGolomb ((bits r).drop p) = some (len, codeNum)) :
    (zerosInFront ((bits r).drop p) ≤ 15 →
      s.readCode.2 = codeNum + 1 ∧ codeNum + 1 < 2 ^ 31 ∧
        ∃ n' m', Reads r s.readCode.1 (p + len) n' m') ∧
    (¬ zerosInFront ((bits r).drop p) ≤ 15 → s.readCode.1.bitcnt ≠ (p + len : Nat)) := by
  obtain ⟨z, hz, rfl, hle, hcode⟩ := expGolomb_eq_some he
  have hin : p + (2 * z + 1) ≤ 8 * r.length := by
    rw [length_drop, bits_length] at hle
    omega
  obtain ⟨⟨n', m', h'⟩, hv⟩ := h.readCode hz hin
  rw [hz]
  constructor
  · intro h15
    rw [Nat.min_eq_left h15] at h' hv
    have hlt := num_lt (((bits r).drop p).take (2 * z + 1))
    rw [length_take, Nat.min_eq_left hle] at hlt
    have hpow : 2 ^ (2 * z + 1) ≤ 2 ^ 31 := Nat.pow_le_pow_right (by decide) (by omega)
    exact ⟨hv.trans hcode.symm, by omega, n', m', h'⟩
  · intro h15
    rw [h'.count, Nat.min_eq_right (by omega)]
    intro e
    have := Int.ofNat.inj e
    omega

/-- Alignment, when the bits it skips are in the first word. -/
theorem Reads.byteAlign :
    (s.n_stuffed ≤ s.incnt →
      ∃ n' m', Reads r s.BitstreamByteAlign ((p + 7) / 8 * 8) n' m') ∧
    (¬ s.n_stuffed ≤ s.incnt → s.BitstreamByteAlign.bitcnt ≠ ((p + 7) / 8 * 8 : Nat)) := by
  have hcount := h.count
  have hin := h.incnt
  obtain ⟨k, hk, hpk⟩ : ∃ k : Nat, s.n_stuffed = k ∧ (p + 7) / 8 * 8 = p + k := by
    refine ⟨(p + 7) / 8 * 8 - p, ?_, by omega⟩
    rw [AVCDecBitstream.n_stuffed, hcount]
    omega
  have hk' : s.n_stuffed.toNat = k := by omega
  rw [hpk]
  unfold AVCDecBitstream.BitstreamByteAlign
  simp only [hk]
  constructor
  · intro hle
    rw [if_neg (by omega)]
    exact ⟨_, m, h.flush (by omega)⟩
  · intro hlt
    rw [if_pos (by omega)]
    show s.bitcnt + k + (s.incnt - k) ≠ _
    omega

/-- One call that stays within the data. -/
theorem Reads.call {c : ReadCall} {q : Nat} {answer : Int}
    (hs : specCall (bits r) p c = some (q, answer)) :
    (CallFits (bits r) s p c →
      (readCall s c).2 = answer ∧ ∃ n' m', Reads r (readCall s c).1 q n' m') ∧
    (¬ CallFits (bits r) s p c → (readCall s c).1.bitcnt ≠ q) := by
  cases c with
  | readBits k =>
    simp only [specCall, bits_length, ite_none_right_eq_some] at hs
    obtain ⟨⟨h1, h31, hin⟩, he⟩ := hs
    cases he
    obtain ⟨hr, hv⟩ := h.readBits (k := k) (by omega) hin
    exact ⟨fun _ => ⟨congrArg Nat.cast hv, hr⟩, fun hf => absurd trivial hf⟩
  | read1Bit =>
    simp only [specCall, bits_length, ite_none_right_eq_some] at hs
    obtain ⟨hin, he⟩ := hs
    cases he
    obtain ⟨hr, hv⟩ := h.readBits (k := 1) (by decide) hin
    exact ⟨fun _ => ⟨congrArg Nat.cast hv, hr⟩, fun hf => absurd trivial hf⟩
  | showBits k =>
    simp only [specCall, bits_length, ite_none_right_eq_some] at hs
    obtain ⟨⟨h1, h32, hin⟩, he⟩ := hs
    cases he
    obtain ⟨⟨n', m', hr, -⟩, hv⟩ := h.showBits h32
    rw [fit_drop hin] at hv
    exact ⟨fun _ => ⟨congrArg Nat.cast hv, n', m', hr⟩, fun hf => absurd trivial hf⟩
  | ue_v =>
    obtain ⟨⟨len, codeNum⟩, he, hq⟩ := map_eq_some_iff.mp hs
    obtain ⟨rfl, rfl⟩ := Prod.mk.inj hq
    obtain ⟨hfit, hnot⟩ := h.code he
    refine ⟨fun hf => ?_, hnot⟩
    obtain ⟨hv, hlt, hr⟩ := hfit hf
    refine ⟨?_, hr⟩
    show ((sub32 s.readCode.2 1 : Nat) : Int) = codeNum
    rw [hv, sub32_eq (by omega) (by omega), Nat.add_sub_cancel]
  | se_v =>
    obtain ⟨⟨len, codeNum⟩, he, hq⟩ := map_eq_some_iff.mp hs
    obtain ⟨rfl, rfl⟩ := Prod.mk.inj hq
    obtain ⟨hfit, hnot⟩ := h.code he
    refine ⟨fun hf => ?_, hnot⟩
    obtain ⟨hv, hlt, hr⟩ := hfit hf
    refine ⟨?_, hr⟩
    have e := signed_of_code s.readCode.2 (by omega)
    rw [hv, Nat.add_sub_cancel, ← hv] at e
    exact e
  | byteAlign =>
    cases hs
    obtain ⟨hfit, hnot⟩ := h.byteAlign
    exact ⟨fun hf => ⟨rfl, hfit hf⟩, hnot⟩

theorem Reads.agrees_iff (calls : List ReadCall) :
    Agrees (bits r) s p calls ↔ CallsFit (bits r) s p calls := by
  induction calls generalizing s p n m with
  | nil => exact Iff.rfl
  | cons c cs ih =>
    unfold Agrees CallsFit
    cases hs : specCall (bits r) p c with
    | none => exact Iff.rfl
    | some a =>
      obtain ⟨q, answer⟩ := a
      obtain ⟨hfit, hnot⟩ := h.call hs
      simp only
      constructor
      · rintro ⟨-, hbit, hrest⟩
        by_cases hf : CallFits (bits r) s p c
        · obtain ⟨-, n', m', h'⟩ := hfit hf
          exact ⟨hf, (ih h').mp hrest⟩
        · exact absurd hbit (hnot hf)
      · rintro ⟨hf, hrest⟩
        obtain ⟨hv, n', m', h'⟩ := hfit hf
        exact ⟨hv, h'.count, (ih h').mpr hrest⟩

end

end Codes

/-- **The cached reader against the bit string.** For every RBSP, whatever is behind it in the
    buffer, and every sequence of calls: as long as the data lasts all answers and counts are those
    of the bit string, exactly when all calls fit. -/
theorem reader_agrees_iff (r rest : List UInt8) (calls : List ReadCall) :
    Agrees (bits r) (.opened (r ++ rest) r.length) 0 calls ↔
      CallsFit (bits r) (.opened (r ++ rest) r.length) 0 calls :=
  (Reads.opened r rest).agrees_iff calls

/-- Two bits are in the first word, and one more is needed to reach the byte: the alignment stops
    one bit before it, and the next bit read is the last of the byte before. -/
theorem byteAlign_stops_short :
    ∃ r calls, r = List.replicate 7 0xAA ++ [0x55, 0x40] ∧
      calls = [.readBits 31, .readBits 5, .readBits 25, .byteAlign] ∧
      specCall (bits r) 61 .byteAlign = some (64, 0) ∧
      (calls.foldl (fun s c => (readCall s c).1) (.opened r 9)).bitcnt = 63 ∧
      (calls.foldl (fun s c => (readCall s c).1) (.opened r 9)).BitstreamRead1Bit.2 = 1 ∧
      num (((bits r).drop 64).take 1) = 0 ∧
      ¬ Agrees (bits r) (.opened (r ++ []) r.length) 0 calls :=
  ⟨_, _, rfl, rfl, by decide +kernel, by decide +kernel, by decide +kernel, by decide +kernel,
    by decide +kernel⟩

end OpenCore.Avc
