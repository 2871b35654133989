/-
  File:      OpenCore/M4vH263/DecBitstream.lean
  Subject:   The bit reader of the MPEG-4 and H.263 decoder (bitstream.cpp, bitstream.h): a current
             and a look-ahead word over a frame buffer, against the bits of the buffer.

  The cache is filled as that of the AVC decoder is, so what is known of the one (`Reads`) is used
  for the other. A shift by a count that is no place of a word is undefined (`none`): filling
  below zero and flushing 32 bits are. `bitcnt` has 32 bits.

  **Main result**: `reader_agrees`.
-/
import OpenCore.Avc.Bitstream

namespace OpenCore.M4vH263

open MsbBits Avc Option

/-! ## 1. The reader -/

structure BitstreamDecVideo where
  curr_word : Nat
  next_word : Nat
  bitstreamBuffer : List UInt8
  read_point : Nat
  incnt : Int
  incnt_next : Int
  bitcnt : Nat
  data_end_pos : Nat
  deriving DecidableEq

/-- `w >> n`. -/
def shr (w : Nat) (n : Int) : Option Nat :=
  if 0 ≤ n ∧ n ≤ 31 then some (w >>> n.toNat) else none

/-- `w << n`. -/
def shl (w : Nat) (n : Int) : Option Nat :=
  if 0 ≤ n ∧ n ≤ 31 then some ((w <<< n.toNat) % 2 ^ 32) else none

/-- A sum in `uint32`. -/
def addCount (bitcnt : Nat) (n : Int) : Nat := (((bitcnt : Int) + n) % 2 ^ 32).toNat

namespace BitstreamDecVideo

def BitstreamReset (buffer : List UInt8) : BitstreamDecVideo where
  curr_word := 0
  next_word := 0
  bitstreamBuffer := buffer
  read_point := 0
  incnt := 0
  incnt_next := 0
  bitcnt := 0
  data_end_pos := buffer.length

def BitstreamFillCache (s : BitstreamDecVideo) : Option BitstreamDecVideo := do
  let curr_word := s.curr_word ||| (← shr s.next_word s.incnt)
  let next_word ← shl (← shl s.next_word (31 - s.incnt)) 1
  let num_bits := s.incnt_next + s.incnt
  let v := s.bitstreamBuffer.drop s.read_point
  if num_bits ≥ 32 then
    return { s with curr_word, next_word, incnt_next := s.incnt_next - (32 - s.incnt), incnt := 32 }
  else if (s.read_point : Int) > (s.data_end_pos : Int) - 4 then
    if s.data_end_pos ≤ s.read_point then
      return { s with curr_word, next_word, incnt := num_bits, incnt_next := 0 }
    else
      let i := s.data_end_pos - s.read_point
      let next_word := AVCDecBitstream.loadBytes v i
      let curr_word := curr_word ||| (← shr next_word num_bits)
      let next_word ← shl (← shl next_word (31 - num_bits)) 1
      let incnt := s.incnt + s.incnt_next
      let incnt_next := (i <<< 3 : Nat) - (32 - incnt)
      if incnt_next < 0 then
        return { s with
          curr_word, next_word, read_point := s.data_end_pos
          incnt := incnt + (i <<< 3 : Nat), incnt_next := 0 }
      else
        return { s with
          curr_word, next_word, read_point := s.data_end_pos, incnt := 32, incnt_next }
  else
    let next_word := ((v.getD 0 0).toNat <<< 24) ||| ((v.getD 1 0).toNat <<< 16) |||
      ((v.getD 2 0).toNat <<< 8) ||| (v.getD 3 0).toNat
    let curr_word := curr_word ||| (← shr next_word num_bits)
    let next_word ← shl (← shl next_word (31 - num_bits)) 1
    return { s with
      curr_word, next_word, read_point := s.read_point + 4
      incnt_next := s.incnt_next + s.incnt, incnt := 32 }

/-- `if (stream->incnt < nbits) BitstreamFillCache(stream)`. -/
def fillBelow (s : BitstreamDecVideo) (nbits : Int) : Option BitstreamDecVideo :=
  if s.incnt < nbits then s.BitstreamFillCache else some s

def PV_BitstreamFlushBits (s : BitstreamDecVideo) (nbits : Nat) : Option BitstreamDecVideo :=
  (shl s.curr_word nbits).map fun curr_word =>
    { s with bitcnt := addCount s.bitcnt nbits, incnt := s.incnt - nbits, curr_word }

/-- `BitstreamShowBits32`; `BitstreamShowBits16` is the same. -/
def BitstreamShowBits32 (s : BitstreamDecVideo) (nbits : Nat) :
    Option (BitstreamDecVideo × Nat) := do
  let s ← s.fillBelow nbits
  return (s, ← shr s.curr_word (32 - nbits))

def BitstreamShow15Bits (s : BitstreamDecVideo) : Option (BitstreamDecVideo × Nat) :=
  s.BitstreamShowBits32 15

def BitstreamShow13Bits (s : BitstreamDecVideo) : Option (BitstreamDecVideo × Nat) :=
  s.BitstreamShowBits32 13

def BitstreamShowBits32HC (s : BitstreamDecVideo) : Option (BitstreamDecVideo × Nat) := do
  let s ← s.fillBelow 32
  return (s, s.curr_word)

/-- `BitstreamReadBits32`; `BitstreamReadBits16` is the same. -/
def BitstreamReadBits32 (s : BitstreamDecVideo) (nbits : Nat) :
    Option (BitstreamDecVideo × Nat) := do
  let s ← s.fillBelow nbits
  let code ← shr s.curr_word (32 - nbits)
  return (← s.PV_BitstreamFlushBits nbits, code)

def BitstreamRead1Bits (s : BitstreamDecVideo) : Option (BitstreamDecVideo × Nat) :=
  s.BitstreamReadBits32 1

def BitstreamReadBits32HC (s : BitstreamDecVideo) : Option (BitstreamDecVideo × Nat) := do
  let (s, code) ← s.BitstreamShowBits32HC
  return ({ s with bitcnt := addCount s.bitcnt 32, incnt := 0, curr_word := 0 }, code)

/-- What the count of the current word came short of goes back. -/
def giveBack (s : BitstreamDecVideo) : BitstreamDecVideo :=
  if s.incnt < 0 then { s with bitcnt := addCount s.bitcnt s.incnt, incnt := 0 } else s

def PV_BitstreamFlushBitsCheck (s : BitstreamDecVideo) (nbits : Nat) :
    Option BitstreamDecVideo := do
  let s := { s with bitcnt := addCount s.bitcnt nbits, incnt := s.incnt - nbits }
  let s ← if s.incnt < 0 then s.BitstreamFillCache.map giveBack else some s
  return { s with curr_word := ← shl s.curr_word nbits }

/-- `n_stuffed` of the forced alignment. -/
def n_stuffed (s : BitstreamDecVideo) : Nat := 8 - s.bitcnt % 8

/-- `n_stuffed` of the other one. -/
def n_stuffedNoForce (s : BitstreamDecVideo) : Nat := (8 - s.bitcnt % 8) % 8

def PV_BitstreamShowBitsByteAlign (s : BitstreamDecVideo) (nbits : Nat) :
    Option (BitstreamDecVideo × Nat) := do
  let n := s.n_stuffed
  let s ← s.fillBelow (nbits + n)
  return (s, ← shr (← shl s.curr_word n) (32 - nbits))

def PV_BitstreamByteAlign (s : BitstreamDecVideo) : Option BitstreamDecVideo := do
  let n := s.n_stuffed
  let s ← s.fillBelow n
  return (← s.PV_BitstreamFlushBits n).giveBack

def BitstreamByteAlignNoForceStuffing (s : BitstreamDecVideo) : Option BitstreamDecVideo :=
  (s.PV_BitstreamFlushBits s.n_stuffedNoForce).map giveBack

def getPointer (s : BitstreamDecVideo) : Int := toInt32 s.bitcnt

def movePointerTo (s : BitstreamDecVideo) (pos : Int) : Option BitstreamDecVideo := do
  let pos := pos.toNat
  let byte_pos := min (pos / 8) s.data_end_pos
  let read_point := byte_pos - byte_pos % 4
  let s : BitstreamDecVideo :=
    { s with
      read_point, bitcnt := addCount 0 (read_point * 8 : Nat)
      curr_word := 0, next_word := 0, incnt := 0, incnt_next := 0 }
  let s ← s.BitstreamFillCache
  s.PV_BitstreamFlushBits (pos % 8 + byte_pos % 4 * 8)

end BitstreamDecVideo

/-- The calls of the reader; the last one is `movePointerTo(getPointer())`. -/
inductive DecCall where
  | showBits (nbits : Nat)
  | showBits32HC
  | readBits (nbits : Nat)
  | readBits32HC
  | flushBits (nbits : Nat)
  | flushBitsCheck (nbits : Nat)
  | showBitsByteAlign (nbits : Nat)
  | byteAlign
  | byteAlignNoForceStuffing
  | getPointer
  | movePointerTo (pos : Int)
  | moveToPointer
  deriving DecidableEq

/-- One call: the stream behind it, and its answer. -/
def decCall (s : BitstreamDecVideo) : DecCall → Option (BitstreamDecVideo × Int)
  | .showBits n => (s.BitstreamShowBits32 n).map fun r => (r.1, r.2)
  | .showBits32HC => s.BitstreamShowBits32HC.map fun r => (r.1, r.2)
  | .readBits n => (s.BitstreamReadBits32 n).map fun r => (r.1, r.2)
  | .readBits32HC => s.BitstreamReadBits32HC.map fun r => (r.1, r.2)
  | .flushBits n => (s.PV_BitstreamFlushBits n).map fun s => (s, 0)
  | .flushBitsCheck n => (s.PV_BitstreamFlushBitsCheck n).map fun s => (s, 0)
  | .showBitsByteAlign n => (s.PV_BitstreamShowBitsByteAlign n).map fun r => (r.1, r.2)
  | .byteAlign => s.PV_BitstreamByteAlign.map fun s => (s, 0)
  | .byteAlignNoForceStuffing => s.BitstreamByteAlignNoForceStuffing.map fun s => (s, 0)
  | .getPointer => some (s, s.getPointer)
  | .movePointerTo pos => (s.movePointerTo pos).map fun s => (s, 0)
  | .moveToPointer => (s.movePointerTo s.getPointer).map fun s => (s, 0)

/-! ## 2. The bits of the buffer -/

/-- A call on the bits of the buffer at a position: the position behind it and the answer, where
    the call stays within the buffer and its positions within an `int32`. -/
def bitsCall (D : List Bool) (p : Nat) : DecCall → Option (Nat × Int)
  | .showBits n =>
    if 1 ≤ n ∧ n ≤ 32 ∧ p + n ≤ D.length then some (p, num ((D.drop p).take n)) else none
  | .showBits32HC =>
    if p + 32 ≤ D.length then some (p, num ((D.drop p).take 32)) else none
  | .readBits n =>
    if 1 ≤ n ∧ n ≤ 32 ∧ p + n ≤ D.length then some (p + n, num ((D.drop p).take n)) else none
  | .readBits32HC =>
    if p + 32 ≤ D.length then some (p + 32, num ((D.drop p).take 32)) else none
  | .flushBits n | .flushBitsCheck n =>
    if 1 ≤ n ∧ n ≤ 32 ∧ p + n ≤ D.length then some (p + n, 0) else none
  | .showBitsByteAlign n =>
    let q := (p / 8 + 1) * 8
    if 1 ≤ n ∧ n ≤ 32 ∧ q + n ≤ D.length then some (p, num ((D.drop q).take n)) else none
  | .byteAlign =>
    if (p / 8 + 1) * 8 ≤ D.length then some ((p / 8 + 1) * 8, 0) else none
  | .byteAlignNoForceStuffing => some ((p + 7) / 8 * 8, 0)
  | .getPointer => if p < 2147483648 then some (p, p) else none
  | .movePointerTo pos => if pos ≤ D.length then some (pos.toNat, 0) else none
  | .moveToPointer => if p < 2147483648 then some (p, 0) else none

/-- Every call that stays within the buffer is defined, returns what the buffer has there, and
    leaves the position of the next bit in `bitcnt`. -/
def Agrees (D : List Bool) : BitstreamDecVideo → Nat → List DecCall → Prop
  | _, _, [] => True
  | s, p, c :: cs =>
    match bitsCall D p c with
    | none => True
    | some (q, answer) =>
      match decCall s c with
      | none => False
      | some (s, a) => a = answer ∧ s.bitcnt = q % 4294967296 ∧ Agrees D s q cs

instance decidableAgrees (D : List Bool) :
    ∀ (s : BitstreamDecVideo) (p : Nat) (calls : List DecCall), Decidable (Agrees D s p calls)
  | _, _, [] => isTrue trivial
  | s, p, c :: cs =>
    have inner (q : Nat) (answer : Int) (o : Option (BitstreamDecVideo × Int)) :
        Decidable (match o with
          | none => False
          | some (s, a) => a = answer ∧ s.bitcnt = q % 4294967296 ∧ Agrees D s q cs) :=
      match o with
      | none => isFalse id
      | some (s, _) =>
        have := decidableAgrees D s q cs
        inferInstance
    have outer (o : Option (Nat × Int)) : Decidable (match o with
        | none => True
        | some (q, answer) =>
          match decCall s c with
          | none => False
          | some (s, a) => a = answer ∧ s.bitcnt = q % 4294967296 ∧ Agrees D s q cs) :=
      match o with
      | none => isTrue trivial
      | some (q, answer) => inner q answer (decCall s c)
    outer (bitsCall D p c)

/-- A call the reader was made for: reads and flushes of at most 31 bits, flushes of bits in the
    current word, an alignment without forced stuffing over bits in the current word, bits shown
    behind an alignment that fit a word with the stuffing. -/
def CallFits (s : BitstreamDecVideo) : DecCall → Prop
  | .readBits n => n ≤ 31
  | .flushBits n | .flushBitsCheck n => n ≤ 31 ∧ n ≤ s.incnt
  | .showBitsByteAlign n => n + s.n_stuffed ≤ 32
  | .byteAlignNoForceStuffing => s.n_stuffedNoForce ≤ s.incnt
  | _ => True

/-- Every call of a sequence that stays within the buffer fits. -/
def CallsFit (D : List Bool) : BitstreamDecVideo → Nat → List DecCall → Prop
  | _, _, [] => True
  | s, p, c :: cs =>
    match bitsCall D p c with
    | none => True
    | some (q, _) =>
      CallFits s c ∧
        match decCall s c with
        | none => True
        | some (s, _) => CallsFit D s q cs

instance decidableCallFits (s : BitstreamDecVideo) : ∀ c : DecCall, Decidable (CallFits s c)
  | .readBits n => inferInstanceAs (Decidable (n ≤ 31))
  | .flushBits n | .flushBitsCheck n => inferInstanceAs (Decidable (n ≤ 31 ∧ (n : Int) ≤ s.incnt))
  | .showBitsByteAlign n => inferInstanceAs (Decidable (n + s.n_stuffed ≤ 32))
  | .byteAlignNoForceStuffing =>
    inferInstanceAs (Decidable ((s.n_stuffedNoForce : Int) ≤ s.incnt))
  | .showBits _ | .showBits32HC | .readBits32HC | .byteAlign | .getPointer | .movePointerTo _
  | .moveToPointer => isTrue trivial

instance decidableCallsFit (D : List Bool) :
    ∀ (s : BitstreamDecVideo) (p : Nat) (calls : List DecCall), Decidable (CallsFit D s p calls)
  | _, _, [] => isTrue trivial
  | s, p, c :: cs =>
    have inner (q : Nat) (o : Option (BitstreamDecVideo × Int)) :
        Decidable (match o with
          | none => True
          | some (s, _) => CallsFit D s q cs) :=
      match o with
      | none => isTrue trivial
      | some (s, _) => decidableCallsFit D s q cs
    have outer (o : Option (Nat × Int)) : Decidable (match o with
        | none => True
        | some (q, _) =>
          CallFits s c ∧
            match decCall s c with
            | none => True
            | some (s, _) => CallsFit D s q cs) :=
      match o with
      | none => isTrue trivial
      | some (q, _) =>
        have := inner q (decCall s c)
        inferInstance
    outer (bitsCall D p c)

/-! ## 3. The cache -/

/-- The reader as one of the AVC decoder at a position. -/
def toAvc (s : BitstreamDecVideo) (p : Int) : AVCDecBitstream where
  bitstreamBuffer := s.bitstreamBuffer
  nal_size := s.data_end_pos
  data_end_pos := s.data_end_pos
  read_pos := s.read_point
  curr_word := s.curr_word
  next_word := s.next_word
  bitcnt := p
  incnt := s.incnt
  incnt_next := s.incnt_next

theorem shr_eq {w : Nat} {n : Int} (h0 : 0 ≤ n) (h : n ≤ 31) : shr w n = some (w >>> n.toNat) :=
  if_pos ⟨h0, h⟩

theorem shl_eq {w : Nat} {n : Int} (h0 : 0 ≤ n) (h : n ≤ 31) :
    shl w n = some ((w <<< n.toNat) % 2 ^ 32) :=
  if_pos ⟨h0, h⟩

theorem addCount_mod (p k : Nat) : addCount (p % 4294967296) k = (p + k) % 4294967296 := by
  unfold addCount
  omega

section Fill

variable {s : BitstreamDecVideo}

/-- **The same cache**: where the current word has 0 to 31 bits, filling is defined and is that of
    the AVC decoder. -/
theorem fill_toAvc (p : Int) (h0 : 0 ≤ s.incnt) (h31 : s.incnt ≤ 31) (hnext : 0 ≤ s.incnt_next) :
    ∃ s', s.BitstreamFillCache = some s' ∧ s'.bitcnt = s.bitcnt ∧
      toAvc s' p = (toAvc s p).AVC_BitstreamFillCache := by
  have hshr := shr_eq (w := s.next_word) h0 h31
  have hshl := shl_eq (w := s.next_word) (n := 31 - s.incnt) (by omega) (by omega)
  have hone : ∀ w, shl w 1 = some ((w <<< 1) % 2 ^ 32) := fun w => shl_eq (by decide) (by decide)
  unfold BitstreamDecVideo.BitstreamFillCache AVCDecBitstream.AVC_BitstreamFillCache
  simp only [hshr, hshl, hone, bind_eq_bind, bind_some, toAvc]
  by_cases hnum : s.incnt_next + s.incnt ≥ 32
  · rw [if_pos hnum]
    exact ⟨_, rfl, rfl, (if_pos hnum).symm⟩
  have hshr' : ∀ w, shr w (s.incnt_next + s.incnt) = some (w >>> (s.incnt_next + s.incnt).toNat) :=
    fun w => shr_eq (by omega) (by omega)
  have hshl' : ∀ w, shl w (31 - (s.incnt_next + s.incnt)) =
      some ((w <<< (31 - (s.incnt_next + s.incnt)).toNat) % 2 ^ 32) :=
    fun w => shl_eq (by omega) (by omega)
  rw [if_neg hnum]
  simp only [hshr', hshl', bind_some]
  by_cases hend : (s.read_point : Int) > (s.data_end_pos : Int) - 4
  · rw [if_pos hend]
    by_cases hover : s.data_end_pos ≤ s.read_point
    · rw [if_pos hover]
      exact ⟨_, rfl, rfl, ((if_neg hnum).trans ((if_pos hend).trans (if_pos hover))).symm⟩
    rw [if_neg hover]
    by_cases hneg : ((s.data_end_pos - s.read_point) <<< 3 : Nat) -
        (32 - (s.incnt + s.incnt_next)) < (0 : Int)
    · rw [if_pos hneg]
      exact ⟨_, rfl, rfl,
        ((if_neg hnum).trans ((if_pos hend).trans ((if_neg hover).trans (if_pos hneg)))).symm⟩
    · rw [if_neg hneg]
      exact ⟨_, rfl, rfl,
        ((if_neg hnum).trans ((if_pos hend).trans ((if_neg hover).trans (if_neg hneg)))).symm⟩
  · rw [if_neg hend]
    exact ⟨_, rfl, rfl, ((if_neg hnum).trans (if_neg hend)).symm⟩

end Fill

/-- The reader over the buffer `r` stands at bit `p`; `n` and `m` bits are in its two words. -/
structure Cached (r : List UInt8) (s : BitstreamDecVideo) (p n m : Nat) : Prop where
  reads : Reads r (toAvc s p) p n m
  count : s.bitcnt = p % 4294967296

variable {k : Nat}

section Calls

variable {r : List UInt8} {s : BitstreamDecVideo} {p n m : Nat}

theorem Cached.reset (r : List UInt8) : Cached r (.BitstreamReset r) 0 0 0 := by
  have h := Reads.opened r []
  rw [List.append_nil] at h
  exact ⟨h, rfl⟩

section

variable (h : Cached r s p n m)
include h

theorem Cached.incnt : s.incnt = n := h.reads.incnt

/-- Filling the cache keeps the position; as many of the next 32 bits as there are come into the
    current word. -/
theorem Cached.fill (hn : n ≤ 31) :
    ∃ s' m', s.BitstreamFillCache = some s' ∧
      Cached r s' p (min 32 (8 * r.length - p)) m' := by
  have hin := h.incnt
  have hnext : s.incnt_next = m := h.reads.incnt_next
  obtain ⟨m', hfill⟩ := h.reads.fill hn
  obtain ⟨s', hs', hcount, havc⟩ := fill_toAvc (s := s) p (by omega) (by omega) (by omega)
  rw [← havc] at hfill
  exact ⟨s', m', hs', hfill, hcount.trans h.count⟩

/-- The cache is filled when it has fewer bits than wanted. -/
theorem Cached.fillBelow (hk : k ≤ 32) :
    ∃ s' n' m', s.fillBelow k = some s' ∧ Cached r s' p n' m' ∧
      (k ≤ n' ∨ n' = 8 * r.length - p) := by
  have hin := h.incnt
  unfold BitstreamDecVideo.fillBelow
  by_cases hlt : s.incnt < k
  · rw [if_pos hlt]
    obtain ⟨s', m', hs', h'⟩ := h.fill (by omega)
    exact ⟨s', _, m', hs', h', by omega⟩
  · rw [if_neg hlt]
    exact ⟨s, n, m, rfl, h, .inl (by omega)⟩

/-- The first bits of the current word are the next bits. -/
theorem Cached.value (hk : k ≤ 32)
    (hn : k ≤ n ∨ n = 8 * r.length - p) (hin : p + k ≤ 8 * r.length) :
    s.curr_word >>> (32 - k) = num (((bits r).drop p).take k) := by
  rw [← fit_drop hin]
  exact h.reads.value hk hn

/-- Bits of the current word are flushed. -/
theorem Cached.flush (hk : k ≤ n) (h31 : k ≤ 31) :
    ∃ s', s.PV_BitstreamFlushBits k = some s' ∧ Cached r s' (p + k) (n - k) m := by
  rw [BitstreamDecVideo.PV_BitstreamFlushBits, shl_eq (Int.natCast_nonneg k) (by omega)]
  refine ⟨_, rfl, ?_, ?_⟩
  · have hflush := h.reads.flush hk
    rw [AVCDecBitstream.BitstreamFlushBits] at hflush
    exact hflush
  · show addCount s.bitcnt k = _
    rw [h.count, addCount_mod]

/-- The next `k` bits, at the top of the current word. -/
theorem Cached.top (hk1 : 1 ≤ k) (hk : k ≤ 32)
    (hn : k ≤ n ∨ n = 8 * r.length - p) (hin : p + k ≤ 8 * r.length) :
    shr s.curr_word (32 - k) = some (num (((bits r).drop p).take k)) := by
  have hsub : (32 - k : Int).toNat = 32 - k := by omega
  rw [shr_eq (by omega) (by omega), hsub, h.value hk hn hin]

theorem Cached.showBits (hk1 : 1 ≤ k) (hk : k ≤ 32)
    (hin : p + k ≤ 8 * r.length) :
    ∃ s' n' m', s.BitstreamShowBits32 k = some (s', num (((bits r).drop p).take k)) ∧
      Cached r s' p n' m' := by
  obtain ⟨s', n', m', hs', h', hn'⟩ := h.fillBelow hk
  refine ⟨s', n', m', ?_, h'⟩
  simp only [BitstreamDecVideo.BitstreamShowBits32, hs', h'.top hk1 hk hn' hin,
    bind_eq_bind, bind_some, pure_def]

theorem Cached.showBits32HC (hin : p + 32 ≤ 8 * r.length) :
    ∃ s' m', s.BitstreamShowBits32HC = some (s', num (((bits r).drop p).take 32)) ∧
      Cached r s' p 32 m' := by
  obtain ⟨s', n', m', hs', h', hn'⟩ := h.fillBelow (Nat.le_refl 32)
  have hle := h'.reads.incnt_le
  obtain rfl : n' = 32 := by omega
  refine ⟨s', m', ?_, h'⟩
  have hv := h'.value (Nat.le_refl 32) hn' hin
  rw [Nat.sub_self, Nat.shiftRight_zero] at hv
  have hs32 : s.fillBelow 32 = some s' := hs'
  simp only [BitstreamDecVideo.BitstreamShowBits32HC, hs32, hv, bind_eq_bind,
    bind_some, pure_def]

theorem Cached.readBits (hk1 : 1 ≤ k) (hk : k ≤ 31)
    (hin : p + k ≤ 8 * r.length) :
    ∃ s' n' m', s.BitstreamReadBits32 k = some (s', num (((bits r).drop p).take k)) ∧
      Cached r s' (p + k) n' m' := by
  obtain ⟨s', n', m', hs', h', hn'⟩ := h.fillBelow (k := k) (by omega)
  obtain ⟨s'', hs'', h''⟩ := h'.flush (k := k) (by omega) hk
  refine ⟨s'', _, m', ?_, h''⟩
  simp only [BitstreamDecVideo.BitstreamReadBits32, hs', h'.top hk1 (by omega) hn' hin, hs'',
    bind_eq_bind, bind_some, pure_def]

/-- Thirty-two bits are read: nothing is left of the current word. -/
theorem Cached.readBits32HC (hin : p + 32 ≤ 8 * r.length) :
    ∃ s' n' m', s.BitstreamReadBits32HC = some (s', num (((bits r).drop p).take 32)) ∧
      Cached r s' (p + 32) n' m' := by
  obtain ⟨s', m', hs', h'⟩ := h.showBits32HC hin
  refine ⟨_, 0, m', by rw [BitstreamDecVideo.BitstreamReadBits32HC, hs']; rfl, ?_, ?_⟩
  · have hflush := h'.reads.flush (Nat.le_refl 32)
    have hword : (s'.curr_word <<< 32) % 2 ^ 32 = 0 := by
      rw [Nat.shiftLeft_eq, Nat.mul_mod_left]
    have hcount : s'.incnt - (32 : Nat) = 0 := by
      rw [h'.incnt]
      decide
    rw [AVCDecBitstream.BitstreamFlushBits] at hflush
    simp only [toAvc, hword, hcount] at hflush
    exact hflush
  · show addCount s'.bitcnt (32 : Nat) = _
    rw [h'.count, addCount_mod]

/-- Nothing is given back where the current word had the bits. -/
theorem Cached.giveBack : s.giveBack = s := by
  have := h.incnt
  exact if_neg (by omega)

/-- Bits of the current word are flushed, with the check. -/
theorem Cached.flushCheck (hk : k ≤ n) (h31 : k ≤ 31) :
    s.PV_BitstreamFlushBitsCheck k = s.PV_BitstreamFlushBits k := by
  have hin := h.incnt
  have hneg : ¬ s.incnt - (k : Int) < 0 := by omega
  simp only [BitstreamDecVideo.PV_BitstreamFlushBitsCheck, BitstreamDecVideo.PV_BitstreamFlushBits,
    shl_eq (w := s.curr_word) (n := k) (by omega) (by omega), if_neg hneg, bind_eq_bind,
    bind_some, map_some, pure_def]

/-- The stuffing ends at the next byte boundary. -/
theorem Cached.n_stuffed : p + s.n_stuffed = (p / 8 + 1) * 8 := by
  rw [BitstreamDecVideo.n_stuffed, h.count]
  omega

theorem Cached.n_stuffedNoForce :
    p + s.n_stuffedNoForce = (p + 7) / 8 * 8 := by
  rw [BitstreamDecVideo.n_stuffedNoForce, h.count]
  omega

/-- Bits behind the stuffing are shown. -/
theorem Cached.showBitsByteAlign (hk1 : 1 ≤ k)
    (hfit : k + s.n_stuffed ≤ 32) (hin : (p / 8 + 1) * 8 + k ≤ 8 * r.length) :
    ∃ s' n' m', s.PV_BitstreamShowBitsByteAlign k =
        some (s', num (((bits r).drop ((p / 8 + 1) * 8)).take k)) ∧ Cached r s' p n' m' := by
  obtain ⟨j, hj⟩ : ∃ j, s.n_stuffed = j := ⟨_, rfl⟩
  have hnext := h.n_stuffed
  rw [hj] at hnext hfit
  rw [← hnext] at hin ⊢
  obtain ⟨s', n', m', hs', h', hn'⟩ := h.fillBelow hfit
  obtain ⟨s'', hs'', h''⟩ := h'.flush (k := j) (by omega) (by omega)
  have hcast : ((k + j : Nat) : Int) = k + j := Nat.cast_add k j
  rw [hcast] at hs'
  -- the word that is shown is the one a flush of the stuffing leaves
  rw [BitstreamDecVideo.PV_BitstreamFlushBits, map_eq_some_iff] at hs''
  obtain ⟨w, hw, rfl⟩ := hs''
  have htop : shr w (32 - k) = _ := h''.top hk1 (by omega) (by omega) hin
  refine ⟨s', n', m', ?_, h'⟩
  simp only [BitstreamDecVideo.PV_BitstreamShowBitsByteAlign, hj, hs', hw, htop,
    bind_eq_bind, bind_some, pure_def]

/-- The forced alignment stops at the next byte boundary. -/
theorem Cached.byteAlign (hin : (p / 8 + 1) * 8 ≤ 8 * r.length) :
    ∃ s' n' m', s.PV_BitstreamByteAlign = some s' ∧ Cached r s' ((p / 8 + 1) * 8) n' m' := by
  obtain ⟨j, hj⟩ : ∃ j, s.n_stuffed = j := ⟨_, rfl⟩
  have hnext := h.n_stuffed
  rw [hj] at hnext
  rw [← hnext] at hin ⊢
  obtain ⟨s', n', m', hs', h', hn'⟩ := h.fillBelow (k := j) (by omega)
  obtain ⟨s'', hs'', h''⟩ := h'.flush (k := j) (by omega) (by omega)
  refine ⟨s'', _, m', ?_, h''⟩
  simp only [BitstreamDecVideo.PV_BitstreamByteAlign, hj, hs', hs'', h''.giveBack,
    bind_eq_bind, bind_some, pure_def]

/-- The other alignment stops at the byte boundary where the bits up to it are in the current
    word. -/
theorem Cached.byteAlignNoForce (hfit : s.n_stuffedNoForce ≤ s.incnt) :
    ∃ s' n' m', s.BitstreamByteAlignNoForceStuffing = some s' ∧
      Cached r s' ((p + 7) / 8 * 8) n' m' := by
  obtain ⟨j, hj⟩ : ∃ j, s.n_stuffedNoForce = j := ⟨_, rfl⟩
  have hnext := h.n_stuffedNoForce
  have hin := h.incnt
  rw [hj] at hnext hfit
  rw [← hnext]
  obtain ⟨s', hs', h'⟩ := h.flush (k := j) (by omega) (by omega)
  refine ⟨s', _, m, ?_, h'⟩
  rw [BitstreamDecVideo.BitstreamByteAlignNoForceStuffing, hj, hs', map_some, h'.giveBack]

/-- Moving to a position within the buffer. -/
theorem Cached.movePointerTo (pos : Int) (hpos : pos ≤ 8 * r.length) :
    ∃ s' n' m', s.movePointerTo pos = some s' ∧ Cached r s' pos.toNat n' m' := by
  obtain ⟨P, hP⟩ : ∃ P, pos.toNat = P := ⟨_, rfl⟩
  have hend : s.data_end_pos = r.length := h.reads.end_pos
  have hmin : min (P / 8) r.length = P / 8 := by omega
  have hle : P / 8 - P / 8 % 4 ≤ r.length := by omega
  obtain ⟨start, hstart⟩ : ∃ start : BitstreamDecVideo, start =
      { s with
        read_point := P / 8 - P / 8 % 4, bitcnt := addCount 0 ((P / 8 - P / 8 % 4) * 8 : Nat)
        curr_word := 0, next_word := 0, incnt := 0, incnt_next := 0 } := ⟨_, rfl⟩
  have hc : Cached r start ((P / 8 - P / 8 % 4) * 8) 0 0 := by
    rw [hstart]
    exact {
      reads := {
        buffer := h.reads.buffer
        end_pos := hend
        pos_le := hle
        cached := by show (P / 8 - P / 8 % 4) * 8 + 0 + 0 = 8 * (P / 8 - P / 8 % 4); omega
        count := rfl
        incnt := rfl
        incnt_le := Nat.zero_le _
        curr := by rw [List.take_zero, word_nil]; rfl
        incnt_next := rfl
        next_le := Nat.zero_le _
        next := by rw [List.take_zero, word_nil]; rfl }
      count := by
        have := addCount_mod 0 ((P / 8 - P / 8 % 4) * 8)
        rw [Nat.zero_mod, Nat.zero_add] at this
        exact this }
  obtain ⟨s', m', hs', h'⟩ := hc.fill (by omega)
  obtain ⟨s'', hs'', h''⟩ := h'.flush (k := P % 8 + P / 8 % 4 * 8) (by omega) (by omega)
  have hback : (P / 8 - P / 8 % 4) * 8 + (P % 8 + P / 8 % 4 * 8) = P := by omega
  rw [hback] at h''
  refine ⟨s'', _, m', ?_, by rw [hP]; exact h''⟩
  have hmove : s.movePointerTo pos = start.BitstreamFillCache.bind fun s =>
      s.PV_BitstreamFlushBits (P % 8 + P / 8 % 4 * 8) := by
    rw [hstart, BitstreamDecVideo.movePointerTo]
    simp only [hP, hend, hmin, bind_eq_bind]
  rw [hmove, hs', bind_some, hs'']

theorem Cached.pos_le : p ≤ 8 * r.length := by
  have h1 := h.reads.cached
  have h2 := h.reads.pos_le
  omega

/-- The pointer is the position as long as an `int32` can hold it. -/
theorem Cached.getPointer (hp : p < 2147483648) : s.getPointer = p := by
  rw [BitstreamDecVideo.getPointer, h.count, Nat.mod_eq_of_lt (by omega), toInt32_eq (by omega)]

/-- **One call** that fits and stays within the buffer. -/
theorem Cached.call {c : DecCall} {q : Nat} {answer : Int}
    (hs : bitsCall (bits r) p c = some (q, answer)) (hfit : CallFits s c) :
    ∃ s' n' m', decCall s c = some (s', answer) ∧ Cached r s' q n' m' := by
  cases c with
  | showBits k =>
    simp only [bitsCall, bits_length, ite_none_right_eq_some] at hs
    obtain ⟨⟨h1, h32, hin⟩, he⟩ := hs
    cases he
    obtain ⟨s', n', m', hs', h'⟩ := h.showBits h1 h32 hin
    exact ⟨s', n', m', by rw [decCall, hs', map_some], h'⟩
  | showBits32HC =>
    simp only [bitsCall, bits_length, ite_none_right_eq_some] at hs
    obtain ⟨hin, he⟩ := hs
    cases he
    obtain ⟨s', m', hs', h'⟩ := h.showBits32HC hin
    exact ⟨s', _, m', by rw [decCall, hs', map_some], h'⟩
  | readBits k =>
    simp only [bitsCall, bits_length, ite_none_right_eq_some] at hs
    obtain ⟨⟨h1, -, hin⟩, he⟩ := hs
    cases he
    obtain ⟨s', n', m', hs', h'⟩ := h.readBits h1 hfit hin
    exact ⟨s', n', m', by rw [decCall, hs', map_some], h'⟩
  | readBits32HC =>
    simp only [bitsCall, bits_length, ite_none_right_eq_some] at hs
    obtain ⟨hin, he⟩ := hs
    cases he
    obtain ⟨s', n', m', hs', h'⟩ := h.readBits32HC hin
    exact ⟨s', n', m', by rw [decCall, hs', map_some], h'⟩
  | flushBits k =>
    simp only [bitsCall, ite_none_right_eq_some] at hs
    obtain ⟨-, he⟩ := hs
    cases he
    obtain ⟨h31, hle⟩ := hfit
    rw [h.incnt] at hle
    obtain ⟨s', hs', h'⟩ := h.flush (k := k) (by omega) h31
    exact ⟨s', _, m, by rw [decCall, hs', map_some], h'⟩
  | flushBitsCheck k =>
    simp only [bitsCall, ite_none_right_eq_some] at hs
    obtain ⟨-, he⟩ := hs
    cases he
    obtain ⟨h31, hle⟩ := hfit
    rw [h.incnt] at hle
    obtain ⟨s', hs', h'⟩ := h.flush (k := k) (by omega) h31
    rw [← h.flushCheck (by omega) h31] at hs'
    exact ⟨s', _, m, by rw [decCall, hs', map_some], h'⟩
  | showBitsByteAlign k =>
    simp only [bitsCall, bits_length, ite_none_right_eq_some] at hs
    obtain ⟨⟨h1, -, hin⟩, he⟩ := hs
    cases he
    obtain ⟨s', n', m', hs', h'⟩ := h.showBitsByteAlign h1 hfit hin
    exact ⟨s', n', m', by rw [decCall, hs', map_some], h'⟩
  | byteAlign =>
    simp only [bitsCall, bits_length, ite_none_right_eq_some] at hs
    obtain ⟨hin, he⟩ := hs
    cases he
    obtain ⟨s', n', m', hs', h'⟩ := h.byteAlign hin
    exact ⟨s', n', m', by rw [decCall, hs', map_some], h'⟩
  | byteAlignNoForceStuffing =>
    cases hs
    obtain ⟨s', n', m', hs', h'⟩ := h.byteAlignNoForce hfit
    exact ⟨s', n', m', by rw [decCall, hs', map_some], h'⟩
  | getPointer =>
    simp only [bitsCall, ite_none_right_eq_some] at hs
    obtain ⟨hp, he⟩ := hs
    cases he
    exact ⟨s, n, m, by rw [decCall, h.getPointer hp], h⟩
  | movePointerTo pos =>
    simp only [bitsCall, bits_length, ite_none_right_eq_some] at hs
    obtain ⟨hin, he⟩ := hs
    cases he
    obtain ⟨s', n', m', hs', h'⟩ := h.movePointerTo pos (by omega)
    exact ⟨s', n', m', by rw [decCall, hs', map_some], h'⟩
  | moveToPointer =>
    simp only [bitsCall, ite_none_right_eq_some] at hs
    obtain ⟨hp, he⟩ := hs
    cases he
    have hle := h.pos_le
    obtain ⟨s', n', m', hs', h'⟩ := h.movePointerTo p (by omega)
    exact ⟨s', n', m', by rw [decCall, h.getPointer hp, hs', map_some], h'⟩

/-- **A run of calls.** -/
theorem Cached.agrees (calls : List DecCall)
    (hfit : CallsFit (bits r) s p calls) : Agrees (bits r) s p calls := by
  induction calls generalizing s p n m with
  | nil => trivial
  | cons c cs ih =>
    unfold CallsFit at hfit
    unfold Agrees
    cases hs : bitsCall (bits r) p c with
    | none => trivial
    | some a =>
      obtain ⟨q, answer⟩ := a
      simp only [hs] at hfit
      obtain ⟨hf, hrest⟩ := hfit
      obtain ⟨s', n', m', hs', h'⟩ := h.call hs hf
      simp only [hs'] at hrest ⊢
      exact ⟨trivial, h'.count, ih h' hrest⟩

end

end Calls

/-! ## 4. The reader against the buffer -/

/-- **The bit reader.** For every frame buffer and every sequence of calls the reader was made for:
    as long as the calls stay within the buffer, each is defined and returns what the buffer has at
    its position, and `bitcnt` is the position behind it. -/
theorem reader_agrees (r : List UInt8) (calls : List DecCall)
    (h : CallsFit (bits r) (.BitstreamReset r) 0 calls) :
    Agrees (bits r) (.BitstreamReset r) 0 calls :=
  (Cached.reset r).agrees calls h

/-- Six bytes: bits are shown and flushed, the reader is aligned and moved, and reads on. -/
theorem reader_agrees_six_bytes :
    Agrees (bits [0x12, 0x34, 0x56, 0x78, 0x9A, 0xBC])
      (.BitstreamReset [0x12, 0x34, 0x56, 0x78, 0x9A, 0xBC]) 0
      [.showBits 32, .flushBits 5, .byteAlign, .readBits 8, .moveToPointer, .readBits 24] :=
  reader_agrees [0x12, 0x34, 0x56, 0x78, 0x9A, 0xBC] _ (by decide +kernel)

/-- Calls on which the reader leaves the buffer's bits: reading 32 bits without the HC form
    shifts by 32; where bits that were never shown are flushed from an empty word, the next fill
    shifts by a negative count; the alignment without forced stuffing stops one bit short. -/
theorem reader_leaves_bits :
    ¬ Agrees (bits [1, 2, 3, 4]) (.BitstreamReset [1, 2, 3, 4]) 0 [.readBits 32] ∧
    ¬ Agrees (bits [1, 2]) (.BitstreamReset [1, 2]) 0 [.flushBits 8, .readBits 8] ∧
    ¬ Agrees (bits (List.replicate 9 0xAA)) (.BitstreamReset (List.replicate 9 0xAA)) 0
      [.readBits 31, .readBits 5, .readBits 25, .byteAlignNoForceStuffing] := by
  decide +kernel

end OpenCore.M4vH263
