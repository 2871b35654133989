/-
  File:      OpenCore/H245/PerStream.lean
  Subject:   The bit streams of the PER coder (genericper.cpp): what is written to an output stream
             and read from an input stream, bit by bit.

  The sizes of an output stream have 16 bits. It grows by 64 octets at a time and up to 65472; one
  more octet can be written to it, and then its size is zero and nothing fits any more. In all of
  these states it holds what was written to it (`Holds`), or the writing does not return.

  **Main result**: `Holds.writeBits`, `Holds.writeOctets`, `readBits_inAt`, `readOctets_inAt`.
-/
import OpenCore.Lib.MsbBits

namespace OpenCore.H245

open MsbBits List

/-! ## 1. The output stream -/

/-- `S_OutStream`. `data` is the allocated space. -/
structure S_OutStream where
  data : List UInt8
  size : UInt16
  byteIndex : UInt16
  bitIndex : Nat
  buildByte : UInt8
  deriving DecidableEq

def STREAM_ADDITION : Nat := 64

def NewOutStream : S_OutStream := ⟨[], 0, 0, 0, 0⟩

/-- `ExpandOutStream`. What the new space holds is written before it is read. -/
def ExpandOutStream (x : S_OutStream) : S_OutStream :=
  { x with data := x.data.take x.size.toNat ++ List.replicate STREAM_ADDITION 0
           size := x.size + 64 }

/-- `WriteRemainingBits`; nothing where it writes outside the space. -/
def WriteRemainingBits (stream : S_OutStream) : Option S_OutStream :=
  if stream.bitIndex ≠ 0 then
    let stream := if stream.size.toNat < stream.byteIndex.toNat + 1 then ExpandOutStream stream
      else stream
    if stream.byteIndex.toNat < stream.data.length then
      some { stream with data := stream.data.set stream.byteIndex.toNat stream.buildByte
                         byteIndex := stream.byteIndex + 1
                         bitIndex := 0
                         buildByte := 0 }
    else none
  else some stream

/-- `WriteBits`, of up to eight bits. -/
def WriteBits (number bits : Nat) (stream : S_OutStream) : Option S_OutStream :=
  let bitSize := stream.bitIndex + number
  let temp := (bits <<< (8 - number)) % 256
  let stream := { stream with
    buildByte := stream.buildByte ||| UInt8.ofNat (temp >>> stream.bitIndex) }
  if 8 < bitSize then
    (WriteRemainingBits { stream with bitIndex := 8 }).map fun stream =>
      { stream with buildByte := UInt8.ofNat (bits <<< (16 - bitSize))
                    bitIndex := bitSize - 8 }
  else if bitSize < 8 then some { stream with bitIndex := bitSize }
  else WriteRemainingBits { stream with bitIndex := 8 }

/-- `while (byteIndex + number > size) ExpandOutStream(stream)`. After 1024 turns the size is the
    one it was: the loop does not end. -/
def expandFor (number : Nat) : Nat → S_OutStream → Option S_OutStream
  | 0, _ => none
  | turns + 1, stream =>
    if stream.size.toNat < stream.byteIndex.toNat + number then
      expandFor number turns (ExpandOutStream stream)
    else some stream

/-- `reorder`: up to four octets are turned around, on a machine that stores the low ones first. -/
def ordered (number : Nat) (reorder : Bool) (octets : List UInt8) : List UInt8 :=
  if number ≤ 4 ∧ reorder then (octets.take number).reverse else octets.take number

def WriteOctets (number : Nat) (octets : List UInt8) (reorder : Bool) (stream : S_OutStream) :
    Option S_OutStream := do
  let stream ← WriteRemainingBits stream
  let stream ← expandFor number 1024 stream
  if number = 0 then return stream
  else
    if stream.byteIndex.toNat + number ≤ stream.data.length then
      return { stream with
        data := stream.data.take stream.byteIndex.toNat ++ ordered number reorder octets ++
          stream.data.drop (stream.byteIndex.toNat + number)
        byteIndex := UInt16.ofNat (number + stream.byteIndex.toNat) }
    else none

/-! ## 2. The input stream -/

/-- `S_InStream`. `data` are the octets from the current one on. -/
structure S_InStream where
  data : List UInt8
  bitIndex : Nat
  deriving DecidableEq

def MaskBit : List Nat := [0xff, 0x7f, 0x3f, 0x1f, 0x0f, 0x07, 0x03, 0x01]

/-- `ReadBits`; nothing where it leaves, or reads outside the octets. -/
def ReadBits (number : Nat) (stream : S_InStream) : Option (Nat × S_InStream) :=
  if 8 < number then none
  else
    let mask := MaskBit.getD stream.bitIndex 0
    let bitSize := stream.bitIndex + number
    match stream.data with
    | [] => none
    | first :: rest =>
      let x := first.toNat &&& mask
      if 8 < bitSize then
        let nextBit := bitSize - 8
        match rest with
        | [] => none
        | second :: _ =>
          some ((x <<< nextBit) % 256 ||| (second.toNat &&& (255 - mask)) >>> (8 - nextBit),
            ⟨rest, nextBit⟩)
      else if bitSize < 8 then some (x >>> (8 - bitSize), ⟨stream.data, bitSize⟩)
      else some (x, ⟨rest, 0⟩)

def ReadRemainingBits (stream : S_InStream) : S_InStream :=
  if stream.bitIndex ≠ 0 then ⟨stream.data.tail, 0⟩ else stream

def ReadOctets (number : Nat) (reorder : Bool) (stream : S_InStream) :
    Option (List UInt8 × S_InStream) :=
  let stream := ReadRemainingBits stream
  if stream.data.length < number then none
  else
    some (ordered number reorder stream.data, { stream with data := stream.data.drop number })

/-! ## 3. Room -/

/-- The space is as long as the size says, and the octets are in it. -/
structure InSpace (s : S_OutStream) : Prop where
  steps : s.size.toNat % 64 = 0
  length : s.data.length = s.size.toNat
  byteIndex_le : s.byteIndex.toNat ≤ s.size.toNat

/-- The size was exceeded by one octet, and begins again. -/
structure Exceeded (s : S_OutStream) : Prop where
  size_eq : s.size = 0
  byteIndex_eq : s.byteIndex.toNat = 65473
  length : 65473 ≤ s.data.length

section Room

variable {s s' : S_OutStream} {number turns : Nat}

theorem size_expand (s : S_OutStream) :
    (ExpandOutStream s).size.toNat = (s.size.toNat + 64) % 65536 :=
  UInt16.toNat_add s.size 64

theorem InSpace.expand (h : InSpace s) (hlt : s.size.toNat < 65472) :
    InSpace (ExpandOutStream s) ∧
      (ExpandOutStream s).data.take s.byteIndex.toNat = s.data.take s.byteIndex.toNat := by
  have hsteps := h.steps
  have hsize := size_expand s
  have hle := h.byteIndex_le
  have htake : s.data.take s.size.toNat = s.data := by
    rw [← h.length, take_length]
  refine ⟨⟨by omega, ?_, ?_⟩, ?_⟩
  · rw [hsize, ExpandOutStream]
    dsimp only
    rw [htake, length_append, length_replicate, h.length]
    change _ + 64 = _
    omega
  · change s.byteIndex.toNat ≤ _
    omega
  · rw [ExpandOutStream]
    dsimp only
    rw [htake, take_append_of_le_length (by rw [h.length]; exact hle)]

/-- Without room in 65472 octets, the loop does not end. -/
theorem expandFor_none (hsteps : s.size.toNat % 64 = 0)
    (hlt : 65472 < s.byteIndex.toNat + number) : expandFor number turns s = none := by
  induction turns generalizing s with
  | zero => rfl
  | succ turns ih =>
    have hsize := s.size.toNat_lt
    have hexpand := size_expand s
    rw [expandFor, if_pos (by omega)]
    exact ih (by omega) hlt

/-- **The loop** finds the room, if there is any in 65472 octets. -/
theorem InSpace.expandFor (h : InSpace s) (hle : s.byteIndex.toNat + number ≤ 65472)
    (hturns : 65472 < s.size.toNat + 64 * turns) :
    ∃ s', H245.expandFor number turns s = some s' ∧ InSpace s' ∧
      s.byteIndex.toNat + number ≤ s'.size.toNat ∧ s'.byteIndex = s.byteIndex ∧
      s'.bitIndex = s.bitIndex ∧ s'.buildByte = s.buildByte ∧
      s'.data.take s.byteIndex.toNat = s.data.take s.byteIndex.toNat := by
  induction turns generalizing s with
  | zero =>
    have hsteps := h.steps
    have hsize := s.size.toNat_lt
    omega
  | succ turns ih =>
    rw [expandFor]
    by_cases hlt : s.size.toNat < s.byteIndex.toNat + number
    · rw [if_pos hlt]
      obtain ⟨hin, htake⟩ := h.expand (by omega)
      have hexpand := size_expand s
      obtain ⟨s', heq, hin', hroom, hbyte, hbit, hbuild, htake'⟩ := ih hin hle (by omega)
      exact ⟨s', heq, hin', hroom, hbyte, hbit, hbuild, htake'.trans htake⟩
    · rw [if_neg hlt]
      exact ⟨s, rfl, h, Nat.le_of_not_lt hlt, rfl, rfl, rfl, rfl⟩

theorem expandFor_some (h : InSpace s ∨ Exceeded s) (hsome : H245.expandFor number 1024 s = some s') :
    InSpace s ∧ s.byteIndex.toNat + number ≤ 65472 := by
  rcases h with h | h
  · refine ⟨h, ?_⟩
    by_contra hlt
    rw [expandFor_none h.steps (Nat.lt_of_not_le hlt)] at hsome
    cases hsome
  · rw [expandFor_none (by rw [h.size_eq]; rfl) (by rw [h.byteIndex_eq]; omega)] at hsome
    cases hsome

/-- **The octet under construction** goes behind the others. -/
theorem writeRemaining_octet (hbit : s.bitIndex ≠ 0) :
    (InSpace s → ∃ s', WriteRemainingBits s = some s' ∧ (InSpace s' ∨ Exceeded s') ∧
      s'.data.take s'.byteIndex.toNat = s.data.take s.byteIndex.toNat ++ [s.buildByte] ∧
      s'.bitIndex = 0 ∧ s'.buildByte = 0 ∧ s'.byteIndex.toNat = s.byteIndex.toNat + 1) ∧
    (Exceeded s → WriteRemainingBits s = none) := by
  constructor
  · intro h
    have hsteps := h.steps
    have hsize := s.size.toNat_lt
    have hle := h.byteIndex_le
    have hnext : (s.byteIndex + 1).toNat = s.byteIndex.toNat + 1 := by
      rw [UInt16.toNat_add]
      change (_ + 1) % 65536 = _
      omega
    have hset : ∀ data : List UInt8, s.byteIndex.toNat < data.length →
        (data.set s.byteIndex.toNat s.buildByte).take (s.byteIndex.toNat + 1) =
          data.take s.byteIndex.toNat ++ [s.buildByte] := by
      intro data hlt
      rw [take_succ_eq_append_getElem (by rw [length_set]; exact hlt),
        take_set_of_le (Nat.le_refl _), getElem_set_self]
    unfold WriteRemainingBits
    rw [if_pos hbit]
    dsimp only
    by_cases hfull : s.size.toNat < s.byteIndex.toNat + 1
    · -- the space is full: it grows, or its size turns over
      rw [if_pos hfull]
      have heq : s.byteIndex.toNat = s.size.toNat := by omega
      have hlength : (ExpandOutStream s).data.length = s.size.toNat + 64 := by
        rw [ExpandOutStream]
        dsimp only
        rw [length_append, length_replicate, length_take, h.length, Nat.min_self]
        rfl
      have htake : (ExpandOutStream s).data.take s.byteIndex.toNat =
          s.data.take s.byteIndex.toNat := by
        rw [ExpandOutStream, heq]
        dsimp only
        rw [take_append_of_le_length (by rw [length_take, h.length, Nat.min_self]),
          take_take, Nat.min_self]
      have hin : s.byteIndex.toNat < (ExpandOutStream s).data.length := by omega
      refine ⟨_, if_pos hin, ?_, ?_, rfl, rfl, hnext⟩
      · have hexpand := size_expand s
        by_cases hlast : s.size.toNat = 65472
        · refine .inr ⟨UInt16.toNat_inj.mp ?_, ?_, ?_⟩
          · change (ExpandOutStream s).size.toNat = 0
            omega
          · change (s.byteIndex + 1).toNat = _
            omega
          · dsimp only
            rw [length_set]
            omega
        · refine .inl ⟨?_, ?_, ?_⟩
          · change (ExpandOutStream s).size.toNat % 64 = 0
            omega
          · dsimp only
            rw [length_set]
            omega
          · change (s.byteIndex + 1).toNat ≤ (ExpandOutStream s).size.toNat
            omega
      · change take (s.byteIndex + 1).toNat _ = _
        rw [hnext]
        exact (hset _ hin).trans (by rw [htake])
    · rw [if_neg hfull]
      have hin : s.byteIndex.toNat < s.data.length := by
        rw [h.length]
        omega
      refine ⟨_, if_pos hin, .inl ⟨hsteps, ?_, ?_⟩, ?_, rfl, rfl, hnext⟩
      · dsimp only
        rw [length_set, h.length]
      · change (s.byteIndex + 1).toNat ≤ s.size.toNat
        omega
      · change take (s.byteIndex + 1).toNat _ = _
        rw [hnext]
        exact hset _ hin
  · intro h
    have hspace : (if s.size.toNat < s.byteIndex.toNat + 1 then ExpandOutStream s else s) =
        ExpandOutStream s := if_pos (by rw [h.size_eq]; exact Nat.zero_lt_succ _)
    have hlength : (ExpandOutStream s).data.length = 64 := by
      rw [ExpandOutStream, h.size_eq]
      exact length_replicate
    unfold WriteRemainingBits
    rw [if_pos hbit]
    dsimp only
    rw [hspace, if_neg]
    rw [hlength]
    change ¬ s.byteIndex.toNat < 64
    rw [h.byteIndex_eq]
    decide

end Room

/-! ## 4. What an output stream holds -/

/-- Zeros up to the next octet. -/
def padding (n : Nat) : List Bool := List.replicate ((8 - n % 8) % 8) false

/-- **These bits** were written: whole octets, and the rest in the octet under construction. -/
structure Holds (s : S_OutStream) (written : List Bool) : Prop where
  octets : ∃ started, bits (s.data.take s.byteIndex.toNat) ++ started = written ∧
    started.length = s.bitIndex ∧ s.buildByte.toNat = word 8 started
  bitIndex_lt : s.bitIndex < 8
  room : InSpace s ∨ Exceeded s

section Held

variable {s s' : S_OutStream} {written : List Bool} {number b : Nat}

theorem holds_new : Holds NewOutStream [] where
  octets := ⟨[], rfl, rfl, (word_nil 8).symm⟩
  bitIndex_lt := by decide
  room := .inl ⟨rfl, rfl, Nat.le_refl 0⟩

theorem Holds.length (h : Holds s written) :
    written.length = 8 * s.byteIndex.toNat + s.bitIndex := by
  obtain ⟨started, rfl, hlen, -⟩ := h.octets
  have hle : s.byteIndex.toNat ≤ s.data.length := by
    rcases h.room with hin | hex
    · rw [hin.length]
      exact hin.byteIndex_le
    · rw [hex.byteIndex_eq]
      exact hex.length
  rw [length_append, bits_length, length_take, Nat.min_eq_left hle, hlen]

/-- The bits of an octet that was filled from the left. -/
theorem octetBits_of_word {octet : UInt8} {l : List Bool} (h : octet.toNat = word 8 l) :
    octetBits octet = fit 8 l :=
  num_inj (by rw [octetBits_length, fit_length]) (by rw [num_octetBits, h, word])

theorem length_padding (n : Nat) : (padding n).length = (8 - n % 8) % 8 := length_replicate

/-- **Octet alignment**. -/
theorem Holds.writeRemaining (h : Holds s written) (hs : WriteRemainingBits s = some s') :
    Holds s' (written ++ padding written.length) ∧ s'.bitIndex = 0 := by
  obtain ⟨started, hw, hlen, hbuild⟩ := h.octets
  have hlength := h.length
  have hlt := h.bitIndex_lt
  by_cases hbit : s.bitIndex = 0
  · have hsame : s' = s := by
      unfold WriteRemainingBits at hs
      rw [if_neg (not_not.mpr hbit)] at hs
      exact (Option.some.inj hs).symm
    have hpad : padding written.length = [] := by
      unfold padding
      rw [show (8 - written.length % 8) % 8 = 0 by omega]
      rfl
    rw [hsame, hpad, append_nil]
    exact ⟨h, hbit⟩
  · rcases h.room with hin | hex
    · obtain ⟨s₁, hs₁, hroom, htake, hbit₁, hbuild₁, -⟩ := (writeRemaining_octet hbit).1 hin
      obtain rfl : s₁ = s' := Option.some.inj (hs₁.symm.trans hs)
      have hpad : padding written.length = replicate (8 - started.length) false := by
        unfold padding
        rw [hlen]
        congr 1
        omega
      refine ⟨⟨⟨[], ?_, by rw [hbit₁]; rfl, by rw [hbuild₁, word_nil]; rfl⟩, by omega, hroom⟩,
        hbit₁⟩
      rw [htake, bits_append, bits_cons, bits_nil, octetBits_of_word hbuild,
        fit_eq_append (by omega), hpad, ← hw]
      simp only [append_assoc, append_nil]
    · rw [(writeRemaining_octet hbit).2 hex] at hs
      cases hs

/-- The lowest bits of a number, shifted to the left of an octet. -/
theorem word_ofNum (hn : number ≤ 8) (b : Nat) :
    (b <<< (8 - number)) % 256 = word 8 (ofNum number b) := by
  have hpow : 256 = 2 ^ number * 2 ^ (8 - number) := by
    rw [← Nat.pow_add, Nat.add_sub_cancel' hn]
  rw [word, fit_eq_append (by rw [ofNum_length]; exact hn), num_append, num_ofNum,
    num_replicate_false, length_replicate, ofNum_length, Nat.shiftLeft_eq, hpow,
    Nat.mul_mod_mul_right, Nat.add_zero]

theorem ofNum_drop {n j : Nat} (hj : j ≤ n) (b : Nat) : (ofNum n b).drop (n - j) = ofNum j b := by
  refine num_inj (by rw [length_drop, ofNum_length, ofNum_length, Nat.sub_sub_self hj]) ?_
  have hsplit : ofNum n b = (ofNum n b).take (n - j) ++ (ofNum n b).drop (n - j) :=
    (take_append_drop _ _).symm
  have hmod := num_mod ((ofNum n b).take (n - j)) ((ofNum n b).drop (n - j))
  rw [← hsplit, length_drop, ofNum_length, Nat.sub_sub_self hj, num_ofNum,
    Nat.mod_mod_of_dvd _ (Nat.pow_dvd_pow 2 hj)] at hmod
  rw [num_ofNum, hmod]

/-- The octet under construction, with more bits. -/
theorem build_or {started : List Bool} (hlen : started.length = s.bitIndex)
    (hbuild : s.buildByte.toNat = word 8 started) (hlt : s.bitIndex < 8) (hn : number ≤ 8) :
    (s.buildByte ||| UInt8.ofNat (((b <<< (8 - number)) % 256) >>> s.bitIndex)).toNat =
      word 8 (started ++ ofNum number b) := by
  have hword := word_lt 8 (ofNum number b)
  have hshift : word 8 (ofNum number b) >>> s.bitIndex < 256 := by
    rw [Nat.shiftRight_eq_div_pow]
    exact Nat.lt_of_le_of_lt (Nat.div_le_self _ _) hword
  rw [UInt8.toNat_or, word_ofNum hn, UInt8.toNat_ofNat_of_lt' hshift, hbuild, ← hlen]
  exact word_or (by omega) _

/-- A complete octet goes behind the others. -/
theorem Holds.writeOctet (h : Holds s written) {complete : UInt8}
    (hs : WriteRemainingBits { s with buildByte := complete, bitIndex := 8 } = some s') :
    bits (s'.data.take s'.byteIndex.toNat) =
        bits (s.data.take s.byteIndex.toNat) ++ octetBits complete ∧
      s'.bitIndex = 0 ∧ s'.buildByte = 0 ∧ (InSpace s' ∨ Exceeded s') := by
  have hcases := @writeRemaining_octet { s with buildByte := complete, bitIndex := 8 }
    (show (8 : Nat) ≠ 0 by decide)
  rcases h.room with hin | hex
  · obtain ⟨s₁, hs₁, hroom, htake, hbit, hbuild, -⟩ :=
      hcases.1 ⟨hin.steps, hin.length, hin.byteIndex_le⟩
    obtain rfl : s₁ = s' := Option.some.inj (hs₁.symm.trans hs)
    refine ⟨?_, hbit, hbuild, hroom⟩
    rw [htake, bits_append, bits_cons, bits_nil, append_nil]
  · rw [hcases.2 ⟨hex.size_eq, hex.byteIndex_eq, hex.length⟩] at hs
    cases hs

/-- **Bits** are written behind the others. -/
theorem Holds.writeBits (h : Holds s written) (hn : number ≤ 8)
    (hs : WriteBits number b s = some s') : Holds s' (written ++ ofNum number b) := by
  obtain ⟨started, hw, hlen, hbuild⟩ := h.octets
  have hlt := h.bitIndex_lt
  have hnew := build_or (b := b) hlen hbuild hlt hn
  have hlenNew : (started ++ ofNum number b).length = s.bitIndex + number := by
    rw [length_append, hlen, ofNum_length]
  unfold WriteBits at hs
  dsimp only at hs
  generalize s.buildByte ||| UInt8.ofNat (((b <<< (8 - number)) % 256) >>> s.bitIndex) =
    complete at hs hnew
  split at hs
  · -- the octet is complete, and some of the bits are in the next one
    rename_i hmore
    obtain ⟨s₁, hs₁, rfl⟩ := Option.map_eq_some_iff.mp hs
    obtain ⟨hbits, hbit, -, hroom⟩ := h.writeOctet hs₁
    have hleft : (started ++ ofNum number b).drop 8 =
        ofNum (s.bitIndex + number - 8) b := by
      rw [drop_append, drop_of_length_le (by omega), nil_append, hlen,
        show 8 - s.bitIndex = number - (s.bitIndex + number - 8) by omega,
        ofNum_drop (by omega)]
    have hnext : (UInt8.ofNat (b <<< (16 - (s.bitIndex + number)))).toNat =
        word 8 (ofNum (s.bitIndex + number - 8) b) := by
      rw [← word_ofNum (by omega), UInt8.toNat_ofNat',
        show 16 - (s.bitIndex + number) = 8 - (s.bitIndex + number - 8) by omega]
    refine ⟨⟨ofNum (s.bitIndex + number - 8) b, ?_, ofNum_length _ _, hnext⟩, ?_, ?_⟩
    · dsimp only
      rw [hbits, octetBits_of_word hnew, fit_eq_take (by omega), ← hleft, append_assoc,
        take_append_drop, ← hw, append_assoc]
    · dsimp only
      omega
    · rcases hroom with hin | hex
      · exact .inl ⟨hin.steps, hin.length, hin.byteIndex_le⟩
      · exact .inr ⟨hex.size_eq, hex.byteIndex_eq, hex.length⟩
  · split at hs
    · rename_i hless
      cases hs
      refine ⟨⟨started ++ ofNum number b, ?_, hlenNew, hnew⟩, hless, ?_⟩
      · dsimp only
        rw [← hw, append_assoc]
      · rcases h.room with hin | hex
        · exact .inl ⟨hin.steps, hin.length, hin.byteIndex_le⟩
        · exact .inr ⟨hex.size_eq, hex.byteIndex_eq, hex.length⟩
    · obtain ⟨hbits, hbit, hzero, hroom⟩ := h.writeOctet hs
      have hfull : (started ++ ofNum number b).take 8 = started ++ ofNum number b :=
        take_of_length_le (by omega)
      refine ⟨⟨[], ?_, by rw [hbit]; rfl, by rw [hzero, word_nil]; rfl⟩, by omega, hroom⟩
      rw [hbits, octetBits_of_word hnew, fit_eq_take (by omega), hfull, append_nil, ← hw,
        append_assoc]

theorem length_ordered {octets : List UInt8} (hle : number ≤ octets.length) (reorder : Bool) :
    (ordered number reorder octets).length = number := by
  unfold ordered
  split
  · rw [length_reverse, length_take, Nat.min_eq_left hle]
  · rw [length_take, Nat.min_eq_left hle]

/-- **Octets** are written behind the next boundary. -/
theorem Holds.writeOctets {octets : List UInt8} {reorder : Bool} (h : Holds s written)
    (hle : number ≤ octets.length) (hs : WriteOctets number octets reorder s = some s') :
    Holds s' (written ++ padding written.length ++ bits (ordered number reorder octets)) ∧
      s'.bitIndex = 0 := by
  unfold WriteOctets at hs
  obtain ⟨s₁, hs₁, hs⟩ := Option.bind_eq_some_iff.mp hs
  obtain ⟨s₂, hs₂, hs⟩ := Option.bind_eq_some_iff.mp hs
  obtain ⟨h₁, hbit₁⟩ := h.writeRemaining hs₁
  obtain ⟨hin₁, hfit⟩ := expandFor_some h₁.room hs₂
  obtain ⟨s₃, hs₃, hin, hroom, hbyte, hbit, hbuild, htake⟩ := hin₁.expandFor hfit
    (show 65472 < s₁.size.toNat + 64 * 1024 by omega)
  obtain rfl : s₃ = s₂ := Option.some.inj (hs₃.symm.trans hs₂)
  obtain ⟨started, hw, hlen, hword⟩ := h₁.octets
  have hstarted : started = [] := length_eq_zero_iff.mp (hlen.trans hbit₁)
  rw [hstarted] at hw hword
  rw [append_nil] at hw
  rw [← hbyte] at htake hfit
  have hlength := length_ordered hle reorder
  split at hs
  · rename_i hzero
    cases hs
    have hnone : ordered number reorder octets = [] :=
      length_eq_zero_iff.mp (hlength.trans hzero)
    refine ⟨⟨⟨[], ?_, (hbit.trans hbit₁).symm, by rw [hbuild, hword]⟩,
      by rw [hbit, hbit₁]; decide, .inl hin⟩, hbit.trans hbit₁⟩
    rw [htake, hbyte, hw, hnone, bits_nil]
  · split at hs
    · rename_i hinside
      cases hs
      have hnext : (UInt16.ofNat (number + s₃.byteIndex.toNat)).toNat =
          s₃.byteIndex.toNat + number := by
        rw [UInt16.toNat_ofNat_of_lt' (Nat.lt_of_le_of_lt (Nat.add_comm _ _ ▸ hfit) (by decide)),
          Nat.add_comm]
      have hfront : (s₃.data.take s₃.byteIndex.toNat).length = s₃.byteIndex.toNat := by
        rw [length_take]
        omega
      have hall : (s₃.data.take s₃.byteIndex.toNat ++ ordered number reorder octets ++
          s₃.data.drop (s₃.byteIndex.toNat + number)).length = s₃.data.length := by
        rw [length_append, length_append, hfront, hlength, length_drop]
        omega
      refine ⟨⟨⟨[], ?_, (hbit.trans hbit₁).symm, by rw [hbuild, hword]⟩,
        by dsimp only; omega, .inl ⟨hin.steps, ?_, ?_⟩⟩, hbit.trans hbit₁⟩
      · dsimp only
        rw [hnext, append_nil, take_append_of_le_length
          (by rw [length_append, hfront, hlength]),
          take_of_length_le
            (by rw [length_append, hfront, hlength]),
          bits_append, htake, hbyte, hw]
      · exact hall.trans hin.length
      · dsimp only
        rw [hnext, hbyte]
        exact hroom
    · cases hs

end Held

/-! ## 5. What an input stream reads -/

/-- The input stream at a bit of some octets. -/
def inAt (octets : List UInt8) (position : Nat) : S_InStream :=
  ⟨octets.drop (position / 8), position % 8⟩

section Read

variable {octets os : List UInt8} {front l rest : List Bool} {number : Nat}

theorem maskBit_and {i : Nat} (hi : i < 8) (b : Nat) : b &&& MaskBit.getD i 0 = b % 2 ^ (8 - i) := by
  have hmask : MaskBit.getD i 0 = 2 ^ (8 - i) - 1 := by
    interval_cases i <;> rfl
  rw [hmask, Nat.and_two_pow_sub_one_eq_mod]

theorem notMaskBit_and {i n : Nat} (hi : i < 8) (hn : n ≤ i) {b : Nat} (hb : b < 256) :
    (b &&& (255 - MaskBit.getD i 0)) >>> (8 - n) = b >>> (8 - n) := by
  have hmask : ∀ i < 8, ∀ k < 8, 8 - i ≤ k → (255 - MaskBit.getD i 0).testBit k = true := by
    decide
  refine Nat.eq_of_testBit_eq fun j => ?_
  rw [Nat.testBit_shiftRight, Nat.testBit_shiftRight, Nat.testBit_and]
  by_cases hj : 8 - n + j < 8
  · rw [hmask i hi _ hj (by omega), Bool.and_true]
  · rw [Nat.testBit_eq_false_of_lt (Nat.lt_of_lt_of_le hb
      (Nat.pow_le_pow_right (by decide) (by omega) : 2 ^ 8 ≤ _)), Bool.false_and]

/-- The first octet's bits, split where the stream is. -/
theorem first_octet {data : List UInt8} {all : List Bool} (hbits : bits data = all)
    (hpos : all ≠ []) : ∃ first tail, data = first :: tail ∧ octetBits first = all.take 8 ∧
      bits tail = all.drop 8 := by
  cases data with
  | nil => exact absurd hbits.symm hpos
  | cons first tail =>
    rw [bits_cons] at hbits
    refine ⟨first, tail, rfl, ?_, ?_⟩
    · rw [← hbits, take_left' (octetBits_length first)]
    · rw [← hbits, drop_left' (octetBits_length first)]

theorem ordered_take (number : Nat) (reorder : Bool) (octets : List UInt8) :
    ordered number reorder octets = ordered number reorder (octets.take number) := by
  unfold ordered
  rw [take_take, Nat.min_self]

/-- **Bits read** from the octet they begin in, and the next one. -/
theorem readBits_bits {data : List UInt8} {a : List Bool} (hbits : bits data = a ++ l ++ rest)
    (ha : a.length < 8) (hpos : 1 ≤ l.length) (hn : l.length ≤ 8) :
    ReadBits l.length ⟨data, a.length⟩ =
      some (num l, ⟨data.drop ((a.length + l.length) / 8), (a.length + l.length) % 8⟩) := by
  have hne : a ++ l ++ rest ≠ [] := by
    intro h
    have := congrArg length h
    rw [length_append, length_append, length_nil] at this
    omega
  have htotal := congrArg length hbits
  rw [bits_length, length_append, length_append] at htotal
  obtain ⟨first, tail, rfl, hfirst, htail⟩ := first_octet hbits hne
  rw [length_cons] at htotal
  have hnum : first.toNat = num ((a ++ l ++ rest).take 8) := by
    rw [← hfirst, num_octetBits]
  unfold ReadBits
  rw [if_neg (Nat.not_lt.mpr hn)]
  dsimp only
  rw [maskBit_and ha]
  by_cases hmore : 8 < a.length + l.length
  · -- the bits go on in the second octet
    rw [if_pos hmore]
    have hne₂ : (a ++ l ++ rest).drop 8 ≠ [] := by
      intro h
      have := congrArg length h
      rw [length_drop, length_append, length_append, length_nil] at this
      omega
    obtain ⟨second, tail, rfl, hsecond, -⟩ := first_octet htail hne₂
    have htake : (a ++ l ++ rest).take 8 = a ++ l.take (8 - a.length) := by
      rw [append_assoc, take_append, take_of_length_le (by omega),
        take_append_of_le_length (by omega)]
    have hdrop : (a ++ l ++ rest).drop 8 = l.drop (8 - a.length) ++ rest := by
      rw [append_assoc, drop_append, drop_of_length_le (by omega),
        nil_append, drop_append_of_le_length (by omega)]
    have hlow : (l.drop (8 - a.length)).length = a.length + l.length - 8 := by
      rw [length_drop]
      omega
    have hhigh : (l.take (8 - a.length)).length = 8 - a.length := by
      rw [length_take]
      omega
    have hnum₂ : second.toNat = num (l.drop (8 - a.length) ++
        rest.take (8 - (a.length + l.length - 8))) := by
      rw [← num_octetBits, hsecond, hdrop, take_append, take_of_length_le (by omega),
        hlow]
    have hrest : (rest.take (8 - (a.length + l.length - 8))).length =
        8 - (a.length + l.length - 8) := by
      rw [length_take]
      rw [length_cons] at htotal
      omega
    have hx : first.toNat % 2 ^ (8 - a.length) = num (l.take (8 - a.length)) := by
      have hmod := num_mod a (l.take (8 - a.length))
      rw [hhigh] at hmod
      rw [hnum, htake, hmod]
    have hy : second.toNat >>> (8 - (a.length + l.length - 8)) = num (l.drop (8 - a.length)) := by
      have hdiv := num_div (l.drop (8 - a.length)) (rest.take (8 - (a.length + l.length - 8)))
      rw [hrest] at hdiv
      rw [Nat.shiftRight_eq_div_pow, hnum₂, hdiv]
    have hall : num l = num (l.take (8 - a.length)) * 2 ^ (a.length + l.length - 8) +
        num (l.drop (8 - a.length)) := by
      conv_lhs => rw [← take_append_drop (8 - a.length) l]
      rw [num_append, hlow]
    have hlt := num_lt l
    have hlt₂ := num_lt (l.drop (8 - a.length))
    rw [hlow] at hlt₂
    have hbyte : num l < 256 := Nat.lt_of_lt_of_le hlt (Nat.pow_le_pow_right (by decide) hn)
    have hvalue : (num (l.take (8 - a.length)) <<< (a.length + l.length - 8)) % 256 =
        num (l.take (8 - a.length)) <<< (a.length + l.length - 8) :=
      Nat.mod_eq_of_lt (by rw [Nat.shiftLeft_eq]; omega)
    dsimp only
    rw [notMaskBit_and ha (by omega) second.toNat_lt, hx, hy, hvalue,
      ← Nat.shiftLeft_add_eq_or_of_lt hlt₂, Nat.shiftLeft_eq, ← hall,
      show (a.length + l.length) / 8 = 1 by omega,
      show (a.length + l.length) % 8 = a.length + l.length - 8 by omega]
    rfl
  · rw [if_neg hmore]
    have htake : (a ++ l ++ rest).take 8 = a ++ l ++ rest.take (8 - (a.length + l.length)) := by
      rw [take_append, take_of_length_le (by rw [length_append]; omega),
        length_append]
    have hrest : (rest.take (8 - (a.length + l.length))).length = 8 - (a.length + l.length) := by
      rw [length_take]
      omega
    have hx : first.toNat % 2 ^ (8 - a.length) =
        num (l ++ rest.take (8 - (a.length + l.length))) := by
      have hmod := num_mod a (l ++ rest.take (8 - (a.length + l.length)))
      rw [length_append, hrest,
        show l.length + (8 - (a.length + l.length)) = 8 - a.length by omega] at hmod
      rw [hnum, htake, append_assoc, hmod]
    have hdiv := num_div l (rest.take (8 - (a.length + l.length)))
    rw [hrest] at hdiv
    by_cases hless : a.length + l.length < 8
    · rw [if_pos hless, hx, Nat.shiftRight_eq_div_pow, hdiv,
        show (a.length + l.length) / 8 = 0 by omega, Nat.mod_eq_of_lt hless]
      rfl
    · have hfull : a.length + l.length = 8 := by omega
      rw [hfull, Nat.sub_self, pow_zero, Nat.div_one] at hdiv
      rw [if_neg hless, hx, hfull, Nat.sub_self, hdiv]
      rfl

/-- **Bits read** at a position, the position behind them. -/
theorem readBits_inAt (hbits : bits octets = front ++ l ++ rest) (hpos : 1 ≤ l.length)
    (hn : l.length ≤ 8) :
    ReadBits l.length (inAt octets front.length) =
      some (num l, inAt octets (front.length + l.length)) := by
  have hlen : (front.drop (8 * (front.length / 8))).length = front.length % 8 := by
    rw [length_drop]
    omega
  have hdata : bits (octets.drop (front.length / 8)) =
      front.drop (8 * (front.length / 8)) ++ l ++ rest := by
    rw [bits_drop, hbits, append_assoc, append_assoc,
      drop_append_of_le_length (by omega)]
  have hread := readBits_bits hdata (by omega) hpos hn
  rw [hlen] at hread
  unfold inAt
  rw [hread, drop_drop,
    show front.length / 8 + (front.length % 8 + l.length) / 8 = (front.length + l.length) / 8 by
      omega,
    show (front.length % 8 + l.length) % 8 = (front.length + l.length) % 8 by omega]

/-- No bits, read from an octet that is there. -/
theorem readBits_zero (position : Nat) (hin : position / 8 < octets.length) :
    ReadBits 0 (inAt octets position) = some (0, inAt octets position) := by
  obtain ⟨first, tail, hdata⟩ := exists_cons_of_length_pos
    (show 0 < (octets.drop (position / 8)).length by rw [length_drop]; omega)
  have hzero : (first.toNat % 2 ^ (8 - position % 8)) >>> (8 - position % 8) = 0 := by
    rw [Nat.shiftRight_eq_div_pow]
    exact Nat.div_eq_of_lt (Nat.mod_lt _ (Nat.two_pow_pos _))
  unfold ReadBits inAt
  rw [hdata]
  dsimp only
  rw [if_neg (by decide), maskBit_and (Nat.mod_lt _ (by decide)), Nat.add_zero,
    if_neg (by omega), if_pos (by omega), hzero]

theorem readRemaining_inAt (octets : List UInt8) (position : Nat) :
    ReadRemainingBits (inAt octets position) =
      inAt octets (position + (8 - position % 8) % 8) := by
  unfold ReadRemainingBits inAt
  dsimp only
  by_cases hbit : position % 8 = 0
  · rw [if_neg (not_not.mpr hbit), hbit, Nat.sub_zero, Nat.mod_self, Nat.add_zero, hbit]
  · rw [if_pos hbit, tail_drop,
      show (position + (8 - position % 8) % 8) / 8 = position / 8 + 1 by omega,
      show (position + (8 - position % 8) % 8) % 8 = 0 by omega]

/-- **Octets read** behind the next boundary. -/
theorem readOctets_inAt {reorder : Bool} {pad : List Bool}
    (hbits : bits octets = front ++ pad ++ bits os ++ rest)
    (hpad : pad.length = (8 - front.length % 8) % 8) :
    ReadOctets os.length reorder (inAt octets front.length) =
      some (ordered os.length reorder os,
        inAt octets (front.length + pad.length + 8 * os.length)) := by
  unfold ReadOctets
  dsimp only
  rw [readRemaining_inAt, ← hpad, ← length_append]
  have hmod : (front ++ pad).length % 8 = 0 := by
    rw [length_append]
    omega
  generalize front ++ pad = aligned at hbits hmod
  have hdata : bits (octets.drop (aligned.length / 8)) = bits os ++ rest := by
    rw [bits_drop, hbits, show 8 * (aligned.length / 8) = aligned.length by omega,
      append_assoc, drop_left]
  have hos : (octets.drop (aligned.length / 8)).take os.length = os := by
    refine bits_inj ?_
    rw [bits_take, hdata, ← bits_length, take_left]
  have hroom : os.length ≤ (octets.drop (aligned.length / 8)).length := by
    have htotal := congrArg length hdata
    rw [bits_length, length_append, bits_length] at htotal
    omega
  unfold inAt
  dsimp only
  rw [if_neg (Nat.not_lt.mpr hroom), drop_drop, ordered_take, hos,
    show (aligned.length + 8 * os.length) / 8 = aligned.length / 8 + os.length by omega,
    show (aligned.length + 8 * os.length) % 8 = aligned.length % 8 by omega]

theorem readBits_room {position : Nat} {r : Nat × S_InStream} (hpos : 1 ≤ number)
    (hread : ReadBits number (inAt octets position) = some r) :
    number ≤ 8 ∧ position + number ≤ 8 * octets.length := by
  unfold ReadBits inAt at hread
  dsimp only at hread
  split at hread
  · cases hread
  · rename_i hn
    refine ⟨Nat.le_of_not_lt hn, ?_⟩
    split at hread
    · cases hread
    · rename_i first tail hdata
      have hlen := congrArg length hdata
      rw [length_drop, length_cons] at hlen
      split at hread
      · split at hread
        · cases hread
        · rw [length_cons] at hlen
          omega
      · omega

theorem readOctets_room {reorder : Bool} {position : Nat} {r : List UInt8 × S_InStream}
    (hpos : 1 ≤ number) (hread : ReadOctets number reorder (inAt octets position) = some r) :
    position + (8 - position % 8) % 8 + 8 * number ≤ 8 * octets.length := by
  unfold ReadOctets at hread
  dsimp only at hread
  rw [readRemaining_inAt] at hread
  unfold inAt at hread
  dsimp only at hread
  split at hread
  · cases hread
  · rename_i hroom
    rw [length_drop] at hroom
    omega

theorem exists_parts {l : List Bool} {n m : Nat} (h : n + m ≤ l.length) :
    ∃ front part rest, l = front ++ part ++ rest ∧ front.length = n ∧ part.length = m := by
  refine ⟨l.take n, (l.drop n).take m, (l.drop n).drop m, ?_, ?_, ?_⟩
  · rw [append_assoc, take_append_drop, take_append_drop]
  · rw [length_take]
    omega
  · rw [length_take, length_drop]
    omega

end Read

end OpenCore.H245
