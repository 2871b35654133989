/-
  File:      OpenCore/H245/PerBitString.lean
  Subject:   Length determinants and bit strings of the PER coder (genericper.cpp): `PutLengthDet`,
             `GetLengthDet`, `PutBitString` and `GetBitString`.

  Two things are lost on the way. A length of 128 and more is written with its low octet first, and
  read with its high octet first. The reader of a constrained size leaves the last bits of a string,
  fewer than eight, where they are.

  **Main result**: `bitString_survives_iff`.
-/
import OpenCore.H245.PerInteger

namespace OpenCore.H245

open MsbBits List
open UInt16 (ofNat toNat toNat_toUInt32)
open Option (bind_eq_some_iff bind_some)

/-! ## 1. The length determinants -/

/-- `PutLengthDet`; nothing where it leaves. Two octets go out as they are in memory. -/
def PutLengthDet (value : Nat) (stream : S_OutStream) : Option S_OutStream :=
  if value < 128 then WriteOctets 1 [UInt8.ofNat value] false stream
  else if value < 16384 then
    WriteOctets 2 (memoryOf 2 ((value ||| 0x8000) % 65536)) false stream
  else none

def GetLengthDet (stream : S_InStream) : Option (Nat × S_InStream) := do
  let (octets, stream) ← ReadOctets 1 false stream
  let byte1 := (octets.headD 0).toNat
  if byte1 &&& 0x80 = 0 then return (byte1, stream)
  else if byte1 &&& 0x40 = 0 then
    let (octets, stream) ← ReadOctets 1 false stream
    return ((byte1 &&& 0x3f) <<< 8 + (octets.headD 0).toNat, stream)
  else none

/-! ## 2. The bit strings -/

/-- `BITSTRING`: how many bits it has, and the octets they are in. -/
structure S_BITSTRING where
  size : UInt16
  data : List UInt8
  deriving DecidableEq

/-- The loop over the whole octets; nothing where it reads outside of `data`. -/
def writeWholeOctets : Nat → List UInt8 → S_OutStream → Option (List UInt8 × S_OutStream)
  | 0, temp, stream => some (temp, stream)
  | _ + 1, [], _ => none
  | n + 1, octet :: temp, stream => do
    let stream ← WriteBits 8 octet.toNat stream
    writeWholeOctets n temp stream

/-- The whole octets, and the bits of the last one. -/
def writeStringBits (count : Nat) (temp : List UInt8) (stream : S_OutStream) :
    Option S_OutStream := do
  let (temp, stream) ← writeWholeOctets (count / 8) temp stream
  let last ← temp.head?
  WriteBits (count % 8) (last.toNat >>> (8 - count % 8)) stream

def PutBitString (unbounded : Bool) (min max : UInt32) (x : S_BITSTRING) (stream : S_OutStream) :
    Option S_OutStream :=
  if unbounded then do
    let stream ← PutLengthDet x.size.toNat stream
    writeStringBits x.size.toNat x.data stream
  else if max < min then none
  else if x.size.toUInt32 < min ∨ max < x.size.toUInt32 then none
  else if min = max then do
    let stream ← (if 16 < x.size then WriteRemainingBits stream else some stream)
    writeStringBits x.size.toNat x.data stream
  else do
    let stream ← PutInteger min max x.size.toUInt32 stream
    let stream ← WriteRemainingBits stream
    writeStringBits x.size.toNat x.data stream

/-- The loop over the whole octets of the other side. -/
def readWholeOctets : Nat → S_InStream → Option (List UInt8 × S_InStream)
  | 0, stream => some ([], stream)
  | n + 1, stream => do
    let (octet, stream) ← ReadBits 8 stream
    let (octets, stream) ← readWholeOctets n stream
    return (UInt8.ofNat octet :: octets, stream)

/-- The whole octets, and the bits of the last one; nothing where they are more than the space of
    `1 + size / 8` octets. -/
def readStringBits (count : Nat) (stream : S_InStream) : Option (S_BITSTRING × S_InStream) :=
  let size := ofNat count
  if 1 + size.toNat / 8 < count / 8 + 1 then none
  else do
    let (octets, stream) ← readWholeOctets (count / 8) stream
    let (last, stream) ← ReadBits (count % 8) stream
    return (⟨size, octets ++ [UInt8.ofNat (last <<< (8 - count % 8))]⟩, stream)

/-- `GetBitString`. Of a constrained size only the whole octets are read. -/
def GetBitString (unbounded : Bool) (min max : UInt32) (stream : S_InStream) :
    Option (S_BITSTRING × S_InStream) :=
  if unbounded then do
    let (count, stream) ← GetLengthDet stream
    readStringBits count stream
  else if max < min then none
  else if min = max then
    readStringBits min.toNat
      (if 16 < ofNat min.toNat then ReadRemainingBits stream else stream)
  else do
    let (count, stream) ← GetInteger min max stream
    let size := ofNat count.toNat
    if 1 + size.toNat / 8 < count.toNat / 8 then none
    else
      let (octets, stream) ← readWholeOctets (count.toNat / 8) (ReadRemainingBits stream)
      return (⟨size, octets⟩, stream)

/-! ## 3. What is written and read -/

section Write

variable {s s' : S_OutStream} {written : List Bool} {n count : Nat} {temp temp' : List UInt8}

theorem Holds.writeWholeOctets (h : Holds s written)
    (hs : H245.writeWholeOctets n temp s = some (temp', s')) :
    Holds s' (written ++ bits (temp.take n)) ∧ n ≤ temp.length ∧ temp' = temp.drop n := by
  induction n generalizing temp s written with
  | zero =>
    rw [writeWholeOctets] at hs
    cases hs
    exact ⟨by rwa [take_zero, bits_nil, append_nil], Nat.zero_le _, rfl⟩
  | succ n ih =>
    cases temp with
    | nil => cases hs
    | cons octet temp =>
      rw [writeWholeOctets] at hs
      obtain ⟨s₁, hs₁, hs₂⟩ := bind_eq_some_iff.mp hs
      obtain ⟨hheld, hle, hdrop⟩ := ih (h.writeBits (Nat.le_refl 8) hs₁) hs₂
      refine ⟨?_, Nat.succ_le_succ hle, hdrop⟩
      rwa [take_succ_cons, bits_cons, ← append_assoc]

/-- The first bits of an octet, moved to its right end. -/
theorem ofNum_shiftRight (octet : UInt8) {c : Nat} (hc : c ≤ 8) :
    ofNum c (octet.toNat >>> (8 - c)) = (octetBits octet).take c := by
  refine num_inj (by rw [ofNum_length, length_take, octetBits_length, Nat.min_eq_left hc]) ?_
  have hdiv := num_div ((octetBits octet).take c) ((octetBits octet).drop c)
  rw [take_append_drop, length_drop, octetBits_length, num_octetBits] at hdiv
  have hlt := num_lt ((octetBits octet).take c)
  rw [length_take, octetBits_length, Nat.min_eq_left hc] at hlt
  rw [num_ofNum, Nat.shiftRight_eq_div_pow, hdiv, Nat.mod_eq_of_lt hlt]

/-- **The bits of a string** are written. -/
theorem Holds.writeStringBits (h : Holds s written)
    (hs : H245.writeStringBits count temp s = some s') :
    Holds s' (written ++ (bits temp).take count) ∧ count ≤ 8 * temp.length := by
  obtain ⟨⟨temp', s₁⟩, hs₁, hs₂⟩ := bind_eq_some_iff.mp hs
  obtain ⟨last, hlast, hs₃⟩ := bind_eq_some_iff.mp hs₂
  obtain ⟨hheld, hle, rfl⟩ := h.writeWholeOctets hs₁
  obtain ⟨rest, hrest⟩ := head?_eq_some_iff.mp hlast
  have hmod : count % 8 ≤ 8 := Nat.le_of_lt (Nat.mod_lt _ (by decide))
  have hlen := congrArg List.length hrest
  rw [length_drop, length_cons] at hlen
  refine ⟨?_, by omega⟩
  have hfinal := hheld.writeBits hmod hs₃
  have hsplit : (bits temp).take count =
      bits (temp.take (count / 8)) ++ (octetBits last).take (count % 8) := by
    conv_lhs => rw [← take_append_drop (count / 8) temp, hrest, bits_append, bits_cons]
    have hfront : (bits (temp.take (count / 8))).length = 8 * (count / 8) := by
      rw [bits_length, length_take, Nat.min_eq_left hle]
    rw [take_append, take_of_length_le (by omega), hfront,
      show count - 8 * (count / 8) = count % 8 by omega,
      take_append_of_le_length (by rw [octetBits_length]; exact hmod)]
  rwa [ofNum_shiftRight last hmod, append_assoc, ← hsplit] at hfinal

end Write

section Read

variable {octets os : List UInt8} {front l rest : List Bool}

theorem readWholeOctets_inAt (hbits : bits octets = front ++ bits os ++ rest) :
    readWholeOctets os.length (inAt octets front.length) =
      some (os, inAt octets (front.length + 8 * os.length)) := by
  induction os generalizing front with
  | nil => rfl
  | cons octet os ih =>
    have hfirst := @readBits_inAt octets front (octetBits octet) (bits os ++ rest)
      (by rw [hbits, bits_cons]; simp only [append_assoc])
      (by rw [octetBits_length]; decide) (by rw [octetBits_length])
    have hrest := @ih (front ++ octetBits octet)
      (by rw [hbits, bits_cons]; simp only [append_assoc])
    rw [octetBits_length, num_octetBits] at hfirst
    rw [length_append, octetBits_length] at hrest
    rw [show front.length + 8 + 8 * os.length = front.length + 8 * (os.length + 1) by omega]
      at hrest
    rw [length_cons, readWholeOctets, hfirst]
    refine (congrArg (Option.bind · _) hrest).trans ?_
    rw [bind_some, UInt8.ofNat_toNat]
    rfl

/-- Whole octets, and fewer than eight bits. -/
theorem exists_whole (l : List Bool) : ∃ (os : List UInt8) (last : List Bool),
    l = bits os ++ last ∧ os.length = l.length / 8 ∧ last.length = l.length % 8 := by
  obtain ⟨os, hos⟩ := exists_bits (n := l.length / 8) (l := l.take (8 * (l.length / 8)))
    (by rw [length_take]; omega)
  have hlen := congrArg length hos
  rw [bits_length, length_take] at hlen
  refine ⟨os, l.drop (8 * (l.length / 8)), ?_, by omega, ?_⟩
  · rw [hos, take_append_drop]
  · rw [length_drop]
    omega

/-- **The bits of a string** are read. -/
theorem readStringBits_inAt (hbits : bits octets = front ++ l ++ rest) (hlt : l.length < 65536)
    (hmore : l.length % 8 = 0 → rest ≠ []) :
    ∃ data, readStringBits l.length (inAt octets front.length) =
        some (⟨ofNat l.length, data⟩, inAt octets (front.length + l.length)) ∧
      (bits data).take l.length = l := by
  have hsize : (ofNat l.length).toNat = l.length := UInt16.toNat_ofNat_of_lt' hlt
  obtain ⟨os, last, hl, hcount, hlast⟩ := exists_whole l
  have hwhole := @readWholeOctets_inAt octets os front (last ++ rest)
    (by rw [hbits, hl]; simp only [append_assoc])
  have hread : ReadBits (l.length % 8) (inAt octets (front.length + 8 * os.length)) =
      some (num last, inAt octets (front.length + l.length)) := by
    by_cases hzero : l.length % 8 = 0
    · rw [hzero] at hlast
      have htotal := congrArg length hbits
      rw [bits_length, length_append, length_append] at htotal
      have hpos := length_pos_of_ne_nil (hmore hzero)
      rw [length_eq_zero_iff.mp hlast, hzero, num_nil,
        show front.length + 8 * os.length = front.length + l.length by omega]
      exact readBits_zero _ (by omega)
    · have hbitsLast := @readBits_inAt octets (front ++ bits os) last rest
        (by rw [hbits, hl]; simp only [append_assoc]) (by omega) (by omega)
      rw [hlast, length_append, bits_length,
        show front.length + 8 * os.length + l.length % 8 = front.length + l.length by omega]
        at hbitsLast
      exact hbitsLast
  refine ⟨os ++ [UInt8.ofNat (num last <<< (8 - l.length % 8))], ?_, ?_⟩
  · unfold readStringBits
    dsimp only
    rw [hsize, if_neg (by omega), ← hcount, hwhole]
    refine (congrArg (Option.bind · _) hread).trans ?_
    rfl
  · have hoctet : (UInt8.ofNat (num last <<< (8 - l.length % 8))).toNat = word 8 last := by
      have hword := @word_ofNum last.length (by omega) (num last)
      rw [ofNum_num, hlast] at hword
      rw [UInt8.toNat_ofNat', show (2 : Nat) ^ 8 = 256 from rfl, hword]
    rw [bits_append, bits_cons, bits_nil, append_nil, octetBits_of_word hoctet,
      fit_eq_append (by omega), ← append_assoc, ← hl, take_left]

/-- A last read of no bits asks for an octet. -/
theorem readStringBits_none (hbits : bits octets = front ++ l) (hzero : l.length % 8 = 0) :
    readStringBits l.length (inAt octets front.length) = none := by
  obtain ⟨os, last, hl, hcount, hlast⟩ := exists_whole l
  rw [hzero, length_eq_zero_iff] at hlast
  rw [hlast, append_nil] at hl
  have hwhole := @readWholeOctets_inAt octets os front []
    (by rw [hbits, ← hl, append_nil])
  have htotal := congrArg length hbits
  rw [bits_length, length_append] at htotal
  have hread : ReadBits 0 (inAt octets (front.length + 8 * os.length)) = none := by
    have hnone : octets.drop ((front.length + 8 * os.length) / 8) = [] :=
      drop_eq_nil_of_le (by omega)
    unfold ReadBits inAt
    rw [hnone]
    rfl
  unfold readStringBits
  dsimp only
  split
  · rfl
  · rw [hzero, ← hcount, hwhole]
    exact congrArg (Option.bind · _) hread

theorem readStringBits_size {count : Nat} {stream : S_InStream} {r : S_BITSTRING × S_InStream}
    (hread : readStringBits count stream = some r) : r.1.size = ofNat count := by
  unfold readStringBits at hread
  dsimp only at hread
  split at hread
  · cases hread
  · obtain ⟨r₁, -, h₁⟩ := bind_eq_some_iff.mp hread
    obtain ⟨r₂, -, h₂⟩ := bind_eq_some_iff.mp h₁
    cases h₂
    rfl

end Read

/-! ## 4. What becomes of a length -/

section Length

variable {s s' : S_OutStream} {written : List Bool} {value : Nat}
variable {octets : List UInt8} {front pad rest : List Bool} {byte1 byte2 : UInt8}

/-- The octets of a length determinant: of two, the low one comes first. -/
def lengthOctets (value : Nat) : List UInt8 :=
  if value < 128 then [UInt8.ofNat value]
  else [UInt8.ofNat value, UInt8.ofNat (128 + value / 256)]

theorem Holds.putLengthDet (h : Holds s written) (hs : PutLengthDet value s = some s') :
    value < 16384 ∧
      Holds s' (written ++ padding written.length ++ bits (lengthOctets value)) := by
  unfold PutLengthDet at hs
  unfold lengthOctets
  split at hs
  · rename_i hone
    rw [if_pos hone]
    exact ⟨by omega, (h.writeOctets (Nat.le_refl 1) hs).1⟩
  · rename_i hone
    split at hs
    · rename_i htwo
      rw [if_neg hone]
      have hor : value ||| 0x8000 = value + 32768 := by
        have hadd := Nat.two_pow_add_eq_or_of_lt (show value < 2 ^ 15 by omega) 1
        rw [Nat.or_comm, ← show 2 ^ 15 * 1 = 0x8000 from rfl, ← hadd, Nat.add_comm]
      have hmemory : memoryOf 2 ((value ||| 0x8000) % 65536) =
          [UInt8.ofNat value, UInt8.ofNat (128 + value / 256)] := by
        rw [hor, Nat.mod_eq_of_lt (by omega), memoryOf, memoryOf, memoryOf,
          show (value + 32768) / 256 = 128 + value / 256 by omega]
        congr 1
        refine UInt8.toNat_inj.mp ?_
        rw [UInt8.toNat_ofNat', UInt8.toNat_ofNat']
        omega
      rw [hmemory] at hs
      exact ⟨htwo, (h.writeOctets (Nat.le_refl 2) hs).1⟩
    · cases hs

/-- The masks of a length determinant. -/
theorem length_masks : ∀ byte < 256, (byte &&& 0x80 = 0 ↔ byte < 128) ∧
    (128 ≤ byte → (byte &&& 0x40 = 0 ↔ byte < 192)) ∧ byte &&& 0x3f = byte % 64 := by
  decide +kernel

/-- **What an octet says** about a length, with the next one. -/
theorem getLengthDet_inAt (hbits : bits octets = front ++ pad ++ bits [byte1] ++ rest)
    (hpad : pad.length = (8 - front.length % 8) % 8) :
    (byte1.toNat < 128 → GetLengthDet (inAt octets front.length) =
      some (byte1.toNat, inAt octets (front.length + pad.length + 8))) ∧
    (192 ≤ byte1.toNat → GetLengthDet (inAt octets front.length) = none) ∧
    (128 ≤ byte1.toNat → byte1.toNat < 192 → ∀ rest', rest = bits [byte2] ++ rest' →
      GetLengthDet (inAt octets front.length) =
        some ((byte1.toNat - 128) * 256 + byte2.toNat,
          inAt octets (front.length + pad.length + 16))) := by
  obtain ⟨hmask1, hmask2, hmask3⟩ := length_masks byte1.toNat byte1.toNat_lt
  have hread : GetLengthDet (inAt octets front.length) = _ :=
    congrArg (Option.bind · _) (@readOctets_inAt _ _ _ _ false _ hbits hpad)
  have hfirst : (ordered [byte1].length false [byte1]).headD 0 = byte1 := rfl
  rw [bind_some] at hread
  dsimp only at hread
  rw [hfirst] at hread
  refine ⟨?_, ?_, ?_⟩
  · intro hlt
    rw [hread, if_pos (hmask1.mpr hlt)]
    rfl
  · intro hge
    rw [hread, if_neg (fun h => by have := hmask1.mp h; omega),
      if_neg (fun h => by have := (hmask2 (by omega)).mp h; omega)]
  · rintro hge hlt rest' rfl
    have hposition : (front ++ pad ++ bits [byte1]).length = front.length + pad.length + 8 := by
      rw [length_append, length_append, bits_length]
      rfl
    have hnext := @readOctets_inAt octets [byte2] (front ++ pad ++ bits [byte1]) rest' false []
      (by rw [hbits]; simp only [append_assoc, nil_append])
      (by rw [hposition, length_nil]; omega)
    rw [hposition] at hnext
    rw [hread, if_neg (fun h => by have := hmask1.mp h; omega), if_pos ((hmask2 hge).mpr hlt)]
    refine (congrArg (Option.bind · _) hnext).trans ?_
    rw [hmask3, Nat.shiftLeft_eq, show byte1.toNat % 64 = byte1.toNat - 128 by omega]
    rfl

/-- The lengths that are read as they were: of two octets, those that are the same both ways. -/
def LengthSurvives (value : Nat) : Prop :=
  value < 128 ∨ ∃ h < 64, value = 128 + 257 * h

/-- **A length** is read as it was written, or is another one. -/
theorem getLengthDet_lengthOctets (hvalue : value < 16384)
    (hbits : bits octets = front ++ padding front.length ++ bits (lengthOctets value) ++ rest) :
    (LengthSurvives value → GetLengthDet (inAt octets front.length) = some (value, inAt octets
      (front ++ padding front.length ++ bits (lengthOctets value)).length)) ∧
    (¬ LengthSurvives value → ∀ r, GetLengthDet (inAt octets front.length) = some r →
      r.1 ≠ value ∧ r.1 < 16384) := by
  have hpad := length_padding front.length
  have hlength : (front ++ padding front.length ++ bits (lengthOctets value)).length =
      front.length + (padding front.length).length + 8 * (lengthOctets value).length := by
    rw [length_append, length_append, bits_length]
  rw [hlength]
  unfold LengthSurvives
  unfold lengthOctets at hbits ⊢
  by_cases hone : value < 128
  · rw [if_pos hone] at hbits ⊢
    have hbyte : (UInt8.ofNat value).toNat = value := UInt8.toNat_ofNat_of_lt' (by
      change _ < 256
      omega)
    have hread := (@getLengthDet_inAt _ _ _ _ _ 0 hbits hpad).1 (by rw [hbyte]; exact hone)
    rw [hbyte] at hread
    exact ⟨fun _ => hread, fun hnot => absurd (.inl hone) hnot⟩
  · rw [if_neg hone] at hbits ⊢
    have hbyte1 : (UInt8.ofNat value).toNat = value % 256 := UInt8.toNat_ofNat'
    have hbyte2 : (UInt8.ofNat (128 + value / 256)).toNat = 128 + value / 256 :=
      UInt8.toNat_ofNat_of_lt' (by
        change _ < 256
        omega)
    have hfront : bits octets = front ++ padding front.length ++ bits [UInt8.ofNat value] ++
        (bits [UInt8.ofNat (128 + value / 256)] ++ rest) := by
      rw [hbits, bits_cons (UInt8.ofNat value) [UInt8.ofNat (128 + value / 256)],
        bits_cons (UInt8.ofNat value) [], bits_nil]
      simp only [append_assoc, append_nil]
    obtain ⟨hshort, hnone, hlong⟩ :=
      @getLengthDet_inAt _ _ _ _ _ (UInt8.ofNat (128 + value / 256)) hfront hpad
    rw [hbyte1] at hshort hnone hlong
    rw [hbyte2] at hlong
    constructor
    · intro hsurvives
      obtain ⟨high, hhigh, heq⟩ := hsurvives.resolve_left hone
      have hmod : value % 256 = 128 + high := by
        rw [show value = 128 + high + 256 * high by omega, Nat.add_mul_mod_self_left]
        exact Nat.mod_eq_of_lt (by omega)
      rw [hlong (by omega) (by omega) rest rfl,
        show (value % 256 - 128) * 256 + (128 + value / 256) = value by omega]
      rfl
    · intro hnot r hr
      by_cases hlow : value % 256 < 128
      · rw [hshort hlow] at hr
        cases hr
        dsimp only
        omega
      · by_cases hfrag : 192 ≤ value % 256
        · rw [hnone hfrag] at hr
          cases hr
        · rw [hlong (by omega) (by omega) rest rfl] at hr
          cases hr
          refine ⟨fun heq => hnot (.inr ⟨value / 256, by omega, ?_⟩), ?_⟩ <;> dsimp only at * <;>
            omega

end Length

/-! ## 5. What becomes of a bit string -/

/-- **A string is read back**: its size and its bits, up to where they ended. -/
def ReadsBack (unbounded : Bool) (min max : UInt32) (x : S_BITSTRING) (octets : List UInt8)
    (start stop : Nat) : Prop :=
  ∃ x', GetBitString unbounded min max (inAt octets start) = some (x', inAt octets stop) ∧
    x'.size = x.size ∧ (bits x'.data).take x.size.toNat = (bits x.data).take x.size.toNat

/-- The strings that are: those with such a length, and of a constrained size the whole octets. The
    last read, of no bits, asks for one more octet. -/
def BitStringSurvives (unbounded : Bool) (min max : UInt32) (x : S_BITSTRING)
    (rest : List Bool) : Prop :=
  if unbounded then LengthSurvives x.size.toNat ∧ (x.size.toNat % 8 = 0 → rest ≠ [])
  else if min = max then x.size.toNat % 8 = 0 → rest ≠ []
  else x.size.toNat % 8 = 0

section Modes

variable {s s' : S_OutStream} {written rest l : List Bool} {octets : List UInt8} {x : S_BITSTRING}
variable {min max : UInt32}

/-- A string behind what was read in front of it. -/
theorem readStringBits_iff {front : List Bool} (hlen : l.length = x.size.toNat)
    (hl : l = (bits x.data).take x.size.toNat) (hbits : bits octets = front ++ l ++ rest) :
    (∃ x', readStringBits x.size.toNat (inAt octets front.length) =
        some (x', inAt octets (front ++ l).length) ∧
      x'.size = x.size ∧ (bits x'.data).take x.size.toNat = (bits x.data).take x.size.toNat) ↔
    (x.size.toNat % 8 = 0 → rest ≠ []) := by
  rw [length_append, ← hl, ← hlen]
  constructor
  · rintro ⟨x', hread, -⟩ hzero rfl
    rw [append_nil] at hbits
    rw [readStringBits_none hbits hzero] at hread
    cases hread
  · intro hmore
    obtain ⟨data, hread, hdata⟩ := readStringBits_inAt hbits
      (by rw [hlen]; exact x.size.toNat_lt) hmore
    exact ⟨_, hread, by rw [hlen]; exact UInt16.ofNat_toNat, hdata⟩

/-- Positions in the octets are known from the streams. -/
theorem inAt_inj {a b : Nat} (ha : a ≤ 8 * octets.length) (hb : b ≤ 8 * octets.length)
    (h : inAt octets a = inAt octets b) : a = b := by
  unfold inAt at h
  obtain ⟨hdata, hbit⟩ := S_InStream.mk.inj h
  have hlen := congrArg length hdata
  rw [length_drop, length_drop] at hlen
  omega

/-- What the bits of the string are, as many as its size says. -/
theorem string_length (hle : x.size.toNat ≤ 8 * x.data.length) :
    ((bits x.data).take x.size.toNat).length = x.size.toNat := by
  rw [length_take, bits_length, Nat.min_eq_left hle]

/-- **Unbounded**. -/
theorem unbounded_iff (h : Holds s written) (hs : PutBitString true min max x s = some s') :
    ∃ l, Holds s' (written ++ l) ∧ ∀ octets rest, bits octets = written ++ l ++ rest →
      (ReadsBack true min max x octets written.length (written ++ l).length ↔
        LengthSurvives x.size.toNat ∧ (x.size.toNat % 8 = 0 → rest ≠ [])) := by
  unfold PutBitString at hs
  rw [if_pos rfl] at hs
  obtain ⟨s₁, hs₁, hs₂⟩ := bind_eq_some_iff.mp hs
  obtain ⟨hvalue, h₁⟩ := h.putLengthDet hs₁
  obtain ⟨h₂, hle⟩ := h₁.writeStringBits hs₂
  have hlen := string_length hle
  refine ⟨padding written.length ++ bits (lengthOctets x.size.toNat) ++
    (bits x.data).take x.size.toNat, by simpa only [append_assoc] using h₂, ?_⟩
  intro octets rest hbits
  have hfront : bits octets = written ++ padding written.length ++
      bits (lengthOctets x.size.toNat) ++ ((bits x.data).take x.size.toNat ++ rest) := by
    rw [hbits]
    simp only [append_assoc]
  obtain ⟨hsame, hother⟩ := getLengthDet_lengthOctets hvalue hfront
  have hstring := readStringBits_iff (x := x) hlen rfl
    (hfront.trans (append_assoc _ _ _).symm)
  have hstop : written ++ (padding written.length ++ bits (lengthOctets x.size.toNat) ++
      (bits x.data).take x.size.toNat) = written ++ padding written.length ++
      bits (lengthOctets x.size.toNat) ++ (bits x.data).take x.size.toNat := by
    simp only [append_assoc]
  rw [hstop]
  unfold ReadsBack GetBitString
  rw [if_pos rfl]
  constructor
  · rintro ⟨x', hget, hx⟩
    obtain ⟨r, hr, hread⟩ := bind_eq_some_iff.mp hget
    have hsurvives : LengthSurvives x.size.toNat := by
      by_contra hnot
      obtain ⟨hne, hlt⟩ := hother hnot r hr
      have hsize := congrArg toNat (hx.1.symm.trans (readStringBits_size hread))
      rw [UInt16.toNat_ofNat_of_lt' (Nat.lt_trans hlt (by decide))] at hsize
      exact hne hsize.symm
    rw [hsame hsurvives] at hr
    cases hr
    exact ⟨hsurvives, hstring.mp ⟨x', hread, hx⟩⟩
  · rintro ⟨hsurvives, hmore⟩
    obtain ⟨x', hread, hx⟩ := hstring.mpr hmore
    exact ⟨x', (congrArg (Option.bind · _) (hsame hsurvives)).trans hread, hx⟩

/-- A string of a bounded size has one of the sizes. -/
theorem bounded_size (hs : PutBitString false min max x s = some s') :
    min ≤ x.size.toUInt32 ∧ x.size.toUInt32 ≤ max := by
  unfold PutBitString at hs
  rw [if_neg (by decide)] at hs
  split at hs
  · cases hs
  · split at hs
    · cases hs
    · rename_i hbounds
      exact ⟨UInt32.not_lt.mp fun h => hbounds (.inl h),
        UInt32.not_lt.mp fun h => hbounds (.inr h)⟩

/-- **Of a fixed size**. -/
theorem fixed_iff (h : Holds s written) (hs : PutBitString false min max x s = some s')
    (heq : min = max) :
    ∃ l, Holds s' (written ++ l) ∧ ∀ octets rest, bits octets = written ++ l ++ rest →
      (ReadsBack false min max x octets written.length (written ++ l).length ↔
        (x.size.toNat % 8 = 0 → rest ≠ [])) := by
  obtain ⟨hge, hle⟩ := bounded_size hs
  obtain rfl : min = x.size.toUInt32 := UInt32.le_antisymm hge (heq ▸ hle)
  subst heq
  have hirrefl : ¬ x.size.toUInt32 < x.size.toUInt32 := UInt32.lt_irrefl _
  unfold PutBitString at hs
  rw [if_neg (by decide), if_neg hirrefl, if_neg (by simp only [hirrefl, or_self, not_false_eq_true]),
    if_pos rfl] at hs
  obtain ⟨s₁, hs₁, hs₂⟩ := bind_eq_some_iff.mp hs
  -- the alignment of a long string is the same on both sides
  have haligned : ∃ pad, Holds s₁ (written ++ pad) ∧ ∀ octets : List UInt8,
      (if 16 < x.size then ReadRemainingBits (inAt octets written.length)
        else inAt octets written.length) = inAt octets (written ++ pad).length := by
    by_cases hlong : 16 < x.size
    · rw [if_pos hlong] at hs₁
      refine ⟨padding written.length, (h.writeRemaining hs₁).1, fun octets => ?_⟩
      rw [if_pos hlong, readRemaining_inAt, length_append, length_padding]
    · rw [if_neg hlong] at hs₁
      cases hs₁
      exact ⟨[], by rwa [append_nil], fun octets => by rw [if_neg hlong, append_nil]⟩
  obtain ⟨pad, h₁, hstart⟩ := haligned
  obtain ⟨h₂, hdata⟩ := h₁.writeStringBits hs₂
  have hsize : ofNat x.size.toUInt32.toNat = x.size := by
    rw [toNat_toUInt32, UInt16.ofNat_toNat]
  refine ⟨pad ++ (bits x.data).take x.size.toNat, by rwa [← append_assoc], ?_⟩
  intro octets rest hbits
  rw [← append_assoc] at hbits
  unfold ReadsBack GetBitString
  rw [if_neg (by decide), if_neg hirrefl, if_pos rfl, hsize, toNat_toUInt32, hstart,
    ← append_assoc]
  exact readStringBits_iff (string_length hdata) rfl hbits

/-- **Of a constrained size**. -/
theorem constrained_iff (h : Holds s written) (hs : PutBitString false min max x s = some s')
    (hne : min ≠ max) :
    ∃ l, Holds s' (written ++ l) ∧ ∀ octets rest, bits octets = written ++ l ++ rest →
      (ReadsBack false min max x octets written.length (written ++ l).length ↔
        x.size.toNat % 8 = 0) := by
  obtain ⟨hge, hle⟩ := bounded_size hs
  have hbounds : ¬ max < min := UInt32.not_lt.mpr (UInt32.le_trans hge hle)
  unfold PutBitString at hs
  rw [if_neg (by decide), if_neg hbounds, if_neg (by
    rw [not_or]
    exact ⟨UInt32.not_lt.mpr hge, UInt32.not_lt.mpr hle⟩), if_neg hne] at hs
  obtain ⟨s₁, hs₁, hs⟩ := bind_eq_some_iff.mp hs
  obtain ⟨s₂, hs₂, hs₃⟩ := bind_eq_some_iff.mp hs
  obtain ⟨field, h₁, hfield⟩ := putInteger_writes h hs₁
  have h₂ := (h₁.writeRemaining hs₂).1
  obtain ⟨h₃, hdata⟩ := h₂.writeStringBits hs₃
  have hsize : ofNat x.size.toUInt32.toNat = x.size := by
    rw [toNat_toUInt32, UInt16.ofNat_toNat]
  have hlen := string_length hdata
  generalize hpadEq : padding (written ++ field).length = pad at h₂ h₃
  have hpad : pad.length = (8 - (written.length + field.length) % 8) % 8 := by
    rw [← hpadEq, length_padding, length_append]
  obtain ⟨os, last, hstring, hos, hlast⟩ := exists_whole ((bits x.data).take x.size.toNat)
  rw [hlen] at hos hlast
  refine ⟨field ++ pad ++ (bits x.data).take x.size.toNat,
    by simpa only [append_assoc] using h₃, ?_⟩
  intro octets rest hbits
  have hstart : ReadRemainingBits (inAt octets (written.length + field.length)) =
      inAt octets (written ++ field ++ pad).length := by
    rw [readRemaining_inAt, ← hpad, length_append, length_append]
  have hwhole := @readWholeOctets_inAt octets os (written ++ field ++ pad) (last ++ rest)
    (by rw [hbits, hstring]; simp only [append_assoc])
  have hget := @getInteger_inAt octets min max x.size.toUInt32 written field
    (pad ++ (bits x.data).take x.size.toNat ++ rest) hge hle
    (by rw [hbits]; simp only [append_assoc]) hfield
  have hall : GetBitString false min max (inAt octets written.length) =
      some (⟨x.size, os⟩, inAt octets ((written ++ field ++ pad).length + 8 * os.length)) := by
    unfold GetBitString
    rw [if_neg (by decide), if_neg hbounds, if_neg hne]
    refine (congrArg (Option.bind · _) hget).trans ?_
    rw [bind_some]
    dsimp only
    rw [hsize, toNat_toUInt32, if_neg (by omega), hstart, ← hos]
    refine (congrArg (Option.bind · _) hwhole).trans ?_
    rfl
  have hstop : (written ++ (field ++ pad ++ (bits x.data).take x.size.toNat)).length =
      (written ++ field ++ pad).length + x.size.toNat := by
    simp only [length_append, hlen]
    omega
  have htotal := congrArg length hbits
  rw [bits_length, length_append, hstop] at htotal
  unfold ReadsBack
  rw [hall, hstop]
  constructor
  · rintro ⟨x', heq, -⟩
    have hposition := inAt_inj (by omega) (by omega) (Prod.mk.inj (Option.some.inj heq)).2
    omega
  · intro hzero
    rw [hzero, length_eq_zero_iff] at hlast
    rw [hlast, append_nil] at hstring
    have hcount : 8 * os.length = x.size.toNat := by omega
    refine ⟨⟨x.size, os⟩, by rw [hcount], rfl, ?_⟩
    dsimp only
    rw [hstring, take_of_length_le (by rw [bits_length, hcount])]

end Modes

/-- **A bit string is read back** from behind anything that was written before it, with anything
    behind it, exactly where it is one of those that survive. -/
theorem bitString_survives_iff (unbounded : Bool) (min max : UInt32) (x : S_BITSTRING)
    {s s' : S_OutStream} {written : List Bool} (h : Holds s written)
    (hs : PutBitString unbounded min max x s = some s') :
    ∃ l, Holds s' (written ++ l) ∧ ∀ octets rest, bits octets = written ++ l ++ rest →
      (ReadsBack unbounded min max x octets written.length (written ++ l).length ↔
        BitStringSurvives unbounded min max x rest) := by
  unfold BitStringSurvives
  cases unbounded with
  | true => exact unbounded_iff h hs
  | false =>
    by_cases heq : min = max
    · simpa only [Bool.false_eq_true, if_false, if_pos heq] using fixed_iff h hs heq
    · simpa only [Bool.false_eq_true, if_false, if_neg heq] using constrained_iff h hs heq

/-- Three bits of a fixed size are read back, with anything behind them. -/
theorem three_bits_survive : ∃ l, Holds ⟨[], 0, 0, 3, 0xa0⟩ ([] ++ l) ∧
    ∀ octets rest, bits octets = [] ++ l ++ rest →
      ReadsBack false 3 3 ⟨3, [0xa0]⟩ octets ([] : List Bool).length ([] ++ l).length := by
  obtain ⟨l, hheld, hread⟩ := @bitString_survives_iff false 3 3 ⟨3, [0xa0]⟩ _ ⟨[], 0, 0, 3, 0xa0⟩ _
    holds_new (by decide)
  refine ⟨l, hheld, fun octets rest hbits => (hread octets rest hbits).mpr ?_⟩
  exact fun hzero => absurd hzero (by decide)

/-- Three bits of a size from one to eight are written, and none of them is read. -/
theorem constrained_bits_stay :
    ¬ ∀ (unbounded : Bool) (min max : UInt32) (x : S_BITSTRING) (s s' : S_OutStream)
      (written l rest : List Bool) (octets : List UInt8), Holds s written →
      PutBitString unbounded min max x s = some s' → Holds s' (written ++ l) →
      bits octets = written ++ l ++ rest →
      ReadsBack unbounded min max x octets written.length (written ++ l).length := by
  intro h
  obtain ⟨x', hget, -⟩ := h false 1 8 ⟨3, [0xa0]⟩ NewOutStream
    ⟨0x40 :: List.replicate 63 0, 64, 1, 3, 0xa0⟩ [] (bits [0x40] ++ [true, false, true])
    [false, false, false, false, false] [0x40, 0xa0] holds_new (by decide)
    ⟨⟨[true, false, true], rfl, rfl, rfl⟩, by decide, .inl ⟨rfl, rfl, by decide⟩⟩ (by decide)
  have hread : GetBitString false 1 8 (inAt [0x40, 0xa0] 0) = some (⟨3, []⟩, ⟨[0xa0], 0⟩) := by
    decide
  have hstream := (Prod.mk.inj (Option.some.inj (hread.symm.trans hget))).2
  exact absurd (congrArg S_InStream.bitIndex hstream) (by decide)

end OpenCore.H245
