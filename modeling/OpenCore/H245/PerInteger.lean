/-
  File:      OpenCore/H245/PerInteger.lean
  Subject:   Constrained integers of the PER coder (genericper.cpp): `GetInteger`,
             `GetSignedInteger` and `PutInteger`.

  The offset from the lower bound is read with up to four octets, and added in 32 bits before it is
  compared with the upper bound. A sum that goes around is below the lower bound, and passes.

  **Main result**: `integers_in_range_iff`, `putInteger_writes`, `getInteger_offset`.
-/
import OpenCore.H245.PerStream

namespace OpenCore.H245

open MsbBits List Option
open UInt32 (lt_iff_toNat_lt toNat_inj)

/-! ## 1. The integers -/

/-- An integer in memory, the low octets first. -/
def inMemory : List UInt8 → Nat
  | [] => 0
  | octet :: octets => octet.toNat + 256 * inMemory octets

/-- The bits of a bit-field. -/
def nbits (range : Int) : Nat :=
  if range ≤ 2 then 1
  else if range ≤ 4 then 2
  else if range ≤ 8 then 3
  else if range ≤ 16 then 4
  else if range ≤ 32 then 5
  else if range ≤ 64 then 6
  else if range ≤ 128 then 7
  else 8

/-- `ReadOctets(nbytes, (uint8*)&value, 1, stream)`. -/
def readValue (nbytes : Nat) (stream : S_InStream) : Option (Nat × S_InStream) := do
  let (octets, stream) ← ReadOctets nbytes true stream
  return (inMemory octets, stream)

/-- The number of octets in two bits, and the octets. -/
def readCounted (stream : S_InStream) : Option (Nat × S_InStream) := do
  let (count, stream) ← ReadBits 2 stream
  readValue (count + 1) stream

/-- The value read for a range of 256 and more. -/
def readOctetsFor (range : Int) (stream : S_InStream) : Option (Nat × S_InStream) :=
  if range = 256 then readValue 1 stream
  else if range ≤ 65536 then readValue 2 stream
  else readCounted stream

/-- `GetInteger`; nothing where it leaves. -/
def GetInteger (lower upper : UInt32) (stream : S_InStream) : Option (UInt32 × S_InStream) :=
  if upper < lower then none
  else
    let range := upper - lower + 1
    if range = 0 then do
      let (value, stream) ← readCounted stream
      return (UInt32.ofNat value, stream)
    else if range = 1 then some (lower, stream)
    else if range < 256 then do
      let (value, stream) ← ReadBits (nbits range.toNat) stream
      if upper < lower + UInt32.ofNat value then none
      else return (lower + UInt32.ofNat value, stream)
    else do
      let (value, stream) ← readOctetsFor range.toNat stream
      if upper < lower + UInt32.ofNat value then none
      else return (lower + UInt32.ofNat value, stream)

/-- `GetSignedInteger`. The range is taken in 32 bits too. -/
def GetSignedInteger (lower upper : Int32) (stream : S_InStream) : Option (Int32 × S_InStream) :=
  if upper < lower then none
  else
    let range := upper - lower + 1
    if range = 0 then none
    else if range = 1 then some (lower, stream)
    else if range < 256 then do
      let (value, stream) ← ReadBits (nbits range.toInt) stream
      if upper < lower + Int32.ofNat value then none
      else return (lower + Int32.ofNat value, stream)
    else do
      let (value, stream) ← readOctetsFor range.toInt stream
      if upper < lower + Int32.ofNat value then none
      else return (lower + Int32.ofNat value, stream)

/-- The octets of an integer in memory. -/
def memoryOf : Nat → Nat → List UInt8
  | 0, _ => []
  | n + 1, value => UInt8.ofNat value :: memoryOf n (value / 256)

/-- The minimum of octets of an offset. -/
def nbytesOf (offset : Nat) : Nat :=
  if offset < 256 then 1 else if offset < 65536 then 2 else if offset < 16777216 then 3 else 4

/-- `PutInteger`; nothing where it leaves. -/
def PutInteger (lower upper value : UInt32) (stream : S_OutStream) : Option S_OutStream :=
  if upper < lower then none
  else if value < lower then none
  else if upper < value then none
  else
    let range := upper - lower + 1
    let offset := (value - lower).toNat
    if range = 0 ∨ 65536 < range then do
      let stream ← WriteBits 2 (nbytesOf offset - 1) stream
      WriteOctets (nbytesOf offset) (memoryOf 4 offset) true stream
    else if range = 1 then some stream
    else if range < 256 then WriteBits (nbits range.toNat) (offset % 256) stream
    else if range = 256 then WriteOctets 1 (memoryOf 4 offset) true stream
    else WriteOctets 2 (memoryOf 4 offset) true stream

/-! ## 2. The field of an offset -/

/-- **These bits** behind `position` others say an offset in a range. Any bits may fill the octet
    up to a boundary. -/
def OffsetBits (range : Int) (position : Nat) (l : List Bool) (offset : Nat) : Prop :=
  if range = 1 then l = [] ∧ offset = 0
  else if range < 256 then l.length = nbits range ∧ offset = num l
  else if range ≤ 65536 then ∃ (pad : List Bool) (os : List UInt8), l = pad ++ bits os ∧
    pad.length = (8 - position % 8) % 8 ∧ os.length = (if range = 256 then 1 else 2) ∧
    offset = num (bits os)
  else ∃ (count pad : List Bool) (os : List UInt8), l = count ++ pad ++ bits os ∧
    count.length = 2 ∧ pad.length = (8 - (position + 2) % 8) % 8 ∧ os.length = num count + 1 ∧
    offset = num (bits os)

/-- The octets say this offset at the position. -/
def Encoded (range : Int) (octets : List UInt8) (position offset : Nat) : Prop :=
  ∃ front l rest, bits octets = front ++ l ++ rest ∧ front.length = position ∧
    OffsetBits range position l offset

/-- The field of an offset, read. -/
def readField (range : Int) (stream : S_InStream) : Option (Nat × S_InStream) :=
  if range = 1 then some (0, stream)
  else if range < 256 then ReadBits (nbits range) stream
  else readOctetsFor range stream

/-- The field of an offset, written. -/
def writeField (range : Int) (offset : Nat) (stream : S_OutStream) : Option S_OutStream :=
  if 65536 < range then do
    let stream ← WriteBits 2 (nbytesOf offset - 1) stream
    WriteOctets (nbytesOf offset) (memoryOf 4 offset) true stream
  else if range = 1 then some stream
  else if range < 256 then WriteBits (nbits range) (offset % 256) stream
  else WriteOctets (if range = 256 then 1 else 2) (memoryOf 4 offset) true stream

theorem inMemory_append (l m : List UInt8) :
    inMemory (l ++ m) = inMemory l + 256 ^ l.length * inMemory m := by
  induction l with
  | nil => simp [inMemory]
  | cons octet l ih =>
    rw [cons_append, inMemory, ih, inMemory, length_cons, pow_succ]
    ring

/-- The octets of the stream, turned around in memory. -/
theorem inMemory_reverse (l : List UInt8) : inMemory l.reverse = num (bits l) := by
  induction l with
  | nil => rfl
  | cons octet l ih =>
    rw [reverse_cons, inMemory_append, ih, num_bits_cons, length_reverse, pow_mul,
      inMemory, inMemory]
    ring

theorem nbits_bounds (range : Int) : 1 ≤ nbits range ∧ nbits range ≤ 8 := by
  unfold nbits
  split_ifs <;> omega

variable {r : Nat × S_InStream}

section Field

variable {range : Int} {octets os : List UInt8} {front l rest : List Bool} {offset n : Nat}

theorem OffsetBits.lt (h : OffsetBits range n l offset) : offset < 2 ^ 32 := by
  have hlt : ∀ {m : List Bool}, m.length ≤ 32 → num m < 2 ^ 32 := fun hm =>
    Nat.lt_of_lt_of_le (num_lt _) (Nat.pow_le_pow_right (by decide) hm)
  unfold OffsetBits at h
  split at h
  · rw [h.2]
    decide
  · split at h
    · obtain ⟨hlen, rfl⟩ := h
      have := (nbits_bounds range).2
      exact hlt (by omega)
    · split at h
      · obtain ⟨pad, os, -, -, hlen, rfl⟩ := h
        refine hlt ?_
        rw [bits_length, hlen]
        split <;> decide
      · obtain ⟨count, pad, os, -, hcount, -, hlen, rfl⟩ := h
        refine hlt ?_
        have := num_lt count
        rw [hcount] at this
        rw [bits_length]
        omega

theorem readValue_inAt {pad : List Bool} (hbits : bits octets = front ++ pad ++ bits os ++ rest)
    (hpad : pad.length = (8 - front.length % 8) % 8) (hle : os.length ≤ 4) :
    readValue os.length (inAt octets front.length) =
      some (num (bits os), inAt octets (front.length + pad.length + 8 * os.length)) := by
  have hordered : ordered os.length true os = os.reverse := by
    unfold ordered
    rw [if_pos ⟨hle, rfl⟩, take_length]
  unfold readValue
  rw [readOctets_inAt hbits hpad, hordered, ← inMemory_reverse]
  rfl

theorem readCounted_inAt {count pad : List Bool}
    (hbits : bits octets = front ++ (count ++ pad ++ bits os) ++ rest) (hcount : count.length = 2)
    (hpad : pad.length = (8 - (front.length + 2) % 8) % 8) (hlen : os.length = num count + 1) :
    readCounted (inAt octets front.length) =
      some (num (bits os), inAt octets (front.length + (count ++ pad ++ bits os).length)) := by
  have hlt := num_lt count
  rw [hcount] at hlt
  have hfirst := @readBits_inAt octets front count (pad ++ bits os ++ rest)
    (by rw [hbits]; simp only [append_assoc]) (by omega) (by omega)
  have hrest := @readValue_inAt octets os (front ++ count) rest pad
    (by rw [hbits]; simp only [append_assoc]) (by rw [length_append, hcount, hpad])
    (by omega)
  rw [hcount] at hfirst
  rw [length_append, hcount, hlen] at hrest
  unfold readCounted
  rw [hfirst]
  refine hrest.trans ?_
  rw [length_append, length_append, bits_length, hcount, hlen]
  congr 3
  omega

/-- **The field is read** where it is. -/
theorem readField_inAt (hbits : bits octets = front ++ l ++ rest)
    (h : OffsetBits range front.length l offset) :
    readField range (inAt octets front.length) =
      some (offset, inAt octets (front.length + l.length)) := by
  unfold OffsetBits at h
  unfold readField readOctetsFor
  split at h
  · rename_i hone
    obtain ⟨rfl, rfl⟩ := h
    rw [if_pos hone]
    rfl
  · rename_i hone
    rw [if_neg hone]
    split at h
    · rename_i hfew
      obtain ⟨hlen, rfl⟩ := h
      have hbounds := nbits_bounds range
      rw [if_pos hfew, ← hlen]
      exact readBits_inAt hbits (by omega) (by omega)
    · rename_i hfew
      rw [if_neg hfew]
      split at h
      · rename_i htwo
        obtain ⟨pad, os, rfl, hpad, hlen, rfl⟩ := h
        have hread := @readValue_inAt octets os front rest pad
          (by rw [hbits]; simp only [append_assoc]) hpad (by rw [hlen]; split <;> decide)
        rw [if_pos htwo, length_append, bits_length, ← Nat.add_assoc, ← hread, hlen]
        split <;> rfl
      · rename_i htwo
        obtain ⟨count, pad, os, rfl, hcount, hpad, hlen, rfl⟩ := h
        rw [if_neg (by omega), if_neg htwo]
        exact readCounted_inAt hbits hcount hpad hlen

variable {position : Nat}

theorem readValue_some (hn : 1 ≤ n)
    (hread : readValue n (inAt octets position) = some r) :
    ∃ front pad os rest, bits octets = front ++ pad ++ bits os ++ rest ∧
      front.length = position ∧ pad.length = (8 - position % 8) % 8 ∧ os.length = n := by
  obtain ⟨r₁, hr₁, -⟩ := bind_eq_some_iff.mp hread
  have hroom := readOctets_room hn hr₁
  obtain ⟨front, m, rest, hbits, hfront, hm⟩ := exists_parts (l := bits octets) (n := position)
    (m := (8 - position % 8) % 8 + 8 * n) (by rw [bits_length]; omega)
  obtain ⟨none, pad, m₂, hparts, hnone, hpad⟩ := exists_parts (l := m) (n := 0)
    (m := (8 - position % 8) % 8) (by omega)
  rw [length_eq_zero_iff.mp hnone, nil_append] at hparts
  obtain ⟨os, hos⟩ := exists_bits (n := n) (l := m₂) (by
    rw [hparts, length_append] at hm
    omega)
  refine ⟨front, pad, os, rest, ?_, hfront, hpad, ?_⟩
  · rw [hbits, hparts, hos, append_assoc front pad]
  · have hlen := congrArg length hparts
    rw [hm, length_append, ← hos, bits_length] at hlen
    omega

/-- **What is read** is a field. -/
theorem readField_some (hrange : range ≠ 1)
    (hread : readField range (inAt octets position) = some r) :
    Encoded range octets position r.1 := by
  -- the field that is there is the one that was read
  have hsame : ∀ (front l rest : List Bool) (offset : Nat), bits octets = front ++ l ++ rest →
      front.length = position → OffsetBits range position l offset →
      Encoded range octets position r.1 := by
    rintro front l rest offset hbits rfl hl
    have hoffset := (readField_inAt hbits hl).symm.trans hread
    exact ⟨front, l, rest, hbits, rfl, by rw [← some.inj hoffset]; exact hl⟩
  have hfield := hread
  unfold readField readOctetsFor at hfield
  rw [if_neg hrange] at hfield
  split at hfield
  · rename_i hfew
    have hroom := readBits_room (nbits_bounds range).1 hfield
    obtain ⟨front, l, rest, hbits, hfront, hl⟩ := exists_parts (l := bits octets) (n := position)
      (m := nbits range) (by rw [bits_length]; exact hroom.2)
    refine hsame front l rest (num l) hbits hfront ?_
    unfold OffsetBits
    rw [if_neg hrange, if_pos hfew]
    exact ⟨hl, rfl⟩
  · rename_i hfew
    have hvalue : ∀ n, n = (if range = 256 then 1 else 2) → range ≤ 65536 →
        readValue n (inAt octets position) = some r → Encoded range octets position r.1 := by
      intro n hn htwo hvalue
      obtain ⟨front, pad, os, rest, hbits, hfront, hpad, hos⟩ := readValue_some
        (by rw [hn]; split <;> decide) hvalue
      refine hsame front (pad ++ bits os) rest (num (bits os))
        (by rw [hbits]; simp only [append_assoc]) hfront ?_
      unfold OffsetBits
      rw [if_neg hrange, if_neg hfew, if_pos htwo]
      exact ⟨pad, os, rfl, hpad, hos.trans hn, rfl⟩
    split at hfield
    · rename_i hone
      exact hvalue 1 (if_pos hone).symm (by omega) hfield
    · rename_i hone
      split at hfield
      · rename_i htwo
        exact hvalue 2 (if_neg hone).symm htwo hfield
      · rename_i htwo
        obtain ⟨⟨c, stream⟩, hcount, hos⟩ := bind_eq_some_iff.mp hfield
        have hroom := readBits_room (by decide) hcount
        obtain ⟨front, count, rest, hbits, hfront, hlen⟩ := exists_parts (l := bits octets)
          (n := position) (m := 2) (by rw [bits_length]; exact hroom.2)
        have hread₂ := readBits_inAt hbits (by omega) (by omega)
        rw [hlen, hfront] at hread₂
        obtain ⟨rfl, rfl⟩ := Prod.mk.inj (some.inj (hread₂.symm.trans hcount))
        obtain ⟨front₂, pad, os, rest₂, hbits₂, hfront₂, hpad, hos₂⟩ := readValue_some
          (Nat.le_add_left 1 _) hos
        have hparts : front ++ count ++ rest = front₂ ++ (pad ++ bits os ++ rest₂) := by
          rw [← hbits, hbits₂]
          simp only [append_assoc]
        obtain ⟨rfl, -⟩ := append_inj hparts
          (by rw [length_append, hfront, hlen, hfront₂])
        refine hsame front (count ++ pad ++ bits os) rest₂ (num (bits os))
          (by rw [hbits₂]; simp only [append_assoc]) hfront ?_
        unfold OffsetBits
        rw [if_neg hrange, if_neg hfew, if_neg htwo]
        exact ⟨count, pad, os, rfl, hlen, hpad, hos₂, rfl⟩

theorem Encoded.read (h : Encoded range octets position offset) :
    ∃ stream, readField range (inAt octets position) = some (offset, stream) := by
  obtain ⟨front, l, rest, hbits, rfl, hl⟩ := h
  exact ⟨_, readField_inAt hbits hl⟩

end Field

/-! ## 3. What is written -/

theorem inMemory_memoryOf (n value : Nat) : inMemory (memoryOf n value) = value % 256 ^ n := by
  induction n generalizing value with
  | zero => rw [memoryOf, inMemory, pow_zero, Nat.mod_one]
  | succ n ih =>
    rw [memoryOf, inMemory, ih, Nat.pow_succ', Nat.mod_mul, UInt8.toNat_ofNat']

theorem length_memoryOf (n value : Nat) : (memoryOf n value).length = n := by
  induction n generalizing value with
  | zero => rfl
  | succ n ih => rw [memoryOf, length_cons, ih]

theorem take_memoryOf {n m : Nat} (h : n ≤ m) (value : Nat) :
    (memoryOf m value).take n = memoryOf n value := by
  induction n generalizing m value with
  | zero => rfl
  | succ n ih =>
    obtain ⟨m, rfl⟩ : ∃ k, m = k + 1 := ⟨m - 1, by omega⟩
    rw [memoryOf, take_succ_cons, ih (by omega), memoryOf]

/-- The value, turned around in the stream. -/
theorem num_ordered_memoryOf {n value : Nat} (hn : n ≤ 4) (hvalue : value < 256 ^ n) :
    num (bits (ordered n true (memoryOf 4 value))) = value := by
  unfold ordered
  rw [if_pos ⟨hn, rfl⟩, take_memoryOf hn, ← inMemory_reverse, reverse_reverse,
    inMemory_memoryOf, Nat.mod_eq_of_lt hvalue]

theorem nbytesOf_bounds {offset : Nat} (h : offset < 2 ^ 32) :
    1 ≤ nbytesOf offset ∧ nbytesOf offset ≤ 4 ∧ offset < 256 ^ nbytesOf offset := by
  unfold nbytesOf
  split_ifs <;> omega

/-- A bit-field has the values of its range. -/
theorem lt_two_pow_nbits {range : Int} {offset : Nat} (hrange : range < 256)
    (h : (offset : Int) < range) : offset < 2 ^ nbits range := by
  unfold nbits
  split_ifs <;> omega

variable {lower : UInt32}

/-- The range of two bounds, which has 33 bits. -/
theorem range_eq {upper : UInt32} (h : lower ≤ upper) :
    (upper - lower + 1).toNat = (upper.toNat - lower.toNat + 1) % 2 ^ 32 := by
  rw [UInt32.toNat_add, UInt32.toNat_sub_of_le _ _ h]
  rfl

section Written

variable {s s' : S_OutStream} {written : List Bool} {offset n : Nat}

theorem Holds.writeValue (h : Holds s written) (hn : n ≤ 4) (hoffset : offset < 256 ^ n)
    (hs : WriteOctets n (memoryOf 4 offset) true s = some s') :
    ∃ os : List UInt8, Holds s' (written ++ (padding written.length ++ bits os)) ∧ os.length = n ∧
      offset = num (bits os) := by
  have hlen : n ≤ (memoryOf 4 offset).length := by rw [length_memoryOf]; exact hn
  refine ⟨ordered n true (memoryOf 4 offset), ?_, length_ordered hlen true,
    (num_ordered_memoryOf hn hoffset).symm⟩
  rw [← append_assoc]
  exact (h.writeOctets hlen hs).1

/-- **The field of an offset** is written. -/
theorem Holds.writeField {range : Int} (h : Holds s written) (hpos : 1 ≤ range)
    (hoffset : (offset : Int) < range) (hmany : range ≤ 2 ^ 32)
    (hs : writeField range offset s = some s') :
    ∃ l, Holds s' (written ++ l) ∧ OffsetBits range written.length l offset := by
  unfold H245.writeField at hs
  unfold OffsetBits
  split at hs
  · -- the number of octets, and the octets
    obtain ⟨hone, hfour, hfits⟩ := nbytesOf_bounds (show offset < 2 ^ 32 by omega)
    obtain ⟨s₁, hs₁, hs₂⟩ := bind_eq_some_iff.mp hs
    have h₁ := h.writeBits (by decide) hs₁
    obtain ⟨os, hheld, hos, hnum⟩ := h₁.writeValue hfour hfits hs₂
    have hlen : (written ++ ofNum 2 (nbytesOf offset - 1)).length = written.length + 2 := by
      rw [length_append, ofNum_length]
    rw [hlen, append_assoc] at hheld
    refine ⟨_, hheld, ?_⟩
    rw [if_neg (by omega), if_neg (by omega), if_neg (by omega)]
    refine ⟨_, padding (written.length + 2), os, (append_assoc _ _ _).symm,
      ofNum_length _ _, length_padding _, ?_, hnum⟩
    rw [hos, num_ofNum_of_lt (by omega)]
    omega
  · split at hs
    · rename_i hone
      cases hs
      refine ⟨[], by rwa [append_nil], ?_⟩
      rw [if_pos hone]
      exact ⟨rfl, by omega⟩
    · rename_i hone
      split at hs
      · rename_i hfew
        have hbounds := nbits_bounds range
        refine ⟨_, h.writeBits hbounds.2 hs, ?_⟩
        rw [if_neg hone, if_pos hfew, Nat.mod_eq_of_lt (by omega)]
        exact ⟨ofNum_length _ _, (num_ofNum_of_lt (lt_two_pow_nbits hfew hoffset)).symm⟩
      · rename_i hfew
        have hn : (if range = 256 then 1 else 2) ≤ 4 := by split <;> decide
        have hfits : offset < 256 ^ (if range = 256 then 1 else 2) := by
          split
          · omega
          · change _ < 65536
            omega
        obtain ⟨os, hheld, hos, hnum⟩ := h.writeValue hn hfits hs
        refine ⟨_, hheld, ?_⟩
        rw [if_neg hone, if_neg hfew, if_pos (by omega)]
        exact ⟨_, os, rfl, length_padding _, hos, hnum⟩

variable {upper value : UInt32}

/-- `PutInteger` writes the field of the offset. -/
theorem putInteger_eq (hlower : lower ≤ value) (hupper : value ≤ upper)
    (s : S_OutStream) : PutInteger lower upper value s =
      writeField (upper.toNat - lower.toNat + 1) (value.toNat - lower.toNat) s := by
  have hle : lower ≤ upper := UInt32.le_trans hlower hupper
  have h₁ : lower.toNat ≤ value.toNat := hlower
  have h₂ : value.toNat ≤ upper.toNat := hupper
  have hrange := range_eq hle
  have hlt := upper.toNat_lt
  unfold PutInteger
  rw [if_neg (UInt32.not_lt.mpr hle), if_neg (UInt32.not_lt.mpr hlower),
    if_neg (UInt32.not_lt.mpr hupper)]
  dsimp only
  rw [UInt32.toNat_sub_of_le _ _ hlower]
  generalize upper - lower + 1 = range at hrange
  have hzero : range = 0 ↔ range.toNat = 0 := toNat_inj.symm
  have hmany : 65536 < range ↔ 65536 < range.toNat := lt_iff_toNat_lt
  by_cases hcount : range = 0 ∨ 65536 < range
  · rw [if_pos hcount, writeField, if_pos]
    rw [hzero, hmany] at hcount
    omega
  · have hnat := hcount
    rw [hzero, hmany] at hnat
    have hint : (upper.toNat : Int) - lower.toNat + 1 = (range.toNat : Int) := by omega
    have hone : range = 1 ↔ (range.toNat : Int) = 1 := by
      rw [← toNat_inj]
      exact Nat.cast_inj.symm
    have hfew : range < 256 ↔ (range.toNat : Int) < 256 := Nat.cast_lt.symm
    have hbyte : range = 256 ↔ (range.toNat : Int) = 256 := by
      rw [← toNat_inj]
      exact Nat.cast_inj.symm
    have hnot : ¬ (65536 : Int) < (range.toNat : Int) := by omega
    rw [if_neg hcount, hint, writeField, if_neg hnot]
    simp only [hone, hfew, hbyte]
    split_ifs <;> rfl

theorem putInteger_bounds
    (hs : PutInteger lower upper value s = some s') : lower ≤ value ∧ value ≤ upper := by
  unfold PutInteger at hs
  split at hs
  · cases hs
  · split at hs
    · cases hs
    · rename_i hlower
      split at hs
      · cases hs
      · rename_i hupper
        exact ⟨UInt32.not_lt.mp hlower, UInt32.not_lt.mp hupper⟩

/-- **An integer that is written** is in its range, and its field says the offset. -/
theorem putInteger_writes (h : Holds s written)
    (hs : PutInteger lower upper value s = some s') :
    ∃ l, Holds s' (written ++ l) ∧
      OffsetBits (upper.toNat - lower.toNat + 1) written.length l (value.toNat - lower.toNat) := by
  obtain ⟨hlower, hupper⟩ := putInteger_bounds hs
  have h₁ : lower.toNat ≤ value.toNat := hlower
  have h₂ : value.toNat ≤ upper.toNat := hupper
  have hlt := upper.toNat_lt
  rw [putInteger_eq hlower hupper] at hs
  exact h.writeField (by omega) (by omega) (by omega) hs

end Written

/-! ## 4. What the integers are -/

section Bounds

variable {octets : List UInt8} {position : Nat}

/-- `GetInteger` adds what it reads to the lower bound, and compares. -/
theorem getInteger_eq {upper : UInt32} (h : lower ≤ upper) (stream : S_InStream) :
    GetInteger lower upper stream =
      (readField (upper.toNat - lower.toNat + 1) stream).bind fun r =>
        if upper < lower + UInt32.ofNat r.1 then none
        else some (lower + UInt32.ofNat r.1, r.2) := by
  have hle : lower.toNat ≤ upper.toNat := h
  have hrange := range_eq h
  have hlt := upper.toNat_lt
  unfold GetInteger
  rw [if_neg (UInt32.not_lt.mpr h)]
  dsimp only
  generalize upper - lower + 1 = range at hrange
  by_cases hall : upper.toNat - lower.toNat + 1 = 2 ^ 32
  · -- every value is in the range
    have hzero : range = 0 := toNat_inj.mp (by rw [hrange, hall]; rfl)
    have hlower : lower = 0 := toNat_inj.mp (show lower.toNat = 0 by omega)
    have hread : readField (upper.toNat - lower.toNat + 1) stream = readCounted stream := by
      unfold readField readOctetsFor
      rw [if_neg (by omega), if_neg (by omega), if_neg (by omega), if_neg (by omega)]
    rw [if_pos hzero, hread]
    refine congrArg (readCounted stream).bind (funext fun r => ?_)
    have hupper : ¬ upper < lower + UInt32.ofNat r.1 := by
      rw [lt_iff_toNat_lt]
      have := (lower + UInt32.ofNat r.1).toNat_lt
      omega
    rw [if_neg hupper, hlower, UInt32.zero_add]
    rfl
  · have hnat : range.toNat = upper.toNat - lower.toNat + 1 := by
      rw [hrange]
      exact Nat.mod_eq_of_lt (by omega)
    have hint : (upper.toNat : Int) - lower.toNat + 1 = (range.toNat : Int) := by omega
    rw [if_neg (by intro h0; rw [h0] at hnat; exact absurd hnat (by simp)), hint]
    unfold readField
    by_cases hone : range = 1
    · have hupper : ¬ upper < lower := UInt32.not_lt.mpr h
      have hzero : lower + UInt32.ofNat 0 = lower := UInt32.add_zero lower
      rw [if_pos hone, if_pos (by rw [hone]; rfl), bind_some]
      dsimp only
      rw [hzero, if_neg hupper]
    · have hone' : ¬ (range.toNat : Int) = 1 := fun h1 =>
        hone (toNat_inj.mp (Nat.cast_injective h1))
      rw [if_neg hone, if_neg hone']
      by_cases hfew : range < 256
      · have hfew' : range.toNat < 256 := hfew
        rw [if_pos hfew, if_pos (show (range.toNat : Int) < 256 by omega)]
        rfl
      · have hfew' : ¬ range.toNat < 256 := hfew
        rw [if_neg hfew, if_neg (show ¬ (range.toNat : Int) < 256 by omega)]
        rfl

/-- `GetSignedInteger` does so in half of the range. Of more values, it reads one bit, or none. -/
theorem getSignedInteger_eq {lower upper : Int32} (h : lower ≤ upper) (stream : S_InStream) :
    GetSignedInteger lower upper stream =
      if upper.toInt - lower.toInt + 1 = 2 ^ 32 then none
      else
        (readField (if upper.toInt - lower.toInt + 1 < 2 ^ 31 then upper.toInt - lower.toInt + 1
          else 2) stream).bind fun r =>
          if upper < lower + Int32.ofNat r.1 then none
          else some (lower + Int32.ofNat r.1, r.2) := by
  have hle : lower.toInt ≤ upper.toInt := Int32.le_iff_toInt_le.mp h
  have hlt := upper.toInt_lt
  have hge := lower.le_toInt
  have hrange : (upper - lower + 1).toInt = (upper.toInt - lower.toInt + 1).bmod (2 ^ 32) := by
    rw [Int32.toInt_add, Int32.toInt_sub, Int.bmod_add_bmod]
    rfl
  rw [Int.bmod_def] at hrange
  unfold GetSignedInteger
  rw [if_neg (Int32.not_lt.mpr h)]
  dsimp only
  generalize upper - lower + 1 = range at hrange
  have hzero : range = 0 ↔ range.toInt = 0 := Int32.toInt_inj.symm
  have hone : range = 1 ↔ range.toInt = 1 := Int32.toInt_inj.symm
  have hfew : range < 256 ↔ range.toInt < 256 := Int32.lt_iff_toInt_lt
  by_cases hall : upper.toInt - lower.toInt + 1 = 2 ^ 32
  · rw [if_pos (hzero.mpr (by omega)), if_pos hall]
  · rw [if_neg (fun h0 => by have := hzero.mp h0; omega), if_neg hall]
    unfold readField
    by_cases hhalf : upper.toInt - lower.toInt + 1 < 2 ^ 31
    · have hint : upper.toInt - lower.toInt + 1 = range.toInt := by omega
      rw [if_pos hhalf, hint]
      by_cases h1 : range = 1
      · have hupper : ¬ upper < lower := Int32.not_lt.mpr h
        have hsame : lower + Int32.ofNat 0 = lower := Int32.add_zero lower
        rw [if_pos h1, if_pos (hone.mp h1), bind_some]
        dsimp only
        rw [hsame, if_neg hupper]
      · rw [if_neg h1, if_neg (fun h1' => h1 (hone.mpr h1'))]
        by_cases hless : range < 256
        · rw [if_pos hless, if_pos (hfew.mp hless)]
          rfl
        · rw [if_neg hless, if_neg (fun h' => hless (hfew.mpr h'))]
          rfl
    · -- the range is negative
      have hneg : range.toInt < 0 := by omega
      have hbits : nbits range.toInt = nbits 2 := by
        unfold nbits
        rw [if_pos (by omega), if_pos (Int.le_refl 2)]
      rw [if_neg (fun h1 => by have := hone.mp h1; omega), if_pos (hfew.mpr (by omega)),
        if_neg hhalf, if_neg (by decide), if_pos (by decide), hbits]
      rfl

/-- The offset said at the position, added to the lower bound, stays below the limit. -/
def SumFits (lower range limit : Int) (octets : List UInt8) (position : Nat) : Prop :=
  ∀ offset : Nat, Encoded range octets position offset → lower + offset < limit

/-- The field that was read fits, or there was none. -/
theorem SumFits.read {lower range limit : Int} (h : SumFits lower range limit octets position)
    (hlower : lower < limit)
    (hread : readField range (inAt octets position) = some r) : lower + r.1 < limit := by
  by_cases hone : range = 1
  · unfold readField at hread
    rw [if_pos hone] at hread
    cases hread
    simpa using hlower
  · exact h _ (readField_some hone hread)

theorem sum_toNat {offset : Nat} (hoffset : offset < 2 ^ 32) :
    (lower + UInt32.ofNat offset).toNat = (lower.toNat + offset) % 2 ^ 32 := by
  rw [UInt32.toNat_add, UInt32.toNat_ofNat_of_lt' hoffset]

theorem sum_toInt {lower : Int32} {offset : Nat} :
    (lower + Int32.ofNat offset).toInt = (lower.toInt + offset).bmod (2 ^ 32) := by
  rw [Int32.toInt_add, Int32.toInt_ofNat']
  exact Int.add_bmod_bmod

/-- **Unsigned integers** are in the range exactly where the sum does not go around. -/
theorem getInteger_iff {upper : UInt32} (h : lower ≤ upper) :
    (∀ value stream, GetInteger lower upper (inAt octets position) = some (value, stream) →
      lower ≤ value ∧ value ≤ upper) ↔
    SumFits lower.toNat (upper.toNat - lower.toNat + 1) (2 ^ 32) octets position := by
  have hlower := lower.toNat_lt
  constructor
  · intro hin offset hencoded
    have hoffset : offset < 2 ^ 32 := by
      obtain ⟨front, l, rest, -, -, hl⟩ := hencoded
      exact hl.lt
    obtain ⟨stream, hread⟩ := hencoded.read
    by_contra hover
    -- the sum went around, and is below the lower bound
    have hsum : (lower + UInt32.ofNat offset).toNat < lower.toNat := by
      rw [sum_toNat hoffset]
      omega
    have hpass : ¬ upper < lower + UInt32.ofNat offset := by
      rw [lt_iff_toNat_lt]
      have hle : lower.toNat ≤ upper.toNat := h
      omega
    have hvalue := hin (lower + UInt32.ofNat offset) stream (by
      rw [getInteger_eq h, hread, bind_some, if_neg hpass])
    exact absurd (show lower.toNat ≤ _ from hvalue.1) (Nat.not_le.mpr hsum)
  · intro hfits value stream hget
    rw [getInteger_eq h] at hget
    obtain ⟨r, hread, hvalue⟩ := bind_eq_some_iff.mp hget
    have hsum := hfits.read (by exact_mod_cast hlower) hread
    split at hvalue
    · cases hvalue
    · rename_i hpass
      cases hvalue
      refine ⟨?_, UInt32.not_lt.mp hpass⟩
      change lower.toNat ≤ (lower + UInt32.ofNat r.1).toNat
      rw [sum_toNat (by omega)]
      omega

/-- **Signed integers** as well, or where the range has more than half of the values. -/
theorem getSignedInteger_iff {lower upper : Int32} (h : lower ≤ upper) :
    (∀ value stream, GetSignedInteger lower upper (inAt octets position) = some (value, stream) →
      lower ≤ value ∧ value ≤ upper) ↔
    (upper.toInt - lower.toInt + 1 < 2 ^ 31 →
      SumFits lower.toInt (upper.toInt - lower.toInt + 1) (2 ^ 31) octets position) := by
  have hle : lower.toInt ≤ upper.toInt := Int32.le_iff_toInt_le.mp h
  have hlower := lower.toInt_lt
  have hge := lower.le_toInt
  have hupper := upper.toInt_lt
  constructor
  · intro hin hhalf offset hencoded
    have hoffset : offset < 2 ^ 32 := by
      obtain ⟨front, l, rest, -, -, hl⟩ := hencoded
      exact hl.lt
    obtain ⟨stream, hread⟩ := hencoded.read
    by_contra hover
    have hsum : (lower + Int32.ofNat offset).toInt < lower.toInt := by
      rw [sum_toInt, Int.bmod_def]
      omega
    have hpass : ¬ upper < lower + Int32.ofNat offset := by
      rw [Int32.lt_iff_toInt_lt]
      omega
    have hvalue := hin (lower + Int32.ofNat offset) stream (by
      rw [getSignedInteger_eq h, if_neg (by omega), if_pos hhalf, hread, bind_some,
        if_neg hpass])
    have := Int32.le_iff_toInt_le.mp hvalue.1
    omega
  · intro hfits value stream hget
    rw [getSignedInteger_eq h] at hget
    split at hget
    · cases hget
    · rename_i hall
      obtain ⟨r, hread, hvalue⟩ := bind_eq_some_iff.mp hget
      have hsum : lower.toInt + r.1 < 2 ^ 31 := by
        split at hread
        · rename_i hhalf
          exact (hfits hhalf).read hlower hread
        · -- the one bit that is read is less than the range
          rename_i hhalf
          obtain ⟨front, l, rest, -, -, hl⟩ := readField_some (by decide) hread
          unfold OffsetBits at hl
          rw [if_neg (by decide), if_pos (by decide)] at hl
          have hbit := num_lt l
          rw [hl.1, show nbits 2 = 1 from rfl, ← hl.2] at hbit
          omega
      split at hvalue
      · cases hvalue
      · rename_i hpass
        cases hvalue
        refine ⟨?_, Int32.not_lt.mp hpass⟩
        rw [Int32.le_iff_toInt_le, sum_toInt, Int.bmod_def]
        omega

/-- Of a field of one or two octets, the sum fits wherever 16 bits more do. -/
theorem sumFits_of_range {lower range limit : Int} (hrange : range ≤ 65536)
    (hlimit : lower + 65535 < limit) : SumFits lower range limit octets position := by
  intro offset hencoded
  obtain ⟨front, l, rest, -, -, hl⟩ := hencoded
  have hlt : ∀ {m : List Bool}, m.length ≤ 16 → num m < 2 ^ 16 := fun hm =>
    Nat.lt_of_lt_of_le (num_lt _) (Nat.pow_le_pow_right (by decide) hm)
  suffices hoffset : offset < 2 ^ 16 by omega
  unfold OffsetBits at hl
  split at hl
  · rw [hl.2]
    decide
  · split at hl
    · obtain ⟨hlen, rfl⟩ := hl
      have := (nbits_bounds range).2
      exact hlt (by omega)
    · obtain ⟨pad, os, -, -, hlen, rfl⟩ := hl
      refine hlt ?_
      rw [bits_length, hlen]
      split <;> decide

/-- **What was written** is read. -/
theorem getInteger_inAt {lower upper value : UInt32} {front l rest : List Bool}
    (hlower : lower ≤ value) (hupper : value ≤ upper) (hbits : bits octets = front ++ l ++ rest)
    (hl : OffsetBits (upper.toNat - lower.toNat + 1) front.length l
      (value.toNat - lower.toNat)) :
    GetInteger lower upper (inAt octets front.length) =
      some (value, inAt octets (front.length + l.length)) := by
  have h₁ : lower.toNat ≤ value.toNat := hlower
  have hsum : lower + UInt32.ofNat (value.toNat - lower.toNat) = value := by
    refine toNat_inj.mp ?_
    have hlt := value.toNat_lt
    rw [sum_toNat (by omega)]
    omega
  rw [getInteger_eq (UInt32.le_trans hlower hupper), readField_inAt hbits hl, bind_some]
  dsimp only
  rw [hsum, if_neg (UInt32.not_lt.mpr hupper)]

end Bounds

/-- **A decoded integer** is in its range, whatever the octets are, exactly where the offset they say
    does not take the sum around. -/
theorem integers_in_range_iff (octets : List UInt8) (position : Nat) (lower upper : UInt32)
    (slower supper : Int32) (h : lower ≤ upper) (hs : slower ≤ supper) :
    ((∀ value stream, GetInteger lower upper (inAt octets position) = some (value, stream) →
        lower ≤ value ∧ value ≤ upper) ↔
      SumFits lower.toNat (upper.toNat - lower.toNat + 1) (2 ^ 32) octets position) ∧
    ((∀ value stream, GetSignedInteger slower supper (inAt octets position) =
          some (value, stream) → slower ≤ value ∧ value ≤ supper) ↔
      (supper.toInt - slower.toInt + 1 < 2 ^ 31 →
        SumFits slower.toInt (supper.toInt - slower.toInt + 1) (2 ^ 31) octets position)) :=
  ⟨getInteger_iff h, getSignedInteger_iff hs⟩

/-- The octets 00 04 are the channel number 5, and it is in the range. -/
theorem channel_in_range :
    GetInteger 1 65535 (inAt [0x00, 0x04] 0) = some (5, inAt [0x00, 0x04] 16) ∧
      (1 : UInt32) ≤ 5 ∧ (5 : UInt32) ≤ 65535 := by
  have hread : GetInteger 1 65535 (inAt [0x00, 0x04] 0) = some (5, inAt [0x00, 0x04] 16) := by
    decide
  refine ⟨hread, ?_⟩
  exact (integers_in_range_iff [0x00, 0x04] 0 1 65535 0 0 (by decide) (by decide)).1.mpr
    (sumFits_of_range (by decide) (by decide)) 5 _ hread

/-- In the range from 1 to 4294967295, the offset 4294967295 is read as the value 0. -/
theorem offset_goes_around :
    ¬ ∀ (octets : List UInt8) (position : Nat) (lower upper : UInt32), lower ≤ upper →
      ∀ value stream, GetInteger lower upper (inAt octets position) = some (value, stream) →
        lower ≤ value ∧ value ≤ upper := by
  intro h
  have hzero := h [0xc0, 0xff, 0xff, 0xff, 0xff] 0 1 4294967295 (by decide) 0
    (inAt [0xc0, 0xff, 0xff, 0xff, 0xff] 40) (by decide)
  exact absurd hzero.1 (by decide)

end OpenCore.H245
