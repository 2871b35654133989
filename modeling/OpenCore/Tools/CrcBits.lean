/-
  File:      OpenCore/Tools/CrcBits.lean
  Subject:   The tables of `CRC` and the division of polynomials (crccheck.cpp): a byte through the
             table is its eight bits through the register, the lowest bit first, and the register is
             the remainder of the message.

  Over fragments this holds of the bytes that are read, as far as no empty fragment stands in front
  of one of them: the loop takes a byte of a new fragment before it looks at its length.

  **Main result**: `crcCheck_iff`, `Crc8_remainder`, `Crc16_remainder`.
-/
import OpenCore.Lib.ReflectedCrc
import OpenCore.Tools.CrcCheck

namespace OpenCore.CRC

open ReflectedCrc Polynomial List
open BitVec (getLsbD_of_ge getLsbD_setWidth getLsbD_xor)

/-! ## 1. One bit at a time -/

/-- The bits of a byte, the lowest first. -/
def lowFirst (byte : UInt8) : List Bool := (List.range 8).map byte.toBitVec.getLsbD

/-- The 8-bit CRC, one bit at a time. -/
def bitCrc8 (data : List UInt8) : UInt8 :=
  UInt8.ofBitVec (crcBits CRC_X8.toBitVec 0#8 (data.flatMap lowFirst))

/-- The 16-bit CRC, one bit at a time, from all ones and with all bits inverted. -/
def bitCrc16 (data : List UInt8) : UInt16 :=
  UInt16.ofBitVec (crcBits CRC_X.toBitVec 0xffff#16 (data.flatMap lowFirst)) ^^^ 0xffff

/-! ## 2. A byte through the table -/

theorem length_lowFirst (byte : UInt8) : (lowFirst byte).length = 8 := rfl

theorem getLsbD_overlay_lowFirst {w i : Nat} (hw : 8 ≤ w) (byte : UInt8) :
    (overlay (w := w) (lowFirst byte)).getLsbD i = byte.toBitVec.getLsbD i := by
  by_cases hi : i < w
  · rw [getLsbD_overlay _ hi]
    by_cases h8 : i < 8
    · rw [getD_eq_getElem _ _ (by rw [length_lowFirst]; exact h8)]
      exact (getElem_map _).trans (congrArg _ (getElem_range _))
    · rw [getD_eq_default _ _ (by rw [length_lowFirst]; omega),
        getLsbD_of_ge _ _ (by omega)]
  · rw [getLsbD_of_ge _ _ (by omega), getLsbD_of_ge _ _ (by omega)]

theorem shift8_toBitVec (c : UInt8) :
    (shift8 c).toBitVec = shift CRC_X8.toBitVec c.toBitVec := by
  have hlow : c &&& 1 ≠ 0 ↔ c.toBitVec.getLsbD 0 = true := by
    rw [Ne, ← UInt8.toBitVec_inj, UInt8.toBitVec_and]
    change ¬ c.toBitVec &&& 1#8 = 0#8 ↔ _
    rw [BitVec.and_one_eq_setWidth_ofBool_getLsbD]
    cases c.toBitVec.getLsbD 0 <;> decide
  have hright : (c >>> 1).toBitVec = c.toBitVec >>> 1 := UInt8.toBitVec_shiftRight c 1
  unfold shift8 shift
  by_cases h : c.toBitVec.getLsbD 0 = true
  · rw [if_pos (hlow.mpr h), if_pos h, UInt8.toBitVec_xor, hright]
  · rw [if_neg (fun h' => h (hlow.mp h')), if_neg h, hright]

theorem shift16_toBitVec (c : UInt16) :
    (shift16 c).toBitVec = shift CRC_X.toBitVec c.toBitVec := by
  have hlow : c &&& 1 ≠ 0 ↔ c.toBitVec.getLsbD 0 = true := by
    rw [Ne, ← UInt16.toBitVec_inj, UInt16.toBitVec_and]
    change ¬ c.toBitVec &&& 1#16 = 0#16 ↔ _
    rw [BitVec.and_one_eq_setWidth_ofBool_getLsbD]
    cases c.toBitVec.getLsbD 0 <;> decide
  have hright : (c >>> 1).toBitVec = c.toBitVec >>> 1 := UInt16.toBitVec_shiftRight c 1
  unfold shift16 shift
  by_cases h : c.toBitVec.getLsbD 0 = true
  · rw [if_pos (hlow.mpr h), if_pos h, UInt16.toBitVec_xor, hright]
  · rw [if_neg (fun h' => h (hlow.mp h')), if_neg h, hright]

theorem iterate_shift8 (n : Nat) (c : UInt8) :
    (shift8^[n] c).toBitVec = (shift CRC_X8.toBitVec)^[n] c.toBitVec := by
  induction n generalizing c with
  | zero => rfl
  | succ n ih => rw [Function.iterate_succ_apply, ih, shift8_toBitVec, ← Function.iterate_succ_apply]

theorem iterate_shift16 (n : Nat) (c : UInt16) :
    (shift16^[n] c).toBitVec = (shift CRC_X.toBitVec)^[n] c.toBitVec := by
  induction n generalizing c with
  | zero => rfl
  | succ n ih =>
    rw [Function.iterate_succ_apply, ih, shift16_toBitVec, ← Function.iterate_succ_apply]

/-- **A byte through the 8-bit table** is its bits through the register. -/
theorem step8_toBitVec (crc byte : UInt8) :
    (step8 crc byte).toBitVec = crcBits CRC_X8.toBitVec crc.toBitVec (lowFirst byte) := by
  have hbyte : overlay (lowFirst byte) = byte.toBitVec :=
    BitVec.eq_of_getLsbD_eq fun i _ => getLsbD_overlay_lowFirst (Nat.le_refl 8) byte
  rw [crcBits_eq_iterate _ (Nat.le_of_eq (length_lowFirst byte)), hbyte, step8, CrcTbl8,
    iterate_shift8, UInt8.toBitVec_xor, length_lowFirst]

/-- **A byte through the 16-bit table**: the low half of the register meets it, and the high half
    moves. -/
theorem step16_toBitVec (crc : UInt16) (byte : UInt8) :
    (step16 crc byte).toBitVec = crcBits CRC_X.toBitVec crc.toBitVec (lowFirst byte) := by
  have hindex : (crc.toUInt8 ^^^ byte).toUInt16.toBitVec =
      (crc.toBitVec.setWidth 8 ^^^ byte.toBitVec).setWidth 16 := by
    rw [UInt8.toBitVec_toUInt16, UInt8.toBitVec_xor, UInt16.toBitVec_toUInt8]
  have hsplit := iterate_shift_split CRC_X.toBitVec 8
    (crc.toBitVec ^^^ overlay (lowFirst byte)) (crc.toUInt8 ^^^ byte).toUInt16.toBitVec
    (by
      intro i hi
      rw [hindex, getLsbD_setWidth, getLsbD_xor, getLsbD_xor,
        getLsbD_setWidth, getLsbD_overlay_lowFirst (by decide)]
      simp [hi, show i < 16 by omega])
    (by
      intro i hi
      rw [hindex, getLsbD_setWidth, getLsbD_of_ge _ _ hi, Bool.and_false])
  have hmoved : (crc.toBitVec ^^^ overlay (lowFirst byte)) >>> 8 = crc.toBitVec >>> 8 := by
    refine BitVec.eq_of_getLsbD_eq fun i _ => ?_
    rw [BitVec.getLsbD_ushiftRight, BitVec.getLsbD_ushiftRight, getLsbD_xor,
      getLsbD_overlay_lowFirst (by decide), getLsbD_of_ge byte.toBitVec _ (by omega),
      Bool.xor_false]
  have hright : (crc >>> 8).toBitVec = crc.toBitVec >>> 8 := UInt16.toBitVec_shiftRight crc 8
  rw [crcBits_eq_iterate _ (by rw [length_lowFirst]; decide), length_lowFirst, hsplit, hmoved,
    step16, CrcTbl16, UInt16.toBitVec_xor, iterate_shift16, hright]

theorem foldl_step8 (data : List UInt8) (crc : UInt8) : (data.foldl step8 crc).toBitVec =
    crcBits CRC_X8.toBitVec crc.toBitVec (data.flatMap lowFirst) := by
  induction data generalizing crc with
  | nil => rfl
  | cons byte data ih =>
    rw [foldl_cons, ih, step8_toBitVec, flatMap_cons, crcBits_append]

theorem foldl_step16 (data : List UInt8) (crc : UInt16) : (data.foldl step16 crc).toBitVec =
    crcBits CRC_X.toBitVec crc.toBitVec (data.flatMap lowFirst) := by
  induction data generalizing crc with
  | nil => rfl
  | cons byte data ih =>
    rw [foldl_cons, ih, step16_toBitVec, flatMap_cons, crcBits_append]

/-- **Over a flat buffer**, the tables say what the bits say. -/
theorem Crc8_eq_bitCrc8 (data : List UInt8) : Crc8 data = bitCrc8 data :=
  UInt8.toBitVec_inj.mp (foldl_step8 data 0)

theorem Crc16_eq_bitCrc16 (data : List UInt8) : Crc16 data = bitCrc16 data :=
  congrArg (· ^^^ 0xffff) (UInt16.toBitVec_inj.mp (foldl_step16 data 0xffff))

/-- **Errors in a row are found**: data that differ within 8 bits of each other have different 8-bit
    CRCs, within 16 bits different 16-bit ones. -/
theorem burst_found {data data' : List UInt8} {before l m behind : List Bool}
    (h : data.flatMap lowFirst = before ++ l ++ behind)
    (h' : data'.flatMap lowFirst = before ++ m ++ behind) (hlen : l.length = m.length)
    (hne : l ≠ m) :
    (l.length ≤ 8 → Crc8 data ≠ Crc8 data') ∧ (l.length ≤ 16 → Crc16 data ≠ Crc16 data') := by
  constructor
  · intro h8 heq
    refine hne (crcBits_burst CRC_X8.toBitVec (by decide) 0#8 hlen h8 before behind ?_)
    rw [← h, ← h']
    exact (foldl_step8 data 0).symm.trans ((congrArg _ heq).trans (foldl_step8 data' 0))
  · intro h16 heq
    refine hne (crcBits_burst CRC_X.toBitVec (by decide) 0xffff#16 hlen h16 before behind ?_)
    have hregs := congrArg UInt16.toBitVec ((UInt16.xor_left_inj 0xffff).mp heq)
    rwa [foldl_step16, foldl_step16, h, h'] at hregs

theorem burst_found_octet : Crc16 [0x12, 0x34, 0x56] ≠ Crc16 [0x12, 0x35, 0x56] :=
  (burst_found (show [0x12, 0x34, 0x56].flatMap lowFirst =
      lowFirst 0x12 ++ lowFirst 0x34 ++ lowFirst 0x56 by decide)
    (show [0x12, 0x35, 0x56].flatMap lowFirst =
      lowFirst 0x12 ++ lowFirst 0x35 ++ lowFirst 0x56 by decide) rfl (by decide)).2 (by decide)

/-! ## 3. The remainders -/

/-- The generator polynomials, as the comments on `CRC_X8` and `CRC_X` have them. -/
theorem generator_CRC_X8 : generator CRC_X8.toBitVec = (X ^ 8 + X ^ 2 + X + 1 : (ZMod 2)[X]) := by
  have hbits : ∀ i < 8, CRC_X8.toBitVec.getLsbD i = decide (5 ≤ i) := by decide
  have hpoly : regPoly CRC_X8.toBitVec =
      ∑ i ∈ Finset.range 8, coef (decide (5 ≤ i)) * X ^ (8 - 1 - i) :=
    Finset.sum_congr rfl fun i hi => by rw [hbits i (Finset.mem_range.mp hi)]
  unfold generator
  rw [hpoly]
  simp only [Finset.sum_range_succ, coef]
  norm_num
  ring

theorem generator_CRC_X : generator CRC_X.toBitVec = (X ^ 16 + X ^ 12 + X ^ 5 + 1 : (ZMod 2)[X]) := by
  have hbits : ∀ i < 16, CRC_X.toBitVec.getLsbD i = decide (i = 3 ∨ i = 10 ∨ i = 15) := by decide
  have hpoly : regPoly CRC_X.toBitVec =
      ∑ i ∈ Finset.range 16, coef (decide (i = 3 ∨ i = 10 ∨ i = 15)) * X ^ (16 - 1 - i) :=
    Finset.sum_congr rfl fun i hi => by rw [hbits i (Finset.mem_range.mp hi)]
  unfold generator
  rw [hpoly]
  simp only [Finset.sum_range_succ, coef]
  norm_num
  ring

/-- **The 8-bit CRC** is the remainder of the message, moved by eight places. -/
theorem Crc8_remainder (data : List UInt8) : regPoly (Crc8 data).toBitVec =
    (X ^ 8 * message (data.flatMap lowFirst)) %ₘ (X ^ 8 + X ^ 2 + X + 1) := by
  have hzero : regPoly 0#8 = 0 := by
    have hxor := regPoly_xor 0#8 0#8
    rwa [BitVec.xor_zero, left_eq_add] at hxor
  rw [Crc8, foldl_step8, regPoly_crcBits _ (by decide), generator_CRC_X8]
  change (_ * regPoly 0#8 + _) %ₘ _ = _
  rw [hzero, mul_zero, zero_add]

/-- No empty fragment stands in front of the bytes that are read. -/
def ReadsInside : Nat → List (List UInt8) → Prop
  | 0, _ => True
  | _ + 1, [] => True
  | n + 1, frag :: frags => frag ≠ [] ∧ ReadsInside (n + 1 - frag.length) frags

section Walk

variable {σ : Type} (step : σ → UInt8 → σ)

/-- **The walk** from the middle of a fragment, over the bytes at `pData` and the fragments that
    follow: it reads the bytes there are, or outside of an empty fragment. -/
theorem walk_cases (missing : Option σ) {dataSize curSize : Nat} {pData : List UInt8}
    {frags : List (List UInt8)} (frag : List UInt8) (crc : σ) (hcur : curSize - 1 = pData.length)
    (hsize : dataSize ≤ pData.length + frags.flatten.length) :
    (ReadsInside (dataSize - pData.length) frags →
      walk step missing dataSize curSize frag pData frags crc =
        some (((pData ++ frags.flatten).take dataSize).foldl step crc)) ∧
    (¬ ReadsInside (dataSize - pData.length) frags →
      walk step missing dataSize curSize frag pData frags crc = none) := by
  induction dataSize generalizing curSize frag pData frags crc with
  | zero =>
    rw [Nat.zero_sub]
    refine ⟨fun _ => ?_, fun hnot => absurd ?_ hnot⟩
    · rw [walk, take_zero, foldl_nil]
    · unfold ReadsInside
      trivial
  | succ dataSize ih =>
    cases pData with
    | nil =>
      -- the fragment is used up, and the next one is asked for a byte
      rw [length_nil] at hcur hsize
      rw [length_nil, Nat.sub_zero, nil_append]
      cases frags with
      | nil =>
        rw [flatten_nil, length_nil] at hsize
        omega
      | cons next frags =>
        cases next with
        | nil =>
          refine ⟨fun hin => absurd rfl hin.1, fun _ => ?_⟩
          rw [walk, if_pos hcur]
          rfl
        | cons byte next =>
          rw [flatten_cons, length_append, length_cons] at hsize
          have hnext := @ih (next.length + 1) next frags
            (byte :: next) (step crc byte) rfl (by omega)
          have hiff : ReadsInside (dataSize + 1) ((byte :: next) :: frags) ↔
              ReadsInside (dataSize - next.length) frags := by
            rw [ReadsInside, length_cons, Nat.add_sub_add_right]
            exact and_iff_right (cons_ne_nil _ _)
          rw [walk_fetch step missing dataSize frag [] byte next frags crc hcur, hiff,
            flatten_cons, cons_append, take_succ_cons, foldl_cons]
          exact hnext
    | cons byte pData =>
      rw [length_cons] at hcur hsize
      have hne : curSize - 1 ≠ 0 := by omega
      have hnext := @ih (curSize - 1) pData frags frag
        (step crc byte) (by omega) (by omega)
      rw [walk_next step missing dataSize frag byte pData frags crc hne, length_cons,
        Nat.add_sub_add_right, cons_append, take_succ_cons, foldl_cons]
      exact hnext

theorem walk_iff (missing : Option σ) {dataSize : Nat} {frags : List (List UInt8)} (crc : σ)
    (hsize : dataSize ≤ frags.flatten.length) :
    walk step missing dataSize 0 [] [] frags crc =
      some ((frags.flatten.take dataSize).foldl step crc) ↔ ReadsInside dataSize frags := by
  obtain ⟨hin, hout⟩ := @walk_cases _ step missing dataSize 0 [] frags [] crc rfl (by rwa [length_nil, Nat.zero_add])
  rw [length_nil, Nat.sub_zero] at hin hout
  refine ⟨fun hwalk => ?_, hin⟩
  by_contra hnot
  rw [hout hnot] at hwalk
  cases hwalk

end Walk

/-- `Crc8Check` of a packet, and `Crc16Check`: the same loops, always over all of it. -/
def Crc8CheckPacket (pPkt : List (List UInt8)) : Option UInt8 :=
  walk step8 none (getFilledSize pPkt) 0 [] [] pPkt 0

def Crc16CheckPacket (pPkt : List (List UInt8)) : Option UInt16 :=
  (walk step16 none (getFilledSize pPkt) 0 [] [] pPkt 0xffff).map (· ^^^ 0xffff)

/-- How many bytes are checked: all, or all but the CRC field. -/
def checkedSize (frags : List (List UInt8)) (field : Nat) (hasCRC : Bool) : Nat :=
  if hasCRC then getFilledSize frags - field else getFilledSize frags

theorem checkedSize_le (frags : List (List UInt8)) (field : Nat) (hasCRC : Bool) :
    checkedSize frags field hasCRC ≤ frags.flatten.length := by
  unfold checkedSize getFilledSize
  split
  · exact Nat.sub_le _ _
  · exact Nat.le_refl _

/-- A 16-bit result is the inverted one of the walk. -/
theorem map_invert_eq {r : Option UInt16} {crc : UInt16} :
    r.map (· ^^^ 0xffff) = some (crc ^^^ 0xffff) ↔ r = some crc := by
  cases r with
  | none => simp
  | some value =>
    rw [Option.map_some, Option.some.injEq, Option.some.injEq]
    exact UInt16.xor_left_inj 0xffff

/-- **Both CRCs over fragments** are those of the bytes, one bit at a time, exactly where no empty
    fragment stands in front of a byte that is read. -/
theorem crcCheck_iff (frags : List (List UInt8)) (hasCRC : Bool) :
    (Crc8Check frags hasCRC =
        some (bitCrc8 (frags.flatten.take (checkedSize frags 1 hasCRC))) ↔
      ReadsInside (checkedSize frags 1 hasCRC) frags) ∧
    (Crc16Check frags hasCRC =
        some (bitCrc16 (frags.flatten.take (checkedSize frags 2 hasCRC))) ↔
      ReadsInside (checkedSize frags 2 hasCRC) frags) ∧
    (Crc8CheckPacket frags = some (bitCrc8 frags.flatten) ↔
      ReadsInside frags.flatten.length frags) ∧
    (Crc16CheckPacket frags = some (bitCrc16 frags.flatten) ↔
      ReadsInside frags.flatten.length frags) := by
  have hall : frags.flatten.take frags.flatten.length = frags.flatten := take_length
  have h8 := walk_iff step8 none 0 (Nat.le_refl frags.flatten.length)
  have h16 := walk_iff step16 none 0xffff (Nat.le_refl frags.flatten.length)
  rw [hall] at h8 h16
  rw [← Crc8_eq_bitCrc8, ← Crc16_eq_bitCrc16, ← Crc8_eq_bitCrc8, ← Crc16_eq_bitCrc16]
  refine ⟨walk_iff step8 (some 0) 0 (checkedSize_le frags 1 hasCRC), ?_, h8, ?_⟩
  · exact map_invert_eq.trans (walk_iff step16 none 0xffff (checkedSize_le frags 2 hasCRC))
  · exact map_invert_eq.trans h16

/-- In front of one byte stands an empty fragment: a byte outside of it is read. -/
theorem empty_fragment_reads_outside :
    ¬ ∀ frags : List (List UInt8), Crc8Check frags false = some (bitCrc8 frags.flatten) ∧
      Crc16Check frags false = some (bitCrc16 frags.flatten) := by
  intro h
  exact absurd (h [[], [1]]).1 (by decide)

end OpenCore.CRC
