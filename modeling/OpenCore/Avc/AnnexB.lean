/-
  File:      OpenCore/Avc/AnnexB.lean
  Subject:   THE BYTE STREAM OF ANNEX B: NAL units between start codes.

  `PVAVCAnnexBGetNALUnit` skips the start code in front of a unit and looks for the next one: it
  stops at pairs of zero bytes, reads over the rest of the run, and goes on behind the pair when no
  01 follows.

  **Main result**: `AnnexB_complete_iff`.
-/
import Mathlib

namespace OpenCore.Avc

open List

/-! ## 1. The scanner -/

inductive AVCDec_Status where
  | AVCDEC_NO_NEXT_SC
  | AVCDEC_FAIL
  | AVCDEC_SUCCESS
  deriving DecidableEq, Repr

/-- The first inner loop, on the bytes from `j`: how far it is to two zero bytes. -/
def toZeroPair : List UInt8 → Nat
  | a :: b :: l => if a ≠ 0 ∨ b ≠ 0 then toZeroPair (b :: l) + 1 else 0
  | _ => 0

/-- The second inner loop, on the bytes from `j`: how often the byte at `j + 2` is zero. -/
def zeroRun : List UInt8 → Nat
  | _ :: b :: c :: l => if c = 0 then zeroRun (b :: c :: l) + 1 else 0
  | _ => 0

/-- The outer loop, on the bytes from `j`: the value of `end` when a start code is found. -/
def searchStartCode : Nat → List UInt8 → Nat → Option Nat
  | 0, _, _ => none
  | fuel + 1, l, j =>
    let e := j + toZeroPair l
    let l := l.drop (toZeroPair l)
    match l.drop (zeroRun l) with
    | _ :: _ :: c :: rest =>
      if c = 1 then some e
      else searchStartCode fuel (c :: rest) (e + zeroRun l + 2)
    | _ => none

/-- `PVAVCAnnexBGetNALUnit`: the status, where the unit begins, and its size. -/
def PVAVCAnnexBGetNALUnit (bitstream : List UInt8) : AVCDec_Status × Nat × Nat :=
  let i := (bitstream.takeWhile (· = 0)).length
  match bitstream[i]? with
  | none => (.AVCDEC_FAIL, 0, bitstream.length)
  | some b =>
    let i := if b ≠ 1 then 0 else i + 1
    match searchStartCode (bitstream.length + 1) (bitstream.drop i) i with
    | none => (.AVCDEC_NO_NEXT_SC, i, bitstream.length - i)
    | some e => (.AVCDEC_SUCCESS, i, e - i)

/-- The unit that a call returns. -/
def nalUnit (bitstream : List UInt8) : List UInt8 :=
  let r := PVAVCAnnexBGetNALUnit bitstream
  (bitstream.drop r.2.1).take r.2.2

/-- The calls of a player: each on what lies behind the last unit, until one does not succeed. -/
def nalUnits : Nat → List UInt8 → List (AVCDec_Status × List UInt8)
  | 0, _ => []
  | n + 1, bitstream =>
    let r := PVAVCAnnexBGetNALUnit bitstream
    (r.1, nalUnit bitstream) ::
      if r.1 = .AVCDEC_SUCCESS then nalUnits n (bitstream.drop (r.2.1 + r.2.2)) else []

/-! ## 2. Streams -/

/-- The bytes of a NAL unit: the last is not zero, and no start code is inside. -/
structure IsNal (l : List UInt8) : Prop where
  last : ∃ m b, l = m ++ [b] ∧ b ≠ 0
  noZeros : ¬ [0, 0, 0] <:+: l
  noStart : ¬ [0, 0, 1] <:+: l

/-- A start code with `k + 2` zero bytes. -/
def startCode (k : Nat) : List UInt8 := List.replicate (k + 2) 0 ++ [1]

/-- Units with start codes in front. -/
def stream : List (Nat × List UInt8) → List UInt8
  | [] => []
  | (k, l) :: us => startCode k ++ l ++ stream us

/-- The end of the data, or a start code. -/
def Ends (rest : List UInt8) : Prop := rest = [] ∨ ∃ k t, rest = startCode k ++ t

theorem ends_stream (us : List (Nat × List UInt8)) : Ends (stream us) := by
  cases us with
  | nil => exact .inl rfl
  | cons u us => exact .inr ⟨u.1, u.2 ++ stream us, by rw [stream, append_assoc]⟩

variable {l : List UInt8}

theorem IsNal.ne_nil (h : IsNal l) : l ≠ [] := by
  obtain ⟨m, b, rfl, -⟩ := h.last
  simp

theorem IsNal.tail {a b : UInt8} (h : IsNal (a :: b :: l)) : IsNal (b :: l) where
  last := by
    obtain ⟨m, c, hm, hc⟩ := h.last
    rcases m with _ | ⟨a', m⟩
    · simp at hm
    · obtain ⟨-, hm⟩ := cons.inj hm
      exact ⟨m, c, hm, hc⟩
  noZeros := fun h' => h.noZeros (h'.trans (suffix_cons a _).isInfix)
  noStart := fun h' => h.noStart (h'.trans (suffix_cons a _).isInfix)

/-- Two zero bytes of a unit are followed by one that is neither 00 nor 01. -/
theorem IsNal.after_zeros (h : IsNal (0 :: 0 :: l)) :
    ∃ c t, l = c :: t ∧ c ≠ 0 ∧ c ≠ 1 ∧ IsNal (c :: t) := by
  rcases l with _ | ⟨c, t⟩
  · obtain ⟨m, b, hm, hb⟩ := h.tail.last
    rcases m with _ | ⟨a', m⟩
    · exact absurd (cons.inj hm).1.symm hb
    · simp at hm
  · refine ⟨c, t, rfl, ?_, ?_, h.tail.tail⟩
    · rintro rfl
      exact h.noZeros ⟨[], t, rfl⟩
    · rintro rfl
      exact h.noStart ⟨[], t, rfl⟩

/-! ## 3. The search -/

theorem searchStartCode_skip {fuel j : Nat} {a b : UInt8} (h : a ≠ 0 ∨ b ≠ 0) :
    searchStartCode (fuel + 1) (a :: b :: l) j = searchStartCode (fuel + 1) (b :: l) (j + 1) := by
  have e : toZeroPair (a :: b :: l) = toZeroPair (b :: l) + 1 := by
    rw [toZeroPair, if_pos h]
  rw [searchStartCode, searchStartCode, e, drop_succ_cons,
    show j + (toZeroPair (b :: l) + 1) = j + 1 + toZeroPair (b :: l) by omega]

variable {c : UInt8}

/-- Behind a pair of zeros that is no start code the search goes on. -/
theorem searchStartCode_pair {fuel j : Nat} (h0 : c ≠ 0)
    (h1 : c ≠ 1) :
    searchStartCode (fuel + 1) (0 :: 0 :: c :: l) j = searchStartCode fuel (c :: l) (j + 2) := by
  have e1 : toZeroPair (0 :: 0 :: c :: l) = 0 := by simp [toZeroPair]
  have e2 : zeroRun (0 :: 0 :: c :: l) = 0 := by simp [zeroRun, h0]
  rw [searchStartCode]
  simp only [e1, e2, drop_zero, if_neg h1, Nat.add_zero]

theorem zeroRun_startCode (k : Nat) (t : List UInt8) : zeroRun (startCode k ++ t) = k := by
  induction k with
  | zero => simp [startCode, zeroRun, replicate_succ]
  | succ k ih =>
    have e : startCode (k + 1) ++ t = 0 :: (startCode k ++ t) := by
      simp [startCode, replicate_succ]
    have e' : startCode k ++ t = 0 :: 0 :: (replicate k 0 ++ 1 :: t) := by
      simp [startCode, replicate_succ]
    rw [e, e']
    cases k with
    | zero => simp [zeroRun]
    | succ k =>
      rw [replicate_succ, cons_append] at e' ⊢
      rw [zeroRun, if_pos rfl, ← e', ih]

/-- A start code is found at its first zero byte. -/
theorem searchStartCode_startCode (fuel k j : Nat) (t : List UInt8) :
    searchStartCode (fuel + 1) (startCode k ++ t) j = some j := by
  have e1 : toZeroPair (startCode k ++ t) = 0 := by
    simp [startCode, replicate_succ, toZeroPair]
  have e2 : (startCode k ++ t).drop k = 0 :: 0 :: 1 :: t := by
    have h : startCode k ++ t = replicate k 0 ++ (0 :: 0 :: 1 :: t) := by
      rw [startCode, replicate_add]
      simp [replicate_succ]
    rw [h, drop_left' length_replicate]
  rw [searchStartCode]
  simp only [e1, drop_zero, zeroRun_startCode, e2, if_true, Nat.add_zero]

variable {rest : List UInt8}

/-- **The search stops where the unit ends.** -/
theorem searchStartCode_nal (hrest : Ends rest) (n : Nat) :
    ∀ (l : List UInt8) (fuel j : Nat), l.length ≤ n → IsNal l → l.length ≤ fuel →
      searchStartCode (fuel + 1) (l ++ rest) j =
        if rest = [] then none else some (j + l.length) := by
  induction n with
  | zero =>
    intro l fuel j hn h
    exact absurd (length_eq_zero_iff.mp (Nat.le_zero.mp hn)) h.ne_nil
  | succ n ih =>
    intro l fuel j hn h hf
    rcases l with _ | ⟨a, l⟩
    · exact absurd rfl h.ne_nil
    rcases l with _ | ⟨b, l⟩
    · -- the last byte of the unit
      have ha : a ≠ 0 := by
        obtain ⟨m, b, hm, hb⟩ := h.last
        rcases m with _ | ⟨a', m⟩
        · rw [(cons.inj hm).1]
          exact hb
        · simp at hm
      rcases hrest with rfl | ⟨k, t, rfl⟩
      · simp [searchStartCode, toZeroPair, zeroRun]
      · have e : [a] ++ (startCode k ++ t) = a :: 0 :: (replicate (k + 1) 0 ++ [1] ++ t) := by
          simp [startCode, replicate_succ]
        have e' : 0 :: (replicate (k + 1) 0 ++ [1] ++ t) = startCode k ++ t := by
          simp [startCode, replicate_succ]
        rw [e, searchStartCode_skip (.inl ha), e', searchStartCode_startCode,
          if_neg (by simp [startCode])]
        rfl
    · by_cases hab : a ≠ 0 ∨ b ≠ 0
      · rw [cons_append, cons_append, searchStartCode_skip hab, ← cons_append,
          ih (b :: l) fuel (j + 1) (by simp at hn ⊢; omega) h.tail (by simp at hf ⊢; omega)]
        split
        · rfl
        · simp only [length_cons]
          congr 1
          omega
      · -- a pair of zeros inside the unit
        obtain ⟨rfl, rfl⟩ : a = 0 ∧ b = 0 := by
          rw [not_or, not_not, not_not] at hab
          exact hab
        obtain ⟨c, t, rfl, hc0, hc1, hct⟩ := h.after_zeros
        rcases fuel with _ | fuel
        · simp at hf
        rw [cons_append, cons_append, cons_append, searchStartCode_pair hc0 hc1,
          ← cons_append,
          ih (c :: t) fuel (j + 2) (by simp at hn ⊢; omega) hct (by simp at hf ⊢; omega)]
        split
        · rfl
        · simp only [length_cons]
          congr 1
          omega

/-! ## 4. The calls -/

theorem takeWhile_replicate_append (n : Nat) (hc : c ≠ 0) (t : List UInt8) :
    (replicate n 0 ++ c :: t).takeWhile (· = 0) = replicate n 0 := by
  rw [takeWhile_append_of_pos (by simp), takeWhile_cons_of_neg (by simpa using hc),
    append_nil]

/-- What a call returns for a buffer that has its unit behind `n` zero bytes and `c`. -/
theorem PVAVCAnnexBGetNALUnit_eq (n : Nat) (hc : c ≠ 0) (t : List UInt8) :
    PVAVCAnnexBGetNALUnit (replicate n 0 ++ c :: t) =
      let b := replicate n 0 ++ c :: t
      let i := if c ≠ 1 then 0 else n + 1
      match searchStartCode (b.length + 1) (b.drop i) i with
      | none => (.AVCDEC_NO_NEXT_SC, i, b.length - i)
      | some e => (.AVCDEC_SUCCESS, i, e - i) := by
  have e : (replicate n 0 ++ c :: t)[n]? = some c := by
    rw [getElem?_append_right (by simp)]
    simp
  rw [PVAVCAnnexBGetNALUnit]
  simp only [takeWhile_replicate_append n hc t, length_replicate, e]

theorem getNALUnit_startCode (k : Nat) (h : IsNal l) (hrest : Ends rest) :
    PVAVCAnnexBGetNALUnit (startCode k ++ l ++ rest) =
      (if rest = [] then .AVCDEC_NO_NEXT_SC else .AVCDEC_SUCCESS, k + 3, l.length) := by
  have e : startCode k ++ l ++ rest = replicate (k + 2) 0 ++ 1 :: (l ++ rest) := by
    simp [startCode]
  have ed : (replicate (k + 2) 0 ++ 1 :: (l ++ rest)).drop (k + 3) = l ++ rest := by
    rw [drop_append]
    simp
  have el : (replicate (k + 2) (0 : UInt8) ++ 1 :: (l ++ rest)).length =
      k + 3 + (l.length + rest.length) := by
    simp only [length_append, length_replicate, length_cons]
    omega
  have hs : searchStartCode (k + 3 + (l.length + rest.length) + 1) (l ++ rest) (k + 2 + 1) =
      if rest = [] then none else some (k + 2 + 1 + l.length) :=
    searchStartCode_nal hrest _ l _ _ (Nat.le_refl _) h (by omega)
  rw [e, PVAVCAnnexBGetNALUnit_eq (k + 2) (by decide)]
  simp only [ne_eq, not_true_eq_false, if_false, ed, el, hs]
  by_cases hr : rest = []
  · subst hr
    simp
  · simp [hr]

/-- What the calls are to return: the units, and the status that tells the last. -/
def answers : List (Nat × List UInt8) → List (AVCDec_Status × List UInt8)
  | [] => []
  | [u] => [(.AVCDEC_NO_NEXT_SC, u.2)]
  | u :: us => (.AVCDEC_SUCCESS, u.2) :: answers us

theorem stream_eq_nil {us : List (Nat × List UInt8)} : stream us = [] ↔ us = [] := by
  cases us with
  | nil => simp [stream]
  | cons u us => simp [stream, startCode]

theorem drop_unit (k : Nat) (l rest : List UInt8) :
    (startCode k ++ l ++ rest).drop (k + 3) = l ++ rest := by
  rw [append_assoc, drop_left' (by simp [startCode])]

theorem nalUnits_stream {us : List (Nat × List UInt8)} (h : ∀ u ∈ us, IsNal u.2) {n : Nat}
    (hne : us ≠ []) (hn : us.length ≤ n) : nalUnits n (stream us) = answers us := by
  induction us generalizing n with
  | nil => exact absurd rfl hne
  | cons u us ih =>
    rcases n with _ | n
    · simp at hn
    have hu := h u mem_cons_self
    have hr := getNALUnit_startCode u.1 hu (ends_stream us)
    have hunit : nalUnit (startCode u.1 ++ u.2 ++ stream us) = u.2 := by
      rw [nalUnit, hr]
      simp only [drop_unit, take_left]
    rw [stream, nalUnits, hunit, hr]
    rcases us with _ | ⟨v, us⟩
    · simp [stream, answers]
    · have hs : stream (v :: us) ≠ [] := fun h' => absurd (stream_eq_nil.mp h') (by simp)
      have hd : (startCode u.1 ++ u.2 ++ stream (v :: us)).drop (u.1 + 3 + u.2.length) =
          stream (v :: us) := by
        rw [← drop_drop, drop_unit, drop_left]
      simp only [if_neg hs, if_true, hd, answers]
      rw [ih (fun w hw => h w (mem_cons_of_mem u hw)) (by simp) (by simpa using hn)]

/-- A unit from its first byte that is not zero on. -/
theorem IsNal.split (h : IsNal l) :
    ∃ n c t, l = replicate n 0 ++ c :: t ∧ c ≠ 0 ∧ l.find? (· ≠ 0) = some c := by
  obtain ⟨m, b, rfl, hb⟩ := h.last
  clear h
  induction m with
  | nil => exact ⟨0, b, [], rfl, hb, by simp [hb]⟩
  | cons a m ih =>
    by_cases ha : a = 0
    · obtain ⟨n, c, t, e, hc, hf⟩ := ih
      refine ⟨n + 1, c, t, ?_, hc, ?_⟩
      · rw [cons_append, e, ha, replicate_succ]
        rfl
      · rw [cons_append, find?_cons_of_neg (by simp [ha])]
        exact hf
    · exact ⟨0, a, m ++ [b], rfl, ha, by simp [ha]⟩

theorem IsNal.of_append {a b : List UInt8} (h : IsNal (a ++ b)) (hb : b ≠ []) : IsNal b := by
  induction a with
  | nil => exact h
  | cons x a ih =>
    apply ih
    rcases hab : a ++ b with _ | ⟨y, l⟩
    · exact absurd (append_eq_nil_iff.mp hab).2 hb
    · rw [cons_append, hab] at h
      exact h.tail

/-- The unit at the beginning of a buffer. -/
theorem nalUnit_first (h : IsNal l) (hrest : Ends rest) :
    nalUnit (l ++ rest) = l ↔ l.find? (· ≠ 0) ≠ some 1 := by
  obtain ⟨n, c, t, hl, hc, hf⟩ := h.split
  have e : l ++ rest = replicate n 0 ++ c :: (t ++ rest) := by rw [hl]; simp
  rw [hf]
  by_cases h1 : c = 1
  · -- 01 is taken for the end of a start code, and the unit for what follows
    subst h1
    refine iff_of_false (fun hu => ?_) (by simp)
    have hlen : (nalUnit (l ++ rest)).length < l.length := by
      have ed : (l ++ rest).drop (n + 1) = t ++ rest := by
        rw [e, drop_append]
        simp
      have hle : l.length = n + 1 + t.length := by
        rw [hl, length_append, length_replicate, length_cons]
        omega
      have hsize : searchStartCode ((l ++ rest).length + 1) (t ++ rest) (n + 1) =
          if rest = [] then none else some (n + 1 + t.length) := by
        by_cases ht : t = []
        · subst ht
          rcases hrest with rfl | ⟨k, r, rfl⟩
          · simp [searchStartCode, toZeroPair, zeroRun]
          · rw [nil_append, searchStartCode_startCode, if_neg (by simp [startCode])]
            rfl
        · refine searchStartCode_nal hrest t.length t _ _ (Nat.le_refl _) ?_
            (by rw [length_append]; omega)
          have h' : IsNal ((replicate n 0 ++ [1]) ++ t) := by
            rw [append_assoc]
            exact hl ▸ h
          exact h'.of_append ht
      have hr : PVAVCAnnexBGetNALUnit (l ++ rest) =
          (if rest = [] then .AVCDEC_NO_NEXT_SC else .AVCDEC_SUCCESS, n + 1, t.length) := by
        rw [e, PVAVCAnnexBGetNALUnit_eq n hc]
        simp only [← e, ne_eq, not_true_eq_false, if_false, ed, hsize]
        by_cases hr : rest = []
        · subst hr
          simp [hle]
        · simp [hr]
      rw [nalUnit, hr, ed, take_left]
      omega
    rw [hu] at hlen
    exact absurd hlen (Nat.lt_irrefl _)
  · refine iff_of_true ?_ (by simpa using h1)
    have hr : PVAVCAnnexBGetNALUnit (l ++ rest) =
        (if rest = [] then .AVCDEC_NO_NEXT_SC else .AVCDEC_SUCCESS, 0, l.length) := by
      rw [e, PVAVCAnnexBGetNALUnit_eq n hc]
      simp only [← e, h1, ne_eq, not_false_eq_true, if_true, drop_zero,
        searchStartCode_nal hrest _ l _ _ (Nat.le_refl _) h
          (by rw [length_append]; omega : l.length ≤ (l ++ rest).length)]
      by_cases hr : rest = []
      · subst hr
        simp
      · simp [hr]
    rw [nalUnit, hr, drop_zero, take_left]

/-- **Units of a byte stream.** The calls on units with start codes of two or more zero bytes return
    exactly the units; a unit at the beginning of a buffer, with no start code in front, is
    returned complete exactly when its first byte that is not zero is not 01. -/
theorem AnnexB_complete_iff (us : List (Nat × List UInt8)) (n : Nat) (l rest : List UInt8) :
    (us ≠ [] → us.length ≤ n → (∀ u ∈ us, IsNal u.2) → nalUnits n (stream us) = answers us) ∧
    (IsNal l → Ends rest → (nalUnit (l ++ rest) = l ↔ l.find? (· ≠ 0) ≠ some 1)) :=
  ⟨fun hne hn h => nalUnits_stream h hne hn, fun h hrest => nalUnit_first h hrest⟩

theorem isNal_of_getLast (m : List UInt8) (b : UInt8) (h : l = m ++ [b])
    (hb : b ≠ 0) (h0 : ¬ [0, 0, 0] <:+: l) (h1 : ¬ [0, 0, 1] <:+: l) : IsNal l :=
  ⟨⟨m, b, h, hb⟩, h0, h1⟩

/-- A slice of a picture that is not a reference, and then another unit: the header byte 01 is
    eaten. -/
theorem header_01_eaten :
    ∃ l rest, IsNal l ∧ Ends rest ∧ l = [0x01, 0x9A, 0x26] ∧ nalUnit (l ++ rest) = [0x9A, 0x26] :=
  ⟨[0x01, 0x9A, 0x26], startCode 0 ++ [0x67, 0x42],
    isNal_of_getLast [0x01, 0x9A] 0x26 rfl (by decide) (by decide) (by decide),
    .inr ⟨0, _, rfl⟩, rfl, by decide⟩

/-- Two units with start codes, and a unit without one. -/
theorem AnnexB_complete_two_units :
    nalUnits 5 (stream [(1, [0x67, 0x00, 0x00, 0x03, 0x42]), (0, [0x01, 0x9A])]) =
      answers [(1, [0x67, 0x00, 0x00, 0x03, 0x42]), (0, [0x01, 0x9A])] ∧
    nalUnit ([0x65, 0x88] ++ startCode 3) = [0x65, 0x88] := by
  have h1 : IsNal [0x67, 0x00, 0x00, 0x03, 0x42] :=
    isNal_of_getLast [0x67, 0x00, 0x00, 0x03] 0x42 rfl (by decide) (by decide) (by decide)
  have h2 : IsNal [0x01, 0x9A] :=
    isNal_of_getLast [0x01] 0x9A rfl (by decide) (by decide) (by decide)
  have h3 : IsNal [0x65, 0x88] :=
    isNal_of_getLast [0x65] 0x88 rfl (by decide) (by decide) (by decide)
  have h := AnnexB_complete_iff [(1, [0x67, 0x00, 0x00, 0x03, 0x42]), (0, [0x01, 0x9A])] 5
    [0x65, 0x88] (startCode 3)
  refine ⟨h.1 (by simp) (by simp) ?_,
    (h.2 h3 (.inr ⟨3, [], (append_nil _).symm⟩)).mpr (by decide)⟩
  intro u hu
  rcases mem_cons.mp hu with rfl | hu
  · exact h1
  · rw [mem_singleton.mp hu]
    exact h2

end OpenCore.Avc
