/-
  File:      OpenCore/Lib/ReflectedCrc.lean
  Subject:   Cyclic redundancy checks, the lowest bit first: one bit at a time, several at a time, and
             as the remainder of a polynomial over the field of two elements.

  **Main result**: `crcBits_eq_iterate`, `iterate_shift_split`, `regPoly_crcBits`.
-/
import Mathlib

namespace OpenCore.ReflectedCrc

open Polynomial

variable {w : Nat} (poly : BitVec w)

/-! ## 1. The register -/

/-- The register moves by one place. What falls out of it brings the polynomial in. -/
def shift (c : BitVec w) : BitVec w :=
  if c.getLsbD 0 then (c >>> 1) ^^^ poly else c >>> 1

/-- One bit of the message. -/
def crcBit (c : BitVec w) (b : Bool) : BitVec w :=
  shift poly (c ^^^ (BitVec.ofBool b).setWidth w)

/-- The bits of a message. -/
def crcBits (c : BitVec w) (l : List Bool) : BitVec w := l.foldl (crcBit poly) c

theorem crcBits_append (c : BitVec w) (l m : List Bool) :
    crcBits poly c (l ++ m) = crcBits poly (crcBits poly c l) m := List.foldl_append

/-! ## 2. Several bits at once -/

theorem shift_xor (a b : BitVec w) : shift poly (a ^^^ b) = shift poly a ^^^ shift poly b := by
  have hself : ∀ x y : BitVec w, x ^^^ y = (x ^^^ poly) ^^^ (y ^^^ poly) := by
    intro x y
    rw [BitVec.xor_assoc, ← BitVec.xor_assoc poly, BitVec.xor_comm poly y, BitVec.xor_assoc y,
      BitVec.xor_self, BitVec.xor_zero]
  unfold shift
  rw [BitVec.getLsbD_xor, BitVec.ushiftRight_xor_distrib]
  cases a.getLsbD 0 <;> cases b.getLsbD 0
  · rfl
  · exact BitVec.xor_assoc _ _ _
  · change (a >>> 1 ^^^ b >>> 1) ^^^ poly = (a >>> 1 ^^^ poly) ^^^ b >>> 1
    rw [BitVec.xor_assoc, BitVec.xor_comm (b >>> 1), ← BitVec.xor_assoc]
  · exact hself _ _

theorem iterate_shift_xor (n : Nat) (a b : BitVec w) :
    (shift poly)^[n] (a ^^^ b) = (shift poly)^[n] a ^^^ (shift poly)^[n] b := by
  induction n generalizing a b with
  | zero => rfl
  | succ n ih => rw [Function.iterate_succ_apply, shift_xor, ih, Function.iterate_succ_apply,
      Function.iterate_succ_apply]

/-- A register whose last places are empty only moves. -/
theorem iterate_shift_of_clear {n : Nat} {c : BitVec w} (hc : ∀ i < n, c.getLsbD i = false) :
    (shift poly)^[n] c = c >>> n := by
  induction n generalizing c with
  | zero => rw [Function.iterate_zero, BitVec.ushiftRight_zero, id]
  | succ n ih =>
    have hshift : shift poly c = c >>> 1 := by
      unfold shift
      rw [hc 0 n.succ_pos]
      rfl
    rw [Function.iterate_succ_apply, hshift, ih, ← BitVec.shiftRight_add, Nat.add_comm]
    intro i hi
    rw [BitVec.getLsbD_ushiftRight]
    exact hc _ (by omega)

/-- **The last places and the others** go separately, the others only move. -/
theorem iterate_shift_split (n : Nat) (c low : BitVec w) (hlow : ∀ i < n, low.getLsbD i = c.getLsbD i)
    (hhigh : ∀ i, n ≤ i → low.getLsbD i = false) :
    (shift poly)^[n] c = c >>> n ^^^ (shift poly)^[n] low := by
  have hclear : ∀ i < n, (c ^^^ low).getLsbD i = false := by
    intro i hi
    rw [BitVec.getLsbD_xor, hlow i hi, Bool.xor_self]
  have hmoved : (c ^^^ low) >>> n = c >>> n := by
    refine BitVec.eq_of_getLsbD_eq fun i _ => ?_
    rw [BitVec.getLsbD_ushiftRight, BitVec.getLsbD_ushiftRight, BitVec.getLsbD_xor,
      hhigh _ (Nat.le_add_right n i), Bool.xor_false]
  have hsplit : c = (c ^^^ low) ^^^ low := by
    rw [BitVec.xor_assoc, BitVec.xor_self, BitVec.xor_zero]
  conv_lhs => rw [hsplit]
  rw [iterate_shift_xor, iterate_shift_of_clear poly hclear, hmoved]

/-- The bits of a message as a register, the first bit in the last place. -/
def overlay : List Bool → BitVec w
  | [] => 0#w
  | b :: l => (BitVec.ofBool b).setWidth w ^^^ overlay l <<< 1

theorem getLsbD_overlay (l : List Bool) {i : Nat} (hi : i < w) :
    (overlay (w := w) l).getLsbD i = l.getD i false := by
  induction l generalizing i with
  | nil => rw [overlay, BitVec.getLsbD_zero, List.getD_nil]
  | cons b l ih =>
    rw [overlay, BitVec.getLsbD_xor, BitVec.getLsbD_setWidth, BitVec.getLsbD_shiftLeft]
    cases i with
    | zero => simp [hi]
    | succ i => simp [ih (Nat.lt_of_succ_lt hi), hi]

/-- **Some bits of a message**, as many as the register has at most, are laid over it first. -/
theorem crcBits_eq_iterate {l : List Bool} (hl : l.length ≤ w) (c : BitVec w) :
    crcBits poly c l = (shift poly)^[l.length] (c ^^^ overlay l) := by
  induction l generalizing c with
  | nil =>
    change c = c ^^^ overlay []
    rw [overlay, BitVec.xor_zero]
  | cons b l ih =>
    rw [List.length_cons] at hl
    -- what is laid over the other places moves into them
    have hmoved : shift poly (overlay l <<< 1) = overlay l := by
      have hlast : (overlay (w := w) l <<< 1).getLsbD 0 = false := by
        rw [BitVec.getLsbD_shiftLeft]
        simp
      unfold shift
      rw [hlast]
      refine BitVec.eq_of_getLsbD_eq fun i hi => ?_
      change ((overlay (w := w) l <<< 1) >>> 1).getLsbD i = _
      rw [BitVec.getLsbD_ushiftRight, BitVec.getLsbD_shiftLeft]
      by_cases htop : 1 + i < w
      · simp [htop]
      · have hnone : (overlay (w := w) l).getLsbD i = false := by
          rw [getLsbD_overlay l hi, List.getD_eq_default _ _ (by omega)]
        simp [htop, hnone]
    change crcBits poly (crcBit poly c b) l = _
    rw [ih (by omega), List.length_cons, Function.iterate_succ_apply, overlay, ← BitVec.xor_assoc,
      shift_xor, hmoved]
    rfl

/-! ## 3. What is told apart -/

section

variable (hp : poly.getLsbD (w - 1) = true)
include hp

/-- What falls out of the register is seen in its first place. -/
theorem shift_injective : Function.Injective (shift poly) := by
  intro a b h
  generalize hc : a ^^^ b = c
  have hzero : shift poly c = 0#w := by rw [← hc, shift_xor, h, BitVec.xor_self]
  have hmoved : (c >>> 1).getLsbD (w - 1) = false := by
    rw [BitVec.getLsbD_ushiftRight, BitVec.getLsbD_of_ge _ _ (by omega)]
  have hlow : c.getLsbD 0 = false := by
    by_contra hset
    have htop := congrArg (BitVec.getLsbD · (w - 1)) hzero
    dsimp only [shift] at htop
    rw [if_pos (by simpa using hset), BitVec.getLsbD_xor, hmoved, hp, BitVec.getLsbD_zero] at htop
    cases htop
  have hall : c = 0#w := by
    unfold shift at hzero
    rw [hlow] at hzero
    refine BitVec.eq_of_getLsbD_eq fun i _ => ?_
    rw [BitVec.getLsbD_zero]
    cases i with
    | zero => exact hlow
    | succ i =>
      have hi := congrArg (BitVec.getLsbD · i) (show c >>> 1 = 0#w from hzero)
      simpa [Nat.add_comm] using hi
  rw [← BitVec.xor_left_inj b, BitVec.xor_self, hc, hall]

theorem crcBits_injective (l : List Bool) : Function.Injective fun c => crcBits poly c l := by
  induction l with
  | nil => exact fun _ _ h => h
  | cons b l ih =>
    exact fun c d h => (BitVec.xor_left_inj _).mp (shift_injective poly hp (ih h))

/-- **A burst** no longer than the register is told from any other of its length. -/
theorem crcBits_burst (c : BitVec w) {l m : List Bool} (hlen : l.length = m.length)
    (hl : l.length ≤ w) (before behind : List Bool)
    (h : crcBits poly c (before ++ l ++ behind) = crcBits poly c (before ++ m ++ behind)) :
    l = m := by
  simp only [crcBits_append] at h
  have h := crcBits_injective poly hp behind h
  rw [crcBits_eq_iterate poly hl, crcBits_eq_iterate poly (hlen.ge.trans hl), hlen] at h
  have hover := (BitVec.xor_right_inj _).mp ((shift_injective poly hp).iterate _ h)
  refine List.ext_getElem hlen fun i hi hj => ?_
  have hbit := congrArg (BitVec.getLsbD · i) hover
  rwa [getLsbD_overlay _ (by omega), getLsbD_overlay _ (by omega), List.getD_eq_getElem _ _ hi,
    List.getD_eq_getElem _ _ hj] at hbit

end

/-! ## 4. The remainder of a polynomial -/

section Remainder

/-- A bit as a coefficient. -/
noncomputable def coef (b : Bool) : (ZMod 2)[X] := if b then 1 else 0

/-- The polynomial of a register: the last place is the highest power. -/
noncomputable def regPoly (c : BitVec w) : (ZMod 2)[X] :=
  ∑ i ∈ Finset.range w, coef (c.getLsbD i) * X ^ (w - 1 - i)

/-- The polynomial of a message: its first bit is the highest power. -/
noncomputable def message : List Bool → (ZMod 2)[X]
  | [] => 0
  | b :: l => coef b * X ^ l.length + message l

/-- The generator polynomial. -/
noncomputable def generator : (ZMod 2)[X] := X ^ w + regPoly poly

theorem coef_xor (a b : Bool) : coef (a ^^ b) = coef a + coef b := by
  have htwo : (1 : (ZMod 2)[X]) + 1 = 0 := CharTwo.add_self_eq_zero 1
  cases a <;> cases b <;> simp [coef, htwo]

theorem regPoly_xor (a b : BitVec w) : regPoly (a ^^^ b) = regPoly a + regPoly b := by
  unfold regPoly
  rw [← Finset.sum_add_distrib]
  refine Finset.sum_congr rfl fun i _ => ?_
  rw [BitVec.getLsbD_xor, coef_xor, add_mul]

theorem message_append_singleton (l : List Bool) (b : Bool) :
    message (l ++ [b]) = X * message l + coef b := by
  induction l with
  | nil => simp [message]
  | cons a l ih =>
    rw [List.cons_append, message, ih, message, List.length_append, List.length_singleton, pow_succ]
    ring

section

variable (hw : 0 < w)
include hw

theorem degree_regPoly_lt (c : BitVec w) : (regPoly c).degree < w := by
  unfold regPoly
  refine lt_of_le_of_lt (degree_sum_le _ _) ?_
  refine (Finset.sup_lt_iff (WithBot.bot_lt_coe w)).mpr fun i hi => ?_
  refine lt_of_le_of_lt (b := ((w - 1 - i : Nat) : WithBot Nat)) ?_ ?_
  · cases c.getLsbD i
    · simp [coef]
    · simp [coef]
  · exact Nat.cast_lt.mpr (show w - 1 - i < w by omega)

theorem generator_monic : (generator poly).Monic :=
  monic_X_pow_add (degree_regPoly_lt hw poly)

theorem degree_generator : (generator poly).degree = w := by
  unfold generator
  rw [degree_add_eq_left_of_degree_lt] <;> rw [degree_X_pow]
  exact degree_regPoly_lt hw poly

/-- A register that moves is multiplied by the variable; what falls out is the highest power. -/
theorem regPoly_ushiftRight (c : BitVec w) :
    regPoly (c >>> 1) + coef (c.getLsbD 0) * X ^ w = X * regPoly c := by
  obtain ⟨n, rfl⟩ : ∃ n, w = n + 1 := ⟨w - 1, by omega⟩
  unfold regPoly
  rw [Finset.sum_range_succ, Finset.mul_sum, Finset.sum_range_succ']
  have htop : coef ((c >>> 1).getLsbD n) = 0 := by
    rw [BitVec.getLsbD_ushiftRight, BitVec.getLsbD_of_ge _ _ (by omega)]
    rfl
  rw [htop, zero_mul, add_zero]
  congr 1
  · refine Finset.sum_congr rfl fun i hi => ?_
    have hlt := Finset.mem_range.mp hi
    rw [BitVec.getLsbD_ushiftRight, Nat.add_comm 1 i,
      show n + 1 - 1 - i = n + 1 - 1 - (i + 1) + 1 by omega, pow_succ]
    ring
  · rw [Nat.add_sub_cancel, Nat.sub_zero, pow_succ]
    ring

theorem regPoly_shift (c : BitVec w) :
    regPoly (shift poly c) = X * regPoly c + coef (c.getLsbD 0) * generator poly := by
  have hcancel : ∀ a : (ZMod 2)[X], a + a = 0 := CharTwo.add_self_eq_zero
  rw [← regPoly_ushiftRight hw c]
  unfold shift generator
  cases c.getLsbD 0 with
  | false => simp [coef]
  | true =>
    change regPoly ((c >>> 1) ^^^ poly) = _
    rw [regPoly_xor]
    simp only [coef, if_true, one_mul]
    linear_combination -hcancel (X ^ w)

/-- **One bit**: the register times the variable, with the bit above it, modulo the generator. -/
theorem regPoly_crcBit (c : BitVec w) (b : Bool) :
    ∃ q, regPoly (crcBit poly c b) + q * generator poly = X * regPoly c + coef b * X ^ w := by
  have hbit : regPoly ((BitVec.ofBool b).setWidth w) = coef b * X ^ (w - 1) := by
    obtain ⟨n, rfl⟩ : ∃ n, w = n + 1 := ⟨w - 1, by omega⟩
    unfold regPoly
    rw [Finset.sum_range_succ', Finset.sum_eq_zero]
    · simp
    · intro i hi
      have hzero : ((BitVec.ofBool b).setWidth (n + 1)).getLsbD (i + 1) = false := by
        simp
      rw [hzero]
      exact zero_mul _
  have hpow : X * X ^ (w - 1) = (X ^ w : (ZMod 2)[X]) := by
    rw [← pow_succ', Nat.sub_add_cancel hw]
  refine ⟨-coef ((c ^^^ (BitVec.ofBool b).setWidth w).getLsbD 0), ?_⟩
  unfold crcBit
  rw [regPoly_shift poly hw, regPoly_xor, hbit, ← hpow]
  ring

/-- **The register is the remainder** of the start value and the message, moved by its width. -/
theorem regPoly_crcBits (c : BitVec w) (l : List Bool) :
    regPoly (crcBits poly c l) =
      (X ^ l.length * regPoly c + X ^ w * message l) %ₘ generator poly := by
  have hexists : ∃ q, regPoly (crcBits poly c l) + generator poly * q =
      X ^ l.length * regPoly c + X ^ w * message l := by
    induction l using List.reverseRecOn with
    | nil => exact ⟨0, by simp [crcBits, message]⟩
    | append_singleton l b ih =>
      obtain ⟨q, hq⟩ := ih
      obtain ⟨q', hq'⟩ := regPoly_crcBit poly hw (crcBits poly c l) b
      refine ⟨q' + X * q, ?_⟩
      rw [crcBits_append, message_append_singleton, List.length_append, List.length_singleton,
        pow_succ]
      change regPoly (crcBit poly (crcBits poly c l) b) + _ = _
      linear_combination hq' + X * hq
  obtain ⟨q, hq⟩ := hexists
  refine (div_modByMonic_unique q _ (generator_monic poly hw) ⟨hq, ?_⟩).2.symm
  rw [degree_generator poly hw]
  exact degree_regPoly_lt hw _

end

end Remainder

end OpenCore.ReflectedCrc
