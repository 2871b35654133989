/-
  File:      OpenCore/MediaData/MediaClockConverter.lean
  Subject:   `MediaClockConverter` (media_clock_converter.h, media_clock_converter.cpp): a clock of
             32-bit ticks with a wrap count or an upper word, and the exact count it stands for.

  The code computes in `uint32` and `uint64`, and so do the definitions of the first part. `Ticks`
  is a clock whose count never wraps. `Tracks` ties the two: the code's 64-bit value agrees with
  the count modulo `timescale * 2^32`, since the wrap count is kept modulo the timescale.
-/
import OpenCore.Lib.Run

namespace OpenCore.MediaData

open UInt32 (toNat_toUInt64 toNat_zero)

/-! ## 1. The code -/

structure MediaClockConverter where
  timescale : UInt32
  currentTs : UInt32
  wrapCount : UInt32
  currentTs64Upper32 : UInt32
  deriving DecidableEq

namespace MediaClockConverter

/-- The constructor. -/
def init (inTimescale initTs initTs64Upper32 : UInt32) : MediaClockConverter where
  timescale := inTimescale
  currentTs := initTs
  wrapCount := 0
  currentTs64Upper32 := initTs64Upper32

/-- The 64-bit value of the clock: the upper word, or the wrap count where there is none. -/
def value64 (s : MediaClockConverter) : UInt64 :=
  ((if s.currentTs64Upper32 = 0 then s.wrapCount else s.currentTs64Upper32).toUInt64 <<< 32) +
    s.currentTs.toUInt64

/-- `(value * num + (den - 1)) / den`. -/
def scaleUp (value : UInt64) (num den : UInt32) : UInt64 :=
  (value * num.toUInt64 + (den - 1).toUInt64) / den.toUInt64

/-- A 64-bit value taken over, with its timescale. -/
def setTo (timescale : UInt32) (value : UInt64) : MediaClockConverter where
  timescale := timescale
  currentTs := (value &&& 0xFFFFFFFF).toUInt32
  wrapCount := (value >>> 32).toUInt32 % timescale
  currentTs64Upper32 := (value >>> 32).toUInt32

/-- `set_clock` with a 32-bit timestamp. -/
def setClock (s : MediaClockConverter) (initTs inWrapCount : UInt32) : MediaClockConverter :=
  { s with currentTs := initTs, currentTs64Upper32 := 0, wrapCount := inWrapCount % s.timescale }

/-- `set_clock` with a 64-bit timestamp. -/
def setClock64 (s : MediaClockConverter) (initTs : UInt64) (inWrapCount : UInt32) :
    MediaClockConverter :=
  { s with currentTs := (initTs &&& 0xFFFFFFFF).toUInt32
           currentTs64Upper32 := (initTs >>> 32).toUInt32 % s.timescale
           wrapCount := inWrapCount % s.timescale }

/-- `set_clock_other_timescale`. -/
def setClockOtherTimescale (s : MediaClockConverter) (value inTimescale : UInt32) :
    MediaClockConverter :=
  setTo s.timescale (scaleUp value.toUInt64 s.timescale inTimescale)

/-- `set_timescale`. -/
def setTimescale (s : MediaClockConverter) (newTimescale : UInt32) : MediaClockConverter :=
  setTo newTimescale (scaleUp s.value64 newTimescale s.timescale)

/-- `set_value`. -/
def setValue (s src : MediaClockConverter) : MediaClockConverter :=
  setTo s.timescale (scaleUp src.value64 s.timescale src.timescale)

/-- `update_clock` with a 32-bit timestamp. -/
def updateClock (s : MediaClockConverter) (newTs : UInt32) : MediaClockConverter × Bool :=
  let diff := newTs - s.currentTs
  if newTs < s.currentTs then
    if diff < 0x80000000 then
      let wrapCount := s.wrapCount + 1
      ({ s with wrapCount := if wrapCount ≥ s.timescale then 0 else wrapCount
                currentTs := newTs }, true)
    else (s, false)
  else if diff < 0x80000000 then ({ s with currentTs := newTs }, true)
  else (s, false)

/-- `get_converted_ts`. -/
def getConvertedTs (s : MediaClockConverter) (newTimescale : UInt32) : UInt32 :=
  (scaleUp s.value64 newTimescale s.timescale).toUInt32

end MediaClockConverter

/-- A call. -/
inductive ClockOp where
  | setClock (initTs inWrapCount : UInt32)
  | setClock64 (initTs : UInt64) (inWrapCount : UInt32)
  | setClockOtherTimescale (value inTimescale : UInt32)
  | setTimescale (newTimescale : UInt32)
  | setValue (src : MediaClockConverter)
  | updateClock (newTs : UInt32)
  | getConvertedTs (newTimescale : UInt32)

/-- What a call returns; it leaves where a timescale it is given is zero. -/
inductive ClockAnswer where
  | done
  | leave
  | updated (b : Bool)
  | ts (n : Nat)
  deriving DecidableEq

open MediaClockConverter in
def clockStep (s : MediaClockConverter) : ClockOp → MediaClockConverter × ClockAnswer
  | .setClock initTs inWrapCount => (s.setClock initTs inWrapCount, .done)
  | .setClock64 initTs inWrapCount => (s.setClock64 initTs inWrapCount, .done)
  | .setClockOtherTimescale value inTimescale =>
    if inTimescale = 0 then (s, .leave) else (s.setClockOtherTimescale value inTimescale, .done)
  | .setTimescale newTimescale =>
    if newTimescale = 0 then (s, .leave) else (s.setTimescale newTimescale, .done)
  | .setValue src => if src.timescale = 0 then (s, .leave) else (s.setValue src, .done)
  | .updateClock newTs => ((s.updateClock newTs).1, .updated (s.updateClock newTs).2)
  | .getConvertedTs newTimescale => (s, .ts (s.getConvertedTs newTimescale).toNat)

/-! ## 2. The count it stands for -/

/-- A count of ticks that does not wrap, and how many of them make a second. -/
structure Ticks where
  total : Nat
  timescale : Nat

/-- The 64-bit timestamp, or the 32-bit one after that many wraps. -/
def ticksOf64 (initTs : UInt64) (inWrapCount : UInt32) : Nat :=
  if initTs.toNat < 4294967296 then inWrapCount.toNat * 4294967296 + initTs.toNat else initTs.toNat

/-- How far a 32-bit timestamp lies ahead of a count. -/
def ahead (total : Nat) (newTs : UInt32) : Nat :=
  (newTs.toNat + (4294967296 - total % 4294967296)) % 4294967296

/-- What each call means for the count. A timestamp half the range ahead or more is an earlier
    one and is ignored. -/
def Ticks.step (t : Ticks) : ClockOp → Ticks × ClockAnswer
  | .setClock initTs inWrapCount =>
    ({ t with total := inWrapCount.toNat * 4294967296 + initTs.toNat }, .done)
  | .setClock64 initTs inWrapCount => ({ t with total := ticksOf64 initTs inWrapCount }, .done)
  | .setClockOtherTimescale value inTimescale =>
    if inTimescale = 0 then (t, .leave)
    else ({ t with total := (value.toNat * t.timescale) ⌈/⌉ inTimescale.toNat }, .done)
  | .setTimescale newTimescale =>
    if newTimescale = 0 then (t, .leave)
    else
      ({ total := (t.total * newTimescale.toNat) ⌈/⌉ t.timescale
         timescale := newTimescale.toNat }, .done)
  | .setValue src =>
    if src.timescale = 0 then (t, .leave)
    else
      ({ t with total := (src.value64.toNat * t.timescale) ⌈/⌉ src.timescale.toNat }, .done)
  | .updateClock newTs =>
    if ahead t.total newTs < 2147483648 then
      ({ t with total := t.total + ahead t.total newTs }, .updated true)
    else (t, .updated false)
  | .getConvertedTs newTimescale =>
    (t, .ts ((t.total * newTimescale.toNat) ⌈/⌉ t.timescale % 4294967296))

/-! ## 3. Rounding up, modulo -/

/-- Two numbers that agree modulo `n * m` have quotients by `n` that agree modulo `m`. -/
theorem modEq_div {n m a b : Nat} (h : a ≡ b [MOD n * m]) : a / n ≡ b / n [MOD m] := by
  rw [Nat.ModEq, ← Nat.mod_mul_right_div_self, ← Nat.mod_mul_right_div_self]
  exact congrArg (· / n) h

theorem modEq_ceilDiv {n m a b : Nat} (hn : 0 < n) (h : a ≡ b [MOD n * m]) :
    a ⌈/⌉ n ≡ b ⌈/⌉ n [MOD m] := by
  rw [Nat.ceilDiv_eq_add_pred_div, Nat.ceilDiv_eq_add_pred_div, Nat.add_sub_assoc hn,
    Nat.add_sub_assoc hn]
  exact modEq_div (h.add_right _)

/-- **Converted counts agree** where the counts do, modulo as many ticks as 2^32 wraps have. -/
theorem modEq_convert {n k a b : Nat} (hn : 0 < n) (h : a ≡ b [MOD n * 4294967296]) :
    (a * k) ⌈/⌉ n ≡ (b * k) ⌈/⌉ n [MOD k * 4294967296] := by
  refine modEq_ceilDiv hn ?_
  have := h.mul_right' k
  rwa [Nat.mul_assoc, Nat.mul_comm 4294967296] at this

/-! ## 4. The words as numbers -/

theorem toNat_lt32 (x : UInt32) : x.toNat < 4294967296 := x.toNat_lt

theorem toNat_pos {x : UInt32} (h : x ≠ 0) : 0 < x.toNat :=
  Nat.pos_of_ne_zero fun e => h (UInt32.toNat.inj e)

theorem toNat_sub_one {x : UInt32} (h : x ≠ 0) : (x - 1).toNat = x.toNat - 1 := by
  have hpos := toNat_pos h
  rw [UInt32.toNat_sub_of_le _ _ (by rw [UInt32.le_iff_toNat_le]; exact hpos)]
  rfl

namespace MediaClockConverter

/-- An upper word in front of a lower one. -/
theorem toNat_join (hi lo : UInt32) :
    ((hi.toUInt64 <<< 32) + lo.toUInt64).toNat = hi.toNat * 4294967296 + lo.toNat := by
  have h1 := toNat_lt32 hi
  have h2 := toNat_lt32 lo
  rw [UInt64.toNat_add, UInt64.toNat_shiftLeft, toNat_toUInt64, toNat_toUInt64,
    show (32 : UInt64).toNat % 64 = 32 from rfl, Nat.shiftLeft_eq]
  omega

theorem toNat_value64 (s : MediaClockConverter) :
    s.value64.toNat =
      (if s.currentTs64Upper32 = 0 then s.wrapCount else s.currentTs64Upper32).toNat * 4294967296 +
        s.currentTs.toNat :=
  toNat_join _ _

/-- Without an overflow the quotient is the rounded one. -/
theorem toNat_scaleUp {value : UInt64} {num den : UInt32} (hden : den ≠ 0)
    (h : value.toNat * num.toNat + (den.toNat - 1) < 18446744073709551616) :
    (scaleUp value num den).toNat = (value.toNat * num.toNat) ⌈/⌉ den.toNat := by
  have hpos := toNat_pos hden
  rw [scaleUp, UInt64.toNat_div, UInt64.toNat_add, UInt64.toNat_mul, toNat_toUInt64,
    toNat_toUInt64, toNat_toUInt64, toNat_sub_one hden, Nat.mod_add_mod,
    Nat.mod_eq_of_lt h, Nat.ceilDiv_eq_add_pred_div, Nat.add_sub_assoc hpos]

theorem toNat_upper (v : UInt64) : (v >>> 32).toUInt32.toNat = v.toNat / 4294967296 := by
  have hlt : v.toNat < 18446744073709551616 := v.toNat_lt
  rw [UInt64.toNat_toUInt32, UInt64.toNat_shiftRight, show (32 : UInt64).toNat % 64 = 32 from rfl,
    Nat.shiftRight_eq_div_pow]
  omega

theorem toNat_lower (v : UInt64) : (v &&& 0xFFFFFFFF).toUInt32.toNat = v.toNat % 4294967296 := by
  rw [UInt64.toNat_toUInt32, UInt64.toNat_and,
    show (0xFFFFFFFF : UInt64).toNat = 2 ^ 32 - 1 from rfl, Nat.and_two_pow_sub_one_eq_mod,
    Nat.mod_mod]

theorem toNat_mod32 {a b : UInt32} : (a % b).toNat = a.toNat % b.toNat := UInt32.toNat_mod a b

/-- A 64-bit value taken over is the clock's value. -/
theorem toNat_setTo (timescale : UInt32) (v : UInt64) :
    (setTo timescale v).value64.toNat = v.toNat := by
  rw [toNat_value64]
  unfold setTo
  dsimp only
  have hsplit := Nat.div_add_mod' v.toNat 4294967296
  by_cases h : (v >>> 32).toUInt32 = 0
  · have h0 := congrArg UInt32.toNat h
    rw [toNat_upper, toNat_zero] at h0
    rw [if_pos h, toNat_mod32, toNat_upper, toNat_lower, h0, Nat.zero_mod, Nat.zero_mul,
      Nat.zero_add]
    omega
  · rw [if_neg h, toNat_upper, toNat_lower, hsplit]

end MediaClockConverter

open MediaClockConverter

/-! ## 5. Clock and count -/

/-- The clock's value is the count, up to whole rounds of the wrap count. -/
structure Tracks (s : MediaClockConverter) (t : Ticks) : Prop where
  timescale : s.timescale.toNat = t.timescale
  pos : 0 < t.timescale
  wrap : s.wrapCount.toNat < t.timescale
  total : s.value64.toNat ≡ t.total [MOD t.timescale * 4294967296]

variable {s s' : MediaClockConverter} {t t' : Ticks}

theorem Tracks.ne_zero (h : Tracks s t) : s.timescale ≠ 0 := by
  intro e
  have := h.timescale
  rw [e, toNat_zero] at this
  exact Nat.ne_of_lt h.pos this

/-- The current timestamp is the count in 32 bits. -/
theorem Tracks.current (h : Tracks s t) : t.total % 4294967296 = s.currentTs.toNat := by
  have hlt := toNat_lt32 s.currentTs
  have hmod : s.value64.toNat % 4294967296 = t.total % 4294967296 :=
    h.total.of_mul_left t.timescale
  rw [← hmod, toNat_value64, Nat.mul_add_mod_self_right]
  exact Nat.mod_eq_of_lt hlt

theorem Tracks.setTo {timescale : UInt32} {v : UInt64} {total : Nat} (hT : timescale ≠ 0)
    (h : v.toNat ≡ total [MOD timescale.toNat * 4294967296]) :
    Tracks (setTo timescale v) ⟨total, timescale.toNat⟩ where
  timescale := rfl
  pos := toNat_pos hT
  wrap := by
    show ((v >>> 32).toUInt32 % timescale).toNat < timescale.toNat
    rw [toNat_mod32]
    exact Nat.mod_lt _ (toNat_pos hT)
  total := by rwa [toNat_setTo]

theorem mod_mul_modEq (a n : Nat) : a % n * 4294967296 ≡ a * 4294967296 [MOD n * 4294967296] :=
  (Nat.mod_modEq a n).mul_right' 4294967296

theorem Tracks.setClock (h : Tracks s t) (initTs inWrapCount : UInt32) :
    Tracks (s.setClock initTs inWrapCount)
      { t with total := inWrapCount.toNat * 4294967296 + initTs.toNat } where
  timescale := h.timescale
  pos := h.pos
  wrap := by
    show (inWrapCount % s.timescale).toNat < t.timescale
    rw [toNat_mod32, h.timescale]
    exact Nat.mod_lt _ h.pos
  total := by
    show (MediaClockConverter.setClock s initTs inWrapCount).value64.toNat ≡ _ [MOD _]
    rw [toNat_value64]
    show (inWrapCount % s.timescale).toNat * 4294967296 + initTs.toNat ≡ _ [MOD _]
    rw [toNat_mod32, h.timescale]
    exact (mod_mul_modEq _ _).add_right _

/-- A 64-bit timestamp whose upper word is not lost with its reduction. -/
theorem Tracks.setClock64 (h : Tracks s t) {initTs : UInt64} {inWrapCount : UInt32}
    (hok : initTs.toNat < 4294967296 ∨ (initTs >>> 32).toUInt32 % s.timescale ≠ 0 ∨
      inWrapCount % s.timescale = 0) :
    Tracks (s.setClock64 initTs inWrapCount)
      { t with total := ticksOf64 initTs inWrapCount } where
  timescale := h.timescale
  pos := h.pos
  wrap := by
    show (inWrapCount % s.timescale).toNat < t.timescale
    rw [toNat_mod32, h.timescale]
    exact Nat.mod_lt _ h.pos
  total := by
    have hsplit := Nat.div_add_mod' initTs.toNat 4294967296
    have hupper : ((initTs >>> 32).toUInt32 % s.timescale).toNat =
        initTs.toNat / 4294967296 % t.timescale := by
      rw [toNat_mod32, toNat_upper, h.timescale]
    have hwrap : (inWrapCount % s.timescale).toNat = inWrapCount.toNat % t.timescale := by
      rw [toNat_mod32, h.timescale]
    show (MediaClockConverter.setClock64 s initTs inWrapCount).value64.toNat ≡ _ [MOD _]
    rw [toNat_value64]
    unfold MediaClockConverter.setClock64 ticksOf64
    dsimp only
    rw [toNat_lower]
    by_cases hsmall : initTs.toNat < 4294967296
    · have h0 : (initTs >>> 32).toUInt32 % s.timescale = 0 := by
        apply UInt32.toNat.inj
        rw [hupper, Nat.div_eq_of_lt hsmall, Nat.zero_mod, toNat_zero]
      rw [if_pos hsmall, if_pos h0, hwrap, Nat.mod_eq_of_lt hsmall]
      exact (mod_mul_modEq _ _).add_right _
    · rw [if_neg hsmall]
      conv_rhs => rw [← hsplit]
      refine Nat.ModEq.add_right _ ?_
      by_cases h0 : (initTs >>> 32).toUInt32 % s.timescale = 0
      · have hw := (hok.resolve_left hsmall).resolve_left (not_not.mpr h0)
        have hz := congrArg UInt32.toNat h0
        rw [hupper, toNat_zero] at hz
        rw [if_pos h0, hw, toNat_zero, ← hz]
        exact mod_mul_modEq _ _
      · rw [if_neg h0, hupper]
        exact mod_mul_modEq _ _

/-- A converted value does not overflow where the code computes it. -/
def Fits (value : UInt64) (num den : UInt32) : Prop :=
  value.toNat * num.toNat + (den.toNat - 1) < 18446744073709551616

instance (value : UInt64) (num den : UInt32) : Decidable (Fits value num den) := Nat.decLt _ _

theorem Tracks.convert (h : Tracks s t) {num : UInt32} (hfits : Fits s.value64 num s.timescale) :
    (scaleUp s.value64 num s.timescale).toNat ≡ (t.total * num.toNat) ⌈/⌉ t.timescale
      [MOD num.toNat * 4294967296] := by
  rw [toNat_scaleUp h.ne_zero hfits, h.timescale]
  exact modEq_convert h.pos h.total

/-- **A 32-bit timestamp**: the clock goes on by as many ticks as the count, where a wrap is
    counted. -/
theorem Tracks.updateClock (h : Tracks s t) {newTs : UInt32}
    (hok : ¬(newTs < s.currentTs ∧ newTs - s.currentTs < 0x80000000) ∨
      s.currentTs64Upper32 = 0 ∨ s.timescale = 1) :
    Tracks (s.updateClock newTs).1 (t.step (.updateClock newTs)).1 ∧
      (t.step (.updateClock newTs)).2 = .updated (s.updateClock newTs).2 := by
  have hcur := h.current
  have hlt' := toNat_lt32 newTs
  have hdiff : (newTs - s.currentTs).toNat = ahead t.total newTs := by
    rw [UInt32.toNat_sub, ahead, hcur, Nat.add_comm]
  have hthreshold : newTs - s.currentTs < 0x80000000 ↔ ahead t.total newTs < 2147483648 := by
    rw [UInt32.lt_iff_toNat_lt, hdiff]
    rfl
  unfold Ticks.step MediaClockConverter.updateClock
  dsimp only
  by_cases hd : ahead t.total newTs < 2147483648
  swap
  · simp only [if_neg (mt hthreshold.mp hd), if_neg hd, ite_self]
    exact ⟨h, trivial⟩
  simp only [if_pos (hthreshold.mpr hd), if_pos hd]
  have hahead : ahead t.total newTs =
      (newTs.toNat + (4294967296 - s.currentTs.toNat)) % 4294967296 := by rw [ahead, hcur]
  have hval := toNat_value64 s
  by_cases hw : newTs < s.currentTs
  · -- a wrap
    have hw' : newTs.toNat < s.currentTs.toNat := hw
    rw [if_pos hw]
    refine ⟨?_, rfl⟩
    have hone := toNat_lt32 s.timescale
    have hwrap := h.wrap
    have hsucc : (s.wrapCount + 1).toNat = s.wrapCount.toNat + 1 := by
      rw [UInt32.toNat_add]
      have := h.timescale
      have : (1 : UInt32).toNat = 1 := rfl
      omega
    have hnew : (if s.wrapCount + 1 ≥ s.timescale then 0 else s.wrapCount + 1).toNat =
        (s.wrapCount.toNat + 1) % t.timescale := by
      have hge : s.wrapCount + 1 ≥ s.timescale ↔ t.timescale ≤ s.wrapCount.toNat + 1 := by
        rw [ge_iff_le, UInt32.le_iff_toNat_le, h.timescale, hsucc]
      by_cases hr : t.timescale ≤ s.wrapCount.toNat + 1
      · have e : s.wrapCount.toNat + 1 = t.timescale := by omega
        rw [if_pos (hge.mpr hr), e, Nat.mod_self, toNat_zero]
      · rw [if_neg (mt hge.mp hr), hsucc, Nat.mod_eq_of_lt (by omega)]
    refine ⟨h.timescale, h.pos, ?_, ?_⟩
    · show (if s.wrapCount + 1 ≥ s.timescale then 0 else s.wrapCount + 1).toNat < t.timescale
      rw [hnew]
      exact Nat.mod_lt _ h.pos
    · rw [toNat_value64]
      dsimp only
      have hsum : s.value64.toNat + ahead t.total newTs ≡ t.total + ahead t.total newTs
          [MOD t.timescale * 4294967296] := h.total.add_right _
      refine Nat.ModEq.trans ?_ hsum
      rw [hval]
      by_cases hup : s.currentTs64Upper32 = 0
      · rw [if_pos hup, if_pos hup, hnew,
          show s.wrapCount.toNat * 4294967296 + s.currentTs.toNat + ahead t.total newTs =
            (s.wrapCount.toNat + 1) * 4294967296 + newTs.toNat by omega]
        exact (mod_mul_modEq _ _).add_right _
      · have hT : t.timescale = 1 := by
          have hone := (hok.resolve_left (not_not.mpr ⟨hw, hthreshold.mpr hd⟩)).resolve_left hup
          rw [← h.timescale, hone]
          rfl
        rw [if_neg hup, if_neg hup, hT, Nat.one_mul,
          show s.currentTs64Upper32.toNat * 4294967296 + s.currentTs.toNat + ahead t.total newTs =
            (s.currentTs64Upper32.toNat + 1) * 4294967296 + newTs.toNat by omega]
        rw [Nat.ModEq, Nat.mul_add_mod_self_right, Nat.mul_add_mod_self_right]
  · have hw' : s.currentTs.toNat ≤ newTs.toNat := Nat.le_of_not_lt hw
    rw [if_neg hw]
    refine ⟨⟨h.timescale, h.pos, h.wrap, ?_⟩, rfl⟩
    rw [toNat_value64]
    dsimp only
    have hsum : s.value64.toNat + ahead t.total newTs ≡ t.total + ahead t.total newTs
        [MOD t.timescale * 4294967296] := h.total.add_right _
    refine Nat.ModEq.trans ?_ hsum
    rw [hval, Nat.add_assoc, show s.currentTs.toNat + ahead t.total newTs = newTs.toNat by omega]

/-! ## 6. Runs -/

/-- A call in which no 64-bit value overflows and no wrap is lost: `update_clock` does not wrap a
    clock with an upper word (a clock of one tick a second has none to lose), and `set_clock` keeps
    an upper word that is not a multiple of the timescale, or needs no wrap count. -/
def exactCall (s : MediaClockConverter) : ClockOp → Prop
  | .setClock64 initTs inWrapCount =>
    initTs.toNat < 4294967296 ∨ (initTs >>> 32).toUInt32 % s.timescale ≠ 0 ∨
      inWrapCount % s.timescale = 0
  | .setTimescale newTimescale => Fits s.value64 newTimescale s.timescale
  | .setValue src => Fits src.value64 s.timescale src.timescale
  | .updateClock newTs =>
    ¬(newTs < s.currentTs ∧ newTs - s.currentTs < 0x80000000) ∨ s.currentTs64Upper32 = 0 ∨
      s.timescale = 1
  | .getConvertedTs newTimescale => Fits s.value64 newTimescale s.timescale
  | _ => True

instance (s : MediaClockConverter) (op : ClockOp) : Decidable (exactCall s op) :=
  match op with
  | .setClock _ _ => inferInstanceAs (Decidable True)
  | .setClock64 _ _ => inferInstanceAs (Decidable (_ ∨ _ ∨ _))
  | .setClockOtherTimescale _ _ => inferInstanceAs (Decidable True)
  | .setTimescale _ => inferInstanceAs (Decidable (Fits _ _ _))
  | .setValue _ => inferInstanceAs (Decidable (Fits _ _ _))
  | .updateClock _ => inferInstanceAs (Decidable (_ ∨ _ ∨ _))
  | .getConvertedTs _ => inferInstanceAs (Decidable (Fits _ _ _))

/-- **One call**: it answers what the count says and the clock goes on standing for the count. -/
theorem clockStep_tracks (h : Tracks s t) {op : ClockOp} (hok : exactCall s op) :
    Tracks (clockStep s op).1 (t.step op).1 ∧ (clockStep s op).2 = (t.step op).2 := by
  have hT := h.ne_zero
  cases op with
  | setClock initTs inWrapCount => exact ⟨h.setClock initTs inWrapCount, rfl⟩
  | setClock64 initTs inWrapCount => exact ⟨h.setClock64 hok, rfl⟩
  | setClockOtherTimescale value inTimescale =>
    unfold clockStep Ticks.step
    dsimp only
    split
    · exact ⟨h, rfl⟩
    · rename_i hin
      refine ⟨?_, rfl⟩
      rw [← h.timescale]
      refine Tracks.setTo hT ?_
      have hv := toNat_lt32 value
      have hs := toNat_lt32 s.timescale
      have hi := toNat_lt32 inTimescale
      have hmul : value.toNat * s.timescale.toNat ≤ 4294967295 * 4294967295 :=
        Nat.mul_le_mul (by omega) (by omega)
      rw [toNat_scaleUp hin (by rw [toNat_toUInt64]; omega), toNat_toUInt64]
  | setTimescale newTimescale =>
    unfold clockStep Ticks.step
    dsimp only
    split
    · exact ⟨h, rfl⟩
    · rename_i hnew
      exact ⟨Tracks.setTo hnew (h.convert hok), rfl⟩
  | setValue src =>
    unfold clockStep Ticks.step
    dsimp only
    split
    · exact ⟨h, rfl⟩
    · rename_i hsrc
      refine ⟨?_, rfl⟩
      rw [← h.timescale]
      refine Tracks.setTo hT ?_
      rw [toNat_scaleUp hsrc hok]
  | updateClock newTs =>
    obtain ⟨h', ha⟩ := h.updateClock hok
    exact ⟨h', ha.symm⟩
  | getConvertedTs newTimescale =>
    refine ⟨h, ?_⟩
    show ClockAnswer.ts _ = ClockAnswer.ts _
    rw [getConvertedTs, UInt64.toNat_toUInt32]
    exact congrArg _ ((h.convert hok).of_mul_left newTimescale.toNat)

/-- One call of the code, with its answer. -/
def ClockStep (s : MediaClockConverter) (l : ClockOp × ClockAnswer) (s' : MediaClockConverter) :
    Prop :=
  clockStep s l.1 = (s', l.2)

/-- One call on the count, with its answer. -/
def TicksStep (t : Ticks) (l : ClockOp × ClockAnswer) (t' : Ticks) : Prop :=
  t.step l.1 = (t', l.2)

/-- The count a clock is built with. -/
def Ticks.init (inTimescale initTs initTs64Upper32 : UInt32) : Ticks where
  total := initTs64Upper32.toNat * 4294967296 + initTs.toNat
  timescale := inTimescale.toNat

theorem tracks_init {inTimescale : UInt32} (hT : inTimescale ≠ 0) (initTs initTs64Upper32 : UInt32) :
    Tracks (MediaClockConverter.init inTimescale initTs initTs64Upper32)
      (Ticks.init inTimescale initTs initTs64Upper32) where
  timescale := rfl
  pos := toNat_pos hT
  wrap := toNat_pos hT
  total := by
    rw [toNat_value64]
    unfold init Ticks.init
    dsimp only
    split
    · rename_i h
      rw [h]
    · rfl

/-- **The clock is exact all along every run of such calls**: each converted timestamp is the
    rounded-up conversion of the ticks that have passed, modulo 2^32, however often the 32-bit
    timestamps have wrapped, and `set_timescale` keeps the time. -/
theorem exact_of_exact_run (inTimescale initTs initTs64Upper32 : UInt32) (hT : inTimescale ≠ 0)
    {ls : List (ClockOp × ClockAnswer)} {s : MediaClockConverter}
    (hr : Run (onlyWhen (fun s l => exactCall s l.1) ClockStep)
      (MediaClockConverter.init inTimescale initTs initTs64Upper32) ls s) :
    ∃ t, Run TicksStep (Ticks.init inTimescale initTs initTs64Upper32) ls t ∧ Tracks s t := by
  refine Run.simulate (tracks_init hT initTs initTs64Upper32) ?_ hr
  rintro s l s' t h ⟨hok, hs⟩
  obtain ⟨h', ha⟩ := clockStep_tracks h hok
  rw [ClockStep] at hs
  rw [hs] at h' ha
  exact ⟨_, Prod.ext rfl ha.symm, h'⟩

/-- A clock of 90000 ticks a second over two wraps, then at 1000 ticks a second. -/
theorem exact_of_exact_run_wraps : ∃ s t, Tracks s t ∧
    Run TicksStep (Ticks.init 90000 0 0)
      [(.setClock 4294967000 0, .done), (.updateClock 100, .updated true),
        (.updateClock 2147483000, .updated true), (.updateClock 2147482000, .updated false),
        (.updateClock 4294966000, .updated true), (.updateClock 0, .updated true),
        (.getConvertedTs 1000, .ts 95443718), (.setTimescale 1000, .done),
        (.updateClock 95443728, .updated true), (.getConvertedTs 2000, .ts 190887456)] t := by
  have hsome : (execAll (guarded (fun s l => exactCall s l.1)
      (answering fun s op => some (clockStep s op))) (MediaClockConverter.init 90000 0 0)
      [(.setClock 4294967000 0, .done), (.updateClock 100, .updated true),
        (.updateClock 2147483000, .updated true), (.updateClock 2147482000, .updated false),
        (.updateClock 4294966000, .updated true), (.updateClock 0, .updated true),
        (.getConvertedTs 1000, .ts 95443718), (.setTimescale 1000, .done),
        (.updateClock 95443728, .updated true), (.getConvertedTs 2000, .ts 190887456)]).isSome := by
    decide +kernel
  obtain ⟨s, hs⟩ := Option.isSome_iff_exists.mp hsome
  have hr : Run (onlyWhen (fun s l => exactCall s l.1) ClockStep) _ _ _ :=
    (Run.of_guarded hs).mono fun _ _ _ h =>
      ⟨h.1, Option.some.inj (answering_eq_some.mp h.2)⟩
  obtain ⟨t, hrun, h⟩ := exact_of_exact_run 90000 0 0 (by decide) hr
  exact ⟨s, t, h, hrun⟩

/-- At the largest timescale, one wrap and five ticks: the product overflows 64 bits. -/
theorem large_timescale_overflows :
    (∃ s, Run ClockStep (MediaClockConverter.init 4294967295 0 0)
      [(.setClock 4294967295 0, .done), (.updateClock 0, .updated true),
        (.updateClock 5, .updated true), (.getConvertedTs 4294967295, .ts 4)] s) ∧
    ¬ ∃ t, Run TicksStep (Ticks.init 4294967295 0 0)
      [(.setClock 4294967295 0, .done), (.updateClock 0, .updated true),
        (.updateClock 5, .updated true), (.getConvertedTs 4294967295, .ts 4)] t := by
  constructor
  · have hsome : (execAll (answering fun s op => some (clockStep s op))
        (MediaClockConverter.init 4294967295 0 0)
        [(.setClock 4294967295 0, .done), (.updateClock 0, .updated true),
          (.updateClock 5, .updated true), (.getConvertedTs 4294967295, .ts 4)]).isSome := by
      decide +kernel
    obtain ⟨s, hs⟩ := Option.isSome_iff_exists.mp hsome
    exact ⟨s, (Run.of_execAll hs).mono fun _ _ _ h => Option.some.inj (answering_eq_some.mp h)⟩
  · rintro ⟨t, hr⟩
    have hrun : Run (stepsOf (answering fun (t : Ticks) op => some (t.step op))) _ _ _ :=
      hr.mono fun _ _ _ h => answering_eq_some.mpr (congrArg some h)
    have hnone : (execAll (answering fun (t : Ticks) op => some (t.step op))
        (Ticks.init 4294967295 0 0)
        [(.setClock 4294967295 0, .done), (.updateClock 0, .updated true),
          (.updateClock 5, .updated true), (.getConvertedTs 4294967295, .ts 4)]).isNone := by
      decide +kernel
    rw [hrun.execAll_eq] at hnone
    cases hnone

-- A clock with an upper word loses a wrap: half the ticks of a clock of 1000 ticks a second.
example : (clockStep (clockStep (MediaClockConverter.init 1000 4294967295 1) (.updateClock 999)).1
      (.getConvertedTs 500)).2 ≠
    ((((Ticks.init 1000 4294967295 1).step (.updateClock 999)).1).step (.getConvertedTs 500)).2 := by
  decide +kernel

end OpenCore.MediaData
