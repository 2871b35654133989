/-
  File:      OpenCore/Pvmf/ClockUnits.lean
  Subject:   Conversions between the clock's unit and the other time units: when the value and the
             overflow flag are those of the exact product or quotient.

  The product is taken in 32 bits before it is widened, so that its upper word is never there, and
  the number of microseconds in a day is cut to 32 bits.

  **Main result**: `conversions_right_iff`.
-/
import OpenCore.Pvmf.MediaClock

namespace OpenCore.Pvmf

/-- `ToUSec`: the multipliers are those of a clock in microseconds. -/
def ToUSec (aSrcVal : UInt32) (aSrcUnits : TimeUnits) : UInt32 × Bool :=
  product aSrcVal (multconst .USEC aSrcUnits)

/-- Microseconds in a time unit. -/
def TimeUnits.usec : TimeUnits → Nat
  | .USEC => 1
  | .MSEC => 1000
  | .SEC => 1000000
  | .MIN => 60000000
  | .HOUR => 3600000000
  | .DAY => 86400000000

/-- The exact product with the ratio of the units, or the exact quotient. -/
def exactValue (source dest : TimeUnits) (v : UInt32) : Nat := v.toNat * source.usec / dest.usec

/-- The value is the exact one modulo 2^32, and the flag says whether that one does not fit. -/
def ConvertsRight (r : UInt32 × Bool) (exact : Nat) : Prop :=
  r.1.toNat = exact % 4294967296 ∧ (r.2 = true ↔ 4294967296 ≤ exact)

/-- A product of 32 bits is never seen to overflow. -/
theorem product_snd (a b : UInt32) : (product a b).2 = false := by
  have h := (a * b).toNat_lt
  rw [product, decide_eq_false_iff_not]
  intro hlt
  have hnat : 4294967295 < (a * b).toUInt64.toNat := hlt
  rw [UInt32.toNat_toUInt64] at hnat
  omega

/-- A product by a multiplier that is right modulo 2^32. -/
theorem product_right_iff {a b : UInt32} {m : Nat} (hm : m % 4294967296 = b.toNat) :
    ConvertsRight (product a b) (a.toNat * m) ↔ a.toNat * m < 4294967296 := by
  have hval : (product a b).1.toNat = a.toNat * m % 4294967296 := by
    rw [product_fst, UInt32.toNat_mul, ← hm, Nat.mul_mod_mod]
  rw [ConvertsRight, product_snd, ← hval]
  constructor
  · intro ⟨_, hflag⟩
    by_contra hbig
    exact Bool.false_ne_true (hflag.mpr (by omega))
  · intro hlt
    exact ⟨rfl, fun h => absurd h Bool.false_ne_true, fun hle => by omega⟩

/-- A quotient always fits. -/
theorem quotient_right_iff (a d : UInt32) (m : Nat) :
    ConvertsRight (a / d, false) (a.toNat / m) ↔ a.toNat / d.toNat = a.toNat / m := by
  have hlt : a.toNat / m < 4294967296 := (Nat.div_le_self _ _).trans_lt a.toNat_lt
  rw [ConvertsRight, UInt32.toNat_div, Nat.mod_eq_of_lt hlt]
  exact and_iff_left ⟨fun h => absurd h Bool.false_ne_true, fun hle => by omega⟩

/-- A day in microseconds is more than any value of 32 bits; its lower word is not. -/
theorem day_quotient_iff (v : UInt32) :
    v.toNat / 500654080 = v.toNat / 86400000000 ↔ v.toNat < 500654080 := by
  have hlt := v.toNat_lt
  rw [Nat.div_eq_of_lt (b := 86400000000) (by omega), Nat.div_eq_zero_iff_lt (by decide)]

theorem TimeUnits.usec_pos (unit : TimeUnits) : 0 < unit.usec := by
  cases unit <;> decide

variable {source dest : TimeUnits}

/-- Into a smaller unit the value is multiplied. -/
theorem exactValue_mul {m : Nat} (h : source.usec = m * dest.usec)
    (v : UInt32) : exactValue source dest v = v.toNat * m := by
  rw [exactValue, h, ← Nat.mul_assoc, Nat.mul_div_cancel _ dest.usec_pos]

/-- Into a larger unit it is divided. -/
theorem exactValue_div {m : Nat} (h : dest.usec = m * source.usec)
    (v : UInt32) : exactValue source dest v = v.toNat / m := by
  rw [exactValue, h, Nat.mul_div_mul_right _ _ source.usec_pos]

theorem product_converts (b : UInt32) (m : Nat)
    (h : source.usec = m * dest.usec) (hm : m % 4294967296 = b.toNat) (v : UInt32) :
    ConvertsRight (product v b) (exactValue source dest v) ↔
      exactValue source dest v < 4294967296 := by
  rw [exactValue_mul h]
  exact product_right_iff hm

theorem quotient_converts (d : UInt32) (m : Nat)
    (h : dest.usec = m * source.usec) (v : UInt32) :
    (ConvertsRight (v / d, false) (exactValue source dest v) ↔
      v.toNat / d.toNat = v.toNat / m) ∧ exactValue source dest v < 4294967296 := by
  rw [exactValue_div h]
  exact ⟨quotient_right_iff v d m, (Nat.div_le_self _ _).trans_lt v.toNat_lt⟩

theorem ToClockUnit_right_iff (u : ClockUnit) (unit : TimeUnits) (v : UInt32) :
    ConvertsRight (ToClockUnit u v unit) (exactValue unit u.units v) ↔
      exactValue unit u.units v < 4294967296 := by
  cases u with
  | USEC =>
    cases unit <;> exact product_converts _ _ (Nat.mul_one _).symm (by decide) v
  | MSEC =>
    cases unit with
    | USEC =>
      obtain ⟨hiff, hfits⟩ :=
        @quotient_converts .USEC .MSEC 1000 1000 rfl v
      exact iff_of_true (hiff.mpr rfl) hfits
    | MSEC => exact product_converts 1 1 rfl rfl v
    | SEC => exact product_converts 1000 1000 rfl rfl v
    | MIN => exact product_converts 60000 60000 rfl rfl v
    | HOUR => exact product_converts 0x36EE80 3600000 rfl rfl v
    | DAY => exact product_converts 0x5265C00 86400000 rfl rfl v

/-- Every quotient but that by the microseconds of a day is exact. -/
theorem FromClockUnit_quotient {u : ClockUnit} {unit : TimeUnits} (d : UInt32)
    (h : unit.usec = d.toNat * u.units.usec) (v : UInt32)
    (hday : ¬ (u = .USEC ∧ unit = .DAY ∧ 500654080 ≤ v.toNat)) :
    ConvertsRight (v / d, false) (exactValue u.units unit v) ↔
      exactValue u.units unit v < 4294967296 ∧
        ¬ (u = .USEC ∧ unit = .DAY ∧ 500654080 ≤ v.toNat) := by
  obtain ⟨hiff, hfits⟩ := quotient_converts d d.toNat h v
  exact iff_of_true (hiff.mpr rfl) ⟨hfits, hday⟩

theorem FromClockUnit_right_iff (u : ClockUnit) (unit : TimeUnits) (v : UInt32) :
    ConvertsRight (FromClockUnit u v unit) (exactValue u.units unit v) ↔
      exactValue u.units unit v < 4294967296 ∧
        ¬ (u = .USEC ∧ unit = .DAY ∧ 500654080 ≤ v.toNat) := by
  cases u with
  | MSEC =>
    cases unit with
    | USEC =>
      have hno : ¬ (ClockUnit.MSEC = .USEC ∧ TimeUnits.USEC = .DAY ∧ 500654080 ≤ v.toNat) :=
        fun h => ClockUnit.noConfusion h.1
      exact (product_converts 1000 1000 rfl rfl v).trans (and_iff_left hno).symm
    | _ => exact FromClockUnit_quotient _ (by decide) v fun h => ClockUnit.noConfusion h.1
  | USEC =>
    cases unit with
    | DAY =>
      obtain ⟨hiff, hfits⟩ := @quotient_converts .USEC .DAY 0x1DD76000 86400000000 rfl v
      refine hiff.trans ((day_quotient_iff v).trans ?_)
      constructor
      · intro hlt
        exact ⟨hfits, fun h => absurd h.2.2 (Nat.not_le.mpr hlt)⟩
      · intro ⟨_, hno⟩
        exact Nat.not_le.mp fun hle => hno ⟨rfl, rfl, hle⟩
    | _ => exact FromClockUnit_quotient _ (by decide) v fun h => TimeUnits.noConfusion h.2.1

/-- **Conversions are right** exactly where the exact result fits into 32 bits and no number of
    microseconds from the lower word of a day on is converted to days. -/
theorem conversions_right_iff (u : ClockUnit) (unit : TimeUnits) (v : UInt32) :
    (ConvertsRight (ToClockUnit u v unit) (exactValue unit u.units v) ↔
        exactValue unit u.units v < 4294967296) ∧
      (ConvertsRight (FromClockUnit u v unit) (exactValue u.units unit v) ↔
        exactValue u.units unit v < 4294967296 ∧
          ¬ (u = .USEC ∧ unit = .DAY ∧ 500654080 ≤ v.toNat)) ∧
      (ConvertsRight (ToUSec v unit) (exactValue unit .USEC v) ↔
        exactValue unit .USEC v < 4294967296) :=
  ⟨ToClockUnit_right_iff u unit v, FromClockUnit_right_iff u unit v,
    ToClockUnit_right_iff .USEC unit v⟩

/-- An hour fits into the microseconds of 32 bits, two hours do not; 15 minutes are no day. -/
theorem two_hours_wrap :
    ¬ ConvertsRight (ToClockUnit .USEC 2 .HOUR) (exactValue .HOUR .USEC 2) ∧
      ¬ ConvertsRight (FromClockUnit .MSEC 4294968 .USEC) (exactValue .MSEC .USEC 4294968) ∧
      ¬ ConvertsRight (FromClockUnit .USEC 900000000 .DAY) (exactValue .USEC .DAY 900000000) :=
  ⟨fun h => absurd h.2 (by decide), fun h => absurd h.2 (by decide),
    fun h => absurd h.1 (by decide)⟩

end OpenCore.Pvmf
