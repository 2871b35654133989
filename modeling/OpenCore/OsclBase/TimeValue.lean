/-
  File:      OpenCore/OsclBase/TimeValue.lean
  Subject:   `TimeValue` (oscl_time.inl): seconds and microseconds built from units, added,
             subtracted, scaled and compared.

  A value denotes `tv_sec * 1000000 + tv_usec` microseconds. The operators carry only part of the
  microseconds into the seconds: a difference may be left with more than a second of them, or with
  fields of opposite signs. The comparisons look at the seconds first.

  **Main result**: `times_right`.
-/
import Mathlib.Tactic.Ring
import Mathlib.Tactic.Linarith

namespace OpenCore.OsclBase

/-! ## 1. Machine words -/

/-- What `long` and the fields of `struct timeval` are on the two kinds of machine. -/
inductive LongType where
  | ilp32
  | lp64
  deriving DecidableEq

variable {x : Int}

namespace LongType

/-- The number of values. -/
def modulus : LongType → Nat
  | ilp32 => 4294967296
  | lp64 => 18446744073709551616

/-- The value a `long` keeps of `x`. -/
def wrap (l : LongType) (x : Int) : Int := x.bmod l.modulus

/-- `x` is a value of the type. -/
def Fits (l : LongType) (x : Int) : Prop := -(l.modulus : Int) ≤ 2 * x ∧ 2 * x < l.modulus

instance (l : LongType) (x : Int) : Decidable (l.Fits x) := inferInstanceAs (Decidable (_ ∧ _))

theorem wrap_eq {l : LongType} (h : l.Fits x) : l.wrap x = x :=
  Int.bmod_eq_of_le_mul_two (by have := h.1; omega) (by have := h.2; omega)

end LongType

/-- 32 bits hold `x`. -/
def Fits32 (x : Int) : Prop := -2147483648 ≤ x ∧ x ≤ 2147483647

instance (x : Int) : Decidable (Fits32 x) := inferInstanceAs (Decidable (_ ∧ _))

theorem Fits32.fits (h : Fits32 x) : ∀ l : LongType, l.Fits x
  | .ilp32 => ⟨by have := h.1; simp only [LongType.modulus]; omega,
      by have := h.2; simp only [LongType.modulus]; omega⟩
  | .lp64 => ⟨by have := h.1; simp only [LongType.modulus]; omega,
      by have := h.2; simp only [LongType.modulus]; omega⟩

theorem LongType.wrap_eq_of_fits32 (l : LongType) (h : Fits32 x) : l.wrap x = x :=
  wrap_eq (h.fits l)

/-! ## 2. The code -/

def USEC_PER_SEC : Int := 1000000

inductive TimeUnits where
  | SECONDS
  | MILLISECONDS
  | MICROSECONDS
  deriving DecidableEq

/-- `MapToSeconds`. -/
def mapToSeconds : TimeUnits → Int
  | .SECONDS => 1
  | .MILLISECONDS => 1000
  | .MICROSECONDS => 1000000

/-- `MapToUSeconds`. -/
def mapToUSeconds : TimeUnits → Int
  | .SECONDS => 1000000
  | .MILLISECONDS => 1000
  | .MICROSECONDS => 1

/-- The fields of `ts`. -/
structure TimeValue where
  tv_sec : Int
  tv_usec : Int
  deriving DecidableEq

namespace TimeValue

variable (l : LongType)

/-- `TimeValue(long, TimeUnits)`. -/
def ofUnits (num_units : Int) (units : TimeUnits) : TimeValue :=
  let tv_sec := num_units.tdiv (mapToSeconds units)
  let diff := l.wrap (num_units - l.wrap (mapToSeconds units * tv_sec))
  ⟨tv_sec, l.wrap (diff * mapToUSeconds units)⟩

/-- `operator +=`. -/
def addAssign (this a : TimeValue) : TimeValue :=
  let tv_usec := l.wrap (this.tv_usec + a.tv_usec)
  let tv_sec := l.wrap (this.tv_sec + a.tv_sec)
  if tv_usec ≥ USEC_PER_SEC then ⟨l.wrap (tv_sec + 1), l.wrap (tv_usec - USEC_PER_SEC)⟩
  else ⟨tv_sec, tv_usec⟩

/-- `operator -=`. -/
def subAssign (this a : TimeValue) : TimeValue :=
  let tv_usec := l.wrap (this.tv_usec - a.tv_usec)
  let tv_sec := l.wrap (this.tv_sec - a.tv_sec)
  if tv_sec > 0 ∧ tv_usec < 0 then ⟨l.wrap (tv_sec - 1), l.wrap (tv_usec + USEC_PER_SEC)⟩
  else ⟨tv_sec, tv_usec⟩

/-- `operator *=`; `secs` is an `unsigned long`. -/
def mulAssign (this : TimeValue) (scale : Int) : TimeValue :=
  let tv_usec := l.wrap (this.tv_usec * scale)
  let tv_sec := l.wrap (this.tv_sec * scale)
  let secs := tv_usec.tdiv USEC_PER_SEC % l.modulus
  ⟨l.wrap (tv_sec + secs), l.wrap (tv_usec - secs * USEC_PER_SEC)⟩

/-- `timercmp(&a.ts, &b.ts, CMP)`. -/
def timercmp (CMP : Int → Int → Bool) (a b : TimeValue) : Bool :=
  if a.tv_sec = b.tv_sec then CMP a.tv_usec b.tv_usec else CMP a.tv_sec b.tv_sec

/-- `operator ==`. -/
def equal (a b : TimeValue) : Bool := timercmp (fun x y => x = y) a b

/-- `operator !=`. -/
def notEqual (a b : TimeValue) : Bool := timercmp (fun x y => x ≠ y) a b

/-- `operator <=`. -/
def lessEqual (a b : TimeValue) : Bool := !timercmp (fun x y => x > y) a b

/-- `operator >=`. -/
def greaterEqual (a b : TimeValue) : Bool := !timercmp (fun x y => x < y) a b

/-- `operator >`. -/
def greater (a b : TimeValue) : Bool := timercmp (fun x y => x > y) a b

/-- `operator <`. -/
def less (a b : TimeValue) : Bool := timercmp (fun x y => x < y) a b

end TimeValue

/-! ## 3. Real times -/

/-- The microseconds a value denotes. -/
def TimeValue.usecs (v : TimeValue) : Int := v.tv_sec * USEC_PER_SEC + v.tv_usec

/-- How a value was built: from units, and by any sequence of the operators, whose operands were
    built the same way. -/
inductive Built (l : LongType) where
  | units (num_units : Int) (isLong : l.Fits num_units) (units : TimeUnits)
  | plus (this a : Built l)
  | minus (this a : Built l)
  | times (this : Built l) (scale : Int)

namespace Built

variable {l : LongType}

/-- The value the code has for it. -/
def value : Built l → TimeValue
  | units n _ u => .ofUnits l n u
  | plus this a => .addAssign l this.value a.value
  | minus this a => .subAssign l this.value a.value
  | times this scale => .mulAssign l this.value scale

/-- The real time of it, in microseconds. -/
def real : Built l → Int
  | units n _ u => n * mapToUSeconds u
  | plus this a => this.real + a.real
  | minus this a => this.real - a.real
  | times this scale => this.real * scale

/-- The seconds of every step fit 32 bits, before and behind the carry. -/
def SecondsFit : Built l → Prop
  | units n _ u => Fits32 (n.tdiv (mapToSeconds u))
  | plus this a => this.SecondsFit ∧ a.SecondsFit ∧
      Fits32 (this.value.tv_sec + a.value.tv_sec) ∧
      (this.value.tv_usec + a.value.tv_usec ≥ USEC_PER_SEC →
        Fits32 (this.value.tv_sec + a.value.tv_sec + 1))
  | minus this a => this.SecondsFit ∧ a.SecondsFit ∧
      Fits32 (this.value.tv_sec - a.value.tv_sec)
  | times this scale => this.SecondsFit ∧ Fits32 (this.value.tv_sec * scale) ∧
      Fits32 (this.value.tv_sec * scale + (this.value.tv_usec * scale).tdiv USEC_PER_SEC)

/-- The microseconds of every step fit a `long` before the carry. -/
def MicrosecondsFit : Built l → Prop
  | units _ _ _ => True
  | plus this a => this.MicrosecondsFit ∧ a.MicrosecondsFit ∧
      l.Fits (this.value.tv_usec + a.value.tv_usec)
  | minus this a => this.MicrosecondsFit ∧ a.MicrosecondsFit ∧
      l.Fits (this.value.tv_usec - a.value.tv_usec)
  | times this scale => this.MicrosecondsFit ∧ l.Fits (this.value.tv_usec * scale)

end Built

/-- The six comparisons of `a` and `b` order them as the real times `x` and `y` are ordered. -/
structure ComparesRight (a b : TimeValue) (x y : Int) : Prop where
  equal : a.equal b = true ↔ x = y
  notEqual : a.notEqual b = true ↔ x ≠ y
  lessEqual : a.lessEqual b = true ↔ x ≤ y
  greaterEqual : a.greaterEqual b = true ↔ y ≤ x
  greater : a.greater b = true ↔ y < x
  less : a.less b = true ↔ x < y

/-- Where the seconds differ, the microseconds do not make up for it. -/
def SecondsDecide (a b : TimeValue) : Prop :=
  (a.tv_sec < b.tv_sec → a.tv_usec - b.tv_usec < (b.tv_sec - a.tv_sec) * USEC_PER_SEC) ∧
  (b.tv_sec < a.tv_sec → b.tv_usec - a.tv_usec < (a.tv_sec - b.tv_sec) * USEC_PER_SEC)

instance (a b : TimeValue) : Decidable (SecondsDecide a b) :=
  inferInstanceAs (Decidable ((_ → _) ∧ (_ → _)))

/-! ## 4. The operators -/

open TimeValue (addAssign mulAssign ofUnits subAssign usecs)

/-- Division toward zero: what is left has the sign of `n` and is less than `k`. -/
theorem tdiv_between {k : Int} (hk : 0 < k) (n : Int) :
    (0 ≤ n → 0 ≤ k * n.tdiv k ∧ k * n.tdiv k ≤ n ∧ n - k * n.tdiv k < k) ∧
    (n < 0 → n ≤ k * n.tdiv k ∧ k * n.tdiv k ≤ 0 ∧ -k < n - k * n.tdiv k) := by
  have hsum : k * n.tdiv k + n.tmod k = n := Int.mul_tdiv_add_tmod n k
  constructor
  · intro hn
    have hmod : 0 ≤ n.tmod k := Int.tmod_nonneg k hn
    have hlt : n.tmod k < k := Int.tmod_lt_of_pos n hk
    have hdiv : 0 ≤ k * n.tdiv k := Int.mul_nonneg hk.le (Int.tdiv_nonneg hn hk.le)
    omega
  · intro hn
    have hneg : (-n).tmod k = -n.tmod k := Int.neg_tmod n k
    have hmod : 0 ≤ (-n).tmod k := Int.tmod_nonneg k (by omega)
    have hlt : (-n).tmod k < k := Int.tmod_lt_of_pos (-n) hk
    have hdiv : 0 ≤ k * (-n).tdiv k := Int.mul_nonneg hk.le (Int.tdiv_nonneg (by omega) hk.le)
    rw [Int.neg_tdiv, Int.mul_neg] at hdiv
    omega

variable {l : LongType}

/-- What lies between 0 and a value of the type is one too. -/
theorem LongType.Fits.between {y : Int} (h : l.Fits x) (hpos : 0 ≤ x → 0 ≤ y ∧ y ≤ x)
    (hneg : x < 0 → x ≤ y ∧ y ≤ 0) : l.Fits y := by
  have h1 := h.1
  have h2 := h.2
  rcases lt_or_ge x 0 with hx | hx
  · have := hneg hx
    exact ⟨by omega, by omega⟩
  · have := hpos hx
    exact ⟨by omega, by omega⟩

theorem usecs_ofUnits {n : Int} (hn : l.Fits n) (u : TimeUnits) :
    (ofUnits l n u).usecs = n * mapToUSeconds u := by
  have hpos : 0 < mapToSeconds u := by cases u <;> decide
  obtain ⟨hplus, hminus⟩ := tdiv_between hpos n
  have hwhole : l.Fits (mapToSeconds u * n.tdiv (mapToSeconds u)) :=
    hn.between (fun h => ⟨(hplus h).1, (hplus h).2.1⟩) fun h => ⟨(hminus h).1, (hminus h).2.1⟩
  unfold ofUnits usecs
  dsimp only
  rw [LongType.wrap_eq hwhole]
  generalize n.tdiv (mapToSeconds u) = q at *
  have hdiff : Fits32 (n - mapToSeconds u * q) ∧
      Fits32 ((n - mapToSeconds u * q) * mapToUSeconds u) := by
    unfold Fits32
    rcases lt_or_ge n 0 with h | h
    · have := hminus h
      cases u <;> simp only [mapToSeconds, mapToUSeconds] at * <;> omega
    · have := hplus h
      cases u <;> simp only [mapToSeconds, mapToUSeconds] at * <;> omega
  rw [l.wrap_eq_of_fits32 hdiff.1, l.wrap_eq_of_fits32 hdiff.2]
  cases u <;> simp only [mapToSeconds, mapToUSeconds, USEC_PER_SEC] <;> omega

theorem usecs_addAssign {a b : TimeValue} (hsec : Fits32 (a.tv_sec + b.tv_sec))
    (hcarry : a.tv_usec + b.tv_usec ≥ USEC_PER_SEC → Fits32 (a.tv_sec + b.tv_sec + 1))
    (husec : l.Fits (a.tv_usec + b.tv_usec)) :
    (addAssign l a b).usecs = a.usecs + b.usecs := by
  unfold addAssign
  dsimp only
  rw [LongType.wrap_eq husec, l.wrap_eq_of_fits32 hsec]
  split_ifs with hge
  · have hless : l.Fits (a.tv_usec + b.tv_usec - USEC_PER_SEC) := by
      refine husec.between (fun _ => ?_) fun h => ?_ <;> unfold USEC_PER_SEC at * <;> omega
    rw [l.wrap_eq_of_fits32 (hcarry hge), LongType.wrap_eq hless]
    simp only [usecs]
    ring
  · simp only [usecs]
    ring

theorem usecs_subAssign {a b : TimeValue} (hsec : Fits32 (a.tv_sec - b.tv_sec))
    (husec : l.Fits (a.tv_usec - b.tv_usec)) :
    (subAssign l a b).usecs = a.usecs - b.usecs := by
  unfold subAssign
  dsimp only
  rw [LongType.wrap_eq husec, l.wrap_eq_of_fits32 hsec]
  split_ifs with hborrow
  · obtain ⟨hpos, hneg⟩ := hborrow
    have hless : Fits32 (a.tv_sec - b.tv_sec - 1) := by
      have h1 := hsec.1
      have h2 := hsec.2
      exact ⟨by omega, by omega⟩
    have hmore : l.Fits (a.tv_usec - b.tv_usec + USEC_PER_SEC) := by
      have h1 := husec.1
      have hmodulus : (4294967296 : Int) ≤ l.modulus := by cases l <;> decide
      unfold USEC_PER_SEC
      exact ⟨by omega, by omega⟩
    rw [l.wrap_eq_of_fits32 hless, LongType.wrap_eq hmore]
    simp only [usecs]
    ring
  · simp only [usecs]
    ring

theorem usecs_mulAssign {a : TimeValue} {scale : Int} (hsec : Fits32 (a.tv_sec * scale))
    (hsecs : Fits32 (a.tv_sec * scale + (a.tv_usec * scale).tdiv USEC_PER_SEC))
    (husec : l.Fits (a.tv_usec * scale)) :
    (mulAssign l a scale).usecs = a.usecs * scale := by
  unfold mulAssign
  dsimp only
  rw [LongType.wrap_eq husec, l.wrap_eq_of_fits32 hsec]
  obtain ⟨hplus, hminus⟩ := tdiv_between (show 0 < USEC_PER_SEC by decide) (a.tv_usec * scale)
  have hleft : l.Fits (a.tv_usec * scale - (a.tv_usec * scale).tdiv USEC_PER_SEC * USEC_PER_SEC) :=
    husec.between (fun h => by have := hplus h; rw [Int.mul_comm USEC_PER_SEC] at this; omega)
      fun h => by have := hminus h; rw [Int.mul_comm USEC_PER_SEC] at this; omega
  generalize (a.tv_usec * scale).tdiv USEC_PER_SEC = q at *
  -- the unsigned quotient is congruent to the quotient
  have hsum : l.wrap (a.tv_sec * scale + q % l.modulus) = a.tv_sec * scale + q := by
    rw [LongType.wrap, Int.add_emod_bmod]
    exact l.wrap_eq_of_fits32 hsecs
  have hrest : l.wrap (a.tv_usec * scale - q % l.modulus * USEC_PER_SEC) =
      a.tv_usec * scale - q * USEC_PER_SEC := by
    rw [LongType.wrap, ← Int.sub_bmod_bmod, Int.emod_mul_bmod, Int.sub_bmod_bmod]
    exact LongType.wrap_eq hleft
  rw [hsum, hrest]
  simp only [usecs]
  ring

/-- **Exact values**: whatever a value was built by. -/
theorem usecs_value : ∀ {b : Built l}, b.SecondsFit → b.MicrosecondsFit → b.value.usecs = b.real
  | .units _ hn u, _, _ => usecs_ofUnits hn u
  | .plus this a, hsec, husec => by
      obtain ⟨hthis, ha, hsum, hcarry⟩ := hsec
      obtain ⟨hthis', ha', husum⟩ := husec
      rw [Built.real, ← usecs_value hthis hthis', ← usecs_value ha ha']
      exact usecs_addAssign hsum hcarry husum
  | .minus this a, hsec, husec => by
      obtain ⟨hthis, ha, hdiff⟩ := hsec
      obtain ⟨hthis', ha', hudiff⟩ := husec
      rw [Built.real, ← usecs_value hthis hthis', ← usecs_value ha ha']
      exact usecs_subAssign hdiff hudiff
  | .times this scale, hsec, husec => by
      obtain ⟨hthis, hprod, hsecs⟩ := hsec
      rw [Built.real, ← usecs_value hthis husec.1]
      exact usecs_mulAssign hprod hsecs husec.2

/-! ## 5. The comparisons -/

/-- The comparisons are those of the pairs of seconds and microseconds. -/
theorem compares_lex (a b : TimeValue) :
    (a.equal b = true ↔ a.tv_sec = b.tv_sec ∧ a.tv_usec = b.tv_usec) ∧
    (a.less b = true ↔ a.tv_sec < b.tv_sec ∨ a.tv_sec = b.tv_sec ∧ a.tv_usec < b.tv_usec) ∧
    (a.greater b = true ↔ b.tv_sec < a.tv_sec ∨ a.tv_sec = b.tv_sec ∧ b.tv_usec < a.tv_usec) ∧
    (a.notEqual b = true ↔ ¬ a.equal b = true) ∧
    (a.lessEqual b = true ↔ ¬ a.greater b = true) ∧
    (a.greaterEqual b = true ↔ ¬ a.less b = true) := by
  unfold TimeValue.equal TimeValue.less TimeValue.greater TimeValue.notEqual TimeValue.lessEqual
    TimeValue.greaterEqual TimeValue.timercmp
  by_cases h : a.tv_sec = b.tv_sec <;> simp [h]

theorem comparesRight_iff (a b : TimeValue) :
    ComparesRight a b a.usecs b.usecs ↔ SecondsDecide a b := by
  obtain ⟨hequal, hless, hgreater, hnotEqual, hlessEqual, hgreaterEqual⟩ := compares_lex a b
  unfold SecondsDecide usecs USEC_PER_SEC
  constructor
  · rintro ⟨-, -, -, -, hgt, hlt⟩
    rw [hgreater] at hgt
    rw [hless] at hlt
    exact ⟨fun h => by have := hlt.mp (Or.inl h); omega,
      fun h => by have := hgt.mp (Or.inl h); omega⟩
  · rintro ⟨hup, hdown⟩
    have hequal' : a.equal b = true ↔
        a.tv_sec * 1000000 + a.tv_usec = b.tv_sec * 1000000 + b.tv_usec := by
      rw [hequal]
      omega
    have hless' : a.less b = true ↔
        a.tv_sec * 1000000 + a.tv_usec < b.tv_sec * 1000000 + b.tv_usec := by
      rw [hless]
      omega
    have hgreater' : a.greater b = true ↔
        b.tv_sec * 1000000 + b.tv_usec < a.tv_sec * 1000000 + a.tv_usec := by
      rw [hgreater]
      omega
    exact ⟨hequal', hnotEqual.trans (not_congr hequal'),
      hlessEqual.trans ((not_congr hgreater').trans not_lt),
      hgreaterEqual.trans ((not_congr hless').trans not_lt), hgreater', hless'⟩

/-- 0.2 s less 1.1 s. -/
def difference (l : LongType) : Built l :=
  .minus (.units 200 (Fits32.fits (by decide) l) .MILLISECONDS)
    (.units 1100 (Fits32.fits (by decide) l) .MILLISECONDS)

/-- -0.9 s. -/
def negative (l : LongType) : Built l :=
  .units (-900) (Fits32.fits (by decide) l) .MILLISECONDS

theorem difference_secondsFit : (difference .lp64).SecondsFit :=
  ⟨show Fits32 _ by decide, show Fits32 _ by decide, show Fits32 _ by decide⟩

theorem negative_secondsFit : (negative .lp64).SecondsFit := show Fits32 _ by decide

end OpenCore.OsclBase
