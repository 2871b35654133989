/-
  File:      OpenCore/Pvmf/MediaClock.lean
  Subject:   THE TIME OF `PVMFMediaClock` (pvmf_media_clock.cpp): its states, its two internal
             units, and the time read from it.

  The clock keeps a time and the timebase time at which it was valid, and adds the ticks passed
  since; an adjustment backwards puts that timebase time into the future, so that the clock stands
  until it is reached. All values are 32 bits wide, in the unit of the call that set it last.

  `exactTime` is the time in that unit without the 32 bits. `read_exact` says when the code reads
  it; the lemmas after it say what each step does to it.
-/
import Mathlib

namespace OpenCore.Pvmf

open UInt32 (toNat_div toNat_ofNat')
open UInt32 (div_one toNat_mul)

/-! ## 1. The code -/

/-- `PVMFMediaClock::PVMFMediaClockState`. -/
inductive ClockState where
  | STOPPED
  | RUNNING
  | PAUSED
  deriving DecidableEq

/-- `PVMFMediaClock_TimeUnits`. -/
inductive TimeUnits where
  | USEC
  | MSEC
  | SEC
  | MIN
  | HOUR
  | DAY
  deriving DecidableEq

/-- `PVMFMediaClock_ClockUnit`. -/
inductive ClockUnit where
  | USEC
  | MSEC
  deriving DecidableEq

/-- The time units of a clock unit. -/
def ClockUnit.units : ClockUnit → TimeUnits
  | .USEC => .USEC
  | .MSEC => .MSEC

/-- `PVMFMediaClockAdjustTimeStatus`. -/
inductive AdjustTimeStatus where
  | SUCCESS
  | ERR_INVALID_STATE
  | ERR_INVALID_TIMEBASE_TIME
  | ERR_CORRUPT_CLOCK_TIME
  deriving DecidableEq

/-- What the timebase answers during a call: its period in microseconds, its tick count and the
    overflow flag that comes with the count. -/
structure PVMFTimebase where
  resolution : UInt32
  tick : UInt32
  overflow : Bool

/-- `PVTimeComparisonUtils::IsEarlier`: whether `aTimeA` is earlier, and the difference. -/
def IsEarlier (aTimeA aTimeB : UInt32) : Bool × UInt32 :=
  let delta := aTimeB - aTimeA
  if delta < 0x80000000 then (true, delta) else (false, 0 - delta)

/-- `PVTimeComparisonUtils::IsEarlier(a, b, temp) && (temp != 0)`. -/
def isStrictlyEarlier (aTimeA aTimeB : UInt32) : Bool :=
  (IsEarlier aTimeA aTimeB).1 && (IsEarlier aTimeA aTimeB).2 != 0

/-- `multconst` of `ToClockUnit`. -/
def multconst : ClockUnit → TimeUnits → UInt32
  | .MSEC, .SEC => 1000
  | .MSEC, .MIN => 60000
  | .MSEC, .HOUR => 0x36EE80
  | .MSEC, .DAY => 0x5265C00
  | .MSEC, _ => 1
  | .USEC, .MSEC => 1000
  | .USEC, .SEC => 1000000
  | .USEC, .MIN => 60000000
  | .USEC, .HOUR => 0xD693A400
  | .USEC, .DAY => 0x1DD76000
  | .USEC, .USEC => 1

/-- `divconst` of `FromClockUnit`. -/
def divconst : ClockUnit → TimeUnits → UInt32
  | .MSEC, .SEC => 1000
  | .MSEC, .MIN => 60000
  | .MSEC, .HOUR => 3600000
  | .MSEC, .DAY => 86400000
  | .MSEC, _ => 1
  | .USEC, .MSEC => 1000
  | .USEC, .SEC => 1000000
  | .USEC, .MIN => 60000000
  | .USEC, .HOUR => 0xD693A400
  | .USEC, .DAY => 0x1DD76000
  | .USEC, .USEC => 1

/-- `(uint64)(a * b)` and its lower word: the product is taken in 32 bits before it is widened. -/
def product (a b : UInt32) : UInt32 × Bool :=
  let time64 := (a * b).toUInt64
  (time64.toUInt32, decide (time64 > 0xFFFFFFFF))

/-- `ToClockUnit`: the value in clock units, and the overflow flag. -/
def ToClockUnit (iClockUnit : ClockUnit) (aSrcVal : UInt32) (aSrcUnits : TimeUnits) :
    UInt32 × Bool :=
  match iClockUnit, aSrcUnits with
  | .MSEC, .USEC => (aSrcVal / 1000, false)
  | _, _ => product aSrcVal (multconst iClockUnit aSrcUnits)

def FromClockUnit (iClockUnit : ClockUnit) (aClockUnitVal : UInt32) (aDstUnits : TimeUnits) :
    UInt32 × Bool :=
  match iClockUnit, aDstUnits with
  | .MSEC, .USEC => product aClockUnitVal 1000
  | _, _ => (aClockUnitVal / divconst iClockUnit aDstUnits, false)

def ConvertTickcountToClockUnits (iClockUnit : ClockUnit) (usecPerTick aTickcount : UInt32) :
    UInt32 × Bool :=
  let tbval := if usecPerTick ≠ 0 then aTickcount * (usecPerTick / 1000) else 0
  ToClockUnit iClockUnit tbval .MSEC

/-- The members of `PVMFMediaClock` its time depends on. -/
structure PVMFMediaClock where
  iState : ClockState
  iClockUnit : ClockUnit
  iPreviousClockUnit : ClockUnit
  iStartClockTime : UInt32
  iPauseClockTime : UInt32
  iLatestRunningClockTime : UInt32
  iLatestRunningTimebaseTime : UInt32
  iLastAdjustObsTimebaseTime : UInt32
  iAdjustmentTimebaseTime : UInt32
  iStartTimebaseTickValue : UInt32
  iHighestLatency : UInt32
  deriving DecidableEq

namespace PVMFMediaClock

/-- The constructor. -/
def create : PVMFMediaClock where
  iState := .STOPPED
  iClockUnit := .MSEC
  iPreviousClockUnit := .MSEC
  iStartClockTime := 0
  iPauseClockTime := 0
  iLatestRunningClockTime := 0
  iLatestRunningTimebaseTime := 0
  iLastAdjustObsTimebaseTime := 0
  iAdjustmentTimebaseTime := 0
  iStartTimebaseTickValue := 0
  iHighestLatency := 0

variable (s : PVMFMediaClock) (tb : PVMFTimebase)

/-- `GetScaledTimebaseTickCount`: the ticks since the clock was started. -/
def GetScaledTimebaseTickCount : UInt32 × Bool :=
  ((IsEarlier s.iStartTimebaseTickValue tb.tick).2, tb.overflow)

def GetAdjustedRunningClockTime (usecPerTick aTimebaseVal : UInt32) : UInt32 :=
  let delta := (IsEarlier s.iLatestRunningTimebaseTime aTimebaseVal).2
  if isStrictlyEarlier s.iLatestRunningTimebaseTime aTimebaseVal then
    s.iLatestRunningClockTime + (ConvertTickcountToClockUnits s.iClockUnit usecPerTick delta).1
  else s.iLatestRunningClockTime

/-- The time in clock units that `GetCurrentTime32` converts. -/
def currentTime : UInt32 :=
  match s.iState with
  | .STOPPED => s.iStartClockTime
  | .PAUSED => s.iPauseClockTime
  | .RUNNING => s.GetAdjustedRunningClockTime tb.resolution (s.GetScaledTimebaseTickCount tb).1

/-- `GetCurrentTime32`: the clock time, the overflow flag and the timebase time. -/
def GetCurrentTime32 (aUnits : TimeUnits) : UInt32 × Bool × UInt32 :=
  let scaled := s.GetScaledTimebaseTickCount tb
  let converted := FromClockUnit s.iClockUnit (s.currentTime tb) aUnits
  (converted.1, scaled.2 || converted.2, scaled.1)

def UpdateLatestTimes (aTime aTimebaseVal : UInt32) : PVMFMediaClock :=
  { s with iLatestRunningClockTime := aTime, iLatestRunningTimebaseTime := aTimebaseVal }

/-- `AdjustClockInternalsToNewUnits`: the overflow flag is that of the last value. -/
def AdjustClockInternalsToNewUnits : PVMFMediaClock × Bool :=
  let aSrcUnits := s.iPreviousClockUnit.units
  ({ s with
      iLatestRunningClockTime := (ToClockUnit s.iClockUnit s.iLatestRunningClockTime aSrcUnits).1
      iStartClockTime := (ToClockUnit s.iClockUnit s.iStartClockTime aSrcUnits).1
      iPauseClockTime := (ToClockUnit s.iClockUnit s.iPauseClockTime aSrcUnits).1 },
    (ToClockUnit s.iClockUnit s.iPauseClockTime aSrcUnits).2)

/-- The clock unit for the units of a call: microseconds where they are, else milliseconds. -/
def clockUnitFor (aUnits : TimeUnits) : ClockUnit :=
  if aUnits = .USEC then .USEC else .MSEC

/-- How `SetStartTime32` and `AdjustClockTime32` change the unit. -/
def changeUnit (aUnits : TimeUnits) : PVMFMediaClock × Bool :=
  let s' := { s with iPreviousClockUnit := s.iClockUnit, iClockUnit := clockUnitFor aUnits }
  if s'.iPreviousClockUnit ≠ s'.iClockUnit then s'.AdjustClockInternalsToNewUnits else (s', false)

/-- `SetStartTime32`: the value returned, the overflow flag and the clock. -/
def SetStartTime32 (aTime : UInt32) (aUnits : TimeUnits) : Bool × Bool × PVMFMediaClock :=
  if s.iState ≠ .STOPPED then (false, false, s)
  else
    let (s', aOverFlow) := s.changeUnit aUnits
    let (time, overflowFlag1) := ToClockUnit s'.iClockUnit aTime aUnits
    (true, aOverFlow || overflowFlag1, { s' with iStartClockTime := time })

/-- `Start`. From `STOPPED` the start time is first moved back by the highest latency. -/
def Start : Bool × PVMFMediaClock :=
  match s.iState with
  | .RUNNING => (false, s)
  | .STOPPED =>
    let timeUnits := s.iClockUnit.units
    let s₁ := if s.iHighestLatency ≠ 0 then
        (s.SetStartTime32 ((s.GetCurrentTime32 tb timeUnits).1 - s.iHighestLatency) timeUnits).2.2
      else s
    let s₂ := { s₁ with iStartTimebaseTickValue := tb.tick }
    (true, { s₂.UpdateLatestTimes s₂.iStartClockTime (s₂.GetScaledTimebaseTickCount tb).1 with
              iState := .RUNNING })
  | .PAUSED =>
    (true, { s.UpdateLatestTimes s.iPauseClockTime (s.GetScaledTimebaseTickCount tb).1 with
              iState := .RUNNING })

/-- `Pause`. The time is asked for in milliseconds. -/
def Pause : Bool × PVMFMediaClock :=
  if s.iState ≠ .RUNNING then (false, s)
  else
    let (time, _, tbval) := s.GetCurrentTime32 tb .MSEC
    (true, { s.UpdateLatestTimes time tbval with iPauseClockTime := time, iState := .PAUSED })

def Stop : Bool × PVMFMediaClock :=
  if s.iState = .STOPPED then (false, s)
  else
    (true, { s.UpdateLatestTimes 0 0 with
              iStartClockTime := 0
              iPauseClockTime := 0
              iLastAdjustObsTimebaseTime := 0
              iAdjustmentTimebaseTime := 0
              iStartTimebaseTickValue := 0
              iState := .STOPPED })

/-- `offsettimebase` of `AdjustClock`: the ticks to wait. -/
def offsettimebase (iClockUnit : ClockUnit) (usecPerTick aObsTime aAdjTime : UInt32) : UInt32 :=
  match iClockUnit with
  | .MSEC => (aObsTime - aAdjTime) * 1000 / usecPerTick
  | .USEC => (aObsTime - aAdjTime) / usecPerTick

def AdjustClock
    (usecPerTick aObsTime aObsTimebase aAdjTime aCurrentTime aCurrentTimebase : UInt32) :
    AdjustTimeStatus × PVMFMediaClock :=
  if isStrictlyEarlier aObsTimebase s.iAdjustmentTimebaseTime then (.ERR_INVALID_TIMEBASE_TIME, s)
  else if isStrictlyEarlier aObsTime aAdjTime then
    -- the adjusted time is ahead
    (.SUCCESS, { s.UpdateLatestTimes aAdjTime aObsTimebase with
                  iLastAdjustObsTimebaseTime := aObsTimebase
                  iAdjustmentTimebaseTime := aCurrentTimebase })
  else if isStrictlyEarlier aAdjTime aObsTime then
    -- the adjusted time is behind: the clock stands for the difference
    (.SUCCESS, { s.UpdateLatestTimes aCurrentTime (aCurrentTimebase +
                    offsettimebase s.iClockUnit usecPerTick aObsTime aAdjTime) with
                  iLastAdjustObsTimebaseTime := aObsTimebase
                  iAdjustmentTimebaseTime := aCurrentTimebase })
  else (.SUCCESS, s)

/-- `AdjustClockTime32`: the status, the overflow flag and the clock. -/
def AdjustClockTime32 (aClockTime aTimebaseTime aAdjustedTime : UInt32) (aUnits : TimeUnits) :
    AdjustTimeStatus × Bool × PVMFMediaClock :=
  if s.iState ≠ .RUNNING then (.ERR_INVALID_STATE, false, s)
  else if isStrictlyEarlier aTimebaseTime s.iLastAdjustObsTimebaseTime then
    (.ERR_INVALID_TIMEBASE_TIME, false, s)
  else
    let (s', aOverFlow) := s.changeUnit aUnits
    let (clocktime, overflowFlag1) := ToClockUnit s'.iClockUnit aClockTime aUnits
    let (adjusttime, overflowFlag2) := ToClockUnit s'.iClockUnit aAdjustedTime aUnits
    let (tbval, overflowFlag4) := s'.GetScaledTimebaseTickCount tb
    let (currenttime, overflowFlag3, _) := s'.GetCurrentTime32 tb s'.iClockUnit.units
    let overflow := aOverFlow || overflowFlag1 || overflowFlag2 || overflowFlag3 || overflowFlag4
    if isStrictlyEarlier tbval aTimebaseTime then (.ERR_INVALID_TIMEBASE_TIME, overflow, s')
    else if clocktime > currenttime then (.ERR_CORRUPT_CLOCK_TIME, overflow, s')
    else
      let (status, s'') :=
        s'.AdjustClock tb.resolution clocktime aTimebaseTime adjusttime currenttime tbval
      (status, overflow, s'')

end PVMFMediaClock

/-! ## 2. Differences and units -/

theorem toNat_sub (a b : UInt32) :
    (a - b).toNat = (a.toNat + 4294967296 - b.toNat) % 4294967296 := by
  have ha := a.toNat_lt
  have hb := b.toNat_lt
  rw [UInt32.toNat_sub]
  omega

theorem lt_threshold_iff (d : UInt32) : d < 0x80000000 ↔ d.toNat < 2147483648 :=
  UInt32.lt_iff_toNat_lt

variable {a b : UInt32}

theorem IsEarlier_fst : (IsEarlier a b).1 = decide ((b - a).toNat < 2147483648) := by
  unfold IsEarlier
  dsimp only
  by_cases h : b - a < 0x80000000
  · rw [if_pos h]
    simpa using (lt_threshold_iff _).mp h
  · rw [if_neg h]
    simpa using mt (lt_threshold_iff _).mpr h

/-- The difference of two times in order. -/
theorem IsEarlier_snd (h : (b - a).toNat < 2147483648) :
    (IsEarlier a b).2 = b - a := by
  unfold IsEarlier
  dsimp only
  rw [if_pos ((lt_threshold_iff _).mpr h)]

theorem isStrictlyEarlier_iff :
    isStrictlyEarlier a b = true ↔ 0 < (b - a).toNat ∧ (b - a).toNat < 2147483648 := by
  unfold isStrictlyEarlier
  rw [Bool.and_eq_true, IsEarlier_fst, decide_eq_true_eq, bne_iff_ne]
  constructor
  · rintro ⟨h, h0⟩
    rw [IsEarlier_snd h] at h0
    refine ⟨Nat.pos_of_ne_zero fun hz => h0 ?_, h⟩
    exact UInt32.toNat_inj.mp hz
  · rintro ⟨h0, h⟩
    rw [IsEarlier_snd h]
    refine ⟨h, fun hz => ?_⟩
    rw [hz] at h0
    exact absurd h0 (by decide)

/-- Times less than half the range apart are compared as numbers. -/
theorem isStrictlyEarlier_iff_lt (h : a.toNat < b.toNat + 2147483648)
    (h' : b.toNat < a.toNat + 2147483648) :
    isStrictlyEarlier a b = true ↔ a.toNat < b.toNat := by
  rw [isStrictlyEarlier_iff, toNat_sub]
  omega

theorem product_fst (a b : UInt32) : (product a b).1 = a * b := UInt32.toUInt32_toUInt64 _

/-- A value in the clock's own unit is taken as it is. -/
theorem ToClockUnit_own (u : ClockUnit) (v : UInt32) : (ToClockUnit u v u.units).1 = v := by
  cases u
  all_goals
    show (product v 1).1 = v
    rw [product_fst, UInt32.mul_one]

theorem FromClockUnit_own (u : ClockUnit) (v : UInt32) : (FromClockUnit u v u.units).1 = v := by
  cases u <;> exact div_one

/-- Microseconds in a clock unit. -/
def ClockUnit.usec : ClockUnit → Nat
  | .USEC => 1
  | .MSEC => 1000

theorem ClockUnit.usec_pos (u : ClockUnit) : 0 < u.usec := by
  cases u <;> decide

/-- The period of the timebase is a whole number of milliseconds. -/
structure Millis (usecPerTick : UInt32) : Prop where
  pos : 0 < usecPerTick.toNat
  dvd : 1000 ∣ usecPerTick.toNat

/-- Clock units in a tick. -/
def tickUnits (usecPerTick : UInt32) (u : ClockUnit) : Nat := usecPerTick.toNat / u.usec

theorem Millis.tickUnits_mul {usecPerTick : UInt32} (hm : Millis usecPerTick) (u : ClockUnit) :
    tickUnits usecPerTick u * u.usec = usecPerTick.toNat := by
  obtain ⟨k, hk⟩ := hm.dvd
  unfold tickUnits
  cases u
  · exact (Nat.mul_one _).trans (Nat.div_one _)
  · exact Nat.div_mul_cancel hm.dvd

/-- Ticks are converted exactly where the result fits into 32 bits. -/
theorem ConvertTickcountToClockUnits_toNat {usecPerTick : UInt32} (hm : Millis usecPerTick)
    (u : ClockUnit) {d : UInt32} (h : d.toNat * tickUnits usecPerTick u < 4294967296) :
    (ConvertTickcountToClockUnits u usecPerTick d).1.toNat =
      d.toNat * tickUnits usecPerTick u := by
  have hne : usecPerTick ≠ 0 := by
    rintro rfl
    exact absurd hm.pos (by decide)
  have hdiv : (usecPerTick / 1000).toNat = tickUnits usecPerTick .MSEC := toNat_div _ _
  have hle : d.toNat * tickUnits usecPerTick .MSEC ≤ d.toNat * tickUnits usecPerTick u := by
    refine Nat.mul_le_mul_left _ ?_
    have h1 := hm.tickUnits_mul .MSEC
    have h2 := hm.tickUnits_mul u
    cases u
    · show usecPerTick.toNat / 1000 ≤ usecPerTick.toNat / 1
      omega
    · exact le_rfl
  have htb : (d * (usecPerTick / 1000)).toNat = d.toNat * tickUnits usecPerTick .MSEC := by
    rw [toNat_mul, hdiv]
    exact Nat.mod_eq_of_lt (Nat.lt_of_le_of_lt hle h)
  unfold ConvertTickcountToClockUnits
  dsimp only
  rw [if_pos hne]
  cases u
  · have h1000 : tickUnits usecPerTick .MSEC * 1000 = tickUnits usecPerTick .USEC := by
      have h1 := hm.tickUnits_mul .MSEC
      have h2 := hm.tickUnits_mul .USEC
      exact h1.trans ((Nat.mul_one _).symm.trans h2).symm
    show (product (d * (usecPerTick / 1000)) 1000).1.toNat = _
    rw [product_fst, toNat_mul, htb, ← h1000, ← Nat.mul_assoc]
    refine Nat.mod_eq_of_lt ?_
    rw [← h1000, ← Nat.mul_assoc] at h
    exact h
  · show (product (d * (usecPerTick / 1000)) 1).1.toNat = _
    rw [product_fst, UInt32.mul_one, htb]

/-! ## 3. The time without 32 bits -/

namespace PVMFMediaClock

theorem clockUnitFor_units (u : ClockUnit) : clockUnitFor u.units = u := by
  cases u <;> rfl

/-- The timebase at a tick count. -/
def timebase (usecPerTick : UInt32) (t : Nat) : PVMFTimebase := ⟨usecPerTick, UInt32.ofNat t, false⟩

/-- The scaled tick count at a tick count. -/
def scaled (s : PVMFMediaClock) (t : Nat) : Nat :=
  (IsEarlier s.iStartTimebaseTickValue (UInt32.ofNat t)).2.toNat

/-- The time of a running clock at a scaled tick count. -/
def runningTime (usecPerTick : UInt32) (s : PVMFMediaClock) (x : Nat) : Nat :=
  s.iLatestRunningClockTime.toNat +
    (x - s.iLatestRunningTimebaseTime.toNat) * tickUnits usecPerTick s.iClockUnit

/-- The time of the clock in its unit. -/
def exactTime (usecPerTick : UInt32) (s : PVMFMediaClock) (t : Nat) : Nat :=
  match s.iState with
  | .STOPPED => s.iStartClockTime.toNat
  | .PAUSED => s.iPauseClockTime.toNat
  | .RUNNING => runningTime usecPerTick s (s.scaled t)

/-- The time of the clock in microseconds. -/
def exactUsec (usecPerTick : UInt32) (s : PVMFMediaClock) (t : Nat) : Nat :=
  exactTime usecPerTick s t * s.iClockUnit.usec

/-- The time read from the clock in its unit. -/
def read (usecPerTick : UInt32) (s : PVMFMediaClock) (t : Nat) : UInt32 :=
  (s.GetCurrentTime32 (timebase usecPerTick t) s.iClockUnit.units).1

/-- The time read from the clock in its unit, as a number of microseconds. -/
def readUsec (usecPerTick : UInt32) (s : PVMFMediaClock) (t : Nat) : Nat :=
  (read usecPerTick s t).toNat * s.iClockUnit.usec

theorem read_eq (usecPerTick : UInt32) (s : PVMFMediaClock) (t : Nat) :
    read usecPerTick s t = s.currentTime (timebase usecPerTick t) :=
  FromClockUnit_own _ _

theorem GetCurrentTime32_msec (usecPerTick : UInt32) (s : PVMFMediaClock) (t : Nat) :
    (s.GetCurrentTime32 (timebase usecPerTick t) .MSEC).1.toNat =
      readUsec usecPerTick s t / 1000 := by
  show (FromClockUnit s.iClockUnit (s.currentTime (timebase usecPerTick t)) .MSEC).1.toNat = _
  unfold readUsec
  rw [read_eq]
  cases s.iClockUnit
  · show (s.currentTime (timebase usecPerTick t) / 1000).toNat = _
    rw [toNat_div]
    exact congrArg (· / 1000) (Nat.mul_one _).symm
  · show (s.currentTime (timebase usecPerTick t) / 1).toNat = _
    rw [div_one]
    exact (Nat.mul_div_cancel _ (by decide)).symm

/-- The time of a running clock is read exactly where it fits into 32 bits. -/
theorem GetAdjustedRunningClockTime_toNat {usecPerTick : UInt32} (hm : Millis usecPerTick)
    {s : PVMFMediaClock} {x : UInt32}
    (h1 : s.iLatestRunningTimebaseTime.toNat < x.toNat + 2147483648)
    (h2 : x.toNat < s.iLatestRunningTimebaseTime.toNat + 2147483648)
    (h : runningTime usecPerTick s x.toNat < 4294967296) :
    (s.GetAdjustedRunningClockTime usecPerTick x).toNat = runningTime usecPerTick s x.toNat := by
  unfold GetAdjustedRunningClockTime
  dsimp only
  by_cases hlt : s.iLatestRunningTimebaseTime.toNat < x.toNat
  · rw [if_pos ((isStrictlyEarlier_iff_lt h1 h2).mpr hlt)]
    have hd : (x - s.iLatestRunningTimebaseTime).toNat =
        x.toNat - s.iLatestRunningTimebaseTime.toNat := by
      have := x.toNat_lt
      rw [toNat_sub]
      omega
    rw [IsEarlier_snd (by omega), UInt32.toNat_add]
    unfold runningTime at h ⊢
    rw [ConvertTickcountToClockUnits_toNat hm _ (by rw [hd]; omega), hd]
    exact Nat.mod_eq_of_lt h
  · rw [if_neg (mt (isStrictlyEarlier_iff_lt h1 h2).mp hlt)]
    unfold runningTime
    rw [Nat.sub_eq_zero_of_le (Nat.le_of_not_lt hlt), Nat.zero_mul, Nat.add_zero]

/-- The times of the timebase that the clock keeps. Only an adjustment backwards puts one of them
    into the future, by less than `2^32` microseconds. -/
structure Stands (t₀ now : Nat) (s : PVMFMediaClock) : Prop where
  latency : s.iHighestLatency = 0
  stopped : s.iState = .STOPPED →
    s.iLastAdjustObsTimebaseTime = 0 ∧ s.iAdjustmentTimebaseTime = 0
  started : s.iState ≠ .STOPPED → ∃ S, t₀ ≤ S ∧ S ≤ now ∧
    s.iStartTimebaseTickValue = UInt32.ofNat S ∧
    s.iLatestRunningTimebaseTime.toNat ≤ now - S + 4294967 ∧
    s.iLastAdjustObsTimebaseTime.toNat ≤ now - S ∧ s.iAdjustmentTimebaseTime.toNat ≤ now - S

/-- A running clock has not run over 32 bits. -/
def Fits (usecPerTick : UInt32) (s : PVMFMediaClock) (t : Nat) : Prop :=
  s.iState = .RUNNING → runningTime usecPerTick s (s.scaled t) < 4294967296

theorem scaled_eq {s : PVMFMediaClock} {S t : Nat} (hs : s.iStartTimebaseTickValue = UInt32.ofNat S)
    (h : S ≤ t) (h' : t < S + 2147483648) : s.scaled t = t - S := by
  have hd : (UInt32.ofNat t - UInt32.ofNat S).toNat = t - S := by
    rw [toNat_sub, toNat_ofNat', toNat_ofNat']
    omega
  unfold scaled
  rw [hs, IsEarlier_snd (by omega), hd]

variable {usecPerTick : UInt32} {s : PVMFMediaClock} {t₀ now t : Nat}

theorem Stands.later (h : Stands t₀ now s) (hle : now ≤ t) : Stands t₀ t s := by
  refine ⟨h.latency, h.stopped, fun hne => ?_⟩
  obtain ⟨S, h0, h1, h2, h3, h4, h5⟩ := h.started hne
  exact ⟨S, h0, by omega, h2, by omega, by omega, by omega⟩

/-- **What is read is the exact time**, while it fits into 32 bits. -/
theorem currentTime_toNat (hm : Millis usecPerTick) (h : Stands t₀ t s)
    (ht : t < t₀ + 2147483648) (hf : Fits usecPerTick s t) :
    (s.currentTime (timebase usecPerTick t)).toNat = exactTime usecPerTick s t := by
  unfold currentTime exactTime
  cases hst : s.iState with
  | STOPPED => rfl
  | PAUSED => rfl
  | RUNNING =>
    obtain ⟨S, h0, h1, h2, h3, -, -⟩ := h.started (by rw [hst]; decide)
    have hx := scaled_eq h2 h1 (by omega)
    have hfit := hf hst
    have hle : s.scaled t < 2147483648 := by omega
    refine GetAdjustedRunningClockTime_toNat (x := (s.GetScaledTimebaseTickCount
      (timebase usecPerTick t)).1) hm ?_ ?_ hfit
    · show _ < s.scaled t + 2147483648
      omega
    · show s.scaled t < _
      omega

theorem readUsec_eq (hm : Millis usecPerTick) (h : Stands t₀ t s)
    (ht : t < t₀ + 2147483648) (hf : Fits usecPerTick s t) :
    readUsec usecPerTick s t = exactUsec usecPerTick s t := by
  unfold readUsec exactUsec
  rw [read_eq, currentTime_toNat hm h ht hf]

theorem runningTime_usec (hm : Millis usecPerTick) (s : PVMFMediaClock) (x : Nat) :
    runningTime usecPerTick s x * s.iClockUnit.usec =
      s.iLatestRunningClockTime.toNat * s.iClockUnit.usec +
        (x - s.iLatestRunningTimebaseTime.toNat) * usecPerTick.toNat := by
  unfold runningTime
  rw [Nat.add_mul, Nat.mul_assoc, hm.tickUnits_mul]

theorem runningTime_mono (usecPerTick : UInt32) (s : PVMFMediaClock) {x y : Nat} (h : x ≤ y) :
    runningTime usecPerTick s x ≤ runningTime usecPerTick s y :=
  Nat.add_le_add_left (Nat.mul_le_mul_right _ (Nat.sub_le_sub_right h _)) _

/-- The time does not decrease between two calls. -/
theorem Stands.exactTime_mono (h : Stands t₀ now s) {t' : Nat} (hle : now ≤ t) (hle' : t ≤ t')
    (ht : t' < t₀ + 2147483648) : exactTime usecPerTick s t ≤ exactTime usecPerTick s t' := by
  unfold exactTime
  cases hst : s.iState with
  | STOPPED => exact le_rfl
  | PAUSED => exact le_rfl
  | RUNNING =>
    obtain ⟨S, h0, h1, h2, -⟩ := h.started (by rw [hst]; decide)
    refine runningTime_mono _ _ ?_
    rw [scaled_eq h2 (by omega) (by omega), scaled_eq h2 (by omega) (by omega)]
    omega

theorem Fits.earlier {t' : Nat} (hf : Fits usecPerTick s t') (h : Stands t₀ now s) (hle : now ≤ t)
    (hle' : t ≤ t') (ht : t' < t₀ + 2147483648) : Fits usecPerTick s t := by
  intro hst
  have hmono : exactTime usecPerTick s t ≤ exactTime usecPerTick s t' :=
    h.exactTime_mono hle hle' ht
  unfold exactTime at hmono
  rw [hst] at hmono
  exact Nat.lt_of_le_of_lt hmono (hf hst)

/-! ## 4. A change of the unit -/

/-- A value converted to another unit, in microseconds. -/
theorem ToClockUnit_usec (u u' : ClockUnit) (v : UInt32)
    (h : u' = .USEC → v.toNat * u.usec < 4294967296) :
    (ToClockUnit u' v u.units).1.toNat * u'.usec = v.toNat * u.usec / u'.usec * u'.usec := by
  cases u with
  | USEC =>
    cases u' with
    | USEC =>
      rw [ToClockUnit_own]
      simp [ClockUnit.usec]
    | MSEC =>
      show (v / 1000).toNat * 1000 = v.toNat * 1 / 1000 * 1000
      rw [toNat_div, Nat.mul_one]
      rfl
  | MSEC =>
    cases u' with
    | USEC =>
      show (product v 1000).1.toNat * 1 = v.toNat * 1000 / 1 * 1
      rw [product_fst, toNat_mul, Nat.div_one]
      exact congrArg (· * 1) (Nat.mod_eq_of_lt (h rfl))
    | MSEC =>
      rw [ToClockUnit_own]
      show v.toNat * 1000 = v.toNat * 1000 / 1000 * 1000
      rw [Nat.mul_div_cancel _ (by decide)]

/-- The clock after a change of the unit. -/
theorem changeUnit_eq (s : PVMFMediaClock) (u : ClockUnit) :
    (s.changeUnit u.units).1 =
      { s with
        iPreviousClockUnit := s.iClockUnit
        iClockUnit := u
        iLatestRunningClockTime := (ToClockUnit u s.iLatestRunningClockTime s.iClockUnit.units).1
        iStartClockTime := (ToClockUnit u s.iStartClockTime s.iClockUnit.units).1
        iPauseClockTime := (ToClockUnit u s.iPauseClockTime s.iClockUnit.units).1 } := by
  unfold changeUnit
  dsimp only
  rw [clockUnitFor_units]
  by_cases hu : s.iClockUnit = u
  · rw [if_neg (by simpa using hu)]
    rw [hu, ToClockUnit_own, ToClockUnit_own, ToClockUnit_own]
  · rw [if_pos hu]
    rfl

/-- A running clock keeps its time up to the resolution of the new unit. -/
theorem exactUsec_changeUnit (hm : Millis usecPerTick) (hst : s.iState = .RUNNING) (u : ClockUnit)
    (t : Nat)
    (h : u = .USEC → s.iLatestRunningClockTime.toNat * s.iClockUnit.usec < 4294967296) :
    exactUsec usecPerTick (s.changeUnit u.units).1 t =
      exactUsec usecPerTick s t / u.usec * u.usec := by
  have hlatest := ToClockUnit_usec s.iClockUnit u s.iLatestRunningClockTime h
  have hold := runningTime_usec hm s (s.scaled t)
  have hnew := runningTime_usec hm (s.changeUnit u.units).1 ((s.changeUnit u.units).1.scaled t)
  have hst' : (s.changeUnit u.units).1.iState = .RUNNING := by rw [changeUnit_eq, hst]
  unfold exactUsec exactTime
  rw [hst, hst']
  dsimp only
  rw [hold, hnew]
  rw [changeUnit_eq]
  show _ * u.usec + (s.scaled t - s.iLatestRunningTimebaseTime.toNat) * usecPerTick.toNat = _
  dsimp only
  rw [hlatest]
  obtain ⟨k, hk⟩ := hm.dvd
  generalize s.iLatestRunningClockTime.toNat * s.iClockUnit.usec = v
  have hdvd : u.usec ∣ (s.scaled t - s.iLatestRunningTimebaseTime.toNat) * usecPerTick.toNat := by
    refine Dvd.dvd.mul_left ?_ _
    cases u
    · exact one_dvd _
    · exact hm.dvd
  obtain ⟨d, hd⟩ := hdvd
  rw [hd, Nat.add_mul_div_left _ _ u.usec_pos, Nat.add_mul, Nat.mul_comm d]

/-! ## 5. The adjustment -/

/-- The clock given a time at a timebase time, by an adjustment at the timebase time `x`. -/
def adjusted (s : PVMFMediaClock) (aTime aTimebaseVal aObsTimebase x : UInt32) : PVMFMediaClock :=
  { s.UpdateLatestTimes aTime aTimebaseVal with
    iLastAdjustObsTimebaseTime := aObsTimebase
    iAdjustmentTimebaseTime := x }

/-- The observation `c` at `o` is neither in the future nor older than the last adjustment. -/
def Accepted (s : PVMFMediaClock) (tb : PVMFTimebase) (c o : UInt32) (u : ClockUnit) : Prop :=
  isStrictlyEarlier (s.GetScaledTimebaseTickCount tb).1 o = false ∧
  isStrictlyEarlier o s.iAdjustmentTimebaseTime = false ∧
  c ≤ (s.changeUnit u.units).1.currentTime tb

/-- What `AdjustClockTime32` does with a running clock: nothing; a change of the unit; or, where
    the observation is accepted, one of the two adjustments. -/
theorem AdjustClockTime32_cases (hrun : s.iState = .RUNNING) (tb : PVMFTimebase) (c o a : UInt32)
    (u : ClockUnit) :
    let r := s.AdjustClockTime32 tb c o a u.units
    let s' := (s.changeUnit u.units).1
    let x := (s.GetScaledTimebaseTickCount tb).1
    (r.1 ≠ .SUCCESS ∧ r.2.2 = s) ∨
    (isStrictlyEarlier o s.iLastAdjustObsTimebaseTime = false ∧ (
      (r.2.2 = s' ∧ (r.1 = .SUCCESS → s.Accepted tb c o u ∧ isStrictlyEarlier c a = false ∧
        isStrictlyEarlier a c = false)) ∨
      (s.Accepted tb c o u ∧ r.1 = .SUCCESS ∧
        ((isStrictlyEarlier c a = true ∧ r.2.2 = s'.adjusted a o o x) ∨
          (isStrictlyEarlier c a = false ∧ isStrictlyEarlier a c = true ∧
            r.2.2 = s'.adjusted (s'.currentTime tb)
              (x + offsettimebase u tb.resolution c a) o x))))) := by
  intro r s' x
  have hadj : s'.iAdjustmentTimebaseTime = s.iAdjustmentTimebaseTime := by
    rw [show s' = (s.changeUnit u.units).1 from rfl, changeUnit_eq]
  have hunit : s'.iClockUnit = u := by
    rw [show s' = (s.changeUnit u.units).1 from rfl, changeUnit_eq]
  have hscaled : (s'.GetScaledTimebaseTickCount tb).1 = x := by
    rw [show s' = (s.changeUnit u.units).1 from rfl, changeUnit_eq]
    rfl
  have hcur : (s'.GetCurrentTime32 tb s'.iClockUnit.units).1 = s'.currentTime tb :=
    FromClockUnit_own _ _
  have hr : r = s.AdjustClockTime32 tb c o a u.units := rfl
  unfold AdjustClockTime32 at hr
  rw [if_neg (by rw [hrun]; decide)] at hr
  by_cases h1 : isStrictlyEarlier o s.iLastAdjustObsTimebaseTime = true
  · rw [if_pos h1] at hr
    refine .inl ?_
    rw [hr]
    exact ⟨AdjustTimeStatus.noConfusion, rfl⟩
  rw [if_neg h1] at hr
  dsimp only at hr
  rw [show (s.changeUnit u.units).1 = s' from rfl, hscaled, hcur, hunit, ToClockUnit_own,
    ToClockUnit_own] at hr
  refine .inr ⟨Bool.eq_false_iff.mpr h1, ?_⟩
  by_cases h2 : isStrictlyEarlier x o = true
  · rw [if_pos h2] at hr
    refine .inl ?_
    rw [hr]
    exact ⟨rfl, AdjustTimeStatus.noConfusion⟩
  rw [if_neg h2] at hr
  by_cases h3 : c > s'.currentTime tb
  · rw [if_pos h3] at hr
    refine .inl ?_
    rw [hr]
    exact ⟨rfl, AdjustTimeStatus.noConfusion⟩
  rw [if_neg h3] at hr
  unfold AdjustClock at hr
  by_cases h4 : isStrictlyEarlier o s'.iAdjustmentTimebaseTime = true
  · rw [if_pos h4] at hr
    refine .inl ?_
    rw [hr]
    exact ⟨rfl, AdjustTimeStatus.noConfusion⟩
  rw [if_neg h4] at hr
  rw [hadj] at h4
  have hok : s.Accepted tb c o u :=
    ⟨Bool.eq_false_iff.mpr h2, Bool.eq_false_iff.mpr h4, UInt32.not_lt.mp h3⟩
  by_cases h5 : isStrictlyEarlier c a = true
  · rw [if_pos h5] at hr
    refine .inr ⟨hok, ?_⟩
    rw [hr]
    exact ⟨rfl, .inl ⟨h5, rfl⟩⟩
  rw [if_neg h5] at hr
  by_cases h6 : isStrictlyEarlier a c = true
  · rw [if_pos h6, hunit] at hr
    refine .inr ⟨hok, ?_⟩
    rw [hr]
    exact ⟨rfl, .inr ⟨Bool.eq_false_iff.mpr h5, h6, rfl⟩⟩
  · rw [if_neg h6] at hr
    refine .inl ?_
    rw [hr]
    exact ⟨rfl, fun _ => ⟨hok, Bool.eq_false_iff.mpr h5, Bool.eq_false_iff.mpr h6⟩⟩

/-- The ticks to wait are fewer than `2^32` microseconds have milliseconds. -/
theorem offsettimebase_le (hm : Millis usecPerTick) (u : ClockUnit) (c a : UInt32) :
    (offsettimebase u usecPerTick c a).toNat ≤ 4294967 := by
  have hge : 1000 ≤ usecPerTick.toNat := Nat.le_of_dvd hm.pos hm.dvd
  have hdiv : ∀ v : UInt32, (v / usecPerTick).toNat ≤ 4294967 := fun v => by
    have hv := v.toNat_lt
    rw [toNat_div]
    refine (Nat.div_le_div_left hge (by decide)).trans ?_
    omega
  cases u <;> exact hdiv _

/-- The ticks to wait for a difference that fits into 32 bits. -/
theorem offsettimebase_toNat (hm : Millis usecPerTick) (u : ClockUnit) {c a : UInt32}
    (h : a.toNat ≤ c.toNat) (hfit : (c.toNat - a.toNat) * u.usec < 4294967296) :
    (offsettimebase u usecPerTick c a).toNat = (c.toNat - a.toNat) / tickUnits usecPerTick u := by
  have hsub : (c - a).toNat = c.toNat - a.toNat := by
    have := c.toNat_lt
    rw [toNat_sub]
    omega
  cases u
  · show ((c - a) / usecPerTick).toNat = _
    rw [toNat_div, hsub]
    unfold tickUnits
    rw [show ClockUnit.usec .USEC = 1 from rfl, Nat.div_one]
  · show ((c - a) * 1000 / usecPerTick).toNat = _
    have hmul : ((c - a) * 1000).toNat = (c.toNat - a.toNat) * 1000 := by
      rw [toNat_mul, hsub]
      exact Nat.mod_eq_of_lt hfit
    rw [toNat_div, hmul, ← hm.tickUnits_mul .MSEC]
    exact Nat.mul_div_mul_right _ _ (by decide)

end PVMFMediaClock

end OpenCore.Pvmf
