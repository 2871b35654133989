/-
  File:      OpenCore/Pvmf/MediaClockRun.lean
  Subject:   RUNS OF `PVMFMediaClock`: the calls that start, stop and adjust it, in any order, each
             at a tick count of the timebase.

  `Fine` is the condition on a call. It leaves out what the code does not survive: `Pause` asks for
  the time in milliseconds and keeps it as a time in clock units; a pause forgets that the clock is
  standing; conversions and differences are taken in 32 bits; an observation the clock never showed
  is taken as one.

  **Main result** `runs_keep_time`: what the time does in a run of fine calls.
-/
import OpenCore.Pvmf.MediaClock

namespace OpenCore.Pvmf

variable {e : Event} {es mid : List Event}

namespace PVMFMediaClock

/-! ## 1. Calls -/

/-- The calls, with times in milliseconds or microseconds. -/
inductive Call where
  | SetStartTime32 (aTime : UInt32) (aUnits : ClockUnit)
  | Start
  | Pause
  | Stop
  | AdjustClockTime32 (aClockTime aTimebaseTime aAdjustedTime : UInt32) (aUnits : ClockUnit)
  deriving DecidableEq

/-- A call at a tick count. -/
structure Event where
  call : Call
  tick : Nat
  deriving DecidableEq

/-- The status an adjustment returns. -/
def status (usecPerTick : UInt32) (s : PVMFMediaClock) (t : Nat) (c o a : UInt32) (u : ClockUnit) :
    AdjustTimeStatus :=
  (s.AdjustClockTime32 (timebase usecPerTick t) c o a u.units).1

def step (usecPerTick : UInt32) (s : PVMFMediaClock) (e : Event) : PVMFMediaClock :=
  match e.call with
  | .SetStartTime32 aTime aUnits => (s.SetStartTime32 aTime aUnits.units).2.2
  | .Start => (s.Start (timebase usecPerTick e.tick)).2
  | .Pause => (s.Pause (timebase usecPerTick e.tick)).2
  | .Stop => s.Stop.2
  | .AdjustClockTime32 c o a u =>
    (s.AdjustClockTime32 (timebase usecPerTick e.tick) c o a u.units).2.2

def run (usecPerTick : UInt32) (s : PVMFMediaClock) (es : List Event) : PVMFMediaClock :=
  es.foldl (step usecPerTick) s

/-! ## 2. The condition on a call -/

/-- An accepted adjustment from the observation `c` at `o` to `a`. -/
structure FineAdjustment (usecPerTick : UInt32) (s : PVMFMediaClock) (t : Nat) (c o a : UInt32)
    (u : ClockUnit) : Prop where
  /-- The observation is not `2^31` ticks ahead. -/
  past : c ≠ a → o.toNat ≤ s.scaled t
  /-- Forwards: the clock showed no more than `c` at `o`, and does not run over 32 bits. -/
  ahead : c.toNat < a.toNat → a.toNat - c.toNat < 2147483648 →
    runningTime usecPerTick (s.changeUnit u.units).1 o.toNat ≤ c.toNat ∧
    a.toNat + (s.scaled t - o.toNat) * tickUnits usecPerTick u < 4294967296
  /-- Backwards: the clock was going at `o` and showed `c`, and goes back by whole ticks, by less
      than `2^31` units and `2^32` microseconds. -/
  behind : a.toNat < c.toNat →
    c.toNat - a.toNat < 2147483648 ∧ (c.toNat - a.toNat) * u.usec < 4294967296 ∧
    s.iLatestRunningTimebaseTime.toNat ≤ o.toNat ∧
    c.toNat = runningTime usecPerTick (s.changeUnit u.units).1 o.toNat ∧
    tickUnits usecPerTick u ∣ c.toNat - a.toNat

/-- The condition on a call, in the state before it. -/
def Fine (usecPerTick : UInt32) (s : PVMFMediaClock) (e : Event) : Prop :=
  Fits usecPerTick s e.tick ∧ (s.iState = .RUNNING →
    match e.call with
    | .Pause =>
      (s.iClockUnit = .MSEC ∨ exactTime usecPerTick s e.tick = 0) ∧
        s.iLatestRunningTimebaseTime.toNat ≤ s.scaled e.tick
    | .AdjustClockTime32 c o a u =>
      isStrictlyEarlier o s.iLastAdjustObsTimebaseTime = false →
        (u = .USEC → exactUsec usecPerTick s e.tick < 4294967296) ∧
        (s.Accepted (timebase usecPerTick e.tick) c o u →
          FineAdjustment usecPerTick s e.tick c o a u)
    | _ => True)

/-- Every call of a run is fine. -/
def FineRun (usecPerTick : UInt32) : PVMFMediaClock → List Event → Prop
  | _, [] => True
  | s, e :: es => Fine usecPerTick s e ∧ FineRun usecPerTick (step usecPerTick s e) es

/-! ## 3. What each call does -/

variable {usecPerTick : UInt32} {s : PVMFMediaClock} {t₀ t : Nat}

theorem Stands.create (t₀ : Nat) : Stands t₀ t₀ create :=
  ⟨rfl, fun _ => ⟨rfl, rfl⟩, fun h => absurd rfl h⟩

theorem scaled_self (s : PVMFMediaClock) (t : Nat)
    (h : s.iStartTimebaseTickValue = UInt32.ofNat t) :
    s.scaled t = 0 := by
  rw [scaled_eq h le_rfl (by omega), Nat.sub_self]

/-- `SetStartTime32` while the clock is stopped. -/
theorem SetStartTime32_stands (h : Stands t₀ t s) (aTime : UInt32) (u : ClockUnit) :
    Stands t₀ t (s.SetStartTime32 aTime u.units).2.2 := by
  unfold SetStartTime32
  by_cases hst : s.iState = .STOPPED
  · rw [if_neg (by simpa using hst)]
    have hst' : (s.changeUnit u.units).1.iState = .STOPPED := by rw [changeUnit_eq, hst]
    refine ⟨?_, fun _ => ?_, fun hne => absurd hst' hne⟩
    · show (s.changeUnit u.units).1.iHighestLatency = 0
      rw [changeUnit_eq]
      exact h.latency
    · show (s.changeUnit u.units).1.iLastAdjustObsTimebaseTime = 0 ∧
        (s.changeUnit u.units).1.iAdjustmentTimebaseTime = 0
      rw [changeUnit_eq]
      exact h.stopped hst
  · rw [if_pos hst]
    exact h

theorem SetStartTime32_idle (hst : s.iState ≠ .STOPPED) (aTime : UInt32) (u : ClockUnit) :
    (s.SetStartTime32 aTime u.units).2.2 = s := by
  unfold SetStartTime32
  rw [if_pos hst]

theorem Stop_stands (h : Stands t₀ t s) : Stands t₀ t s.Stop.2 := by
  unfold Stop
  by_cases hst : s.iState = .STOPPED
  · rw [if_pos hst]
    exact h
  · rw [if_neg hst]
    exact ⟨h.latency, fun _ => ⟨rfl, rfl⟩, fun hne => absurd rfl hne⟩

theorem Start_idle (hst : s.iState = .RUNNING) (tb : PVMFTimebase) : (s.Start tb).2 = s := by
  unfold Start
  rw [hst]

/-- A stopped clock is started at its start time. -/
theorem Start_stopped (h : Stands t₀ t s) (h0 : t₀ ≤ t) (hst : s.iState = .STOPPED) :
    Stands t₀ t (s.Start (timebase usecPerTick t)).2 ∧
      (s.Start (timebase usecPerTick t)).2.iState = .RUNNING ∧
      (s.Start (timebase usecPerTick t)).2.iClockUnit = s.iClockUnit ∧
      exactUsec usecPerTick (s.Start (timebase usecPerTick t)).2 t = exactUsec usecPerTick s t ∧
      Fits usecPerTick (s.Start (timebase usecPerTick t)).2 t := by
  obtain ⟨hobs, hadj⟩ := h.stopped hst
  have hs' : (s.Start (timebase usecPerTick t)).2 =
      { s with
        iStartTimebaseTickValue := UInt32.ofNat t
        iLatestRunningClockTime := s.iStartClockTime
        iLatestRunningTimebaseTime := 0
        iState := .RUNNING } := by
    unfold Start
    rw [hst]
    dsimp only
    rw [if_neg (by simpa using h.latency)]
    have hzero : (IsEarlier (UInt32.ofNat t) (UInt32.ofNat t)).2 = 0 := by
      rw [IsEarlier_snd (by rw [UInt32.sub_self]; decide), UInt32.sub_self]
    unfold UpdateLatestTimes GetScaledTimebaseTickCount timebase
    dsimp only
    rw [hzero]
  rw [hs']
  have hx := scaled_self { s with
    iStartTimebaseTickValue := UInt32.ofNat t
    iLatestRunningClockTime := s.iStartClockTime
    iLatestRunningTimebaseTime := 0
    iState := .RUNNING } t rfl
  refine ⟨⟨h.latency, nofun, fun _ => ⟨t, h0, le_rfl, rfl, ?_, ?_,
    ?_⟩⟩, rfl, rfl, ?_, fun _ => ?_⟩
  · exact Nat.zero_le _
  · show s.iLastAdjustObsTimebaseTime.toNat ≤ _
    rw [hobs]
    exact Nat.zero_le _
  · show s.iAdjustmentTimebaseTime.toNat ≤ _
    rw [hadj]
    exact Nat.zero_le _
  · unfold exactUsec exactTime
    rw [hst]
    dsimp only
    unfold runningTime
    rw [hx, Nat.zero_sub, Nat.zero_mul, Nat.add_zero]
  · unfold runningTime
    rw [hx, Nat.zero_sub, Nat.zero_mul, Nat.add_zero]
    exact s.iStartClockTime.toNat_lt

/-- A paused clock goes on from its pause time. -/
theorem Start_paused (h : Stands t₀ t s) (ht : t < t₀ + 2147483648) (hst : s.iState = .PAUSED) :
    let s' := (s.Start (timebase usecPerTick t)).2
    Stands t₀ t s' ∧ s'.iState = .RUNNING ∧ s'.iClockUnit = s.iClockUnit ∧
      s'.iLatestRunningClockTime = s.iPauseClockTime ∧
      s'.iLatestRunningTimebaseTime.toNat = s'.scaled t := by
  have hs' : (s.Start (timebase usecPerTick t)).2 =
      { s.UpdateLatestTimes s.iPauseClockTime
          (s.GetScaledTimebaseTickCount (timebase usecPerTick t)).1 with iState := .RUNNING } := by
    unfold Start
    rw [hst]
  obtain ⟨S, h0, h1, h2, -, h4, h5⟩ := h.started (by rw [hst]; decide)
  have hx : (s.GetScaledTimebaseTickCount (timebase usecPerTick t)).1.toNat = t - S :=
    scaled_eq h2 h1 (by omega)
  rw [hs']
  refine ⟨⟨h.latency, nofun, fun _ => ⟨S, h0, h1, h2, ?_, h4, h5⟩⟩,
    rfl, rfl, rfl, rfl⟩
  show (s.GetScaledTimebaseTickCount (timebase usecPerTick t)).1.toNat ≤ _
  omega

theorem Pause_idle (hst : s.iState ≠ .RUNNING) (tb : PVMFTimebase) : (s.Pause tb).2 = s := by
  unfold Pause
  rw [if_pos hst]

/-- A running clock is paused at the time it shows, where its unit is milliseconds. -/
theorem Pause_running (hm : Millis usecPerTick) (h : Stands t₀ t s) (ht : t < t₀ + 2147483648)
    (hst : s.iState = .RUNNING) (hf : Fits usecPerTick s t)
    (hunit : s.iClockUnit = .MSEC ∨ exactTime usecPerTick s t = 0) :
    let s' := (s.Pause (timebase usecPerTick t)).2
    Stands t₀ t s' ∧ s'.iState = .PAUSED ∧ s'.iClockUnit = s.iClockUnit ∧
      ∀ t', exactUsec usecPerTick s' t' = exactUsec usecPerTick s t := by
  have hs' : (s.Pause (timebase usecPerTick t)).2 =
      { s.UpdateLatestTimes (s.GetCurrentTime32 (timebase usecPerTick t) .MSEC).1
          (s.GetScaledTimebaseTickCount (timebase usecPerTick t)).1 with
        iPauseClockTime := (s.GetCurrentTime32 (timebase usecPerTick t) .MSEC).1
        iState := .PAUSED } := by
    unfold Pause
    rw [if_neg (by simpa using hst)]
    rfl
  obtain ⟨S, h0, h1, h2, -, h4, h5⟩ := h.started (by rw [hst]; decide)
  have hx : (s.GetScaledTimebaseTickCount (timebase usecPerTick t)).1.toNat = t - S :=
    scaled_eq h2 h1 (by omega)
  have hcur := currentTime_toNat hm h ht hf
  have htime : (s.GetCurrentTime32 (timebase usecPerTick t) .MSEC).1.toNat =
      exactTime usecPerTick s t := by
    rw [GetCurrentTime32_msec, readUsec, read_eq, hcur]
    rcases hunit with hu | hz
    · rw [hu]
      exact Nat.mul_div_cancel _ (by decide)
    · rw [hz, Nat.zero_mul]
  rw [hs']
  refine ⟨⟨h.latency, nofun, fun _ => ⟨S, h0, h1, h2, ?_, h4, h5⟩⟩,
    rfl, rfl, fun t' => ?_⟩
  · show (s.GetScaledTimebaseTickCount (timebase usecPerTick t)).1.toNat ≤ _
    omega
  · exact congrArg (· * s.iClockUnit.usec) htime

/-! ## 4. What an adjustment does -/

/-- A changed unit leaves everything else that an adjustment looks at. -/
theorem changeUnit_stands (h : Stands t₀ t s) (u : ClockUnit) :
    Stands t₀ t (s.changeUnit u.units).1 := by
  rw [changeUnit_eq]
  exact ⟨h.latency, h.stopped, h.started⟩

theorem changeUnit_state (s : PVMFMediaClock) (u : ClockUnit) :
    (s.changeUnit u.units).1.iState = s.iState := by
  rw [changeUnit_eq]

theorem changeUnit_unit (s : PVMFMediaClock) (u : ClockUnit) :
    (s.changeUnit u.units).1.iClockUnit = u := by
  rw [changeUnit_eq]

theorem changeUnit_scaled (s : PVMFMediaClock) (u : ClockUnit) (t : Nat) :
    (s.changeUnit u.units).1.scaled t = s.scaled t := by
  rw [changeUnit_eq]
  rfl

theorem changeUnit_latest (s : PVMFMediaClock) (u : ClockUnit) :
    (s.changeUnit u.units).1.iLatestRunningTimebaseTime = s.iLatestRunningTimebaseTime := by
  rw [changeUnit_eq]

/-- The time a running clock was last given is not above the time it shows. -/
theorem latest_le (hst : s.iState = .RUNNING) (usecPerTick : UInt32) (t : Nat) :
    s.iLatestRunningClockTime.toNat * s.iClockUnit.usec ≤ exactUsec usecPerTick s t := by
  unfold exactUsec exactTime
  rw [hst]
  exact Nat.mul_le_mul_right _ (Nat.le_add_right _ _)

/-- A clock with a changed unit still fits. -/
theorem changeUnit_fits (hm : Millis usecPerTick) (hst : s.iState = .RUNNING)
    (hf : Fits usecPerTick s t) {u : ClockUnit}
    (hu : u = .USEC → exactUsec usecPerTick s t < 4294967296) :
    Fits usecPerTick (s.changeUnit u.units).1 t := by
  intro hst'
  have h := exactUsec_changeUnit hm hst u t fun he => (latest_le hst usecPerTick t).trans_lt (hu he)
  have hle : exactUsec usecPerTick s t / u.usec * u.usec ≤ exactUsec usecPerTick s t :=
    Nat.div_mul_le_self _ _
  have hold := hf hst
  have hunit : s.iClockUnit.usec ≤ 1000 := by cases s.iClockUnit <;> decide
  have hmul := Nat.mul_le_mul_left (runningTime usecPerTick s (s.scaled t)) hunit
  have hnew : exactUsec usecPerTick (s.changeUnit u.units).1 t =
      runningTime usecPerTick (s.changeUnit u.units).1 ((s.changeUnit u.units).1.scaled t) *
        u.usec := by
    unfold exactUsec exactTime
    rw [hst', changeUnit_unit]
  have hbefore : exactUsec usecPerTick s t =
      runningTime usecPerTick s (s.scaled t) * s.iClockUnit.usec := by
    unfold exactUsec exactTime
    rw [hst]
  cases u with
  | USEC =>
    have hlt := hu rfl
    have h1 : ClockUnit.USEC.usec = 1 := rfl
    rw [h1] at h hnew
    omega
  | MSEC =>
    have h1 : ClockUnit.MSEC.usec = 1000 := rfl
    rw [h1] at h hnew
    omega

/-- The clock given a time at a time of the timebase. -/
theorem adjusted_spec (h : Stands t₀ t s) (ht : t < t₀ + 2147483648) (hst : s.iState = .RUNNING)
    {time tb o x : UInt32} (hx : x.toNat = s.scaled t) (ho : o.toNat ≤ s.scaled t)
    (htb : tb.toNat ≤ s.scaled t + 4294967)
    (hfit : time.toNat + (s.scaled t - tb.toNat) * tickUnits usecPerTick s.iClockUnit
      < 4294967296) :
    Stands t₀ t (s.adjusted time tb o x) ∧ Fits usecPerTick (s.adjusted time tb o x) t ∧
      exactUsec usecPerTick (s.adjusted time tb o x) t =
        (time.toNat + (s.scaled t - tb.toNat) * tickUnits usecPerTick s.iClockUnit) *
          s.iClockUnit.usec := by
  obtain ⟨S, h0, h1, h2, -⟩ := h.started (by rw [hst]; decide)
  have hsc : s.scaled t = t - S := scaled_eq h2 h1 (by omega)
  refine ⟨⟨h.latency, fun he => ?_, fun _ => ⟨S, h0, h1, h2, ?_, ?_, ?_⟩⟩, fun _ => hfit, ?_⟩
  · exact ClockState.noConfusion (hst.symm.trans he)
  · show tb.toNat ≤ _
    omega
  · show o.toNat ≤ _
    omega
  · show x.toNat ≤ _
    omega
  · unfold exactUsec exactTime
    rw [show (s.adjusted time tb o x).iState = .RUNNING from hst]
    rfl

/-- The clock goes at most with the ticks. -/
theorem runningTime_le (usecPerTick : UInt32) (s : PVMFMediaClock) {x y : Nat} (h : x ≤ y) :
    runningTime usecPerTick s y ≤
      runningTime usecPerTick s x + (y - x) * tickUnits usecPerTick s.iClockUnit := by
  unfold runningTime
  rw [Nat.add_assoc, ← Nat.add_mul]
  exact Nat.add_le_add_left (Nat.mul_le_mul_right _ (by omega)) _

/-- A clock that does not stand goes with the ticks. -/
theorem runningTime_going (usecPerTick : UInt32) {s : PVMFMediaClock} {x y : Nat} (h : x ≤ y)
    (hgo : s.iLatestRunningTimebaseTime.toNat ≤ x) :
    runningTime usecPerTick s y =
      runningTime usecPerTick s x + (y - x) * tickUnits usecPerTick s.iClockUnit := by
  unfold runningTime
  rw [Nat.add_assoc, ← Nat.add_mul]
  congr 2
  omega

/-- **An adjustment of a running clock.** It does nothing but change the unit; or goes forward, and
    the clock not back; or stands the clock for the ticks it goes back. -/
theorem AdjustClockTime32_spec (hm : Millis usecPerTick) (h : Stands t₀ t s)
    (ht : t < t₀ + 2147483648) (hst : s.iState = .RUNNING) {c o a : UInt32} {u : ClockUnit}
    (hfine : Fine usecPerTick s ⟨.AdjustClockTime32 c o a u, t⟩) :
    let s₁ := step usecPerTick s ⟨.AdjustClockTime32 c o a u, t⟩
    let s' := (s.changeUnit u.units).1
    s₁.iState = .RUNNING ∧ Stands t₀ t s₁ ∧ Fits usecPerTick s₁ t ∧
    ((s₁ = s ∧ status usecPerTick s t c o a u ≠ .SUCCESS) ∨
      ((u = .USEC → exactUsec usecPerTick s t < 4294967296) ∧ s₁.iClockUnit = u ∧
        ((s₁ = s' ∧ (status usecPerTick s t c o a u = .SUCCESS → c.toNat ≤ a.toNat)) ∨
        (status usecPerTick s t c o a u = .SUCCESS ∧ c.toNat < a.toNat ∧
          exactUsec usecPerTick s' t ≤ exactUsec usecPerTick s₁ t) ∨
        (status usecPerTick s t c o a u = .SUCCESS ∧ a.toNat < c.toNat ∧ o.toNat ≤ s.scaled t ∧
          exactTime usecPerTick s' t = c.toNat + (s.scaled t - o.toNat) * tickUnits usecPerTick u ∧
          s₁.iLatestRunningClockTime.toNat = exactTime usecPerTick s' t ∧
          (∀ t', s₁.scaled t' = s.scaled t') ∧
          ∃ off, s₁.iLatestRunningTimebaseTime.toNat = s.scaled t + off ∧
            off * tickUnits usecPerTick u = c.toNat - a.toNat)))) := by
  intro s₁ s'
  have hfits' : s₁ = s' → (u = .USEC → exactUsec usecPerTick s t < 4294967296) →
      Fits usecPerTick s₁ t := fun he hu => he ▸ changeUnit_fits hm hst hfine.1 hu
  have hs₁ : s₁ = (s.AdjustClockTime32 (timebase usecPerTick t) c o a u.units).2.2 := rfl
  have hfine' : isStrictlyEarlier o s.iLastAdjustObsTimebaseTime = false →
      s.Accepted (timebase usecPerTick t) c o u → FineAdjustment usecPerTick s t c o a u :=
    fun hold => (hfine.2 hst hold).2
  rcases AdjustClockTime32_cases hst (timebase usecPerTick t) c o a u with ⟨hne, he⟩ |
    ⟨hold, ⟨he, hsucc⟩ | ⟨hacc, hok, hmove⟩⟩
  · -- the observation is older than that of the last adjustment
    rw [← hs₁] at he
    rw [he]
    exact ⟨hst, h, hfine.1, .inl ⟨rfl, hne⟩⟩
  · -- the call leaves, or there is nothing to adjust
    rw [← hs₁] at he
    obtain ⟨hu, -⟩ := hfine.2 hst hold
    refine ⟨?_, ?_, hfits' he hu, .inr ⟨hu, ?_, .inl ⟨he, fun hs => ?_⟩⟩⟩
    · rw [he]
      exact (changeUnit_state s u).trans hst
    · rw [he]
      exact changeUnit_stands h u
    · rw [he]
      exact changeUnit_unit s u
    · obtain ⟨hacc, -, hback⟩ := hsucc hs
      by_contra hlt
      obtain ⟨h31, -⟩ := (hfine' hold hacc).behind (Nat.lt_of_not_le hlt)
      have := (isStrictlyEarlier_iff_lt (by omega) (by omega)).mpr (Nat.lt_of_not_le hlt)
      rw [hback] at this
      exact Bool.noConfusion this
  · obtain ⟨hu, -⟩ := hfine.2 hst hold
    have hadj := hfine' hold hacc
    obtain ⟨S, h0, h1, h2, h3, -, -⟩ := h.started (by rw [hst]; decide)
    have hsc : s.scaled t = t - S := scaled_eq h2 h1 (by omega)
    have hx : (s.GetScaledTimebaseTickCount (timebase usecPerTick t)).1.toNat = s.scaled t := rfl
    have hcur : (s'.currentTime (timebase usecPerTick t)).toNat = exactTime usecPerTick s' t :=
      currentTime_toNat hm (changeUnit_stands h u) ht (changeUnit_fits hm hst hfine.1 hu)
    have hexact : exactTime usecPerTick s' t = runningTime usecPerTick s' (s.scaled t) := by
      unfold exactTime
      rw [changeUnit_state, hst, changeUnit_scaled]
    have hfit : exactTime usecPerTick s' t < 4294967296 := by
      rw [hexact, ← changeUnit_scaled s u t]
      exact changeUnit_fits hm hst hfine.1 hu ((changeUnit_state s u).trans hst)
    have hne : c ≠ a := by
      rintro rfl
      rcases hmove with ⟨hca, -⟩ | ⟨-, hca, -⟩ <;>
        exact absurd (isStrictlyEarlier_iff.mp hca).1 (by rw [UInt32.sub_self]; decide)
    have hpast := hadj.past hne
    have hst' : s'.iState = .RUNNING := (changeUnit_state s u).trans hst
    have hunit : s'.iClockUnit = u := changeUnit_unit s u
    have hgiven : ∀ time tb : UInt32, tb.toNat ≤ s.scaled t + 4294967 →
        time.toNat + (s.scaled t - tb.toNat) * tickUnits usecPerTick u < 4294967296 →
        ∀ s₂, s₂ = s'.adjusted time tb o
          (s.GetScaledTimebaseTickCount (timebase usecPerTick t)).1 →
        Stands t₀ t s₂ ∧ Fits usecPerTick s₂ t ∧ exactUsec usecPerTick s₂ t =
          (time.toNat + (s.scaled t - tb.toNat) * tickUnits usecPerTick u) * u.usec := by
      rintro time tb htb hfit s₂ rfl
      have hspec := @adjusted_spec usecPerTick s' t₀ t (changeUnit_stands h u) ht hst' time tb o
        (s.GetScaledTimebaseTickCount (timebase usecPerTick t)).1
      rw [hunit, changeUnit_scaled] at hspec
      exact hspec hx hpast htb hfit
    have husec : exactUsec usecPerTick s' t = exactTime usecPerTick s' t * u.usec := by
      unfold exactUsec
      rw [hunit]
    rcases hmove with ⟨hca, he⟩ | ⟨-, hac, he⟩
    · -- forward
      obtain ⟨hpos, h31⟩ := isStrictlyEarlier_iff.mp hca
      rw [toNat_sub] at hpos h31
      have hca' : c.toNat < a.toNat := by
        by_contra hge
        have hlt := a.toNat_lt
        rcases Nat.lt_or_eq_of_le (Nat.le_of_not_lt hge) with hac | hac
        · obtain ⟨h31', -⟩ := hadj.behind hac
          omega
        · exact hne (UInt32.toNat_inj.mp hac.symm)
      have hlt := a.toNat_lt
      obtain ⟨hshown, hfit⟩ := hadj.ahead hca' (by omega)
      obtain ⟨hst₁, hfits, husec₁⟩ := hgiven a o (by omega) hfit s₁ he
      have hle := runningTime_le usecPerTick s' hpast
      rw [hunit, ← hexact] at hle
      refine ⟨?_, hst₁, hfits, .inr ⟨hu, ?_, .inr (.inl ⟨hok, hca', ?_⟩)⟩⟩
      · exact (congrArg iState he).trans hst'
      · exact (congrArg iClockUnit he).trans hunit
      · rw [husec₁, husec]
        exact Nat.mul_le_mul_right _ (hle.trans (Nat.add_le_add_right (hshown.trans hca'.le) _))
    · -- backward, or forward by half the range
      have hoff := offsettimebase_le hm u c a
      have htb : ((s.GetScaledTimebaseTickCount (timebase usecPerTick t)).1 +
          offsettimebase u usecPerTick c a).toNat =
          s.scaled t + (offsettimebase u usecPerTick c a).toNat := by
        rw [UInt32.toNat_add, hx]
        exact Nat.mod_eq_of_lt (by omega)
      have hzero : s.scaled t - (s.scaled t + (offsettimebase u usecPerTick c a).toNat) = 0 := by
        omega
      obtain ⟨hst₁, hfits, husec₁⟩ := hgiven (s'.currentTime (timebase usecPerTick t))
        ((s.GetScaledTimebaseTickCount (timebase usecPerTick t)).1 +
          offsettimebase u usecPerTick c a) (by rw [htb]; omega)
        (by rw [htb, hzero, Nat.zero_mul, hcur]; exact hfit) s₁ he
      rw [htb, hzero, Nat.zero_mul, Nat.add_zero, hcur] at husec₁
      refine ⟨(congrArg iState he).trans hst', hst₁, hfits, .inr ⟨hu,
        (congrArg iClockUnit he).trans hunit, .inr ?_⟩⟩
      rcases Nat.lt_or_ge c.toNat a.toNat with hca | hca
      · exact .inl ⟨hok, hca, (husec.trans husec₁.symm).le⟩
      · have hac' : a.toNat < c.toNat :=
          Nat.lt_of_le_of_ne hca fun he => hne (UInt32.toNat_inj.mp he.symm)
        obtain ⟨-, h32, hgo, hshown, hdvd⟩ := hadj.behind hac'
        refine .inr ⟨hok, hac', hpast, ?_, ?_, fun t' => ?_,
          (offsettimebase u usecPerTick c a).toNat, ?_, ?_⟩
        · have hrun := runningTime_going usecPerTick hpast
            ((congrArg UInt32.toNat (changeUnit_latest s u)).trans_le hgo)
          rw [hunit, ← hexact, ← hshown] at hrun
          exact hrun
        · exact (congrArg (UInt32.toNat ∘ iLatestRunningClockTime) he).trans hcur
        · exact (congrArg (scaled · t') he).trans (changeUnit_scaled s u t')
        · exact (congrArg (UInt32.toNat ∘ iLatestRunningTimebaseTime) he).trans htb
        · rw [offsettimebase_toNat hm u hac'.le h32]
          exact Nat.div_mul_cancel hdvd

/-! ## 5. One call -/

theorem AdjustClockTime32_idle (hst : s.iState ≠ .RUNNING) (tb : PVMFTimebase) (c o a : UInt32)
    (u : ClockUnit) : (s.AdjustClockTime32 tb c o a u.units).2.2 = s := by
  unfold AdjustClockTime32
  rw [if_pos hst]

theorem fits_of_not_running (h : s.iState ≠ .RUNNING) (t : Nat) : Fits usecPerTick s t :=
  fun hst => absurd hst h

/-- **A step keeps the times of the timebase in order**, and the clock in 32 bits. -/
theorem step_stands (hm : Millis usecPerTick) (h : Stands t₀ e.tick s)
    (h0 : t₀ ≤ e.tick) (ht : e.tick < t₀ + 2147483648) (hfine : Fine usecPerTick s e) :
    Stands t₀ e.tick (step usecPerTick s e) ∧ Fits usecPerTick (step usecPerTick s e) e.tick := by
  obtain ⟨call, t⟩ := e
  cases call with
  | SetStartTime32 aTime u =>
    refine ⟨SetStartTime32_stands h aTime u, ?_⟩
    by_cases hst : s.iState = .STOPPED
    · refine fits_of_not_running ?_ t
      have hst' : (s.SetStartTime32 aTime u.units).2.2.iState = .STOPPED := by
        unfold SetStartTime32
        rw [if_neg (by simpa using hst)]
        exact (changeUnit_state s u).trans hst
      exact fun hr => ClockState.noConfusion (hst'.symm.trans hr)
    · show Fits usecPerTick (s.SetStartTime32 aTime u.units).2.2 t
      rw [SetStartTime32_idle hst]
      exact hfine.1
  | Start =>
    cases hst : s.iState with
    | STOPPED =>
      obtain ⟨h1, -, -, -, h2⟩ := Start_stopped h h0 hst
      exact ⟨h1, h2⟩
    | RUNNING =>
      show Stands t₀ t (s.Start _).2 ∧ Fits usecPerTick (s.Start _).2 t
      rw [Start_idle hst]
      exact ⟨h, hfine.1⟩
    | PAUSED =>
      obtain ⟨h1, -, -, h3, h4⟩ := @Start_paused usecPerTick s t₀ t h ht hst
      refine ⟨h1, fun _ => ?_⟩
      show runningTime usecPerTick (s.Start (timebase usecPerTick t)).2 _ < _
      unfold runningTime
      rw [h4, h3, step, Nat.sub_self, Nat.zero_mul, Nat.add_zero]
      exact s.iPauseClockTime.toNat_lt
  | Pause =>
    by_cases hst : s.iState = .RUNNING
    · obtain ⟨h1, h2, -⟩ := Pause_running hm h ht hst hfine.1 (hfine.2 hst).1
      exact ⟨h1, fits_of_not_running (fun hr => ClockState.noConfusion (h2.symm.trans hr)) t⟩
    · show Stands t₀ t (s.Pause _).2 ∧ Fits usecPerTick (s.Pause _).2 t
      rw [Pause_idle hst]
      exact ⟨h, hfine.1⟩
  | Stop =>
    refine ⟨Stop_stands h, ?_⟩
    show Fits usecPerTick s.Stop.2 t
    unfold Stop
    by_cases hst : s.iState = .STOPPED
    · rw [if_pos hst]
      exact hfine.1
    · rw [if_neg hst]
      exact fits_of_not_running ClockState.noConfusion t
  | AdjustClockTime32 c o a u =>
    by_cases hst : s.iState = .RUNNING
    · obtain ⟨-, h1, h2, -⟩ := AdjustClockTime32_spec hm h ht hst hfine
      exact ⟨h1, h2⟩
    · show Stands t₀ t (s.AdjustClockTime32 _ c o a u.units).2.2 ∧
        Fits usecPerTick (s.AdjustClockTime32 _ c o a u.units).2.2 t
      rw [AdjustClockTime32_idle hst]
      exact ⟨h, hfine.1⟩

/-- Rounding to a unit does not show in a coarser one. -/
theorem round_div {u r : Nat} (hu : 0 < u) (h : u ∣ r) (v : Nat) : v / u * u / r = v / r := by
  obtain ⟨k, rfl⟩ := h
  rw [← Nat.div_div_eq_div_mul, ← Nat.div_div_eq_div_mul, Nat.mul_div_cancel _ hu]

/-- A clock with a changed unit shows the same in every unit that is no finer. -/
theorem changeUnit_div (hm : Millis usecPerTick) (hst : s.iState = .RUNNING) {u r : ClockUnit}
    (hu : u = .USEC → exactUsec usecPerTick s t < 4294967296) (hr : u.usec ∣ r.usec) :
    exactUsec usecPerTick (s.changeUnit u.units).1 t / r.usec =
      exactUsec usecPerTick s t / r.usec := by
  rw [exactUsec_changeUnit hm hst u t fun he => (latest_le hst usecPerTick t).trans_lt (hu he)]
  exact round_div u.usec_pos hr _

/-- The time the standing clock shows. -/
theorem exactUsec_standing (hst : s.iState = .RUNNING) {off : Nat}
    (h : s.iLatestRunningTimebaseTime.toNat = s.scaled t + off) :
    exactUsec usecPerTick s t = s.iLatestRunningClockTime.toNat * s.iClockUnit.usec := by
  have hzero : s.scaled t - (s.scaled t + off) = 0 := by omega
  unfold exactUsec exactTime
  rw [hst]
  dsimp only
  unfold runningTime
  rw [h, hzero, Nat.zero_mul, Nat.add_zero]

/-- The calls come in order, from the tick count `t` on and up to `t'`. -/
def InOrder : Nat → List Event → Nat → Prop
  | t, [], t' => t ≤ t'
  | t, e :: es, t' => t ≤ e.tick ∧ InOrder e.tick es t'

theorem InOrder.le {t' : Nat} (h : InOrder t es t') : t ≤ t' := by
  induction es generalizing t with
  | nil => exact h
  | cons e es ih => exact h.1.trans (ih h.2)

theorem FineRun.append {es' : List Event} (h : FineRun usecPerTick s (es ++ es')) :
    FineRun usecPerTick s es ∧ FineRun usecPerTick (run usecPerTick s es) es' := by
  induction es generalizing s with
  | nil => exact ⟨trivial, h⟩
  | cons e es ih => exact ⟨⟨h.1, (ih h.2).1⟩, (ih h.2).2⟩

/-- The times of the timebase stay in order over a run. -/
theorem run_stands (hm : Millis usecPerTick) {now : Nat} (h : Stands t₀ now s)
    (h0 : t₀ ≤ now) (hes : InOrder now es t) (ht : t < t₀ + 2147483648)
    (hfine : FineRun usecPerTick s es) : Stands t₀ t (run usecPerTick s es) := by
  induction es generalizing s now with
  | nil => exact h.later hes
  | cons e es ih =>
    have hle := hes.2.le
    exact ih (step_stands hm (h.later hes.1) (h0.trans hes.1) (by omega) hfine.1).1
      (h0.trans hes.1) hes.2 hfine.2

/-! ## 6. The four properties of a run -/

/-- The calls that leave the time as it is: all but an adjustment forward. -/
def Call.keepsTime : Call → Prop
  | .Start => True
  | .Pause => True
  | .AdjustClockTime32 c _ a _ => a ≤ c
  | _ => False

/-- The time is the same before and after `Start`, `Pause` and an adjustment backwards, up to the
    resolution of the unit the clock is kept in afterwards. -/
def KeepsTime (usecPerTick : UInt32) (t₀ : Nat) (es : List Event) : Prop :=
  ∀ pre e post, es = pre ++ e :: post → InOrder t₀ pre e.tick → e.tick < t₀ + 2147483648 →
    e.call.keepsTime →
    let s := run usecPerTick create pre
    let s' := step usecPerTick s e
    readUsec usecPerTick s' e.tick / s'.iClockUnit.usec =
      readUsec usecPerTick s e.tick / s'.iClockUnit.usec

/-- The time does not decrease while the clock runs, up to the resolution of the units it is kept
    in meanwhile. -/
def NeverBack (usecPerTick : UInt32) (t₀ : Nat) (es : List Event) : Prop :=
  ∀ pre mid post t t', es = pre ++ mid ++ post → InOrder t₀ pre t → InOrder t mid t' →
    t' < t₀ + 2147483648 → Fits usecPerTick (run usecPerTick create (pre ++ mid)) t' →
    (∀ m, m <+: mid → (run usecPerTick create (pre ++ m)).iState = .RUNNING) →
    ∀ r : ClockUnit,
      (∀ m, m <+: mid → (run usecPerTick create (pre ++ m)).iClockUnit.usec ∣ r.usec) →
      readUsec usecPerTick (run usecPerTick create pre) t / r.usec ≤
        readUsec usecPerTick (run usecPerTick create (pre ++ mid)) t' / r.usec

/-- The time does not change while the clock is paused. -/
def StandsPaused (usecPerTick : UInt32) (t₀ : Nat) (es : List Event) : Prop :=
  ∀ pre mid post t t', es = pre ++ mid ++ post → InOrder t₀ pre t → InOrder t mid t' →
    t' < t₀ + 2147483648 →
    (∀ m, m <+: mid → (run usecPerTick create (pre ++ m)).iState = .PAUSED) →
    readUsec usecPerTick (run usecPerTick create (pre ++ mid)) t' =
      readUsec usecPerTick (run usecPerTick create pre) t

/-- A call that neither stops the clock nor adjusts it. -/
def Leaves (usecPerTick : UInt32) (s : PVMFMediaClock) (e : Event) : Prop :=
  match e.call with
  | .Stop => False
  | .AdjustClockTime32 c o a u => status usecPerTick s e.tick c o a u = .SUCCESS → c = a
  | _ => True

/-- The ticks during which the clock runs. -/
def ranTicks (usecPerTick : UInt32) (s : PVMFMediaClock) (t : Nat) : List Event → Nat → Nat
  | [], t' => if s.iState = .RUNNING then t' - t else 0
  | e :: es, t' => (if s.iState = .RUNNING then e.tick - t else 0) +
      ranTicks usecPerTick (step usecPerTick s e) e.tick es t'

/-- After an adjustment backwards the clock stands until the adjusted time and the ticks since the
    observed timebase time have reached it, and then shows these. -/
def Absorbs (usecPerTick : UInt32) (t₀ : Nat) (es : List Event) : Prop :=
  ∀ pre c o a u t mid post t', es = pre ++ ⟨.AdjustClockTime32 c o a u, t⟩ :: mid ++ post →
    InOrder t₀ pre t → InOrder t mid t' → t' < t₀ + 2147483648 →
    let s := run usecPerTick create pre
    let s₁ := step usecPerTick s ⟨.AdjustClockTime32 c o a u, t⟩
    s.iState = .RUNNING → status usecPerTick s t c o a u = .SUCCESS → a < c →
    (∀ m e, m ++ [e] <+: mid → Leaves usecPerTick (run usecPerTick s₁ m) e) →
    Fits usecPerTick (run usecPerTick s₁ mid) t' →
    ∀ r : ClockUnit, (∀ m, m <+: mid → (run usecPerTick s₁ m).iClockUnit.usec ∣ r.usec) →
      readUsec usecPerTick (run usecPerTick s₁ mid) t' / r.usec =
        max (readUsec usecPerTick s₁ t)
          (a.toNat * u.usec +
            (s.scaled t - o.toNat + ranTicks usecPerTick s₁ t mid t') * usecPerTick.toNat) / r.usec

/-! ## 7. While the clock runs, and while it is paused -/

/-- A call after which the clock still runs does not set it back. -/
theorem step_forward (hm : Millis usecPerTick) (h : Stands t₀ e.tick s)
    (ht : e.tick < t₀ + 2147483648) (hfine : Fine usecPerTick s e) (hst : s.iState = .RUNNING)
    (hst' : (step usecPerTick s e).iState = .RUNNING) {r : ClockUnit}
    (hr : (step usecPerTick s e).iClockUnit.usec ∣ r.usec) :
    exactUsec usecPerTick s e.tick / r.usec ≤
      exactUsec usecPerTick (step usecPerTick s e) e.tick / r.usec := by
  obtain ⟨call, t⟩ := e
  cases call with
  | SetStartTime32 aTime u =>
    show _ ≤ exactUsec usecPerTick (s.SetStartTime32 aTime u.units).2.2 t / r.usec
    rw [SetStartTime32_idle (by rw [hst]; decide)]
  | Start =>
    show _ ≤ exactUsec usecPerTick (s.Start _).2 t / r.usec
    rw [Start_idle hst]
  | Pause =>
    obtain ⟨-, hpaused, -⟩ := Pause_running hm h ht hst hfine.1 (hfine.2 hst).1
    exact ClockState.noConfusion (hpaused.symm.trans hst')
  | Stop =>
    have hstop : s.Stop.2.iState = .STOPPED := by
      unfold Stop
      rw [if_neg (by rw [hst]; decide)]
    exact ClockState.noConfusion (hstop.symm.trans hst')
  | AdjustClockTime32 c o a u =>
    obtain ⟨-, -, -, ⟨he, -⟩ | ⟨hu, hunit, hcase⟩⟩ := AdjustClockTime32_spec hm h ht hst hfine
    · rw [he]
    · rw [hunit] at hr
      rw [← changeUnit_div hm hst hu hr]
      rcases hcase with ⟨he, -⟩ | ⟨-, -, hle⟩ | ⟨-, -, -, -, hlatest, hscaled, off, htb, -⟩
      · rw [he]
      · exact Nat.div_le_div_right hle
      · rw [exactUsec_standing hst' (by rw [htb, hscaled]), hlatest, hunit]
        unfold exactUsec
        rw [changeUnit_unit]

theorem run_forward (hm : Millis usecPerTick) {r : ClockUnit} {t' now : Nat}
    (h : Stands t₀ now s) (h0 : t₀ ≤ now) (hnow : now ≤ t) (hmid : InOrder t mid t')
    (ht : t' < t₀ + 2147483648) (hfine : FineRun usecPerTick s mid)
    (hrun : ∀ m, m <+: mid → (run usecPerTick s m).iState = .RUNNING)
    (hr : ∀ m, m <+: mid → (run usecPerTick s m).iClockUnit.usec ∣ r.usec) :
    exactUsec usecPerTick s t / r.usec ≤
      exactUsec usecPerTick (run usecPerTick s mid) t' / r.usec := by
  induction mid generalizing s t now with
  | nil =>
    exact Nat.div_le_div_right (Nat.mul_le_mul_right _ (h.exactTime_mono hnow hmid ht))
  | cons e mid ih =>
    have hle := hmid.2.le
    have hs := h.later (hnow.trans hmid.1)
    have h0' : t₀ ≤ e.tick := h0.trans (hnow.trans hmid.1)
    have hnext := step_stands hm hs h0' (by omega) hfine.1
    have hpass : exactUsec usecPerTick s t / r.usec ≤ exactUsec usecPerTick s e.tick / r.usec :=
      Nat.div_le_div_right (Nat.mul_le_mul_right _
        (h.exactTime_mono hnow hmid.1 (by omega)))
    have hstep := step_forward hm hs (by omega) hfine.1 (hrun [] (List.nil_prefix))
      (hrun [e] (by simp)) (hr [e] (by simp))
    exact hpass.trans (hstep.trans (ih hnext.1 h0' le_rfl hmid.2 hfine.2
      (fun m hm => hrun (e :: m) (by simpa using hm))
      (fun m hm => hr (e :: m) (by simpa using hm))))

/-- A call after which the clock is still paused changes nothing. -/
theorem step_paused (hst : s.iState = .PAUSED)
    (hst' : (step usecPerTick s e).iState = .PAUSED) : step usecPerTick s e = s := by
  have hne : s.iState ≠ .RUNNING := by rw [hst]; decide
  obtain ⟨call, t⟩ := e
  cases call with
  | SetStartTime32 aTime u => exact SetStartTime32_idle (by rw [hst]; decide) aTime u
  | Start =>
    have hrun : (s.Start (timebase usecPerTick t)).2.iState = .RUNNING := by
      unfold Start
      rw [hst]
    exact ClockState.noConfusion (hrun.symm.trans hst')
  | Pause => exact Pause_idle hne _
  | Stop =>
    have hstop : s.Stop.2.iState = .STOPPED := by
      unfold Stop
      rw [if_neg (by rw [hst]; decide)]
    exact ClockState.noConfusion (hstop.symm.trans hst')
  | AdjustClockTime32 c o a u => exact AdjustClockTime32_idle hne _ c o a u

theorem run_paused
    (hrun : ∀ m, m <+: mid → (run usecPerTick s m).iState = .PAUSED) :
    run usecPerTick s mid = s := by
  induction mid with
  | nil => rfl
  | cons e mid ih =>
    have hstep : step usecPerTick s e = s :=
      step_paused (hrun [] List.nil_prefix) (hrun [e] (by simp))
    have hcons : ∀ m, run usecPerTick s (e :: m) = run usecPerTick s m := fun m => by
      show run usecPerTick (step usecPerTick s e) m = _
      rw [hstep]
    rw [hcons]
    refine ih fun m hm => ?_
    rw [← hcons]
    exact hrun (e :: m) (by simpa using hm)

/-! ## 8. After an adjustment backwards -/

/-- The clock was set to stand at `A` for `off` ticks and has run for `n` ticks since; `r` is the
    unit its time is shown in. While it stands, the timebase time it waits for lies `off - n` ticks
    ahead; afterwards, `q` ticks had passed when it was last resumed. -/
def Following (usecPerTick : UInt32) (r : ClockUnit) (A off n : Nat) (s : PVMFMediaClock)
    (t : Nat) : Prop :=
  (s.iState = .RUNNING ∧ ∃ q,
    s.iLatestRunningClockTime.toNat * s.iClockUnit.usec / r.usec =
      (A + q * usecPerTick.toNat) / r.usec ∧
    (q = 0 ∧ s.iLatestRunningTimebaseTime.toNat + n = off + s.scaled t ∨
      off ≤ n ∧ s.iLatestRunningTimebaseTime.toNat ≤ s.scaled t ∧
        q + (s.scaled t - s.iLatestRunningTimebaseTime.toNat) = n - off)) ∨
  (s.iState = .PAUSED ∧ off ≤ n ∧
    exactUsec usecPerTick s t / r.usec = (A + (n - off) * usecPerTick.toNat) / r.usec)

/-- Ticks are whole numbers of every unit. -/
theorem usec_add_div (hm : Millis usecPerTick) (r : ClockUnit) (v k : Nat) :
    (v + k * usecPerTick.toNat) / r.usec = v / r.usec + k * tickUnits usecPerTick r := by
  rw [← hm.tickUnits_mul r, ← Nat.mul_assoc]
  exact Nat.add_mul_div_right _ _ r.usec_pos

variable {r : ClockUnit} {A off n : Nat}

theorem Following.shows (hm : Millis usecPerTick) (h : Following usecPerTick r A off n s t) :
    exactUsec usecPerTick s t / r.usec = (A + (n - off) * usecPerTick.toNat) / r.usec := by
  rcases h with ⟨hst, q, hq, hwait⟩ | ⟨-, -, h⟩
  · have hrun : exactUsec usecPerTick s t =
        runningTime usecPerTick s (s.scaled t) * s.iClockUnit.usec := by
      unfold exactUsec exactTime
      rw [hst]
    rw [hrun, runningTime_usec hm, usec_add_div hm, hq, usec_add_div hm, usec_add_div hm,
      Nat.add_assoc, ← Nat.add_mul]
    congr 2
    omega
  · exact h

theorem Following.pass {now : Nat} (h : Following usecPerTick r A off n s now)
    (hs : Stands t₀ now s) (hle : now ≤ t) (ht : t < t₀ + 2147483648) :
    Following usecPerTick r A off (n + if s.iState = .RUNNING then t - now else 0) s t := by
  rcases h with ⟨hst, q, hq, hwait⟩ | ⟨hst, hn, h⟩
  · obtain ⟨S, h0, h1, h2, -⟩ := hs.started (by rw [hst]; decide)
    have hsc := scaled_eq h2 h1 (by omega)
    have hsc' := scaled_eq h2 (h1.trans hle) (by omega)
    rw [if_pos hst]
    refine .inl ⟨hst, q, hq, ?_⟩
    omega
  · rw [if_neg (by rw [hst]; decide)]
    refine .inr ⟨hst, hn, ?_⟩
    have hsame : exactUsec usecPerTick s t = exactUsec usecPerTick s now := by
      unfold exactUsec exactTime
      rw [hst]
    rw [hsame]
    exact h

/-- A call that neither stops nor adjusts the clock. -/
theorem Following.step (hm : Millis usecPerTick) {e : Event}
    (h : Following usecPerTick r A off n s e.tick) (hs : Stands t₀ e.tick s)
    (ht : e.tick < t₀ + 2147483648) (hfine : Fine usecPerTick s e) (hl : Leaves usecPerTick s e)
    (hr : (step usecPerTick s e).iClockUnit.usec ∣ r.usec) :
    Following usecPerTick r A off n (step usecPerTick s e) e.tick := by
  obtain ⟨call, t⟩ := e
  have hstarted : s.iState ≠ .STOPPED := by
    rcases h with ⟨hst, -⟩ | ⟨hst, -⟩ <;> rw [hst] <;> decide
  cases call with
  | SetStartTime32 aTime u =>
    show Following usecPerTick r A off n (s.SetStartTime32 aTime u.units).2.2 t
    rw [SetStartTime32_idle hstarted]
    exact h
  | Stop => exact absurd hl id
  | Start =>
    rcases h with h | ⟨hst, hn, h⟩
    · show Following usecPerTick r A off n (s.Start _).2 t
      rw [Start_idle h.1]
      exact .inl h
    · obtain ⟨-, hrun, hunit, hlatest, htb⟩ := @Start_paused usecPerTick s t₀ t hs ht hst
      refine .inl ⟨hrun, n - off, ?_, .inr ⟨hn, htb.le, ?_⟩⟩
      · rw [← h]
        show (s.Start _).2.iLatestRunningClockTime.toNat * (s.Start _).2.iClockUnit.usec / _ = _
        rw [hlatest, hunit]
        unfold exactUsec exactTime
        rw [hst]
      · show n - off + ((s.Start (timebase usecPerTick t)).2.scaled t -
          (s.Start (timebase usecPerTick t)).2.iLatestRunningTimebaseTime.toNat) = _
        rw [htb, Nat.sub_self, Nat.add_zero]
  | Pause =>
    by_cases hst : s.iState = .RUNNING
    · obtain ⟨hunit, hgo⟩ := hfine.2 hst
      obtain ⟨-, hpaused, -, htime⟩ := Pause_running hm hs ht hst hfine.1 hunit
      have hshows := h.shows hm
      refine .inr ⟨hpaused, ?_, ?_⟩
      · rcases h with ⟨-, q, -, ⟨-, hwait⟩ | ⟨hn, -⟩⟩ | ⟨-, hn, -⟩
        · have : s.iLatestRunningTimebaseTime.toNat ≤ s.scaled t := hgo
          have : s.iLatestRunningTimebaseTime.toNat + n = off + s.scaled t := hwait
          omega
        · exact hn
        · exact hn
      · rw [← hshows]
        exact congrArg (· / r.usec) (htime t)
    · show Following usecPerTick r A off n (s.Pause _).2 t
      rw [Pause_idle hst]
      exact h
  | AdjustClockTime32 c o a u =>
    by_cases hst : s.iState = .RUNNING
    · obtain ⟨hrun, -, -, ⟨he, -⟩ | ⟨hu, hunit, hcase⟩⟩ := AdjustClockTime32_spec hm hs ht hst hfine
      · rw [he]
        exact h
      · rcases hcase with ⟨he, -⟩ | ⟨hok, hlt, -⟩ | ⟨hok, hlt, -⟩
        · rcases h with ⟨-, q, hq, hwait⟩ | ⟨hst', -⟩
          · rw [hunit] at hr
            rw [he]
            refine .inl ⟨(changeUnit_state s u).trans hst, q, ?_, ?_⟩
            · have hlatest := ToClockUnit_usec s.iClockUnit u s.iLatestRunningClockTime
                fun hu' => (latest_le hst usecPerTick t).trans_lt (hu hu')
              rw [← hq, ← round_div u.usec_pos hr (s.iLatestRunningClockTime.toNat * _), ← hlatest,
                changeUnit_eq]
            · show _ = 0 ∧ (s.changeUnit u.units).1.iLatestRunningTimebaseTime.toNat + n =
                off + (s.changeUnit u.units).1.scaled t ∨ off ≤ n ∧
                (s.changeUnit u.units).1.iLatestRunningTimebaseTime.toNat ≤
                  (s.changeUnit u.units).1.scaled t ∧
                q + ((s.changeUnit u.units).1.scaled t -
                  (s.changeUnit u.units).1.iLatestRunningTimebaseTime.toNat) = n - off
              rw [changeUnit_latest, changeUnit_scaled]
              exact hwait
          · exact ClockState.noConfusion (hst.symm.trans hst')
        · exact absurd (congrArg UInt32.toNat (hl hok)) (Nat.ne_of_lt hlt)
        · exact absurd (congrArg UInt32.toNat (hl hok)) (Nat.ne_of_gt hlt)
    · show Following usecPerTick r A off n (s.AdjustClockTime32 _ c o a u.units).2.2 t
      rw [AdjustClockTime32_idle hst]
      exact h

theorem Following.run (hm : Millis usecPerTick) {t' : Nat}
    (h : Following usecPerTick r A off n s t) (hs : Stands t₀ t s) (h0 : t₀ ≤ t)
    (hmid : InOrder t mid t') (ht : t' < t₀ + 2147483648) (hfine : FineRun usecPerTick s mid)
    (hl : ∀ m e, m ++ [e] <+: mid → Leaves usecPerTick (run usecPerTick s m) e)
    (hr : ∀ m, m <+: mid → (PVMFMediaClock.run usecPerTick s m).iClockUnit.usec ∣ r.usec) :
    Following usecPerTick r A off (n + ranTicks usecPerTick s t mid t')
      (PVMFMediaClock.run usecPerTick s mid) t' := by
  induction mid generalizing s t n with
  | nil => exact h.pass hs hmid ht
  | cons e mid ih =>
    have hle := hmid.2.le
    have hse := hs.later hmid.1
    have h0' : t₀ ≤ e.tick := h0.trans hmid.1
    have hstep := (h.pass hs hmid.1 (by omega)).step hm hse (by omega) hfine.1
      (hl [] e (by simp)) (hr [e] (by simp))
    have hrest := ih hstep (step_stands hm hse h0' (by omega) hfine.1).1 h0' hmid.2 hfine.2
      (fun m e' hme => hl (e :: m) e' (by simpa using hme))
      (fun m hm => hr (e :: m) (by simpa using hm))
    rw [Nat.add_assoc] at hrest
    exact hrest

/-! ## 9. Runs of fine calls -/

theorem run_append (usecPerTick : UInt32) (s : PVMFMediaClock) (es es' : List Event) :
    run usecPerTick s (es ++ es') = run usecPerTick (run usecPerTick s es) es' :=
  List.foldl_append

theorem step_keepsTime (hm : Millis usecPerTick) (h : Stands t₀ e.tick s)
    (h0 : t₀ ≤ e.tick) (ht : e.tick < t₀ + 2147483648) (hfine : Fine usecPerTick s e)
    (hk : e.call.keepsTime) :
    exactUsec usecPerTick (step usecPerTick s e) e.tick /
        (step usecPerTick s e).iClockUnit.usec =
      exactUsec usecPerTick s e.tick / (step usecPerTick s e).iClockUnit.usec := by
  obtain ⟨call, t⟩ := e
  cases call with
  | SetStartTime32 aTime u => exact absurd hk id
  | Stop => exact absurd hk id
  | Start =>
    show exactUsec usecPerTick (s.Start (timebase usecPerTick t)).2 t / _ = _
    cases hst : s.iState with
    | STOPPED =>
      obtain ⟨-, -, -, htime, -⟩ := @Start_stopped usecPerTick s t₀ t h h0 hst
      rw [htime]
    | RUNNING =>
      have hidle : step usecPerTick s ⟨.Start, t⟩ = s := Start_idle hst _
      rw [Start_idle hst, hidle]
    | PAUSED =>
      obtain ⟨-, hrun, hunit, hlatest, htb⟩ := @Start_paused usecPerTick s t₀ t h ht hst
      rw [@exactUsec_standing usecPerTick _ t hrun 0 htb, hlatest, hunit]
      unfold exactUsec exactTime
      rw [hst]
  | Pause =>
    by_cases hst : s.iState = .RUNNING
    · obtain ⟨-, -, -, htime⟩ := Pause_running hm h ht hst hfine.1 (hfine.2 hst).1
      exact congrArg (· / _) (htime t)
    · have hidle : step usecPerTick s ⟨.Pause, t⟩ = s := Pause_idle hst _
      rw [hidle]
  | AdjustClockTime32 c o a u =>
    by_cases hst : s.iState = .RUNNING
    · obtain ⟨hrun, -, -, ⟨he, -⟩ | ⟨hu, hunit, hcase⟩⟩ := AdjustClockTime32_spec hm h ht hst hfine
      · rw [he]
      · rw [hunit, ← changeUnit_div hm hst hu dvd_rfl]
        rcases hcase with ⟨he, -⟩ | ⟨-, hlt, -⟩ | ⟨-, -, -, -, hlatest, hscaled, off, htb, -⟩
        · rw [he]
        · exact absurd (UInt32.le_iff_toNat_le.mp hk) (Nat.not_le_of_lt hlt)
        · rw [exactUsec_standing hrun (by rw [htb, hscaled]), hlatest, hunit]
          unfold exactUsec
          rw [changeUnit_unit]
    · have hidle : step usecPerTick s ⟨.AdjustClockTime32 c o a u, t⟩ = s :=
        AdjustClockTime32_idle hst _ c o a u
      rw [hidle]

/-- **The clock over a run.** Where every call is fine, the time is kept by the calls that should
    keep it, does not decrease while the clock runs, stands while it is paused, and is the adjusted
    time and the ticks passed once an adjustment backwards is absorbed. -/
theorem runs_keep_time (hm : Millis usecPerTick) (t₀ : Nat) {es : List Event}
    (hfine : FineRun usecPerTick create es) :
    KeepsTime usecPerTick t₀ es ∧ NeverBack usecPerTick t₀ es ∧ StandsPaused usecPerTick t₀ es ∧
      Absorbs usecPerTick t₀ es := by
  -- what holds after the calls in front
  have hpre : ∀ {pre post : List Event} {t : Nat}, es = pre ++ post → InOrder t₀ pre t →
      t < t₀ + 2147483648 → Stands t₀ t (run usecPerTick create pre) ∧
        FineRun usecPerTick (run usecPerTick create pre) post := by
    rintro pre post t rfl hin ht
    obtain ⟨h1, h2⟩ := hfine.append
    exact ⟨run_stands hm (Stands.create t₀) le_rfl hin ht h1, h2⟩
  refine ⟨?_, ?_, ?_, ?_⟩
  · intro pre e post he hin ht hk s s'
    obtain ⟨hs, hfe, -⟩ := hpre he hin ht
    obtain ⟨hs', hf'⟩ := step_stands hm hs hin.le ht hfe
    rw [readUsec_eq hm hs' ht hf', readUsec_eq hm hs ht hfe.1]
    exact step_keepsTime hm hs hin.le ht hfe hk
  · intro pre mid post t t' he hin hmid ht hf hrun r hr
    have hle := hmid.le
    rw [List.append_assoc] at he
    obtain ⟨hs, hrest⟩ := hpre he hin (by omega)
    have hfm := hrest.append.1
    have hs' := run_stands hm hs hin.le hmid ht hfm
    simp only [run_append] at hf hrun hr ⊢
    have hft : Fits usecPerTick (run usecPerTick create pre) t := by
      cases mid with
      | nil => exact hf.earlier hs le_rfl hmid ht
      | cons e mid => exact hfm.1.1.earlier hs le_rfl hmid.1 (by have := hmid.2.le; omega)
    rw [readUsec_eq hm hs (by omega) hft, readUsec_eq hm hs' ht hf]
    exact run_forward hm hs hin.le le_rfl hmid ht hfm hrun hr
  · intro pre mid post t t' he hin hmid ht hrun
    have hle := hmid.le
    rw [List.append_assoc] at he
    obtain ⟨hs, -⟩ := hpre he hin (by omega)
    simp only [run_append] at hrun ⊢
    rw [run_paused hrun]
    have hst : (run usecPerTick create pre).iState = .PAUSED := hrun [] List.nil_prefix
    have hf : ∀ t, Fits usecPerTick (run usecPerTick create pre) t :=
      fits_of_not_running (by rw [hst]; decide)
    rw [readUsec_eq hm hs (by omega) (hf t), readUsec_eq hm (hs.later hle) ht (hf t')]
    unfold exactUsec exactTime
    rw [hst]
  · intro pre c o a u t mid post t' he hin hmid ht s s₁ hst hok hac hl hf r hr
    have hle := hmid.le
    rw [List.append_assoc, List.cons_append] at he
    have ht₀ : t < t₀ + 2147483648 := by omega
    obtain ⟨hs, hfe, hrest⟩ := hpre he hin ht₀
    obtain ⟨hs₁, hf₁⟩ := step_stands hm hs hin.le ht₀ hfe
    have hfm := hrest.append.1
    have hac' : a.toNat < c.toNat := UInt32.lt_iff_toNat_lt.mp hac
    obtain ⟨hrun, -, -, ⟨-, hne⟩ | ⟨hu, hunit, ⟨-, hno⟩ | ⟨-, hlt, -⟩ |
      ⟨-, -, hpast, hexact, hlatest, hscaled, off, htb, hoff⟩⟩⟩ :=
      AdjustClockTime32_spec hm hs ht₀ hst hfe
    · exact absurd hok hne
    · exact absurd (hno hok) (Nat.not_le_of_lt hac')
    · omega
    have hstand := @exactUsec_standing usecPerTick s₁ t hrun off
      (htb.trans (congrArg (· + off) (hscaled t).symm))
    -- the adjusted time is `off` ticks behind what the clock shows
    have hbehind : exactUsec usecPerTick s₁ t =
        a.toNat * u.usec + (s.scaled t - o.toNat + off) * usecPerTick.toNat := by
      have hc : c.toNat = a.toNat + off * tickUnits usecPerTick u := by omega
      rw [hstand, hlatest, hexact, hunit, hc, ← hm.tickUnits_mul u]
      ring
    have hfollow : Following usecPerTick r (exactUsec usecPerTick s₁ t) off 0 s₁ t := by
      refine .inl ⟨hrun, 0, ?_, .inl ⟨rfl, ?_⟩⟩
      · rw [hstand, Nat.zero_mul, Nat.add_zero]
      · rw [htb, hscaled, Nat.add_zero, Nat.add_comm]
    have hshows := (hfollow.run hm hs₁ hin.le hmid ht hfm hl hr).shows hm
    have hs' := run_stands hm hs₁ hin.le hmid ht hfm
    rw [readUsec_eq hm hs' ht hf, hshows, readUsec_eq hm hs₁ ht₀ hf₁, Nat.zero_add]
    congr 1
    rw [hbehind]
    generalize ranTicks usecPerTick s₁ t mid t' = n
    rcases Nat.le_total n off with hn | hn
    · rw [Nat.sub_eq_zero_of_le hn, Nat.zero_mul, Nat.add_zero, max_eq_left]
      exact Nat.add_le_add_left (Nat.mul_le_mul_right _ (by omega)) _
    · rw [max_eq_right (Nat.add_le_add_left (Nat.mul_le_mul_right _ (by omega)) _), Nat.add_assoc,
        ← Nat.add_mul]
      congr 2
      omega

/-- A clock started at one second and set back by ten milliseconds, then paused. -/
theorem runs_keep_time_sample :
    let es : List Event := [⟨.SetStartTime32 1000 .MSEC, 5⟩, ⟨.Start, 5⟩,
      ⟨.AdjustClockTime32 1010 10 1000 .MSEC, 17⟩, ⟨.Pause, 40⟩]
    KeepsTime 1000 5 es ∧ NeverBack 1000 5 es ∧ StandsPaused 1000 5 es ∧ Absorbs 1000 5 es := by
  intro es
  refine runs_keep_time ⟨by decide, by decide⟩ 5 ⟨⟨fun _ => ?_, fun _ => trivial⟩,
    ⟨fun _ => ?_, fun _ => trivial⟩, ⟨fun _ => ?_, fun _ _ => ⟨fun h => ?_, fun _ => ⟨fun _ => ?_,
      fun h => ?_, fun _ => ?_⟩⟩⟩, ⟨fun _ => ?_, fun _ => ⟨Or.inl ?_, ?_⟩⟩, trivial⟩
  all_goals decide +kernel

/-- A clock kept in microseconds and started at five seconds shows five milliseconds once it is
    paused. -/
theorem pause_keeps_a_thousandth : ¬ KeepsTime 1000 0
    [⟨.SetStartTime32 5000000 .USEC, 0⟩, ⟨.Start, 0⟩, ⟨.Pause, 0⟩] := by
  intro h
  have hpause := h [⟨.SetStartTime32 5000000 .USEC, 0⟩, ⟨.Start, 0⟩] ⟨.Pause, 0⟩ [] rfl
    ⟨le_rfl, le_rfl, le_rfl⟩ (by decide) trivial
  exact absurd hpause (by decide +kernel)

end PVMFMediaClock

end OpenCore.Pvmf
