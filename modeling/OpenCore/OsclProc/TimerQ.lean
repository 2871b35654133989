/-
  File:      OpenCore/OsclProc/TimerQ.lean
  Subject:   `OsclTimerQ` (oscl_scheduler_readyq.cpp) and the timers of the scheduler
             (oscl_scheduler.cpp, oscl_scheduler_ao.cpp), as the code computes them.

  `clock` counts the ticks of the clock from some start without wrapping; the code only ever sees
  `tickCount`, its value in 32 bits. The machine `TimerOp` is the scheduler's own thread: timer
  requests, the passing of time, `UpdateTimers`, and running the first ready object.
-/
import OpenCore.OsclProc.ReadyQ

namespace OpenCore.OsclProc

open OsclPriorityQueue

variable {AO : Type*} [DecidableEq AO]

/-! ## 1. The queue -/

def timerLess (ao : ActiveTable AO) (a b : AO) : Bool :=
  timerCompare (ao a).iPVReadyQLink (ao b).iPVReadyQLink

/-- `OsclTimerQ`. -/
structure TimerQ (AO : Type*) where
  c : List AO := []
  iSeqNumCounter : Nat := 0

/-- `OsclTimerQ::Add`. -/
def timerAdd (ao : ActiveTable AO) (q : TimerQ AO) (b : AO) (tickCount : Nat) :
    ActiveTable AO × TimerQ AO :=
  let seqNum := add32 q.iSeqNumCounter 1
  let ao' := updateLink ao b fun link =>
    { link with iIsIn := some .execTimerQ, iTimeQueuedTicks := tickCount, iSeqNum := seqNum }
  (ao', { c := push (timerLess ao') q.c b, iSeqNumCounter := seqNum })

/-- `OsclTimerQ::Pop` of the queue's top. -/
def timerPop (ao : ActiveTable AO) (q : TimerQ AO) (b : AO) : ActiveTable AO × TimerQ AO :=
  let ao' := setIsIn ao b none
  (ao', { q with c := pop (timerLess ao') q.c })

/-- `OsclTimerQ::Remove`. -/
def timerRemove (ao : ActiveTable AO) (q : TimerQ AO) (a : AO) : ActiveTable AO × TimerQ AO :=
  let ao' := setIsIn ao a none
  (ao', { q with c := (remove (timerLess ao') q.c a).1 })

/-! ## 2. The scheduler -/

/-- The queues of `OsclExecSchedulerCommonBase`, with the clock. -/
structure Scheduler (AO : Type*) where
  ao : ActiveTable AO
  iReadyQ : ReadyQ AO
  iExecTimerQ : TimerQ AO
  clock : Nat

/-- `OsclTickCount::TickCount`. -/
def Scheduler.tickCount (s : Scheduler AO) : Nat := s.clock % 4294967296

/-- `(aDelayMicrosec * 2 / tickperiod + 1) / 2` in 32 bits. -/
def delayTicks (tickperiod aDelayMicrosec : Nat) : Nat :=
  add32 (mul32 aDelayMicrosec 2 / tickperiod) 1 / 2

/-- `AddToExecTimerQ`; the error is the one it leaves with. -/
def addToExecTimerQ (tickperiod : Nat) (s : Scheduler AO) (anActive : AO) (aDelayMicrosec : Nat) :
    Scheduler AO × Int :=
  if (s.ao anActive).isInAnyQ then (s, osclErrInvalidState)
  else
    let timenow := s.tickCount
    let ao' := updateLink s.ao anActive fun link =>
      { link with iTimeToRunTicks := add32 timenow (delayTicks tickperiod aDelayMicrosec) }
    let r := timerAdd ao' s.iExecTimerQ anActive timenow
    let callback := s.iReadyQ.iCallback && decide (top r.2.c ≠ some anActive)
    ({ s with ao := r.1, iExecTimerQ := r.2, iReadyQ := { s.iReadyQ with iCallback := callback } },
      osclErrNone)

/-- `OsclTimerObject::After`. -/
def after (tickperiod : Nat) (s : Scheduler AO) (a : AO) (aDelayMicrosec : Nat) :
    Scheduler AO × Int :=
  if (s.ao a).iBusy then (s, osclErrInvalidState)
  else
    addToExecTimerQ tickperiod
      { s with ao := setStatus (setBusy s.ao a true) a oscl_request_pending } a aDelayMicrosec

/-- `OsclExecSchedulerCommonBase::PendComplete` from the scheduler's own thread. -/
def schedulerPendComplete (s : Scheduler AO) (pvbase : AO) (aReason : Int) : Scheduler AO × Int :=
  let t :=
    if (s.ao pvbase).iPVReadyQLink.iIsIn = some .execTimerQ then
      timerRemove s.ao s.iExecTimerQ pvbase
    else (s.ao, s.iExecTimerQ)
  let r := pendComplete t.1 s.iReadyQ pvbase aReason s.tickCount
  ({ s with ao := r.1, iExecTimerQ := t.2, iReadyQ := r.2.1 }, r.2.2)

/-- What `UpdateTimers` ends with: no pending timer, the pending timer with the shortest delay, or
    the error of a completion it leaves with. -/
inductive TimerResult (AO : Type*) where
  | none
  | pending (top : AO) (aShortestDelay : Nat)
  | leave (err : Int)
  deriving DecidableEq

/-- The loop of `UpdateTimers`. Each round takes one entry out, so `fuel` entries need no more
    than `fuel` rounds. -/
def updateTimersLoop (timenow : Nat) : Nat → Scheduler AO → Scheduler AO × TimerResult AO
  | 0, s => (s, .none)
  | fuel + 1, s =>
    match top s.iExecTimerQ.c with
    | .none => (s, .none)
    | some top =>
      let deltaTicks := sub32 timenow (s.ao top).iPVReadyQLink.iTimeToRunTicks
      if deltaTicks ≤ iTimeCompareThreshold then
        let p := timerPop s.ao s.iExecTimerQ top
        let r := schedulerPendComplete { s with ao := p.1, iExecTimerQ := p.2 } top osclErrNone
        if r.2 = osclErrNone then updateTimersLoop timenow fuel r.1 else (r.1, .leave r.2)
      else (s, .pending top (sub32 0 deltaTicks))

def updateTimers (s : Scheduler AO) : Scheduler AO × TimerResult AO :=
  updateTimersLoop s.tickCount s.iExecTimerQ.c.length s

/-- `PopTop` on the ready queue, and `CallRunExec` of what it gives. -/
def runReady (s : Scheduler AO) : Scheduler AO × Option AO :=
  match popTopLocked s.ao s.iReadyQ with
  | none => (s, none)
  | some (x, ao', q') =>
    ({ s with ao := setBusy ao' x false, iReadyQ := { q' with iSem := q'.iSem - 1 } }, some x)

/-! ## 3. The machine -/

/-- A call, with its answer. -/
inductive TimerOp (AO : Type*) where
  | after (a : AO) (aDelayMicrosec : Nat) (err : Int)
  /-- the clock goes on by `k` ticks -/
  | tick (k : Nat)
  | updateTimers (r : TimerResult AO)
  | runReady (x : Option AO)
  deriving DecidableEq

def timerStep (tickperiod : Nat) (s : Scheduler AO) : TimerOp AO → Option (Scheduler AO)
  | .after a aDelayMicrosec err =>
    let r := OsclProc.after tickperiod s a aDelayMicrosec
    if r.2 = err then some r.1 else none
  | .tick k => some { s with clock := s.clock + k }
  | .updateTimers res =>
    let r := OsclProc.updateTimers s
    if r.2 = res then some r.1 else none
  | .runReady x =>
    let r := OsclProc.runReady s
    if r.2 = x then some r.1 else none

/-- A scheduler without requests, at any tick of the clock. -/
def Scheduler.init (ao : ActiveTable AO) (clock : Nat) : Scheduler AO where
  ao := ao
  iReadyQ := {}
  iExecTimerQ := {}
  clock := clock

end OpenCore.OsclProc
