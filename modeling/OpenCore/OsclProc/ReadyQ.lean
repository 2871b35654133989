/-
  File:      OpenCore/OsclProc/ReadyQ.lean
  Subject:   `OsclReadyQ` and the comparisons of the scheduler's queues (oscl_scheduler_readyq.cpp),
             as the code computes them.

  An active object is a name `AO`; its fields live in a table `AO → ActiveBase`, so that the two
  queues and the threads see one object. The bodies that run under `iCrit` are functions
  (`pendComplete`, `popTopLocked`, `removeLocked`); `step` is the machine of the threads, one label
  for each atomic action: a locked body, a `Wait` or a `Signal` on the semaphore, or an unlocked
  write of another part of the scheduler.
-/
import OpenCore.Lib.Word32
import OpenCore.OsclUtil.PriQueue

namespace OpenCore.OsclProc

open OsclPriorityQueue

/-! ## 1. Active objects -/

/-- The queue an object is in (`iIsIn` is a pointer to it). -/
inductive QueueId where
  | readyQ
  | execTimerQ
  deriving DecidableEq, Repr

/-- `TReadyQueLink`. -/
structure ReadyQueLink where
  iAOPriority : Int
  iTimeToRunTicks : Nat := 0
  iTimeQueuedTicks : Nat := 0
  iSeqNum : Nat := 0
  iIsIn : Option QueueId := none
  deriving DecidableEq, Repr

/-- The fields of `PVActiveBase` the queues read and write. -/
structure ActiveBase where
  iPVReadyQLink : ReadyQueLink
  iBusy : Bool := false
  iStatus : Int := 0
  deriving DecidableEq, Repr

def oscl_request_pending : Int := -0x7fffffff

def osclErrNone : Int := 0

def osclErrCorrupt : Int := 109

def osclErrInvalidState : Int := 113

def ActiveBase.isInAnyQ (a : ActiveBase) : Bool := a.iPVReadyQLink.iIsIn.isSome

/-- `OsclReadyCompare::compare`, with fair scheduling: "priority of a is less than that of b". -/
def readyCompare (a b : ReadyQueLink) : Bool :=
  if a.iAOPriority ≠ b.iAOPriority then decide (a.iAOPriority < b.iAOPriority)
  else decide (b.iSeqNum ≤ a.iSeqNum)

def iTimeCompareThreshold : Nat := 0x7fffffff

/-- `OsclTimerCompare::compare`. -/
def timerCompare (a b : ReadyQueLink) : Bool :=
  if a.iTimeToRunTicks ≠ b.iTimeToRunTicks then
    decide (iTimeCompareThreshold < sub32 b.iTimeToRunTicks a.iTimeToRunTicks)
  else readyCompare a b

/-- The table of all active objects. -/
abbrev ActiveTable (AO : Type*) := AO → ActiveBase

section Locked

variable {AO : Type*} [DecidableEq AO]

/-- One object's link rewritten. -/
def updateLink (ao : ActiveTable AO) (a : AO) (f : ReadyQueLink → ReadyQueLink) : ActiveTable AO :=
  Function.update ao a { ao a with iPVReadyQLink := f (ao a).iPVReadyQLink }

def setIsIn (ao : ActiveTable AO) (a : AO) (q : Option QueueId) : ActiveTable AO :=
  updateLink ao a fun link => { link with iIsIn := q }

def setBusy (ao : ActiveTable AO) (a : AO) (b : Bool) : ActiveTable AO :=
  Function.update ao a { ao a with iBusy := b }

def setStatus (ao : ActiveTable AO) (a : AO) (s : Int) : ActiveTable AO :=
  Function.update ao a { ao a with iStatus := s }

def readyLess (ao : ActiveTable AO) (a b : AO) : Bool :=
  readyCompare (ao a).iPVReadyQLink (ao b).iPVReadyQLink

/-! ## 2. The queue and its locked bodies -/

/-- `OsclReadyQ`: the heap, the semaphore, the sequence counter, and whether a callback is
    registered. -/
structure ReadyQ (AO : Type*) where
  c : List AO := []
  iSem : Nat := 0
  iSeqNumCounter : Nat := 0
  iCallback : Bool := false

/-- `PendComplete` between lock and unlock, with the tick count it reads. -/
def pendComplete (ao : ActiveTable AO) (q : ReadyQ AO) (pvbase : AO) (aReason : Int)
    (tickCount : Nat) : ActiveTable AO × ReadyQ AO × Int :=
  if (ao pvbase).isInAnyQ then (ao, q, osclErrInvalidState)
  else if (ao pvbase).iBusy = false ∨ (ao pvbase).iStatus ≠ oscl_request_pending then
    (ao, q, osclErrCorrupt)
  else
    let seqNum := add32 q.iSeqNumCounter 1
    let ao' := updateLink ao pvbase fun link =>
      { link with iIsIn := some .readyQ, iTimeQueuedTicks := tickCount, iSeqNum := seqNum }
    (setStatus ao' pvbase aReason,
      { c := push (readyLess ao') q.c pvbase
        iSem := q.iSem + 1
        iSeqNumCounter := seqNum
        iCallback := false }, osclErrNone)

/-- What `PopTop` and `PopTopAfterWait` do to the queue under the lock. -/
def popTopLocked (ao : ActiveTable AO) (q : ReadyQ AO) :
    Option (AO × ActiveTable AO × ReadyQ AO) :=
  (top q.c).map fun elem =>
    let ao' := setIsIn ao elem none
    (elem, ao', { q with c := pop (readyLess ao') q.c })

/-- What `Remove` does to the queue under the lock, with the number it found. -/
def removeLocked (ao : ActiveTable AO) (q : ReadyQ AO) (a : AO) :
    ActiveTable AO × ReadyQ AO × Nat :=
  let ao' := setIsIn ao a none
  let r := remove (readyLess ao') q.c a
  (ao', { q with c := r.1 }, r.2)

end Locked

/-! ## 3. The threads -/

/-- Where a thread stands. -/
inductive PC (AO : Type*) where
  /-- between calls -/
  | idle
  /-- in `WaitAndPopTop`, past its `iSem.Wait()` -/
  | popAfterWait
  /-- in `PopTop` or `Remove`, before the `iSem.Wait()` under the lock -/
  | lockedWait
  /-- in `WaitForRequestComplete(pvbase)`, before the next `iSem.Wait()` -/
  | waitFor (pvbase : AO) (nwait : Nat)
  /-- past it, before `IsIn(pvbase)` -/
  | checkIsIn (pvbase : AO) (nwait : Nat)
  /-- in the loop that signals `nwait` times -/
  | restore (nwait : Nat)
  deriving DecidableEq

structure State (AO T : Type*) where
  ao : ActiveTable AO
  q : ReadyQ AO
  iCrit : Option T
  pc : T → PC AO

/-- An atomic action, with the values it returns. -/
inductive Label (AO T : Type*) where
  | pendComplete (t : T) (pvbase : AO) (aReason : Int) (tickCount : Nat) (err : Int)
  | popTop (t : T) (elem : Option AO)
  | remove (t : T) (a : AO)
  | lockedWait (t : T)
  | waitAndPopTop (t : T)
  | popTopAfterWait (t : T) (elem : Option AO)
  | waitForRequestComplete (t : T) (pvbase : AO)
  | wait (t : T)
  | isIn (t : T)
  | signal (t : T)
  /-- `Activate` and the status of a new request -/
  | pendForExec (a : AO)
  /-- `CallRunExec` sets the object inactive -/
  | callRunExec (a : AO)
  | setStatus (a : AO) (s : Int)
  /-- `OsclTimerQ::Add`, behind the check of `AddToExecTimerQ` -/
  | timerAdd (a : AO)
  /-- `OsclTimerQ::Pop` and `Remove` -/
  | timerTake (a : AO)
  deriving DecidableEq

section Step

variable {AO T : Type*} [DecidableEq AO] [DecidableEq T]

/-- The state in which thread `t` stands at `p`. -/
def State.goto (s : State AO T) (t : T) (p : PC AO) : State AO T :=
  { s with pc := Function.update s.pc t p }

/-- One semaphore token taken. -/
def State.take (s : State AO T) : State AO T := { s with q := { s.q with iSem := s.q.iSem - 1 } }

/-- One atomic action; `none` where the thread is not there, or has to wait. -/
def step (s : State AO T) : Label AO T → Option (State AO T)
  | .pendComplete t pvbase aReason tickCount err =>
    if s.pc t = .idle ∧ s.iCrit = none then
      let r := OsclProc.pendComplete s.ao s.q pvbase aReason tickCount
      if r.2.2 = err then some { s with ao := r.1, q := r.2.1 } else none
    else none
  | .popTop t elem =>
    if s.pc t = .idle ∧ s.iCrit = none then
      match popTopLocked s.ao s.q with
      | none => if elem = none then some s else none
      | some (x, ao', q') =>
        if elem = some x then
          some ({ s with ao := ao', q := q', iCrit := some t }.goto t .lockedWait)
        else none
    else none
  | .remove t a =>
    if s.pc t = .idle ∧ s.iCrit = none then
      let r := removeLocked s.ao s.q a
      if 0 < r.2.2 then
        some ({ s with ao := r.1, q := r.2.1, iCrit := some t }.goto t .lockedWait)
      else some { s with ao := r.1, q := r.2.1 }
    else none
  | .lockedWait t =>
    if s.pc t = .lockedWait ∧ 0 < s.q.iSem then
      some ({ s.take with iCrit := none }.goto t .idle)
    else none
  | .waitAndPopTop t =>
    if s.pc t = .idle ∧ 0 < s.q.iSem then some (s.take.goto t .popAfterWait) else none
  | .popTopAfterWait t elem =>
    if s.pc t = .popAfterWait ∧ s.iCrit = none then
      match popTopLocked s.ao s.q with
      | none => if elem = none then some (s.goto t .idle) else none
      | some (x, ao', q') =>
        if elem = some x then some ({ s with ao := ao', q := q' }.goto t .idle) else none
    else none
  | .waitForRequestComplete t pvbase =>
    if s.pc t = .idle then some (s.goto t (.waitFor pvbase 0)) else none
  | .wait t =>
    match s.pc t with
    | .waitFor pvbase nwait =>
      if 0 < s.q.iSem then some (s.take.goto t (.checkIsIn pvbase (nwait + 1))) else none
    | _ => none
  | .isIn t =>
    match s.pc t with
    | .checkIsIn pvbase nwait =>
      if s.iCrit = none then
        if (s.ao pvbase).iPVReadyQLink.iIsIn = some .readyQ then some (s.goto t (.restore nwait))
        else some (s.goto t (.waitFor pvbase nwait))
      else none
    | _ => none
  | .signal t =>
    match s.pc t with
    | .restore (nwait + 1) =>
      some ({ s with q := { s.q with iSem := s.q.iSem + 1 } }.goto t
        (if nwait = 0 then .idle else .restore nwait))
    | _ => none
  | .pendForExec a =>
    if (s.ao a).iBusy then none
    else some { s with ao := setStatus (setBusy s.ao a true) a oscl_request_pending }
  | .callRunExec a => some { s with ao := setBusy s.ao a false }
  | .setStatus a v => some { s with ao := OsclProc.setStatus s.ao a v }
  | .timerAdd a =>
    if (s.ao a).isInAnyQ then none
    else some { s with ao := setIsIn s.ao a (some .execTimerQ) }
  | .timerTake a =>
    if (s.ao a).iPVReadyQLink.iIsIn = some .execTimerQ then
      some { s with ao := setIsIn s.ao a none }
    else none

/-- Before the first call: nothing queued, no thread in a call. -/
def State.init (ao : ActiveTable AO) : State AO T where
  ao := ao
  q := {}
  iCrit := none
  pc := fun _ => .idle

end Step

end OpenCore.OsclProc
