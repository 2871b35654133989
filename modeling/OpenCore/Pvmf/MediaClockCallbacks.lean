/-
  File:      OpenCore/Pvmf/MediaClockCallbacks.lean
  Subject:   THE CALLBACKS OF `PVMFMediaClock` (pvmf_media_clock.cpp): the queues of regular and of
             NPT callbacks, and the calls that set, cancel, fire and fail them.

  What the clock shows at a reading is given with the call. Observers take no part: what they do is
  a call of its own. `misused` says that `top()` or `pop()` was applied to an empty queue; where the
  value is not used, the code goes on.

  `step` keeps a history beside the members: what was accepted and refused, what became of it, and
  what a run of the active object left behind.
-/
import OpenCore.OsclUtil.PriQueueRun
import OpenCore.Lib.Word32
import OpenCore.Pvmf.MediaClock

namespace OpenCore.Pvmf

open OsclPriorityQueue

/-! ## 1. The queues -/

/-- `PVMFMediaClockTimerQueueElement`. -/
structure TimerQueueElement where
  timeOut : UInt32
  callBackID : UInt32
  isNPTTimer : Bool
  window : UInt32
  obs : Nat
  contextData : Nat
  pInterfaceObject : Nat
  deriving DecidableEq

/-- `PVMFMediaClockTimerQueueCompareLess`. -/
def compareLess (a b : TimerQueueElement) : Bool := (IsEarlier b.timeOut a.timeOut).1

/-- `PVMFMediaClockTimerQueueCompareLessForNPTBackwards`. -/
def compareLessBackwards (a b : TimerQueueElement) : Bool := (IsEarlier a.timeOut b.timeOut).1

/-- `OsclPriorityQueue::remove` for an element with the given ID, and whether one was removed. -/
def removeID (compare : TimerQueueElement → TimerQueueElement → Bool) (q : List TimerQueueElement)
    (aCallbackID : UInt32) : List TimerQueueElement × Option TimerQueueElement :=
  match q.findIdx? (fun e => e.callBackID == aCallbackID) with
  | some pos => (removeAt compare q pos, q[pos]?)
  | none => (q, none)

inductive MediaTimeStatus where
  | MEDIA_EARLY_OUTSIDE_WINDOW
  | MEDIA_EARLY_WITHIN_WINDOW
  | MEDIA_ONTIME_WITHIN_WINDOW
  | MEDIA_LATE_WITHIN_WINDOW
  | MEDIA_LATE_OUTSIDE_WINDOW
  deriving DecidableEq

/-- `PVTimeComparisonUtils::CheckTimeWindow`: the status and the difference. -/
def CheckTimeWindow (aTimeStamp aClock aEarlyMargin aLateMargin : UInt32) :
    MediaTimeStatus × UInt32 :=
  let (flag, aDelta) := IsEarlier aClock aTimeStamp
  if aDelta = 0 then (.MEDIA_ONTIME_WITHIN_WINDOW, aDelta)
  else if flag then
    (if aDelta < aEarlyMargin then .MEDIA_EARLY_WITHIN_WINDOW else .MEDIA_EARLY_OUTSIDE_WINDOW,
      aDelta)
  else if aDelta < aLateMargin then (.MEDIA_LATE_WITHIN_WINDOW, aDelta)
  else (.MEDIA_LATE_OUTSIDE_WINDOW, aDelta)

/-- What becomes of an accepted callback. -/
inductive Outcome where
  /-- `ProcessCallBack` with `PVMFSuccess`, at the time read. -/
  | fired (status : MediaTimeStatus) (delta currentTime : UInt32)
  | cancelled
  /-- `PVMFErrCallbackClockStopped`. -/
  | clockStopped
  /-- `PVMFErrCallbackHasBecomeInvalid`. -/
  | becameInvalid
  deriving DecidableEq

/-- A callback completed, and the queue it was taken from as it was left. -/
structure Completion where
  element : TimerQueueElement
  outcome : Outcome
  behind : List TimerQueueElement
  deriving DecidableEq

/-- The members of `PVMFMediaClock` its callbacks depend on. -/
structure Callbacks where
  iTimersPriQueue : List TimerQueueElement
  iTimersPriQueueNPT : List TimerQueueElement
  iTimersPriQueueNPTBackwards : List TimerQueueElement
  iActiveTimersCount : UInt32
  iTimerIDCount : UInt32
  iStartNPT : UInt32
  iStartMediaClockTS : UInt32
  iIsNPTPlayBackDirectionBackwards : Bool
  iIsTimebaseCountBased : Bool
  /-- The delay `RunIfNotReady` was last called with, in milliseconds. -/
  scheduled : Option Int
  misused : Bool
  deriving DecidableEq

/-- A reading of `GetCurrentTime32` in milliseconds, and its overflow flag. -/
abbrev Reading := UInt32 × Bool

/-- `PVMFStatus`, as far as the callbacks are concerned. -/
inductive PVMFStatus where
  | PVMFSuccess
  | PVMFErrArgument
  | PVMFErrBadHandle
  deriving DecidableEq

def MSECS_IN_30_MINS : UInt32 := 0x1B7740

namespace Callbacks

/-- The constructor. -/
def create (iIsTimebaseCountBased : Bool) : Callbacks where
  iTimersPriQueue := []
  iTimersPriQueueNPT := []
  iTimersPriQueueNPTBackwards := []
  iActiveTimersCount := 0
  iTimerIDCount := 0
  iStartNPT := 0
  iStartMediaClockTS := 0
  iIsNPTPlayBackDirectionBackwards := false
  iIsTimebaseCountBased := iIsTimebaseCountBased
  scheduled := none
  misused := false

variable (s : Callbacks)

/-- `GetNPTClockPosition`: nothing is answered where the clock overflows. -/
def GetNPTClockPosition (clock : Reading) : Option UInt32 :=
  if clock.2 then none
  else
    let currentposition := if s.iIsNPTPlayBackDirectionBackwards then
        s.iStartNPT - (clock.1 - s.iStartMediaClockTS)
      else s.iStartNPT + (clock.1 - s.iStartMediaClockTS)
    some (if 0 < toInt32 currentposition.toNat then currentposition else 0)

/-- `nptDelta` of `CalculateRunLTimerValue`. In backwards playback the forward queue is asked. -/
def nptDelta (temp : UInt32) : Option Int :=
  if ¬ s.iIsNPTPlayBackDirectionBackwards then
    match top s.iTimersPriQueueNPT with
    | some e => some (toInt32 (e.timeOut - temp).toNat)
    | none => some 0
  else if s.iTimersPriQueueNPTBackwards ≠ [] then
    (top s.iTimersPriQueueNPT).map fun e => toInt32 (temp - e.timeOut).toNat
  else some 0

/-- `CalculateRunLTimerValue`, where a queue is not empty. -/
def CalculateRunLTimerValue (aIsNPT : Bool) (aCurrentTime : UInt32) (clock : Reading) :
    Option Int :=
  let nptQueued := s.iTimersPriQueueNPT ≠ [] ∨ s.iTimersPriQueueNPTBackwards ≠ []
  let nptDelta := if nptQueued then s.nptDelta ((s.GetNPTClockPosition clock).getD 0) else some 0
  match top s.iTimersPriQueue with
  | none => nptDelta
  | some e =>
    let currentTime := if ¬ aIsNPT then aCurrentTime else clock.1
    let delta := toInt32 (e.timeOut - currentTime).toNat
    if ¬ nptQueued then some delta
    else nptDelta.map fun nptDelta => if delta < nptDelta then delta else nptDelta

/-- `AdjustScheduling`, up to the rate of the timebase. -/
def AdjustScheduling (aIsNPT : Bool) (aCurrentTime : UInt32) (clock : Reading) : Callbacks :=
  if s.iIsTimebaseCountBased then s
  else if s.iTimersPriQueue = [] ∧ s.iTimersPriQueueNPT = [] ∧
      s.iTimersPriQueueNPTBackwards = [] then { s with scheduled := none }
  else
    let currentTime := if aCurrentTime ≠ 0 then aCurrentTime
      else if ¬ aIsNPT then clock.1 else (s.GetNPTClockPosition clock).getD 0
    match s.CalculateRunLTimerValue aIsNPT currentTime clock with
    | some deltaTime => { s with scheduled := some (max deltaTime 0) }
    | none => { s with misused := true }

/-! ## 2. Setting and cancelling -/

/-- The bounds of `SetCallbackCommon`; the time is refused where this is true. -/
def outOfBounds (backwards : Bool) (aAbsoluteTime aCurrentTime : UInt32) : Bool :=
  if ¬ backwards then
    (IsEarlier (aCurrentTime + MSECS_IN_30_MINS) aAbsoluteTime).1 ||
      (IsEarlier aAbsoluteTime aCurrentTime).1
  else
    (IsEarlier aAbsoluteTime (aCurrentTime + MSECS_IN_30_MINS)).1 ||
      (IsEarlier aCurrentTime aAbsoluteTime).1

/-- A callback to set. -/
structure Request where
  aWindow : UInt32
  aCallback : Option Nat
  aContextData : Nat
  aInterfaceObject : Nat
  deriving DecidableEq

/-- The element that `SetCallbackCommon` queues. -/
def newElement (r : Request) (aAbsoluteTime : UInt32) (obs : Nat) (aIsNPT : Bool) :
    TimerQueueElement where
  timeOut := aAbsoluteTime
  callBackID := s.iTimerIDCount
  isNPTTimer := aIsNPT
  window := r.aWindow
  obs := obs
  contextData := r.aContextData
  pInterfaceObject := r.aInterfaceObject

/-- `AdjustScheduling`, where the top of a queue is the element inserted last; the queue asked is
    not always the one of the insertion. -/
def adjustIfTop (q : List TimerQueueElement) (aIsNPT : Bool) (aCurrentTime : UInt32)
    (clock : Reading) : Callbacks :=
  match top q with
  | some e =>
    if e.callBackID = s.iTimerIDCount - 1 then s.AdjustScheduling aIsNPT aCurrentTime clock else s
  | none => { s with misused := true }

/-- `SetCallbackCommon`: the status, the element accepted and the clock. -/
def SetCallbackCommon (r : Request) (aAbsoluteTime aCurrentTime : UInt32) (aIsNPT : Bool)
    (clock : Reading) : PVMFStatus × Option TimerQueueElement × Callbacks :=
  match r.aCallback with
  | none => (.PVMFErrArgument, none, s)
  | some obs =>
    if outOfBounds (aIsNPT && s.iIsNPTPlayBackDirectionBackwards) aAbsoluteTime aCurrentTime then
      (.PVMFErrArgument, none, s)
    else
      let e := s.newElement r aAbsoluteTime obs aIsNPT
      let s := { s with iTimerIDCount := s.iTimerIDCount + 1 }
      let s := if ¬ aIsNPT then
          let s := { s with iTimersPriQueue := push compareLess s.iTimersPriQueue e }
          s.adjustIfTop s.iTimersPriQueue false aCurrentTime clock
        else if ¬ s.iIsNPTPlayBackDirectionBackwards then
          let s := { s with iTimersPriQueueNPT := push compareLess s.iTimersPriQueueNPT e }
          s.adjustIfTop s.iTimersPriQueueNPT true aCurrentTime clock
        else
          let q := push compareLessBackwards s.iTimersPriQueueNPTBackwards e
          let s := { s with iTimersPriQueueNPTBackwards := q }
          s.adjustIfTop s.iTimersPriQueueNPT true aCurrentTime clock
      (.PVMFSuccess, some e, { s with iActiveTimersCount := s.iActiveTimersCount + 1 })

/-- The time a call is about: absolute, or from the current time on. -/
def timeOf (delta : Bool) (aTime currentTime : UInt32) : UInt32 :=
  if delta then currentTime + aTime else aTime

/-- `SetCallbackAbsoluteTime` and, with `delta`, `SetCallbackDeltaTime`. -/
def SetCallback (delta : Bool) (aTime : UInt32) (r : Request) (clock : Reading) :
    PVMFStatus × Option TimerQueueElement × Callbacks :=
  s.SetCallbackCommon r (timeOf delta aTime clock.1) clock.1 false clock

/-- `SetNPTCallbackAbsoluteTime` and, with `delta`, `SetNPTCallbackDeltaTime`. -/
def SetNPTCallback (delta : Bool) (aTime : UInt32) (r : Request) (clock : Reading) :
    PVMFStatus × Option TimerQueueElement × Callbacks :=
  let currentTime := (s.GetNPTClockPosition clock).getD 0
  s.SetCallbackCommon r (timeOf delta aTime currentTime) currentTime true clock

/-- `(q.top()).callBackID == aCallbackID`, where the queue is not empty. -/
def isTopID (q : List TimerQueueElement) (aCallbackID : UInt32) : Bool :=
  (top q).any (·.callBackID == aCallbackID)

/-- `CommonCancelCallback`: the status, the element removed with the queue left, and the clock. -/
def CommonCancelCallback (aCallbackID : UInt32) (aIsNPT : Bool) (clock : Reading) :
    PVMFStatus × Option (TimerQueueElement × List TimerQueueElement) × Callbacks :=
  let (flag, q, elementRemoved, s) := if ¬ aIsNPT then
      let (q, e) := removeID compareLess s.iTimersPriQueue aCallbackID
      (isTopID s.iTimersPriQueue aCallbackID, q, e, { s with iTimersPriQueue := q })
    else if ¬ s.iIsNPTPlayBackDirectionBackwards then
      let (q, e) := removeID compareLess s.iTimersPriQueueNPT aCallbackID
      (isTopID s.iTimersPriQueueNPT aCallbackID, q, e, { s with iTimersPriQueueNPT := q })
    else
      let (q, e) := removeID compareLessBackwards s.iTimersPriQueueNPTBackwards aCallbackID
      (isTopID s.iTimersPriQueueNPTBackwards aCallbackID, q, e,
        { s with iTimersPriQueueNPTBackwards := q })
  match elementRemoved with
  | none => (.PVMFErrBadHandle, none, s)
  | some e =>
    let s := if flag then s.AdjustScheduling aIsNPT 0 clock else s
    (.PVMFSuccess, some (e, q), { s with iActiveTimersCount := s.iActiveTimersCount - 1 })

/-! ## 3. Failing all callbacks of a queue -/

/-- A loop of `ClearAllQueues` or `ClearPresentNPTQueue`: the completions, and the count. The rounds
    are at most as many as the queue has elements. -/
def clearLoop (compare : TimerQueueElement → TimerQueueElement → Bool) (outcome : Outcome) :
    Nat → List TimerQueueElement → UInt32 → List Completion × List TimerQueueElement × UInt32
  | 0, q, iActiveTimersCount => ([], q, iActiveTimersCount)
  | n + 1, q, iActiveTimersCount =>
    match top q with
    | none => ([], q, iActiveTimersCount)
    | some e =>
      let q := pop compare q
      let (done, q', count) := clearLoop compare outcome n q (iActiveTimersCount - 1)
      (⟨e, outcome, q⟩ :: done, q', count)

def clearRegular (outcome : Outcome) : List Completion × Callbacks :=
  let (done, q, count) := clearLoop compareLess outcome s.iTimersPriQueue.length s.iTimersPriQueue
    s.iActiveTimersCount
  (done, { s with iTimersPriQueue := q, iActiveTimersCount := count })

/-- The NPT queue of the current direction. -/
def clearNPT (outcome : Outcome) : List Completion × Callbacks :=
  if ¬ s.iIsNPTPlayBackDirectionBackwards then
    let (done, q, count) := clearLoop compareLess outcome s.iTimersPriQueueNPT.length
      s.iTimersPriQueueNPT s.iActiveTimersCount
    (done, { s with iTimersPriQueueNPT := q, iActiveTimersCount := count })
  else
    let (done, q, count) := clearLoop compareLessBackwards outcome
      s.iTimersPriQueueNPTBackwards.length s.iTimersPriQueueNPTBackwards s.iActiveTimersCount
    (done, { s with iTimersPriQueueNPTBackwards := q, iActiveTimersCount := count })

def ClearAllQueues : List Completion × Callbacks :=
  let (done, s) := s.clearRegular .clockStopped
  let (done', s) := s.clearNPT .clockStopped
  (done ++ done', s)

def ClearPresentNPTQueue : List Completion × Callbacks := s.clearNPT .becameInvalid

/-- `Stop`, which does nothing in a clock that is stopped. -/
def Stop (iState : ClockState) : List Completion × Callbacks :=
  if iState = .STOPPED then ([], s) else s.ClearAllQueues

def UpdateNPTClockPosition (aStartNPT : UInt32) (aIsPlayBackDirectionBackwards : Bool)
    (clock : Reading) : List Completion × Callbacks :=
  let s := { s with iStartNPT := aStartNPT, iStartMediaClockTS := clock.1 }
  let (done, s) :=
    if s.iIsNPTPlayBackDirectionBackwards ≠ aIsPlayBackDirectionBackwards then
      s.ClearPresentNPTQueue
    else ([], s)
  let s := { s with iIsNPTPlayBackDirectionBackwards := aIsPlayBackDirectionBackwards }
  (done, s.AdjustScheduling true 0 clock)

/-! ## 4. `Run` -/

/-- What a loop of `Run` comes to: the completions, the queue and the count, the last time read, and
    whether an empty queue was asked for its top. -/
structure Looped where
  done : List Completion
  queue : List TimerQueueElement
  iActiveTimersCount : UInt32
  currentTime : UInt32
  misused : Bool
  deriving DecidableEq

/-- The loop of `Run` over the regular queue, or over that of forward NPT callbacks: it reads the
    time once before the first round and once in each. -/
def fireLoop (time : Nat → UInt32) :
    Nat → Nat → List TimerQueueElement → UInt32 → Bool → Looped
  | 0, i, q, iActiveTimersCount, misused => ⟨[], q, iActiveTimersCount, time i, misused⟩
  | n + 1, i, q, iActiveTimersCount, misused =>
    match top q with
    | none => ⟨[], q, iActiveTimersCount, time i, misused⟩
    | some e =>
      let (status, delta) := CheckTimeWindow e.timeOut (time i) e.window e.window
      if status = .MEDIA_EARLY_OUTSIDE_WINDOW then ⟨[], q, iActiveTimersCount, time i, misused⟩
      else
        let q := pop compareLess q
        let r := fireLoop time n (i + 1) q (iActiveTimersCount - 1) (misused || q.isEmpty)
        { r with done := ⟨e, .fired status delta (time i), q⟩ :: r.done }

/-- The status handed to a backwards callback. -/
def backwardsStatus : MediaTimeStatus → MediaTimeStatus
  | .MEDIA_EARLY_WITHIN_WINDOW => .MEDIA_LATE_WITHIN_WINDOW
  | .MEDIA_ONTIME_WITHIN_WINDOW => .MEDIA_EARLY_WITHIN_WINDOW
  | .MEDIA_LATE_WITHIN_WINDOW => .MEDIA_EARLY_WITHIN_WINDOW
  | _ => .MEDIA_LATE_OUTSIDE_WINDOW

/-- The loop of `Run` in backwards playback: the callback at the top of the backwards queue is
    called, and the forward queue is popped. Nothing is said of what follows a `pop()` of an empty
    queue. -/
def backwardsLoop (time : Nat → UInt32) (backwards : List TimerQueueElement) :
    Nat → Nat → List TimerQueueElement → UInt32 → Bool → Looped
  | 0, i, q, iActiveTimersCount, _ => ⟨[], q, iActiveTimersCount, time i, true⟩
  | n + 1, i, q, iActiveTimersCount, misused =>
    match top backwards with
    | none => ⟨[], q, iActiveTimersCount, time i, misused⟩
    | some e =>
      let (status, delta) := CheckTimeWindow e.timeOut (time i) e.window e.window
      if status = .MEDIA_LATE_OUTSIDE_WINDOW then ⟨[], q, iActiveTimersCount, time i, misused⟩
      else if q = [] then ⟨[], q, iActiveTimersCount, time i, true⟩
      else
        let q := pop compareLess q
        let r := backwardsLoop time backwards n (i + 1) q (iActiveTimersCount - 1) misused
        { r with done := ⟨e, .fired (backwardsStatus status) delta (time i), q⟩ :: r.done }

/-- The NPT times that `Run` reads: where the clock overflows, `currentTime` stays as it was. -/
def nptTimes (currentTime : UInt32) (clock : Nat → Reading) : Nat → UInt32
  | 0 => (s.GetNPTClockPosition (clock 0)).getD currentTime
  | i + 1 => (s.GetNPTClockPosition (clock (i + 1))).getD (nptTimes currentTime clock i)

/-- A time read and the queue that is left at it. -/
abbrev Left := UInt32 × List TimerQueueElement

/-- The half of `Run` for the regular queue; the last part of the result is `currentTime`. -/
def runRegular (clock : Nat → Reading) : List Completion × List Left × Callbacks × UInt32 :=
  if s.iTimersPriQueue = [] then ([], [], s, 0)
  else
    let r := fireLoop (fun i => (clock i).1) s.iTimersPriQueue.length 0 s.iTimersPriQueue
      s.iActiveTimersCount s.misused
    let s := { s with
      iTimersPriQueue := r.queue
      iActiveTimersCount := r.iActiveTimersCount
      misused := r.misused }
    (r.done, [(r.currentTime, r.queue)], s.AdjustScheduling false r.currentTime (clock 0),
      r.currentTime)

/-- The half of `Run` for the NPT queue of the current direction. -/
def runNPT (currentTime : UInt32) (clock : Nat → Reading) :
    List Completion × List Left × Callbacks :=
  let time := s.nptTimes currentTime clock
  if ¬ s.iIsNPTPlayBackDirectionBackwards then
    if s.iTimersPriQueueNPT = [] then ([], [], s)
    else
      let r := fireLoop time s.iTimersPriQueueNPT.length 0 s.iTimersPriQueueNPT
        s.iActiveTimersCount s.misused
      let s := { s with
        iTimersPriQueueNPT := r.queue
        iActiveTimersCount := r.iActiveTimersCount
        misused := r.misused }
      (r.done, [(r.currentTime, r.queue)], s.AdjustScheduling true r.currentTime (clock 0))
  else if s.iTimersPriQueueNPTBackwards = [] then ([], [], s)
  else
    let r := backwardsLoop time s.iTimersPriQueueNPTBackwards (s.iTimersPriQueueNPT.length + 1) 0
      s.iTimersPriQueueNPT s.iActiveTimersCount s.misused
    let s := { s with
      iTimersPriQueueNPT := r.queue
      iActiveTimersCount := r.iActiveTimersCount
      misused := r.misused }
    (r.done, [(r.currentTime, s.iTimersPriQueueNPTBackwards)],
      s.AdjustScheduling true r.currentTime (clock 0))

/-- `Run`, with the readings of its two halves. -/
def Run (regular npt : Nat → Reading) : List Completion × List Left × Callbacks :=
  let (done, left, s, currentTime) := s.runRegular regular
  let (done', left', s) := s.runNPT currentTime npt
  (done ++ done', left ++ left', s)

end Callbacks

/-! ## 5. The machine -/

/-- A call, with what the clock shows during it. -/
inductive CallbackOp where
  | SetCallback (delta : Bool) (aTime : UInt32) (r : Callbacks.Request) (clock : Reading)
  | SetNPTCallback (delta : Bool) (aTime : UInt32) (r : Callbacks.Request) (clock : Reading)
  | CancelCallback (aCallbackID : UInt32) (clock : Reading)
  | CancelNPTCallback (aCallbackID : UInt32) (clock : Reading)
  | UpdateNPTClockPosition (aStartNPT : UInt32) (aIsPlayBackDirectionBackwards : Bool)
      (clock : Reading)
  | Run (regular npt : Nat → Reading)
  | Stop (iState : ClockState)

/-- An NPT callback refused in backwards playback: its time and the position. -/
structure Refusal where
  aAbsoluteTime : UInt32
  currentTime : UInt32
  deriving DecidableEq

/-- The clock and its history. -/
structure CallbackRun where
  clock : Callbacks
  accepted : List TimerQueueElement
  completed : List Completion
  refused : List Refusal
  /-- After each half of `Run`: the time, and what is left in the queue. -/
  left : List Callbacks.Left
  /-- What is left queued after a `Stop`, or of the NPT callbacks after a change of direction. -/
  uncleared : List TimerQueueElement
  deriving DecidableEq

namespace CallbackRun

/-- A new clock. -/
def create (iIsTimebaseCountBased : Bool) : CallbackRun :=
  ⟨.create iIsTimebaseCountBased, [], [], [], [], []⟩

variable (s : CallbackRun)

/-- What setting a callback comes to. -/
def set (r : PVMFStatus × Option TimerQueueElement × Callbacks) (refusal : List Refusal) :
    CallbackRun :=
  { s with
    clock := r.2.2
    accepted := s.accepted ++ r.2.1.toList
    refused := s.refused ++ if r.1 = .PVMFSuccess then [] else refusal }

/-- What cancelling comes to. -/
def cancel (r : PVMFStatus × Option (TimerQueueElement × List TimerQueueElement) × Callbacks) :
    CallbackRun :=
  { s with
    clock := r.2.2
    completed := s.completed ++ r.2.1.toList.map fun e => ⟨e.1, .cancelled, e.2⟩ }

/-- The clock after a call, and its history. -/
def step : CallbackOp → CallbackRun
  | .SetCallback delta aTime r clock => s.set (s.clock.SetCallback delta aTime r clock) []
  | .SetNPTCallback delta aTime r clock =>
    let currentTime := (s.clock.GetNPTClockPosition clock).getD 0
    s.set (s.clock.SetNPTCallback delta aTime r clock)
      (if s.clock.iIsNPTPlayBackDirectionBackwards ∧ r.aCallback.isSome then
        [⟨Callbacks.timeOf delta aTime currentTime, currentTime⟩] else [])
  | .CancelCallback aCallbackID clock =>
    s.cancel (s.clock.CommonCancelCallback aCallbackID false clock)
  | .CancelNPTCallback aCallbackID clock =>
    s.cancel (s.clock.CommonCancelCallback aCallbackID true clock)
  | .UpdateNPTClockPosition aStartNPT aIsPlayBackDirectionBackwards clock =>
    let (done, c) := s.clock.UpdateNPTClockPosition aStartNPT aIsPlayBackDirectionBackwards clock
    { s with
      clock := c
      completed := s.completed ++ done
      uncleared := s.uncleared ++
        if s.clock.iIsNPTPlayBackDirectionBackwards ≠ aIsPlayBackDirectionBackwards then
          c.iTimersPriQueueNPT ++ c.iTimersPriQueueNPTBackwards
        else [] }
  | .Run regular npt =>
    let (done, left, c) := s.clock.Run regular npt
    { s with clock := c, completed := s.completed ++ done, left := s.left ++ left }
  | .Stop iState =>
    let (done, c) := s.clock.Stop iState
    { s with
      clock := c
      completed := s.completed ++ done
      uncleared := s.uncleared ++
        if iState ≠ .STOPPED then
          c.iTimersPriQueue ++ c.iTimersPriQueueNPT ++ c.iTimersPriQueueNPTBackwards
        else [] }

end CallbackRun

end OpenCore.Pvmf
