/-
  File:      OpenCore/H324/Srp.lean
  Subject:   THE SIMPLE RETRANSMISSION PROTOCOL (`SRP`): one endpoint, its sender and its receiver,
             in the three modes SRP/NSRP (stop and wait) and WNSRP (a window).

  An endpoint is a record of the fields `SRP` keeps; every entry point of the source (a message
  from the upper layer, a frame from the lower layer, the expiry of a T401 timer) is a function
  from such a record. `none` is a null pointer that is dereferenced. The two output ports are the
  lists of all that went through them, so `iLLPortOut` is the history of the frames sent and
  `iULPortOut` the history of the chunks handed up.
-/
import OpenCore.Lib.Run
import OpenCore.Lib.Word32

namespace OpenCore.H324

/-! ## 1. Packets, frames, timers -/

/-- One CCSRL chunk of an H.245 message. `num` is auxiliary: the position of the chunk among all
    the chunks its sender queued. No function of the source reads or sends it. -/
structure Chunk where
  num : Nat
  /-- `LAST_CCSRL_CHUNK`, the marker of the packet that is handed up. -/
  marker : Bool
  data : List UInt8
deriving DecidableEq, Repr

/-- A packet of `iSrpWaitQueue`, and an `SRPRxData` of the receiver's lists. -/
structure Packet where
  seqNum : Nat
  chunk : Chunk
deriving DecidableEq, Repr

inductive Header where
  | SRP_COMMAND_HEADER
  | SRP_RESPONSE_HEADER
  | NSRP_RESPONSE_HEADER
  | WNSRP_COMMAND_HEADER
  | WNSRP_RESPONSE_HEADER
deriving DecidableEq, Repr

/-- A frame whose check sequence holds. A response has no data; its `num` is that of the command
    it answers, and the sequence number of an `SRP_RESPONSE_HEADER` is not on the wire. -/
structure Frame where
  header : Header
  seqNum : Nat
  chunk : Chunk
deriving DecidableEq, Repr

inductive SrpStatus where
  | STS_IDLE
  | STS_WAIT_RESPONSE
deriving DecidableEq, Repr

inductive SrpEvent where
  | EV_NOP
  | EV_PDU
  | EV_COMMAND
  | EV_RESPONSE
  | EV_NSRP_RESPONSE
  | EV_TIMEOUT
  | EV_WNSRP_COMMAND
  | EV_WNSRP_RESPONSE
deriving DecidableEq, Repr

inductive SrpAction where
  | ACTION_NOP
  | ACTION_0_1
  | ACTION_0_2
  | ACTION_1_1
  | ACTION_1_3
  | ACTION_1_4
deriving DecidableEq, Repr

inductive WnsrpStatus where
  | NO_WNSRP_SUPPORT
  | WNSRP_TX_SUPPORT
  | WNSRP_FULL_SUPPORT
deriving DecidableEq, Repr

def iSrpStateTable : SrpStatus → SrpEvent → SrpAction
  | .STS_IDLE, .EV_PDU => .ACTION_0_1
  | .STS_IDLE, .EV_COMMAND => .ACTION_0_2
  | .STS_IDLE, .EV_WNSRP_COMMAND => .ACTION_0_2
  | .STS_IDLE, _ => .ACTION_NOP
  | .STS_WAIT_RESPONSE, .EV_NOP => .ACTION_NOP
  | .STS_WAIT_RESPONSE, .EV_PDU => .ACTION_1_1
  | .STS_WAIT_RESPONSE, .EV_COMMAND => .ACTION_0_2
  | .STS_WAIT_RESPONSE, .EV_RESPONSE => .ACTION_1_3
  | .STS_WAIT_RESPONSE, .EV_NSRP_RESPONSE => .ACTION_1_3
  | .STS_WAIT_RESPONSE, .EV_TIMEOUT => .ACTION_1_4
  | .STS_WAIT_RESPONSE, .EV_WNSRP_COMMAND => .ACTION_0_2
  | .STS_WAIT_RESPONSE, .EV_WNSRP_RESPONSE => .ACTION_1_3

structure SRPRespTimer where
  timerID : Nat
  N400Counter : Int
  isTimerActive : Bool
  pPkt : Option Frame
deriving DecidableEq, Repr

def SrpT401Start (timer : SRPRespTimer) (pPkt : Frame) : SRPRespTimer :=
  { timer with isTimerActive := true, pPkt := some pPkt, N400Counter := 0 }

def SrpT401Stop (timer : SRPRespTimer) : SRPRespTimer :=
  { timer with isTimerActive := false }

/-- `SrpT401Stop` and then `pPkt.Unbind()`, as every caller but the window's resend has it. -/
def SRPRespTimer.release (timer : SRPRespTimer) : SRPRespTimer :=
  { SrpT401Stop timer with pPkt := none }

def SrpCommandCreate (pPkt : Packet) (header : Header) : Frame :=
  ⟨header, pPkt.seqNum, pPkt.chunk⟩

/-- `SrpResponseCreate`, for the command `pPkt`. -/
def SrpResponseCreate (pPkt : Frame) (header : Header) : Frame :=
  ⟨header, pPkt.seqNum % 256, ⟨pPkt.chunk.num, false, []⟩⟩

def MAX_SIZE_OF_SRP_PDU : Nat := 1024

/-! ## 2. The endpoint -/

/-- The fields of `SRP`, less its statistics and its allocators. The WNSRP timers are an array,
    and the two lists hold indices into it where the source has pointers. -/
structure Srp where
  iN400MaxCounter : Int := 100
  iN402MaxCounter : Int := 3
  iN402Counter : Int := 0
  iSrpWaitQueue : List Packet := []
  iSendSeqNumber : Nat := 0
  iRecvSeqNumber : Nat := 0
  iStatus : SrpStatus := .STS_IDLE
  iCurWnsrpStatus : WnsrpStatus := .WNSRP_TX_SUPPORT
  iSrpCommandSave : SRPRespTimer := ⟨0, 0, false, none⟩
  iWnsrpCommandSave : Nat → SRPRespTimer := fun _ => ⟨0, 0, false, none⟩
  iFreeWnsrpCommandSave : List Nat := []
  iActiveWnsrpCommandSave : List Nat := []
  iCcsrlSduSize : Nat := 256
  /-- How many of the `iRxFrags` are free. -/
  iFreeRxFragList : Nat := 0
  iPendingRxFragList : List Packet := []
  iFirstCmd : Bool := true
  iUseNSRP : Bool := true
  iFirstNSRPResp : Bool := false
  iHandleWNSRP : Bool := true
  iWNSRPTxWindow : Nat := 5
  iWNSRPRxWindow : Nat := 5
  iOldestWNSRPRetransSeqNum : Nat := 0
  /-- Whether an observer is set. -/
  iObserver : Bool := false
  iLLPortOut : List Frame := []
  iULPortOut : List Chunk := []
  /-- Auxiliary: every chunk `UpperLayerRx` queued, oldest first. -/
  accepted : List Chunk := []
  /-- Auxiliary: how often `Srp_1_4` found the retries used up. -/
  failures : Nat := 0

namespace Srp

def SrpRecvSeqClear (s : Srp) : Srp :=
  { s with
    iRecvSeqNumber := 0
    iOldestWNSRPRetransSeqNum := sub32 0 (sub32 256 s.iWNSRPRxWindow / 2) % 256 }

def SrpStart (s : Srp) : Srp :=
  { SrpRecvSeqClear { s with iFirstCmd := true } with
    iSendSeqNumber := 0, iN402Counter := 0, iStatus := .STS_IDLE }

/-- `SrpInitL`, on an endpoint whose windows and counters are set. -/
def SrpInitL (s : Srp) : Srp :=
  SrpStart { s with
    iSrpCommandSave := { s.iSrpCommandSave with timerID := s.iWNSRPTxWindow }
    iWnsrpCommandSave := fun i => ⟨i, 0, false, none⟩
    iFreeRxFragList := s.iWNSRPRxWindow
    iFreeWnsrpCommandSave := List.range s.iWNSRPTxWindow }

def LowerLayerTx (s : Srp) (pPkt : Frame) : Srp :=
  { s with iLLPortOut := s.iLLPortOut ++ [pPkt] }

def UpperLayerTx (s : Srp) (pPkt : Chunk) : Srp :=
  { s with iULPortOut := s.iULPortOut ++ [pPkt] }

def SrpCommandClear (s : Srp) (seqNum : Nat) : Srp :=
  { s with iSrpWaitQueue := s.iSrpWaitQueue.eraseP (fun p => p.seqNum == seqNum) }

def SrpSendWaitGet (s : Srp) (index : Nat) : Option Packet := s.iSrpWaitQueue[index]?

def SrpSendSeqCount (s : Srp) : Srp :=
  if s.iSendSeqNumber < 255 then { s with iSendSeqNumber := s.iSendSeqNumber + 1 }
  else { s with iSendSeqNumber := 0 }

/-- One more, and 0 after 255. -/
def nextSeq (n : Nat) : Nat := if n < 255 then n + 1 else 0

def SrpRecvSeqCount (s : Srp) : Srp :=
  { s with
    iRecvSeqNumber := nextSeq s.iRecvSeqNumber
    iOldestWNSRPRetransSeqNum := nextSeq s.iOldestWNSRPRetransSeqNum }

/-- `*pTimer = t` for a WNSRP timer. -/
def setTimer (s : Srp) (pTimer : Nat) (t : SRPRespTimer) : Srp :=
  { s with iWnsrpCommandSave := Function.update s.iWnsrpCommandSave pTimer t }

def GetFreeWnsrpTimer (s : Srp) : Option (Nat × Srp) :=
  match s.iFreeWnsrpCommandSave with
  | [] => none
  | timer :: rest => some (timer, { s with iFreeWnsrpCommandSave := rest })

def AddActiveWnsrpTimer (s : Srp) (timer : Nat) : Srp :=
  { s with iActiveWnsrpCommandSave := s.iActiveWnsrpCommandSave ++ [timer] }

def FindActiveWnsrpTimer (s : Srp) (timerID : Nat) : Option Nat :=
  s.iActiveWnsrpCommandSave.find? (fun i => (s.iWnsrpCommandSave i).timerID == timerID)

/-- `RemoveActiveWnsrpTimer`, for a timer of the window. -/
def RemoveActiveWnsrpTimer (s : Srp) (timer : Nat) : Srp :=
  if timer ∈ s.iActiveWnsrpCommandSave then
    { s with
      iFreeWnsrpCommandSave := s.iFreeWnsrpCommandSave ++ [timer]
      iActiveWnsrpCommandSave := s.iActiveWnsrpCommandSave.erase timer }
  else s

/-- The three lines `SrpT401Stop`, `pPkt.Unbind`, `RemoveActiveWnsrpTimer`. -/
def releaseWnsrpTimer (s : Srp) (timer : Nat) : Srp :=
  (s.setTimer timer (s.iWnsrpCommandSave timer).release).RemoveActiveWnsrpTimer timer

/-- `SrpT401Stop(iSrpCommandSave); iSrpCommandSave.pPkt.Unbind()`. -/
def releaseSrpTimer (s : Srp) : Srp :=
  { s with iSrpCommandSave := s.iSrpCommandSave.release }

def WnsrpStatusSet (s : Srp) (newStatus : WnsrpStatus) : Srp :=
  let s := { s with iCurWnsrpStatus := newStatus }
  match newStatus with
  | .NO_WNSRP_SUPPORT =>
    s.iActiveWnsrpCommandSave.foldl (fun s timer => s.releaseWnsrpTimer timer) s
  | .WNSRP_FULL_SUPPORT => if s.iSrpCommandSave.isTimerActive then s.releaseSrpTimer else s
  | .WNSRP_TX_SUPPORT => s

def DisableWNSRPSupport (s : Srp) : Srp :=
  let s := if s.iCurWnsrpStatus = .WNSRP_TX_SUPPORT then s.WnsrpStatusSet .NO_WNSRP_SUPPORT else s
  { s with iHandleWNSRP := false }

/-! ## 3. The sender -/

/-- Packet 0 of the queue goes out as an SRP command, and `iSrpCommandSave` waits for its
    response. -/
def sendSrpCommand (s : Srp) : Option Srp := do
  let pFirstPkt ← s.SrpSendWaitGet 0
  let pTxPkt := SrpCommandCreate pFirstPkt .SRP_COMMAND_HEADER
  let s := s.LowerLayerTx pTxPkt
  some { s with iSrpCommandSave := SrpT401Start s.iSrpCommandSave pTxPkt }

/-- The first packet of the queue that no WNSRP timer waits for goes out as a WNSRP command on
    a free timer. -/
def sendWnsrpCommand (s : Srp) : Option Srp := do
  let pSrpCommandPkt ← s.SrpSendWaitGet s.iActiveWnsrpCommandSave.length
  let pTxPkt := SrpCommandCreate pSrpCommandPkt .WNSRP_COMMAND_HEADER
  let (pTimer, s) ← s.GetFreeWnsrpTimer
  let s := s.LowerLayerTx pTxPkt
  let s := s.setTimer pTimer (SrpT401Start (s.iWnsrpCommandSave pTimer) pTxPkt)
  some (s.AddActiveWnsrpTimer pTimer)

/-- The loop of `Srp_0_1` and `Srp_1_1`, for as many turns as there are free timers. -/
def sendWnsrpCommands : Nat → Srp → Option Srp
  | 0, s => some s
  | n + 1, s =>
    if s.iFreeWnsrpCommandSave ≠ [] ∧
        s.iActiveWnsrpCommandSave.length < s.iSrpWaitQueue.length then
      s.sendWnsrpCommand.bind (sendWnsrpCommands n)
    else some s

/-- `Srp_0_1`: a packet from the upper layer in `STS_IDLE`. -/
def Srp_0_1 (s : Srp) : Option Srp := do
  let s ← match s.iCurWnsrpStatus with
    | .NO_WNSRP_SUPPORT => s.sendSrpCommand
    | .WNSRP_TX_SUPPORT =>
      s.sendSrpCommand.bind fun s => sendWnsrpCommands s.iFreeWnsrpCommandSave.length s
    | .WNSRP_FULL_SUPPORT => sendWnsrpCommands s.iFreeWnsrpCommandSave.length s
  some { s with iStatus := .STS_WAIT_RESPONSE }

/-- `Srp_1_1`: a packet from the upper layer in `STS_WAIT_RESPONSE`. -/
def Srp_1_1 (s : Srp) : Option Srp :=
  match s.iCurWnsrpStatus with
  | .NO_WNSRP_SUPPORT => some s
  | .WNSRP_TX_SUPPORT | .WNSRP_FULL_SUPPORT =>
    sendWnsrpCommands s.iFreeWnsrpCommandSave.length s

/-- The scan of the active timers for a sequence number: the first index that holds it. -/
def scanActive (timers : Nat → SRPRespTimer) (seqNum : Nat) : List Nat → Option (Option Nat)
  | [] => some none
  | timer :: rest => do
      let pPkt ← (timers timer).pPkt
      if pPkt.seqNum = seqNum then some (some 0)
      else (scanActive timers seqNum rest).map (Option.map (· + 1))

/-- One turn of the resend of section A.4.3: the packet goes out again and its timer is started
    anew, with the resend counted. -/
def resend (s : Srp) (timer : Nat) : Option Srp := do
  let pPkt ← (s.iWnsrpCommandSave timer).pPkt
  let s := s.LowerLayerTx pPkt
  let t := SrpT401Start (SrpT401Stop (s.iWnsrpCommandSave timer)) pPkt
  some (s.setTimer timer { t with N400Counter := t.N400Counter + 1 })

/-- `Srp_1_3`, the case `EV_WNSRP_RESPONSE`. `false` is its `return 0`. -/
def wnsrpResponse (s : Srp) (seqNum : Nat) : Option (Bool × Srp) := do
  let s := s.SrpCommandClear seqNum
  match ← scanActive s.iWnsrpCommandSave seqNum s.iActiveWnsrpCommandSave with
  | none => some (false, s)
  | some i =>
    let timer ← s.iActiveWnsrpCommandSave[i]?
    let s ← (s.iActiveWnsrpCommandSave.take i).foldlM resend s
    some (true, s.releaseWnsrpTimer timer)

/-- `Srp_1_3`, the case `EV_NSRP_RESPONSE`. -/
def nsrpResponse (s : Srp) (seqNum : Nat) : Option (Bool × Srp) := do
  let s := s.SrpCommandClear seqNum
  let s ← match ← scanActive s.iWnsrpCommandSave seqNum s.iActiveWnsrpCommandSave with
    | none => some s
    | some i => (s.iActiveWnsrpCommandSave[i]?).map s.releaseWnsrpTimer
  if s.iSrpCommandSave.isTimerActive then
    let pPkt ← s.iSrpCommandSave.pPkt
    if seqNum = pPkt.seqNum then some (true, s.releaseSrpTimer) else some (false, s)
  else some (false, s)

/-- `Srp_1_3`, the case `EV_RESPONSE`. -/
def srpResponse (s : Srp) : Option (Bool × Srp) :=
  if s.iSrpCommandSave.isTimerActive then do
    let s := match s.iActiveWnsrpCommandSave with
      | [] => s
      | timer :: _ => s.releaseWnsrpTimer timer
    let pPkt ← s.iSrpCommandSave.pPkt
    some (true, (s.SrpCommandClear pPkt.seqNum).releaseSrpTimer)
  else some (false, s)

/-- The second switch of `Srp_1_3`: what may be sent now that a response came. -/
def sendNext (s : Srp) : Option Srp := do
  let sendSrp (s : Srp) : Option Srp := if s.iSrpWaitQueue = [] then some s else s.sendSrpCommand
  let sendWnsrp (s : Srp) : Option Srp :=
    if s.iActiveWnsrpCommandSave.length < s.iSrpWaitQueue.length then s.sendWnsrpCommand
    else some s
  match s.iCurWnsrpStatus with
  | .NO_WNSRP_SUPPORT => sendSrp s
  | .WNSRP_TX_SUPPORT => (sendSrp s).bind sendWnsrp
  | .WNSRP_FULL_SUPPORT => sendWnsrp s

/-- `Srp_1_3`: a response in `STS_WAIT_RESPONSE`. -/
def Srp_1_3 (s : Srp) (pPkt : Frame) (event : SrpEvent) : Option Srp := do
  let (isWaiting, s) ← match event with
    | .EV_WNSRP_RESPONSE => s.wnsrpResponse pPkt.seqNum
    | .EV_NSRP_RESPONSE => s.nsrpResponse pPkt.seqNum
    | .EV_RESPONSE => s.srpResponse
    | _ => some (false, s)
  if isWaiting then
    let s ← s.sendNext
    if s.iSrpCommandSave.isTimerActive = false ∧ s.iActiveWnsrpCommandSave = [] then
      some { s with iStatus := .STS_IDLE }
    else some s
  else some s

def SrpN400Check (s : Srp) (timer : SRPRespTimer) : Bool :=
  decide (timer.N400Counter < s.iN400MaxCounter)

/-- The end of `Srp_1_4` once a command is given up. -/
def transmissionFailure (s : Srp) : Srp :=
  let s := { s with failures := s.failures + 1 }
  if s.iObserver then s
  else
    match s.iCurWnsrpStatus with
    | .NO_WNSRP_SUPPORT => { s with iStatus := .STS_IDLE }
    | .WNSRP_TX_SUPPORT | .WNSRP_FULL_SUPPORT =>
      if s.iSrpWaitQueue ≠ [] then { s with iStatus := .STS_IDLE } else s

/-- `Srp_1_4`: a T401 timer expired in `STS_WAIT_RESPONSE`. -/
def Srp_1_4 (s : Srp) (id : Nat) : Option Srp :=
  if s.iSrpCommandSave.timerID = id then do
    let pPkt ← s.iSrpCommandSave.pPkt
    if s.SrpN400Check s.iSrpCommandSave = false then
      some ((s.SrpCommandClear pPkt.seqNum).releaseSrpTimer).transmissionFailure
    else
      let s := s.LowerLayerTx pPkt
      some { s with iSrpCommandSave := { s.iSrpCommandSave with
        N400Counter := s.iSrpCommandSave.N400Counter + 1 } }
  else if id < s.iWNSRPTxWindow then do
    let timer ← s.FindActiveWnsrpTimer id
    let pPkt ← (s.iWnsrpCommandSave timer).pPkt
    if s.SrpN400Check (s.iWnsrpCommandSave timer) = false then
      some ((s.SrpCommandClear pPkt.seqNum).releaseWnsrpTimer timer).transmissionFailure
    else
      let s := s.LowerLayerTx pPkt
      some (s.setTimer timer { s.iWnsrpCommandSave timer with
        N400Counter := (s.iWnsrpCommandSave timer).N400Counter + 1 })
  else some s

/-! ## 4. The receiver -/

def FreeRxFrag (s : Srp) : Srp := { s with iFreeRxFragList := s.iFreeRxFragList + 1 }

/-- `AddPendingRxFrag`: before the first entry with a larger sequence number. -/
def addPending (frag : Packet) : List Packet → List Packet
  | [] => [frag]
  | cur :: rest => if cur.seqNum > frag.seqNum then frag :: cur :: rest
      else cur :: addPending frag rest

def SrpMsgCopy (s : Srp) (inPkt : Frame) : Bool × Srp :=
  if inPkt.chunk.data.length > MAX_SIZE_OF_SRP_PDU then (false, s)
  else if s.iFreeRxFragList = 0 then (false, s)
  else (true, { s with
    iFreeRxFragList := s.iFreeRxFragList - 1
    iPendingRxFragList := addPending ⟨inPkt.seqNum % 256, inPkt.chunk⟩ s.iPendingRxFragList })

def CheckPendingRxList (s : Srp) (seqNum : Nat) : Bool :=
  s.iPendingRxFragList.any (fun data => data.seqNum == seqNum)

def CheckWNSRPRetrans (s : Srp) (seqNum : Nat) : Bool :=
  if s.iOldestWNSRPRetransSeqNum < s.iRecvSeqNumber then
    decide (seqNum < s.iRecvSeqNumber ∧ seqNum > s.iOldestWNSRPRetransSeqNum)
  else decide (seqNum < s.iRecvSeqNumber ∨ seqNum > s.iOldestWNSRPRetransSeqNum)

/-- `LowerLayerTx(SrpResponseCreate(..))`. -/
def respond (s : Srp) (pPkt : Frame) (header : Header) : Srp :=
  s.LowerLayerTx (SrpResponseCreate pPkt header)

/-- `CheckRxSeqNum`: whether the command is to be stored, and the endpoint with the response to
    a repeated command sent. -/
def CheckRxSeqNum (s : Srp) (pPkt : Frame) (header : Header) : Bool × Srp :=
  let retrans := if s.CheckWNSRPRetrans pPkt.seqNum then s.respond pPkt header else s
  match header with
  | .WNSRP_RESPONSE_HEADER =>
    if s.CheckPendingRxList pPkt.seqNum then (false, s.respond pPkt header)
    else
      let endSeqNum := add32 s.iRecvSeqNumber s.iWNSRPRxWindow % 256
      if endSeqNum > s.iRecvSeqNumber then
        if pPkt.seqNum < s.iRecvSeqNumber ∨ pPkt.seqNum > endSeqNum then (false, retrans)
        else (true, s)
      else if pPkt.seqNum ≥ s.iRecvSeqNumber ∨ pPkt.seqNum ≤ endSeqNum then (true, s)
      else (false, retrans)
  | .NSRP_RESPONSE_HEADER | .SRP_RESPONSE_HEADER =>
    if pPkt.seqNum ≠ s.iRecvSeqNumber then
      if (pPkt.seqNum + 1) % 256 = s.iRecvSeqNumber then (false, s.respond pPkt header)
      else (false, s)
    else (true, s)
  | .SRP_COMMAND_HEADER | .WNSRP_COMMAND_HEADER => (false, s)

/-- The loop of `Srp_0_2` over the pending list. -/
def deliver (s : Srp) : List Packet → Srp
  | [] => { s with iPendingRxFragList := [] }
  | rxData :: rest =>
    if rxData.seqNum = s.iRecvSeqNumber then
      deliver ((s.UpperLayerTx rxData.chunk).FreeRxFrag).SrpRecvSeqCount rest
    else { s with iPendingRxFragList := rxData :: rest }

/-- The response header `Srp_0_2` answers an event with. -/
def responseHeader (s : Srp) (event : SrpEvent) : Header :=
  if event = .EV_WNSRP_COMMAND then .WNSRP_RESPONSE_HEADER
  else if s.iUseNSRP then .NSRP_RESPONSE_HEADER
  else .SRP_RESPONSE_HEADER

/-- What `Srp_0_2` does on the first command: WNSRP always starts with 0. -/
def firstCommand (s : Srp) (pPkt : Frame) (event : SrpEvent) : Srp :=
  if s.iFirstCmd then
    { s with
      iRecvSeqNumber := if event = .EV_WNSRP_COMMAND then 0 else pPkt.seqNum % 256
      iFirstCmd := false }
  else s

/-- `Srp_0_2`: a command, in either status. -/
def Srp_0_2 (s : Srp) (pPkt : Frame) (event : SrpEvent) : Srp :=
  let header := s.responseHeader event
  let s := s.firstCommand pPkt event
  match s.CheckRxSeqNum pPkt header with
  | (false, s) => s
  | (true, s) =>
    match s.SrpMsgCopy pPkt with
    | (false, s) => s
    | (true, s) => (s.respond pPkt header).deliver s.iPendingRxFragList

/-! ## 5. The events -/

/-- `SrpN402Count`, `SrpN402Check` and the change of mode, when a response that is not WNSRP
    comes in `WNSRP_TX_SUPPORT`. -/
def countN402 (s : Srp) : Srp :=
  if s.iCurWnsrpStatus = .WNSRP_TX_SUPPORT then
    let s := { s with iN402Counter := s.iN402Counter + 1 }
    if s.iN402Counter < s.iN402MaxCounter then s else s.WnsrpStatusSet .NO_WNSRP_SUPPORT
  else s

/-- `SrpGetEventNoFromAL1`, for a frame whose check sequence and CCSRL octet are right. -/
def SrpGetEventNoFromAL1 (s : Srp) (pPkt : Frame) : SrpEvent × Srp :=
  match pPkt.header with
  | .SRP_COMMAND_HEADER =>
    (.EV_COMMAND,
      if s.iCurWnsrpStatus = .WNSRP_TX_SUPPORT ∧ s.iFirstCmd ∧ pPkt.seqNum ≠ 0 then
        s.WnsrpStatusSet .NO_WNSRP_SUPPORT
      else s)
  | .SRP_RESPONSE_HEADER =>
    let s := s.countN402
    (if s.iUseNSRP ∧ s.iFirstNSRPResp then .EV_NOP else .EV_RESPONSE, s)
  | .NSRP_RESPONSE_HEADER =>
    let s := s.countN402
    if s.iUseNSRP then (.EV_NSRP_RESPONSE, { s with iFirstNSRPResp := true })
    else (.EV_RESPONSE, s)
  | .WNSRP_COMMAND_HEADER =>
    if s.iHandleWNSRP = false ∨ s.iCurWnsrpStatus = .NO_WNSRP_SUPPORT then (.EV_NOP, s)
    else (.EV_WNSRP_COMMAND,
      if s.iCurWnsrpStatus = .WNSRP_TX_SUPPORT then s.WnsrpStatusSet .WNSRP_FULL_SUPPORT else s)
  | .WNSRP_RESPONSE_HEADER =>
    if s.iHandleWNSRP = false ∨ s.iCurWnsrpStatus = .NO_WNSRP_SUPPORT then (.EV_NOP, s)
    else (.EV_WNSRP_RESPONSE,
      if s.iCurWnsrpStatus = .WNSRP_TX_SUPPORT then s.WnsrpStatusSet .WNSRP_FULL_SUPPORT else s)

/-- The `data` of `SrpStateChange`. -/
inductive EventData where
  | null
  | pPkt (f : Frame)
  | id (timerID : Nat)

def SrpStateChange (s : Srp) (event : SrpEvent) (data : EventData) : Option Srp :=
  match iSrpStateTable s.iStatus event, data with
  | .ACTION_NOP, _ => some s
  | .ACTION_0_1, _ => s.Srp_0_1
  | .ACTION_0_2, .pPkt f => some (s.Srp_0_2 f event)
  | .ACTION_1_1, _ => s.Srp_1_1
  | .ACTION_1_3, .pPkt f => s.Srp_1_3 f event
  | .ACTION_1_4, .id timerID => s.Srp_1_4 timerID
  | _, _ => none

def LowerLayerRx (s : Srp) (pPkt : Frame) : Option Srp :=
  (s.SrpGetEventNoFromAL1 pPkt).2.SrpStateChange (s.SrpGetEventNoFromAL1 pPkt).1 (.pPkt pPkt)

def TimeoutOccurred (s : Srp) (timerID : Nat) : Option Srp :=
  s.SrpStateChange .EV_TIMEOUT (.id timerID)

/-- The CCSRL chunks of a message, with the mark of the last one; a size of 0 turns CCSRL off. -/
def ccsrlChunks (iCcsrlSduSize : Nat) : Nat → List UInt8 → List (Bool × List UInt8)
  | 0, _ => []
  | fuel + 1, msg =>
    if iCcsrlSduSize = 0 then [(true, msg)]
    else if msg = [] then []
    else if iCcsrlSduSize ≥ msg.length then [(true, msg)]
    else (false, msg.take iCcsrlSduSize) ::
      ccsrlChunks iCcsrlSduSize fuel (msg.drop iCcsrlSduSize)

/-- One turn of the loop of `UpperLayerRx`: a sequence number, and the packet in the queue. -/
def queueChunk (s : Srp) (c : Bool × List UInt8) : Srp :=
  let chunk : Chunk := ⟨s.accepted.length, c.1, c.2⟩
  let pkt : Packet := ⟨s.iSendSeqNumber % 256, chunk⟩
  { s.SrpSendSeqCount with
    iSrpWaitQueue := s.iSrpWaitQueue ++ [pkt], accepted := s.accepted ++ [chunk] }

/-- The loop of `UpperLayerRx`: all chunks of the message in the queue. -/
def queueMessage (s : Srp) (msg : List UInt8) : Srp :=
  (ccsrlChunks s.iCcsrlSduSize (msg.length + 1) msg).foldl queueChunk s

def UpperLayerRx (s : Srp) (msg : List UInt8) : Option Srp :=
  (s.queueMessage msg).SrpStateChange .EV_PDU .null

/-- Whether the T401 timer with this id runs. -/
def running (s : Srp) (timerID : Nat) : Bool :=
  (s.iSrpCommandSave.isTimerActive && s.iSrpCommandSave.timerID == timerID) ||
    (List.range s.iWNSRPTxWindow).any fun i =>
      (s.iWnsrpCommandSave i).isTimerActive && (s.iWnsrpCommandSave i).timerID == timerID

end Srp

end OpenCore.H324
