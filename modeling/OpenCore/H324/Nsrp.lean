/-
  File:      OpenCore/H324/Nsrp.lean
  Subject:   STOP AND WAIT: two endpoints in NSRP mode over channels that lose and repeat frames
             and keep their order.

  A channel is the history of what one side sent, and the position in it where the other side
  reads: the position never goes back (the order is kept), it may skip frames (they are lost) and
  it may stay (a frame is repeated). Each endpoint sends and receives.

  Here are the system, what each event does to an endpoint in NSRP mode, and the sender's invariant
  `Sender`, which every event keeps (`Sender.start`, `Sender.release`, `Sender.repeated`, ..).
-/
import OpenCore.H324.Srp

namespace OpenCore.H324

open List Option

/-! ## 1. Two endpoints and their channels -/

/-- The two endpoints, and for each the position of the frame it read last in the other's
    history. -/
structure Link where
  srp : Bool → Srp
  read : Bool → Nat

/-- What happens at side `x`: the upper layer sends a message, frame `n` of the peer's history
    arrives, a T401 timer expires. -/
inductive Act where
  | send (x : Bool) (msg : List UInt8)
  | receive (x : Bool) (n : Nat)
  | expire (x : Bool) (timerID : Nat)

namespace Link

def set (l : Link) (x : Bool) (s : Srp) : Link := { l with srp := Function.update l.srp x s }

def step (l : Link) : Act → Option Link
  | .send x msg => ((l.srp x).UpperLayerRx msg).map (l.set x)
  | .receive x n =>
    if l.read x ≤ n then do
      let f ← (l.srp !x).iLLPortOut[n]?
      let s ← (l.srp x).LowerLayerRx f
      some { l.set x s with read := Function.update l.read x n }
    else none
  | .expire x timerID =>
    if (l.srp x).running timerID then ((l.srp x).TimeoutOccurred timerID).map (l.set x)
    else none

end Link

/-- An endpoint for which `DisableWNSRPSupport` was called before `SrpInitL`. -/
def nsrpEndpoint (retries : Int) (observer : Bool) (sduSize txWindow rxWindow : Nat) : Srp :=
  (({ iN400MaxCounter := retries, iObserver := observer, iCcsrlSduSize := sduSize,
      iWNSRPTxWindow := txWindow, iWNSRPRxWindow := rxWindow } : Srp).DisableWNSRPSupport).SrpInitL

/-- `l` is the start of two endpoints in NSRP mode. -/
structure Link.NsrpStart (l : Link) : Prop where
  srp : ∀ x, ∃ retries observer sduSize txWindow rxWindow,
    l.srp x = nsrpEndpoint retries observer sduSize txWindow rxWindow
  read : ∀ x, l.read x = 0

/-! ## 2. One endpoint in NSRP mode -/

variable {s : Srp} {p : Packet} {rest : List Packet} {f : Frame}

namespace Srp

/-- The mode: no WNSRP timer is in use, nothing waits in the receiver, and only SRP commands and
    NSRP responses were sent. -/
structure StopAndWait (s : Srp) : Prop where
  status : s.iCurWnsrpStatus = .NO_WNSRP_SUPPORT
  nsrp : s.iUseNSRP = true
  noActive : s.iActiveWnsrpCommandSave = []
  noTimer : ∀ i, (s.iWnsrpCommandSave i).isTimerActive = false
  noPending : s.iPendingRxFragList = []
  frames : ∀ f ∈ s.iLLPortOut, f.header = .SRP_COMMAND_HEADER ∨ f.header = .NSRP_RESPONSE_HEADER

/-- Packet `p` on the wire as an SRP command, with `iSrpCommandSave` waiting for its response. -/
def started (s : Srp) (p : Packet) : Srp :=
  { s with
    iLLPortOut := s.iLLPortOut ++ [SrpCommandCreate p .SRP_COMMAND_HEADER]
    iSrpCommandSave := SrpT401Start s.iSrpCommandSave (SrpCommandCreate p .SRP_COMMAND_HEADER) }

variable {s' : Srp}

theorem sendSrpCommand_eq (h : s.sendSrpCommand = some s') :
    ∃ p rest, s.iSrpWaitQueue = p :: rest ∧ s' = s.started p := by
  cases hq : s.iSrpWaitQueue with
  | nil => simp [sendSrpCommand, SrpSendWaitGet, hq] at h
  | cons p rest =>
    simp [sendSrpCommand, SrpSendWaitGet, hq] at h
    exact ⟨p, rest, rfl, h.symm⟩

/-- A PDU event in NSRP mode: nothing while a response is awaited, else the head of the queue is
    sent. -/
theorem StopAndWait.pdu (hs : s.StopAndWait)
    (h : s.SrpStateChange .EV_PDU .null = some s') :
    (s.iStatus = .STS_WAIT_RESPONSE ∧ s' = s) ∨
    (s.iStatus = .STS_IDLE ∧ ∃ p rest, s.iSrpWaitQueue = p :: rest ∧
      s' = { s.started p with iStatus := .STS_WAIT_RESPONSE }) := by
  cases hst : s.iStatus with
  | STS_WAIT_RESPONSE =>
    simp [SrpStateChange, hst, iSrpStateTable, Srp_1_1, hs.status] at h
    exact .inl ⟨rfl, h.symm⟩
  | STS_IDLE =>
    simp only [SrpStateChange, hst, iSrpStateTable, Srp_0_1, hs.status, bind_eq_bind,
      bind_eq_some_iff, some.injEq] at h
    obtain ⟨s1, h1, rfl⟩ := h
    obtain ⟨p, rest, hq, rfl⟩ := sendSrpCommand_eq h1
    exact .inr ⟨rfl, p, rest, hq, rfl⟩

@[simp] theorem SrpCommandClear_active (s : Srp) (n : Nat) :
    (s.SrpCommandClear n).iActiveWnsrpCommandSave = s.iActiveWnsrpCommandSave := rfl

@[simp] theorem SrpCommandClear_timer (s : Srp) (n : Nat) :
    (s.SrpCommandClear n).iSrpCommandSave = s.iSrpCommandSave := rfl

/-- What is sent once nothing is awaited: the head of the queue, if there is one. -/
def nextCommand (s : Srp) : Srp :=
  match s.iSrpWaitQueue with
  | [] => { s with iStatus := .STS_IDLE }
  | p :: _ => s.started p

theorem nextCommand_nil (h : s.iSrpWaitQueue = []) :
    s.nextCommand = { s with iStatus := .STS_IDLE } := by
  unfold nextCommand
  split
  · rfl
  · next h' => rw [h] at h'; exact absurd h' (by simp)

theorem nextCommand_cons
    (h : s.iSrpWaitQueue = p :: rest) : s.nextCommand = s.started p := by
  unfold nextCommand
  split
  · next h' => rw [h] at h'; exact absurd h' (by simp)
  · next h' => rw [h] at h'; rw [(cons.inj h').1]

/-- The state after the response that ends the wait. -/
def acknowledged (s : Srp) (seqNum : Nat) : Srp :=
  ((s.SrpCommandClear seqNum).releaseSrpTimer).nextCommand

theorem sendNext_eq (h1 : s.iActiveWnsrpCommandSave = [])
    (h2 : s.iCurWnsrpStatus = .NO_WNSRP_SUPPORT) (h3 : s.iSrpCommandSave.isTimerActive = false)
    (h : (s.sendNext.bind fun s =>
      if s.iSrpCommandSave.isTimerActive = false ∧ s.iActiveWnsrpCommandSave = [] then
        some { s with iStatus := .STS_IDLE } else some s) = some s') : s' = s.nextCommand := by
  cases hq : s.iSrpWaitQueue with
  | nil =>
    have e : s.sendNext = some s := by simp [sendNext, h2, hq]
    rw [e, bind_some, if_pos ⟨h3, h1⟩] at h
    rw [nextCommand_nil hq]
    exact (some.inj h).symm
  | cons p rest =>
    have e : s.sendNext = some (s.started p) := by
      simp [sendNext, h2, hq, sendSrpCommand, SrpSendWaitGet]
      rfl
    have ha : (s.started p).iSrpCommandSave.isTimerActive = true := rfl
    rw [e, bind_some, if_neg (fun hc => by rw [ha] at hc; exact absurd hc.1 (by decide))]
      at h
    rw [nextCommand_cons hq]
    exact (some.inj h).symm

theorem StopAndWait.response (hs : s.StopAndWait)
    (hf : f.header = .NSRP_RESPONSE_HEADER) (h : s.LowerLayerRx f = some s') :
    let t : Srp := { s with iFirstNSRPResp := true }
    (s.iStatus = .STS_IDLE ∧ s' = t) ∨
    (s.iStatus = .STS_WAIT_RESPONSE ∧ s.iSrpCommandSave.isTimerActive = false ∧
      s' = t.SrpCommandClear f.seqNum) ∨
    (s.iStatus = .STS_WAIT_RESPONSE ∧ s.iSrpCommandSave.isTimerActive = true ∧
      ∃ g, s.iSrpCommandSave.pPkt = some g ∧
        (f.seqNum ≠ g.seqNum ∧ s' = t.SrpCommandClear f.seqNum ∨
          f.seqNum = g.seqNum ∧ s' = t.acknowledged f.seqNum)) := by
  intro t
  have hev : s.SrpGetEventNoFromAL1 f = (.EV_NSRP_RESPONSE, t) := by
    simp [SrpGetEventNoFromAL1, hf, countN402, hs.status, hs.nsrp, t]
  have ht1 : t.iActiveWnsrpCommandSave = [] := hs.noActive
  have ht2 : t.iCurWnsrpStatus = .NO_WNSRP_SUPPORT := hs.status
  rw [LowerLayerRx, hev] at h
  simp only [SrpStateChange] at h
  cases hst : s.iStatus with
  | STS_IDLE =>
    have ht : t.iStatus = .STS_IDLE := hst
    rw [ht] at h
    exact .inl ⟨rfl, (some.inj h).symm⟩
  | STS_WAIT_RESPONSE =>
    have ht : t.iStatus = .STS_WAIT_RESPONSE := hst
    rw [ht] at h
    refine .inr ?_
    replace h : t.Srp_1_3 f .EV_NSRP_RESPONSE = some s' := h
    cases ha : s.iSrpCommandSave.isTimerActive with
    | false =>
      have ha' : t.iSrpCommandSave.isTimerActive = false := ha
      simp [Srp_1_3, nsrpResponse, ht1, scanActive, ha'] at h
      exact .inl ⟨rfl, rfl, h.symm⟩
    | true =>
      have ha' : t.iSrpCommandSave.isTimerActive = true := ha
      refine .inr ⟨rfl, rfl, ?_⟩
      cases hp : s.iSrpCommandSave.pPkt with
      | none =>
        have hp' : t.iSrpCommandSave.pPkt = none := hp
        simp [Srp_1_3, nsrpResponse, ht1, scanActive, ha', hp'] at h
      | some g =>
        refine ⟨g, rfl, ?_⟩
        have hp' : t.iSrpCommandSave.pPkt = some g := hp
        by_cases hg : f.seqNum = g.seqNum
        · refine .inr ⟨hg, ?_⟩
          simp only [Srp_1_3, nsrpResponse, ht1, scanActive, ha', hp', hg,
            SrpCommandClear_active, SrpCommandClear_timer, bind_eq_bind,
            bind_some, if_true] at h
          rw [hg]
          exact sendNext_eq ht1 ht2 rfl h
        · refine .inl ⟨hg, ?_⟩
          simp [Srp_1_3, nsrpResponse, ht1, scanActive, ha', hp', hg] at h
          exact h.symm

/-- The state after the expected command: it is answered and handed up. -/
def taken (s : Srp) (f : Frame) : Srp :=
  ((s.respond f .NSRP_RESPONSE_HEADER).UpperLayerTx f.chunk).SrpRecvSeqCount

/-- A command in NSRP mode, from a peer whose numbers are octets. -/
theorem StopAndWait.command (hs : s.StopAndWait)
    (hf : f.header = .SRP_COMMAND_HEADER) (h256 : f.seqNum < 256)
    (h : s.LowerLayerRx f = some s') :
    let t := s.firstCommand f .EV_COMMAND
    s' = t ∨
    ((f.seqNum + 1) % 256 = t.iRecvSeqNumber ∧ s' = t.respond f .NSRP_RESPONSE_HEADER) ∨
    (f.seqNum = t.iRecvSeqNumber ∧ s' = t.taken f) := by
  intro t
  have hev : s.SrpGetEventNoFromAL1 f = (.EV_COMMAND, s) := by
    simp [SrpGetEventNoFromAL1, hf, hs.status]
  have h02 : s' = s.Srp_0_2 f .EV_COMMAND := by
    rw [LowerLayerRx, hev] at h
    cases hst : s.iStatus with
    | STS_IDLE | STS_WAIT_RESPONSE =>
      simp only [SrpStateChange, hst, iSrpStateTable] at h
      exact (some.inj h).symm
  have hh : s.responseHeader .EV_COMMAND = .NSRP_RESPONSE_HEADER := by
    simp [responseHeader, hs.nsrp]
  have hp : t.iPendingRxFragList = [] := by
    simp only [t, firstCommand]
    split <;> exact hs.noPending
  have e := h02
  simp only [Srp_0_2, hh] at e
  rw [show s.firstCommand f .EV_COMMAND = t from rfl] at e
  by_cases h1 : f.seqNum = t.iRecvSeqNumber
  · have hc : t.CheckRxSeqNum f .NSRP_RESPONSE_HEADER = (true, t) := by
      simp [CheckRxSeqNum, h1]
    rw [hc] at e
    by_cases h2 : f.chunk.data.length > MAX_SIZE_OF_SRP_PDU
    · have hm : t.SrpMsgCopy f = (false, t) := by rw [SrpMsgCopy, if_pos h2]
      simp only [hm] at e
      exact .inl e
    by_cases h3 : t.iFreeRxFragList = 0
    · have hm : t.SrpMsgCopy f = (false, t) := by rw [SrpMsgCopy, if_neg h2, if_pos h3]
      simp only [hm] at e
      exact .inl e
    · refine .inr (.inr ⟨h1, ?_⟩)
      have hm : t.SrpMsgCopy f = (true, { t with
          iFreeRxFragList := t.iFreeRxFragList - 1, iPendingRxFragList := [⟨f.seqNum, f.chunk⟩] }) := by
        rw [SrpMsgCopy, if_neg h2, if_neg h3, hp, addPending, Nat.mod_eq_of_lt h256]
      simp only [hm, deliver] at e
      have hr : f.seqNum = ({ t with
          iFreeRxFragList := t.iFreeRxFragList - 1
          iPendingRxFragList := [⟨f.seqNum, f.chunk⟩] }.respond f
            .NSRP_RESPONSE_HEADER).iRecvSeqNumber := h1
      rw [if_pos hr] at e
      have hfree : t.iFreeRxFragList - 1 + 1 = t.iFreeRxFragList := by omega
      rw [e]
      simp only [respond, LowerLayerTx, UpperLayerTx, FreeRxFrag, SrpRecvSeqCount, taken, hfree]
      rw [← hp]
  · by_cases h2 : (f.seqNum + 1) % 256 = t.iRecvSeqNumber
    · have hc : t.CheckRxSeqNum f .NSRP_RESPONSE_HEADER =
          (false, t.respond f .NSRP_RESPONSE_HEADER) := by
        simp [CheckRxSeqNum, h1, h2]
      rw [hc] at e
      exact .inr (.inl ⟨h2, e⟩)
    · have hc : t.CheckRxSeqNum f .NSRP_RESPONSE_HEADER = (false, t) := by
        simp [CheckRxSeqNum, h1, h2]
      rw [hc] at e
      exact .inl e

/-- The state after `iSrpCommandSave` is sent once more. -/
def repeated (s : Srp) (f : Frame) : Srp :=
  { s.LowerLayerTx f with iSrpCommandSave := { s.iSrpCommandSave with
      N400Counter := s.iSrpCommandSave.N400Counter + 1 } }

/-- The state after the command is given up. -/
def givenUp (s : Srp) (f : Frame) : Srp :=
  ((s.SrpCommandClear f.seqNum).releaseSrpTimer).transmissionFailure

/-- The expiry of a running timer in NSRP mode. -/
theorem StopAndWait.timeout {timerID : Nat} (hs : s.StopAndWait)
    (hr : s.running timerID) (h : s.TimeoutOccurred timerID = some s') :
    s.iSrpCommandSave.isTimerActive = true ∧
    ((s.iStatus = .STS_IDLE ∧ s' = s) ∨
     (s.iStatus = .STS_WAIT_RESPONSE ∧ ∃ f, s.iSrpCommandSave.pPkt = some f ∧
      (s.iSrpCommandSave.N400Counter < s.iN400MaxCounter ∧ s' = s.repeated f ∨
        ¬ s.iSrpCommandSave.N400Counter < s.iN400MaxCounter ∧ s' = s.givenUp f))) := by
  have hany : ((range s.iWNSRPTxWindow).any fun i =>
      (s.iWnsrpCommandSave i).isTimerActive && (s.iWnsrpCommandSave i).timerID == timerID) =
      false := by
    rw [List.any_eq_false]
    intro i _
    simp [hs.noTimer i]
  rw [running, hany, Bool.or_false, Bool.and_eq_true, beq_iff_eq] at hr
  refine ⟨hr.1, ?_⟩
  rw [TimeoutOccurred] at h
  cases hst : s.iStatus with
  | STS_IDLE =>
    simp only [SrpStateChange, hst, iSrpStateTable] at h
    exact .inl ⟨rfl, (some.inj h).symm⟩
  | STS_WAIT_RESPONSE =>
    refine .inr ⟨rfl, ?_⟩
    simp only [SrpStateChange, hst, iSrpStateTable, Srp_1_4, if_pos hr.2] at h
    obtain ⟨f, hf, h⟩ := bind_eq_some_iff.mp h
    refine ⟨f, hf, ?_⟩
    by_cases hn : s.iSrpCommandSave.N400Counter < s.iN400MaxCounter
    · simp [SrpN400Check, hn] at h
      exact .inl ⟨hn, h.symm⟩
    · simp [SrpN400Check, hn] at h
      exact .inr ⟨hn, h.symm⟩

/-! ## 3. The sender alone -/

/-- How many command frames with the chunk `num` are on the wire. -/
def sentTimes (s : Srp) (num : Nat) : Nat :=
  s.iLLPortOut.countP fun f => f.header = .SRP_COMMAND_HEADER ∧ f.chunk.num = num

/-- The sender's invariant: the queue holds chunks not yet acknowledged, in order; the command that
    waits is its head, and everything behind the head is still unsent. -/
structure Sender (s : Srp) : Prop where
  seq : s.iSendSeqNumber = s.accepted.length % 256
  nums : ∀ i (c : Chunk), s.accepted[i]? = some c → c.num = i
  queued : ∀ p ∈ s.iSrpWaitQueue, p.seqNum = p.chunk.num % 256 ∧
    s.accepted[p.chunk.num]? = some p.chunk
  sorted : s.iSrpWaitQueue.Pairwise fun p q => p.chunk.num < q.chunk.num
  sent : ∀ f ∈ s.iLLPortOut, f.header = .SRP_COMMAND_HEADER →
    f.seqNum = f.chunk.num % 256 ∧ s.accepted[f.chunk.num]? = some f.chunk
  inOrder : s.iLLPortOut.Pairwise fun f g => f.header = .SRP_COMMAND_HEADER →
    g.header = .SRP_COMMAND_HEADER → f.chunk.num ≤ g.chunk.num
  active : s.iSrpCommandSave.isTimerActive = true → ∃ p rest, s.iSrpWaitQueue = p :: rest ∧
    s.iSrpCommandSave.pPkt = some (SrpCommandCreate p .SRP_COMMAND_HEADER) ∧
    s.iStatus = .STS_WAIT_RESPONSE ∧
    0 ≤ s.iSrpCommandSave.N400Counter ∧
    s.iSrpCommandSave.N400Counter.toNat ≤ s.iN400MaxCounter.toNat ∧
    s.sentTimes p.chunk.num = s.iSrpCommandSave.N400Counter.toNat + 1 ∧
    ∀ f ∈ s.iLLPortOut, f.header = .SRP_COMMAND_HEADER → f.chunk.num ≤ p.chunk.num
  inactive : s.iSrpCommandSave.isTimerActive = false → ∀ p ∈ s.iSrpWaitQueue,
    ∀ f ∈ s.iLLPortOut, f.header = .SRP_COMMAND_HEADER → f.chunk.num < p.chunk.num
  times : ∀ num, s.sentTimes num ≤ s.iN400MaxCounter.toNat + 1

/-- Two states of one endpoint that differ in the receiver only. -/
structure SameSender (s s' : Srp) : Prop where
  seq : s'.iSendSeqNumber = s.iSendSeqNumber
  accepted : s'.accepted = s.accepted
  queue : s'.iSrpWaitQueue = s.iSrpWaitQueue
  timer : s'.iSrpCommandSave = s.iSrpCommandSave
  status : s'.iStatus = s.iStatus
  retries : s'.iN400MaxCounter = s.iN400MaxCounter
  observer : s'.iObserver = s.iObserver
  failures : s'.failures = s.failures
  out : ∃ t, s'.iLLPortOut = s.iLLPortOut ++ t ∧ ∀ f ∈ t, f.header ≠ .SRP_COMMAND_HEADER

theorem SameSender.mem_command (h : SameSender s s')
    (hf : f.header = .SRP_COMMAND_HEADER) : f ∈ s'.iLLPortOut ↔ f ∈ s.iLLPortOut := by
  obtain ⟨t, ht, hn⟩ := h.out
  rw [ht, mem_append]
  constructor
  · rintro (h1 | h1)
    · exact h1
    · exact absurd hf (hn f h1)
  · exact .inl

theorem SameSender.sentTimes (h : SameSender s s') (num : Nat) :
    s'.sentTimes num = s.sentTimes num := by
  obtain ⟨t, ht, hn⟩ := h.out
  have h0 : (t.countP fun f => f.header = .SRP_COMMAND_HEADER ∧ f.chunk.num = num) = 0 := by
    rw [countP_eq_zero]
    intro f hf
    simp [hn f hf]
  rw [Srp.sentTimes, Srp.sentTimes, ht, countP_append, h0, Nat.add_zero]

theorem Sender.of_same (hs : s.Sender) (h : SameSender s s') : s'.Sender where
  seq := by rw [h.seq, h.accepted]; exact hs.seq
  nums := by rw [h.accepted]; exact hs.nums
  queued := by rw [h.accepted, h.queue]; exact hs.queued
  sorted := by rw [h.queue]; exact hs.sorted
  sent := by
    intro f hf hc
    rw [h.accepted]
    exact hs.sent f ((h.mem_command hc).mp hf) hc
  inOrder := by
    obtain ⟨t, ht, hn⟩ := h.out
    rw [ht, pairwise_append]
    refine ⟨hs.inOrder, ?_, fun f _ g hg _ hc => absurd hc (hn g hg)⟩
    exact Pairwise.imp_of_mem (R := fun _ _ => True)
      (fun hf _ _ hc => absurd hc (hn _ hf)) (pairwise_of_forall fun _ _ => trivial)
  active := by
    rw [h.timer, h.queue, h.status, h.retries]
    intro ha
    obtain ⟨p, rest, h1, h2, h3, h4, h5, h6, h7⟩ := hs.active ha
    refine ⟨p, rest, h1, h2, h3, h4, h5, by rw [h.sentTimes]; exact h6, fun f hf hc => ?_⟩
    exact h7 f ((h.mem_command hc).mp hf) hc
  inactive := by
    rw [h.timer, h.queue]
    exact fun ha p hp f hf hc => hs.inactive ha p hp f ((h.mem_command hc).mp hf) hc
  times := by
    intro num
    rw [h.sentTimes, h.retries]
    exact hs.times num

/-- A sequence number follows the count of the chunks. -/
theorem nextSeq_mod (n : Nat) : nextSeq (n % 256) = (n + 1) % 256 := by
  unfold nextSeq
  split <;> omega

theorem queueChunk_eq (s : Srp) (c : Bool × List UInt8) :
    s.queueChunk c = { s with
      iSendSeqNumber := nextSeq s.iSendSeqNumber
      iSrpWaitQueue := s.iSrpWaitQueue ++
        [⟨s.iSendSeqNumber % 256, ⟨s.accepted.length, c.1, c.2⟩⟩]
      accepted := s.accepted ++ [⟨s.accepted.length, c.1, c.2⟩] } := by
  unfold queueChunk SrpSendSeqCount nextSeq
  split <;> rfl

theorem getElem?_concat_of_some {α : Type*} {l : List α} {i : Nat} {a b : α}
    (h : l[i]? = some a) : (l ++ [b])[i]? = some a := by
  rw [List.getElem?_append_left (List.getElem?_eq_some_iff.mp h).1]
  exact h

theorem Sender.lt_accepted (hs : s.Sender) :
    (∀ p ∈ s.iSrpWaitQueue, p.chunk.num < s.accepted.length) ∧
    ∀ f ∈ s.iLLPortOut, f.header = .SRP_COMMAND_HEADER → f.chunk.num < s.accepted.length :=
  ⟨fun p hp => (List.getElem?_eq_some_iff.mp (hs.queued p hp).2).1,
   fun f hf hc => (List.getElem?_eq_some_iff.mp (hs.sent f hf hc).2).1⟩

theorem Sender.queueChunk (hs : s.Sender) (c : Bool × List UInt8) :
    (s.queueChunk c).Sender := by
  rw [queueChunk_eq]
  have hseq : s.iSendSeqNumber % 256 = s.accepted.length % 256 := by rw [hs.seq]; omega
  obtain ⟨hlt, hlt'⟩ := hs.lt_accepted
  refine { seq := ?_, nums := ?_, queued := ?_, sorted := ?_, sent := ?_, inOrder := hs.inOrder,
           active := ?_, inactive := ?_, times := hs.times }
  · show nextSeq s.iSendSeqNumber = (s.accepted ++ [_]).length % 256
    rw [hs.seq, nextSeq_mod, length_append, length_singleton]
  · intro i c' hi
    rw [getElem?_append] at hi
    split at hi
    · exact hs.nums i c' hi
    · rw [getElem?_singleton] at hi
      split at hi
      · cases hi
        show s.accepted.length = i
        omega
      · exact absurd hi (by simp)
  · intro p hp
    rcases mem_append.mp hp with h1 | h1
    · exact ⟨(hs.queued p h1).1, getElem?_concat_of_some (hs.queued p h1).2⟩
    · obtain rfl := mem_singleton.mp h1
      exact ⟨hseq, getElem?_concat_length⟩
  · rw [pairwise_append]
    refine ⟨hs.sorted, pairwise_singleton _ _, fun p hp q hq => ?_⟩
    obtain rfl := mem_singleton.mp hq
    exact hlt p hp
  · exact fun f hf hc => ⟨(hs.sent f hf hc).1, getElem?_concat_of_some (hs.sent f hf hc).2⟩
  · intro ha
    obtain ⟨p, rest, h1, h2⟩ := hs.active ha
    exact ⟨p, rest ++ [_], by rw [h1]; rfl, h2⟩
  · intro ha p hp f hf hc
    rcases mem_append.mp hp with h1 | h1
    · exact hs.inactive ha p h1 f hf hc
    · obtain rfl := mem_singleton.mp h1
      exact hlt' f hf hc

theorem Sender.queueMessage (hs : s.Sender) (msg : List UInt8) :
    (s.queueMessage msg).Sender := by
  unfold Srp.queueMessage
  generalize ccsrlChunks s.iCcsrlSduSize (msg.length + 1) msg = cs
  induction cs generalizing s with
  | nil => exact hs
  | cons c cs ih => exact ih (hs.queueChunk c)

theorem sentTimes_started (s : Srp) (p : Packet) (num : Nat) :
    (s.started p).sentTimes num = s.sentTimes num + if p.chunk.num = num then 1 else 0 := by
  show countP _ (s.iLLPortOut ++ [_]) = _
  rw [countP_append, countP_singleton]
  simp only [SrpCommandCreate, true_and, decide_eq_true_eq]
  rfl

/-- A packet that is unsent has not been counted. -/
theorem sentTimes_zero {num : Nat}
    (h : ∀ f ∈ s.iLLPortOut, f.header = .SRP_COMMAND_HEADER → f.chunk.num < num) :
    s.sentTimes num = 0 := by
  rw [sentTimes, countP_eq_zero]
  intro f hf hc
  have hc := of_decide_eq_true hc
  have := h f hf hc.1
  omega

/-- A frame of a command that no frame is ahead of is put behind what was sent. -/
theorem Sender.sends (hs : s.Sender) (hp : p ∈ s.iSrpWaitQueue)
    (hle : ∀ f ∈ s.iLLPortOut, f.header = .SRP_COMMAND_HEADER → f.chunk.num ≤ p.chunk.num) :
    let out := s.iLLPortOut ++ [SrpCommandCreate p .SRP_COMMAND_HEADER]
    (∀ f ∈ out, f.header = .SRP_COMMAND_HEADER →
      f.seqNum = f.chunk.num % 256 ∧ s.accepted[f.chunk.num]? = some f.chunk) ∧
    (out.Pairwise fun f g => f.header = .SRP_COMMAND_HEADER →
      g.header = .SRP_COMMAND_HEADER → f.chunk.num ≤ g.chunk.num) ∧
    ∀ f ∈ out, f.header = .SRP_COMMAND_HEADER → f.chunk.num ≤ p.chunk.num := by
  simp only [forall_mem_append, forall_mem_singleton, pairwise_append]
  exact ⟨⟨hs.sent, fun _ => hs.queued p hp⟩, ⟨hs.inOrder, pairwise_singleton _ _,
    fun f hf hc _ => hle f hf hc⟩, hle, fun _ => Nat.le_refl _⟩

theorem Sender.start (hs : s.Sender)
    (ha : s.iSrpCommandSave.isTimerActive = false) (hq : s.iSrpWaitQueue = p :: rest) :
    ({ s.started p with iStatus := .STS_WAIT_RESPONSE } : Srp).Sender := by
  have hp : p ∈ s.iSrpWaitQueue := by rw [hq]; exact mem_cons_self
  have hlow := hs.inactive ha p hp
  obtain ⟨hsent, hinOrder, hle⟩ := hs.sends hp fun f hf hc => Nat.le_of_lt (hlow f hf hc)
  refine { seq := hs.seq, nums := hs.nums, queued := hs.queued, sorted := hs.sorted,
           sent := hsent, inOrder := hinOrder, active := ?_, inactive := ?_, times := ?_ }
  · intro _
    refine ⟨p, rest, hq, rfl, rfl, Int.le_refl 0, Nat.zero_le _, ?_, hle⟩
    show (s.started p).sentTimes p.chunk.num = 1
    rw [sentTimes_started, sentTimes_zero hlow, if_pos rfl]
  · intro h0
    exact absurd h0 (by simp [started, SrpT401Start])
  · intro num
    show (s.started p).sentTimes num ≤ _
    rw [sentTimes_started]
    split
    · next h =>
        rw [← h, sentTimes_zero hlow]
        exact Nat.le_add_left 1 _
    · exact hs.times num

/-- A number that is not the waiting command's erases behind the head only. -/
theorem Sender.clear {n : Nat} (hs : s.Sender)
    (hn : ∀ f, s.iSrpCommandSave.isTimerActive = true → s.iSrpCommandSave.pPkt = some f →
      n ≠ f.seqNum) : (s.SrpCommandClear n).Sender := by
  have hsub : (s.SrpCommandClear n).iSrpWaitQueue.Sublist s.iSrpWaitQueue :=
    eraseP_sublist
  refine { seq := hs.seq, nums := hs.nums, queued := fun p hp => hs.queued p (hsub.mem hp),
           sorted := hs.sorted.sublist hsub, sent := hs.sent, inOrder := hs.inOrder, active := ?_,
           inactive := fun ha p hp => hs.inactive ha p (hsub.mem hp), times := hs.times }
  intro ha
  obtain ⟨p, rest, h1, h2, h3⟩ := hs.active ha
  refine ⟨p, rest.eraseP fun q => q.seqNum == n, ?_, h2, h3⟩
  show s.iSrpWaitQueue.eraseP _ = _
  rw [h1, eraseP_cons_of_neg]
  intro h
  exact hn _ ha h2 (beq_iff_eq.mp h).symm

/-- The command that waits is taken off the queue. -/
theorem Sender.release (hs : s.Sender)
    (ha : s.iSrpCommandSave.isTimerActive = true) (hq : s.iSrpWaitQueue = p :: rest) :
    ((s.SrpCommandClear p.seqNum).releaseSrpTimer).Sender ∧
    ((s.SrpCommandClear p.seqNum).releaseSrpTimer).iSrpWaitQueue = rest := by
  have hrest : ((s.SrpCommandClear p.seqNum).releaseSrpTimer).iSrpWaitQueue = rest := by
    show s.iSrpWaitQueue.eraseP _ = _
    rw [hq, eraseP_cons_of_pos (by simp)]
  have hmem : ∀ q ∈ rest, q ∈ s.iSrpWaitQueue := by
    intro q hq'
    rw [hq]
    exact mem_cons_of_mem p hq'
  obtain ⟨p', rest', h1, -, -, -, -, -, h7⟩ := hs.active ha
  rw [hq] at h1
  obtain ⟨rfl, rfl⟩ := cons.inj h1
  have hsorted := hs.sorted
  rw [hq, pairwise_cons] at hsorted
  refine ⟨?_, hrest⟩
  refine { seq := hs.seq, nums := hs.nums, queued := ?_, sorted := ?_, sent := hs.sent,
           inOrder := hs.inOrder, active := ?_, inactive := ?_, times := hs.times }
  · rw [hrest]
    exact fun q hq' => hs.queued q (hmem q hq')
  · rw [hrest]
    exact hsorted.2
  · intro h0
    exact absurd h0 (by simp [releaseSrpTimer, SRPRespTimer.release, SrpT401Stop])
  · rw [hrest]
    intro _ q hq' f hf hc
    exact Nat.lt_of_le_of_lt (h7 f hf hc) (hsorted.1 q hq')

theorem Sender.repeated (hs : s.Sender)
    (ha : s.iSrpCommandSave.isTimerActive = true) (hf : s.iSrpCommandSave.pPkt = some f)
    (hn : s.iSrpCommandSave.N400Counter < s.iN400MaxCounter) : (s.repeated f).Sender := by
  obtain ⟨p, rest, h1, h2, h3, h4, h5, h6, h7⟩ := hs.active ha
  rw [hf] at h2
  obtain rfl := some.inj h2
  have hp : p ∈ s.iSrpWaitQueue := by rw [h1]; exact mem_cons_self
  have htimes : ∀ num, (s.repeated (SrpCommandCreate p .SRP_COMMAND_HEADER)).sentTimes num =
      s.sentTimes num + if p.chunk.num = num then 1 else 0 := sentTimes_started s p
  obtain ⟨hsent, hinOrder, hle⟩ := hs.sends hp h7
  have hcount : (s.iSrpCommandSave.N400Counter + 1).toNat =
      s.iSrpCommandSave.N400Counter.toNat + 1 := by omega
  refine { seq := hs.seq, nums := hs.nums, queued := hs.queued, sorted := hs.sorted,
           sent := hsent, inOrder := hinOrder, active := ?_, inactive := ?_, times := ?_ }
  · intro _
    refine ⟨p, rest, h1, hf, h3, ?_, ?_, ?_, hle⟩
    · show 0 ≤ s.iSrpCommandSave.N400Counter + 1
      omega
    · show (s.iSrpCommandSave.N400Counter + 1).toNat ≤ s.iN400MaxCounter.toNat
      omega
    · rw [htimes, if_pos rfl, h6]
      exact congrArg (· + 1) hcount.symm
  · intro h0
    exact absurd (show s.iSrpCommandSave.isTimerActive = false from h0) (by rw [ha]; decide)
  · intro num
    rw [htimes]
    show _ ≤ s.iN400MaxCounter.toNat + 1
    split
    · next h =>
        rw [← h, h6]
        omega
    · exact hs.times num

end Srp

end OpenCore.H324
