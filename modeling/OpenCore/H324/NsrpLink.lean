/-
  File:      OpenCore/H324/NsrpLink.lean
  Subject:   STOP AND WAIT, the two endpoints together: what is handed up is what was sent.

  A direction of the link is described by the number of chunks handed up: the commands its receiver
  has still to read are the expected one and repetitions of the one before (`Dir`), and the answers
  its sender has still to read are to the command that waits and to the one before (`Phase`).

  **Main result**: `Link.delivered_prefix`.
-/
import OpenCore.H324.Nsrp

namespace OpenCore.H324

open List Option
open Function (update update_of_ne update_self)

variable {A B : Srp} {pos posA n : Nat} {f : Frame}

namespace Srp

/-! ## 1. One direction of the link -/

/-- What the sender `A` knows of the receiver `B`. While nothing is given up, the chunks before `k`
    are acknowledged, and the answers under way are to `k` or to its predecessor; after a failure
    is reported the sender is silent. -/
structure Phase (A B : Srp) (posA : Nat) : Prop where
  alive : A.failures = 0 → ∃ k,
    A.iSrpWaitQueue.map (fun p => p.chunk) = A.accepted.drop k ∧
    k ≤ B.iULPortOut.length ∧ B.iULPortOut.length ≤ k + 1 ∧
    (A.iSrpCommandSave.isTimerActive = false → B.iULPortOut.length = k ∧
      ∀ f ∈ A.iLLPortOut, f.header = .SRP_COMMAND_HEADER → f.chunk.num < k) ∧
    (∀ f ∈ A.iLLPortOut, f.header = .SRP_COMMAND_HEADER → f.chunk.num ≤ k) ∧
    ∀ n f, posA ≤ n → B.iLLPortOut[n]? = some f → f.header = .NSRP_RESPONSE_HEADER →
      k ≤ f.chunk.num + 1
  silent : A.failures ≠ 0 →
    A.iSrpCommandSave.isTimerActive = false ∧ A.iStatus = .STS_WAIT_RESPONSE

/-- The direction from `A` to `B`, with `B` at position `pos` of `A`'s history and `A` at `posA` of
    `B`'s: the receiver has the first chunks, and the commands it has still to read are the one it
    expects and repetitions of the one before. -/
structure Dir (A B : Srp) (pos posA : Nat) : Prop where
  delivered : B.iULPortOut = A.accepted.take B.iULPortOut.length
  recv : B.iRecvSeqNumber = B.iULPortOut.length % 256
  first : B.iFirstCmd = true → B.iULPortOut.length = 0
  unread : ∀ n f, pos ≤ n → A.iLLPortOut[n]? = some f → f.header = .SRP_COMMAND_HEADER →
    B.iULPortOut.length ≤ f.chunk.num + 1 ∧ f.chunk.num ≤ B.iULPortOut.length
  answers : ∀ f ∈ B.iLLPortOut, f.header = .NSRP_RESPONSE_HEADER →
    f.seqNum = f.chunk.num % 256 ∧ f.chunk.num < B.iULPortOut.length
  answersInOrder : B.iLLPortOut.Pairwise fun f g => f.header = .NSRP_RESPONSE_HEADER →
    g.header = .NSRP_RESPONSE_HEADER → f.chunk.num ≤ g.chunk.num
  phase : Phase A B posA

theorem Dir.length_le (h : Dir A B pos posA) :
    B.iULPortOut.length ≤ A.accepted.length := by
  have := congrArg length h.delivered
  rw [length_take] at this
  omega

/-- A later frame of a list whose items are in order. -/
theorem le_of_pairwise {P : Frame → Prop} {l : List Frame}
    (h : l.Pairwise fun f g => P f → P g → f.chunk.num ≤ g.chunk.num) {i j : Nat} {g : Frame}
    (hij : i ≤ j) (hf : l[i]? = some f) (hg : l[j]? = some g) (hPf : P f) (hPg : P g) :
    f.chunk.num ≤ g.chunk.num := by
  rcases Nat.eq_or_lt_of_le hij with rfl | hlt
  · rw [hf] at hg
    rw [some.inj hg]
  · obtain ⟨hi, rfl⟩ := List.getElem?_eq_some_iff.mp hf
    obtain ⟨hj, rfl⟩ := List.getElem?_eq_some_iff.mp hg
    exact pairwise_iff_getElem.mp h i j hi hj hlt hPf hPg

theorem Dir.read_on (h : Dir A B pos posA) (hn : posA ≤ n) :
    Dir A B pos n := by
  refine { h with phase := ⟨fun h0 => ?_, h.phase.silent⟩ }
  obtain ⟨k, h1, h2, h3, h4, h5, h6⟩ := h.phase.alive h0
  exact ⟨k, h1, h2, h3, h4, h5, fun m f hm => h6 m f (Nat.le_trans hn hm)⟩

/-- The head of the queue, while nothing is given up. -/
theorem Phase.head {k : Nat} {p : Packet} {rest : List Packet} (hA : A.Sender)
    (h1 : A.iSrpWaitQueue.map (fun p => p.chunk) = A.accepted.drop k)
    (hq : A.iSrpWaitQueue = p :: rest) :
    A.accepted[k]? = some p.chunk ∧ p.chunk.num = k ∧
    rest.map (fun p => p.chunk) = A.accepted.drop (k + 1) := by
  have h2 : A.accepted[k]? = some p.chunk := by
    rw [← head?_drop, ← h1, hq]
    rfl
  refine ⟨h2, hA.nums k _ h2, ?_⟩
  rw [← drop_drop, ← h1, hq]
  rfl

theorem getElem?_concat_cases {l : List Frame} {g : Frame}
    (h : (l ++ [g])[n]? = some f) : l[n]? = some f ∨ f = g := by
  rw [getElem?_append] at h
  split at h
  · exact .inl h
  · rw [getElem?_singleton] at h
    split at h
    · exact .inr (some.inj h).symm
    · exact absurd h (by simp)

section

variable (h : Dir A B pos posA)
include h

theorem Dir.queueChunk
    (c : Bool × List UInt8) : Dir (A.queueChunk c) B pos posA := by
  have hlen := h.length_le
  rw [queueChunk_eq]
  refine { delivered := ?_, recv := h.recv, first := h.first, unread := h.unread,
           answers := h.answers, answersInOrder := h.answersInOrder,
           phase := ⟨fun h0 => ?_, h.phase.silent⟩ }
  · show _ = take _ (A.accepted ++ [_])
    rw [take_append_of_le_length hlen]
    exact h.delivered
  · obtain ⟨k, h1, h2, h3, h4, h5, h6⟩ := h.phase.alive h0
    refine ⟨k, ?_, h2, h3, h4, h5, h6⟩
    show map _ (A.iSrpWaitQueue ++ [_]) = drop k (A.accepted ++ [_])
    rw [map_append, h1, drop_append_of_le_length (by omega)]
    rfl

theorem Dir.queueMessage (msg : List UInt8) :
    Dir (A.queueMessage msg) B pos posA := by
  unfold Srp.queueMessage
  generalize ccsrlChunks A.iCcsrlSduSize (msg.length + 1) msg = cs
  induction cs generalizing A with
  | nil => exact h
  | cons c cs ih => exact ih (h.queueChunk c)

/-- The next command goes out when the one before it is acknowledged. -/
theorem Dir.start {p : Packet} {rest : List Packet}
    (hA : A.Sender) (h0 : A.failures = 0)
    (ha : A.iSrpCommandSave.isTimerActive = false) (hq : A.iSrpWaitQueue = p :: rest) :
    Dir { A.started p with iStatus := .STS_WAIT_RESPONSE } B pos posA := by
  obtain ⟨k, h1, h2, h3, h4, h5, h6⟩ := h.phase.alive h0
  obtain ⟨-, hk, -⟩ := Phase.head hA h1 hq
  obtain ⟨hR, h4⟩ := h4 ha
  refine { delivered := h.delivered, recv := h.recv, first := h.first, unread := ?_,
           answers := h.answers, answersInOrder := h.answersInOrder,
           phase := ⟨fun _ => ⟨k, h1, h2, h3, ?_, ?_, h6⟩, fun hf => absurd h0 hf⟩ }
  · intro n f hn hf hc
    rcases getElem?_concat_cases hf with hf | rfl
    · exact h.unread n f hn hf hc
    · show _ ≤ p.chunk.num + 1 ∧ p.chunk.num ≤ _
      omega
  · intro h'
    exact absurd h' (by simp [started, SrpT401Start])
  · intro f hf hc
    rcases mem_append.mp hf with h' | h'
    · exact h5 f h' hc
    · obtain rfl := mem_singleton.mp h'
      exact Nat.le_of_eq hk

theorem Dir.repeated
    (hA : A.Sender) (ha : A.iSrpCommandSave.isTimerActive = true)
    (hf : A.iSrpCommandSave.pPkt = some f) : Dir (A.repeated f) B pos posA := by
  obtain ⟨p, rest, hq, hp, -, -⟩ := hA.active ha
  rw [hf] at hp
  cases hp
  have h0 : A.failures = 0 := by
    by_contra hne
    have := (h.phase.silent hne).1
    rw [ha] at this
    exact absurd this (by decide)
  obtain ⟨k, h1, h2, h3, h4, h5, h6⟩ := h.phase.alive h0
  obtain ⟨-, hk, -⟩ := Phase.head hA h1 hq
  refine { delivered := h.delivered, recv := h.recv, first := h.first, unread := ?_,
           answers := h.answers, answersInOrder := h.answersInOrder,
           phase := ⟨fun _ => ⟨k, h1, h2, h3, ?_, ?_, h6⟩, fun hf => absurd h0 hf⟩ }
  · intro n f hn hf hc
    rcases getElem?_concat_cases hf with hf | rfl
    · exact h.unread n f hn hf hc
    · show _ ≤ p.chunk.num + 1 ∧ p.chunk.num ≤ _
      omega
  · intro h'
    rw [show (A.repeated _).iSrpCommandSave.isTimerActive = A.iSrpCommandSave.isTimerActive from rfl,
      ha] at h'
    exact absurd h' (by decide)
  · intro f hf hc
    rcases mem_append.mp hf with h' | h'
    · exact h5 f h' hc
    · obtain rfl := mem_singleton.mp h'
      exact Nat.le_of_eq hk

/-- The number of an answer under way is the waiting command's or its predecessor's. -/
theorem Dir.answer_num {k : Nat}
    (hk : B.iULPortOut.length ≤ k + 1)
    (h6 : ∀ n f, posA ≤ n → B.iLLPortOut[n]? = some f → f.header = .NSRP_RESPONSE_HEADER →
      k ≤ f.chunk.num + 1)
    (hn : posA ≤ n) (hf : B.iLLPortOut[n]? = some f) (hh : f.header = .NSRP_RESPONSE_HEADER) :
    f.seqNum = f.chunk.num % 256 ∧ k ≤ f.chunk.num + 1 ∧ f.chunk.num < B.iULPortOut.length ∧
    f.chunk.num ≤ k := by
  obtain ⟨h1, h2⟩ := h.answers f (mem_of_getElem? hf) hh
  exact ⟨h1, h6 n f hn hf hh, h2, by omega⟩

/-- A repeated answer erases nothing while fewer than 256 packets wait. -/
theorem Dir.stale
    (hA : A.Sender) (hlen : A.iSrpWaitQueue.length < 256) (hn : posA ≤ n)
    (hf : B.iLLPortOut[n]? = some f) (hh : f.header = .NSRP_RESPONSE_HEADER)
    (hne : ∀ g, A.iSrpCommandSave.isTimerActive = true → A.iSrpCommandSave.pPkt = some g →
      f.seqNum ≠ g.seqNum) : Dir (A.SrpCommandClear f.seqNum) B pos n := by
  refine { h.read_on hn with phase := ⟨fun h0 => ?_, h.phase.silent⟩ }
  obtain ⟨k, h1, h2, h3, h4, h5, h6⟩ := h.phase.alive h0
  obtain ⟨e1, e2, e3, e4⟩ := h.answer_num h3 h6 hn hf hh
  have hk : f.chunk.num + 1 = k := by
    cases ha : A.iSrpCommandSave.isTimerActive with
    | false =>
      have := (h4 ha).1
      omega
    | true =>
      obtain ⟨p, rest, hq, hp, -⟩ := hA.active ha
      obtain ⟨-, hk, -⟩ := Phase.head hA h1 hq
      have hpq := (hA.queued p (by rw [hq]; exact mem_cons_self)).1
      have := hne _ ha hp
      simp only [SrpCommandCreate, hpq, hk, e1] at this
      by_contra hc
      exact this (congrArg (· % 256) (by omega))
  have hkeep : (A.SrpCommandClear f.seqNum).iSrpWaitQueue = A.iSrpWaitQueue := by
    show A.iSrpWaitQueue.eraseP _ = _
    rw [eraseP_of_forall_not]
    intro p hp hc
    have hseq := beq_iff_eq.mp hc
    obtain ⟨i, hi, rfl⟩ := mem_iff_getElem.mp hp
    have hnum : (A.iSrpWaitQueue[i]).chunk.num = k + i := by
      have e : A.accepted[k + i]? = some (A.iSrpWaitQueue[i]).chunk := by
        rw [← getElem?_drop, ← h1, getElem?_map, getElem?_eq_getElem hi]
        rfl
      exact hA.nums _ _ e
    rw [(hA.queued _ hp).1, hnum, e1] at hseq
    omega
  refine ⟨k, ?_, h2, h3, h4, h5, fun m g hm => h6 m g (Nat.le_trans hn hm)⟩
  rw [hkeep]
  exact h1

/-- The answer to the waiting command: it was delivered, and it leaves the queue. -/
theorem Dir.release {g : Frame}
    (hA : A.Sender) (ha : A.iSrpCommandSave.isTimerActive = true)
    (hg : A.iSrpCommandSave.pPkt = some g) (hn : posA ≤ n) (hf : B.iLLPortOut[n]? = some f)
    (hh : f.header = .NSRP_RESPONSE_HEADER) (he : f.seqNum = g.seqNum) :
    Dir ((A.SrpCommandClear f.seqNum).releaseSrpTimer) B pos n := by
  obtain ⟨p, rest, hq, hp, -⟩ := hA.active ha
  rw [hg] at hp
  cases hp
  have hpq := (hA.queued p (by rw [hq]; exact mem_cons_self)).1
  refine { h.read_on hn with phase := ⟨fun h0 => ?_, fun hne => ⟨rfl, (h.phase.silent hne).2⟩⟩ }
  obtain ⟨k, h1, h2, h3, h4, h5, h6⟩ := h.phase.alive h0
  obtain ⟨e1, e2, e3, e4⟩ := h.answer_num h3 h6 hn hf hh
  obtain ⟨-, hk, hrest⟩ := Phase.head hA h1 hq
  have he' : f.seqNum = p.seqNum := he
  refine ⟨k + 1, ?_, by omega, by omega, fun _ => ⟨by omega, ?_⟩, ?_, ?_⟩
  · rw [he', (hA.release ha hq).2]
    exact hrest
  · exact fun g hg hc => Nat.lt_succ_of_le (h5 g hg hc)
  · exact fun g hg hc => Nat.le_succ_of_le (h5 g hg hc)
  · intro m g hm hg hc
    have := le_of_pairwise h.answersInOrder hm hf hg hh hc
    omega

/-- After a failure is reported, and with an observer to report it to, the sender is silent. -/
theorem Dir.givenUp
    (hst : A.iStatus = .STS_WAIT_RESPONSE) (ho : A.iObserver = true) :
    Dir (A.givenUp f) B pos posA := by
  have e : A.givenUp f = { (A.SrpCommandClear f.seqNum).releaseSrpTimer with
      failures := A.failures + 1 } := by
    simp only [Srp.givenUp, transmissionFailure]
    rw [if_pos (show ((A.SrpCommandClear f.seqNum).releaseSrpTimer).iObserver = true from ho)]
    rfl
  rw [e]
  exact { delivered := h.delivered, recv := h.recv, first := h.first, unread := h.unread,
          answers := h.answers, answersInOrder := h.answersInOrder,
          phase := ⟨fun h0 => absurd h0 (Nat.succ_ne_zero _), fun _ => ⟨rfl, hst⟩⟩ }

end

/-- Two states of one endpoint that differ in the sender only. -/
structure SameReceiver (s s' : Srp) : Prop where
  recv : s'.iRecvSeqNumber = s.iRecvSeqNumber
  first : s'.iFirstCmd = s.iFirstCmd
  delivered : s'.iULPortOut = s.iULPortOut
  out : ∃ t, s'.iLLPortOut = s.iLLPortOut ++ t ∧ ∀ f ∈ t, f.header ≠ .NSRP_RESPONSE_HEADER

/-- A frame past an old history is one of the new frames. -/
theorem getElem?_append_cases {l t : List Frame}
    (h : (l ++ t)[n]? = some f) : l[n]? = some f ∨ f ∈ t := by
  rw [getElem?_append] at h
  split at h
  · exact .inl h
  · exact .inr (mem_of_getElem? h)

/-- What the peer's receiver does to the direction is nothing. -/
theorem Dir.of_sameSender {A' : Srp} (h : Dir A B pos posA)
    (hA : SameSender A A') : Dir A' B pos posA := by
  refine { delivered := by rw [hA.accepted]; exact h.delivered, recv := h.recv, first := h.first,
           unread := ?_, answers := h.answers, answersInOrder := h.answersInOrder,
           phase := ⟨?_, ?_⟩ }
  · intro n f hn hf hc
    obtain ⟨t, ht, hne⟩ := hA.out
    rw [ht] at hf
    rcases getElem?_append_cases hf with hf | hf
    · exact h.unread n f hn hf hc
    · exact absurd hc (hne f hf)
  · rw [hA.failures, hA.queue, hA.accepted, hA.timer]
    intro h0
    obtain ⟨k, h1, h2, h3, h4, h5, h6⟩ := h.phase.alive h0
    refine ⟨k, h1, h2, h3, fun ha => ⟨(h4 ha).1, fun f hf hc => ?_⟩, fun f hf hc => ?_, h6⟩
    · exact (h4 ha).2 f ((hA.mem_command hc).mp hf) hc
    · exact h5 f ((hA.mem_command hc).mp hf) hc
  · rw [hA.failures, hA.timer, hA.status]
    exact h.phase.silent

/-- What the receiver's own sender does to the direction is nothing. -/
theorem Dir.of_sameReceiver {B' : Srp} (h : Dir A B pos posA)
    (hB : SameReceiver B B') : Dir A B' pos posA := by
  obtain ⟨t, ht, hne⟩ := hB.out
  refine { delivered := by rw [hB.delivered]; exact h.delivered
           recv := by rw [hB.delivered, hB.recv]; exact h.recv
           first := by rw [hB.delivered, hB.first]; exact h.first
           unread := by rw [hB.delivered]; exact h.unread
           answers := ?_, answersInOrder := ?_, phase := ⟨?_, h.phase.silent⟩ }
  · rw [hB.delivered, ht]
    intro f hf hc
    rcases mem_append.mp hf with h1 | h1
    · exact h.answers f h1 hc
    · exact absurd hc (hne f h1)
  · rw [ht, pairwise_append]
    refine ⟨h.answersInOrder, ?_, fun f _ g hg _ hc => absurd hc (hne g hg)⟩
    exact Pairwise.imp_of_mem (R := fun _ _ => True)
      (fun hf _ _ hc => absurd hc (hne _ hf)) (pairwise_of_forall fun _ _ => trivial)
  · rw [hB.delivered]
    intro h0
    obtain ⟨k, h1, h2, h3, h4, h5, h6⟩ := h.phase.alive h0
    refine ⟨k, h1, h2, h3, h4, h5, fun n f hn hf hc => ?_⟩
    rw [ht] at hf
    rcases getElem?_append_cases hf with hf | hf
    · exact h6 n f hn hf hc
    · exact absurd hc (hne f hf)

/-! ## 2. The events keep the direction -/

/-- Nothing is given up, or there is an observer it is reported to. -/
def Reported (s : Srp) : Prop := s.iObserver = true ∨ s.failures = 0

/-- What every event of the sender keeps. -/
structure SenderStep (A A' : Srp) (P : Srp → Nat → Nat → Prop) : Prop where
  mode : A'.StopAndWait
  sender : A'.Sender
  receiver : SameReceiver A A'
  dir : ∀ B pos posA n, P B posA n → (A.Reported → Dir A B pos posA) → A'.Reported →
    Dir A' B pos n

theorem StopAndWait.out {s s' : Srp} (hs : s.StopAndWait)
    (h1 : s'.iCurWnsrpStatus = s.iCurWnsrpStatus) (h2 : s'.iUseNSRP = s.iUseNSRP)
    (h3 : s'.iActiveWnsrpCommandSave = s.iActiveWnsrpCommandSave)
    (h4 : s'.iWnsrpCommandSave = s.iWnsrpCommandSave)
    (h5 : s'.iPendingRxFragList = s.iPendingRxFragList) {t : List Frame}
    (h6 : s'.iLLPortOut = s.iLLPortOut ++ t)
    (h7 : ∀ f ∈ t, f.header = .SRP_COMMAND_HEADER ∨ f.header = .NSRP_RESPONSE_HEADER) :
    s'.StopAndWait where
  status := by rw [h1]; exact hs.status
  nsrp := by rw [h2]; exact hs.nsrp
  noActive := by rw [h3]; exact hs.noActive
  noTimer := by rw [h4]; exact hs.noTimer
  noPending := by rw [h5]; exact hs.noPending
  frames := by
    rw [h6]
    intro f hf
    rcases mem_append.mp hf with h | h
    · exact hs.frames f h
    · exact h7 f h

/-- The fields `queueMessage` leaves alone. -/
theorem queueMessage_frame (s : Srp) (msg : List UInt8) :
    ∃ q a n, s.queueMessage msg =
      { s with iSrpWaitQueue := q, accepted := a, iSendSeqNumber := n } := by
  unfold queueMessage
  generalize ccsrlChunks s.iCcsrlSduSize (msg.length + 1) msg = cs
  induction cs generalizing s with
  | nil => exact ⟨_, _, _, rfl⟩
  | cons c cs ih =>
    obtain ⟨q, a, n, e⟩ := ih (s.queueChunk c)
    refine ⟨q, a, n, ?_⟩
    rw [foldl_cons, e, queueChunk_eq]

theorem StopAndWait.started {s : Srp} (hs : s.StopAndWait) (p : Packet) (st : SrpStatus) :
    ({ s.started p with iStatus := st } : Srp).StopAndWait :=
  hs.out (t := [SrpCommandCreate p .SRP_COMMAND_HEADER]) rfl rfl rfl rfl rfl rfl
    (fun f hf => .inl (by rw [mem_singleton.mp hf]; rfl))

theorem SameReceiver.started (s : Srp) (p : Packet) (st : SrpStatus) :
    SameReceiver s { s.started p with iStatus := st } where
  recv := rfl
  first := rfl
  delivered := rfl
  out := ⟨[SrpCommandCreate p .SRP_COMMAND_HEADER], rfl, fun f hf => by
    rw [mem_singleton.mp hf]
    exact Header.noConfusion⟩

theorem SameReceiver.same {s s' : Srp} (h1 : s'.iRecvSeqNumber = s.iRecvSeqNumber)
    (h2 : s'.iFirstCmd = s.iFirstCmd) (h3 : s'.iULPortOut = s.iULPortOut)
    (h4 : s'.iLLPortOut = s.iLLPortOut) : SameReceiver s s' :=
  ⟨h1, h2, h3, [], by rw [h4, append_nil], fun _ hf => absurd hf not_mem_nil⟩

theorem SameReceiver.trans {s t u : Srp} (h : SameReceiver s t) (h' : SameReceiver t u) :
    SameReceiver s u := by
  obtain ⟨a, ha, hna⟩ := h.out
  obtain ⟨b, hb, hnb⟩ := h'.out
  refine ⟨h'.recv.trans h.recv, h'.first.trans h.first, h'.delivered.trans h.delivered, a ++ b,
    by rw [hb, ha, append_assoc], fun f hf => ?_⟩
  rcases mem_append.mp hf with h1 | h1
  · exact hna f h1
  · exact hnb f h1

theorem StopAndWait.send {A' : Srp} {msg : List UInt8} (hm : A.StopAndWait) (hA : A.Sender)
    (h : A.UpperLayerRx msg = some A') : SenderStep A A' fun _ posA n => n = posA := by
  obtain ⟨q, a, m, e⟩ := A.queueMessage_frame msg
  have hm1 : (A.queueMessage msg).StopAndWait := by
    rw [e]
    exact hm.out (t := []) rfl rfl rfl rfl rfl (append_nil _).symm
      (fun _ hf => absurd hf not_mem_nil)
  have hr1 : SameReceiver A (A.queueMessage msg) := by
    rw [e]
    exact .same rfl rfl rfl rfl
  have hrep : (A.queueMessage msg).Reported ↔ A.Reported := by rw [e]; rfl
  have hA1 := hA.queueMessage msg
  rcases hm1.pdu h with ⟨-, rfl⟩ | ⟨hst, p, rest, hq, rfl⟩
  · refine ⟨hm1, hA1, hr1, ?_⟩
    rintro B pos posA n rfl hd hok
    exact (hd (hrep.mp hok)).queueMessage msg
  · have ha : (A.queueMessage msg).iSrpCommandSave.isTimerActive = false := by
      cases ha : (A.queueMessage msg).iSrpCommandSave.isTimerActive with
      | false => rfl
      | true =>
        obtain ⟨-, -, -, -, h3, -⟩ := hA1.active ha
        rw [hst] at h3
        exact absurd h3 (by decide)
    refine ⟨hm1.started p _, hA1.start ha hq, hr1.trans (.started _ p _), ?_⟩
    rintro B pos posA n rfl hd hok
    have hd1 := (hd (hrep.mp hok)).queueMessage msg
    refine hd1.start hA1 ?_ ha hq
    by_contra h0
    have := (hd1.phase.silent h0).2
    rw [hst] at this
    exact absurd this (by decide)

theorem StopAndWait.expire {A' : Srp} {timerID : Nat} (hm : A.StopAndWait) (hA : A.Sender)
    (hr : A.running timerID) (h : A.TimeoutOccurred timerID = some A') :
    SenderStep A A' fun _ posA n => n = posA := by
  obtain ⟨ha, h⟩ := hm.timeout hr h
  rcases h with ⟨-, rfl⟩ | ⟨hst, f, hf, ⟨hn, rfl⟩ | ⟨-, rfl⟩⟩
  · refine ⟨hm, hA, .same rfl rfl rfl rfl, ?_⟩
    rintro B pos posA n rfl hd hok
    exact hd hok
  · obtain ⟨p, -, -, hp, -⟩ := hA.active ha
    have hh : f.header = .SRP_COMMAND_HEADER := by
      rw [hf] at hp
      rw [some.inj hp]
      rfl
    refine ⟨?_, hA.repeated ha hf hn, ⟨rfl, rfl, rfl, [f], rfl, ?_⟩, ?_⟩
    · exact hm.out (t := [f]) rfl rfl rfl rfl rfl rfl
        (fun g hg => .inl (by rw [mem_singleton.mp hg]; exact hh))
    · intro g hg
      rw [mem_singleton.mp hg, hh]
      exact Header.noConfusion
    · rintro B pos posA n rfl hd hok
      exact (hd hok).repeated hA ha hf
  · obtain ⟨p, rest, hq, hp, -⟩ := hA.active ha
    have hs : f.seqNum = p.seqNum := by
      rw [hf] at hp
      rw [some.inj hp]
      rfl
    have hrel := (hA.release ha hq).1
    rw [← hs] at hrel
    have e : A.givenUp f = { (A.SrpCommandClear f.seqNum).releaseSrpTimer with
        failures := A.failures + 1
        iStatus := if A.iObserver then A.iStatus else .STS_IDLE } := by
      have hn : ((A.SrpCommandClear f.seqNum).releaseSrpTimer).iCurWnsrpStatus =
        .NO_WNSRP_SUPPORT := hm.status
      simp only [givenUp, transmissionFailure]
      cases ho : A.iObserver with
      | true =>
        rw [if_pos (show ((A.SrpCommandClear f.seqNum).releaseSrpTimer).iObserver = true from ho)]
        rfl
      | false =>
        rw [if_neg (show ¬ ((A.SrpCommandClear f.seqNum).releaseSrpTimer).iObserver = true by
          rw [show ((A.SrpCommandClear f.seqNum).releaseSrpTimer).iObserver = false from ho]
          decide)]
        split
        · rfl
        · next h' => rw [hn] at h'; exact absurd h' (by decide)
        · next h' => rw [hn] at h'; exact absurd h' (by decide)
    refine ⟨?_, ?_, ?_, ?_⟩
    · rw [e]
      exact hm.out (t := []) rfl rfl rfl rfl rfl (append_nil _).symm
        (fun _ hf => absurd hf not_mem_nil)
    · rw [e]
      exact { seq := hrel.seq, nums := hrel.nums, queued := hrel.queued, sorted := hrel.sorted,
              sent := hrel.sent, inOrder := hrel.inOrder,
              active := fun h0 => absurd h0 (by simp [releaseSrpTimer, SRPRespTimer.release,
                SrpT401Stop]),
              inactive := hrel.inactive, times := hrel.times }
    · rw [e]
      exact .same rfl rfl rfl rfl
    · rintro B pos posA n rfl hd hok
      have ho : A.iObserver = true := by
        rcases hok with h1 | h1
        · rw [e] at h1
          exact h1
        · rw [e] at h1
          exact absurd h1 (Nat.succ_ne_zero _)
      exact (hd (.inl ho)).givenUp hst ho

/-- Marking that an NSRP response came changes nothing of the direction. -/
theorem Dir.markFirst (h : Dir A B pos posA) :
    Dir { A with iFirstNSRPResp := true } B pos posA :=
  { delivered := h.delivered, recv := h.recv, first := h.first, unread := h.unread,
    answers := h.answers, answersInOrder := h.answersInOrder,
    phase := ⟨h.phase.alive, h.phase.silent⟩ }

/-- A response from the peer, read at position `n` of its history. -/
theorem StopAndWait.answer {A' : Srp} (hm : A.StopAndWait) (hA : A.Sender)
    (hf : f.header = .NSRP_RESPONSE_HEADER) (h : A.LowerLayerRx f = some A') :
    SenderStep A A' fun B posA n => posA ≤ n ∧ B.iLLPortOut[n]? = some f ∧
      A.iSrpWaitQueue.length < 256 := by
  have hm1 : ({ A with iFirstNSRPResp := true } : Srp).StopAndWait :=
    hm.out (t := []) rfl rfl rfl rfl rfl (append_nil _).symm
      (fun _ hf => absurd hf not_mem_nil)
  have hA1 : ({ A with iFirstNSRPResp := true } : Srp).Sender :=
    hA.of_same ⟨rfl, rfl, rfl, rfl, rfl, rfl, rfl, rfl, [], (append_nil _).symm,
      fun _ hf => absurd hf not_mem_nil⟩
  have hclear : ∀ m, (({ A with iFirstNSRPResp := true } : Srp).SrpCommandClear m).StopAndWait :=
    fun m => hm.out (t := []) rfl rfl rfl rfl rfl (append_nil _).symm
      (fun _ hf => absurd hf not_mem_nil)
  rcases hm.response hf h with ⟨-, rfl⟩ | ⟨-, ha, rfl⟩ | ⟨hst, ha, g, hg, h⟩
  · refine ⟨hm1, hA1, .same rfl rfl rfl rfl, ?_⟩
    rintro B pos posA n ⟨hn, -, -⟩ hd hok
    exact ((hd hok).read_on hn).markFirst
  · have hne : ∀ g, A.iSrpCommandSave.isTimerActive = true → A.iSrpCommandSave.pPkt = some g →
        f.seqNum ≠ g.seqNum := fun g h1 => absurd h1 (by rw [ha]; decide)
    refine ⟨hclear _, hA1.clear hne, .same rfl rfl rfl rfl, ?_⟩
    rintro B pos posA n ⟨hn, hB, hlen⟩ hd hok
    exact (hd hok).markFirst.stale hA1 hlen hn hB hf hne
  · rcases h with ⟨hne, rfl⟩ | ⟨he, rfl⟩
    · have hne' : ∀ g', A.iSrpCommandSave.isTimerActive = true →
          A.iSrpCommandSave.pPkt = some g' → f.seqNum ≠ g'.seqNum := by
        intro g' _ hg'
        rw [hg] at hg'
        rw [← some.inj hg']
        exact hne
      refine ⟨hclear _, hA1.clear hne', .same rfl rfl rfl rfl, ?_⟩
      rintro B pos posA n ⟨hn, hB, hlen⟩ hd hok
      exact (hd hok).markFirst.stale hA1 hlen hn hB hf hne'
    · obtain ⟨p, rest, hq, hp, -⟩ := hA.active ha
      have hs : f.seqNum = p.seqNum := by
        rw [hg] at hp
        rw [he, some.inj hp]
        rfl
      have hrel := (hA1.release ha hq).1
      rw [← hs] at hrel
      have hmr : ((({ A with iFirstNSRPResp := true } : Srp).SrpCommandClear
          f.seqNum).releaseSrpTimer).StopAndWait :=
        hm.out (t := []) rfl rfl rfl rfl rfl (append_nil _).symm
          (fun _ hf => absurd hf not_mem_nil)
      have hdr : ∀ B pos posA n, posA ≤ n ∧ B.iLLPortOut[n]? = some f ∧
          A.iSrpWaitQueue.length < 256 → Dir A B pos posA → Dir ((({ A with iFirstNSRPResp := true } : Srp).SrpCommandClear
            f.seqNum).releaseSrpTimer) B pos n := by
        rintro B pos posA n ⟨hn, hB, -⟩ hd
        exact hd.markFirst.release hA1 ha hg hn hB hf he
      have hfail : ∀ B pos posA, Dir A B pos posA → A.failures = 0 := by
        intro B pos posA hd
        by_contra h0
        have := (hd.phase.silent h0).1
        rw [ha] at this
        exact absurd this (by decide)
      show SenderStep A (nextCommand _) _
      generalize hu : ((({ A with iFirstNSRPResp := true } : Srp).SrpCommandClear
          f.seqNum).releaseSrpTimer) = u at *
      have hrep : u.Reported ↔ A.Reported := by rw [← hu]; rfl
      have hru : SameReceiver A u := by rw [← hu]; exact .same rfl rfl rfl rfl
      have hau : u.iSrpCommandSave.isTimerActive = false := by rw [← hu]; rfl
      have hsu : u.iStatus = .STS_WAIT_RESPONSE := by rw [← hu]; exact hst
      have hfu : u.failures = A.failures := by rw [← hu]; rfl
      cases hq' : u.iSrpWaitQueue with
      | nil =>
        rw [nextCommand_nil hq']
        refine ⟨?_, ?_, ?_, ?_⟩
        · exact hmr.out (t := []) rfl rfl rfl rfl rfl (append_nil _).symm
            (fun _ hf => absurd hf not_mem_nil)
        · exact { seq := hrel.seq, nums := hrel.nums, queued := hrel.queued,
                  sorted := hrel.sorted, sent := hrel.sent, inOrder := hrel.inOrder,
                  active := fun h0 => absurd h0 (by
                    show ¬ u.iSrpCommandSave.isTimerActive = true
                    rw [hau]
                    decide),
                  inactive := hrel.inactive, times := hrel.times }
        · exact hru.trans (.same rfl rfl rfl rfl)
        · intro B pos posA n hP hd hok
          have hd1 := hd (hrep.mp hok)
          have hd2 := hdr B pos posA n hP hd1
          exact { delivered := hd2.delivered, recv := hd2.recv, first := hd2.first,
                  unread := hd2.unread, answers := hd2.answers,
                  answersInOrder := hd2.answersInOrder,
                  phase := ⟨hd2.phase.alive, fun h0 =>
                    absurd (hfu.trans (hfail B pos posA hd1)) h0⟩ }
      | cons p rest =>
        rw [nextCommand_cons hq', show u.started p =
          { u.started p with iStatus := .STS_WAIT_RESPONSE } by rw [← hsu]; rfl]
        refine ⟨hmr.started p _, hrel.start hau hq', hru.trans (.started u p _), ?_⟩
        intro B pos posA n hP hd hok
        have hd1 := hd (hrep.mp hok)
        exact (hdr B pos posA n hP hd1).start hrel (hfu.trans (hfail B pos posA hd1)) hau hq'

/-! ## 3. The receiver -/

/-- What a command does to the receiving endpoint. -/
structure ReceiverStep (B B' : Srp) (f : Frame) : Prop where
  mode : B'.StopAndWait
  sender : SameSender B B'
  dir : ∀ A pos posA n, A.Sender → pos ≤ n → A.iLLPortOut[n]? = some f → Dir A B pos posA →
    Dir A B' n posA

theorem Dir.skip (h : Dir A B pos posA) (hn : pos ≤ n) :
    Dir A B n posA :=
  { h with unread := fun m g hm => h.unread m g (Nat.le_trans hn hm) }

/-- An answer is in order behind those to earlier commands. -/
theorem pairwise_respond {m : Nat}
    (h : B.iLLPortOut.Pairwise fun f g => f.header = .NSRP_RESPONSE_HEADER →
      g.header = .NSRP_RESPONSE_HEADER → f.chunk.num ≤ g.chunk.num)
    (hb : ∀ g ∈ B.iLLPortOut, g.header = .NSRP_RESPONSE_HEADER → g.chunk.num < m)
    (hm : m ≤ f.chunk.num + 1) :
    (B.respond f .NSRP_RESPONSE_HEADER).iLLPortOut.Pairwise fun f g =>
      f.header = .NSRP_RESPONSE_HEADER → g.header = .NSRP_RESPONSE_HEADER →
      f.chunk.num ≤ g.chunk.num := by
  show Pairwise _ (B.iLLPortOut ++ [_])
  rw [pairwise_append]
  refine ⟨h, pairwise_singleton _ _, fun g hg g' hg' hc _ => ?_⟩
  obtain rfl := mem_singleton.mp hg'
  show g.chunk.num ≤ f.chunk.num
  have := hb g hg hc
  omega

theorem SameSender.respond (s : Srp) (f : Frame) :
    SameSender s (s.respond f .NSRP_RESPONSE_HEADER) :=
  ⟨rfl, rfl, rfl, rfl, rfl, rfl, rfl, rfl, [_], rfl, fun g hg => by
    rw [mem_singleton.mp hg]
    exact Header.noConfusion⟩

/-- The first command sets the number that is expected, and it is the first chunk's. -/
theorem Dir.firstCommand (h : Dir A B pos posA)
    (hA : A.Sender) (hn : pos ≤ n) (hf : A.iLLPortOut[n]? = some f)
    (hc : f.header = .SRP_COMMAND_HEADER) : Dir A (B.firstCommand f .EV_COMMAND) pos posA := by
  unfold Srp.firstCommand
  split
  · next h1 =>
      have hR := h.first h1
      have hnum := h.unread n f hn hf hc
      have hs := (hA.sent f (mem_of_getElem? hf) hc).1
      refine { delivered := h.delivered, recv := ?_, first := fun h0 => absurd h0 Bool.false_ne_true,
               unread := h.unread, answers := h.answers, answersInOrder := h.answersInOrder,
               phase := ⟨h.phase.alive, h.phase.silent⟩ }
      show (if SrpEvent.EV_COMMAND = .EV_WNSRP_COMMAND then 0 else f.seqNum % 256) = _
      rw [if_neg (by decide)]
      show _ = B.iULPortOut.length % 256
      omega
  · exact h

/-- The command before the expected one is answered again. -/
theorem Dir.answerAgain (h : Dir A B pos posA)
    (hA : A.Sender) (hn : pos ≤ n) (hf : A.iLLPortOut[n]? = some f)
    (hc : f.header = .SRP_COMMAND_HEADER)
    (hnext : (f.seqNum + 1) % 256 = B.iRecvSeqNumber) :
    Dir A (B.respond f .NSRP_RESPONSE_HEADER) pos posA := by
  obtain ⟨h1, h2⟩ := h.unread n f hn hf hc
  have hs := (hA.sent f (mem_of_getElem? hf) hc).1
  have hnum : f.chunk.num + 1 = B.iULPortOut.length := by
    have := h.recv
    omega
  refine { delivered := h.delivered, recv := h.recv, first := h.first, unread := h.unread,
           answers := ?_, answersInOrder := ?_, phase := ⟨fun h0 => ?_, h.phase.silent⟩ }
  · intro g hg hh
    rcases mem_append.mp hg with hg | hg
    · exact h.answers g hg hh
    · obtain rfl := mem_singleton.mp hg
      show f.seqNum % 256 = f.chunk.num % 256 ∧ f.chunk.num < B.iULPortOut.length
      omega
  · exact pairwise_respond h.answersInOrder (fun g hg hh => (h.answers g hg hh).2) h1
  · obtain ⟨k, e1, e2, e3, e4, e5, e6⟩ := h.phase.alive h0
    refine ⟨k, e1, e2, e3, e4, e5, fun m g hm hg hh => ?_⟩
    rcases getElem?_concat_cases hg with hg | rfl
    · exact e6 m g hm hg hh
    · show k ≤ f.chunk.num + 1
      rw [hnum]
      exact e2

/-- The expected command is the next chunk: it is answered and handed up. -/
theorem Dir.taken (h : Dir A B pos posA)
    (hA : A.Sender) (hB : B.iFirstCmd = false) (hn : pos ≤ n) (hf : A.iLLPortOut[n]? = some f)
    (hc : f.header = .SRP_COMMAND_HEADER) (hnext : f.seqNum = B.iRecvSeqNumber) :
    Dir A (B.taken f) n posA := by
  obtain ⟨h1, h2⟩ := h.unread n f hn hf hc
  obtain ⟨hs, hchunk⟩ := hA.sent f (mem_of_getElem? hf) hc
  have hnum : f.chunk.num = B.iULPortOut.length := by
    have := h.recv
    omega
  have hlen : (B.taken f).iULPortOut.length = B.iULPortOut.length + 1 := by
    show (B.iULPortOut ++ [f.chunk]).length = _
    rw [length_append, length_singleton]
  refine { delivered := ?_, recv := ?_, first := ?_, unread := ?_, answers := ?_,
           answersInOrder := ?_, phase := ⟨fun h0 => ?_, h.phase.silent⟩ }
  · rw [hlen, take_add_one, ← hnum, hchunk, hnum, ← h.delivered]
    rfl
  · rw [hlen]
    show nextSeq B.iRecvSeqNumber = _
    rw [h.recv, nextSeq_mod]
  · intro h0
    exact absurd (show B.iFirstCmd = true from h0) (by rw [hB]; decide)
  · intro m g hm hg hh
    have h3 := h.unread m g (Nat.le_trans hn hm) hg hh
    have h4 := le_of_pairwise hA.inOrder hm hf hg hc hh
    rw [hlen]
    omega
  · intro g hg hh
    rw [hlen]
    rcases mem_append.mp hg with hg | hg
    · have := h.answers g hg hh
      exact ⟨this.1, Nat.lt_succ_of_lt this.2⟩
    · obtain rfl := mem_singleton.mp hg
      show f.seqNum % 256 = f.chunk.num % 256 ∧ f.chunk.num < _
      omega
  · exact pairwise_respond h.answersInOrder (fun g hg hh => (h.answers g hg hh).2) h1
  · obtain ⟨k, e1, e2, e3, e4, e5, e6⟩ := h.phase.alive h0
    have hk := e5 f (mem_of_getElem? hf) hc
    rw [hlen]
    refine ⟨k, e1, by omega, by omega, fun ha => ?_, e5, fun m g hm hg hh => ?_⟩
    · have := (e4 ha).2 f (mem_of_getElem? hf) hc
      omega
    · rcases getElem?_concat_cases hg with hg | rfl
      · exact e6 m g hm hg hh
      · show k ≤ f.chunk.num + 1
        omega

theorem StopAndWait.receive {B' : Srp} (hm : B.StopAndWait)
    (hc : f.header = .SRP_COMMAND_HEADER) (h256 : f.seqNum < 256)
    (h : B.LowerLayerRx f = some B') : ReceiverStep B B' f := by
  have hfirst : SameSender B (B.firstCommand f .EV_COMMAND) ∧
      (B.firstCommand f .EV_COMMAND).StopAndWait ∧
      (B.firstCommand f .EV_COMMAND).iFirstCmd = false := by
    unfold firstCommand
    split
    · exact ⟨⟨rfl, rfl, rfl, rfl, rfl, rfl, rfl, rfl, [], (append_nil _).symm,
        fun _ hf => absurd hf not_mem_nil⟩,
        hm.out (t := []) rfl rfl rfl rfl rfl (append_nil _).symm
          (fun _ hf => absurd hf not_mem_nil), rfl⟩
    · next h1 =>
        exact ⟨⟨rfl, rfl, rfl, rfl, rfl, rfl, rfl, rfl, [], (append_nil _).symm,
          fun _ hf => absurd hf not_mem_nil⟩, hm, by simpa using h1⟩
  obtain ⟨hs, hm', hone⟩ := hfirst
  have hresp : ∀ g ∈ [SrpResponseCreate f .NSRP_RESPONSE_HEADER],
      g.header = .SRP_COMMAND_HEADER ∨ g.header = .NSRP_RESPONSE_HEADER := by
    intro g hg
    rw [mem_singleton.mp hg]
    exact .inr rfl
  have hsame : ∀ u, SameSender (B.firstCommand f .EV_COMMAND) u → SameSender B u := by
    intro u hu
    obtain ⟨a, ha, hna⟩ := hs.out
    obtain ⟨b, hb, hnb⟩ := hu.out
    refine ⟨hu.seq.trans hs.seq, hu.accepted.trans hs.accepted, hu.queue.trans hs.queue,
      hu.timer.trans hs.timer, hu.status.trans hs.status, hu.retries.trans hs.retries,
      hu.observer.trans hs.observer, hu.failures.trans hs.failures, a ++ b,
      by rw [hb, ha, append_assoc], fun g hg => ?_⟩
    rcases mem_append.mp hg with h1 | h1
    · exact hna g h1
    · exact hnb g h1
  rcases hm.command hc h256 h with rfl | ⟨hnext, rfl⟩ | ⟨hnext, rfl⟩
  · exact ⟨hm', hs, fun A pos posA n hA hn hf hd => (hd.firstCommand hA hn hf hc).skip hn⟩
  · refine ⟨hm'.out rfl rfl rfl rfl rfl rfl hresp, hsame _ (.respond _ f), ?_⟩
    intro A pos posA n hA hn hf hd
    exact ((hd.firstCommand hA hn hf hc).answerAgain hA hn hf hc hnext).skip hn
  · refine ⟨hm'.out rfl rfl rfl rfl rfl rfl hresp, hsame _ ?_, ?_⟩
    · have h1 := SameSender.respond (B.firstCommand f .EV_COMMAND) f
      exact ⟨h1.seq, h1.accepted, h1.queue, h1.timer, h1.status, h1.retries, h1.observer,
        h1.failures, h1.out⟩
    · intro A pos posA n hA hn hf hd
      exact (hd.firstCommand hA hn hf hc).taken hA hone hn hf hc hnext

end Srp

/-! ## 4. Runs of the link -/

namespace Link

/-- No queue holds 256 packets. -/
def ShortQueues (l : Link) : Prop := ∀ x, (l.srp x).iSrpWaitQueue.length < 256

/-- The invariant of the two endpoints by themselves. -/
structure Sound (l : Link) : Prop where
  mode : ∀ x, (l.srp x).StopAndWait
  sender : ∀ x, (l.srp x).Sender

/-- The invariant of both directions. -/
def Good (l : Link) : Prop :=
  ∀ x, (l.srp x).Reported → Srp.Dir (l.srp x) (l.srp !x) (l.read !x) (l.read x)

theorem set_self (l : Link) (x : Bool) (s : Srp) : (l.set x s).srp x = s := by
  show update l.srp x s x = s
  exact update_self x s l.srp

theorem set_other (l : Link) (x : Bool) (s : Srp) : (l.set x s).srp (!x) = l.srp (!x) := by
  have hx : (!x) ≠ x := by cases x <;> decide
  exact update_of_ne hx s l.srp

theorem both {P : Bool → Prop} (x : Bool) (h1 : P x) (h2 : P !x) : ∀ y, P y := by
  intro y
  cases x <;> cases y <;> assumption

/-- What a step does: one side takes an event of its sender or a command, and reads on. -/
structure OneSide (l l' : Link) (x : Bool) : Prop where
  other : l'.srp (!x) = l.srp (!x)
  readOther : l'.read (!x) = l.read (!x)
  readOn : l.read x ≤ l'.read x
  event : (∃ P, Srp.SenderStep (l.srp x) (l'.srp x) P ∧
      (l.ShortQueues → P (l.srp !x) (l.read x) (l'.read x))) ∨
    ∃ f, Srp.ReceiverStep (l.srp x) (l'.srp x) f ∧ (l.srp !x).iLLPortOut[l'.read x]? = some f

theorem Sound.oneSide {l l' : Link} {a : Act} (hl : l.Sound) (h : l.step a = some l') :
    ∃ x, OneSide l l' x := by
  cases a with
  | send x msg =>
    obtain ⟨A, hA, rfl⟩ := map_eq_some_iff.mp h
    refine ⟨x, l.set_other x A, rfl, Nat.le_refl _, .inl ⟨fun _ posA n => n = posA, ?_,
      fun _ => rfl⟩⟩
    rw [set_self]
    exact (hl.mode x).send (hl.sender x) hA
  | expire x timerID =>
    simp only [step] at h
    split at h
    · next hr =>
        obtain ⟨A, hA, rfl⟩ := map_eq_some_iff.mp h
        refine ⟨x, l.set_other x A, rfl, Nat.le_refl _, .inl ⟨fun _ posA n => n = posA, ?_,
          fun _ => rfl⟩⟩
        rw [set_self]
        exact (hl.mode x).expire (hl.sender x) hr hA
    · exact absurd h (by simp)
  | receive x n =>
    simp only [step] at h
    split at h
    · next hle =>
        obtain ⟨f, hf, h⟩ := bind_eq_some_iff.mp h
        obtain ⟨A, hA, h⟩ := bind_eq_some_iff.mp h
        cases h
        have hread : update l.read x n x = n := update_self x n l.read
        have hother : update l.read x n (!x) = l.read (!x) :=
          update_of_ne (by cases x <;> decide) n l.read
        refine ⟨x, l.set_other x A, hother, ?_, ?_⟩
        · show l.read x ≤ update l.read x n x
          rw [hread]
          exact hle
        · show (∃ P, Srp.SenderStep (l.srp x) ((l.set x A).srp x) P ∧
            (l.ShortQueues → P (l.srp !x) (l.read x) (update l.read x n x))) ∨
            ∃ f, Srp.ReceiverStep (l.srp x) ((l.set x A).srp x) f ∧
              (l.srp !x).iLLPortOut[update l.read x n x]? = some f
          rw [set_self, hread]
          rcases (hl.mode !x).frames f (mem_of_getElem? hf) with hc | hc
          · have h256 : f.seqNum < 256 := by
              rw [((hl.sender !x).sent f (mem_of_getElem? hf) hc).1]
              exact Nat.mod_lt _ (by decide)
            exact .inr ⟨f, (hl.mode x).receive hc h256 hA, hf⟩
          · exact .inl ⟨_, (hl.mode x).answer (hl.sender x) hc hA, fun hq => ⟨hle, hf, hq x⟩⟩
    · exact absurd h (by simp)

/-- Every step keeps the endpoints' invariant. -/
theorem Sound.step {l l' : Link} {a : Act} (hl : l.Sound) (h : l.step a = some l') : l'.Sound := by
  obtain ⟨x, hx⟩ := hl.oneSide h
  have hside : (l'.srp x).StopAndWait ∧ (l'.srp x).Sender := by
    rcases hx.event with ⟨P, h1, -⟩ | ⟨f, h1, -⟩
    · exact ⟨h1.mode, h1.sender⟩
    · exact ⟨h1.mode, (hl.sender x).of_same h1.sender⟩
  exact ⟨both x hside.1 (by rw [hx.other]; exact hl.mode !x),
    both x hside.2 (by rw [hx.other]; exact hl.sender !x)⟩

/-- **Every step keeps both directions**, from states with fewer than 256 packets waiting. -/
theorem Good.step {l l' : Link} {a : Act} (hs : l.Sound) (hl : l.Good) (hq : l.ShortQueues)
    (h : l.step a = some l') : l'.Good := by
  obtain ⟨x, hx⟩ := hs.oneSide h
  have hback : (l.srp !x).Reported → Srp.Dir (l.srp !x) (l.srp x) (l.read x) (l.read !x) := by
    intro hrep
    have hd := hl (!x) hrep
    rw [Bool.not_not] at hd
    exact hd
  refine both x ?_ ?_
  · rw [hx.other, hx.readOther]
    intro hrep
    rcases hx.event with ⟨P, h1, hP⟩ | ⟨f, h1, -⟩
    · exact h1.dir _ _ _ _ (hP hq) (hl x) hrep
    · refine ((hl x ?_).of_sameSender h1.sender).read_on hx.readOn
      rcases hrep with h2 | h2
      · exact .inl (h1.sender.observer.symm.trans h2)
      · exact .inr (h1.sender.failures.symm.trans h2)
  · rw [hx.other, hx.readOther, Bool.not_not]
    intro hrep
    rcases hx.event with ⟨P, h1, -⟩ | ⟨f, h1, hf⟩
    · exact ((hback hrep).of_sameReceiver h1.receiver).skip hx.readOn
    · exact h1.dir _ _ _ _ (hs.sender !x) hx.readOn hf (hback hrep)

theorem NsrpStart.sound {l : Link} (h : l.NsrpStart) : l.Sound := by
  have hnil : ∀ {P : Frame → Prop}, ∀ f ∈ ([] : List Frame), P f :=
    fun f hf => absurd hf not_mem_nil
  refine ⟨fun x => ?_, fun x => ?_⟩
  · obtain ⟨r, o, c, t, w, e⟩ := h.srp x
    rw [e]
    exact ⟨rfl, rfl, rfl, fun _ => rfl, rfl, hnil⟩
  · obtain ⟨r, o, c, t, w, e⟩ := h.srp x
    rw [e]
    exact { seq := rfl, nums := fun i c hc => absurd hc (by simp [nsrpEndpoint, Srp.SrpInitL,
              Srp.SrpStart, Srp.SrpRecvSeqClear, Srp.DisableWNSRPSupport, Srp.WnsrpStatusSet]),
            queued := fun p hp => absurd hp not_mem_nil, sorted := .nil, sent := hnil,
            inOrder := .nil, active := fun h0 => absurd h0 Bool.false_ne_true,
            inactive := fun _ p hp => absurd hp not_mem_nil,
            times := fun num => Nat.zero_le _ }

theorem NsrpStart.good {l : Link} (h : l.NsrpStart) : l.Good := by
  have hnil : ∀ {P : Frame → Prop}, ∀ f ∈ ([] : List Frame), P f :=
    fun f hf => absurd hf not_mem_nil
  have hno : ∀ {n : Nat} {f : Frame}, ([] : List Frame)[n]? = some f → False :=
    fun hf => absurd hf (by simp)
  intro x _
  obtain ⟨r, o, c, t, w, e⟩ := h.srp x
  obtain ⟨r', o', c', t', w', e'⟩ := h.srp !x
  rw [e, e']
  exact { delivered := rfl, recv := rfl, first := fun _ => rfl,
          unread := fun _ _ _ hf => (hno hf).elim,
          answers := hnil, answersInOrder := .nil,
          phase := ⟨fun _ => ⟨0, rfl, Nat.le_refl 0, Nat.zero_le 1,
            fun _ => ⟨rfl, hnil⟩, hnil, fun _ _ _ _ _ => Nat.zero_le _⟩,
            fun h0 => absurd rfl h0⟩ }

/-- The endpoints' invariant in every run. -/
theorem sound_of_run {l₀ l : Link} {as : List Act} (h₀ : l₀.NsrpStart)
    (hr : Run (stepsOf step) l₀ as l) : l.Sound :=
  hr.invariant h₀.sound fun _ _ _ hs h => hs.step h

/-- **Stop and wait delivers a prefix.** In every run of two endpoints in NSRP mode no chunk's
    command is on the wire more than once and `N400` times again; and in a run through states with
    fewer than 256 packets waiting, a sender that has an observer or has given up nothing has a
    peer that handed up the first of its chunks, in order and each once. -/
theorem delivered_prefix {l₀ : Link} (h₀ : l₀.NsrpStart) :
    (∀ as l, Run (stepsOf step) l₀ as l → ∀ x num,
      (l.srp x).sentTimes num ≤ (l.srp x).iN400MaxCounter.toNat + 1) ∧
    ∀ as l, Run (onlyWhen (fun l _ => l.ShortQueues) (stepsOf step)) l₀ as l →
      ∀ x, (l.srp x).Reported → (l.srp !x).iULPortOut <+: (l.srp x).accepted := by
  refine ⟨fun as l hr x => ((sound_of_run h₀ hr).sender x).times, fun as l hr x hrep => ?_⟩
  have hinv : l.Sound ∧ l.Good := by
    refine hr.invariant (I := fun l => l.Sound ∧ l.Good) ⟨h₀.sound, h₀.good⟩ ?_
    rintro l a l' ⟨hs, hg⟩ ⟨hq, h⟩
    exact ⟨hs.step h, hg.step hs hq h⟩
  rw [((hinv.2 x) hrep).delivered]
  exact take_prefix _ _

/-- **Nothing is lost between the endpoints.** While a sender has given up nothing, what its peer
    handed up and what still waits, its head left out where the peer has that already, are together
    all the chunks it accepted. -/
theorem nothing_lost {l₀ l : Link} {as : List Act} (h₀ : l₀.NsrpStart)
    (hr : Run (onlyWhen (fun l _ => l.ShortQueues) (stepsOf step)) l₀ as l) {x : Bool}
    (h0 : (l.srp x).failures = 0) : ∃ d ≤ 1, (l.srp !x).iULPortOut ++
      ((l.srp x).iSrpWaitQueue.map fun p => p.chunk).drop d = (l.srp x).accepted := by
  have hd := (hr.invariant (I := fun l => l.Sound ∧ l.Good) ⟨h₀.sound, h₀.good⟩
    fun _ _ _ hi h => ⟨hi.1.step h.2, hi.2.step hi.1 h.1 h.2⟩).2 x (.inr h0)
  obtain ⟨k, hqueue, hle, hge, -⟩ := hd.phase.alive h0
  refine ⟨(l.srp !x).iULPortOut.length - k, by omega, ?_⟩
  rw [hqueue, drop_drop, Nat.add_sub_cancel' hle, hd.delivered, length_take,
    Nat.min_eq_left hd.length_le]
  exact take_append_drop _ _

/-- A link of two endpoints with the same settings. -/
def ofEndpoint (s : Srp) : Link := ⟨fun _ => s, fun _ => 0⟩

theorem nsrpStart_ofEndpoint (retries : Int) (observer : Bool) (sduSize txWindow rxWindow : Nat) :
    (ofEndpoint (nsrpEndpoint retries observer sduSize txWindow rxWindow)).NsrpStart :=
  ⟨fun _ => ⟨retries, observer, sduSize, txWindow, rxWindow, rfl⟩, fun _ => rfl⟩

instance (l : Link) : Decidable l.ShortQueues :=
  inferInstanceAs (Decidable (∀ x, (l.srp x).iSrpWaitQueue.length < 256))

/-- Three octets in chunks of two, the first command lost once and its answer repeated. -/
theorem delivered_prefix_lost_and_repeated :
    ∃ l : Link, (l.srp true).iULPortOut <+: (l.srp false).accepted ∧
      (l.srp true).iULPortOut = [⟨0, false, [1, 2]⟩, ⟨1, true, [3]⟩] ∧
      (l.srp false).sentTimes 0 ≤ 3 + 1 := by
  have h₀ := nsrpStart_ofEndpoint 3 true 2 5 5
  have hsome : (execAll (guarded (fun l _ => l.ShortQueues) step)
      (ofEndpoint (nsrpEndpoint 3 true 2 5 5))
      [.send false [1, 2, 3], .expire false 5, .receive true 1, .receive true 1,
        .receive false 0, .receive false 1, .receive true 2]).map
      (fun l => ((l.srp true).iULPortOut, (l.srp false).iObserver,
        (l.srp false).iN400MaxCounter)) =
      some ([⟨0, false, [1, 2]⟩, ⟨1, true, [3]⟩], true, 3) := by decide +kernel
  obtain ⟨l, hl, hval⟩ := map_eq_some_iff.mp hsome
  simp only [Prod.mk.injEq] at hval
  have hr := Run.of_guarded hl
  refine ⟨l, ( delivered_prefix h₀).2 _ l hr false (.inl hval.2.1), hval.1, ?_⟩
  have := ( delivered_prefix h₀).1 _ l hr.of_onlyWhen false 0
  rw [hval.2.2] at this
  exact this

/-- The second chunk is on its way, and the first is acknowledged. -/
theorem nothing_lost_under_way : ∃ l : Link, (l.srp false).iLLPortOut.length = 2 ∧ ∃ d ≤ 1,
    (l.srp true).iULPortOut ++ ((l.srp false).iSrpWaitQueue.map fun p => p.chunk).drop d =
      (l.srp false).accepted := by
  have hsome : (execAll (guarded (fun l _ => l.ShortQueues) step)
      (ofEndpoint (nsrpEndpoint 3 true 2 5 5))
      [.send false [1, 2, 3], .receive true 0, .receive false 0]).map
      (fun l => ((l.srp false).iLLPortOut.length, (l.srp false).failures)) = some (2, 0) := by
    decide +kernel
  obtain ⟨l, hl, hval⟩ := map_eq_some_iff.mp hsome
  simp only [Prod.mk.injEq] at hval
  exact ⟨l, hval.1, nothing_lost (nsrpStart_ofEndpoint 3 true 2 5 5) (Run.of_guarded hl) hval.2⟩

/-- Without an observer the sender goes on after it gave a command up, and the first command that
    arrives is taken for the first one sent: two messages, the first given up, and the peer hands up
    the second only. -/
theorem given_up_without_observer :
    ∃ (l₀ l : Link) (as : List Act), l₀.NsrpStart ∧ Run (stepsOf step) l₀ as l ∧
      (l.srp false).accepted = [⟨0, true, [1]⟩, ⟨1, true, [2]⟩] ∧
      (l.srp true).iULPortOut = [⟨1, true, [2]⟩] ∧
      ¬ (l.srp true).iULPortOut <+: (l.srp false).accepted := by
  have hsome : (execAll step (ofEndpoint (nsrpEndpoint 1 false 256 5 5))
      [.send false [1], .expire false 5, .expire false 5, .send false [2], .receive true 2]).map
      (fun l => ((l.srp false).accepted, (l.srp true).iULPortOut)) =
      some ([⟨0, true, [1]⟩, ⟨1, true, [2]⟩], [⟨1, true, [2]⟩]) := by decide +kernel
  obtain ⟨l, hl, hval⟩ := map_eq_some_iff.mp hsome
  simp only [Prod.mk.injEq] at hval
  refine ⟨_, l, _, nsrpStart_ofEndpoint 1 false 256 5 5, Run.of_execAll hl, hval.1, hval.2, ?_⟩
  rw [hval.1, hval.2]
  decide

end Link

end OpenCore.H324
