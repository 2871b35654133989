/-
  File:      OpenCore/OsclProc/TimerQRun.lean
  Subject:   TIMERS THAT GO OFF WHEN THEIR DELAY HAS ELAPSED, over every run of the scheduler.

  The abstract machine (`Timers`) has a clock that does not wrap and remembers for each request
  when it was made and for how long; `UpdateTimers` moves the elapsed ones to the ready list. The
  code keeps a due tick in 32 bits and a heap that compares due ticks round the wrap. `Tracks` ties
  the two, and `timerStep_tracks` keeps it through every call that meets `InRange`: a delay whose
  doubling does not wrap, and due ticks less than half the range apart.
-/
import OpenCore.OsclProc.ReadyQOrder
import OpenCore.OsclProc.TimerQ

namespace OpenCore.OsclProc

open OsclPriorityQueue HeapOrder List Option
open Function (update_of_ne update_self)
open Scheduler (tickCount)

variable {AO : Type*} [DecidableEq AO]

/-! ## 1. What the timers are for -/

open Scheduler (init)

open OsclProc (isIn)

/-- A delay in ticks, rounded to the nearest. -/
def roundedTicks (tickperiod delay : Nat) : Nat := (2 * delay / tickperiod + 1) / 2

/-- The requests, when each was made and for how long, and the ready objects. -/
structure Timers (AO : Type*) where
  clock : Nat
  requestedAt : AO → Nat
  delay : AO → Nat
  pending : List AO
  ready : List AO

/-- The tick a request is due at. -/
def Timers.due (tickperiod : Nat) (t : Timers AO) (a : AO) : Nat :=
  t.requestedAt a + roundedTicks tickperiod (t.delay a)

/-- The rounded delay of the request has elapsed. -/
def Timers.elapsed (tickperiod : Nat) (t : Timers AO) (a : AO) : Bool :=
  decide (t.due tickperiod a ≤ t.clock)

/-- All elapsed requests become ready, the others stay. -/
def Timers.update (tickperiod : Nat) (t : Timers AO) : Timers AO :=
  { t with
    pending := t.pending.filter fun a => !t.elapsed tickperiod a
    ready := t.ready ++ t.pending.filter fun a => t.elapsed tickperiod a }

def Timers.next (tickperiod : Nat) (t : Timers AO) : TimerOp AO → Timers AO
  | .after a delay err =>
    if err = osclErrNone then
      { t with
        requestedAt := Function.update t.requestedAt a t.clock
        delay := Function.update t.delay a delay
        pending := a :: t.pending }
    else t
  | .tick k => { t with clock := t.clock + k }
  | .updateTimers _ => t.update tickperiod
  | .runReady (some x) => { t with ready := t.ready.erase x }
  | .runReady none => t

/-- What `UpdateTimers` answers: a pending request that is due first, and how long it has to go. -/
def Timers.answers (tickperiod : Nat) (t : Timers AO) : TimerResult AO → Prop
  | .none => (t.update tickperiod).pending = []
  | .pending a delay => a ∈ (t.update tickperiod).pending ∧ t.clock + delay = t.due tickperiod a ∧
      ∀ b ∈ (t.update tickperiod).pending, t.due tickperiod a ≤ t.due tickperiod b
  | .leave _ => False

/-- The answers a call may give. -/
def Timers.Allowed (tickperiod : Nat) (t : Timers AO) : TimerOp AO → Prop
  | .after a _ err => err = osclErrNone → a ∉ t.pending ∧ a ∉ t.ready
  | .tick _ => True
  | .updateTimers r => t.answers tickperiod r
  | .runReady (some x) => x ∈ t.ready
  | .runReady none => t.ready = []

/-- **The purpose of the timers.** -/
def TimersStep (tickperiod : Nat) (t : Timers AO) (op : TimerOp AO) (t' : Timers AO) : Prop :=
  t.Allowed tickperiod op ∧ t' = t.next tickperiod op

/-- No requests, at a tick of the clock. -/
def Timers.init (clock : Nat) : Timers AO where
  clock := clock
  requestedAt := fun _ => 0
  delay := fun _ => 0
  pending := []
  ready := []

/-! ## 2. When the code's arithmetic is in range -/

/-- How many ticks a queued request is past its due tick, as the code's comparison sees it;
    negative before that tick. -/
def late (s : Scheduler AO) (a : AO) : Int :=
  let deltaTicks := sub32 s.tickCount (s.ao a).iPVReadyQLink.iTimeToRunTicks
  if deltaTicks ≤ iTimeCompareThreshold then deltaTicks else deltaTicks - 4294967296

/-- A request whose doubled delay stays in 32 bits and which is due less than `2^31` ticks after
    every request still in the queue; a clock that does not go `2^31` ticks past the due tick of a
    request still in the queue. -/
def InRange (tickperiod : Nat) (s : Scheduler AO) : TimerOp AO → Prop
  | .after _ delay _ => delay < 2147483648 ∧
      ∀ q ∈ s.iExecTimerQ.c, (delayTicks tickperiod delay : Int) + late s q < 2147483648
  | .tick k => ∀ q ∈ s.iExecTimerQ.c, late s q + k < 2147483648
  | _ => True

instance (tickperiod : Nat) (s : Scheduler AO) (op : TimerOp AO) :
    Decidable (InRange tickperiod s op) :=
  match op with
  | .after _ _ _ => inferInstanceAs (Decidable (_ ∧ _))
  | .tick k => inferInstanceAs (Decidable (∀ q ∈ s.iExecTimerQ.c, late s q + (k : Int) < 2147483648))
  | .updateTimers _ => isTrue trivial
  | .runReady _ => isTrue trivial

theorem roundedTicks_le (tickperiod delay : Nat) : roundedTicks tickperiod delay ≤ delay := by
  have := Nat.div_le_self (2 * delay) tickperiod
  unfold roundedTicks
  omega

/-- Without the wrap of the doubling the conversion rounds to the nearest tick. -/
theorem delayTicks_eq {tickperiod delay : Nat} (h : delay < 2147483648) :
    delayTicks tickperiod delay = roundedTicks tickperiod delay := by
  have h1 : delay * 2 < 4294967296 := by omega
  have h2 := Nat.div_le_self (2 * delay) tickperiod
  unfold delayTicks roundedTicks
  rw [mul32_eq h1, Nat.mul_comm delay 2, add32_eq (by omega)]

/-! ## 3. The heap of due ticks -/

/-- The later a request is due, the lower it is in the queue. -/
def laterDue (due : AO → Nat) (a b : AO) : Bool := decide (due b < due a)

omit [DecidableEq AO] in
theorem laterDue_strictPart (due : AO → Nat) : StrictPart (laterDue due) where
  asymm a b h := by
    simp only [laterDue, decide_eq_true_eq, decide_eq_false_iff_not] at *
    omega
  le_trans a b c h1 h2 := by
    simp only [laterDue, decide_eq_false_iff_not] at *
    omega

variable {ao : ActiveTable AO}

omit [DecidableEq AO] in
/-- On due ticks less than half the range apart, the comparison round the wrap is the order of the
    true due ticks. -/
theorem timerLess_refines {c : List AO} {due : AO → Nat}
    (hd : ∀ a ∈ c, (ao a).iPVReadyQLink.iTimeToRunTicks = due a % 4294967296)
    (hn : ∀ a ∈ c, ∀ b ∈ c, due a < due b + 2147483648) :
    Refines (timerLess ao) (laterDue due) c := by
  have key : ∀ a ∈ c, ∀ b ∈ c,
      (ao a).iPVReadyQLink.iTimeToRunTicks ≠ (ao b).iPVReadyQLink.iTimeToRunTicks →
      (iTimeCompareThreshold < sub32 (ao b).iPVReadyQLink.iTimeToRunTicks
        (ao a).iPVReadyQLink.iTimeToRunTicks ↔ due b < due a) := by
    intro a ha b hb hne
    have h1 := hn a ha b hb
    have h2 := hn b hb a ha
    rw [hd a ha, hd b hb] at hne ⊢
    unfold iTimeCompareThreshold sub32
    omega
  have same : ∀ a ∈ c, ∀ b ∈ c,
      (ao a).iPVReadyQLink.iTimeToRunTicks = (ao b).iPVReadyQLink.iTimeToRunTicks →
      due a = due b := by
    intro a ha b hb he
    have h1 := hn a ha b hb
    have h2 := hn b hb a ha
    rw [hd a ha, hd b hb] at he
    omega
  refine ⟨fun a ha b hb h => ?_, fun a ha b hb h => ?_⟩
  · rw [laterDue, decide_eq_false_iff_not]
    unfold timerLess timerCompare at h
    split at h
    · rename_i hne
      rw [decide_eq_true_eq, key a ha b hb hne] at h
      omega
    · rename_i he
      rw [same a ha b hb (not_not.mp he)]
      exact Nat.lt_irrefl _
  · rw [laterDue, decide_eq_false_iff_not]
    unfold timerLess timerCompare at h
    split at h
    · rename_i hne
      rw [decide_eq_false_iff_not, key a ha b hb hne] at h
      exact h
    · rename_i he
      rw [same a ha b hb (not_not.mp he)]
      exact Nat.lt_irrefl _

/-! ## 4. The queues follow the requests -/

/-- What ties a scheduler to the requests it holds. -/
structure Tracks (tickperiod : Nat) (s : Scheduler AO) (t : Timers AO) : Prop where
  clock : s.clock = t.clock
  pending : t.pending.Perm s.iExecTimerQ.c
  ready : t.ready.Perm s.iReadyQ.c
  queued : Queued s.ao s.iReadyQ
  nodup : s.iExecTimerQ.c.Nodup
  inTimerQ : ∀ a, isIn s.ao a = some .execTimerQ ↔ a ∈ s.iExecTimerQ.c
  busy : ∀ a, isIn s.ao a ≠ none → (s.ao a).iBusy = true
  status : ∀ a ∈ s.iExecTimerQ.c, (s.ao a).iStatus = oscl_request_pending
  due : ∀ a ∈ s.iExecTimerQ.c,
    (s.ao a).iPVReadyQLink.iTimeToRunTicks = t.due tickperiod a % 4294967296
  delay : ∀ a ∈ s.iExecTimerQ.c, t.delay a < 2147483648
  past : ∀ a ∈ s.iExecTimerQ.c,
    t.requestedAt a ≤ t.clock ∧ t.clock < t.due tickperiod a + 2147483648
  near : ∀ a ∈ s.iExecTimerQ.c, ∀ b ∈ s.iExecTimerQ.c,
    t.due tickperiod a < t.due tickperiod b + 2147483648
  heap : HeapOn (laterDue (t.due tickperiod)) (entries s.iExecTimerQ.c) s.iExecTimerQ.c.length

variable {tickperiod : Nat} {s : Scheduler AO} {t : Timers AO}

omit [DecidableEq AO] in
/-- The order of the two lists does not matter. -/
theorem Tracks.congr {t' : Timers AO} (h : Tracks tickperiod s t) (hc : t'.clock = t.clock)
    (hr : t'.requestedAt = t.requestedAt) (hd : t'.delay = t.delay)
    (hp : t'.pending.Perm t.pending) (hready : t'.ready.Perm t.ready) :
    Tracks tickperiod s t' := by
  have hdue : t'.due tickperiod = t.due tickperiod := by
    funext a
    rw [Timers.due, hr, hd, Timers.due]
  exact ⟨h.clock.trans hc.symm, hp.trans h.pending, hready.trans h.ready, h.queued, h.nodup,
    h.inTimerQ, h.busy, h.status, hdue ▸ h.due, hd ▸ h.delay, hdue ▸ hr ▸ hc ▸ h.past,
    hdue ▸ h.near, hdue ▸ h.heap⟩

variable {a : AO}

omit [DecidableEq AO] in
omit [DecidableEq AO] in
/-- The difference the code computes is how far the request is past its due tick. -/
theorem Tracks.late_eq (h : Tracks tickperiod s t) (ha : a ∈ s.iExecTimerQ.c) :
    late s a = (t.clock : Int) - t.due tickperiod a := by
  have h1 := h.past a ha
  have h2 := h.delay a ha
  have h3 := roundedTicks_le tickperiod (t.delay a)
  unfold late
  rw [h.due a ha, tickCount, h.clock]
  unfold Timers.due at *
  unfold sub32 iTimeCompareThreshold
  dsimp only
  split <;> omega

omit [DecidableEq AO] in
/-- The code's test finds the elapsed requests. -/
theorem Tracks.elapsed_iff (h : Tracks tickperiod s t)
    (ha : a ∈ s.iExecTimerQ.c) :
    sub32 s.tickCount (s.ao a).iPVReadyQLink.iTimeToRunTicks ≤ iTimeCompareThreshold ↔
      t.due tickperiod a ≤ t.clock := by
  have h1 := h.past a ha
  have h2 := h.delay a ha
  have h3 := roundedTicks_le tickperiod (t.delay a)
  rw [h.due a ha, tickCount, h.clock]
  unfold Timers.due at *
  unfold sub32 iTimeCompareThreshold
  omega

omit [DecidableEq AO] in
theorem Tracks.top_first (h : Tracks tickperiod s t) {x : AO} (hx : top s.iExecTimerQ.c = some x) :
    ∀ b ∈ s.iExecTimerQ.c, t.due tickperiod x ≤ t.due tickperiod b := by
  intro b hb
  have := top_greatest (laterDue_strictPart _) h.heap hx b hb
  rw [laterDue, decide_eq_false_iff_not] at this
  omega

/-! ## 5. `UpdateTimers` -/

omit [DecidableEq AO] in
theorem setIsIn_ne [DecidableEq AO] {b : AO} (h : b ≠ a)
    (q : Option QueueId) : setIsIn ao a q b = ao b := updateLink_ne h _

/-- A completion of an object that waits for one and is in no queue. -/
theorem pendComplete_success (q : ReadyQ AO) (reason : Int)
    (tick : Nat) (hin : (ao a).isInAnyQ = false) (hb : (ao a).iBusy = true)
    (hs : (ao a).iStatus = oscl_request_pending) :
    let r := pendComplete ao q a reason tick
    r.2.2 = osclErrNone ∧ r.2.1.c.Perm (a :: q.c) ∧ (∀ b, b ≠ a → r.1 b = ao b) ∧
      isIn r.1 a = some .readyQ ∧ (r.1 a).iBusy = true := by
  rcases pendComplete_cases ao q a reason tick with ⟨err, hne, heq⟩ | ⟨-, ao₁, ao', hao₁, rfl, heq⟩
  · have : (pendComplete ao q a reason tick).2.2 = osclErrNone := by
      unfold pendComplete
      rw [hin, if_neg Bool.false_ne_true, if_neg (by rw [hb, hs]; simp)]
    rw [heq] at this
    exact absurd this hne
  · rw [heq]
    refine ⟨rfl, push_perm _ q.c a, fun b hb' => ?_, ?_, ?_⟩
    · dsimp only
      rw [setStatus, update_of_ne hb', hao₁, updateLink_ne hb']
    · rw [isIn, link_setStatus, hao₁, updateLink_self]
    · dsimp only
      rw [setStatus, update_self, hao₁, updateLink, update_self]
      exact hb

/-- One round of the loop on an elapsed request: it goes from the one queue to the other. -/
theorem Tracks.complete (h : Tracks tickperiod s t) {x : AO} (hx : top s.iExecTimerQ.c = some x)
    {r : Scheduler AO × Int}
    (hr : r = schedulerPendComplete { s with
      ao := (timerPop s.ao s.iExecTimerQ x).1
      iExecTimerQ := (timerPop s.ao s.iExecTimerQ x).2 } x osclErrNone) :
    r.2 = osclErrNone ∧ r.1.clock = s.clock ∧
      r.1.iExecTimerQ.c.length + 1 = s.iExecTimerQ.c.length ∧
      Tracks tickperiod r.1 { t with pending := t.pending.erase x, ready := x :: t.ready } := by
  have hmem : x ∈ s.iExecTimerQ.c := mem_of_mem_head? hx
  have hpop := pop_perm (timerLess (setIsIn s.ao x none)) hx
  have hnd := nodup_cons.mp (hpop.nodup_iff.mpr h.nodup)
  have hnone : isIn (setIsIn s.ao x none) x = none := by rw [isIn_setIsIn, if_pos rfl]
  have hbusy : (s.ao x).iBusy = true := h.busy x (by rw [(h.inTimerQ x).mpr hmem]; nofun)
  have hself : (setIsIn s.ao x none x).iBusy = (s.ao x).iBusy ∧
      (setIsIn s.ao x none x).iStatus = (s.ao x).iStatus := by
    rw [setIsIn, updateLink, update_self]
    exact ⟨rfl, rfl⟩
  have hfree : (setIsIn s.ao x none x).isInAnyQ = false := by
    unfold isIn at hnone
    rw [ActiveBase.isInAnyQ, hnone]
    rfl
  obtain ⟨hok, hperm, hother, hnew, hbusy'⟩ := pendComplete_success s.iReadyQ osclErrNone
    s.tickCount hfree (hself.1.trans hbusy) (hself.2.trans (h.status x hmem))
  have hready : x ∉ s.iReadyQ.c := fun hm => by
    have := (h.queued.isIn x).mpr hm
    rw [(h.inTimerQ x).mpr hmem] at this
    cases this
  have hq : Queued (setIsIn s.ao x none) s.iReadyQ := by
    refine ⟨h.queued.nodup, fun b => ?_⟩
    rw [isIn_setIsIn]
    by_cases hb : b = x
    · subst hb; simpa using hready
    · rw [if_neg hb]; exact h.queued.isIn b
  have hq' := (queued_pendComplete hq x osclErrNone s.tickCount).1
  have hre : r = ({ s with
      ao := (pendComplete (setIsIn s.ao x none) s.iReadyQ x osclErrNone s.tickCount).1
      iExecTimerQ := { s.iExecTimerQ with
        c := pop (timerLess (setIsIn s.ao x none)) s.iExecTimerQ.c }
      iReadyQ := (pendComplete (setIsIn s.ao x none) s.iReadyQ x osclErrNone s.tickCount).2.1 },
      (pendComplete (setIsIn s.ao x none) s.iReadyQ x osclErrNone s.tickCount).2.2) := by
    unfold isIn at hnone
    rw [hr, schedulerPendComplete, timerPop]
    simp only [hnone, reduceCtorEq, if_false]
    rfl
  have hsub : ∀ b, b ∈ pop (timerLess (setIsIn s.ao x none)) s.iExecTimerQ.c →
      b ∈ s.iExecTimerQ.c ∧ b ≠ x ∧
        (pendComplete (setIsIn s.ao x none) s.iReadyQ x osclErrNone s.tickCount).1 b = s.ao b := by
    intro b hb
    have hbx : b ≠ x := fun e => hnd.1 (e ▸ hb)
    exact ⟨hpop.mem_iff.mp (mem_cons_of_mem x hb), hbx,
      (hother b hbx).trans (setIsIn_ne hbx none)⟩
  rw [hre]
  refine ⟨hok, rfl, hpop.length_eq, ?_⟩
  exact
    { clock := h.clock
      pending := by
        have := (h.pending.erase x).trans (hpop.erase x).symm
        rwa [erase_cons_head] at this
      ready := (h.ready.cons x).trans hperm.symm
      queued := hq'
      nodup := hnd.2
      inTimerQ := fun b => by
        by_cases hb : b = x
        · subst hb
          dsimp only
          rw [hnew]
          exact iff_of_false (by decide) hnd.1
        · dsimp only
          rw [isIn, hother b hb, setIsIn_ne hb]
          refine (h.inTimerQ b).trans ?_
          rw [← hpop.mem_iff, mem_cons]
          simp [hb]
      busy := fun b hb' => by
        by_cases hb : b = x
        · subst hb; exact hbusy'
        · dsimp only at hb' ⊢
          rw [isIn, hother b hb, setIsIn_ne hb] at hb'
          rw [hother b hb, setIsIn_ne hb]
          exact h.busy b hb'
      status := fun b hb => by
        obtain ⟨h1, -, h3⟩ := hsub b hb
        dsimp only
        rw [h3]
        exact h.status b h1
      due := fun b hb => by
        obtain ⟨h1, -, h3⟩ := hsub b hb
        dsimp only
        rw [h3]
        exact h.due b h1
      delay := fun b hb => h.delay b (hsub b hb).1
      past := fun b hb => h.past b (hsub b hb).1
      near := fun b hb b' hb' => h.near b (hsub b hb).1 b' (hsub b' hb').1
      heap := by
        refine pop_heap (laterDue_strictPart _) (timerLess_refines ?_ h.near) h.heap
        intro b hb
        refine Eq.trans ?_ (h.due b hb)
        by_cases hbx : b = x
        · subst hbx; rw [setIsIn, updateLink_self]
        · rw [setIsIn_ne hbx] }

omit [DecidableEq AO] in
/-- Completing one elapsed request first changes nothing about the whole update. -/
theorem update_erase [DecidableEq AO] {x : AO} (hx : x ∈ t.pending)
    (he : t.elapsed tickperiod x = true) :
    let t₁ : Timers AO := { t with pending := t.pending.erase x, ready := x :: t.ready }
    (t.update tickperiod).pending.Perm (t₁.update tickperiod).pending ∧
      (t.update tickperiod).ready.Perm (t₁.update tickperiod).ready := by
  have hp := perm_cons_erase hx
  constructor
  · have := hp.filter fun a => !t.elapsed tickperiod a
    rw [filter_cons_of_neg (by rw [he]; decide)] at this
    exact this
  · have := hp.filter fun a => t.elapsed tickperiod a
    rw [filter_cons_of_pos he] at this
    exact (this.append_left t.ready).trans perm_middle

omit [DecidableEq AO] in
/-- The answer depends on what is left as a set. -/
theorem Timers.answers_congr {u : Timers AO} (hc : t.clock = u.clock)
    (hr : t.requestedAt = u.requestedAt) (hd : t.delay = u.delay)
    (hp : (t.update tickperiod).pending.Perm (u.update tickperiod).pending)
    {r : TimerResult AO} (h : u.answers tickperiod r) : t.answers tickperiod r := by
  have hdue : t.due tickperiod = u.due tickperiod := by
    funext a
    rw [Timers.due, hr, hd, Timers.due]
  cases r with
  | none => exact ((show _ = [] from h) ▸ hp).eq_nil
  | pending a d =>
    obtain ⟨h1, h2, h3⟩ := h
    refine ⟨hp.mem_iff.mpr h1, ?_, fun b hb => ?_⟩
    · rw [hc, hdue]; exact h2
    · rw [hdue]; exact h3 b (hp.mem_iff.mp hb)
  | leave err => exact h

/-- **`UpdateTimers` completes the elapsed requests and no others.** -/
theorem updateTimersLoop_tracks {fuel timenow : Nat} (h : Tracks tickperiod s t)
    (hnow : timenow = s.tickCount) (hf : s.iExecTimerQ.c.length ≤ fuel) :
    Tracks tickperiod (updateTimersLoop timenow fuel s).1 (t.update tickperiod) ∧
      t.answers tickperiod (updateTimersLoop timenow fuel s).2 := by
  induction fuel generalizing s t with
  | zero =>
    have hc : s.iExecTimerQ.c = [] := length_eq_zero_iff.mp (Nat.le_zero.mp hf)
    have hnil : t.pending = [] := (hc ▸ h.pending).eq_nil
    refine ⟨h.congr rfl rfl rfl ?_ ?_, ?_⟩
    · simp [Timers.update, hnil]
    · simp [Timers.update, hnil]
    · simp [updateTimersLoop, Timers.answers, Timers.update, hnil]
  | succ fuel ih =>
    rw [updateTimersLoop]
    cases htop : top s.iExecTimerQ.c with
    | none =>
      have hc : s.iExecTimerQ.c = [] := head?_eq_none_iff.mp htop
      have hnil : t.pending = [] := (hc ▸ h.pending).eq_nil
      refine ⟨h.congr rfl rfl rfl ?_ ?_, ?_⟩
      · simp [Timers.update, hnil]
      · simp [Timers.update, hnil]
      · simp [Timers.answers, Timers.update, hnil]
    | some x =>
      have hmem : x ∈ s.iExecTimerQ.c := mem_of_mem_head? htop
      have hpend : x ∈ t.pending := h.pending.mem_iff.mpr hmem
      have hiff := h.elapsed_iff hmem
      rw [← hnow] at hiff
      dsimp only
      split
      · rename_i hdelta
        have he : t.elapsed tickperiod x = true :=
          decide_eq_true (hiff.mp hdelta)
        obtain ⟨hok, hclk, hlen, htr⟩ := h.complete htop rfl
        rw [if_pos hok]
        obtain ⟨h1, h2⟩ := ih htr
          (by rw [hnow, tickCount, tickCount, hclk]) (by omega)
        obtain ⟨hu1, hu2⟩ := update_erase hpend he
        exact ⟨h1.congr rfl rfl rfl hu1 hu2, Timers.answers_congr (t := t)
          (u := { t with pending := t.pending.erase x, ready := x :: t.ready })
          rfl rfl rfl hu1 h2⟩
      · rename_i hdelta
        have hlate : ∀ b ∈ t.pending, t.clock < t.due tickperiod b := by
          intro b hb
          have h1 := h.top_first htop b (h.pending.mem_iff.mp hb)
          rw [hiff] at hdelta
          omega
        have hup : (t.update tickperiod).pending = t.pending ∧
            (t.update tickperiod).ready = t.ready := by
          constructor
          · refine filter_eq_self.mpr fun b hb => ?_
            rw [Timers.elapsed, Bool.not_eq_true', decide_eq_false_iff_not]
            exact Nat.not_le.mpr (hlate b hb)
          · have hnone : (t.pending.filter fun a => t.elapsed tickperiod a) = [] := by
              refine filter_eq_nil_iff.mpr fun b hb => ?_
              rw [Timers.elapsed, decide_eq_true_eq]
              exact Nat.not_le.mpr (hlate b hb)
            rw [Timers.update, hnone, append_nil]
        refine ⟨h.congr rfl rfl rfl (by rw [hup.1]) (by rw [hup.2]), ?_⟩
        rw [Timers.answers, hup.1]
        refine ⟨hpend, ?_, fun b hb => h.top_first htop b (h.pending.mem_iff.mp hb)⟩
        have h1 := h.past x hmem
        have h2 := h.delay x hmem
        have h3 := roundedTicks_le tickperiod (t.delay x)
        have h4 := hlate x hpend
        rw [hnow, h.due x hmem, tickCount, h.clock]
        unfold Timers.due at *
        unfold sub32
        omega

/-! ## 6. Requests and ticks -/

/-- A request added to the timer queue: its own fields are the new ones, all others stay. -/
theorem Tracks.add (h : Tracks tickperiod s t) {delay seqNum : Nat} {callback : Bool}
    {ao' : ActiveTable AO} (hc : a ∉ s.iExecTimerQ.c) (hready : a ∉ s.iReadyQ.c)
    (hother : ∀ b, b ≠ a → ao' b = s.ao b) (hin : isIn ao' a = some .execTimerQ)
    (hbusy : (ao' a).iBusy = true) (hstatus : (ao' a).iStatus = oscl_request_pending)
    (htime : (ao' a).iPVReadyQLink.iTimeToRunTicks =
      add32 s.tickCount (delayTicks tickperiod delay))
    (hlt : delay < 2147483648)
    (hlate : ∀ q ∈ s.iExecTimerQ.c,
      (delayTicks tickperiod delay : Int) + late s q < 2147483648) :
    Tracks tickperiod
      { s with
        ao := ao'
        iExecTimerQ :=
          { c := push (timerLess ao') s.iExecTimerQ.c a, iSeqNumCounter := seqNum }
        iReadyQ := { s.iReadyQ with iCallback := callback } }
      { t with
        requestedAt := Function.update t.requestedAt a t.clock
        delay := Function.update t.delay a delay
        pending := a :: t.pending } := by
  set t' : Timers AO :=
    { t with
      requestedAt := Function.update t.requestedAt a t.clock
      delay := Function.update t.delay a delay
      pending := a :: t.pending } with ht'
  have hperm := push_perm (timerLess ao') s.iExecTimerQ.c a
  have hdueA : t'.due tickperiod a = t.clock + roundedTicks tickperiod delay := by
    rw [Timers.due, ht']
    simp only [update_self]
  have hdueB : ∀ b, b ≠ a → t'.due tickperiod b = t.due tickperiod b := by
    intro b hb
    rw [Timers.due, ht', Timers.due]
    simp only [update_of_ne hb]
  have hne : ∀ b ∈ s.iExecTimerQ.c, b ≠ a := fun b hb e => hc (e ▸ hb)
  -- the new due tick is near each of the old ones
  have hnear : ∀ b ∈ s.iExecTimerQ.c,
      t.due tickperiod b < t.clock + roundedTicks tickperiod delay + 2147483648 ∧
        t.clock + roundedTicks tickperiod delay < t.due tickperiod b + 2147483648 := by
    intro b hb
    have h1 := h.past b hb
    have h2 := h.delay b hb
    have h3 := roundedTicks_le tickperiod (t.delay b)
    have h4 := roundedTicks_le tickperiod delay
    have h5 := hlate b hb
    rw [delayTicks_eq hlt, h.late_eq hb] at h5
    unfold Timers.due at *
    omega
  have hmem : ∀ b ∈ push (timerLess ao') s.iExecTimerQ.c a, b = a ∨ b ∈ s.iExecTimerQ.c :=
    fun b hb => mem_cons.mp (hperm.mem_iff.mp hb)
  have hdue : ∀ b ∈ push (timerLess ao') s.iExecTimerQ.c a,
      (ao' b).iPVReadyQLink.iTimeToRunTicks = t'.due tickperiod b % 4294967296 := by
    intro b hb
    rcases hmem b hb with rfl | hb
    · rw [htime, hdueA, delayTicks_eq hlt, tickCount, h.clock, add32_mod]
    · rw [hother b (hne b hb), hdueB b (hne b hb)]
      exact h.due b hb
  have hnear' : ∀ b ∈ push (timerLess ao') s.iExecTimerQ.c a,
      ∀ b' ∈ push (timerLess ao') s.iExecTimerQ.c a,
        t'.due tickperiod b < t'.due tickperiod b' + 2147483648 := by
    intro b hb b' hb'
    rcases hmem b hb with hba | hba <;> rcases hmem b' hb' with hba' | hba'
    · rw [hba, hba']
      omega
    · rw [hba, hdueA, hdueB b' (hne b' hba')]
      exact (hnear b' hba').2
    · rw [hba', hdueA, hdueB b (hne b hba)]
      exact (hnear b hba).1
    · rw [hdueB b (hne b hba), hdueB b' (hne b' hba')]
      exact h.near b hba b' hba'
  exact
    { clock := h.clock
      pending := (h.pending.cons a).trans hperm.symm
      ready := h.ready
      queued := by
        refine ⟨h.queued.nodup, fun b => ?_⟩
        by_cases hb : b = a
        · subst hb
          dsimp only
          rw [hin]
          exact iff_of_false (by nofun) hready
        · dsimp only
          rw [isIn, hother b hb]
          exact h.queued.isIn b
      nodup := hperm.nodup_iff.mpr (nodup_cons.mpr ⟨hc, h.nodup⟩)
      inTimerQ := fun b => by
        dsimp only
        rw [hperm.mem_iff, mem_cons]
        by_cases hb : b = a
        · subst hb
          exact iff_of_true hin (Or.inl rfl)
        · rw [isIn, hother b hb, or_iff_right hb]
          exact h.inTimerQ b
      busy := fun b hb => by
        by_cases hba : b = a
        · subst hba
          exact hbusy
        · dsimp only at hb ⊢
          rw [isIn, hother b hba] at hb
          rw [hother b hba]
          exact h.busy b hb
      status := fun b hb => by
        rcases hmem b hb with rfl | hb
        · exact hstatus
        · dsimp only
          rw [hother b (hne b hb)]
          exact h.status b hb
      due := hdue
      delay := fun b hb => by
        rw [ht']
        dsimp only
        rcases hmem b hb with rfl | hb
        · rw [update_self]
          exact hlt
        · rw [update_of_ne (hne b hb)]
          exact h.delay b hb
      past := fun b hb => by
        rw [ht']
        dsimp only
        rcases hmem b hb with rfl | hb
        · rw [update_self, hdueA]
          omega
        · rw [update_of_ne (hne b hb), hdueB b (hne b hb)]
          exact h.past b hb
      near := hnear'
      heap := by
        refine push_heap (laterDue_strictPart _) ?_ ?_
        · exact (timerLess_refines hdue hnear').perm hperm.symm
        · refine h.heap.order_congr fun i j b b' hb hb' => ?_
          have hb1 := hne b (mem_of_getElem? hb)
          have hb2 := hne b' (mem_of_getElem? hb')
          rw [laterDue, laterDue, hdueB b hb1, hdueB b' hb2] }

theorem Tracks.after (h : Tracks tickperiod s t) {delay : Nat} {err : Int}
    (hr : InRange tickperiod s (.after a delay err))
    (he : (OsclProc.after tickperiod s a delay).2 = err) :
    t.Allowed tickperiod (.after a delay err) ∧
      Tracks tickperiod (OsclProc.after tickperiod s a delay).1
        (t.next tickperiod (.after a delay err)) := by
  obtain ⟨hlt, hlate⟩ := hr
  unfold OsclProc.after at he ⊢
  cases hb : (s.ao a).iBusy with
  | true =>
    rw [hb, if_pos rfl] at he
    have hne : err ≠ osclErrNone := by
      rw [← he]
      show osclErrInvalidState ≠ osclErrNone
      decide
    rw [if_pos rfl]
    exact ⟨fun e => absurd e hne, by rw [Timers.next, if_neg hne]; exact h⟩
  | false =>
    have hnone : isIn s.ao a = none := by
      by_contra hin
      rw [h.busy a hin] at hb
      cases hb
    have hc : a ∉ s.iExecTimerQ.c := fun hm => by
      have := (h.inTimerQ a).mpr hm
      rw [hnone] at this
      cases this
    have hready : a ∉ s.iReadyQ.c := fun hm => by
      have := (h.queued.isIn a).mpr hm
      rw [hnone] at this
      cases this
    have hfree : ((setStatus (setBusy s.ao a true) a oscl_request_pending) a).isInAnyQ =
        false := by
      unfold isIn at hnone
      rw [ActiveBase.isInAnyQ, link_setStatus, link_setBusy, hnone]
      rfl
    rw [hb, if_neg Bool.false_ne_true] at he
    rw [if_neg Bool.false_ne_true]
    unfold addToExecTimerQ at he ⊢
    rw [hfree, if_neg Bool.false_ne_true] at he
    rw [hfree, if_neg Bool.false_ne_true]
    have herr : err = osclErrNone := he.symm
    refine ⟨fun _ => ⟨fun hm => hc (h.pending.mem_iff.mp hm),
      fun hm => hready (h.ready.mem_iff.mp hm)⟩, ?_⟩
    rw [Timers.next, if_pos herr]
    dsimp only [timerAdd]
    refine h.add hc hready (fun b hb' => ?_) ?_ ?_ ?_ ?_ hlt hlate
    · rw [updateLink_ne hb', updateLink_ne hb', setStatus, update_of_ne hb', setBusy,
        update_of_ne hb']
    · rw [isIn, updateLink_self]
    · rw [updateLink, update_self, updateLink, update_self, setStatus,
        update_self, setBusy, update_self]
    · rw [updateLink, update_self, updateLink, update_self, setStatus,
        update_self]
    · rw [updateLink_self, updateLink_self]
      rfl

omit [DecidableEq AO] in
theorem Tracks.tick (h : Tracks tickperiod s t) {k : Nat} (hr : InRange tickperiod s (.tick k)) :
    Tracks tickperiod { s with clock := s.clock + k } { t with clock := t.clock + k } :=
  { h with
    clock := congrArg (· + k) h.clock
    past := fun a ha => by
      have h1 := h.past a ha
      have h2 := hr a ha
      rw [h.late_eq ha] at h2
      rw [Timers.due] at *
      dsimp only
      omega }

theorem Tracks.runReady (h : Tracks tickperiod s t) :
    t.Allowed tickperiod (.runReady (OsclProc.runReady s).2) ∧
      Tracks tickperiod (OsclProc.runReady s).1
        (t.next tickperiod (.runReady (OsclProc.runReady s).2)) := by
  unfold OsclProc.runReady
  cases hpop : popTopLocked s.ao s.iReadyQ with
  | none =>
    have hc := popTopLocked_none hpop
    exact ⟨(hc ▸ h.ready).eq_nil, h⟩
  | some r =>
    obtain ⟨x, ao', q'⟩ := r
    obtain ⟨htop, rfl, rfl⟩ := popTopLocked_some hpop
    obtain ⟨hq, hperm, -⟩ := queued_popTopLocked h.queued hpop
    have hmem : x ∈ s.iReadyQ.c := mem_of_mem_head? htop
    have htimer : x ∉ s.iExecTimerQ.c := fun hm => by
      have := (h.inTimerQ x).mpr hm
      rw [(h.queued.isIn x).mpr hmem] at this
      cases this
    have hother : ∀ b, b ≠ x → setBusy (setIsIn s.ao x none) x false b = s.ao b := by
      intro b hb
      rw [setBusy, update_of_ne hb, setIsIn_ne hb]
    have hne : ∀ b ∈ s.iExecTimerQ.c, b ≠ x := fun b hb e => htimer (e ▸ hb)
    have hlink : ∀ b, isIn (setBusy (setIsIn s.ao x none) x false) b =
        isIn (setIsIn s.ao x none) b := by
      intro b
      rw [isIn, link_setBusy, isIn]
    refine ⟨h.ready.mem_iff.mpr hmem, ?_⟩
    exact
      { clock := h.clock
        pending := h.pending
        ready := by
          have := (h.ready.erase x).trans (hperm.erase x).symm
          rwa [erase_cons_head] at this
        queued := ⟨hq.nodup, fun b => (hlink b).symm ▸ hq.isIn b⟩
        nodup := h.nodup
        inTimerQ := fun b => by
          dsimp only
          rw [hlink, isIn_setIsIn]
          by_cases hb : b = x
          · subst hb
            simpa using htimer
          · rw [if_neg hb]
            exact h.inTimerQ b
        busy := fun b hb => by
          dsimp only at hb ⊢
          rw [hlink, isIn_setIsIn] at hb
          by_cases hbx : b = x
          · rw [if_pos hbx] at hb
            exact absurd rfl hb
          · rw [if_neg hbx] at hb
            rw [hother b hbx]
            exact h.busy b hb
        status := fun b hb => by
          dsimp only
          rw [hother b (hne b hb)]
          exact h.status b hb
        due := fun b hb => by
          dsimp only
          rw [hother b (hne b hb)]
          exact h.due b hb
        delay := h.delay
        past := h.past
        near := h.near
        heap := h.heap }

/-! ## 7. Whole runs -/

/-- **One call within range.** -/
theorem timerStep_tracks (h : Tracks tickperiod s t) {op : TimerOp AO} {s' : Scheduler AO}
    (hs : onlyWhen (InRange tickperiod) (stepsOf (timerStep tickperiod)) s op s') :
    ∃ t', TimersStep tickperiod t op t' ∧ Tracks tickperiod s' t' := by
  obtain ⟨hr, hs⟩ := hs
  unfold stepsOf at hs
  cases op with
  | after a delay err =>
    rw [timerStep, ite_none_right_eq_some] at hs
    obtain ⟨he, hs⟩ := hs
    cases hs
    obtain ⟨h1, h2⟩ := h.after hr he
    exact ⟨_, ⟨h1, rfl⟩, h2⟩
  | tick k =>
    cases hs
    exact ⟨_, ⟨trivial, rfl⟩, h.tick hr⟩
  | updateTimers r =>
    rw [timerStep, ite_none_right_eq_some] at hs
    obtain ⟨he, hs⟩ := hs
    cases hs
    obtain ⟨h1, h2⟩ := updateTimersLoop_tracks h rfl (le_refl s.iExecTimerQ.c.length)
    exact ⟨_, ⟨he ▸ h2, rfl⟩, h1⟩
  | runReady x =>
    rw [timerStep, ite_none_right_eq_some] at hs
    obtain ⟨he, hs⟩ := hs
    cases hs
    obtain ⟨h1, h2⟩ := h.runReady
    rw [he] at h1 h2
    exact ⟨_, ⟨h1, rfl⟩, h2⟩

omit [DecidableEq AO] in
theorem tracks_init (hidle : ∀ a, isIn ao a = none) (clock : Nat) :
    Tracks tickperiod (init ao clock) (Timers.init clock) where
  clock := rfl
  pending := .refl []
  ready := .refl []
  queued := ⟨nodup_nil, fun a => iff_of_false (by rw [init, hidle a]; nofun) nofun⟩
  nodup := nodup_nil
  inTimerQ := fun a => iff_of_false (by rw [init, hidle a]; nofun) nofun
  busy := fun a ha => absurd (hidle a) ha
  status := nofun
  due := nofun
  delay := nofun
  past := nofun
  near := nofun
  heap := fun i _ hi => absurd hi (Nat.not_lt_zero _)

/-- **Timers go off exactly when their rounded delay has elapsed**, in every run whose calls are
    within range: it is a run of the abstract timers with the same calls and answers, and at its
    end the timer queue holds the requests not yet due and the ready queue the completed ones. -/
theorem timers_of_inRange_run {ao : ActiveTable AO} (hidle : ∀ a, isIn ao a = none)
    {clock : Nat} {ops : List (TimerOp AO)} {s : Scheduler AO}
    (hr : Run (onlyWhen (InRange tickperiod) (stepsOf (timerStep tickperiod)))
      (init ao clock) ops s) :
    ∃ t, Run (TimersStep tickperiod) (Timers.init clock) ops t ∧
      t.clock = s.clock ∧ t.pending.Perm s.iExecTimerQ.c ∧ t.ready.Perm s.iReadyQ.c := by
  have hstep : ∀ (s : Scheduler AO) (op : TimerOp AO) (s' : Scheduler AO) (t : Timers AO),
      Tracks tickperiod s t →
      onlyWhen (InRange tickperiod) (stepsOf (timerStep tickperiod)) s op s' →
      ∃ t', TimersStep tickperiod t op t' ∧ Tracks tickperiod s' t' :=
    fun _ _ _ _ h hs => timerStep_tracks h hs
  obtain ⟨t, hrun, htr⟩ := hr.simulate (tracks_init hidle clock) hstep
  exact ⟨t, hrun, htr.clock.symm, htr.pending, htr.ready⟩

/-- Two requests made just before the clock wraps; three ticks on, the one of 2 ms is completed and
    the one of 5 ms has two ticks to go. -/
theorem timers_of_inRange_run_wrap :
    ∃ (s : Scheduler Bool) (t : Timers Bool), Run (TimersStep 1000) (Timers.init 4294967294)
        [.after true 5000 0, .after false 2000 0, .tick 3, .updateTimers (.pending true 2),
          .runReady (some false)] t ∧
      t.clock = s.clock ∧ t.pending.Perm s.iExecTimerQ.c ∧ t.ready.Perm s.iReadyQ.c := by
  have hsome : (execAll (guarded (InRange 1000) (timerStep 1000))
      (init (fun _ => { iPVReadyQLink := { iAOPriority := 0 } }) 4294967294)
      [.after true 5000 0, .after false 2000 0, .tick 3, .updateTimers (.pending true 2),
        .runReady (some false)]).isSome := by decide +kernel
  obtain ⟨s, hs⟩ := isSome_iff_exists.mp hsome
  exact ⟨s, timers_of_inRange_run (fun a => rfl) (Run.of_guarded hs)⟩

theorem timers_run {t₀ t : Timers AO} {ops : List (TimerOp AO)}
    (hr : Run (TimersStep tickperiod) t₀ ops t) : t = ops.foldl (Timers.next tickperiod) t₀ := by
  induction hr with
  | start => rfl
  | step _ hs ih => rw [foldl_append, foldl_cons, foldl_nil, ← ih, hs.2]

/-- A request of `2^31` microseconds goes off at once: its doubled delay is 0 in 32 bits. -/
theorem long_delay_goes_off_at_once :
    ¬ ∀ (ops : List (TimerOp Bool)) (s : Scheduler Bool), (∀ k, .tick k ∉ ops) →
      Run (stepsOf (timerStep 1000))
        (init (fun _ => { iPVReadyQLink := { iAOPriority := 0 } }) 0) ops s →
      ∃ t, Run (TimersStep 1000) (Timers.init 0) ops t ∧
        t.clock = s.clock ∧ t.pending.Perm s.iExecTimerQ.c ∧ t.ready.Perm s.iReadyQ.c := by
  intro h
  have hsome : (execAll (timerStep 1000)
      (init (fun _ => { iPVReadyQLink := { iAOPriority := 0 } }) 0)
      ([.after true 2147483648 0] ++ [.updateTimers .none])).isSome := by decide +kernel
  obtain ⟨s, hs⟩ := isSome_iff_exists.mp hsome
  obtain ⟨t, hr, -⟩ := h _ s (by simp) (Run.of_execAll hs)
  obtain ⟨t₁, hr₁, hanswer, -⟩ := hr.of_concat
  have ht : (t₁.update 1000).pending = [true] := by rw [timers_run hr₁]; decide +kernel
  have hnil : (t₁.update 1000).pending = [] := hanswer
  rw [ht] at hnil
  cases hnil

end OpenCore.OsclProc
