/-
  File:      OpenCore/OsclProc/ReadyQRun.lean
  Subject:   `OsclReadyQ` UNDER ANY INTERLEAVING of its threads.

  The semaphore and the heap are changed at different moments, so the count of the one is the
  length of the other only up to the tokens on the way. `Inv` says the balance. Which object a pop
  takes is compared with the list of completed requests in the order of completion
  (`CompletionStep`): nothing is lost in any run, and the earliest of the highest priority goes
  first while every `Remove` leaves the heap a heap (`SafeLabel`).
-/
import OpenCore.OsclProc.ReadyQOrder

namespace OpenCore.OsclProc

open OsclPriorityQueue List Option
open Function (update update_of_ne update_self)
open Finset (add_sum_erase mem_univ univ)
open OsclProc (isIn)

variable {AO T : Type*} [DecidableEq AO] [DecidableEq T] [Fintype T]

/-! ## 1. Tokens -/

open State (init)

/-- The semaphore tokens a thread holds: taken from the semaphore, and owed to a pop or to it. -/
def PC.held : PC AO → Nat
  | .idle => 0
  | .popAfterWait => 1
  | .lockedWait => 0
  | .waitFor _ nwait => nwait
  | .checkIsIn _ nwait => nwait
  | .restore nwait => nwait

/-- The tokens all threads hold. -/
def tokens (pc : T → PC AO) : Nat := ∑ t, (pc t).held

omit [DecidableEq AO] in
theorem tokens_update (pc : T → PC AO) (t : T) (p : PC AO) :
    tokens (update pc t p) + (pc t).held = tokens pc + p.held := by
  have h1 := add_sum_erase univ (fun u => (pc u).held) (mem_univ t)
  have h2 := add_sum_erase univ (fun u => (update pc t p u).held)
    (mem_univ t)
  have h3 : ∑ u ∈ univ.erase t, (update pc t p u).held =
      ∑ u ∈ univ.erase t, (pc u).held :=
    Finset.sum_congr rfl fun u hu => by rw [update_of_ne (Finset.ne_of_mem_erase hu)]
  rw [update_self] at h2
  unfold tokens
  omega

omit [DecidableEq AO] in
theorem held_le_tokens (pc : T → PC AO) (t : T) : (pc t).held ≤ tokens pc := by
  have h := add_sum_erase univ (fun u => (pc u).held) (mem_univ t)
  unfold tokens
  omega

/-! ## 2. The invariant -/

/-- The invariant on the components of a state. -/
structure InvAt (ao : ActiveTable AO) (q : ReadyQ AO) (iCrit : Option T) (pc : T → PC AO) :
    Prop where
  queued : Queued ao q
  /-- every queued object has its token: in the semaphore, or in the hands of a thread -/
  balance : q.iSem + tokens pc = q.c.length + if iCrit = none then 0 else 1
  /-- the lock stays taken exactly while a thread waits under it -/
  crit : ∀ t, pc t = .lockedWait ↔ iCrit = some t

def Inv (s : State AO T) : Prop := InvAt s.ao s.q s.iCrit s.pc

variable {ao : ActiveTable AO} {q : ReadyQ AO} {iCrit : Option T} {pc : T → PC AO}

variable {t : T}

omit [DecidableEq AO] in
theorem InvAt.crit_update (h : InvAt ao q iCrit pc) {p : PC AO}
    (ht : pc t ≠ .lockedWait) (hp : p ≠ .lockedWait) :
    ∀ u, update pc t p u = .lockedWait ↔ iCrit = some u := by
  intro u
  by_cases hu : u = t
  · subst hu
    rw [update_self]
    exact iff_of_false hp fun hc => ht ((h.crit u).mpr hc)
  · rw [update_of_ne hu]
    exact h.crit u

omit [DecidableEq AO] in
theorem InvAt.crit_lock (h : InvAt ao q none pc) (t : T) :
    ∀ u, update pc t .lockedWait u = .lockedWait ↔ some t = some u := by
  intro u
  by_cases hu : u = t
  · subst hu; simp
  · rw [update_of_ne hu, h.crit u]
    simp [Ne.symm hu]

omit [DecidableEq AO] in
theorem InvAt.crit_unlock (h : InvAt ao q iCrit pc) (ht : pc t = .lockedWait) :
    ∀ u, update pc t .idle u = .lockedWait ↔ (none : Option T) = some u := by
  intro u
  by_cases hu : u = t
  · subst hu; simp
  · rw [update_of_ne hu, h.crit u, (h.crit t).mp ht]
    simp [Ne.symm hu]

omit [DecidableEq AO] [DecidableEq T] in
/-- The table may change in everything but `iIsIn` of the queue. -/
theorem InvAt.table (h : InvAt ao q iCrit pc) {ao' : ActiveTable AO}
    (hin : ∀ a, isIn ao' a = some .readyQ ↔ isIn ao a = some .readyQ) : InvAt ao' q iCrit pc :=
  ⟨⟨h.queued.nodup, fun a => (hin a).trans (h.queued.isIn a)⟩, h.balance, h.crit⟩

omit [DecidableEq AO] in
/-- A thread moves on, and the semaphore makes up for the tokens it holds. -/
theorem InvAt.goto (h : InvAt ao q iCrit pc) {p : PC AO} {sem : Nat}
    (ht : pc t ≠ .lockedWait) (hp : p ≠ .lockedWait)
    (hsem : sem + p.held = q.iSem + (pc t).held) :
    InvAt ao { q with iSem := sem } iCrit (update pc t p) where
  queued := ⟨h.queued.nodup, h.queued.isIn⟩
  balance := by
    have h1 := tokens_update pc t p
    have h2 := h.balance
    dsimp only
    omega
  crit := h.crit_update ht hp

omit [DecidableEq AO] [DecidableEq T] in
theorem inv_init (h : ∀ a, isIn ao a ≠ some .readyQ) : Inv (init ao : State AO T) where
  queued := ⟨nodup_nil, fun a => iff_of_false (h a) not_mem_nil⟩
  balance := by simp [init, tokens, PC.held]
  crit t := by simp [init]

/-! ## 3. Every action keeps it -/

open InvAt (goto table)

omit [DecidableEq T] in
theorem InvAt.pendComplete (h : InvAt ao q iCrit pc) (a : AO) (reason : Int) (tick : Nat) :
    InvAt (pendComplete ao q a reason tick).1 (pendComplete ao q a reason tick).2.1 iCrit pc := by
  obtain ⟨h1, h2⟩ := queued_pendComplete h.queued a reason tick
  have h3 := h.balance
  exact ⟨h1, by omega, h.crit⟩

section Pop

variable {x : AO} {ao' : ActiveTable AO} {q' : ReadyQ AO}

theorem InvAt.popTop (h : InvAt ao q none pc) (ht : pc t = .idle)
    (he : popTopLocked ao q = some (x, ao', q')) :
    InvAt ao' q' (some t) (update pc t .lockedWait) := by
  obtain ⟨h1, h2, h3⟩ := queued_popTopLocked h.queued he
  refine ⟨h1, ?_, h.crit_lock t⟩
  have h4 := h.balance
  have h5 := tokens_update pc t .lockedWait
  have h6 := h2.length_eq
  rw [ht] at h5
  rw [if_neg (some_ne_none t)]
  simp only [PC.held, length_cons, if_true] at *
  omega

theorem InvAt.popTopAfterWait (h : InvAt ao q iCrit pc) (ht : pc t = .popAfterWait)
    (he : popTopLocked ao q = some (x, ao', q')) :
    InvAt ao' q' iCrit (update pc t .idle) := by
  obtain ⟨h1, h2, h3⟩ := queued_popTopLocked h.queued he
  refine ⟨h1, ?_, h.crit_update (by rw [ht]; nofun) nofun⟩
  have h4 := h.balance
  have h5 := tokens_update pc t .idle
  have h6 := h2.length_eq
  rw [ht] at h5
  simp only [PC.held, length_cons] at *
  omega

omit [DecidableEq AO] in
/-- **A thread that has waited finds an object**: the assertion of `PopTopAfterWait` holds. -/
theorem InvAt.nonempty_after_wait (h : InvAt ao q none pc) (ht : pc t = .popAfterWait) :
    q.c ≠ [] := by
  intro hc
  have h1 := h.balance
  have h2 := held_le_tokens pc t
  rw [hc] at h1
  rw [ht] at h2
  simp only [length_nil, if_true, PC.held] at *
  omega

end Pop

theorem InvAt.remove_found (h : InvAt ao q none pc) (ht : pc t = .idle) {a : AO}
    (hf : 0 < (removeLocked ao q a).2.2) :
    InvAt (removeLocked ao q a).1 (removeLocked ao q a).2.1 (some t)
      (update pc t .lockedWait) := by
  obtain ⟨h1, h2, h3, h4⟩ := queued_removeLocked h.queued a
  have hmem : a ∈ q.c := by
    by_contra hn
    rw [h4, if_neg hn] at hf
    exact absurd hf (Nat.lt_irrefl 0)
  refine ⟨h1, ?_, h.crit_lock t⟩
  have h5 := h.balance
  have h6 := tokens_update pc t .lockedWait
  have h7 := h2.length_eq
  have h8 := length_erase_of_mem hmem
  have h9 := length_pos_of_mem hmem
  rw [ht] at h6
  rw [if_neg (some_ne_none t)]
  simp only [PC.held, if_true] at *
  omega

omit [DecidableEq T] in
theorem InvAt.remove_absent (h : InvAt ao q iCrit pc) {a : AO}
    (hf : ¬ 0 < (removeLocked ao q a).2.2) :
    InvAt (removeLocked ao q a).1 (removeLocked ao q a).2.1 iCrit pc := by
  obtain ⟨h1, h2, h3, h4⟩ := queued_removeLocked h.queued a
  have hmem : a ∉ q.c := fun hm => by
    rw [h4, if_pos hm] at hf
    exact hf Nat.one_pos
  have h5 := h.balance
  have h6 := h2.length_eq
  rw [erase_of_not_mem hmem] at h6
  exact ⟨h1, by omega, h.crit⟩

omit [DecidableEq AO] in
/-- The semaphore gives the token for what was taken under the lock, and the lock is released. -/
theorem InvAt.lockedWait (h : InvAt ao q iCrit pc) (ht : pc t = .lockedWait)
    (hsem : 0 < q.iSem) :
    InvAt ao { q with iSem := q.iSem - 1 } none (update pc t .idle) := by
  refine ⟨⟨h.queued.nodup, h.queued.isIn⟩, ?_, h.crit_unlock ht⟩
  have h1 := h.balance
  have h2 := tokens_update pc t .idle
  rw [(h.crit t).mp ht, if_neg (some_ne_none t)] at h1
  rw [ht] at h2
  simp only [PC.held, if_true] at *
  omega

variable {s s' : State AO T}

/-- **Every atomic action keeps the balance.** -/
theorem step_inv {l : Label AO T} (hi : Inv s) (h : step s l = some s') :
    Inv s' := by
  cases l with
  | pendComplete t a reason tick err =>
    simp only [step] at h
    split at h
    · split at h
      · cases h; exact InvAt.pendComplete hi a reason tick
      · cases h
    · cases h
  | popTop t elem =>
    simp only [step] at h
    split at h
    · rename_i hg
      split at h
      · split at h
        · cases h; exact hi
        · cases h
      · rename_i x ao' q' he
        split at h
        · cases h; exact InvAt.popTop (hg.2 ▸ hi) hg.1 he
        · cases h
    · cases h
  | remove t a =>
    simp only [step] at h
    split at h
    · rename_i hg
      split at h
      · rename_i hf
        cases h; exact InvAt.remove_found (hg.2 ▸ hi) hg.1 hf
      · rename_i hf
        cases h; exact InvAt.remove_absent hi hf
    · cases h
  | lockedWait t =>
    simp only [step] at h
    split at h
    · rename_i hg
      cases h; exact InvAt.lockedWait hi hg.1 hg.2
    · cases h
  | waitAndPopTop t =>
    simp only [step] at h
    split at h
    · rename_i hg
      cases h
      refine goto hi (by rw [hg.1]; nofun) nofun ?_
      rw [hg.1]
      simp only [PC.held]
      omega
    · cases h
  | popTopAfterWait t elem =>
    simp only [step] at h
    split at h
    · rename_i hg
      split at h
      · rename_i he
        have hfree : InvAt s.ao s.q none s.pc := hg.2 ▸ hi
        exact absurd (popTopLocked_none he) (hfree.nonempty_after_wait hg.1)
      · rename_i x ao' q' he
        split at h
        · cases h; exact InvAt.popTopAfterWait hi hg.1 he
        · cases h
    · cases h
  | waitForRequestComplete t a =>
    simp only [step] at h
    split at h
    · rename_i hg
      cases h
      exact goto hi (by rw [hg]; nofun) nofun (by rw [hg]; rfl)
    · cases h
  | wait t =>
    simp only [step] at h
    split at h
    · rename_i a nwait hpc
      split at h
      · cases h
        refine goto hi (by rw [hpc]; nofun) nofun ?_
        rw [hpc]
        simp only [PC.held]
        omega
      · cases h
    · cases h
  | isIn t =>
    simp only [step] at h
    split at h
    · rename_i a nwait hpc
      split at h
      · split at h
        · cases h
          exact goto hi (by rw [hpc]; nofun) nofun (by rw [hpc]; rfl)
        · cases h
          exact goto hi (by rw [hpc]; nofun) nofun (by rw [hpc]; rfl)
      · cases h
    · cases h
  | signal t =>
    simp only [step] at h
    split at h
    · rename_i nwait hpc
      cases h
      refine goto hi (by rw [hpc]; nofun) (by split <;> nofun) ?_
      rw [hpc]
      split
      · rename_i h0
        subst h0
        rfl
      · simp only [PC.held]
        omega
    · cases h
  | pendForExec a =>
    simp only [step] at h
    split at h
    · cases h
    · cases h; exact table hi fun b => by simp [isIn]
  | callRunExec a | setStatus a v =>
    cases h; exact table hi fun b => by simp [isIn]
  | timerAdd a =>
    simp only [step] at h
    split at h
    · cases h
    · rename_i hin
      cases h
      refine table hi fun b => ?_
      rw [isIn_setIsIn]
      by_cases hb : b = a
      · subst hb
        simp only [if_true, isIn]
        unfold ActiveBase.isInAnyQ at hin
        simp only [Bool.not_eq_true, isSome_eq_false_iff, isNone_iff_eq_none] at hin
        rw [hin]
        simp
      · rw [if_neg hb]
  | timerTake a =>
    simp only [step] at h
    split at h
    · rename_i hin
      cases h
      refine table hi fun b => ?_
      rw [isIn_setIsIn]
      by_cases hb : b = a
      · subst hb
        simp only [if_true, isIn, hin]
        simp
      · rw [if_neg hb]
    · cases h

/-! ## 4. What an action does to the queue -/

/-- The actions that neither complete nor take a request. -/
def Label.quiet : Label AO T → Bool
  | .pendComplete .. => false
  | .popTop .. => false
  | .remove .. => false
  | .popTopAfterWait .. => false
  | _ => true

variable {lab : Label AO T}

/-- **What an action can do to the table and the queue**: one of the locked bodies, or nothing the
    order of the queue reads. -/
theorem step_cases (hi : Inv s)
    (h : step s lab = some s') :
    (∃ t a r tick err, lab = .pendComplete t a r tick err ∧
      (pendComplete s.ao s.q a r tick).2.2 = err ∧ s'.ao = (pendComplete s.ao s.q a r tick).1 ∧
      s'.q = (pendComplete s.ao s.q a r tick).2.1) ∨
    (∃ t x, (lab = .popTop t (some x) ∨ lab = .popTopAfterWait t (some x)) ∧
      popTopLocked s.ao s.q = some (x, s'.ao, s'.q)) ∨
    (∃ t a, lab = .remove t a ∧ s'.ao = (removeLocked s.ao s.q a).1 ∧
      s'.q = (removeLocked s.ao s.q a).2.1) ∨
    (((∃ t, lab = .popTop t none ∧ s.q.c = []) ∨ lab.quiet = true) ∧
      (∀ a, prio s'.ao a = prio s.ao a ∧ seqNum s'.ao a = seqNum s.ao a) ∧
      s'.q.c = s.q.c ∧ s'.q.iSeqNumCounter = s.q.iSeqNumCounter) := by
  cases lab with
  | pendComplete t a reason tick err =>
    simp only [step] at h
    split at h
    · split at h
      · rename_i he
        cases h
        exact .inl ⟨t, a, reason, tick, err, rfl, he, rfl, rfl⟩
      · cases h
    · cases h
  | popTop t elem =>
    simp only [step] at h
    split at h
    · split at h
      · rename_i he
        split at h
        · rename_i hel
          cases h
          exact .inr (.inr (.inr ⟨.inl ⟨t, by rw [hel], popTopLocked_none he⟩,
            fun _ => ⟨rfl, rfl⟩, rfl, rfl⟩))
        · cases h
      · rename_i x ao' q' he
        split at h
        · rename_i hel
          cases h
          exact .inr (.inl ⟨t, x, .inl (by rw [hel]), he⟩)
        · cases h
    · cases h
  | popTopAfterWait t elem =>
    simp only [step] at h
    split at h
    · rename_i hg
      split at h
      · rename_i he
        have hfree : InvAt s.ao s.q none s.pc := hg.2 ▸ hi
        exact absurd (popTopLocked_none he) (hfree.nonempty_after_wait hg.1)
      · rename_i x ao' q' he
        split at h
        · rename_i hel
          cases h
          exact .inr (.inl ⟨t, x, .inr (by rw [hel]), he⟩)
        · cases h
    · cases h
  | remove t a =>
    simp only [step] at h
    split at h
    · split at h
      · cases h; exact .inr (.inr (.inl ⟨t, a, rfl, rfl, rfl⟩))
      · cases h; exact .inr (.inr (.inl ⟨t, a, rfl, rfl, rfl⟩))
    · cases h
  | lockedWait t | waitAndPopTop t | waitForRequestComplete t a | signal t =>
    simp only [step] at h
    split at h
    · cases h; exact .inr (.inr (.inr ⟨.inr rfl, fun _ => ⟨rfl, rfl⟩, rfl, rfl⟩))
    · cases h
  | wait t =>
    simp only [step] at h
    split at h
    · split at h
      · cases h; exact .inr (.inr (.inr ⟨.inr rfl, fun _ => ⟨rfl, rfl⟩, rfl, rfl⟩))
      · cases h
    · cases h
  | isIn t =>
    simp only [step] at h
    split at h
    · split at h
      · split at h
        · cases h; exact .inr (.inr (.inr ⟨.inr rfl, fun _ => ⟨rfl, rfl⟩, rfl, rfl⟩))
        · cases h; exact .inr (.inr (.inr ⟨.inr rfl, fun _ => ⟨rfl, rfl⟩, rfl, rfl⟩))
      · cases h
    · cases h
  | pendForExec a =>
    simp only [step] at h
    split at h
    · cases h
    · cases h
      exact .inr (.inr (.inr ⟨.inr rfl, fun b => by simp [prio, seqNum], rfl, rfl⟩))
  | callRunExec a | setStatus a v =>
    cases h
    exact .inr (.inr (.inr ⟨.inr rfl, fun b => by simp [prio, seqNum], rfl, rfl⟩))
  | timerAdd a =>
    simp only [step] at h
    split at h
    · cases h
    · cases h
      exact .inr (.inr (.inr ⟨.inr rfl, fun b => by simp, rfl, rfl⟩))
  | timerTake a =>
    simp only [step] at h
    split at h
    · cases h
      exact .inr (.inr (.inr ⟨.inr rfl, fun b => by simp, rfl, rfl⟩))
    · cases h

/-! ## 5. Completed requests -/

/-- The requests completed and not yet taken, in the order of completion. -/
def completed (l : List AO) : Label AO T → List AO
  | .pendComplete _ a _ _ err => if err = osclErrNone then l ++ [a] else l
  | .popTop _ (some x) => l.erase x
  | .popTopAfterWait _ (some x) => l.erase x
  | .remove _ a => l.erase a
  | _ => l

/-- What an action may answer: `first l x` says that `x` may be popped from `l`. -/
def Allowed (first : List AO → AO → Prop) (l : List AO) : Label AO T → Prop
  | .pendComplete _ a _ _ err => err = osclErrNone → a ∉ l
  | .popTop _ (some x) => first l x
  | .popTop _ none => l = []
  | .popTopAfterWait _ (some x) => first l x
  | .popTopAfterWait _ none => False
  | _ => True

/-- **The purpose of the queue**: completed requests wait to be popped, by `first`, or removed. -/
def CompletionStep (first : List AO → AO → Prop) (l : List AO) (lab : Label AO T) (l' : List AO) :
    Prop :=
  Allowed first l lab ∧ l' = completed l lab

variable {l : List AO}

omit [DecidableEq T] [Fintype T] in
theorem quiet_step (first : List AO → AO → Prop)
    (h : lab.quiet = true) : CompletionStep first l lab l := by
  cases lab with
  | pendComplete => cases h
  | popTop => cases h
  | remove => cases h
  | popTopAfterWait => cases h
  | _ => exact ⟨trivial, rfl⟩

/-- Whatever the heap does, each action is one of the list of completed requests. -/
theorem completion_step
    {first : List AO → AO → Prop} (hi : Inv s) (hp : l.Perm s.q.c)
    (hfirst : ∀ x ao' q', popTopLocked s.ao s.q = some (x, ao', q') → first l x)
    (h : step s lab = some s') :
    CompletionStep first l lab (completed l lab) ∧ (completed l lab).Perm s'.q.c := by
  rcases step_cases hi h with ⟨t, a, r, tick, err, rfl, he, hao, hq⟩ | ⟨t, x, hlab, hpop⟩ |
    ⟨t, a, rfl, hao, hq⟩ | ⟨hlab, -, hc, -⟩
  · rw [hq]
    rcases pendComplete_cases s.ao s.q a r tick with
      ⟨err', hne, heq⟩ | ⟨hin, ao₁, ao', -, -, heq⟩
    · rw [heq] at he
      have hne' : err ≠ osclErrNone := fun e => hne (he.trans e)
      rw [heq]
      refine ⟨⟨fun e => absurd e hne', rfl⟩, ?_⟩
      rw [completed, if_neg hne']
      exact hp
    · rw [heq] at he
      have hal : a ∉ l := fun hm => hi.queued.notMem hin (hp.mem_iff.mp hm)
      rw [heq]
      refine ⟨⟨fun _ => hal, rfl⟩, ?_⟩
      rw [completed, if_pos he.symm]
      exact (perm_append_singleton a l).trans ((hp.cons a).trans (push_perm _ s.q.c a).symm)
  · obtain ⟨-, h2, -⟩ := queued_popTopLocked hi.queued hpop
    have hperm : (l.erase x).Perm s'.q.c := by
      have h3 := h2.erase x
      rw [erase_cons_head] at h3
      exact (hp.erase x).trans h3.symm
    rcases hlab with rfl | rfl <;> exact ⟨⟨hfirst x _ _ hpop, rfl⟩, hperm⟩
  · obtain ⟨-, h2, -⟩ := queued_removeLocked hi.queued a
    rw [hq]
    exact ⟨⟨trivial, rfl⟩, (hp.erase a).trans h2.symm⟩
  · rw [hc]
    rcases hlab with ⟨t, rfl, hnil⟩ | hquiet
    · rw [hnil] at hp
      exact ⟨⟨hp.eq_nil, rfl⟩, by rw [hnil]; exact hp⟩
    · have hstep := quiet_step first (l := l) hquiet
      rw [← hstep.2]
      exact ⟨hstep, hp⟩

/-- **No completed request is lost, in any run**: the heap holds exactly the objects whose request
    was completed and has been neither popped nor removed since. -/
theorem completed_never_lost {ao : ActiveTable AO} (h0 : ∀ a, isIn ao a ≠ some .readyQ)
    {ls : List (Label AO T)} {s : State AO T}
    (hr : Run (stepsOf step) (init ao) ls s) :
    Inv s ∧ ∃ l, l.Perm s.q.c ∧ Run (CompletionStep fun l x => x ∈ l) [] ls l := by
  obtain ⟨l, hrun, hi, hp⟩ := hr.simulate (A := CompletionStep fun l x => x ∈ l)
    (R := fun s l => Inv s ∧ l.Perm s.q.c) (t := []) ⟨inv_init h0, List.Perm.refl _⟩ (by
      intro s lab s' l ⟨hi, hp⟩ hs
      obtain ⟨h1, h2⟩ := completion_step hi hp (by
        intro x ao' q' he
        obtain ⟨ht, -, -⟩ := popTopLocked_some he
        exact hp.mem_iff.mpr (mem_of_mem_head? ht)) hs
      exact ⟨_, h1, step_inv hi hs, h2⟩)
  exact ⟨hi, l, hp, hrun⟩

/-! ## 6. First completed, first popped -/

/-- An action that keeps the order of the heap: a `Remove` of the root, of one of the last four
    entries or of nothing; and a completion whose number does not wrap. -/
def SafeLabel (s : State AO T) : Label AO T → Prop
  | .remove _ a => SafeCall s.q.c (.remove a)
  | .pendComplete .. => s.q.iSeqNumCounter + 1 < 4294967296
  | _ => True

theorem fifo_step (hi : Inv s)
    (hf : Fifo s.ao s.q l) (hsafe : SafeLabel s lab) (h : step s lab = some s') :
    Fifo s'.ao s'.q (completed l lab) := by
  rcases step_cases hi h with ⟨t, a, r, tick, err, rfl, he, hao, hq⟩ | ⟨t, x, hlab, hpop⟩ |
    ⟨t, a, rfl, hao, hq⟩ | ⟨hlab, hkey, hc, hcnt⟩
  · rw [hao, hq]
    by_cases herr : err = osclErrNone
    · rw [completed, if_pos herr]
      exact (hf.pendComplete hi.queued hsafe (he.trans herr)).2
    · rw [completed, if_neg herr]
      rcases pendComplete_cases s.ao s.q a r tick with
        ⟨err', hne, heq⟩ | ⟨hin, ao₁, ao', -, -, heq⟩
      · rw [heq]; exact hf
      · rw [heq] at he; exact absurd he.symm herr
  · have hf' := (hf.popTopLocked hpop).2
    rcases hlab with rfl | rfl <;> exact hf'
  · rw [hao, hq]
    exact hf.removeLocked hsafe
  · have hl : completed l lab = l := by
      rcases hlab with ⟨t, rfl, -⟩ | hquiet
      · rfl
      · exact (quiet_step (fun _ _ => True) hquiet).2.symm
    rw [hl]
    obtain ⟨hperm, hsort, hcounter, hheap⟩ := hf.congr fun a _ => hkey a
    exact ⟨hc.symm ▸ hperm, hsort, fun a ha => hcnt.symm ▸ hcounter a ha, hc.symm ▸ hheap⟩

theorem prio_step (hi : Inv s)
    (h : step s lab = some s') (b : AO) : prio s'.ao b = prio s.ao b := by
  rcases step_cases hi h with ⟨t, a, r, tick, err, -, -, hao, -⟩ | ⟨t, x, -, hpop⟩ |
    ⟨t, a, -, hao, -⟩ | ⟨-, hkey, -, -⟩
  · rw [hao]
    rcases pendComplete_cases s.ao s.q a r tick with
      ⟨err', -, heq⟩ | ⟨-, ao₁, ao', hao₁, rfl, heq⟩
    · rw [heq]
    · rw [heq, prio, link_setStatus, hao₁]
      by_cases hb : b = a
      · subst hb; rw [updateLink_self, prio]
      · rw [updateLink_ne hb, prio]
  · obtain ⟨-, hao, -⟩ := popTopLocked_some hpop
    rw [hao, prio_setIsIn]
  · rw [hao]
    exact prio_setIsIn a b none
  · exact (hkey b).1

/-- **The ready queue under any interleaving** whose `Remove` calls leave the heap a heap. When the
    lock is free the semaphore counts the queued objects, less the tokens in the hands of waiting
    threads; `iIsIn` tells exactly the queued objects, none of them twice; and the queue is the
    list of completed requests, from which each pop takes the earliest of the highest priority. -/
theorem readyQ_of_safe_run {ao : ActiveTable AO} (h0 : ∀ a, isIn ao a ≠ some .readyQ)
    {ls : List (Label AO T)} {s : State AO T}
    (hr : Run (onlyWhen SafeLabel (stepsOf step)) (init ao) ls s) :
    (s.iCrit = none → s.q.iSem + tokens s.pc = s.q.c.length) ∧
      (∀ a, isIn s.ao a = some .readyQ ↔ a ∈ s.q.c) ∧ s.q.c.Nodup ∧
      ∃ l, l.Perm s.q.c ∧ Run (CompletionStep (EarliestBest (prio ao))) [] ls l := by
  obtain ⟨l, hrun, hi, hf, -⟩ := hr.simulate
    (A := CompletionStep (EarliestBest (prio ao)))
    (R := fun s l => Inv s ∧ Fifo s.ao s.q l ∧ prio s.ao = prio ao) (t := [])
    ⟨inv_init h0, ⟨List.Perm.refl _, List.Pairwise.nil, fun _ h => absurd h not_mem_nil,
      fun i h0 hi => absurd hi (Nat.not_lt_zero i)⟩, rfl⟩ (by
      intro s lab s' l ⟨hi, hf, hprio⟩ ⟨hsafe, hs⟩
      have hstep := completion_step hi hf.perm
        (fun x ao' q' he => hprio ▸ (hf.popTopLocked he).1) hs
      exact ⟨_, hstep.1, step_inv hi hs, fifo_step hi hf hsafe hs,
        (funext (prio_step hi hs)).trans hprio⟩)
  refine ⟨fun hfree => ?_, hi.queued.isIn, hi.queued.nodup, l, hf.perm, hrun⟩
  have h := hi.balance
  rwa [if_pos hfree] at h

/-! ## 7. A run outside the condition -/

instance (s : State AO T) : ∀ lab, Decidable (SafeLabel s lab)
  | .remove _ a => inferInstanceAs (Decidable (SafeCall s.q.c (.remove a)))
  | .pendComplete .. => inferInstanceAs (Decidable (s.q.iSeqNumCounter + 1 < 4294967296))
  | .popTop .. => instDecidableTrue
  | .lockedWait .. => instDecidableTrue
  | .waitAndPopTop .. => instDecidableTrue
  | .popTopAfterWait .. => instDecidableTrue
  | .waitForRequestComplete .. => instDecidableTrue
  | .wait .. => instDecidableTrue
  | .isIn .. => instDecidableTrue
  | .signal .. => instDecidableTrue
  | .pendForExec .. => instDecidableTrue
  | .callRunExec .. => instDecidableTrue
  | .setStatus .. => instDecidableTrue
  | .timerAdd .. => instDecidableTrue
  | .timerTake .. => instDecidableTrue

/-- Objects with the priorities of a list, in no queue. -/
def tableOf (ps : List Int) (a : Nat) : ActiveBase :=
  { iPVReadyQLink := { iAOPriority := ps.getD a 0 } }

/-- Each of the objects below `n` requests and completes, on thread `false`. -/
def completeAll (n : Nat) : List (Label Nat Bool) :=
  (List.range n).flatMap fun a => [.pendForExec a, .pendComplete false a 0 0 0]

/-- Two threads: one waits for object 1 while the other completes three and removes one; then the
    first pops past its wait and the other under the lock. -/
theorem readyQ_of_safe_run_two_threads :
    ∃ s : State Nat Bool, (s.iCrit = none → s.q.iSem + tokens s.pc = s.q.c.length) ∧
      (∀ a, isIn s.ao a = some .readyQ ↔ a ∈ s.q.c) ∧ s.q.c.Nodup ∧
      ∃ l, l.Perm s.q.c ∧ Run (CompletionStep (EarliestBest (prio (tableOf [0, 0, 1])))) []
        (.waitForRequestComplete true 1 :: completeAll 3 ++
          [.wait true, .isIn true, .signal true, .waitAndPopTop true, .remove false 0,
            .lockedWait false, .popTopAfterWait true (some 2), .popTop false (some 1),
            .lockedWait false]) l := by
  have hsome : (execAll (guarded SafeLabel step) (init (tableOf [0, 0, 1]))
      (.waitForRequestComplete true 1 :: completeAll 3 ++
          [.wait true, .isIn true, .signal true, .waitAndPopTop true, .remove false 0,
            .lockedWait false, .popTopAfterWait true (some 2), .popTop false (some 1),
            .lockedWait false])).isSome := by decide +kernel
  obtain ⟨s, hs⟩ := isSome_iff_exists.mp hsome
  exact ⟨s, readyQ_of_safe_run (fun a => by simp [isIn, tableOf]) (Run.of_guarded hs)⟩

omit [DecidableEq T] [Fintype T] in
theorem completion_run {first : List AO → AO → Prop} {l₀ : List AO} {ls : List (Label AO T)}
    (hr : Run (CompletionStep first) l₀ ls l) : l = ls.foldl completed l₀ := by
  induction hr with
  | start => rfl
  | step _ hs ih => rw [foldl_append, foldl_cons, foldl_nil, ← ih, hs.2]

omit [DecidableEq AO] in
/-- What is popped before the first of the list has a higher priority. -/
theorem EarliestBest.head_lt {priority : AO → Int} {x y : AO}
    (h : EarliestBest priority (y :: l) x) (hne : y ≠ x) : priority y < priority x := by
  obtain ⟨l₁, l₂, he, h1, -⟩ := h
  cases l₁ with
  | nil => cases he; exact absurd rfl hne
  | cons z l₁ => cases he; exact h1 _ mem_cons_self

/-- Seven requests of priorities 0 0 0 1 1 0 0 complete in order, 4 is removed from the middle of
    the heap and 3 is popped: then 1 is popped before 0, which was completed earlier. -/
theorem remove_breaks_fifo :
    ¬ ∀ (ls : List (Label Nat Bool)) (s : State Nat Bool),
      Run (stepsOf step) (init (tableOf [0, 0, 0, 1, 1, 0, 0])) ls s →
      ∃ l, Run (CompletionStep (EarliestBest (prio (tableOf [0, 0, 0, 1, 1, 0, 0])))) [] ls l := by
  intro h
  have hsome : (execAll step (init (tableOf [0, 0, 0, 1, 1, 0, 0]) : State Nat Bool)
      ((completeAll 7 ++ [.remove false 4, .lockedWait false, .popTop false (some 3),
        .lockedWait false]) ++ [.popTop false (some 1)])).isSome := by decide +kernel
  obtain ⟨s, hs⟩ := isSome_iff_exists.mp hsome
  obtain ⟨l, hr⟩ := h _ s (Run.of_execAll hs)
  obtain ⟨l₁, hr₁, hallowed, -⟩ := hr.of_concat
  have hl : l₁ = [0, 1, 2, 5, 6] := by rw [completion_run hr₁]; decide
  rw [hl] at hallowed
  exact absurd (EarliestBest.head_lt hallowed (by decide)) (by decide)

/-- And yet none of the seven is lost. -/
theorem completed_never_lost_out_of_order :
    ∃ s : State Nat Bool, Inv s ∧ ∃ l, l.Perm s.q.c ∧ Run (CompletionStep fun l x => x ∈ l) []
      (completeAll 7 ++ [.remove false 4, .lockedWait false, .popTop false (some 3)]) l := by
  have hsome : (execAll step (init (tableOf [0, 0, 0, 1, 1, 0, 0]) : State Nat Bool)
      (completeAll 7 ++ [.remove false 4, .lockedWait false,
        .popTop false (some 3)])).isSome := by decide +kernel
  obtain ⟨s, hs⟩ := isSome_iff_exists.mp hsome
  exact ⟨s, completed_never_lost (fun a => by simp [isIn, tableOf]) (Run.of_execAll hs)⟩

end OpenCore.OsclProc
