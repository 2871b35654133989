/-
  File:      OpenCore/OsclProc/ReadyQOrder.lean
  Subject:   What each locked body of `OsclReadyQ` does to the queue.

  * `Queued`: no object twice, and `iIsIn` says which objects are in the heap. Every body keeps it.
  * `Fifo l`: the heap holds the objects of `l`, whose sequence numbers grow along `l` -- `l` is the
    order of completion -- and is in heap order for (priority, then the smaller number). Completing
    and popping keep it, and the popped object is the earliest of the highest priority; `Remove`
    keeps it where the heap's own `remove` does.
-/
import OpenCore.OsclUtil.PriQueueRun
import OpenCore.OsclProc.ReadyQ

namespace OpenCore.OsclProc

open OsclPriorityQueue HeapOrder List

variable {AO : Type*} [DecidableEq AO] {ao : ActiveTable AO} {q : ReadyQ AO}

/-! ## 1. The table -/

def prio (ao : ActiveTable AO) (a : AO) : Int := (ao a).iPVReadyQLink.iAOPriority

def seqNum (ao : ActiveTable AO) (a : AO) : Nat := (ao a).iPVReadyQLink.iSeqNum

def isIn (ao : ActiveTable AO) (a : AO) : Option QueueId := (ao a).iPVReadyQLink.iIsIn

theorem updateLink_self (a : AO) (f : ReadyQueLink → ReadyQueLink) :
    (updateLink ao a f a).iPVReadyQLink = f (ao a).iPVReadyQLink := by simp [updateLink]

variable {a : AO}

theorem updateLink_ne {b : AO} (h : b ≠ a) (f : ReadyQueLink → ReadyQueLink) :
    updateLink ao a f b = ao b := Function.update_of_ne h _ _

@[simp] theorem link_setBusy (a b : AO) (v : Bool) :
    (setBusy ao a v b).iPVReadyQLink = (ao b).iPVReadyQLink := by
  unfold setBusy
  by_cases h : b = a
  · subst h; simp
  · rw [Function.update_of_ne h]

@[simp] theorem link_setStatus (a b : AO) (v : Int) :
    (setStatus ao a v b).iPVReadyQLink = (ao b).iPVReadyQLink := by
  unfold setStatus
  by_cases h : b = a
  · subst h; simp
  · rw [Function.update_of_ne h]

theorem isIn_setIsIn (a b : AO) (v : Option QueueId) :
    isIn (setIsIn ao a v) b = if b = a then v else isIn ao b := by
  unfold isIn setIsIn
  by_cases h : b = a
  · subst h; rw [updateLink_self, if_pos rfl]
  · rw [updateLink_ne h, if_neg h]

@[simp] theorem prio_setIsIn (a b : AO) (v : Option QueueId) :
    prio (setIsIn ao a v) b = prio ao b := by
  unfold prio setIsIn
  by_cases h : b = a
  · subst h; rw [updateLink_self]
  · rw [updateLink_ne h]

@[simp] theorem seqNum_setIsIn (a b : AO) (v : Option QueueId) :
    seqNum (setIsIn ao a v) b = seqNum ao b := by
  unfold seqNum setIsIn
  by_cases h : b = a
  · subst h; rw [updateLink_self]
  · rw [updateLink_ne h]

/-! ## 2. The order of the heap -/

/-- Lower priority, or as high and completed later. -/
def keyLess (ao : ActiveTable AO) (a b : AO) : Bool :=
  decide (prio ao a < prio ao b ∨ prio ao a = prio ao b ∧ seqNum ao b < seqNum ao a)

omit [DecidableEq AO] in
theorem keyLess_strictPart (ao : ActiveTable AO) : StrictPart (keyLess ao) where
  asymm a b h := by
    simp only [keyLess, decide_eq_true_eq, decide_eq_false_iff_not] at *
    omega
  le_trans a b c h1 h2 := by
    simp only [keyLess, decide_eq_false_iff_not] at *
    omega

variable {ao' : ActiveTable AO}

omit [DecidableEq AO] in
theorem keyLess_congr {b : AO} (hpa : prio ao' a = prio ao a)
    (hpb : prio ao' b = prio ao b) (hsa : seqNum ao' a = seqNum ao a)
    (hsb : seqNum ao' b = seqNum ao b) : keyLess ao' a b = keyLess ao a b := by
  rw [keyLess, keyLess, hpa, hpb, hsa, hsb]

omit [DecidableEq AO] in
/-- The code's `>=` on sequence numbers never contradicts that order. -/
theorem readyLess_refines (ao : ActiveTable AO) (c : List AO) :
    Refines (readyLess ao) (keyLess ao) c := by
  unfold readyLess readyCompare
  refine ⟨fun a _ b _ h => ?_, fun a _ b _ h => ?_⟩
  · rw [keyLess, decide_eq_false_iff_not]
    unfold prio seqNum
    split at h <;> rw [decide_eq_true_eq] at h <;> omega
  · rw [keyLess, decide_eq_false_iff_not]
    unfold prio seqNum
    split at h <;> rw [decide_eq_false_iff_not] at h <;> omega

/-! ## 3. What every body keeps -/

/-- No object twice, and `iIsIn` says which objects are in. -/
structure Queued (ao : ActiveTable AO) (q : ReadyQ AO) : Prop where
  nodup : q.c.Nodup
  isIn : ∀ a, isIn ao a = some .readyQ ↔ a ∈ q.c

omit [DecidableEq AO] in
theorem Queued.notMem (h : Queued ao q) (ha : (ao a).isInAnyQ = false) : a ∉ q.c := by
  intro hm
  have := (h.isIn a).mpr hm
  unfold OsclProc.isIn at this
  unfold ActiveBase.isInAnyQ at ha
  rw [this] at ha
  cases ha

/-- `PendComplete` refuses and changes nothing, or queues the object with the next number. -/
theorem pendComplete_cases (ao : ActiveTable AO) (q : ReadyQ AO) (a : AO) (reason : Int)
    (tick : Nat) :
    (∃ err, err ≠ osclErrNone ∧ pendComplete ao q a reason tick = (ao, q, err)) ∨
    ((ao a).isInAnyQ = false ∧ ∃ ao₁ ao', ao₁ = updateLink ao a (fun link =>
        { link with iIsIn := some .readyQ, iTimeQueuedTicks := tick,
                    iSeqNum := add32 q.iSeqNumCounter 1 }) ∧
      ao' = setStatus ao₁ a reason ∧
      pendComplete ao q a reason tick = (ao', { c := push (readyLess ao₁) q.c a
                                                iSem := q.iSem + 1
                                                iSeqNumCounter := add32 q.iSeqNumCounter 1
                                                iCallback := false }, osclErrNone)) := by
  unfold pendComplete
  split
  · exact .inl ⟨_, by decide, rfl⟩
  · rename_i hin
    split
    · exact .inl ⟨_, by decide, rfl⟩
    · exact .inr ⟨by simpa using hin, _, _, rfl, rfl, rfl⟩

theorem queued_pendComplete (h : Queued ao q) (a : AO) (reason : Int) (tick : Nat) :
    let r := pendComplete ao q a reason tick
    Queued r.1 r.2.1 ∧ r.2.1.iSem + q.c.length = q.iSem + r.2.1.c.length := by
  rcases pendComplete_cases ao q a reason tick with
    ⟨err, -, he⟩ | ⟨hin, ao₁, ao', hao₁, rfl, he⟩
  · rw [he]
    exact ⟨h, rfl⟩
  · rw [he]
    have hp := push_perm (readyLess ao₁) q.c a
    have ha := h.notMem hin
    refine ⟨⟨hp.nodup_iff.mpr (nodup_cons.mpr ⟨ha, h.nodup⟩), fun b => ?_⟩, ?_⟩
    · dsimp only
      rw [hp.mem_iff, mem_cons, isIn, link_setStatus, hao₁]
      by_cases hb : b = a
      · subst hb; rw [updateLink_self]; simp
      · rw [updateLink_ne hb]
        simpa [hb, isIn] using h.isIn b
    · have := hp.length_eq
      simp only [length_cons] at this
      dsimp only
      omega

variable {q' : ReadyQ AO}

theorem popTopLocked_some {x : AO}
    (h : popTopLocked ao q = some (x, ao', q')) :
    top q.c = some x ∧ ao' = setIsIn ao x none ∧
      q' = { q with c := pop (readyLess ao') q.c } := by
  obtain ⟨y, hy, he⟩ := Option.map_eq_some_iff.mp h
  cases he
  exact ⟨hy, rfl, rfl⟩

theorem popTopLocked_none (h : popTopLocked ao q = none) : q.c = [] := by
  have ht := Option.map_eq_none_iff.mp h
  exact head?_eq_none_iff.mp ht

theorem queued_popTopLocked (h : Queued ao q) {x : AO}
    (he : popTopLocked ao q = some (x, ao', q')) :
    Queued ao' q' ∧ (x :: q'.c).Perm q.c ∧ q'.iSem = q.iSem := by
  obtain ⟨ht, rfl, rfl⟩ := popTopLocked_some he
  have hp := pop_perm (readyLess (setIsIn ao x none)) ht
  have hn := nodup_cons.mp (hp.nodup_iff.mpr h.nodup)
  refine ⟨⟨hn.2, fun b => ?_⟩, hp, rfl⟩
  rw [isIn_setIsIn]
  by_cases hb : b = x
  · subst hb; simpa using hn.1
  · rw [if_neg hb, h.isIn b, ← hp.mem_iff, mem_cons]
    simp [hb]

theorem remove_perm_erase (compare : AO → AO → Bool) (c : List AO) (a : AO) :
    (remove compare c a).1.Perm (c.erase a) := by
  rw [← Multiset.coe_eq_coe, ← Multiset.coe_erase]
  exact (remove_spec c a).1

theorem queued_removeLocked (h : Queued ao q) (a : AO) :
    let r := removeLocked ao q a
    Queued r.1 r.2.1 ∧ r.2.1.c.Perm (q.c.erase a) ∧ r.2.1.iSem = q.iSem ∧
      r.2.2 = if a ∈ q.c then 1 else 0 := by
  have hp := remove_perm_erase (readyLess (setIsIn ao a none)) q.c a
  refine ⟨⟨hp.nodup_iff.mpr (h.nodup.erase a), fun b => ?_⟩, hp, rfl, (remove_spec q.c a).2⟩
  show isIn (setIsIn ao a none) b = some .readyQ ↔ b ∈ (remove _ q.c a).1
  rw [isIn_setIsIn, hp.mem_iff, h.nodup.mem_erase_iff]
  by_cases hb : b = a
  · subst hb; simp
  · rw [if_neg hb, h.isIn b]
    simp [hb]

/-! ## 4. The order of completion -/

/-- `l` is the queue in the order of completion, and the heap is in order. -/
structure Fifo (ao : ActiveTable AO) (q : ReadyQ AO) (l : List AO) : Prop where
  perm : l.Perm q.c
  sorted : l.Pairwise fun a b => seqNum ao a < seqNum ao b
  counter : ∀ a ∈ l, seqNum ao a ≤ q.iSeqNumCounter
  heap : HeapOn (keyLess ao) (entries q.c) q.c.length

/-- The highest priority, and the earliest of it in the order of completion. -/
def EarliestBest (priority : AO → Int) (l : List AO) (x : AO) : Prop :=
  ∃ l₁ l₂, l = l₁ ++ x :: l₂ ∧ (∀ y ∈ l₁, priority y < priority x) ∧
    ∀ y ∈ l₂, priority y ≤ priority x

variable {l : List AO}

omit [DecidableEq AO] in
omit [DecidableEq AO] in
/-- Only the priorities and numbers of the queued objects matter. -/
theorem Fifo.congr (h : Fifo ao q l)
    (hk : ∀ a ∈ q.c, prio ao' a = prio ao a ∧ seqNum ao' a = seqNum ao a) : Fifo ao' q l where
  perm := h.perm
  sorted := h.sorted.imp_of_mem fun {a b} ha hb hab => by
    rw [(hk a (h.perm.mem_iff.mp ha)).2, (hk b (h.perm.mem_iff.mp hb)).2]
    exact hab
  counter a ha := by
    rw [(hk a (h.perm.mem_iff.mp ha)).2]
    exact h.counter a ha
  heap := h.heap.order_congr fun i j a b ha hb => by
    have ha' := hk a (mem_of_getElem? ha)
    have hb' := hk b (mem_of_getElem? hb)
    exact keyLess_congr ha'.1 hb'.1 ha'.2 hb'.2

theorem Fifo.pendComplete (h : Fifo ao q l) (hq : Queued ao q) {reason : Int} {tick : Nat}
    (hc : q.iSeqNumCounter + 1 < 4294967296)
    (he : (OsclProc.pendComplete ao q a reason tick).2.2 = osclErrNone) :
    a ∉ l ∧ Fifo (OsclProc.pendComplete ao q a reason tick).1
      (OsclProc.pendComplete ao q a reason tick).2.1 (l ++ [a]) := by
  rcases pendComplete_cases ao q a reason tick with
    ⟨err, hne, heq⟩ | ⟨hin, ao₁, ao', hao₁, rfl, heq⟩
  · rw [heq] at he
    exact absurd he hne
  · rw [heq]
    have ha := hq.notMem hin
    have hal : a ∉ l := fun hm => ha (h.perm.mem_iff.mp hm)
    rw [add32_eq hc] at *
    have hnew : seqNum ao₁ a = q.iSeqNumCounter + 1 := by
      rw [seqNum, hao₁, updateLink_self]
    have hold : ∀ b, b ≠ a → ao₁ b = ao b := fun b hb => by rw [hao₁, updateLink_ne hb]
    have hmem : ∀ b ∈ q.c, b ≠ a := fun b hb e => ha (e ▸ hb)
    have hf : Fifo ao₁ q l := h.congr fun b hb => by
      unfold prio seqNum
      rw [hold b (hmem b hb)]
      exact ⟨rfl, rfl⟩
    have hlt : ∀ b ∈ q.c, seqNum ao₁ b < seqNum ao₁ a := fun b hb => by
      rw [hnew]
      exact Nat.lt_succ_of_le (hf.counter b (hf.perm.mem_iff.mpr hb))
    refine ⟨hal, Fifo.congr ?_ fun b _ =>
      ⟨show prio _ b = prio ao₁ b by simp [prio], show seqNum _ b = seqNum ao₁ b by simp [seqNum]⟩⟩
    refine ⟨?_, ?_, ?_, ?_⟩
    · exact (perm_append_singleton a l).trans
        ((h.perm.cons a).trans (push_perm _ q.c a).symm)
    · refine pairwise_append.mpr ⟨hf.sorted, pairwise_singleton _ _, ?_⟩
      intro x hx y hy
      rw [mem_singleton.mp hy]
      exact hlt x (hf.perm.mem_iff.mp hx)
    · intro b hb
      rcases mem_append.mp hb with hb | hb
      · exact Nat.le_succ_of_le (hf.counter b hb)
      · rw [mem_singleton.mp hb, hnew]
    · dsimp only
      exact push_heap (keyLess_strictPart ao₁) (readyLess_refines ao₁ _) hf.heap

/-- **The popped object is the earliest completed of the highest priority.** -/
theorem Fifo.popTopLocked (h : Fifo ao q l) {x : AO}
    (he : OsclProc.popTopLocked ao q = some (x, ao', q')) :
    EarliestBest (prio ao) l x ∧ Fifo ao' q' (l.erase x) := by
  obtain ⟨ht, rfl, rfl⟩ := popTopLocked_some he
  have hx : x ∈ q.c := mem_of_mem_head? ht
  have hgreat := top_greatest (keyLess_strictPart ao) h.heap ht
  have hf : Fifo (setIsIn ao x none) q l := h.congr fun b _ => by simp
  have hperm := pop_perm (readyLess (setIsIn ao x none)) ht
  refine ⟨?_, ?_, hf.sorted.sublist erase_sublist,
    fun a ha => hf.counter a (mem_of_mem_erase ha), ?_⟩
  · obtain ⟨l₁, l₂, rfl⟩ := append_of_mem (h.perm.mem_iff.mpr hx)
    have hsort := pairwise_append.mp h.sorted
    refine ⟨l₁, l₂, rfl, fun y hy => ?_, fun y hy => ?_⟩
    · have hg := hgreat y (h.perm.mem_iff.mp (mem_append_left _ hy))
      have hs := hsort.2.2 y hy x mem_cons_self
      simp only [keyLess, decide_eq_false_iff_not] at hg
      omega
    · have hg := hgreat y
        (h.perm.mem_iff.mp (mem_append_right _ (mem_cons_of_mem _ hy)))
      simp only [keyLess, decide_eq_false_iff_not] at hg
      omega
  · refine (h.perm.erase x).trans ?_
    have := hperm.erase x
    rw [erase_cons_head] at this
    exact this.symm
  · dsimp only
    exact pop_heap (keyLess_strictPart _) (readyLess_refines _ _) hf.heap

/-- `Remove` keeps the order where it takes out the root, one of the last four, or nothing. -/
theorem Fifo.removeLocked (h : Fifo ao q l) (hs : SafeCall q.c (.remove a)) :
    Fifo (OsclProc.removeLocked ao q a).1 (OsclProc.removeLocked ao q a).2.1 (l.erase a) := by
  have hf : Fifo (setIsIn ao a none) q l := h.congr fun b _ => by simp
  refine ⟨?_, hf.sorted.sublist erase_sublist,
    fun b hb => hf.counter b (mem_of_mem_erase hb), ?_⟩
  · exact (h.perm.erase a).trans (remove_perm_erase _ q.c a).symm
  · exact remove_heap (keyLess_strictPart _) (readyLess_refines _ _) hf.heap hs

end OpenCore.OsclProc
