/-
  File:      OpenCore/Pvmf/MediaClockCallbacksRun.lean
  Subject:   What becomes of the callbacks of `PVMFMediaClock` over whole runs.

  `CallbacksInv` is the invariant of the members: no callback is in the queue of backwards playback,
  none in the other NPT queue while playback goes backwards, and the two queues are heaps of times
  that lie within half the range of the clock. `Safe` says of a call that it does not get to one of
  the places where the code goes wrong.

  **Main result**: `callbacks_kept`.
-/
import OpenCore.Pvmf.MediaClockCallbacks

namespace OpenCore.Pvmf

open OsclPriorityQueue HeapOrder Callbacks List
open Multiset (card_add coe_eq_coe coe_nil singleton_add)
open UInt32 (ofNat_add sub_zero)

/-! ## 1. Times within half the range -/

/-- The times lie in one half of the range. -/
def NearAt (base : UInt32) (times : List UInt32) : Prop :=
  ∀ t ∈ times, (t - base).toNat < 2147483648

instance (base : UInt32) (times : List UInt32) : Decidable (NearAt base times) :=
  List.decidableBAll (fun t => (t - base).toNat < 2147483648) times

def Near (times : List UInt32) : Prop := ∃ base, NearAt base times

theorem NearAt.mono {base : UInt32} {l m : List UInt32} (h : NearAt base m) (hs : l ⊆ m) :
    NearAt base l := fun t ht => h t (hs ht)

section Offsets

variable {base a b : UInt32}

section

variable (ha : (a - base).toNat < 2147483648)
include ha

/-- The difference of two times in the half from `base` on. -/
theorem sub_offset (hb : (b - base).toNat < 2147483648) :
    ((b - a).toNat < 2147483648 ↔ (a - base).toNat ≤ (b - base).toNat) ∧
      (0 < (b - a).toNat ↔ (a - base).toNat ≠ (b - base).toNat) := by
  have h1 := a.toNat_lt
  have h2 := b.toNat_lt
  have h3 := base.toNat_lt
  rw [toNat_sub] at ha hb ⊢
  rw [toNat_sub, toNat_sub] at *
  constructor <;> omega

theorem isEarlier_offset
    (hb : (b - base).toNat < 2147483648) :
    (IsEarlier a b).1 = decide ((a - base).toNat ≤ (b - base).toNat) := by
  rw [IsEarlier_fst, decide_eq_decide]
  exact (sub_offset ha hb).1

theorem isStrictlyEarlier_offset
    (hb : (b - base).toNat < 2147483648) :
    isStrictlyEarlier a b = decide ((a - base).toNat < (b - base).toNat) := by
  obtain ⟨h1, h2⟩ := sub_offset ha hb
  rw [Bool.eq_iff_iff, isStrictlyEarlier_iff, h1, h2, decide_eq_true_eq]
  omega

end

end Offsets

/-! ## 2. A queue -/

/-- The times of a queue. -/
def timeOuts (q : List TimerQueueElement) : List UInt32 := q.map (·.timeOut)

/-- The later a callback is due, the lower it is in the queue. -/
def laterThan (a b : TimerQueueElement) : Bool := isStrictlyEarlier b.timeOut a.timeOut

/-- The same order, by the distance from `base`. -/
def laterFrom (base : UInt32) (a b : TimerQueueElement) : Bool :=
  decide ((b.timeOut - base).toNat < (a.timeOut - base).toNat)

theorem laterFrom_strictPart (base : UInt32) : StrictPart (laterFrom base) where
  asymm a b h := by
    simp only [laterFrom, decide_eq_true_eq, decide_eq_false_iff_not] at *
    omega
  le_trans a b c h1 h2 := by
    simp only [laterFrom, decide_eq_false_iff_not] at *
    omega

/-- The queue of a direction is a heap of its times. -/
structure QueueInv (q : List TimerQueueElement) : Prop where
  near : Near (timeOuts q)
  heap : HeapOn laterThan (entries q) q.length

theorem QueueInv.nil : QueueInv [] :=
  ⟨⟨0, fun _ h => absurd h not_mem_nil⟩, fun i _ h => absurd h (Nat.not_lt_zero i)⟩

variable {e t : TimerQueueElement} {n : Nat}

section Queue

variable {base : UInt32} {q : List TimerQueueElement}

theorem offset_lt (h : NearAt base (timeOuts q)) (he : e ∈ q) :
    (e.timeOut - base).toNat < 2147483648 := h _ (mem_map_of_mem he)

theorem laterThan_eq (h : NearAt base (timeOuts q)) {a b : TimerQueueElement} (ha : a ∈ q)
    (hb : b ∈ q) : laterThan a b = laterFrom base a b :=
  isStrictlyEarlier_offset (offset_lt h hb) (offset_lt h ha)

/-- The code's comparison does not contradict the order. -/
theorem compareLess_refines (h : NearAt base (timeOuts q)) :
    Refines compareLess (laterFrom base) q := by
  constructor
  · intro a ha b hb hab
    rw [compareLess, isEarlier_offset (offset_lt h hb) (offset_lt h ha), decide_eq_true_eq] at hab
    rw [laterFrom, decide_eq_false_iff_not]
    omega
  · intro a ha b hb hab
    rw [compareLess, isEarlier_offset (offset_lt h hb) (offset_lt h ha),
      decide_eq_false_iff_not] at hab
    rw [laterFrom, decide_eq_false_iff_not]
    omega

theorem mem_of_entries {i : Nat} {a : TimerQueueElement} (h : entries q i = some a) : a ∈ q :=
  mem_of_getElem? h

theorem heap_from (h : NearAt base (timeOuts q)) (hh : HeapOn laterThan (entries q) n) :
    HeapOn (laterFrom base) (entries q) n :=
  hh.order_congr fun _ _ _ _ ha hb => (laterThan_eq h (mem_of_entries ha) (mem_of_entries hb)).symm

theorem heap_than (h : NearAt base (timeOuts q))
    (hh : HeapOn (laterFrom base) (entries q) n) : HeapOn laterThan (entries q) n :=
  hh.order_congr fun _ _ _ _ ha hb => laterThan_eq h (mem_of_entries ha) (mem_of_entries hb)

theorem timeOuts_subset {q q' : List TimerQueueElement} (h : q' ⊆ q) :
    timeOuts q' ⊆ timeOuts q := map_subset _ h

theorem QueueInv.push (h : QueueInv q)
    (hnear : Near (e.timeOut :: timeOuts q)) : QueueInv (push compareLess q e) := by
  obtain ⟨base, hb⟩ := hnear
  have hq : NearAt base (timeOuts q) := hb.mono (subset_cons_self _ _)
  have hnew : NearAt base (timeOuts (OsclPriorityQueue.push compareLess q e)) := by
    refine hb.mono ?_
    exact timeOuts_subset (q := e :: q) (push_perm compareLess q e).subset
  have hr : Refines compareLess (laterFrom base) (e :: q) := compareLess_refines (q := e :: q) hb
  exact ⟨⟨base, hnew⟩,
    heap_than hnew (push_heap (laterFrom_strictPart base) hr (heap_from hq h.heap))⟩

theorem pop_subset (ht : top q = some t) : pop compareLess q ⊆ q :=
  fun _ he => (pop_perm compareLess ht).subset (mem_cons_of_mem t he)

theorem QueueInv.pop (h : QueueInv q) (ht : top q = some t) :
    QueueInv (pop compareLess q) := by
  obtain ⟨base, hb⟩ := h.near
  have hnew : NearAt base (timeOuts (OsclPriorityQueue.pop compareLess q)) :=
    hb.mono (timeOuts_subset (pop_subset ht))
  have hheap := pop_heap (laterFrom_strictPart base) (compareLess_refines hb) (heap_from hb h.heap)
  exact ⟨⟨base, hnew⟩, heap_than hnew hheap⟩

theorem QueueInv.top_first (h : QueueInv q) (ht : top q = some t)
    (hb : NearAt base (timeOuts q)) (he : e ∈ q) :
    (t.timeOut - base).toNat ≤ (e.timeOut - base).toNat := by
  have := top_greatest (laterFrom_strictPart base) (heap_from hb h.heap) ht e he
  rw [laterFrom, decide_eq_false_iff_not] at this
  omega

theorem removeID_cases (compare : TimerQueueElement → TimerQueueElement → Bool)
    (q : List TimerQueueElement) (aCallbackID : UInt32) :
    removeID compare q aCallbackID = (q, none) ∨
    ∃ pos e, q.findIdx? (fun e => e.callBackID == aCallbackID) = some pos ∧ q[pos]? = some e ∧
      removeID compare q aCallbackID = (removeAt compare q pos, some e) := by
  unfold removeID
  cases hpos : q.findIdx? (fun e => e.callBackID == aCallbackID) with
  | none => exact .inl rfl
  | some pos =>
    obtain ⟨hlt, -, -⟩ := findIdx?_eq_some_iff_getElem.mp hpos
    refine .inr ⟨pos, q[pos], rfl, getElem?_eq_getElem hlt, ?_⟩
    dsimp only
    rw [getElem?_eq_getElem hlt]

/-- `remove` takes out the root or one of the last four entries. -/
def NearEnd (q : List TimerQueueElement) (aCallbackID : UInt32) : Prop :=
  ∀ pos, q.findIdx? (fun e => e.callBackID == aCallbackID) = some pos → pos = 0 ∨ q.length ≤ pos + 4

theorem QueueInv.removeAt (h : QueueInv q) {pos : Nat}
    (he : q[pos]? = some e) (hsafe : pos = 0 ∨ q.length ≤ pos + 4) :
    QueueInv (removeAt compareLess q pos) := by
  obtain ⟨base, hb⟩ := h.near
  have hperm := removeAt_perm compareLess he
  have hlen := hperm.length_eq
  rw [length_cons] at hlen
  have hnew : NearAt base (timeOuts (OsclPriorityQueue.removeAt compareLess q pos)) :=
    hb.mono (timeOuts_subset fun x hx => hperm.subset (mem_cons_of_mem e hx))
  obtain ⟨hpos, -⟩ := List.getElem?_eq_some_iff.mp he
  have hheap := removeAt_heap (laterFrom_strictPart base) (compareLess_refines hb)
    (heap_from hb h.heap) hpos hsafe
  rw [← show (OsclPriorityQueue.removeAt compareLess q pos).length = q.length - 1 by omega] at hheap
  exact ⟨⟨base, hnew⟩, heap_than hnew hheap⟩

end Queue

/-! ## 3. The loops -/

/-- How a completed callback must have fired: first in its queue, and not before its window. -/
def Proper (c : Completion) : Prop :=
  ∀ status delta now, c.outcome = .fired status delta now →
    (∀ e ∈ c.behind, isStrictlyEarlier e.timeOut c.element.timeOut = false) ∧
    (isStrictlyEarlier now c.element.timeOut = true →
      c.element.timeOut - now < c.element.window)

/-- The elements completed. -/
def elements (done : List Completion) : Multiset TimerQueueElement :=
  (done.map (·.element) : List TimerQueueElement)

theorem elements_cons (c : Completion) (done : List Completion) :
    elements (c :: done) = c.element ::ₘ elements done := rfl

theorem elements_append (l m : List Completion) :
    elements (l ++ m) = elements l + elements m := by
  simp [elements]

theorem sub_one_sub (c : UInt32) (k : Nat) :
    c - 1 - UInt32.ofNat k = c - UInt32.ofNat (k + 1) := by
  rw [ofNat_add, show UInt32.ofNat 1 = 1 from rfl]
  grind

variable {q : List TimerQueueElement}

theorem top_nil (h : top q = none) : q = [] := by
  cases q with
  | nil => rfl
  | cons a q => cases h

/-- All callbacks of a queue are completed. -/
theorem clearLoop_spec (compare : TimerQueueElement → TimerQueueElement → Bool) (outcome : Outcome)
    (hn : q.length ≤ n) (count : UInt32) :
    let r := clearLoop compare outcome n q count
    (q : Multiset TimerQueueElement) = elements r.1 ∧ r.2.1 = [] ∧
      r.2.2 = count - UInt32.ofNat r.1.length ∧ ∀ c ∈ r.1, c.outcome = outcome := by
  induction n generalizing q count with
  | zero =>
    have hq : q = [] := length_eq_zero_iff.mp (Nat.le_zero.mp hn)
    rw [hq]
    exact ⟨rfl, rfl, (sub_zero _).symm, fun c hc => absurd hc not_mem_nil⟩
  | succ n ih =>
    cases htop : top q with
    | none =>
      rw [clearLoop, htop, top_nil htop]
      exact ⟨rfl, rfl, (sub_zero _).symm, fun c hc => absurd hc not_mem_nil⟩
    | some e =>
      have hperm := pop_perm compare htop
      have hlen := hperm.length_eq
      rw [length_cons] at hlen
      obtain ⟨hbag, hnil, hcount, hout⟩ := ih (q := pop compare q) (by omega) (count - 1)
      rw [clearLoop, htop]
      refine ⟨?_, hnil, ?_, ?_⟩
      · rw [elements_cons, ← hbag]
        exact (coe_eq_coe.mpr hperm).symm
      · show (clearLoop compare outcome n (pop compare q) (count - 1)).2.2 = _
        rw [hcount, sub_one_sub]
        rfl
      · intro c hc
        rcases mem_cons.mp hc with rfl | hc
        · rfl
        · exact hout c hc

/-- When the window of a callback is not open yet. -/
theorem early_iff (timeOut now window late : UInt32) :
    (CheckTimeWindow timeOut now window late).1 = .MEDIA_EARLY_OUTSIDE_WINDOW ↔
      isStrictlyEarlier now timeOut = true ∧ ¬ timeOut - now < window := by
  unfold CheckTimeWindow isStrictlyEarlier IsEarlier
  dsimp only
  by_cases h : timeOut - now < 0x80000000
  · rw [if_pos h]
    dsimp only
    by_cases h0 : timeOut - now = 0
    · simp [h0]
    · by_cases hw : timeOut - now < window
      · simp [h0, hw]
      · simp [h0, hw]
  · rw [if_neg h]
    generalize 0 - (timeOut - now) = aDelta
    dsimp only
    by_cases h0 : aDelta = 0
    · simp [h0]
    · by_cases hw : aDelta < late
      · simp [h0, hw]
      · simp [h0, hw]

/-- **The loop of `Run`**, where a callback stays that is not due. -/
theorem fireLoop_spec {time : Nat → UInt32} {base : UInt32}
    {i : Nat} (hn : q.length ≤ n) (hq : QueueInv q) (hb : NearAt base (timeOuts q))
    (htime : ∀ j, j ≤ i + n → (time j - base).toNat < 2147483648)
    (hstay : ∃ e ∈ q, ∀ j, j ≤ i + n →
      (CheckTimeWindow e.timeOut (time j) e.window e.window).1 = .MEDIA_EARLY_OUTSIDE_WINDOW)
    (count : UInt32) (misused : Bool) :
    let r := fireLoop time n i q count misused
    (q : Multiset TimerQueueElement) = elements r.done + r.queue ∧ QueueInv r.queue ∧
      r.iActiveTimersCount = count - UInt32.ofNat r.done.length ∧ r.misused = misused ∧
      (∀ c ∈ r.done, Proper c) ∧
      ∀ e ∈ r.queue, isStrictlyEarlier e.timeOut r.currentTime = false := by
  obtain ⟨x, hx, hearly⟩ := hstay
  induction n generalizing i q count misused with
  | zero =>
    have : q = [] := length_eq_zero_iff.mp (Nat.le_zero.mp hn)
    rw [this] at hx
    exact absurd hx not_mem_nil
  | succ n ih =>
    cases htop : top q with
    | none =>
      rw [top_nil htop] at hx
      exact absurd hx not_mem_nil
    | some t =>
      have ht : t ∈ q := mem_of_mem_head? htop
      have hfirst : ∀ e ∈ q, (t.timeOut - base).toNat ≤ (e.timeOut - base).toNat :=
        fun e he => hq.top_first htop hb he
      rw [fireLoop, htop]
      dsimp only
      by_cases hdue : (CheckTimeWindow t.timeOut (time i) t.window t.window).1 =
          .MEDIA_EARLY_OUTSIDE_WINDOW
      · -- the first callback is not due, so none is in the past
        rw [if_pos hdue]
        refine ⟨(Multiset.zero_add _).symm, hq, (sub_zero _).symm, rfl,
          fun c hc => absurd hc not_mem_nil, fun e he => ?_⟩
        have hahead := ((early_iff _ _ _ _).mp hdue).1
        rw [isStrictlyEarlier_offset (htime i (by omega)) (offset_lt hb ht),
          decide_eq_true_eq] at hahead
        rw [isStrictlyEarlier_offset (offset_lt hb he) (htime i (by omega)),
          decide_eq_false_iff_not]
        have := hfirst e he
        omega
      · rw [if_neg hdue]
        have hperm := pop_perm compareLess htop
        have hlen := hperm.length_eq
        rw [length_cons] at hlen
        have hxpop : x ∈ pop compareLess q := by
          rcases mem_cons.mp (hperm.mem_iff.mpr hx) with rfl | h
          · exact absurd (hearly i (by omega)) hdue
          · exact h
        have hempty : (pop compareLess q).isEmpty = false := by
          rw [isEmpty_eq_false_iff]
          exact ne_nil_of_mem hxpop
        obtain ⟨hbag, hinv, hcount, hmis, hprop, hpast⟩ :=
          ih (q := pop compareLess q) (i := i + 1) (by omega) (hq.pop htop)
            (hb.mono (timeOuts_subset (pop_subset htop))) (fun j hj => htime j (by omega))
            (count - 1) (misused || (pop compareLess q).isEmpty) hxpop
            (fun j hj => hearly j (by omega))
        refine ⟨?_, hinv, ?_, ?_, ?_, hpast⟩
        · rw [elements_cons, Multiset.cons_add, ← hbag]
          exact (coe_eq_coe.mpr hperm).symm
        · rw [hcount, sub_one_sub]
          rfl
        · rw [hmis, hempty, Bool.or_false]
        · intro c hc
          rcases mem_cons.mp hc with rfl | hc
          · rintro status delta now hfired
            cases hfired
            refine ⟨fun e he => ?_, fun hahead => ?_⟩
            · have hmem := pop_subset htop he
              rw [isStrictlyEarlier_offset (offset_lt hb hmem) (offset_lt hb ht),
                decide_eq_false_iff_not]
              have := hfirst e hmem
              omega
            · by_contra hw
              exact hdue ((early_iff _ _ _ _).mpr ⟨hahead, hw⟩)
          · exact hprop c hc

/-! ## 4. The invariant of the members -/

/-- The invariant of the members. -/
structure CallbacksInv (s : Callbacks) : Prop where
  never_misused : s.misused = false
  none_backwards : s.iTimersPriQueueNPTBackwards = []
  none_forward : s.iIsNPTPlayBackDirectionBackwards = true → s.iTimersPriQueueNPT = []
  regular : QueueInv s.iTimersPriQueue
  npt : QueueInv s.iTimersPriQueueNPT

theorem CallbacksInv.create (b : Bool) : CallbacksInv (.create b) :=
  ⟨rfl, rfl, fun h => absurd h Bool.false_ne_true, .nil, .nil⟩

/-- All callbacks queued. -/
def queued (s : Callbacks) : Multiset TimerQueueElement :=
  (s.iTimersPriQueue : Multiset TimerQueueElement) + s.iTimersPriQueueNPT +
    s.iTimersPriQueueNPTBackwards

/-- What a call does to the callbacks: `new` come in, `done` go out. -/
structure Moves (s s' : Callbacks) (new : List TimerQueueElement) (done : List Completion) :
    Prop where
  bag : (new : Multiset TimerQueueElement) + queued s = elements done + queued s'
  count : s'.iActiveTimersCount =
    s.iActiveTimersCount + UInt32.ofNat new.length - UInt32.ofNat done.length

variable {new : List TimerQueueElement} {done : List Completion}

theorem Moves.of_regular {s s' : Callbacks}
    (h : (new : Multiset TimerQueueElement) + s.iTimersPriQueue =
      elements done + s'.iTimersPriQueue)
    (hnpt : s'.iTimersPriQueueNPT = s.iTimersPriQueueNPT)
    (hback : s'.iTimersPriQueueNPTBackwards = s.iTimersPriQueueNPTBackwards)
    (hcount : s'.iActiveTimersCount =
      s.iActiveTimersCount + UInt32.ofNat new.length - UInt32.ofNat done.length) :
    Moves s s' new done := by
  refine ⟨?_, hcount⟩
  unfold queued
  rw [hnpt, hback]
  simp only [← Multiset.add_assoc, h]

theorem Moves.of_npt {s s' : Callbacks}
    (h : (new : Multiset TimerQueueElement) + s.iTimersPriQueueNPT =
      elements done + s'.iTimersPriQueueNPT)
    (hregular : s'.iTimersPriQueue = s.iTimersPriQueue)
    (hback : s'.iTimersPriQueueNPTBackwards = s.iTimersPriQueueNPTBackwards)
    (hcount : s'.iActiveTimersCount =
      s.iActiveTimersCount + UInt32.ofNat new.length - UInt32.ofNat done.length) :
    Moves s s' new done := by
  refine ⟨?_, hcount⟩
  have hmove : ∀ a b c d : Multiset TimerQueueElement, a + (b + c + d) = (a + c) + (b + d) := by
    intro a b c d
    rw [Multiset.add_comm b c, Multiset.add_assoc c, ← Multiset.add_assoc]
  unfold queued
  rw [hregular, hback, hmove, h, ← hmove]

variable {q q' : List TimerQueueElement}

/-- What a permutation says of the elements taken in and out. -/
theorem bag_in (h : q'.Perm (e :: q)) :
    (([e] : List TimerQueueElement) : Multiset TimerQueueElement) + q = elements [] + q' := by
  rw [coe_eq_coe.mpr h]
  exact (singleton_add e q).trans (Multiset.zero_add _).symm

theorem bag_out {c : Completion} (h : (c.element :: q').Perm q) :
    (([] : List TimerQueueElement) : Multiset TimerQueueElement) + q = elements [c] + q' := by
  rw [← coe_eq_coe.mpr h]
  exact (Multiset.zero_add _).trans
    (singleton_add c.element (q' : Multiset TimerQueueElement)).symm

theorem bag_all
    (h : (q : Multiset TimerQueueElement) = elements done) (hnil : q' = []) :
    (([] : List TimerQueueElement) : Multiset TimerQueueElement) + q = elements done + q' := by
  rw [hnil, h]
  exact (Multiset.zero_add _).trans (Multiset.add_zero _).symm

theorem Moves.refl (s : Callbacks) : Moves s s [] [] :=
  ⟨rfl, by simp⟩

theorem Moves.trans {s s' s'' : Callbacks} {done' : List Completion}
    (h : Moves s s' [] done) (h' : Moves s' s'' [] done') : Moves s s'' [] (done ++ done') := by
  refine ⟨?_, ?_⟩
  · have h1 := h.bag
    have h2 := h'.bag
    rw [coe_nil, Multiset.zero_add] at h1 h2
    rw [coe_nil, Multiset.zero_add, h1, h2, elements_append, Multiset.add_assoc]
  · have h1 := h.count
    have h2 := h'.count
    rw [length_nil] at h1 h2 ⊢
    rw [h2, h1, length_append, ofNat_add]
    grind

variable {npt : Nat → Reading}

section Members

variable {s : Callbacks}

/-- Scheduling asks no empty queue while there are no backwards callbacks. -/
theorem AdjustScheduling_eq (h : s.iTimersPriQueueNPTBackwards = []) (aIsNPT : Bool)
    (aCurrentTime : UInt32) (clock : Reading) :
    ∃ d, s.AdjustScheduling aIsNPT aCurrentTime clock = { s with scheduled := d } := by
  have hdelta : ∀ temp, ∃ d, s.nptDelta temp = some d := by
    intro temp
    unfold nptDelta
    by_cases hb : s.iIsNPTPlayBackDirectionBackwards = true
    · rw [if_neg (by simp [hb]), if_neg (by simp [h])]
      exact ⟨0, rfl⟩
    · rw [if_pos hb]
      cases top s.iTimersPriQueueNPT with
      | none => exact ⟨0, rfl⟩
      | some e => exact ⟨_, rfl⟩
  have hcalc : ∀ now, ∃ d, s.CalculateRunLTimerValue aIsNPT now clock = some d := by
    intro now
    obtain ⟨d, hd⟩ := hdelta ((s.GetNPTClockPosition clock).getD 0)
    have hif : ∀ (p : Prop) [Decidable p],
        ∃ d', (if p then some d else some 0 : Option Int) = some d' :=
      fun p _ => by by_cases hp : p <;> simp [hp]
    unfold CalculateRunLTimerValue
    dsimp only
    rw [hd]
    obtain ⟨d', hd'⟩ := hif (s.iTimersPriQueueNPT ≠ [] ∨ s.iTimersPriQueueNPTBackwards ≠ [])
    rw [hd']
    cases top s.iTimersPriQueue with
    | none => exact ⟨d', rfl⟩
    | some e =>
      dsimp only
      split <;> exact ⟨_, rfl⟩
  unfold AdjustScheduling
  split
  · exact ⟨s.scheduled, rfl⟩
  · split
    · exact ⟨none, rfl⟩
    · dsimp only
      obtain ⟨d, hd⟩ := hcalc (if aCurrentTime ≠ 0 then aCurrentTime
        else if ¬ aIsNPT then clock.1 else (s.GetNPTClockPosition clock).getD 0)
      rw [hd]
      exact ⟨_, rfl⟩

theorem adjustIfTop_eq (h : s.iTimersPriQueueNPTBackwards = []) {q : List TimerQueueElement}
    (hq : q ≠ []) (aIsNPT : Bool) (aCurrentTime : UInt32) (clock : Reading) :
    ∃ d, s.adjustIfTop q aIsNPT aCurrentTime clock = { s with scheduled := d } := by
  unfold adjustIfTop
  cases htop : top q with
  | none => exact absurd (top_nil htop) hq
  | some e =>
    dsimp only
    split
    · exact AdjustScheduling_eq h _ _ _
    · exact ⟨s.scheduled, rfl⟩

theorem push_ne_nil (q : List TimerQueueElement) (e : TimerQueueElement) :
    push compareLess q e ≠ [] := by
  intro h
  have := (push_perm compareLess q e).length_eq
  rw [h, length_nil, length_cons] at this
  omega

/-! ## 5. Setting and cancelling -/

/-- The queue that a call in forward playback is about. -/
def queueFor (s : Callbacks) (aIsNPT : Bool) : List TimerQueueElement :=
  if aIsNPT then s.iTimersPriQueueNPT else s.iTimersPriQueue

/-- A callback to set: no NPT callback is asked for during backwards playback for one of the 30
    minutes in front of the position, nor for a time that is let in by the wrong bounds; a time
    within the bounds lies within half the range of the times queued. -/
def SafeSet (s : Callbacks) (aIsNPT : Bool) (aAbsoluteTime aCurrentTime : UInt32) : Prop :=
  if aIsNPT && s.iIsNPTPlayBackDirectionBackwards then
    MSECS_IN_30_MINS < aCurrentTime - aAbsoluteTime ∧
      outOfBounds true aAbsoluteTime aCurrentTime = true
  else outOfBounds false aAbsoluteTime aCurrentTime = false →
    Near (aAbsoluteTime :: timeOuts (queueFor s aIsNPT))

/-- A callback is refused, or it is queued. -/
theorem SetCallbackCommon_spec (h : CallbacksInv s) {r : Request}
    {aAbsoluteTime aCurrentTime : UInt32} {aIsNPT : Bool}
    (hsafe : SafeSet s aIsNPT aAbsoluteTime aCurrentTime) (clock : Reading) :
    s.SetCallbackCommon r aAbsoluteTime aCurrentTime aIsNPT clock = (.PVMFErrArgument, none, s) ∨
    ∃ e s', s.SetCallbackCommon r aAbsoluteTime aCurrentTime aIsNPT clock =
      (.PVMFSuccess, some e, s') ∧ CallbacksInv s' ∧ Moves s s' [e] [] := by
  unfold SafeSet at hsafe
  unfold SetCallbackCommon
  cases hobs : r.aCallback with
  | none => exact .inl rfl
  | some obs =>
    dsimp only
    by_cases hdir : (aIsNPT && s.iIsNPTPlayBackDirectionBackwards) = true
    · rw [if_pos hdir] at hsafe
      rw [hdir, if_pos hsafe.2]
      exact .inl rfl
    rw [if_neg hdir] at hsafe
    rw [Bool.not_eq_true] at hdir
    rw [hdir]
    by_cases hout : outOfBounds false aAbsoluteTime aCurrentTime = true
    · rw [if_pos hout]
      exact .inl rfl
    rw [if_neg hout]
    have hnear := hsafe (by rwa [Bool.not_eq_true] at hout)
    generalize he : s.newElement r aAbsoluteTime obs aIsNPT = e
    have htime : e.timeOut = aAbsoluteTime := by rw [← he]; rfl
    rw [← htime] at hnear
    right
    cases aIsNPT with
    | false =>
      have hq : QueueInv (push compareLess s.iTimersPriQueue e) := h.regular.push hnear
      obtain ⟨d, hd⟩ := adjustIfTop_eq (s := { s with
        iTimerIDCount := s.iTimerIDCount + 1
        iTimersPriQueue := push compareLess s.iTimersPriQueue e })
        h.none_backwards (push_ne_nil s.iTimersPriQueue e) false aCurrentTime clock
      rw [if_pos (by simp), hd]
      exact ⟨e, _, rfl, ⟨h.never_misused, h.none_backwards, h.none_forward, hq, h.npt⟩,
        .of_regular (bag_in (push_perm compareLess s.iTimersPriQueue e)) rfl rfl
          (sub_zero _).symm⟩
    | true =>
      have hback : s.iIsNPTPlayBackDirectionBackwards = false := hdir
      have hq : QueueInv (push compareLess s.iTimersPriQueueNPT e) := h.npt.push hnear
      obtain ⟨d, hd⟩ := adjustIfTop_eq (s := { s with
        iTimerIDCount := s.iTimerIDCount + 1
        iTimersPriQueueNPT := push compareLess s.iTimersPriQueueNPT e })
        h.none_backwards (push_ne_nil s.iTimersPriQueueNPT e) true aCurrentTime clock
      rw [if_neg (by simp), if_pos (by simp [hback]), hd]
      have hforward : s.iIsNPTPlayBackDirectionBackwards = true → push compareLess
          s.iTimersPriQueueNPT e = [] := fun hb => absurd (hback.symm.trans hb) Bool.false_ne_true
      exact ⟨e, _, rfl, ⟨h.never_misused, h.none_backwards, hforward, h.regular, hq⟩,
        .of_npt (bag_in (push_perm compareLess s.iTimersPriQueueNPT e)) rfl rfl
          (sub_zero _).symm⟩

/-- A callback is taken out of its queue, or there is none of that ID. -/
theorem CommonCancelCallback_spec (h : CallbacksInv s) {aCallbackID : UInt32} {aIsNPT : Bool}
    (hsafe : NearEnd (queueFor s aIsNPT) aCallbackID) (clock : Reading) :
    s.CommonCancelCallback aCallbackID aIsNPT clock = (.PVMFErrBadHandle, none, s) ∨
    ∃ e q s', s.CommonCancelCallback aCallbackID aIsNPT clock = (.PVMFSuccess, some (e, q), s') ∧
      CallbacksInv s' ∧ Moves s s' [] [⟨e, .cancelled, q⟩] := by
  -- scheduling after the removal changes nothing that matters
  have hsched : ∀ (flag : Bool) (s' : Callbacks), CallbacksInv s' →
      ∃ d, (if flag then s'.AdjustScheduling aIsNPT 0 clock else s') =
        { s' with scheduled := d } := by
    intro flag s' h'
    cases flag with
    | true => exact AdjustScheduling_eq h'.none_backwards _ _ _
    | false => exact ⟨s'.scheduled, rfl⟩
  have hcount : ∀ s : Callbacks, s.iActiveTimersCount - 1 =
      s.iActiveTimersCount + UInt32.ofNat 0 - UInt32.ofNat 1 := by
    intro s
    rw [show UInt32.ofNat 0 = 0 from rfl, UInt32.add_zero]
    rfl
  unfold CommonCancelCallback
  cases aIsNPT with
  | false =>
    rw [if_pos (by simp)]
    rcases removeID_cases compareLess s.iTimersPriQueue aCallbackID with
      hnone | ⟨pos, e, hpos, he, hsome⟩
    · rw [hnone]
      exact .inl rfl
    · have hq := h.regular.removeAt he (hsafe pos hpos)
      have hinv : CallbacksInv { s with
          iTimersPriQueue := removeAt compareLess s.iTimersPriQueue pos } :=
        ⟨h.never_misused, h.none_backwards, h.none_forward, hq, h.npt⟩
      obtain ⟨d, hd⟩ := hsched (isTopID s.iTimersPriQueue aCallbackID) _ hinv
      rw [hsome]
      dsimp only
      rw [hd]
      exact .inr ⟨e, _, _, rfl,
        ⟨h.never_misused, h.none_backwards, h.none_forward, hq, h.npt⟩,
        .of_regular (bag_out (removeAt_perm compareLess he)) rfl rfl (hcount s)⟩
  | true =>
    rw [if_neg (by simp)]
    by_cases hb : s.iIsNPTPlayBackDirectionBackwards = true
    · -- the queue of backwards playback is empty
      rw [if_neg (by simp [hb]), h.none_backwards]
      left
      show (PVMFStatus.PVMFErrBadHandle, none,
        { s with iTimersPriQueueNPTBackwards := [] }) = _
      rw [← h.none_backwards]
    rw [if_pos hb]
    rcases removeID_cases compareLess s.iTimersPriQueueNPT aCallbackID with
      hnone | ⟨pos, e, hpos, he, hsome⟩
    · rw [hnone]
      exact .inl rfl
    · have hq := h.npt.removeAt he (hsafe pos hpos)
      have hinv : CallbacksInv { s with
          iTimersPriQueueNPT := removeAt compareLess s.iTimersPriQueueNPT pos } :=
        ⟨h.never_misused, h.none_backwards, fun hb' => absurd hb' hb, h.regular, hq⟩
      obtain ⟨d, hd⟩ := hsched (isTopID s.iTimersPriQueueNPT aCallbackID) _ hinv
      rw [hsome]
      dsimp only
      rw [hd]
      exact .inr ⟨e, _, _, rfl,
        ⟨h.never_misused, h.none_backwards, fun hb' => absurd hb' hb, h.regular, hq⟩,
        .of_npt (bag_out (removeAt_perm compareLess he)) rfl rfl (hcount s)⟩

/-! ## 6. Failing callbacks -/

theorem clearRegular_spec (h : CallbacksInv s) (outcome : Outcome) :
    let r := s.clearRegular outcome
    CallbacksInv r.2 ∧ r.2.iTimersPriQueue = [] ∧
      r.2.iIsNPTPlayBackDirectionBackwards = s.iIsNPTPlayBackDirectionBackwards ∧
      Moves s r.2 [] r.1 ∧ ∀ c ∈ r.1, c.outcome = outcome := by
  obtain ⟨hbag, hnil, hcount, hout⟩ := clearLoop_spec compareLess outcome
    (le_refl s.iTimersPriQueue.length) s.iActiveTimersCount
  unfold clearRegular
  dsimp only
  refine ⟨⟨h.never_misused, h.none_backwards, h.none_forward, ?_, h.npt⟩, hnil, rfl,
    .of_regular ?_ rfl rfl ?_, hout⟩
  · show QueueInv (clearLoop compareLess outcome s.iTimersPriQueue.length s.iTimersPriQueue
      s.iActiveTimersCount).2.1
    rw [hnil]
    exact .nil
  · exact bag_all hbag hnil
  · dsimp only
    rw [hcount, length_nil]
    exact congrArg (· - _) (UInt32.add_zero _).symm

theorem clearNPT_spec (h : CallbacksInv s) (outcome : Outcome) :
    let r := s.clearNPT outcome
    CallbacksInv r.2 ∧ r.2.iTimersPriQueue = s.iTimersPriQueue ∧ r.2.iTimersPriQueueNPT = [] ∧
      r.2.iTimersPriQueueNPTBackwards = [] ∧ Moves s r.2 [] r.1 ∧
      ∀ c ∈ r.1, c.outcome = outcome := by
  unfold clearNPT
  by_cases hb : s.iIsNPTPlayBackDirectionBackwards = true
  · -- the queue of backwards playback is empty, and so is the other one
    have hclear : clearLoop compareLessBackwards outcome s.iTimersPriQueueNPTBackwards.length
        s.iTimersPriQueueNPTBackwards s.iActiveTimersCount =
          ([], s.iTimersPriQueueNPTBackwards, s.iActiveTimersCount) := by
      rw [h.none_backwards]
      rfl
    rw [if_neg (by simp [hb]), hclear]
    exact ⟨h, rfl, h.none_forward hb, h.none_backwards, .refl s,
      fun c hc => absurd hc not_mem_nil⟩
  · obtain ⟨hbag, hnil, hcount, hout⟩ := clearLoop_spec compareLess outcome
      (le_refl s.iTimersPriQueueNPT.length) s.iActiveTimersCount
    rw [if_pos hb]
    dsimp only
    refine ⟨⟨h.never_misused, h.none_backwards, fun hb' => absurd hb' hb, h.regular, ?_⟩, rfl, hnil,
      h.none_backwards, .of_npt ?_ rfl rfl ?_, hout⟩
    · show QueueInv (clearLoop compareLess outcome s.iTimersPriQueueNPT.length
        s.iTimersPriQueueNPT s.iActiveTimersCount).2.1
      rw [hnil]
      exact .nil
    · exact bag_all hbag hnil
    · dsimp only
      rw [hcount, length_nil]
      exact congrArg (· - _) (UInt32.add_zero _).symm

/-- A callback that was failed did not fire. -/
theorem proper_of_outcome {outcome : Outcome}
    (h : ∀ c ∈ done, c.outcome = outcome)
    (hne : ∀ status delta now, outcome ≠ .fired status delta now) : ∀ c ∈ done, Proper c := by
  intro c hc status delta now hfired
  exact absurd ((h c hc).symm.trans hfired) (hne status delta now)

theorem Stop_spec (h : CallbacksInv s) (iState : ClockState) :
    let r := s.Stop iState
    CallbacksInv r.2 ∧ Moves s r.2 [] r.1 ∧ (∀ c ∈ r.1, Proper c) ∧
      (iState ≠ .STOPPED → r.2.iTimersPriQueue = [] ∧ r.2.iTimersPriQueueNPT = [] ∧
        r.2.iTimersPriQueueNPTBackwards = []) := by
  unfold Stop
  by_cases hst : iState = .STOPPED
  · rw [if_pos hst]
    exact ⟨h, .refl s, fun c hc => absurd hc not_mem_nil, fun hne => absurd hst hne⟩
  · rw [if_neg hst]
    obtain ⟨hinv, hregular, -, hmoves, hout⟩ := clearRegular_spec h .clockStopped
    obtain ⟨hinv', hsame, hnpt, hback, hmoves', hout'⟩ := clearNPT_spec hinv .clockStopped
    refine ⟨hinv', hmoves.trans hmoves', ?_, fun _ => ⟨hsame.trans hregular, hnpt, hback⟩⟩
    intro c hc
    rcases mem_append.mp hc with hc | hc
    · exact proper_of_outcome hout (by simp) c hc
    · exact proper_of_outcome hout' (by simp) c hc

/-- After a change of direction the NPT queues are empty. -/
theorem UpdateNPTClockPosition_spec (h : CallbacksInv s) (aStartNPT : UInt32) (backwards : Bool)
    (clock : Reading) :
    let r := s.UpdateNPTClockPosition aStartNPT backwards clock
    CallbacksInv r.2 ∧ Moves s r.2 [] r.1 ∧ (∀ c ∈ r.1, Proper c) ∧
      (s.iIsNPTPlayBackDirectionBackwards ≠ backwards → r.2.iTimersPriQueueNPT = [] ∧
        r.2.iTimersPriQueueNPTBackwards = []) := by
  -- the members before the direction is set
  have h₁ : CallbacksInv { s with iStartNPT := aStartNPT, iStartMediaClockTS := clock.1 } :=
    ⟨h.never_misused, h.none_backwards, h.none_forward, h.regular, h.npt⟩
  have hm₁ : Moves s { s with iStartNPT := aStartNPT, iStartMediaClockTS := clock.1 } [] [] :=
    .of_regular rfl rfl rfl (by simp)
  -- what follows the change of direction
  have hend : ∀ s' : Callbacks, CallbacksInv s' → (backwards = true → s'.iTimersPriQueueNPT = []) →
      ∀ done, Moves s s' [] done →
      ∃ d, (CallbacksInv { s' with
          iIsNPTPlayBackDirectionBackwards := backwards, scheduled := d }) ∧
        Moves s { s' with iIsNPTPlayBackDirectionBackwards := backwards, scheduled := d } [] done ∧
        ({ s' with iIsNPTPlayBackDirectionBackwards := backwards } : Callbacks).AdjustScheduling
          true 0 clock =
          { s' with iIsNPTPlayBackDirectionBackwards := backwards, scheduled := d } := by
    intro s' h' hb done hm
    obtain ⟨d, hd⟩ := AdjustScheduling_eq (s := { s' with
      iIsNPTPlayBackDirectionBackwards := backwards }) h'.none_backwards true 0 clock
    exact ⟨d, ⟨h'.never_misused, h'.none_backwards, hb, h'.regular, h'.npt⟩, ⟨hm.bag, hm.count⟩, hd⟩
  unfold UpdateNPTClockPosition
  dsimp only
  by_cases hdir : s.iIsNPTPlayBackDirectionBackwards ≠ backwards
  · rw [if_pos hdir]
    unfold ClearPresentNPTQueue
    obtain ⟨hinv, -, hnpt, hback, hmoves, hout⟩ := clearNPT_spec h₁ .becameInvalid
    obtain ⟨d, hinv', hm', hadj⟩ := hend _ hinv (fun _ => hnpt) _ (hm₁.trans hmoves)
    rw [hadj]
    exact ⟨hinv', hm', proper_of_outcome hout (by simp), fun _ => ⟨hnpt, hback⟩⟩
  · rw [if_neg hdir]
    rw [not_not] at hdir
    obtain ⟨d, hinv', hm', hadj⟩ := hend _ h₁ (fun hb => h.none_forward (hdir.trans hb)) _ hm₁
    rw [hadj]
    exact ⟨hinv', hm', fun c hc => absurd hc not_mem_nil, fun hne => absurd hdir hne⟩

/-! ## 7. `Run` -/

/-- A queue of `Run`: it is empty, or one of its callbacks is not due at any of the times read, and
    these lie within half the range of the times queued. -/
def SafeLoop (q : List TimerQueueElement) (time : Nat → UInt32) : Prop :=
  q = [] ∨ ∃ base, NearAt base (timeOuts q) ∧
    (∀ j, j ≤ q.length → (time j - base).toNat < 2147483648) ∧
    ∃ e ∈ q, ∀ j, j ≤ q.length →
      (CheckTimeWindow e.timeOut (time j) e.window e.window).1 = .MEDIA_EARLY_OUTSIDE_WINDOW

/-- The two queues of `Run` in forward playback; the clock does not overflow where it is read for
    the NPT queue. -/
def SafeRun (s : Callbacks) (regular npt : Nat → Reading) : Prop :=
  SafeLoop s.iTimersPriQueue (fun i => (regular i).1) ∧
    (s.iIsNPTPlayBackDirectionBackwards = false → SafeLoop s.iTimersPriQueueNPT (s.nptTimes 0 npt) ∧
      ∀ j, j ≤ s.iTimersPriQueueNPT.length → (npt j).2 = false)

theorem runRegular_spec (h : CallbacksInv s) {clock : Nat → Reading}
    (hsafe : SafeLoop s.iTimersPriQueue fun i => (clock i).1) :
    let r := s.runRegular clock
    CallbacksInv r.2.2.1 ∧ Moves s r.2.2.1 [] r.1 ∧ (∀ c ∈ r.1, Proper c) ∧
      (∀ l ∈ r.2.1, ∀ e ∈ l.2, isStrictlyEarlier e.timeOut l.1 = false) ∧
      ∃ q count d, r.2.2.1 =
        { s with iTimersPriQueue := q, iActiveTimersCount := count, scheduled := d } := by
  unfold runRegular
  rcases hsafe with hnil | ⟨base, hb, htime, hstay⟩
  · rw [if_pos hnil]
    exact ⟨h, .refl s, fun c hc => absurd hc not_mem_nil,
      fun l hl => absurd hl not_mem_nil, s.iTimersPriQueue, s.iActiveTimersCount, s.scheduled,
      rfl⟩
  · have hne : s.iTimersPriQueue ≠ [] := by
      obtain ⟨e, he, -⟩ := hstay
      exact ne_nil_of_mem he
    obtain ⟨hbag, hinv, hcount, hmis, hprop, hpast⟩ := fireLoop_spec (i := 0)
      (le_refl s.iTimersPriQueue.length) h.regular hb (fun j hj => htime j (by omega))
      (by
        obtain ⟨e, he, hearly⟩ := hstay
        exact ⟨e, he, fun j hj => hearly j (by omega)⟩) s.iActiveTimersCount s.misused
    rw [if_neg hne]
    generalize fireLoop (fun i => (clock i).1) s.iTimersPriQueue.length 0 s.iTimersPriQueue
      s.iActiveTimersCount s.misused = r at *
    dsimp only
    obtain ⟨d, hd⟩ := AdjustScheduling_eq (s := { s with
      iTimersPriQueue := r.queue, iActiveTimersCount := r.iActiveTimersCount
      misused := r.misused })
      h.none_backwards false r.currentTime (clock 0)
    rw [hd, hmis]
    refine ⟨⟨h.never_misused, h.none_backwards, h.none_forward, hinv, h.npt⟩,
      .of_regular ((Multiset.zero_add _).trans hbag) rfl rfl ?_, hprop, ?_,
      r.queue, r.iActiveTimersCount, d, rfl⟩
    · dsimp only
      rw [hcount, length_nil]
      exact congrArg (· - _) (UInt32.add_zero _).symm
    · intro l hl e he
      rw [mem_singleton.mp hl] at he ⊢
      exact hpast e he

/-- The times read for the NPT queue, where the clock does not overflow. -/
theorem nptTimes_eq {s' : Callbacks}
    (hread : ∀ clock, s'.GetNPTClockPosition clock = s.GetNPTClockPosition clock)
    (hover : ∀ j, j ≤ n → (npt j).2 = false) (currentTime : UInt32) :
    ∀ j, j ≤ n → s'.nptTimes currentTime npt j = s.nptTimes 0 npt j := by
  have hsome : ∀ j, j ≤ n → ∃ t, s.GetNPTClockPosition (npt j) = some t := by
    intro j hj
    unfold GetNPTClockPosition
    rw [if_neg (by simp [hover j hj])]
    exact ⟨_, rfl⟩
  intro j hj
  obtain ⟨t, ht⟩ := hsome j hj
  cases j with
  | zero | succ j => rw [nptTimes, nptTimes, hread, ht]; rfl

theorem runNPT_spec (h : CallbacksInv s) {currentTime : UInt32}
    (hsafe : s.iIsNPTPlayBackDirectionBackwards = false →
      SafeLoop s.iTimersPriQueueNPT (s.nptTimes currentTime npt)) :
    let r := s.runNPT currentTime npt
    CallbacksInv r.2.2 ∧ Moves s r.2.2 [] r.1 ∧ (∀ c ∈ r.1, Proper c) ∧
      ∀ l ∈ r.2.1, ∀ e ∈ l.2, isStrictlyEarlier e.timeOut l.1 = false := by
  have hidle : CallbacksInv s ∧ Moves s s [] [] ∧ (∀ c ∈ ([] : List Completion), Proper c) ∧
      ∀ l ∈ ([] : List Left), ∀ e ∈ l.2, isStrictlyEarlier e.timeOut l.1 = false :=
    ⟨h, .refl s, fun c hc => absurd hc not_mem_nil, fun l hl => absurd hl not_mem_nil⟩
  unfold runNPT
  dsimp only
  by_cases hdir : s.iIsNPTPlayBackDirectionBackwards = true
  · rw [if_neg (by simp [hdir]), if_pos h.none_backwards]
    exact hidle
  rw [if_pos hdir]
  rcases hsafe (by rwa [Bool.not_eq_true] at hdir) with hnil | ⟨base, hb, htime, hstay⟩
  · rw [if_pos hnil]
    exact hidle
  · have hne : s.iTimersPriQueueNPT ≠ [] := by
      obtain ⟨e, he, -⟩ := hstay
      exact ne_nil_of_mem he
    obtain ⟨hbag, hinv, hcount, hmis, hprop, hpast⟩ := fireLoop_spec (i := 0)
      (le_refl s.iTimersPriQueueNPT.length) h.npt hb (fun j hj => htime j (by omega))
      (by
        obtain ⟨e, he, hearly⟩ := hstay
        exact ⟨e, he, fun j hj => hearly j (by omega)⟩) s.iActiveTimersCount s.misused
    rw [if_neg hne]
    generalize fireLoop (s.nptTimes currentTime npt) s.iTimersPriQueueNPT.length 0
      s.iTimersPriQueueNPT s.iActiveTimersCount s.misused = r at *
    obtain ⟨d, hd⟩ := AdjustScheduling_eq (s := { s with
      iTimersPriQueueNPT := r.queue, iActiveTimersCount := r.iActiveTimersCount
      misused := r.misused }) h.none_backwards true r.currentTime (npt 0)
    rw [hd, hmis]
    refine ⟨⟨h.never_misused, h.none_backwards, fun hb' => absurd hb' hdir, h.regular, hinv⟩,
      .of_npt ((Multiset.zero_add _).trans hbag) rfl rfl ?_, hprop, ?_⟩
    · dsimp only
      rw [hcount, length_nil]
      exact congrArg (· - _) (UInt32.add_zero _).symm
    · intro l hl e he
      rw [mem_singleton.mp hl] at he ⊢
      exact hpast e he

theorem SafeLoop.congr {q : List TimerQueueElement} {time time' : Nat → UInt32}
    (h : SafeLoop q time) (he : ∀ j, j ≤ q.length → time' j = time j) : SafeLoop q time' := by
  rcases h with hnil | ⟨base, hb, htime, e, hmem, hearly⟩
  · exact .inl hnil
  · refine .inr ⟨base, hb, fun j hj => ?_, e, hmem, fun j hj => ?_⟩
    · rw [he j hj]
      exact htime j hj
    · rw [he j hj]
      exact hearly j hj

theorem Run_spec (h : CallbacksInv s) {regular : Nat → Reading}
    (hsafe : SafeRun s regular npt) :
    let r := s.Run regular npt
    CallbacksInv r.2.2 ∧ Moves s r.2.2 [] r.1 ∧ (∀ c ∈ r.1, Proper c) ∧
      ∀ l ∈ r.2.1, ∀ e ∈ l.2, isStrictlyEarlier e.timeOut l.1 = false := by
  obtain ⟨hinv, hmoves, hprop, hpast, q, count, d, heq⟩ := runRegular_spec h hsafe.1
  unfold Callbacks.Run
  dsimp only
  generalize s.runRegular regular = r at *
  obtain ⟨done, left, s', currentTime⟩ := r
  dsimp only at *
  have hnpt : s'.iIsNPTPlayBackDirectionBackwards = false →
      SafeLoop s'.iTimersPriQueueNPT (s'.nptTimes currentTime npt) := by
    subst heq
    intro hdir
    obtain ⟨hloop, hover⟩ := hsafe.2 hdir
    have hread : ∀ clock, ({ s with
        iTimersPriQueue := q, iActiveTimersCount := count, scheduled := d } : Callbacks
        ).GetNPTClockPosition clock = s.GetNPTClockPosition clock := fun _ => rfl
    exact hloop.congr (nptTimes_eq hread hover currentTime)
  obtain ⟨hinv', hmoves', hprop', hpast'⟩ := runNPT_spec hinv hnpt
  refine ⟨hinv', hmoves.trans hmoves', fun c hc => ?_, fun l hl => ?_⟩
  · rcases mem_append.mp hc with hc | hc
    · exact hprop c hc
    · exact hprop' c hc
  · rcases mem_append.mp hl with hl | hl
    · exact hpast l hl
    · exact hpast' l hl

end Members

/-! ## 8. Runs -/

/-- What is promised of the callbacks of a clock. -/
structure Kept (s : CallbackRun) : Prop where
  /-- An accepted callback is queued, or it was completed: once. -/
  once : (s.accepted : Multiset TimerQueueElement) = elements s.completed + queued s.clock
  /-- It fired in the order of the times of its queue, and not before its window. -/
  proper : ∀ c ∈ s.completed, Proper c
  /-- None in the past was left behind by `Run`. -/
  none_past : ∀ l ∈ s.left, ∀ e ∈ l.2, isStrictlyEarlier e.timeOut l.1 = false
  /-- Nothing was left queued by a stop, or of the NPT callbacks by a change of direction. -/
  cleared : s.uncleared = []
  count : s.clock.iActiveTimersCount = UInt32.ofNat (queued s.clock).card
  /-- `top()` and `pop()` were not applied to an empty queue. -/
  never_misused : s.clock.misused = false
  /-- In backwards playback nothing was refused for the 30 minutes in front of the position. -/
  backwards : ∀ r ∈ s.refused, MSECS_IN_30_MINS < r.currentTime - r.aAbsoluteTime

/-- The calls that do not get to one of the places where the code goes wrong. -/
def Safe (s : CallbackRun) : CallbackOp → Prop
  | .SetCallback delta aTime _ clock =>
    SafeSet s.clock false (timeOf delta aTime clock.1) clock.1
  | .SetNPTCallback delta aTime _ clock =>
    let currentTime := (s.clock.GetNPTClockPosition clock).getD 0
    SafeSet s.clock true (timeOf delta aTime currentTime) currentTime
  | .CancelCallback aCallbackID _ => NearEnd (queueFor s.clock false) aCallbackID
  | .CancelNPTCallback aCallbackID _ => NearEnd (queueFor s.clock true) aCallbackID
  | .Run regular npt => SafeRun s.clock regular npt
  | _ => True

/-- The machine of the calls. -/
def callbackStep (s : CallbackRun) (op : CallbackOp) (s' : CallbackRun) : Prop := s' = s.step op

theorem Kept.create (b : Bool) : Kept (.create b) where
  once := rfl
  proper := fun _ hc => absurd hc not_mem_nil
  none_past := fun _ hl => absurd hl not_mem_nil
  cleared := rfl
  count := rfl
  never_misused := rfl
  backwards := fun _ hr => absurd hr not_mem_nil

section Steps

variable {s : CallbackRun}

/-- What the bag and the count are after a call. -/
theorem Kept.moves (h : Kept s) {c : Callbacks}
    (hm : Moves s.clock c new done) :
    ((s.accepted ++ new : List TimerQueueElement) : Multiset TimerQueueElement) =
        elements (s.completed ++ done) + queued c ∧
      c.iActiveTimersCount = UInt32.ofNat (queued c).card := by
  have hbag : (s.accepted : Multiset TimerQueueElement) + (new : Multiset TimerQueueElement) =
      elements s.completed + (elements done + queued c) := by
    rw [h.once, ← hm.bag, Multiset.add_assoc, Multiset.add_comm (queued s.clock)]
  constructor
  · rw [elements_append, Multiset.add_assoc, ← hbag]
    rfl
  · have hcard := congrArg Multiset.card hm.bag
    rw [card_add, card_add, Multiset.coe_card,
      show (elements done).card = done.length by simp [elements]] at hcard
    have hofNat := congrArg UInt32.ofNat hcard
    rw [ofNat_add, ofNat_add] at hofNat
    rw [hm.count, h.count]
    grind

/-- A call that completes callbacks, and what it leaves behind. -/
theorem Kept.complete (h : Kept s) {c : Callbacks} (left : List Left)
    (uncleared : List TimerQueueElement) (hinv : CallbacksInv c) (hm : Moves s.clock c [] done)
    (hprop : ∀ c ∈ done, Proper c)
    (hleft : ∀ l ∈ left, ∀ e ∈ l.2, isStrictlyEarlier e.timeOut l.1 = false)
    (hclear : uncleared = []) :
    Kept { s with
      clock := c
      completed := s.completed ++ done
      left := s.left ++ left
      uncleared := s.uncleared ++ uncleared } := by
  obtain ⟨hbag, hcount⟩ := h.moves hm
  rw [append_nil] at hbag
  refine ⟨hbag, fun c hc => ?_, fun l hl => ?_, ?_, hcount, hinv.never_misused, h.backwards⟩
  · rcases mem_append.mp hc with hc | hc
    · exact h.proper c hc
    · exact hprop c hc
  · rcases mem_append.mp hl with hl | hl
    · exact h.none_past l hl
    · exact hleft l hl
  · show s.uncleared ++ uncleared = []
    rw [h.cleared, hclear]
    rfl

theorem Kept.set (h : Kept s) {r : PVMFStatus × Option TimerQueueElement × Callbacks}
    {refusal : List Refusal}
    (hr : r = (.PVMFErrArgument, none, s.clock) ∨
      ∃ e c, r = (.PVMFSuccess, some e, c) ∧ CallbacksInv c ∧ Moves s.clock c [e] [])
    (hinv : CallbacksInv s.clock)
    (href : ∀ r ∈ refusal, MSECS_IN_30_MINS < r.currentTime - r.aAbsoluteTime) :
    Kept (s.set r refusal) ∧ CallbacksInv (s.set r refusal).clock := by
  unfold CallbackRun.set
  rcases hr with rfl | ⟨e, c, rfl, hinv', hm⟩
  · obtain ⟨hbag, hcount⟩ := h.moves (Moves.refl s.clock)
    rw [append_nil s.completed] at hbag
    refine ⟨⟨hbag, h.proper, h.none_past, h.cleared, hcount, h.never_misused, fun r hr => ?_⟩, hinv⟩
    dsimp only at hr
    rw [if_neg (by decide)] at hr
    rcases mem_append.mp hr with hr | hr
    · exact h.backwards r hr
    · exact href r hr
  · obtain ⟨hbag, hcount⟩ := h.moves hm
    rw [append_nil s.completed] at hbag
    refine ⟨⟨hbag, h.proper, h.none_past, h.cleared, hcount, hinv'.never_misused, fun r hr => ?_⟩,
      hinv'⟩
    dsimp only at hr
    rw [if_pos rfl, append_nil] at hr
    exact h.backwards r hr

theorem Kept.cancel (h : Kept s)
    {r : PVMFStatus × Option (TimerQueueElement × List TimerQueueElement) × Callbacks}
    (hr : r = (.PVMFErrBadHandle, none, s.clock) ∨
      ∃ e q c, r = (.PVMFSuccess, some (e, q), c) ∧ CallbacksInv c ∧
        Moves s.clock c [] [⟨e, .cancelled, q⟩])
    (hinv : CallbacksInv s.clock) :
    Kept (s.cancel r) ∧ CallbacksInv (s.cancel r).clock := by
  unfold CallbackRun.cancel
  rcases hr with rfl | ⟨e, q, c, rfl, hinv', hm⟩
  · have := h.complete [] [] hinv (Moves.refl s.clock)
      (fun c hc => absurd hc not_mem_nil) (fun l hl => absurd hl not_mem_nil) rfl
    rw [append_nil s.left, append_nil s.uncleared] at this
    exact ⟨this, hinv⟩
  · have hprop : ∀ c ∈ [(⟨e, .cancelled, q⟩ : Completion)], Proper c := by
      intro c hc status delta now hfired
      rw [mem_singleton.mp hc] at hfired
      cases hfired
    have := h.complete [] [] hinv' hm hprop
      (fun l hl => absurd hl not_mem_nil) rfl
    rw [append_nil s.left, append_nil s.uncleared] at this
    exact ⟨this, hinv'⟩

/-- **One call** keeps what is promised. -/
theorem kept_step (h : Kept s) (hinv : CallbacksInv s.clock) {op : CallbackOp} (hsafe : Safe s op) :
    Kept (s.step op) ∧ CallbacksInv (s.step op).clock := by
  cases op with
  | SetCallback delta aTime r clock =>
    exact h.set (SetCallbackCommon_spec hinv hsafe clock) hinv
      fun r hr => absurd hr not_mem_nil
  | SetNPTCallback delta aTime r clock =>
    refine h.set (SetCallbackCommon_spec hinv hsafe clock) hinv fun r' hr' => ?_
    split at hr'
    · rename_i hb
      rw [mem_singleton.mp hr']
      have hsafe' : SafeSet s.clock true _ _ := hsafe
      unfold SafeSet at hsafe'
      rw [if_pos (by simp [hb.1])] at hsafe'
      exact hsafe'.1
    · exact absurd hr' not_mem_nil
  | CancelCallback aCallbackID clock | CancelNPTCallback aCallbackID clock =>
    exact h.cancel (CommonCancelCallback_spec hinv hsafe clock) hinv
  | UpdateNPTClockPosition aStartNPT backwards clock =>
    obtain ⟨hinv', hm, hprop, hnil⟩ := UpdateNPTClockPosition_spec hinv aStartNPT backwards clock
    have hclear : (if s.clock.iIsNPTPlayBackDirectionBackwards ≠ backwards then
        (s.clock.UpdateNPTClockPosition aStartNPT backwards clock).2.iTimersPriQueueNPT ++
          (s.clock.UpdateNPTClockPosition aStartNPT backwards clock).2.iTimersPriQueueNPTBackwards
        else []) = [] := by
      split
      · rename_i hne
        rw [(hnil hne).1, (hnil hne).2]
        rfl
      · rfl
    have := h.complete [] _ hinv' hm hprop (fun l hl => absurd hl not_mem_nil) hclear
    rw [append_nil s.left] at this
    exact ⟨this, hinv'⟩
  | Run regular npt =>
    obtain ⟨hinv', hm, hprop, hpast⟩ := Run_spec hinv hsafe
    have := h.complete _ [] hinv' hm hprop hpast rfl
    rw [append_nil s.uncleared] at this
    exact ⟨this, hinv'⟩
  | Stop iState =>
    obtain ⟨hinv', hm, hprop, hnil⟩ := Stop_spec hinv iState
    have hclear : (if iState ≠ .STOPPED then
        (s.clock.Stop iState).2.iTimersPriQueue ++ (s.clock.Stop iState).2.iTimersPriQueueNPT ++
          (s.clock.Stop iState).2.iTimersPriQueueNPTBackwards
        else []) = [] := by
      split
      · rename_i hne
        rw [(hnil hne).1, (hnil hne).2.1, (hnil hne).2.2]
        rfl
      · rfl
    have := h.complete [] _ hinv' hm hprop (fun l hl => absurd hl not_mem_nil) hclear
    rw [append_nil s.left] at this
    exact ⟨this, hinv'⟩

end Steps

/-- **The callbacks of a clock**: in every run whose calls are all safe, what is promised holds in
    every state reached. -/
theorem callbacks_kept (iIsTimebaseCountBased : Bool) (ops : List CallbackOp) (s : CallbackRun)
    (hr : OpenCore.Run (onlyWhen Safe callbackStep) (.create iIsTimebaseCountBased) ops s) :
    Kept s := by
  have hboth : Kept s ∧ CallbacksInv s.clock := by
    refine OpenCore.Run.invariant (I := fun s => Kept s ∧ CallbacksInv s.clock)
      ⟨.create _, .create _⟩ ?_ hr
    rintro s op s' ⟨h, hinv⟩ ⟨hsafe, rfl⟩
    exact kept_step h hinv hsafe
  exact hboth.1

/-- Two callbacks, a `Run` at the time of the first, and a stop. -/
def firedAndStopped : CallbackRun :=
  ((((CallbackRun.create false).step (.SetCallback false 100 ⟨5, some 0, 0, 0⟩ (10, false))).step
    (.SetCallback true 190 ⟨5, some 0, 0, 0⟩ (10, false))).step
    (.Run (fun _ => (100, false)) fun _ => (0, false))).step (.Stop .RUNNING)

theorem callbacks_kept_fired : Kept firedAndStopped := by
  refine callbacks_kept false [.SetCallback false 100 ⟨5, some 0, 0, 0⟩ (10, false),
    .SetCallback true 190 ⟨5, some 0, 0, 0⟩ (10, false),
    .Run (fun _ => (100, false)) fun _ => (0, false), .Stop .RUNNING] firedAndStopped ?_
  refine .cons ⟨?_, rfl⟩ (.cons ⟨?_, rfl⟩ (.cons ⟨⟨.inr ?_, ?_⟩, rfl⟩
    (.cons ⟨trivial, rfl⟩ .start)))
  · exact fun _ => ⟨0, by decide +kernel⟩
  · exact fun _ => ⟨0, by decide +kernel⟩
  · have hnear : ((100 : UInt32) - 0).toNat < 2147483648 := by decide
    have hearly : (CheckTimeWindow 200 100 5 5).1 = .MEDIA_EARLY_OUTSIDE_WINDOW := by decide
    exact ⟨0, by decide +kernel, fun _ _ => hnear, ⟨200, 1, false, 5, 0, 0, 0⟩, by decide +kernel,
      fun _ _ => hearly⟩
  · exact fun _ => ⟨.inl (by decide +kernel), fun _ _ => rfl⟩

/-- **Backwards playback**: a callback for the time one second in front of the position is
    refused. -/
theorem backwards_callback_refused :
    ¬ ∀ ops s, OpenCore.Run callbackStep (.create false) ops s → Kept s := by
  intro h
  have hr := (h [.UpdateNPTClockPosition 10000 true (0, false),
    .SetNPTCallback false 9000 ⟨5, some 0, 0, 0⟩ (0, false)] _
    (.cons rfl (.cons rfl .start))).backwards ⟨9000, 10000⟩ (by decide +kernel)
  exact absurd hr (by decide)

end OpenCore.Pvmf
