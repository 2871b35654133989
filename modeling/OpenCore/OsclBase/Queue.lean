/-
  File:      OpenCore/OsclBase/Queue.lean
  Subject:   `Oscl_Queue` (oscl_queue.h, oscl_queue.cpp): the ring as the code computes it, and the
             runs in which it is a FIFO list.

  Indices and sizes are `uint32`. `elems` holds the slots of the block the allocator gave, which
  are fewer than `bufsize` where the size in bytes wrapped; a slot without an object is `none`.
  Reading a slot without an object, writing outside the block and popping an empty queue are
  undefined. An allocation that fails leaves before anything changed and is no step.
-/
import OpenCore.Lib.Ring
import OpenCore.Lib.Run
import OpenCore.Lib.Word32

namespace OpenCore.OsclBase

open List Option

variable {α : Type*}

/-! ## 1. The code -/

/-- `Oscl_Queue_Base`. -/
structure Queue (α : Type*) where
  numelems : Nat
  bufsize : Nat
  elems : List (Option α)
  ifront : Nat
  irear : Nat

/-- `allocate(n * sizeof_T)`: the slots of a block of that many bytes. -/
def allocateSlots (sizeofT n : Nat) : List (Option α) :=
  List.replicate (mul32 n sizeofT / sizeofT) none

/-- Both `construct`: the default constructor (`n` = 0) and the one with capacity `n`. Neither sets
    the two indices. -/
def Queue.init (sizeofT n ifront irear : Nat) : Queue α where
  numelems := 0
  bufsize := n
  elems := if n = 0 then [] else allocateSlots sizeofT n
  ifront := ifront
  irear := irear

/-- An index past the last slot starts again at 0. -/
def wrapIndex (s : Queue α) (i : Nat) : Nat := if s.bufsize ≤ i then 0 else i

/-- The object in a slot. -/
def slotAt (elems : List (Option α)) (i : Nat) : Option α := elems[i]?.join

/-- An object constructed in a slot. -/
def constructAt (elems : List (Option α)) (i : Nat) (x : α) : Option (List (Option α)) :=
  if i < elems.length then some (elems.set i (some x)) else none

def Queue.front (s : Queue α) : Option α := if s.numelems = 0 then none else slotAt s.elems s.ifront

def Queue.back (s : Queue α) : Option α := if s.numelems = 0 then none else slotAt s.elems s.irear

def Queue.pop (s : Queue α) : Option (Queue α) :=
  s.front.map fun _ =>
    { s with elems := s.elems.set s.ifront none
             ifront := wrapIndex s (add32 s.ifront 1)
             numelems := s.numelems - 1 }

/-- The loop of `reserve`: the contents go over to the new block, in `numelems` rounds. -/
def transfer : Nat → Queue α → List (Option α) → Nat → Option (List (Option α) × Nat)
  | 0, _, newElems, i => some (newElems, i)
  | n + 1, s, newElems, i =>
    s.front.bind fun x =>
      (constructAt newElems i x).bind fun newElems =>
        s.pop.bind fun s => transfer n s newElems (i + 1)

def Queue.reserve (sizeofT : Nat) (s : Queue α) (n : Nat) : Option (Queue α) :=
  if s.bufsize < n then
    (transfer s.numelems s (allocateSlots sizeofT n) 0).map fun r =>
      { elems := r.1
        bufsize := n
        numelems := r.2
        ifront := 0
        irear := if 0 < r.2 then r.2 - 1 else n - 1 }
  else some s

/-- The size `push` asks for when the queue is full: 1.25 times the old one, and at least 4
    more. -/
def grownSize (bufsize : Nat) : Nat := add32 bufsize (if 16 < bufsize then bufsize / 4 else 4)

def Queue.push (sizeofT : Nat) (s : Queue α) (x : α) : Option (Queue α) :=
  (if s.numelems = s.bufsize then s.reserve sizeofT (grownSize s.bufsize) else some s).bind fun s =>
    let irear := wrapIndex s (add32 s.irear 1)
    (constructAt s.elems irear x).map fun elems =>
      { s with irear := irear, elems := elems, numelems := add32 s.numelems 1 }

/-- `clear`. -/
def clearLoop : Nat → Queue α → Option (Queue α)
  | 0, s => some s
  | n + 1, s => s.pop.bind fun s => clearLoop n s

def Queue.clear (s : Queue α) : Option (Queue α) := clearLoop s.numelems s

/-- A call. -/
inductive QueueOp (α : Type*) where
  | push (x : α)
  | pop
  | reserve (n : Nat)
  | clear
  | size
  | empty
  | front
  | back
  deriving DecidableEq

/-- What a call returns. -/
inductive QueueAnswer (α : Type*) where
  | done
  | size (n : Nat)
  | empty (b : Bool)
  | element (x : α)
  deriving DecidableEq

def queueStep (sizeofT : Nat) (s : Queue α) : QueueOp α → Option (Queue α × QueueAnswer α)
  | .push x => (s.push sizeofT x).map fun s => (s, .done)
  | .pop => s.pop.map fun s => (s, .done)
  | .reserve n => (s.reserve sizeofT n).map fun s => (s, .done)
  | .clear => s.clear.map fun s => (s, .done)
  | .size => some (s, .size s.numelems)
  | .empty => some (s, .empty (s.numelems = 0))
  | .front => s.front.map fun x => (s, .element x)
  | .back => s.back.map fun x => (s, .element x)

/-- What each call means for the FIFO list; `none` where an empty list has no element. -/
def fifoStep (xs : List α) : QueueOp α → Option (List α × QueueAnswer α)
  | .push x => some (xs ++ [x], .done)
  | .pop => if xs = [] then none else some (xs.tail, .done)
  | .reserve _ => some (xs, .done)
  | .clear => some ([], .done)
  | .size => some (xs, .size xs.length)
  | .empty => some (xs, .empty (xs.length = 0))
  | .front => xs.head?.map fun x => (xs, .element x)
  | .back => xs.getLast?.map fun x => (xs, .element x)

/-! ## 2. The ring and the list -/

variable {elems : List (Option α)} {n : Nat}

section Ring

variable {s s' : Queue α} {sizeofT : Nat} {xs ys : List α} {x : α}

/-- The slots from `ifront` on, once round, hold the list. -/
structure Queue.Holds (sizeofT : Nat) (s : Queue α) (xs : List α) : Prop where
  count : s.numelems = xs.length
  slots : s.elems.length = s.bufsize
  fits : s.bufsize * sizeofT < 4294967296
  le : xs.length ≤ s.bufsize
  front : xs ≠ [] → s.ifront < s.bufsize
  rear : xs ≠ [] → s.irear = (s.ifront + (xs.length - 1)) % s.bufsize
  cells : ∀ i x, xs[i]? = some x → slotAt s.elems ((s.ifront + i) % s.bufsize) = some x

theorem slotAt_eq_some {i : Nat} :
    slotAt elems i = some x ↔ elems[i]? = some (some x) := by
  rw [slotAt, join_eq_some_iff]

theorem slotAt_set_ne {i j : Nat} (h : i ≠ j) (o : Option α) :
    slotAt (elems.set i o) j = slotAt elems j := by
  rw [slotAt, slotAt, getElem?_set_ne h]

theorem slotAt_set_self {i : Nat} (h : i < elems.length) (x : α) :
    slotAt (elems.set i (some x)) i = some x := by
  rw [slotAt, getElem?_set_self h, join_some]

/-- Two positions of the list lie in different slots. -/
theorem slot_ne {a i j : Nat} (hij : i < j) (hj : j < n) : (a + i) % n ≠ (a + j) % n := by
  intro e
  have h := Nat.sub_mod_eq_zero_of_mod_eq e.symm
  rw [show a + j - (a + i) = j - i by omega, Nat.mod_eq_of_lt (by omega)] at h
  omega

theorem next_slot {a i : Nat} (hn : 0 < n) :
    (if n ≤ (a + i) % n + 1 then 0 else (a + i) % n + 1) = (a + (i + 1)) % n := by
  have hlt : (a + i) % n < n := Nat.mod_lt _ hn
  rw [wrap_eq_mod hlt, Nat.succ_eq_add_one, Nat.mod_add_mod, Nat.add_assoc]

section

variable (h : s.Holds sizeofT xs)
include h

theorem Queue.Holds.bufsize_lt (hT : 0 < sizeofT) :
    s.bufsize < 4294967296 :=
  lt_of_le_of_lt (Nat.le_mul_of_pos_right _ hT) h.fits

theorem Queue.Holds.numelems_eq_zero : s.numelems = 0 ↔ xs = [] := by
  rw [h.count, length_eq_zero_iff]

theorem Queue.Holds.front_eq : s.front = xs.head? := by
  unfold Queue.front
  cases xs with
  | nil => rw [if_pos (h.numelems_eq_zero.mpr rfl), head?_nil]
  | cons x xs =>
    have hne := cons_ne_nil x xs
    have hcell := h.cells 0 x rfl
    rw [Nat.add_zero, Nat.mod_eq_of_lt (h.front hne)] at hcell
    rw [if_neg (mt h.numelems_eq_zero.mp hne), hcell, head?_cons]

theorem Queue.Holds.back_eq : s.back = xs.getLast? := by
  unfold Queue.back
  by_cases hne : xs = []
  · rw [if_pos (h.numelems_eq_zero.mpr hne), hne, getLast?_nil]
  · have hpos := length_pos_of_ne_nil hne
    rw [if_neg (mt h.numelems_eq_zero.mp hne), h.rear hne, getLast?_eq_getElem?,
      getElem?_eq_getElem (by omega)]
    exact h.cells _ _ (getElem?_eq_getElem (by omega))

end

section

variable (hT : 0 < sizeofT)
include hT

/-- `pop` takes the first element out. -/
theorem Queue.Holds.pop (h : s.Holds sizeofT (x :: xs)) :
    ∃ s', s.pop = some s' ∧ s'.Holds sizeofT xs := by
  have hne := cons_ne_nil x xs
  have hfront := h.front hne
  have hbuf := h.bufsize_lt hT
  have hle := h.le
  rw [length_cons] at hle
  have hnext : wrapIndex s (add32 s.ifront 1) = (s.ifront + 1) % s.bufsize := by
    rw [add32_eq (by omega), wrapIndex, wrap_eq_mod (by omega)]
  unfold Queue.pop
  rw [h.front_eq]
  refine ⟨_, rfl, ?_⟩
  refine ⟨?_, ?_, h.fits, by dsimp only; omega, ?_, ?_, ?_⟩
  · exact congrArg (· - 1) h.count
  · exact (length_set).trans h.slots
  · intro _
    dsimp only
    rw [hnext]
    exact Nat.mod_lt _ (by omega)
  · intro hxs
    have hpos := length_pos_of_ne_nil hxs
    dsimp only
    rw [hnext, h.rear hne, length_cons, Nat.mod_add_mod]
    congr 1
    omega
  · intro i y hy
    have hi : i < xs.length := (List.getElem?_eq_some_iff.mp hy).1
    dsimp only
    rw [hnext, Nat.mod_add_mod, Nat.add_assoc, Nat.add_comm 1 i, slotAt_set_ne]
    · exact h.cells (i + 1) y hy
    · have := slot_ne (a := s.ifront) (Nat.succ_pos i) (show i + 1 < s.bufsize by omega)
      rwa [Nat.add_zero, Nat.mod_eq_of_lt hfront] at this

/-- The loop of `reserve` copies the list behind what it copied before. -/
theorem transfer_holds (h : s.Holds sizeofT xs) {rest : List (Option α)}
    (hroom : xs.length ≤ rest.length) :
    transfer xs.length s (ys.map some ++ rest) ys.length =
      some ((ys ++ xs).map some ++ rest.drop xs.length, ys.length + xs.length) := by
  induction xs generalizing s ys rest with
  | nil => rw [length_nil, append_nil, drop_zero]; rfl
  | cons x xs ih =>
    obtain ⟨s', hs', h'⟩ := h.pop hT
    rw [length_cons] at hroom ⊢
    obtain ⟨o, rest, rfl⟩ := exists_cons_of_ne_nil (l := rest) (by rintro rfl; simp at hroom)
    have hset : constructAt (ys.map some ++ o :: rest) ys.length x =
        some ((ys ++ [x]).map some ++ rest) := by
      rw [constructAt, if_pos (by simp), set_append_right _ _ (by simp)]
      simp
    have hlen : (ys ++ [x]).length = ys.length + 1 := by
      rw [length_append, length_singleton]
    rw [transfer, h.front_eq, head?_cons, bind_some, hset, bind_some, hs',
      bind_some, ← hlen, ih h' (Nat.le_of_succ_le_succ (by simpa using hroom)), hlen,
      append_assoc, singleton_append, drop_succ_cons]
    congr 2
    omega

theorem allocateSlots_eq (h : n * sizeofT < 4294967296) :
    (allocateSlots sizeofT n : List (Option α)) = replicate n none := by
  rw [allocateSlots, mul32_eq h, Nat.mul_div_cancel _ hT]

/-- What `reserve` leaves behind, whatever the indices were: the list from slot 0 on. -/
theorem Queue.Holds.reserve (h : s.Holds sizeofT xs)
    (hn : s.bufsize < n) (hfits : n * sizeofT < 4294967296) :
    ∃ s', s.reserve sizeofT n = some s' ∧ s'.Holds sizeofT xs ∧ s'.bufsize = n ∧ s'.ifront = 0 ∧
      (xs = [] → s'.irear = n - 1) := by
  have hle := h.le
  have hroom : xs.length ≤ (replicate n (none : Option α)).length := by
    rw [length_replicate]
    omega
  have hcopy := @transfer_holds _ _ _ _ [] hT h _ hroom
  rw [map_nil, nil_append, length_nil, nil_append, Nat.zero_add,
    drop_replicate] at hcopy
  unfold Queue.reserve
  rw [if_pos hn, allocateSlots_eq hT hfits, h.count, hcopy, map_some]
  refine ⟨_, rfl, ⟨rfl, ?_, hfits, by dsimp only; omega, fun _ => by dsimp only; omega, ?_, ?_⟩,
    rfl, rfl, ?_⟩
  · dsimp only
    rw [length_append, length_map, length_replicate]
    omega
  · intro hne
    have hpos := length_pos_of_ne_nil hne
    dsimp only
    rw [if_pos hpos, Nat.zero_add, Nat.mod_eq_of_lt (by omega)]
  · intro i y hy
    have hi : i < xs.length := (List.getElem?_eq_some_iff.mp hy).1
    dsimp only
    rw [Nat.zero_add, Nat.mod_eq_of_lt (by omega), slotAt_eq_some,
      getElem?_append_left (by rwa [length_map]), getElem?_map, hy]
    rfl
  · rintro rfl
    rfl

/-- An element put in the slot behind the last one. -/
theorem Queue.Holds.put (h : s.Holds sizeofT xs) (hroom : xs.length < s.bufsize)
    (hempty : xs = [] → wrapIndex s (add32 s.irear 1) = s.ifront) (x : α) :
    ∃ elems, constructAt s.elems (wrapIndex s (add32 s.irear 1)) x = some elems ∧
      Queue.Holds sizeofT { s with irear := wrapIndex s (add32 s.irear 1), elems := elems
                                   numelems := add32 s.numelems 1 } (xs ++ [x]) := by
  have hbuf := h.bufsize_lt hT
  have hpos : 0 < s.bufsize := by omega
  have hslot : wrapIndex s (add32 s.irear 1) < s.bufsize := by
    unfold wrapIndex
    split <;> omega
  have hfront : s.ifront < s.bufsize := by
    by_cases hne : xs = []
    · rwa [← hempty hne]
    · exact h.front hne
  have hrear : wrapIndex s (add32 s.irear 1) = (s.ifront + xs.length) % s.bufsize := by
    by_cases hne : xs = []
    · rw [hempty hne, hne, length_nil, Nat.add_zero, Nat.mod_eq_of_lt hfront]
    · have hlen := length_pos_of_ne_nil hne
      have hr := h.rear hne
      have hlt : s.irear < s.bufsize := by rw [hr]; exact Nat.mod_lt _ hpos
      rw [add32_eq (by omega), wrapIndex, hr, next_slot hpos,
        show xs.length - 1 + 1 = xs.length by omega]
  have hcount : add32 s.numelems 1 = (xs ++ [x]).length := by
    rw [add32_eq (by rw [h.count]; omega), h.count, length_append, length_singleton]
  refine ⟨_, if_pos (by rwa [h.slots]), hcount, ?_, h.fits, ?_, fun _ => hfront, fun _ => ?_, ?_⟩
  · exact (length_set).trans h.slots
  · rw [length_append, length_singleton]
    exact hroom
  · rw [length_append, length_singleton, Nat.add_sub_cancel]
    exact hrear
  · intro i y hy
    dsimp only
    rcases Nat.lt_or_ge i xs.length with hi | hi
    · rw [getElem?_append_left hi] at hy
      rw [hrear, slotAt_set_ne (Ne.symm (slot_ne hi hroom))]
      exact h.cells i y hy
    · have hi' := (List.getElem?_eq_some_iff.mp hy).1
      rw [length_append, length_singleton] at hi'
      have e : i = xs.length := by omega
      subst e
      rw [getElem?_append_right (Nat.le_refl _), Nat.sub_self] at hy
      cases hy
      rw [hrear]
      exact slotAt_set_self (by rw [h.slots, ← hrear]; exact hslot) x

theorem Queue.Holds.clear (h : s.Holds sizeofT xs) :
    ∃ s', clearLoop xs.length s = some s' ∧ s'.Holds sizeofT [] := by
  induction xs generalizing s with
  | nil => exact ⟨s, rfl, h⟩
  | cons x xs ih =>
    obtain ⟨s₁, hs₁, h₁⟩ := h.pop hT
    obtain ⟨s', hs', h'⟩ := ih h₁
    exact ⟨s', by rw [length_cons, clearLoop, hs₁, bind_some, hs'], h'⟩

end

end Ring

/-! ## 3. Runs -/

section Runs

variable {s s' : Queue α} {sizeofT : Nat} {xs : List α}

/-- A call that keeps the ring a FIFO list: the size of a new block in bytes does not wrap, and a
    `push` into an empty queue that has room finds `irear` just before `ifront`. -/
def soundCall (sizeofT : Nat) (s : Queue α) : QueueOp α → Bool
  | .push _ =>
    if s.numelems = s.bufsize then
      decide ((s.bufsize + if 16 < s.bufsize then s.bufsize / 4 else 4) * sizeofT < 4294967296)
    else decide (s.numelems ≠ 0) || decide (wrapIndex s (add32 s.irear 1) = s.ifront)
  | .reserve n => decide (n ≤ s.bufsize) || decide (n * sizeofT < 4294967296)
  | _ => true

theorem Queue.Holds.init (hT : 0 < sizeofT) (hn : n * sizeofT < 4294967296)
    (ifront irear : Nat) :
    Queue.Holds sizeofT (Queue.init sizeofT n ifront irear : Queue α) [] := by
  refine ⟨rfl, ?_, hn, Nat.zero_le _, fun h => absurd rfl h, fun h => absurd rfl h,
    fun _ _ h => by cases h⟩
  unfold Queue.init
  dsimp only
  split
  · rename_i h
    rw [h, length_nil]
  · rw [allocateSlots_eq hT hn, length_replicate]

theorem Queue.Holds.push (hT : 0 < sizeofT) (h : s.Holds sizeofT xs) {x : α}
    (hok : soundCall sizeofT s (.push x)) :
    ∃ s', s.push sizeofT x = some s' ∧ s'.Holds sizeofT (xs ++ [x]) := by
  unfold Queue.push
  unfold soundCall at hok
  by_cases hfull : s.numelems = s.bufsize
  · -- a full ring grows, and what `reserve` leaves has `irear` just before `ifront`
    simp only [if_pos hfull, decide_eq_true_iff] at hok
    have hfits : (s.bufsize + if 16 < s.bufsize then s.bufsize / 4 else 4) < 4294967296 :=
      lt_of_le_of_lt (Nat.le_mul_of_pos_right _ hT) hok
    have hgrown : grownSize s.bufsize = s.bufsize + if 16 < s.bufsize then s.bufsize / 4 else 4 :=
      add32_eq hfits
    have hlt : s.bufsize < grownSize s.bufsize := by
      rw [hgrown]
      split <;> omega
    rw [← hgrown] at hok hfits
    obtain ⟨s₁, hs₁, h₁, hbuf, hfront, hrear⟩ := h.reserve hT hlt hok
    have hroom : xs.length < s₁.bufsize := by
      rw [hbuf, ← h.count, hfull]
      exact hlt
    obtain ⟨elems, he, h'⟩ := h₁.put hT hroom (fun hnil => by
      rw [hrear hnil, hfront, add32_eq (by omega), wrapIndex, hbuf, if_pos (by omega)]) x
    rw [if_pos hfull, hs₁, bind_some]
    exact ⟨_, by dsimp only; rw [he, map_some], h'⟩
  · simp only [if_neg hfull, Bool.or_eq_true, decide_eq_true_iff] at hok
    have hroom : xs.length < s.bufsize := lt_of_le_of_ne h.le (by rwa [← h.count])
    obtain ⟨elems, he, h'⟩ := h.put hT hroom (fun hnil =>
      hok.resolve_left (not_not.mpr (h.numelems_eq_zero.mpr hnil))) x
    rw [if_neg hfull, bind_some]
    exact ⟨_, by dsimp only; rw [he, map_some], h'⟩

/-- **One call**: where it is sound, and the list has the element it asks for, it answers what the
    list says and leaves the ring with the list's new contents. -/
theorem queueStep_holds (hT : 0 < sizeofT) (h : s.Holds sizeofT xs) {op : QueueOp α}
    (hok : soundCall sizeofT s op) {xs' : List α} {a : QueueAnswer α}
    (hf : fifoStep xs op = some (xs', a)) :
    ∃ s', queueStep sizeofT s op = some (s', a) ∧ s'.Holds sizeofT xs' := by
  cases op with
  | push x =>
    cases hf
    obtain ⟨s', hs', h'⟩ := h.push hT hok
    exact ⟨s', by rw [queueStep, hs', map_some], h'⟩
  | pop =>
    by_cases hne : xs = []
    · rw [fifoStep, if_pos hne] at hf
      cases hf
    · rw [fifoStep, if_neg hne] at hf
      cases hf
      obtain ⟨x, xs, rfl⟩ := exists_cons_of_ne_nil hne
      obtain ⟨s', hs', h'⟩ := h.pop hT
      exact ⟨s', by rw [queueStep, hs', map_some], h'⟩
  | reserve n =>
    cases hf
    rcases Nat.lt_or_ge s.bufsize n with hn | hn
    · simp only [soundCall, Bool.or_eq_true, decide_eq_true_iff] at hok
      obtain ⟨s', hs', h', -⟩ := h.reserve hT hn (hok.resolve_left (Nat.not_le.mpr hn))
      exact ⟨s', by rw [queueStep, hs', map_some], h'⟩
    · exact ⟨s, by rw [queueStep, Queue.reserve, if_neg (Nat.not_lt.mpr hn)]; rfl, h⟩
  | clear =>
    cases hf
    obtain ⟨s', hs', h'⟩ := h.clear hT
    exact ⟨s', by rw [queueStep, Queue.clear, h.count, hs']; rfl, h'⟩
  | size | empty =>
    cases hf
    exact ⟨s, by rw [queueStep, h.count], h⟩
  | front =>
    obtain ⟨x, hx, e⟩ := map_eq_some_iff.mp hf
    cases e
    exact ⟨s, by rw [queueStep, h.front_eq, hx]; rfl, h⟩
  | back =>
    obtain ⟨x, hx, e⟩ := map_eq_some_iff.mp hf
    cases e
    exact ⟨s, by rw [queueStep, h.back_eq, hx]; rfl, h⟩

/-- The code is undefined where an empty list has no element. -/
theorem fifoStep_isSome (h : s.Holds sizeofT xs) {op : QueueOp α} {a : Queue α × QueueAnswer α}
    (hs : queueStep sizeofT s op = some a) : (fifoStep xs op).isSome := by
  cases op with
  | pop =>
    obtain ⟨s', hs', -⟩ := map_eq_some_iff.mp hs
    obtain ⟨x, hx, -⟩ := map_eq_some_iff.mp hs'
    rw [h.front_eq] at hx
    rw [fifoStep, if_neg (by rintro rfl; cases hx)]
    rfl
  | front =>
    obtain ⟨x, hx, -⟩ := map_eq_some_iff.mp hs
    rw [h.front_eq] at hx
    rw [fifoStep, hx]
    rfl
  | back =>
    obtain ⟨x, hx, -⟩ := map_eq_some_iff.mp hs
    rw [h.back_eq] at hx
    rw [fifoStep, hx]
    rfl
  | _ => rfl

/-- One call of the code, with its answer. -/
def QueueStep (sizeofT : Nat) (s : Queue α) (l : QueueOp α × QueueAnswer α) (s' : Queue α) :
    Prop :=
  queueStep sizeofT s l.1 = some (s', l.2)

/-- One call on the list, with its answer. -/
def FifoStep (xs : List α) (l : QueueOp α × QueueAnswer α) (xs' : List α) : Prop :=
  fifoStep xs l.1 = some (xs', l.2)

/-- **The ring is a FIFO list all along every run of sound calls**, whatever the constructor left
    in the indices: it answers what the list answers, and every further sound call that the list
    can answer is defined, so no index it uses lies outside the buffer. -/
theorem fifo_of_sound_run (sizeofT n ifront irear : Nat) (hT : 0 < sizeofT)
    (hn : n * sizeofT < 4294967296) {ls : List (QueueOp α × QueueAnswer α)} {s : Queue α}
    (hr : Run (onlyWhen (fun s l => soundCall sizeofT s l.1) (QueueStep sizeofT))
      (Queue.init sizeofT n ifront irear) ls s) :
    ∃ xs, Run FifoStep [] ls xs ∧ s.Holds sizeofT xs ∧
      ∀ op, soundCall sizeofT s op → (fifoStep xs op).isSome → (queueStep sizeofT s op).isSome := by
  have hsim : ∀ (s : Queue α) l s' xs, s.Holds sizeofT xs →
      onlyWhen (fun s l => soundCall sizeofT s l.1) (QueueStep sizeofT) s l s' →
      ∃ xs', FifoStep xs l xs' ∧ s'.Holds sizeofT xs' := by
    rintro s l s' xs h ⟨hok, hs⟩
    obtain ⟨⟨xs', a⟩, hf⟩ := isSome_iff_exists.mp (fifoStep_isSome h hs)
    obtain ⟨s₁, hs₁, h₁⟩ := queueStep_holds hT h hok hf
    rw [QueueStep, hs₁, Option.some.injEq, Prod.mk.injEq] at hs
    obtain ⟨rfl, rfl⟩ := hs
    exact ⟨xs', hf, h₁⟩
  obtain ⟨xs, hrun, h⟩ := Run.simulate (Queue.Holds.init hT hn ifront irear) hsim hr
  refine ⟨xs, hrun, h, fun op hok hf => ?_⟩
  obtain ⟨⟨xs', a⟩, hf⟩ := isSome_iff_exists.mp hf
  obtain ⟨s', hs', -⟩ := queueStep_holds hT h hok hf
  rw [hs', isSome_some]

end Runs

/-- A queue of capacity 3 with `irear` just before `ifront`: it wraps round and grows while it is
    wrapped. -/
theorem fifo_of_sound_run_nat : ∃ s : Queue Nat, ∃ xs : List Nat, s.Holds 4 xs ∧
    Run FifoStep []
      [(.push 1, .done), (.push 2, .done), (.pop, .done), (.push 3, .done), (.push 4, .done),
        (.push 5, .done), (.front, .element 2), (.back, .element 5), (.size, .size 4),
        (.reserve 9, .done), (.clear, .done), (.push 6, .done)] xs := by
  have hsome : (execAll
      (guarded (fun s l => soundCall 4 s l.1 = true) (answering (queueStep 4)))
      (Queue.init 4 3 2 1)
      [(.push 1, .done), (.push 2, .done), (.pop, .done), (.push 3, .done), (.push 4, .done),
        (.push 5, .done), (.front, .element 2), (.back, .element 5), (.size, .size 4),
        (.reserve 9, .done), (.clear, .done), (.push 6, .done)]).isSome := by
    decide +kernel
  obtain ⟨s, hs⟩ := isSome_iff_exists.mp hsome
  have hr : Run (onlyWhen (fun s l => soundCall 4 s l.1) (QueueStep 4)) _ _ _ :=
    (Run.of_guarded hs).mono fun _ _ _ h => ⟨h.1, answering_eq_some.mp h.2⟩
  obtain ⟨xs, hrun, h, -⟩ := fifo_of_sound_run 4 3 2 1 (by decide) (by decide) hr
  exact ⟨s, xs, h, hrun⟩

/-- A queue built with capacity 4, its indices unset: the second element comes out first. -/
theorem unset_indices_reorder :
    (∃ s : Queue Nat, Run (QueueStep 4) (Queue.init 4 4 2 0)
      [(.push 7, .done), (.push 8, .done), (.front, .element 8)] s) ∧
    ¬ ∃ xs : List Nat, Run FifoStep []
      [(.push 7, .done), (.push 8, .done), (.front, .element 8)] xs := by
  constructor
  · have hsome : (execAll (answering (queueStep 4)) (Queue.init 4 4 2 0)
        [(.push 7, .done), (.push 8, .done), (.front, .element 8)]).isSome := by decide +kernel
    obtain ⟨s, hs⟩ := isSome_iff_exists.mp hsome
    exact ⟨s, (Run.of_execAll hs).mono fun _ _ _ h => answering_eq_some.mp h⟩
  · rintro ⟨xs, hr⟩
    have hrun : Run (stepsOf (answering fifoStep)) _ _ _ :=
      hr.mono fun _ _ _ h => answering_eq_some.mpr h
    have hnone : execAll (answering fifoStep) ([] : List Nat)
        [(.push 7, .done), (.push 8, .done), (.front, .element 8)] = none := by decide
    rw [hrun.execAll_eq] at hnone
    cases hnone

end OpenCore.OsclBase
