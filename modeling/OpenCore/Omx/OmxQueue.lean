/-
  File:      OpenCore/Omx/OmxQueue.lean
  Subject:   THE QUEUE OF THE OMX COMPONENTS (pv_omx_queue.cpp, pv_omx_queue.h): a ring of linked
             elements, which grows by one where it is full.

  The elements lie in memory under addresses. A call that allocates is given what the allocator hands
  out: an address or nothing. A call is undefined (`none`) where it dereferences a null or freed
  pointer, where a signed 32-bit count leaves its range, and where an address handed out is in use.

  * `Holds`: the ring from `pFirst` on, the elements with data in front and the free ones behind;
  * `run_kept`: every call keeps it, and answers as a list with two ends does.

  **Main result**: `queue_run`.
-/
import OpenCore.Lib.LinkedRing
import OpenCore.Lib.Run

namespace OpenCore.Omx

open List
open Prod (fst)
open Function (update update_comm update_of_ne update_self)

variable {α : Type}

/-! ## 1. The code -/

def MAX_QUEUE_ELEMENTS : Nat := 12

inductive OMX_ERRORTYPE where
  | OMX_ErrorNone
  | OMX_ErrorInsufficientResources
  deriving DecidableEq, Repr

/-- `pQueueNext` is the link; `pData` is no data where it is NULL. -/
abbrev QueueElement (α : Type) := Cell Nat (Option α)

/-- `QueueType`, and the memory its elements lie in. -/
structure QueueType (α : Type) where
  mem : Nat → Option (QueueElement α)
  pFirst : Option Nat
  pLast : Option Nat
  NumElem : Int
  NumElemAdded : Int

/-- A sum in `OMX_S32`. -/
def addS32 (a b : Int) : Option Int :=
  if -2147483648 ≤ a + b ∧ a + b ≤ 2147483647 then some (a + b) else none

namespace QueueType

/-- `oscl_malloc` of an element at the address `p`, and `oscl_memset`. -/
def alloc (q : QueueType α) (p : Nat) : Option (QueueType α) :=
  if (q.mem p).isNone then some { q with mem := update q.mem p (some ⟨none, none⟩) }
  else none

/-- `elem->pQueueNext = next`. -/
def setNext (q : QueueType α) (elem next : Option Nat) : Option (QueueType α) := do
  let a ← elem
  let c ← q.mem a
  return { q with mem := update q.mem a (some ⟨next, c.data⟩) }

/-- `elem->pData = aData`. -/
def setData (q : QueueType α) (elem : Option Nat) (aData : Option α) : Option (QueueType α) := do
  let a ← elem
  let c ← q.mem a
  return { q with mem := update q.mem a (some ⟨c.next, aData⟩) }

/-- `oscl_free`. -/
def free (q : QueueType α) : Option Nat → Option (QueueType α)
  | none => some q
  | some a =>
    if (q.mem a).isSome then some { q with mem := update q.mem a none } else none

/-- The loop of `QueueInit`: `left` more elements, the first from the call `ii` to the allocator. -/
def initLoop (ptr : Nat → Option Nat) :
    Nat → Nat → QueueType α → Option (QueueType α × OMX_ERRORTYPE)
  | 0, _, q => some (q, .OMX_ErrorNone)
  | left + 1, ii, q =>
    match ptr ii with
    | none => some (q, .OMX_ErrorInsufficientResources)
    | some pTempQElement => do
        let q ← q.alloc pTempQElement
        let q ← q.setNext q.pLast (some pTempQElement)
        initLoop ptr left (ii + 1) { q with pLast := some pTempQElement }

/-- `QueueInit`, where `ptr` is what the allocator hands out call by call. -/
def QueueInit (q : QueueType α) (ptr : Nat → Option Nat) :
    Option (QueueType α × OMX_ERRORTYPE) := do
  let q := { q with pFirst := none }
  match ptr 0 with
  | none => return (q, .OMX_ErrorInsufficientResources)
  | some p =>
    let q ← q.alloc p
    let q := { q with pFirst := some p, pLast := some p, NumElem := 0, NumElemAdded := 0 }
    let (q, status) ← initLoop ptr (MAX_QUEUE_ELEMENTS - 1) 1 q
    if status ≠ .OMX_ErrorNone then return (q, status)
    let q ← q.setNext q.pLast q.pFirst
    return ({ q with pLast := q.pFirst }, .OMX_ErrorNone)

/-- `AddQueueElem`. -/
def AddQueueElem (q : QueueType α) (ptr : Option Nat) : Option (QueueType α × Bool) :=
  match ptr with
  | none => some (q, false)
  | some pTempQElement => do
      let q ← q.alloc pTempQElement
      let q ← q.setNext q.pLast (some pTempQElement)
      let q ← q.setNext (some pTempQElement) q.pFirst
      return ({ q with NumElemAdded := ← addS32 q.NumElemAdded 1 }, true)

/-- The loop of `QueueDeinit`, and what it frees in order. -/
def deinitLoop : Nat → QueueType α → Option Nat → Option (QueueType α × List Nat)
  | 0, q, _ => some (q, [])
  | n + 1, q, none => deinitLoop n q none
  | n + 1, q, some p => do
      let c ← q.mem p
      let pTempQElement := c.next
      let freed := q.pFirst
      let q ← q.free freed
      let (q, rest) ← deinitLoop n { q with pFirst := pTempQElement } pTempQElement
      return (q, freed.toList ++ rest)

def QueueDeinit (q : QueueType α) : Option (QueueType α × List Nat) := do
  let QueueElemCount ← addS32 q.NumElemAdded MAX_QUEUE_ELEMENTS
  deinitLoop QueueElemCount.toNat q q.pFirst

/-- The first lines of `Queue`: an element is added where all have data. -/
def makeRoom (q : QueueType α) (ptr : Option Nat) : Option (QueueType α × Bool) := do
  if q.NumElem = (← addS32 MAX_QUEUE_ELEMENTS q.NumElemAdded) then q.AddQueueElem ptr
  else return (q, true)

/-- `pLast` goes on where there are data behind which the new ones come. -/
def advance (q : QueueType α) : Option (QueueType α) :=
  if q.NumElem ≠ 0 then do
    let c ← q.mem (← q.pLast)
    return { q with pLast := c.next }
  else some q

def Queue (q : QueueType α) (aData : Option α) (ptr : Option Nat) :
    Option (QueueType α × OMX_ERRORTYPE) := do
  let (q, room) ← q.makeRoom ptr
  if room = false then return (q, .OMX_ErrorInsufficientResources)
  let q ← q.advance
  let q ← q.setData q.pLast aData
  return ({ q with NumElem := ← addS32 q.NumElem 1 }, .OMX_ErrorNone)

/-- `DeQueue`, with the data it returns, none for NULL. -/
def DeQueue (q : QueueType α) : Option (QueueType α × Option α) := do
  let c ← q.mem (← q.pFirst)
  match c.data with
  | none => return (q, none)
  | some pData =>
    let q ← q.setData q.pFirst none
    let c ← q.mem (← q.pFirst)
    let q := { q with pFirst := c.next, NumElem := ← addS32 q.NumElem (-1) }
    return (if 0 = q.NumElem then { q with pLast := q.pFirst } else q, some pData)

def GetQueueNumElem (q : QueueType α) : Int := q.NumElem

end QueueType

/-- The calls on a queue: with data, and with what the allocator hands out if it is asked. -/
inductive QueueCall (α : Type) where
  | queue (aData : α) (ptr : Option Nat)
  | deQueue
  deriving DecidableEq, Repr

inductive QueueAnswer (α : Type) where
  | status (e : OMX_ERRORTYPE)
  | data (pData : Option α)
  deriving DecidableEq, Repr

def queueCall (q : QueueType α) : QueueCall α → Option (QueueType α × QueueAnswer α)
  | .queue aData ptr => (q.Queue (some aData) ptr).map fun r => (r.1, .status r.2)
  | .deQueue => q.DeQueue.map fun r => (r.1, .data r.2)

/-- A call with its answer. -/
def QueueStep (q : QueueType α) (l : QueueCall α × QueueAnswer α) (q' : QueueType α) : Prop :=
  queueCall q l.1 = some (q', l.2)

/-! ## 2. The ring of a queue -/

section Results

variable {q q' : QueueType α} {a : Nat}

theorem alloc_eq_some (h : q.alloc a = some q') :
    q.mem a = none ∧ q' = { q with mem := update q.mem a (some ⟨none, none⟩) } := by
  obtain ⟨hnone, he⟩ := Option.ite_none_right_eq_some.mp h
  exact ⟨Option.isNone_iff_eq_none.mp hnone, (Option.some.inj he).symm⟩

/-- A link is written into an element that there is, and nothing else is changed. -/
theorem setNext_eq_some {elem next : Option Nat} (h : q.setNext elem next = some q') :
    ∃ b c, q.mem b = some c ∧
      q' = { q with mem := update q.mem b (some ⟨next, c.data⟩) } := by
  simp only [QueueType.setNext, Option.bind_eq_bind, Option.bind_eq_some_iff] at h
  obtain ⟨b, -, c, hc, he⟩ := h
  exact ⟨b, c, hc, (Option.some.inj he).symm⟩

/-- There is no room only where the allocator has nothing, and nothing is changed then. -/
theorem makeRoom_eq_some {ptr : Option Nat} {room : Bool} (h : q.makeRoom ptr = some (q', room)) :
    q'.NumElem = q.NumElem ∧ (room = false → ptr = none ∧ q' = q) := by
  simp only [QueueType.makeRoom, Option.bind_eq_bind, Option.bind_eq_some_iff] at h
  obtain ⟨n, -, h⟩ := h
  split at h
  · cases ptr with
    | none =>
      cases h
      exact ⟨rfl, fun _ => ⟨rfl, rfl⟩⟩
    | some b =>
      simp only [QueueType.AddQueueElem, Option.bind_eq_bind, Option.bind_eq_some_iff] at h
      obtain ⟨q₁, halloc, q₂, hnext, q₃, hback, m, -, he⟩ := h
      obtain ⟨-, rfl⟩ := alloc_eq_some halloc
      obtain ⟨_, _, _, rfl⟩ := setNext_eq_some hnext
      obtain ⟨_, _, _, rfl⟩ := setNext_eq_some hback
      cases he
      exact ⟨rfl, fun hfalse => by cases hfalse⟩
  · cases h
    exact ⟨rfl, fun hfalse => by cases hfalse⟩

/-- A call that fails had nothing from the allocator, and has changed nothing. -/
theorem queue_insufficient {aData : Option α} {ptr : Option Nat}
    (h : q.Queue aData ptr = some (q', .OMX_ErrorInsufficientResources)) :
    ptr = none ∧ q' = q := by
  simp only [QueueType.Queue, Option.bind_eq_bind, Option.bind_eq_some_iff] at h
  obtain ⟨⟨q₁, room⟩, hroom, hrest⟩ := h
  cases room with
  | true =>
    simp only [Bool.true_eq_false, if_false, Option.bind_eq_some_iff] at hrest
    obtain ⟨q₂, -, q₃, -, n, -, he⟩ := hrest
    cases (Prod.mk.inj (Option.some.inj he)).2
  | false =>
    cases hrest
    exact (makeRoom_eq_some hroom).2 rfl

end Results

/-- The elements with data, and the free ones behind them. -/
def cells (full : List (Nat × α)) (empty : List Nat) : List (Nat × Option α) :=
  full.map (fun x => (x.1, some x.2)) ++ empty.map fun a => (a, none)

theorem cells_addresses (full : List (Nat × α)) (empty : List Nat) :
    (cells full empty).map fst = full.map fst ++ empty := by
  rw [cells, map_append, map_map, map_map]
  exact congrArg _ (map_id' empty)

structure Holds (q : QueueType α) (full : List (Nat × α)) (empty : List Nat) : Prop where
  ring : ∃ p, q.pFirst = some p ∧ LinkedRing q.mem p (cells full empty)
  last : q.pLast = (lastAddr full).or q.pFirst
  count : q.NumElem = full.length
  added : MAX_QUEUE_ELEMENTS + q.NumElemAdded = ((full.length + empty.length : Nat) : Int)
  enough : MAX_QUEUE_ELEMENTS ≤ full.length + empty.length
  fits : full.length + empty.length ≤ 2147483647

theorem addS32_eq {a b : Int} (h : -2147483648 ≤ a + b) (h' : a + b ≤ 2147483647) :
    addS32 a b = some (a + b) :=
  if_pos ⟨h, h'⟩

section Calls

variable {q : QueueType α} {full : List (Nat × α)} {empty : List Nat} {a : Nat} {x : α}

/-- The queue compares its count with the number of its elements. -/
theorem Holds.makeRoom (h : Holds q full empty) (ptr : Option Nat) :
    q.makeRoom ptr = if empty = [] then q.AddQueueElem ptr else some (q, true) := by
  have hfits := h.fits
  have hadded := h.added
  have hiff : q.NumElem = ((full.length + empty.length : Nat) : Int) ↔ empty = [] := by
    rw [h.count, ← length_eq_zero_iff]
    omega
  rw [QueueType.makeRoom, addS32_eq (by omega) (by omega), hadded]
  by_cases he : empty = []
  · rw [if_pos he]
    exact if_pos (hiff.mpr he)
  · rw [if_neg he]
    exact if_neg (mt hiff.mp he)

/-- `pLast` gets to the first of the free elements. -/
theorem Holds.advance (h : Holds q full (a :: empty)) :
    q.advance = some { q with pLast := some a } := by
  obtain ⟨p, hp, hring⟩ := h.ring
  have hlast := h.last
  have hcount := h.count
  unfold QueueType.advance
  rcases lastAddr_cases full with ⟨rfl, -⟩ | ⟨l, x, rfl, haddr⟩
  · -- nothing queued: it is there already
    have hpa : a = p := hring.first
    have hlast' : q.pLast = some a := by rw [hlast, hp, hpa]; rfl
    rw [if_neg (by rw [hcount]; simp), ← hlast']
  · have hne : q.NumElem ≠ 0 := by
      rw [hcount, length_append, length_singleton]
      omega
    have hcell : q.mem x.1 = some ⟨some a, some x.2⟩ := by
      have hsplit : cells (l ++ [x]) (a :: empty) = l.map (fun x => (x.1, some x.2)) ++
          (x.1, some x.2) :: (a, none) :: empty.map fun a => (a, none) := by
        simp [cells]
      rw [hsplit] at hring
      exact hring.link
    have hlast' : q.pLast = some x.1 := by rw [hlast, haddr]; rfl
    rw [if_pos hne, hlast']
    simp only [Option.bind_eq_bind, Option.bind_some, hcell, Option.pure_def]

/-- **Data are queued** in the first of the free elements. -/
theorem Holds.store (h : Holds q full (a :: empty)) (x : α) :
    ∃ q', ({ q with pLast := some a }).setData (some a) (some x) = some q' ∧
      Holds { q' with NumElem := q.NumElem + 1 } (full ++ [(a, x)]) empty ∧
      (∀ b, q.mem b = none → q'.mem b = none) ∧ q'.NumElem = q.NumElem := by
  obtain ⟨p, hp, hring⟩ := h.ring
  have hcount := h.count
  have hadded := h.added
  have henough := h.enough
  have hfits := h.fits
  rw [cells, map_cons] at hring
  obtain ⟨n, hn⟩ := hring.mem_eq
  refine ⟨{ q with mem := update q.mem a (some ⟨n, some x⟩), pLast := some a }, ?_,
    ⟨⟨p, hp, ?_⟩, ?_, ?_, ?_, ?_, ?_⟩, fun b hb => ?_, rfl⟩
  · simp only [QueueType.setData, hn, Option.bind_eq_bind, Option.bind_some, Option.pure_def]
  · have hset := hring.setData (d := some x) hn
    have hsplit : cells (full ++ [(a, x)]) empty = full.map (fun x => (x.1, some x.2)) ++
        (a, some x) :: empty.map fun a => (a, none) := by
      simp [cells]
    rw [hsplit]
    exact hset
  · rw [lastAddr_concat]
    rfl
  · show q.NumElem + 1 = ((full ++ [(a, x)]).length : Int)
    rw [hcount, length_append, length_singleton]
    push_cast
    rfl
  · rw [length_cons] at hadded
    rw [length_append, length_singleton]
    show (MAX_QUEUE_ELEMENTS : Int) + q.NumElemAdded = _
    omega
  · rw [length_cons] at henough
    rw [length_append, length_singleton]
    omega
  · rw [length_cons] at hfits
    rw [length_append, length_singleton]
    omega
  · have hba : b ≠ a := by
      rintro rfl
      rw [hn] at hb
      cases hb
    exact (update_of_ne hba ..).trans hb

theorem Holds.queue (h : Holds q full (a :: empty)) (x : α) (ptr : Option Nat) :
    ∃ q', q.Queue (some x) ptr = some (q', .OMX_ErrorNone) ∧ Holds q' (full ++ [(a, x)]) empty ∧
      ∀ b, q.mem b = none → q'.mem b = none := by
  obtain ⟨q', hset, h', hframe, hnum⟩ := h.store x
  have hfits := h.fits
  have hcount := h.count
  have hroom := h.makeRoom ptr
  rw [if_neg (cons_ne_nil a empty)] at hroom
  rw [length_cons] at hfits
  refine ⟨_, ?_, h', hframe⟩
  simp only [QueueType.Queue, hroom, h.advance, hset, hnum, Option.bind_eq_bind, Option.bind_some,
    Option.pure_def, addS32_eq (a := q.NumElem) (b := 1) (by omega) (by omega)]
  rfl

section

variable (h : Holds q full [])
include h

/-- A full ring has a last element. -/
theorem Holds.full_last : ∃ l x, full = l ++ [x] ∧ q.pLast = some x.1 := by
  have henough := h.enough
  have hlast := h.last
  rcases lastAddr_cases full with ⟨rfl, -⟩ | ⟨l, x, rfl, haddr⟩
  · simp [MAX_QUEUE_ELEMENTS] at henough
  · rw [haddr] at hlast
    exact ⟨l, x, rfl, hlast⟩

/-- **The ring grows** between its last element and its first. -/
theorem Holds.addQueueElem (ha : q.mem a = none)
    (hfits : full.length < 2147483647) :
    ∃ q', q.AddQueueElem (some a) = some (q', true) ∧ Holds q' full [a] ∧
      ∀ b, b ≠ a → q.mem b = none → q'.mem b = none := by
  obtain ⟨p, hp, hring⟩ := h.ring
  obtain ⟨l, x, rfl, hlast⟩ := h.full_last
  have hadded := h.added
  have henough := h.enough
  rw [length_nil, Nat.add_zero] at hadded henough
  have hcells : cells (l ++ [x]) [] = l.map (fun x => (x.1, some x.2)) ++ [(x.1, some x.2)] := by
    simp [cells]
  rw [hcells] at hring
  have hx : q.mem x.1 = some ⟨some p, some x.2⟩ := hring.link_last
  have hxa : x.1 ≠ a := by
    intro e
    rw [e, ha] at hx
    cases hx
  have hfresh : a ∉ (l.map (fun x => (x.1, some x.2)) ++ [(x.1, some x.2)]).map fst := fun hmem => by
    have hsome := hring.around.mem_isSome hmem
    rw [ha] at hsome
    cases hsome
  -- the writes in the order of the code, then the new element's own two as one
  have hmem : update (update (update q.mem a (some ⟨none, none⟩)) x.1
      (some ⟨some a, some x.2⟩)) a (some ⟨some p, none⟩) =
      update (update q.mem x.1 (some ⟨some a, some x.2⟩)) a
        (some ⟨some p, none⟩) := by
    rw [update_comm hxa, Function.update_idem, update_comm hxa.symm]
  refine ⟨{ q with
    mem := update (update q.mem x.1 (some ⟨some a, some x.2⟩)) a
      (some ⟨some p, none⟩)
    NumElemAdded := q.NumElemAdded + 1 }, ?_, ⟨⟨p, hp, ?_⟩, ?_, ?_, ?_, ?_, ?_⟩, ?_⟩
  · have hisNone : (q.mem a).isNone = true := by rw [ha]; rfl
    rw [← hmem]
    simp only [QueueType.AddQueueElem, QueueType.alloc, QueueType.setNext, hisNone, if_true, hlast,
      hp, Option.bind_eq_bind, Option.bind_some, Option.pure_def, update_of_ne hxa, hx,
      update_of_ne hxa.symm, update_self,
      addS32_eq (a := q.NumElemAdded) (b := 1) (by omega) (by omega)]
  · have hsplit : cells (l ++ [x]) [a] =
        (l.map (fun x => (x.1, some x.2)) ++ [(x.1, some x.2)]) ++ [(a, none)] := by
      simp [cells]
    rw [hsplit]
    exact hring.insertLast hfresh
  · exact h.last
  · exact h.count
  · rw [length_singleton]
    show (MAX_QUEUE_ELEMENTS : Int) + (q.NumElemAdded + 1) = _
    push_cast at hadded ⊢
    omega
  · rw [length_singleton]
    omega
  · rw [length_singleton]
    omega
  · intro b hba hb
    have hbx : b ≠ x.1 := by
      rintro rfl
      rw [hb] at hx
      cases hx
    exact (update_of_ne hba ..).trans ((update_of_ne hbx ..).trans hb)

/-- **A full ring grows by one**, and the data are queued in the new element. -/
theorem Holds.queue_grow (x : α) (ha : q.mem a = none)
    (hfits : full.length < 2147483647) :
    ∃ q', q.Queue (some x) (some a) = some (q', .OMX_ErrorNone) ∧
      Holds q' (full ++ [(a, x)]) [] ∧ ∀ b, b ≠ a → q.mem b = none → q'.mem b = none := by
  obtain ⟨q₁, hadd, h₁, hframe₁⟩ := h.addQueueElem ha hfits
  obtain ⟨q₂, hqueue, h₂, hframe₂⟩ := h₁.queue x none
  have hroom := h.makeRoom (some a)
  have hroom₁ := h₁.makeRoom none
  rw [if_pos rfl, hadd] at hroom
  rw [if_neg (cons_ne_nil a [])] at hroom₁
  refine ⟨q₂, ?_, h₂, fun b hba hb => hframe₂ b (hframe₁ b hba hb)⟩
  rw [← hqueue, QueueType.Queue, QueueType.Queue, hroom, hroom₁]

/-- **No memory**: nothing is changed. -/
theorem Holds.queue_noMemory (x : α) :
    q.Queue (some x) none = some (q, .OMX_ErrorInsufficientResources) := by
  have hroom := h.makeRoom none
  rw [if_pos rfl] at hroom
  rw [QueueType.Queue, hroom]
  rfl

end

theorem Holds.deQueue_empty (h : Holds q [] empty) : q.DeQueue = some (q, none) := by
  obtain ⟨p, hp, hring⟩ := h.ring
  have henough := h.enough
  cases empty with
  | nil => simp [MAX_QUEUE_ELEMENTS] at henough
  | cons a empty =>
    have hpa : a = p := hring.first
    obtain ⟨n, hn⟩ := LinkedRing.mem_eq (l := []) hring
    have hmem : q.mem p = some ⟨n, none⟩ := hpa ▸ hn
    simp only [QueueType.DeQueue, hp, hmem, Option.bind_eq_bind, Option.bind_some,
      Option.pure_def]

/-- **The oldest data are taken**, and their element is the last of the free ones. -/
theorem Holds.deQueue (h : Holds q ((a, x) :: full) empty) :
    ∃ q', q.DeQueue = some (q', some x) ∧ Holds q' full (empty ++ [a]) := by
  obtain ⟨p, hp, hring⟩ := h.ring
  have hlast := h.last
  have hcount := h.count
  have hadded := h.added
  have henough := h.enough
  have hfits := h.fits
  rw [length_cons] at hcount hadded henough hfits
  have hpa : a = p := hring.first
  subst hpa
  obtain ⟨n, hn⟩ := LinkedRing.mem_eq (l := []) hring
  have hset := LinkedRing.setData (l := []) (d := none) hring hn
  obtain ⟨p', hp', hturn⟩ := hset.turn
  have hmem : update q.mem a (some ⟨n, none⟩) a = some ⟨n, none⟩ :=
    update_self ..
  rw [hmem] at hp'
  cases hp'
  have hcells : cells full (empty ++ [a]) = cells full empty ++ [(a, none)] := by
    simp [cells]
  have hpFirst : full = [] → q.pLast = some a := by
    rintro rfl
    rw [hlast]
    rfl
  have hzero : (0 : Int) = q.NumElem + -1 ↔ full = [] := by
    rw [hcount, ← length_eq_zero_iff]
    omega
  have hlen : full.length + (empty ++ [a]).length = full.length + 1 + empty.length := by
    rw [length_append, length_singleton]
    omega
  refine ⟨{ q with
    mem := update q.mem a (some ⟨some p', none⟩), pFirst := some p'
    pLast := if full = [] then some p' else q.pLast, NumElem := q.NumElem + -1 }, ?_,
    ⟨⟨p', rfl, ?_⟩, ?_, ?_, ?_, ?_, ?_⟩⟩
  · have hdata : q.mem a = some ⟨some p', some x⟩ := hn
    simp only [QueueType.DeQueue, QueueType.setData, hp, hdata, Option.bind_eq_bind,
      Option.bind_some, Option.pure_def, update_self, hzero,
      addS32_eq (a := q.NumElem) (b := -1) (by omega) (by omega)]
    by_cases hnil : full = []
    · rw [if_pos hnil, if_pos hnil]
    · rw [if_neg hnil, if_neg hnil]
  · rw [hcells]
    exact hturn
  · show (if full = [] then some p' else q.pLast) = (lastAddr full).or (some p')
    rcases lastAddr_cases full with ⟨rfl, haddr⟩ | ⟨l, y, rfl, haddr⟩
    · rfl
    · have hne : l ++ [y] ≠ [] := append_ne_nil_of_right_ne_nil _ (cons_ne_nil _ _)
      rw [if_neg hne, hlast, haddr, ← cons_append, lastAddr_concat]
      rfl
  · show q.NumElem + -1 = (full.length : Int)
    omega
  · rw [hlen]
    exact hadded
  · rw [hlen]
    exact henough
  · rw [hlen]
    exact hfits

/-- A chain of elements is freed one after the other, each read before it is freed. -/
theorem deinitLoop_spec {xs : List (Nat × Option α)} {p : Option Nat} {z : Option Nat}
    (hp : q.pFirst = p) (hxs : Linked q.mem p xs z) (hnodup : (xs.map fst).Nodup) :
    ∃ q', QueueType.deinitLoop xs.length q p = some (q', xs.map fst) := by
  induction xs generalizing q p with
  | nil => exact ⟨q, rfl⟩
  | cons x xs ih =>
    obtain ⟨rfl, n, hn, hrest⟩ := hxs
    rw [map_cons, nodup_cons] at hnodup
    obtain ⟨hx, hnodup⟩ := hnodup
    obtain ⟨q', hq'⟩ := ih (q := { q with mem := update q.mem x.1 none, pFirst := n })
      (p := n) rfl (hrest.update _ hx) hnodup
    refine ⟨q', ?_⟩
    simp only [length_cons, QueueType.deinitLoop, hn, hp, QueueType.free, Option.isSome_some,
      if_true, hq', Option.bind_eq_bind, Option.bind_some, Option.pure_def]
    rfl

/-- **Each element of the ring is freed once.** -/
theorem Holds.queueDeinit (h : Holds q full empty) :
    ∃ q', q.QueueDeinit = some (q', full.map fst ++ empty) := by
  obtain ⟨p, hp, hring⟩ := h.ring
  have hadded := h.added
  have hfits := h.fits
  have hlen : (cells full empty).length = full.length + empty.length := by
    rw [cells, length_append, length_map, length_map]
  have hcount : (q.NumElemAdded + (MAX_QUEUE_ELEMENTS : Int)).toNat = (cells full empty).length := by
    omega
  obtain ⟨q', hq'⟩ := deinitLoop_spec hp hring.around hring.nodup
  refine ⟨q', ?_⟩
  rw [← cells_addresses, ← hq', ← hcount, ← hp, QueueType.QueueDeinit,
    addS32_eq (by omega) (by omega)]
  rfl

end Calls

/-! ## 3. A new queue -/

/-- The elements linked so far, all free: `pLast` is the last, and leads nowhere. -/
structure Linking (q : QueueType α) (p : Nat) (empty : List Nat) : Prop where
  first : q.pFirst = some p
  chain : Linked q.mem (some p) (cells [] empty) none
  last : q.pLast = empty.getLast?
  count : q.NumElem = 0
  added : q.NumElemAdded = 0

theorem cells_concat (empty : List Nat) (a : Nat) :
    cells ([] : List (Nat × α)) (empty ++ [a]) = cells [] empty ++ [(a, none)] := by
  simp [cells]

section Init

variable {q q' : QueueType α} {p a : Nat} {empty : List Nat}

/-- One more element is linked in. -/
theorem Linking.link (h : Linking q p (empty ++ [a])) {b : Nat} {q₁ q₂ : QueueType α}
    (halloc : q.alloc b = some q₁) (hnext : q₁.setNext q₁.pLast (some b) = some q₂) :
    Linking { q₂ with pLast := some b } p ((empty ++ [a]) ++ [b]) := by
  obtain ⟨hfresh, rfl⟩ := alloc_eq_some halloc
  have hchain := h.chain
  rw [cells_concat] at hchain
  have hb : b ∉ (cells ([] : List (Nat × α)) empty ++ [(a, none)]).map fst := fun hmem => by
    have hsome := hchain.mem_isSome hmem
    rw [hfresh] at hsome
    cases hsome
  have hba : b ≠ a := fun e => hb (by simp [e])
  have ha : a ∉ (cells ([] : List (Nat × α)) empty).map fst := by
    have hnodup := hchain.nodup
    rw [map_append, nodup_append] at hnodup
    exact fun hmem => hnodup.2.2 a hmem a (by simp) rfl
  have hlast : q.pLast = some a := by rw [h.last, getLast?_concat]
  have hmem : update q.mem b (some ⟨none, none⟩) a = some ⟨none, none⟩ := by
    rw [update_of_ne hba.symm]
    exact (linked_concat.mp hchain).2
  simp only [QueueType.setNext, hlast, hmem, Option.bind_eq_bind, Option.bind_some,
    Option.pure_def] at hnext
  cases hnext
  refine ⟨h.first, ?_, by rw [getLast?_concat], h.count, h.added⟩
  rw [cells_concat, cells_concat, linked_concat]
  refine ⟨(hchain.update _ hb).set_last ha, ?_⟩
  show update (update q.mem b _) a _ b = _
  rw [update_of_ne hba, update_self]

/-- The loop of `QueueInit` links its elements in, where it gets them all. -/
theorem Linking.initLoop (h : Linking q p (empty ++ [a])) {ptr : Nat → Option Nat} {left ii : Nat}
    (hloop : QueueType.initLoop ptr left ii q = some (q', .OMX_ErrorNone)) :
    ∃ empty' a', Linking q' p (empty' ++ [a']) ∧ empty'.length = empty.length + left := by
  induction left generalizing q empty a ii with
  | zero =>
    cases hloop
    exact ⟨empty, a, h, rfl⟩
  | succ left ih =>
    unfold QueueType.initLoop at hloop
    cases hptr : ptr ii with
    | none =>
      rw [hptr] at hloop
      cases hloop
    | some b =>
      simp only [hptr, Option.bind_eq_bind, Option.bind_eq_some_iff] at hloop
      obtain ⟨q₁, halloc, q₂, hnext, hrest⟩ := hloop
      obtain ⟨empty', a', h', hlen⟩ := ih (h.link halloc hnext) hrest
      refine ⟨empty', a', h', ?_⟩
      rw [hlen, length_append, length_singleton]
      omega

/-- **An initialised queue** is a ring of free elements. -/
theorem queueInit_holds {ptr : Nat → Option Nat}
    (hinit : q.QueueInit ptr = some (q', .OMX_ErrorNone)) :
    ∃ empty, empty.length = MAX_QUEUE_ELEMENTS ∧ Holds q' [] empty := by
  unfold QueueType.QueueInit at hinit
  cases hptr : ptr 0 with
  | none =>
    rw [hptr] at hinit
    cases hinit
  | some p =>
    simp only [hptr, Option.bind_eq_bind, Option.bind_eq_some_iff] at hinit
    obtain ⟨q₁, halloc, ⟨q₂, status⟩, hloop, hrest⟩ := hinit
    obtain ⟨-, rfl⟩ := alloc_eq_some halloc
    by_cases hstatus : status ≠ .OMX_ErrorNone
    · rw [if_pos hstatus] at hrest
      exact absurd (Prod.mk.inj (Option.some.inj hrest)).2 hstatus
    rw [if_neg hstatus] at hrest
    rw [not_not] at hstatus
    subst hstatus
    have hone : Linking (α := α)
        { mem := update q.mem p (some ⟨none, none⟩), pFirst := some p, pLast := some p,
          NumElem := 0, NumElemAdded := 0 } p ([] ++ [p]) :=
      ⟨rfl, ⟨rfl, none, update_self .., rfl⟩, rfl, rfl, rfl⟩
    obtain ⟨empty, a, h, hlen⟩ := hone.initLoop hloop
    simp only [Option.bind_eq_some_iff] at hrest
    obtain ⟨q₃, hnext, hq'⟩ := hrest
    cases hq'
    have hchain := h.chain
    rw [cells_concat] at hchain
    have hnodup := hchain.nodup
    have ha : a ∉ (cells ([] : List (Nat × α)) empty).map fst := by
      rw [map_append, nodup_append] at hnodup
      exact fun hmem => hnodup.2.2 a hmem a (by simp) rfl
    have hlast : q₂.pLast = some a := by rw [h.last, getLast?_concat]
    have hmem : q₂.mem a = some ⟨none, none⟩ := (linked_concat.mp hchain).2
    simp only [QueueType.setNext, hlast, hmem, Option.bind_eq_bind, Option.bind_some,
      Option.pure_def] at hnext
    cases hnext
    have hlen' : (empty ++ [a]).length = MAX_QUEUE_ELEMENTS := by
      rw [length_append, hlen]
      rfl
    refine ⟨empty ++ [a], hlen', ⟨⟨p, h.first, ?_, ?_, ?_⟩, rfl, h.count, ?_, ?_, ?_⟩⟩
    · rw [cells_concat, h.first]
      exact hchain.set_last ha
    · rw [cells_concat]
      exact hnodup
    · rw [cells_concat]
      exact append_ne_nil_of_right_ne_nil _ (cons_ne_nil _ _)
    · show (MAX_QUEUE_ELEMENTS : Int) + q₂.NumElemAdded = _
      rw [h.added, hlen']
      rfl
    · rw [hlen']
      exact Nat.le_add_left _ _
    · rw [hlen', length_nil]
      decide

end Init

/-! ## 4. Runs -/

/-- The allocator hands out a free address, and the ring does not get a 2^31st element. -/
def Served (q : QueueType α) : QueueCall α → Prop
  | .queue _ (some a) =>
    q.NumElem = MAX_QUEUE_ELEMENTS + q.NumElemAdded →
      (q.mem a).isNone = true ∧ q.NumElem < 2147483647
  | .queue _ none => True
  | .deQueue => True

instance decidableServed (q : QueueType α) : ∀ c : QueueCall α, Decidable (Served q c)
  | .queue _ (some a) =>
    inferInstanceAs (Decidable (q.NumElem = MAX_QUEUE_ELEMENTS + q.NumElemAdded →
      (q.mem a).isNone = true ∧ q.NumElem < 2147483647))
  | .queue _ none => isTrue trivial
  | .deQueue => isTrue trivial

/-- A list with two ends: what a call answers, and what it leaves. -/
inductive ListStep : List α → QueueCall α × QueueAnswer α → List α → Prop where
  | queued (items : List α) (d : α) (ptr : Option Nat) :
      ListStep items (.queue d ptr, .status .OMX_ErrorNone) (items ++ [d])
  | noMemory (items : List α) (d : α) :
      ListStep items (.queue d none, .status .OMX_ErrorInsufficientResources) items
  | taken (items : List α) (d : α) : ListStep (d :: items) (.deQueue, .data (some d)) items
  | nothing : ListStep [] (.deQueue, .data none) []

/-- What was queued, in order. -/
def queuedData (ls : List (QueueCall α × QueueAnswer α)) : List α :=
  ls.filterMap fun
    | (.queue d _, .status .OMX_ErrorNone) => some d
    | _ => none

/-- What was returned, in order. -/
def returnedData (ls : List (QueueCall α × QueueAnswer α)) : List α :=
  ls.filterMap fun
    | (.deQueue, .data pData) => pData
    | _ => none

theorem queuedData_append (ls ms : List (QueueCall α × QueueAnswer α)) :
    queuedData (ls ++ ms) = queuedData ls ++ queuedData ms :=
  filterMap_append ..

theorem returnedData_append (ls ms : List (QueueCall α × QueueAnswer α)) :
    returnedData (ls ++ ms) = returnedData ls ++ returnedData ms :=
  filterMap_append ..

/-- **First in, first out**: what was returned and what is left are what was queued. -/
theorem fifo_of_run {ls : List (QueueCall α × QueueAnswer α)} {items : List α}
    (hr : Run ListStep [] ls items) : queuedData ls = returnedData ls ++ items := by
  induction hr with
  | start => rfl
  | @step ls items items' l _ hs ih =>
    have hone : items ++ queuedData [l] = returnedData [l] ++ items' := by
      cases hs with
      | queued d ptr => rfl
      | noMemory d => exact append_nil items
      | taken d => exact append_nil _
      | nothing => rfl
    rw [queuedData_append, returnedData_append, ih, append_assoc, append_assoc, hone]

/-- Data are left in the queue. -/
def Contains (q : QueueType α) (items : List α) : Prop :=
  ∃ full empty, Holds q full empty ∧ full.map Prod.snd = items

section Runs

variable {q q' : QueueType α} {items : List α} {c : QueueCall α}

/-- **One call** that the allocator can serve is defined, and is the list's. -/
theorem Contains.step (h : Contains q items) (hs : Served q c) :
    ∃ q' answer items', queueCall q c = some (q', answer) ∧ Contains q' items' ∧
      ListStep items (c, answer) items' := by
  obtain ⟨full, empty, h, rfl⟩ := h
  cases c with
  | deQueue =>
    cases full with
    | nil =>
      refine ⟨q, .data none, [], ?_, ⟨[], empty, h, rfl⟩, .nothing⟩
      rw [queueCall, h.deQueue_empty, Option.map_some]
    | cons x full =>
      obtain ⟨q', hq', h'⟩ := h.deQueue
      refine ⟨q', .data (some x.2), _, ?_, ⟨full, _, h', rfl⟩, .taken _ _⟩
      rw [queueCall, hq', Option.map_some]
  | queue d ptr =>
    cases empty with
    | cons a empty =>
      obtain ⟨q', hq', h', -⟩ := h.queue d ptr
      refine ⟨q', .status .OMX_ErrorNone, _, ?_, ⟨_, empty, h', map_append⟩, .queued _ d ptr⟩
      rw [queueCall, hq', Option.map_some]
    | nil =>
      cases ptr with
      | none =>
        refine ⟨q, .status .OMX_ErrorInsufficientResources, _, ?_, ⟨full, [], h, rfl⟩,
          .noMemory _ d⟩
        rw [queueCall, h.queue_noMemory d, Option.map_some]
      | some a =>
        have hfull : q.NumElem = MAX_QUEUE_ELEMENTS + q.NumElemAdded := by
          rw [h.added, h.count, length_nil, Nat.add_zero]
        obtain ⟨hfresh, hlt⟩ := hs hfull
        rw [h.count] at hlt
        obtain ⟨q', hq', h', -⟩ := h.queue_grow d (Option.isNone_iff_eq_none.mp hfresh)
          (by omega)
        refine ⟨q', .status .OMX_ErrorNone, _, ?_, ⟨_, [], h', map_append⟩,
          .queued _ d (some a)⟩
        rw [queueCall, hq', Option.map_some]

/-- **A run** of such calls is a run of the list. -/
theorem run_kept (h : Contains q []) {ls : List (QueueCall α × QueueAnswer α)}
    (hr : Run (onlyWhen (fun q l => Served q l.1) QueueStep) q ls q') :
    ∃ items, Run ListStep [] ls items ∧ Contains q' items := by
  refine hr.simulate (R := fun q items => Contains q items) h fun s l s' t hst hstep => ?_
  obtain ⟨hs, hcall⟩ := hstep
  obtain ⟨s₁, answer, t', hcall', h', hlist⟩ := hst.step hs
  rw [QueueStep, hcall'] at hcall
  cases hcall
  exact ⟨t', hlist, h'⟩

/-- The ring has exactly the elements counted, all of them reached from `pFirst`, and
    `QueueDeinit` frees each of them once. -/
def RingCounted (q : QueueType α) : Prop :=
  ∃ p nodes, q.pFirst = some p ∧ nodes.Nodup ∧
    (nodes.length : Int) = MAX_QUEUE_ELEMENTS + q.NumElemAdded ∧
    (∀ a, Relation.ReflTransGen (Link q.mem) p a ↔ a ∈ nodes) ∧
    ∃ q', q.QueueDeinit = some (q', nodes)

theorem Contains.ringCounted (h : Contains q items) : RingCounted q := by
  obtain ⟨full, empty, h, -⟩ := h
  obtain ⟨p, hp, hring⟩ := h.ring
  refine ⟨p, full.map fst ++ empty, hp, ?_, ?_, fun a => ?_, h.queueDeinit⟩
  · rw [← cells_addresses]
    exact hring.nodup
  · rw [h.added, length_append, length_map]
  · rw [hring.reaches_iff, cells_addresses]

theorem Contains.numElem (h : Contains q items) : q.GetQueueNumElem = items.length := by
  obtain ⟨full, empty, h, rfl⟩ := h
  rw [length_map]
  exact h.count

end Runs

/-- **The queue is a list**: in every state that a run from an initialised queue reaches, with calls
    that the allocator can serve, what was queued is what was returned and what the queue still
    has, in order; its count is the list's length, `DeQueue` returns the oldest data or NULL, every
    such call is defined, one that fails changes nothing, and the ring is as counted. -/
theorem queue_run {q₀ q₁ q : QueueType α} {ptr : Nat → Option Nat}
    (hinit : q₀.QueueInit ptr = some (q₁, .OMX_ErrorNone))
    {ls : List (QueueCall α × QueueAnswer α)}
    (hr : Run (onlyWhen (fun q l => Served q l.1) QueueStep) q₁ ls q) :
    ∃ items, Run ListStep [] ls items ∧ queuedData ls = returnedData ls ++ items ∧
      q.GetQueueNumElem = items.length ∧
      (∃ q', q.DeQueue = some (q', items.head?)) ∧
      (∀ c, Served q c → ∃ q' answer, queueCall q c = some (q', answer)) ∧
      (∀ d ptr q', q.Queue (some d) ptr = some (q', .OMX_ErrorInsufficientResources) →
        ptr = none ∧ q' = q) ∧
      RingCounted q := by
  obtain ⟨empty, -, h₁⟩ := queueInit_holds hinit
  obtain ⟨items, hlist, h⟩ := run_kept ⟨[], empty, h₁, rfl⟩ hr
  refine ⟨items, hlist, fifo_of_run hlist, h.numElem, ?_, fun c hs => ?_,
    fun _ _ _ => queue_insufficient, h.ringCounted⟩
  · obtain ⟨full, empty, h, rfl⟩ := h
    cases full with
    | nil => exact ⟨q, h.deQueue_empty⟩
    | cons x full =>
      obtain ⟨q', hq', -⟩ := h.deQueue
      exact ⟨q', hq'⟩
  · obtain ⟨q', answer, -, hcall, -⟩ := h.step hs
    exact ⟨q', answer, hcall⟩

/-- Twelve elements with data, one more the ring grows by, one there is no memory for, two taken. -/
theorem queue_run_sample : ∃ q₁ q : QueueType Nat, ∃ items,
    Run (onlyWhen (fun q l => Served q l.1) QueueStep) q₁
      (((List.range 13).map fun i => (.queue i (some (i + 20)), .status .OMX_ErrorNone)) ++
        [(.queue 13 none, .status .OMX_ErrorInsufficientResources), (.deQueue, .data (some 0)),
          (.deQueue, .data (some 1)), (.queue 14 none, .status .OMX_ErrorNone)]) q ∧
    q.GetQueueNumElem = items.length ∧ List.range 13 ++ [14] = [0, 1] ++ items ∧ RingCounted q := by
  obtain ⟨q₁, hinit, hsome⟩ : ∃ q₁ : QueueType Nat,
      QueueType.QueueInit ⟨fun _ => none, none, none, 0, 0⟩ some = some (q₁, .OMX_ErrorNone) ∧
        (execAll (guarded (fun q l => Served q l.1) (answering queueCall)) q₁
          (((List.range 13).map fun i => (.queue i (some (i + 20)), .status .OMX_ErrorNone)) ++
            [(.queue 13 none, .status .OMX_ErrorInsufficientResources), (.deQueue, .data (some 0)),
              (.deQueue, .data (some 1)), (.queue 14 none, .status .OMX_ErrorNone)])).isSome :=
    ⟨_, rfl, by decide +kernel⟩
  obtain ⟨q, hq⟩ := Option.isSome_iff_exists.mp hsome
  have hr : Run (onlyWhen (fun q l => Served q l.1) QueueStep) _ _ _ :=
    (Run.of_guarded hq).mono fun _ _ _ h => ⟨h.1, answering_eq_some.mp h.2⟩
  obtain ⟨items, -, hfifo, hnum, -, -, -, hring⟩ := queue_run hinit hr
  exact ⟨q₁, q, items, hr, hnum, hfifo, hring⟩

/-! ## 5. The counts -/

section Counts

variable {q q' : QueueType α} {a : Nat}

/-- A queue that is only filled, from the allocator's addresses in order. -/
theorem filled_run {q₁ : QueueType Unit} {empty : List Nat}
    (h : Holds q₁ [] empty) (hlen : empty.length = MAX_QUEUE_ELEMENTS)
    (hfree : ∀ a, MAX_QUEUE_ELEMENTS ≤ a → q₁.mem a = none) {k : Nat} (hk : k ≤ 2147483647) :
    ∃ q full empty, Run QueueStep q₁
        ((range k).map fun i => (.queue () (some i), .status .OMX_ErrorNone)) q ∧
      Holds q full empty ∧ full.length = k ∧ empty.length = MAX_QUEUE_ELEMENTS - k ∧
      ∀ a, MAX_QUEUE_ELEMENTS ≤ a → k ≤ a → q.mem a = none := by
  induction k with
  | zero => exact ⟨q₁, [], empty, .start, h, rfl, hlen, fun a ha _ => hfree a ha⟩
  | succ k ih =>
    obtain ⟨q, full, empty, hr, h, hfull, hempty, hmem⟩ := ih (by omega)
    have hnext : ∃ q' x empty', queueCall q (.queue () (some k)) =
          some (q', .status .OMX_ErrorNone) ∧ Holds q' (full ++ [x]) empty' ∧
        empty'.length = MAX_QUEUE_ELEMENTS - (k + 1) ∧
        ∀ a, a ≠ k → q.mem a = none → q'.mem a = none := by
      cases empty with
      | cons a empty =>
        obtain ⟨q', hq', h', hframe⟩ := h.queue () (some k)
        rw [length_cons] at hempty
        exact ⟨q', _, empty, by rw [queueCall, hq', Option.map_some], h', by omega,
          fun b _ => hframe b⟩
      | nil =>
        rw [length_nil] at hempty
        have hgrow := h.queue_grow () (hmem k (by omega) (Nat.le_refl k)) (by omega)
        obtain ⟨q', hq', h', hframe⟩ := hgrow
        refine ⟨q', _, [], by rw [queueCall, hq', Option.map_some], h', ?_, hframe⟩
        rw [length_nil]
        omega
    obtain ⟨q', x, empty', hcall, h', hlen', hframe⟩ := hnext
    refine ⟨q', full ++ [x], empty', ?_, h', ?_, hlen', fun a ha hka => ?_⟩
    · rw [range_succ, map_append]
      exact .step hr hcall
    · rw [length_append, length_singleton, hfull]
    · exact hframe a (by omega) (hmem a ha (by omega))

theorem advance_numElem (h : q.advance = some q') : q'.NumElem = q.NumElem := by
  unfold QueueType.advance at h
  split at h
  · simp only [Option.bind_eq_bind, Option.bind_eq_some_iff] at h
    obtain ⟨b, -, c, -, he⟩ := h
    cases he
    rfl
  · cases h
    rfl

theorem setData_numElem {elem : Option Nat} {aData : Option α}
    (h : q.setData elem aData = some q') : q'.NumElem = q.NumElem := by
  simp only [QueueType.setData, Option.bind_eq_bind, Option.bind_eq_some_iff] at h
  obtain ⟨b, -, c, -, he⟩ := h
  cases he
  rfl

/-- The count of elements with data cannot go on from 2^31 - 1. -/
theorem queue_count_full (h : q.NumElem = 2147483647) (aData : α) (a : Nat) :
    queueCall q (.queue aData (some a)) = none := by
  rw [queueCall, Option.map_eq_none_iff, Option.eq_none_iff_forall_ne_some]
  rintro ⟨q', status⟩ hqueue
  cases status with
  | OMX_ErrorInsufficientResources => cases (queue_insufficient hqueue).1
  | OMX_ErrorNone =>
    simp only [QueueType.Queue, Option.bind_eq_bind, Option.bind_eq_some_iff] at hqueue
    obtain ⟨⟨q₁, room⟩, hroom, hrest⟩ := hqueue
    cases room with
    | false => cases (Prod.mk.inj (Option.some.inj hrest)).2
    | true =>
      simp only [Bool.true_eq_false, if_false, Option.bind_eq_some_iff] at hrest
      obtain ⟨q₂, hadvance, q₃, hdata, n, hn, -⟩ := hrest
      have hnum : q₃.NumElem = 2147483647 :=
        (setData_numElem hdata).trans ((advance_numElem hadvance).trans
          ((makeRoom_eq_some hroom).1.trans h))
      rw [hnum] at hn
      cases hn

end Counts

/-- **The counts are signed 32-bit ones**: a queue with 2^31 - 1 elements, all with data, takes no
    more although the allocator has a free address: the sum `NumElem + 1` is undefined. -/
theorem queue_count_overflows : ∃ q₁ q : QueueType Unit,
    QueueType.QueueInit ⟨fun _ => none, none, none, 0, 0⟩ some = some (q₁, .OMX_ErrorNone) ∧
    Run QueueStep q₁
      ((List.range 2147483647).map fun i => (.queue () (some i), .status .OMX_ErrorNone)) q ∧
    q.mem 2147483647 = none ∧ queueCall q (.queue () (some 2147483647)) = none := by
  obtain ⟨q₁, hinit, hfree⟩ : ∃ q₁ : QueueType Unit,
      QueueType.QueueInit ⟨fun _ => none, none, none, 0, 0⟩ some = some (q₁, .OMX_ErrorNone) ∧
        ∀ n, q₁.mem (n + MAX_QUEUE_ELEMENTS) = none := ⟨_, rfl, fun _ => rfl⟩
  obtain ⟨empty, hlen, h₁⟩ := queueInit_holds hinit
  have hfree : ∀ a, MAX_QUEUE_ELEMENTS ≤ a → q₁.mem a = none := fun a ha =>
    Nat.sub_add_cancel ha ▸ hfree _
  obtain ⟨q, full, empty', hr, h, hfull, -, hmem⟩ :=
    filled_run h₁ hlen hfree (Nat.le_refl 2147483647)
  have hnum : q.NumElem = 2147483647 := by
    rw [h.count, hfull]
    rfl
  exact ⟨q₁, q, hinit, hr, hmem _ (by decide) (Nat.le_refl _), queue_count_full hnum () _⟩

end OpenCore.Omx
