/-
  File:      OpenCore/H223/MuxSduLists.lean
  Subject:   THE MUX-SDUS IN WORK (cpvh223multiplex.cpp): the three lists of the multiplexer, one for
             the control channel and one for the channels of either kind, and what takes a channel's
             entries off them.

  `RemoveMuxSduData` goes on while its list has an entry, of whatever channel, and erases only those
  of its own. Where another channel has an entry in the list, the loop comes to a turn that erases
  nothing, and repeats it for ever. A loop that does not end gives `none` for any number of turns.

  **Main result**: `removeMuxSduData_iff`.
-/
import OpenCore.H223.Multiplexer

namespace OpenCore.H223

open List

/-! ## 1. The lists -/

/-- `MuxSduData` with the number of its channel. -/
structure ChannelSdu where
  lcn : Nat
  data : MuxSduData
  deriving DecidableEq, Repr

/-- The lists of the multiplexer. -/
structure SduDataLists where
  iControlSduDataList : List ChannelSdu
  iSegmentableSduDataList : List ChannelSdu
  iNonSegmentableSduDataList : List ChannelSdu
  deriving DecidableEq, Repr

/-- An outgoing channel, with the packet `GetNextPacket` has for it. -/
structure OutgoingChannel where
  lcn : Nat
  segmentable : Bool
  next : Option (List (List UInt8))

/-- `FindMuxSduData` in a list: the index of the first entry of the channel. -/
def FindMuxSduData (lcn : Nat) (list : List ChannelSdu) : Option Nat :=
  list.findIdx? fun d => d.lcn == lcn

/-- The loop of `RemoveMuxSduData`, for at most `fuel` turns. -/
def removeLoop (lcn : Nat) : Nat → List ChannelSdu → Option (List ChannelSdu)
  | 0, _ => none
  | fuel + 1, list =>
    if list = [] then some list
    else
      match FindMuxSduData lcn list with
      | some index => removeLoop lcn fuel (list.eraseIdx index)
      | none => removeLoop lcn fuel list

namespace SduDataLists

def empty : SduDataLists := ⟨[], [], []⟩

/-- `GET_SDU_DATA_LIST`. -/
def list (q : SduDataLists) (segmentable : Bool) : List ChannelSdu :=
  if segmentable then q.iSegmentableSduDataList else q.iNonSegmentableSduDataList

/-- The list with the entries of a channel. -/
def queue (q : SduDataLists) (lcn : Nat) (segmentable : Bool) : List ChannelSdu :=
  if lcn = 0 then q.iControlSduDataList else q.list segmentable

/-- The lists with that one changed. -/
def withQueue (q : SduDataLists) (lcn : Nat) (segmentable : Bool) (list : List ChannelSdu) :
    SduDataLists :=
  if lcn = 0 then { q with iControlSduDataList := list }
  else if segmentable then { q with iSegmentableSduDataList := list }
  else { q with iNonSegmentableSduDataList := list }

def AppendMuxSduData (q : SduDataLists) (data : ChannelSdu) : SduDataLists :=
  if data.lcn = 0 then { q with iControlSduDataList := q.iControlSduDataList ++ [data] }
  else q.withQueue data.lcn data.data.segmentable (q.list data.data.segmentable ++ [data])

def RemoveMuxSduData (fuel lcn : Nat) (segmentable : Bool) (q : SduDataLists) :
    Option SduDataLists :=
  if lcn = 0 then some { q with iControlSduDataList := [] }
  else (removeLoop lcn fuel (q.list segmentable)).map (q.withQueue lcn segmentable)

/-- `ReleaseMuxSdu` of entry `n` of a channel's list: the next packet of the channel takes its place,
    or there is none and the channel's entries are removed. -/
def ReleaseMuxSdu (fuel lcn : Nat) (segmentable : Bool) (n : Nat)
    (GetNextPacket : Option (List (List UInt8))) (q : SduDataLists) : Option SduDataLists :=
  match GetNextPacket with
  | some sdu =>
    some (q.withQueue lcn segmentable ((q.queue lcn segmentable).set n
      ⟨lcn, MuxSduData.queued sdu segmentable⟩))
  | none => q.RemoveMuxSduData fuel lcn segmentable

/-- One turn of `UpdateSduDataLists`: a channel without an entry gets one for its next packet. Channel
    0 of the list is the control channel. -/
def updateChannel (q : SduDataLists) (channel : OutgoingChannel × Nat) : SduDataLists :=
  let pending :=
    if channel.2 = 0 then q.iControlSduDataList ≠ []
    else FindMuxSduData channel.1.lcn (q.list channel.1.segmentable) ≠ none
  if pending then q
  else
    match channel.1.next with
    | some sdu => q.AppendMuxSduData ⟨channel.1.lcn, MuxSduData.queued sdu channel.1.segmentable⟩
    | none => q

def UpdateSduDataLists (iOutgoingChannels : List OutgoingChannel) (q : SduDataLists) :
    SduDataLists :=
  iOutgoingChannels.zipIdx.foldl updateChannel q

end SduDataLists

/-! ## 2. The loop -/

section Loop

variable {lcn fuel index : Nat} {list list' : List ChannelSdu}

theorem findMuxSduData_eq_none :
    FindMuxSduData lcn list = none ↔ ∀ d ∈ list, d.lcn ≠ lcn := by
  unfold FindMuxSduData
  rw [findIdx?_eq_none_iff]
  exact forall₂_congr fun d _ => beq_eq_false_iff_ne

/-- The first entry of a channel, with what is in front of it and behind. -/
theorem findMuxSduData_split (h : FindMuxSduData lcn list = some index) :
    ∃ front d rest, list = front ++ d :: rest ∧ front.length = index ∧ d.lcn = lcn ∧
      ∀ d' ∈ front, d'.lcn ≠ lcn := by
  obtain ⟨hlt, hfound, hbefore⟩ := findIdx?_eq_some_iff_getElem.mp h
  refine ⟨list.take index, list[index], list.drop (index + 1), ?_, ?_, eq_of_beq hfound, ?_⟩
  · rw [getElem_cons_drop, take_append_drop]
  · rw [length_take]
    omega
  · intro d' hd'
    obtain ⟨j, hj, rfl⟩ := getElem_of_mem hd'
    rw [length_take] at hj
    rw [getElem_take]
    exact fun heq => hbefore j (by omega) (beq_of_eq heq)

/-- **An entry that is erased** is one of the channel's; the others keep their order. -/
theorem filter_eraseIdx (h : FindMuxSduData lcn list = some index) :
    (list.eraseIdx index).filter (fun d => d.lcn != lcn) = list.filter (fun d => d.lcn != lcn) ∧
      (list.eraseIdx index).length + 1 = list.length := by
  obtain ⟨front, d, rest, rfl, rfl, hd, -⟩ := findMuxSduData_split h
  have hout : (d.lcn != lcn) = false := bne_eq_false_iff_eq.mpr hd
  rw [eraseIdx_append_of_length_le (Nat.le_refl _), Nat.sub_self, eraseIdx_cons_zero,
    filter_append, filter_append, filter_cons, hout]
  refine ⟨rfl, ?_⟩
  rw [length_append, length_append, length_cons, Nat.add_assoc]

/-- Another channel's entry stays in the list, and the loop does not end. -/
theorem removeLoop_endless (h : list.filter (fun d => d.lcn != lcn) ≠ []) :
    removeLoop lcn fuel list = none := by
  induction fuel generalizing list with
  | zero => rfl
  | succ fuel ih =>
    rw [removeLoop, if_neg (fun hnil => h (by rw [hnil]; rfl))]
    cases hfind : FindMuxSduData lcn list with
    | none => exact ih h
    | some index =>
      refine ih ?_
      rw [(filter_eraseIdx hfind).1]
      exact h

/-- With no other channel's entry, each turn erases one. -/
theorem removeLoop_empties (h : ∀ d ∈ list, d.lcn = lcn) (hfuel : list.length < fuel) :
    removeLoop lcn fuel list = some [] := by
  induction fuel generalizing list with
  | zero => exact absurd hfuel (Nat.not_lt_zero _)
  | succ fuel ih =>
    rw [removeLoop]
    by_cases hnil : list = []
    · rw [if_pos hnil, hnil]
    · rw [if_neg hnil]
      cases hfind : FindMuxSduData lcn list with
      | none =>
        obtain ⟨d, rest, rfl⟩ := exists_cons_of_ne_nil hnil
        exact absurd (h d mem_cons_self) (findMuxSduData_eq_none.mp hfind d mem_cons_self)
      | some index =>
        have hlength := (filter_eraseIdx hfind).2
        exact ih (fun d hd => h d (mem_of_mem_eraseIdx hd)) (by omega)

theorem filter_eq_nil_iff : list.filter (fun d => d.lcn != lcn) = [] ↔ ∀ d ∈ list, d.lcn = lcn := by
  rw [List.filter_eq_nil_iff]
  refine forall₂_congr fun d _ => ?_
  rw [Bool.not_eq_true]
  exact bne_eq_false_iff_eq

end Loop

/-! ## 3. A channel's entries are removed -/

namespace SduDataLists

variable {q q' : SduDataLists} {lcn fuel : Nat} {segmentable : Bool}

theorem queue_withQueue (q : SduDataLists) (lcn : Nat) (segmentable : Bool) (l : List ChannelSdu) :
    (q.withQueue lcn segmentable l).queue lcn segmentable = l := by
  unfold withQueue queue list
  by_cases hlcn : lcn = 0
  · rw [if_pos hlcn, if_pos hlcn]
  · rw [if_neg hlcn, if_neg hlcn]
    cases segmentable with
    | true => rfl
    | false => rfl

/-- **The entries of the other channels are left**, in their order, and the other lists. -/
def Removes (q : SduDataLists) (lcn : Nat) (segmentable : Bool) (q' : SduDataLists) : Prop :=
  q' = q.withQueue lcn segmentable
    ((q.queue lcn segmentable).filter fun d => d.lcn != lcn)

/-- The call returns if it is for the control channel, or no other channel has an entry. -/
theorem removeMuxSduData_isSome : (∃ fuel, (q.RemoveMuxSduData fuel lcn segmentable).isSome) ↔
    lcn = 0 ∨ ∀ d ∈ q.queue lcn segmentable, d.lcn = lcn := by
  unfold RemoveMuxSduData queue
  by_cases hlcn : lcn = 0
  · refine iff_of_true ⟨0, ?_⟩ (.inl hlcn)
    rw [if_pos hlcn]
    rfl
  · rw [if_neg hlcn]
    constructor
    · intro hsome
      obtain ⟨fuel, hsome⟩ := hsome
      rw [if_neg hlcn, Option.isSome_map] at hsome
      right
      by_contra hother
      rw [removeLoop_endless (mt filter_eq_nil_iff.mp hother)] at hsome
      exact Bool.false_ne_true hsome
    · intro hnone
      refine ⟨(q.list segmentable).length + 1, ?_⟩
      rw [if_neg hlcn, removeLoop_empties (hnone.resolve_left hlcn) (Nat.lt_succ_self _)]
      rfl

/-- **The entries of a channel are removed, and those of the others left, if and only if there are
    no others**, whatever is in the lists; and a MUX-SDU whose channel has no next packet is released
    under the same condition. -/
theorem removeMuxSduData_iff (q : SduDataLists) (lcn : Nat) (segmentable : Bool) :
    ((∃ fuel q', q.RemoveMuxSduData fuel lcn segmentable = some q' ∧
        q.Removes lcn segmentable q') ↔
      ∀ d ∈ q.queue lcn segmentable, d.lcn = lcn) ∧
    ∀ n, ((∃ fuel, (q.ReleaseMuxSdu fuel lcn segmentable n none).isSome) ↔
      lcn = 0 ∨ ∀ d ∈ q.queue lcn segmentable, d.lcn = lcn) := by
  refine ⟨?_, fun n => removeMuxSduData_isSome⟩
  unfold Removes
  constructor
  · intro hremoves
    obtain ⟨fuel, q', hcall, hleft⟩ := hremoves
    by_cases hlcn : lcn = 0
    · -- the control list is cleared
      unfold RemoveMuxSduData at hcall
      rw [if_pos hlcn] at hcall
      have hqueue := congrArg (fun q => queue q lcn segmentable) hleft
      rw [queue_withQueue, ← Option.some.inj hcall] at hqueue
      unfold queue at hqueue ⊢
      rw [if_pos hlcn, if_pos hlcn] at hqueue
      rw [if_pos hlcn]
      exact filter_eq_nil_iff.mp hqueue.symm
    · exact (removeMuxSduData_isSome.mp
        ⟨fuel, Option.isSome_iff_exists.mpr ⟨q', hcall⟩⟩).resolve_left hlcn
  · intro hnone
    rw [filter_eq_nil_iff.mpr hnone]
    unfold RemoveMuxSduData withQueue
    by_cases hlcn : lcn = 0
    · exact ⟨0, _, if_pos hlcn, (if_pos hlcn).symm⟩
    · unfold queue at hnone
      rw [if_neg hlcn] at hnone
      refine ⟨(q.list segmentable).length + 1, _, ?_, rfl⟩
      rw [if_neg hlcn, removeLoop_empties hnone (Nat.lt_succ_self _), Option.map_some, if_neg hlcn]

/-- The control channel and two segmentable channels, each with a packet. -/
def twoChannels : List OutgoingChannel :=
  [⟨0, true, none⟩, ⟨1, true, some [[1, 2]]⟩, ⟨2, true, some [[3]]⟩]

/-- **Two channels in work**: closing or flushing the first does not return, nor does the release of
    its MUX-SDU once the channel has no other. -/
theorem two_channels_endless :
    ¬ (∃ fuel, ((empty.UpdateSduDataLists twoChannels).RemoveMuxSduData fuel 1 true).isSome) ∧
      ¬ ∃ fuel, ((empty.UpdateSduDataLists twoChannels).ReleaseMuxSdu fuel 1 true 0 none).isSome := by
  have hqueue : (empty.UpdateSduDataLists twoChannels).queue 1 true =
      [⟨1, MuxSduData.queued [[1, 2]] true⟩, ⟨2, MuxSduData.queued [[3]] true⟩] := by decide
  have hother : ¬ (1 = 0 ∨ ∀ d ∈ (empty.UpdateSduDataLists twoChannels).queue 1 true, d.lcn = 1) := by
    rw [hqueue]
    decide
  exact ⟨mt removeMuxSduData_isSome.mp hother, mt removeMuxSduData_isSome.mp hother⟩

end SduDataLists

end OpenCore.H223
