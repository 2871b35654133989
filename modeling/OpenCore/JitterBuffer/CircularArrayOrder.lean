/-
  File:      OpenCore/JitterBuffer/CircularArrayOrder.lean
  Subject:   IN WHICH ORDER THE CIRCULAR ARRAY GIVES ITS PACKETS BACK.

  Packets carry 16-bit sequence numbers, and "before" means fewer steps forward from the last
  retrieved number (serial order, for windows of up to half the number space the order of
  RFC 1982). The array reads its slots round the ring, and the slot is a difference in 32 bits.
  The two orders agree exactly when the packets' slots lie ahead of the read offset in the order of
  their numbers (`SlotsInOrder`).
-/
import OpenCore.JitterBuffer.CircularArrayCount

namespace OpenCore.JitterBuffer.CircularArray

open List

variable {a : CircularArray}

/-! ## 1. Filling and emptying an array -/

/-- The packets added in the order of their arrival. -/
def addAll (a : CircularArray) (aSeqNumBase : Nat) (ps : List MediaData) : CircularArray :=
  ps.foldl (fun a p => (a.addElement p aSeqNumBase).1) a

/-- `retrieveElement` until it finds nothing; `none` is a loop that has not ended. -/
def retrieveAll : Nat → CircularArray → Option (List MediaData)
  | 0, _ => none
  | fuel + 1, a =>
    match a.retrieveElement with
    | (_, none) => some []
    | (a', some p) => (retrieveAll fuel a').map (p :: ·)

/-- How many steps forward `seqNum` lies from the last retrieved number, in 16 bits. -/
def serialDist (lastSeqNum seqNum : Nat) : Nat := ringPos 65536 lastSeqNum seqNum

/-- Every packet comes back once (the first to arrive of each number), in serial order. -/
def ReadsInOrder (a : CircularArray) (aSeqNumBase lastSeqNum : Nat) (ps : List MediaData) : Prop :=
  ∃ out, retrieveAll (a.iArraySize + 1) (addAll a aSeqNumBase ps) = some out ∧
    out.Pairwise (fun p q => serialDist lastSeqNum p.seqNum < serialDist lastSeqNum q.seqNum) ∧
    ∀ p, p ∈ out ↔ ps.find? (fun q => decide (q.seqNum = p.seqNum)) = some p

/-- The slots of the packets lie ahead of the read offset in the serial order of their numbers. -/
def SlotsInOrder (a : CircularArray) (aSeqNumBase lastSeqNum : Nat) (ps : List MediaData) : Prop :=
  ∀ p ∈ ps, ∀ q ∈ ps, serialDist lastSeqNum p.seqNum < serialDist lastSeqNum q.seqNum →
    ringPos a.iArraySize a.iReadOffset (a.slot aSeqNumBase p.seqNum) <
      ringPos a.iArraySize a.iReadOffset (a.slot aSeqNumBase q.seqNum)

/-! ## 2. Retrieving everything reads the ring -/

variable {vec : List (Option MediaData)}

theorem retrieveLoop_ring_some {tries r count r' c' : Nat}
    {p : MediaData} (hn : 0 < vec.length) (hr : r ≤ vec.length)
    (h : retrieveLoop vec vec.length tries r count = (some p, r', c')) :
    ringList vec r = p :: ringList (vec.set (r' - 1) none) r' := by
  induction tries generalizing r count with
  | zero => cases h
  | succ tries ih =>
    have hoff := Nat.mod_lt r hn
    rw [retrieveLoop] at h
    simp only [wrap_eq_mod hr] at h
    rw [← ringList_mod vec r]
    split at h
    · rename_i q hq
      obtain ⟨_, he⟩ := getElem?_join_some hq
      cases h
      exact ringList_take hoff he
    · rename_i hq
      rw [ringList_skip hoff (getElem?_join_none hq hoff)]
      exact ih hoff h

theorem retrieveLoop_none {tries r count r' c' : Nat}
    (hn : 0 < vec.length) (hr : r ≤ vec.length)
    (h : retrieveLoop vec vec.length tries r count = (none, r', c')) :
    ∀ j < tries, (vec[(r + j) % vec.length]?).join = none := by
  induction tries generalizing r count with
  | zero => exact fun j hj => absurd hj (Nat.not_lt_zero j)
  | succ tries ih =>
    have hoff := Nat.mod_lt r hn
    rw [retrieveLoop] at h
    simp only [wrap_eq_mod hr] at h
    split at h
    · cases h
    · rename_i hq
      intro j hj
      cases j with
      | zero => exact hq
      | succ j =>
        have := ih (r := r % vec.length + 1) hoff h j (Nat.lt_of_succ_lt_succ hj)
        rwa [Nat.add_assoc, Nat.mod_add_mod, Nat.add_comm 1] at this

/-- The search gives up only on an empty array. -/
theorem retrieveLoop_ring_none {r r' c' : Nat}
    (hn : 0 < vec.length) (hr : r ≤ vec.length)
    (h : retrieveLoop vec vec.length (vec.length + 1) r 0 = (none, r', c')) :
    ringList vec r = [] := by
  refine ringList_eq_nil fun o ho => ?_
  obtain ⟨i, hi, rfl⟩ := getElem_of_mem ho
  have h1 := retrieveLoop_none hn hr h (ringPos vec.length r i)
    (Nat.lt_succ_of_lt (ringPos_lt hn r i))
  rw [add_ringPos hn r hi] at h1
  exact getElem?_join_none h1 hi

/-- **Retrieving until nothing is left gives the ring from the read offset on.** -/
theorem retrieveAll_eq {fuel : Nat} (hi : Inv a)
    (hf : (ringList a.iMediaPtrVec a.iReadOffset).length < fuel) :
    retrieveAll fuel a = some (ringList a.iMediaPtrVec a.iReadOffset) := by
  induction fuel generalizing a with
  | zero => exact absurd hf (Nat.not_lt_zero _)
  | succ fuel ih =>
    have hs := hi.shape
    have hlen := hs.length
    have hn : 0 < a.iMediaPtrVec.length := hlen ▸ hs.size_pos
    have hr : a.iReadOffset ≤ a.iMediaPtrVec.length := hlen ▸ hs.read
    obtain ⟨o, r, c, h⟩ : ∃ o r c, retrieveLoop a.iMediaPtrVec a.iArraySize (a.iArraySize + 1)
        a.iReadOffset 0 = (o, r, c) := ⟨_, _, _, rfl⟩
    cases o with
    | none =>
      have h0 := retrieveElement_none h
      rw [← hlen] at h
      rw [retrieveAll, h0, retrieveLoop_ring_none hn hr h]
    | some p =>
      obtain ⟨h2, -, hread, hvec, -⟩ := retrieveElement_some h
      have hi' := (retrieveElement_spec hi).1
      rw [← hlen] at h
      have hring := retrieveLoop_ring_some hn hr h
      rw [hring, length_cons] at hf
      rw [← hvec, ← hread] at hring hf
      have hrest := ih hi' (Nat.lt_of_succ_lt_succ hf)
      have hpair : a.retrieveElement = (a.retrieveElement.1, some p) := Prod.ext rfl h2
      rw [retrieveAll, hpair]
      simp only [hrest, Option.map_some, hring]

/-! ## 3. Where the packets lie -/

/-- What slot `t` holds. -/
def content (a : CircularArray) (t : Nat) : Option MediaData := (a.iMediaPtrVec[t]?).join

theorem addElement_size_read (p : MediaData) (base : Nat) :
    (a.addElement p base).1.iArraySize = a.iArraySize ∧
      (a.addElement p base).1.iReadOffset = a.iReadOffset := by
  cases h : (a.iMediaPtrVec[a.slot base p.seqNum]?).join with
  | none => rw [addElement_free h]; exact ⟨rfl, rfl⟩
  | some cur =>
    by_cases he : cur.seqNum = p.seqNum
    · rw [addElement_duplicate h he]; exact ⟨rfl, rfl⟩
    · rw [addElement_overwrite h he]; exact ⟨rfl, rfl⟩

/-- A packet goes into its own slot, unless that slot holds its number already. -/
theorem addElement_vec (p : MediaData) (base : Nat) :
    (a.addElement p base).1.iMediaPtrVec = a.iMediaPtrVec.set (a.slot base p.seqNum) (some p) ∨
      ((a.addElement p base).1.iMediaPtrVec = a.iMediaPtrVec ∧
        ∃ cur, a.content (a.slot base p.seqNum) = some cur ∧ cur.seqNum = p.seqNum) := by
  cases h : (a.iMediaPtrVec[a.slot base p.seqNum]?).join with
  | none => rw [addElement_free h]; exact .inl rfl
  | some cur =>
    by_cases he : cur.seqNum = p.seqNum
    · rw [addElement_duplicate h he]; exact .inr ⟨rfl, cur, h, he⟩
    · rw [addElement_overwrite h he]; exact .inl rfl

/-- Every packet lies in the slot of its number. -/
def Placed (base : Nat) (a : CircularArray) : Prop :=
  ∀ (i : Nat) (hi : i < a.iMediaPtrVec.length) (p : MediaData),
    a.iMediaPtrVec[i] = some p → a.slot base p.seqNum = i

theorem slot_congr {b : CircularArray} (h : b.iArraySize = a.iArraySize) (base s : Nat) :
    b.slot base s = a.slot base s := by rw [slot, slot, h]

theorem placed_addElement {base : Nat} (hp : Placed base a) (p : MediaData) :
    Placed base (a.addElement p base).1 := by
  intro i hi q hq
  rw [slot_congr (addElement_size_read p base).1]
  rcases addElement_vec (a := a) p base with h | ⟨h, -⟩
  · simp only [h, length_set] at hi
    simp only [h, getElem_set] at hq
    split at hq
    · cases hq; assumption
    · exact hp i hi q hq
  · simp only [h] at hi hq
    exact hp i hi q hq

theorem addAll_spec {base : Nat} (hi : Inv a) (hp : Placed base a) (ps : List MediaData) :
    Inv (addAll a base ps) ∧ Placed base (addAll a base ps) ∧
      (addAll a base ps).iArraySize = a.iArraySize ∧
      (addAll a base ps).iReadOffset = a.iReadOffset := by
  induction ps generalizing a with
  | nil => exact ⟨hi, hp, rfl, rfl⟩
  | cons p ps ih =>
    obtain ⟨h1, h2⟩ := addElement_size_read (a := a) p base
    obtain ⟨h3, h4, h5, h6⟩ := ih (addElement_inv hi p base) (placed_addElement hp p)
    exact ⟨h3, h4, h5.trans h1, h6.trans h2⟩

/-- **Where no two numbers share a slot, each slot holds the first packet that arrived for it.** -/
theorem addAll_content {base : Nat} {seen ps : List MediaData} (hi : Inv a)
    (hinj : ∀ p ∈ seen ++ ps, ∀ q ∈ seen ++ ps,
      a.slot base p.seqNum = a.slot base q.seqNum → p.seqNum = q.seqNum)
    (hc : ∀ t < a.iArraySize,
      a.content t = seen.find? fun p => decide (a.slot base p.seqNum = t)) :
    ∀ t < a.iArraySize,
      (addAll a base ps).content t =
        (seen ++ ps).find? fun p => decide (a.slot base p.seqNum = t) := by
  induction ps generalizing a seen with
  | nil => rw [append_nil]; exact hc
  | cons p ps ih =>
    have hsz := (addElement_size_read (a := a) p base).1
    have hslot : (a.addElement p base).1.slot base = a.slot base :=
      funext fun s => slot_congr hsz base s
    have hlt := hi.shape.slot_lt base p.seqNum
    have hstep : ∀ t < a.iArraySize, (a.addElement p base).1.content t =
        (seen ++ [p]).find? fun p => decide (a.slot base p.seqNum = t) := by
      intro t ht
      rw [find?_append, ← hc t ht]
      have hseen : ∀ cur, a.content (a.slot base p.seqNum) = some cur →
          cur.seqNum = p.seqNum := by
        intro cur hcur
        rw [hc _ (hi.shape.length ▸ hlt)] at hcur
        have hmem := mem_of_find?_eq_some hcur
        have heq := find?_some hcur
        rw [decide_eq_true_eq] at heq
        exact hinj cur (mem_append_left _ hmem) p
          (mem_append_right _ mem_cons_self) heq
      by_cases hst : a.slot base p.seqNum = t
      · subst hst
        simp only [find?_singleton, decide_true, if_true]
        cases h : a.content (a.slot base p.seqNum) with
        | none => rw [addElement_free h]; simp [content, hlt]
        | some cur => rw [addElement_duplicate h (hseen cur h)]; exact h
      · simp only [find?_singleton, decide_eq_true_eq, if_neg hst, Option.or_none]
        rcases addElement_vec (a := a) p base with h | ⟨h, -⟩
        · rw [content, h, getElem?_set_ne hst, content]
        · rw [content, h, content]
    have hassoc : (seen ++ [p]) ++ ps = seen ++ p :: ps := append_assoc seen [p] ps
    have hinj' : ∀ q ∈ (seen ++ [p]) ++ ps, ∀ r ∈ (seen ++ [p]) ++ ps,
        (a.addElement p base).1.slot base q.seqNum = (a.addElement p base).1.slot base r.seqNum →
          q.seqNum = r.seqNum := by
      rw [hassoc, hslot]
      exact hinj
    have h := ih (addElement_inv hi p base) hinj' (by rw [hsz, hslot]; exact hstep)
    rw [hsz, hslot, append_assoc] at h
    exact h

/-! ## 4. The two orders -/

section Orders

variable {base lastSeqNum : Nat} {ps : List MediaData}

theorem seqNum_eq_of_dist {s t : Nat} (hs : s < 65536) (ht : t < 65536)
    (h : serialDist lastSeqNum s = serialDist lastSeqNum t) : s = t :=
  ringPos_inj (by decide) hs ht h

/-- Slots in order are different slots. -/
theorem SlotsInOrder.inj (h : SlotsInOrder a base lastSeqNum ps)
    (h16 : ∀ p ∈ ps, p.seqNum < 65536) :
    ∀ p ∈ ps, ∀ q ∈ ps, a.slot base p.seqNum = a.slot base q.seqNum → p.seqNum = q.seqNum := by
  intro p hp q hq hpq
  rcases Nat.lt_trichotomy (serialDist lastSeqNum p.seqNum) (serialDist lastSeqNum q.seqNum) with
    hlt | heq | hgt
  · have := h p hp q hq hlt
    rw [hpq] at this
    exact absurd this (Nat.lt_irrefl _)
  · exact seqNum_eq_of_dist (h16 p hp) (h16 q hq) heq
  · have := h q hq p hp hgt
    rw [hpq] at this
    exact absurd this (Nat.lt_irrefl _)

/-- What comes back, whatever the slots do: the ring, in the order of the slots. -/
theorem retrieveAll_addAll (hi : Inv a) (he : ∀ o ∈ a.iMediaPtrVec, o = none) :
    ∃ out, retrieveAll (a.iArraySize + 1) (addAll a base ps) = some out ∧
      out.Pairwise (fun p q =>
        ringPos a.iArraySize a.iReadOffset (a.slot base p.seqNum) <
          ringPos a.iArraySize a.iReadOffset (a.slot base q.seqNum)) ∧
      ∀ p, p ∈ out ↔ (addAll a base ps).content (a.slot base p.seqNum) = some p := by
  have hp : Placed base a := fun i hi p hp => by cases he _ (hp ▸ getElem_mem hi)
  obtain ⟨h1, h2, h3, h4⟩ := addAll_spec hi hp ps
  have hlen : (addAll a base ps).iMediaPtrVec.length = a.iArraySize := h1.shape.length.trans h3
  have hord := ringList_pairwise (r := a.iReadOffset)
    (f := fun p : MediaData => (addAll a base ps).slot base p.seqNum) h2
  simp only [hlen, slot_congr h3] at hord
  refine ⟨_, ?_, hord, fun p => ?_⟩
  · rw [← h4]
    refine retrieveAll_eq h1 (Nat.lt_succ_of_le ?_)
    refine (reduceOption_length_le _).trans ?_
    rw [length_rotate, hlen]
  · rw [mem_ringList]
    constructor
    · intro hm
      obtain ⟨i, hi', hip⟩ := getElem_of_mem hm
      have hsl := h2 i hi' p hip
      rw [slot_congr h3] at hsl
      rw [hsl, content, getElem?_eq_getElem hi', hip]
      rfl
    · intro hc
      obtain ⟨hi', hip⟩ := getElem?_join_some hc
      exact hip ▸ getElem_mem hi'

theorem readsInOrder_of_slotsInOrder (hi : Inv a) (he : ∀ o ∈ a.iMediaPtrVec, o = none)
    (h16 : ∀ p ∈ ps, p.seqNum < 65536) (h : SlotsInOrder a base lastSeqNum ps) :
    ReadsInOrder a base lastSeqNum ps := by
  have hinj := h.inj h16
  obtain ⟨out, hout, hord, hmem⟩ := retrieveAll_addAll hi he
  have hslot : ∀ s, a.slot base s < a.iArraySize := fun s => Nat.mod_lt _ hi.shape.size_pos
  have hempty : ∀ t < a.iArraySize,
      a.content t = [].find? fun p : MediaData => decide (a.slot base p.seqNum = t) := by
    intro t ht
    have hl : t < a.iMediaPtrVec.length := hi.shape.length ▸ ht
    rw [content, getElem?_eq_getElem hl, he _ (getElem_mem hl)]
    rfl
  have hmem' : ∀ p, p ∈ out ↔ ps.find? (fun q => decide (q.seqNum = p.seqNum)) = some p := by
    intro p
    rw [hmem, addAll_content hi hinj hempty _ (hslot _), nil_append]
    have hcongr : p ∈ ps → ps.find? (fun q => decide (a.slot base q.seqNum = a.slot base p.seqNum)) =
        ps.find? (fun q => decide (q.seqNum = p.seqNum)) := by
      intro hp
      refine find?_congr fun q hq => ?_
      exact decide_eq_decide.mpr ⟨hinj q hq p hp, fun e => by rw [e]⟩
    constructor
    · intro hf; rw [← hcongr (mem_of_find?_eq_some hf)]; exact hf
    · intro hf; rw [hcongr (mem_of_find?_eq_some hf)]; exact hf
  refine ⟨out, hout, hord.imp_of_mem fun {p q} hp hq hpq => ?_, hmem'⟩
  have hp := mem_of_find?_eq_some ((hmem' p).mp hp)
  have hq := mem_of_find?_eq_some ((hmem' q).mp hq)
  rcases Nat.lt_trichotomy (serialDist lastSeqNum p.seqNum) (serialDist lastSeqNum q.seqNum) with
    hlt | heq | hgt
  · exact hlt
  · rw [seqNum_eq_of_dist (h16 p hp) (h16 q hq) heq] at hpq
    exact absurd hpq (Nat.lt_irrefl _)
  · exact absurd (h q hq p hp hgt) (Nat.lt_asymm hpq)

theorem slotsInOrder_of_readsInOrder (hi : Inv a) (he : ∀ o ∈ a.iMediaPtrVec, o = none)
    (h : ReadsInOrder a base lastSeqNum ps) : SlotsInOrder a base lastSeqNum ps := by
  obtain ⟨out, hout, hdist, hmem⟩ := h
  obtain ⟨out', hout', hord, -⟩ := retrieveAll_addAll hi he
  rw [hout] at hout'
  cases hout'
  -- every arriving number is in the output, under the first packet that carried it
  have hfirst : ∀ p ∈ ps, ∃ p' ∈ out, p'.seqNum = p.seqNum := by
    intro p hp
    have hsome : (ps.find? fun q => decide (q.seqNum = p.seqNum)).isSome :=
      find?_isSome.mpr ⟨p, hp, decide_eq_true rfl⟩
    obtain ⟨p', hp'⟩ := Option.isSome_iff_exists.mp hsome
    have hseq := find?_some hp'
    rw [decide_eq_true_eq] at hseq
    exact ⟨p', (hmem p').mpr (by rw [hseq]; exact hp'), hseq⟩
  intro p hp q hq hlt
  obtain ⟨p', hp', hps⟩ := hfirst p hp
  obtain ⟨q', hq', hqs⟩ := hfirst q hq
  rw [← hps, ← hqs] at hlt ⊢
  obtain ⟨i, hi', rfl⟩ := getElem_of_mem hp'
  obtain ⟨j, hj', rfl⟩ := getElem_of_mem hq'
  rcases Nat.lt_trichotomy i j with hij | rfl | hij
  · exact pairwise_iff_getElem.mp hord i j hi' hj' hij
  · exact absurd hlt (Nat.lt_irrefl _)
  · exact absurd hlt (Nat.lt_asymm (pairwise_iff_getElem.mp hdist j i hj' hi' hij))

end Orders

end OpenCore.JitterBuffer.CircularArray
