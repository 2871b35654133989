/-
  File:      OpenCore/JitterBuffer/CircularArrayCount.lean
  Subject:   WHAT THE COUNTERS OF THE CIRCULAR ARRAY COUNT, over every run of calls.

  The element count and the occupancy are the number of occupied slots after every call. The byte
  total is not: a duplicate adds bytes it does not store, and an overwrite keeps the bytes of the
  packet it throws out. The runs that keep it are those whose `addElement` calls meet `keepsBytes`,
  a condition on the packet and the slot it falls in. Every other call keeps it.
-/
import OpenCore.Lib.Run
import OpenCore.Lib.Ring
import OpenCore.JitterBuffer.CircularArray

namespace OpenCore.JitterBuffer.CircularArray

open List Option
open CircularArray.Stats (arrive register)

/-! ## 1. Sums over the slots -/

/-- The bytes of a packet, without the 32-bit loop. -/
def bytes (p : MediaData) : Nat := p.fragments.sum

/-- The slots that hold a packet. -/
def occupied (vec : List (Option MediaData)) : Nat := vec.countP Option.isSome

/-- The bytes of all packets in the slots. -/
def storedBytes (vec : List (Option MediaData)) : Nat := (vec.map fun o => o.elim 0 bytes).sum

theorem foldl_add32 (fs : List Nat) {acc : Nat} (h : acc < 4294967296) :
    fs.foldl add32 acc = (acc + fs.sum) % 4294967296 := by
  induction fs generalizing acc with
  | nil => simp [Nat.mod_eq_of_lt h]
  | cons f fs ih =>
    rw [foldl_cons, ih (add32_lt acc f), sum_cons]
    unfold add32
    omega

theorem packetSize_eq (p : MediaData) : packetSize p = bytes p % 4294967296 := by
  unfold packetSize bytes
  rw [foldl_add32 _ (by decide), Nat.zero_add]

variable {vec : List (Option MediaData)} {i : Nat}

variable {p : MediaData}

/-- A slot of the vector, read the way the code reads it. -/
theorem getElem?_join_some (h : (vec[i]?).join = some p) :
    ∃ hi : i < vec.length, vec[i] = some p := by
  obtain ⟨hi, e⟩ := List.getElem?_eq_some_iff.mp (join_eq_some_iff.mp h)
  exact ⟨hi, e⟩

theorem getElem?_join_none (h : (vec[i]?).join = none) (hi : i < vec.length) :
    vec[i] = none := by
  rw [getElem?_eq_getElem hi] at h
  simpa using h

theorem storedBytes_set (hi : i < vec.length) (o : Option MediaData) :
    storedBytes (vec.set i o) + vec[i].elim 0 bytes = storedBytes vec + o.elim 0 bytes := by
  induction vec generalizing i with
  | nil => exact absurd hi (Nat.not_lt_zero _)
  | cons x xs ih =>
    cases i with
    | zero =>
      simp only [storedBytes, set_cons_zero, map_cons, sum_cons,
        getElem_cons_zero]
      omega
    | succ i =>
      have h := ih (i := i) (Nat.lt_of_succ_lt_succ hi)
      simp only [storedBytes, set_cons_succ, map_cons, sum_cons,
        getElem_cons_succ] at h ⊢
      omega

theorem occupied_set (hi : i < vec.length) (o : Option MediaData) :
    occupied (vec.set i o) + (if vec[i].isSome then 1 else 0) =
      occupied vec + if o.isSome then 1 else 0 := by
  unfold occupied
  rw [countP_set hi]
  have : (if vec[i].isSome then 1 else 0) ≤ vec.countP isSome := by
    split
    · rename_i h
      exact countP_pos_iff.mpr ⟨_, getElem_mem hi, h⟩
    · exact Nat.zero_le _
  omega

theorem occupied_le : occupied vec ≤ vec.length := countP_le_length

theorem bytes_le_stored (h : (vec[i]?).join = some p) :
    bytes p ≤ storedBytes vec := by
  obtain ⟨hi, e⟩ := getElem?_join_some h
  have := storedBytes_set hi none
  simp only [e, elim_some, elim_none] at this
  omega

theorem storedBytes_clear_slot (h : (vec[i]?).join = some p) :
    storedBytes (vec.set i none) + bytes p = storedBytes vec := by
  obtain ⟨hi, e⟩ := getElem?_join_some h
  simpa [e] using storedBytes_set hi none

theorem occupied_clear_slot (h : (vec[i]?).join = some p) :
    occupied (vec.set i none) + 1 = occupied vec := by
  obtain ⟨hi, e⟩ := getElem?_join_some h
  simpa [e] using occupied_set hi none

theorem storedBytes_replicate (n : Nat) : storedBytes (replicate n none) = 0 := by
  simp [storedBytes]

theorem occupied_replicate (n : Nat) : occupied (replicate n none) = 0 := by
  simp [occupied, countP_replicate]

/-! ## 2. The invariant -/

/-- What every call keeps: the shape of the array, and a read offset at most one past its end. -/
structure Shape (a : CircularArray) : Prop where
  size_pos : 0 < a.iArraySize
  size_lt : a.iArraySize + 1 < 4294967296
  length : a.iMediaPtrVec.length = a.iArraySize
  read : a.iReadOffset ≤ a.iArraySize
  left_lt : a.iJitterBufferStats.packetSizeInBytesLeftInBuffer < 4294967296

/-- The element count is the number of occupied slots. -/
def Counted (a : CircularArray) : Prop := a.iNumElems = occupied a.iMediaPtrVec

/-- The byte total is the sum of the sizes of the stored packets. -/
def BytesExact (a : CircularArray) : Prop :=
  a.iJitterBufferStats.packetSizeInBytesLeftInBuffer = storedBytes a.iMediaPtrVec

/-- The count and the reported occupancy are both the number of occupied slots. -/
def CountsExact (a : CircularArray) : Prop :=
  a.iNumElems = occupied a.iMediaPtrVec ∧
    a.iJitterBufferStats.currentOccupancy = occupied a.iMediaPtrVec

/-- The invariant of every run of calls. -/
structure Inv (a : CircularArray) : Prop where
  shape : Shape a
  counts : CountsExact a

/-- Everything the statistics report is exact. -/
def Exact (a : CircularArray) : Prop := CountsExact a ∧ BytesExact a

variable {a : CircularArray}

theorem Shape.slot_lt (h : Shape a) (base seq : Nat) :
    a.slot base seq < a.iMediaPtrVec.length := by
  rw [h.length]
  exact Nat.mod_lt _ h.size_pos

theorem Shape.occupied_le (h : Shape a) : occupied a.iMediaPtrVec ≤ a.iArraySize :=
  le_of_le_of_eq CircularArray.occupied_le h.length

theorem Shape.setReadOffset (h : Shape a) (s : Nat) : Shape (a.setReadOffset s) where
  size_pos := h.size_pos
  size_lt := h.size_lt
  length := h.length
  read := le_of_lt (Nat.mod_lt _ h.size_pos)
  left_lt := h.left_lt

theorem inv_new {n : Nat} (h0 : 0 < n) (hn : n + 1 < 4294967296) : Inv (new n) where
  shape := ⟨h0, hn, length_replicate, Nat.zero_le _, by simp [new]⟩
  counts := ⟨(occupied_replicate n).symm, (occupied_replicate n).symm⟩

theorem exact_new (n : Nat) : Exact (new n) :=
  ⟨⟨(occupied_replicate n).symm, (occupied_replicate n).symm⟩, (storedBytes_replicate n).symm⟩

/-! ## 3. Unbinding a packet -/

@[simp] theorem unbind_iMediaPtrVec (p : MediaData) :
    (a.unbind i p).iMediaPtrVec = a.iMediaPtrVec.set i none := rfl

theorem Shape.unbind (h : Shape a) (p : MediaData) : Shape (a.unbind i p) where
  size_pos := h.size_pos
  size_lt := h.size_lt
  length := length_set.trans h.length
  read := h.read
  left_lt := sub32_lt _ _

/-- Taking the packet's 32-bit size off keeps the byte total exact. -/
theorem BytesExact.sub {left p : _} (hl : left < 4294967296) (hb : left = storedBytes vec)
    (h : (vec[i]?).join = some p) :
    sub32 left (packetSize p) = storedBytes (vec.set i none) := by
  have h1 := storedBytes_clear_slot h
  rw [packetSize_eq]
  unfold sub32
  omega

theorem BytesExact.unbind (hs : Shape a) (hb : BytesExact a)
    (h : (a.iMediaPtrVec[i]?).join = some p) : BytesExact (a.unbind i p) :=
  BytesExact.sub hs.left_lt hb h

/-- What the loop over the whole vector has cleared: every slot it passed. -/
theorem unbindAll_spec {left : Nat} (hs : Shape a)
    (hi : i + left = a.iMediaPtrVec.length)
    (hc : ∀ j (hj : j < a.iMediaPtrVec.length), j < i → a.iMediaPtrVec[j] = none) :
    Shape (a.unbindAll left i) ∧ occupied (a.unbindAll left i).iMediaPtrVec = 0 ∧
      (BytesExact a → BytesExact (a.unbindAll left i)) := by
  induction left generalizing a i with
  | zero =>
    refine ⟨hs, ?_, id⟩
    rw [unbindAll, occupied, countP_eq_zero]
    intro o ho
    obtain ⟨j, hj, rfl⟩ := getElem_of_mem ho
    rw [hc j hj (by omega)]
    decide
  | succ left ih =>
    have hlt : i < a.iMediaPtrVec.length := by omega
    rw [unbindAll]
    split
    · rename_i p hp
      have hlen : (a.unbind i p).iMediaPtrVec.length = a.iMediaPtrVec.length := by
        rw [unbind_iMediaPtrVec, length_set]
      obtain ⟨h1, h2, h3⟩ := ih (i := i + 1) (hs.unbind (i := i) p) (by omega) fun j hj hji => by
        rcases Nat.lt_or_ge j i with h | h
        · simp only [unbind_iMediaPtrVec]
          rw [getElem_set_ne (by omega)]
          exact hc j (by omega) h
        · have e : j = i := by omega
          subst e
          simp only [unbind_iMediaPtrVec, getElem_set_self]
      exact ⟨h1, h2, fun hb => h3 (hb.unbind hs hp)⟩
    · rename_i hp
      refine ih hs (by omega) fun j hj hji => ?_
      rcases Nat.lt_or_ge j i with h | h
      · exact hc j hj h
      · have e : j = i := by omega
        subst e
        exact getElem?_join_none hp hj

theorem dropAll_spec (hs : Shape a) :
    Shape a.dropAll ∧ Counted a.dropAll ∧ (BytesExact a → BytesExact a.dropAll) := by
  obtain ⟨h1, h2, h3⟩ := unbindAll_spec (i := 0) hs (Nat.zero_add _)
    fun j _ hj => absurd hj (Nat.not_lt_zero _)
  exact ⟨⟨h1.size_pos, h1.size_lt, h1.length, h1.read, h1.left_lt⟩, h2.symm, h3⟩

theorem Shape.isEmpty (hs : Shape a) : a.iMediaPtrVec.isEmpty = false := by
  have h1 := hs.length
  have h2 := hs.size_pos
  cases h : a.iMediaPtrVec with
  | nil => rw [h] at h1; simp at h1; omega
  | cons => rfl

theorem afterPurge_spec (s : Nat) (hs : Shape a) (hc : Counted a) :
    Inv (a.afterPurge s) ∧ (BytesExact a → BytesExact (a.afterPurge s)) :=
  ⟨⟨⟨hs.size_pos, hs.size_lt, hs.length, le_of_lt (Nat.mod_lt _ hs.size_pos), hs.left_lt⟩,
    hc, hc⟩, id⟩

theorem purgeAllElements_spec (s : Nat) (hs : Shape a) :
    Inv (a.purgeAllElements s) ∧ (BytesExact a → BytesExact (a.purgeAllElements s)) := by
  obtain ⟨h1, h2, h3⟩ := dropAll_spec hs
  unfold purgeAllElements
  rw [hs.isEmpty, if_neg Bool.false_ne_true]
  obtain ⟨h4, h5⟩ := afterPurge_spec s h1 h2
  exact ⟨h4, h5 ∘ h3⟩

/-! ## 4. The purge by sequence number -/

theorem sub32_one_of_occupied (hs : Shape a) (hc : Counted a)
    (h : (a.iMediaPtrVec[i]?).join = some p) :
    sub32 a.iNumElems 1 = occupied (a.iMediaPtrVec.set i none) := by
  have h1 := occupied_clear_slot h
  have h2 := hs.occupied_le
  have h3 := hs.size_lt
  rw [hc, sub32_eq (by omega) (by omega)]
  omega

@[simp] theorem purge_iArraySize (p : MediaData) : (a.purge i p).iArraySize = a.iArraySize := rfl

@[simp] theorem purge_iNumElems (p : MediaData) :
    (a.purge i p).iNumElems = sub32 a.iNumElems 1 := rfl

@[simp] theorem purge_iMediaPtrVec (p : MediaData) :
    (a.purge i p).iMediaPtrVec = a.iMediaPtrVec.set i none := rfl

@[simp] theorem purge_left (p : MediaData) :
    (a.purge i p).iJitterBufferStats.packetSizeInBytesLeftInBuffer =
      sub32 a.iJitterBufferStats.packetSizeInBytesLeftInBuffer (packetSize p) := rfl

theorem Shape.purge (hs : Shape a) (p : MediaData) : Shape (a.purge i p) where
  size_pos := hs.size_pos
  size_lt := by rw [purge_iArraySize]; exact hs.size_lt
  length := by rw [purge_iMediaPtrVec, length_set, purge_iArraySize, hs.length]
  read := hs.read
  left_lt := by rw [purge_left]; exact sub32_lt _ _

/-- One packet out, with the count: the step of both purging loops. -/
theorem purge_spec (hs : Shape a) (hc : Counted a)
    (h : (a.iMediaPtrVec[i]?).join = some p) :
    Counted (a.purge i p) ∧ (BytesExact a → BytesExact (a.purge i p)) := by
  refine ⟨?_, fun hb => ?_⟩
  · rw [Counted, purge_iNumElems, purge_iMediaPtrVec]
    exact sub32_one_of_occupied hs hc h
  · rw [BytesExact, purge_left, purge_iMediaPtrVec]
    exact BytesExact.sub hs.left_lt hb h

/-- Moving the read offset inside the array keeps its shape. -/
theorem Shape.withRead (hs : Shape a) {r : Nat} (hr : r ≤ a.iArraySize) :
    Shape { a with iReadOffset := r } :=
  ⟨hs.size_pos, hs.size_lt, hs.length, hr, hs.left_lt⟩

theorem purgeSeqLoop_spec (s start left : Nat) (hs : Shape a) (hc : Counted a) :
    Shape (purgeSeqLoop s start left i a) ∧ Counted (purgeSeqLoop s start left i a) ∧
      (BytesExact a → BytesExact (purgeSeqLoop s start left i a)) := by
  induction left generalizing a i with
  | zero => exact ⟨hs, hc, id⟩
  | succ left ih =>
    rw [purgeSeqLoop]
    split
    · rename_i p hp
      split
      · obtain ⟨h2, h3⟩ := purge_spec hs hc hp
        obtain ⟨h4, h5, h6⟩ := ih (i := i + 1) (hs.purge p) h2
        exact ⟨h4, h5, h6 ∘ h3⟩
      · exact ih hs hc
    · exact ih hs hc

theorem purgeElementsWithSeqNumsLessThan_spec (s : Nat) (hs : Shape a) (hc : Counted a) :
    Inv (a.purgeElementsWithSeqNumsLessThan s) ∧
      (BytesExact a → BytesExact (a.purgeElementsWithSeqNumsLessThan s)) := by
  unfold purgeElementsWithSeqNumsLessThan
  rw [hs.isEmpty, if_neg Bool.false_ne_true]
  split
  · obtain ⟨h1, h2, h3⟩ := dropAll_spec hs
    obtain ⟨h4, h5⟩ := afterPurge_spec s h1 h2
    exact ⟨h4, h5 ∘ h3⟩
  · split
    · obtain ⟨h1, h2, h3⟩ := purgeSeqLoop_spec (i := 0) s
        (add32 (sub32 a.iLastRetrievedSeqNum a.iFirstSeqNumAdded) 1 % a.iArraySize)
        (sub32 s (add32 a.iLastRetrievedSeqNum 1)) hs hc
      obtain ⟨h4, h5⟩ := afterPurge_spec s h1 h2
      exact ⟨h4, h5 ∘ h3⟩
    · exact afterPurge_spec s hs hc

/-! ## 5. The purge by timestamp -/

variable {a' : CircularArray}

theorem purgeTsLoop_spec {ts fuel : Nat} (hs : Shape a) (hc : Counted a)
    (h : purgeTsLoop ts fuel a = some a') :
    Shape a' ∧ Counted a' ∧ (BytesExact a → BytesExact a') := by
  induction fuel generalizing a with
  | zero => cases h
  | succ fuel ih =>
    rw [purgeTsLoop] at h
    have hoff := Nat.mod_lt a.iReadOffset hs.size_pos
    simp only [wrap_eq_mod hs.read] at h
    split at h
    · split at h
      · rename_i p hp
        split at h
        · cases h
          exact ⟨hs.withRead (le_of_lt hoff), hc, id⟩
        · obtain ⟨h2, h3⟩ := purge_spec hs hc hp
          obtain ⟨h4, h5, h6⟩ := ih ((hs.purge p).withRead hoff) h2 h
          exact ⟨h4, h5, h6 ∘ h3⟩
      · exact ih (a := { a with iReadOffset := a.iReadOffset % a.iArraySize + 1 })
          (hs.withRead hoff) hc h
    · cases h
      exact ⟨hs, hc, id⟩

/-- A ring with a packet in it has one within reach of the reader. -/
theorem exists_ahead (hs : Shape a) (r : Nat) (h : 0 < occupied a.iMediaPtrVec) :
    ∃ j < a.iArraySize, ∃ p, (a.iMediaPtrVec[(r + j) % a.iArraySize]?).join = some p := by
  obtain ⟨o, ho, hso⟩ := countP_pos_iff.mp h
  obtain ⟨p, rfl⟩ := isSome_iff_exists.mp hso
  obtain ⟨t, ht, e⟩ := getElem_of_mem ho
  have ht' : t < a.iArraySize := hs.length ▸ ht
  refine ⟨ringPos a.iArraySize r t, ringPos_lt hs.size_pos r t, p, ?_⟩
  rw [add_ringPos hs.size_pos r ht', getElem?_eq_getElem ht, e]
  rfl

/-- The loop ends: each round passes an empty slot on the way to a packet or takes a packet out.
    The measure is the number of packets times a full round, plus the way to the next one. -/
theorem purgeTsLoop_isSome (ts : Nat) {fuel j : Nat} (hs : Shape a) (hc : Counted a)
    (hj : j < a.iArraySize)
    (hp : 0 < a.iNumElems →
      ∃ p, (a.iMediaPtrVec[(a.iReadOffset + j) % a.iArraySize]?).join = some p)
    (hf : a.iNumElems * (a.iArraySize + 1) + j < fuel) :
    ∃ a', purgeTsLoop ts fuel a = some a' := by
  induction fuel generalizing a j with
  | zero => exact absurd hf (Nat.not_lt_zero _)
  | succ fuel ih =>
    rw [purgeTsLoop]
    by_cases hn : 0 < a.iNumElems
    · have hoff := wrap_eq_mod hs.read
      have hoff_lt := Nat.mod_lt a.iReadOffset hs.size_pos
      rw [if_pos hn]
      simp only [hoff]
      split
      · rename_i p hp'
        split
        · exact ⟨_, rfl⟩
        · obtain ⟨h2, -⟩ := purge_spec hs hc hp'
          have hone : sub32 a.iNumElems 1 + 1 = a.iNumElems := by
            have := hs.occupied_le
            have := hs.size_lt
            rw [sub32_eq (by omega) (by rw [hc]; omega)]
            omega
          have hmul : a.iNumElems * (a.iArraySize + 1) =
              sub32 a.iNumElems 1 * (a.iArraySize + 1) + (a.iArraySize + 1) := by
            rw [← hone, Nat.succ_mul, hone]
          have h1 := (hs.purge (i := a.iReadOffset % a.iArraySize) p).withRead hoff_lt
          rw [Counted, purge_iNumElems] at h2
          rcases Nat.eq_zero_or_pos (sub32 a.iNumElems 1) with h0 | h0
          · refine ih (j := 0) h1 h2 hs.size_pos (fun h => ?_) ?_
            · rw [purge_iNumElems, h0] at h
              exact absurd h (Nat.lt_irrefl 0)
            · rw [purge_iNumElems, purge_iArraySize]
              omega
          · obtain ⟨j', hj', hp''⟩ := exists_ahead h1
              (a.iReadOffset % a.iArraySize + 1) (h2 ▸ h0)
            refine ih h1 h2 hj' (fun _ => hp'') ?_
            rw [purge_iNumElems, purge_iArraySize]
            rw [purge_iArraySize] at hj'
            omega
      · rename_i hnone
        obtain ⟨p, hp⟩ := hp hn
        have hj0 : j ≠ 0 := by
          rintro rfl
          rw [Nat.add_zero, hnone] at hp
          cases hp
        refine ih (j := j - 1) (hs.withRead hoff_lt) hc (by simp only; omega)
          (fun _ => ⟨p, ?_⟩) (by simp only; omega)
        simp only
        rw [Nat.add_assoc, Nat.add_sub_cancel' (by omega), Nat.mod_add_mod]
        exact hp
    · rw [if_neg hn]
      exact ⟨a, rfl⟩

theorem purgeTs_isSome (ts : Nat) (hs : Shape a) (hc : Counted a) :
    ∃ a', purgeTsLoop ts a.purgeTsFuel a = some a' := by
  have hmul : (a.iNumElems + 1) * (a.iArraySize + 1) =
      a.iNumElems * (a.iArraySize + 1) + (a.iArraySize + 1) := Nat.succ_mul _ _
  rcases Nat.eq_zero_or_pos (occupied a.iMediaPtrVec) with h0 | h0
  · refine purgeTsLoop_isSome ts (j := 0) hs hc hs.size_pos (fun h => ?_) ?_
    · rw [hc, h0] at h
      exact absurd h (Nat.lt_irrefl 0)
    · unfold purgeTsFuel
      omega
  · obtain ⟨j, hj, hp⟩ := exists_ahead hs a.iReadOffset h0
    refine purgeTsLoop_isSome ts hs hc hj (fun _ => hp) ?_
    unfold purgeTsFuel
    omega

theorem purgeElementsWithTimestampLessThan_spec {ts : Nat} (hs : Shape a)
    (hc : Counted a) (h : a.purgeElementsWithTimestampLessThan ts = some a') :
    Inv a' ∧ (BytesExact a → BytesExact a') := by
  unfold purgeElementsWithTimestampLessThan at h
  rw [hs.isEmpty, if_neg Bool.false_ne_true] at h
  obtain ⟨a₁, h1, rfl⟩ := map_eq_some_iff.mp h
  obtain ⟨h2, h3, h4⟩ := purgeTsLoop_spec hs hc h1
  exact ⟨⟨⟨h2.size_pos, h2.size_lt, h2.length, h2.read, h2.left_lt⟩, h3, h3⟩, h4⟩

/-! ## 6. `retrieveElement` -/

/-- What a call that finds nothing changes. -/
theorem retrieveElement_none {r c : Nat}
    (h : retrieveLoop a.iMediaPtrVec a.iArraySize (a.iArraySize + 1) a.iReadOffset 0 =
      (none, r, c)) :
    a.retrieveElement = ({ a with iReadOffset := r }, none) := by
  simp only [retrieveElement, h]

/-- What a call that finds `p` changes. -/
theorem retrieveElement_some {r c : Nat}
    (h : retrieveLoop a.iMediaPtrVec a.iArraySize (a.iArraySize + 1) a.iReadOffset 0 =
      (some p, r, c)) :
    a.retrieveElement.2 = some p ∧ a.retrieveElement.1.iArraySize = a.iArraySize ∧
      a.retrieveElement.1.iReadOffset = r ∧
      a.retrieveElement.1.iMediaPtrVec = a.iMediaPtrVec.set (r - 1) none ∧
      a.retrieveElement.1.iNumElems = sub32 a.iNumElems 1 ∧
      a.retrieveElement.1.iJitterBufferStats.currentOccupancy = sub32 a.iNumElems 1 ∧
      a.retrieveElement.1.iJitterBufferStats.packetSizeInBytesLeftInBuffer =
        sub32 a.iJitterBufferStats.packetSizeInBytesLeftInBuffer (packetSize p) := by
  simp only [retrieveElement, h, and_self]

/-- Where the search stops with a packet, the packet is in the slot before the new offset. -/
theorem retrieveLoop_spec {n tries r count : Nat} {o : Option MediaData} {r' c' : Nat}
    (hn : 0 < n) (hr : r ≤ n) (h : retrieveLoop vec n tries r count = (o, r', c')) :
    r' ≤ n ∧ ∀ p, o = some p → (vec[r' - 1]?).join = some p := by
  induction tries generalizing r count with
  | zero =>
    cases h
    exact ⟨hr, fun p hp => by cases hp⟩
  | succ tries ih =>
    rw [retrieveLoop] at h
    have hoff : (if n ≤ r then 0 else r) < n := by split <;> omega
    split at h
    · rename_i p hp
      cases h
      exact ⟨hoff, fun q hq => hq ▸ hp⟩
    · exact ih hoff h

theorem retrieveElement_spec (hi : Inv a) :
    Inv a.retrieveElement.1 ∧ (BytesExact a → BytesExact a.retrieveElement.1) := by
  have hs := hi.shape
  obtain ⟨o, r, c, h⟩ : ∃ o r c, retrieveLoop a.iMediaPtrVec a.iArraySize (a.iArraySize + 1)
      a.iReadOffset 0 = (o, r, c) := ⟨_, _, _, rfl⟩
  obtain ⟨h1, h2⟩ := retrieveLoop_spec hs.size_pos hs.read h
  cases o with
  | none =>
    rw [retrieveElement_none h]
    exact ⟨⟨⟨hs.size_pos, hs.size_lt, hs.length, h1, hs.left_lt⟩, hi.counts⟩, id⟩
  | some p =>
    have hp := h2 p rfl
    have hn := sub32_one_of_occupied hs hi.counts.1 hp
    obtain ⟨-, hsize, hread, hvec, hnum, hocc, hleft⟩ := retrieveElement_some h
    refine ⟨⟨⟨hsize ▸ hs.size_pos, hsize ▸ hs.size_lt, ?_, ?_, ?_⟩, ?_, ?_⟩, fun hb => ?_⟩
    · rw [hvec, hsize, length_set, hs.length]
    · rw [hread, hsize]; exact h1
    · rw [hleft]; exact sub32_lt _ _
    · rw [hnum, hvec, hn]
    · rw [hocc, hvec, hn]
    · unfold BytesExact
      rw [hleft, hvec]
      exact BytesExact.sub hs.left_lt hb hp

/-! ## 7. `addElement` -/

@[simp] theorem arrive_left (s : Stats) (p : MediaData) :
    (arrive s p).packetSizeInBytesLeftInBuffer =
      add32 s.packetSizeInBytesLeftInBuffer (packetSize p) := rfl

@[simp] theorem arrive_occupancy (s : Stats) (p : MediaData) :
    (arrive s p).currentOccupancy = s.currentOccupancy := rfl

@[simp] theorem register_left (s : Stats) (p : MediaData) (n : Nat) :
    (register s p n).packetSizeInBytesLeftInBuffer = s.packetSizeInBytesLeftInBuffer := rfl

@[simp] theorem register_occupancy (s : Stats) (p : MediaData) (n : Nat) :
    (register s p n).currentOccupancy = n := rfl

variable {base : Nat}

theorem addElement_free {elem : MediaData}
    (h : (a.iMediaPtrVec[a.slot base elem.seqNum]?).join = none) :
    a.addElement elem base = ({ a with
      iMediaPtrVec := a.iMediaPtrVec.set (a.slot base elem.seqNum) (some elem)
      iNumElems := add32 a.iNumElems 1
      iJitterBufferStats := register (arrive a.iJitterBufferStats elem) elem
        (add32 a.iNumElems 1) }, .success) := by
  simp only [addElement, h]

/-- A packet of another number is thrown out. -/
theorem addElement_overwrite {elem cur : MediaData}
    (h : (a.iMediaPtrVec[a.slot base elem.seqNum]?).join = some cur)
    (hne : cur.seqNum ≠ elem.seqNum) :
    a.addElement elem base = ({ a with
      iMediaPtrVec := a.iMediaPtrVec.set (a.slot base elem.seqNum) (some elem)
      iJitterBufferStats := register (arrive a.iJitterBufferStats elem) elem
        a.iNumElems }, .packetOverwrite) := by
  simp only [addElement, h]
  rw [if_pos hne]

/-- A packet of the same number stays, the new one counts as received. -/
theorem addElement_duplicate {elem cur : MediaData}
    (h : (a.iMediaPtrVec[a.slot base elem.seqNum]?).join = some cur)
    (he : cur.seqNum = elem.seqNum) :
    a.addElement elem base =
      ({ a with iJitterBufferStats := arrive a.iJitterBufferStats elem }, .success) := by
  simp only [addElement, h]
  rw [if_neg (not_not.mpr he)]

/-- When `addElement` keeps the byte total exact: a free slot, an overwritten packet of no bytes
    or a duplicate of no bytes (and a total that fits in 32 bits). -/
def keepsBytesAdd (a : CircularArray) (elem : MediaData) (aSeqNumBase : Nat) : Prop :=
  match (a.iMediaPtrVec[a.slot aSeqNumBase elem.seqNum]?).join with
  | none => storedBytes a.iMediaPtrVec + bytes elem < 4294967296
  | some currElem =>
    if currElem.seqNum ≠ elem.seqNum then
      bytes currElem = 0 ∧ storedBytes a.iMediaPtrVec + bytes elem < 4294967296
    else bytes elem % 4294967296 = 0

instance (a : CircularArray) (elem : MediaData) (aSeqNumBase : Nat) :
    Decidable (a.keepsBytesAdd elem aSeqNumBase) :=
  match h : (a.iMediaPtrVec[a.slot aSeqNumBase elem.seqNum]?).join with
  | none =>
    decidable_of_iff (storedBytes a.iMediaPtrVec + bytes elem < 4294967296)
      (by rw [keepsBytesAdd, h])
  | some currElem =>
    decidable_of_iff
      (if currElem.seqNum ≠ elem.seqNum then
        bytes currElem = 0 ∧ storedBytes a.iMediaPtrVec + bytes elem < 4294967296
      else bytes elem % 4294967296 = 0) (by rw [keepsBytesAdd, h])

/-- The calls that keep the byte total: every one but some `addElement` calls. -/
def keepsBytes (a : CircularArray) : Op → Prop
  | .addElement elem base => a.keepsBytesAdd elem base
  | _ => True

theorem addElement_inv (hi : Inv a) (elem : MediaData) (base : Nat) :
    Inv (a.addElement elem base).1 := by
  have hs := hi.shape
  have hlt := hs.slot_lt base elem.seqNum
  have hnum := hi.counts.1
  have ho := occupied_set hlt (some elem)
  have hlen : (a.iMediaPtrVec.set (a.slot base elem.seqNum) (some elem)).length =
      a.iArraySize := by rw [length_set, hs.length]
  cases h : (a.iMediaPtrVec[a.slot base elem.seqNum]?).join with
  | none =>
    simp only [getElem?_join_none h hlt, isSome_none, isSome_some,
      Bool.false_eq_true, if_false, if_true, Nat.add_zero] at ho
    have hadd : add32 a.iNumElems 1 =
        occupied (a.iMediaPtrVec.set (a.slot base elem.seqNum) (some elem)) := by
      have h1 : occupied (a.iMediaPtrVec.set (a.slot base elem.seqNum) (some elem)) ≤
          a.iArraySize := hlen ▸ occupied_le
      have h2 := hs.size_lt
      rw [add32_eq (by omega), hnum, ho]
    rw [addElement_free h]
    refine ⟨⟨hs.size_pos, hs.size_lt, hlen, hs.read, ?_⟩, hadd, ?_⟩
    · simp only [register_left, arrive_left]
      exact add32_lt _ _
    · simp only [register_occupancy]
      exact hadd
  | some cur =>
    obtain ⟨_, he⟩ := getElem?_join_some h
    by_cases hne : cur.seqNum = elem.seqNum
    · rw [addElement_duplicate h hne]
      refine ⟨⟨hs.size_pos, hs.size_lt, hs.length, hs.read, ?_⟩, hi.counts.1, ?_⟩
      · simp only [arrive_left]
        exact add32_lt _ _
      · simp only [arrive_occupancy]
        exact hi.counts.2
    · simp only [he, isSome_some, if_true, Nat.add_right_cancel_iff] at ho
      rw [addElement_overwrite h hne]
      refine ⟨⟨hs.size_pos, hs.size_lt, hlen, hs.read, ?_⟩, ?_, ?_⟩
      · simp only [register_left, arrive_left]
        exact add32_lt _ _
      · simp only [ho]
        exact hnum
      · simp only [register_occupancy, ho]
        exact hnum

/-- **One `addElement` keeps the byte total exactly when it meets `keepsBytesAdd`.** -/
theorem addElement_bytes_iff (hs : Shape a) (hb : BytesExact a) (elem : MediaData) (base : Nat) :
    BytesExact (a.addElement elem base).1 ↔ a.keepsBytesAdd elem base := by
  have hlt := hs.slot_lt base elem.seqNum
  have hleft := hs.left_lt
  have hsum := storedBytes_set hlt (some elem)
  unfold BytesExact at hb
  unfold BytesExact keepsBytesAdd
  cases h : (a.iMediaPtrVec[a.slot base elem.seqNum]?).join with
  | none =>
    rw [getElem?_join_none h hlt] at hsum
    simp only [elim_none, elim_some, Nat.add_zero] at hsum
    rw [addElement_free h]
    simp only [register_left, arrive_left, hsum, packetSize_eq, hb, add32]
    omega
  | some cur =>
    obtain ⟨_, he⟩ := getElem?_join_some h
    have hle := bytes_le_stored h
    rw [he] at hsum
    simp only [elim_some] at hsum
    by_cases hne : cur.seqNum = elem.seqNum
    · rw [addElement_duplicate h hne]
      simp only [arrive_left, packetSize_eq, hb, add32, hne, ne_eq, not_true_eq_false, if_false]
      omega
    · rw [addElement_overwrite h hne]
      simp only [register_left, arrive_left, packetSize_eq, hb, add32, ne_eq, hne,
        not_false_eq_true, if_true]
      omega

/-! ## 8. Runs -/

/-- **Every call is defined and keeps the invariant.** -/
theorem call_inv (hi : Inv a) (op : Op) : ∃ a', call a op = some a' ∧ Inv a' := by
  cases op with
  | addElement elem base => exact ⟨_, rfl, addElement_inv hi elem base⟩
  | retrieveElement => exact ⟨_, rfl, (retrieveElement_spec hi).1⟩
  | purgeElementsWithSeqNumsLessThan s =>
    exact ⟨_, rfl, (purgeElementsWithSeqNumsLessThan_spec s hi.shape hi.counts.1).1⟩
  | purgeElementsWithTimestampLessThan ts =>
    obtain ⟨a₁, h1⟩ := purgeTs_isSome ts hi.shape hi.counts.1
    have h : a.purgeElementsWithTimestampLessThan ts = some { a₁ with
        iLastRetrievedTS := ts
        iJitterBufferStats := { a₁.iJitterBufferStats with
          currentOccupancy := a₁.iNumElems } } := by
      unfold purgeElementsWithTimestampLessThan
      rw [hi.shape.isEmpty, if_neg Bool.false_ne_true, h1]
      rfl
    exact ⟨_, h, (purgeElementsWithTimestampLessThan_spec hi.shape hi.counts.1 h).1⟩
  | purgeAllElements s => exact ⟨_, rfl, (purgeAllElements_spec s hi.shape).1⟩
  | clear =>
    refine ⟨_, rfl, ⟨hi.shape.size_pos, hi.shape.size_lt, ?_, Nat.zero_le _, by simp [clear]⟩, ?_, ?_⟩
    · exact length_replicate
    · exact (occupied_replicate _).symm
    · exact (occupied_replicate _).symm
  | setFirstSeqNumAdded s =>
    exact ⟨_, rfl, ⟨hi.shape.size_pos, hi.shape.size_lt, hi.shape.length, hi.shape.read,
      hi.shape.left_lt⟩, hi.counts⟩
  | setReadOffset s => exact ⟨_, rfl, hi.shape.setReadOffset s, hi.counts⟩

theorem inv_of_call (op : Op) (hi : Inv a) (h : call a op = some a') :
    Inv a' := by
  obtain ⟨a₁, h1, h2⟩ := call_inv hi op
  rw [h1] at h
  cases h
  exact h2

/-- One call keeps the byte total exactly when it meets `keepsBytes`. -/
theorem call_bytes_iff (op : Op) (hi : Inv a) (hb : BytesExact a)
    (h : call a op = some a') : BytesExact a' ↔ a.keepsBytes op := by
  cases op with
  | addElement elem base =>
    cases h
    exact addElement_bytes_iff hi.shape hb elem base
  | retrieveElement =>
    cases h
    exact iff_of_true ((retrieveElement_spec hi).2 hb) trivial
  | purgeElementsWithSeqNumsLessThan s =>
    cases h
    exact iff_of_true
      ((purgeElementsWithSeqNumsLessThan_spec s hi.shape hi.counts.1).2 hb) trivial
  | purgeElementsWithTimestampLessThan ts =>
    exact iff_of_true
      ((purgeElementsWithTimestampLessThan_spec hi.shape hi.counts.1 h).2 hb) trivial
  | purgeAllElements s =>
    cases h
    exact iff_of_true ((purgeAllElements_spec s hi.shape).2 hb) trivial
  | clear =>
    cases h
    exact iff_of_true (storedBytes_replicate _).symm trivial
  | setFirstSeqNumAdded s | setReadOffset s => cases h; exact iff_of_true hb trivial

/-- **The counters of a run.** Every run of calls comes to its end, the counts are exact all along
    it, and the byte total is too exactly when each of its calls meets `keepsBytes`. (A vector of
    pointers is far smaller than `2^32`, which its loop counters need.) -/
theorem statistics_exact_iff {n : Nat} (h0 : 0 < n) (hn : n + 1 < 4294967296) (ops : List Op) :
    (∃ a, execAll call (new n) ops = some a) ∧ AllStates call CountsExact (new n) ops ∧
      (AllStates call Exact (new n) ops ↔ AllSteps call keepsBytes (new n) ops) := by
  have hI : ∀ a op a', Inv a → call a op = some a' → Inv a' :=
    fun _ op _ hi h => inv_of_call op hi h
  refine ⟨?_, (AllStates.of_invariant hI (inv_new h0 hn) ops).mono fun _ h => h.counts, ?_⟩
  · obtain ⟨a, ha, -⟩ := execAll_isSome (fun _ op hi => call_inv hi op) (inv_new h0 hn) ops
    exact ⟨a, ha⟩
  · refine allStates_iff_allSteps (I := Inv) hI ?_ (inv_new h0 hn) (exact_new n) ops
    intro a op a' hi hx h
    have hi' := inv_of_call op hi h
    exact ⟨fun hx' => (call_bytes_iff op hi hx.2 h).mp hx'.2,
      fun hk => ⟨hi'.counts, (call_bytes_iff op hi hx.2 h).mpr hk⟩⟩

/-- A packet of ten bytes in, read out, and purged of nothing. -/
theorem statistics_exact_iff_four :
    AllStates call Exact (new 4) [.addElement ⟨0, 7, 90, [4, 6]⟩ 5, .retrieveElement,
      .purgeElementsWithTimestampLessThan 100] := by
  refine (statistics_exact_iff (by decide) (by decide) _).2.2.mpr ?_
  intro a ha
  cases ha
  refine ⟨?_, fun a ha => ⟨trivial, fun a ha => ⟨trivial, trivial⟩⟩⟩
  show (new 4).keepsBytesAdd _ _
  decide +kernel

/-- The same packet twice: ten bytes are stored and twenty reported. -/
theorem duplicate_counted_twice :
    ¬ AllStates call Exact (new 4)
      [.addElement ⟨0, 7, 90, [4, 6]⟩ 5, .addElement ⟨0, 7, 90, [4, 6]⟩ 5] := by
  intro h
  have h2 := ((h.2 _ rfl).2 _ rfl).2
  revert h2
  unfold BytesExact
  decide +kernel

end OpenCore.JitterBuffer.CircularArray
