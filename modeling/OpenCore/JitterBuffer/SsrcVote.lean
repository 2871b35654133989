/-
  File:      OpenCore/JitterBuffer/SsrcVote.lean
  Subject:   `PVMFJitterBufferImpl::AddPacket` (pvmf_jitter_buffer_impl.cpp) before the SSRC is
             known: the vote over the first five packets, and the first sequence number.

  The five packets are counted in a table with a row for each SSRC, in the order in which the SSRCs
  appear. The poll then compares the counts of the later rows with the *indices* of the rows that
  lead so far. The first sequence number is the least one, whatever the wrap-around.

  **Main result**: `vote_right_iff`.
-/
import OpenCore.JitterBuffer.RtpInfoParams
import OpenCore.Lib.Run

namespace OpenCore.JitterBuffer

open List

/-! ## 1. The code -/

/-- What the vote reads of a packet. -/
structure FirstPacket where
  streamID : UInt32
  seqNum : UInt16
  timestamp : UInt32
  deriving DecidableEq

/-- A row of `my_ssrc`. -/
structure VoteRow where
  count : Nat := 0
  ssrc : UInt32 := 0
  seqbase : UInt16 := 0
  timestamp : UInt32 := 0
  deriving DecidableEq

def cPktNeededForVote : Nat := 5

/-- One more packet of a row's SSRC. -/
def VoteRow.add (row : VoteRow) (packet : FirstPacket) : VoteRow :=
  if packet.seqNum < row.seqbase then
    ⟨row.count + 1, row.ssrc, packet.seqNum, packet.timestamp⟩
  else { row with count := row.count + 1 }

/-- The row of the first packet of an SSRC. -/
def VoteRow.first (packet : FirstPacket) : VoteRow :=
  ⟨1, packet.streamID, packet.seqNum, packet.timestamp⟩

/-- The inner loop of the vote: the rows up to the one the packet belongs to. -/
def castVote (packet : FirstPacket) : List VoteRow → List VoteRow
  | [] => []
  | row :: rest =>
    if row.count > 0 then
      if packet.streamID = row.ssrc then row.add packet :: rest
      else row :: castVote packet rest
    else VoteRow.first packet :: rest

/-- The vote: the table `my_ssrc`. -/
def vote (packets : List FirstPacket) : List VoteRow :=
  packets.foldl (fun my_ssrc packet => castVote packet my_ssrc)
    (List.replicate cPktNeededForVote {})

/-- `my_ssrc[i][0]`. -/
def voteCount (my_ssrc : List VoteRow) (i : Nat) : Nat := (my_ssrc.getD i {}).count

/-- One turn of the poll, with `first_ssrc_index` and `second_ssrc_index`. -/
def pollStep (my_ssrc : List VoteRow) (index : Nat × Nat) (i : Nat) : Nat × Nat :=
  if voteCount my_ssrc i > index.1 then (i, index.1)
  else if voteCount my_ssrc i > index.2 then (index.1, i)
  else index

/-- The poll: `first_ssrc_index`. -/
def poll (my_ssrc : List VoteRow) : Nat :=
  let start := if voteCount my_ssrc 0 < voteCount my_ssrc 1 then (1, 0) else (0, 1)
  ([2, 3, 4].foldl (pollStep my_ssrc) start).1

/-- The members of the jitter buffer that the vote reads and sets. -/
structure VoteState where
  iEOSSent : Bool := false
  seqNumLock : Bool := false
  iFirstDataPackets : List FirstPacket := []
  oSSRCFromSetUpResponseAvailable : Bool := false
  SSRCFromSetUpResponse : UInt32 := 0
  SSRCLock : UInt32 := 0
  iFirstSeqNum : UInt32 := 0
  seqLockTimeStamp : UInt32 := 0
  iRTPInfoParamsVec : List RTPInfoParams := []
  deriving DecidableEq

/-- The decision. The packets of the group go to the jitter buffer then; whether or not all of them
    are taken, the group is not read again before it is cleared. -/
def decideVote (s : VoteState) (group : List FirstPacket) : VoteState :=
  let my_ssrc := vote (group.take cPktNeededForVote)
  let row := my_ssrc.getD (poll my_ssrc) {}
  let s := { s with SSRCLock := row.ssrc, seqNumLock := true, iFirstDataPackets := [] }
  match s.iRTPInfoParamsVec with
  | it :: _ =>
    { s with
      iFirstSeqNum := if it.seqNumBaseSet then it.seqNum else row.seqbase.toUInt32
      seqLockTimeStamp := if it.rtpTimeBaseSet then it.rtpTime else row.timestamp }
  | [] => { s with iFirstSeqNum := row.seqbase.toUInt32, seqLockTimeStamp := row.timestamp }

/-- `AddPacket`. Behind the decision, the first packet takes the lock where no SSRC came from the
    setup response. -/
def addFirstPacket (s : VoteState) (packet : FirstPacket) : VoteState :=
  if s.iEOSSent then s
  else if s.seqNumLock then
    if s.oSSRCFromSetUpResponseAvailable = false then
      { s with oSSRCFromSetUpResponseAvailable := true, SSRCLock := packet.streamID }
    else s
  else if s.oSSRCFromSetUpResponseAvailable ∧ packet.streamID ≠ s.SSRCFromSetUpResponse then s
  else
    let group := s.iFirstDataPackets ++ [packet]
    if group.length < cPktNeededForVote then { s with iFirstDataPackets := group }
    else decideVote s group

/-- What happens to these members. -/
inductive VoteEvent where
  | addPacket (packet : FirstPacket)
  | setSSRC (aSSRC : UInt32)
  /-- `setRTPInfoParams` and the purges leave some vector behind. -/
  | rtpInfoParams (vec : List RTPInfoParams)
  | eos (iEOSSent : Bool)
  | flushJitterBuffer
  | resetJitterBuffer

/-- One event. -/
def voteStep (s : VoteState) : VoteEvent → VoteState
  | .addPacket packet => addFirstPacket s packet
  | .setSSRC aSSRC =>
    { s with
      oSSRCFromSetUpResponseAvailable := true
      SSRCFromSetUpResponse := aSSRC
      SSRCLock := aSSRC }
  | .rtpInfoParams vec => { s with iRTPInfoParamsVec := vec }
  | .eos iEOSSent => { s with iEOSSent := iEOSSent }
  | .flushJitterBuffer => { s with iFirstDataPackets := [], iRTPInfoParamsVec := [] }
  | .resetJitterBuffer =>
    { s with seqNumLock := false, iFirstDataPackets := [], iRTPInfoParamsVec := [] }

/-- The steps of a run. -/
def VoteSteps (s : VoteState) (event : VoteEvent) (s' : VoteState) : Prop := voteStep s event = s'

/-! ## 2. What it is for -/

/-- The packets of an SSRC in the group. -/
def packetsOf (group : List FirstPacket) (ssrc : UInt32) : List FirstPacket :=
  group.filter fun p => p.streamID = ssrc

/-- How many packets of the group come from an SSRC. -/
def votes (group : List FirstPacket) (ssrc : UInt32) : Nat := (packetsOf group ssrc).length

/-- `n` is the serially earliest sequence number among the packets of the SSRC. -/
def Earliest (group : List FirstPacket) (ssrc : UInt32) (n : UInt16) : Prop :=
  (∃ p ∈ packetsOf group ssrc, p.seqNum = n) ∧ ∀ p ∈ packetsOf group ssrc, p.seqNum - n < 0x8000

/-- The lock is right: the SSRC has the most packets of the group, and the first sequence number is
    the earliest one of its packets. -/
structure VoteRight (group : List FirstPacket) (s : VoteState) : Prop where
  most : ∀ ssrc, votes group ssrc ≤ votes group s.SSRCLock
  earliest : ∃ n, s.iFirstSeqNum = n.toUInt32 ∧ Earliest group s.SSRCLock n

/-- The SSRCs of the group in the order of their first packets. -/
def arrivals (group : List FirstPacket) : List UInt32 :=
  group.foldl (fun ssrcs p => if p.streamID ∈ ssrcs then ssrcs else ssrcs ++ [p.streamID]) []

/-- The packets of the SSRC that appears as number `j`, 0 if there is none. -/
def votesAt (group : List FirstPacket) (j : Nat) : Nat :=
  ((arrivals group)[j]?).elim 0 (votes group)

/-- The counts for which comparing with indices does no harm: the second SSRC beats the first, or
    there is no third, or the third has no fewer packets than the first and than those behind. -/
def PollHarmless (group : List FirstPacket) : Prop :=
  votesAt group 0 < votesAt group 1 ∨ votesAt group 2 = 0 ∨
    (votesAt group 0 ≤ votesAt group 2 ∧ votesAt group 3 ≤ votesAt group 2 ∧
      votesAt group 4 ≤ votesAt group 2)

/-- The SSRC has the most packets; of several, it is the third to appear where that is one. -/
def Elected (group : List FirstPacket) (ssrc : UInt32) : Prop :=
  (∀ other, votes group other ≤ votes group ssrc) ∧
    ∀ third, (arrivals group)[2]? = some third → votes group ssrc ≤ votes group third →
      ssrc = third

/-- The first sequence number comes out right for the SSRC: the RTP info has it, or none says one
    and the packets of the SSRC do not straddle the wrap-around. -/
def FirstSeqNumKnown (vec : List RTPInfoParams) (group : List FirstPacket) (ssrc : UInt32) : Prop :=
  match vec.head?.filter RTPInfoParams.seqNumBaseSet with
  | some it => ∃ n, it.seqNum = n.toUInt32 ∧ Earliest group ssrc n
  | none => ∀ p ∈ packetsOf group ssrc, ∀ q ∈ packetsOf group ssrc,
      p.seqNum ≤ q.seqNum → q.seqNum - p.seqNum < 0x8000

/-! ## 3. The table -/

/-- The row of an SSRC: its packets in the order in which they came. -/
def tally (group : List FirstPacket) (ssrc : UInt32) : VoteRow :=
  match packetsOf group ssrc with
  | [] => {}
  | p :: rest => rest.foldl VoteRow.add (VoteRow.first p)

theorem packetsOf_self (group : List FirstPacket) (p : FirstPacket) :
    packetsOf (group ++ [p]) p.streamID = packetsOf group p.streamID ++ [p] := by
  rw [packetsOf, filter_append, filter_cons_of_pos (by simp)]
  rfl

variable {p : FirstPacket} {ssrc : UInt32}

theorem packetsOf_other (group : List FirstPacket)
    (h : p.streamID ≠ ssrc) : packetsOf (group ++ [p]) ssrc = packetsOf group ssrc := by
  rw [packetsOf, filter_append, filter_cons_of_neg (by simpa using h)]
  exact append_nil _

theorem tally_self {group : List FirstPacket}
    (h : packetsOf group p.streamID ≠ []) :
    tally (group ++ [p]) p.streamID = (tally group p.streamID).add p := by
  unfold tally
  rw [packetsOf_self]
  cases hp : packetsOf group p.streamID with
  | nil => exact absurd hp h
  | cons q rest => exact foldl_append

theorem tally_first {group : List FirstPacket}
    (h : packetsOf group p.streamID = []) :
    tally (group ++ [p]) p.streamID = VoteRow.first p := by
  unfold tally
  rw [packetsOf_self, h]
  rfl

theorem tally_other (group : List FirstPacket)
    (h : p.streamID ≠ ssrc) : tally (group ++ [p]) ssrc = tally group ssrc := by
  unfold tally
  rw [packetsOf_other group h]

theorem VoteRow.add_ssrc (row : VoteRow) (p : FirstPacket) : (row.add p).ssrc = row.ssrc := by
  unfold VoteRow.add
  split_ifs <;> rfl

theorem VoteRow.add_count (row : VoteRow) (p : FirstPacket) :
    (row.add p).count = row.count + 1 := by
  unfold VoteRow.add
  split_ifs <;> rfl

theorem foldl_add_ssrc (ps : List FirstPacket) (row : VoteRow) :
    (ps.foldl VoteRow.add row).ssrc = row.ssrc := by
  induction ps generalizing row with
  | nil => rfl
  | cons p ps ih => rw [foldl_cons, ih, VoteRow.add_ssrc]

theorem foldl_add_count (ps : List FirstPacket) (row : VoteRow) :
    (ps.foldl VoteRow.add row).count = row.count + ps.length := by
  induction ps generalizing row with
  | nil => rfl
  | cons p ps ih => rw [foldl_cons, ih, VoteRow.add_count, length_cons]; omega

theorem tally_count (group : List FirstPacket) (ssrc : UInt32) :
    (tally group ssrc).count = votes group ssrc := by
  unfold tally votes
  cases packetsOf group ssrc with
  | nil => rfl
  | cons p rest => rw [foldl_add_count, length_cons]; exact Nat.add_comm _ _

theorem tally_ssrc {group : List FirstPacket} (h : packetsOf group ssrc ≠ []) :
    (tally group ssrc).ssrc = ssrc := by
  unfold tally
  cases hp : packetsOf group ssrc with
  | nil => exact absurd hp h
  | cons p rest =>
    have hmem : p ∈ packetsOf group ssrc := hp ▸ mem_cons_self
    rw [foldl_add_ssrc]
    exact of_decide_eq_true (mem_filter.mp hmem).2

/-- The least sequence number of the row. -/
theorem foldl_add_seqbase (ps : List FirstPacket) (row : VoteRow) :
    ((ps.foldl VoteRow.add row).seqbase = row.seqbase ∨
      ∃ p ∈ ps, (ps.foldl VoteRow.add row).seqbase = p.seqNum) ∧
    (ps.foldl VoteRow.add row).seqbase ≤ row.seqbase ∧
    ∀ p ∈ ps, (ps.foldl VoteRow.add row).seqbase ≤ p.seqNum := by
  induction ps generalizing row with
  | nil => exact ⟨Or.inl rfl, UInt16.le_refl _, nofun⟩
  | cons p ps ih =>
    obtain ⟨hsome, hle, hall⟩ := ih (row.add p)
    have hadd : ((row.add p).seqbase = p.seqNum ∧ p.seqNum ≤ row.seqbase) ∨
        ((row.add p).seqbase = row.seqbase ∧ row.seqbase ≤ p.seqNum) := by
      unfold VoteRow.add
      split_ifs with hlt
      · exact Or.inl ⟨rfl, UInt16.le_of_lt hlt⟩
      · exact Or.inr ⟨rfl, UInt16.not_lt.mp hlt⟩
    rw [foldl_cons, forall_mem_cons]
    rcases hadd with ⟨heq, hrow⟩ | ⟨heq, hrow⟩
    · rw [heq] at hsome hle
      refine ⟨Or.inr ?_, UInt16.le_trans hle hrow, hle, hall⟩
      rcases hsome with h | ⟨q, hq, h⟩
      · exact ⟨p, mem_cons_self, h⟩
      · exact ⟨q, mem_cons_of_mem p hq, h⟩
    · rw [heq] at hsome hle
      refine ⟨hsome.imp_right ?_, hle, UInt16.le_trans hle hrow, hall⟩
      rintro ⟨q, hq, h⟩
      exact ⟨q, mem_cons_of_mem p hq, h⟩

theorem tally_seqbase {group : List FirstPacket} (h : packetsOf group ssrc ≠ []) :
    (∃ p ∈ packetsOf group ssrc, p.seqNum = (tally group ssrc).seqbase) ∧
      ∀ p ∈ packetsOf group ssrc, (tally group ssrc).seqbase ≤ p.seqNum := by
  unfold tally
  cases hp : packetsOf group ssrc with
  | nil => exact absurd hp h
  | cons p rest =>
    obtain ⟨hsome, hle, hall⟩ := foldl_add_seqbase rest (VoteRow.first p)
    refine ⟨?_, forall_mem_cons.mpr ⟨hle, hall⟩⟩
    rcases hsome with h | ⟨q, hq, h⟩
    · exact ⟨p, mem_cons_self, h.symm⟩
    · exact ⟨q, mem_cons_of_mem p hq, h.symm⟩

section

variable (group : List FirstPacket)
include group

theorem arrivals_append (p : FirstPacket) :
    arrivals (group ++ [p]) =
      if p.streamID ∈ arrivals group then arrivals group
      else arrivals group ++ [p.streamID] :=
  foldl_append

theorem mem_arrivals (ssrc : UInt32) :
    ssrc ∈ arrivals group ↔ packetsOf group ssrc ≠ [] := by
  induction group using reverseRecOn with
  | nil => exact ⟨nofun, fun h => absurd rfl h⟩
  | append_singleton group p ih =>
    rw [arrivals_append]
    by_cases hp : p.streamID = ssrc
    · subst hp
      rw [packetsOf_self]
      refine iff_of_true ?_ (append_ne_nil_of_right_ne_nil _ (cons_ne_nil _ _))
      split_ifs with hmem
      · exact hmem
      · exact mem_append_right _ mem_cons_self
    · rw [packetsOf_other group hp, ← ih]
      split_ifs
      · rfl
      · rw [mem_append, mem_singleton]
        exact or_iff_left fun h => hp h.symm

theorem nodup_arrivals : (arrivals group).Nodup := by
  induction group using reverseRecOn with
  | nil => exact nodup_nil
  | append_singleton group p ih =>
    rw [arrivals_append]
    split_ifs with hmem
    · exact ih
    · exact nodup_append'.mpr ⟨ih, nodup_singleton _,
        disjoint_singleton.mpr hmem⟩

theorem length_arrivals_le :
    (arrivals group).length ≤ group.length := by
  induction group using reverseRecOn with
  | nil => exact Nat.le_refl _
  | append_singleton group p ih =>
    rw [arrivals_append, length_append, length_singleton]
    split_ifs
    · exact Nat.le_succ_of_le ih
    · rw [length_append, length_singleton]
      exact Nat.succ_le_succ ih

end

/-- A vote for an SSRC that has a row. -/
theorem castVote_known {f : UInt32 → VoteRow} (rest : List VoteRow) :
    ∀ {ssrcs : List UInt32}, ssrcs.Nodup → (∀ s ∈ ssrcs, (f s).count > 0 ∧ (f s).ssrc = s) →
      p.streamID ∈ ssrcs →
      castVote p (ssrcs.map f ++ rest) =
        ssrcs.map (fun s => if s = p.streamID then (f s).add p else f s) ++ rest
  | s :: ssrcs, hnodup, hrows, hmem => by
      obtain ⟨hs, hnodup⟩ := nodup_cons.mp hnodup
      obtain ⟨⟨hcount, hssrc⟩, hrows⟩ := forall_mem_cons.mp hrows
      rw [map_cons, map_cons, cons_append, cons_append, castVote,
        if_pos hcount, hssrc]
      by_cases hp : p.streamID = s
      · rw [if_pos hp, if_pos hp.symm]
        congr 2
        refine map_congr_left fun t ht => (if_neg ?_).symm
        exact fun heq => hs (hp ▸ heq ▸ ht)
      · rw [if_neg hp, if_neg fun h => hp h.symm]
        exact congrArg _ (castVote_known rest hnodup hrows
          ((mem_cons.mp hmem).resolve_left hp))

theorem castVote_new {f : UInt32 → VoteRow} (rest : List VoteRow) :
    ∀ {ssrcs : List UInt32}, (∀ s ∈ ssrcs, (f s).count > 0 ∧ (f s).ssrc = s) →
      p.streamID ∉ ssrcs →
      castVote p (ssrcs.map f ++ {} :: rest) = ssrcs.map f ++ VoteRow.first p :: rest
  | [], _, _ => rfl
  | s :: ssrcs, hrows, hmem => by
      obtain ⟨⟨hcount, hssrc⟩, hrows⟩ := forall_mem_cons.mp hrows
      obtain ⟨hp, hmem⟩ := not_or.mp (mt mem_cons.mpr hmem)
      rw [map_cons, cons_append, castVote, if_pos hcount, hssrc, if_neg hp]
      exact congrArg _ (castVote_new rest hrows hmem)

/-- **The table**: a row for each SSRC in the order of the first packets, and empty rows. -/
theorem vote_eq (group : List FirstPacket) (h : group.length ≤ cPktNeededForVote) :
    vote group = (arrivals group).map (tally group) ++
      replicate (cPktNeededForVote - (arrivals group).length) ({} : VoteRow) := by
  induction group using reverseRecOn with
  | nil => rfl
  | append_singleton group p ih =>
    rw [length_append, length_singleton] at h
    have hstep : vote (group ++ [p]) = castVote p (vote group) := foldl_append
    have hrows : ∀ s ∈ arrivals group, (tally group s).count > 0 ∧ (tally group s).ssrc = s := by
      intro s hs
      have hne := (mem_arrivals group s).mp hs
      rw [tally_count]
      exact ⟨length_pos_of_ne_nil hne, tally_ssrc hne⟩
    rw [hstep, ih (Nat.le_of_succ_le h), arrivals_append]
    by_cases hmem : p.streamID ∈ arrivals group
    · rw [if_pos hmem, castVote_known _ (nodup_arrivals group) hrows hmem]
      congr 1
      refine map_congr_left fun s _ => ?_
      split_ifs with hs
      · subst hs
        exact (tally_self ((mem_arrivals _ _).mp hmem)).symm
      · exact (tally_other group fun h => hs h.symm).symm
    · have hroom : cPktNeededForVote - (arrivals group).length =
          cPktNeededForVote - ((arrivals group).length + 1) + 1 := by
        have := length_arrivals_le group
        omega
      rw [if_neg hmem, hroom, replicate_succ, castVote_new _ hrows hmem, map_append,
        length_append, append_assoc]
      congr 1
      · refine map_congr_left fun s hs => (tally_other group ?_).symm
        exact fun h => hmem (h ▸ hs)
      · rw [map_singleton, tally_first (not_not.mp (mt (mem_arrivals _ _).mpr hmem))]
        rfl

/-! ## 4. The poll -/

theorem voteCount_eq {group : List FirstPacket} (h : group.length ≤ cPktNeededForVote) (j : Nat) :
    voteCount (vote group) j = votesAt group j := by
  rw [voteCount, votesAt, vote_eq group h, getD_eq_getElem?_getD]
  rcases Nat.lt_or_ge j (arrivals group).length with hj | hj
  · rw [getElem?_append_left (by rwa [length_map]), getElem?_map,
      getElem?_eq_getElem hj]
    exact tally_count group _
  · rw [getElem?_append_right (by rwa [length_map]), getElem?_replicate,
      getElem?_eq_none hj]
    split_ifs <;> rfl

theorem row_eq {group : List FirstPacket} {j : Nat}
    (h : group.length ≤ cPktNeededForVote) (hj : (arrivals group)[j]? = some ssrc) :
    (vote group).getD j {} = tally group ssrc := by
  have hlt : j < (arrivals group).length := (List.getElem?_eq_some_iff.mp hj).1
  rw [vote_eq group h, getD_eq_getElem?_getD,
    getElem?_append_left (by rwa [length_map]), getElem?_map, hj]
  rfl

theorem sum_votes (group : List FirstPacket) :
    ((arrivals group).map (votes group)).sum = group.length := by
  induction group using reverseRecOn with
  | nil => rfl
  | append_singleton group p ih =>
    have hself : votes (group ++ [p]) p.streamID = votes group p.streamID + 1 := by
      rw [votes, packetsOf_self, length_append]
      rfl
    have hother : ∀ s, s ≠ p.streamID → votes (group ++ [p]) s = votes group s := by
      intro s hs
      rw [votes, packetsOf_other group fun h => hs h.symm]
      rfl
    rw [length_append, length_singleton, ← ih, arrivals_append]
    split_ifs with hmem
    · obtain ⟨front, back, hsplit⟩ := mem_iff_append.mp hmem
      have hnodup := nodup_arrivals group
      rw [hsplit] at hnodup ⊢
      have hfront : p.streamID ∉ front := fun h =>
        (disjoint_of_nodup_append hnodup) h mem_cons_self
      have hback : p.streamID ∉ back :=
        (nodup_cons.mp (nodup_append'.mp hnodup).2.1).1
      rw [map_append, map_cons, map_append, map_cons, sum_append,
        sum_cons, sum_append, sum_cons, hself,
        map_congr_left fun s hs => hother s fun h => hfront (h ▸ hs),
        map_congr_left fun s hs => hother s fun h => hback (h ▸ hs)]
      omega
    · have hnone : packetsOf group p.streamID = [] := not_not.mp (mt (mem_arrivals _ _).mpr hmem)
      have hzero : votes group p.streamID = 0 := by rw [votes, hnone]; rfl
      rw [map_append, map_singleton, sum_append, sum_singleton, hself, hzero,
        map_congr_left fun s hs => hother s fun h => hmem (h ▸ hs)]

theorem votesAt_pos_iff (group : List FirstPacket) (j : Nat) :
    0 < votesAt group j ↔ j < (arrivals group).length := by
  unfold votesAt
  rcases Nat.lt_or_ge j (arrivals group).length with hj | hj
  · rw [getElem?_eq_getElem hj]
    refine iff_of_true (length_pos_of_ne_nil ?_) hj
    exact (mem_arrivals _ _).mp (getElem_mem hj)
  · rw [getElem?_eq_none hj]
    exact iff_of_false (Nat.lt_irrefl 0) (Nat.not_lt.mpr hj)

theorem sum_votesAt {group : List FirstPacket} (h : group.length = cPktNeededForVote) :
    votesAt group 0 + votesAt group 1 + votesAt group 2 + votesAt group 3 + votesAt group 4 =
      5 := by
  have hsum := sum_votes group
  have hlen := length_arrivals_le group
  rw [h, cPktNeededForVote] at hsum hlen
  unfold votesAt
  match arrivals group, hsum, hlen with
  | [], hsum, _ => simp at hsum
  | [a], hsum, _ => simpa using hsum
  | [a, b], hsum, _ => simpa using hsum
  | [a, b, c], hsum, _ => simpa [Nat.add_assoc] using hsum
  | [a, b, c, d], hsum, _ => simpa [Nat.add_assoc] using hsum
  | [a, b, c, d, e], hsum, _ => simpa [Nat.add_assoc] using hsum
  | a :: b :: c :: d :: e :: f :: rest, _, hlen =>
    simp only [length_cons] at hlen
    omega

theorem pollStep_fst (my_ssrc : List VoteRow) (index : Nat × Nat) (i : Nat) :
    (pollStep my_ssrc index i).1 = if voteCount my_ssrc i > index.1 then i else index.1 := by
  unfold pollStep
  split_ifs <;> rfl

/-- **The index the poll ends at**, as far as five packets allow it. -/
theorem poll_eq {group : List FirstPacket} (h : group.length = cPktNeededForVote) :
    poll (vote group) =
      if votesAt group 0 < votesAt group 1 then if 2 ≤ votesAt group 2 then 2 else 1
      else if 0 < votesAt group 2 then 2 else 0 := by
  have hsum := sum_votesAt h
  have h0 := votesAt_pos_iff group 0
  have h1 := votesAt_pos_iff group 1
  have h2 := votesAt_pos_iff group 2
  have h3 := votesAt_pos_iff group 3
  have h4 := votesAt_pos_iff group 4
  have hstart : (if votesAt group 0 < votesAt group 1 then ((1, 0) : Nat × Nat) else (0, 1)).1 =
      if votesAt group 0 < votesAt group 1 then 1 else 0 := by split_ifs <;> rfl
  unfold poll
  simp only [foldl_cons, foldl_nil, pollStep_fst, voteCount_eq h.le, hstart]
  generalize votesAt group 0 = c0 at *
  generalize votesAt group 1 = c1 at *
  generalize votesAt group 2 = c2 at *
  generalize votesAt group 3 = c3 at *
  generalize votesAt group 4 = c4 at *
  generalize (arrivals group).length = n at *
  split_ifs <;> omega

/-! ## 5. The winner -/

section Winner

variable {group : List FirstPacket}

theorem votesAt_eq {j : Nat} (h : (arrivals group)[j]? = some ssrc) :
    votesAt group j = votes group ssrc := by
  rw [votesAt, h]
  rfl

section

variable (h : group.length = cPktNeededForVote)
include h

/-- An SSRC with packets appears as one of the first five. -/
theorem exists_votesAt
    (hpos : 0 < votes group ssrc) : ∃ j < 5, (arrivals group)[j]? = some ssrc := by
  have hne : packetsOf group ssrc ≠ [] := ne_nil_of_length_pos hpos
  obtain ⟨j, hj, heq⟩ := getElem_of_mem ((mem_arrivals group ssrc).mpr hne)
  have hlen := length_arrivals_le group
  rw [h, cPktNeededForVote] at hlen
  exact ⟨j, Nat.lt_of_lt_of_le hj hlen, heq ▸ getElem?_eq_getElem hj⟩

theorem exists_winner :
    ∃ ssrc, (arrivals group)[poll (vote group)]? = some ssrc := by
  have hsum := sum_votesAt h
  have h0 := votesAt_pos_iff group 0
  have h1 := votesAt_pos_iff group 1
  have h2 := votesAt_pos_iff group 2
  have h3 := votesAt_pos_iff group 3
  have h4 := votesAt_pos_iff group 4
  have hlt : poll (vote group) < (arrivals group).length := by
    rw [poll_eq h]
    split_ifs <;> omega
  exact ⟨_, getElem?_eq_getElem hlt⟩

/-- **The most packets**: the winner has them exactly for the harmless counts. -/
theorem most_iff {winner : UInt32}
    (hw : (arrivals group)[poll (vote group)]? = some winner) :
    (∀ other, votes group other ≤ votes group winner) ↔ PollHarmless group := by
  have hsum := sum_votesAt h
  have h0 := votesAt_pos_iff group 0
  have h1 := votesAt_pos_iff group 1
  have h2 := votesAt_pos_iff group 2
  have h3 := votesAt_pos_iff group 3
  have h4 := votesAt_pos_iff group 4
  have hat : (∀ other, votes group other ≤ votes group winner) ↔
      ∀ j < 5, votesAt group j ≤ votesAt group (poll (vote group)) := by
    rw [votesAt_eq hw]
    constructor
    · intro hmost j _
      unfold votesAt
      rcases (arrivals group)[j]? with _ | ssrc
      · exact Nat.zero_le _
      · exact hmost ssrc
    · intro hmost other
      rcases Nat.eq_zero_or_pos (votes group other) with hzero | hpos
      · rw [hzero]
        exact Nat.zero_le _
      · obtain ⟨j, hj, hssrc⟩ := exists_votesAt h hpos
        rw [← votesAt_eq hssrc]
        exact hmost j hj
  have hfive : (∀ j < 5, votesAt group j ≤ votesAt group (poll (vote group))) ↔
      votesAt group 0 ≤ votesAt group (poll (vote group)) ∧
      votesAt group 1 ≤ votesAt group (poll (vote group)) ∧
      votesAt group 2 ≤ votesAt group (poll (vote group)) ∧
      votesAt group 3 ≤ votesAt group (poll (vote group)) ∧
      votesAt group 4 ≤ votesAt group (poll (vote group)) := by
    constructor
    · intro hj
      exact ⟨hj 0 (by decide), hj 1 (by decide), hj 2 (by decide), hj 3 (by decide),
        hj 4 (by decide)⟩
    · rintro ⟨hj0, hj1, hj2, hj3, hj4⟩ j hj
      interval_cases j <;> assumption
  rw [hat, hfive, poll_eq h]
  unfold PollHarmless
  split_ifs <;> omega

/-- For the harmless counts, the winner is the elected SSRC. -/
theorem elected_iff (hharmless : PollHarmless group)
    {winner : UInt32} (hw : (arrivals group)[poll (vote group)]? = some winner) (ssrc : UInt32) :
    Elected group ssrc ↔ ssrc = winner := by
  have hsum := sum_votesAt h
  have h0 := votesAt_pos_iff group 0
  have h1 := votesAt_pos_iff group 1
  have h2 := votesAt_pos_iff group 2
  have h3 := votesAt_pos_iff group 3
  have h4 := votesAt_pos_iff group 4
  have hmost := (most_iff h hw).mpr hharmless
  have hpoll := poll_eq h
  have hwinner := votesAt_eq hw
  constructor
  · rintro ⟨hall, hthird⟩
    have heq : votes group ssrc = votes group winner := Nat.le_antisymm (hmost ssrc) (hall winner)
    by_cases htwo : poll (vote group) = 2
    · rw [htwo] at hw
      exact hthird winner hw heq.le
    · -- without the third SSRC the maximum belongs to one SSRC only
      have hpos : 0 < votes group ssrc := by
        rw [heq, ← hwinner]
        exact (votesAt_pos_iff group _).mpr (List.getElem?_eq_some_iff.mp hw).1
      obtain ⟨j, hj, hssrc⟩ := exists_votesAt h hpos
      have hj' := votesAt_eq hssrc
      have hsame : j = poll (vote group) := by
        rw [hpoll] at htwo hwinner ⊢
        unfold PollHarmless at hharmless
        split_ifs at htwo hwinner ⊢ <;> interval_cases j <;> omega
      rw [hsame, hw] at hssrc
      exact (Option.some.inj hssrc).symm
  · rintro rfl
    refine ⟨hmost, fun third hthird hle => ?_⟩
    have htwo : poll (vote group) = 2 := by
      have hthird' := votesAt_eq hthird
      have hpos : 0 < votesAt group 2 :=
        (votesAt_pos_iff group 2).mpr (List.getElem?_eq_some_iff.mp hthird).1
      rw [hpoll] at hwinner ⊢
      split_ifs at hwinner ⊢ <;> omega
    rw [htwo, hthird] at hw
    exact (Option.some.inj hw).symm

end

/-- The least number is the earliest one where the numbers do not straddle the wrap-around. -/
theorem earliest_least_iff (hne : packetsOf group ssrc ≠ []) :
    (∃ n, (tally group ssrc).seqbase.toUInt32 = n.toUInt32 ∧ Earliest group ssrc n) ↔
      ∀ p ∈ packetsOf group ssrc, ∀ q ∈ packetsOf group ssrc,
        p.seqNum ≤ q.seqNum → q.seqNum - p.seqNum < 0x8000 := by
  obtain ⟨⟨least, hleast, hseq⟩, hall⟩ := tally_seqbase hne
  have hsub : ∀ {a b : UInt16}, a ≤ b → (b - a < 0x8000 ↔ b.toNat - a.toNat < 0x8000) := by
    intro a b hab
    rw [UInt16.lt_iff_toNat_lt, UInt16.toNat_sub_of_le _ _ hab]
    rfl
  constructor
  · rintro ⟨n, hn, -, hearliest⟩ p hp q hq hpq
    obtain rfl : (tally group ssrc).seqbase = n := by
      rw [← UInt16.toNat_inj]
      have := congrArg UInt32.toNat hn
      simpa using this
    have hlt := (hsub (hall q hq)).mp (hearliest q hq)
    have hle := UInt16.le_iff_toNat_le.mp (hall p hp)
    rw [hsub hpq]
    omega
  · intro hspread
    refine ⟨_, rfl, ⟨least, hleast, hseq⟩, fun q hq => ?_⟩
    have hle := hall q hq
    rw [← hseq] at hle ⊢
    exact hspread least hleast q hq hle

end Winner

/-! ## 6. The decision -/

/-- Fewer than five packets wait for the decision. -/
def Waiting (s : VoteState) : Prop := s.iFirstDataPackets.length < cPktNeededForVote

variable {s : VoteState}

theorem waiting_addFirstPacket (hs : Waiting s) (packet : FirstPacket) :
    Waiting (addFirstPacket s packet) := by
  unfold addFirstPacket
  dsimp only
  split_ifs with heos hlock hssrc hother hfew
  · exact hs
  · exact hs
  · exact hs
  · exact hs
  · exact hfew
  · unfold decideVote
    dsimp only
    split <;> exact Nat.succ_pos 4

/-- **Any run.** -/
theorem waiting_run {events : List VoteEvent}
    (hr : Run VoteSteps {} events s) : Waiting s := by
  have hstart : Waiting {} := Nat.succ_pos 4
  refine Run.invariant (I := Waiting) hstart ?_ hr
  rintro s event s' hs rfl
  cases event with
  | addPacket packet => exact waiting_addFirstPacket hs packet
  | setSSRC aSSRC => exact hs
  | rtpInfoParams vec => exact hs
  | eos iEOSSent => exact hs
  | flushJitterBuffer => exact Nat.succ_pos 4
  | resetJitterBuffer => exact Nat.succ_pos 4

/-- The packet that brings the decision is the fifth one. -/
theorem addFirstPacket_locks {packet : FirstPacket} (hs : Waiting s)
    (hopen : s.seqNumLock = false) (hlocks : (addFirstPacket s packet).seqNumLock = true) :
    (s.iFirstDataPackets ++ [packet]).length = cPktNeededForVote ∧
      addFirstPacket s packet = decideVote s (s.iFirstDataPackets ++ [packet]) := by
  unfold Waiting at hs
  have hlen : (s.iFirstDataPackets ++ [packet]).length = s.iFirstDataPackets.length + 1 :=
    length_append
  unfold addFirstPacket at hlocks ⊢
  dsimp only at hlocks ⊢
  split_ifs at hlocks ⊢ with heos hlock hssrc hother hfew
  · rw [hopen] at hlocks
    cases hlocks
  · rw [hopen] at hlock
    cases hlock
  · rw [hopen] at hlock
    cases hlock
  · rw [hopen] at hlocks
    cases hlocks
  · rw [hopen] at hlocks
    cases hlocks
  · exact ⟨by omega, rfl⟩

theorem decideVote_right_iff {group : List FirstPacket}
    (h : group.length = cPktNeededForVote) :
    VoteRight group (decideVote s group) ↔ PollHarmless group ∧
      ∀ ssrc, Elected group ssrc → FirstSeqNumKnown s.iRTPInfoParamsVec group ssrc := by
  obtain ⟨winner, hw⟩ := exists_winner h
  have hne : packetsOf group winner ≠ [] :=
    (mem_arrivals group winner).mp (mem_of_getElem? hw)
  have htake : group.take cPktNeededForVote = group := take_of_length_le h.le
  have hrow := row_eq h.le hw
  have hlock : (decideVote s group).SSRCLock = winner := by
    unfold decideVote
    rw [htake]
    dsimp only
    split <;> exact (congrArg VoteRow.ssrc hrow).trans (tally_ssrc hne)
  have hfirst : (∃ n, (decideVote s group).iFirstSeqNum = n.toUInt32 ∧ Earliest group winner n) ↔
      FirstSeqNumKnown s.iRTPInfoParamsVec group winner := by
    unfold decideVote FirstSeqNumKnown
    rw [htake]
    dsimp only
    cases s.iRTPInfoParamsVec with
    | nil =>
      rw [hrow]
      exact earliest_least_iff hne
    | cons it rest =>
      dsimp only [head?_cons]
      by_cases hset : it.seqNumBaseSet = true
      · rw [if_pos hset, Option.filter_some_pos hset]
      · rw [if_neg hset, Option.filter_some_neg (Bool.eq_false_of_not_eq_true hset), hrow]
        exact earliest_least_iff hne
  constructor
  · rintro ⟨hmost, hearliest⟩
    rw [hlock] at hmost hearliest
    have hharmless := (most_iff h hw).mp hmost
    refine ⟨hharmless, fun ssrc hssrc => ?_⟩
    rw [(elected_iff h hharmless hw ssrc).mp hssrc]
    exact hfirst.mp hearliest
  · rintro ⟨hharmless, hknown⟩
    have hmost := (most_iff h hw).mpr hharmless
    have helected := (elected_iff h hharmless hw winner).mpr rfl
    refine ⟨?_, ?_⟩
    · rw [hlock]
      exact hmost
    · rw [hlock]
      exact hfirst.mpr (hknown winner helected)

/-- **The lock**, in any run: it is right exactly where the comparison with indices does no harm and
    the elected SSRC's first sequence number is the least one or the one of the RTP info. -/
theorem vote_right_iff {events : List VoteEvent} {s : VoteState} {packet : FirstPacket}
    (hr : Run VoteSteps {} events s) (hopen : s.seqNumLock = false)
    (hlocks : (addFirstPacket s packet).seqNumLock = true) :
    VoteRight (s.iFirstDataPackets ++ [packet]) (addFirstPacket s packet) ↔
      PollHarmless (s.iFirstDataPackets ++ [packet]) ∧
      ∀ ssrc, Elected (s.iFirstDataPackets ++ [packet]) ssrc →
        FirstSeqNumKnown s.iRTPInfoParamsVec (s.iFirstDataPackets ++ [packet]) ssrc := by
  obtain ⟨hlen, heq⟩ := addFirstPacket_locks (waiting_run hr) hopen hlocks
  rw [heq]
  exact decideVote_right_iff hlen

/-- Three packets of one SSRC and one of another. -/
def fourPackets : List FirstPacket :=
  [⟨7, 1, 0⟩, ⟨7, 2, 0⟩, ⟨7, 3, 0⟩, ⟨8, 1, 0⟩]

theorem run_fourPackets :
    Run VoteSteps {} (fourPackets.map VoteEvent.addPacket)
      { iFirstDataPackets := fourPackets } := by
  have h1 : Run VoteSteps {} [] {} := Run.start
  have h2 := h1.step (l := .addPacket ⟨7, 1, 0⟩) rfl
  have h3 := h2.step (l := .addPacket ⟨7, 2, 0⟩) rfl
  have h4 := h3.step (l := .addPacket ⟨7, 3, 0⟩) rfl
  exact h4.step (l := .addPacket ⟨8, 1, 0⟩) rfl

/-- The fifth packet has a third SSRC. -/
theorem vote_right_iff_three :
    VoteRight (fourPackets ++ [⟨9, 1, 0⟩])
        (addFirstPacket { iFirstDataPackets := fourPackets } ⟨9, 1, 0⟩) ↔
      PollHarmless (fourPackets ++ [⟨9, 1, 0⟩]) ∧
      ∀ ssrc, Elected (fourPackets ++ [⟨9, 1, 0⟩]) ssrc →
        FirstSeqNumKnown [] (fourPackets ++ [⟨9, 1, 0⟩]) ssrc :=
  vote_right_iff run_fourPackets rfl (by decide)

/-- The third SSRC is locked with one packet against three. -/
theorem third_ssrc_wins :
    (addFirstPacket { iFirstDataPackets := fourPackets } ⟨9, 1, 0⟩).SSRCLock = 9 ∧
    ¬ VoteRight (fourPackets ++ [⟨9, 1, 0⟩])
      (addFirstPacket { iFirstDataPackets := fourPackets } ⟨9, 1, 0⟩) := by
  refine ⟨by decide, fun h => ?_⟩
  exact absurd (h.most 7) (by decide)

end OpenCore.JitterBuffer
