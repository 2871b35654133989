/-
  File:      OpenCore/JitterBuffer/RtpInfoParams.lean
  Subject:   `PVMFRTPJitterBufferImpl::FindRTPInfoParams` (pvmf_rtp_jitter_buffer_impl.cpp): the
             RTP info a packet belongs to, and the ones it makes stale.

  Sequence numbers are 16 bit serial numbers kept in 32 bits. The purge subtracts two of them as
  `int`, so it never fires where the difference is negative, and it asks only how far the first
  entry is away, not whether the one behind it was reached.

  **Main result**: `findRTPInfoParams_right_iff`.
-/
import OpenCore.JitterBuffer.RtpPacket

namespace OpenCore.JitterBuffer

open List

/-! ## 1. The code -/

/-- `PVMFRTPInfoParams`. -/
structure RTPInfoParams where
  seqNumBaseSet : Bool := false
  seqNum : UInt32 := 0
  rtpTimeBaseSet : Bool := false
  rtpTime : UInt32 := 0
  nptTimeInMS : UInt32 := 0
  nptTimeBaseSet : Bool := false
  rtpTimeScale : UInt32 := 0
  nptTimeInRTPTimeScale : UInt32 := 0
  isPlayAfterPause : Bool := false
  deriving DecidableEq

/-- `iRTPInfoParamsVec` and `iLatestPurgedRTPInfoParams`. -/
structure RTPInfoState where
  vec : List RTPInfoParams
  latestPurged : RTPInfoParams := {}
  deriving DecidableEq

/-- What `FindRTPInfoParams` returns: a null pointer, an entry of the vector, the entry purged
    last, or it leaves. -/
inductive RTPInfoFound where
  | null
  | entry (params : RTPInfoParams)
  | purged (params : RTPInfoParams)
  | leave
  deriving DecidableEq

def RTPSEQNUM_ROLLOVER_WRAP_THRESHHOLD_16BIT : UInt16 := 0x8000

/-- `IsSequenceNumEarlier` with the difference it hands back. -/
def isSequenceNumEarlierDiff (aSeqNumToComp aBaseSeqNum : UInt16) : Bool × UInt16 :=
  let aDiff := aBaseSeqNum - aSeqNumToComp
  if aDiff ≠ 0 ∧ aDiff < RTPSEQNUM_ROLLOVER_WRAP_THRESHHOLD_16BIT then (true, aDiff)
  else (false, 0 - aDiff)

/-- The condition of the purge, a difference of two `int`s. -/
def isStale (aSeqNum : UInt32) (it : RTPInfoParams) : Bool :=
  it.seqNumBaseSet &&
    decide ((RTPSEQNUM_ROLLOVER_WRAP_THRESHHOLD_16BIT.toNat : Int) ≤
      (aSeqNum.toUInt16.toNat : Int) - (it.seqNum.toUInt16.toNat : Int))

/-- The purge: while more than one entry is left and the first one is stale, it goes. The flag is
    `rtpInfoParamsMustBeAvl`. -/
def purge (aSeqNum : UInt32) :
    List RTPInfoParams → RTPInfoParams → Bool → RTPInfoState × Bool
  | it :: next :: rest, latestPurged, mustBeAvl =>
    if isStale aSeqNum it then purge aSeqNum (next :: rest) it true
    else (⟨it :: next :: rest, latestPurged⟩, mustBeAvl)
  | vec, latestPurged, mustBeAvl => (⟨vec, latestPurged⟩, mustBeAvl)

/-- The search from the last entry to the first, over the entries in that order: the entry, and
    whether one with a sequence number was met. -/
def search (aSeqNum : UInt32) : List RTPInfoParams → Bool → Option RTPInfoParams × Bool
  | [], mustBeAvl => (none, mustBeAvl)
  | it :: rest, mustBeAvl =>
    if it.seqNumBaseSet then
      let r := isSequenceNumEarlierDiff it.seqNum.toUInt16 aSeqNum.toUInt16
      if r.1 ∨ r.2 = 0 then (some it, true) else search aSeqNum rest true
    else search aSeqNum rest mustBeAvl

/-- What is returned when no entry left by the purge will do. -/
def fallback (s : RTPInfoState) (mustBeAvl : Bool) : RTPInfoFound :=
  if s.latestPurged.seqNumBaseSet then .purged s.latestPurged
  else if mustBeAvl then .leave
  else .null

/-- The search behind the purge. -/
def findLeft (aSeqNum : UInt32) (s : RTPInfoState) (mustBeAvl : Bool) : RTPInfoFound :=
  let found := search aSeqNum s.vec.reverse mustBeAvl
  match found.1 with
  | some it => .entry it
  | none => fallback s found.2

/-- `FindRTPInfoParams`. -/
def findRTPInfoParams (s : RTPInfoState) (aSeqNum : UInt32) : RTPInfoState × RTPInfoFound :=
  match s.vec with
  | [it] => (s, if it.seqNumBaseSet then .entry it else .null)
  | vec =>
    let purged := purge aSeqNum vec s.latestPurged false
    (purged.1, findLeft aSeqNum purged.1 purged.2)

/-! ## 2. What it is for -/

/-- An entry begins at the packet or before it. -/
def NotLater (e : RTPInfoParams) (aSeqNum : UInt32) : Prop :=
  aSeqNum.toUInt16 - e.seqNum.toUInt16 < 0x8000

/-- One entry begins serially before another. -/
def Before (e f : RTPInfoParams) : Prop :=
  isSequenceNumEarlier e.seqNum.toUInt16 f.seqNum.toUInt16 = true

/-- Entries with sequence numbers in serial order. -/
def SerialOrder (vec : List RTPInfoParams) : Prop :=
  (∀ e ∈ vec, e.seqNumBaseSet = true) ∧ vec.Pairwise Before

/-- The entry with the greatest sequence number not later than the packet's. -/
def Governs (vec : List RTPInfoParams) (aSeqNum : UInt32) (e : RTPInfoParams) : Prop :=
  e ∈ vec ∧ NotLater e aSeqNum ∧ ∀ f ∈ vec, NotLater f aSeqNum → f = e ∨ Before f e

/-- A later entry was reached: this one applies to no packet from here on. -/
def Superseded (vec : List RTPInfoParams) (aSeqNum : UInt32) (e : RTPInfoParams) : Prop :=
  ∃ f ∈ vec, Before e f ∧ NotLater f aSeqNum

/-- **The search is right**: it returns the entry that governs the packet, none where there is
    none, and the entries it purges from the front are superseded. -/
def FindsRight (s : RTPInfoState) (aSeqNum : UInt32) : Prop :=
  let r := findRTPInfoParams s aSeqNum
  ((∃ e, r.2 = .entry e ∧ Governs s.vec aSeqNum e) ∨
      ((r.2 = .null ∨ r.2 = .leave) ∧ ∀ e ∈ s.vec, ¬ NotLater e aSeqNum)) ∧
    ∃ gone, s.vec = gone ++ r.1.vec ∧ ∀ e ∈ gone, Superseded s.vec aSeqNum e

/-- The first entry is purged. -/
def headPurged (vec : List RTPInfoParams) (aSeqNum : UInt32) : Bool :=
  match vec with
  | it :: _ :: _ => isStale aSeqNum it
  | _ => false

/-! ## 3. When it is right -/

section Right

variable {vec : List RTPInfoParams} {aSeqNum : UInt32} {e : RTPInfoParams}

/-- The test of the search is the serial one. -/
theorem notLater_iff (e : RTPInfoParams) (aSeqNum : UInt32) :
    ((isSequenceNumEarlierDiff e.seqNum.toUInt16 aSeqNum.toUInt16).1 = true ∨
      (isSequenceNumEarlierDiff e.seqNum.toUInt16 aSeqNum.toUInt16).2 = 0) ↔
      NotLater e aSeqNum := by
  unfold isSequenceNumEarlierDiff NotLater RTPSEQNUM_ROLLOVER_WRAP_THRESHHOLD_16BIT
  dsimp only
  by_cases hz : aSeqNum.toUInt16 - e.seqNum.toUInt16 = 0
  · rw [hz]
    decide
  by_cases hlt : aSeqNum.toUInt16 - e.seqNum.toUInt16 < 0x8000
  · rw [if_pos ⟨hz, hlt⟩]
    exact iff_of_true (.inl rfl) hlt
  · rw [if_neg fun h => hlt h.2]
    refine iff_of_false ?_ hlt
    rintro (h | h)
    · cases h
    · exact hz (by
        have hneg := congrArg (fun x => 0 - x) h
        simpa using hneg)

/-- A stale entry is later than the packet. -/
theorem not_notLater_of_isStale (h : isStale aSeqNum e = true) : ¬ NotLater e aSeqNum := by
  unfold isStale RTPSEQNUM_ROLLOVER_WRAP_THRESHHOLD_16BIT at h
  rw [Bool.and_eq_true, decide_eq_true_eq] at h
  obtain ⟨-, h⟩ := h
  unfold NotLater
  rw [UInt16.lt_iff_toNat_lt]
  have hthreshold : (32768 : UInt16).toNat = 32768 := rfl
  rw [hthreshold] at h
  rw [UInt16.toNat_sub_of_le _ _ (UInt16.le_iff_toNat_le.mpr (by omega)), hthreshold]
  omega

/-- The search finds the first entry, in its order, that is not later. -/
theorem search_eq (aSeqNum : UInt32) (h : ∀ e ∈ vec, e.seqNumBaseSet = true) (avl : Bool) :
    (∃ pre e post, vec = pre ++ e :: post ∧ (∀ f ∈ pre, ¬ NotLater f aSeqNum) ∧
      NotLater e aSeqNum ∧ (search aSeqNum vec avl).1 = some e) ∨
    ((∀ f ∈ vec, ¬ NotLater f aSeqNum) ∧ (search aSeqNum vec avl).1 = none) := by
  induction vec generalizing avl with
  | nil => exact .inr ⟨fun _ hf => absurd hf not_mem_nil, rfl⟩
  | cons it rest ih =>
    obtain ⟨hit, hrest⟩ := forall_mem_cons.mp h
    rw [search, if_pos hit]
    dsimp only
    by_cases hn : NotLater it aSeqNum
    · rw [if_pos ((notLater_iff it aSeqNum).mpr hn)]
      exact .inl ⟨[], it, rest, rfl, fun _ hf => absurd hf not_mem_nil, hn, rfl⟩
    · rw [if_neg fun hr => hn ((notLater_iff it aSeqNum).mp hr)]
      rcases ih hrest true with ⟨pre, e, post, rfl, hpre, he, hs⟩ | ⟨hall, hs⟩
      · exact .inl ⟨it :: pre, e, post, rfl, forall_mem_cons.mpr ⟨hn, hpre⟩, he, hs⟩
      · exact .inr ⟨forall_mem_cons.mpr ⟨hn, hall⟩, hs⟩

/-- The purge takes stale entries from the front, and keeps at least one. -/
theorem purge_eq (aSeqNum : UInt32) (vec : List RTPInfoParams) (latest : RTPInfoParams)
    (avl : Bool) :
    ∃ gone, vec = gone ++ (purge aSeqNum vec latest avl).1.vec ∧
      (∀ e ∈ gone, isStale aSeqNum e = true) ∧
      (headPurged vec aSeqNum = false → purge aSeqNum vec latest avl = (⟨vec, latest⟩, avl)) ∧
      (headPurged vec aSeqNum = true → gone ≠ []) := by
  induction vec generalizing latest avl with
  | nil => exact ⟨[], rfl, fun _ he => absurd he not_mem_nil, fun _ => rfl, fun h => by cases h⟩
  | cons it rest ih =>
    cases rest with
    | nil =>
      exact ⟨[], rfl, fun _ he => absurd he not_mem_nil, fun _ => rfl, fun h => by cases h⟩
    | cons next rest =>
      rw [purge]
      by_cases hs : isStale aSeqNum it = true
      · obtain ⟨gone, hvec, hgone, -, -⟩ := ih it true
        rw [if_pos hs]
        refine ⟨it :: gone, by rw [cons_append, ← hvec],
          forall_mem_cons.mpr ⟨hs, hgone⟩, fun h => ?_, fun _ => cons_ne_nil it gone⟩
        rw [headPurged, hs] at h
        cases h
      · rw [if_neg hs]
        exact ⟨[], rfl, fun _ he => absurd he not_mem_nil, fun _ => rfl,
          fun h => absurd h hs⟩

/-- The last entry that is not later governs the packet. -/
theorem governs_last {l r : List RTPInfoParams} (h : SerialOrder (l ++ e :: r))
    (he : NotLater e aSeqNum) (hr : ∀ f ∈ r, ¬ NotLater f aSeqNum) :
    Governs (l ++ e :: r) aSeqNum e := by
  refine ⟨mem_append_right l mem_cons_self, he, fun f hf hn => ?_⟩
  rcases mem_append.mp hf with hf | hf
  · exact .inr ((pairwise_append.mp h.2).2.2 f hf e mem_cons_self)
  rcases mem_cons.mp hf with rfl | hf
  · exact .inl rfl
  · exact absurd hn (hr f hf)

/-- One entry alone is returned, wherever it begins. -/
theorem findRTPInfoParams_single (latest : RTPInfoParams) (he : e.seqNumBaseSet = true) :
    findRTPInfoParams ⟨[e], latest⟩ aSeqNum = (⟨[e], latest⟩, .entry e) := by
  unfold findRTPInfoParams
  dsimp only
  rw [if_pos he]

theorem findRTPInfoParams_of_length (s : RTPInfoState) (aSeqNum : UInt32)
    (hlen : s.vec.length ≠ 1) :
    let r := purge aSeqNum s.vec s.latestPurged false
    findRTPInfoParams s aSeqNum = (r.1, findLeft aSeqNum r.1 r.2) := by
  unfold findRTPInfoParams
  split
  · rename_i it h
    rw [h] at hlen
    exact absurd rfl hlen
  · rfl

/-- **The search behind the purge**: it returns the governing entry and only superseded ones are
    gone, or no entry is early enough and the fallback decides. -/
theorem findLeft_cases {s : RTPInfoState} {gone : List RTPInfoParams}
    (h : SerialOrder (gone ++ s.vec)) (hgone : ∀ e ∈ gone, ¬ NotLater e aSeqNum) (avl : Bool) :
    (∃ e, findLeft aSeqNum s avl = .entry e ∧ Governs (gone ++ s.vec) aSeqNum e ∧
      ∀ x ∈ gone, Superseded (gone ++ s.vec) aSeqNum x) ∨
    ((∀ e ∈ gone ++ s.vec, ¬ NotLater e aSeqNum) ∧
      ∃ avl', findLeft aSeqNum s avl = fallback s avl') := by
  have hset : ∀ e ∈ s.vec.reverse, e.seqNumBaseSet = true := fun e he =>
    h.1 e (mem_append_right gone (mem_reverse.mp he))
  unfold findLeft
  rcases search_eq aSeqNum hset avl with
    ⟨pre, e, post, hrev, hpre, he, hs⟩ | ⟨hall, hs⟩
  · have hvec : s.vec = post.reverse ++ e :: pre.reverse := by
      rw [← reverse_reverse s.vec, hrev, reverse_append, reverse_cons,
        append_assoc]
      rfl
    dsimp only
    rw [hs, hvec]
    rw [hvec] at h
    refine .inl ⟨e, rfl, ?_, fun x hx => ⟨e, ?_, ?_, he⟩⟩
    · rw [← append_assoc] at h ⊢
      exact governs_last h he fun f hf => hpre f (mem_reverse.mp hf)
    · exact mem_append_right _ (mem_append_right _ mem_cons_self)
    · exact (pairwise_append.mp h.2).2.2 x hx e
        (mem_append_right _ mem_cons_self)
  · dsimp only
    rw [hs]
    refine .inr ⟨fun e he => ?_, _, rfl⟩
    rcases mem_append.mp he with he | he
    · exact hgone e he
    · exact hall e (mem_reverse.mpr he)

/-- What the fallback returns is no entry of the vector; it is nothing where nothing was purged. -/
theorem fallback_cases (s : RTPInfoState) (avl : Bool) :
    (s.latestPurged.seqNumBaseSet = true ∧ ∃ e, fallback s avl = .purged e) ∨
      (s.latestPurged.seqNumBaseSet = false ∧ (fallback s avl = .null ∨ fallback s avl = .leave)) := by
  unfold fallback
  split
  · rename_i h
    exact .inl ⟨h, _, rfl⟩
  · rename_i h
    refine .inr ⟨Bool.eq_false_of_not_eq_true h, ?_⟩
    split
    · exact .inr rfl
    · exact .inl rfl

/-- **When the search is right**: exactly where an entry is early enough, or the vector does not
    have one entry alone, the purge leaves its first one, and none was purged before. -/
theorem findRTPInfoParams_right_iff (s : RTPInfoState) (aSeqNum : UInt32)
    (h : SerialOrder s.vec) :
    FindsRight s aSeqNum ↔
      (∃ e ∈ s.vec, NotLater e aSeqNum) ∨
        (s.vec.length ≠ 1 ∧ headPurged s.vec aSeqNum = false ∧
          s.latestPurged.seqNumBaseSet = false) := by
  obtain ⟨vec, latest⟩ := s
  by_cases hlen : vec.length = 1
  · -- one entry alone
    obtain ⟨e, rfl⟩ := length_eq_one_iff.mp hlen
    have he := h.1 e mem_cons_self
    unfold FindsRight
    rw [findRTPInfoParams_single latest he]
    constructor
    · rintro ⟨⟨f, -, hf⟩ | ⟨hr, -⟩, -⟩
      · exact .inl ⟨f, hf.1, hf.2.1⟩
      · rcases hr with hr | hr <;> cases hr
    · rintro (⟨f, hf, hn⟩ | ⟨hne, -⟩)
      · obtain rfl := mem_singleton.mp hf
        have hback : ∀ x ∈ ([] : List RTPInfoParams), ¬ NotLater x aSeqNum :=
          fun _ hx => absurd hx not_mem_nil
        exact ⟨.inl ⟨f, rfl, governs_last (l := []) h hn hback⟩, [], rfl,
          fun _ hx => absurd hx not_mem_nil⟩
      · exact absurd rfl hne
  obtain ⟨gone, hvec, hstale, hid, hne⟩ := purge_eq aSeqNum vec latest false
  have hgone : ∀ e ∈ gone, ¬ NotLater e aSeqNum := fun e he => not_notLater_of_isStale (hstale e he)
  have hserial : SerialOrder vec := h
  rw [hvec] at hserial
  unfold FindsRight
  rw [findRTPInfoParams_of_length ⟨vec, latest⟩ aSeqNum hlen]
  dsimp only
  rcases findLeft_cases hserial hgone (purge aSeqNum vec latest false).2 with
    ⟨e, hfound, hgov, hsup⟩ | ⟨hnone, avl, hfound⟩
  · rw [← hvec] at hgov hsup
    rw [hfound]
    exact iff_of_true ⟨.inl ⟨e, rfl, hgov⟩, gone, hvec, hsup⟩ (.inl ⟨e, hgov.1, hgov.2.1⟩)
  · rw [← hvec] at hnone
    rw [hfound]
    constructor
    · rintro ⟨hret, gone', hvec', hsup⟩
      -- nothing is superseded, so nothing was purged
      have hnil : gone' = [] := eq_nil_iff_forall_not_mem.mpr fun x hx => by
        obtain ⟨f, hf, -, hn⟩ := hsup x hx
        exact hnone f hf hn
      rw [hnil, nil_append] at hvec'
      have hgone_nil : gone = [] := by
        have hlengths := congrArg List.length hvec
        rw [length_append, ← hvec'] at hlengths
        exact length_eq_zero_iff.mp (by omega)
      have hhead : headPurged vec aSeqNum = false :=
        Bool.eq_false_of_not_eq_true fun ht => hne ht hgone_nil
      refine .inr ⟨hlen, hhead, ?_⟩
      rw [hid hhead] at hret
      rcases fallback_cases ⟨vec, latest⟩ avl with ⟨-, f, hf⟩ | ⟨hunset, -⟩
      · rw [hf] at hret
        rcases hret with ⟨e, he, -⟩ | ⟨hr | hr, -⟩ <;> cases ‹RTPInfoFound.purged f = _›
      · exact hunset
    · rintro (⟨f, hf, hn⟩ | ⟨-, hhead, hunset⟩)
      · exact absurd hn (hnone f hf)
      · rw [hid hhead]
        refine ⟨.inr ⟨?_, hnone⟩, [], rfl, fun _ hx => absurd hx not_mem_nil⟩
        rcases fallback_cases ⟨vec, latest⟩ avl with ⟨hset, -⟩ | ⟨-, hr⟩
        · dsimp only at hset
          rw [hunset] at hset
          cases hset
        · exact hr

/-- Two entries across the wrap and a packet behind both. -/
theorem findRTPInfoParams_right_wrap :
    FindsRight ⟨[{ seqNumBaseSet := true, seqNum := 65000 }, { seqNumBaseSet := true, seqNum := 100 }],
      {}⟩ 200 :=
  (findRTPInfoParams_right_iff _ 200 (by unfold SerialOrder Before; decide)).mpr
    (.inl ⟨{ seqNumBaseSet := true, seqNum := 100 }, by decide, by unfold NotLater; decide⟩)

/-- **A packet just before the first entry**, on the other side of the wrap: the first entry is
    purged before any packet of it arrived, and the next packet gets the second one. -/
theorem findRTPInfoParams_purges_ahead :
    let infos : List RTPInfoParams :=
      [{ seqNumBaseSet := true, seqNum := 0 }, { seqNumBaseSet := true, seqNum := 100 }]
    SerialOrder infos ∧ ¬ FindsRight ⟨infos, {}⟩ 65535 ∧
      findRTPInfoParams ⟨infos, {}⟩ 65535 =
        (⟨[{ seqNumBaseSet := true, seqNum := 100 }], { seqNumBaseSet := true, seqNum := 0 }⟩,
          .purged { seqNumBaseSet := true, seqNum := 0 }) ∧
      (findRTPInfoParams (findRTPInfoParams ⟨infos, {}⟩ 65535).1 1).2 =
        .entry { seqNumBaseSet := true, seqNum := 100 } := by
  intro infos
  have hpurged : findRTPInfoParams ⟨infos, {}⟩ 65535 =
      (⟨[{ seqNumBaseSet := true, seqNum := 100 }], { seqNumBaseSet := true, seqNum := 0 }⟩,
        .purged { seqNumBaseSet := true, seqNum := 0 }) := by decide
  refine ⟨by unfold SerialOrder Before; decide, ?_, hpurged, by decide⟩
  unfold FindsRight
  rw [hpurged]
  rintro ⟨⟨e, hret, -⟩ | ⟨hret | hret, -⟩, -⟩ <;> cases hret

end Right

end OpenCore.JitterBuffer
