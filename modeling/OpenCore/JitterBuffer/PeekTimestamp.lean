/-
  File:      OpenCore/JitterBuffer/PeekTimestamp.lean
  Subject:   `peekNextElementTimeStamp` and `RetrievePacketPayload` (pvmf_jitter_buffer_impl.cpp,
             pvmf_rtp_jitter_buffer_impl.cpp): the timestamp announced and the one delivered.

  Both look for the RTP info of the next packet, take its RTP time for the previous timestamp where
  the info is new, and add the duration to the monotonic timestamp. Only the delivery moves that
  one by the NPT times when play resumes. And the search purges: made a second time, it may find
  another info.

  **Main result**: `peek_right_iff`.
-/
import OpenCore.JitterBuffer.CircularArray
import OpenCore.JitterBuffer.SsrcVote
import OpenCore.MediaData.MediaClockConverter

namespace OpenCore.JitterBuffer

open Option

/-! ## 1. The code -/

/-- The members of the RTP jitter buffer that a timestamp depends on. -/
structure RtpBuffer where
  iJitterBuffer : CircularArray
  /-- `iRTPInfoParamsVec` and `iLatestPurgedRTPInfoParams`. -/
  rtpInfo : RTPInfoState := { vec := [] }
  iMonotonicTimeStamp : UInt64 := 0
  iPrevTSOut : UInt32 := 0
  iPrevSeqNumBaseOut : UInt32 := 0
  isPrevNptTimeSet : Bool := false
  iPrevNptTimeInRTPTimeScale : UInt32 := 0
  isPrevRtpTimeSet : Bool := false
  iPrevRtpTimeBase : UInt32 := 0
  iEOSSent : Bool := false
  iBroadCastSession : Bool := false
  seqNumLock : Bool := false
  iFirstDataPackets : List MediaData := []
  oSSRCFromSetUpResponseAvailable : Bool := false
  SSRCFromSetUpResponse : UInt32 := 0
  SSRCLock : UInt32 := 0
  iFirstSeqNum : UInt32 := 0
  seqLockTimeStamp : UInt32 := 0
  iRTPAVSyncOffset : Int32 := 0

/-- The pointer `FindRTPInfoParams` returns; `none` where it leaves. -/
def RTPInfoFound.pointer : RTPInfoFound → Option (Option RTPInfoParams)
  | .null => some none
  | .entry params => some (some params)
  | .purged params => some (some params)
  | .leave => none

/-- `PVMFDynamicCircularArray::peekNextElementTimeStamp`: the first packet from the read offset on.
    The loop has no end where there is none. -/
def CircularArray.peekNext (a : CircularArray) : Option MediaData :=
  (retrieveLoop a.iMediaPtrVec a.iArraySize (a.iArraySize + 1) a.iReadOffset 0).1

namespace RtpBuffer

/-- The previous timestamp under the info that was found. -/
def prevTimeStamp (s : RtpBuffer) (rtpInfoParams : Option RTPInfoParams) : UInt32 :=
  match rtpInfoParams with
  | some params => if s.iPrevSeqNumBaseOut ≠ params.seqNum then params.rtpTime else s.iPrevTSOut
  | none => s.iPrevTSOut

/-- `DeterminePrevTimeStampPeek`; without a timestamp it leaves. -/
def determinePrevTimeStampPeek (s : RtpBuffer) (aSeqNum : UInt32) : RtpBuffer × Option UInt32 :=
  let r := findRTPInfoParams s.rtpInfo aSeqNum
  ({ s with rtpInfo := r.1 }, r.2.pointer.map s.prevTimeStamp)

/-- `GetPrevSampleDuration`: without a duration it leaves. -/
def getPrevSampleDuration (s : RtpBuffer)
    (aCurrentSampleRTPTime aPrevSampleRTPTime aCurrPacketSequenceNum : UInt32) :
    RtpBuffer × Option UInt32 :=
  let delta := aPrevSampleRTPTime - aCurrentSampleRTPTime
  if delta < 0x80000000 then
    if delta ≠ 0 then
      let r := findRTPInfoParams s.rtpInfo aCurrPacketSequenceNum
      ({ s with rtpInfo := r.1 }, r.2.pointer.map fun _ => 0)
    else (s, some 0)
  else (s, some (0 - delta))

/-- `peekNextElementTimeStamp`; without a timestamp it leaves, or does not end. -/
def peekNextElementTimeStamp (s : RtpBuffer) : RtpBuffer × Option UInt32 :=
  if s.iJitterBuffer.iNumElems > 0 then
    match s.iJitterBuffer.peekNext with
    | none => (s, none)
    | some dataPkt =>
      let prev := s.determinePrevTimeStampPeek (.ofNat dataPkt.seqNum)
      match prev.2 with
      | none => (prev.1, none)
      | some prevTS =>
        let duration := prev.1.getPrevSampleDuration (.ofNat dataPkt.timestamp) prevTS
          (.ofNat dataPkt.seqNum)
        (duration.1,
          duration.2.map fun d => (s.iMonotonicTimeStamp + d.toUInt64).toUInt32)
  else (s, some s.iMonotonicTimeStamp.toUInt32)

/-- Play resumes with the info: the NPT times of both sides of the pause are known. -/
def Resumes (s : RtpBuffer) (params : RTPInfoParams) : Prop :=
  s.iPrevSeqNumBaseOut ≠ params.seqNum ∧ params.isPlayAfterPause = true ∧
    params.nptTimeBaseSet = true ∧ s.isPrevNptTimeSet = true ∧ s.isPrevRtpTimeSet = true

instance (s : RtpBuffer) (params : RTPInfoParams) : Decidable (s.Resumes params) :=
  inferInstanceAs (Decidable (_ ∧ _))

/-- The NPT time the stream has reached. -/
def prevNptTime (s : RtpBuffer) : UInt32 :=
  s.iPrevNptTimeInRTPTimeScale + s.iPrevTSOut - s.iPrevRtpTimeBase

/-- `DeterminePrevTimeStamp` with the info that was found. -/
def takeInfo (s : RtpBuffer) (rtpInfoParams : Option RTPInfoParams) : RtpBuffer :=
  match rtpInfoParams with
  | none => s
  | some params =>
    if s.iPrevSeqNumBaseOut ≠ params.seqNum then
      { s with
        iMonotonicTimeStamp :=
          if params.isPlayAfterPause ∧ params.nptTimeBaseSet ∧ s.isPrevNptTimeSet ∧
              s.isPrevRtpTimeSet then
            s.iMonotonicTimeStamp + params.nptTimeInRTPTimeScale.toUInt64 -
              (s.iPrevNptTimeInRTPTimeScale + s.iPrevTSOut - s.iPrevRtpTimeBase).toUInt64
          else s.iMonotonicTimeStamp
        iPrevNptTimeInRTPTimeScale :=
          if params.nptTimeBaseSet then params.nptTimeInRTPTimeScale
          else s.iPrevNptTimeInRTPTimeScale
        isPrevNptTimeSet := params.nptTimeBaseSet
        iPrevRtpTimeBase := if params.rtpTimeBaseSet then params.rtpTime else s.iPrevRtpTimeBase
        isPrevRtpTimeSet := params.rtpTimeBaseSet
        iPrevSeqNumBaseOut := params.seqNum
        iPrevTSOut := params.rtpTime }
    else s

/-- `RetrievePacketPayload`; without a packet there was none, or it leaves. -/
def retrievePacketPayload (s : RtpBuffer) : RtpBuffer × Option MediaData :=
  let retrieved := s.iJitterBuffer.retrieveElement
  let s := { s with iJitterBuffer := retrieved.1 }
  match retrieved.2 with
  | none => (s, none)
  | some elem =>
    let r := findRTPInfoParams s.rtpInfo (.ofNat elem.seqNum)
    let s := { s with rtpInfo := r.1 }
    match r.2.pointer with
    | none => (s, none)
    | some rtpInfoParams =>
      let s := s.takeInfo rtpInfoParams
      let duration := s.getPrevSampleDuration (.ofNat elem.timestamp) s.iPrevTSOut
        (.ofNat elem.seqNum)
      match duration.2 with
      | none => (duration.1, none)
      | some d =>
        let iMonotonicTimeStamp := s.iMonotonicTimeStamp + d.toUInt64
        ({ duration.1 with
            iMonotonicTimeStamp := iMonotonicTimeStamp
            iPrevTSOut := .ofNat elem.timestamp },
          some { elem with timestamp := iMonotonicTimeStamp.toUInt32.toNat })

/-- `nptTimeInMS` in the timescale of the RTP timestamps, by a clock set to zero. -/
def nptInRTPTimeScale (nptTimeInMS rtpTimeScale : UInt32) : UInt32 :=
  let iMediaClockConvertor : MediaData.MediaClockConverter :=
    (MediaData.MediaClockConverter.init 1000 0 0).setClockOtherTimescale 0 rtpTimeScale
  (iMediaClockConvertor.updateClock nptTimeInMS).1.getConvertedTs rtpTimeScale

/-- `setRTPInfoParams`; it leaves where the timescale is zero. -/
def setRTPInfoParams (s : RtpBuffer) (rtpInfo : RTPInfoParams) (oPlayAfterASeek : Bool) :
    RtpBuffer :=
  let vec := if oPlayAfterASeek then [] else s.rtpInfo.vec
  if rtpInfo.rtpTimeScale = 0 then { s with rtpInfo := { s.rtpInfo with vec := vec } }
  else
    let iRTPInfoParams : RTPInfoParams :=
      { seqNumBaseSet := rtpInfo.seqNumBaseSet
        seqNum := if rtpInfo.seqNumBaseSet then rtpInfo.seqNum else 0
        rtpTimeBaseSet := rtpInfo.rtpTimeBaseSet
        rtpTime := if rtpInfo.rtpTimeBaseSet then rtpInfo.rtpTime else 0
        rtpTimeScale := rtpInfo.rtpTimeScale
        nptTimeBaseSet := rtpInfo.nptTimeBaseSet
        nptTimeInMS := if rtpInfo.nptTimeBaseSet then rtpInfo.nptTimeInMS else 0
        nptTimeInRTPTimeScale :=
          if rtpInfo.nptTimeBaseSet then nptInRTPTimeScale rtpInfo.nptTimeInMS rtpInfo.rtpTimeScale
          else 0 }
    if vec = [] then
      { s with
        rtpInfo := { s.rtpInfo with vec := [iRTPInfoParams] }
        iMonotonicTimeStamp :=
          if iRTPInfoParams.rtpTimeBaseSet then
            s.iMonotonicTimeStamp - s.iRTPAVSyncOffset.toInt64.toUInt64
          else s.iMonotonicTimeStamp
        iRTPAVSyncOffset := if iRTPInfoParams.rtpTimeBaseSet then 0 else s.iRTPAVSyncOffset
        iPrevTSOut :=
          if iRTPInfoParams.rtpTimeBaseSet then iRTPInfoParams.rtpTime
          else if s.seqNumLock then s.seqLockTimeStamp else s.iPrevTSOut
        iPrevSeqNumBaseOut :=
          if iRTPInfoParams.seqNumBaseSet then iRTPInfoParams.seqNum
          else if s.seqNumLock then s.iFirstSeqNum else s.iPrevSeqNumBaseOut
        iPrevNptTimeInRTPTimeScale :=
          if iRTPInfoParams.nptTimeBaseSet then iRTPInfoParams.nptTimeInRTPTimeScale
          else s.iPrevNptTimeInRTPTimeScale
        isPrevNptTimeSet := iRTPInfoParams.nptTimeBaseSet || s.isPrevNptTimeSet
        iPrevRtpTimeBase :=
          if iRTPInfoParams.rtpTimeBaseSet then iRTPInfoParams.rtpTime else s.iPrevRtpTimeBase
        isPrevRtpTimeSet := iRTPInfoParams.rtpTimeBaseSet || s.isPrevRtpTimeSet }
    else
      { s with
        rtpInfo :=
          { s.rtpInfo with
            vec := vec ++ [{ iRTPInfoParams with isPlayAfterPause := !oPlayAfterASeek }] } }

/-- What the vote reads of a packet. -/
def firstPacket (elem : MediaData) : FirstPacket :=
  ⟨.ofNat elem.streamID, .ofNat elem.seqNum, .ofNat elem.timestamp⟩

/-- `ComputeMaxAdjustedRTPTS`, called where there is RTP info: the search in it purges. -/
def computeMaxAdjustedRTPTS (s : RtpBuffer) : RtpBuffer :=
  if s.rtpInfo.vec = [] then s
  else
    { s with
      rtpInfo := (findRTPInfoParams s.rtpInfo
        (.ofNat s.iJitterBuffer.iJitterBufferStats.maxSeqNumReceived)).1 }

/-- `IsSeqTsValidForPkt` with the statistics of the array. -/
def checkSeqTs (s : RtpBuffer) (elem : MediaData) : RtpBuffer × Bool :=
  let stats := s.iJitterBuffer.iJitterBufferStats
  let r := isSeqTsValidForPkt (.ofNat elem.seqNum) (.ofNat elem.timestamp)
    { totalNumPacketsRetrieved := .ofNat stats.totalNumPacketsRetrieved
      lastRetrievedSeqNum := .ofNat stats.lastRetrievedSeqNum
      maxSeqNumRegistered := .ofNat stats.maxSeqNumRegistered
      maxSeqNumReceived := .ofNat stats.maxSeqNumReceived
      maxTimeStampRegistered := .ofNat stats.maxTimeStampRegistered }
  ({ s with
      iJitterBuffer :=
        { s.iJitterBuffer with
          iJitterBufferStats :=
            { stats with
              maxSeqNumRegistered := r.1.maxSeqNumRegistered.toNat
              maxSeqNumReceived := r.1.maxSeqNumReceived.toNat
              maxTimeStampRegistered := r.1.maxTimeStampRegistered.toNat } } }, r.2)

/-- The packets of the group that belong to the locked SSRC go to the array, up to one that is not
    valid; the flag says that there was none. -/
def registerGroup : List MediaData → RtpBuffer → RtpBuffer × Bool
  | [], s => (s, true)
  | elem :: rest, s =>
    if .ofNat elem.streamID = s.SSRCLock then
      if s.iFirstSeqNum ≠ .ofNat elem.seqNum then
        if s.iBroadCastSession ∧
            elem.timestamp < s.iJitterBuffer.iJitterBufferStats.maxTimeStampRegistered then
          (s, false)
        else
          let checked := s.checkSeqTs elem
          if checked.2 then
            registerGroup rest
              { checked.1 with
                iJitterBuffer :=
                  (checked.1.iJitterBuffer.addElement elem checked.1.iFirstSeqNum.toNat).1 }
          else (checked.1, false)
      else
        registerGroup rest
          { s with iJitterBuffer := (s.iJitterBuffer.addElement elem s.iFirstSeqNum.toNat).1 }
    else registerGroup rest s

/-- `CheckForRTPTimeAndRTPSeqNumberBase`. -/
def checkForRTPTimeAndRTPSeqNumberBase (s : RtpBuffer) : RtpBuffer :=
  match s.rtpInfo.vec with
  | [] => s
  | it :: _ =>
    { s with
      iPrevTSOut := if it.rtpTimeBaseSet then s.iPrevTSOut else s.seqLockTimeStamp
      iPrevSeqNumBaseOut := if it.seqNumBaseSet then s.iPrevSeqNumBaseOut else s.iFirstSeqNum }

/-- `AddPacket`. -/
def addPacket (s : RtpBuffer) (aDataPacket : MediaData) : RtpBuffer :=
  if s.iEOSSent then s
  else if s.seqNumLock then
    let s :=
      if s.oSSRCFromSetUpResponseAvailable = false then
        { s with
          oSSRCFromSetUpResponseAvailable := true
          SSRCLock := .ofNat aDataPacket.streamID }
      else s
    if .ofNat aDataPacket.streamID = s.SSRCLock then
      let added := s.iJitterBuffer.addElement aDataPacket s.iFirstSeqNum.toNat
      let s := { s with iJitterBuffer := added.1 }
      if added.2 = .success then s.computeMaxAdjustedRTPTS else s
    else s
  else if s.oSSRCFromSetUpResponseAvailable ∧
      .ofNat aDataPacket.streamID ≠ s.SSRCFromSetUpResponse then s
  else
    let group := s.iFirstDataPackets ++ [aDataPacket]
    if group.length < cPktNeededForVote then { s with iFirstDataPackets := group }
    else
      let voted := decideVote { iRTPInfoParamsVec := s.rtpInfo.vec } (group.map firstPacket)
      let s := RtpBuffer.checkForRTPTimeAndRTPSeqNumberBase
        { s with
          SSRCLock := voted.SSRCLock
          seqNumLock := true
          iFirstSeqNum := voted.iFirstSeqNum
          seqLockTimeStamp := voted.seqLockTimeStamp
          iFirstDataPackets := group
          iJitterBuffer := (s.iJitterBuffer.setFirstSeqNumAdded
            voted.iFirstSeqNum.toNat).setReadOffset voted.iFirstSeqNum.toNat }
      let registered := registerGroup group s
      if registered.2 then
        RtpBuffer.computeMaxAdjustedRTPTS { registered.1 with iFirstDataPackets := [] }
      else registered.1

end RtpBuffer

/-! ## 2. What it is for -/

/-- **The announcement is right**: a delivery right behind it delivers the timestamp announced. -/
def PeekRight (s : RtpBuffer) : Prop :=
  ∀ elem, s.peekNextElementTimeStamp.1.retrievePacketPayload.2 = some elem →
    s.peekNextElementTimeStamp.2 = some (.ofNat elem.timestamp)

/-- The search purges all infos but the last, and the packet does not belong to that one: the next
    search finds it nevertheless. -/
def PurgedToLater (r : RTPInfoState) (aSeqNum : UInt32) : Prop :=
  ∃ front e, r.vec = front ++ [e] ∧ front ≠ [] ∧ (∀ x ∈ front, isStale aSeqNum x = true) ∧
    ¬ (e.seqNumBaseSet = true ∧ NotLater e aSeqNum)

/-- Where play resumes with the info of the packet, it resumes at the NPT time it was left at. -/
def ResumesInPlace (s : RtpBuffer) (aSeqNum : UInt32) : Prop :=
  ∀ params, (findRTPInfoParams s.rtpInfo aSeqNum).2.pointer = some (some params) →
    s.Resumes params → params.nptTimeInRTPTimeScale = s.prevNptTime

/-! ## 3. Searching again -/

theorem search_fst_avl (aSeqNum : UInt32) (vec : List RTPInfoParams) (avl avl' : Bool) :
    (search aSeqNum vec avl).1 = (search aSeqNum vec avl').1 := by
  induction vec generalizing avl avl' with
  | nil => rfl
  | cons it rest ih =>
    unfold search
    split_ifs
    · rfl
    · exact ih avl avl'

/-- Behind the purge nothing is left to purge. -/
theorem headPurged_purge (aSeqNum : UInt32) (vec : List RTPInfoParams) (latest : RTPInfoParams)
    (avl : Bool) : headPurged (purge aSeqNum vec latest avl).1.vec aSeqNum = false := by
  induction vec generalizing latest avl with
  | nil => rfl
  | cons it rest ih =>
    cases rest with
    | nil => rfl
    | cons next rest =>
      rw [purge]
      by_cases hs : isStale aSeqNum it = true
      · rw [if_pos hs]
        exact ih it true
      · rw [if_neg hs]
        exact Bool.eq_false_of_not_eq_true hs

theorem purge_flag (aSeqNum : UInt32) (vec : List RTPInfoParams) (latest : RTPInfoParams)
    (avl : Bool) (h : avl = true → latest.seqNumBaseSet = true) :
    (purge aSeqNum vec latest avl).2 = true →
      (purge aSeqNum vec latest avl).1.latestPurged.seqNumBaseSet = true := by
  induction vec generalizing latest avl with
  | nil => exact h
  | cons it rest ih =>
    cases rest with
    | nil => exact h
    | cons next rest =>
      rw [purge]
      by_cases hs : isStale aSeqNum it = true
      · rw [if_pos hs]
        refine ih it true fun _ => ?_
        unfold isStale at hs
        exact (Bool.and_eq_true_iff.mp hs).1
      · rw [if_neg hs]
        exact h

/-- The flag of the purge does not matter behind it. -/
theorem findLeft_flag (aSeqNum : UInt32) (s : RTPInfoState) (avl : Bool)
    (h : avl = true → s.latestPurged.seqNumBaseSet = true) :
    findLeft aSeqNum s avl = findLeft aSeqNum s false := by
  cases avl with
  | false => rfl
  | true =>
    unfold findLeft
    dsimp only
    rw [search_fst_avl aSeqNum s.vec.reverse true false]
    cases (search aSeqNum s.vec.reverse false).1 with
    | some it => rfl
    | none =>
      dsimp only
      unfold fallback
      rw [if_pos (h rfl), if_pos (h rfl)]

/-- One entry that the packet belongs to is found by the search behind the purge. -/
theorem findLeft_single {aSeqNum : UInt32} {e latest : RTPInfoParams}
    (h : e.seqNumBaseSet = true ∧ NotLater e aSeqNum) (avl : Bool) :
    findLeft aSeqNum ⟨[e], latest⟩ avl = .entry e := by
  have hsearch : (search aSeqNum [e] avl).1 = some e := by
    rw [search, if_pos h.1]
    dsimp only
    rw [if_pos ((notLater_iff e aSeqNum).mpr h.2)]
  unfold findLeft
  dsimp only
  rw [List.reverse_singleton, hsearch]

/-- **The second search** finds what the first one found, and purges nothing. -/
theorem findRTPInfoParams_again {r : RTPInfoState} {aSeqNum : UInt32}
    (h : ¬ PurgedToLater r aSeqNum) :
    findRTPInfoParams (findRTPInfoParams r aSeqNum).1 aSeqNum = findRTPInfoParams r aSeqNum := by
  by_cases hone : r.vec.length = 1
  · have hsame : (findRTPInfoParams r aSeqNum).1 = r := by
      unfold findRTPInfoParams
      obtain ⟨e, he⟩ := List.length_eq_one_iff.mp hone
      rw [he]
    rw [hsame]
  rw [findRTPInfoParams_of_length r aSeqNum hone]
  obtain ⟨gone, hvec, hgone, -, -⟩ := purge_eq aSeqNum r.vec r.latestPurged false
  have hflag := purge_flag aSeqNum r.vec r.latestPurged false nofun
  have hhead := headPurged_purge aSeqNum r.vec r.latestPurged false
  generalize purge aSeqNum r.vec r.latestPurged false = p at hvec hflag hhead
  dsimp only
  by_cases hlen : p.1.vec.length = 1
  · obtain ⟨e, he⟩ := List.length_eq_one_iff.mp hlen
    have hmine : e.seqNumBaseSet = true ∧ NotLater e aSeqNum := by
      by_contra hlater
      refine h ⟨gone, e, he ▸ hvec, ?_, hgone, hlater⟩
      rintro rfl
      rw [hvec, he] at hone
      exact hone rfl
    have hp : p.1 = ⟨[e], p.1.latestPurged⟩ := by rw [← he]
    rw [hp, findRTPInfoParams_single _ hmine.1, findLeft_single hmine]
  · rw [findRTPInfoParams_of_length p.1 aSeqNum hlen]
    obtain ⟨-, -, -, hkept, -⟩ := purge_eq aSeqNum p.1.vec p.1.latestPurged false
    rw [hkept hhead, findLeft_flag aSeqNum p.1 p.2 hflag]

/-! ## 4. The timestamps -/

/-- The duration between two timestamps, 0 where the later one is not later. -/
def duration (cur prev : UInt32) : UInt32 := if prev - cur < 0x80000000 then 0 else cur - prev

section Timestamps

variable {s : RtpBuffer} {dataPkt : MediaData} {aSeqNum : UInt32}

theorem getPrevSampleDuration_eq {pointer : Option RTPInfoParams}
    (hfind : (findRTPInfoParams s.rtpInfo aSeqNum).2.pointer = some pointer)
    (hstate : (findRTPInfoParams s.rtpInfo aSeqNum).1 = s.rtpInfo) (cur prev : UInt32) :
    s.getPrevSampleDuration cur prev aSeqNum = (s, some (duration cur prev)) := by
  unfold RtpBuffer.getPrevSampleDuration duration
  dsimp only
  split_ifs with hearly hzero
  · rw [hfind, hstate]
    rfl
  · rfl
  · rw [UInt32.zero_sub, UInt32.neg_sub]

theorem takeInfo_rtpInfo (s : RtpBuffer) (pointer : Option RTPInfoParams) :
    (s.takeInfo pointer).rtpInfo = s.rtpInfo := by
  unfold RtpBuffer.takeInfo
  cases pointer with
  | none => rfl
  | some params =>
    dsimp only
    split_ifs <;> rfl

/-- The delivery goes by the same previous timestamp as the announcement. -/
theorem takeInfo_prevTSOut (s : RtpBuffer) (pointer : Option RTPInfoParams) :
    (s.takeInfo pointer).iPrevTSOut = s.prevTimeStamp pointer := by
  unfold RtpBuffer.takeInfo RtpBuffer.prevTimeStamp
  cases pointer with
  | none => rfl
  | some params =>
    dsimp only
    split_ifs <;> rfl

/-- What play resumed with an info adds to the monotonic timestamp. -/
def resumeShift (s : RtpBuffer) (pointer : Option RTPInfoParams) : UInt32 :=
  match pointer with
  | none => 0
  | some params => if s.Resumes params then params.nptTimeInRTPTimeScale - s.prevNptTime else 0

theorem takeInfo_monotonic (s : RtpBuffer) (pointer : Option RTPInfoParams) :
    (s.takeInfo pointer).iMonotonicTimeStamp.toUInt32 =
      s.iMonotonicTimeStamp.toUInt32 + resumeShift s pointer := by
  unfold RtpBuffer.takeInfo resumeShift
  cases pointer with
  | none => exact (UInt32.add_zero _).symm
  | some params =>
    dsimp only
    by_cases hnew : s.iPrevSeqNumBaseOut ≠ params.seqNum
    · rw [if_pos hnew]
      dsimp only
      by_cases hresume : s.Resumes params
      · rw [if_pos hresume, if_pos hresume.2]
        simp only [RtpBuffer.prevNptTime, UInt64.toUInt32_sub, UInt64.toUInt32_add,
          UInt32.toUInt32_toUInt64]
        rw [UInt32.sub_eq_add_neg, UInt32.add_assoc, ← UInt32.sub_eq_add_neg]
      · rw [if_neg hresume, if_neg fun h => hresume ⟨hnew, h⟩, UInt32.add_zero]
    · rw [if_neg hnew, if_neg fun h : s.Resumes params => hnew h.1, UInt32.add_zero]

theorem peek_eq (hready : s.iJitterBuffer.iNumElems > 0)
    (hpkt : s.iJitterBuffer.peekNext = some dataPkt)
    (hagain : ¬ PurgedToLater s.rtpInfo (.ofNat dataPkt.seqNum)) :
    s.peekNextElementTimeStamp =
      ({ s with rtpInfo := (findRTPInfoParams s.rtpInfo (.ofNat dataPkt.seqNum)).1 },
        (findRTPInfoParams s.rtpInfo (.ofNat dataPkt.seqNum)).2.pointer.map fun pointer =>
          s.iMonotonicTimeStamp.toUInt32 +
            duration (.ofNat dataPkt.timestamp) (s.prevTimeStamp pointer)) := by
  have hfind := findRTPInfoParams_again hagain
  unfold RtpBuffer.peekNextElementTimeStamp
  rw [if_pos hready, hpkt]
  unfold RtpBuffer.determinePrevTimeStampPeek
  dsimp only
  cases hpointer : (findRTPInfoParams s.rtpInfo (.ofNat dataPkt.seqNum)).2.pointer with
  | none => rfl
  | some pointer =>
    dsimp only [map_some]
    rw [@getPrevSampleDuration_eq
      { s with rtpInfo := (findRTPInfoParams s.rtpInfo (.ofNat dataPkt.seqNum)).1 } _ pointer
      (by rw [hfind]; exact hpointer) (by rw [hfind])]
    simp only [map_some, UInt64.toUInt32_add, UInt32.toUInt32_toUInt64]

theorem retrieveElement_snd (a : CircularArray) : a.retrieveElement.2 = a.peekNext := by
  unfold CircularArray.retrieveElement CircularArray.peekNext
  split <;> rename_i h <;> rw [h]

theorem retrieve_eq (hpkt : s.iJitterBuffer.peekNext = some dataPkt)
    (hagain : ¬ PurgedToLater s.rtpInfo (.ofNat dataPkt.seqNum)) :
    (RtpBuffer.retrievePacketPayload
      { s with rtpInfo := (findRTPInfoParams s.rtpInfo (.ofNat dataPkt.seqNum)).1 }).2 =
      (findRTPInfoParams s.rtpInfo (.ofNat dataPkt.seqNum)).2.pointer.map fun pointer =>
        { dataPkt with
          timestamp := (s.iMonotonicTimeStamp.toUInt32 + resumeShift s pointer +
            duration (.ofNat dataPkt.timestamp) (s.prevTimeStamp pointer)).toNat } := by
  have hfind := findRTPInfoParams_again hagain
  have hsnd : s.iJitterBuffer.retrieveElement.2 = some dataPkt := by
    rw [retrieveElement_snd, hpkt]
  unfold RtpBuffer.retrievePacketPayload
  dsimp only
  rw [hsnd]
  dsimp only
  rw [hfind]
  cases hpointer : (findRTPInfoParams s.rtpInfo (.ofNat dataPkt.seqNum)).2.pointer with
  | none => rfl
  | some pointer =>
    dsimp only [map_some]
    generalize hs' : ({ s with
      iJitterBuffer := s.iJitterBuffer.retrieveElement.1
      rtpInfo := (findRTPInfoParams s.rtpInfo (.ofNat dataPkt.seqNum)).1 } : RtpBuffer) = s'
    have hprev : (s'.takeInfo pointer).iPrevTSOut = s.prevTimeStamp pointer := by
      rw [takeInfo_prevTSOut, ← hs']
      rfl
    have hmonotonic : (s'.takeInfo pointer).iMonotonicTimeStamp.toUInt32 =
        s.iMonotonicTimeStamp.toUInt32 + resumeShift s pointer := by
      rw [takeInfo_monotonic, ← hs']
      rfl
    have hinfo : (s'.takeInfo pointer).rtpInfo =
        (findRTPInfoParams s.rtpInfo (.ofNat dataPkt.seqNum)).1 := by
      rw [takeInfo_rtpInfo, ← hs']
    rw [@getPrevSampleDuration_eq (s'.takeInfo pointer) _ pointer
      (by rw [hinfo, hfind]; exact hpointer) (by rw [hinfo, hfind]), hprev]
    simp only [UInt64.toUInt32_add, UInt32.toUInt32_toUInt64, hmonotonic]

/-- Announced and delivered timestamp differ by what the resumed play adds. -/
theorem resumeShift_eq_zero_iff (s : RtpBuffer) (params : RTPInfoParams) :
    resumeShift s (some params) = 0 ↔
      (s.Resumes params → params.nptTimeInRTPTimeScale = s.prevNptTime) := by
  unfold resumeShift
  dsimp only
  split_ifs with h
  · rw [UInt32.sub_eq_iff_eq_add, UInt32.zero_add]
    exact ⟨fun heq _ => heq, fun heq => heq h⟩
  · exact iff_of_true rfl fun hr => absurd hr h

/-- **The announcement**, in every state with a packet ready whose RTP info is found again by the
    next search: it is the timestamp delivered exactly where play does not resume with that info,
    or resumes at the NPT time it was left at. -/
theorem peek_right_iff (s : RtpBuffer) (hready : s.iJitterBuffer.iNumElems > 0)
    (hpkt : s.iJitterBuffer.peekNext = some dataPkt)
    (hagain : ¬ PurgedToLater s.rtpInfo (.ofNat dataPkt.seqNum)) :
    PeekRight s ↔ ResumesInPlace s (.ofNat dataPkt.seqNum) := by
  unfold PeekRight ResumesInPlace
  rw [peek_eq hready hpkt hagain, retrieve_eq hpkt hagain]
  dsimp only
  cases (findRTPInfoParams s.rtpInfo (.ofNat dataPkt.seqNum)).2.pointer with
  | none => exact iff_of_true nofun nofun
  | some pointer =>
    have hsame : ∀ mono shift d : UInt32, some (mono + d) = some (mono + shift + d) ↔ shift = 0 := by
      intro mono shift d
      rw [some_inj, UInt32.add_left_inj]
      exact UInt32.left_eq_add
    simp only [map_some, some_inj, forall_eq', UInt32.ofNat_toNat]
    rw [← some_inj, hsame]
    cases pointer with
    | none => exact iff_of_true rfl nofun
    | some params =>
      rw [resumeShift_eq_zero_iff]
      exact ⟨fun h params' heq => Option.some.inj heq ▸ h, fun h => h params rfl⟩

end Timestamps

/-! ## 5. Play resumed -/

/-- The RTP info of the first play, from packet 0 and time 0 on. -/
def firstPlay : RTPInfoParams where
  seqNumBaseSet := true
  rtpTimeBaseSet := true
  nptTimeBaseSet := true
  rtpTimeScale := 1000

/-- The one of the play behind the pause: packet 10, RTP time 5000, two seconds into the stream. -/
def secondPlay : RTPInfoParams where
  seqNumBaseSet := true
  seqNum := 10
  rtpTimeBaseSet := true
  rtpTime := 5000
  nptTimeBaseSet := true
  nptTimeInMS := 2000
  rtpTimeScale := 1000

/-- Play, pause before any packet came, play, and the packets 10 to 14. -/
def resumed : RtpBuffer :=
  [10, 11, 12, 13, 14].foldl
    (fun s seqNum => s.addPacket ⟨7, seqNum, 5000 + 20 * (seqNum - 10), [100]⟩)
    ((RtpBuffer.setRTPInfoParams { iJitterBuffer := CircularArray.new 32 } firstPlay
      true).setRTPInfoParams secondPlay false)

/-- The packet that comes next. -/
def resumedNext : MediaData := ⟨7, 10, 5000, [100]⟩

theorem resumed_ready :
    resumed.iJitterBuffer.iNumElems > 0 ∧ resumed.iJitterBuffer.peekNext = some resumedNext := by
  decide +kernel

theorem resumed_again : ¬ PurgedToLater resumed.rtpInfo (.ofNat resumedNext.seqNum) := by
  have hvec : resumed.rtpInfo.vec.headD {} = firstPlay ∧ resumed.rtpInfo.vec.length = 2 := by
    decide +kernel
  rintro ⟨front, e, hfront, hne, hstale, -⟩
  obtain ⟨x, rest, rfl⟩ := List.exists_cons_of_ne_nil hne
  rw [hfront] at hvec
  obtain rfl : x = firstPlay := hvec.1
  have := hstale firstPlay List.mem_cons_self
  exact absurd this (by decide)

/-- There the claim fails: 0 is announced, 2000 delivered. -/
theorem resumed_differs :
    resumed.peekNextElementTimeStamp.2 = some 0 ∧
    resumed.peekNextElementTimeStamp.1.retrievePacketPayload.2 =
      some { resumedNext with timestamp := 2000 } ∧
    ¬ PeekRight resumed := by
  have hpeek : resumed.peekNextElementTimeStamp.2 = some 0 := by decide +kernel
  have hretrieve : resumed.peekNextElementTimeStamp.1.retrievePacketPayload.2 =
      some { resumedNext with timestamp := 2000 } := by decide +kernel
  refine ⟨hpeek, hretrieve, fun h => ?_⟩
  have := h _ hretrieve
  rw [hpeek] at this
  exact absurd this (by decide)

theorem peek_right_iff_resumed :
    PeekRight resumed ↔ ResumesInPlace resumed (.ofNat resumedNext.seqNum) :=
  peek_right_iff resumed resumed_ready.1 resumed_ready.2 resumed_again

end OpenCore.JitterBuffer
