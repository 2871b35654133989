/-
  File:      OpenCore/RtpPayload/H264Bounds.lean
  Subject:   WHICH PAYLOADS THE H.264 PARSER STAYS INSIDE OF: lengths and sizes against what is
             read, written and output.

  Nothing checks the length of a payload before its headers are read, nor the sizes of the NAL
  units in an aggregate against it. The call is safe exactly on payloads that are long enough for
  the headers of their type and whose sizes fit (`TypeFits`), and on those it does not look into.

  **Main result**: `payloads_inside_iff`.
-/
import OpenCore.RtpPayload.H264PayloadParser

namespace OpenCore.RtpPayload

open OsclPriorityQueue
open H264PayloadParser (finishInterleaved generateMemFrag generateMemFragSTAP getMemFragFU
  getMemFragMTAP getTimestampOffset isCurrRTPPacketIgnored isExceptionTypeForInterleaveMode
  isInterleaveMode isMTAPType loopSTAP offsetFU parseRTPPayload_For_SingleMessageOutput
  putNalUnitType queueLoop setDonBase setDonFU setDonSTAP setMarkerInfo setMarkerInfoFU
  setMediaDataTimestamp setup validateFU)
open InterleaveModeProcessing (countDown dequeue updateWhenDequeuingData updateWhenQueuingData)
open Option (bind_eq_bind bind_none bind_some getD_some map_eq_some_iff map_some ne_none_iff_exists'
  pure_def some_ne_none)

/-! ## 1. Safe calls -/

/-- Every fragment is within its payload. -/
def AllInside (payloads : List Payload) : Prop :=
  ∀ payload ∈ payloads, ∀ f ∈ payload.vfragments, f.Inside

/-- A call returns without leaving the payload, and outputs nothing outside of it. -/
def SafeCall : Option (PayloadParserStatus × H264PayloadParser × List Payload) → Prop
  | none => False
  | some r => AllInside r.2.2

/-- Every call of a sequence is safe. -/
def AllSafe : H264PayloadParser → List Packet → Prop
  | _, [] => True
  | p, packet :: packets =>
    SafeCall (p.ParsePacket packet) ∧
      ∀ r, p.ParsePacket packet = some r → AllSafe r.2.1 packets

/-! ## 2. Lengths that fit -/

/-- A 16-bit size. -/
def sizeAt (data : List UInt8) (i : Nat) : Nat :=
  ((data.getD i 0).toNat <<< 8) ||| (data.getD (i + 1) 0).toNat

/-- The sizes in a single-time aggregation packet fit, up to a size of zero. -/
def stapFits : Nat → List UInt8 → Nat → Bool
  | 0, _, _ => true
  | fuel + 1, data, pos =>
    if pos + 2 < data.length then
      sizeAt data pos == 0 || (decide (pos + 2 + sizeAt data pos ≤ data.length) &&
        stapFits fuel data (pos + 2 + sizeAt data pos))
    else true

/-- The length of the header of a unit in a multi-time aggregation packet. -/
def unitHeader (nal_type : Nat) : Nat := if nal_type = 27 then 6 else 5

/-- The units in a multi-time aggregation packet fit, as far as more than five bytes are left. -/
def mtapFits : Nat → List UInt8 → Nat → Nat → Bool
  | 0, _, _, _ => true
  | fuel + 1, data, nal_type, pos =>
    let next := pos + unitHeader nal_type + sizeAt data pos
    decide (next ≤ data.length) &&
      (decide (next + 5 ≥ data.length) || mtapFits fuel data nal_type next)

/-- A payload is long enough for the headers of its type, and its sizes fit. -/
def TypeFits (data : List UInt8) (nal_type : Nat) : Prop :=
  if nal_type = 24 then stapFits (data.length + 1) data 1 = true
  else if nal_type = 25 then 3 ≤ data.length ∧ stapFits (data.length + 1) data 3 = true
  else if nal_type = 26 ∨ nal_type = 27 then
    data.length ≤ 7 ∨ mtapFits data.length data nal_type 3 = true
  else if nal_type = 28 then 2 ≤ data.length
  else if nal_type = 29 then
    2 ≤ data.length ∧ ((data.getD 1 0).toNat &&& 0x80 ≠ 0 → 4 ≤ data.length)
  else True

/-- The NAL type of a payload. -/
def typeOf (data : List UInt8) : Nat := nalTypeOf (data.getD 0 0).toNat

/-- Whether a packet is ignored in the interleaved mode. -/
def Ignored (p : H264PayloadParser) (packet : Packet) : Bool :=
  match p.iIMP with
  | none => false
  | some imp => isCurrRTPPacketIgnored imp packet (typeOf packet.data)

/-- Whether a call looks into a packet: not in the wrong mode, and not where it is ignored. -/
def LooksInto (p : H264PayloadParser) (packet : Packet) : Prop :=
  if p.isRequiredTypeForInterleaveMode (typeOf packet.data) then
    p.isInterleaveMode ∧ ¬ Ignored p packet
  else
    p.isInterleaveMode → isExceptionTypeForInterleaveMode (typeOf packet.data)

/-- The payload has a byte, and fits where the call looks into it. -/
def Fits (p : H264PayloadParser) (packet : Packet) : Prop :=
  packet.data ≠ [] ∧ (LooksInto p packet → TypeFits packet.data (typeOf packet.data))

/-- Every payload of a sequence fits. -/
def AllFit : H264PayloadParser → List Packet → Prop
  | _, [] => True
  | p, packet :: packets =>
    Fits p packet ∧ ∀ r, p.ParsePacket packet = some r → AllFit r.2.1 packets

/-! ## 3. Reading -/

section Read

variable {packet : Packet} {i : Nat}

theorem read_eq (packet : Packet) (i : Nat) (h : i < packet.data.length) :
    packet.read i = some (packet.data.getD i 0).toNat := by
  rw [Packet.read, List.getElem?_eq_getElem h, map_some, List.getD_eq_getElem?_getD,
    List.getElem?_eq_getElem h, getD_some]

theorem read_eq_none (h : packet.data.length ≤ i) : packet.read i = none := by
  rw [Packet.read, List.getElem?_eq_none h, Option.map_none]

theorem read_pair (packet : Packet) (i : Nat) (h : i + 1 < packet.data.length) :
    packet.read i = some (packet.data.getD i 0).toNat ∧
      packet.read (i + 1) = some (packet.data.getD (i + 1) 0).toNat :=
  ⟨read_eq packet i (by omega), read_eq packet (i + 1) h⟩

/-- The loop over the units ends, and its fragments are inside exactly where the sizes fit. -/
theorem loopSTAP_spec {packet : Packet} (fuel pos : Nat) (hfuel : 0 < fuel)
    (h : packet.data.length < pos + fuel) :
    ∃ frags, loopSTAP fuel packet pos = some frags ∧
      ((∀ f ∈ frags, f.Inside) ↔ stapFits fuel packet.data pos = true) := by
  induction fuel generalizing pos with
  | zero => exact absurd hfuel (Nat.lt_irrefl 0)
  | succ fuel ih =>
    unfold loopSTAP stapFits
    by_cases hin : pos + 2 < packet.data.length
    · obtain ⟨h0, h1⟩ := read_pair packet pos (by omega)
      rw [if_pos hin, if_pos hin]
      have hsize : (packet.data.getD pos 0).toNat <<< 8 ||| (packet.data.getD (pos + 1) 0).toNat =
          sizeAt packet.data pos := rfl
      simp only [h0, h1, bind_eq_bind, bind_some, hsize, pure_def]
      by_cases hzero : sizeAt packet.data pos = 0
      · rw [if_pos hzero]
        exact ⟨[], rfl, by simp [hzero]⟩
      · obtain ⟨rest, hrest, hfit⟩ :=
          ih (pos + 2 + sizeAt packet.data pos) (by omega) (by omega)
        rw [if_neg hzero, hrest, bind_some]
        refine ⟨_, rfl, ?_⟩
        rw [List.forall_mem_cons, hfit]
        simp [hzero, MemFrag.Inside]
    · rw [if_neg hin, if_neg hin]
      exact ⟨[], rfl, by simp⟩

end Read

/-! ## 4. One message -/

/-- What the queue and its counter are. -/
def core (p : H264PayloadParser) : Nat × Option (Nat × List PVH264PayLoadOutputMediaData) :=
  (p.iInterleaveDepth, p.iIMP.map fun imp => (imp.iNALUnitsCounter, imp.iOutputMediaDataQueue))

section Core

variable {p : H264PayloadParser} {packet : Packet} {nal_type : Nat}

theorem core_setup (p : H264PayloadParser) (packet : Packet) : core (p.setup packet) = core p := by
  unfold core setup
  rw [Option.map_map]
  rfl

theorem core_setMarkerInfo {r : Bool × H264PayloadParser}
    (h : p.setMarkerInfo packet nal_type = some r) : core r.2 = core p := by
  unfold setMarkerInfo at h
  cases hu : utilityOf nal_type with
  | FU =>
    simp only [hu, setMarkerInfoFU, bind_eq_bind,
      Option.bind_eq_some_iff] at h
    obtain ⟨header, -, h⟩ := h
    cases h
    rfl
  | STAP | MTAP | NALU => rw [hu] at h; cases h; rfl

theorem core_setMediaDataTimestamp {ts : Nat} {r : Nat × H264PayloadParser}
    (h : p.setMediaDataTimestamp nal_type ts = some r) : core r.2 = core p := by
  unfold setMediaDataTimestamp at h
  cases hu : utilityOf nal_type with
  | FU | STAP | NALU => rw [hu] at h; cases h; rfl
  | MTAP =>
    simp only [hu, map_eq_some_iff] at h
    obtain ⟨imp, -, rfl⟩ := h
    rfl

/-- Other fields of the interleaved mode change. -/
theorem core_of_imp {imp imp' : InterleaveModeProcessing} (hp : p.iIMP = some imp)
    (hc : imp'.iNALUnitsCounter = imp.iNALUnitsCounter)
    (hq : imp'.iOutputMediaDataQueue = imp.iOutputMediaDataQueue) :
    core { p with iIMP := some imp' } = core p := by
  unfold core
  rw [hp, map_some, map_some, hc, hq]

end Core

/-- What one message leaves: a payload or none, whose fragments are inside exactly where `P`
    holds. -/
structure Added (w : Parsing) (P : Prop) (r : PayloadParserStatus × Parsing) : Prop where
  status : r.1 = .Success ∨ r.1 = .Failure
  core_eq : core r.2.parser = core w.parser
  payloads : ∃ added, r.2.vParsedPayloads = w.vParsedPayloads ++ added ∧ (AllInside added ↔ P)

variable {P : Prop} {q : H264PayloadParser}

section Message

variable {w : Parsing} {nal_type : Nat}

/-- A message is put together from its marker, its fragments and its timestamp. -/
theorem single_added {endOfNAL : Bool} {frags : List MemFrag}
    {status : PayloadParserStatus} {w' : Parsing}
    (hoff : ¬ (w.rtp_payload_ptr_offset > 0 ∧
      w.rtp_payload_ptr_offset + 5 ≥ w.packet.data.length))
    (hmarker : (w.parser.setup w.packet).setMarkerInfo w.packet nal_type = some (endOfNAL, q))
    (hfrags : generateMemFrag { w with parser := q } nal_type =
      some (status, frags, w'))
    (hstatus : status = .Success ∨ status = .Failure) (hcore : core w'.parser = core q)
    (hpayloads : w'.vParsedPayloads = w.vParsedPayloads)
    (hts : status = .Success → utilityOf nal_type = .MTAP → w'.parser.iIMP ≠ none)
    (hS : status = .Success → ((∀ f ∈ frags, f.Inside) ↔ P)) (hF : status = .Failure → P) :
    ∃ r, parseRTPPayload_For_SingleMessageOutput w nal_type = some r ∧
      Added w P r ∧ r.2.packet = w'.packet ∧
      r.2.rtp_payload_ptr_offset = w'.rtp_payload_ptr_offset ∧ r.1 = status := by
  have hq : core q = core w.parser := (core_setMarkerInfo hmarker).trans (core_setup _ _)
  unfold parseRTPPayload_For_SingleMessageOutput
  rw [if_neg hoff]
  simp only [hmarker, hfrags, bind_eq_bind, bind_some, pure_def]
  by_cases hs : status = .Success
  · rw [if_neg (not_not_intro hs)]
    obtain ⟨⟨ts, parser⟩, hstamp⟩ : ∃ r,
        w'.parser.setMediaDataTimestamp nal_type w'.packet.timestamp = some r := by
      unfold setMediaDataTimestamp
      cases hu : utilityOf nal_type with
      | FU => exact ⟨_, rfl⟩
      | STAP => exact ⟨_, rfl⟩
      | NALU => exact ⟨_, rfl⟩
      | MTAP =>
        obtain ⟨imp, himp⟩ := ne_none_iff_exists'.mp (hts hs hu)
        rw [himp]
        exact ⟨_, rfl⟩
    rw [hstamp, bind_some]
    refine ⟨_, rfl, ⟨.inl rfl, ?_, ?_⟩, rfl, rfl, hs.symm⟩
    · exact ((core_setMediaDataTimestamp hstamp).trans hcore).trans hq
    · refine ⟨_, congrArg (· ++ _) hpayloads, ?_⟩
      rw [← hS hs]
      unfold AllInside
      rw [List.forall_mem_singleton]
  · rw [if_pos hs]
    refine ⟨_, rfl, ⟨hstatus, hcore.trans hq, [], ?_, ?_⟩, rfl, rfl, rfl⟩
    · rw [List.append_nil]
      exact hpayloads
    · exact iff_of_true (fun _ h => absurd h List.not_mem_nil) (hF (hstatus.resolve_left hs))

/-- Without a marker there is no message. -/
theorem single_none
    (hmarker : (w.parser.setup w.packet).setMarkerInfo w.packet nal_type = none)
    (hoff : w.rtp_payload_ptr_offset = 0) :
    parseRTPPayload_For_SingleMessageOutput w nal_type = none := by
  unfold parseRTPPayload_For_SingleMessageOutput
  rw [if_neg (by omega), hmarker]
  rfl

/-- Without fragments there is no message. -/
theorem single_none_of_frags {r : Bool × H264PayloadParser}
    (hmarker : (w.parser.setup w.packet).setMarkerInfo w.packet nal_type = some r)
    (hoff : ¬ (w.rtp_payload_ptr_offset > 0 ∧
      w.rtp_payload_ptr_offset + 5 ≥ w.packet.data.length))
    (hfrags : generateMemFrag { w with parser := r.2 } nal_type = none) :
    parseRTPPayload_For_SingleMessageOutput w nal_type = none := by
  unfold parseRTPPayload_For_SingleMessageOutput
  rw [if_neg hoff, hmarker]
  simp only [hfrags, bind_eq_bind, bind_some, bind_none]

/-- What one message does, and where. -/
def MessageSpec (w : Parsing) (nal_type : Nat) (P : Prop) : Prop :=
  (∃ r, parseRTPPayload_For_SingleMessageOutput w nal_type = some r ∧
    Added w P r) ∨
  (parseRTPPayload_For_SingleMessageOutput w nal_type = none ∧ ¬ P)

theorem exists_setMarkerInfo (hu : utilityOf nal_type ≠ .FU) :
    ∃ q, (w.parser.setup w.packet).setMarkerInfo w.packet nal_type = some (true, q) ∧
      core q = core w.parser := by
  have hmarker : (w.parser.setup w.packet).setMarkerInfo w.packet nal_type =
      some (true, { w.parser.setup w.packet with iIsFragmentedBitMask := 0 }) := by
    unfold setMarkerInfo
    cases h : utilityOf nal_type <;> first | rfl | exact absurd h hu
  exact ⟨_, hmarker, (core_setMarkerInfo hmarker).trans (core_setup _ _)⟩

theorem nalu_spec (hoff : w.rtp_payload_ptr_offset = 0) (hu : utilityOf nal_type = .NALU) :
    MessageSpec w nal_type True := by
  obtain ⟨q, hmarker, -⟩ := exists_setMarkerInfo (w := w) (by rw [hu]; decide)
  have hgen : generateMemFrag { w with parser := q } nal_type =
      some (.Success, [⟨w.packet.data, 0, w.packet.data.length⟩], { w with parser := q }) := by
    rw [generateMemFrag, hu]
  have hall : ∀ f ∈ [(⟨w.packet.data, 0, w.packet.data.length⟩ : MemFrag)], f.Inside := by
    intro f hf
    rw [List.mem_singleton.mp hf]
    exact Nat.le_of_eq (Nat.zero_add _)
  obtain ⟨r, hr, hadded, -⟩ := single_added (P := True) (by omega) hmarker hgen (.inl rfl) rfl rfl
    (fun _ h => by rw [hu] at h; cases h) (fun _ => iff_of_true hall trivial) (fun _ => trivial)
  exact .inl ⟨r, hr, hadded⟩

/-- An aggregate is walked from behind its header. -/
theorem stap_spec (hoff : w.rtp_payload_ptr_offset = 0) (hu : utilityOf nal_type = .STAP)
    {pos : Nat} (hP : P → stapFits (w.packet.data.length + 1) w.packet.data pos = true)
    (hdon : ∀ q : H264PayloadParser, core q = core w.parser →
      (∃ q', q.setDonSTAP w.packet nal_type = some (q', pos) ∧ core q' = core q ∧
        (stapFits (w.packet.data.length + 1) w.packet.data pos = true → P)) ∨
      (q.setDonSTAP w.packet nal_type = none ∧ ¬ P)) :
    MessageSpec w nal_type P := by
  obtain ⟨q, hmarker, hqcore⟩ := exists_setMarkerInfo (w := w) (by rw [hu]; decide)
  rcases hdon q hqcore with ⟨q', hset, hcore, hback⟩ | ⟨hset, hnot⟩
  · obtain ⟨frags, hloop, hfit⟩ := loopSTAP_spec (w.packet.data.length + 1) pos (by omega)
      (show w.packet.data.length < _ by omega)
    have hgen : generateMemFrag { w with parser := q } nal_type =
        some (if frags = [] then .Failure else .Success, frags, { w with parser := q' }) := by
      rw [generateMemFrag, hu]
      simp only [generateMemFragSTAP, hset, hloop, bind_eq_bind,
        bind_some, pure_def]
    have hall : (∀ f ∈ frags, f.Inside) ↔ P := hfit.trans ⟨hback, hP⟩
    have hnone : (if frags = [] then PayloadParserStatus.Failure else .Success) = .Failure → P := by
      intro hf
      refine hall.mp ?_
      by_cases hnil : frags = []
      · rw [hnil]
        exact fun _ h => absurd h List.not_mem_nil
      · rw [if_neg hnil] at hf
        cases hf
    obtain ⟨r, hr, hadded, -⟩ := single_added (by omega) hmarker hgen (by split <;> simp) hcore rfl
      (fun _ h => by rw [hu] at h; cases h) (fun _ => hall) hnone
    exact .inl ⟨r, hr, hadded⟩
  · refine .inr ⟨single_none_of_frags hmarker (by omega) ?_, hnot⟩
    rw [generateMemFrag, hu]
    simp only [generateMemFragSTAP, hset, bind_eq_bind, bind_none]

theorem iIMP_of_core {p : H264PayloadParser} (h : core p = core q) (hp : p.iIMP ≠ none) :
    ∃ imp, q.iIMP = some imp := by
  have h2 := congrArg Prod.snd h
  unfold core at h2
  obtain ⟨imp, himp⟩ := ne_none_iff_exists'.mp hp
  rw [himp, map_some] at h2
  obtain ⟨imp', himp', -⟩ := map_eq_some_iff.mp h2.symm
  exact ⟨imp', himp'⟩

theorem stapA_spec (hoff : w.rtp_payload_ptr_offset = 0) :
    MessageSpec w 24 (TypeFits w.packet.data 24) := by
  have hP : TypeFits w.packet.data 24 ↔
      stapFits (w.packet.data.length + 1) w.packet.data 1 = true := by
    rw [TypeFits, if_pos rfl]
  exact stap_spec hoff rfl hP.mp fun q _ => .inl ⟨q, rfl, rfl, hP.mpr⟩

theorem stapB_spec (hoff : w.rtp_payload_ptr_offset = 0) (himp : w.parser.iIMP ≠ none) :
    MessageSpec w 25 (TypeFits w.packet.data 25) := by
  have hP : TypeFits w.packet.data 25 ↔ 3 ≤ w.packet.data.length ∧
      stapFits (w.packet.data.length + 1) w.packet.data 3 = true := by
    rw [TypeFits, if_neg (by decide), if_pos rfl]
  refine stap_spec hoff rfl (fun h => (hP.mp h).2) fun q hq => ?_
  obtain ⟨imp, hqi⟩ := iIMP_of_core hq.symm himp
  by_cases hlen : 3 ≤ w.packet.data.length
  · obtain ⟨h1, h2⟩ := read_pair w.packet 1 (by omega)
    refine .inl ⟨{ q with
      iIMP := some { imp with
        iDon := ((w.packet.data.getD 1 0).toNat <<< 8) ||| (w.packet.data.getD 2 0).toNat } },
      ?_, core_of_imp hqi rfl rfl, fun h => hP.mpr ⟨hlen, h⟩⟩
    simp only [setDonSTAP, if_true, hqi, h1, h2, bind_eq_bind,
      bind_some, pure_def]
  · refine .inr ⟨?_, fun h => hlen (hP.mp h).1⟩
    have h2 : w.packet.read 2 = none := read_eq_none (by omega)
    simp only [setDonSTAP, if_true, hqi, h2, bind_eq_bind,
      bind_none, Option.bind_fun_none]

/-- What an FU carries is inside, behind as many bytes as there are. -/
theorem inside_rest {data : List UInt8} {offset : Nat} (h : offset ≤ data.length)
    (h32 : offset ≤ 2 ^ 32) :
    MemFrag.Inside ⟨data, offset, (data.length + (2 ^ 32 - offset)) % 2 ^ 32⟩ := by
  have hsum : data.length + (2 ^ 32 - offset) = data.length - offset + 2 ^ 32 := by omega
  have hle := Nat.mod_le (data.length - offset) (2 ^ 32)
  show offset + (data.length + (2 ^ 32 - offset)) % 2 ^ 32 ≤ data.length
  rw [hsum, Nat.add_mod_right]
  omega

theorem putNalUnitType_spec (packet : Packet) {fu_type offset : Nat}
    (h : fu_type = 1 → 2 ≤ packet.data.length ∧ offset < packet.data.length) :
    ∃ packet', putNalUnitType packet fu_type offset = some packet' ∧
      packet'.data.length = packet.data.length := by
  unfold putNalUnitType
  by_cases h1 : fu_type = 1
  · obtain ⟨h2, hlt⟩ := h h1
    obtain ⟨hr0, hr1⟩ := read_pair packet 0 (by omega)
    rw [if_pos h1]
    simp only [hr0, hr1, Packet.write, if_pos hlt, bind_eq_bind, bind_some]
    exact ⟨_, rfl, List.length_set⟩
  · rw [if_neg h1]
    exact ⟨packet, rfl, rfl⟩

/-- What a fragmentation unit leaves, once it is valid and its DON is read. -/
theorem getMemFragFU_spec
    (hvalid : validateFU w.packet nal_type = some true)
    (hdon : w.parser.setDonFU w.packet nal_type = some q) (hlen : 2 ≤ w.packet.data.length)
    (h4 : nal_type = 29 → 4 ≤ w.packet.data.length) :
    ∃ f w', getMemFragFU w nal_type = some (.Success, [f], w') ∧ f.Inside ∧
      w'.parser = q ∧ w'.vParsedPayloads = w.vParsedPayloads := by
  obtain ⟨fu_type, hfu⟩ : ∃ fu_type, q.iIsFragmentedBitMask &&& 0x03 = fu_type := ⟨_, rfl⟩
  have hoffset : offsetFU fu_type nal_type ≤ w.packet.data.length ∧
      offsetFU fu_type nal_type ≤ 4 ∧
      (fu_type = 1 → offsetFU fu_type nal_type < w.packet.data.length) := by
    unfold offsetFU
    by_cases h29 : nal_type = 29
    · have := h4 h29
      rw [if_pos h29]
      split <;> omega
    · rw [if_neg h29]
      split <;> omega
  obtain ⟨hle, h4', hlt⟩ := hoffset
  obtain ⟨packet', hput, hlen'⟩ :=
    putNalUnitType_spec w.packet fun h => ⟨hlen, hlt h⟩
  obtain ⟨offset, hoff⟩ : ∃ offset, offsetFU fu_type nal_type = offset :=
    ⟨_, rfl⟩
  rw [hoff] at hle h4' hput
  refine ⟨⟨packet'.data, offset, (packet'.data.length + (2 ^ 32 - offset)) % 2 ^ 32⟩,
    { w with parser := q, packet := packet' }, ?_, ?_, rfl, rfl⟩
  · simp only [getMemFragFU, hvalid, hdon, hfu, hoff, hput, bind_eq_bind,
      bind_some, if_true, pure_def]
  · exact inside_rest (by rw [hlen']; exact hle) (by omega)

theorem fu_spec (hoff : w.rtp_payload_ptr_offset = 0) (ht : nal_type = 28 ∨ nal_type = 29)
    (himp : nal_type = 29 → w.parser.iIMP ≠ none) :
    MessageSpec w nal_type (TypeFits w.packet.data nal_type) := by
  have hu : utilityOf nal_type = .FU := by rcases ht with rfl | rfl <;> rfl
  have hP : TypeFits w.packet.data nal_type ↔ 2 ≤ w.packet.data.length ∧
      (nal_type = 29 → (w.packet.data.getD 1 0).toNat &&& 0x80 ≠ 0 → 4 ≤ w.packet.data.length) := by
    rcases ht with rfl | rfl
    · rw [TypeFits, if_neg (by decide), if_neg (by decide), if_neg (by decide), if_pos rfl]
      exact (and_iff_left fun h => absurd h (by decide)).symm
    · rw [TypeFits, if_neg (by decide), if_neg (by decide), if_neg (by decide),
        if_neg (by decide), if_pos rfl]
      exact and_congr_right fun _ => ⟨fun h _ => h, fun h => h rfl⟩
  by_cases hlen : 2 ≤ w.packet.data.length
  · have hr1 := read_eq w.packet 1 (by omega)
    obtain ⟨endOfNAL, q, hmark⟩ : ∃ e q, (w.parser.setup w.packet).setMarkerInfo w.packet nal_type =
        some (e, q) := by
      rw [setMarkerInfo, hu]
      simp only [setMarkerInfoFU, hr1, bind_eq_bind, bind_some,
        pure_def]
      exact ⟨_, _, rfl⟩
    have hqcore : core q = core w.parser := (core_setMarkerInfo hmark).trans (core_setup _ _)
    have hgen : generateMemFrag { w with parser := q } nal_type =
        getMemFragFU { w with parser := q } nal_type := by
      rw [generateMemFrag, hu]
    have hnoMTAP : ∀ (status : PayloadParserStatus) (w' : Parsing), status = .Success →
        utilityOf nal_type = .MTAP → w'.parser.iIMP ≠ none := by
      intro _ _ _ h
      rw [hu] at h
      cases h
    by_cases h29 : nal_type = 29
    · by_cases hS : (w.packet.data.getD 1 0).toNat &&& 0x80 ≠ 0
      · have hvalid : validateFU w.packet nal_type = some true := by
          rw [validateFU, if_pos h29, hr1, map_some, decide_eq_true hS]
        obtain ⟨imp, hqi⟩ := iIMP_of_core hqcore.symm (himp h29)
        by_cases h4 : 4 ≤ w.packet.data.length
        · obtain ⟨hr2, hr3⟩ := read_pair w.packet 2 (by omega)
          have hdon : q.setDonFU w.packet nal_type = some { q with
              iIMP := some { imp with
                iDon := ((w.packet.data.getD 2 0).toNat <<< 8) |||
                  (w.packet.data.getD 3 0).toNat } } := by
            simp only [setDonFU, if_pos h29, hqi, hr2, hr3, bind_eq_bind,
              bind_some, pure_def]
          obtain ⟨f, w', hfrag, hin, hparser, hpay⟩ :=
            getMemFragFU_spec (w := { w with parser := q }) hvalid hdon hlen fun _ => h4
          obtain ⟨r, hr, hadded, -⟩ := single_added (by omega) hmark (hgen.trans hfrag) (.inl rfl)
            (by rw [hparser]; exact core_of_imp hqi rfl rfl) hpay (hnoMTAP _ w')
            (fun _ => iff_of_true (by rw [List.forall_mem_singleton]; exact hin)
              (hP.mpr ⟨hlen, fun _ _ => h4⟩)) (fun h => by cases h)
          exact .inl ⟨r, hr, hadded⟩
        · refine .inr ⟨single_none_of_frags hmark (by omega) ?_, fun h => h4 ((hP.mp h).2 h29 hS)⟩
          have hr3 : w.packet.read 3 = none := read_eq_none (by omega)
          rw [hgen]
          simp only [getMemFragFU, hvalid, setDonFU,
            if_pos h29, hqi, hr3, bind_eq_bind, bind_some, bind_none,
            Option.bind_fun_none, if_true]
      · have hvalid : validateFU w.packet nal_type = some false := by
          rw [validateFU, if_pos h29, hr1, map_some, decide_eq_false hS]
        have hfail : getMemFragFU { w with parser := q } nal_type =
            some (.Failure, [], { w with parser := q }) := by
          simp only [getMemFragFU, hvalid, bind_eq_bind, bind_some,
            Bool.false_eq_true, if_false, pure_def]
        obtain ⟨r, hr, hadded, -⟩ := single_added (by omega) hmark (hgen.trans hfail) (.inr rfl) rfl
          rfl (hnoMTAP _ _) (fun h => by cases h) (fun _ => hP.mpr ⟨hlen, fun _ h => absurd h hS⟩)
        exact .inl ⟨r, hr, hadded⟩
    · have hvalid : validateFU w.packet nal_type = some true := if_neg h29
      have hdon : q.setDonFU w.packet nal_type = some q := if_neg h29
      obtain ⟨f, w', hfrag, hin, hparser, hpay⟩ := getMemFragFU_spec (w := { w with parser := q })
        hvalid hdon hlen fun h => absurd h h29
      obtain ⟨r, hr, hadded, -⟩ := single_added (by omega) hmark (hgen.trans hfrag) (.inl rfl)
        (by rw [hparser]) hpay (hnoMTAP _ w')
        (fun _ => iff_of_true (by rw [List.forall_mem_singleton]; exact hin)
          (hP.mpr ⟨hlen, fun h => absurd h h29⟩)) (fun h => by cases h)
      exact .inl ⟨r, hr, hadded⟩
  · refine .inr ⟨single_none ?_ hoff, fun h => hlen (hP.mp h).1⟩
    have hr1 : w.packet.read 1 = none := read_eq_none (by omega)
    rw [setMarkerInfo, hu]
    simp only [setMarkerInfoFU, hr1, bind_eq_bind, bind_none]

theorem unitHeader_eq (nal_type : Nat) : unitHeader nal_type = if nal_type = 27 then 6 else 5 := rfl

/-- The timestamp offset is read where the header of the unit fits. -/
theorem getTimestampOffset_spec (packet : Packet) (pos nal_type : Nat)
    (h : pos + 5 ≤ packet.data.length) :
    (pos + unitHeader nal_type ≤ packet.data.length →
      ∃ ts, getTimestampOffset packet nal_type (pos + 3) =
        some (ts, unitHeader nal_type - 3)) ∧
    (¬ pos + unitHeader nal_type ≤ packet.data.length →
      getTimestampOffset packet nal_type (pos + 3) = none) := by
  obtain ⟨h3, h4⟩ := read_pair packet (pos + 3) (by omega)
  unfold getTimestampOffset
  rw [unitHeader_eq]
  by_cases h27 : nal_type = 27
  · rw [if_pos h27]
    constructor
    · intro hle
      have h5 := read_eq packet (pos + 3 + 2) (by omega)
      simp only [h3, h4, h5, if_pos h27, bind_eq_bind, bind_some, pure_def]
      exact ⟨_, rfl⟩
    · intro hgt
      have h5 : packet.read (pos + 3 + 2) = none := read_eq_none (by omega)
      simp only [h3, h4, h5, if_pos h27, bind_eq_bind, bind_some, bind_none]
  · rw [if_neg h27]
    constructor
    · intro _
      simp only [h3, h4, if_neg h27, bind_eq_bind, bind_some, pure_def]
      exact ⟨_, rfl⟩
    · exact fun hgt => absurd h hgt

/-- What is made of the unit at `i`: nothing but `iIMP` and the offset changes. -/
theorem mtap_frag {i : Nat} {imp : InterleaveModeProcessing} (hu : utilityOf nal_type = .MTAP)
    (himp : w.parser.iIMP = some imp)
    (hready : w.rtp_payload_ptr_offset = 0 ∧ i = 3 ∧ 8 ≤ w.packet.data.length ∨
      0 < w.rtp_payload_ptr_offset ∧ i = w.rtp_payload_ptr_offset ∧
        i + 5 < w.packet.data.length) :
    (i + unitHeader nal_type ≤ w.packet.data.length →
      ∃ imp', generateMemFrag w nal_type =
        some (.Success, [⟨w.packet.data, i + unitHeader nal_type, sizeAt w.packet.data i⟩],
          { w with
            parser := { w.parser with iIMP := some imp' }
            rtp_payload_ptr_offset :=
              i + unitHeader nal_type + sizeAt w.packet.data i }) ∧
        imp'.iNALUnitsCounter = imp.iNALUnitsCounter ∧
        imp'.iOutputMediaDataQueue = imp.iOutputMediaDataQueue ∧
        imp'.iPrevNALType = imp.iPrevNALType ∧ imp'.iRtpPayloadPtr = imp.iRtpPayloadPtr) ∧
    (¬ i + unitHeader nal_type ≤ w.packet.data.length → generateMemFrag w nal_type = none) := by
  obtain ⟨imp', hbase, hsame⟩ : ∃ imp',
      setDonBase w.packet imp w.rtp_payload_ptr_offset = some (imp', i) ∧
        imp'.iNALUnitsCounter = imp.iNALUnitsCounter ∧
        imp'.iOutputMediaDataQueue = imp.iOutputMediaDataQueue ∧
        imp'.iPrevNALType = imp.iPrevNALType ∧ imp'.iRtpPayloadPtr = imp.iRtpPayloadPtr := by
    unfold setDonBase
    rcases hready with ⟨h0, hp3, h8⟩ | ⟨h0, hpw, -⟩
    · obtain ⟨h1, h2⟩ := read_pair w.packet 1 (by omega)
      rw [if_pos h0, hp3]
      simp only [h1, h2, bind_eq_bind, bind_some, pure_def]
      exact ⟨_, rfl, rfl, rfl, rfl, rfl⟩
    · rw [if_neg (by omega), hpw]
      exact ⟨imp, rfl, rfl, rfl, rfl, rfl⟩
  obtain ⟨hr0, hr1⟩ := read_pair w.packet i (by omega)
  have hr2 := read_eq w.packet (i + 2) (by omega)
  have hlong : ¬ (w.rtp_payload_ptr_offset = 0 ∧
      (w.packet.data.length : Int) - w.rtp_payload_ptr_offset ≤ 7) := by omega
  have hlong' : ¬ (w.packet.data.length : Int) - w.rtp_payload_ptr_offset ≤ 5 := by omega
  obtain ⟨hts, hno⟩ := getTimestampOffset_spec w.packet i nal_type (by omega)
  have hsize : (w.packet.data.getD i 0).toNat <<< 8 ||| (w.packet.data.getD (i + 1) 0).toNat =
      sizeAt w.packet.data i := rfl
  rw [generateMemFrag, hu]
  constructor
  · intro hle
    obtain ⟨ts, hts⟩ := hts hle
    have hhead : i + 3 + (unitHeader nal_type - 3) = i + unitHeader nal_type := by
      rw [unitHeader_eq]
      split <;> omega
    refine ⟨{ imp' with
      iDon := (imp'.iDonBase + (w.packet.data.getD (i + 2) 0).toNat) % 65536
      iTimestampOffset := ts }, ?_, hsame⟩
    simp only [getMemFragMTAP, if_neg hlong, if_neg hlong', himp, hbase, hr0, hr1, hr2, hts, hsize,
      hhead, bind_eq_bind, bind_some, pure_def]
  · intro hgt
    simp only [getMemFragMTAP, if_neg hlong, if_neg hlong', himp, hbase, hr0, hr1, hr2, hno hgt,
      bind_eq_bind, bind_some, bind_none]

/-- One unit of a multi-time aggregation packet, at `pos`. -/
theorem mtap_unit {pos : Nat} (hu : utilityOf nal_type = .MTAP) (himp : w.parser.iIMP ≠ none)
    (hready : w.rtp_payload_ptr_offset = 0 ∧ pos = 3 ∧ 8 ≤ w.packet.data.length ∨
      0 < w.rtp_payload_ptr_offset ∧ pos = w.rtp_payload_ptr_offset ∧
        pos + 5 < w.packet.data.length) :
    (pos + unitHeader nal_type ≤ w.packet.data.length →
      ∃ r, parseRTPPayload_For_SingleMessageOutput w nal_type = some r ∧
        r.1 = .Success ∧
        Added w (pos + unitHeader nal_type + sizeAt w.packet.data pos ≤ w.packet.data.length) r ∧
        r.2.packet = w.packet ∧
        r.2.rtp_payload_ptr_offset = pos + unitHeader nal_type + sizeAt w.packet.data pos) ∧
    (¬ pos + unitHeader nal_type ≤ w.packet.data.length →
      parseRTPPayload_For_SingleMessageOutput w nal_type = none) := by
  have hoff : ¬ (w.rtp_payload_ptr_offset > 0 ∧
      w.rtp_payload_ptr_offset + 5 ≥ w.packet.data.length) := by omega
  obtain ⟨q, hmarker, hqcore⟩ := exists_setMarkerInfo (w := w) (by rw [hu]; decide)
  obtain ⟨imp, hqi⟩ := iIMP_of_core hqcore.symm himp
  obtain ⟨hsome, hnone⟩ := mtap_frag (w := { w with parser := q }) hu hqi hready
  constructor
  · intro hle
    obtain ⟨imp', hgen, hcount, hqueue, -⟩ := hsome hle
    obtain ⟨r, hr, hadded, hpacket, hnext, hstatus⟩ := single_added
      (P := pos + unitHeader nal_type + sizeAt w.packet.data pos ≤ w.packet.data.length) hoff
      hmarker hgen (.inl rfl) (core_of_imp hqi hcount hqueue) rfl
      (fun _ _ => some_ne_none imp')
      (fun _ => by rw [List.forall_mem_singleton]; exact Iff.rfl) (fun h => by cases h)
    exact ⟨r, hr, hstatus, hadded, hpacket, hnext⟩
  · exact fun hgt => single_none_of_frags hmarker hoff (hnone hgt)

/-- A short multi-time aggregation packet is refused. -/
theorem mtap_short (hu : utilityOf nal_type = .MTAP) (hoff : w.rtp_payload_ptr_offset = 0)
    (hlen : w.packet.data.length ≤ 7) : ∃ r,
    parseRTPPayload_For_SingleMessageOutput w nal_type = some r ∧
      r.1 = .Failure ∧ Added w True r := by
  obtain ⟨q, hmarker, -⟩ := exists_setMarkerInfo (w := w) (by rw [hu]; decide)
  have hshort : w.rtp_payload_ptr_offset = 0 ∧
      (w.packet.data.length : Int) - w.rtp_payload_ptr_offset ≤ 7 := by omega
  have hgen : generateMemFrag { w with parser := q } nal_type =
      some (.Failure, [], { w with parser := q }) := by
    rw [generateMemFrag, hu]
    simp only [getMemFragMTAP, if_pos hshort, pure_def]
  obtain ⟨r, hr, hadded, -, -, hstatus⟩ := single_added (P := True) (by omega) hmarker hgen
    (.inr rfl) rfl rfl (fun h => by cases h) (fun h => by cases h) (fun _ => trivial)
  exact ⟨r, hr, hstatus, hadded⟩

end Message

/-! ## 5. The queue -/

/-- A complete NAL unit, or the end of one. -/
def Done (e : PVH264PayLoadOutputMediaData) : Bool :=
  e.fuType &&& 0x03 == 0 || e.fuType &&& 0x03 == 3

/-- The counter counts no more than the complete NAL units and the ends in the queue, and what is
    queued is inside. -/
structure GoodQueue (counter : Nat) (queue : List PVH264PayLoadOutputMediaData) : Prop where
  small : counter < 2 ^ 32
  count_le : counter ≤ queue.countP Done
  inside : ∀ e ∈ queue, ∀ f ∈ e.data.vfragments, f.Inside

/-- The queue is there in the interleaved mode, and good. -/
structure Good (p : H264PayloadParser) : Prop where
  mode : p.iIMP = none ↔ p.iInterleaveDepth = 0
  queue : ∀ imp, p.iIMP = some imp → GoodQueue imp.iNALUnitsCounter imp.iOutputMediaDataQueue

theorem Good.initialized (depth : Nat) : Good (.initialized depth) := by
  unfold H264PayloadParser.initialized
  refine ⟨?_, ?_⟩
  · by_cases h0 : depth > 0
    · simp only [if_pos h0]
      exact iff_of_false (some_ne_none _) (by omega)
    · simp only [if_neg h0]
      exact iff_of_true trivial (by omega)
  · intro imp himp
    by_cases h0 : depth > 0
    · simp only [if_pos h0, Option.some.injEq] at himp
      rw [← himp]
      exact ⟨by decide, Nat.le_refl 0, fun _ h => absurd h List.not_mem_nil⟩
    · simp only [if_neg h0] at himp
      cases himp

variable {p : H264PayloadParser}

theorem Good.of_core (h : Good p) (hc : core q = core p) : Good q := by
  obtain ⟨hdepth, hmap⟩ := Prod.mk.inj hc
  refine ⟨?_, fun imp himp => ?_⟩
  · rw [hdepth, ← h.mode, ← Option.map_eq_none_iff, hmap, Option.map_eq_none_iff]
  · rw [himp, map_some] at hmap
    obtain ⟨imp', himp', he⟩ := map_eq_some_iff.mp hmap.symm
    obtain ⟨hcount, hqueue⟩ := Prod.mk.inj he
    rw [← hcount, ← hqueue]
    exact h.queue imp' himp'

/-- The type of a queued fragment is in its low bits. -/
theorem fuType_low (mask prev fuType : Nat) (h : fuType < 4) :
    (((if fuType = 2 then ((mask >>> 11) <<< 16) % 2 ^ 32 else 0) ||| (prev <<< 8) ||| fuType) &&&
      0x03) = fuType := by
  have hmod : ∀ n, n &&& 0x03 = n % 2 ^ 2 := fun n => Nat.and_two_pow_sub_one_eq_mod n 2
  rw [hmod, Nat.or_mod_two_pow, Nat.or_mod_two_pow, Nat.shiftLeft_eq, Nat.shiftLeft_eq]
  have hprev : prev * 2 ^ 8 % 2 ^ 2 = 0 := by omega
  have hcounter : (if fuType = 2 then (mask >>> 11) * 2 ^ 16 % 2 ^ 32 else 0) % 2 ^ 2 = 0 := by
    split
    · omega
    · rfl
  rw [hprev, hcounter, Nat.zero_or, Nat.zero_or, Nat.mod_eq_of_lt (by omega)]

theorem GoodQueue.queue {imp : InterleaveModeProcessing} {payload : Payload} {nal_type mask : Nat}
    (h : GoodQueue imp.iNALUnitsCounter imp.iOutputMediaDataQueue)
    (hin : ∀ f ∈ payload.vfragments, f.Inside) :
    GoodQueue (imp.queue payload nal_type mask).iNALUnitsCounter
      (imp.queue payload nal_type mask).iOutputMediaDataQueue := by
  obtain ⟨fuType, hfu⟩ : ∃ fuType, mask &&& 0x03 = fuType := ⟨_, rfl⟩
  have hlt : fuType < 4 := by
    have : mask &&& 0x03 = mask % 2 ^ 2 := Nat.and_two_pow_sub_one_eq_mod mask 2
    omega
  have hlow := fuType_low mask (imp.iPrevNALType &&& 0x03) fuType hlt
  unfold InterleaveModeProcessing.queue updateWhenQueuingData
  simp only [hfu]
  have hperm := push_perm compareLess imp.iOutputMediaDataQueue ⟨payload, imp.iDon,
    (if fuType = 2 then ((mask >>> 11) <<< 16) % 2 ^ 32 else 0) |||
      ((imp.iPrevNALType &&& 0x03) <<< 8) ||| fuType⟩
  have hsmall := h.small
  have hcount := h.count_le
  refine ⟨?_, ?_, ?_⟩
  · split
    · exact Nat.mod_lt _ (by decide)
    · exact hsmall
  · rw [hperm.countP_eq, List.countP_cons]
    unfold Done
    simp only [hlow]
    by_cases hdone : fuType = 0 ∨ fuType = 3
    · have hle := Nat.mod_le (imp.iNALUnitsCounter + 1) (2 ^ 32)
      have htrue : (fuType == 0 || fuType == 3) = true := by simpa using hdone
      rw [if_pos hdone, if_pos htrue]
      exact Nat.le_trans hle (Nat.add_le_add_right hcount 1)
    · rw [if_neg hdone]
      exact Nat.le_trans hcount (Nat.le_add_right _ _)
  · intro e he
    rcases List.mem_cons.mp (hperm.mem_iff.mp he) with rfl | he'
    · exact hin
    · exact h.inside e he'

/-- A message that was parsed is queued. -/
theorem Good.queued {w : Parsing} (h : Good w.parser) (nal_type : Nat)
    (himp : w.parser.iIMP ≠ none) :
    ∃ w', H264PayloadParser.queued w nal_type = some w' ∧ Good w'.parser ∧
      w'.parser.iIMP ≠ none ∧ w'.vParsedPayloads = w.vParsedPayloads ∧ w'.packet = w.packet ∧
      w'.rtp_payload_ptr_offset = w.rtp_payload_ptr_offset := by
  obtain ⟨imp, hi⟩ := ne_none_iff_exists'.mp himp
  have hin : ∀ f ∈ w.packet.raw.vfragments, f.Inside := by
    intro f hf
    rw [List.mem_singleton.mp hf]
    exact Nat.le_of_eq (Nat.zero_add _)
  refine ⟨{ w with
    parser.iIMP := some (imp.queue w.packet.raw nal_type w.parser.iIsFragmentedBitMask) },
    by rw [H264PayloadParser.queued, hi, map_some], ⟨?_, ?_⟩, some_ne_none _, rfl,
    rfl, rfl⟩
  · exact iff_of_false (some_ne_none _) fun h0 => himp (h.mode.mpr h0)
  · intro imp' he
    cases he
    exact (h.queue imp hi).queue hin

/-- The queue outputs what is inside, and is never empty then. -/
theorem Good.output (h : Good p) (himp : p.iIMP ≠ none) :
    ∃ r, p.output = some r ∧ AllInside r.2.2 ∧ Good r.2.1 := by
  obtain ⟨imp, hi⟩ := ne_none_iff_exists'.mp himp
  have hq := h.queue imp hi
  unfold H264PayloadParser.output
  simp only [hi, bind_eq_bind, bind_some]
  by_cases hwait : imp.iNALUnitsCounter < p.iInterleaveDepth + 1
  · rw [if_pos hwait]
    exact ⟨_, rfl, fun _ hm => absurd hm List.not_mem_nil, h⟩
  rw [if_neg hwait]
  have hdepth : p.iInterleaveDepth ≠ 0 := fun h0 => himp (h.mode.mpr h0)
  have hcount := hq.count_le
  obtain ⟨e, he⟩ : ∃ e, top imp.iOutputMediaDataQueue = some e := by
    cases hl : imp.iOutputMediaDataQueue with
    | nil =>
      rw [hl] at hcount
      exact absurd (Nat.le_zero.mp hcount) (by omega)
    | cons e l => exact ⟨e, rfl⟩
  have hperm := pop_perm compareLess he
  have hmem : e ∈ imp.iOutputMediaDataQueue := hperm.mem_iff.mp List.mem_cons_self
  simp only [dequeue, he, map_some, bind_some,
    pure_def]
  refine ⟨_, rfl, ?_, ⟨?_, ?_⟩⟩
  · intro payload hp
    rw [List.mem_singleton.mp hp]
    exact hq.inside e hmem
  · exact iff_of_false (some_ne_none _) hdepth
  · intro imp' he'
    cases he'
    have hsmall := hq.small
    have hsum : imp.iOutputMediaDataQueue.countP Done =
        (pop compareLess imp.iOutputMediaDataQueue).countP Done + if Done e then 1 else 0 := by
      rw [← hperm.countP_eq, List.countP_cons]
    have hdown : ∀ c, 1 ≤ c → c < 2 ^ 32 → countDown c = c - 1 := by
      intro c h1 h32
      unfold countDown
      omega
    have hone := hdown imp.iNALUnitsCounter (by omega) hsmall
    have htwo := hdown (imp.iNALUnitsCounter - 1) (by omega) (by omega)
    refine ⟨?_, ?_, fun x hx => hq.inside x (hperm.mem_iff.mp (List.mem_cons_of_mem e hx))⟩
    · show updateWhenDequeuingData _ e.fuType < 2 ^ 32
      unfold updateWhenDequeuingData
      simp only [hone, htwo]
      split <;> split <;> omega
    · show updateWhenDequeuingData _ e.fuType ≤
        (pop compareLess imp.iOutputMediaDataQueue).countP Done
      unfold updateWhenDequeuingData
      unfold Done at hsum hcount ⊢
      simp only [hone, htwo]
      by_cases h0 : e.fuType &&& 0x03 = 0
      · simp only [h0, beq_self_eq_true, Bool.true_or, if_true] at hsum ⊢
        split <;> omega
      · by_cases h3 : e.fuType &&& 0x03 = 3
        · simp only [h3, beq_self_eq_true, Bool.or_true, if_true] at hsum ⊢
          simp only [if_neg (show ¬ (3 : Nat) = 0 by decide)]
          omega
        · have hnot : (e.fuType &&& 0x03 == 0 || e.fuType &&& 0x03 == 3) = false := by
            simp [h0, h3]
          rw [hnot] at hsum
          simp only [if_neg h0, if_neg h3]
          simpa [hsum] using hcount

/-! ## 6. One call -/

theorem allInside_append {l k : List Payload} :
    AllInside (l ++ k) ↔ AllInside l ∧ AllInside k :=
  List.forall_mem_append

/-- What a call or a part of it does: it adds payloads to `payloads` that are inside exactly where
    `P` holds, or it is undefined where `P` does not hold. -/
def LoopSpec (o : Option (Option PayloadParserStatus × Parsing)) (payloads : List Payload)
    (P : Prop) : Prop :=
  (∃ r added, o = some r ∧ Good r.2.parser ∧ r.2.parser.iIMP ≠ none ∧
    r.2.vParsedPayloads = payloads ++ added ∧ (AllInside added ↔ P)) ∨ (o = none ∧ ¬ P)

theorem LoopSpec.congr {o : Option (Option PayloadParserStatus × Parsing)}
    {payloads : List Payload} {Q : Prop} (h : LoopSpec o payloads P) (hPQ : P ↔ Q) :
    LoopSpec o payloads Q :=
  propext hPQ ▸ h

section Call

variable {w : Parsing} {nal_type : Nat}

/-- The end of a multi-time aggregation packet. -/
theorem queueLoop_end {fuel : Nat} (hg : Good w.parser) (himp : w.parser.iIMP ≠ none)
    (hoff : 0 < w.rtp_payload_ptr_offset)
    (hend : w.rtp_payload_ptr_offset + 5 ≥ w.packet.data.length) :
    LoopSpec (queueLoop (fuel + 1) w nal_type) w.vParsedPayloads True := by
  refine .inl ⟨(none, w), [], ?_, hg, himp, (List.append_nil _).symm,
    iff_of_true (fun _ h => absurd h List.not_mem_nil) trivial⟩
  unfold queueLoop parseRTPPayload_For_SingleMessageOutput
  rw [if_pos ⟨hoff, hend⟩]
  simp only [bind_eq_bind, bind_some, if_true, pure_def]

/-- One unit of a multi-time aggregation packet, and what follows it. -/
theorem queueLoop_unit {fuel pos : Nat} {Q : Prop} (hu : utilityOf nal_type = .MTAP)
    (hm : isMTAPType nal_type = true) (hg : Good w.parser)
    (himp : w.parser.iIMP ≠ none)
    (hready : w.rtp_payload_ptr_offset = 0 ∧ pos = 3 ∧ 8 ≤ w.packet.data.length ∨
      0 < w.rtp_payload_ptr_offset ∧ pos = w.rtp_payload_ptr_offset ∧
        pos + 5 < w.packet.data.length)
    (hrest : ∀ w' : Parsing, Good w'.parser → w'.parser.iIMP ≠ none → w'.packet = w.packet →
      w'.rtp_payload_ptr_offset = pos + unitHeader nal_type + sizeAt w.packet.data pos →
      LoopSpec (queueLoop fuel w' nal_type) w'.vParsedPayloads Q) :
    LoopSpec (queueLoop (fuel + 1) w nal_type) w.vParsedPayloads
      (pos + unitHeader nal_type + sizeAt w.packet.data pos ≤ w.packet.data.length ∧ Q) := by
  obtain ⟨hsafe, hnone⟩ := mtap_unit hu himp hready
  by_cases hhead : pos + unitHeader nal_type ≤ w.packet.data.length
  · obtain ⟨r, hr, hstatus, hadded, hpacket, hnext⟩ := hsafe hhead
    obtain ⟨added, hpayloads, hall⟩ := hadded.payloads
    obtain ⟨imp, hi⟩ := iIMP_of_core hadded.core_eq.symm himp
    obtain ⟨w', hqueued, hg', himp', hsame, hpacket', hnext'⟩ :=
      (hg.of_core hadded.core_eq).queued nal_type
        (by rw [hi]; exact some_ne_none imp)
    have hloop := hrest w' hg' himp' (hpacket'.trans hpacket) (hnext'.trans hnext)
    have hgo : queueLoop (fuel + 1) w nal_type =
        queueLoop fuel w' nal_type := by
      rw [queueLoop]
      simp only [hr, hstatus, hqueued, hm, bind_eq_bind, bind_some, reduceCtorEq,
        if_false, ne_eq, not_true_eq_false, if_true]
    rw [hgo]
    rcases hloop with ⟨r', added', hrun, hgood, hsome, hpay', hall'⟩ | ⟨hrun, hnot⟩
    · refine .inl ⟨r', added ++ added', hrun, hgood, hsome, ?_, ?_⟩
      · rw [hpay', hsame, hpayloads, List.append_assoc]
      · rw [allInside_append, hall, hall']
    · exact .inr ⟨hrun, fun h => hnot h.2⟩
  · refine .inr ⟨?_, fun h => hhead (by omega)⟩
    rw [queueLoop, hnone hhead]
    rfl

/-- The units behind the first one of a multi-time aggregation packet. -/
theorem queueLoop_mtap (fuel : Nat) (hu : utilityOf nal_type = .MTAP)
    (hm : isMTAPType nal_type = true) (hg : Good w.parser)
    (himp : w.parser.iIMP ≠ none) (hoff : 0 < w.rtp_payload_ptr_offset)
    (hfuel : w.packet.data.length < w.rtp_payload_ptr_offset + fuel + 1) :
    LoopSpec (queueLoop (fuel + 1) w nal_type) w.vParsedPayloads
      (w.rtp_payload_ptr_offset + 5 ≥ w.packet.data.length ∨
        mtapFits fuel w.packet.data nal_type w.rtp_payload_ptr_offset = true) := by
  induction fuel generalizing w with
  | zero =>
    have hend : w.rtp_payload_ptr_offset + 5 ≥ w.packet.data.length := by omega
    exact (queueLoop_end hg himp hoff hend).congr (iff_of_true trivial (.inl hend))
  | succ fuel ih =>
    by_cases hend : w.rtp_payload_ptr_offset + 5 ≥ w.packet.data.length
    · exact (queueLoop_end hg himp hoff hend).congr (iff_of_true trivial (.inl hend))
    have h5 : 5 ≤ unitHeader nal_type := by
      rw [unitHeader_eq]
      split <;> omega
    obtain ⟨next, hn⟩ : ∃ next, w.rtp_payload_ptr_offset + unitHeader nal_type +
        sizeAt w.packet.data w.rtp_payload_ptr_offset = next := ⟨_, rfl⟩
    have hrest : ∀ w' : Parsing, Good w'.parser → w'.parser.iIMP ≠ none → w'.packet = w.packet →
        w'.rtp_payload_ptr_offset = w.rtp_payload_ptr_offset + unitHeader nal_type +
          sizeAt w.packet.data w.rtp_payload_ptr_offset →
        LoopSpec (queueLoop (fuel + 1) w' nal_type) w'.vParsedPayloads
          (next + 5 ≥ w.packet.data.length ∨ mtapFits fuel w.packet.data nal_type next = true) := by
      intro w' hg' himp' hpacket hnext
      have hloop := ih hg' himp' (by omega) (by rw [hpacket]; omega)
      rw [hpacket, hnext.trans hn] at hloop
      exact hloop
    have hunit := queueLoop_unit hu hm hg himp (.inr ⟨hoff, rfl, by omega⟩) hrest
    refine hunit.congr ?_
    rw [or_iff_right hend, mtapFits, hn]
    simp only [Bool.and_eq_true, Bool.or_eq_true, decide_eq_true_eq]

/-- The packet of one message goes into the queue. -/
theorem queueLoop_single {fuel : Nat}
    (hm : isMTAPType nal_type = false) (hg : Good w.parser)
    (himp : w.parser.iIMP ≠ none) (h : MessageSpec w nal_type P) :
    LoopSpec (queueLoop (fuel + 1) w nal_type) w.vParsedPayloads P := by
  unfold queueLoop
  rcases h with ⟨r, hr, hadded⟩ | ⟨hr, hnot⟩
  · obtain ⟨added, hpayloads, hall⟩ := hadded.payloads
    obtain ⟨imp, hi⟩ := iIMP_of_core hadded.core_eq.symm himp
    have hgr := hg.of_core hadded.core_eq
    have hir : r.2.parser.iIMP ≠ none := by
      rw [hi]
      exact some_ne_none imp
    rcases hadded.status with hs | hs
    · obtain ⟨w', hqueued, hg', himp', hsame, -, -⟩ := hgr.queued nal_type hir
      refine .inl ⟨(none, w'), added, ?_, hg', himp', hsame.trans hpayloads, hall⟩
      simp only [hr, hs, hqueued, hm, bind_eq_bind, bind_some, reduceCtorEq,
        if_false, ne_eq, not_true_eq_false, Bool.false_eq_true, pure_def]
    · refine .inl ⟨(some .Failure, r.2), added, ?_, hgr, hir, hpayloads, hall⟩
      simp only [hr, hs, bind_eq_bind, bind_some, reduceCtorEq, if_false, ne_eq,
        not_false_eq_true, if_true, pure_def]
  · refine .inr ⟨?_, hnot⟩
    rw [hr]
    rfl

end Call

/-- What a call does: it returns, and its output is inside exactly where `P` holds, or it is
    undefined where `P` does not hold. -/
def CallSpec (o : Option (PayloadParserStatus × H264PayloadParser × List Payload)) (P : Prop) :
    Prop :=
  (∃ r, o = some r ∧ Good r.2.1 ∧ (AllInside r.2.2 ↔ P)) ∨ (o = none ∧ ¬ P)

variable {o : Option (PayloadParserStatus × H264PayloadParser × List Payload)}

theorem CallSpec.congr
    {Q : Prop} (h : CallSpec o P) (hPQ : P ↔ Q) : CallSpec o Q :=
  propext hPQ ▸ h

theorem LoopSpec.finish {o : Option (Option PayloadParserStatus × Parsing)}
    (h : LoopSpec o [] P) : CallSpec (o.bind finishInterleaved) P := by
  rcases h with ⟨⟨status, w⟩, added, ho, hgood, himp, hpayloads, hall⟩ | ⟨ho, hnot⟩
  · rw [List.nil_append] at hpayloads
    rw [ho, bind_some]
    cases status with
    | some status => exact .inl ⟨_, rfl, hgood, by rw [hpayloads]; exact hall⟩
    | none =>
      obtain ⟨out, hout, hin, hgood'⟩ := hgood.output himp
      refine .inl ⟨(out.1, out.2.1, w.vParsedPayloads ++ out.2.2), ?_, hgood', ?_⟩
      · simp only [finishInterleaved, hout, map_some]
      · rw [hpayloads, allInside_append, hall]
        exact and_iff_left hin
  · exact .inr ⟨by rw [ho]; rfl, hnot⟩

section Parse

variable {p : H264PayloadParser} {packet : Packet} {nal_type : Nat}

/-- A packet of the interleaved mode that is not ignored. -/
theorem interleaved_spec (hg : Good p) (himp : p.iIMP ≠ none)
    (ht : nal_type = 25 ∨ nal_type = 26 ∨ nal_type = 27 ∨ nal_type = 28 ∨ nal_type = 29) :
    LoopSpec (queueLoop (packet.data.length + 1) ⟨p, packet, 0, []⟩ nal_type) []
      (TypeFits packet.data nal_type) := by
  by_cases hm : nal_type = 26 ∨ nal_type = 27
  · have hu : utilityOf nal_type = .MTAP := by rcases hm with rfl | rfl <;> rfl
    have hMTAP : isMTAPType nal_type = true := by rcases hm with rfl | rfl <;> rfl
    have hP : TypeFits packet.data nal_type ↔
        packet.data.length ≤ 7 ∨ mtapFits packet.data.length packet.data nal_type 3 = true := by
      rw [TypeFits, if_neg (by omega), if_neg (by omega), if_pos hm]
    by_cases hlen : packet.data.length ≤ 7
    · obtain ⟨r, hr, hfail, hadded⟩ :=
        mtap_short (w := ⟨p, packet, 0, []⟩) hu rfl hlen
      obtain ⟨added, hpayloads, hall⟩ := hadded.payloads
      obtain ⟨imp, hi⟩ := iIMP_of_core hadded.core_eq.symm himp
      refine .inl ⟨(some .Failure, r.2), added, ?_, hg.of_core hadded.core_eq, ?_, hpayloads,
        hall.trans (iff_of_true trivial (hP.mpr (.inl hlen)))⟩
      · unfold queueLoop
        simp only [hr, hfail, bind_eq_bind, bind_some, reduceCtorEq, if_false,
          ne_eq, not_false_eq_true, if_true, pure_def]
      · rw [hi]
        exact some_ne_none imp
    · obtain ⟨n, hn⟩ : ∃ n, packet.data.length = n + 1 := ⟨packet.data.length - 1, by omega⟩
      obtain ⟨next, hnext⟩ : ∃ next, 3 + unitHeader nal_type + sizeAt packet.data 3 = next :=
        ⟨_, rfl⟩
      have hrest : ∀ w' : Parsing, Good w'.parser → w'.parser.iIMP ≠ none → w'.packet = packet →
          w'.rtp_payload_ptr_offset = 3 + unitHeader nal_type + sizeAt packet.data 3 →
          LoopSpec (queueLoop (n + 1) w' nal_type) w'.vParsedPayloads
            (next + 5 ≥ packet.data.length ∨ mtapFits n packet.data nal_type next = true) := by
        intro w' hg' himp' hpacket hoff
        have hloop := queueLoop_mtap n hu hMTAP hg' himp' (by omega)
          (by rw [hpacket]; omega)
        rw [hpacket, hoff.trans hnext] at hloop
        exact hloop
      have hunit := queueLoop_unit (w := ⟨p, packet, 0, []⟩) hu hMTAP hg himp
        (.inl ⟨rfl, rfl, show 8 ≤ packet.data.length by omega⟩) hrest
      rw [hn]
      refine hunit.congr ?_
      rw [hP, or_iff_right hlen, hn, mtapFits, hnext, hn]
      simp only [Bool.and_eq_true, Bool.or_eq_true, decide_eq_true_eq]
  · have hm' : isMTAPType nal_type = false := by
      have h26 : (nal_type == 26) = false := beq_eq_false_iff_ne.mpr fun h => hm (.inl h)
      have h27 : (nal_type == 27) = false := beq_eq_false_iff_ne.mpr fun h => hm (.inr h)
      rw [isMTAPType, h26, h27]
      rfl
    refine queueLoop_single hm' hg himp ?_
    by_cases h25 : nal_type = 25
    · rw [h25]
      exact stapB_spec rfl himp
    · exact fu_spec rfl (by omega) fun _ => himp

/-- The types that are neither aggregates nor fragmentation units. -/
theorem utilityOf_nalu : ∀ nal_type < 32, nal_type < 24 ∨ 29 < nal_type →
    utilityOf nal_type = .NALU := by
  decide

theorem typeFits_nalu (data : List UInt8) (h : nal_type < 24 ∨ 29 < nal_type) :
    TypeFits data nal_type := by
  rw [TypeFits, if_neg (by omega), if_neg (by omega), if_neg (by omega), if_neg (by omega),
    if_neg (by omega)]
  trivial

/-- A packet of the non-interleaved mode. -/
theorem non_interleaved_spec (hg : Good p) (h32 : nal_type < 32)
    (ht : nal_type ≤ 24 ∨ nal_type = 28 ∨ 29 < nal_type) :
    CallSpec (p.parseRTPPayload_For_Non_InterleavedMode packet nal_type)
      (TypeFits packet.data nal_type) := by
  have hmessage : MessageSpec ⟨p, packet, 0, []⟩ nal_type (TypeFits packet.data nal_type) := by
    by_cases h24 : nal_type = 24
    · rw [h24]
      exact stapA_spec rfl
    · by_cases h28 : nal_type = 28
      · exact fu_spec rfl (.inl h28) (by omega)
      · have hout : nal_type < 24 ∨ 29 < nal_type := by omega
        have htrue : TypeFits packet.data nal_type ↔ True :=
          iff_of_true (typeFits_nalu _ hout) trivial
        rw [htrue]
        exact nalu_spec rfl (utilityOf_nalu nal_type h32 hout)
  unfold H264PayloadParser.parseRTPPayload_For_Non_InterleavedMode
  rcases hmessage with ⟨r, hr, hadded⟩ | ⟨hr, hnot⟩
  · obtain ⟨added, hpayloads, hall⟩ := hadded.payloads
    refine .inl ⟨(r.1, r.2.parser, r.2.vParsedPayloads), by rw [hr]; rfl,
      hg.of_core hadded.core_eq, ?_⟩
    rw [hpayloads, List.nil_append]
    exact hall
  · exact .inr ⟨by rw [hr]; rfl, hnot⟩

theorem nalTypeOf_lt (octet : Nat) : nalTypeOf octet < 32 := by
  have h : nalTypeOf octet = octet % 2 ^ 5 := Nat.and_two_pow_sub_one_eq_mod octet 5
  rw [h]
  exact Nat.mod_lt _ (by decide)

theorem isRequired_iff : p.isRequiredTypeForInterleaveMode nal_type = true ↔
    nal_type = 25 ∨ nal_type = 26 ∨ nal_type = 27 ∨ nal_type = 29 ∨
      nal_type = 28 ∧ p.isInterleaveMode = true := by
  unfold H264PayloadParser.isRequiredTypeForInterleaveMode
  simp only [Bool.or_eq_true, Bool.and_eq_true, beq_iff_eq, or_assoc]

theorem isInterleaveMode_iff (hg : Good p) : p.isInterleaveMode = true ↔ p.iIMP ≠ none := by
  unfold isInterleaveMode
  rw [ne_eq (p.iIMP), hg.mode]
  simp

theorem ParsePacket_spec (hg : Good p) (packet : Packet) :
    CallSpec (p.ParsePacket packet) (Fits p packet) := by
  unfold H264PayloadParser.ParsePacket
  by_cases hnil : packet.data = []
  · refine .inr ⟨?_, fun h => h.1 hnil⟩
    rw [read_eq_none (by rw [hnil]; exact Nat.le_refl 0)]
    rfl
  have hlen : 0 < packet.data.length := List.length_pos_iff.mpr hnil
  obtain ⟨nal_type, htype⟩ : ∃ t, typeOf packet.data = t := ⟨_, rfl⟩
  have htype' : nalTypeOf (packet.data.getD 0 0).toNat = nal_type := htype
  have h32 : nal_type < 32 := by
    rw [← htype']
    exact nalTypeOf_lt _
  have hFits : Fits p packet ↔ (LooksInto p packet → TypeFits packet.data nal_type) := by
    rw [Fits, htype]
    exact and_iff_right hnil
  rw [read_eq packet 0 hlen]
  simp only [bind_eq_bind, bind_some, htype']
  by_cases hreq : p.isRequiredTypeForInterleaveMode nal_type = true
  · have hlook : LooksInto p packet ↔ p.isInterleaveMode = true ∧ ¬ Ignored p packet = true := by
      rw [LooksInto, htype, if_pos hreq]
    have ht := isRequired_iff.mp hreq
    rw [if_pos hreq]
    unfold H264PayloadParser.parseRTPPayload_For_InterleavedMode
    by_cases himp : p.iIMP = none
    · rw [if_pos ⟨himp, hg.mode.mp himp⟩]
      refine .inl ⟨_, rfl, hg, iff_of_true (fun _ h => absurd h List.not_mem_nil) ?_⟩
      exact hFits.mpr fun h => absurd himp ((isInterleaveMode_iff hg).mp (hlook.mp h).1)
    · obtain ⟨imp, hi⟩ := ne_none_iff_exists'.mp himp
      have hp : { p with iIMP := some imp } = p := by rw [← hi]
      have hign : Ignored p packet =
          isCurrRTPPacketIgnored imp packet nal_type := by
        rw [Ignored, hi, htype]
      rw [if_neg fun h => himp h.1]
      simp only [hi, getD_some, hp]
      by_cases hignored : isCurrRTPPacketIgnored imp packet nal_type = true
      · simp only [if_pos hignored]
        have hloop : LoopSpec (some (none, ⟨p, packet, 0, []⟩)) [] True :=
          .inl ⟨_, [], rfl, hg, himp, rfl,
            iff_of_true (fun _ h => absurd h List.not_mem_nil) trivial⟩
        refine (hloop.congr (iff_of_true trivial ?_)).finish
        exact hFits.mpr fun h => absurd (hign.trans hignored) (hlook.mp h).2
      · simp only [if_neg hignored]
        refine ((interleaved_spec hg himp (by omega)).congr ?_).finish
        rw [hFits, hlook, hign]
        exact (imp_iff_right ⟨(isInterleaveMode_iff hg).mpr himp, hignored⟩).symm
  · have hlook : LooksInto p packet ↔ (p.isInterleaveMode = true →
        isExceptionTypeForInterleaveMode nal_type = true) := by
      rw [LooksInto, htype, if_neg hreq]
    rw [if_neg hreq]
    by_cases hwrong : p.isInterleaveMode = true ∧
        ¬ isExceptionTypeForInterleaveMode nal_type = true
    · rw [if_pos hwrong]
      refine .inl ⟨_, rfl, hg, iff_of_true (fun _ h => absurd h List.not_mem_nil) ?_⟩
      exact hFits.mpr fun h => absurd (hlook.mp h hwrong.1) hwrong.2
    · rw [if_neg hwrong]
      have ht : nal_type ≤ 24 ∨ nal_type = 28 ∨ 29 < nal_type := by
        have := mt isRequired_iff.mpr hreq
        omega
      refine (non_interleaved_spec hg h32 ht).congr ?_
      rw [hFits, hlook]
      refine (imp_iff_right fun hmode => ?_).symm
      exact Classical.byContradiction fun hnot => hwrong ⟨hmode, hnot⟩

end Parse

/-! ## 7. Runs -/

/-- One call is safe exactly where the payload fits. -/
theorem CallSpec.safe_iff
    (h : CallSpec o P) : SafeCall o ↔ P := by
  rcases h with ⟨r, rfl, -, hall⟩ | ⟨rfl, hnot⟩
  · exact hall
  · exact iff_of_false id hnot

theorem CallSpec.good
    (h : CallSpec o P) {r : PayloadParserStatus × H264PayloadParser × List Payload}
    (ho : o = some r) : Good r.2.1 := by
  rcases h with ⟨r', hr', hgood, -⟩ | ⟨hnone, -⟩
  · rw [Option.some.inj (ho.symm.trans hr')]
    exact hgood
  · exact absurd (ho.symm.trans hnone) (some_ne_none r)

theorem allSafe_iff (hg : Good p) (packets : List Packet) :
    AllSafe p packets ↔ AllFit p packets := by
  induction packets generalizing p with
  | nil => exact Iff.rfl
  | cons packet packets ih =>
    have hcall := ParsePacket_spec hg packet
    refine and_congr hcall.safe_iff (forall_congr' fun r => forall_congr' fun hr => ?_)
    exact ih (hcall.good hr)

/-- Whatever payloads come in whatever mode: the calls return, stay inside of the payloads and
    output nothing outside of them exactly where every payload fits. -/
theorem payloads_inside_iff (iInterleaveDepth : Nat) (packets : List Packet) :
    AllSafe (.initialized iInterleaveDepth) packets ↔
      AllFit (.initialized iInterleaveDepth) packets :=
  allSafe_iff (.initialized iInterleaveDepth) packets

/-- A single-time aggregation packet of four bytes with a NAL unit of 200 bytes. -/
def tooLarge : Packet := ⟨0, [24, 0, 200, 1], 0, 0, false, false⟩

/-- The fragment that is output reaches beyond the packet. -/
theorem tooLarge_output :
    ¬ ∀ (depth : Nat) (packets : List Packet), (∀ packet ∈ packets, packet.data ≠ []) →
      AllSafe (.initialized depth) packets := by
  intro h
  have hsafe := (h 0 [tooLarge] (by decide)).1
  have hout : H264PayloadParser.ParsePacket (.initialized 0) tooLarge = some (.Success,
      { H264PayloadParser.initialized 0 with iTimestampForFU := 0 },
      [⟨0, 1, false, false, true, [⟨[24, 0, 200, 1], 3, 200⟩]⟩]) := by decide
  rw [hout] at hsafe
  exact absurd (hsafe _ List.mem_cons_self _ List.mem_cons_self) (by decide)

end OpenCore.RtpPayload
