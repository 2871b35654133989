/-
  File:      OpenCore/RtpPayload/H264Interleaved.lean
  Subject:   WHAT THE INTERLEAVED MODE DELIVERS: a message goes out when it is parsed, and its
             packet is queued as well and goes out again.

  Every message is parsed into the list the caller reads, in the order of arrival, and the packet
  it came in enters the queue. So what is delivered is one piece for every message and one packet
  for every message but the last, and this is the NAL units in their order only where there is
  one piece at most. The counter counts a STAP-B once, whatever is in it.

  **Main result**: `interleaved_received_iff`.
-/
import OpenCore.RtpPayload.H264NonInterleaved

namespace OpenCore.RtpPayload

open OsclPriorityQueue List Option
open H264PayloadParser (finishInterleaved generateMemFrag generateMemFragSTAP getMemFragFU
  getMemFragMTAP isCurrRTPPacketIgnored isMTAPType loopSTAP offsetFU
  parseRTPPayload_For_SingleMessageOutput putNalUnitType queueLoop setDonBase setDonFU setDonSTAP
  setMarkerInfo setMarkerInfoFU setup validateFU)
open UInt8 (toNat_and toNat_or)
open InterleaveModeProcessing (countDown dequeue updateWhenDequeuingData updateWhenQueuingData)

/-! ## 1. What is sent -/

open Packet (data ptr raw)

open H264PayloadParser (ParseEmpty initialized queued)

/-- A NAL unit in an MTAP: its DON as the difference to the base, its time as an offset. -/
structure MtapUnit where
  dond : Nat
  offset : Nat
  unit : List UInt8

/-- A packet of the interleaved mode. The decoding order is counted without wrapping; `order` is
    the place of the first NAL unit of a STAP-B, of the base of an MTAP and of the unit that is
    cut, and `index` counts the fragments behind the first one. -/
inductive Interleaved where
  | stapB (header : UInt8) (order : Nat) (units : List (List UInt8))
  | mtap (header : UInt8) (order : Nat) (units : List MtapUnit)
  | fuB (header : UInt8) (order : Nat) (fragment : List UInt8)
  | fuA (header : UInt8) (order index : Nat) (final : Bool) (fragment : List UInt8)

namespace Interleaved

/-- A NAL unit in an MTAP16 or, with one byte more of its time, in an MTAP24. -/
def mtapUnit (nal_type : Nat) (u : MtapUnit) : List UInt8 :=
  be16 u.unit.length ++ UInt8.ofNat u.dond ::
    ((if nal_type = 27 then [UInt8.ofNat (u.offset / 65536)] else []) ++ be16 u.offset) ++ u.unit

/-- The bytes of the packet; the DON is the order in 16 bits. -/
def data : Interleaved → List UInt8
  | stapB header order units => header :: be16 order ++ units.flatMap Sent.stapUnit
  | mtap header order units =>
    header :: be16 order ++ units.flatMap (mtapUnit (nalTypeOf header.toNat))
  | fuB header order fragment =>
    ((header &&& 0xe0) ||| 29) :: (0x80 ||| (header &&& 0x1f)) :: be16 order ++ fragment
  | fuA header _ _ final fragment => Sent.fuA header (if final then 0x40 else 0) fragment

/-- The NAL units and fragments in the packet, with their order. -/
def pieces : Interleaved → List ((Nat × Nat) × List UInt8)
  | stapB _ order units => units.mapIdx fun i unit => ((order + i, 0), unit)
  | mtap _ order units => units.map fun u => ((order + u.dond, 0), u.unit)
  | fuB header order fragment => [((order, 0), header :: fragment)]
  | fuA _ order index _ fragment => [((order, index), fragment)]

/-- What can be sent so. -/
def Ok : Interleaved → Prop
  | stapB header _ units => nalTypeOf header.toNat = 25 ∧ units ≠ [] ∧
      ∀ unit ∈ units, unit ≠ [] ∧ unit.length ≤ 65535
  | mtap header _ units => (nalTypeOf header.toNat = 26 ∨ nalTypeOf header.toNat = 27) ∧
      units ≠ [] ∧ ∀ u ∈ units, u.dond < 256 ∧ u.unit ≠ [] ∧ u.unit.length ≤ 65535
  | fuB _ _ fragment => fragment ≠ [] ∧ fragment.length + 4 < 2 ^ 32
  | fuA _ _ _ _ fragment => fragment ≠ [] ∧ fragment.length + 2 < 2 ^ 32

/-- A further fragment follows the ones of its unit. -/
def Follows : Option Interleaved → Interleaved → Prop
  | some (fuB _ order _), fuA _ order' index _ _ => order' = order ∧ 0 < index
  | some (fuA _ order index final _), fuA _ order' index' _ _ =>
    final = false ∧ order' = order ∧ index < index'
  | _, fuA _ _ _ _ _ => False
  | _, _ => True

/-- Packets that can be sent, each after the one before it. -/
def AllOk : Option Interleaved → List Interleaved → Prop
  | _, [] => True
  | prev, item :: items => item.Ok ∧ Follows prev item ∧ AllOk (some item) items

end Interleaved

/-- The packets carry the items, each packet at an address of its own. -/
def SendsInterleaved (packets : List Packet) (items : List Interleaved) : Prop :=
  packets.map data = items.map Interleaved.data ∧ (packets.map ptr).Nodup

/-- Every NAL unit is overtaken by `depth` others at most. -/
def Displaced (depth : Nat) (orders : List Nat) : Prop :=
  ∀ i < orders.length, (orders.take i).countP (fun order => orders.getD i 0 < order) ≤ depth

/-! ## 2. What is delivered -/

/-- The calls for one packet: `Parse` again while the input is not exhausted. -/
inductive Fed : H264PayloadParser → Packet → H264PayloadParser →
    List (H264PayloadParser × List Payload) → Prop
  | last {p q : H264PayloadParser} {packet : Packet} {status : PayloadParserStatus}
      {output : List Payload} (h : p.ParsePacket packet = some (status, q, output))
      (hs : status ≠ .InputNotExhausted) : Fed p packet q [(q, output)]
  | again {p q r : H264PayloadParser} {packet : Packet} {output : List Payload}
      {calls : List (H264PayloadParser × List Payload)}
      (h : p.ParsePacket packet = some (.InputNotExhausted, q, output))
      (hrest : Fed q packet r calls) : Fed p packet r ((q, output) :: calls)

/-- The flushes at the end: as long as they succeed. -/
inductive Flushed : H264PayloadParser → List (H264PayloadParser × List Payload) → Prop
  | last {p q : H264PayloadParser} {status : PayloadParserStatus} {output : List Payload}
      (h : p.ParseEmpty = some (status, q, output)) (hs : status ≠ .Success) :
      Flushed p [(q, output)]
  | again {p q : H264PayloadParser} {output : List Payload}
      {calls : List (H264PayloadParser × List Payload)}
      (h : p.ParseEmpty = some (.Success, q, output)) (hrest : Flushed q calls) :
      Flushed p ((q, output) :: calls)

/-- The packets in order and then the flushes, with the parser and the output after each call. -/
inductive Session : H264PayloadParser → List Packet →
    List (H264PayloadParser × List Payload) → Prop
  | flush {p : H264PayloadParser} {calls : List (H264PayloadParser × List Payload)}
      (h : Flushed p calls) : Session p [] calls
  | feed {p q : H264PayloadParser} {packet : Packet} {packets : List Packet}
      {calls calls' : List (H264PayloadParser × List Payload)} (h : Fed p packet q calls)
      (hrest : Session q packets calls') : Session p (packet :: packets) (calls ++ calls')

/-- The fragments in an output. -/
def fragmentsIn (output : List Payload) : List (List UInt8) :=
  output.flatMap fun payload => payload.vfragments.map MemFrag.bytes

/-- The complete NAL units an entry of the queue stands for. -/
def nalUnitsIn (e : PVH264PayLoadOutputMediaData) : Nat :=
  if Done e then
    (e.data.vfragments.map fun f =>
      if typeOf f.data = 25 then
        ((loopSTAP (f.data.length + 1) ⟨0, f.data, 0, 0, false, false⟩ 3).getD
          []).length
      else 1).sum
  else 0

/-- The counter is the number of complete NAL units in the queue. -/
def CounterRight (p : H264PayloadParser) : Prop :=
  ∀ imp, p.iIMP = some imp →
    imp.iNALUnitsCounter = (imp.iOutputMediaDataQueue.map nalUnitsIn).sum

/-- What is delivered are the pieces, each once, in decoding order. -/
def InOrder (pieces : List ((Nat × Nat) × List UInt8)) (delivered : List (List UInt8)) : Prop :=
  ∃ ordered : List ((Nat × Nat) × List UInt8), ordered.Perm pieces ∧
    ordered.Pairwise (fun a b => a.1.1 < b.1.1 ∨ a.1.1 = b.1.1 ∧ a.1.2 < b.1.2) ∧
    delivered = ordered.map Prod.snd

/-- The session returns, delivers the pieces in order and keeps the counter right. -/
def Received (depth : Nat) (packets : List Packet) (items : List Interleaved) : Prop :=
  ∃ calls, Session (.initialized depth) packets calls ∧ (∀ call ∈ calls, CounterRight call.1) ∧
    InOrder (items.flatMap Interleaved.pieces) (calls.flatMap fun call => fragmentsIn call.2)

/-! ## 3. One message -/

/-- A message is parsed: the counter, the queue and the previous type stay, and the packet is the
    last one. -/
structure Held (imp : InterleaveModeProcessing) (ptr : Nat) (imp' : InterleaveModeProcessing) :
    Prop where
  counter : imp'.iNALUnitsCounter = imp.iNALUnitsCounter
  queue : imp'.iOutputMediaDataQueue = imp.iOutputMediaDataQueue
  prev : imp'.iPrevNALType = imp.iPrevNALType
  last : imp'.iRtpPayloadPtr = some ptr

variable {header : UInt8} {order : Nat}

section Message

variable {p : H264PayloadParser} {imp : InterleaveModeProcessing} {w : Parsing} {nal_type : Nat}

/-- A message is put together from its marker, its fragments and its timestamp. -/
theorem single_parsed (nal_type : Nat) {endOfNAL : Bool} {q q' : H264PayloadParser}
    {frags : List MemFrag} {w' : Parsing} {ts : Nat}
    (hoff : ¬ (w.rtp_payload_ptr_offset > 0 ∧
      w.rtp_payload_ptr_offset + 5 ≥ w.packet.data.length))
    (hmarker : (w.parser.setup w.packet).setMarkerInfo w.packet nal_type = some (endOfNAL, q))
    (hfrags : generateMemFrag { w with parser := q } nal_type =
      some (.Success, frags, w'))
    (hts : w'.parser.setMediaDataTimestamp nal_type w'.packet.timestamp = some (ts, q')) :
    ∃ payload, parseRTPPayload_For_SingleMessageOutput w nal_type =
        some (.Success, { w' with
          parser := q', vParsedPayloads := w'.vParsedPayloads ++ [payload] }) ∧
      payload.vfragments = frags := by
  unfold parseRTPPayload_For_SingleMessageOutput
  rw [if_neg hoff]
  simp only [hmarker, hfrags, hts, bind_eq_bind, bind_some, ne_eq,
    not_true_eq_false, if_false, Option.pure_def]
  exact ⟨_, rfl, rfl⟩

/-- The message of a packet that has one goes into the queue. -/
theorem queueLoop_message {fuel : Nat} {r : Parsing}
    (hm : isMTAPType nal_type = false)
    (hr : parseRTPPayload_For_SingleMessageOutput w nal_type =
      some (.Success, r)) (himp : r.parser.iIMP = some imp) :
    queueLoop (fuel + 1) w nal_type = some (none, { r with
      parser.iIMP := some (imp.queue r.packet.raw nal_type r.parser.iIsFragmentedBitMask) }) := by
  simp only [queueLoop, hr, queued, himp, hm,
    bind_eq_bind, bind_some, map_some, reduceCtorEq, if_false, ne_eq,
    not_true_eq_false, Bool.false_eq_true, Option.pure_def]

/-- The packet is remembered. -/
def seen (imp : InterleaveModeProcessing) (packet : Packet) : InterleaveModeProcessing :=
  { imp with iRtpPayloadPtr := some packet.ptr }

variable {packet : Packet}

theorem setup_seen (himp : p.iIMP = some imp) :
    p.setup packet = { p with iIMP := some (seen imp packet) } := by
  rw [setup, himp]
  rfl

/-- A STAP-B: one message with a fragment for each unit. -/
theorem stapB_queued (fuel : Nat)
    {units : List (List UInt8)} (himp : p.iIMP = some imp)
    (hok : (Interleaved.stapB header order units).Ok)
    (hdata : packet.data = (Interleaved.stapB header order units).data) :
    ∃ w imp', queueLoop (fuel + 1) ⟨p, packet, 0, []⟩ 25 = some (none, w) ∧
      Held imp packet.ptr imp' ∧ w.parser.iIMP = some (imp'.queue packet.raw 25 0) ∧
      w.parser.iInterleaveDepth = p.iInterleaveDepth ∧ fragmentsIn w.vParsedPayloads = units := by
  obtain ⟨-, hnil, hunits⟩ := hok
  have hdata' : packet.data = (header :: be16 order) ++ units.flatMap Sent.stapUnit := hdata
  obtain ⟨frags, hloop, hbytes⟩ := loopSTAP_units units (packet.data.length + 1)
    (header :: be16 order) hdata' hunits (Nat.lt_add_left _ (Nat.lt_succ_self _))
  have hfrags : frags ≠ [] := by
    rintro rfl
    exact hnil hbytes.symm
  have hlen : 2 < packet.data.length := by
    rw [hdata', length_append]
    exact Nat.lt_add_right _ (Nat.lt_succ_self 2)
  obtain ⟨hr1, hr2⟩ := read_pair packet 1 hlen
  have hmarker : (p.setup packet).setMarkerInfo packet 25 =
      some (true, { p with iIMP := some (seen imp packet), iIsFragmentedBitMask := 0 }) := by
    rw [setup_seen himp]
    rfl
  obtain ⟨imp', himp'⟩ : ∃ imp', imp' = { seen imp packet with
      iDon := (packet.data.getD 1 0).toNat <<< 8 ||| (packet.data.getD 2 0).toNat } := ⟨_, rfl⟩
  have hgen : generateMemFrag
      ⟨{ p with iIMP := some (seen imp packet), iIsFragmentedBitMask := 0 }, packet, 0, []⟩ 25 =
      some (.Success, frags,
        ⟨{ p with iIMP := some imp', iIsFragmentedBitMask := 0 }, packet, 0, []⟩) := by
    show generateMemFragSTAP _ 25 = _
    rw [show (header :: be16 order).length = 3 from rfl] at hloop
    simp only [generateMemFragSTAP, setDonSTAP, if_true,
      bind_eq_bind, bind_some, hr1, hr2, Option.pure_def, hloop, if_neg hfrags,
      himp']
  obtain ⟨payload, hparse, hpayload⟩ := single_parsed 25 (w := ⟨p, packet, 0, []⟩)
    (by simp) hmarker hgen rfl
  refine ⟨_, imp', queueLoop_message rfl hparse rfl, ?_, rfl, rfl, ?_⟩
  · rw [himp']
    exact ⟨rfl, rfl, rfl, rfl⟩
  · show fragmentsIn [payload] = units
    rw [fragmentsIn, flatMap_singleton, hpayload, hbytes]

theorem fuA_queued (fuel : Nat) {index : Nat}
    {final : Bool} {fragment : List UInt8} (himp : p.iIMP = some imp)
    (hok : (Interleaved.fuA header order index final fragment).Ok)
    (hdata : packet.data = (Interleaved.fuA header order index final fragment).data) :
    ∃ w imp' mask, queueLoop (fuel + 1) ⟨p, packet, 0, []⟩ 28 = some (none, w) ∧
      Held imp packet.ptr imp' ∧ w.parser.iIMP = some (imp'.queue w.packet.raw 28 mask) ∧
      w.parser.iInterleaveDepth = p.iInterleaveDepth ∧
      fragmentsIn w.vParsedPayloads = [fragment] := by
  obtain ⟨flags, hf⟩ : ∃ flags : UInt8, flags = if final then 0x40 else 0 := ⟨_, rfl⟩
  have hdata' : packet.data = Sent.fuA header flags fragment := by
    rw [hdata, hf]
    rfl
  have hflags : flags = 0x80 ∨ flags = 0 ∨ flags = 0x40 := by
    rw [hf]
    cases final with
    | false => exact .inr (.inl rfl)
    | true => exact .inr (.inr rfl)
  have hstart : flags ≠ 0x80 := by
    rw [hf]
    cases final <;> decide
  obtain ⟨mask, hmarker, hmask⟩ := marker_fuA (p := p.setup packet) hdata' hflags
  obtain ⟨f, data, hfrag, hbytes⟩ :=
    getMemFragFU_fuA (p := p.setup packet) hdata' hflags hok.2 hmask
  obtain ⟨payload, hparse, hpayload⟩ := single_parsed 28 (w := ⟨p, packet, 0, []⟩)
    (by simp) hmarker hfrag rfl
  refine ⟨_, seen imp packet, mask, queueLoop_message rfl hparse
    (by rw [setup_seen himp]), ⟨rfl, rfl, rfl, rfl⟩, rfl, rfl, ?_⟩
  show fragmentsIn [payload] = [fragment]
  rw [fragmentsIn, flatMap_singleton, hpayload, map_singleton, hbytes, if_neg hstart]

/-- The octets of a starting fragment with a DON read as its parts. -/
theorem fuB_octets : ∀ n < 256, nalTypeOf ((n &&& 0xe0) ||| 29) = 29 ∧
    ((((n &&& 0xe0) ||| 29) &&& 0xe0) ||| ((0x80 ||| (n &&& 0x1f)) &&& 0x1f) = n) ∧
    ((0x80 ||| (n &&& 0x1f)) &&& 0x80 ≠ 0) := by
  decide +kernel

/-- The mask of a starting fragment with a DON. -/
theorem mask_fuB (octet : Nat) : ((1 ||| (1 <<< 2) ||| (octet <<< 3)) &&& 0x03) = 1 ∧
    ((1 ||| (1 <<< 2) ||| (octet <<< 3)) &&& 0x07) = 5 := by
  have hmod2 : ∀ n, n &&& 0x03 = n % 2 ^ 2 := fun n => Nat.and_two_pow_sub_one_eq_mod n 2
  have hmod3 : ∀ n, n &&& 0x07 = n % 2 ^ 3 := fun n => Nat.and_two_pow_sub_one_eq_mod n 3
  have h2 : octet * 2 ^ 3 % 2 ^ 2 = 0 := by omega
  have h3 : octet * 2 ^ 3 % 2 ^ 3 = 0 := Nat.mul_mod_left _ _
  constructor
  · rw [hmod2, Nat.or_mod_two_pow, Nat.shiftLeft_eq octet, h2]
    rfl
  · rw [hmod3, Nat.or_mod_two_pow, Nat.shiftLeft_eq octet, h3]
    rfl

/-- A starting fragment with a DON: the header of the unit is written over the end of the DON. -/
theorem fuB_queued (fuel : Nat)
    {fragment : List UInt8} (himp : p.iIMP = some imp)
    (hok : (Interleaved.fuB header order fragment).Ok)
    (hdata : packet.data = (Interleaved.fuB header order fragment).data) :
    ∃ w imp' mask, queueLoop (fuel + 1) ⟨p, packet, 0, []⟩ 29 = some (none, w) ∧
      Held imp packet.ptr imp' ∧ w.parser.iIMP = some (imp'.queue w.packet.raw 29 mask) ∧
      w.parser.iInterleaveDepth = p.iInterleaveDepth ∧
      fragmentsIn w.vParsedPayloads = [header :: fragment] ∧ mask &&& 0x03 = 1 ∧
      mask &&& 0x07 = 5 := by
  obtain ⟨-, hheader, hS⟩ := fuB_octets header.toNat header.toNat_lt
  obtain ⟨hi, lo, hdon⟩ : ∃ hi lo, be16 order = [hi, lo] := ⟨_, _, rfl⟩
  have hdata' : packet.data =
      ((header &&& 0xe0) ||| 29) :: (0x80 ||| (header &&& 0x1f)) :: hi :: lo :: fragment := by
    rw [hdata, Interleaved.data, hdon]
    rfl
  have hr0 : packet.read 0 = some ((header.toNat &&& 0xe0) ||| 29) := by
    rw [Packet.read, hdata']
    simp [toNat_or, toNat_and]
  have hr1 : packet.read 1 = some (0x80 ||| (header.toNat &&& 0x1f)) := by
    rw [Packet.read, hdata']
    simp [toNat_or, toNat_and]
  have hr2 : packet.read 2 = some hi.toNat := by
    rw [Packet.read, hdata']
    rfl
  have hr3 : packet.read 3 = some lo.toNat := by
    rw [Packet.read, hdata']
    rfl
  obtain ⟨octet, hoctet⟩ : ∃ octet, 0x80 ||| (header.toNat &&& 0x1f) = octet := ⟨_, rfl⟩
  obtain ⟨mask, hm⟩ : ∃ mask, mask = 1 ||| (1 <<< 2) ||| (octet <<< 3) := ⟨_, rfl⟩
  obtain ⟨hlow, hlow'⟩ := mask_fuB octet
  rw [← hm] at hlow hlow'
  have hmarker : (p.setup packet).setMarkerInfo packet 29 = some (false,
      { p with iIMP := some (seen imp packet), iIsFragmentedBitMask := mask }) := by
    rw [setup_seen himp]
    show setMarkerInfoFU _ packet 29 = _
    rw [hoctet] at hr1 hS
    simp only [setMarkerInfoFU, hr1, bind_eq_bind, bind_some,
      ne_eq, hS, not_false_eq_true, if_true, ← hm, hlow, show ¬ (1 : Nat) = 2 by decide,
      show ¬ (1 : Nat) = 3 by decide, if_false, decide_false, Option.pure_def]
  obtain ⟨data, hd⟩ : ∃ data,
      data = ((header &&& 0xe0) ||| 29) :: (0x80 ||| (header &&& 0x1f)) :: hi :: header ::
        fragment := ⟨_, rfl⟩
  have hput : putNalUnitType packet 1 3 = some { packet with data := data } := by
    have hlen : 3 < packet.data.length := by
      rw [hdata']
      simp only [length_cons]
      omega
    simp only [putNalUnitType, if_true, hr0, hr1, bind_eq_bind,
      bind_some, Packet.write, if_pos hlen, hheader, UInt8.ofNat_toNat]
    rw [hd, hdata']
    rfl
  obtain ⟨imp', himp'⟩ : ∃ imp', imp' = { seen imp packet with
      iDon := hi.toNat <<< 8 ||| lo.toNat } := ⟨_, rfl⟩
  have hvalid : validateFU packet 29 = some true := by
    rw [validateFU, if_pos rfl, hr1, map_some, decide_eq_true hS]
  have hgen : generateMemFrag
      ⟨{ p with iIMP := some (seen imp packet), iIsFragmentedBitMask := mask }, packet, 0, []⟩ 29 =
      some (.Success, [⟨data, 3, (data.length + (2 ^ 32 - 3)) % 2 ^ 32⟩],
        ⟨{ p with iIMP := some imp', iIsFragmentedBitMask := mask }, { packet with data := data },
          0, []⟩) := by
    show getMemFragFU _ 29 = _
    simp only [getMemFragFU, hvalid, setDonFU, hr2, hr3, hlow,
      offsetFU, if_true, ne_eq, not_true_eq_false, if_false, Nat.add_zero,
      show 1 + 1 <<< 1 = 3 from rfl, hput, himp', bind_eq_bind, bind_some,
      Option.pure_def]
  have hbytes : MemFrag.bytes ⟨data, 3, (data.length + (2 ^ 32 - 3)) % 2 ^ 32⟩ =
      header :: fragment := by
    have hlen : (data.length + (2 ^ 32 - 3)) % 2 ^ 32 = (header :: fragment).length := by
      have := hok.2
      rw [hd]
      simp only [length_cons]
      omega
    rw [hlen, hd]
    exact bytes_rest [(header &&& 0xe0) ||| 29, 0x80 ||| (header &&& 0x1f), hi]
      (header :: fragment)
  obtain ⟨payload, hparse, hpayload⟩ := single_parsed 29 (w := ⟨p, packet, 0, []⟩)
    (by simp) hmarker hgen rfl
  refine ⟨_, imp', mask, queueLoop_message rfl hparse rfl, ?_, rfl, rfl, ?_, hlow, hlow'⟩
  · rw [himp']
    exact ⟨rfl, rfl, rfl, rfl⟩
  · show fragmentsIn [payload] = _
    rw [fragmentsIn, flatMap_singleton, hpayload, map_singleton, hbytes]

/-- One NAL unit of an MTAP, behind `pre`. -/
theorem mtap_unit_parsed {u : MtapUnit} {pre rest : List UInt8}
    (ht : nal_type = 26 ∨ nal_type = 27) (himp : w.parser.iIMP = some imp)
    (hdata : w.packet.data = pre ++ (Interleaved.mtapUnit nal_type u ++ rest))
    (hw : w.rtp_payload_ptr_offset = 0 ∧ pre.length = 3 ∨
      0 < w.rtp_payload_ptr_offset ∧ w.rtp_payload_ptr_offset = pre.length)
    (hu : u.unit ≠ [] ∧ u.unit.length ≤ 65535) :
    ∃ r imp', parseRTPPayload_For_SingleMessageOutput w nal_type =
        some (.Success, r) ∧ r.parser.iIMP = some imp' ∧ Held imp w.packet.ptr imp' ∧
      r.parser.iInterleaveDepth = w.parser.iInterleaveDepth ∧ r.packet = w.packet ∧
      r.rtp_payload_ptr_offset = (pre ++ Interleaved.mtapUnit nal_type u).length ∧
      r.parser.iIsFragmentedBitMask = 0 ∧
      fragmentsIn r.vParsedPayloads = fragmentsIn w.vParsedPayloads ++ [u.unit] := by
  obtain ⟨hne, hle⟩ := hu
  have hpos : 0 < u.unit.length := length_pos_iff.mpr hne
  have hutil : utilityOf nal_type = .MTAP := by rcases ht with rfl | rfl <;> rfl
  obtain ⟨head, hhead, hsplit⟩ : ∃ head : List UInt8, head.length = unitHeader nal_type - 2 ∧
      Interleaved.mtapUnit nal_type u = be16 u.unit.length ++ (head ++ u.unit) := by
    refine ⟨UInt8.ofNat u.dond :: ((if nal_type = 27 then [UInt8.ofNat (u.offset / 65536)]
      else []) ++ be16 u.offset), ?_, ?_⟩
    · rcases ht with rfl | rfl <;> rfl
    · rw [Interleaved.mtapUnit, append_assoc]
  have hfive : 5 ≤ unitHeader nal_type := by rcases ht with rfl | rfl <;> decide
  have hunit : (Interleaved.mtapUnit nal_type u).length = unitHeader nal_type + u.unit.length := by
    rw [hsplit, length_append, length_append, hhead, show (be16 _).length = 2 from rfl]
    omega
  have hlen : w.packet.data.length =
      pre.length + (unitHeader nal_type + u.unit.length) + rest.length := by
    rw [hdata, length_append, length_append, hunit]
    omega
  have hsize : sizeAt w.packet.data pre.length = u.unit.length := by
    rw [hdata, hsplit, append_assoc]
    exact sizeAt_be16 pre _ hle
  have hbytes : MemFrag.bytes ⟨w.packet.data, pre.length + unitHeader nal_type, u.unit.length⟩ =
      u.unit := by
    have hparts : w.packet.data = (pre ++ (be16 u.unit.length ++ head)) ++ (u.unit ++ rest) := by
      rw [hdata, hsplit]
      simp only [append_assoc]
    rw [hparts]
    refine bytes_at _ u.unit rest ?_
    rw [length_append, length_append, hhead, show (be16 _).length = 2 from rfl]
    omega
  have hmarker : (w.parser.setup w.packet).setMarkerInfo w.packet nal_type =
      some (true, { w.parser with
        iIMP := some (seen imp w.packet), iIsFragmentedBitMask := 0 }) := by
    rw [setup_seen himp, setMarkerInfo, hutil]
  obtain ⟨imp', hgen, hcount, hqueue, hprev, hlast⟩ := (mtap_frag (w := { w with
    parser := { w.parser with iIMP := some (seen imp w.packet), iIsFragmentedBitMask := 0 } })
    (i := pre.length) hutil rfl (by dsimp only; omega)).1 (by dsimp only; omega)
  dsimp only at hgen
  rw [hsize] at hgen
  have hstamp : ∃ ts q', ({ w.parser with
      iIMP := some imp', iIsFragmentedBitMask := 0 } :
        H264PayloadParser).setMediaDataTimestamp nal_type w.packet.timestamp = some (ts, q') ∧
      q' = { w.parser with
        iIMP := some imp', iIsFragmentedBitMask := 0, iTimestampForFU := 0 } := by
    rw [H264PayloadParser.setMediaDataTimestamp, hutil]
    exact ⟨_, _, rfl, rfl⟩
  obtain ⟨ts', q', hstamp, hq'⟩ := hstamp
  obtain ⟨payload, hparse, hpayload⟩ := single_parsed nal_type (by omega) hmarker hgen hstamp
  refine ⟨_, imp', hparse, by rw [hq'], ?_, by rw [hq'], rfl, ?_, by rw [hq'], ?_⟩
  · exact ⟨hcount, hqueue, hprev, hlast⟩
  · show pre.length + unitHeader nal_type + u.unit.length = _
    rw [length_append, hunit]
    omega
  · show fragmentsIn (w.vParsedPayloads ++ [payload]) = _
    rw [fragmentsIn, flatMap_append, flatMap_singleton, hpayload, map_singleton,
      hbytes]
    rfl

end Message

/-! ## 4. What is queued -/

/-- The queue has new entries, each of one fragment, and the counter counts the ones that are
    done. -/
structure Grown (imp imp' : InterleaveModeProcessing)
    (entries : List PVH264PayLoadOutputMediaData) : Prop where
  queue : imp'.iOutputMediaDataQueue.Perm (entries ++ imp.iOutputMediaDataQueue)
  counter : imp.iNALUnitsCounter < 2 ^ 32 →
    imp'.iNALUnitsCounter = (imp.iNALUnitsCounter + entries.countP Done) % 2 ^ 32
  fragments : ∀ e ∈ entries, e.data.vfragments.length = 1
  stays : entries = [] → imp'.iPrevNALType = imp.iPrevNALType
  prev : ∀ e, entries = [e] → (e.fuType >>> 8) &&& 0x03 = imp.iPrevNALType &&& 0x03

/-- The previous type of a queued fragment is in its second byte. -/
theorem fuType_prev (mask prev fuType : Nat) (hprev : prev < 4) (h : fuType < 4) :
    ((((if fuType = 2 then ((mask >>> 11) <<< 16) % 2 ^ 32 else 0) ||| (prev <<< 8) ||| fuType) >>>
      8) &&& 0x03) = prev := by
  have hmod : ∀ n, n &&& 0x03 = n % 2 ^ 2 := fun n => Nat.and_two_pow_sub_one_eq_mod n 2
  have hcounter : ((if fuType = 2 then ((mask >>> 11) <<< 16) % 2 ^ 32 else 0) >>> 8) % 2 ^ 2 =
      0 := by
    split
    · rw [Nat.shiftLeft_eq, Nat.shiftRight_eq_div_pow]
      omega
    · rfl
  have hfu : fuType >>> 8 = 0 := by
    rw [Nat.shiftRight_eq_div_pow]
    omega
  rw [Nat.shiftRight_or_distrib, Nat.shiftRight_or_distrib, Nat.shiftLeft_shiftRight, hfu,
    Nat.or_zero, hmod, Nat.or_mod_two_pow, hcounter, Nat.zero_or, Nat.mod_eq_of_lt hprev]

section Queue

variable {imp imp' : InterleaveModeProcessing}

/-- The packet of a message is queued. -/
theorem Held.grown {ptr : Nat} (h : Held imp ptr imp') (payload : Payload) (nal_type mask : Nat)
    (hone : payload.vfragments.length = 1) :
    ∃ e, e.data = payload ∧ Done e = (mask &&& 0x03 == 0 || mask &&& 0x03 == 3) ∧
      Grown imp (imp'.queue payload nal_type mask) [e] := by
  obtain ⟨fuType, hfu⟩ : ∃ fuType, mask &&& 0x03 = fuType := ⟨_, rfl⟩
  have hlt : fuType < 4 := by
    have : mask &&& 0x03 = mask % 2 ^ 2 := Nat.and_two_pow_sub_one_eq_mod mask 2
    omega
  have hlow := fuType_low mask (imp'.iPrevNALType &&& 0x03) fuType hlt
  obtain ⟨e, he⟩ : ∃ e : PVH264PayLoadOutputMediaData, e = ⟨payload, imp'.iDon,
    (if fuType = 2 then ((mask >>> 11) <<< 16) % 2 ^ 32 else 0) |||
      ((imp'.iPrevNALType &&& 0x03) <<< 8) ||| fuType⟩ := ⟨_, rfl⟩
  have hdone : Done e = (fuType == 0 || fuType == 3) := by
    rw [Done, he, hlow]
  refine ⟨e, by rw [he], by rw [hfu]; exact hdone, ?_, ?_, ?_, fun h => ?_, ?_⟩
  · rw [← h.queue]
    unfold InterleaveModeProcessing.queue updateWhenQueuingData
    simp only [hfu, ← he]
    exact push_perm compareLess imp'.iOutputMediaDataQueue e
  · intro hsmall
    unfold InterleaveModeProcessing.queue updateWhenQueuingData
    simp only [hfu, h.counter, countP_singleton, hdone]
    by_cases hcase : fuType = 0 ∨ fuType = 3
    · rw [if_pos hcase, if_pos (by simpa using hcase)]
    · rw [if_neg hcase, if_neg (by simpa using hcase), Nat.add_zero, Nat.mod_eq_of_lt hsmall]
  · intro x hx
    rw [mem_singleton.mp hx, he]
    exact hone
  · exact absurd h (cons_ne_nil _ _)
  · intro x hx
    rw [← singleton_inj.mp hx, he, ← h.prev]
    exact fuType_prev mask _ fuType (Nat.and_lt_two_pow (n := 2) _ (by decide)) hlt

theorem Grown.refl (imp : InterleaveModeProcessing) : Grown imp imp [] :=
  ⟨.refl _, fun h => (Nat.mod_eq_of_lt h).symm, fun _ h => absurd h not_mem_nil,
    fun _ => rfl, fun _ h => absurd h.symm (cons_ne_nil _ _)⟩

theorem Grown.trans {imp'' : InterleaveModeProcessing}
    {entries entries' : List PVH264PayLoadOutputMediaData} (h : Grown imp imp' entries)
    (h' : Grown imp' imp'' entries') : Grown imp imp'' (entries' ++ entries) := by
  refine ⟨?_, fun hsmall => ?_, forall_mem_append.mpr ⟨h'.fragments, h.fragments⟩,
    fun hnil => ?_, fun e he => ?_⟩
  · rw [append_assoc]
    exact h'.queue.trans (h.queue.append_left entries')
  · have hc := h.counter hsmall
    rw [h'.counter (by rw [hc]; exact Nat.mod_lt _ (by decide)), hc, countP_append]
    omega
  · obtain ⟨hnil', hnil⟩ := append_eq_nil_iff.mp hnil
    exact (h'.stays hnil').trans (h.stays hnil)
  · rcases append_eq_singleton_iff.mp he with ⟨-, he⟩ | ⟨he, hnil⟩
    · exact h.prev e he
    · rw [h'.prev e he, h.stays hnil]

/-- The units of an MTAP: the packet is queued for each. -/
theorem mtap_loop {nal_type : Nat} (ht : nal_type = 26 ∨ nal_type = 27) (units : List MtapUnit)
    (imp : InterleaveModeProcessing) (w : Parsing) (pre : List UInt8) (fuel : Nat)
    (himp : w.parser.iIMP = some imp)
    (hdata : w.packet.data = pre ++ units.flatMap (Interleaved.mtapUnit nal_type))
    (hw : w.rtp_payload_ptr_offset = 0 ∧ pre.length = 3 ∧ units ≠ [] ∨
      0 < w.rtp_payload_ptr_offset ∧ w.rtp_payload_ptr_offset = pre.length)
    (hunits : ∀ u ∈ units, u.unit ≠ [] ∧ u.unit.length ≤ 65535) (hfuel : units.length < fuel) :
    ∃ w' imp' entries, queueLoop fuel w nal_type = some (none, w') ∧
      w'.parser.iIMP = some imp' ∧ w'.parser.iInterleaveDepth = w.parser.iInterleaveDepth ∧
      fragmentsIn w'.vParsedPayloads =
        fragmentsIn w.vParsedPayloads ++ units.map MtapUnit.unit ∧
      Grown imp imp' entries ∧ entries.length = units.length ∧
      (∀ e ∈ entries, e.data = w.packet.raw ∧ Done e = true) ∧
      (units = [] → imp'.iRtpPayloadPtr = imp.iRtpPayloadPtr) ∧
      (units ≠ [] → imp'.iRtpPayloadPtr = some w.packet.ptr) := by
  induction units generalizing w pre fuel imp with
  | nil =>
    obtain ⟨fuel, rfl⟩ : ∃ n, fuel = n + 1 := ⟨fuel - 1, by omega⟩
    obtain ⟨hpos, hoff⟩ := hw.resolve_left fun h => h.2.2 rfl
    have hend : w.rtp_payload_ptr_offset + 5 ≥ w.packet.data.length := by
      rw [hdata, flatMap_nil, append_nil, hoff]
      exact Nat.le_add_right _ 5
    refine ⟨w, imp, [], ?_, himp, rfl, (append_nil _).symm, .refl imp, rfl,
      fun _ h => absurd h not_mem_nil, fun _ => rfl, fun h => absurd rfl h⟩
    rw [queueLoop, parseRTPPayload_For_SingleMessageOutput,
      if_pos ⟨hpos, hend⟩]
    simp only [bind_eq_bind, bind_some, if_true, Option.pure_def]
  | cons u units ih =>
    obtain ⟨fuel, rfl⟩ : ∃ n, fuel = n + 1 := ⟨fuel - 1, by omega⟩
    have hdata' : w.packet.data = pre ++ (Interleaved.mtapUnit nal_type u ++
        units.flatMap (Interleaved.mtapUnit nal_type)) := by rw [hdata, flatMap_cons]
    obtain ⟨r, imp1, hparse, himp1, hheld, hdepth, hpacket, hoff, hmask, hout⟩ :=
      mtap_unit_parsed ht himp hdata' (hw.imp_left fun h => ⟨h.1, h.2.1⟩)
        (hunits u mem_cons_self)
    obtain ⟨e, hedata, hedone, hgrown⟩ :=
      hheld.grown r.packet.raw nal_type r.parser.iIsFragmentedBitMask rfl
    rw [hmask] at hedone
    obtain ⟨imp2, himp2⟩ : ∃ imp2,
        imp2 = imp1.queue r.packet.raw nal_type r.parser.iIsFragmentedBitMask := ⟨_, rfl⟩
    rw [← himp2] at hgrown
    have hlast : imp2.iRtpPayloadPtr = some w.packet.ptr := by
      rw [himp2]
      exact hheld.last
    obtain ⟨w1, hw1⟩ : ∃ w1 : Parsing, w1 = { r with parser.iIMP := some imp2 } := ⟨_, rfl⟩
    have hqueued : queued r nal_type = some w1 := by
      rw [queued, himp1, map_some, ← himp2, hw1]
    have hpre : 0 < (pre ++ Interleaved.mtapUnit nal_type u).length := by
      rw [length_append, Interleaved.mtapUnit]
      simp only [length_append, show (be16 u.unit.length).length = 2 from rfl]
      omega
    obtain ⟨w', imp', entries, hloop, himp', hdepth', hout', hgrown', hcount, hentries, hnone,
        hsome⟩ := ih imp2 w1
      (pre ++ Interleaved.mtapUnit nal_type u) fuel (by rw [hw1])
      (by rw [hw1]; show r.packet.data = _; rw [hpacket, hdata', append_assoc])
      (.inr ⟨by rw [hw1]; show 0 < r.rtp_payload_ptr_offset; rw [hoff]; exact hpre,
        by rw [hw1]; exact hoff⟩)
      (fun x hx => hunits x (mem_cons_of_mem u hx))
      (by rw [length_cons] at hfuel; omega)
    have hptr : imp'.iRtpPayloadPtr = some w.packet.ptr := by
      by_cases hnil : units = []
      · exact (hnone hnil).trans hlast
      · rw [hsome hnil, hw1]
        show some r.packet.ptr = _
        rw [hpacket]
    refine ⟨w', imp', entries ++ [e], ?_, himp', ?_, ?_, hgrown.trans hgrown', ?_, ?_,
      fun h => absurd h (cons_ne_nil _ _), fun _ => hptr⟩
    · have hm : isMTAPType nal_type = true := by rcases ht with rfl | rfl <;> rfl
      simp only [queueLoop, hparse, hqueued, hm, hloop, bind_eq_bind,
        bind_some, reduceCtorEq, if_false, ne_eq, not_true_eq_false, if_true]
    · rw [hdepth', hw1]
      exact hdepth
    · rw [hout', hw1]
      show fragmentsIn r.vParsedPayloads ++ _ = _
      rw [hout, append_assoc]
      rfl
    · rw [length_append, hcount]
      rfl
    · intro x hx
      rcases mem_append.mp hx with hx | hx
      · obtain ⟨hxd, hxdone⟩ := hentries x hx
        refine ⟨hxd.trans ?_, hxdone⟩
        rw [hw1]
        exact congrArg raw hpacket
      · rw [mem_singleton.mp hx]
        exact ⟨hedata.trans (congrArg raw hpacket), hedone⟩

end Queue

namespace Interleaved

/-- The messages in a packet. -/
def messages : Interleaved → Nat
  | mtap _ _ units => units.length
  | _ => 1

/-- The messages that are counted. -/
def counted : Interleaved → Nat
  | stapB _ _ _ => 1
  | mtap _ _ units => units.length
  | fuB _ _ _ => 0
  | fuA _ _ _ final _ => if final then 1 else 0

/-- The complete NAL units. -/
def complete : Interleaved → Nat
  | stapB _ _ units => units.length
  | mtap _ _ units => units.length
  | fuB _ _ _ => 0
  | fuA _ _ _ final _ => if final then 1 else 0

/-- A fragment. -/
def isFragment : Interleaved → Bool
  | fuB _ _ _ => true
  | fuA _ _ _ _ _ => true
  | _ => false

/-- A packet that may be the first one. -/
def starts : Interleaved → Bool
  | fuA _ _ _ _ _ => false
  | _ => true

end Interleaved

/-- Further fragments are not ignored. -/
def TakesFuA (imp : InterleaveModeProcessing) : Prop := (imp.iPrevNALType >>> 2) &&& 0x01 = 1

/-- A packet is parsed and queued. -/
structure Taken (p : H264PayloadParser) (imp : InterleaveModeProcessing) (packet : Packet)
    (item : Interleaved) (w : Parsing) (imp' : InterleaveModeProcessing)
    (entries : List PVH264PayLoadOutputMediaData) : Prop where
  parser : w.parser.iIMP = some imp'
  depth : w.parser.iInterleaveDepth = p.iInterleaveDepth
  output : fragmentsIn w.vParsedPayloads = item.pieces.map Prod.snd
  grown : Grown imp imp' entries
  messages : entries.length = item.messages
  last : imp'.iRtpPayloadPtr = some packet.ptr
  takes : item.isFragment = true → (item.starts = true ∨ TakesFuA imp) → TakesFuA imp'
  counted : item.starts = true → entries.countP Done = item.counted
  complete : item.starts = true → (entries.map nalUnitsIn).sum = item.complete

variable {item : Interleaved}

section Item

variable {p : H264PayloadParser} {imp : InterleaveModeProcessing} {packet : Packet}

theorem nalUnitsIn_stapB {e : PVH264PayLoadOutputMediaData}
    {units : List (List UInt8)} (hok : (Interleaved.stapB header order units).Ok)
    (hdata : packet.data = (Interleaved.stapB header order units).data)
    (he : e.data = packet.raw) (hdone : Done e = true) : nalUnitsIn e = units.length := by
  obtain ⟨htype, -, hunits⟩ := hok
  have hdata' : packet.data = (header :: be16 order) ++ units.flatMap Sent.stapUnit := hdata
  have htype' : typeOf packet.data = 25 := by
    rw [hdata']
    exact htype
  obtain ⟨frags, hloop, hbytes⟩ := loopSTAP_units
    units (packet.data.length + 1) (header :: be16 order)
    (show (⟨0, packet.data, 0, 0, false, false⟩ : Packet).data = _ from hdata') hunits
    (Nat.lt_add_left _ (Nat.lt_succ_self _))
  rw [show (header :: be16 order).length = 3 from rfl] at hloop
  rw [nalUnitsIn, if_pos hdone, he]
  simp only [raw, map_singleton, sum_singleton, if_pos htype', hloop,
    getD_some]
  rw [← hbytes, length_map]

theorem length_le_mtapUnits (nal_type : Nat) (units : List MtapUnit) :
    units.length ≤ (units.flatMap (Interleaved.mtapUnit nal_type)).length := by
  induction units with
  | nil => exact Nat.le_refl 0
  | cons u units ih =>
    rw [flatMap_cons, length_append, length_cons, Interleaved.mtapUnit]
    simp only [length_append, show (be16 u.unit.length).length = 2 from rfl]
    omega

theorem item_taken (hok : item.Ok) (hdata : packet.data = item.data)
    (himp : p.iIMP = some imp) :
    ∃ w imp' entries, queueLoop (packet.data.length + 1) ⟨p, packet, 0, []⟩
        (typeOf packet.data) = some (none, w) ∧ Taken p imp packet item w imp' entries := by
  cases item with
  | stapB header order units =>
    have htype : typeOf packet.data = 25 := by
      rw [hdata]
      exact hok.1
    obtain ⟨w, imp1, hloop, hheld, hw, hdepth, hout⟩ :=
      stapB_queued packet.data.length himp hok hdata
    obtain ⟨e, hedata, hedone, hgrown⟩ := hheld.grown packet.raw 25 0 rfl
    rw [htype]
    refine ⟨w, _, [e], hloop, hw, hdepth, ?_, hgrown, rfl, hheld.last,
      fun h => absurd h Bool.false_ne_true, fun _ => ?_, fun _ => ?_⟩
    · rw [hout]
      exact ext_getElem (by simp [Interleaved.pieces]) (by simp [Interleaved.pieces])
    · rw [countP_singleton, hedone]
      rfl
    · rw [map_singleton, sum_singleton, nalUnitsIn_stapB hok hdata hedata hedone]
      rfl
  | mtap header order units =>
    obtain ⟨ht, hnil, hunits⟩ := hok
    have htype : typeOf packet.data = nalTypeOf header.toNat := by
      rw [hdata]
      rfl
    rw [htype]
    have hdata' : packet.data = (header :: be16 order) ++
        units.flatMap (Interleaved.mtapUnit (nalTypeOf header.toNat)) := hdata
    have hfuel : units.length < packet.data.length + 1 := by
      have hle := length_le_mtapUnits (nalTypeOf header.toNat) units
      rw [hdata', length_append]
      omega
    obtain ⟨w, imp', entries, hloop, hw, hdepth, hout, hgrown, hcount, hentries, -, hlast⟩ :=
      mtap_loop ht units imp ⟨p, packet, 0, []⟩ (header :: be16 order) (packet.data.length + 1)
        himp hdata' (.inl ⟨rfl, rfl, hnil⟩) (fun u hu => (hunits u hu).2) hfuel
    refine ⟨w, imp', entries, hloop, hw, hdepth, ?_, hgrown, hcount, hlast hnil,
      fun h => absurd h Bool.false_ne_true, fun _ => ?_, fun _ => ?_⟩
    · rw [hout]
      simp [Interleaved.pieces, fragmentsIn]
    · rw [countP_eq_length.mpr fun e he => (hentries e he).2, hcount]
      rfl
    · have hone : entries.map nalUnitsIn = replicate units.length 1 := by
        rw [← hcount]
        refine map_eq_replicate_iff.mpr fun e he => ?_
        obtain ⟨hedata, hedone⟩ := hentries e he
        rw [nalUnitsIn, if_pos hedone, hedata]
        simp only [raw, map_singleton, sum_singleton]
        exact if_neg (by rw [htype]; omega)
      rw [hone, sum_replicate, smul_eq_mul, Nat.mul_one]
      rfl
  | fuB header order fragment =>
    have htype : typeOf packet.data = 29 := by
      rw [hdata, typeOf, Interleaved.data, cons_append, getD_cons_zero, toNat_or,
        toNat_and]
      exact (fuB_octets header.toNat header.toNat_lt).1
    obtain ⟨w, imp1, mask, hloop, hheld, hw, hdepth, hout, hlow, hlow'⟩ :=
      fuB_queued packet.data.length himp hok hdata
    obtain ⟨e, hedata, hedone, hgrown⟩ := hheld.grown w.packet.raw 29 mask rfl
    rw [hlow] at hedone
    rw [htype]
    refine ⟨w, _, [e], hloop, hw, hdepth, hout, hgrown, rfl, hheld.last, fun _ _ => ?_,
      fun _ => ?_, fun _ => ?_⟩
    · show ((mask &&& 0x07) >>> 2) &&& 0x01 = 1
      rw [hlow']
      rfl
    · rw [countP_singleton, hedone]
      rfl
    · rw [map_singleton, sum_singleton, nalUnitsIn, hedone]
      rfl
  | fuA header order index final fragment =>
    have htype : typeOf packet.data = 28 := by
      rw [hdata, typeOf, Interleaved.data, Sent.fuA, getD_cons_zero, toNat_or,
        toNat_and]
      exact (fuA_octets header.toNat header.toNat_lt).1
    obtain ⟨w, imp1, mask, hloop, hheld, hw, hdepth, hout⟩ :=
      fuA_queued packet.data.length himp hok hdata
    obtain ⟨e, hedata, hedone, hgrown⟩ := hheld.grown w.packet.raw 28 mask rfl
    rw [htype]
    refine ⟨w, _, [e], hloop, hw, hdepth, hout, hgrown, rfl, hheld.last, fun _ h => ?_,
      fun h => absurd h Bool.false_ne_true, fun h => absurd h Bool.false_ne_true⟩
    have hopen : (imp.iPrevNALType >>> 2) &&& 0x01 = 1 := h.resolve_left Bool.false_ne_true
    have hlt : mask &&& 0x03 < 2 ^ 2 := Nat.and_lt_two_pow mask (by decide)
    show ((((imp1.iPrevNALType >>> 2) <<< 2) ||| (mask &&& 0x03)) >>> 2) &&& 0x01 = 1
    rw [Nat.shiftRight_or_distrib, Nat.shiftLeft_shiftRight, Nat.shiftRight_eq_div_pow (mask &&& 3),
      Nat.div_eq_of_lt hlt, Nat.or_zero, hheld.prev]
    exact hopen

theorem typeOf_item (hok : item.Ok) (hdata : packet.data = item.data) :
    packet.data ≠ [] ∧
      (typeOf packet.data = 25 ∨ typeOf packet.data = 26 ∨ typeOf packet.data = 27 ∨
        typeOf packet.data = 29 ∨ typeOf packet.data = 28) ∧
      (item.starts = true → typeOf packet.data ≠ 28) := by
  rw [hdata]
  cases item with
  | stapB header order units =>
    have ht : typeOf (Interleaved.stapB header order units).data = 25 := hok.1
    exact ⟨cons_ne_nil _ _, .inl ht, fun _ => by omega⟩
  | mtap header order units =>
    have ht : typeOf (Interleaved.mtap header order units).data = 26 ∨
        typeOf (Interleaved.mtap header order units).data = 27 := hok.1
    exact ⟨cons_ne_nil _ _, by omega, fun _ => by omega⟩
  | fuB header order fragment =>
    have ht : typeOf (Interleaved.fuB header order fragment).data = 29 := by
      rw [typeOf, Interleaved.data, cons_append, getD_cons_zero, toNat_or,
        toNat_and]
      exact (fuB_octets header.toNat header.toNat_lt).1
    exact ⟨cons_ne_nil _ _, by omega, fun _ => by omega⟩
  | fuA header order index final fragment =>
    have ht : typeOf (Interleaved.fuA header order index final fragment).data = 28 := by
      rw [typeOf, Interleaved.data, Sent.fuA, getD_cons_zero, toNat_or,
        toNat_and]
      exact (fuA_octets header.toNat header.toNat_lt).1
    exact ⟨cons_ne_nil _ _, by omega, fun h => absurd h Bool.false_ne_true⟩

end Item

/-! ## 5. Calls -/

/-- The interleaved mode, with entries of one fragment in the queue. -/
structure Waiting (p : H264PayloadParser) (imp : InterleaveModeProcessing) : Prop where
  some : p.iIMP = some imp
  depth : 0 < p.iInterleaveDepth
  ones : ∀ e ∈ imp.iOutputMediaDataQueue, e.data.vfragments.length = 1

section Calls

variable {p q : H264PayloadParser} {imp : InterleaveModeProcessing} {packet : Packet}
variable {status : PayloadParserStatus} {output : List Payload}

theorem Waiting.mode (h : Waiting p imp) : p.isInterleaveMode = true :=
  decide_eq_true (Nat.pos_iff_ne_zero.mp h.depth)

/-- An item is parsed and queued, or ignored. -/
theorem ParsePacket_item (h : Waiting p imp) (hok : item.Ok)
    (hdata : packet.data = item.data) :
    p.ParsePacket packet =
      (if isCurrRTPPacketIgnored imp packet (typeOf packet.data) then
        some (none, ⟨p, packet, 0, []⟩)
      else queueLoop (packet.data.length + 1) ⟨p, packet, 0, []⟩
        (typeOf packet.data)).bind finishInterleaved := by
  obtain ⟨hnil, ht, -⟩ := typeOf_item hok hdata
  have htype : nalTypeOf (packet.data.getD 0 0).toNat = typeOf packet.data := rfl
  have hreq : p.isRequiredTypeForInterleaveMode (typeOf packet.data) = true := by
    rcases ht with ht | ht | ht | ht | ht
    · exact isRequired_iff.mpr (.inl ht)
    · exact isRequired_iff.mpr (.inr (.inl ht))
    · exact isRequired_iff.mpr (.inr (.inr (.inl ht)))
    · exact isRequired_iff.mpr (.inr (.inr (.inr (.inl ht))))
    · exact isRequired_iff.mpr (.inr (.inr (.inr (.inr ⟨ht, h.mode⟩))))
  have hp : { p with iIMP := some imp } = p := by rw [← h.some]
  unfold H264PayloadParser.ParsePacket
  rw [read_eq packet 0 (length_pos_iff.mpr hnil)]
  simp only [bind_eq_bind, bind_some, htype, if_pos hreq]
  unfold H264PayloadParser.parseRTPPayload_For_InterleavedMode
  rw [if_neg fun hc => some_ne_none imp (h.some.symm.trans hc.1)]
  by_cases hign :
      isCurrRTPPacketIgnored imp packet (typeOf packet.data) = true
  · simp only [h.some, getD_some, hp, if_pos hign, bind_eq_bind]
  · simp only [h.some, getD_some, hp, if_neg hign, bind_eq_bind]

theorem output_account (h : Waiting p imp) (ho : p.output = some (status, q, output)) :
    ∃ imp', Waiting q imp' ∧
      (fragmentsIn output).length + imp'.iOutputMediaDataQueue.length =
        imp.iOutputMediaDataQueue.length ∧
      imp'.iRtpPayloadPtr = imp.iRtpPayloadPtr ∧ imp'.iPrevNALType = imp.iPrevNALType := by
  unfold H264PayloadParser.output at ho
  simp only [h.some, bind_eq_bind, bind_some] at ho
  by_cases hwait : imp.iNALUnitsCounter < p.iInterleaveDepth + 1
  · rw [if_pos hwait] at ho
    cases ho
    exact ⟨imp, h, Nat.zero_add _, rfl, rfl⟩
  · rw [if_neg hwait] at ho
    simp only [dequeue, bind_eq_some_iff,
      map_eq_some_iff] at ho
    obtain ⟨r, ⟨e, htop, rfl⟩, ho⟩ := ho
    cases ho
    have hperm := pop_perm compareLess htop
    have hone := h.ones e (hperm.mem_iff.mp mem_cons_self)
    refine ⟨_, ⟨rfl, h.depth, fun x hx => h.ones x (hperm.mem_iff.mp (mem_cons_of_mem e hx))⟩,
      ?_, rfl, rfl⟩
    rw [fragmentsIn, flatMap_singleton, length_map, hone, ← hperm.length_eq,
      length_cons, Nat.add_comm]

theorem ignored_account (h : Waiting p imp) (hok : item.Ok)
    (hdata : packet.data = item.data) (hptr : imp.iRtpPayloadPtr = some packet.ptr)
    (hcall : p.ParsePacket packet = some (status, q, output)) :
    ∃ imp', Waiting q imp' ∧
      (fragmentsIn output).length + imp'.iOutputMediaDataQueue.length =
        imp.iOutputMediaDataQueue.length ∧
      imp'.iRtpPayloadPtr = imp.iRtpPayloadPtr ∧ imp'.iPrevNALType = imp.iPrevNALType := by
  have hign : isCurrRTPPacketIgnored imp packet (typeOf packet.data) = true := by
    rw [isCurrRTPPacketIgnored, hptr, beq_self_eq_true, Bool.or_true]
  rw [ParsePacket_item h hok hdata, if_pos hign, bind_some] at hcall
  obtain ⟨⟨status', q', output'⟩, ho, he⟩ := map_eq_some_iff.mp hcall
  cases he
  exact output_account h ho

theorem not_ignored (hok : item.Ok) (hdata : packet.data = item.data)
    (hptr : imp.iRtpPayloadPtr ≠ some packet.ptr) (htakes : item.starts = true ∨ TakesFuA imp) :
    ¬ isCurrRTPPacketIgnored imp packet (typeOf packet.data) = true := by
  obtain ⟨-, -, h28⟩ := typeOf_item hok hdata
  unfold isCurrRTPPacketIgnored
  simp only [Bool.or_eq_true, Bool.and_eq_true, beq_iff_eq, not_or, not_and]
  refine ⟨fun htype hzero => ?_, hptr⟩
  rcases htakes with hstarts | htakes
  · exact h28 hstarts htype
  · exact absurd (htakes.symm.trans hzero) (by decide)

theorem taken_account (h : Waiting p imp) (hok : item.Ok)
    (hdata : packet.data = item.data) (hptr : imp.iRtpPayloadPtr ≠ some packet.ptr)
    (htakes : item.starts = true ∨ TakesFuA imp)
    (hcall : p.ParsePacket packet = some (status, q, output)) :
    ∃ imp', Waiting q imp' ∧
      (fragmentsIn output).length + imp'.iOutputMediaDataQueue.length =
        item.pieces.length + item.messages + imp.iOutputMediaDataQueue.length ∧
      imp'.iRtpPayloadPtr = some packet.ptr ∧ (item.isFragment = true → TakesFuA imp') := by
  obtain ⟨w, imp1, entries, hloop, htaken⟩ := item_taken hok hdata h.some
  have hnot := not_ignored hok hdata hptr htakes
  rw [ParsePacket_item h hok hdata, if_neg hnot, hloop, bind_some] at hcall
  obtain ⟨⟨status', q', output'⟩, ho, he⟩ := map_eq_some_iff.mp hcall
  cases he
  have hwait : Waiting w.parser imp1 := by
    refine ⟨htaken.parser, by rw [htaken.depth]; exact h.depth, fun e he => ?_⟩
    rcases mem_append.mp (htaken.grown.queue.mem_iff.mp he) with he | he
    · exact htaken.grown.fragments e he
    · exact h.ones e he
  obtain ⟨imp', hwait', hcount, hlast, hprev⟩ := output_account hwait ho
  refine ⟨imp', hwait', ?_, hlast.trans htaken.last, fun hfrag => ?_⟩
  · have hparsed : (fragmentsIn w.vParsedPayloads).length = item.pieces.length := by
      rw [htaken.output, length_map]
    have hqueue : imp1.iOutputMediaDataQueue.length =
        item.messages + imp.iOutputMediaDataQueue.length := by
      rw [htaken.grown.queue.length_eq, length_append, htaken.messages]
    have happend : fragmentsIn (w.vParsedPayloads ++ output') =
        fragmentsIn w.vParsedPayloads ++ fragmentsIn output' := flatMap_append
    show (fragmentsIn (w.vParsedPayloads ++ output')).length + _ = _
    rw [happend, length_append, hparsed]
    omega
  · rw [TakesFuA, hprev]
    exact htaken.takes hfrag htakes

variable {calls : List (H264PayloadParser × List Payload)}

/-- What the calls for one packet deliver. -/
theorem fed_ignored (h : Waiting p imp) (hok : item.Ok)
    (hdata : packet.data = item.data) (hptr : imp.iRtpPayloadPtr = some packet.ptr)
    (hfed : Fed p packet q calls) :
    ∃ imp', Waiting q imp' ∧
      (calls.flatMap fun call => fragmentsIn call.2).length + imp'.iOutputMediaDataQueue.length =
        imp.iOutputMediaDataQueue.length ∧
      imp'.iRtpPayloadPtr = imp.iRtpPayloadPtr ∧ imp'.iPrevNALType = imp.iPrevNALType := by
  induction hfed generalizing imp with
  | last hcall hs =>
    rw [flatMap_singleton]
    exact ignored_account h hok hdata hptr hcall
  | again hcall hrest ih =>
    obtain ⟨imp1, h1, hcount1, hlast1, hprev1⟩ := ignored_account h hok hdata hptr hcall
    obtain ⟨imp2, h2, hcount2, hlast2, hprev2⟩ := ih h1 hdata (hlast1.trans hptr)
    refine ⟨imp2, h2, ?_, hlast2.trans hlast1, hprev2.trans hprev1⟩
    rw [flatMap_cons, length_append]
    dsimp only
    omega

theorem fed_account (h : Waiting p imp) (hok : item.Ok)
    (hdata : packet.data = item.data) (hptr : imp.iRtpPayloadPtr ≠ some packet.ptr)
    (htakes : item.starts = true ∨ TakesFuA imp)
    (hfed : Fed p packet q calls) :
    ∃ imp', Waiting q imp' ∧
      (calls.flatMap fun call => fragmentsIn call.2).length + imp'.iOutputMediaDataQueue.length =
        item.pieces.length + item.messages + imp.iOutputMediaDataQueue.length ∧
      imp'.iRtpPayloadPtr = some packet.ptr ∧ (item.isFragment = true → TakesFuA imp') := by
  cases hfed with
  | last hcall hs =>
    rw [flatMap_singleton]
    exact taken_account h hok hdata hptr htakes hcall
  | again hcall hrest =>
    obtain ⟨imp1, h1, hcount1, hlast1, htakes1⟩ := taken_account h hok hdata hptr htakes hcall
    obtain ⟨imp2, h2, hcount2, hlast2, hprev2⟩ := fed_ignored h1 hok hdata hlast1 hrest
    refine ⟨imp2, h2, ?_, hlast2.trans hlast1, fun hfrag => ?_⟩
    · rw [flatMap_cons, length_append]
      dsimp only
      omega
    · rw [TakesFuA, hprev2]
      exact htakes1 hfrag

/-- A flush that is no success leaves the last entry out. -/
theorem flushed_account (h : Waiting p imp)
    (hflushed : Flushed p calls) :
    imp.iOutputMediaDataQueue.length ≤
      (calls.flatMap fun call => fragmentsIn call.2).length + 1 := by
  induction hflushed generalizing imp with
  | @last p q status output hcall hs =>
    unfold ParseEmpty at hcall
    simp only [h.some, h.mode, if_true] at hcall
    by_cases hnil : imp.iOutputMediaDataQueue = []
    · rw [hnil]
      exact Nat.zero_le _
    · rw [if_neg hnil] at hcall
      obtain ⟨r, hr, he⟩ := map_eq_some_iff.mp hcall
      obtain ⟨e, htop, rfl⟩ := map_eq_some_iff.mp hr
      have hlen := (pop_perm compareLess htop).length_eq
      by_cases hlast : pop compareLess imp.iOutputMediaDataQueue = []
      · rw [← hlen, hlast]
        exact Nat.le_add_left _ _
      · rw [if_neg hlast] at he
        exact absurd (Prod.mk.inj he).1.symm hs
  | @again p q output calls hcall hrest ih =>
    unfold ParseEmpty at hcall
    simp only [h.some, h.mode, if_true] at hcall
    by_cases hnil : imp.iOutputMediaDataQueue = []
    · rw [hnil]
      exact Nat.zero_le _
    · rw [if_neg hnil] at hcall
      obtain ⟨r, hr, he⟩ := map_eq_some_iff.mp hcall
      obtain ⟨e, htop, rfl⟩ := map_eq_some_iff.mp hr
      have hperm := pop_perm compareLess htop
      have hlen := hperm.length_eq
      by_cases hlast : pop compareLess imp.iOutputMediaDataQueue = []
      · rw [if_pos hlast] at he
        cases he
      · rw [if_neg hlast] at he
        cases he
        have hrest' := ih ⟨rfl, h.depth, fun x hx =>
          h.ones x (hperm.mem_iff.mp (mem_cons_of_mem e hx))⟩
        have hone := h.ones e (hperm.mem_iff.mp mem_cons_self)
        rw [flatMap_cons, length_append, fragmentsIn, flatMap_singleton,
          length_map, hone, ← hlen, length_cons]
        simp only at hrest'
        omega

end Calls

/-! ## 6. Sessions -/

variable {prev : Option Interleaved}

section Session

variable {p : H264PayloadParser} {imp : InterleaveModeProcessing} {packets : List Packet}
variable {calls : List (H264PayloadParser × List Payload)}

theorem follows_cases
    (h : Interleaved.Follows prev item) :
    item.starts = true ∨ ∃ before, prev = some before ∧ before.isFragment = true := by
  cases item with
  | stapB => exact .inl rfl
  | mtap => exact .inl rfl
  | fuB => exact .inl rfl
  | fuA =>
    cases prev with
    | none => exact absurd h id
    | some before =>
      cases before with
      | stapB => exact absurd h id
      | mtap => exact absurd h id
      | fuB => exact .inr ⟨_, rfl, rfl⟩
      | fuA => exact .inr ⟨_, rfl, rfl⟩

/-- Every message is delivered once as it is parsed, and once more with its packet, the last one
    apart. -/
theorem session_account (h : Waiting p imp)
    {items : List Interleaved} (hok : Interleaved.AllOk prev items)
    (hdata : packets.map data = items.map Interleaved.data)
    (hptrs : (packets.map ptr).Nodup)
    (hlast : ∀ packet ∈ packets, imp.iRtpPayloadPtr ≠ some packet.ptr)
    (htakes : ∀ before, prev = some before → before.isFragment = true → TakesFuA imp)
    (hs : Session p packets calls) :
    (items.map Interleaved.messages).sum + (items.flatMap Interleaved.pieces).length +
        imp.iOutputMediaDataQueue.length ≤
      (calls.flatMap fun call => fragmentsIn call.2).length + 1 := by
  induction hs generalizing imp prev items with
  | flush hflushed =>
    obtain rfl : items = [] := map_eq_nil_iff.mp hdata.symm
    exact (Nat.le_of_eq (Nat.zero_add _)).trans (flushed_account h hflushed)
  | @feed p q packet packets calls calls' hfed hrest ih =>
    obtain ⟨item, items, rfl, hitem, hitems⟩ := map_eq_cons_iff.mp hdata.symm
    obtain ⟨hi, hfollows, hrestok⟩ := hok
    have htakes' : item.starts = true ∨ TakesFuA imp := by
      rcases follows_cases hfollows with hstarts | ⟨before, hprev, hfrag⟩
      · exact .inl hstarts
      · exact .inr (htakes before hprev hfrag)
    obtain ⟨hnot, hptrs'⟩ := nodup_cons.mp hptrs
    obtain ⟨imp', h', hcount, hptr, hopen⟩ :=
      fed_account h hi hitem.symm (hlast packet mem_cons_self) htakes' hfed
    have hrest' := ih h' hrestok hitems.symm hptrs'
      (fun x hx he => hnot (mem_map.mpr ⟨x, hx, some.inj (he.symm.trans hptr)⟩))
      (fun before hb hfrag => by
        cases hb
        exact hopen hfrag)
    rw [map_cons, sum_cons, flatMap_cons, length_append, flatMap_append,
      length_append]
    omega

theorem waiting_initialized {depth : Nat} (hdepth : 0 < depth) :
    Waiting (.initialized depth) .created := by
  refine ⟨?_, hdepth, fun _ h => absurd h not_mem_nil⟩
  rw [initialized, if_pos hdepth]

/-- The first call: one message, which waits in the queue. -/
theorem first_call {depth : Nat} {packet : Packet} (hdepth : 0 < depth)
    (hok : item.Ok) (hdata : packet.data = item.data) (hstarts : item.starts = true)
    (hone : item.messages = 1) :
    ∃ q output imp e, (initialized depth).ParsePacket packet =
        some (.DataNotReady, q, output) ∧ Waiting q imp ∧
      fragmentsIn output = item.pieces.map Prod.snd ∧ imp.iOutputMediaDataQueue = [e] ∧
      imp.iNALUnitsCounter = item.counted ∧ nalUnitsIn e = item.complete ∧
      (if Done e then 1 else 0) = item.counted ∧ (e.fuType >>> 8) &&& 0x03 = 0 := by
  have h := waiting_initialized hdepth
  obtain ⟨w, imp, entries, hloop, htaken⟩ := item_taken hok hdata h.some
  obtain ⟨e, rfl⟩ := length_eq_one_iff.mp (htaken.messages.trans hone)
  have hptr : InterleaveModeProcessing.created.iRtpPayloadPtr ≠ some packet.ptr :=
    fun he => by cases he
  have hnot := not_ignored hok hdata hptr (.inl hstarts)
  have hdone : (if Done e then 1 else 0) = item.counted := by
    rw [← htaken.counted hstarts, countP_singleton]
  have hcount : imp.iNALUnitsCounter = item.counted := by
    have hsum := htaken.grown.counter (by decide)
    rw [htaken.counted hstarts, ← hdone] at hsum
    rw [hsum, ← hdone]
    split <;> rfl
  have hle : item.counted ≤ 1 := by
    rw [← hdone]
    split <;> decide
  have hqueue : imp.iOutputMediaDataQueue = [e] := perm_singleton.mp htaken.grown.queue
  have hwait : Waiting w.parser imp := by
    refine ⟨htaken.parser, by rw [htaken.depth]; exact h.depth, fun x hx => ?_⟩
    rw [hqueue] at hx
    exact htaken.grown.fragments x hx
  have hout : w.parser.output = some (.DataNotReady, w.parser, []) := by
    unfold H264PayloadParser.output
    have hlt : imp.iNALUnitsCounter < w.parser.iInterleaveDepth + 1 := by
      have := hwait.depth
      omega
    simp only [hwait.some, bind_eq_bind, bind_some, if_pos hlt, Option.pure_def]
  refine ⟨w.parser, w.vParsedPayloads, imp, e, ?_, hwait, htaken.output, hqueue, hcount, ?_,
    hdone, htaken.grown.prev e rfl⟩
  · rw [ParsePacket_item h hok hdata, if_neg hnot, hloop, bind_some]
    simp only [finishInterleaved, hout, map_some, append_nil]
  · rw [← htaken.complete hstarts, map_singleton, sum_singleton]

/-- The flush behind one message leaves an empty queue, and outputs nothing. -/
theorem last_flush {q : H264PayloadParser} {e : PVH264PayLoadOutputMediaData}
    (h : Waiting q imp) (hqueue : imp.iOutputMediaDataQueue = [e])
    (hcount : (if Done e then 1 else 0) = imp.iNALUnitsCounter)
    (hprev : (e.fuType >>> 8) &&& 0x03 = 0) :
    ∃ r, q.ParseEmpty = some (.EmptyQueue, r, []) ∧ CounterRight r := by
  have htop : top imp.iOutputMediaDataQueue = some e := by
    rw [hqueue]
    rfl
  have hpop : pop compareLess imp.iOutputMediaDataQueue = [] := by
    have hlen := (pop_perm compareLess htop).length_eq
    rw [hqueue] at hlen
    rw [hqueue]
    exact length_eq_zero_iff.mp (Nat.succ.inj hlen)
  have hnil : imp.iOutputMediaDataQueue ≠ [] := by
    rw [hqueue]
    exact cons_ne_nil e []
  refine ⟨{ q with iIMP := some { imp with
      iOutputMediaDataQueue := pop compareLess imp.iOutputMediaDataQueue
      iNALUnitsCounter :=
        updateWhenDequeuingData imp.iNALUnitsCounter e.fuType } },
    ?_, ?_⟩
  · unfold ParseEmpty
    simp only [h.some, h.mode, if_true, if_neg hnil, H264PayloadParser.flush,
      dequeue, htop, map_some, if_pos hpop]
  · intro imp' he
    cases he
    rw [hpop]
    show updateWhenDequeuingData imp.iNALUnitsCounter e.fuType = 0
    rw [← hcount]
    unfold updateWhenDequeuingData Done
    simp only [hprev]
    by_cases h0 : e.fuType &&& 0x03 = 0
    · simp [h0, countDown]
    · by_cases h3 : e.fuType &&& 0x03 = 3
      · simp [h3, countDown]
      · simp [h0, h3]

namespace Interleaved

theorem messages_pos (hok : item.Ok) :
    0 < item.messages ∧ 0 < item.pieces.length := by
  cases item with
  | stapB header order units =>
    refine ⟨Nat.one_pos, ?_⟩
    rw [pieces, length_mapIdx]
    exact length_pos_iff.mpr hok.2.1
  | mtap header order units =>
    have hpos : 0 < units.length := length_pos_iff.mpr hok.2.1
    refine ⟨hpos, ?_⟩
    rw [pieces, length_map]
    exact hpos
  | fuB | fuA => exact ⟨Nat.one_pos, Nat.one_pos⟩

/-- One message of one piece, by the counter. -/
theorem one_piece_iff (hstarts : item.starts = true) :
    item.pieces.length = 1 ↔ item.messages = 1 ∧ item.counted = item.complete := by
  cases item with
  | stapB header order units =>
    rw [pieces, length_mapIdx]
    exact ⟨fun h => ⟨rfl, h.symm⟩, fun h => h.2.symm⟩
  | mtap header order units =>
    rw [pieces, length_map]
    exact ⟨fun h => ⟨h, rfl⟩, fun h => h.1⟩
  | fuB => exact iff_of_true rfl ⟨rfl, rfl⟩
  | fuA => exact absurd hstarts Bool.false_ne_true

/-- No item is empty, so a count of one is one item. -/
theorem eq_nil_of_sum {items : List Interleaved}
    (hok : AllOk prev items)
    (h : (items.map messages).sum = 0 ∨ (items.flatMap pieces).length = 0) :
    items = [] := by
  cases items with
  | nil => rfl
  | cons item items =>
    have hpos := messages_pos hok.1
    rw [map_cons, sum_cons, flatMap_cons, length_append] at h
    omega

end Interleaved

section Items

variable {depth : Nat} {items : List Interleaved}

/-- More than one piece is not delivered right. -/
theorem pieces_le_of_received (hdepth : 0 < depth) (hok : Interleaved.AllOk none items)
    (hsent : SendsInterleaved packets items) (h : Received depth packets items) :
    (items.flatMap Interleaved.pieces).length ≤ 1 := by
  obtain ⟨hdata, hptrs⟩ := hsent
  have hwait := waiting_initialized hdepth
  obtain ⟨calls, hs, hcounters, ordered, hperm, -, hdelivered⟩ := h
  have hcount := session_account hwait hok hdata hptrs (fun _ _ he => by cases he)
    (fun _ he => by cases he) hs
  rw [hdelivered, length_map, hperm.length_eq] at hcount
  cases items with
  | nil => exact Nat.zero_le 1
  | cons item items =>
    obtain ⟨hi, hfollows, hrest⟩ := hok
    obtain ⟨hmessages, -⟩ := Interleaved.messages_pos hi
    rw [map_cons, sum_cons] at hcount
    obtain rfl : items = [] := Interleaved.eq_nil_of_sum hrest (.inl (by omega))
    obtain ⟨packet, rfl, hpacket⟩ := map_eq_singleton_iff.mp hdata
    have hstarts : item.starts = true := by
      rcases follows_cases hfollows with h | ⟨_, h, -⟩
      · exact h
      · cases h
    have hone : item.messages = 1 := by omega
    obtain ⟨q, output, imp, e, hparse, hq, -, hqueue, hcounter, hunits, -⟩ :=
      first_call hdepth hi hpacket hstarts hone
    have hright : CounterRight q := by
      cases hs with
      | @feed _ _ _ _ c c' hfed hflush =>
        cases hfed with
        | last hcall _ =>
          obtain ⟨-, he⟩ := Prod.mk.inj (some.inj (hparse.symm.trans hcall))
          obtain ⟨rfl, rfl⟩ := Prod.mk.inj he
          exact hcounters _ mem_cons_self
        | again hcall _ =>
          obtain ⟨he, -⟩ := Prod.mk.inj (some.inj (hparse.symm.trans hcall))
          cases he
    have hsame := hright imp hq.some
    rw [hqueue, map_singleton, sum_singleton, hcounter, hunits] at hsame
    rw [flatMap_singleton]
    exact Nat.le_of_eq ((Interleaved.one_piece_iff hstarts).mpr ⟨hone, hsame⟩)

theorem received_of_pieces_le (hdepth : 0 < depth) (hok : Interleaved.AllOk none items)
    (hsent : SendsInterleaved packets items)
    (hle : (items.flatMap Interleaved.pieces).length ≤ 1) : Received depth packets items := by
  obtain ⟨hdata, hptrs⟩ := hsent
  have hwait := waiting_initialized hdepth
  cases items with
  | nil =>
    obtain rfl : packets = [] := map_eq_nil_iff.mp hdata
    have hempty : (initialized depth).ParseEmpty =
        some (.Failure, .initialized depth, []) := by
      unfold ParseEmpty
      simp only [hwait.some]
      exact if_pos rfl
    refine ⟨_, .flush (.last hempty (by decide)), ?_, [], .refl _, .nil, rfl⟩
    intro call hc
    rw [mem_singleton.mp hc]
    intro imp he
    obtain rfl := some.inj (hwait.some.symm.trans he)
    rfl
  | cons item items =>
    obtain ⟨hi, hfollows, hrest⟩ := hok
    obtain ⟨-, hpieces⟩ := Interleaved.messages_pos hi
    rw [flatMap_cons, length_append] at hle
    obtain rfl : items = [] := Interleaved.eq_nil_of_sum hrest (.inr (by omega))
    obtain ⟨packet, rfl, hpacket⟩ := map_eq_singleton_iff.mp hdata
    have hstarts : item.starts = true := by
      rcases follows_cases hfollows with h | ⟨_, h, -⟩
      · exact h
      · cases h
    have hlen : item.pieces.length = 1 := by omega
    obtain ⟨hone, hsame⟩ := (Interleaved.one_piece_iff hstarts).mp hlen
    obtain ⟨q, output, imp, e, hparse, hq, hout, hqueue, hcounter, hunits, hdone, hprev⟩ :=
      first_call hdepth hi hpacket hstarts hone
    obtain ⟨r, hflush, hright⟩ := last_flush hq hqueue (hdone.trans hcounter.symm) hprev
    obtain ⟨piece, hpiece⟩ := length_eq_one_iff.mp hlen
    refine ⟨_, .feed (.last hparse (by decide)) (.flush (.last hflush (by decide))), ?_,
      item.pieces, ?_, ?_, ?_⟩
    · intro call hc
      rcases mem_cons.mp hc with rfl | hc
      · intro imp' he
        obtain rfl := some.inj (hq.some.symm.trans he)
        rw [hqueue, map_singleton, sum_singleton, hcounter, hunits]
        exact hsame
      · rw [mem_singleton.mp hc]
        exact hright
    · rw [flatMap_singleton]
    · rw [hpiece]
      exact pairwise_singleton _ _
    · rw [singleton_append, flatMap_cons, flatMap_singleton, hout]
      exact append_nil _

/-- What the interleaved mode delivers is what was sent, in its order and with the counter right,
    exactly where one NAL unit or fragment at most was sent. -/
theorem interleaved_received_iff (hdepth : 0 < depth) (hok : Interleaved.AllOk none items)
    (hsent : SendsInterleaved packets items) :
    Received depth packets items ↔ (items.flatMap Interleaved.pieces).length ≤ 1 :=
  ⟨pieces_le_of_received hdepth hok hsent, received_of_pieces_le hdepth hok hsent⟩

end Items

end Session

/-- Two NAL units, each in a STAP-B, in decoding order. -/
def twoUnits : List Interleaved := [.stapB 0x79 0 [[0x65, 1]], .stapB 0x79 1 [[0x65, 2]]]

/-- The packets of `twoUnits`. -/
def twoPackets : List Packet :=
  [⟨0, [0x79, 0, 0, 0, 2, 0x65, 1], 0, 0, false, false⟩,
    ⟨100, [0x79, 0, 1, 0, 2, 0x65, 2], 0, 1, false, false⟩]

theorem twoUnits_ok : Interleaved.AllOk none twoUnits :=
  ⟨⟨by decide, by decide, by decide⟩, trivial, ⟨by decide, by decide, by decide⟩, trivial, trivial⟩

theorem twoPackets_sent : SendsInterleaved twoPackets twoUnits := ⟨by decide, by decide⟩

theorem interleaved_received_iff_two :
    Received 1 twoPackets twoUnits ↔ (twoUnits.flatMap Interleaved.pieces).length ≤ 1 :=
  interleaved_received_iff Nat.one_pos twoUnits_ok twoPackets_sent

/-- The first of two units in decoding order is delivered twice. -/
theorem twoUnits_not_received :
    ¬ ∀ (depth : Nat) (items : List Interleaved) (packets : List Packet), 0 < depth →
      Interleaved.AllOk none items → SendsInterleaved packets items →
      Displaced depth ((items.flatMap Interleaved.pieces).map fun piece => piece.1.1) →
      Received depth packets items := by
  intro h
  have hreceived := h 1 twoUnits twoPackets Nat.one_pos twoUnits_ok twoPackets_sent
    (by unfold Displaced; decide)
  exact absurd (pieces_le_of_received Nat.one_pos twoUnits_ok twoPackets_sent hreceived)
    (by decide)

end OpenCore.RtpPayload
