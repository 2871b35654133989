/-
  File:      OpenCore/RtpPayload/H264PayloadParser.lean
  Subject:   The H.264 payload parser of RFC 3984 (h264_payload_parser.cpp, its utilities and its
             interleaved mode), as the code computes it.

  A packet is the one fragment of the payload that is handed in; `none` stands for a read, a write
  or a dereference outside of what there is. `vParsedPayloads` is the list of the payloads a call
  has pushed.
-/
import OpenCore.OsclUtil.PriQueueRun

namespace OpenCore.RtpPayload

/-! ## 1. Payloads -/

inductive PayloadParserStatus where
  | Failure
  | Success
  | InputNotExhausted
  | MemorAllocFail
  | DataNotReady
  | EmptyQueue
  deriving DecidableEq

/-- A memory fragment: `len` bytes from `off` on of a payload with the bytes `data`. -/
structure MemFrag where
  data : List UInt8
  off : Nat
  len : Nat
  deriving DecidableEq

/-- The bytes of a fragment. -/
def MemFrag.bytes (f : MemFrag) : List UInt8 := (f.data.drop f.off).take f.len

/-- The fragment is within its payload. -/
def MemFrag.Inside (f : MemFrag) : Prop := f.off + f.len ≤ f.data.length

instance (f : MemFrag) : Decidable f.Inside := inferInstanceAs (Decidable (_ ≤ _))

/-- `IPayloadParser::Payload`, as far as the parser uses it. -/
structure Payload where
  timestamp : Nat
  sequence : Nat
  marker : Bool
  randAccessPt : Bool
  endOfNAL : Bool
  vfragments : List MemFrag
  deriving DecidableEq

/-- An input packet: the bytes of its fragment, which is at the address `ptr`. -/
structure Packet where
  ptr : Nat
  data : List UInt8
  timestamp : Nat
  sequence : Nat
  marker : Bool
  randAccessPt : Bool
  deriving DecidableEq

namespace Packet

/-- A byte of the fragment. -/
def read (packet : Packet) (i : Nat) : Option Nat := packet.data[i]?.map UInt8.toNat

/-- A byte is written to the fragment. -/
def write (packet : Packet) (i byte : Nat) : Option Packet :=
  if i < packet.data.length then
    some { packet with data := packet.data.set i (UInt8.ofNat byte) }
  else none

/-- The packet as a payload. -/
def raw (packet : Packet) : Payload where
  timestamp := packet.timestamp
  sequence := packet.sequence
  marker := packet.marker
  randAccessPt := packet.randAccessPt
  endOfNAL := false
  vfragments := [⟨packet.data, 0, packet.data.length⟩]

end Packet

/-! ## 2. NAL types -/

/-- `NAL_TYPE_BIT_MASK`. -/
def nalTypeOf (octet : Nat) : Nat := octet &&& 0x1f

/-- The utilities of `iUtilityTable`. -/
inductive Utility where
  | STAP
  | MTAP
  | FU
  | NALU
  deriving DecidableEq

/-- The utility `getInputSetup` takes from the table. -/
def utilityOf (nal_type : Nat) : Utility :=
  let index := ((nal_type : Int) - 24) >>> (1 : Nat)
  if index < 0 then .NALU else [.STAP, .MTAP, .FU].getD index.toNat .NALU

/-! ## 3. The interleaved mode -/

structure PVH264PayLoadOutputMediaData where
  data : Payload
  don : Nat
  fuType : Nat
  deriving DecidableEq

def don_diff (m_don n_don : Nat) : Int :=
  if m_don = n_don then 0
  else if m_don < n_don ∧ n_don - m_don < 32768 then (n_don : Int) - m_don
  else if m_don < n_don ∧ n_don - m_don ≥ 32768 then (n_don : Int) - m_don - 65536
  else if m_don > n_don ∧ m_don - n_don < 32768 then -((m_don : Int) - n_don)
  else 65536 - (m_don : Int) + n_don

def fuType_diff (m_fuType n_fuType : Nat) : Int :=
  let diff_fuType := ((n_fuType &&& 0x03 : Nat) : Int) - (m_fuType &&& 0x03 : Nat)
  if diff_fuType = 0 then ((n_fuType >>> 16 : Nat) : Int) - (m_fuType >>> 16 : Nat)
  else diff_fuType

/-- `PVH264PayLoadOutputMediaDataCompareLess::compare`. -/
def compareLess (a b : PVH264PayLoadOutputMediaData) : Bool :=
  let diffDon := don_diff a.don b.don
  decide ((if diffDon = 0 then fuType_diff a.fuType b.fuType else diffDon) < 0)

structure InterleaveModeProcessing where
  iNALUnitsCounter : Nat
  iDon : Nat
  iDonBase : Nat
  iTimestampOffset : Nat
  iPrevNALType : Nat
  iRtpPayloadPtr : Option Nat
  iOutputMediaDataQueue : List PVH264PayLoadOutputMediaData
  deriving DecidableEq

namespace InterleaveModeProcessing

/-- The constructor. -/
def created : InterleaveModeProcessing where
  iNALUnitsCounter := 0
  iDon := 0
  iDonBase := 0
  iTimestampOffset := 0
  iPrevNALType := 0
  iRtpPayloadPtr := none
  iOutputMediaDataQueue := []

def updateWhenQueuingData (imp : InterleaveModeProcessing) (fuType nal_type mask : Nat) :
    InterleaveModeProcessing :=
  { imp with
    iNALUnitsCounter :=
      if fuType = 0 ∨ fuType = 3 then (imp.iNALUnitsCounter + 1) % 2 ^ 32
      else imp.iNALUnitsCounter
    iPrevNALType :=
      if nal_type ≠ 28 then mask &&& 0x07 else ((imp.iPrevNALType >>> 2) <<< 2) ||| fuType }

def queue (imp : InterleaveModeProcessing) (aMediaData : Payload) (nal_type mask : Nat) :
    InterleaveModeProcessing :=
  let prev_fuType := imp.iPrevNALType &&& 0x03
  let fuType := mask &&& 0x03
  let fuCounter := if fuType = 2 then ((mask >>> 11) <<< 16) % 2 ^ 32 else 0
  let out_data : PVH264PayLoadOutputMediaData :=
    ⟨aMediaData, imp.iDon, fuCounter ||| (prev_fuType <<< 8) ||| fuType⟩
  updateWhenQueuingData
    { imp with
      iOutputMediaDataQueue :=
        OsclPriorityQueue.push compareLess imp.iOutputMediaDataQueue out_data }
    fuType nal_type mask

/-- `--iNALUnitsCounter`. -/
def countDown (counter : Nat) : Nat := (counter + (2 ^ 32 - 1)) % 2 ^ 32

/-- `updateWhenDequeuingData`: the counter. -/
def updateWhenDequeuingData (counter fuType : Nat) : Nat :=
  let prev_fuType := (fuType >>> 8) &&& 0x03
  let curr_fuType := fuType &&& 0x03
  if curr_fuType = 0 then
    if prev_fuType = 1 ∨ prev_fuType = 2 then countDown (countDown counter) else countDown counter
  else if curr_fuType = 3 then countDown counter
  else counter

def dequeue (imp : InterleaveModeProcessing) : Option (Payload × InterleaveModeProcessing) :=
  (OsclPriorityQueue.top imp.iOutputMediaDataQueue).map fun out_data =>
    (out_data.data, { imp with
      iOutputMediaDataQueue := OsclPriorityQueue.pop compareLess imp.iOutputMediaDataQueue
      iNALUnitsCounter := updateWhenDequeuingData imp.iNALUnitsCounter out_data.fuType })

end InterleaveModeProcessing

/-! ## 4. The parser and its utilities -/

structure H264PayloadParser where
  iInterleaveDepth : Nat
  iIMP : Option InterleaveModeProcessing
  iTimestampForFU : Nat
  iIsFragmentedBitMask : Nat
  deriving DecidableEq

/-- A message in the making: the packet, the offset in it and the payloads pushed so far. -/
structure Parsing where
  parser : H264PayloadParser
  packet : Packet
  rtp_payload_ptr_offset : Nat
  vParsedPayloads : List Payload
  deriving DecidableEq

namespace H264PayloadParser

/-- The parser behind an `Init` that succeeds. -/
def initialized (iInterleaveDepth : Nat) : H264PayloadParser where
  iInterleaveDepth := iInterleaveDepth
  iIMP := if iInterleaveDepth > 0 then some .created else none
  iTimestampForFU := 1
  iIsFragmentedBitMask := 0

def Init (packetizationMode interLeaveDepth : Nat) : Option H264PayloadParser :=
  if packetizationMode < 2 ∧ interLeaveDepth > 0 then none
  else some (initialized
    (if packetizationMode = 2 ∧ interLeaveDepth = 0 then 8 else interLeaveDepth))

def isInterleaveMode (p : H264PayloadParser) : Bool := p.iInterleaveDepth ≠ 0

/-- `setMarkerInfo` of the fragmentation units: `endOfNAL`, and the mask in the parser. -/
def setMarkerInfoFU (p : H264PayloadParser) (packet : Packet) (nal_type : Nat) :
    Option (Bool × H264PayloadParser) := do
  let header ← packet.read 1
  let fuType := if header &&& 0x80 ≠ 0 then 1 else if header &&& 0x40 ≠ 0 then 3 else 2
  let mask := fuType ||| ((if nal_type = 29 then 1 else 0) <<< 2) ||| (header <<< 3)
  let mask := if mask &&& 0x03 = 2 then
      mask ||| (((p.iIsFragmentedBitMask >>> 11) + 1) <<< 11) % 2 ^ 32
    else mask
  return (decide (fuType = 3), { p with iIsFragmentedBitMask := mask })

def setMarkerInfo (p : H264PayloadParser) (packet : Packet) (nal_type : Nat) :
    Option (Bool × H264PayloadParser) :=
  match utilityOf nal_type with
  | .FU => p.setMarkerInfoFU packet nal_type
  | _ => some (true, { p with iIsFragmentedBitMask := 0 })

def validateFU (packet : Packet) (nal_type : Nat) : Option Bool :=
  if nal_type = 29 then (packet.read 1).map fun header => decide (header &&& 0x80 ≠ 0)
  else some true

/-- The 16-bit DON of an FU-B. -/
def setDonFU (p : H264PayloadParser) (packet : Packet) (nal_type : Nat) :
    Option H264PayloadParser :=
  if nal_type = 29 then do
    let imp ← p.iIMP
    let don := ((← packet.read 2) <<< 8) ||| (← packet.read 3)
    return { p with iIMP := some { imp with iDon := don } }
  else some p

/-- The NAL unit type octet of a starting FU is written over the FU header. -/
def putNalUnitType (packet : Packet) (fu_type offset : Nat) : Option Packet :=
  if fu_type = 1 then do
    let indicator ← packet.read 0
    let header ← packet.read 1
    packet.write offset ((indicator &&& 0xe0) ||| (header &&& 0x1f))
  else some packet

/-- The offset of what an FU carries. -/
def offsetFU (fu_type nal_type : Nat) : Nat :=
  1 + (if fu_type ≠ 1 then 1 else 0) + ((if nal_type = 29 then 1 else 0) <<< 1)

/-- `getMemFragPtrLen` of the fragmentation units. -/
def getMemFragFU (w : Parsing) (nal_type : Nat) :
    Option (PayloadParserStatus × List MemFrag × Parsing) := do
  let valid ← validateFU w.packet nal_type
  if valid then
    let parser ← w.parser.setDonFU w.packet nal_type
    let fu_type := parser.iIsFragmentedBitMask &&& 0x03
    let offset := offsetFU fu_type nal_type
    let packet ← putNalUnitType w.packet fu_type offset
    let size := packet.data.length
    return (.Success, [⟨packet.data, offset, (size + (2 ^ 32 - offset)) % 2 ^ 32⟩],
      { w with parser, packet })
  else return (.Failure, [], w)

/-- The DONB of an MTAP, at its beginning. -/
def setDonBase (packet : Packet) (imp : InterleaveModeProcessing) (offset : Nat) :
    Option (InterleaveModeProcessing × Nat) :=
  if offset = 0 then do
    let donBase := ((← packet.read 1) <<< 8) ||| (← packet.read 2)
    return ({ imp with iDonBase := donBase }, 3)
  else some (imp, offset)

/-- The 16-bit or 24-bit timestamp offset, and its length. -/
def getTimestampOffset (packet : Packet) (nal_type offset : Nat) : Option (Nat × Nat) := do
  let ts := ((← packet.read offset) <<< 8) ||| (← packet.read (offset + 1))
  if nal_type = 27 then return ((ts <<< 8) ||| (← packet.read (offset + 2)), 3)
  else return (ts, 2)

/-- `getMemFragPtrLen` of the multi-time aggregation packets. -/
def getMemFragMTAP (w : Parsing) (nal_type : Nat) :
    Option (PayloadParserStatus × List MemFrag × Parsing) := do
  let memFragLen : Int := (w.packet.data.length : Int) - w.rtp_payload_ptr_offset
  if w.rtp_payload_ptr_offset = 0 ∧ memFragLen ≤ 7 then return (.Failure, [], w)
  else if memFragLen ≤ 5 then return (.DataNotReady, [], w)
  else
    let imp ← w.parser.iIMP
    let (imp, offset) ← setDonBase w.packet imp w.rtp_payload_ptr_offset
    let len := ((← w.packet.read offset) <<< 8) ||| (← w.packet.read (offset + 1))
    let don := (imp.iDonBase + (← w.packet.read (offset + 2))) % 65536
    let (ts, n) ← getTimestampOffset w.packet nal_type (offset + 3)
    let offset := offset + 3 + n
    return (.Success, [⟨w.packet.data, offset, len⟩], { w with
      parser.iIMP := some { imp with iDon := don, iTimestampOffset := ts }
      rtp_payload_ptr_offset := offset + len })

/-- The loop over the NAL units of a single-time aggregation packet. -/
def loopSTAP : Nat → Packet → Nat → Option (List MemFrag)
  | 0, _, _ => none
  | fuel + 1, packet, bytesParsed =>
    if bytesParsed + 2 < packet.data.length then do
      let nal_size := ((← packet.read bytesParsed) <<< 8) ||| (← packet.read (bytesParsed + 1))
      if nal_size = 0 then return []
      else
        let rest ← loopSTAP fuel packet (bytesParsed + 2 + nal_size)
        return ⟨packet.data, bytesParsed + 2, nal_size⟩ :: rest
    else some []

/-- The 16-bit DON of a STAP-B, and what is parsed then. -/
def setDonSTAP (p : H264PayloadParser) (packet : Packet) (nal_type : Nat) :
    Option (H264PayloadParser × Nat) :=
  if nal_type = 25 then do
    let imp ← p.iIMP
    let don := ((← packet.read 1) <<< 8) ||| (← packet.read 2)
    return ({ p with iIMP := some { imp with iDon := don } }, 3)
  else some (p, 1)

/-- `generateMemFrag` of the single-time aggregation packets. -/
def generateMemFragSTAP (w : Parsing) (nal_type : Nat) :
    Option (PayloadParserStatus × List MemFrag × Parsing) := do
  let (parser, bytesParsed) ← w.parser.setDonSTAP w.packet nal_type
  let frags ← loopSTAP (w.packet.data.length + 1) w.packet bytesParsed
  return (if frags = [] then .Failure else .Success, frags, { w with parser })

def generateMemFrag (w : Parsing) (nal_type : Nat) :
    Option (PayloadParserStatus × List MemFrag × Parsing) :=
  match utilityOf nal_type with
  | .STAP => generateMemFragSTAP w nal_type
  | .MTAP => getMemFragMTAP w nal_type
  | .FU => getMemFragFU w nal_type
  | .NALU => some (.Success, [⟨w.packet.data, 0, w.packet.data.length⟩], w)

/-- `setMediaDataTimestamp` of the fragmentation units. -/
def setMediaDataTimestampFU (p : H264PayloadParser) (rtp_timestamp : Nat) :
    Nat × H264PayloadParser :=
  let FUType := p.iIsFragmentedBitMask &&& 0x03
  let forFU := if FUType = 1 ∨ p.iTimestampForFU = 0 then rtp_timestamp else p.iTimestampForFU
  (if forFU > 1 then forFU else rtp_timestamp,
    { p with iTimestampForFU := if FUType = 3 then 0 else forFU })

def setMediaDataTimestamp (p : H264PayloadParser) (nal_type rtp_timestamp : Nat) :
    Option (Nat × H264PayloadParser) :=
  match utilityOf nal_type with
  | .FU => some (p.setMediaDataTimestampFU rtp_timestamp)
  | .MTAP => p.iIMP.map fun imp =>
    ((rtp_timestamp + imp.iTimestampOffset) % 2 ^ 32, { p with iTimestampForFU := 0 })
  | _ => some (rtp_timestamp, { p with iTimestampForFU := 0 })

/-- `getInputSetup`, as far as it changes the parser. -/
def setup (p : H264PayloadParser) (packet : Packet) : H264PayloadParser :=
  { p with iIMP := p.iIMP.map fun imp => { imp with iRtpPayloadPtr := some packet.ptr } }

def parseRTPPayload_For_SingleMessageOutput (w : Parsing) (nal_type : Nat) :
    Option (PayloadParserStatus × Parsing) :=
  if w.rtp_payload_ptr_offset > 0 ∧ w.rtp_payload_ptr_offset + 5 ≥ w.packet.data.length then
    some (.DataNotReady, w)
  else do
    let (endOfNAL, parser) ← (w.parser.setup w.packet).setMarkerInfo w.packet nal_type
    let (status, frags, w) ← generateMemFrag { w with parser } nal_type
    if status ≠ .Success then return (status, w)
    else
      let (timestamp, parser) ← w.parser.setMediaDataTimestamp nal_type w.packet.timestamp
      return (.Success, { w with
        parser
        vParsedPayloads := w.vParsedPayloads ++ [{
          timestamp, endOfNAL
          sequence := (w.packet.sequence + 1) % 2 ^ 32
          marker := w.packet.marker
          randAccessPt := w.packet.randAccessPt
          vfragments := frags }] })

def isCurrRTPPacketIgnored (imp : InterleaveModeProcessing) (packet : Packet) (nal_type : Nat) :
    Bool :=
  (nal_type == 28 && (imp.iPrevNALType >>> 2) &&& 0x01 == 0) ||
    imp.iRtpPayloadPtr == some packet.ptr

/-- The message that was parsed goes into the queue: it is the packet. -/
def queued (w : Parsing) (nal_type : Nat) : Option Parsing :=
  w.parser.iIMP.map fun imp =>
    { w with
      parser.iIMP := some (imp.queue w.packet.raw nal_type w.parser.iIsFragmentedBitMask) }

def isMTAPType (nal_type : Nat) : Bool := nal_type == 26 || nal_type == 27

/-- The loop of `parseRTPPayload_For_InterleavedMode`, with the status of an error. -/
def queueLoop : Nat → Parsing → Nat → Option (Option PayloadParserStatus × Parsing)
  | 0, _, _ => none
  | fuel + 1, w, nal_type => do
    let (ret_val, w) ← parseRTPPayload_For_SingleMessageOutput w nal_type
    if ret_val = .DataNotReady then return (none, w)
    else if ret_val ≠ .Success then return (some ret_val, w)
    else
      let w ← queued w nal_type
      if isMTAPType nal_type then queueLoop fuel w nal_type else return (none, w)

/-- The output of the queue, when it is ready. -/
def output (p : H264PayloadParser) :
    Option (PayloadParserStatus × H264PayloadParser × List Payload) := do
  let imp ← p.iIMP
  if imp.iNALUnitsCounter < p.iInterleaveDepth + 1 then return (.DataNotReady, p, [])
  else
    let (out, imp) ← imp.dequeue
    return (if imp.iNALUnitsCounter ≥ p.iInterleaveDepth + 1 then .InputNotExhausted
      else .Success, { p with iIMP := some imp }, [out])

/-- What comes behind the loop. -/
def finishInterleaved (r : Option PayloadParserStatus × Parsing) :
    Option (PayloadParserStatus × H264PayloadParser × List Payload) :=
  match r.1 with
  | some status => some (status, r.2.parser, r.2.vParsedPayloads)
  | none => r.2.parser.output.map fun o => (o.1, o.2.1, r.2.vParsedPayloads ++ o.2.2)

def parseRTPPayload_For_InterleavedMode (p : H264PayloadParser) (packet : Packet)
    (nal_type : Nat) : Option (PayloadParserStatus × H264PayloadParser × List Payload) :=
  if p.iIMP = none ∧ p.iInterleaveDepth = 0 then some (.MemorAllocFail, p, [])
  else do
    let imp := p.iIMP.getD .created
    let p := { p with iIMP := some imp }
    let r ← if isCurrRTPPacketIgnored imp packet nal_type then some (none, ⟨p, packet, 0, []⟩)
      else queueLoop (packet.data.length + 1) ⟨p, packet, 0, []⟩ nal_type
    finishInterleaved r

def parseRTPPayload_For_Non_InterleavedMode (p : H264PayloadParser) (packet : Packet)
    (nal_type : Nat) : Option (PayloadParserStatus × H264PayloadParser × List Payload) :=
  (parseRTPPayload_For_SingleMessageOutput ⟨p, packet, 0, []⟩ nal_type).map fun r =>
    (r.1, r.2.parser, r.2.vParsedPayloads)

def isRequiredTypeForInterleaveMode (p : H264PayloadParser) (nal_type : Nat) : Bool :=
  nal_type == 25 || nal_type == 26 || nal_type == 27 || nal_type == 29 ||
    (nal_type == 28 && p.isInterleaveMode)

def isExceptionTypeForInterleaveMode (nal_type : Nat) : Bool := nal_type == 7 || nal_type == 8

/-- `Parse` of a payload with a fragment. -/
def ParsePacket (p : H264PayloadParser) (packet : Packet) :
    Option (PayloadParserStatus × H264PayloadParser × List Payload) := do
  let nal_type := nalTypeOf (← packet.read 0)
  if p.isRequiredTypeForInterleaveMode nal_type then
    p.parseRTPPayload_For_InterleavedMode packet nal_type
  else if p.isInterleaveMode ∧ ¬ isExceptionTypeForInterleaveMode nal_type then
    return (.Failure, p, [])
  else p.parseRTPPayload_For_Non_InterleavedMode packet nal_type

/-- `flush`, and what `Parse` makes of it: a payload is pushed where the queue is not empty
    then. -/
def flush (p : H264PayloadParser) (imp : InterleaveModeProcessing) :
    Option (PayloadParserStatus × H264PayloadParser × List Payload) :=
  imp.dequeue.map fun r =>
    if r.2.iOutputMediaDataQueue = [] then (.EmptyQueue, { p with iIMP := some r.2 }, [])
    else (.Success, { p with iIMP := some r.2 }, [r.1])

/-- `Parse` of a payload without a fragment. -/
def ParseEmpty (p : H264PayloadParser) :
    Option (PayloadParserStatus × H264PayloadParser × List Payload) :=
  match p.iIMP with
  | none => some (.Failure, p, [])
  | some imp =>
    if imp.iOutputMediaDataQueue = [] then some (.Failure, p, [])
    else if p.isInterleaveMode then p.flush imp
    else none

end H264PayloadParser

end OpenCore.RtpPayload
