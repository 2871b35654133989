/-
  File:      OpenCore/Rtp/RtcpReports.lean
  Subject:   Receiver and sender reports, written by `RTCP_Encoder::EncodeRR` and `EncodeSR` and
             read by `RTCP_Decoder::DecodeRR` and `DecodeSR` (rtcp_encoder.cpp, rtcp_decoder.cpp).

  The report blocks are in a `GrownArray` with one block in the object. The memory of a new block
  is not initialised: everything here holds whatever is in it.

  **Main result**: `rr_survives`, `sr_survives`.
-/
import OpenCore.Lib.GrownArray
import OpenCore.Rtp.RtcpBye

namespace OpenCore.Rtp

open Lib OsclUtil
open UInt16 (ofNat toNat)
open List (append_assoc flatMap_cons length_append length_cons)

/-! ## 1. The packets -/

structure RTCP_ReportBlock where
  sourceSSRC : UInt32
  fractionLost : UInt8
  cumulativeNumberOfPacketsLost : Int32
  highestSequenceNumberReceived : UInt32
  interarrivalJitter : UInt32
  lastSR : UInt32
  delaySinceLastSR : UInt32
  deriving DecidableEq, Inhabited

structure RTCP_RR where
  senderSSRC : UInt32
  reports : GrownArray RTCP_ReportBlock

structure RTCP_SR where
  senderSSRC : UInt32
  NTP_timestamp_high : UInt32
  NTP_timestamp_low : UInt32
  RTP_timestamp : UInt32
  packet_count : UInt32
  octet_count : UInt32
  reports : GrownArray RTCP_ReportBlock

def RTCP_MAX_REPORT_BLOCKS : Nat := 31
def RTCP_REPORT_BLOCK_SIZE : Nat := 24
def RTCP_RR_SENDER_INFO_SIZE : Nat := 4
def RTCP_SR_SENDER_INFO_SIZE : Nat := 24

/-- The report blocks of a packet that was just constructed. -/
def NewReports (reports : GrownArray RTCP_ReportBlock) : Prop :=
  ∃ uninitialised, reports = GrownArray.new [uninitialised] RTCP_MAX_REPORT_BLOCKS

/-! ## 2. The encoder -/

/-- The word with the fraction and the cumulative number of lost packets. -/
def lostWord (report : RTCP_ReportBlock) : UInt32 :=
  let tempint32 : UInt32 :=
    if (0x7FFFFF : Int32) < report.cumulativeNumberOfPacketsLost then 0x7FFFFF
    else report.cumulativeNumberOfPacketsLost.toUInt32
  (tempint32 &&& (0x00FFFFFF : UInt32)) ||| report.fractionLost.toUInt32 <<< 24

def EncodeReportBlock : Option RTCP_ReportBlock → Encoder EncoderError Unit
  | none => throw .FAIL
  | some report => emitChecked .FAIL fun outStream =>
    (((((outStream.put32 report.sourceSSRC).put32 (lostWord report)).put32
      report.highestSequenceNumberReceived).put32 report.interarrivalJitter).put32
      report.lastSR).put32 report.delaySinceLastSR

/-- `EncodeRR` and `EncodeSR`, each with its packet type and its sender information: how it ends,
    and the stream over the output buffer. -/
def encodeReport (rtcpVersion packetType : UInt8) (info : List UInt32)
    (reports : GrownArray RTCP_ReportBlock) (size bufferLen : Nat) (padLength : UInt8) :
    Except EncoderError Unit × OsclBinOStream :=
  let outStream : OsclBinOStream := { length := bufferLen }
  let encoder : Encoder EncoderError Unit := do
    emitHeader rtcpVersion packetType (UInt8.ofNat reports.num) (ofNat size)
      (padLength ≠ 0)
    emitChecked .FAIL fun outStream => info.foldl OsclBinOStream.put32 outStream
    forM (List.range reports.num) fun ii => EncodeReportBlock (reports.read ii)
    emitPad padLength
  if size % 4 ≠ 0 then (.error .INVALID_PAD_LENGTH, outStream)
  else if bufferLen < size then (.error (.OUTPUT_TRUNCATED size), outStream)
  else encoder outStream

/-- `GetEncodedSize` of a receiver report. -/
def RTCP_RR.encodedSize (rr_packet : RTCP_RR) : Nat :=
  rr_packet.reports.num * RTCP_REPORT_BLOCK_SIZE + RTCP_HEADER_SIZE + RTCP_RR_SENDER_INFO_SIZE

/-- `GetEncodedSize` of a sender report. -/
def RTCP_SR.encodedSize (sr_packet : RTCP_SR) : Nat :=
  sr_packet.reports.num * RTCP_REPORT_BLOCK_SIZE + RTCP_HEADER_SIZE + RTCP_SR_SENDER_INFO_SIZE

def EncodeRR (rtcpVersion : UInt8) (rr_packet : RTCP_RR) (bufferLen : Nat) (padLength : UInt8) :
    Except EncoderError Unit × OsclBinOStream :=
  encodeReport rtcpVersion RR_PACKET_TYPE [rr_packet.senderSSRC] rr_packet.reports
    (rr_packet.encodedSize + padLength.toNat) bufferLen padLength

/-- The sender information, in the order in which it is written. -/
def RTCP_SR.info (sr_packet : RTCP_SR) : List UInt32 :=
  [sr_packet.senderSSRC, sr_packet.NTP_timestamp_high, sr_packet.NTP_timestamp_low,
    sr_packet.RTP_timestamp, sr_packet.packet_count, sr_packet.octet_count]

def EncodeSR (rtcpVersion : UInt8) (sr_packet : RTCP_SR) (bufferLen : Nat) (padLength : UInt8) :
    Except EncoderError Unit × OsclBinOStream :=
  encodeReport rtcpVersion SR_PACKET_TYPE sr_packet.info sr_packet.reports
    (sr_packet.encodedSize + padLength.toNat) bufferLen padLength

/-! ## 3. The decoder -/

/-- The cumulative number of lost packets in such a word: 24 bits, the sign extended. -/
def lostOf (tempint32 : UInt32) : Int32 :=
  let lost : Int32 := (tempint32 &&& 0x00FFFFFF).toInt32
  if lost.toUInt32 &&& 0x800000 ≠ 0 then (lost.toUInt32 ||| 0xFF000000).toInt32 else lost

def DecodeReportBlock (inStream : OsclBinIStream) :
    Except DecoderError (RTCP_ReportBlock × OsclBinIStream) :=
  let sourceSSRC := inStream.Read_uint32
  let tempint32 := sourceSSRC.2.Read_uint32
  let highest := tempint32.2.Read_uint32
  let jitter := highest.2.Read_uint32
  let lastSR := jitter.2.Read_uint32
  let delay := lastSR.2.Read_uint32
  if delay.2.fail then .error .FAIL
  else
    .ok (⟨sourceSSRC.1, (tempint32.1 >>> 24).toUInt8, lostOf tempint32.1, highest.1, jitter.1,
      lastSR.1, delay.1⟩, delay.2)

/-- The loop over the report blocks. Memory for more of them comes from `alloc`. -/
def decodeReportBlocks (alloc : (n : Nat) → Vector RTCP_ReportBlock n) :
    Nat → Nat → GrownArray RTCP_ReportBlock → OsclBinIStream →
      Except DecoderError (GrownArray RTCP_ReportBlock × OsclBinIStream)
  | 0, _, reports, inStream => .ok (reports, inStream)
  | count + 1, ii, reports, inStream =>
    match reports.get alloc ii with
    | none => .error .FAIL
    | some reports => do
      let r ← DecodeReportBlock inStream
      decodeReportBlocks alloc count (ii + 1) (reports.store ii r.1) r.2

/-- `DecodeRR`. Nothing is checked behind the sender's SSRC. -/
def DecodeRR (alloc : (n : Nat) → Vector RTCP_ReportBlock n) (rtcpVersion : UInt8)
    (inputPacket : List UInt8) (rr_packet : RTCP_RR) : Except DecoderError RTCP_RR := do
  let header ← decodeHeader rtcpVersion RR_PACKET_TYPE inputPacket
  let reportCount := header.recordCount.toNat
  if header.rtcpLength.toNat < reportCount * 6 + 1 then throw .RTCP_LENGTH_MISMATCH
  else
    let reports := rr_packet.reports.growDropping alloc reportCount
    let senderSSRC := header.inStream.Read_uint32
    let r ← decodeReportBlocks alloc reportCount 0 reports senderSSRC.2
    return ⟨senderSSRC.1, r.1⟩

def DecodeSR (alloc : (n : Nat) → Vector RTCP_ReportBlock n) (rtcpVersion : UInt8)
    (inputPacket : List UInt8) (sr_packet : RTCP_SR) : Except DecoderError RTCP_SR := do
  let header ← decodeHeader rtcpVersion SR_PACKET_TYPE inputPacket
  let reportCount := header.recordCount.toNat
  if header.rtcpLength.toNat < reportCount * 6 + 6 then throw .RTCP_LENGTH_MISMATCH
  else
    let senderSSRC := header.inStream.Read_uint32
    let high := senderSSRC.2.Read_uint32
    let low := high.2.Read_uint32
    let timestamp := low.2.Read_uint32
    let packets := timestamp.2.Read_uint32
    let octets := packets.2.Read_uint32
    if octets.2.fail then throw .FAIL
    else
      let reports := sr_packet.reports.growDropping alloc reportCount
      let r ← decodeReportBlocks alloc reportCount 0 reports octets.2
      return ⟨senderSSRC.1, high.1, low.1, timestamp.1, packets.1, octets.1, r.1⟩

/-! ## 4. What a packet should survive -/

/-- **A packet survives** being written and read: in a buffer of the computed size or more it is
    written with that many bytes, as many as its length field says, and they are decoded to the
    same packet; a smaller buffer is reported and not overrun. -/
structure Survives (encode : Nat → Except EncoderError Unit × OsclBinOStream) (size : Nat)
    (Decoded : List UInt8 → Prop) : Prop where
  written : ∀ bufferLen, size ≤ bufferLen → (encode bufferLen).1 = .ok () ∧
    (encode bufferLen).2.written.length = size ∧
    (lengthField (encode bufferLen).2.written + 1) * 4 = size ∧
    Decoded (encode bufferLen).2.written
  reported : ∀ bufferLen, bufferLen < size → (∃ e, (encode bufferLen).1 = .error e) ∧
    (encode bufferLen).2.tellg ≤ bufferLen

/-- The same SSRC and report blocks are decoded, in whatever new packet and memory. -/
def RTCP_RR.Decoded (rr_packet : RTCP_RR) (rtcpVersion : UInt8) (packet : List UInt8) : Prop :=
  ∀ alloc target, NewReports target.reports →
    ∃ d, DecodeRR alloc rtcpVersion packet target = .ok d ∧
      d.senderSSRC = rr_packet.senderSSRC ∧ d.reports.elems = rr_packet.reports.elems

def RTCP_SR.Decoded (sr_packet : RTCP_SR) (rtcpVersion : UInt8) (packet : List UInt8) : Prop :=
  ∀ alloc target, NewReports target.reports →
    ∃ d, DecodeSR alloc rtcpVersion packet target = .ok d ∧
      d.info = sr_packet.info ∧ d.reports.elems = sr_packet.reports.elems

/-- Up to 31 report blocks, with a cumulative loss of 24 bits. -/
structure ReportsInRange (reports : GrownArray RTCP_ReportBlock) : Prop where
  fits : reports.Fits
  num_le : reports.num ≤ 31
  lost : ∀ report ∈ reports.elems,
    -0x800000 ≤ report.cumulativeNumberOfPacketsLost.toInt ∧
      report.cumulativeNumberOfPacketsLost.toInt < 0x800000

/-! ## 5. The words of a report block -/

section Words

theorem lostWord_fraction (report : RTCP_ReportBlock) :
    (lostWord report >>> 24).toUInt8 = report.fractionLost := by
  unfold lostWord
  generalize (if (0x7FFFFF : Int32) < report.cumulativeNumberOfPacketsLost then (0x7FFFFF : UInt32)
    else report.cumulativeNumberOfPacketsLost.toUInt32) = tempint32
  refine UInt8.toBitVec_inj.mp (BitVec.eq_of_getLsbD_eq fun i hi => ?_)
  interval_cases i <;> simp

/-- 24 bits of a number whose other bits are all like its sign. -/
theorem lostOf_signExtended {w : UInt32} (h : w.toNat < 0x800000 ∨ 0xFF800000 ≤ w.toNat) :
    lostOf w = w.toInt32 := by
  have hmod : (w &&& 0x00FFFFFF).toNat = w.toNat % 0x1000000 := by
    rw [UInt32.toNat_and]
    exact Nat.and_two_pow_sub_one_eq_mod w.toNat 24
  have hsign : ((w &&& 0x00FFFFFF) &&& 0x800000).toNat =
      ((w.toNat % 0x1000000).testBit 23).toNat * 0x800000 := by
    rw [UInt32.toNat_and, hmod]
    exact Nat.and_two_pow _ 23
  have hlt := w.toNat_lt
  unfold lostOf
  dsimp only
  rw [UInt32.toUInt32_toInt32]
  rcases h with h | h
  · rw [if_neg]
    · congr 1
      refine UInt32.toNat_inj.mp ?_
      rw [hmod]
      omega
    · rw [not_not]
      refine UInt32.toNat_inj.mp ?_
      rw [hsign, Nat.testBit_eq_false_of_lt (by omega)]
      rfl
  · rw [if_pos]
    · congr 1
      refine UInt32.toNat_inj.mp ?_
      rw [UInt32.toNat_or, hmod, Nat.or_comm]
      have hadd := Nat.shiftLeft_add_eq_or_of_lt (show w.toNat % 0x1000000 < 2 ^ 24 by omega) 255
      refine hadd.symm.trans ?_
      rw [Nat.shiftLeft_eq]
      omega
    · intro h0
      have h0 := congrArg UInt32.toNat h0
      rw [hsign, Nat.testBit_eq_decide_div_mod_eq, decide_eq_true (by omega)] at h0
      cases h0

/-- **The cumulative loss** comes back with its sign. -/
theorem lostOf_lostWord {report : RTCP_ReportBlock}
    (hlo : -0x800000 ≤ report.cumulativeNumberOfPacketsLost.toInt)
    (hhi : report.cumulativeNumberOfPacketsLost.toInt < 0x800000) :
    lostOf (lostWord report) = report.cumulativeNumberOfPacketsLost := by
  generalize hc : report.cumulativeNumberOfPacketsLost = c at hlo hhi
  have hle : c ≤ 0x7FFFFF := by
    rw [Int32.le_iff_toInt_le]
    change c.toInt ≤ 8388607
    omega
  have hbits : c.toInt = if 2 * c.toUInt32.toNat < 4294967296 then (c.toUInt32.toNat : Int)
      else c.toUInt32.toNat - 4294967296 := BitVec.toInt_eq_toNat_cond c.toBitVec
  have hmask : lostWord report &&& 0x00FFFFFF = c.toUInt32 &&& 0x00FFFFFF := by
    unfold lostWord
    rw [hc, if_neg (Int32.not_lt.mpr hle)]
    refine UInt32.toBitVec_inj.mp (BitVec.eq_of_getLsbD_eq fun i hi => ?_)
    interval_cases i <;> simp
  have hsame : lostOf (lostWord report) = lostOf c.toUInt32 := by
    unfold lostOf
    rw [hmask]
  have hlt := c.toUInt32.toNat_lt
  rw [hsame, lostOf_signExtended (by split at hbits <;> omega), Int32.toInt32_toUInt32]

end Words

/-! ## 6. The bytes of a report -/

def blockBytes (report : RTCP_ReportBlock) : List UInt8 :=
  longBytes report.sourceSSRC ++ longBytes (lostWord report) ++
    longBytes report.highestSequenceNumberReceived ++ longBytes report.interarrivalJitter ++
    longBytes report.lastSR ++ longBytes report.delaySinceLastSR

/-- The bytes behind the header. -/
def reportBody (info : List UInt32) (blocks : List RTCP_ReportBlock) (padLength : UInt8) :
    List UInt8 :=
  info.flatMap longBytes ++ (blocks.flatMap blockBytes ++ padBytes padLength)

/-- A whole packet. -/
def reportPacket (rtcpVersion packetType : UInt8) (info : List UInt32)
    (blocks : List RTCP_ReportBlock) (padLength : UInt8) : List UInt8 :=
  headerBytes rtcpVersion packetType (UInt8.ofNat blocks.length)
    (ofNat (4 + (reportBody info blocks padLength).length)) (padLength ≠ 0) ++
    reportBody info blocks padLength

section Emitted

variable {rtcpVersion packetType padLength : UInt8} {info : List UInt32} {size bufferLen : Nat}
  {reports : GrownArray RTCP_ReportBlock}

theorem emits_block (report : RTCP_ReportBlock) :
    Emits .FAIL (EncodeReportBlock (some report)) (blockBytes report) :=
  emits_emitChecked ((((((writes_put32 report.sourceSSRC).comp
    (writes_put32 (lostWord report))).comp
    (writes_put32 report.highestSequenceNumberReceived)).comp
    (writes_put32 report.interarrivalJitter)).comp (writes_put32 report.lastSR)).comp
    (writes_put32 report.delaySinceLastSR))

/-- The loop over the report blocks finds each of them. -/
theorem emits_blocks (hfits : reports.Fits) :
    Emits .FAIL (forM (List.range reports.num) fun ii => EncodeReportBlock (reports.read ii))
      (reports.elems.flatMap blockBytes) := by
  rw [hfits.forM_read EncodeReportBlock]
  exact Emits.forM fun report _ => emits_block report

theorem length_flatMap_words (info : List UInt32) :
    (info.flatMap longBytes).length = 4 * info.length := by
  induction info with
  | nil => rfl
  | cons w info ih =>
    rw [flatMap_cons, length_append, ih, length_cons, Nat.mul_succ]
    exact Nat.add_comm _ _

theorem length_flatMap_blocks (blocks : List RTCP_ReportBlock) :
    (blocks.flatMap blockBytes).length = 24 * blocks.length := by
  induction blocks with
  | nil => rfl
  | cons b blocks ih =>
    rw [flatMap_cons, length_append, ih, length_cons, Nat.mul_succ]
    exact Nat.add_comm _ _

theorem length_headerBytes {countField : UInt8} {size : UInt16} {padBit : Bool} :
    (headerBytes rtcpVersion packetType countField size padBit).length = 4 := rfl

/-- The length field is the one the size gave. -/
theorem lengthField_headerBytes {countField : UInt8} {size : UInt16} {padBit : Bool}
    (rest : List UInt8) :
    lengthField (headerBytes rtcpVersion packetType countField size padBit ++ rest) =
      (size / 4 - 1).toNat :=
  congrArg toNat (shortOf_shortBytes (size / 4 - 1))

theorem length_reportBody (info : List UInt32) (blocks : List RTCP_ReportBlock) :
    (reportBody info blocks padLength).length =
      4 * info.length + 24 * blocks.length + padLength.toNat := by
  unfold reportBody
  rw [length_append, length_append, length_flatMap_words, length_flatMap_blocks,
    length_padBytes, Nat.add_assoc]

/-- The length field of a packet of fewer than 65536 bytes. -/
theorem sizeField_toNat (hpos : 4 ≤ size) (hlt : size < 65536) :
    (ofNat size / 4 - 1).toNat = size / 4 - 1 := by
  have hdiv : (ofNat size / 4).toNat = size / 4 := by
    rw [UInt16.toNat_div, UInt16.toNat_ofNat_of_lt' hlt]
    rfl
  have hone : (1 : UInt16) ≤ ofNat size / 4 := by
    rw [UInt16.le_iff_toNat_le, hdiv]
    change 1 ≤ size / 4
    omega
  rw [UInt16.toNat_sub_of_le _ _ hone, hdiv]
  rfl

/-- **What is written** for a report: all of it, or the size that is needed is told. -/
theorem encodeReport_written (hfits : reports.Fits) (hmul : size % 4 = 0)
    (hsize : size = 4 + (reportBody info reports.elems padLength).length) :
    (size ≤ bufferLen →
      (encodeReport rtcpVersion packetType info reports size bufferLen padLength).1 = .ok () ∧
      (encodeReport rtcpVersion packetType info reports size bufferLen padLength).2.written =
        reportPacket rtcpVersion packetType info reports.elems padLength) ∧
    (bufferLen < size →
      encodeReport rtcpVersion packetType info reports size bufferLen padLength =
        (.error (.OUTPUT_TRUNCATED size), { length := bufferLen })) := by
  have hinfo : Writes (fun s => info.foldl OsclBinOStream.put32 s) (info.flatMap longBytes) := by
    clear hsize
    induction info with
    | nil => exact writes_id
    | cons w info ih =>
      rw [flatMap_cons]
      exact (writes_put32 w).comp ih
  have hemits := (@emits_header rtcpVersion packetType (UInt8.ofNat reports.num) (ofNat size)
    (decide (padLength ≠ 0))).bind ((emits_emitChecked hinfo).bind
    ((emits_blocks hfits).bind (@emits_pad padLength)))
  unfold encodeReport
  dsimp only
  rw [if_neg (not_not.mpr hmul)]
  constructor
  · intro hroom
    rw [if_neg (Nat.not_lt.mpr hroom)]
    obtain ⟨hok, -, hw, -⟩ := hemits.fits { length := bufferLen } rfl
      (by rw [length_append, length_headerBytes]
          change 0 + (4 + (reportBody info reports.elems padLength).length) ≤ bufferLen
          omega)
    refine ⟨hok, hw.trans ?_⟩
    unfold reportPacket
    rw [← hsize, hfits.length_elems]
    rfl
  · intro hlt
    rw [if_pos hlt]

end Emitted

/-! ## 7. A report read back -/

section Read

variable {inStream : OsclBinIStream} {rest : List UInt8} {report : RTCP_ReportBlock}
  {alloc : (n : Nat) → Vector RTCP_ReportBlock n}

theorem decodeReportBlock_bytes (h : At inStream (blockBytes report ++ rest))
    (hlo : -0x800000 ≤ report.cumulativeNumberOfPacketsLost.toInt)
    (hhi : report.cumulativeNumberOfPacketsLost.toInt < 0x800000) :
    ∃ s, DecodeReportBlock inStream = .ok (report, s) ∧ At s rest := by
  simp only [blockBytes, append_assoc] at h
  obtain ⟨s₁, h₁, hat₁, -, -⟩ := h.readLong
  obtain ⟨s₂, h₂, hat₂, -, -⟩ := hat₁.readLong
  obtain ⟨s₃, h₃, hat₃, -, -⟩ := hat₂.readLong
  obtain ⟨s₄, h₄, hat₄, -, -⟩ := hat₃.readLong
  obtain ⟨s₅, h₅, hat₅, -, -⟩ := hat₄.readLong
  obtain ⟨s₆, h₆, hat₆, -, -⟩ := hat₅.readLong
  refine ⟨s₆, ?_, hat₆⟩
  unfold DecodeReportBlock
  dsimp only
  rw [h₁, h₂, h₃, h₄, h₅, h₆]
  dsimp only
  rw [if_neg (by rw [hat₆.sound]; exact Bool.false_ne_true), lostWord_fraction,
    lostOf_lostWord hlo hhi]

variable (alloc) in
/-- **All the report blocks** are read behind those that were read before. -/
theorem decodeReportBlocks_bytes {blocks : List RTCP_ReportBlock}
    (hrange : ∀ report ∈ blocks, -0x800000 ≤ report.cumulativeNumberOfPacketsLost.toInt ∧
      report.cumulativeNumberOfPacketsLost.toInt < 0x800000)
    {reports : GrownArray RTCP_ReportBlock} {inStream : OsclBinIStream} (hfits : reports.Fits)
    (hroom : reports.num + blocks.length ≤ reports.max)
    (hat : At inStream (blocks.flatMap blockBytes ++ rest)) :
    ∃ reports' s, decodeReportBlocks alloc blocks.length reports.num reports inStream =
      .ok (reports', s) ∧ reports'.elems = reports.elems ++ blocks := by
  induction blocks generalizing reports inStream with
  | nil => exact ⟨reports, inStream, rfl, (List.append_nil _).symm⟩
  | cons report blocks ih =>
    rw [length_cons] at hroom
    rw [flatMap_cons, append_assoc] at hat
    obtain ⟨hlo, hhi⟩ := hrange report List.mem_cons_self
    obtain ⟨s, hblock, hat'⟩ := decodeReportBlock_bytes hat hlo hhi
    obtain ⟨reports', y, hget, -, hmore, -⟩ := hfits.get_next alloc (by omega)
    have hmore := hmore report
    obtain ⟨reports'', s', hloop, helems⟩ := ih
      (fun r hr => hrange r (List.mem_cons_of_mem _ hr)) hmore.fits
      (by rw [hmore.num_eq, hmore.max_eq]; omega) hat'
    refine ⟨reports'', s', ?_, by rw [helems, hmore.elems_eq, append_assoc]; rfl⟩
    rw [length_cons, decodeReportBlocks, hget, hblock]
    rw [hmore.num_eq] at hloop
    exact hloop

theorem recordCount_toNat {n : Nat} (h : n ≤ 31) :
    (UInt8.ofNat n &&& RECORD_COUNT_MASK).toNat = n := by
  have hlt : n < UInt8.size := Nat.lt_of_le_of_lt h (by decide)
  rw [UInt8.toNat_and, UInt8.toNat_ofNat_of_lt' hlt]
  exact (Nat.and_two_pow_sub_one_eq_mod n 5).trans (Nat.mod_eq_of_lt (by omega))

/-- **The header of a written report**: its count, and a length that covers the blocks. -/
theorem decodeHeader_reportPacket (rtcpVersion packetType padLength : UInt8)
    {info : List UInt32} {blocks : List RTCP_ReportBlock} (hinfo : info.length ≤ 6)
    (hblocks : blocks.length ≤ 31) :
    ∃ header : Header, At header.inStream (reportBody info blocks padLength) ∧
      header.recordCount.toNat = blocks.length ∧
      info.length + 6 * blocks.length ≤ header.rtcpLength.toNat ∧
      decodeHeader rtcpVersion packetType
          (reportPacket rtcpVersion packetType info blocks padLength) =
        if rtcpVersion < 4 then .ok header else .error .UNSUPPORTED_RTCP_VERSION := by
  have hpad := padLength.toNat_lt
  have hlength := @length_reportBody padLength info blocks
  obtain ⟨s, hat, -, -, hheader⟩ := @decodeHeader_headerBytes rtcpVersion packetType
    (UInt8.ofNat blocks.length) (ofNat (4 + (reportBody info blocks padLength).length))
    (decide (padLength ≠ 0)) (reportBody info blocks padLength)
  refine ⟨_, hat, recordCount_toNat hblocks, ?_, hheader⟩
  dsimp only
  rw [sizeField_toNat (by omega) (by omega)]
  omega

end Read

/-! ## 8. The reports survive -/

section Survive

variable {rtcpVersion packetType padLength : UInt8} {rr_packet : RTCP_RR} {sr_packet : RTCP_SR}
  {alloc : (n : Nat) → Vector RTCP_ReportBlock n}

variable {reports : GrownArray RTCP_ReportBlock}

/-- A report survives where what is written for it is decoded. -/
theorem report_survives (info : List UInt32) {size : Nat}
    {Decoded : List UInt8 → Prop} (hr : ReportsInRange reports) (hinfo : info.length ≤ 6)
    (hpad : padLength.toNat % 4 = 0)
    (hsize : size = 4 + 4 * info.length + 24 * reports.num + padLength.toNat) :
    Survives (fun bufferLen =>
        encodeReport rtcpVersion packetType info reports size bufferLen padLength) size Decoded ↔
      Decoded (reportPacket rtcpVersion packetType info reports.elems padLength) := by
  have hnum := hr.num_le
  have hlt := padLength.toNat_lt
  have hlength := @length_reportBody padLength info reports.elems
  rw [hr.fits.length_elems] at hlength
  have hbody : size = 4 + (reportBody info reports.elems padLength).length := by omega
  have hpacket : (reportPacket rtcpVersion packetType info reports.elems padLength).length =
      size := by
    rw [reportPacket, length_append, length_headerBytes, hbody]
  have hfield : (lengthField (reportPacket rtcpVersion packetType info reports.elems padLength) +
      1) * 4 = size := by
    rw [reportPacket, lengthField_headerBytes, ← hbody, sizeField_toNat (by omega) (by omega)]
    omega
  constructor
  · intro h
    obtain ⟨-, -, -, hdecoded⟩ := h.written size (Nat.le_refl _)
    obtain ⟨-, hw⟩ := (encodeReport_written hr.fits (by omega) hbody).1 (Nat.le_refl size)
    rwa [hw] at hdecoded
  · intro hdecoded
    refine ⟨fun bufferLen hroom => ?_, fun bufferLen hfull => ?_⟩
    · obtain ⟨hok, hw⟩ := (encodeReport_written hr.fits (by omega) hbody).1 hroom
      rw [hw]
      exact ⟨hok, hpacket, hfield, hdecoded⟩
    · rw [(encodeReport_written hr.fits (by omega) hbody).2 hfull]
      exact ⟨⟨_, rfl⟩, Nat.zero_le _⟩

variable (alloc) in
theorem newReports_ready (h : NewReports reports)
    {count : Nat} (hcount : count ≤ 31) : (reports.growDropping alloc count).Ready count := by
  obtain ⟨uninitialised, rfl⟩ := h
  exact GrownArray.ready_growDropping hcount

/-- **A written receiver report**, decoded. -/
theorem decodeRR_reportPacket (hr : ReportsInRange rr_packet.reports) {target : RTCP_RR}
    (htarget : NewReports target.reports) :
    ∃ d, DecodeRR alloc rtcpVersion (reportPacket rtcpVersion RR_PACKET_TYPE
          [rr_packet.senderSSRC] rr_packet.reports.elems padLength) target =
        (if rtcpVersion < 4 then .ok d else .error .UNSUPPORTED_RTCP_VERSION) ∧
      d.senderSSRC = rr_packet.senderSSRC ∧ d.reports.elems = rr_packet.reports.elems := by
  have hlen := hr.fits.length_elems.trans_le hr.num_le
  obtain ⟨header, hat, hcount, hlength, hheader⟩ := decodeHeader_reportPacket rtcpVersion
    RR_PACKET_TYPE padLength
    (show [rr_packet.senderSSRC].length ≤ 6 from Nat.le_add_left 1 5) hlen
  have hready := newReports_ready alloc htarget hlen
  rw [reportBody, List.flatMap_singleton] at hat
  obtain ⟨s₁, h₁, hat₁, -, -⟩ := hat.readLong
  obtain ⟨reports', s, hloop, helems⟩ := decodeReportBlocks_bytes alloc hr.lost
    hready.fits hready.room hat₁
  rw [hready.num_eq] at hloop
  refine ⟨⟨rr_packet.senderSSRC, reports'⟩, ?_, rfl, by rw [helems, hready.elems_eq]; rfl⟩
  unfold DecodeRR
  rw [hheader]
  split
  · dsimp only [bind, Except.bind]
    rw [hcount, if_neg (by rw [List.length_singleton] at hlength; omega), h₁]
    dsimp only
    rw [hloop]
    rfl
  · rfl

/-- **A written sender report**, decoded. -/
theorem decodeSR_reportPacket (hr : ReportsInRange sr_packet.reports) {target : RTCP_SR}
    (htarget : NewReports target.reports) :
    ∃ d, DecodeSR alloc rtcpVersion (reportPacket rtcpVersion SR_PACKET_TYPE sr_packet.info
          sr_packet.reports.elems padLength) target =
        (if rtcpVersion < 4 then .ok d else .error .UNSUPPORTED_RTCP_VERSION) ∧
      d.info = sr_packet.info ∧ d.reports.elems = sr_packet.reports.elems := by
  have hlen := hr.fits.length_elems.trans_le hr.num_le
  obtain ⟨header, hat, hcount, hlength, hheader⟩ := decodeHeader_reportPacket rtcpVersion
    SR_PACKET_TYPE padLength (show sr_packet.info.length ≤ 6 from Nat.le_refl 6) hlen
  have hready := newReports_ready alloc htarget hlen
  simp only [reportBody, RTCP_SR.info, flatMap_cons, List.flatMap_nil, List.append_nil,
    append_assoc] at hat
  obtain ⟨s₁, h₁, hat₁, -, -⟩ := hat.readLong
  obtain ⟨s₂, h₂, hat₂, -, -⟩ := hat₁.readLong
  obtain ⟨s₃, h₃, hat₃, -, -⟩ := hat₂.readLong
  obtain ⟨s₄, h₄, hat₄, -, -⟩ := hat₃.readLong
  obtain ⟨s₅, h₅, hat₅, -, -⟩ := hat₄.readLong
  obtain ⟨s₆, h₆, hat₆, -, -⟩ := hat₅.readLong
  obtain ⟨reports', s, hloop, helems⟩ := decodeReportBlocks_bytes alloc hr.lost
    hready.fits hready.room hat₆
  rw [hready.num_eq] at hloop
  refine ⟨{ sr_packet with reports := reports' }, ?_, rfl, by rw [helems, hready.elems_eq]; rfl⟩
  unfold DecodeSR
  rw [hheader]
  split
  · dsimp only [bind, Except.bind]
    change 6 + 6 * _ ≤ _ at hlength
    rw [hcount, if_neg (by omega), h₁]
    dsimp only
    rw [h₂]
    dsimp only
    rw [h₃]
    dsimp only
    rw [h₄]
    dsimp only
    rw [h₅]
    dsimp only
    rw [h₆]
    dsimp only
    rw [if_neg (by rw [hat₆.sound]; exact Bool.false_ne_true), hloop]
    rfl
  · rfl

/-- A packet comes back in every new packet and memory, or in none. -/
theorem decoded_iff {σ : Type} {reports : σ → GrownArray RTCP_ReportBlock} {P : σ → Prop}
    {decode : ((n : Nat) → Vector RTCP_ReportBlock n) → σ → Except DecoderError σ} (target₀ : σ)
    (htarget₀ : NewReports (reports target₀))
    (h : ∀ alloc target, NewReports (reports target) → ∃ d, decode alloc target =
      (if rtcpVersion < 4 then .ok d else .error .UNSUPPORTED_RTCP_VERSION) ∧ P d) :
    (∀ alloc target, NewReports (reports target) → ∃ d, decode alloc target = .ok d ∧ P d) ↔
      rtcpVersion < 4 := by
  refine ⟨fun hdecoded => ?_, fun hv alloc target htarget => ?_⟩
  · by_contra hv
    obtain ⟨d, hdecode, -⟩ := hdecoded (fun n => Vector.replicate n default) target₀ htarget₀
    obtain ⟨d', hdecode', -⟩ := h (fun n => Vector.replicate n default) target₀ htarget₀
    rw [if_neg hv, hdecode] at hdecode'
    cases hdecode'
  · obtain ⟨d, hdecode, hsame⟩ := h alloc target htarget
    rw [if_pos hv] at hdecode
    exact ⟨d, hdecode, hsame⟩

/-- **Receiver reports** survive where the version has two bits. -/
theorem rr_survives (hr : ReportsInRange rr_packet.reports) (hpad : padLength.toNat % 4 = 0) :
    Survives (fun bufferLen => EncodeRR rtcpVersion rr_packet bufferLen padLength)
        (rr_packet.encodedSize + padLength.toNat) (rr_packet.Decoded rtcpVersion) ↔
      rtcpVersion < 4 := by
  refine (report_survives [rr_packet.senderSSRC] hr (Nat.le_add_left 1 5) hpad ?_).trans
    (decoded_iff ⟨0, GrownArray.new [default] RTCP_MAX_REPORT_BLOCKS⟩ ⟨_, rfl⟩
      fun alloc target htarget => decodeRR_reportPacket hr htarget)
  change rr_packet.reports.num * 24 + 4 + 4 + _ = 4 + 4 * 1 + 24 * rr_packet.reports.num + _
  omega

/-- **Sender reports** survive there too. -/
theorem sr_survives (hr : ReportsInRange sr_packet.reports) (hpad : padLength.toNat % 4 = 0) :
    Survives (fun bufferLen => EncodeSR rtcpVersion sr_packet bufferLen padLength)
        (sr_packet.encodedSize + padLength.toNat) (sr_packet.Decoded rtcpVersion) ↔
      rtcpVersion < 4 := by
  refine (report_survives sr_packet.info hr (Nat.le_refl 6) hpad ?_).trans
    (decoded_iff ⟨0, 0, 0, 0, 0, 0, GrownArray.new [default] RTCP_MAX_REPORT_BLOCKS⟩ ⟨_, rfl⟩
      fun alloc target htarget => decodeSR_reportPacket hr htarget)
  change sr_packet.reports.num * 24 + 4 + 24 + _ = 4 + 4 * 6 + 24 * sr_packet.reports.num + _
  omega

end Survive

end OpenCore.Rtp
