/-
  File:      OpenCore/Rtp/RtcpPacket.lean
  Subject:   What all RTCP packets have in common: header, padding and the scan of a compound
             packet (rtcp_encoder.cpp, rtcp_decoder.cpp).
-/
import OpenCore.OsclUtil.BinStreamOutput

namespace OpenCore.Rtp

open OsclUtil

/-! ## 1. Constants -/

def SR_PACKET_TYPE : UInt8 := 200
def RR_PACKET_TYPE : UInt8 := 201
def SDES_PACKET_TYPE : UInt8 := 202
def BYE_PACKET_TYPE : UInt8 := 203
def APP_PACKET_TYPE : UInt8 := 204
def RECORD_COUNT_MASK : UInt8 := 0x1F
def RTCP_PAD_BIT_MASK : UInt8 := 0x20
def RTCP_HEADER_SIZE : Nat := 4
def RTPRTCP_VERSION_BIT_POSITION : UInt8 := 6

/-- `RTCP_Encoder::Error_t` without success; a truncated packet tells the size it needs. -/
inductive EncoderError where
  | FAIL
  | OUTPUT_TRUNCATED (size : Nat)
  | INVALID_PAD_LENGTH
  deriving DecidableEq

/-- `RTCP_Decoder::Error_t` without success. -/
inductive DecoderError where
  | FAIL
  | UNSUPPORTED_RTCP_VERSION
  | RTCP_PACKET_TYPE_MISMATCH
  | RTCP_LENGTH_MISMATCH
  | EOS_ON_READ
  deriving DecidableEq

/-! ## 2. The encoder -/

/-- `if (outStream.fail()) return FAIL`. -/
def checkOut (outStream : OsclBinOStream) : Except EncoderError OsclBinOStream :=
  if outStream.fail then .error .FAIL else .ok outStream

/-- Version, pad bit and count in the first byte of a header. -/
def headerChar (rtcpVersion countField : UInt8) (padBit : Bool) : UInt8 :=
  let tempChar := rtcpVersion <<< RTPRTCP_VERSION_BIT_POSITION
  let tempChar := if padBit then tempChar ||| RTCP_PAD_BIT_MASK else tempChar
  tempChar ||| (countField &&& RECORD_COUNT_MASK)

/-- `output_rtcp_header`; the size goes out in 32 bit words, less one. -/
def outputRtcpHeader (rtcpVersion packetType countField : UInt8) (size : UInt16)
    (outStream : OsclBinOStream) (padBit : Bool) : Except EncoderError OsclBinOStream :=
  checkOut (((outStream.put8 (headerChar rtcpVersion countField padBit)).put8 packetType).put16
    (size / 4 - 1))

/-- The pad bytes at the end; the last one tells how many they are. -/
def outputPad (outStream : OsclBinOStream) (padLength : UInt8) :
    Except EncoderError OsclBinOStream :=
  if padLength ≠ 0 then
    checkOut (((List.replicate (padLength.toNat - 1) (0 : UInt8)).foldl OsclBinOStream.put8
      outStream).put8 padLength)
  else .ok outStream

/-! ## 3. The decoder -/

/-- What the decoders read first. -/
structure Header where
  recordCount : UInt8
  payloadType : UInt8
  rtcpLength : UInt16
  inStream : OsclBinIStream

/-- The beginning of `DecodeRR`, `DecodeSR`, `DecodeSDES` and `DecodeBYE`, each with its type. -/
def decodeHeader (rtcpVersion packetType : UInt8) (inputPacket : List UInt8) :
    Except DecoderError Header :=
  if inputPacket.length = 0 then .error .FAIL
  else
    let tempChar := OsclBinIStream.Read_uint8 { block := inputPacket }
    if tempChar.2.eof ∨ tempChar.2.fail then .error .FAIL
    else if tempChar.1 >>> RTPRTCP_VERSION_BIT_POSITION ≠ rtcpVersion then
      .error .UNSUPPORTED_RTCP_VERSION
    else
      let payloadType := tempChar.2.Read_uint8
      let rtcpLength := payloadType.2.Read_uint16
      if rtcpLength.2.fail then .error .FAIL
      else if payloadType.1 ≠ packetType then .error .RTCP_PACKET_TYPE_MISMATCH
      else .ok ⟨tempChar.1 &&& RECORD_COUNT_MASK, payloadType.1, rtcpLength.1, rtcpLength.2⟩

/-! ## 4. The scan of a compound packet -/

inductive RTCPPacketType where
  | SR_RTCP_PACKET
  | RR_RTCP_PACKET
  | SDES_RTCP_PACKET
  | PVSS_APP_RTCP_PACKET
  | APP_RTCP_PACKET
  | BYE_RTCP_PACKET
  | UNKNOWN_RTCP_PACKET
  deriving DecidableEq

/-- An entry of `array_of_packet_types` and `array_of_packets`: where the packet begins in the
    input, and its length. -/
structure ScannedPacket where
  type : RTCPPacketType
  ptr : Nat
  len : Nat
  deriving DecidableEq

def PVSS_APP_RTCP_NAME : List UInt8 := [0x50, 0x56, 0x53, 0x53]

/-- The packet type; nothing where the comparison of an APP packet's name leaves the input. -/
def scanType (inputPacket : List UInt8) (payloadType : UInt8) (ptr : Nat) :
    Option RTCPPacketType :=
  if payloadType = SR_PACKET_TYPE then some .SR_RTCP_PACKET
  else if payloadType = RR_PACKET_TYPE then some .RR_RTCP_PACKET
  else if payloadType = SDES_PACKET_TYPE then some .SDES_RTCP_PACKET
  else if payloadType = BYE_PACKET_TYPE then some .BYE_RTCP_PACKET
  else if payloadType = APP_PACKET_TYPE then
    if inputPacket.length < ptr + 12 then none
    else if (inputPacket.drop (ptr + 8)).take 4 = PVSS_APP_RTCP_NAME then
      some .PVSS_APP_RTCP_PACKET
    else some .APP_RTCP_PACKET
  else some .UNKNOWN_RTCP_PACKET

/-- The loop of `scan_compound_packet`, with `room` entries left in the arrays: the entries it
    fills, and how it ends. -/
def scanLoop (inputPacket : List UInt8) :
    Nat → Int → Nat → OsclBinIStream → Option (List ScannedPacket × Except DecoderError Unit)
  | 0, _, _, _ => some ([], .ok ())
  | room + 1, remainingLen, ptr, inStream =>
    if remainingLen ≤ 0 then some ([], .ok ())
    else
      let tempChar := inStream.Read_uint8
      if tempChar.2.fail then some ([], .error .EOS_ON_READ)
      else
        let payloadType := tempChar.2.Read_uint8
        let rtcpLength := payloadType.2.Read_uint16
        if rtcpLength.2.fail then some ([], .error .EOS_ON_READ)
        else
          (scanType inputPacket payloadType.1 ptr).bind fun type =>
            let len := (rtcpLength.1.toNat + 1) * 4
            let entry : ScannedPacket := ⟨type, ptr, len⟩
            let inStream := if rtcpLength.1 ≠ 0 then
                rtcpLength.2.seekFromCurrentPosition (rtcpLength.1.toNat * 4)
              else rtcpLength.2
            if rtcpLength.1 ≠ 0 ∧ inStream.fail then some ([entry], .error .EOS_ON_READ)
            else
              (scanLoop inputPacket room (remainingLen - len) (ptr + len) inStream).map fun r =>
                (entry :: r.1, r.2)

/-- `scan_compound_packet`. -/
def scanCompoundPacket (inputPacket : List UInt8) (maxArraySize : Nat) :
    Option (List ScannedPacket × Except DecoderError Unit) :=
  if inputPacket.length = 0 then some ([], .error .FAIL)
  else scanLoop inputPacket maxArraySize inputPacket.length 0 { block := inputPacket }

/-! ## 5. Headers written and read -/

section Headers

theorem bind_eq_ok {ε α β : Type} {x : Except ε α} {f : α → Except ε β} {b : β}
    (h : x >>= f = .ok b) : ∃ a, x = .ok a ∧ f a = .ok b := by
  cases x with
  | error e => cases h
  | ok a => exact ⟨a, rfl, h⟩

theorem checkOut_ok {outStream s : OsclBinOStream} (h : checkOut outStream = .ok s) :
    s = outStream ∧ s.fail = false := by
  unfold checkOut at h
  split at h
  · cases h
  · rename_i hf
    cases h
    exact ⟨rfl, Bool.eq_false_of_not_eq_true hf⟩

/-- The bytes of a header. -/
def headerBytes (rtcpVersion packetType countField : UInt8) (size : UInt16) (padBit : Bool) :
    List UInt8 :=
  headerChar rtcpVersion countField padBit :: packetType :: shortBytes (size / 4 - 1)

theorem outputRtcpHeader_written {rtcpVersion packetType countField : UInt8} {size : UInt16}
    {out out' : OsclBinOStream} {padBit : Bool}
    (h : outputRtcpHeader rtcpVersion packetType countField size out padBit = .ok out') :
    out'.fail = false ∧ out'.written =
      out.written ++ headerBytes rtcpVersion packetType countField size padBit := by
  obtain ⟨rfl, hf⟩ := checkOut_ok h
  obtain ⟨h₁, e₁⟩ := written_write hf
  obtain ⟨h₂, e₂⟩ := written_write h₁
  obtain ⟨-, e₃⟩ := written_write h₂
  refine ⟨hf, e₁.trans ?_⟩
  have e₂₃ := e₂.trans (congrArg (· ++ [packetType]) e₃)
  refine (congrArg (· ++ shortBytes (size / 4 - 1)) e₂₃).trans ?_
  rw [List.append_assoc, List.append_assoc]
  rfl

theorem outputPad_grows {out out' : OsclBinOStream} {padLength : UInt8}
    (h : outputPad out padLength = .ok out') : out.written <+: out'.written := by
  unfold outputPad at h
  split at h
  · obtain ⟨rfl, -⟩ := checkOut_ok h
    exact (foldl_put8_grows _ out).trans (write_grows _ _)
  · cases h
    exact List.prefix_refl _

/-- **The header of a packet**, decoded. -/
theorem decodeHeader_cons (rtcpVersion packetType b payloadType hi lo : UInt8)
    (rest : List UInt8) :
    ∃ s, At s rest ∧ s.block = b :: payloadType :: hi :: lo :: rest ∧ s.position = 4 ∧
      decodeHeader rtcpVersion packetType (b :: payloadType :: hi :: lo :: rest) =
        if b >>> RTPRTCP_VERSION_BIT_POSITION ≠ rtcpVersion then .error .UNSUPPORTED_RTCP_VERSION
        else if payloadType ≠ packetType then .error .RTCP_PACKET_TYPE_MISMATCH
        else .ok ⟨b &&& RECORD_COUNT_MASK, payloadType, shortOf hi lo, s⟩ := by
  obtain ⟨s₁, h₁, hat₁, hblock₁, hpos₁, hstate⟩ :=
    (at_attach (b :: payloadType :: hi :: lo :: rest)).read8
  obtain ⟨s₂, h₂, hat₂, hblock₂, hpos₂, -⟩ := hat₁.read8
  obtain ⟨s₃, h₃, hat₃, hblock₃, hpos₃⟩ := hat₂.read16
  have heof : s₁.eof = false := by
    rw [OsclBinIStream.eof, hstate (List.cons_ne_nil _ _)]
    rfl
  have hsound : ¬ s₃.fail = true := by rw [hat₃.sound]; exact Bool.false_ne_true
  refine ⟨s₃, hat₃, by rw [hblock₃, hblock₂, hblock₁], by rw [hpos₃, hpos₂, hpos₁], ?_⟩
  unfold decodeHeader
  rw [List.length_cons, if_neg (Nat.succ_ne_zero _), h₁]
  dsimp only
  rw [if_neg (by rw [heof, hat₁.sound]; decide), h₂]
  dsimp only
  rw [h₃]
  dsimp only
  rw [if_neg hsound]

end Headers

/-! ## 6. Header and padding as encoders -/

/-- What `output_rtcp_header` writes before it looks at the stream. -/
def headerWrites (rtcpVersion packetType countField : UInt8) (size : UInt16) (padBit : Bool)
    (outStream : OsclBinOStream) : OsclBinOStream :=
  ((outStream.put8 (headerChar rtcpVersion countField padBit)).put8 packetType).put16
    (size / 4 - 1)

def emitHeader (rtcpVersion packetType countField : UInt8) (size : UInt16) (padBit : Bool) :
    Encoder EncoderError Unit :=
  emitChecked .FAIL (headerWrites rtcpVersion packetType countField size padBit)

/-- `for (ii = 0; ii < pad_length - 1; ++ii) outStream << pad_value; outStream << pad_length`. -/
def padWrites (padLength : UInt8) (outStream : OsclBinOStream) : OsclBinOStream :=
  ((List.replicate (padLength.toNat - 1) (0 : UInt8)).foldl OsclBinOStream.put8 outStream).put8
    padLength

def emitPad (padLength : UInt8) : Encoder EncoderError Unit :=
  if padLength ≠ 0 then emitChecked .FAIL (padWrites padLength) else pure ()

/-- The pad bytes. -/
def padBytes (padLength : UInt8) : List UInt8 :=
  if padLength ≠ 0 then List.replicate (padLength.toNat - 1) 0 ++ [padLength] else []

section Emitted

variable {rtcpVersion packetType countField padLength : UInt8} {size : UInt16} {padBit : Bool}

theorem emits_header :
    Emits .FAIL (emitHeader rtcpVersion packetType countField size padBit)
      (headerBytes rtcpVersion packetType countField size padBit) :=
  emits_emitChecked (((writes_put8 _).comp (writes_put8 packetType)).comp
    (writes_write (shortBytes (size / 4 - 1))))

theorem emits_pad : Emits .FAIL (emitPad padLength) (padBytes padLength) := by
  unfold emitPad padBytes
  split
  · exact emits_emitChecked ((writes_foldl_put8 _).comp (writes_put8 padLength))
  · exact emits_pure

theorem length_padBytes : (padBytes padLength).length = padLength.toNat := by
  unfold padBytes
  split
  · rename_i h
    have hpos : 0 < padLength.toNat :=
      Nat.pos_of_ne_zero fun h0 => h (UInt8.toNat_inj.mp h0)
    rw [List.length_append, List.length_replicate, List.length_singleton]
    omega
  · rename_i h
    rw [not_not.mp h]
    rfl

theorem headerChar_count :
    headerChar rtcpVersion countField padBit &&& RECORD_COUNT_MASK =
      countField &&& RECORD_COUNT_MASK := by
  unfold headerChar RECORD_COUNT_MASK RTPRTCP_VERSION_BIT_POSITION RTCP_PAD_BIT_MASK
  refine UInt8.toBitVec_inj.mp (BitVec.eq_of_getLsbD_eq fun i hi => ?_)
  cases padBit <;> interval_cases i <;> simp

/-- The version of a header has two bits. -/
theorem headerChar_version :
    headerChar rtcpVersion countField padBit >>> RTPRTCP_VERSION_BIT_POSITION = rtcpVersion ↔
      rtcpVersion < 4 := by
  constructor
  · intro h
    rw [← h, UInt8.lt_iff_toNat_lt, UInt8.toNat_shiftRight, Nat.shiftRight_eq_div_pow]
    have := (headerChar rtcpVersion countField padBit).toNat_lt
    change _ / 64 < 4
    omega
  · intro h
    have hcases : rtcpVersion = 0 ∨ rtcpVersion = 1 ∨ rtcpVersion = 2 ∨ rtcpVersion = 3 := by
      simp only [← UInt8.toNat_inj]
      have : rtcpVersion.toNat < 4 := h
      change _ = 0 ∨ _ = 1 ∨ _ = 2 ∨ _ = 3
      omega
    unfold headerChar RECORD_COUNT_MASK RTPRTCP_VERSION_BIT_POSITION RTCP_PAD_BIT_MASK
    refine UInt8.toBitVec_inj.mp (BitVec.eq_of_getLsbD_eq fun i hi => ?_)
    rcases hcases with rfl | rfl | rfl | rfl <;> cases padBit <;> interval_cases i <;> simp

/-- **A written header** is read back where the version fits its two bits, and is refused
    elsewhere. -/
theorem decodeHeader_headerBytes (rest : List UInt8) :
    ∃ s, At s rest ∧ s.position = 4 ∧
      s.block = headerBytes rtcpVersion packetType countField size padBit ++ rest ∧
      decodeHeader rtcpVersion packetType
          (headerBytes rtcpVersion packetType countField size padBit ++ rest) =
        if rtcpVersion < 4 then
          .ok ⟨countField &&& RECORD_COUNT_MASK, packetType, size / 4 - 1, s⟩
        else .error .UNSUPPORTED_RTCP_VERSION := by
  obtain ⟨s, hat, hblock, hpos, hdecode⟩ := decodeHeader_cons rtcpVersion packetType
    (headerChar rtcpVersion countField padBit) packetType ((size / 4 - 1) >>> 8).toUInt8
    (size / 4 - 1).toUInt8 rest
  refine ⟨s, hat, hpos, hblock, ?_⟩
  rw [headerBytes, shortBytes]
  refine hdecode.trans ?_
  rw [shortOf_shortBytes, headerChar_count]
  by_cases hv : rtcpVersion < 4
  · rw [if_neg (not_not.mpr (headerChar_version.mpr hv)), if_neg (not_not.mpr rfl), if_pos hv]
  · rw [if_pos (mt headerChar_version.mp hv), if_neg hv]

end Emitted

end OpenCore.Rtp
