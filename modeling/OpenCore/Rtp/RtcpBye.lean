/-
  File:      OpenCore/Rtp/RtcpBye.lean
  Subject:   BYE packets, written by `RTCP_Encoder::EncodeBYE` and read by
             `RTCP_Decoder::DecodeBYE` (rtcp_encoder.cpp, rtcp_decoder.cpp).

  `EncodeBYE` writes the packet type of a receiver report. No decoder of BYE packets accepts what
  it writes, whatever the packet.

  **Main result**: `bye_never_survives`.
-/
import OpenCore.Rtp.RtcpPacket

namespace OpenCore.Rtp

open OsclUtil

/-! ## 1. The code -/

/-- `RTCP_BYE`. A null reason string has no bytes. -/
structure RTCP_BYE where
  srcCount : UInt8
  ssrcArray : Vector UInt32 31
  reasonString : Option (List UInt8)

/-- The SSRCs the count says are there. -/
def RTCP_BYE.ssrcs (bye : RTCP_BYE) : List UInt32 :=
  bye.ssrcArray.toList.take (bye.srcCount &&& RECORD_COUNT_MASK).toNat

def RTCP_BYE.reasonLen (bye : RTCP_BYE) : UInt8 :=
  UInt8.ofNat ((bye.reasonString.getD []).length % 256)

/-- `reason_len_pad`: the reason string with its length byte, up to a multiple of four. -/
def reasonLenPad (reasonLen : UInt8) : UInt8 :=
  let pad := reasonLen + 1
  if pad &&& 3 ≠ 0 then pad + (4 - (pad &&& 3)) else pad

/-- The size `EncodeBYE` computes. -/
def byeSize (bye : RTCP_BYE) (padLength : UInt8) : Nat :=
  let size := (bye.srcCount &&& RECORD_COUNT_MASK).toNat * 4 + RTCP_HEADER_SIZE + padLength.toNat
  if bye.reasonString.isSome ∧ bye.reasonLen ≠ 0 ∧ (bye.reasonLen + 1) &&& 3 ≠ 0 then
    size + (bye.reasonLen.toNat + (reasonLenPad bye.reasonLen).toNat)
  else size

/-- The reason string, its length in front and zeros behind it. -/
def outputReason (outStream : OsclBinOStream) (bye : RTCP_BYE) :
    Except EncoderError OsclBinOStream :=
  if bye.reasonLen ≠ 0 then
    let out := (outStream.put8 bye.reasonLen).write
      ((bye.reasonString.getD []).take bye.reasonLen.toNat)
    checkOut ((List.replicate (reasonLenPad bye.reasonLen).toNat (0 : UInt8)).foldl
      OsclBinOStream.put8 out)
  else .ok outStream

/-- `EncodeBYE`: the bytes in the output buffer. -/
def EncodeBYE (rtcpVersion : UInt8) (bye : RTCP_BYE) (bufferLen : Nat) (padLength : UInt8) :
    Except EncoderError (List UInt8) :=
  let size := byeSize bye padLength
  if size % 4 ≠ 0 then .error .INVALID_PAD_LENGTH
  else if bufferLen < size then .error (.OUTPUT_TRUNCATED size)
  else do
    let out ← outputRtcpHeader rtcpVersion RR_PACKET_TYPE (bye.srcCount &&& RECORD_COUNT_MASK)
      (UInt16.ofNat size) { length := bufferLen } (padLength ≠ 0)
    let out ← checkOut (bye.ssrcs.foldl OsclBinOStream.put32 out)
    let out ← outputReason out bye
    let out ← outputPad out padLength
    return out.written

/-- A decoded packet; the reason string is a place in the input with its length. -/
structure DecodedBye where
  srcCount : UInt8
  ssrcs : List UInt32
  reasonString : Option (Nat × Nat)
  deriving DecidableEq

/-- The loop over the SSRCs. -/
def readSsrcs : Nat → OsclBinIStream → Except DecoderError (List UInt32 × OsclBinIStream)
  | 0, inStream => .ok ([], inStream)
  | count + 1, inStream =>
    let ssrc := inStream.Read_uint32
    if ssrc.2.fail then .error .FAIL
    else (readSsrcs count ssrc.2).map fun r => (ssrc.1 :: r.1, r.2)

def DecodeBYE (rtcpVersion : UInt8) (inputPacket : List UInt8) :
    Except DecoderError DecodedBye := do
  let header ← decodeHeader rtcpVersion BYE_PACKET_TYPE inputPacket
  let (ssrcs, inStream) ← readSsrcs header.recordCount.toNat header.inStream
  let len := inStream.position
  let packetLen := (header.rtcpLength.toNat + 1) * 4
  if len < packetLen then
    let tmplen := inStream.Read_uint8
    if tmplen.2.fail then throw .FAIL
    else if packetLen < tmplen.1.toNat + len + 1 then throw .EOS_ON_READ
    else return ⟨header.recordCount, ssrcs, some (len + 1, tmplen.1.toNat)⟩
  else return ⟨header.recordCount, ssrcs, none⟩

/-! ## 2. What the packet should survive -/

/-- The reason string of a decoded packet. -/
def DecodedBye.reason (d : DecodedBye) (inputPacket : List UInt8) : List UInt8 :=
  match d.reasonString with
  | none => []
  | some (ptr, len) => (inputPacket.drop ptr).take len

/-- The length field of a packet. -/
def lengthField (packet : List UInt8) : Nat := (shortOf (packet.getD 2 0) (packet.getD 3 0)).toNat

/-- The packets of a compound packet, and nothing else, were scanned. -/
def ScansTo (compound : List UInt8) (room : Nat) (entries : List ScannedPacket) : Prop :=
  scanCompoundPacket compound room = some (entries, .ok ()) ∧
    (entries.map ScannedPacket.len).sum = compound.length

/-- **A BYE packet survives** being written and read: it is accepted with the same SSRCs and
    reason, it is as long as its length field says, and behind the packets of any compound packet
    it is scanned as a BYE. -/
def ByeSurvives (rtcpVersion : UInt8) (bye : RTCP_BYE) (bufferLen : Nat) (padLength : UInt8) :
    Prop :=
  ∃ packet d, EncodeBYE rtcpVersion bye bufferLen padLength = .ok packet ∧
    DecodeBYE rtcpVersion packet = .ok d ∧ d.srcCount = bye.srcCount ∧ d.ssrcs = bye.ssrcs ∧
    d.reason packet = bye.reasonString.getD [] ∧ packet.length = (lengthField packet + 1) * 4 ∧
    ∀ front room entries, ScansTo front room entries →
      ScansTo (front ++ packet) (room + 1)
        (entries ++ [⟨.BYE_RTCP_PACKET, front.length, packet.length⟩])

/-! ## 3. The wrong packet type -/

section WrongType

variable {rtcpVersion : UInt8} {bye : RTCP_BYE} {bufferLen : Nat} {padLength : UInt8}

theorem outputReason_grows {out out' : OsclBinOStream} (h : outputReason out bye = .ok out') :
    out.written <+: out'.written := by
  unfold outputReason at h
  split at h
  · obtain ⟨rfl, -⟩ := checkOut_ok h
    exact (write_grows out _).trans ((write_grows _ _).trans (foldl_put8_grows _ _))
  · cases h
    exact List.prefix_refl _

/-- **Every written packet** has the packet type of a receiver report. -/
theorem EncodeBYE_type {packet : List UInt8}
    (h : EncodeBYE rtcpVersion bye bufferLen padLength = .ok packet) :
    ∃ b hi lo rest, packet = b :: RR_PACKET_TYPE :: hi :: lo :: rest := by
  unfold EncodeBYE at h
  dsimp only at h
  split at h
  · cases h
  split at h
  · cases h
  obtain ⟨out₁, h₁, h⟩ := bind_eq_ok h
  obtain ⟨out₂, h₂, h⟩ := bind_eq_ok h
  obtain ⟨out₃, h₃, h⟩ := bind_eq_ok h
  obtain ⟨out₄, h₄, h⟩ := bind_eq_ok h
  cases h
  obtain ⟨-, e₁⟩ := outputRtcpHeader_written h₁
  obtain ⟨rfl, -⟩ := checkOut_ok h₂
  have hgrows := (foldl_put32_grows bye.ssrcs out₁).trans
    ((outputReason_grows h₃).trans (outputPad_grows h₄))
  obtain ⟨rest, hrest⟩ := hgrows
  have hpacket := hrest.symm.trans (congrArg (· ++ rest) e₁)
  exact ⟨_, _, _, rest, hpacket⟩

/-- A packet of another type is not decoded. -/
theorem DecodeBYE_other_type {packet : List UInt8} {b payloadType hi lo : UInt8}
    {rest : List UInt8} (hp : packet = b :: payloadType :: hi :: lo :: rest)
    (ht : payloadType ≠ BYE_PACKET_TYPE) (d : DecodedBye) :
    DecodeBYE rtcpVersion packet ≠ .ok d := by
  obtain ⟨s, -, -, -, h⟩ :=
    decodeHeader_cons rtcpVersion BYE_PACKET_TYPE b payloadType hi lo rest
  rw [if_pos ht] at h
  intro hd
  unfold DecodeBYE at hd
  obtain ⟨header, hh, -⟩ := bind_eq_ok hd
  rw [hp, h] at hh
  split at hh <;> cases hh

/-- **No BYE packet survives**, whatever its SSRCs, its reason, the padding, the buffer and the
    version. -/
theorem bye_never_survives (rtcpVersion : UInt8) (bye : RTCP_BYE) (bufferLen : Nat)
    (padLength : UInt8) : ¬ ByeSurvives rtcpVersion bye bufferLen padLength := by
  rintro ⟨packet, d, henc, hdec, -⟩
  obtain ⟨b, hi, lo, rest, hp⟩ := EncodeBYE_type henc
  exact DecodeBYE_other_type hp (by decide) d hdec

/-- A packet with one SSRC and no reason, in a buffer of its size: it is written as a receiver
    report. -/
theorem bye_written_as_report :
    ∃ bye : RTCP_BYE, bye.srcCount = 1 ∧ bye.reasonString = none ∧
      EncodeBYE 2 bye 8 0 = .ok [0x81, 201, 0, 1, 0, 0, 0, 7] ∧
      DecodeBYE 2 [0x81, 201, 0, 1, 0, 0, 0, 7] = .error .RTCP_PACKET_TYPE_MISMATCH ∧
      scanCompoundPacket [0x81, 201, 0, 1, 0, 0, 0, 7] 1 =
        some ([⟨.RR_RTCP_PACKET, 0, 8⟩], .ok ()) ∧
      ¬ ByeSurvives 2 bye 8 0 := by
  refine ⟨⟨1, Vector.replicate 31 7, none⟩, rfl, rfl, by decide +kernel, by decide +kernel,
    by decide +kernel, ?_⟩
  rintro ⟨packet, d, henc, hdec, -⟩
  have hbytes : EncodeBYE 2 ⟨1, Vector.replicate 31 7, none⟩ 8 0 =
      .ok [0x81, 201, 0, 1, 0, 0, 0, 7] := by decide +kernel
  rw [hbytes] at henc
  cases henc
  have hmismatch : DecodeBYE 2 [0x81, 201, 0, 1, 0, 0, 0, 7] =
      .error .RTCP_PACKET_TYPE_MISMATCH := by decide +kernel
  rw [hmismatch] at hdec
  cases hdec

end WrongType

end OpenCore.Rtp
