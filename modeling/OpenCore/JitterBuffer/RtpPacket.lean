/-
  File:      OpenCore/JitterBuffer/RtpPacket.lean
  Subject:   `PVMFRTPJitterBufferImpl::ParsePacketHeaderAndUpdateJBStats`
             (pvmf_rtp_jitter_buffer_impl.cpp): an RTP packet taken apart, and when its parts add up.

  A memory fragment is the memory its pointer leads to, which goes on behind the packet, and the
  length of the packet in it. Each subtraction from the remaining length is kept in a log (`subs`),
  with what was left before it. The arrival jitter the function ends with is floating point that
  nothing here reads, and is left out.
-/
import Mathlib

namespace OpenCore.JitterBuffer

/-! ## 1. The header -/

/-- `PVMFJBPacketParsingAndStatUpdationStatus`. -/
inductive ParsingStatus where
  | insufficientMemToPacketize
  | invalidConfiguration
  | corruptHdr
  | truncatedHdr
  | unexpectedPkt
  | latePacket
  | success
  deriving DecidableEq

/-- `OsclMemoryFragment`. -/
structure MemFrag where
  ptr : Nat → UInt8
  len : UInt32

/-- Two bytes in network order. -/
def u16At (ptr : Nat → UInt8) (i : Nat) : UInt16 :=
  ((ptr i).toUInt16 <<< 8) ||| (ptr (i + 1)).toUInt16

/-- Four bytes in network order. -/
def u32At (ptr : Nat → UInt8) (i : Nat) : UInt32 :=
  ((u16At ptr i).toUInt32 <<< 16) ||| (u16At ptr (i + 2)).toUInt32

/-- `rtpHeader`, as an offset into the fragment, and `rtpPacketLen`. -/
structure Cursor where
  rtpHeader : Nat
  rtpPacketLen : UInt32
  subs : List (UInt32 × UInt32)

/-- `rtpPacketLen -= n`. -/
def Cursor.sub (p : Cursor) (n : UInt32) : Cursor :=
  { p with rtpPacketLen := p.rtpPacketLen - n, subs := p.subs ++ [(p.rtpPacketLen, n)] }

/-- `rtpHeader += n`. -/
def Cursor.skip (p : Cursor) (n : Nat) : Cursor := { p with rtpHeader := p.rtpHeader + n }

/-- A part of the parser goes on, or rejects the packet. -/
abbrev Parse := Except (ParsingStatus × Cursor) Cursor

/-- Check for the CSRC list. -/
def skipCsrc (csrcCount : UInt8) (p : Cursor) : Parse :=
  if csrcCount ≠ 0 then
    if csrcCount.toUInt32 * 4 > p.rtpPacketLen then .error (.corruptHdr, p)
    else .ok ((p.skip (csrcCount.toNat * 4)).sub (csrcCount.toUInt32 * 4))
  else .ok p

/-- Check for the extended header. -/
def skipExtension (ptr : Nat → UInt8) (xbit : UInt8) (p : Cursor) : Parse :=
  if xbit ≠ 0 then
    let p := p.skip 2
    let extensionHeaderLen := (u16At ptr p.rtpHeader).toUInt32
    let p := p.sub 4
    if extensionHeaderLen * 4 > p.rtpPacketLen then .error (.corruptHdr, p)
    else .ok ((p.skip (extensionHeaderLen.toNat * 4)).sub (extensionHeaderLen * 4))
  else .ok p

/-- Ignore padding octets. -/
def dropPadding (numPaddingOctets : UInt8) (p : Cursor) : Parse :=
  if numPaddingOctets ≠ 0 then
    if numPaddingOctets.toUInt32 > p.rtpPacketLen then .error (.corruptHdr, p)
    else .ok (p.sub numPaddingOctets.toUInt32)
  else .ok p

def rtpVersion (f : MemFrag) : UInt8 := (f.ptr 0 &&& 0xC0) >>> 6
def pbit (f : MemFrag) : UInt8 := (f.ptr 0 &&& 0x20) >>> 5
def xbit (f : MemFrag) : UInt8 := (f.ptr 0 &&& 0x10) >>> 4
def csrcCount (f : MemFrag) : UInt8 := f.ptr 0 &&& 0x0F
def mbit (f : MemFrag) : UInt8 := (f.ptr 1 &&& 0x80) >>> 7

def numPaddingOctets (f : MemFrag) : UInt8 :=
  if pbit f ≠ 0 then f.ptr (f.len.toNat - 1) else 0

/-- The part of the function for a packet whose header is not parsed yet: where the payload begins
    and how long it is. -/
def parseRtpHeader (f : MemFrag) : Parse :=
  let start : Cursor := ⟨0, f.len, []⟩
  if f.len ≤ 12 then .error (.truncatedHdr, start)
  else if rtpVersion f ≠ 2 then .error (.corruptHdr, start)
  else do
    let p ← skipCsrc (csrcCount f) ((start.skip 12).sub 12)
    let p ← skipExtension f.ptr (xbit f) p
    dropPadding (numPaddingOctets f) p

/-! ## 2. The whole function -/

/-- What the function reads and writes of `PVMFJitterBufferStats`. -/
structure JBStats where
  totalNumPacketsRetrieved : UInt32
  lastRetrievedSeqNum : UInt32
  maxSeqNumRegistered : UInt32
  maxSeqNumReceived : UInt32
  maxTimeStampRegistered : UInt32

/-- What the function reads and writes of the jitter buffer. -/
structure RtpJitterBuffer where
  iHeaderPreParsed : Bool
  iInPlaceProcessing : Bool
  iRTPDataArrived : Bool
  seqNumLock : Bool
  iBroadCastSession : Bool
  iFirstSeqNum : UInt32
  jbStats : JBStats

/-- `PVMFMediaData`: the fragments and the fields the header is kept in. -/
structure RtpMediaData where
  fragments : List MemFrag
  timestamp : UInt32
  seqNum : UInt32
  streamID : UInt32
  markerInfo : UInt32

/-- `getMediaFragment`; without such a fragment the one given in stays empty. -/
def RtpMediaData.fragment (d : RtpMediaData) (i : Nat) : MemFrag :=
  d.fragments[i]?.getD ⟨fun _ => 0, 0⟩

/-- `IsSequenceNumEarlier`. -/
def isSequenceNumEarlier (aSeqNumToComp aBaseSeqNum : UInt16) : Bool :=
  let aDiff := aBaseSeqNum - aSeqNumToComp
  decide (aDiff ≠ 0 ∧ aDiff < 0x8000)

/-- `IsSeqTsValidForPkt`. -/
def isSeqTsValidForPkt (aSeqNum rtpTimeStamp : UInt32) (jbStats : JBStats) : JBStats × Bool :=
  let seqNum := aSeqNum.toUInt16
  if jbStats.totalNumPacketsRetrieved > 0 ∧
      isSequenceNumEarlier seqNum (jbStats.lastRetrievedSeqNum + 1).toUInt16 then (jbStats, false)
  else if seqNum.toUInt32 < jbStats.maxSeqNumRegistered ∧
      isSequenceNumEarlier jbStats.maxSeqNumRegistered.toUInt16 seqNum then
    ({ jbStats with maxSeqNumRegistered := seqNum.toUInt32
                    maxSeqNumReceived := seqNum.toUInt32
                    maxTimeStampRegistered := rtpTimeStamp }, true)
  else (jbStats, true)

/-- The header of a packet, and its payload: an offset into the fragment and a length. -/
structure DataPacket where
  payloadOffset : Nat
  payloadLen : UInt32
  timestamp : UInt32
  seqNum : UInt32
  streamID : UInt32
  markerInfo : UInt32

/-- What a call leaves: the packet it gives out or rewrites in place, if it comes so far. -/
structure ParseResult where
  status : ParsingStatus
  packet : Option DataPacket
  jb : RtpJitterBuffer
  subs : List (UInt32 × UInt32)

/-- The header fields of an RTP packet whose payload is at the cursor. -/
def rtpFields (f : MemFrag) (p : Cursor) : DataPacket where
  payloadOffset := p.rtpHeader
  payloadLen := p.rtpPacketLen
  timestamp := u32At f.ptr 4
  seqNum := (u16At f.ptr 2).toUInt32
  streamID := u32At f.ptr 8
  markerInfo := if mbit f = 1 then 1 else 0

/-- The checks of a packet once it is taken apart. -/
def checkPacket (jb : RtpJitterBuffer) (packet : DataPacket) : ParsingStatus × RtpJitterBuffer :=
  if jb.seqNumLock ∧ jb.iFirstSeqNum ≠ packet.seqNum then
    if jb.iBroadCastSession ∧ packet.timestamp < jb.jbStats.maxTimeStampRegistered then
      (.unexpectedPkt, jb)
    else
      let r := isSeqTsValidForPkt packet.seqNum packet.timestamp jb.jbStats
      (if r.2 then .success else .latePacket, { jb with jbStats := r.1 })
  else (.success, jb)

/-- What follows the header: the payload in place or in a packet of its own. `hasMemory` says
    whether `Allocate` and `CreateMediaData` succeed. -/
def deliver (jb : RtpJitterBuffer) (aFragIndex : Nat) (hasMemory : Bool) (packet : DataPacket)
    (subs : List (UInt32 × UInt32)) : ParseResult :=
  if jb.iInPlaceProcessing = false ∧ hasMemory = false then
    ⟨.insufficientMemToPacketize, none, jb, subs⟩
  else if jb.iInPlaceProcessing = true ∧ aFragIndex ≠ 0 then
    ⟨.invalidConfiguration, none, jb, subs⟩
  else
    let r := checkPacket jb packet
    ⟨r.1, some packet, r.2, subs⟩

/-- `ParsePacketHeaderAndUpdateJBStats`. -/
def parsePacketHeaderAndUpdateJBStats (jb : RtpJitterBuffer) (rtpPacketContainer : RtpMediaData)
    (aFragIndex : Nat) (hasMemory : Bool) : ParseResult :=
  let f := rtpPacketContainer.fragment aFragIndex
  if jb.iHeaderPreParsed = false then
    let jb := { jb with iRTPDataArrived := jb.iRTPDataArrived || decide (12 < f.len) }
    match parseRtpHeader f with
    | .error (status, p) => ⟨status, none, jb, p.subs⟩
    | .ok p => deliver jb aFragIndex hasMemory (rtpFields f p) p.subs
  else if aFragIndex ≠ 0 then ⟨.invalidConfiguration, none, jb, []⟩
  else
    deliver jb aFragIndex hasMemory
      { payloadOffset := 0
        payloadLen := f.len
        timestamp := rtpPacketContainer.timestamp
        seqNum := rtpPacketContainer.seqNum
        streamID := rtpPacketContainer.streamID
        markerInfo := rtpPacketContainer.markerInfo } []

/-! ## 3. The parts of a packet -/

/-- The bytes the header extension takes, its own header included. -/
def extensionLen (f : MemFrag) : Nat :=
  if xbit f ≠ 0 then 4 + 4 * (u16At f.ptr (12 + 4 * (csrcCount f).toNat + 2)).toNat else 0

/-- The bytes in front of the payload. -/
def headLen (f : MemFrag) : Nat := 12 + 4 * (csrcCount f).toNat + extensionLen f

/-- The parts the packet names fit into it. -/
def PartsFit (f : MemFrag) : Prop := headLen f + (numPaddingOctets f).toNat ≤ f.len.toNat

/-- **What a parser owes**: an accepted packet's parts add up to its length and its payload lies
    inside it, no subtraction goes below zero, and a packet its parts do not fit into is
    rejected. -/
structure SoundParse (f : MemFrag) (r : ParseResult) : Prop where
  sum : r.status = .success → ∃ packet, r.packet = some packet ∧
    headLen f + packet.payloadLen.toNat + (numPaddingOctets f).toNat = f.len.toNat ∧
    packet.payloadOffset + packet.payloadLen.toNat ≤ f.len.toNat
  noUnderflow : ∀ q ∈ r.subs, q.2 ≤ q.1
  rejects : ¬ PartsFit f → r.status ≠ .success

/-- A version 2 packet whose extension bit is set though fewer than the four bytes of an extension
    header are left behind its CSRC list. -/
def ShortExtension (f : MemFrag) : Prop :=
  12 < f.len.toNat ∧ rtpVersion f = 2 ∧ 12 + 4 * (csrcCount f).toNat ≤ f.len.toNat ∧
    xbit f ≠ 0 ∧ f.len.toNat < 12 + 4 * (csrcCount f).toNat + 4

instance (f : MemFrag) : Decidable (ShortExtension f) := inferInstanceAs (Decidable (_ ∧ _))

/-- The cursor has passed `used` of `total` bytes, and no subtraction went below zero. -/
structure Cursor.At (total used : Nat) (p : Cursor) : Prop where
  left : p.rtpPacketLen.toNat + used = total
  noUnderflow : ∀ q ∈ p.subs, q.2 ≤ q.1

theorem Cursor.At.sub {total used : Nat} {p : Cursor} (h : p.At total used) {n : UInt32}
    (hn : n.toNat ≤ p.rtpPacketLen.toNat) : (p.sub n).At total (used + n.toNat) where
  left := by
    show (p.rtpPacketLen - n).toNat + (used + n.toNat) = total
    rw [UInt32.toNat_sub_of_le _ _ hn]
    have := h.left
    omega
  noUnderflow := by
    intro q hq
    rcases List.mem_append.mp hq with hq | hq
    · exact h.noUnderflow q hq
    · rw [List.mem_singleton] at hq
      rw [hq]
      exact hn

theorem Cursor.At.skip {total used : Nat} {p : Cursor} (h : p.At total used) (n : Nat) :
    (p.skip n).At total used := ⟨h.left, h.noUnderflow⟩

theorem csrc_toNat (n : UInt8) : (n.toUInt32 * 4).toNat = 4 * n.toNat := by
  have h : n.toNat < 256 := n.toNat_lt
  rw [UInt32.toNat_mul, UInt8.toNat_toUInt32, show (4 : UInt32).toNat = 4 from rfl]
  omega

theorem extension_toNat (n : UInt16) : (n.toUInt32 * 4).toNat = 4 * n.toNat := by
  have h : n.toNat < 65536 := n.toNat_lt
  rw [UInt32.toNat_mul, UInt16.toNat_toUInt32, show (4 : UInt32).toNat = 4 from rfl]
  omega

section Steps

variable {total used : Nat} {p : Cursor}

theorem skipCsrc_cases (h : p.At total used) (n : UInt8) :
    (skipCsrc n p = .error (.corruptHdr, p) ∧ total < used + 4 * n.toNat) ∨
      ∃ p', skipCsrc n p = .ok p' ∧ p'.At total (used + 4 * n.toNat) ∧
        p'.rtpHeader = p.rtpHeader + 4 * n.toNat := by
  have hleft := h.left
  unfold skipCsrc
  by_cases h0 : n = 0
  · subst h0
    exact .inr ⟨p, rfl, h, rfl⟩
  · rw [if_pos h0]
    by_cases hgt : n.toUInt32 * 4 > p.rtpPacketLen
    · have hlt : p.rtpPacketLen.toNat < (n.toUInt32 * 4).toNat := hgt
      rw [csrc_toNat] at hlt
      rw [if_pos hgt]
      exact .inl ⟨rfl, by omega⟩
    · have hle : (n.toUInt32 * 4).toNat ≤ p.rtpPacketLen.toNat := Nat.le_of_not_lt hgt
      rw [if_neg hgt]
      refine .inr ⟨_, rfl, ?_, ?_⟩
      · have := (h.skip (n.toNat * 4)).sub hle
        rwa [csrc_toNat] at this
      · show p.rtpHeader + n.toNat * 4 = _
        rw [Nat.mul_comm]

theorem skipExtension_cases (h : p.At total used) (ptr : Nat → UInt8) {xbit : UInt8}
    (hroom : xbit ≠ 0 → used + 4 ≤ total) :
    (∃ p', skipExtension ptr xbit p = .error (.corruptHdr, p') ∧ p'.At total (used + 4) ∧
        xbit ≠ 0 ∧ total < used + 4 + 4 * (u16At ptr (p.rtpHeader + 2)).toNat) ∨
      ∃ p', skipExtension ptr xbit p = .ok p' ∧
        p'.At total
          (used + if xbit ≠ 0 then 4 + 4 * (u16At ptr (p.rtpHeader + 2)).toNat else 0) ∧
        p'.rtpHeader ≤ p.rtpHeader +
          if xbit ≠ 0 then 4 + 4 * (u16At ptr (p.rtpHeader + 2)).toNat else 0 := by
  have hleft := h.left
  unfold skipExtension
  by_cases h0 : xbit = 0
  · rw [if_neg (not_not.mpr h0), if_neg (not_not.mpr h0)]
    exact .inr ⟨p, rfl, h, Nat.le_refl _⟩
  · have hroom := hroom h0
    have hfour : ((p.skip 2).sub 4).At total (used + 4) :=
      (h.skip 2).sub (show (4 : UInt32).toNat ≤ p.rtpPacketLen.toNat by
        rw [show (4 : UInt32).toNat = 4 from rfl]
        omega)
    have hleft' := hfour.left
    rw [if_pos h0, if_pos h0]
    dsimp only
    set n := u16At ptr (p.rtpHeader + 2) with hn
    have hn' : u16At ptr (p.skip 2).rtpHeader = n := rfl
    rw [hn']
    by_cases hgt : n.toUInt32 * 4 > ((p.skip 2).sub 4).rtpPacketLen
    · have hlt : ((p.skip 2).sub 4).rtpPacketLen.toNat < (n.toUInt32 * 4).toNat := hgt
      rw [extension_toNat] at hlt
      rw [if_pos hgt]
      exact .inl ⟨_, rfl, hfour, h0, by omega⟩
    · have hle : (n.toUInt32 * 4).toNat ≤ ((p.skip 2).sub 4).rtpPacketLen.toNat :=
        Nat.le_of_not_lt hgt
      rw [if_neg hgt]
      refine .inr ⟨_, rfl, ?_, ?_⟩
      · have := (hfour.skip (n.toUInt32.toNat * 4)).sub hle
        rwa [extension_toNat, Nat.add_assoc] at this
      · show p.rtpHeader + 2 + n.toUInt32.toNat * 4 ≤ _
        rw [UInt16.toNat_toUInt32]
        omega

theorem dropPadding_cases (h : p.At total used) (n : UInt8) :
    (dropPadding n p = .error (.corruptHdr, p) ∧ total < used + n.toNat) ∨
      ∃ p', dropPadding n p = .ok p' ∧ p'.At total (used + n.toNat) ∧
        p'.rtpHeader = p.rtpHeader := by
  have hleft := h.left
  unfold dropPadding
  by_cases h0 : n = 0
  · subst h0
    exact .inr ⟨p, rfl, h, rfl⟩
  · rw [if_pos h0]
    by_cases hgt : n.toUInt32 > p.rtpPacketLen
    · have hlt : p.rtpPacketLen.toNat < n.toUInt32.toNat := hgt
      rw [UInt8.toNat_toUInt32] at hlt
      rw [if_pos hgt]
      exact .inl ⟨rfl, by omega⟩
    · have hle : n.toUInt32.toNat ≤ p.rtpPacketLen.toNat := Nat.le_of_not_lt hgt
      rw [if_neg hgt]
      exact .inr ⟨_, rfl, h.sub hle, rfl⟩

end Steps

/-! ## 4. When the parts add up -/

theorem start_at {len : UInt32} (h12 : 12 < len.toNat) :
    (((⟨0, len, []⟩ : Cursor).skip 12).sub 12).At len.toNat 12 := by
  have h0 : (⟨0, len, []⟩ : Cursor).At len.toNat 0 :=
    ⟨rfl, fun q hq => absurd hq List.not_mem_nil⟩
  exact (h0.skip 12).sub (show (12 : UInt32).toNat ≤ len.toNat from Nat.le_of_lt h12)

/-- **The header parser**, on any packet without a short extension: it rejects the packet its parts
    do not fit into, or what is left is the payload; no subtraction goes below zero. -/
theorem parseRtpHeader_cases {f : MemFrag} (h : ¬ ShortExtension f) :
    (∃ status p, parseRtpHeader f = .error (status, p) ∧ status ≠ .success ∧
        ∀ q ∈ p.subs, q.2 ≤ q.1) ∨
      ∃ p, parseRtpHeader f = .ok p ∧
        p.At f.len.toNat (headLen f + (numPaddingOctets f).toNat) ∧ p.rtpHeader ≤ headLen f := by
  unfold parseRtpHeader
  dsimp only
  by_cases hlen : f.len ≤ 12
  · rw [if_pos hlen]
    exact .inl ⟨_, _, rfl, by decide, fun q hq => absurd hq List.not_mem_nil⟩
  by_cases hver : rtpVersion f ≠ 2
  · rw [if_neg hlen, if_pos hver]
    exact .inl ⟨_, _, rfl, by decide, fun q hq => absurd hq List.not_mem_nil⟩
  rw [if_neg hlen, if_neg hver]
  have h12 : 12 < f.len.toNat := Nat.lt_of_not_le hlen
  have hstart := start_at h12
  rcases skipCsrc_cases hstart (csrcCount f) with ⟨he, -⟩ | ⟨p₁, he₁, h₁, hp₁⟩
  · rw [he]
    exact .inl ⟨_, _, rfl, by decide, hstart.noUnderflow⟩
  have hp₁' : p₁.rtpHeader = 12 + 4 * (csrcCount f).toNat := hp₁
  have hroom : xbit f ≠ 0 → 12 + 4 * (csrcCount f).toNat + 4 ≤ f.len.toNat := by
    intro hx
    by_contra hshort
    have := h₁.left
    exact h ⟨h12, not_not.mp hver, by omega, hx, by omega⟩
  rw [he₁]
  rcases skipExtension_cases h₁ f.ptr hroom with ⟨p₂, he₂, h₂, -⟩ | ⟨p₂, he₂, h₂, hp₂⟩
  · show (∃ status p, (skipExtension f.ptr (xbit f) p₁).bind _ = _ ∧ _) ∨ _
    rw [he₂]
    exact .inl ⟨_, _, rfl, by decide, h₂.noUnderflow⟩
  rw [hp₁'] at h₂ hp₂
  have h₂' : p₂.At f.len.toNat (headLen f) := h₂
  rcases dropPadding_cases h₂' (numPaddingOctets f) with ⟨he₃, -⟩ | ⟨p₃, he₃, h₃, hp₃⟩
  · refine .inl ⟨.corruptHdr, p₂, ?_, by decide, h₂.noUnderflow⟩
    show (skipExtension f.ptr (xbit f) p₁).bind _ = _
    rw [he₂]
    exact he₃
  · refine .inr ⟨p₃, ?_, h₃, ?_⟩
    · show (skipExtension f.ptr (xbit f) p₁).bind _ = _
      rw [he₂]
      exact he₃
    · rw [hp₃]
      exact hp₂

theorem dropPadding_subs {n : UInt8} {p : Cursor} {q : UInt32 × UInt32} (hq : q ∈ p.subs) :
    match dropPadding n p with
    | .error (_, p') => q ∈ p'.subs
    | .ok p' => q ∈ p'.subs := by
  unfold dropPadding
  split_ifs
  · exact hq
  · exact List.mem_append_left _ hq
  · exact hq

theorem skipExtension_short (ptr : Nat → UInt8) {xbit : UInt8} (p : Cursor) (hx : xbit ≠ 0) :
    match skipExtension ptr xbit p with
    | .error (_, p') => (p.rtpPacketLen, 4) ∈ p'.subs
    | .ok p' => (p.rtpPacketLen, 4) ∈ p'.subs := by
  have hsub : (p.rtpPacketLen, (4 : UInt32)) ∈ ((p.skip 2).sub 4).subs :=
    List.mem_append_right _ (List.mem_singleton_self _)
  unfold skipExtension
  rw [if_pos hx]
  dsimp only
  split_ifs
  · exact hsub
  · exact List.mem_append_left _ hsub

/-- A short extension takes the remaining length below zero. -/
theorem parseRtpHeader_short {f : MemFrag} (h : ShortExtension f) :
    match parseRtpHeader f with
    | .error (_, p) => ∃ q ∈ p.subs, ¬ q.2 ≤ q.1
    | .ok p => ∃ q ∈ p.subs, ¬ q.2 ≤ q.1 := by
  obtain ⟨h12, hver, hcsrc, hx, hshort⟩ := h
  have hlen : ¬ f.len ≤ 12 := Nat.not_le_of_lt h12
  have hstart := start_at h12
  rcases skipCsrc_cases hstart (csrcCount f) with ⟨-, hlt⟩ | ⟨p₁, he₁, h₁, -⟩
  · omega
  have hbad : ¬ ((4 : UInt32) ≤ p₁.rtpPacketLen) := by
    intro hle
    have hle' : 4 ≤ p₁.rtpPacketLen.toNat := hle
    have := h₁.left
    omega
  have hext := skipExtension_short f.ptr p₁ hx
  unfold parseRtpHeader
  dsimp only
  rw [if_neg hlen, if_neg (not_not.mpr hver), he₁]
  show match (skipExtension f.ptr (xbit f) p₁).bind (dropPadding (numPaddingOctets f)) with
    | .error (_, p) => ∃ q ∈ p.subs, ¬ q.2 ≤ q.1
    | .ok p => ∃ q ∈ p.subs, ¬ q.2 ≤ q.1
  cases he₂ : skipExtension f.ptr (xbit f) p₁ with
  | error e =>
    rw [he₂] at hext
    exact ⟨_, hext, hbad⟩
  | ok p₂ =>
    rw [he₂] at hext
    have hpad := dropPadding_subs (n := numPaddingOctets f) hext
    show match dropPadding (numPaddingOctets f) p₂ with
      | .error (_, p) => ∃ q ∈ p.subs, ¬ q.2 ≤ q.1
      | .ok p => ∃ q ∈ p.subs, ¬ q.2 ≤ q.1
    cases he₃ : dropPadding (numPaddingOctets f) p₂ with
    | error e =>
      rw [he₃] at hpad
      exact ⟨_, hpad, hbad⟩
    | ok p₃ =>
      rw [he₃] at hpad
      exact ⟨_, hpad, hbad⟩

theorem deliver_cases (jb : RtpJitterBuffer) (aFragIndex : Nat) (hasMemory : Bool)
    (packet : DataPacket) (subs : List (UInt32 × UInt32)) :
    let r := deliver jb aFragIndex hasMemory packet subs
    r.subs = subs ∧ (r.status = .success → r.packet = some packet) := by
  unfold deliver
  split_ifs
  · exact ⟨rfl, fun h => by cases h⟩
  · exact ⟨rfl, fun h => by cases h⟩
  · exact ⟨rfl, fun _ => rfl⟩

/-- **The parse is sound exactly where the extension is not short**: for every packet, whatever
    memory lies behind it, in any fragment of its container and in every state of the jitter
    buffer. -/
theorem sound_iff_not_short (jb : RtpJitterBuffer) (rtpPacketContainer : RtpMediaData)
    (aFragIndex : Nat) (hasMemory : Bool) (hraw : jb.iHeaderPreParsed = false) :
    SoundParse (rtpPacketContainer.fragment aFragIndex)
        (parsePacketHeaderAndUpdateJBStats jb rtpPacketContainer aFragIndex hasMemory) ↔
      ¬ ShortExtension (rtpPacketContainer.fragment aFragIndex) := by
  unfold parsePacketHeaderAndUpdateJBStats
  dsimp only
  generalize rtpPacketContainer.fragment aFragIndex = f
  rw [if_pos hraw]
  generalize { jb with iRTPDataArrived := jb.iRTPDataArrived || decide (12 < f.len) } = jb'
  constructor
  · intro hs hshort
    have hbad := parseRtpHeader_short hshort
    have hno := hs.noUnderflow
    cases he : parseRtpHeader f with
    | error e =>
      rw [he] at hbad hno
      obtain ⟨q, hq, hlt⟩ := hbad
      exact hlt (hno q hq)
    | ok p =>
      rw [he] at hbad hno
      dsimp only at hno
      rw [(deliver_cases _ _ _ _ _).1] at hno
      obtain ⟨q, hq, hlt⟩ := hbad
      exact hlt (hno q hq)
  · intro hshort
    rcases parseRtpHeader_cases hshort with ⟨status, p, he, hst, hsubs⟩ | ⟨p, he, hat, hoff⟩
    · rw [he]
      exact ⟨fun h => absurd h hst, hsubs, fun _ => hst⟩
    · rw [he]
      dsimp only
      obtain ⟨hsubs, hpacket⟩ := deliver_cases jb' aFragIndex hasMemory (rtpFields f p) p.subs
      have hleft := hat.left
      refine ⟨fun hok => ⟨_, hpacket hok, ?_, ?_⟩, ?_, fun hfit => ?_⟩
      · show headLen f + p.rtpPacketLen.toNat + (numPaddingOctets f).toNat = f.len.toNat
        omega
      · show p.rtpHeader + p.rtpPacketLen.toNat ≤ f.len.toNat
        omega
      · rw [hsubs]
        exact hat.noUnderflow
      · exact absurd (show PartsFit f by unfold PartsFit; omega) hfit

/-- A jitter buffer that parses in place and is locked to no sequence number. -/
def plainJitterBuffer : RtpJitterBuffer where
  iHeaderPreParsed := false
  iInPlaceProcessing := true
  iRTPDataArrived := false
  seqNumLock := false
  iBroadCastSession := false
  iFirstSeqNum := 0
  jbStats := ⟨0, 0, 0, 0, 0⟩

/-- A container with one fragment. -/
def oneFragment (bytes : List UInt8) : RtpMediaData where
  fragments := [⟨fun i => bytes[i]?.getD 0, UInt32.ofNat bytes.length⟩]
  timestamp := 0
  seqNum := 0
  streamID := 0
  markerInfo := 0

/-- A packet with one CSRC, an extension of one word, two bytes of payload and two of padding. -/
theorem sound_iff_not_short_full :
    SoundParse ((oneFragment [0xB1, 0xE0, 0, 7, 0, 0, 0, 1, 0, 0, 0, 2, 9, 9, 9, 9,
        0xBE, 0xDE, 0, 1, 5, 5, 5, 5, 6, 6, 0, 2]).fragment 0)
      (parsePacketHeaderAndUpdateJBStats plainJitterBuffer
        (oneFragment [0xB1, 0xE0, 0, 7, 0, 0, 0, 1, 0, 0, 0, 2, 9, 9, 9, 9,
          0xBE, 0xDE, 0, 1, 5, 5, 5, 5, 6, 6, 0, 2]) 0 true) :=
  (sound_iff_not_short plainJitterBuffer _ 0 true rfl).mpr (by decide +kernel)

/-- Thirteen bytes with the extension bit set: accepted, with a payload of 2^32 - 3 bytes. -/
theorem short_extension_accepted :
    (parsePacketHeaderAndUpdateJBStats plainJitterBuffer
        (oneFragment [0x90, 0x60, 0, 1, 0, 0, 0, 1, 0, 0, 0, 2, 0]) 0 true).status = .success ∧
      ((parsePacketHeaderAndUpdateJBStats plainJitterBuffer
        (oneFragment [0x90, 0x60, 0, 1, 0, 0, 0, 1, 0, 0, 0, 2, 0]) 0 true).packet.map
          DataPacket.payloadLen) = some 4294967293 ∧
      ¬ SoundParse ((oneFragment [0x90, 0x60, 0, 1, 0, 0, 0, 1, 0, 0, 0, 2, 0]).fragment 0)
        (parsePacketHeaderAndUpdateJBStats plainJitterBuffer
          (oneFragment [0x90, 0x60, 0, 1, 0, 0, 0, 1, 0, 0, 0, 2, 0]) 0 true) := by
  have hok : (parsePacketHeaderAndUpdateJBStats plainJitterBuffer
      (oneFragment [0x90, 0x60, 0, 1, 0, 0, 0, 1, 0, 0, 0, 2, 0]) 0 true).status = .success := by
    decide +kernel
  refine ⟨hok, by decide +kernel, fun hs => ?_⟩
  obtain ⟨packet, -, hsum, -⟩ := hs.sum hok
  have hhead : headLen
      ((oneFragment [0x90, 0x60, 0, 1, 0, 0, 0, 1, 0, 0, 0, 2, 0]).fragment 0) = 16 := by
    decide +kernel
  have hlen :
      ((oneFragment [0x90, 0x60, 0, 1, 0, 0, 0, 1, 0, 0, 0, 2, 0]).fragment 0).len.toNat = 13 := by
    decide +kernel
  omega

end OpenCore.JitterBuffer
