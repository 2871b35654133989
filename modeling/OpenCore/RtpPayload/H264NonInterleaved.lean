/-
  File:      OpenCore/RtpPayload/H264NonInterleaved.lean
  Subject:   THE NAL UNITS THAT ARE SENT ARE THE ONES THAT ARE RECEIVED, in the non-interleaved
             mode: as single packets, in a STAP-A or cut into FU-As.

  The sender is the packetization of RFC 3984; the receiver groups what the parser outputs by
  `endOfNAL`. All packets of a NAL unit carry its time, and that is what the mask and the
  timestamp kept between fragments have to give back.

  **Main result**: `nal_units_received`.
-/
import OpenCore.RtpPayload.H264Bounds

namespace OpenCore.RtpPayload

open List Option
open H264PayloadParser (generateMemFrag generateMemFragSTAP getMemFragFU isInterleaveMode
  loopSTAP offsetFU parseRTPPayload_For_SingleMessageOutput putNalUnitType setDonSTAP
  setMarkerInfo setMarkerInfoFU setMediaDataTimestamp setup validateFU)
open MemFrag (bytes)

/-! ## 1. What is sent -/

/-- How NAL units are sent: one as a packet, several in a STAP-A behind its header, or one as
    FU-As, by its header and the pieces behind the header. -/
inductive Sent where
  | single (unit : List UInt8)
  | aggregate (header : UInt8) (units : List (List UInt8))
  | fragmented (header : UInt8) (first : List UInt8) (middle : List (List UInt8))
      (last : List UInt8)

/-- A number in 16 bits. -/
def be16 (n : Nat) : List UInt8 := [UInt8.ofNat (n / 256), UInt8.ofNat n]

namespace Sent

/-- The NAL units. -/
def units : Sent → List (List UInt8)
  | single unit => [unit]
  | aggregate _ units => units
  | fragmented header first middle last => [header :: (first :: (middle ++ [last])).flatten]

/-- A NAL unit in a STAP-A: its size in 16 bits, and the unit. -/
def stapUnit (unit : List UInt8) : List UInt8 := be16 unit.length ++ unit

/-- An FU-A: indicator, header with the start and the end bit, and the fragment. -/
def fuA (header flags : UInt8) (fragment : List UInt8) : List UInt8 :=
  ((header &&& 0xe0) ||| 28) :: (flags ||| (header &&& 0x1f)) :: fragment

/-- The payloads of the packets. -/
def payloads : Sent → List (List UInt8)
  | single unit => [unit]
  | aggregate header units => [header :: units.flatMap stapUnit]
  | fragmented header first middle last =>
    fuA header 0x80 first :: (middle.map (fuA header 0) ++ [fuA header 0x40 last])

/-- What can be sent so: the type of a single packet is not one of aggregates and fragments, an
    aggregate has a unit and no unit is empty or needs more than 16 bits, no fragment is empty
    and the length of its packet is a 32-bit number. -/
def Ok : Sent → Prop
  | single unit => unit ≠ [] ∧ (typeOf unit < 24 ∨ 29 < typeOf unit)
  | aggregate header units => nalTypeOf header.toNat = 24 ∧ units ≠ [] ∧
      ∀ unit ∈ units, unit ≠ [] ∧ unit.length ≤ 65535
  | fragmented _ first middle last =>
    ∀ fragment ∈ first :: (middle ++ [last]), fragment ≠ [] ∧ fragment.length + 2 < 2 ^ 32

instance : (s : Sent) → Decidable s.Ok
  | single unit => inferInstanceAs (Decidable (unit ≠ [] ∧ _))
  | aggregate header _ => inferInstanceAs (Decidable (nalTypeOf header.toNat = 24 ∧ _))
  | fragmented _ first middle last =>
    inferInstanceAs (Decidable (∀ fragment ∈ first :: (middle ++ [last]), _))

end Sent

/-- The packets carry messages with their times, in this order. -/
def Sends (packets : List Packet) (messages : List (Nat × Sent)) : Prop :=
  packets.map (fun packet => (packet.timestamp, packet.data)) =
    messages.flatMap fun message => message.2.payloads.map fun data => (message.1, data)

instance (packets : List Packet) (messages : List (Nat × Sent)) :
    Decidable (Sends packets messages) :=
  inferInstanceAs (Decidable (_ = _))

/-! ## 2. What is received -/

/-- The packets are parsed in order; what comes out of it is put together. -/
def parseAll : H264PayloadParser → List Packet → Option (H264PayloadParser × List Payload)
  | p, [] => some (p, [])
  | p, packet :: packets => do
    let r ← p.ParsePacket packet
    let (p, output) ← parseAll r.2.1 packets
    return (p, r.2.2 ++ output)

/-- The fragments of a payload, with its time. -/
def Payload.pieces (payload : Payload) : List (Nat × List UInt8) :=
  payload.vfragments.map fun f => (payload.timestamp, f.bytes)

/-- The payloads by `endOfNAL`, each group as the pieces of one NAL unit, where every fragment of a
    payload that is a group of its own is a NAL unit; and the pieces at the end without a NAL
    unit. -/
def collect : List (Nat × List UInt8) → List Payload →
    List (List (Nat × List UInt8)) × List (Nat × List UInt8)
  | pending, [] => ([], pending)
  | pending, payload :: payloads =>
    if payload.endOfNAL then
      ((if pending = [] then payload.pieces.map fun piece => [piece]
        else [pending ++ payload.pieces]) ++ (collect [] payloads).1, (collect [] payloads).2)
    else collect (pending ++ payload.pieces) payloads

/-- The pieces are the NAL unit, and all of its time. -/
def Delivers (pieces : List (Nat × List UInt8)) (unit : Nat × List UInt8) : Prop :=
  (pieces.map Prod.snd).flatten = unit.2 ∧ ∀ piece ∈ pieces, piece.1 = unit.1

/-! ## 3. One packet -/

/-- The parser is in the non-interleaved mode. -/
def Plain (p : H264PayloadParser) : Prop := p.iIMP = none ∧ p.iInterleaveDepth = 0

/-- A payload as the parser makes it of a packet, with a time and fragments. -/
def payloadOf (packet : Packet) (endOfNAL : Bool) (frags : List MemFrag) : Payload where
  timestamp := packet.timestamp
  sequence := (packet.sequence + 1) % 2 ^ 32
  marker := packet.marker
  randAccessPt := packet.randAccessPt
  endOfNAL := endOfNAL
  vfragments := frags

section Packet

variable {p : H264PayloadParser} {packet : Packet} {nal_type : Nat}

/-- A packet of another type than the ones of the interleaved mode is one message. -/
theorem ParsePacket_plain (hp : Plain p) (hdata : packet.data ≠ [])
    (htype : typeOf packet.data = nal_type) (ht : nal_type ≤ 24 ∨ nal_type = 28 ∨ 29 < nal_type) :
    p.ParsePacket packet = (parseRTPPayload_For_SingleMessageOutput
      ⟨p, packet, 0, []⟩ nal_type).map fun r => (r.1, r.2.parser, r.2.vParsedPayloads) := by
  have hmode : p.isInterleaveMode = false := by
    rw [isInterleaveMode, hp.2]
    rfl
  have hreq : p.isRequiredTypeForInterleaveMode nal_type = false := by
    refine Bool.eq_false_iff.mpr fun h => ?_
    rcases isRequired_iff.mp h with h | h | h | h | ⟨-, h⟩
    · omega
    · omega
    · omega
    · omega
    · rw [hmode] at h
      cases h
  have htype' : nalTypeOf (packet.data.getD 0 0).toNat = nal_type := htype
  unfold H264PayloadParser.ParsePacket
  rw [read_eq packet 0 (length_pos_iff.mpr hdata)]
  simp only [bind_eq_bind, bind_some, htype', hreq, hmode, Bool.false_eq_true,
    if_false, false_and]
  rfl

theorem setup_plain (hp : Plain p) : p.setup packet = p := by
  rw [setup, hp.1]
  exact congrArg (fun imp => { p with iIMP := imp }) hp.1.symm

theorem parse_single (hp : Plain p) (hdata : packet.data ≠ [])
    (ht : typeOf packet.data < 24 ∨ 29 < typeOf packet.data) :
    ∃ p' f, p.ParsePacket packet = some (.Success, p', [payloadOf packet true [f]]) ∧ Plain p' ∧
      f.bytes = packet.data := by
  obtain ⟨nal_type, htype⟩ : ∃ t, typeOf packet.data = t := ⟨_, rfl⟩
  rw [htype] at ht
  have h32 : nal_type < 32 := by
    rw [← htype]
    exact nalTypeOf_lt _
  have hu := utilityOf_nalu nal_type h32 ht
  refine ⟨{ p with iIsFragmentedBitMask := 0, iTimestampForFU := 0 },
    ⟨packet.data, 0, packet.data.length⟩, ?_, hp, ?_⟩
  · rw [ParsePacket_plain hp hdata htype (by omega),
      parseRTPPayload_For_SingleMessageOutput, if_neg (by simp)]
    simp only [setup_plain hp, setMarkerInfo, generateMemFrag,
      setMediaDataTimestamp, hu, bind_eq_bind, bind_some,
      ne_eq, not_true_eq_false, if_false, Option.pure_def, map_some, nil_append]
    rfl
  · rw [bytes, drop_zero, take_length]

theorem bytes_at (pre mid post : List UInt8) {off : Nat} (h : pre.length = off) :
    bytes ⟨pre ++ (mid ++ post), off, mid.length⟩ = mid := by
  subst h
  simp only [bytes, drop_left, take_left]

theorem bytes_rest (pre rest : List UInt8) :
    bytes ⟨pre ++ rest, pre.length, rest.length⟩ = rest := by
  simp only [bytes, drop_left, take_length]

/-- The two bytes of a size are read as the size. -/
theorem sizeAt_be16 (pre rest : List UInt8) {n : Nat} (h : n ≤ 65535) :
    sizeAt (pre ++ (be16 n ++ rest)) pre.length = n := by
  have hhi : (UInt8.ofNat (n / 256)).toNat = n / 256 :=
    UInt8.toNat_ofNat_of_lt' (by show _ < 256; omega)
  have hlo : (UInt8.ofNat n).toNat = n % 256 := UInt8.toNat_ofNat'
  have h0 : (pre ++ (be16 n ++ rest)).getD pre.length 0 = UInt8.ofNat (n / 256) := by
    simp [be16]
  have h1 : (pre ++ (be16 n ++ rest)).getD (pre.length + 1) 0 = UInt8.ofNat n := by
    simp [be16]
  rw [sizeAt, h0, h1, hhi, hlo, ← Nat.shiftLeft_add_eq_or_of_lt (by show _ < 256; omega),
    Nat.shiftLeft_eq]
  omega

/-- The loop over an aggregate gives the units back. -/
theorem loopSTAP_units (units : List (List UInt8)) (fuel : Nat) (pre : List UInt8)
    (hdata : packet.data = pre ++ units.flatMap Sent.stapUnit)
    (hunits : ∀ unit ∈ units, unit ≠ [] ∧ unit.length ≤ 65535)
    (hfuel : packet.data.length < pre.length + fuel) :
    ∃ frags, loopSTAP fuel packet pre.length = some frags ∧
      frags.map bytes = units := by
  induction units generalizing fuel pre with
  | nil =>
    rw [flatMap_nil, append_nil] at hdata
    obtain ⟨fuel, rfl⟩ : ∃ n, fuel = n + 1 := ⟨fuel - 1, by rw [hdata] at hfuel; omega⟩
    refine ⟨[], ?_, rfl⟩
    rw [loopSTAP, if_neg (by rw [hdata]; omega)]
  | cons unit units ih =>
    obtain ⟨hne, hle⟩ := hunits unit mem_cons_self
    have hpos : 0 < unit.length := length_pos_iff.mpr hne
    have hsplit : packet.data = (pre ++ Sent.stapUnit unit) ++ units.flatMap Sent.stapUnit := by
      rw [hdata, flatMap_cons, append_assoc]
    have hparts : packet.data =
        pre ++ (be16 unit.length ++ (unit ++ units.flatMap Sent.stapUnit)) := by
      rw [hsplit, Sent.stapUnit]
      simp only [append_assoc]
    have hunit : (Sent.stapUnit unit).length = unit.length + 2 := by
      rw [Sent.stapUnit, length_append, Nat.add_comm]
      rfl
    have hlen : packet.data.length =
        pre.length + (unit.length + 2) + (units.flatMap Sent.stapUnit).length := by
      rw [hsplit, length_append, length_append, hunit]
    obtain ⟨fuel, rfl⟩ : ∃ n, fuel = n + 1 := ⟨fuel - 1, by omega⟩
    have hsize : sizeAt packet.data pre.length = unit.length := by
      rw [hparts]
      exact sizeAt_be16 pre _ hle
    obtain ⟨rest, hrest, hbytes⟩ := ih fuel (pre ++ Sent.stapUnit unit) hsplit
      (fun u hu => hunits u (mem_cons_of_mem unit hu))
      (by rw [length_append, hunit]; omega)
    have hnext : (pre ++ Sent.stapUnit unit).length = pre.length + 2 + unit.length := by
      rw [length_append, hunit]
      omega
    rw [hnext] at hrest
    refine ⟨⟨packet.data, pre.length + 2, unit.length⟩ :: rest, ?_, ?_⟩
    · obtain ⟨hr0, hr1⟩ := read_pair packet pre.length (by omega)
      have hsize' : (packet.data.getD pre.length 0).toNat <<< 8 |||
          (packet.data.getD (pre.length + 1) 0).toNat = unit.length := hsize
      rw [loopSTAP, if_pos (by omega)]
      simp only [hr0, hr1, hsize', bind_eq_bind, bind_some, if_neg hpos.ne', hrest,
        Option.pure_def]
    · have hunit' : bytes ⟨packet.data, pre.length + 2, unit.length⟩ = unit := by
        rw [hparts, ← append_assoc]
        exact bytes_at (pre ++ be16 unit.length) unit _ length_append
      rw [map_cons, hbytes, hunit']

/-- An aggregate is output as one payload with a fragment for each unit. -/
theorem parse_aggregate {header : UInt8} {units : List (List UInt8)} (hp : Plain p)
    (hdata : packet.data = header :: units.flatMap Sent.stapUnit)
    (hok : (Sent.aggregate header units).Ok) :
    ∃ p' frags, p.ParsePacket packet = some (.Success, p', [payloadOf packet true frags]) ∧
      Plain p' ∧ frags.map bytes = units := by
  obtain ⟨htype, hnil, hunits⟩ := hok
  have htype' : typeOf packet.data = 24 := by
    rw [hdata]
    exact htype
  have hlen : 0 < packet.data.length := by
    rw [hdata]
    exact Nat.succ_pos _
  obtain ⟨frags, hloop, hbytes⟩ := loopSTAP_units units (packet.data.length + 1) [header] hdata
    hunits (Nat.lt_add_left _ (Nat.lt_succ_self _))
  have hfrags : frags ≠ [] := by
    rintro rfl
    exact hnil hbytes.symm
  have hgen : generateMemFrag
      ⟨{ p with iIsFragmentedBitMask := 0 }, packet, 0, []⟩ 24 =
      some (.Success, frags, ⟨{ p with iIsFragmentedBitMask := 0 }, packet, 0, []⟩) := by
    show generateMemFragSTAP _ 24 = _
    simp only [generateMemFragSTAP, setDonSTAP,
      show ¬ (24 : Nat) = 25 by decide, if_false, bind_eq_bind, bind_some]
    rw [show ([header] : List UInt8).length = 1 from rfl] at hloop
    simp only [hloop, bind_some, if_neg hfrags, Option.pure_def]
  refine ⟨{ p with iIsFragmentedBitMask := 0, iTimestampForFU := 0 }, frags, ?_, hp, hbytes⟩
  rw [ParsePacket_plain hp (length_pos_iff.mp hlen) htype' (by omega),
    parseRTPPayload_For_SingleMessageOutput, if_neg (by simp)]
  have hu : utilityOf 24 = .STAP := rfl
  simp only [setup_plain hp, setMarkerInfo, hu, hgen,
    setMediaDataTimestamp, bind_eq_bind, bind_some, ne_eq,
    not_true_eq_false, if_false, Option.pure_def, map_some, nil_append]
  rfl

/-- The octets of a fragment read as its parts, for the header of any unit. -/
theorem fuA_octets : ∀ n < 256, nalTypeOf ((n &&& 0xe0) ||| 28) = 28 ∧
    ((((n &&& 0xe0) ||| 28) &&& 0xe0) ||| ((0x80 ||| (n &&& 0x1f)) &&& 0x1f) = n) ∧
    ((0x80 ||| (n &&& 0x1f)) &&& 0x80 ≠ 0) ∧
    ((0 ||| (n &&& 0x1f)) &&& 0x80 = 0 ∧ (0 ||| (n &&& 0x1f)) &&& 0x40 = 0) ∧
    ((0x40 ||| (n &&& 0x1f)) &&& 0x80 = 0 ∧ (0x40 ||| (n &&& 0x1f)) &&& 0x40 ≠ 0) := by
  decide +kernel

/-- The fragment's place in its unit: what its flags say. -/
def fuTypeOf (flags : UInt8) : Nat := if flags = 0x80 then 1 else if flags = 0x40 then 3 else 2

/-- The mask keeps the fragment's place in its low bits. -/
theorem mask_low (mask header fuType : Nat) (h : fuType < 4) :
    ((fuType ||| (0 <<< 2) ||| (header <<< 3)) &&& 0x03) = fuType ∧
      ((fuType ||| (0 <<< 2) ||| (header <<< 3) ||| (mask <<< 11) % 2 ^ 32) &&& 0x03) =
        fuType := by
  have hmod : ∀ n, n &&& 0x03 = n % 2 ^ 2 := fun n => Nat.and_two_pow_sub_one_eq_mod n 2
  have hheader : header * 2 ^ 3 % 2 ^ 2 = 0 := by omega
  have hcounter : mask * 2 ^ 11 % 2 ^ 32 % 2 ^ 2 = 0 := by omega
  simp only [hmod, Nat.or_mod_two_pow, Nat.shiftLeft_eq, hheader, hcounter, Nat.zero_mul,
    Nat.or_zero]
  exact ⟨Nat.mod_eq_of_lt h, Nat.mod_eq_of_lt h⟩

section Fragment

variable {header flags : UInt8} {fragment : List UInt8}

/-- The octets in front of a fragment. -/
theorem read_fuA (hdata : packet.data = Sent.fuA header flags fragment) :
    packet.read 0 = some ((header.toNat &&& 0xe0) ||| 28) ∧
      packet.read 1 = some (flags.toNat ||| (header.toNat &&& 0x1f)) := by
  rw [Packet.read, Packet.read, hdata, Sent.fuA]
  simp [UInt8.toNat_or, UInt8.toNat_and]

/-- What the flags of a fragment leave in the parser. -/
theorem marker_fuA (hdata : packet.data = Sent.fuA header flags fragment)
    (hflags : flags = 0x80 ∨ flags = 0 ∨ flags = 0x40) :
    ∃ mask, p.setMarkerInfo packet 28 =
        some (decide (flags = 0x40), { p with iIsFragmentedBitMask := mask }) ∧
      mask &&& 0x03 = fuTypeOf flags := by
  obtain ⟨-, hr1⟩ := read_fuA hdata
  obtain ⟨-, -, hS, ⟨hI, hI'⟩, hE, hE'⟩ := fuA_octets header.toNat header.toNat_lt
  obtain ⟨octet, hoctet⟩ : ∃ octet, flags.toNat ||| (header.toNat &&& 0x1f) = octet := ⟨_, rfl⟩
  have hfu : (if octet &&& 0x80 ≠ 0 then 1 else if octet &&& 0x40 ≠ 0 then 3 else 2) =
      fuTypeOf flags := by
    rw [← hoctet]
    rcases hflags with rfl | rfl | rfl
    · exact if_pos hS
    · exact (if_neg (not_not_intro hI)).trans (if_neg (not_not_intro hI'))
    · exact (if_neg (not_not_intro hE)).trans (if_pos hE')
  have hend : decide (fuTypeOf flags = 3) = decide (flags = 0x40) := by
    rcases hflags with rfl | rfl | rfl <;> rfl
  have hlt : fuTypeOf flags < 4 := by
    rcases hflags with rfl | rfl | rfl <;> decide
  obtain ⟨hlow, hlow'⟩ := mask_low ((p.iIsFragmentedBitMask >>> 11) + 1) octet _ hlt
  show ∃ mask, p.setMarkerInfoFU packet 28 = _ ∧ _
  unfold setMarkerInfoFU
  rw [hr1, hoctet]
  simp only [bind_eq_bind, bind_some, Option.pure_def, hfu, hend,
    show ¬ (28 : Nat) = 29 by decide, if_false, hlow]
  refine ⟨_, rfl, ?_⟩
  split
  · exact hlow'
  · exact hlow

/-- The header of the unit is written in front of its first fragment, and what is output of a
    fragment is behind that. -/
theorem getMemFragFU_fuA {mask : Nat} (hdata : packet.data = Sent.fuA header flags fragment)
    (hflags : flags = 0x80 ∨ flags = 0 ∨ flags = 0x40) (hlen : fragment.length + 2 < 2 ^ 32)
    (hmask : mask &&& 0x03 = fuTypeOf flags) :
    ∃ f data, getMemFragFU
        ⟨{ p with iIsFragmentedBitMask := mask }, packet, 0, []⟩ 28 =
        some (.Success, [f],
          ⟨{ p with iIsFragmentedBitMask := mask }, { packet with data := data }, 0, []⟩) ∧
      f.bytes = if flags = 0x80 then header :: fragment else fragment := by
  obtain ⟨hr0, hr1⟩ := read_fuA hdata
  have hsize : packet.data.length = fragment.length + 2 := by
    rw [hdata]
    rfl
  obtain ⟨-, hheader, -⟩ := fuA_octets header.toNat header.toNat_lt
  have hvalid : validateFU packet 28 = some true := rfl
  have hdon : ∀ q : H264PayloadParser, q.setDonFU packet 28 = some q := fun _ => rfl
  by_cases hstart : flags = 0x80
  · subst hstart
    obtain ⟨data, hd⟩ : ∃ data, data = ((header &&& 0xe0) ||| 28) :: header :: fragment := ⟨_, rfl⟩
    have hput : putNalUnitType packet 1 1 =
        some { packet with data := data } := by
      have h80 : (0x80 : UInt8).toNat = 0x80 := rfl
      rw [h80] at hr1
      simp only [putNalUnitType, if_true, hr0, hr1, bind_eq_bind,
        bind_some, Packet.write, if_pos (show 1 < packet.data.length by omega), hheader,
        UInt8.ofNat_toNat]
      rw [hd, hdata]
      rfl
    have hdlen : data.length = fragment.length + 2 := by
      rw [hd]
      rfl
    refine ⟨⟨data, 1, (data.length + (2 ^ 32 - 1)) % 2 ^ 32⟩, data, ?_, ?_⟩
    · simp only [getMemFragFU, hvalid, hdon, hmask, fuTypeOf, if_true,
        offsetFU, ne_eq, not_true_eq_false, if_false, Nat.zero_shiftLeft,
        show ¬ (28 : Nat) = 29 by decide, Nat.add_zero, hput, bind_eq_bind,
        bind_some, Option.pure_def]
    · have hlen' : (data.length + (2 ^ 32 - 1)) % 2 ^ 32 = (header :: fragment).length := by
        rw [hdlen, length_cons]
        omega
      rw [hlen', if_pos rfl, hd]
      exact bytes_rest [(header &&& 0xe0) ||| 28] (header :: fragment)
  · have hother : fuTypeOf flags ≠ 1 := by
      rw [fuTypeOf, if_neg hstart]
      split <;> decide
    refine ⟨⟨packet.data, 2, (packet.data.length + (2 ^ 32 - 2)) % 2 ^ 32⟩, packet.data, ?_, ?_⟩
    · simp only [getMemFragFU, hvalid, hdon, hmask, if_true,
        offsetFU, ne_eq, hother, not_false_eq_true, Nat.zero_shiftLeft,
        show ¬ (28 : Nat) = 29 by decide, if_false, Nat.add_zero,
        putNalUnitType, bind_eq_bind, bind_some, Option.pure_def]
    · have hlen' : (packet.data.length + (2 ^ 32 - 2)) % 2 ^ 32 = fragment.length := by
        rw [hsize]
        omega
      rw [hlen', if_neg hstart, hdata]
      exact bytes_rest [(header &&& 0xe0) ||| 28, flags ||| (header &&& 0x1f)] fragment

theorem parse_fragment (hp : Plain p) (hdata : packet.data = Sent.fuA header flags fragment)
    (hflags : flags = 0x80 ∨ flags = 0 ∨ flags = 0x40) (hlen : fragment.length + 2 < 2 ^ 32)
    (hts : flags = 0x80 ∨ p.iTimestampForFU = packet.timestamp) :
    ∃ p' f, p.ParsePacket packet =
        some (.Success, p', [payloadOf packet (decide (flags = 0x40)) [f]]) ∧ Plain p' ∧
      (flags = 0x40 ∨ p'.iTimestampForFU = packet.timestamp) ∧
      f.bytes = if flags = 0x80 then header :: fragment else fragment := by
  have htype : typeOf packet.data = 28 := by
    rw [hdata, typeOf, Sent.fuA, getD_cons_zero, UInt8.toNat_or, UInt8.toNat_and]
    exact (fuA_octets header.toNat header.toNat_lt).1
  have hnil : packet.data ≠ [] := by
    rw [hdata]
    exact cons_ne_nil _ _
  obtain ⟨mask, hmarker, hmask⟩ := marker_fuA (p := p) hdata hflags
  obtain ⟨f, data, hfrag, hbytes⟩ := getMemFragFU_fuA (p := p) hdata hflags hlen hmask
  have hgen : generateMemFrag
      ⟨{ p with iIsFragmentedBitMask := mask }, packet, 0, []⟩ 28 = _ := hfrag
  have hu : utilityOf 28 = .FU := rfl
  rw [ParsePacket_plain hp hnil htype (by omega),
    parseRTPPayload_For_SingleMessageOutput, if_neg (by simp)]
  simp only [setup_plain hp, hmarker, hgen, setMediaDataTimestamp, hu,
    bind_eq_bind, bind_some, ne_eq, not_true_eq_false, if_false, Option.pure_def,
    map_some, nil_append]
  have hfor : (if fuTypeOf flags = 1 ∨ p.iTimestampForFU = 0 then packet.timestamp
      else p.iTimestampForFU) = packet.timestamp := by
    rcases hts with rfl | hts
    · exact if_pos (.inl rfl)
    · rw [hts, ite_self]
  refine ⟨{ p with
      iIsFragmentedBitMask := mask
      iTimestampForFU := if fuTypeOf flags = 3 then 0 else packet.timestamp }, f, ?_, hp, ?_,
    hbytes⟩
  · simp only [H264PayloadParser.setMediaDataTimestampFU, hmask, hfor, ite_self, payloadOf]
  · rcases hflags with rfl | rfl | rfl
    · exact .inr rfl
    · exact .inr rfl
    · exact .inl rfl

end Fragment

end Packet

/-! ## 4. One message -/

section Message

variable {p q r : H264PayloadParser} {packet : Packet} {packets rest : List Packet}
variable {status : PayloadParserStatus} {output outputs : List Payload}

theorem parseAll_cons (h : p.ParsePacket packet = some (status, q, output))
    (hrest : parseAll q packets = some (r, outputs)) :
    parseAll p (packet :: packets) = some (r, output ++ outputs) := by
  simp only [parseAll, h, hrest, bind_eq_bind, bind_some, Option.pure_def]

theorem parseAll_append (h : parseAll p packets = some (q, output))
    (hrest : parseAll q rest = some (r, outputs)) :
    parseAll p (packets ++ rest) = some (r, output ++ outputs) := by
  induction packets generalizing p output with
  | nil =>
    cases h
    exact hrest
  | cons packet packets ih =>
    simp only [parseAll, bind_eq_bind, bind_eq_some_iff, Option.pure_def] at h
    obtain ⟨c, hc, ⟨q', output'⟩, hpackets, h⟩ := h
    cases h
    rw [append_assoc]
    exact parseAll_cons hc (ih hpackets)

/-- The pieces of a payload with one fragment. -/
theorem pieces_payloadOf (packet : Packet) (endOfNAL : Bool) (frags : List MemFrag) :
    (payloadOf packet endOfNAL frags).pieces =
      (frags.map bytes).map fun bytes => (packet.timestamp, bytes) := by
  rw [List.map_map]
  rfl

/-- The fragments behind the first one end the NAL unit. -/
theorem rest_received {header : UInt8} {ts : Nat} {middle : List (List UInt8)}
    {last : List UInt8} (hsent : packets.map (fun packet => (packet.timestamp, packet.data)) =
      (middle.map (Sent.fuA header 0) ++ [Sent.fuA header 0x40 last]).map fun data => (ts, data))
    (hlen : ∀ fragment ∈ middle ++ [last], fragment.length + 2 < 2 ^ 32) (hp : Plain p)
    (hts : p.iTimestampForFU = ts) :
    ∃ q outputs pieces, parseAll p packets = some (q, outputs) ∧ Plain q ∧
      Delivers pieces (ts, (middle ++ [last]).flatten) ∧
      ∀ pending more, pending ≠ [] → collect pending (outputs ++ more) =
        ((pending ++ pieces) :: (collect [] more).1, (collect [] more).2) := by
  induction middle generalizing p packets with
  | nil =>
    obtain ⟨packet, rfl, hpacket⟩ := map_eq_singleton_iff.mp hsent
    obtain ⟨htime, hdata⟩ := Prod.mk.inj hpacket
    obtain ⟨q, f, hparse, hq, -, hbytes⟩ := parse_fragment hp hdata (.inr (.inr rfl))
      (hlen last mem_cons_self) (.inr (hts.trans htime.symm))
    refine ⟨q, _, [(ts, last)], parseAll_cons hparse rfl, hq, ⟨rfl, ?_⟩, fun pending more hne => ?_⟩
    · simp
    · rw [append_nil, singleton_append, collect, if_pos (by rfl), if_neg hne,
        pieces_payloadOf, htime, map_singleton, hbytes, if_neg (by decide)]
      rfl
  | cons fragment middle ih =>
    obtain ⟨packet, packets, rfl, hpacket, hrest⟩ := map_eq_cons_iff.mp hsent
    obtain ⟨htime, hdata⟩ := Prod.mk.inj hpacket
    obtain ⟨q, f, hparse, hq, hts', hbytes⟩ := parse_fragment hp hdata (.inr (.inl rfl))
      (hlen fragment mem_cons_self) (.inr (hts.trans htime.symm))
    obtain ⟨r, outputs, pieces, hall, hr, ⟨hflat, htimes⟩, hcollect⟩ := ih hrest
      (fun x hx => hlen x (mem_cons_of_mem fragment hx)) hq
      ((hts'.resolve_left (by decide)).trans htime)
    refine ⟨r, _, (ts, fragment) :: pieces, parseAll_cons hparse hall, hr, ⟨?_, ?_⟩,
      fun pending more hne => ?_⟩
    · exact congrArg (fragment ++ ·) hflat
    · exact forall_mem_cons.mpr ⟨rfl, htimes⟩
    · rw [append_assoc, singleton_append, collect,
        if_neg (by exact Bool.false_ne_true),
        hcollect _ more (by simp [hne]), pieces_payloadOf, htime, map_singleton, hbytes,
        if_neg (by decide), append_assoc]
      rfl

theorem message_received {message : Nat × Sent} (hok : message.2.Ok)
    (hsent : packets.map (fun packet => (packet.timestamp, packet.data)) =
      message.2.payloads.map fun data => (message.1, data)) (hp : Plain p) :
    ∃ q outputs groups, parseAll p packets = some (q, outputs) ∧ Plain q ∧
      Forall₂ Delivers groups (message.2.units.map fun unit => (message.1, unit)) ∧
      ∀ more, collect [] (outputs ++ more) =
        (groups ++ (collect [] more).1, (collect [] more).2) := by
  obtain ⟨ts, sent⟩ := message
  cases sent with
  | single unit =>
    obtain ⟨packet, rfl, hpacket⟩ := map_eq_singleton_iff.mp hsent
    obtain ⟨htime, hdata⟩ := Prod.mk.inj hpacket
    obtain ⟨hne, htype⟩ := hok
    obtain ⟨q, f, hparse, hq, hbytes⟩ := parse_single hp (by rw [hdata]; exact hne)
      (by rw [hdata]; exact htype)
    refine ⟨q, _, [[(ts, unit)]], parseAll_cons hparse rfl, hq, ?_, fun more => ?_⟩
    · refine .cons ⟨append_nil unit, ?_⟩ .nil
      simp
    · rw [append_nil, singleton_append, collect, if_pos (by rfl), if_pos rfl,
        pieces_payloadOf, htime, map_singleton, hbytes, hdata]
      rfl
  | aggregate header units =>
    obtain ⟨packet, rfl, hpacket⟩ := map_eq_singleton_iff.mp hsent
    obtain ⟨htime, hdata⟩ := Prod.mk.inj hpacket
    obtain ⟨q, frags, hparse, hq, hbytes⟩ := parse_aggregate hp hdata hok
    refine ⟨q, _, units.map fun unit => [(ts, unit)], parseAll_cons hparse rfl, hq, ?_,
      fun more => ?_⟩
    · rw [forall₂_map_left_iff, Sent.units, forall₂_map_right_iff, forall₂_same]
      intro unit _
      refine ⟨append_nil unit, ?_⟩
      simp
    · rw [append_nil, singleton_append, collect, if_pos (by rfl), if_pos rfl,
        pieces_payloadOf, htime, hbytes, List.map_map]
      rfl
  | fragmented header first middle last =>
    obtain ⟨packet, packets, rfl, hpacket, hrest⟩ := map_eq_cons_iff.mp hsent
    obtain ⟨htime, hdata⟩ := Prod.mk.inj hpacket
    obtain ⟨q, f, hparse, hq, hts', hbytes⟩ := parse_fragment hp hdata (.inl rfl)
      (hok first mem_cons_self).2 (.inl rfl)
    obtain ⟨r, outputs, pieces, hall, hr, ⟨hflat, htimes⟩, hcollect⟩ := rest_received hrest
      (fun x hx => (hok x (mem_cons_of_mem first hx)).2) hq
      ((hts'.resolve_left (by decide)).trans htime)
    refine ⟨r, _, [(ts, header :: first) :: pieces], parseAll_cons hparse hall, hr, ?_,
      fun more => ?_⟩
    · refine .cons ⟨?_, forall_mem_cons.mpr ⟨rfl, htimes⟩⟩ .nil
      exact congrArg (header :: first ++ ·) hflat
    · rw [append_assoc, singleton_append, collect,
        if_neg (by exact Bool.false_ne_true),
        pieces_payloadOf, htime, map_singleton, hbytes, if_pos rfl, map_singleton,
        nil_append, hcollect _ more (cons_ne_nil _ _)]
      rfl

end Message

/-! ## 5. Every message -/

/-- The NAL units of messages, with their times. -/
def unitsOf (messages : List (Nat × Sent)) : List (Nat × List UInt8) :=
  messages.flatMap fun message => message.2.units.map fun unit => (message.1, unit)

/-- From any parser of the non-interleaved mode on. -/
theorem messages_received {p : H264PayloadParser} (messages : List (Nat × Sent))
    (packets : List Packet) (hp : Plain p) (hok : ∀ message ∈ messages, message.2.Ok)
    (hsent : Sends packets messages) :
    ∃ q outputs, parseAll p packets = some (q, outputs) ∧ (collect [] outputs).2 = [] ∧
      Forall₂ Delivers (collect [] outputs).1 (unitsOf messages) := by
  induction messages generalizing p packets with
  | nil =>
    obtain rfl : packets = [] := map_eq_nil_iff.mp hsent
    exact ⟨p, [], rfl, rfl, .nil⟩
  | cons message messages ih =>
    obtain ⟨own, others, rfl, hown, hothers⟩ := map_eq_append_iff.mp hsent
    obtain ⟨q, outputs, groups, hall, hq, hgroups, hcollect⟩ :=
      message_received (hok message mem_cons_self) hown hp
    obtain ⟨r, more, hmore, hend, hreceived⟩ := ih others hq
      (fun m hm => hok m (mem_cons_of_mem message hm)) hothers
    refine ⟨r, outputs ++ more, parseAll_append hall hmore, ?_, ?_⟩
    · rw [hcollect]
      exact hend
    · rw [hcollect]
      exact rel_append hgroups hreceived

/-- A parameter set by itself, two NAL units in a STAP-A, and one in three FU-As at time zero. -/
def mixed : List (Nat × Sent) :=
  [(9, .single [0x67, 66]), (9, .aggregate 0x78 [[0x68, 206], [0x06]]),
    (0, .fragmented 0x65 [136] [[1, 2]] [128])]

/-- The packets of `mixed`. -/
def mixedPackets : List Packet :=
  [⟨0, [0x67, 66], 9, 1, false, true⟩,
    ⟨100, [0x78, 0, 2, 0x68, 206, 0, 1, 0x06], 9, 2, true, false⟩,
    ⟨200, [0x7c, 0x85, 136], 0, 3, false, false⟩, ⟨300, [0x7c, 0x05, 1, 2], 0, 4, false, false⟩,
    ⟨400, [0x7c, 0x45, 128], 0, 5, true, false⟩]

end OpenCore.RtpPayload
