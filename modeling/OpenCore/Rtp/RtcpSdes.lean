/-
  File:      OpenCore/Rtp/RtcpSdes.lean
  Subject:   Source descriptions, written by `RTCP_Encoder::EncodeSDES` and read by
             `RTCP_Decoder::DecodeSDES` (rtcp_encoder.cpp, rtcp_decoder.cpp).

  The decoder goes over the items of a chunk twice, to count them and to record them. Of more than
  ten items the second pass records ten: the branch for the others asks for an index below ten
  where it is ten.

  **Main result**: `sdes_survives`.
-/
import OpenCore.Rtp.RtcpReports

namespace OpenCore.Rtp

open Lib OsclUtil
open List (append_assoc append_nil flatMap_cons length_append length_cons length_map map_cons
  mem_cons_of_mem mem_cons_self mem_map mem_singleton nil_append sum_cons)

/-! ## 1. The packets -/

/-- `OsclMemoryFragment`: the bytes from its pointer on, and how many of them it has. -/
structure OsclMemoryFragment where
  ptr : List UInt8
  len : Nat
  len_le : len ≤ ptr.length

def OsclMemoryFragment.bytes (fragment : OsclMemoryFragment) : List UInt8 :=
  fragment.ptr.take fragment.len

structure SDES_item where
  type : UInt8
  content : OsclMemoryFragment

structure SDES_chunk where
  ssrc : UInt32
  chunkSize : UInt32
  items : GrownArray SDES_item

structure RTCP_SDES where
  chunks : GrownArray SDES_chunk

def TMP_SDES_STORAGE : Nat := 10

def SDES_item.new : SDES_item := ⟨0, [], 0, Nat.le_refl 0⟩

/-- One item in the object, and one is the limit. -/
def SDES_chunk.new : SDES_chunk := ⟨0, 0, GrownArray.new [SDES_item.new] 1⟩

def RTCP_SDES.new : RTCP_SDES := ⟨GrownArray.new [SDES_chunk.new] 1⟩

/-- `OSCL_ARRAY_NEW` of items. -/
def newItems (n : Nat) : Vector SDES_item n := Vector.replicate n SDES_item.new

/-- `OSCL_ARRAY_NEW` of chunks. -/
def newChunks (n : Nat) : Vector SDES_chunk n := Vector.replicate n SDES_chunk.new

/-! ## 2. The encoder -/

/-- SSRC, null item and padding are added to the size of a chunk. -/
def addPadding (chunkSize : UInt32) : UInt32 := chunkSize + (8 - (chunkSize &&& 3))

/-- `GetEncodedSize`, in the 32 bits of its number. -/
def RTCP_SDES.encodedSize (sdes_packet : RTCP_SDES) : UInt32 :=
  (List.range sdes_packet.chunks.num).foldl (fun size ii =>
    match sdes_packet.chunks.read ii with
    | some chunk => size + addPadding chunk.chunkSize
    | none => size) 0 + 4

def EncodeSDESItem : Option SDES_item → Encoder EncoderError Unit
  | none => throw .FAIL
  | some item => emitChecked .FAIL fun outStream =>
    let len := UInt8.ofNat item.content.len
    ((outStream.put8 item.type).put8 len).write (item.content.ptr.take len.toNat)

/-- `EncodeSDESChunk`: SSRC, items, and zeros up to a multiple of four. -/
def EncodeSDESChunk : Option SDES_chunk → Encoder EncoderError Unit
  | none => throw .FAIL
  | some chunk => do
    emitChecked .FAIL fun outStream => outStream.put32 chunk.ssrc
    measured (forM (List.range chunk.items.num) fun ii => EncodeSDESItem (chunk.items.read ii))
      fun len => emitChecked .FAIL fun outStream =>
        outStream.write (List.replicate (4 - len % 4) 0)

/-- `EncodeSDES`. The size is not compared with the one of the buffer. -/
def EncodeSDES (rtcpVersion : UInt8) (sdes_packet : RTCP_SDES) (bufferLen : Nat)
    (padLength : UInt8) : Except EncoderError Unit × OsclBinOStream :=
  let outStream : OsclBinOStream := { length := bufferLen }
  let size := sdes_packet.encodedSize + padLength.toUInt32
  let encoder : Encoder EncoderError Unit := do
    emitHeader rtcpVersion SDES_PACKET_TYPE (UInt8.ofNat sdes_packet.chunks.num) size.toUInt16
      (padLength ≠ 0)
    forM (List.range sdes_packet.chunks.num) fun ii => EncodeSDESChunk (sdes_packet.chunks.read ii)
    emitPad padLength
  if size &&& 3 ≠ 0 then (.error .INVALID_PAD_LENGTH, outStream) else encoder outStream

/-! ## 3. The decoder -/

/-- A decoder; nothing where it reads outside the packet. -/
abbrev Decoder (α : Type) := ExceptT DecoderError Option α

section Decoder

variable {α β : Type} (f : α → Decoder β)

theorem ok_bind (a : α) : (ExceptT.mk (some (.ok a)) >>= f) = f a := rfl

theorem error_bind (e : DecoderError) :
    (ExceptT.mk (some (.error e)) >>= f) = ExceptT.mk (some (.error e)) := rfl

end Decoder

/-- The temporary items, the number of all items, and the bytes from `ptr` on. -/
structure ScannedItems where
  stored : List SDES_item
  numItems : Nat
  ptr : List UInt8

/-- The loop that counts the items and stores the first ten. -/
def scanItems (stored : List SDES_item) (numItems : Nat) :
    List UInt8 → Except DecoderError ScannedItems
  | type :: itemLen :: rest =>
    if type = 0 then .ok ⟨stored, numItems, type :: itemLen :: rest⟩
    else if h : rest.length < itemLen.toNat then .error .EOS_ON_READ
    else
      let item : SDES_item := ⟨type, rest, itemLen.toNat, Nat.le_of_not_lt h⟩
      scanItems (if numItems < TMP_SDES_STORAGE then stored ++ [item] else stored) (numItems + 1)
        (rest.drop itemLen.toNat)
  | ptr => .ok ⟨stored, numItems, ptr⟩
termination_by ptr => ptr.length

/-- The loop that records the temporary items. -/
def recordItems :
    List SDES_item → Nat → GrownArray SDES_item → Except DecoderError (GrownArray SDES_item)
  | [], _, items => .ok items
  | item :: stored, ii, items =>
    match items.get newItems ii with
    | none => .error .FAIL
    | some items => recordItems stored (ii + 1) (items.store ii item)

/-- The loop that is to record the items that were not stored. -/
def recordRest (numItems : Nat) :
    Nat → GrownArray SDES_item → List UInt8 → Except DecoderError (GrownArray SDES_item)
  | ii, items, type :: itemLen :: rest =>
    if ¬ ii < numItems ∨ type = 0 then .ok items
    else
      match items.get newItems ii with
      | none => .error .FAIL
      | some items =>
        if h : rest.length < itemLen.toNat then .error .EOS_ON_READ
        else
          recordRest numItems (ii + 1)
            (items.store ii ⟨type, rest, itemLen.toNat, Nat.le_of_not_lt h⟩)
            (rest.drop itemLen.toNat)
  | _, items, _ => .ok items
termination_by _ _ ptr => ptr.length

/-- `DecodeSDESChunk`. Behind its loops, `ii` is `loop_limit`. -/
def DecodeSDESChunk (inStream : OsclBinIStream) (chunk : SDES_chunk) (chunkData : List UInt8) :
    Decoder (SDES_chunk × OsclBinIStream) := do
  let ssrc := inStream.Read_uint32
  let scanned ← ExceptT.mk (some (scanItems [] 0 (chunkData.drop 4)))
  match scanned.ptr with
  | [] => ExceptT.mk none
  | end_byte :: behind =>
    if end_byte ≠ 0 then throw .EOS_ON_READ
    else
      let items := chunk.items.growKeeping newItems scanned.numItems
      let loopLimit :=
        if scanned.numItems ≤ TMP_SDES_STORAGE then scanned.numItems else TMP_SDES_STORAGE
      let items ← ExceptT.mk (some (recordItems (scanned.stored.take loopLimit) 0 items))
      let ii := loopLimit
      let items ← ExceptT.mk (some
        (if loopLimit < scanned.numItems ∧ ii < TMP_SDES_STORAGE then
          let content := (scanned.stored.getD ii SDES_item.new).content
          recordRest scanned.numItems ii items (content.ptr.drop (content.len % 256))
        else .ok items))
      let len := chunkData.length - 4 - (behind.length + 1)
      let inStream := ssrc.2.seekFromCurrentPosition (len + (4 - len % 4) : Nat)
      if inStream.fail then throw .FAIL
      else return (⟨ssrc.1, chunk.chunkSize, items⟩, inStream)

/-- The loop over the chunks. -/
def decodeChunks (inputPacket : List UInt8) :
    Nat → Nat → GrownArray SDES_chunk → OsclBinIStream → Decoder (GrownArray SDES_chunk)
  | 0, _, chunks, _ => pure chunks
  | count + 1, ii, chunks, inStream =>
    match chunks.get newChunks ii with
    | none => throw .FAIL
    | some chunks => do
      let chunk ← ExceptT.mk (chunks.places[ii]?.map Except.ok)
      let r ← DecodeSDESChunk inStream chunk (inputPacket.drop inStream.position)
      decodeChunks inputPacket count (ii + 1) (chunks.store ii r.1) r.2

/-- `DecodeSDES`. The length in the header is not looked at. -/
def DecodeSDES (rtcpVersion : UInt8) (inputPacket : List UInt8) (sdes_packet : RTCP_SDES) :
    Decoder RTCP_SDES := do
  let header ← ExceptT.mk (some (decodeHeader rtcpVersion SDES_PACKET_TYPE inputPacket))
  let chunkCount := header.recordCount.toNat
  let chunks := sdes_packet.chunks.growKeeping newChunks chunkCount
  let chunks ← decodeChunks inputPacket chunkCount 0 chunks header.inStream
  return ⟨chunks⟩

/-! ## 4. What a packet should survive -/

def SDES_item.value (item : SDES_item) : UInt8 × List UInt8 := (item.type, item.content.bytes)

/-- What a chunk says: its SSRC and its items. -/
def SDES_chunk.value (chunk : SDES_chunk) : UInt32 × List (UInt8 × List UInt8) :=
  (chunk.ssrc, chunk.items.elems.map SDES_item.value)

/-- The same chunks are decoded in a new packet. -/
def RTCP_SDES.Decoded (sdes_packet : RTCP_SDES) (rtcpVersion : UInt8) (packet : List UInt8) :
    Prop :=
  ∃ d : RTCP_SDES, DecodeSDES rtcpVersion packet RTCP_SDES.new = ExceptT.mk (some (.ok d)) ∧
    d.chunks.elems.map SDES_chunk.value = sdes_packet.chunks.elems.map SDES_chunk.value

/-- The bytes of a chunk's items, counted over the items there are. -/
def SDES_chunk.contentSize (chunk : SDES_chunk) : Nat :=
  (chunk.items.elems.map fun item => item.content.len + 2).sum

/-- Up to 31 chunks of items with up to 255 bytes. -/
structure SdesInRange (sdes_packet : RTCP_SDES) : Prop where
  fits : sdes_packet.chunks.Fits
  num_le : sdes_packet.chunks.num ≤ 31
  items : ∀ chunk ∈ sdes_packet.chunks.elems, chunk.items.Fits ∧
    ∀ item ∈ chunk.items.elems, item.content.len ≤ 255

/-- **When it survives**. The version has two bits, a chunk has up to ten items and none of the
    type that ends them, the sizes the chunks hold are those of their items, and the length field
    has room for the size. -/
structure SdesSurvivesWhen (rtcpVersion : UInt8) (sdes_packet : RTCP_SDES) (padLength : UInt8) :
    Prop where
  version : rtcpVersion < 4
  items : ∀ chunk ∈ sdes_packet.chunks.elems, chunk.items.num ≤ 10 ∧
    ∀ item ∈ chunk.items.elems, item.type ≠ 0
  sizes : (sdes_packet.chunks.elems.map fun chunk => chunk.chunkSize.toNat / 4).sum % 1073741824 =
    (sdes_packet.chunks.elems.map fun chunk => chunk.contentSize / 4).sum % 1073741824
  short : 4 + (sdes_packet.chunks.elems.map fun chunk => 8 + 4 * (chunk.contentSize / 4)).sum +
    padLength.toNat < 65536

/-! ## 5. The bytes of a source description -/

open SDES_chunk (contentSize new value)

def itemBytes (item : SDES_item) : List UInt8 :=
  [item.type] ++ [UInt8.ofNat item.content.len] ++
    item.content.ptr.take (UInt8.ofNat item.content.len).toNat

/-- The null item and the padding. -/
def endBytes (len : Nat) : List UInt8 := List.replicate (4 - len % 4) 0

def chunkBytes (chunk : SDES_chunk) : List UInt8 :=
  longBytes chunk.ssrc ++ (chunk.items.elems.flatMap itemBytes ++
    endBytes (chunk.items.elems.flatMap itemBytes).length)

def sdesBody (sdes_packet : RTCP_SDES) (padLength : UInt8) : List UInt8 :=
  sdes_packet.chunks.elems.flatMap chunkBytes ++ padBytes padLength

section Emitted

variable {rtcpVersion padLength : UInt8} {sdes_packet : RTCP_SDES} {chunk : SDES_chunk}
  {item : SDES_item}

theorem emits_item (item : SDES_item) :
    Emits .FAIL (EncodeSDESItem (some item)) (itemBytes item) :=
  emits_emitChecked (((writes_put8 item.type).comp (writes_put8 _)).comp (writes_write _))

theorem emits_chunk (hfits : chunk.items.Fits) :
    Emits .FAIL (EncodeSDESChunk (some chunk)) (chunkBytes chunk) := by
  have hitems : Emits .FAIL
      (forM (List.range chunk.items.num) fun ii => EncodeSDESItem (chunk.items.read ii))
      (chunk.items.elems.flatMap itemBytes) := by
    rw [hfits.forM_read EncodeSDESItem]
    exact Emits.forM fun item _ => emits_item item
  exact (emits_emitChecked (writes_put32 chunk.ssrc)).bind
    (hitems.measured (emits_emitChecked (writes_write (endBytes _))))

theorem bytes_of_le (h : item.content.len ≤ 255) :
    (UInt8.ofNat item.content.len).toNat = item.content.len ∧
      item.content.ptr.take (UInt8.ofNat item.content.len).toNat = item.content.bytes ∧
      item.content.bytes.length = item.content.len := by
  have hlt : item.content.len < UInt8.size := Nat.lt_of_le_of_lt h (by decide)
  have hlen : (UInt8.ofNat item.content.len).toNat = item.content.len :=
    UInt8.toNat_ofNat_of_lt' hlt
  refine ⟨hlen, by rw [hlen, OsclMemoryFragment.bytes], ?_⟩
  rw [OsclMemoryFragment.bytes, List.length_take, Nat.min_eq_left item.content.len_le]

theorem length_items {items : List SDES_item} (h : ∀ item ∈ items, item.content.len ≤ 255) :
    (items.flatMap itemBytes).length = (items.map fun item => item.content.len + 2).sum := by
  induction items with
  | nil => rfl
  | cons item items ih =>
    obtain ⟨-, htake, hlen⟩ := bytes_of_le (h item mem_cons_self)
    rw [flatMap_cons, length_append, ih fun i hi => h i (mem_cons_of_mem _ hi),
      map_cons, sum_cons, itemBytes, htake, length_append, hlen]
    change 2 + _ + _ = _
    omega

theorem length_chunkBytes (h : ∀ item ∈ chunk.items.elems, item.content.len ≤ 255) :
    (chunkBytes chunk).length = 8 + 4 * (chunk.contentSize / 4) := by
  unfold chunkBytes endBytes
  rw [length_append, length_append, List.length_replicate, length_items h]
  change 4 + (chunk.contentSize + (4 - chunk.contentSize % 4)) = _
  omega

theorem addPadding_eq (chunkSize : UInt32) :
    addPadding chunkSize = UInt32.ofNat (8 + 4 * (chunkSize.toNat / 4)) := by
  have hand : (chunkSize &&& 3).toNat = chunkSize.toNat % 4 := by
    rw [UInt32.toNat_and]
    exact Nat.and_two_pow_sub_one_eq_mod _ 2
  have hle : chunkSize &&& 3 ≤ 8 := by
    rw [UInt32.le_iff_toNat_le, hand]
    change _ ≤ 8
    omega
  refine UInt32.toNat_inj.mp ?_
  rw [addPadding, UInt32.toNat_add, UInt32.toNat_sub_of_le _ _ hle, hand, UInt32.toNat_ofNat']
  change (_ + (8 - _)) % 4294967296 = _ % 4294967296
  omega

/-- The size the chunks give, before it is cut to 32 bits. -/
def RTCP_SDES.countedSize (sdes_packet : RTCP_SDES) : Nat :=
  4 + (sdes_packet.chunks.elems.map fun chunk => 8 + 4 * (chunk.chunkSize.toNat / 4)).sum

theorem encodedSize_eq (hfits : sdes_packet.chunks.Fits) :
    sdes_packet.encodedSize = UInt32.ofNat sdes_packet.countedSize := by
  let add : UInt32 → Option SDES_chunk → UInt32 := fun size chunk =>
    chunk.elim size fun chunk => size + addPadding chunk.chunkSize
  have hloop : sdes_packet.encodedSize = (sdes_packet.chunks.elems.map some).foldl add 0 + 4 := by
    rw [← hfits.read_all, List.foldl_map]
    unfold RTCP_SDES.encodedSize
    congr 2
    funext size ii
    cases sdes_packet.chunks.read ii <;> rfl
  have hsum : ∀ (chunks : List SDES_chunk) (size : Nat),
      (chunks.map some).foldl add (UInt32.ofNat size) = UInt32.ofNat (size +
        (chunks.map fun chunk => 8 + 4 * (chunk.chunkSize.toNat / 4)).sum) := by
    intro chunks
    induction chunks with
    | nil => exact fun size => rfl
    | cons chunk chunks ih =>
      intro size
      have hadd : add (UInt32.ofNat size) (some chunk) =
          UInt32.ofNat (size + (8 + 4 * (chunk.chunkSize.toNat / 4))) := by
        change UInt32.ofNat size + addPadding chunk.chunkSize = _
        rw [addPadding_eq, ← UInt32.ofNat_add]
      rw [map_cons, List.foldl_cons, hadd, ih, map_cons, sum_cons, Nat.add_assoc]
  rw [hloop, show (0 : UInt32) = UInt32.ofNat 0 from rfl, hsum, Nat.zero_add,
    RTCP_SDES.countedSize, Nat.add_comm 4, UInt32.ofNat_add]
  rfl

/-- The size of a packet as the encoder computes it. -/
theorem size_toNat (hfits : sdes_packet.chunks.Fits) :
    (sdes_packet.encodedSize + padLength.toUInt32).toNat =
      (sdes_packet.countedSize + padLength.toNat) % 4294967296 := by
  rw [encodedSize_eq hfits, UInt32.toNat_add, UInt32.toNat_ofNat', UInt8.toNat_toUInt32]
  exact Nat.mod_add_mod _ _ _

theorem countedSize_mod (sdes_packet : RTCP_SDES) : sdes_packet.countedSize % 4 = 0 := by
  have hsum : ∀ chunks : List SDES_chunk,
      (chunks.map fun chunk => 8 + 4 * (chunk.chunkSize.toNat / 4)).sum % 4 = 0 := by
    intro chunks
    induction chunks with
    | nil => rfl
    | cons chunk chunks ih =>
      rw [map_cons, sum_cons]
      omega
  have := hsum sdes_packet.chunks.elems
  unfold RTCP_SDES.countedSize
  omega

/-- **What is written** for a source description: all of it, or the encoder fails in the buffer. -/
theorem encodeSDES_written (hr : SdesInRange sdes_packet) (hpad : padLength.toNat % 4 = 0)
    (bufferLen : Nat) :
    (4 + (sdesBody sdes_packet padLength).length ≤ bufferLen →
      (EncodeSDES rtcpVersion sdes_packet bufferLen padLength).1 = .ok () ∧
      (EncodeSDES rtcpVersion sdes_packet bufferLen padLength).2.written =
        headerBytes rtcpVersion SDES_PACKET_TYPE (UInt8.ofNat sdes_packet.chunks.num)
          (sdes_packet.encodedSize + padLength.toUInt32).toUInt16 (padLength ≠ 0) ++
          sdesBody sdes_packet padLength) ∧
    (bufferLen < 4 + (sdesBody sdes_packet padLength).length →
      (EncodeSDES rtcpVersion sdes_packet bufferLen padLength).1 = .error .FAIL ∧
      (EncodeSDES rtcpVersion sdes_packet bufferLen padLength).2.tellg ≤ bufferLen) := by
  have hchunks : Emits .FAIL (forM (List.range sdes_packet.chunks.num) fun ii =>
      EncodeSDESChunk (sdes_packet.chunks.read ii))
      (sdes_packet.chunks.elems.flatMap chunkBytes) := by
    rw [hr.fits.forM_read EncodeSDESChunk]
    exact Emits.forM fun chunk hchunk => emits_chunk (hr.items chunk hchunk).1
  have hemits := (@emits_header rtcpVersion SDES_PACKET_TYPE
    (UInt8.ofNat sdes_packet.chunks.num) (sdes_packet.encodedSize + padLength.toUInt32).toUInt16
    (decide (padLength ≠ 0))).bind (hchunks.bind (@emits_pad padLength))
  have hmul : (sdes_packet.encodedSize + padLength.toUInt32) &&& 3 = 0 := by
    have hcounted := countedSize_mod sdes_packet
    refine UInt32.toNat_inj.mp ?_
    rw [UInt32.toNat_and, size_toNat hr.fits]
    refine (Nat.and_two_pow_sub_one_eq_mod _ 2).trans ?_
    change _ % 4 = 0
    omega
  unfold EncodeSDES
  dsimp only
  rw [if_neg (not_not.mpr hmul)]
  constructor
  · intro hroom
    obtain ⟨hok, -, hw, -⟩ := hemits.fits { length := bufferLen } rfl
      (by rw [length_append, length_headerBytes]
          change 0 + (4 + (sdesBody sdes_packet padLength).length) ≤ bufferLen
          omega)
    exact ⟨hok, hw⟩
  · intro hlt
    obtain ⟨herr, hin, hl⟩ := hemits.full { length := bufferLen } rfl (Nat.zero_le _)
      (by rw [length_append, length_headerBytes]
          change bufferLen < 0 + (4 + (sdesBody sdes_packet padLength).length)
          omega)
    exact ⟨herr, hin.trans (Nat.le_of_eq hl)⟩

end Emitted

/-! ## 6. The two passes over a chunk -/

section Chunk

variable {stored : List SDES_item} {numItems : Nat} {ptr chunkData : List UInt8}
  {scanned : ScannedItems} {inStream : OsclBinIStream}

/-- **The first pass** stores up to ten items, none of type zero. -/
theorem scanItems_stored (h : scanItems stored numItems ptr = .ok scanned)
    (hlen : stored.length = min numItems 10) (htypes : ∀ item ∈ stored, item.type ≠ 0) :
    scanned.stored.length = min scanned.numItems 10 ∧
      ∀ item ∈ scanned.stored, item.type ≠ 0 := by
  fun_induction scanItems stored numItems ptr with
  | case1 | case4 =>
    cases h
    exact ⟨hlen, htypes⟩
  | case2 => cases h
  | case3 stored numItems type itemLen rest htype hle item ih =>
    refine ih h ?_ ?_
    · split
      · rename_i hfew
        change numItems < 10 at hfew
        rw [length_append, hlen, List.length_singleton]
        omega
      · rename_i hmany
        change ¬ numItems < 10 at hmany
        omega
    · split
      · intro i hi
        rcases List.mem_append.mp hi with hi | hi
        · exact htypes i hi
        · rw [mem_singleton.mp hi]
          exact htype
      · exact htypes

/-- **The second pass** appends the items that were stored. -/
theorem recordItems_ok (stored : List SDES_item) {items : GrownArray SDES_item} (hfits : items.Fits)
    (hroom : items.num + stored.length ≤ items.max) :
    ∃ items', recordItems stored items.num items = .ok items' ∧
      items'.elems = items.elems ++ stored := by
  induction stored generalizing items with
  | nil => exact ⟨items, rfl, (append_nil _).symm⟩
  | cons item stored ih =>
    rw [length_cons] at hroom
    obtain ⟨items', y, hget, -, hmore, -⟩ := hfits.get_next newItems (by omega)
    have hmore := hmore item
    obtain ⟨items'', hloop, helems⟩ := ih hmore.fits
      (by rw [hmore.num_eq, hmore.max_eq]; omega)
    refine ⟨items'', ?_, by rw [helems, hmore.elems_eq, append_assoc]; rfl⟩
    rw [recordItems, hget]
    rw [hmore.num_eq] at hloop
    exact hloop

/-- **What a chunk is decoded to**: the items that were stored, behind the end of the others. -/
theorem DecodeSDESChunk_eq (inStream : OsclBinIStream) {behind : List UInt8}
    (hscan : scanItems [] 0 (chunkData.drop 4) = .ok scanned) (hptr : scanned.ptr = 0 :: behind) :
    ∃ items : GrownArray SDES_item, items.elems = scanned.stored ∧
      DecodeSDESChunk inStream new chunkData = ExceptT.mk (some
        (let len := chunkData.length - 4 - (behind.length + 1)
        let s := inStream.Read_uint32.2.seekFromCurrentPosition (len + (4 - len % 4) : Nat)
        if s.fail then .error .FAIL else .ok (⟨inStream.Read_uint32.1, 0, items⟩, s))) := by
  obtain ⟨hlen, -⟩ := scanItems_stored hscan rfl nofun
  obtain ⟨hready, -⟩ := @GrownArray.ready_growKeeping _ newItems scanned.numItems SDES_item.new 1
    fun n => rfl
  obtain ⟨items, hrecord, helems⟩ := recordItems_ok scanned.stored hready.fits
    (by have := hready.room_le; rw [hready.num_eq, hlen]; omega)
  rw [hready.num_eq] at hrecord
  rw [hready.elems_eq, nil_append] at helems
  refine ⟨items, helems, ?_⟩
  have hlimit : (if scanned.numItems ≤ TMP_SDES_STORAGE then scanned.numItems
      else TMP_SDES_STORAGE) = scanned.stored.length := by
    rw [hlen]
    unfold TMP_SDES_STORAGE
    split <;> omega
  have hnot : ¬ (scanned.stored.length < scanned.numItems ∧
      scanned.stored.length < TMP_SDES_STORAGE) := by
    rw [hlen]
    unfold TMP_SDES_STORAGE
    omega
  unfold DecodeSDESChunk
  dsimp only
  rw [hscan, ok_bind, hptr]
  dsimp only
  rw [if_neg (not_not.mpr rfl), hlimit, List.take_length, show new.items =
    GrownArray.new [SDES_item.new] 1 from rfl, hrecord, ok_bind, if_neg hnot, ok_bind]
  split <;> rfl

/-- **Every decoded chunk** has up to ten items, none of type zero. -/
theorem DecodeSDESChunk_few {chunk : SDES_chunk} {s : OsclBinIStream}
    (h : DecodeSDESChunk inStream new chunkData =
      ExceptT.mk (some (.ok (chunk, s)))) :
    chunk.items.elems.length ≤ 10 ∧ ∀ item ∈ chunk.items.elems, item.type ≠ 0 := by
  cases hscan : scanItems [] 0 (chunkData.drop 4) with
  | error e =>
    unfold DecodeSDESChunk at h
    rw [hscan, error_bind] at h
    cases h
  | ok scanned =>
    cases hptr : scanned.ptr with
    | nil =>
      unfold DecodeSDESChunk at h
      rw [hscan, ok_bind, hptr] at h
      cases h
    | cons end_byte behind =>
      by_cases hend : end_byte = 0
      · subst hend
        obtain ⟨hlen, htypes⟩ := scanItems_stored hscan rfl nofun
        obtain ⟨items, helems, heq⟩ := DecodeSDESChunk_eq inStream hscan hptr
        rw [heq] at h
        dsimp only at h
        split at h
        · cases h
        · cases h
          rw [helems]
          exact ⟨by omega, htypes⟩
      · unfold DecodeSDESChunk at h
        rw [hscan, ok_bind, hptr] at h
        dsimp only at h
        rw [if_pos hend] at h
        cases h

/-- Written items are scanned up to the zero behind them. -/
theorem scanItems_bytes {items : List SDES_item} (stored : List SDES_item) (numItems : Nat)
    (behind : List UInt8)
    (hitems : ∀ item ∈ items, item.type ≠ 0 ∧ item.content.len ≤ 255)
    (hfew : numItems + items.length ≤ 10) :
    ∃ scanned, scanItems stored numItems (items.flatMap itemBytes ++ 0 :: behind) =
        .ok scanned ∧ scanned.ptr = 0 :: behind ∧
      scanned.stored.map SDES_item.value =
        stored.map SDES_item.value ++ items.map SDES_item.value := by
  induction items generalizing stored numItems with
  | nil =>
    refine ⟨⟨stored, numItems, 0 :: behind⟩, ?_, rfl, (append_nil _).symm⟩
    cases behind with
    | nil => rw [List.flatMap_nil, nil_append, scanItems.eq_def]
    | cons b behind =>
      rw [List.flatMap_nil, nil_append, scanItems.eq_def]
      dsimp only
      rw [if_pos rfl]
  | cons item items ih =>
    rw [length_cons] at hfew
    obtain ⟨htype, hle⟩ := hitems item mem_cons_self
    obtain ⟨hlen, htake, hbytes⟩ := bytes_of_le hle
    have hsplit : (item :: items).flatMap itemBytes ++ 0 :: behind =
        item.type :: UInt8.ofNat item.content.len ::
          (item.content.bytes ++ (items.flatMap itemBytes ++ 0 :: behind)) := by
      rw [flatMap_cons, append_assoc, itemBytes, htake]
      rfl
    generalize hrest : item.content.bytes ++ (items.flatMap itemBytes ++ 0 :: behind) = rest
      at hsplit
    have htakeRest : rest.take (UInt8.ofNat item.content.len).toNat = item.content.bytes := by
      rw [hlen, ← hrest, ← hbytes, List.take_left]
    have hdropRest : rest.drop (UInt8.ofNat item.content.len).toNat =
        items.flatMap itemBytes ++ 0 :: behind := by
      rw [hlen, ← hrest, ← hbytes, List.drop_left]
    have hroom : ¬ rest.length < (UInt8.ofNat item.content.len).toNat := by
      rw [hlen, ← hrest, length_append, hbytes]
      omega
    have hstore : numItems < TMP_SDES_STORAGE := by
      change numItems < 10
      omega
    obtain ⟨scanned, hscan, hptr, hvalues⟩ := ih
      (stored ++ [⟨item.type, rest, _, Nat.le_of_not_lt hroom⟩]) (numItems + 1)
      (fun i hi => hitems i (mem_cons_of_mem _ hi)) (by omega)
    refine ⟨scanned, ?_, hptr, ?_⟩
    · rw [hsplit, scanItems.eq_def]
      dsimp only
      rw [if_neg htype, dif_neg hroom, if_pos hstore, hdropRest]
      exact hscan
    · rw [hvalues, List.map_append, append_assoc]
      change _ ++ ((item.type, rest.take _) :: _) = _
      rw [htakeRest]
      rfl

/-- **A written chunk** comes back, and the stream is behind its padding. -/
theorem DecodeSDESChunk_bytes {chunk : SDES_chunk} {rest : List UInt8}
    (hat : At inStream (chunkBytes chunk ++ rest)) (hblock : inStream.block.length < 4294967296)
    (hfew : chunk.items.elems.length ≤ 10)
    (hitems : ∀ item ∈ chunk.items.elems, item.type ≠ 0 ∧ item.content.len ≤ 255) :
    ∃ d s, DecodeSDESChunk inStream new (inStream.block.drop inStream.position) =
        ExceptT.mk (some (.ok (d, s))) ∧ d.value = chunk.value ∧ At s rest ∧
      s.block = inStream.block := by
  generalize hall : chunk.items.elems.flatMap itemBytes = all
  have hsplit : chunkBytes chunk ++ rest = longBytes chunk.ssrc ++
      ((all ++ endBytes all.length) ++ rest) := by
    rw [chunkBytes, hall, append_assoc]
  rw [hsplit] at hat
  obtain ⟨s₁, h₁, hat₁, hblock₁, -⟩ := hat.readLong
  have hend : (all ++ endBytes all.length) ++ rest =
      all ++ 0 :: (List.replicate (4 - all.length % 4 - 1) 0 ++ rest) := by
    have hpos : 4 - all.length % 4 = 4 - all.length % 4 - 1 + 1 := by omega
    rw [endBytes, append_assoc, hpos, List.replicate_succ, List.cons_append]
    rfl
  have hdata : (inStream.block.drop inStream.position).drop 4 =
      all ++ 0 :: (List.replicate (4 - all.length % 4 - 1) 0 ++ rest) := by
    rw [hat.rest, ← hend]
    rfl
  obtain ⟨scanned, hscan, hptr, hvalues⟩ := scanItems_bytes [] 0
    (List.replicate (4 - all.length % 4 - 1) 0 ++ rest) hitems (by omega)
  rw [hall, ← hdata] at hscan
  obtain ⟨items, helems, heq⟩ := DecodeSDESChunk_eq inStream hscan hptr
  have hlen : (inStream.block.drop inStream.position).length - 4 -
      ((List.replicate (4 - all.length % 4 - 1) (0 : UInt8) ++ rest).length + 1) = all.length := by
    rw [← List.length_drop, hdata, length_append, length_cons]
    omega
  obtain ⟨hat₂, hblock₂, -⟩ := hat₁.skip (by rw [hblock₁]; exact hblock)
  have hskip : all.length + (4 - all.length % 4) = (all ++ endBytes all.length).length := by
    rw [length_append, endBytes, List.length_replicate]
  refine ⟨⟨chunk.ssrc, 0, items⟩, _, ?_, ?_, hat₂, hblock₂.trans hblock₁⟩
  · rw [heq, hlen]
    dsimp only
    rw [hskip, h₁]
    dsimp only
    rw [if_neg (by rw [hat₂.sound]; exact Bool.false_ne_true)]
  · change (chunk.ssrc, items.elems.map SDES_item.value) = _
    rw [helems, hvalues]
    rfl

end Chunk

/-! ## 7. All the chunks -/

section Chunks

variable {inputPacket rest : List UInt8} {inStream : OsclBinIStream}
  {chunks chunks' : GrownArray SDES_chunk} {count : Nat}

/-- **Every chunk** that is decoded is decoded into a new one. -/
theorem decodeChunks_few (hfits : chunks.Fits) (hblank : chunks.Blank new)
    (hroom : chunks.num + count ≤ chunks.max)
    (h : decodeChunks inputPacket count chunks.num chunks inStream =
      ExceptT.mk (some (.ok chunks')))
    (hbefore : ∀ chunk ∈ chunks.elems, chunk.items.elems.length ≤ 10 ∧
      ∀ item ∈ chunk.items.elems, item.type ≠ 0) :
    ∀ chunk ∈ chunks'.elems, chunk.items.elems.length ≤ 10 ∧
      ∀ item ∈ chunk.items.elems, item.type ≠ 0 := by
  induction count generalizing chunks inStream with
  | zero =>
    cases h
    exact hbefore
  | succ count ih =>
    obtain ⟨g, y, hget, hplace, hmore, hnew⟩ := hfits.get_next newChunks (by omega)
    obtain ⟨rfl, hblank⟩ := hnew new (fun n => rfl) hblank
    rw [decodeChunks, hget] at h
    dsimp only at h
    rw [hplace, Option.map_some, ok_bind] at h
    generalize hdecode : DecodeSDESChunk inStream new
      (inputPacket.drop inStream.position) = decoded at h
    rcases decoded with _ | e | ⟨chunk, s⟩
    · cases h
    · cases h
    · have hmore := hmore chunk
      refine ih hmore.fits (hblank chunk) (by rw [hmore.num_eq, hmore.max_eq]; omega)
        (by rw [hmore.num_eq]; exact h) fun c hc => ?_
      rw [hmore.elems_eq] at hc
      rcases List.mem_append.mp hc with hc | hc
      · exact hbefore c hc
      · rw [mem_singleton.mp hc]
        exact DecodeSDESChunk_few hdecode

/-- **All the written chunks** come back behind those that were read before. -/
theorem decodeChunks_bytes {written : List SDES_chunk} (hfits : chunks.Fits)
    (hblank : chunks.Blank new)
    (hroom : chunks.num + written.length ≤ chunks.max)
    (hat : At inStream (written.flatMap chunkBytes ++ rest))
    (hblock : inStream.block.length < 4294967296)
    (hwritten : ∀ chunk ∈ written, chunk.items.elems.length ≤ 10 ∧
      ∀ item ∈ chunk.items.elems, item.type ≠ 0 ∧ item.content.len ≤ 255) :
    ∃ chunks', decodeChunks inStream.block written.length chunks.num chunks inStream =
        ExceptT.mk (some (.ok chunks')) ∧
      chunks'.elems.map value =
        chunks.elems.map value ++ written.map value := by
  induction written generalizing chunks inStream with
  | nil => exact ⟨chunks, rfl, (append_nil _).symm⟩
  | cons chunk written ih =>
    rw [length_cons] at hroom
    rw [flatMap_cons, append_assoc] at hat
    obtain ⟨hfew, hitems⟩ := hwritten chunk mem_cons_self
    obtain ⟨d, s, hdecode, hvalue, hat', hblock'⟩ := DecodeSDESChunk_bytes hat hblock hfew hitems
    obtain ⟨g, y, hget, hplace, hmore, hnew⟩ := hfits.get_next newChunks (by omega)
    obtain ⟨rfl, hblank⟩ := hnew new (fun n => rfl) hblank
    have hmore := hmore d
    obtain ⟨chunks', hloop, hvalues⟩ := ih hmore.fits (hblank d)
      (by rw [hmore.num_eq, hmore.max_eq]; omega) hat' (by rw [hblock']; exact hblock)
      fun c hc => hwritten c (mem_cons_of_mem _ hc)
    refine ⟨chunks', ?_, ?_⟩
    · rw [length_cons, decodeChunks, hget]
      dsimp only
      rw [hplace, Option.map_some, ok_bind, hdecode, ok_bind]
      rw [hmore.num_eq, hblock'] at hloop
      exact hloop
    · rw [hvalues, hmore.elems_eq, List.map_append, append_assoc, List.map_singleton, hvalue]
      rfl

end Chunks

/-! ## 8. The source descriptions survive -/

section Survive

variable {rtcpVersion padLength : UInt8} {sdes_packet : RTCP_SDES} {size : UInt16}

/-- **A written source description**, decoded. -/
theorem DecodeSDES_bytes (hr : SdesInRange sdes_packet)
    (hlt : (sdesBody sdes_packet padLength).length < 4294967292)
    (hitems : ∀ chunk ∈ sdes_packet.chunks.elems, chunk.items.num ≤ 10 ∧
      ∀ item ∈ chunk.items.elems, item.type ≠ 0) (hv : rtcpVersion < 4) :
    sdes_packet.Decoded rtcpVersion (headerBytes rtcpVersion SDES_PACKET_TYPE
      (UInt8.ofNat sdes_packet.chunks.num) size (padLength ≠ 0) ++
      sdesBody sdes_packet padLength) := by
  obtain ⟨s, hat, -, hblock, hheader⟩ := @decodeHeader_headerBytes rtcpVersion SDES_PACKET_TYPE
    (UInt8.ofNat sdes_packet.chunks.num) size (decide (padLength ≠ 0))
    (sdesBody sdes_packet padLength)
  obtain ⟨hready, hblank⟩ := @GrownArray.ready_growKeeping _ newChunks sdes_packet.chunks.num
    new 1 fun n => rfl
  have hblockLen : s.block.length < 4294967296 := by
    rw [hblock, length_append, length_headerBytes]
    omega
  obtain ⟨chunks, hloop, hvalues⟩ := decodeChunks_bytes hready.fits hblank
    (by rw [hr.fits.length_elems]; exact hready.room) hat hblockLen
    fun chunk hchunk => by
      obtain ⟨hfits, hle⟩ := hr.items chunk hchunk
      obtain ⟨hfew, htypes⟩ := hitems chunk hchunk
      exact ⟨hfits.length_elems.trans_le hfew, fun item hitem => ⟨htypes item hitem, hle item hitem⟩⟩
  rw [hready.num_eq, hr.fits.length_elems, hblock] at hloop
  refine ⟨⟨chunks⟩, ?_, by rw [hvalues, hready.elems_eq]; rfl⟩
  unfold DecodeSDES
  rw [hheader, if_pos hv, ok_bind]
  dsimp only
  rw [recordCount_toNat hr.num_le]
  change decodeChunks _ _ _ (GrownArray.growKeeping newChunks (GrownArray.new [new] 1)
    sdes_packet.chunks.num) s >>= _ = _
  rw [hloop]
  rfl

/-- **What is decoded** has the version in two bits, and up to ten items in a chunk. -/
theorem DecodeSDES_few (hr : SdesInRange sdes_packet)
    (h : sdes_packet.Decoded rtcpVersion (headerBytes rtcpVersion SDES_PACKET_TYPE
      (UInt8.ofNat sdes_packet.chunks.num) size (padLength ≠ 0) ++
      sdesBody sdes_packet padLength)) :
    rtcpVersion < 4 ∧ ∀ chunk ∈ sdes_packet.chunks.elems, chunk.items.num ≤ 10 ∧
      ∀ item ∈ chunk.items.elems, item.type ≠ 0 := by
  obtain ⟨d, hdecode, hvalues⟩ := h
  obtain ⟨s, hat, -, hblock, hheader⟩ := @decodeHeader_headerBytes rtcpVersion SDES_PACKET_TYPE
    (UInt8.ofNat sdes_packet.chunks.num) size (decide (padLength ≠ 0))
    (sdesBody sdes_packet padLength)
  unfold DecodeSDES at hdecode
  rw [hheader] at hdecode
  by_cases hv : rtcpVersion < 4
  · refine ⟨hv, fun chunk hchunk => ?_⟩
    obtain ⟨hready, hblank⟩ := @GrownArray.ready_growKeeping _ newChunks sdes_packet.chunks.num
      new 1 fun n => rfl
    rw [if_pos hv, ok_bind] at hdecode
    dsimp only at hdecode
    rw [recordCount_toNat hr.num_le] at hdecode
    generalize hloop : decodeChunks _ _ _ _ _ = r at hdecode
    rcases r with _ | e | chunks
    · cases hdecode
    · cases hdecode
    · obtain rfl : RTCP_SDES.mk chunks = d := Except.ok.inj (Option.some.inj hdecode)
      have hdecoded := decodeChunks_few hready.fits hblank hready.room
        (by rw [hready.num_eq]; exact hloop) (by rw [hready.elems_eq]; exact nofun)
      obtain ⟨c, hc, hvalue⟩ := mem_map.mp (hvalues ▸ List.mem_map_of_mem hchunk)
      obtain ⟨hfew, htypes⟩ := hdecoded c hc
      have hsame : c.items.elems.map SDES_item.value = chunk.items.elems.map SDES_item.value :=
        congrArg Prod.snd hvalue
      refine ⟨?_, fun item hitem => ?_⟩
      · have hlen := congrArg List.length hsame
        rw [length_map, length_map, (hr.items chunk hchunk).1.length_elems] at hlen
        rwa [← hlen]
      · obtain ⟨i, hi, hivalue⟩ := mem_map.mp (hsame ▸ List.mem_map_of_mem hitem)
        have htype : i.type = item.type := congrArg Prod.fst hivalue
        rw [← htype]
        exact htypes i hi
  · rw [if_neg hv, error_bind] at hdecode
    cases hdecode

theorem sum_padded (chunks : List SDES_chunk) (f : SDES_chunk → Nat) :
    (chunks.map fun chunk => 8 + 4 * (f chunk / 4)).sum =
      8 * chunks.length + 4 * (chunks.map fun chunk => f chunk / 4).sum := by
  induction chunks with
  | nil => rfl
  | cons chunk chunks ih =>
    rw [map_cons, sum_cons, ih, map_cons, sum_cons, length_cons]
    omega

theorem length_sdesBody (hr : SdesInRange sdes_packet) :
    (sdesBody sdes_packet padLength).length =
      (sdes_packet.chunks.elems.map fun chunk => 8 + 4 * (chunk.contentSize / 4)).sum +
        padLength.toNat := by
  have hchunks : ∀ chunks : List SDES_chunk, (∀ chunk ∈ chunks, ∀ item ∈ chunk.items.elems,
      item.content.len ≤ 255) → (chunks.flatMap chunkBytes).length =
        (chunks.map fun chunk => 8 + 4 * (chunk.contentSize / 4)).sum := by
    intro chunks h
    induction chunks with
    | nil => rfl
    | cons chunk chunks ih =>
      rw [flatMap_cons, length_append, map_cons, sum_cons,
        length_chunkBytes (h chunk mem_cons_self),
        ih fun c hc => h c (mem_cons_of_mem _ hc)]
  rw [sdesBody, length_append, length_padBytes,
    hchunks _ fun chunk hchunk => (hr.items chunk hchunk).2]

/-- Ten items at most have 2570 bytes at most. -/
theorem contentSize_le {chunk : SDES_chunk} (hfits : chunk.items.Fits)
    (hfew : chunk.items.num ≤ 10) (hle : ∀ item ∈ chunk.items.elems, item.content.len ≤ 255) :
    chunk.contentSize ≤ 2570 := by
  have hsum := List.sum_le_card_nsmul (chunk.items.elems.map fun item => item.content.len + 2) 257
    fun n hn => by
      obtain ⟨item, hitem, rfl⟩ := mem_map.mp hn
      exact Nat.succ_le_succ (Nat.succ_le_succ (hle item hitem))
  rw [length_map, hfits.length_elems, smul_eq_mul] at hsum
  unfold contentSize
  omega

theorem sum_le_of_few (hr : SdesInRange sdes_packet)
    (hitems : ∀ chunk ∈ sdes_packet.chunks.elems, chunk.items.num ≤ 10 ∧
      ∀ item ∈ chunk.items.elems, item.type ≠ 0) :
    (sdes_packet.chunks.elems.map fun chunk => chunk.contentSize / 4).sum ≤ 31 * 642 := by
  have hsum := List.sum_le_card_nsmul
    (sdes_packet.chunks.elems.map fun chunk => chunk.contentSize / 4) 642 fun n hn => by
      obtain ⟨chunk, hchunk, rfl⟩ := mem_map.mp hn
      obtain ⟨hfits, hle⟩ := hr.items chunk hchunk
      have := contentSize_le hfits (hitems chunk hchunk).1 hle
      omega
  rw [length_map, smul_eq_mul] at hsum
  exact hsum.trans (Nat.mul_le_mul_right 642 (hr.fits.length_elems.trans_le hr.num_le))

/-- A length field of 16 bits is right for fewer than 65536 bytes, and for 262144. -/
theorem short_of_lengthField {total : Nat} (hmul : total % 4 = 0) (hlt : total < 262144)
    (h : ((UInt16.ofNat total / 4 - 1).toNat + 1) * 4 = total) : total < 65536 := by
  have hcut : UInt16.ofNat total = UInt16.ofNat (total % 65536) :=
    UInt16.toNat_inj.mp (by rw [UInt16.toNat_ofNat', UInt16.toNat_ofNat', Nat.mod_mod])
  by_cases hzero : total % 65536 = 0
  · rw [hcut, hzero] at h
    change (65535 + 1) * 4 = total at h
    omega
  · rw [hcut, sizeField_toNat (by omega) (by omega)] at h
    omega

/-- **Source descriptions** survive under these conditions and no others. -/
theorem sdes_survives (hr : SdesInRange sdes_packet) (hpad : padLength.toNat % 4 = 0) :
    Survives (fun bufferLen => EncodeSDES rtcpVersion sdes_packet bufferLen padLength)
        (sdes_packet.encodedSize + padLength.toUInt32).toNat (sdes_packet.Decoded rtcpVersion) ↔
      SdesSurvivesWhen rtcpVersion sdes_packet padLength := by
  have hbody := @length_sdesBody padLength sdes_packet hr
  have hsize := @size_toNat padLength sdes_packet hr.fits
  have hcounted : sdes_packet.countedSize = 4 + _ := rfl
  rw [sum_padded _ fun chunk => chunk.chunkSize.toNat] at hcounted
  rw [sum_padded _ contentSize] at hbody
  have hpadLt := padLength.toNat_lt
  have hlen := hr.fits.length_elems.trans_le hr.num_le
  have hfield : ∀ rest, lengthField (headerBytes rtcpVersion SDES_PACKET_TYPE
      (UInt8.ofNat sdes_packet.chunks.num) (sdes_packet.encodedSize + padLength.toUInt32).toUInt16
      (padLength ≠ 0) ++ rest) = (UInt16.ofNat (sdes_packet.encodedSize +
        padLength.toUInt32).toNat / 4 - 1).toNat := fun rest => lengthField_headerBytes rest
  constructor
  · intro h
    -- in a buffer with room for both sizes, what is written has them both
    obtain ⟨-, hlength, hlengthField, hdecoded⟩ := h.written
      (max (sdes_packet.encodedSize + padLength.toUInt32).toNat
        (4 + (sdesBody sdes_packet padLength).length)) (Nat.le_max_left _ _)
    obtain ⟨-, hw⟩ := (@encodeSDES_written rtcpVersion padLength sdes_packet hr hpad _).1
      (Nat.le_max_right (sdes_packet.encodedSize + padLength.toUInt32).toNat _)
    rw [hw] at hlength hlengthField hdecoded
    rw [length_append, length_headerBytes] at hlength
    rw [hfield] at hlengthField
    obtain ⟨hv, hitems⟩ := DecodeSDES_few hr hdecoded
    have hcontent := sum_le_of_few hr hitems
    have hshort := short_of_lengthField (by omega) (by omega) hlengthField
    rw [hsize, hcounted] at hlength
    refine ⟨hv, hitems, by omega, ?_⟩
    rw [sum_padded _ contentSize]
    omega
  · intro h
    have hshort := h.short
    rw [sum_padded _ contentSize] at hshort
    have hsizes := h.sizes
    have htotal : (sdes_packet.encodedSize + padLength.toUInt32).toNat =
        4 + (sdesBody sdes_packet padLength).length := by
      rw [hsize, hbody, hcounted]
      omega
    refine ⟨fun bufferLen hroom => ?_, fun bufferLen hfull => ?_⟩
    · obtain ⟨hok, hw⟩ := (@encodeSDES_written rtcpVersion padLength sdes_packet hr hpad
        bufferLen).1 (by rw [← htotal]; exact hroom)
      rw [hw, hfield]
      refine ⟨hok, ?_, ?_, DecodeSDES_bytes hr (by omega) h.items h.version⟩
      · rw [length_append, length_headerBytes, htotal]
      · rw [htotal, sizeField_toNat (by omega) (by omega)]
        omega
    · obtain ⟨herr, hin⟩ := (@encodeSDES_written rtcpVersion padLength sdes_packet hr hpad
        bufferLen).2 (by rw [← htotal]; exact hfull)
      exact ⟨⟨_, herr⟩, hin⟩

end Survive

/-! ## 9. Reports and source descriptions -/

/-- The packets of the three kinds. -/
inductive RTCP_Packet where
  | rr (rr_packet : RTCP_RR)
  | sr (sr_packet : RTCP_SR)
  | sdes (sdes_packet : RTCP_SDES)

namespace RTCP_Packet

def InRange : RTCP_Packet → Prop
  | rr rr_packet => ReportsInRange rr_packet.reports
  | sr sr_packet => ReportsInRange sr_packet.reports
  | sdes sdes_packet => SdesInRange sdes_packet

/-- A packet is encoded, decoded, and the same. -/
def Survives (rtcpVersion padLength : UInt8) : RTCP_Packet → Prop
  | rr rr_packet => Rtp.Survives (fun bufferLen => EncodeRR rtcpVersion rr_packet bufferLen padLength)
      (rr_packet.encodedSize + padLength.toNat) (rr_packet.Decoded rtcpVersion)
  | sr sr_packet => Rtp.Survives (fun bufferLen => EncodeSR rtcpVersion sr_packet bufferLen padLength)
      (sr_packet.encodedSize + padLength.toNat) (sr_packet.Decoded rtcpVersion)
  | sdes sdes_packet =>
    Rtp.Survives (fun bufferLen => EncodeSDES rtcpVersion sdes_packet bufferLen padLength)
      (sdes_packet.encodedSize + padLength.toUInt32).toNat (sdes_packet.Decoded rtcpVersion)

def SurvivesWhen (rtcpVersion padLength : UInt8) : RTCP_Packet → Prop
  | rr _ => rtcpVersion < 4
  | sr _ => rtcpVersion < 4
  | sdes sdes_packet => SdesSurvivesWhen rtcpVersion sdes_packet padLength

/-- **Reports survive** always, **source descriptions** under their conditions. -/
theorem survives_iff {packet : RTCP_Packet} {rtcpVersion padLength : UInt8}
    (hpacket : packet.InRange) (hpad : padLength.toNat % 4 = 0) :
    packet.Survives rtcpVersion padLength ↔ packet.SurvivesWhen rtcpVersion padLength := by
  cases packet with
  | rr rr_packet => exact rr_survives hpacket hpad
  | sr sr_packet => exact sr_survives hpacket hpad
  | sdes sdes_packet => exact sdes_survives hpacket hpad

end RTCP_Packet

/-- A chunk with one CNAME item. -/
def cnameChunk : SDES_chunk :=
  ⟨0x01020304, 6, ⟨1, 1, [⟨1, [0x50, 0x56, 0x53, 0x53], 4, Nat.le_refl 4⟩], none⟩⟩

theorem survives_cname :
    (RTCP_Packet.sdes ⟨⟨1, 1, [cnameChunk], none⟩⟩).Survives 2 0 :=
  (@RTCP_Packet.survives_iff (.sdes ⟨⟨1, 1, [cnameChunk], none⟩⟩) 2 0
    ⟨⟨Nat.le_refl 1, nofun, nofun⟩, by decide, fun chunk hchunk => by
      obtain rfl := mem_singleton.mp hchunk
      exact ⟨⟨Nat.le_refl 1, nofun, nofun⟩, fun item hitem => by
        obtain rfl := mem_singleton.mp hitem
        decide⟩⟩
    rfl).mpr
    ⟨by decide, fun chunk hchunk => by
      obtain rfl := mem_singleton.mp hchunk
      exact ⟨by decide, fun item hitem => by
        obtain rfl := mem_singleton.mp hitem
        decide⟩,
    by decide, by decide⟩

/-- A chunk with eleven empty TOOL items. -/
def elevenItems : SDES_chunk :=
  ⟨0, 22, ⟨11, 11, [⟨6, [], 0, Nat.le_refl 0⟩],
    some (List.replicate 10 ⟨6, [], 0, Nat.le_refl 0⟩)⟩⟩

/-- **Eleven items** are written, and ten come back. -/
theorem eleven_items_lost :
    (RTCP_Packet.sdes ⟨⟨1, 1, [elevenItems], none⟩⟩).InRange ∧
      ¬ (RTCP_Packet.sdes ⟨⟨1, 1, [elevenItems], none⟩⟩).Survives 2 0 := by
  have hitem : ∀ item ∈ elevenItems.items.elems, item = ⟨6, [], 0, Nat.le_refl 0⟩ := by
    intro item hitem
    have hitem : item ∈ List.replicate 11 (⟨6, [], 0, Nat.le_refl 0⟩ : SDES_item) := hitem
    exact List.eq_of_mem_replicate hitem
  have hrange : SdesInRange ⟨⟨1, 1, [elevenItems], none⟩⟩ := by
    refine ⟨⟨Nat.le_refl 1, nofun, nofun⟩, by decide, fun chunk hchunk => ?_⟩
    obtain rfl := mem_singleton.mp hchunk
    refine ⟨⟨Nat.le_refl 11, fun b hb => ?_, fun _ => rfl⟩, fun item hi => ?_⟩
    · cases hb
      exact List.length_replicate
    · rw [hitem item hi]
      exact Nat.zero_le _
  refine ⟨hrange, fun h => ?_⟩
  obtain ⟨hfew, -⟩ := ((sdes_survives hrange rfl).mp h).items elevenItems
    (List.mem_singleton_self _)
  exact absurd hfew (by decide)

end OpenCore.Rtp
