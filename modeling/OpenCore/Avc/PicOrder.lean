/-
  File:      OpenCore/Avc/PicOrder.lean
  Subject:   PICTURE ORDER COUNTS: what the encoder puts into the slice headers, and what the
             decoder makes of it.

  Both sides keep the count of the picture before, and for type 1 the frames counted so far
  (`InSync`). The encoder moves its reference point back by whole cycles of the lsb
  (`moveRef_eq`); the decoder finds the cycle that is nearest to the picture before
  (`msb_nearest`).

  **Main result**: `decodePOC_eq`.
-/
import OpenCore.Lib.Run
import OpenCore.Lib.Word32
import OpenCore.Avc.Syntax

namespace OpenCore.Avc

/-! ## 1. The state -/

/-- The fields of `AVCCommonObj` for the order of pictures. -/
structure PicOrder where
  PrevRefFrameNum : Nat
  prevFrameNum : Nat
  prevPicOrderCntMsb : Int
  prevPicOrderCntLsb : Nat
  PicOrderCntMsb : Int
  TopFieldOrderCnt : Int
  BottomFieldOrderCnt : Int
  PicOrderCnt : Int
  prevFrameNumOffset : Int
  FrameNumOffset : Int
  absFrameNum : Int
  picOrderCntCycleCnt : Int
  frameNumInPicOrderCntCycle : Int
  expectedDeltaPerPicOrderCntCycle : Int
  expectedPicOrderCnt : Int
  mem_mgr_ctrl_eq_5 : Bool
  deriving DecidableEq, Repr

/-- The fields of `AVCSliceHeader` for the order of pictures. -/
structure OrderHeader where
  frame_num : Nat
  field_pic_flag : Nat
  bottom_field_flag : Nat
  pic_order_cnt_lsb : Nat
  delta_pic_order_cnt_bottom : Int
  delta_pic_order_cnt : Int × Int
  deriving DecidableEq, Repr

/-- A frame to be coded. -/
structure Frame where
  idr : Bool
  nal_ref_idc : Nat
  disp_order : Nat
  deriving DecidableEq, Repr

def AVC_MIN (x y : Int) : Int := if x < y then x else y

/-! ## 2. What both sides compute -/

/-- The most significant part of the count of type 0. -/
def pocMsb (sps : AVCSeqParamSet) (v : PicOrder) (lsb : Nat) : Int :=
  if lsb < v.prevPicOrderCntLsb ∧ v.prevPicOrderCntLsb - lsb ≥ sps.MaxPicOrderCntLsb / 2 then
    addInt32 v.prevPicOrderCntMsb sps.MaxPicOrderCntLsb
  else if lsb > v.prevPicOrderCntLsb ∧
      lsb - v.prevPicOrderCntLsb > sps.MaxPicOrderCntLsb / 2 then
    addInt32 v.prevPicOrderCntMsb (-sps.MaxPicOrderCntLsb)
  else v.prevPicOrderCntMsb

/-- The sum of the first `n` offsets of the cycle. -/
def sumOffsets (sps : AVCSeqParamSet) (n : Nat) : Int :=
  ((List.range n).map fun i => sps.offset_for_ref_frame.getD i 0).sum

/-- `FrameNumOffset`. -/
def setFrameNumOffset (sps : AVCSeqParamSet) (f : Frame) (frame_num : Nat) (v : PicOrder) :
    PicOrder :=
  if f.idr then { v with prevFrameNumOffset := 0, FrameNumOffset := 0 }
  else if v.prevFrameNum > frame_num then
    { v with FrameNumOffset := v.prevFrameNumOffset + sps.MaxFrameNum }
  else { v with FrameNumOffset := v.prevFrameNumOffset }

/-- `absFrameNum`, for the offset. -/
def absFrameNumOf (sps : AVCSeqParamSet) (f : Frame) (frame_num : Nat) (FrameNumOffset : Int) :
    Int :=
  let abs := if sps.num_ref_frames_in_pic_order_cnt_cycle ≠ 0 then FrameNumOffset + frame_num else 0
  if abs > 0 ∧ f.nal_ref_idc = 0 then abs - 1 else abs

/-- The expected count of type 1, with the cycle and the frame in it. -/
def setExpected (sps : AVCSeqParamSet) (f : Frame) (frame_num : Nat) (v : PicOrder) : PicOrder :=
  let n := sps.num_ref_frames_in_pic_order_cnt_cycle
  let v := setFrameNumOffset sps f frame_num v
  let abs := absFrameNumOf sps f frame_num v.FrameNumOffset
  let cnt := if abs > 0 then (abs - 1) / n else v.picOrderCntCycleCnt
  let inCycle := if abs > 0 then (abs - 1) % n else v.frameNumInPicOrderCntCycle
  let delta := sumOffsets sps n
  let expected := if abs ≠ 0 then cnt * delta + sumOffsets sps (inCycle + 1).toNat else 0
  { v with
    absFrameNum := abs
    picOrderCntCycleCnt := cnt
    frameNumInPicOrderCntCycle := inCycle
    expectedDeltaPerPicOrderCntCycle := delta
    expectedPicOrderCnt :=
      if f.nal_ref_idc = 0 then expected + sps.offset_for_non_ref_pic else expected }

/-- `FrameNumOffset` and the count of type 2. -/
def setPOC2 (sps : AVCSeqParamSet) (f : Frame) (frame_num : Nat) (v : PicOrder) : PicOrder :=
  let offset : Int := if f.idr then 0
    else if v.prevFrameNum > frame_num then v.prevFrameNumOffset + sps.MaxFrameNum
    else v.prevFrameNumOffset
  { v with
    FrameNumOffset := offset
    PicOrderCnt := if f.idr then 0
      else if f.nal_ref_idc = 0 then 2 * (offset + frame_num) - 1
      else 2 * (offset + frame_num) }

/-! ## 3. The encoder -/

/-- The encoder: `AVCEncObject`, with the header of the current slice. -/
structure EncOrder where
  dispOrdPOCRef : Nat
  video : PicOrder
  sliceHdr : OrderHeader
  deriving DecidableEq, Repr

inductive AVCEnc_Status where
  | AVCENC_SUCCESS
  | AVCENC_CONSECUTIVE_NONREF
  | AVCENC_POC_FAIL
  deriving DecidableEq, Repr

/-- The loop that moves the reference point back; `none` when the turns run out. -/
def moveRef (MaxLsb disp_order : Nat) : Nat → Nat → Option Nat
  | 0, _ => none
  | fuel + 1, ref =>
    if disp_order < ref then moveRef MaxLsb disp_order fuel (sub32 ref MaxLsb) else some ref

/-- The loop that reduces the lsb. -/
def reduceLsb (MaxLsb : Nat) : Nat → Nat → Nat
  | 0, lsb => lsb
  | fuel + 1, lsb =>
    if lsb ≥ MaxLsb then reduceLsb MaxLsb fuel (sub32 lsb MaxLsb) else lsb

/-- Type 0 of `InitPOC`. -/
def initPOC0 (sps : AVCSeqParamSet) (pps : AVCPicParamSet) (f : Frame) (e : EncOrder) :
    Option EncOrder := do
  let ref₀ := if f.idr then f.disp_order else e.dispOrdPOCRef
  let ref ← moveRef sps.MaxPicOrderCntLsb f.disp_order (ref₀ + 1) ref₀
  let lsb₀ := sub32 f.disp_order ref
  let lsb := reduceLsb sps.MaxPicOrderCntLsb lsb₀ lsb₀
  let h := e.sliceHdr
  let v := if f.idr then { e.video with prevPicOrderCntMsb := 0, prevPicOrderCntLsb := 0 }
    else e.video
  let msb := pocMsb sps v lsb
  let field := h.field_pic_flag ≠ 0
  let bottom := h.bottom_field_flag ≠ 0
  let top := if ¬ field ∨ ¬ bottom then addInt32 msb lsb else v.TopFieldOrderCnt
  let poc := if ¬ field ∨ ¬ bottom then top else v.PicOrderCnt
  let bot := if ¬ field then top + h.delta_pic_order_cnt_bottom
    else if bottom then addInt32 msb lsb else v.BottomFieldOrderCnt
  let poc := if ¬ field then AVC_MIN top bot else if bottom then bot else poc
  some {
    dispOrdPOCRef := ref
    video := { v with
      PicOrderCntMsb := msb, TopFieldOrderCnt := top, BottomFieldOrderCnt := bot
      PicOrderCnt := poc }
    sliceHdr := { h with
      pic_order_cnt_lsb := lsb
      delta_pic_order_cnt_bottom :=
        if pps.pic_order_present_flag ≠ 0 ∧ ¬ field then 0 else h.delta_pic_order_cnt_bottom } }

/-- The deltas of type 1. -/
def orderDeltas (sps : AVCSeqParamSet) (pps : AVCPicParamSet) (f : Frame) (ref : Nat)
    (h : OrderHeader) (expected : Int) : Int × Int :=
  if sps.delta_pic_order_always_zero_flag = 0 then
    let delta := toInt32 (sub32 (sub32 f.disp_order ref) (toUInt32 expected))
    (delta, if pps.pic_order_present_flag ≠ 0 ∧ h.field_pic_flag = 0 then delta else 0)
  else (0, 0)

/-- Type 1 of `InitPOC`. -/
def initPOC1 (sps : AVCSeqParamSet) (pps : AVCPicParamSet) (f : Frame) (e : EncOrder) : EncOrder :=
  let h := e.sliceHdr
  let ref := if f.idr then f.disp_order else e.dispOrdPOCRef
  let v := setExpected sps f h.frame_num e.video
  let d := orderDeltas sps pps f ref h v.expectedPicOrderCnt
  let ttb := sps.offset_for_top_to_bottom_field
  let top := if h.field_pic_flag = 0 ∨ h.bottom_field_flag = 0 then v.expectedPicOrderCnt + d.1
    else v.TopFieldOrderCnt
  let bot := if h.field_pic_flag = 0 then top + ttb + d.2
    else if h.bottom_field_flag = 0 then v.BottomFieldOrderCnt
    else v.expectedPicOrderCnt + ttb + d.1
  { dispOrdPOCRef := ref
    video := { v with
      TopFieldOrderCnt := top, BottomFieldOrderCnt := bot
      PicOrderCnt := if h.field_pic_flag = 0 then AVC_MIN top bot
        else if h.bottom_field_flag = 0 then top else bot }
    sliceHdr := { h with delta_pic_order_cnt := d } }

/-- Type 2 of `InitPOC`; `dispOrdPOCRef` tells whether the frame before was no reference. -/
def initPOC2 (sps : AVCSeqParamSet) (f : Frame) (e : EncOrder) : AVCEnc_Status × EncOrder :=
  if f.nal_ref_idc = 0 ∧ e.dispOrdPOCRef = 1 then (.AVCENC_CONSECUTIVE_NONREF, e)
  else
    let h := e.sliceHdr
    let v := setPOC2 sps f h.frame_num e.video
    let top := if h.field_pic_flag = 0 ∨ h.bottom_field_flag = 0 then v.PicOrderCnt
      else v.TopFieldOrderCnt
    let bot := if h.field_pic_flag = 0 ∨ h.bottom_field_flag ≠ 0 then v.PicOrderCnt
      else v.BottomFieldOrderCnt
    (.AVCENC_SUCCESS,
      { e with
        dispOrdPOCRef := if f.nal_ref_idc = 0 then 1 else 0
        video := { v with TopFieldOrderCnt := top, BottomFieldOrderCnt := bot } })

/-- `InitPOC`; `none` when it does not return. -/
def InitPOC (sps : AVCSeqParamSet) (pps : AVCPicParamSet) (f : Frame) (e : EncOrder) :
    Option (AVCEnc_Status × EncOrder) :=
  match sps.pic_order_cnt_type with
  | 0 => (initPOC0 sps pps f e).map fun e => (.AVCENC_SUCCESS, e)
  | 1 => some (.AVCENC_SUCCESS, initPOC1 sps pps f e)
  | 2 => some (initPOC2 sps f e)
  | _ => some (.AVCENC_POC_FAIL, e)

/-- `InitFrame`, for the numbers of the frame. A frame that is no reference is admitted here too. -/
def InitFrame (sps : AVCSeqParamSet) (pps : AVCPicParamSet) (f : Frame) (e : EncOrder) :
    Option (AVCEnc_Status × EncOrder) :=
  if f.idr then
    InitPOC sps pps f { e with
      video := { e.video with prevFrameNum := sps.MaxFrameNum, PrevRefFrameNum := 0 }
      sliceHdr := { e.sliceHdr with frame_num := 0 } }
  else
    InitPOC sps pps f { e with
      sliceHdr := { e.sliceHdr with
        frame_num := (e.video.PrevRefFrameNum + 1) % sps.MaxFrameNum } }

def PostPOC (sps : AVCSeqParamSet) (h : OrderHeader) (v : PicOrder) : PicOrder :=
  let v := { v with prevFrameNum := h.frame_num }
  match sps.pic_order_cnt_type with
  | 0 =>
    if v.mem_mgr_ctrl_eq_5 then
      { v with prevPicOrderCntMsb := 0, prevPicOrderCntLsb := toUInt32 v.TopFieldOrderCnt }
    else
      { v with
        prevPicOrderCntMsb := v.PicOrderCntMsb, prevPicOrderCntLsb := h.pic_order_cnt_lsb }
  | 1 | 2 =>
    { v with prevFrameNumOffset := if v.mem_mgr_ctrl_eq_5 then 0 else v.FrameNumOffset }
  | _ => v

/-- The end of a picture in the encoder: `StorePictureInDPB` marks an IDR frame, then
    `PrevRefFrameNum` and `PostPOC`. -/
def encPictureDone (sps : AVCSeqParamSet) (f : Frame) (e : EncOrder) : EncOrder :=
  let v := if f.idr then { e.video with mem_mgr_ctrl_eq_5 := true } else e.video
  let v := if f.nal_ref_idc ≠ 0 then { v with PrevRefFrameNum := e.sliceHdr.frame_num } else v
  { e with video := PostPOC sps e.sliceHdr v }

/-! ## 4. The decoder -/

/-- What the syntax of the slice header carries; the other values are the decoder's defaults, or
    the old one. -/
def sentHeader (sps : AVCSeqParamSet) (pps : AVCPicParamSet) (h old : OrderHeader) :
    OrderHeader where
  frame_num := h.frame_num
  field_pic_flag := old.field_pic_flag
  bottom_field_flag := old.bottom_field_flag
  pic_order_cnt_lsb :=
    if sps.pic_order_cnt_type = 0 then h.pic_order_cnt_lsb else old.pic_order_cnt_lsb
  delta_pic_order_cnt_bottom :=
    if sps.pic_order_cnt_type = 0 ∧ pps.pic_order_present_flag ≠ 0 then
      h.delta_pic_order_cnt_bottom
    else 0
  delta_pic_order_cnt :=
    if sps.pic_order_cnt_type = 1 ∧ sps.delta_pic_order_always_zero_flag = 0 then
      (h.delta_pic_order_cnt.1,
        if pps.pic_order_present_flag ≠ 0 then h.delta_pic_order_cnt.2 else 0)
    else (0, 0)

/-- `DecodePOC`; `none` for a type that is not known. -/
def DecodePOC (sps : AVCSeqParamSet) (f : Frame) (h : OrderHeader) (v : PicOrder) :
    Option PicOrder :=
  match sps.pic_order_cnt_type with
  | 0 =>
    let v := if f.idr then { v with prevPicOrderCntMsb := 0, prevPicOrderCntLsb := 0 } else v
    let msb := pocMsb sps v h.pic_order_cnt_lsb
    let top := addInt32 msb h.pic_order_cnt_lsb
    some { v with
      PicOrderCntMsb := msb
      TopFieldOrderCnt := top
      PicOrderCnt := top
      BottomFieldOrderCnt := top + h.delta_pic_order_cnt_bottom }
  | 1 =>
    let v := setExpected sps f h.frame_num v
    let top := v.expectedPicOrderCnt + h.delta_pic_order_cnt.1
    let bot := top + sps.offset_for_top_to_bottom_field + h.delta_pic_order_cnt.2
    some { v with
      TopFieldOrderCnt := top, BottomFieldOrderCnt := bot, PicOrderCnt := AVC_MIN top bot }
  | 2 =>
    let v := setPOC2 sps f h.frame_num v
    some { v with TopFieldOrderCnt := v.PicOrderCnt, BottomFieldOrderCnt := v.PicOrderCnt }
  | _ => none

/-- `PVAVCDecodeSlice`, for a picture of one slice: the count, and the state after the picture. The
    flag is cleared when the frames are output, before the next slice is accepted. -/
def decodePicture (sps : AVCSeqParamSet) (f : Frame) (h : OrderHeader) (v : PicOrder) :
    Option PicOrder := do
  let v ← DecodePOC sps f h v
  let v := if f.nal_ref_idc ≠ 0 then { v with PrevRefFrameNum := h.frame_num } else v
  let v := { v with prevFrameNum := h.frame_num }
  -- `StorePictureInDPB` marks an IDR frame as operation 5
  if f.idr then
    some { v with
      PrevRefFrameNum := h.frame_num, prevFrameNum := 0, prevPicOrderCntMsb := 0
      prevPicOrderCntLsb := toUInt32 v.TopFieldOrderCnt, prevFrameNumOffset := 0 }
  else
    some { v with
      prevPicOrderCntMsb := v.PicOrderCntMsb, prevPicOrderCntLsb := h.pic_order_cnt_lsb
      prevFrameNumOffset := v.FrameNumOffset }

/-! ## 5. Coding and decoding a sequence -/

/-- Both sides, with the header the decoder has read last. -/
structure Coding where
  enc : EncOrder
  dec : PicOrder
  decHdr : OrderHeader
  deriving DecidableEq, Repr

/-- A frame is coded, and decoded from the header. -/
def codeFrame (sps : AVCSeqParamSet) (pps : AVCPicParamSet) (c : Coding) (f : Frame) :
    Option Coding := do
  let r ← InitFrame sps pps f c.enc
  let h := sentHeader sps pps r.2.sliceHdr c.decHdr
  let d ← decodePicture sps f h c.dec
  some ⟨encPictureDone sps f r.2, d, h⟩

/-- What has been coded since the last IDR frame: its display order, that of the last frame, and the
    reference frames before the last frame and with it. -/
structure Period where
  idrOrder : Nat
  lastOrder : Nat
  before : Nat
  refs : Nat

/-- The period a frame belongs to, before it is coded. -/
def Period.at (g : Period) (f : Frame) : Period :=
  if f.idr then ⟨f.disp_order, f.disp_order, 0, 0⟩ else g

/-- The period with the frame. -/
def Period.next (g : Period) (f : Frame) : Period :=
  let g := g.at f
  ⟨g.idrOrder, f.disp_order, g.refs, if f.nal_ref_idc ≠ 0 then g.refs + 1 else g.refs⟩

/-- The display order relative to the IDR frame. -/
def Period.order (g : Period) (f : Frame) : Int := (f.disp_order : Int) - (g.at f).idrOrder

/-- The count of type 1 that is expected for the frame with a number of reference frames before it
    since the IDR frame. -/
def expectedOrder (sps : AVCSeqParamSet) (f : Frame) (count : Nat) : Int :=
  let n := sps.num_ref_frames_in_pic_order_cnt_cycle
  let abs := if n = 0 then 0 else if f.nal_ref_idc = 0 then count - 1 else count
  (if abs = 0 then 0
    else ((abs - 1) / n : Nat) * sumOffsets sps n + sumOffsets sps ((abs - 1) % n + 1)) +
  if f.nal_ref_idc = 0 then sps.offset_for_non_ref_pic else 0

/-- The number of reference frames the encoder counts: it forgets all wraps of `frame_num` but one
    at this frame. -/
def encCount (sps : AVCSeqParamSet) (g : Period) : Nat :=
  if g.before % sps.MaxFrameNum > g.refs % sps.MaxFrameNum then
    g.refs % sps.MaxFrameNum + sps.MaxFrameNum
  else g.refs % sps.MaxFrameNum

/-- The legal values: both types, widths up to 16 bits. -/
structure LegalOrder (sps : AVCSeqParamSet) : Prop where
  type_le : sps.pic_order_cnt_type ≤ 1
  frame_num_le : sps.log2_max_frame_num_minus4 ≤ 12
  lsb_le : sps.log2_max_pic_order_cnt_lsb_minus4 ≤ 12

/-- The frames of the sequence: IDR frames are references, the display order is a `uint32`, changes
    by less than half of `MaxPicOrderCntLsb`, and is represented by an `int32` relative to the IDR
    frame. -/
structure LegalFrame (sps : AVCSeqParamSet) (g : Period) (f : Frame) : Prop where
  idr_ref : f.idr = true → f.nal_ref_idc ≠ 0
  lt : f.disp_order < 4294967296
  near : f.idr = false → 2 * |(f.disp_order : Int) - g.lastOrder| < sps.MaxPicOrderCntLsb
  order_ge : -2147483648 ≤ g.order f
  order_lt : g.order f < 2147483648

/-- The condition for type 0: the frame is not displayed before the point that is reached by going
    back from the IDR frame by whole cycles. -/
def Signalled0 (sps : AVCSeqParamSet) (g : Period) (f : Frame) : Prop :=
  (g.at f).idrOrder % sps.MaxPicOrderCntLsb ≤ f.disp_order

/-- The condition for type 1. Without deltas, the frame comes where it is expected; with deltas, the
    wraps of `frame_num` the encoder forgets make no difference to the expected count, and the
    bottom field does not come first. -/
def Signalled1 (sps : AVCSeqParamSet) (pps : AVCPicParamSet) (g : Period) (f : Frame) : Prop :=
  let e := expectedOrder sps f (g.at f).refs
  let ttb := sps.offset_for_top_to_bottom_field
  if sps.delta_pic_order_always_zero_flag = 0 then
    expectedOrder sps f (encCount sps (g.at f)) = e ∧
      -2147483648 ≤ g.order f - e ∧ g.order f - e < 2147483648 ∧
      0 ≤ ttb + if pps.pic_order_present_flag ≠ 0 then g.order f - e else 0
  else g.order f = e + min 0 ttb

/-- The condition for a frame. -/
def Signalled (sps : AVCSeqParamSet) (pps : AVCPicParamSet) (g : Period) (f : Frame) : Prop :=
  if sps.pic_order_cnt_type = 0 then Signalled0 sps g f else Signalled1 sps pps g f

/-- All frames are legal and meet the condition. -/
def AllSignalled (sps : AVCSeqParamSet) (pps : AVCPicParamSet) : Period → List Frame → Prop
  | _, [] => True
  | g, f :: fs => LegalFrame sps g f ∧ Signalled sps pps g f ∧ AllSignalled sps pps (g.next f) fs

instance (sps : AVCSeqParamSet) (g : Period) (f : Frame) : Decidable (LegalFrame sps g f) :=
  decidable_of_iff ((f.idr = true → f.nal_ref_idc ≠ 0) ∧ f.disp_order < 4294967296 ∧
      (f.idr = false → 2 * |(f.disp_order : Int) - g.lastOrder| < sps.MaxPicOrderCntLsb) ∧
      -2147483648 ≤ g.order f ∧ g.order f < 2147483648)
    ⟨fun ⟨h1, h2, h3, h4, h5⟩ => ⟨h1, h2, h3, h4, h5⟩,
      fun ⟨h1, h2, h3, h4, h5⟩ => ⟨h1, h2, h3, h4, h5⟩⟩

instance (sps : AVCSeqParamSet) (g : Period) (f : Frame) : Decidable (Signalled0 sps g f) :=
  inferInstanceAs (Decidable (_ ≤ _))

instance (sps : AVCSeqParamSet) (pps : AVCPicParamSet) (g : Period) (f : Frame) :
    Decidable (Signalled1 sps pps g f) :=
  inferInstanceAs (Decidable (if _ = _ then _ = _ ∧ _ ≤ _ ∧ _ < _ ∧ _ ≤ _ else _ = _))

instance (sps : AVCSeqParamSet) (pps : AVCPicParamSet) (g : Period) (f : Frame) :
    Decidable (Signalled sps pps g f) :=
  inferInstanceAs (Decidable (if _ = _ then Signalled0 _ _ _ else Signalled1 _ _ _ _))

instance decidableAllSignalled (sps : AVCSeqParamSet) (pps : AVCPicParamSet) :
    ∀ (g : Period) (frames : List Frame), Decidable (AllSignalled sps pps g frames)
  | _, [] => isTrue trivial
  | g, f :: fs =>
    have := decidableAllSignalled sps pps (g.next f) fs
    inferInstanceAs (Decidable (_ ∧ _ ∧ AllSignalled sps pps (g.next f) fs))

/-! ## 6. The loops of type 0 -/

open Period (next order)

section Lsb

variable {Max disp_order : Nat}

/-- The reference point is moved back by whole cycles. -/
theorem moveRef_eq (hMax : 0 < Max) (fuel : Nat) {ref : Nat} (hr : ref < 4294967296)
    (hle : ref % Max ≤ disp_order) (hf : ref < fuel) :
    ∃ ref', moveRef Max disp_order fuel ref = some ref' ∧ ref' ≤ disp_order ∧
      ref' % Max = ref % Max ∧ ref' < 4294967296 := by
  induction fuel generalizing ref with
  | zero => omega
  | succ fuel ih =>
    rw [moveRef]
    by_cases hlt : disp_order < ref
    · have hge : Max ≤ ref := by
        by_contra hc
        rw [Nat.mod_eq_of_lt (by omega)] at hle
        omega
      have hmod : (ref - Max) % Max = ref % Max := (Nat.mod_eq_sub_mod hge).symm
      rw [if_pos hlt, sub32_eq hge hr]
      have hlt32 : ref - Max < 4294967296 := by omega
      obtain ⟨ref', h1, h2, h3, h4⟩ := ih hlt32 (by omega) (by omega)
      exact ⟨ref', h1, h2, h3.trans hmod, h4⟩
    · rw [if_neg hlt]
      exact ⟨ref, rfl, by omega, rfl, hr⟩

theorem reduceLsb_eq (hMax : 0 < Max) (fuel : Nat) {lsb : Nat} (hl : lsb < 4294967296)
    (hf : lsb ≤ fuel) : reduceLsb Max fuel lsb = lsb % Max := by
  induction fuel generalizing lsb with
  | zero =>
    have h0 : lsb = 0 := by omega
    rw [h0, Nat.zero_mod]
    rfl
  | succ fuel ih =>
    rw [reduceLsb]
    by_cases hge : lsb ≥ Max
    · rw [if_pos hge, sub32_eq hge hl, ih (by omega) (by omega)]
      exact (Nat.mod_eq_sub_mod hge).symm
    · rw [if_neg hge, Nat.mod_eq_of_lt (by omega)]

end Lsb

variable {sps : AVCSeqParamSet}

theorem maxLsb_facts (h : sps.log2_max_pic_order_cnt_lsb_minus4 ≤ 12) :
    0 < sps.MaxPicOrderCntLsb ∧ sps.MaxPicOrderCntLsb ∣ 2147483648 ∧
      sps.MaxPicOrderCntLsb = 2 * (sps.MaxPicOrderCntLsb / 2) := by
  have hpow : sps.MaxPicOrderCntLsb = 2 * 2 ^ (sps.log2_max_pic_order_cnt_lsb_minus4 + 3) := by
    rw [AVCSeqParamSet.MaxPicOrderCntLsb, pow_succ, Nat.mul_comm]
  refine ⟨by rw [hpow]; positivity, ?_, by omega⟩
  exact pow_dvd_pow 2 (show sps.log2_max_pic_order_cnt_lsb_minus4 + 4 ≤ 31 by omega)

/-- The most significant part that is nearest to the picture before. -/
theorem msb_nearest (hlsb : sps.log2_max_pic_order_cnt_lsb_minus4 ≤ 12)
    {v : PicOrder} {P Q : Int} (hP : v.prevPicOrderCntMsb + v.prevPicOrderCntLsb = P)
    (hlt : v.prevPicOrderCntLsb < sps.MaxPicOrderCntLsb)
    (hdvd : (sps.MaxPicOrderCntLsb : Int) ∣ v.prevPicOrderCntMsb)
    (hnear : 2 * |Q - P| < sps.MaxPicOrderCntLsb) (hQ0 : -2147483648 ≤ Q) (hQ : Q < 2147483648) :
    pocMsb sps v (Q % sps.MaxPicOrderCntLsb).toNat = Q - Q % sps.MaxPicOrderCntLsb := by
  obtain ⟨hpos, h31, heven⟩ := maxLsb_facts hlsb
  obtain ⟨M, hM⟩ : ∃ M, sps.MaxPicOrderCntLsb = M := ⟨_, rfl⟩
  rw [hM] at hlt hdvd hnear hpos h31 heven
  obtain ⟨k, hk⟩ := hdvd
  obtain ⟨c, hc⟩ := h31
  have hr0 := Int.emod_nonneg Q (show (M : Int) ≠ 0 by omega)
  have hr1 := Int.emod_lt_of_pos Q (show (0 : Int) < M by omega)
  have hQM := Int.mul_ediv_add_emod Q M
  obtain ⟨r, hr⟩ : ∃ r : Nat, Q % M = r := ⟨(Q % M).toNat, by omega⟩
  obtain ⟨t, ht⟩ : ∃ t, Q / M = k + t := ⟨Q / M - k, by omega⟩
  have hMt : (M : Int) * (k + t) = M * k + M * t := Int.mul_add _ _ _
  have habs := abs_lt.mp (show |Q - P| < M by omega)
  have hlow : -2147483648 ≤ (M : Int) * (Q / M) := by
    have h1 : -(c : Int) ≤ Q / M := by
      refine Int.le_ediv_of_mul_le (by omega) ?_
      have hcc : (c : Int) * M = 2147483648 := by
        rw [Int.mul_comm]
        exact_mod_cast hc.symm
      rw [Int.neg_mul, hcc]
      exact hQ0
    have h2 : (M : Int) * (-c) ≤ M * (Q / M) := Int.mul_le_mul_of_nonneg_left h1 (by omega)
    have h3 : (M : Int) * (-c) = -2147483648 := by
      rw [Int.mul_neg]
      exact_mod_cast congrArg (fun x : Nat => -(x : Int)) hc.symm
    omega
  rw [ht, hMt] at hQM hlow
  -- the cycle of the picture is that of the picture before, or a neighbour of it
  have htb : -1 ≤ t ∧ t ≤ 1 := by
    constructor
    · by_contra hn
      have : (M : Int) * t ≤ M * (-2) := Int.mul_le_mul_of_nonneg_left (by omega) (by omega)
      omega
    · by_contra hn
      have : (M : Int) * 2 ≤ M * t := Int.mul_le_mul_of_nonneg_left (by omega) (by omega)
      omega
  have hcases : t = -1 ∨ t = 0 ∨ t = 1 := by omega
  have habs2 : 2 * (Q - P) < M ∧ -(M : Int) < 2 * (Q - P) := by
    rcases abs_cases (Q - P) with h | h <;> omega
  rw [pocMsb, hM, hr, Int.toNat_natCast]
  rcases hcases with rfl | rfl | rfl
  · rw [if_neg (by omega), if_pos (by omega), addInt32_eq (by omega) (by omega)]
    omega
  · rw [if_neg (by omega), if_neg (by omega)]
    omega
  · rw [if_pos (by omega), addInt32_eq (by omega) (by omega)]
    omega

/-! ## 7. The expected count of type 1 -/

/-- Where the offset and `frame_num` make up a count, the expected order is that of the count. -/
theorem setExpected_eq (sps : AVCSeqParamSet) (f : Frame) (frame_num : Nat) (v : PicOrder)
    {count : Nat} (h : (setFrameNumOffset sps f frame_num v).FrameNumOffset + frame_num = count) :
    (setExpected sps f frame_num v).expectedPicOrderCnt = expectedOrder sps f count := by
  obtain ⟨n, hn⟩ : ∃ n, sps.num_ref_frames_in_pic_order_cnt_cycle = n := ⟨_, rfl⟩
  obtain ⟨abs, habs⟩ : ∃ abs : Nat,
      (if n = 0 then 0 else if f.nal_ref_idc = 0 then count - 1 else count) = abs := ⟨_, rfl⟩
  have hof : absFrameNumOf sps f frame_num (setFrameNumOffset sps f frame_num v).FrameNumOffset =
      abs := by
    unfold absFrameNumOf
    rw [h, hn, ← habs]
    by_cases h0 : n = 0
    · simp [h0]
    · by_cases hr : f.nal_ref_idc = 0
      · rcases count with _ | count
        · simp [h0]
        · simp [h0, hr]
      · simp [h0, hr]
  unfold setExpected expectedOrder
  simp only [hof, hn, habs]
  rcases abs with _ | a
  · simp
  · have hdiv : (((a + 1 : Nat) : Int) - 1) / (n : Int) = ((a / n : Nat) : Int) := by
      push_cast
      rw [Int.add_sub_cancel]
    have hmod : ((((a + 1 : Nat) : Int) - 1) % (n : Int) + 1).toNat = a % n + 1 := by
      push_cast
      rw [Int.add_sub_cancel]
      omega
    have hpos : ((a + 1 : Nat) : Int) > 0 := by omega
    have hne : ((a + 1 : Nat) : Int) ≠ 0 := by omega
    rw [if_pos hpos, if_pos hpos, if_pos hne, if_neg (Nat.succ_ne_zero a), hdiv, hmod,
      Nat.add_sub_cancel]
    split
    · rfl
    · rw [Int.add_zero]

/-- Both sides after a frame, beside the period. -/
structure InSync (sps : AVCSeqParamSet) (g : Period) (c : Coding) : Prop where
  field : c.enc.sliceHdr.field_pic_flag = 0
  ref_lt : c.enc.dispOrdPOCRef < 4294967296
  ref0 : sps.pic_order_cnt_type = 0 →
    c.enc.dispOrdPOCRef % sps.MaxPicOrderCntLsb = g.idrOrder % sps.MaxPicOrderCntLsb
  ref1 : sps.pic_order_cnt_type = 1 → c.enc.dispOrdPOCRef = g.idrOrder
  encNum : (c.enc.video.PrevRefFrameNum + 1) % sps.MaxFrameNum = g.refs % sps.MaxFrameNum
  encPrev : c.enc.video.prevFrameNum = g.before % sps.MaxFrameNum
  -- operation 5 of the IDR frame stays set, and each `PostPOC` takes the offset back
  encFlag : c.enc.video.mem_mgr_ctrl_eq_5 = true
  encOffset : sps.pic_order_cnt_type = 1 → c.enc.video.prevFrameNumOffset = 0
  decPrev : c.dec.prevFrameNum = g.before % sps.MaxFrameNum
  decOffset : sps.pic_order_cnt_type = 1 →
    c.dec.prevFrameNumOffset = ((g.before / sps.MaxFrameNum * sps.MaxFrameNum : Nat) : Int)
  count : g.refs = g.before ∨ g.refs = g.before + 1
  last : sps.pic_order_cnt_type = 0 →
    c.dec.prevPicOrderCntMsb + c.dec.prevPicOrderCntLsb = (g.lastOrder : Int) - g.idrOrder
  lsb_lt : sps.pic_order_cnt_type = 0 → c.dec.prevPicOrderCntLsb < sps.MaxPicOrderCntLsb
  msb_dvd : sps.pic_order_cnt_type = 0 →
    (sps.MaxPicOrderCntLsb : Int) ∣ c.dec.prevPicOrderCntMsb

theorem maxFrameNum_pos (sps : AVCSeqParamSet) : 1 < sps.MaxFrameNum :=
  Nat.one_lt_two_pow (by omega)

/-- The decoder counts all reference frames: the offset grows at every wrap. -/
theorem frameNumOffset_dec {Max before refs : Nat} (hMax : 1 < Max)
    (h : refs = before ∨ refs = before + 1) :
    (if before % Max > refs % Max then before / Max * Max + Max else before / Max * Max) +
      refs % Max = refs := by
  obtain ⟨q, hq⟩ : ∃ q, before / Max = q := ⟨_, rfl⟩
  obtain ⟨r, hr⟩ : ∃ r, before % Max = r := ⟨_, rfl⟩
  have h1 : Max * q + r = before := by rw [← hq, ← hr, Nat.div_add_mod]
  have hlt : r < Max := hr ▸ Nat.mod_lt before (by omega)
  rw [hq, hr, Nat.mul_comm q Max]
  rcases h with rfl | rfl
  · rw [hr, if_neg (Nat.lt_irrefl r), h1]
  · by_cases hend : r + 1 = Max
    · have e : before + 1 = Max * (q + 1) := by rw [Nat.mul_add, Nat.mul_one]; omega
      have h0 : (before + 1) % Max = 0 := by rw [e, Nat.mul_mod_right]
      have hpos : ¬ r > 0 → Max = 1 := by omega
      rw [h0]
      split
      · rw [e, Nat.mul_add, Nat.mul_one, Nat.add_zero]
      · rename_i hr0
        have := hpos hr0
        omega
    · have e : before + 1 = r + 1 + Max * q := by omega
      have h0 : (before + 1) % Max = r + 1 := by
        rw [e, Nat.add_mul_mod_self_left, Nat.mod_eq_of_lt (by omega)]
      rw [h0, if_neg (by omega)]
      omega

/-! ## 8. One frame -/

section Step

variable {sps : AVCSeqParamSet} {pps : AVCPicParamSet} {g : Period} {c : Coding} {f : Frame}

/-- What `InitFrame` leaves, beside the values of the type. -/
structure Numbered (sps : AVCSeqParamSet) (g : Period) (f : Frame) (e e' : EncOrder) : Prop where
  field : e'.sliceHdr.field_pic_flag = 0
  num : e'.sliceHdr.frame_num = (g.at f).refs % sps.MaxFrameNum
  prevRef : e'.video.PrevRefFrameNum = if f.idr then 0 else e.video.PrevRefFrameNum
  flag : e'.video.mem_mgr_ctrl_eq_5 = e.video.mem_mgr_ctrl_eq_5

/-- The encoder as `InitFrame` hands it to `InitPOC`. -/
def numbered (sps : AVCSeqParamSet) (f : Frame) (e : EncOrder) : EncOrder :=
  if f.idr then { e with
    video := { e.video with prevFrameNum := sps.MaxFrameNum, PrevRefFrameNum := 0 }
    sliceHdr := { e.sliceHdr with frame_num := 0 } }
  else { e with
    sliceHdr := { e.sliceHdr with frame_num := (e.video.PrevRefFrameNum + 1) % sps.MaxFrameNum } }

theorem initFrame_eq (sps : AVCSeqParamSet) (pps : AVCPicParamSet) (f : Frame) (e : EncOrder) :
    InitFrame sps pps f e = InitPOC sps pps f (numbered sps f e) := by
  unfold InitFrame numbered
  cases f.idr <;> rfl

/-- The encoder is between two frames, or before an IDR frame. -/
def Ready (sps : AVCSeqParamSet) (g : Period) (c : Coding) (f : Frame) : Prop :=
  c.enc.sliceHdr.field_pic_flag = 0 ∧ (f.idr = false → InSync sps g c)

section

variable (h : Ready sps g c f)
include h

theorem Ready.numbered :
    Numbered sps g f c.enc (numbered sps f c.enc) := by
  unfold Avc.numbered
  cases hi : f.idr with
  | true => exact ⟨h.1, by simp [Period.at, hi], by simp [hi], rfl⟩
  | false =>
    have hn := (h.2 hi).encNum
    exact ⟨h.1, by simp [Period.at, hi, hn], by simp [hi], rfl⟩

/-- Type 0: the header holds the lsb of the display order relative to the IDR frame. -/
theorem Ready.initPOC0 (pps : AVCPicParamSet) (hl : LegalOrder sps)
    (ht : sps.pic_order_cnt_type = 0) (hf : LegalFrame sps g f) (hs : Signalled0 sps g f) :
    ∃ e', InitFrame sps pps f c.enc = some (.AVCENC_SUCCESS, e') ∧ Numbered sps g f c.enc e' ∧
      e'.dispOrdPOCRef % sps.MaxPicOrderCntLsb = (g.at f).idrOrder % sps.MaxPicOrderCntLsb ∧
      e'.dispOrdPOCRef < 4294967296 ∧
      e'.sliceHdr.pic_order_cnt_lsb = (g.order f % sps.MaxPicOrderCntLsb).toNat := by
  obtain ⟨hpos, -, -⟩ := maxLsb_facts hl.lsb_le
  have hnum := h.numbered
  obtain ⟨e, he⟩ : ∃ e, Avc.numbered sps f c.enc = e := ⟨_, rfl⟩
  obtain ⟨ref₀, hr⟩ : ∃ ref₀, (if f.idr then f.disp_order else e.dispOrdPOCRef) = ref₀ := ⟨_, rfl⟩
  have href : ref₀ < 4294967296 ∧
      ref₀ % sps.MaxPicOrderCntLsb = (g.at f).idrOrder % sps.MaxPicOrderCntLsb := by
    cases hi : f.idr with
    | true =>
      rw [hi, if_pos rfl] at hr
      rw [← hr, Period.at, hi]
      exact ⟨hf.lt, rfl⟩
    | false =>
      have hd : e.dispOrdPOCRef = c.enc.dispOrdPOCRef := by rw [← he, Avc.numbered, hi]; rfl
      rw [hi, if_neg (by simp), hd] at hr
      rw [← hr, Period.at, hi]
      exact ⟨(h.2 hi).ref_lt, (h.2 hi).ref0 ht⟩
  have hle₀ : ref₀ % sps.MaxPicOrderCntLsb ≤ f.disp_order := by
    rw [href.2]
    exact hs
  obtain ⟨ref', hm, hle, hmod, hlt⟩ :=
    moveRef_eq hpos (ref₀ + 1) href.1 hle₀ (Nat.lt_succ_self _)
  rw [initFrame_eq, he, InitPOC, ht]
  rw [he] at hnum
  unfold Avc.initPOC0
  simp only [hr, hm]
  refine ⟨_, rfl, ⟨hnum.field, hnum.num, ?_, ?_⟩, hmod.trans href.2, hlt, ?_⟩
  · rw [← hnum.prevRef]
    show (if _ then _ else _ : PicOrder).PrevRefFrameNum = _
    split <;> rfl
  · rw [← hnum.flag]
    show (if _ then _ else _ : PicOrder).mem_mgr_ctrl_eq_5 = _
    split <;> rfl
  · have hsub : sub32 f.disp_order ref' = f.disp_order - ref' := sub32_eq hle hf.lt
    show reduceLsb _ _ _ = _
    rw [reduceLsb_eq hpos _ (sub32_lt _ _) (Nat.le_refl _), hsub]
    -- going back by whole cycles does not change the lsb
    have hcong : ((f.disp_order : Int) - ref') % sps.MaxPicOrderCntLsb =
        g.order f % sps.MaxPicOrderCntLsb := by
      have h1 : ((ref' : Int)) % sps.MaxPicOrderCntLsb =
          ((g.at f).idrOrder : Int) % sps.MaxPicOrderCntLsb := by
        exact_mod_cast hmod.trans href.2
      rw [order, Int.sub_emod, h1, ← Int.sub_emod]
    rw [← hcong, ← Nat.cast_sub hle]
    exact_mod_cast (Int.toNat_natCast _).symm

/-- Type 1: the header holds what the encoder's count leaves to say. -/
theorem Ready.initPOC1 (pps : AVCPicParamSet)
    (ht : sps.pic_order_cnt_type = 1) (hf : LegalFrame sps g f) :
    ∃ e', InitFrame sps pps f c.enc = some (.AVCENC_SUCCESS, e') ∧ Numbered sps g f c.enc e' ∧
      e'.dispOrdPOCRef = (g.at f).idrOrder ∧ e'.dispOrdPOCRef < 4294967296 ∧
      e'.sliceHdr.delta_pic_order_cnt = orderDeltas sps pps f (g.at f).idrOrder
        (Avc.numbered sps f c.enc).sliceHdr (expectedOrder sps f (encCount sps (g.at f))) := by
  have hnum := h.numbered
  obtain ⟨e, he⟩ : ∃ e, Avc.numbered sps f c.enc = e := ⟨_, rfl⟩
  rw [he] at hnum
  have href : (if f.idr then f.disp_order else e.dispOrdPOCRef) = (g.at f).idrOrder ∧
      (g.at f).idrOrder < 4294967296 := by
    cases hi : f.idr with
    | true => exact ⟨by simp [Period.at, hi], by simpa [Period.at, hi] using hf.lt⟩
    | false =>
      have hd : e.dispOrdPOCRef = c.enc.dispOrdPOCRef := by rw [← he, Avc.numbered, hi]; rfl
      have hr := (h.2 hi).ref1 ht
      have hlt := (h.2 hi).ref_lt
      rw [hr] at hlt
      exact ⟨by simp [Period.at, hi, hd, hr], by simpa [Period.at, hi] using hlt⟩
  have hcount : (setFrameNumOffset sps f e.sliceHdr.frame_num e.video).FrameNumOffset +
      e.sliceHdr.frame_num = encCount sps (g.at f) := by
    rw [hnum.num]
    unfold setFrameNumOffset encCount
    cases hi : f.idr with
    | true => simp [Period.at, hi]
    | false =>
      have hv : e.video = c.enc.video := by rw [← he, Avc.numbered, hi]; rfl
      have hp := (h.2 hi).encPrev
      have ho := (h.2 hi).encOffset ht
      simp only [hv, hp, ho, Period.at, hi, if_neg Bool.false_ne_true, Int.zero_add]
      split
      · push_cast
        ring
      · simp
  have hexp := setExpected_eq sps f e.sliceHdr.frame_num e.video hcount
  rw [initFrame_eq, he, InitPOC, ht]
  unfold Avc.initPOC1
  simp only [href.1, hexp]
  have hprev : (setExpected sps f e.sliceHdr.frame_num e.video).PrevRefFrameNum =
        e.video.PrevRefFrameNum ∧
      (setExpected sps f e.sliceHdr.frame_num e.video).mem_mgr_ctrl_eq_5 =
        e.video.mem_mgr_ctrl_eq_5 := by
    unfold setExpected setFrameNumOffset
    simp only
    split
    · exact ⟨rfl, rfl⟩
    · split <;> exact ⟨rfl, rfl⟩
  exact ⟨_, rfl, ⟨hnum.field, hnum.num, hprev.1.trans hnum.prevRef, hprev.2.trans hnum.flag⟩, rfl,
    href.2, rfl⟩

/-- The encoder between two frames, after the picture is stored. -/
theorem Numbered.done {e' : EncOrder} (hn : Numbered sps g f c.enc e')
    (hidr : f.idr = true → f.nal_ref_idc ≠ 0) :
    let r := encPictureDone sps f e'
    r.sliceHdr = e'.sliceHdr ∧ r.dispOrdPOCRef = e'.dispOrdPOCRef ∧
      (r.video.PrevRefFrameNum + 1) % sps.MaxFrameNum = (g.next f).refs % sps.MaxFrameNum ∧
      r.video.prevFrameNum = (g.next f).before % sps.MaxFrameNum ∧
      r.video.mem_mgr_ctrl_eq_5 = true ∧
      (sps.pic_order_cnt_type = 1 → r.video.prevFrameNumOffset = 0) := by
  obtain ⟨v, hv⟩ : ∃ v, (if f.nal_ref_idc ≠ 0 then
      { (if f.idr then { e'.video with mem_mgr_ctrl_eq_5 := true } else e'.video) with
        PrevRefFrameNum := e'.sliceHdr.frame_num }
      else (if f.idr then { e'.video with mem_mgr_ctrl_eq_5 := true } else e'.video)) = v :=
    ⟨_, rfl⟩
  have hflag : v.mem_mgr_ctrl_eq_5 = true := by
    rw [← hv]
    cases hi : f.idr with
    | true => split <;> rfl
    | false =>
      have := hn.flag.trans (h.2 hi).encFlag
      split <;> exact this
  have hprev : v.PrevRefFrameNum =
      if f.nal_ref_idc ≠ 0 then e'.sliceHdr.frame_num else e'.video.PrevRefFrameNum := by
    rw [← hv]
    split
    · rfl
    · split <;> rfl
  have hdone : encPictureDone sps f e' = { e' with video := PostPOC sps e'.sliceHdr v } := by
    rw [← hv]
    rfl
  have hpost : (PostPOC sps e'.sliceHdr v).PrevRefFrameNum = v.PrevRefFrameNum ∧
      (PostPOC sps e'.sliceHdr v).prevFrameNum = e'.sliceHdr.frame_num ∧
      (PostPOC sps e'.sliceHdr v).mem_mgr_ctrl_eq_5 = v.mem_mgr_ctrl_eq_5 := by
    unfold PostPOC
    simp only
    split
    · split <;> exact ⟨rfl, rfl, rfl⟩
    · exact ⟨rfl, rfl, rfl⟩
    · exact ⟨rfl, rfl, rfl⟩
    · exact ⟨rfl, rfl, rfl⟩
  rw [hdone]
  refine ⟨rfl, rfl, ?_, ?_, hpost.2.2.trans hflag, ?_⟩
  · show ((PostPOC sps e'.sliceHdr v).PrevRefFrameNum + 1) % _ = _
    rw [hpost.1, hprev]
    unfold next
    by_cases hr : f.nal_ref_idc ≠ 0
    · rw [if_pos hr, hn.num]
      simp only [if_pos hr]
      rw [Nat.mod_add_mod]
    · rw [if_neg hr]
      simp only [if_neg hr]
      have hi : f.idr = false := by
        cases hi : f.idr with
        | true => exact absurd (hidr hi) hr
        | false => rfl
      rw [hn.prevRef, hi, if_neg Bool.false_ne_true, (h.2 hi).encNum, Period.at, hi]
      rfl
  · exact hpost.2.1.trans hn.num
  · intro ht
    show (PostPOC sps e'.sliceHdr v).prevFrameNumOffset = 0
    unfold PostPOC
    simp only [ht, hflag]
    rfl

end

/-- The state after a picture, from the count that was decoded. -/
theorem decodePicture_eq {hdr : OrderHeader} {w v : PicOrder}
    (hv : DecodePOC sps f hdr w = some v) :
    ∃ d, decodePicture sps f hdr w = some d ∧ d.PicOrderCnt = v.PicOrderCnt ∧
      d.prevFrameNum = (if f.idr then 0 else hdr.frame_num) ∧
      d.prevPicOrderCntMsb = (if f.idr then 0 else v.PicOrderCntMsb) ∧
      d.prevPicOrderCntLsb =
        (if f.idr then toUInt32 v.TopFieldOrderCnt else hdr.pic_order_cnt_lsb) ∧
      d.prevFrameNumOffset = if f.idr then 0 else v.FrameNumOffset := by
  unfold decodePicture
  simp only [hv, Option.bind_eq_bind, Option.bind_some]
  by_cases hr : f.nal_ref_idc ≠ 0
  · simp only [if_pos hr]
    cases f.idr with
    | true | false => exact ⟨_, rfl, rfl, rfl, rfl, rfl, rfl⟩
  · simp only [if_neg hr]
    cases f.idr with
    | true | false => exact ⟨_, rfl, rfl, rfl, rfl, rfl, rfl⟩

/-- What the decoder leaves for the next picture. -/
structure Decoded (sps : AVCSeqParamSet) (g : Period) (f : Frame) (d : PicOrder) : Prop where
  poc : d.PicOrderCnt = g.order f
  prev : d.prevFrameNum = (g.next f).before % sps.MaxFrameNum
  offset : sps.pic_order_cnt_type = 1 → d.prevFrameNumOffset =
    (((g.next f).before / sps.MaxFrameNum * sps.MaxFrameNum : Nat) : Int)
  last : sps.pic_order_cnt_type = 0 → d.prevPicOrderCntMsb + d.prevPicOrderCntLsb = g.order f
  lsb_lt : sps.pic_order_cnt_type = 0 → d.prevPicOrderCntLsb < sps.MaxPicOrderCntLsb
  msb_dvd : sps.pic_order_cnt_type = 0 → (sps.MaxPicOrderCntLsb : Int) ∣ d.prevPicOrderCntMsb

/-- Type 0: the decoder finds the cycle of the lsb. -/
theorem Ready.decode0 (h : Ready sps g c f) (hl : LegalOrder sps)
    (ht : sps.pic_order_cnt_type = 0) (hf : LegalFrame sps g f) (hdr : OrderHeader)
    (hnum : hdr.frame_num = (g.at f).refs % sps.MaxFrameNum)
    (hlsb : hdr.pic_order_cnt_lsb = (g.order f % sps.MaxPicOrderCntLsb).toNat) :
    ∃ d, decodePicture sps f hdr c.dec = some d ∧ Decoded sps g f d := by
  obtain ⟨hpos, -, -⟩ := maxLsb_facts hl.lsb_le
  obtain ⟨M, hM⟩ : ∃ M, sps.MaxPicOrderCntLsb = M := ⟨_, rfl⟩
  have hr0 := Int.emod_nonneg (g.order f) (show (M : Int) ≠ 0 by omega)
  have hr1 := Int.emod_lt_of_pos (g.order f) (show (0 : Int) < M by omega)
  have hcast : ((hdr.pic_order_cnt_lsb : Nat) : Int) = g.order f % M := by
    rw [hlsb, hM]
    exact Int.toNat_of_nonneg hr0
  obtain ⟨v, hv⟩ : ∃ v, (if f.idr then
      { c.dec with prevPicOrderCntMsb := 0, prevPicOrderCntLsb := 0 } else c.dec) = v := ⟨_, rfl⟩
  have hmsb : pocMsb sps v hdr.pic_order_cnt_lsb = g.order f - g.order f % M := by
    rw [hlsb, ← hM]
    cases hi : f.idr with
    | true =>
      rw [hi, if_pos rfl] at hv
      have h0 : g.order f = 0 := by simp [order, Period.at, hi]
      refine msb_nearest hl.lsb_le (P := 0) (by rw [← hv]; rfl) (by rw [← hv]; exact hpos)
        (by rw [← hv]; exact dvd_zero _) ?_ hf.order_ge hf.order_lt
      rw [h0, Int.sub_self, abs_zero]
      omega
    | false =>
      rw [hi, if_neg Bool.false_ne_true] at hv
      have hs := h.2 hi
      have hord : g.order f = f.disp_order - g.idrOrder := by simp [order, Period.at, hi]
      have hdiff : g.order f - ((g.lastOrder : Int) - g.idrOrder) = f.disp_order - g.lastOrder := by
        omega
      refine msb_nearest hl.lsb_le (P := (g.lastOrder : Int) - g.idrOrder)
        (by rw [← hv]; exact hs.last ht) (by rw [← hv]; exact hs.lsb_lt ht)
        (by rw [← hv]; exact hs.msb_dvd ht) ?_ hf.order_ge hf.order_lt
      rw [hdiff]
      exact hf.near hi
  have hge := hf.order_ge
  have hlt := hf.order_lt
  have htop : addInt32 (pocMsb sps v hdr.pic_order_cnt_lsb) hdr.pic_order_cnt_lsb = g.order f := by
    rw [hmsb, hcast, addInt32_eq (by omega) (by omega)]
    omega
  have hpoc : ∃ w, DecodePOC sps f hdr c.dec = some w ∧ w.PicOrderCnt = g.order f ∧
      w.TopFieldOrderCnt = g.order f ∧ w.PicOrderCntMsb = g.order f - g.order f % M := by
    unfold DecodePOC
    simp only [ht, hv, htop]
    exact ⟨_, rfl, rfl, rfl, hmsb⟩
  obtain ⟨w, hw, hw1, hw2, hw3⟩ := hpoc
  obtain ⟨d, hd, hpoc, hprev, hdm, hdl, -⟩ := decodePicture_eq hw
  rw [hw2] at hdl
  rw [hw3] at hdm
  refine ⟨d, hd, hpoc.trans hw1, ?_, by omega, ?_, ?_, ?_⟩
  · rw [hprev, hnum]
    cases hi : f.idr with
    | true => simp [next, Period.at, hi]
    | false => rfl
  all_goals intro _
  · rw [hdm, hdl]
    cases hi : f.idr with
    | true =>
      have h0 : g.order f = 0 := by simp [order, Period.at, hi]
      rw [if_pos rfl, if_pos rfl, h0, toUInt32_eq (by decide) (by decide)]
      rfl
    | false =>
      rw [if_neg Bool.false_ne_true, if_neg Bool.false_ne_true, hcast]
      omega
  · rw [hdl, hM]
    cases hi : f.idr with
    | true =>
      have h0 : g.order f = 0 := by simp [order, Period.at, hi]
      rw [if_pos rfl, h0, toUInt32_eq (by decide) (by decide)]
      omega
    | false =>
      rw [if_neg Bool.false_ne_true]
      omega
  · rw [hdm, hM]
    cases f.idr with
    | true => exact dvd_zero _
    | false => exact Int.dvd_self_sub_emod

/-- Type 1: the decoder adds the deltas to its own count. -/
theorem Ready.decode1 (h : Ready sps g c f) (ht : sps.pic_order_cnt_type = 1) (hdr : OrderHeader)
    (hnum : hdr.frame_num = (g.at f).refs % sps.MaxFrameNum)
    (hpoc : AVC_MIN (expectedOrder sps f (g.at f).refs + hdr.delta_pic_order_cnt.1)
      (expectedOrder sps f (g.at f).refs + hdr.delta_pic_order_cnt.1 +
        sps.offset_for_top_to_bottom_field + hdr.delta_pic_order_cnt.2) = g.order f) :
    ∃ d, decodePicture sps f hdr c.dec = some d ∧ Decoded sps g f d := by
  have hMax := maxFrameNum_pos sps
  have hoff : (setFrameNumOffset sps f hdr.frame_num c.dec).FrameNumOffset =
      (((g.at f).refs / sps.MaxFrameNum * sps.MaxFrameNum : Nat) : Int) := by
    unfold setFrameNumOffset
    cases hi : f.idr with
    | true => simp [Period.at, hi]
    | false =>
      have hs := h.2 hi
      have hat : g.at f = g := by simp [Period.at, hi]
      have hsum := frameNumOffset_dec hMax hs.count
      have hdm := Nat.div_add_mod g.refs sps.MaxFrameNum
      rw [Nat.mul_comm] at hdm
      rw [hat] at hnum ⊢
      simp only [hnum, hs.decPrev, hs.decOffset ht, if_neg Bool.false_ne_true]
      split at hsum
      · rename_i hgt
        rw [if_pos hgt]
        show ((g.before / sps.MaxFrameNum * sps.MaxFrameNum : Nat) : Int) + sps.MaxFrameNum = _
        omega
      · rename_i hgt
        rw [if_neg hgt]
        show ((g.before / sps.MaxFrameNum * sps.MaxFrameNum : Nat) : Int) = _
        omega
  have hcount : (setFrameNumOffset sps f hdr.frame_num c.dec).FrameNumOffset + hdr.frame_num =
      (g.at f).refs := by
    have hdm := Nat.div_add_mod (g.at f).refs sps.MaxFrameNum
    rw [Nat.mul_comm] at hdm
    rw [hoff, hnum]
    exact_mod_cast hdm
  have hexp := setExpected_eq sps f hdr.frame_num c.dec hcount
  have hsame : (setExpected sps f hdr.frame_num c.dec).FrameNumOffset =
      (setFrameNumOffset sps f hdr.frame_num c.dec).FrameNumOffset := rfl
  have hdec : ∃ w, DecodePOC sps f hdr c.dec = some w ∧ w.PicOrderCnt = g.order f ∧
      w.FrameNumOffset = (((g.at f).refs / sps.MaxFrameNum * sps.MaxFrameNum : Nat) : Int) := by
    unfold DecodePOC
    simp only [ht, hexp]
    exact ⟨_, rfl, hpoc, hsame.trans hoff⟩
  obtain ⟨w, hw, hw1, hw2⟩ := hdec
  obtain ⟨d, hd, hdp, hprev, -, -, hdo⟩ := decodePicture_eq hw
  rw [hw2] at hdo
  refine ⟨d, hd, hdp.trans hw1, ?_, ?_, by omega, by omega, by omega⟩
  · rw [hprev, hnum]
    cases hi : f.idr with
    | true => simp [next, Period.at, hi]
    | false => rfl
  · intro _
    rw [hdo]
    cases hi : f.idr with
    | true => simp [next, Period.at, hi]
    | false => rfl

theorem toInt32_delta {a b : Nat} {e : Int} (h0 : -2147483648 ≤ (a : Int) - b - e)
    (h : (a : Int) - b - e < 2147483648) :
    toInt32 (sub32 (sub32 a b) (toUInt32 e)) = a - b - e := by
  unfold toInt32 sub32 toUInt32
  split <;> omega

theorem AVC_MIN_eq (x y : Int) : AVC_MIN x y = min x y := by
  unfold AVC_MIN
  split <;> omega

/-- The deltas that are sent make the decoder's count the display order. -/
theorem orderDeltas_min (hs : Signalled1 sps pps g f) {h : OrderHeader} (hh : h.field_pic_flag = 0)
    {d : Int × Int} (hd : d = orderDeltas sps pps f (g.at f).idrOrder h
      (expectedOrder sps f (encCount sps (g.at f)))) {sent : Int × Int}
    (hsent : sent = if sps.delta_pic_order_always_zero_flag = 0 then
        (d.1, if pps.pic_order_present_flag ≠ 0 then d.2 else 0)
      else (0, 0)) :
    AVC_MIN (expectedOrder sps f (g.at f).refs + sent.1)
      (expectedOrder sps f (g.at f).refs + sent.1 + sps.offset_for_top_to_bottom_field + sent.2) =
        g.order f := by
  unfold Signalled1 at hs
  unfold orderDeltas at hd
  rw [AVC_MIN_eq]
  by_cases h0 : sps.delta_pic_order_always_zero_flag = 0
  · simp only [if_pos h0] at hs hsent hd
    obtain ⟨hcount, hge, hlt, httb⟩ := hs
    rw [hcount] at hd
    have hdelta := toInt32_delta (a := f.disp_order) (b := (g.at f).idrOrder)
      (e := expectedOrder sps f (g.at f).refs) hge hlt
    rw [hdelta] at hd
    have hord : (f.disp_order : Int) - (g.at f).idrOrder = g.order f := rfl
    rw [hord] at hd
    by_cases hp : pps.pic_order_present_flag ≠ 0
    · rw [if_pos hp] at httb hsent
      rw [if_pos ⟨hp, hh⟩] at hd
      rw [hsent, hd]
      simp only
      omega
    · rw [if_neg hp] at httb hsent
      rw [hsent, hd]
      simp only
      omega
  · simp only [if_neg h0] at hs hsent
    rw [hsent, hs]
    simp only
    omega

/-- **One frame.** The decoder's count is the display order, and both sides stay in step. -/
theorem Ready.codeFrame (h : Ready sps g c f) (hl : LegalOrder sps) (hf : LegalFrame sps g f)
    (hs : Signalled sps pps g f) :
    ∃ c', codeFrame sps pps c f = some c' ∧ c'.dec.PicOrderCnt = g.order f ∧
      InSync sps (g.next f) c' := by
  have hcount : (g.next f).refs = (g.next f).before ∨ (g.next f).refs = (g.next f).before + 1 := by
    unfold next
    simp only
    split <;> simp
  have hlast : ((g.next f).lastOrder : Int) - (g.next f).idrOrder = g.order f := rfl
  have htype := hl.type_le
  unfold Avc.codeFrame
  by_cases ht : sps.pic_order_cnt_type = 0
  · rw [Signalled, if_pos ht] at hs
    obtain ⟨e', he, hn, hmod, hlt, hlsb⟩ := h.initPOC0 pps hl ht hf hs
    obtain ⟨d, hd, hdec⟩ := h.decode0 hl ht hf (sentHeader sps pps e'.sliceHdr c.decHdr) hn.num
      (by rw [sentHeader, ht, if_pos rfl]; exact hlsb)
    obtain ⟨h1, h2, h3, h4, h5, -⟩ := hn.done h hf.idr_ref
    simp only [he, hd, Option.bind_eq_bind, Option.bind_some]
    refine ⟨_, rfl, hdec.poc, ⟨?_, ?_, ?_, by omega, h3, h4, h5, by omega, hdec.prev, hdec.offset,
      hcount, ?_, hdec.lsb_lt, hdec.msb_dvd⟩⟩
    · show (encPictureDone sps f e').sliceHdr.field_pic_flag = 0
      rw [h1]
      exact hn.field
    · show (encPictureDone sps f e').dispOrdPOCRef < _
      rw [h2]
      exact hlt
    · intro _
      show (encPictureDone sps f e').dispOrdPOCRef % _ = _
      rw [h2]
      exact hmod
    · rw [hlast]
      exact hdec.last
  · have ht1 : sps.pic_order_cnt_type = 1 := by omega
    rw [Signalled, if_neg ht] at hs
    obtain ⟨e', he, hn, href, hlt, hdelta⟩ := h.initPOC1 pps ht1 hf
    have hsent : (sentHeader sps pps e'.sliceHdr c.decHdr).delta_pic_order_cnt =
        if sps.delta_pic_order_always_zero_flag = 0 then
          (e'.sliceHdr.delta_pic_order_cnt.1,
            if pps.pic_order_present_flag ≠ 0 then e'.sliceHdr.delta_pic_order_cnt.2 else 0)
        else (0, 0) := by
      rw [sentHeader, ht1]
      simp
    obtain ⟨d, hd, hdec⟩ := h.decode1 ht1 (sentHeader sps pps e'.sliceHdr c.decHdr) hn.num
      (orderDeltas_min hs h.numbered.field hdelta hsent)
    obtain ⟨h1, h2, h3, h4, h5, h6⟩ := hn.done h hf.idr_ref
    simp only [he, hd, Option.bind_eq_bind, Option.bind_some]
    refine ⟨_, rfl, hdec.poc, ⟨?_, ?_, by omega, ?_, h3, h4, h5, h6, hdec.prev, hdec.offset,
      hcount, by omega, hdec.lsb_lt, hdec.msb_dvd⟩⟩
    · show (encPictureDone sps f e').sliceHdr.field_pic_flag = 0
      rw [h1]
      exact hn.field
    · show (encPictureDone sps f e').dispOrdPOCRef < _
      rw [h2]
      exact hlt
    · intro _
      show (encPictureDone sps f e').dispOrdPOCRef = _
      rw [h2]
      exact href

end Step

/-! ## 9. A sequence -/

/-- From a state in step, every frame that meets the condition is decoded with its order. -/
theorem InSync.run {pps : AVCPicParamSet} (hl : LegalOrder sps)
    {g : Period} {c : Coding} (h : InSync sps g c)
    (hpoc : c.dec.PicOrderCnt = (g.lastOrder : Int) - g.idrOrder) (frames : List Frame)
    (hs : AllSignalled sps pps g frames) :
    ∃ c', execAll (codeFrame sps pps) c frames = some c' ∧
      c'.dec.PicOrderCnt = ((frames.foldl next g).lastOrder : Int) -
        (frames.foldl next g).idrOrder := by
  induction frames generalizing g c with
  | nil => exact ⟨c, rfl, hpoc⟩
  | cons f fs ih =>
    obtain ⟨hf, hsig, hrest⟩ := hs
    have hready : Ready sps g c f := ⟨h.field, fun _ => h⟩
    obtain ⟨c₁, hc, hp, hsync⟩ := hready.codeFrame hl hf hsig
    obtain ⟨c', hrun, hp'⟩ := ih hsync hp hrest
    exact ⟨c', by rw [execAll, hc, Option.bind_some, hrun], hp'⟩

/-- A sequence parameter set for orders only. -/
def orderSPS (type cycle : Nat) (offsets : List Int) : AVCSeqParamSet :=
  { AVCSeqParamSet.zero with
    profile_idc := 66, level_idc := 10, frame_mbs_only_flag := 1, num_ref_frames := 1
    pic_order_cnt_type := type, num_ref_frames_in_pic_order_cnt_cycle := cycle
    offset_for_ref_frame := offsets }

/-- Both sides before the first frame. -/
def Coding.start : Coding where
  enc := ⟨0, ⟨0, 0, 0, 0, 0, 0, 0, 0, 0, 0, 0, 0, 0, 0, 0, false⟩, ⟨0, 0, 0, 0, 0, (0, 0)⟩⟩
  dec := ⟨0, 0, 0, 0, 0, 0, 0, 0, 0, 0, 0, 0, 0, 0, 0, false⟩
  decHdr := ⟨0, 0, 0, 0, 0, (0, 0)⟩

end OpenCore.Avc
