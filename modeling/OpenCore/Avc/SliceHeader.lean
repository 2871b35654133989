/-
  File:      OpenCore/Avc/SliceHeader.lean
  Subject:   THE SLICE HEADER: as the encoder writes it and as the decoder reads it.

  The parts of the header that both sides treat alike are lemmas about the two walks side by side;
  they differ in the lists of commands, whose end the encoder does not write, and in the width of
  `slice_group_change_cycle`.

  **Main result** `header_arrives`: a header without these comes back, up to the bit where the
  encoder stopped.
-/
import OpenCore.Avc.ParamSets

namespace OpenCore.Avc

open MsbBits List
open Function (update)

/-! ## 1. The encoder -/

/-- The values of `AVCEnc_Status` that a slice header can end with. -/
inductive HeaderStatus where
  | AVCENC_SUCCESS
  | AVCENC_PRED_WEIGHT_TAB_FAIL
  | AVCENC_DEC_REF_PIC_MARK_FAIL
  | AVCENC_CABAC_FAIL
  deriving DecidableEq, Repr

/-- The fields of the encoder's `AVCCommonObj` for the slice header. -/
structure EncVideo where
  sliceHdr : AVCSliceHeader
  currSeqParams : AVCSeqParamSet
  currPicParams : AVCPicParamSet
  slice_type : Nat
  mbNum : Nat
  nal_unit_type : Nat
  nal_ref_idc : Nat
  PicSizeInMapUnits : Nat
  SliceGroupChangeRate : Nat

namespace Enc

/-- One command of `ref_pic_list_reordering`. -/
def reorderingCommand (l : Reordering) (i : Nat) : List WriteCall :=
  ue_v (l.reordering_of_pic_nums_idc i) ++
  if l.reordering_of_pic_nums_idc i = 0 ∨ l.reordering_of_pic_nums_idc i = 1 then
    ue_v (l.abs_diff_pic_num_minus1 i)
  else if l.reordering_of_pic_nums_idc i = 2 then ue_v (l.long_term_pic_num i)
  else []

/-- The loop over the commands of a list, from the `i`th on. -/
def reorderingLoop (l : Reordering) (num_ref_idx_active_minus1 : Nat) : Nat → Nat → List WriteCall
  | 0, _ => []
  | fuel + 1, i =>
    reorderingCommand l i ++
    -- the entry that is tested is the next one: a terminator is never written
    if l.reordering_of_pic_nums_idc (i + 1) ≠ 3 ∧ i + 1 ≤ num_ref_idx_active_minus1 + 1 then
      reorderingLoop l num_ref_idx_active_minus1 fuel (i + 1)
    else []

/-- The commands of one list. -/
def reorderingList (l : Reordering) (num_ref_idx_active_minus1 : Nat) : List WriteCall :=
  write1Bit l.ref_pic_list_reordering_flag ++
  if l.ref_pic_list_reordering_flag ≠ 0 then
    reorderingLoop l num_ref_idx_active_minus1 (num_ref_idx_active_minus1 + 2) 0
  else []

def ref_pic_list_reordering (sliceHdr : AVCSliceHeader) (slice_type : Nat) : List WriteCall :=
  (if slice_type ≠ AVC_I_SLICE ∧ slice_type ≠ AVC_SI_SLICE then
    reorderingList sliceHdr.l0 sliceHdr.num_ref_idx_l0_active_minus1
  else []) ++
  if slice_type = AVC_B_SLICE then
    reorderingList sliceHdr.l1 sliceHdr.num_ref_idx_l1_active_minus1
  else []

/-- One operation of `dec_ref_pic_marking`. -/
def markingCommand (m : Marking) (i : Nat) : List WriteCall :=
  ue_v (m.memory_management_control_operation i) ++
  (if m.memory_management_control_operation i = 1 ∨
      m.memory_management_control_operation i = 3 then
    ue_v (m.difference_of_pic_nums_minus1 i)
  else []) ++
  (if m.memory_management_control_operation i = 2 then ue_v (m.long_term_pic_num i) else []) ++
  (if m.memory_management_control_operation i = 3 ∨
      m.memory_management_control_operation i = 6 then
    ue_v (m.long_term_frame_idx i)
  else []) ++
  if m.memory_management_control_operation i = 4 then ue_v (m.max_long_term_frame_idx_plus1 i)
  else []

/-- The loop over the operations, from the `i`th on. -/
def markingLoop (m : Marking) : Nat → Nat → List WriteCall
  | 0, _ => []
  | fuel + 1, i =>
    markingCommand m i ++
    if m.memory_management_control_operation (i + 1) ≠ 0 ∧ i + 1 < MAX_DEC_REF_PIC_MARKING then
      markingLoop m fuel (i + 1)
    else []

/-- The first `i > 0` where the loop stops. -/
def markingEnd (m : Marking) : Nat → Nat → Nat
  | 0, i => i
  | fuel + 1, i =>
    if m.memory_management_control_operation i ≠ 0 ∧ i < MAX_DEC_REF_PIC_MARKING then
      markingEnd m fuel (i + 1)
    else i

def dec_ref_pic_marking (nal_unit_type : Nat) (m : Marking) : List WriteCall × HeaderStatus :=
  if nal_unit_type = AVC_NALTYPE_IDR then
    (write1Bit m.no_output_of_prior_pics_flag ++ write1Bit m.long_term_reference_flag,
      .AVCENC_SUCCESS)
  else if m.adaptive_ref_pic_marking_mode_flag ≠ 0 then
    let i := markingEnd m MAX_DEC_REF_PIC_MARKING 1
    (write1Bit m.adaptive_ref_pic_marking_mode_flag ++ markingLoop m MAX_DEC_REF_PIC_MARKING 0,
      if i ≥ MAX_DEC_REF_PIC_MARKING ∧ m.memory_management_control_operation i ≠ 0 then
        .AVCENC_DEC_REF_PIC_MARK_FAIL
      else .AVCENC_SUCCESS)
  else (write1Bit m.adaptive_ref_pic_marking_mode_flag, .AVCENC_SUCCESS)

/-- `Ceil(PicSizeInMapUnits / SliceGroupChangeRate)`. -/
def changeCycles (PicSizeInMapUnits SliceGroupChangeRate : Nat) : Nat :=
  PicSizeInMapUnits / SliceGroupChangeRate +
    if PicSizeInMapUnits % SliceGroupChangeRate ≠ 0 then 1 else 0

/-- The encoder's loop for the width of `slice_group_change_cycle`. -/
def cycleBits : Nat → Nat → Nat
  | 0, _ => 0
  | fuel + 1, temp => if temp > 1 then cycleBits fuel (temp >>> 1) + 1 else 0

/-- The first part of `EncodeSliceHeader`. -/
def firstPart (video : EncVideo) : List WriteCall :=
  ue_v video.sliceHdr.first_mb_in_slice ++
  ue_v (if video.mbNum = 0 then video.sliceHdr.slice_type else video.slice_type) ++
  ue_v video.sliceHdr.pic_parameter_set_id ++
  writeBits (video.currSeqParams.log2_max_frame_num_minus4 + 4) video.sliceHdr.frame_num

/-- The part about the identification of an IDR picture. -/
def idrPart (video : EncVideo) : List WriteCall :=
  if video.nal_unit_type = AVC_NALTYPE_IDR then ue_v video.sliceHdr.idr_pic_id else []

/-- The part about the order of pictures. -/
def orderPart (video : EncVideo) : List WriteCall :=
  (if video.currSeqParams.pic_order_cnt_type = 0 then
    writeBits (video.currSeqParams.log2_max_pic_order_cnt_lsb_minus4 + 4)
      video.sliceHdr.pic_order_cnt_lsb ++
    if video.currPicParams.pic_order_present_flag ≠ 0 ∧ video.sliceHdr.field_pic_flag = 0 then
      se_v video.sliceHdr.delta_pic_order_cnt_bottom
    else []
  else []) ++
  if video.currSeqParams.pic_order_cnt_type = 1 ∧
      video.currSeqParams.delta_pic_order_always_zero_flag = 0 then
    se_v video.sliceHdr.delta_pic_order_cnt.1 ++
    if video.currPicParams.pic_order_present_flag ≠ 0 ∧ video.sliceHdr.field_pic_flag = 0 then
      se_v video.sliceHdr.delta_pic_order_cnt.2
    else []
  else []

/-- The part about redundant pictures and the number of references. -/
def referencePart (video : EncVideo) : List WriteCall :=
  (if video.currPicParams.redundant_pic_cnt_present_flag ≠ 0 then
    ue_v video.sliceHdr.redundant_pic_cnt
  else []) ++
  (if video.slice_type = AVC_B_SLICE then
    write1Bit video.sliceHdr.direct_spatial_mv_pred_flag
  else []) ++
  if video.slice_type = AVC_P_SLICE ∨ video.slice_type = AVC_SP_SLICE ∨
      video.slice_type = AVC_B_SLICE then
    write1Bit video.sliceHdr.num_ref_idx_active_override_flag ++
    if video.sliceHdr.num_ref_idx_active_override_flag ≠ 0 then
      ue_v video.sliceHdr.num_ref_idx_l0_active_minus1 ++
      if video.slice_type = AVC_B_SLICE then ue_v video.sliceHdr.num_ref_idx_l1_active_minus1
      else []
    else []
  else []

/-- The part about the quantiser and the deblocking filter. -/
def filterPart (video : EncVideo) : List WriteCall :=
  se_v video.sliceHdr.slice_qp_delta ++
  (if video.slice_type = AVC_SP_SLICE ∨ video.slice_type = AVC_SI_SLICE then
    (if video.slice_type = AVC_SP_SLICE then write1Bit video.sliceHdr.sp_for_switch_flag
    else []) ++
    se_v video.sliceHdr.slice_qs_delta
  else []) ++
  if video.currPicParams.deblocking_filter_control_present_flag ≠ 0 then
    ue_v video.sliceHdr.disable_deblocking_filter_idc ++
    if video.sliceHdr.disable_deblocking_filter_idc ≠ 1 then
      se_v video.sliceHdr.slice_alpha_c0_offset_div2 ++
      se_v video.sliceHdr.slice_beta_offset_div_2
    else []
  else []

/-- The part about slice groups that change. -/
def cyclePart (video : EncVideo) : List WriteCall :=
  if video.currPicParams.num_slice_groups_minus1 > 0 ∧
      video.currPicParams.slice_group_map_type ≥ 3 ∧
      video.currPicParams.slice_group_map_type ≤ 5 then
    writeBits (cycleBits 32 (changeCycles video.PicSizeInMapUnits video.SliceGroupChangeRate))
      video.sliceHdr.slice_group_change_cycle
  else []

def EncodeSliceHeader (video : EncVideo) : List WriteCall × HeaderStatus :=
  let pps := video.currPicParams
  let calls := firstPart video ++ idrPart video ++ orderPart video ++ referencePart video ++
    ref_pic_list_reordering video.sliceHdr video.slice_type
  if (pps.weighted_pred_flag ≠ 0 ∧
        (video.slice_type = AVC_P_SLICE ∨ video.slice_type = AVC_SP_SLICE)) ∨
      (pps.weighted_bipred_idc = 1 ∧ video.slice_type = AVC_B_SLICE) then
    (calls, .AVCENC_PRED_WEIGHT_TAB_FAIL)
  else
    let marked :=
      if video.nal_ref_idc ≠ 0 then
        dec_ref_pic_marking video.nal_unit_type video.sliceHdr.marking
      else ([], .AVCENC_SUCCESS)
    if marked.2 ≠ .AVCENC_SUCCESS then (calls ++ marked.1, marked.2)
    else if pps.entropy_coding_mode_flag ≠ 0 ∧ video.slice_type ≠ AVC_I_SLICE ∧
        video.slice_type ≠ AVC_SI_SLICE then
      (calls ++ marked.1, .AVCENC_CABAC_FAIL)
    else
      (calls ++ marked.1 ++ filterPart video ++ cyclePart video, .AVCENC_SUCCESS)

end Enc

/-! ## 2. The decoder -/

/-- The fields of the decoder's `AVCCommonObj` for the slice header; `currFS` says whether there is a
    frame store. -/
structure DecVideo where
  sliceHdr : AVCSliceHeader
  slice_type : Nat
  seq_parameter_set_id : Nat
  nal_unit_type : Nat
  nal_ref_idc : Nat
  currFS : Bool
  prevFrameNum : Int
  PrevRefFrameNum : Int
  MaxLongTermFrameIdx : Int
  LongTermFrameIdx : Int

/-- The fields that `dec_ref_pic_marking` sets. -/
def DecVideo.marked (video : DecVideo) (marking : Marking)
    (MaxLongTermFrameIdx LongTermFrameIdx : Int) : DecVideo :=
  { video with
    sliceHdr := { video.sliceHdr with marking }, MaxLongTermFrameIdx, LongTermFrameIdx }

/-- The commands are set. -/
def DecVideo.withL0 (video : DecVideo) (l0 : Reordering) : DecVideo :=
  { video with sliceHdr := { video.sliceHdr with l0 } }

/-- The fields at the end of the header are set. -/
def DecVideo.withEnd (video : DecVideo) (filter : Int × Nat × Int × Int)
    (slice_group_change_cycle : Nat) : DecVideo :=
  { video with
    sliceHdr := { video.sliceHdr with
      slice_qp_delta := filter.1, disable_deblocking_filter_idc := filter.2.1
      slice_alpha_c0_offset_div2 := filter.2.2.1, slice_beta_offset_div_2 := filter.2.2.2
      slice_group_change_cycle } }

namespace Dec

/-- The operand of a command. -/
def reorderingOperand (MaxPicNum i idc : Nat) (l : Reordering) : DecM Reordering :=
  if idc = 0 ∨ idc = 1 then do
    let abs_diff ← ue_v
    failIf (idc = 0 ∧ abs_diff > MaxPicNum / 2 - 1) .AVCDEC_FAIL
    failIf (idc = 1 ∧ abs_diff > MaxPicNum / 2 - 2) .AVCDEC_FAIL
    return { l with
      abs_diff_pic_num_minus1 := update l.abs_diff_pic_num_minus1 i abs_diff }
  else if idc = 2 then do
    let num ← ue_v
    return { l with long_term_pic_num := update l.long_term_pic_num i num }
  else return l

/-- The loop over the commands, from the `i`th on. -/
def reorderingLoop (MaxPicNum num_ref_idx_l0_active_minus1 : Nat) :
    Nat → Nat → Reordering → DecM Reordering
  | 0, _, _ => throw .endless
  | fuel + 1, i, l => do
      let idc ← ue_v
      let l := { l with
        reordering_of_pic_nums_idc := update l.reordering_of_pic_nums_idc i idc }
      let l ← reorderingOperand MaxPicNum i idc l
      if idc ≠ 3 ∧ i + 1 ≤ num_ref_idx_l0_active_minus1 + 1 then
        reorderingLoop MaxPicNum num_ref_idx_l0_active_minus1 fuel (i + 1) l
      else do
        failIf (idc ≠ 3) .AVCDEC_FAIL
        return l

def ref_pic_list_reordering (MaxPicNum num_ref_idx_l0_active_minus1 slice_type : Nat)
    (l0 : Reordering) : DecM Reordering :=
  if slice_type ≠ AVC_I_SLICE then do
    let ref_pic_list_reordering_flag ← read1Bit
    let l0 := { l0 with ref_pic_list_reordering_flag }
    if ref_pic_list_reordering_flag ≠ 0 then
      reorderingLoop MaxPicNum num_ref_idx_l0_active_minus1 (num_ref_idx_l0_active_minus1 + 2) 0 l0
    else return l0
  else return l0

/-- The operands of an operation; one that is not there stays as it is. -/
def markingOperands (i op : Nat) (m : Marking) : DecM Marking := do
  let difference ← (if op = 1 ∨ op = 3 then ue_v else pure (m.difference_of_pic_nums_minus1 i))
  let num ← (if op = 2 then ue_v else pure (m.long_term_pic_num i))
  let idx ← (if op = 3 ∨ op = 6 then ue_v else pure (m.long_term_frame_idx i))
  let max ← (if op = 4 then ue_v else pure (m.max_long_term_frame_idx_plus1 i))
  return { m with
    difference_of_pic_nums_minus1 := update m.difference_of_pic_nums_minus1 i difference
    long_term_pic_num := update m.long_term_pic_num i num
    long_term_frame_idx := update m.long_term_frame_idx i idx
    max_long_term_frame_idx_plus1 := update m.max_long_term_frame_idx_plus1 i max }

/-- The loop over the operations, from the `i`th on; that it ends at the end of the array is a
    failure that nobody looks at. -/
def markingLoop : Nat → Nat → Marking → DecM Marking
  | 0, _, m => return m
  | fuel + 1, i, m => do
      let op ← ue_v
      let m ← markingOperands i op { m with
        memory_management_control_operation :=
          update m.memory_management_control_operation i op }
      if op ≠ 0 ∧ i + 1 < MAX_DEC_REF_PIC_MARKING then markingLoop fuel (i + 1) m else return m

def dec_ref_pic_marking (video : DecVideo) : DecM DecVideo :=
  let m := video.sliceHdr.marking
  if video.nal_unit_type = AVC_NALTYPE_IDR then do
    let no_output_of_prior_pics_flag ← read1Bit
    let long_term_reference_flag ← read1Bit
    return video.marked { m with no_output_of_prior_pics_flag, long_term_reference_flag }
      (if long_term_reference_flag = 0 then -1 else 0)
      (if long_term_reference_flag = 0 then video.LongTermFrameIdx else 0)
  else do
    let adaptive_ref_pic_marking_mode_flag ← read1Bit
    let m := { m with adaptive_ref_pic_marking_mode_flag }
    let marking ← (if adaptive_ref_pic_marking_mode_flag ≠ 0 then
        markingLoop MAX_DEC_REF_PIC_MARKING 0 m
      else return m)
    return video.marked marking video.MaxLongTermFrameIdx video.LongTermFrameIdx

/-- The part of `DecodeSliceHeader` about the order of pictures: `pic_order_cnt_lsb`,
    `delta_pic_order_cnt_bottom` and `delta_pic_order_cnt`. -/
def orderPart (sps : AVCSeqParamSet) (pps : AVCPicParamSet) (lsb : Nat) :
    DecM (Nat × Int × Int × Int) := do
  let first ← (if sps.pic_order_cnt_type = 0 then do
      let lsb ← readBits (sps.log2_max_pic_order_cnt_lsb_minus4 + 4)
      failIf (lsb > sps.MaxPicOrderCntLsb - 1) .AVCDEC_FAIL
      let bottom ← (if pps.pic_order_present_flag ≠ 0 then se_v32bit else pure 0)
      return (lsb, bottom)
    else return (lsb, 0))
  let second ← (if sps.pic_order_cnt_type = 1 ∧ sps.delta_pic_order_always_zero_flag = 0 then do
      let d0 ← se_v32bit
      let d1 ← (if pps.pic_order_present_flag ≠ 0 then se_v32bit else pure 0)
      return (d0, d1)
    else return (0, 0))
  return (first.1, first.2, second.1, second.2)

/-- The part about redundant pictures and the number of references: `redundant_pic_cnt`,
    `num_ref_idx_active_override_flag` and `num_ref_idx_l0_active_minus1`. -/
def referencePart (pps : AVCPicParamSet) (slice_type override : Nat) :
    DecM (Nat × Nat × Nat) := do
  let redundant_pic_cnt ← (if pps.redundant_pic_cnt_present_flag ≠ 0 then do
      let redundant_pic_cnt ← ue_v
      failIf (redundant_pic_cnt > 127) .AVCDEC_FAIL
      failIf (redundant_pic_cnt > 0) .AVCDEC_NOT_SUPPORTED
      return redundant_pic_cnt
    else return 0)
  let numbers ← (if slice_type = AVC_P_SLICE then do
      let override ← read1Bit
      let num ← (if override ≠ 0 then ue_v else pure pps.num_ref_idx_l0_active_minus1)
      return (override, num)
    else return (override, pps.num_ref_idx_l0_active_minus1))
  failIf (numbers.2 > 15) .AVCDEC_FAIL
  return (redundant_pic_cnt, numbers.1, numbers.2)

/-- The part about the quantiser and the deblocking filter: `slice_qp_delta`,
    `disable_deblocking_filter_idc` and the two offsets. -/
def filterPart (pps : AVCPicParamSet) : DecM (Int × Nat × Int × Int) := do
  let slice_qp_delta ← se_v
  let filter ← (if pps.deblocking_filter_control_present_flag ≠ 0 then do
      let disable_deblocking_filter_idc ← ue_v
      failIf (disable_deblocking_filter_idc > 2) .AVCDEC_FAIL
      let offsets ← (if disable_deblocking_filter_idc ≠ 1 then do
          let alpha ← se_v
          failIf (alpha < -6 ∨ alpha > 6) .AVCDEC_FAIL
          let beta ← se_v
          failIf (beta < -6 ∨ beta > 6) .AVCDEC_FAIL
          return (alpha, beta)
        else return (0, 0))
      return (disable_deblocking_filter_idc, offsets)
    else return (0, 0, 0))
  return (slice_qp_delta, filter)

/-- The part about slice groups that change. -/
def cyclePart (sps : AVCSeqParamSet) (pps : AVCPicParamSet) (cycle : Nat) : DecM Nat :=
  if pps.num_slice_groups_minus1 > 0 ∧ pps.slice_group_map_type ≥ 3 ∧
      pps.slice_group_map_type ≤ 5 then
    let PicSizeInMapUnits :=
      (sps.pic_width_in_mbs_minus1 + 1) * (sps.pic_height_in_map_units_minus1 + 1)
    let SliceGroupChangeRate := pps.slice_group_change_rate_minus1 + 1
    readBits (numBits 33 (Enc.changeCycles PicSizeInMapUnits SliceGroupChangeRate + 1))
  else return cycle

/-- The beginning of `DecodeSliceHeader`: `first_mb_in_slice`, the two slice types and the parameter
    sets in use. `configure` is `AVCConfigureSequence`, for another sequence parameter set. -/
def firstPart (configure : DecVideo → AVCSeqParamSet → Option Stop) (decvid : AVCDecObject)
    (video : DecVideo) : DecM (Nat × Nat × Nat × AVCPicParamSet × AVCSeqParamSet) := do
  let first_mb_in_slice ← ue_v
  let slice_type ← ue_v
  failIf (first_mb_in_slice ≠ 0 ∧ video.sliceHdr.slice_type ≥ 5 ∧
    slice_type ≠ video.sliceHdr.slice_type ∧ slice_type ≠ video.sliceHdr.slice_type - 5)
    .AVCDEC_FAIL
  let type := if slice_type > 4 then slice_type - 5 else slice_type
  failIf (type = 1 ∨ type > 2) .AVCDEC_NOT_SUPPORTED
  let pic_parameter_set_id ← ue_v
  failIf (pic_parameter_set_id > 255) .AVCDEC_FAIL
  match decvid.picParams pic_parameter_set_id with
  | none => throw .AVCDEC_FAIL
  | some pps =>
    match decvid.seqParams pps.seq_parameter_set_id with
    | none => throw .AVCDEC_FAIL
    | some sps =>
      if pps.seq_parameter_set_id ≠ video.seq_parameter_set_id then
        match configure video sps with
        | some x => throw x
        | none => return (first_mb_in_slice, slice_type, pic_parameter_set_id, pps, sps)
      else return (first_mb_in_slice, slice_type, pic_parameter_set_id, pps, sps)

/-- The first half of `DecodeSliceHeader`, up to the number of references. -/
def firstHalf (configure : DecVideo → AVCSeqParamSet → Option Stop) (decvid : AVCDecObject)
    (video : DecVideo) : DecM (DecVideo × AVCPicParamSet × AVCSeqParamSet) := do
  let (first_mb_in_slice, type, pic_parameter_set_id, pps, sps) ← firstPart configure decvid video
  let slice_type := if type > 4 then type - 5 else type
  let frame_num ← readBits (sps.log2_max_frame_num_minus4 + 4)
  let field_pic_flag ← (if sps.frame_mbs_only_flag = 0 then read1Bit
    else pure video.sliceHdr.field_pic_flag)
  failIf (sps.frame_mbs_only_flag = 0 ∧ field_pic_flag ≠ 0) .AVCDEC_NOT_SUPPORTED
  let PicWidthInMbs := sps.pic_width_in_mbs_minus1 + 1
  let PicHeightInMapUnits := sps.pic_height_in_map_units_minus1 + 1
  let PicSizeInMbs := PicWidthInMbs * ((2 - sps.frame_mbs_only_flag) * PicHeightInMapUnits)
  failIf (first_mb_in_slice ≥ PicSizeInMbs) .AVCDEC_FAIL
  -- the identification of an IDR picture is read into a local variable
  let _ ← (if video.nal_unit_type = AVC_NALTYPE_IDR then ue_v else pure 0)
  let order ← orderPart sps pps video.sliceHdr.pic_order_cnt_lsb
  let reference ← referencePart pps slice_type video.sliceHdr.num_ref_idx_active_override_flag
  return ({ video with
    slice_type
    seq_parameter_set_id := pps.seq_parameter_set_id
    prevFrameNum :=
      if video.currFS = false ∧ frame_num ≠ 0 then frame_num - 1 else video.prevFrameNum
    PrevRefFrameNum :=
      if video.currFS = false ∧ frame_num ≠ 0 then frame_num - 1 else video.PrevRefFrameNum
    sliceHdr := { video.sliceHdr with
      first_mb_in_slice, slice_type := type, pic_parameter_set_id, frame_num, field_pic_flag
      pic_order_cnt_lsb := order.1, delta_pic_order_cnt_bottom := order.2.1
      delta_pic_order_cnt := order.2.2, redundant_pic_cnt := reference.1
      num_ref_idx_active_override_flag := reference.2.1
      num_ref_idx_l0_active_minus1 := reference.2.2
      num_ref_idx_l1_active_minus1 := pps.num_ref_idx_l1_active_minus1 } }, pps, sps)

/-- The second half, from the reordering commands on. -/
def secondHalf (video : DecVideo) (pps : AVCPicParamSet) (sps : AVCSeqParamSet) :
    DecM DecVideo := do
  let l0 ← ref_pic_list_reordering sps.MaxFrameNum video.sliceHdr.num_ref_idx_l0_active_minus1
    video.slice_type video.sliceHdr.l0
  let video := video.withL0 l0
  let video ← (if video.nal_ref_idc ≠ 0 then dec_ref_pic_marking video else pure video)
  let filter ← filterPart pps
  let slice_group_change_cycle ← cyclePart sps pps video.sliceHdr.slice_group_change_cycle
  return video.withEnd filter slice_group_change_cycle

def DecodeSliceHeader (configure : DecVideo → AVCSeqParamSet → Option Stop)
    (decvid : AVCDecObject) (video : DecVideo) : DecM DecVideo := do
  let (video, pps, sps) ← firstHalf configure decvid video
  secondHalf video pps sps

end Dec

/-! ## 3. Legal headers, and what is to come back -/

/-- Encoder and decoder have the same parameter sets in use. -/
structure Active (decvid : AVCDecObject) (d : DecVideo) (v : EncVideo) : Prop where
  pic : decvid.picParams v.sliceHdr.pic_parameter_set_id = some v.currPicParams
  seq : decvid.seqParams v.currPicParams.seq_parameter_set_id = some v.currSeqParams
  same : v.currPicParams.seq_parameter_set_id = d.seq_parameter_set_id
  nal_unit_type : d.nal_unit_type = v.nal_unit_type
  nal_ref_idc : d.nal_ref_idc = v.nal_ref_idc
  PicSizeInMapUnits : v.PicSizeInMapUnits =
    (v.currSeqParams.pic_width_in_mbs_minus1 + 1) *
      (v.currSeqParams.pic_height_in_map_units_minus1 + 1)
  SliceGroupChangeRate : v.SliceGroupChangeRate = v.currPicParams.slice_group_change_rate_minus1 + 1

/-- Parameter sets of the baseline profile, as far as the slice header goes. -/
structure Baseline (sps : AVCSeqParamSet) (pps : AVCPicParamSet) : Prop where
  log2_max_frame_num_minus4 : sps.log2_max_frame_num_minus4 ≤ 12
  log2_max_pic_order_cnt_lsb_minus4 : sps.log2_max_pic_order_cnt_lsb_minus4 ≤ 12
  frame_mbs_only_flag : sps.frame_mbs_only_flag = 1
  entropy_coding_mode_flag : pps.entropy_coding_mode_flag = 0
  weighted_pred_flag : pps.weighted_pred_flag = 0
  slice_group_change_rate_minus1 :
    pps.slice_group_change_rate_minus1 <
      (sps.pic_width_in_mbs_minus1 + 1) * (sps.pic_height_in_map_units_minus1 + 1)

/-- A list of reordering commands with its terminator: for one list, at most as many as there are
    references. -/
def Reordering.Legal (l : Reordering) (num_ref_idx_active_minus1 MaxPicNum : Nat) : Prop :=
  ∃ k, 1 ≤ k ∧ k ≤ num_ref_idx_active_minus1 + 1 ∧ l.reordering_of_pic_nums_idc k = 3 ∧
    ∀ i < k, l.reordering_of_pic_nums_idc i < 3 ∧
      l.abs_diff_pic_num_minus1 i ≤ MaxPicNum / 2 - 2 ∧ l.long_term_pic_num i < 65535

/-- A list of operations with its terminator, behind which the array is 0. -/
def Marking.Legal (m : Marking) : Prop :=
  ∃ k, k < MAX_DEC_REF_PIC_MARKING ∧
    (∀ i ≥ k, m.memory_management_control_operation i = 0) ∧
    ∀ i < k, m.memory_management_control_operation i ≠ 0 ∧
      m.memory_management_control_operation i ≤ 6 ∧ m.difference_of_pic_nums_minus1 i < 65535 ∧
      m.long_term_pic_num i < 65535 ∧ m.long_term_frame_idx i < 65535 ∧
      m.max_long_term_frame_idx_plus1 i < 65535

/-- The type of slice that is written. -/
def EncVideo.writtenType (v : EncVideo) : Nat :=
  if v.mbNum = 0 then v.sliceHdr.slice_type else v.slice_type

/-- `num_ref_idx_l0_active_minus1` as it is in force for the slice. -/
def EncVideo.activeRefs (v : EncVideo) : Nat :=
  if v.sliceHdr.num_ref_idx_active_override_flag ≠ 0 then v.sliceHdr.num_ref_idx_l0_active_minus1
  else v.currPicParams.num_ref_idx_l0_active_minus1

/-- A header of an I or P slice with legal values, for a decoder that holds `d`. -/
structure LegalSlice (d : DecVideo) (v : EncVideo) : Prop where
  first_mb_in_slice : v.sliceHdr.first_mb_in_slice < 65535
  inside : v.sliceHdr.first_mb_in_slice < v.PicSizeInMapUnits
  slice_type : v.slice_type = AVC_I_SLICE ∨ v.slice_type = AVC_P_SLICE
  header_type : v.sliceHdr.slice_type = v.slice_type ∨ v.sliceHdr.slice_type = v.slice_type + 5
  follows : v.sliceHdr.first_mb_in_slice = 0 ∨ d.sliceHdr.slice_type < 5 ∨
    v.writtenType = d.sliceHdr.slice_type ∨ v.writtenType = d.sliceHdr.slice_type - 5
  pic_parameter_set_id : v.sliceHdr.pic_parameter_set_id ≤ 255
  frame_num : v.sliceHdr.frame_num < v.currSeqParams.MaxFrameNum
  field_pic_flag : v.sliceHdr.field_pic_flag = 0
  idr : v.nal_unit_type = AVC_NALTYPE_IDR → v.slice_type = AVC_I_SLICE ∧ v.nal_ref_idc ≠ 0
  idr_pic_id : v.sliceHdr.idr_pic_id ≤ 65535
  pic_order_cnt_lsb : v.sliceHdr.pic_order_cnt_lsb < v.currSeqParams.MaxPicOrderCntLsb
  delta_pic_order_cnt_bottom : v.sliceHdr.delta_pic_order_cnt_bottom.natAbs < 2 ^ 30
  delta_pic_order_cnt_0 : v.sliceHdr.delta_pic_order_cnt.1.natAbs < 2 ^ 30
  delta_pic_order_cnt_1 : v.sliceHdr.delta_pic_order_cnt.2.natAbs < 2 ^ 30
  redundant_pic_cnt : v.sliceHdr.redundant_pic_cnt ≤ 127
  num_ref_idx_active_override_flag : v.sliceHdr.num_ref_idx_active_override_flag < 2
  activeRefs : v.slice_type = AVC_P_SLICE → v.activeRefs ≤ 15
  reordering_flag : v.sliceHdr.l0.ref_pic_list_reordering_flag < 2
  reordering : v.slice_type = AVC_P_SLICE → v.sliceHdr.l0.ref_pic_list_reordering_flag ≠ 0 →
    v.sliceHdr.l0.Legal v.activeRefs v.currSeqParams.MaxFrameNum
  no_output_of_prior_pics_flag : v.sliceHdr.marking.no_output_of_prior_pics_flag < 2
  long_term_reference_flag : v.sliceHdr.marking.long_term_reference_flag < 2
  marking_flag : v.sliceHdr.marking.adaptive_ref_pic_marking_mode_flag < 2
  marking : v.sliceHdr.marking.adaptive_ref_pic_marking_mode_flag ≠ 0 →
    v.sliceHdr.marking.Legal
  slice_qp_delta : -51 ≤ v.sliceHdr.slice_qp_delta ∧ v.sliceHdr.slice_qp_delta ≤ 51
  disable_deblocking_filter_idc : v.sliceHdr.disable_deblocking_filter_idc ≤ 2
  slice_alpha_c0_offset_div2 : -6 ≤ v.sliceHdr.slice_alpha_c0_offset_div2 ∧
    v.sliceHdr.slice_alpha_c0_offset_div2 ≤ 6
  slice_beta_offset_div_2 : -6 ≤ v.sliceHdr.slice_beta_offset_div_2 ∧
    v.sliceHdr.slice_beta_offset_div_2 ≤ 6
  slice_group_change_cycle : v.sliceHdr.slice_group_change_cycle ≤
    Enc.changeCycles v.PicSizeInMapUnits v.SliceGroupChangeRate

/-- The commands of two lists are the same, up to the terminator of the second. -/
def Reordering.Same (g l : Reordering) : Prop :=
  ∀ i, (∀ j < i, l.reordering_of_pic_nums_idc j ≠ 3) →
    g.reordering_of_pic_nums_idc i = l.reordering_of_pic_nums_idc i ∧
    (l.reordering_of_pic_nums_idc i = 0 ∨ l.reordering_of_pic_nums_idc i = 1 →
      g.abs_diff_pic_num_minus1 i = l.abs_diff_pic_num_minus1 i) ∧
    (l.reordering_of_pic_nums_idc i = 2 → g.long_term_pic_num i = l.long_term_pic_num i)

/-- The operations of two lists are the same, up to the terminator of the second. -/
def Marking.Same (g m : Marking) : Prop :=
  ∀ i, (∀ j < i, m.memory_management_control_operation j ≠ 0) →
    g.memory_management_control_operation i = m.memory_management_control_operation i ∧
    (m.memory_management_control_operation i = 1 ∨ m.memory_management_control_operation i = 3 →
      g.difference_of_pic_nums_minus1 i = m.difference_of_pic_nums_minus1 i) ∧
    (m.memory_management_control_operation i = 2 →
      g.long_term_pic_num i = m.long_term_pic_num i) ∧
    (m.memory_management_control_operation i = 3 ∨ m.memory_management_control_operation i = 6 →
      g.long_term_frame_idx i = m.long_term_frame_idx i) ∧
    (m.memory_management_control_operation i = 4 →
      g.max_long_term_frame_idx_plus1 i = m.max_long_term_frame_idx_plus1 i)

/-- The decoder has every field that is in the header of `v`; of an IDR picture's identification it
    keeps nothing. -/
structure HeaderRecovered (v : EncVideo) (g : DecVideo) : Prop where
  first_mb_in_slice : g.sliceHdr.first_mb_in_slice = v.sliceHdr.first_mb_in_slice
  slice_type : g.slice_type = v.slice_type
  header_type : g.sliceHdr.slice_type = v.writtenType
  pic_parameter_set_id : g.sliceHdr.pic_parameter_set_id = v.sliceHdr.pic_parameter_set_id
  frame_num : g.sliceHdr.frame_num = v.sliceHdr.frame_num
  pic_order_cnt_lsb : v.currSeqParams.pic_order_cnt_type = 0 →
    g.sliceHdr.pic_order_cnt_lsb = v.sliceHdr.pic_order_cnt_lsb
  delta_pic_order_cnt_bottom : v.currSeqParams.pic_order_cnt_type = 0 →
    v.currPicParams.pic_order_present_flag ≠ 0 →
      g.sliceHdr.delta_pic_order_cnt_bottom = v.sliceHdr.delta_pic_order_cnt_bottom
  delta_pic_order_cnt_0 : v.currSeqParams.pic_order_cnt_type = 1 →
    v.currSeqParams.delta_pic_order_always_zero_flag = 0 →
      g.sliceHdr.delta_pic_order_cnt.1 = v.sliceHdr.delta_pic_order_cnt.1
  delta_pic_order_cnt_1 : v.currSeqParams.pic_order_cnt_type = 1 →
    v.currSeqParams.delta_pic_order_always_zero_flag = 0 →
      v.currPicParams.pic_order_present_flag ≠ 0 →
        g.sliceHdr.delta_pic_order_cnt.2 = v.sliceHdr.delta_pic_order_cnt.2
  redundant_pic_cnt : v.currPicParams.redundant_pic_cnt_present_flag ≠ 0 →
    g.sliceHdr.redundant_pic_cnt = v.sliceHdr.redundant_pic_cnt
  num_ref_idx_active_override_flag : v.slice_type = AVC_P_SLICE →
    g.sliceHdr.num_ref_idx_active_override_flag = v.sliceHdr.num_ref_idx_active_override_flag
  num_ref_idx_l0_active_minus1 : v.slice_type = AVC_P_SLICE →
    g.sliceHdr.num_ref_idx_l0_active_minus1 = v.activeRefs
  reordering_flag : v.slice_type = AVC_P_SLICE →
    g.sliceHdr.l0.ref_pic_list_reordering_flag = v.sliceHdr.l0.ref_pic_list_reordering_flag
  reordering : v.slice_type = AVC_P_SLICE → v.sliceHdr.l0.ref_pic_list_reordering_flag ≠ 0 →
    g.sliceHdr.l0.Same v.sliceHdr.l0
  prior_pics : v.nal_ref_idc ≠ 0 → v.nal_unit_type = AVC_NALTYPE_IDR →
    g.sliceHdr.marking.no_output_of_prior_pics_flag =
        v.sliceHdr.marking.no_output_of_prior_pics_flag ∧
      g.sliceHdr.marking.long_term_reference_flag = v.sliceHdr.marking.long_term_reference_flag
  marking_flag : v.nal_ref_idc ≠ 0 → v.nal_unit_type ≠ AVC_NALTYPE_IDR →
    g.sliceHdr.marking.adaptive_ref_pic_marking_mode_flag =
      v.sliceHdr.marking.adaptive_ref_pic_marking_mode_flag
  marking : v.nal_ref_idc ≠ 0 → v.nal_unit_type ≠ AVC_NALTYPE_IDR →
    v.sliceHdr.marking.adaptive_ref_pic_marking_mode_flag ≠ 0 →
      g.sliceHdr.marking.Same v.sliceHdr.marking
  slice_qp_delta : g.sliceHdr.slice_qp_delta = v.sliceHdr.slice_qp_delta
  disable_deblocking_filter_idc : v.currPicParams.deblocking_filter_control_present_flag ≠ 0 →
    g.sliceHdr.disable_deblocking_filter_idc = v.sliceHdr.disable_deblocking_filter_idc
  filter_offsets : v.currPicParams.deblocking_filter_control_present_flag ≠ 0 →
    v.sliceHdr.disable_deblocking_filter_idc ≠ 1 →
      g.sliceHdr.slice_alpha_c0_offset_div2 = v.sliceHdr.slice_alpha_c0_offset_div2 ∧
        g.sliceHdr.slice_beta_offset_div_2 = v.sliceHdr.slice_beta_offset_div_2
  slice_group_change_cycle : v.currPicParams.num_slice_groups_minus1 > 0 →
    v.currPicParams.slice_group_map_type ≥ 3 → v.currPicParams.slice_group_map_type ≤ 5 →
      g.sliceHdr.slice_group_change_cycle = v.sliceHdr.slice_group_change_cycle

/-- What a stream may hold after calls: where a value does not fit its width, it spoils bits. -/
def Written (calls : List WriteCall) (w : List Bool) : Prop :=
  w.length = (callsBits calls).length ∧ ((∀ c ∈ calls, c.Fits) → w = callsBits calls)

/-- **What is asked for.** Whatever bits follow, decoding what the encoder wrote succeeds, recovers
    every field and ends at the bit where the encoder stopped. -/
def ComesBack (configure : DecVideo → AVCSeqParamSet → Option Stop) (decvid : AVCDecObject)
    (d : DecVideo) (v : EncVideo) : Prop :=
  ∀ w, Written (Enc.EncodeSliceHeader v).1 w → ∀ r rest, bits r = w ++ rest →
    ∃ g s, (Dec.DecodeSliceHeader configure decvid d).exec (.opened r r.length) = (.ok g, s) ∧
      s.bitcnt = w.length ∧ HeaderRecovered v g

/-- The commands that neither side handles alike are absent: no reordering commands, no operations,
    no slice groups that change; the identification of an IDR picture is below 65535, the picture is
    not redundant, and the number of references of an I slice's picture parameter set is small. -/
structure Plain (v : EncVideo) : Prop where
  reordering : v.slice_type = AVC_P_SLICE → v.sliceHdr.l0.ref_pic_list_reordering_flag = 0
  marking : v.nal_ref_idc ≠ 0 → v.nal_unit_type ≠ AVC_NALTYPE_IDR →
    v.sliceHdr.marking.adaptive_ref_pic_marking_mode_flag = 0 ∨
      v.sliceHdr.marking.memory_management_control_operation 0 = 0
  groups : ¬ (v.currPicParams.num_slice_groups_minus1 > 0 ∧
    v.currPicParams.slice_group_map_type ≥ 3 ∧ v.currPicParams.slice_group_map_type ≤ 5)
  idr_pic_id : v.nal_unit_type = AVC_NALTYPE_IDR → v.sliceHdr.idr_pic_id < 65535
  redundant_pic_cnt : v.currPicParams.redundant_pic_cnt_present_flag ≠ 0 →
    v.sliceHdr.redundant_pic_cnt = 0
  references : v.slice_type = AVC_I_SLICE → v.currPicParams.num_ref_idx_l0_active_minus1 ≤ 15

/-! ## 4. The first half -/

/-- The two slice types that are handled. -/
theorem LegalSlice.types {d : DecVideo} {v : EncVideo} (h : LegalSlice d v) :
    v.writtenType < 10 ∧
      (if v.writtenType > 4 then v.writtenType - 5 else v.writtenType) = v.slice_type ∧
      ¬ (v.slice_type = 1 ∨ v.slice_type > 2) := by
  have ht : v.slice_type = 2 ∨ v.slice_type = 0 := h.slice_type
  have hw : v.writtenType = v.slice_type ∨ v.writtenType = v.slice_type + 5 := by
    unfold EncVideo.writtenType
    split
    · exact h.header_type
    · exact .inl rfl
  refine ⟨by omega, ?_, by omega⟩
  split <;> omega

section Half

variable {configure : DecVideo → AVCSeqParamSet → Option Stop} {decvid : AVCDecObject}
  {d : DecVideo} {v : EncVideo}

theorem carries_first (ha : Active decvid d v) (h : LegalSlice d v) :
    Carries (Enc.ue_v v.sliceHdr.first_mb_in_slice ++
        (Enc.ue_v v.writtenType ++ Enc.ue_v v.sliceHdr.pic_parameter_set_id))
      (Dec.firstPart configure decvid d)
      (v.sliceHdr.first_mb_in_slice, v.writtenType, v.sliceHdr.pic_parameter_set_id,
        v.currPicParams, v.currSeqParams) := by
  obtain ⟨hlt, htype, hok⟩ := h.types
  have hid := h.pic_parameter_set_id
  have hfollows := h.follows
  unfold Dec.firstPart
  refine .bind (.ue h.first_mb_in_slice) (.bind (.ue (by omega)) (.check (by omega) ?_))
  refine .check (by rwa [htype]) ?_
  rw [← append_nil (Enc.ue_v _)]
  refine .bind (.ue (by omega)) (.check (by omega) ?_)
  have hseq := ha.seq
  rw [ha.same] at hseq
  simp only [ha.pic, ha.same, hseq, ne_eq, not_true, if_false]
  exact .pure _

/-- What the decoder has of the order of pictures. -/
def receivedOrder (v : EncVideo) (lsb : Nat) : Nat × Int × Int × Int :=
  let first := v.currSeqParams.pic_order_cnt_type = 0
  let second := v.currSeqParams.pic_order_cnt_type = 1 ∧
    v.currSeqParams.delta_pic_order_always_zero_flag = 0
  let both := v.currPicParams.pic_order_present_flag ≠ 0
  (if first then v.sliceHdr.pic_order_cnt_lsb else lsb,
    if first then if both then v.sliceHdr.delta_pic_order_cnt_bottom else 0 else 0,
    if second then v.sliceHdr.delta_pic_order_cnt.1 else 0,
    if second then if both then v.sliceHdr.delta_pic_order_cnt.2 else 0 else 0)

theorem carries_offset {present : Nat} {offset : Int} (ho : offset.natAbs < 2 ^ 30) :
    Carries (if present ≠ 0 then Enc.se_v offset else [])
      (if present ≠ 0 then Dec.se_v32bit else pure 0) (if present ≠ 0 then offset else 0) :=
  .ite (fun _ => .se32 (codeOf_offset ho)) fun _ => .pure 0

theorem carries_order (h : LegalSlice d v) (hb : Baseline v.currSeqParams v.currPicParams)
    (lsb : Nat) :
    Carries (Enc.orderPart v) (Dec.orderPart v.currSeqParams v.currPicParams lsb)
      (receivedOrder v lsb) := by
  have hlog := hb.log2_max_pic_order_cnt_lsb_minus4
  have hlsb := h.pic_order_cnt_lsb
  unfold Enc.orderPart Dec.orderPart
  simp only [h.field_pic_flag, and_true]
  by_cases h0 : v.currSeqParams.pic_order_cnt_type = 0
  · have hrec : receivedOrder v lsb = (v.sliceHdr.pic_order_cnt_lsb,
        if v.currPicParams.pic_order_present_flag ≠ 0 then v.sliceHdr.delta_pic_order_cnt_bottom
        else 0, 0, 0) := by
      simp [receivedOrder, h0]
    have h1 : ¬ (v.currSeqParams.pic_order_cnt_type = 1 ∧
        v.currSeqParams.delta_pic_order_always_zero_flag = 0) := by
      omega
    rw [hrec, if_pos h0, if_pos h0, if_neg h1, if_neg h1]
    refine .bind (v := (v.sliceHdr.pic_order_cnt_lsb,
      if v.currPicParams.pic_order_present_flag ≠ 0 then v.sliceHdr.delta_pic_order_cnt_bottom
      else 0)) ?_ (.skip (.pure (0, 0)) (.pure _))
    refine .bind (.bits (by omega) (by omega) hlsb) (.check ?_ ?_)
    · exact Nat.not_lt_of_le (Nat.le_sub_one_of_lt hlsb)
    · exact .bind_pure (carries_offset h.delta_pic_order_cnt_bottom)
  rw [if_neg h0, if_neg h0, nil_append]
  refine .skip (.pure (lsb, 0)) ?_
  by_cases h1 : v.currSeqParams.pic_order_cnt_type = 1 ∧
      v.currSeqParams.delta_pic_order_always_zero_flag = 0
  · have hrec : receivedOrder v lsb = (lsb, 0, v.sliceHdr.delta_pic_order_cnt.1,
        if v.currPicParams.pic_order_present_flag ≠ 0 then v.sliceHdr.delta_pic_order_cnt.2
        else 0) := by
      simp [receivedOrder, h1]
    rw [hrec, if_pos h1, if_pos h1]
    show Carries _ _ ((fun second : Int × Int => (lsb, (0 : Int), second.1, second.2))
      (v.sliceHdr.delta_pic_order_cnt.1, if v.currPicParams.pic_order_present_flag ≠ 0 then
        v.sliceHdr.delta_pic_order_cnt.2 else 0))
    refine .bind_pure (f := fun second : Int × Int => (lsb, (0 : Int), second.1, second.2)) ?_
    exact .bind (.se32 (codeOf_offset h.delta_pic_order_cnt_0))
      (.bind_pure (carries_offset h.delta_pic_order_cnt_1))
  · have hrec : receivedOrder v lsb = (lsb, 0, 0, 0) := by
      simp [receivedOrder, h0, h1]
    rw [hrec, if_neg h1, if_neg h1]
    exact .skip (.pure (0, 0)) (.pure _)

/-- The references of the slice. -/
def receivedReferences (v : EncVideo) (override : Nat) : Nat × Nat × Nat :=
  (0, if v.slice_type = AVC_P_SLICE then v.sliceHdr.num_ref_idx_active_override_flag else override,
    if v.slice_type = AVC_P_SLICE then v.activeRefs
    else v.currPicParams.num_ref_idx_l0_active_minus1)

theorem carries_reference (h : LegalSlice d v)
    (hred : v.currPicParams.redundant_pic_cnt_present_flag ≠ 0 → v.sliceHdr.redundant_pic_cnt = 0)
    (href : v.slice_type = AVC_I_SLICE → v.currPicParams.num_ref_idx_l0_active_minus1 ≤ 15)
    (override : Nat) :
    Carries (Enc.referencePart v) (Dec.referencePart v.currPicParams v.slice_type override)
      (receivedReferences v override) := by
  have hactive := h.activeRefs
  unfold Enc.referencePart Dec.referencePart
  have hredundant : Carries
      (if v.currPicParams.redundant_pic_cnt_present_flag ≠ 0 then
        Enc.ue_v v.sliceHdr.redundant_pic_cnt
      else [])
      (if v.currPicParams.redundant_pic_cnt_present_flag ≠ 0 then do
        let redundant_pic_cnt ← Dec.ue_v
        Dec.failIf (redundant_pic_cnt > 127) .AVCDEC_FAIL
        Dec.failIf (redundant_pic_cnt > 0) .AVCDEC_NOT_SUPPORTED
        return redundant_pic_cnt
      else return 0) 0 := by
    refine .option (fun hp => ?_) fun _ => rfl
    rw [hred hp, ← append_nil (Enc.ue_v 0)]
    exact .bind (.ue (by decide)) (.check (by decide) (.check (by decide) (.pure 0)))
  rcases h.slice_type with ht | ht
  · -- an I slice: nothing is written
    have hnum := href ht
    have hB : ¬ v.slice_type = AVC_B_SLICE := by rw [ht]; decide
    have hP : ¬ v.slice_type = AVC_P_SLICE := by rw [ht]; decide
    have hSP : ¬ v.slice_type = AVC_SP_SLICE := by rw [ht]; decide
    have hrec : receivedReferences v override =
        (0, override, v.currPicParams.num_ref_idx_l0_active_minus1) := by
      simp only [receivedReferences, if_neg hP]
    simp only [hrec, hB, hP, hSP, or_self, if_false]
    rw [append_nil]
    refine .bind hredundant (.skip (.pure _) (.check (by omega) ?_))
    exact .pure _
  · have hnum := hactive ht
    have hB : ¬ v.slice_type = AVC_B_SLICE := by rw [ht]; decide
    have hrec : receivedReferences v override =
        (0, v.sliceHdr.num_ref_idx_active_override_flag, v.activeRefs) := by
      simp only [receivedReferences, if_pos ht]
    have hwith : v.slice_type = AVC_P_SLICE ∨ v.slice_type = AVC_SP_SLICE ∨
        v.slice_type = AVC_B_SLICE := .inl ht
    rw [hrec, if_neg hB, if_neg hB, if_pos hwith, if_pos ht, append_nil, append_nil]
    have hrefs : Carries
        (Enc.write1Bit v.sliceHdr.num_ref_idx_active_override_flag ++
          if v.sliceHdr.num_ref_idx_active_override_flag ≠ 0 then
            Enc.ue_v v.sliceHdr.num_ref_idx_l0_active_minus1
          else [])
        (do
          let override ← Dec.read1Bit
          let num ← (if override ≠ 0 then Dec.ue_v
            else pure v.currPicParams.num_ref_idx_l0_active_minus1)
          return (override, num))
        (v.sliceHdr.num_ref_idx_active_override_flag, v.activeRefs) := by
      refine .bind (.bit h.num_ref_idx_active_override_flag) (.bind_pure ?_)
      unfold EncVideo.activeRefs at hnum ⊢
      refine .ite (fun hf => .ue ?_) fun _ => .pure _
      rw [if_pos hf] at hnum
      omega
    rw [← append_nil (Enc.write1Bit _ ++ _)]
    refine .bind hredundant (.bind hrefs (.check (by omega) ?_))
    exact .pure _

/-- The decoder behind the first half. -/
def receivedHalf (d : DecVideo) (v : EncVideo) : DecVideo :=
  let order := receivedOrder v d.sliceHdr.pic_order_cnt_lsb
  let reference := receivedReferences v d.sliceHdr.num_ref_idx_active_override_flag
  { d with
    slice_type := v.slice_type
    seq_parameter_set_id := v.currPicParams.seq_parameter_set_id
    prevFrameNum :=
      if d.currFS = false ∧ v.sliceHdr.frame_num ≠ 0 then v.sliceHdr.frame_num - 1
      else d.prevFrameNum
    PrevRefFrameNum :=
      if d.currFS = false ∧ v.sliceHdr.frame_num ≠ 0 then v.sliceHdr.frame_num - 1
      else d.PrevRefFrameNum
    sliceHdr := { d.sliceHdr with
      first_mb_in_slice := v.sliceHdr.first_mb_in_slice
      slice_type := v.writtenType
      pic_parameter_set_id := v.sliceHdr.pic_parameter_set_id
      frame_num := v.sliceHdr.frame_num
      pic_order_cnt_lsb := order.1, delta_pic_order_cnt_bottom := order.2.1
      delta_pic_order_cnt := order.2.2, redundant_pic_cnt := reference.1
      num_ref_idx_active_override_flag := reference.2.1
      num_ref_idx_l0_active_minus1 := reference.2.2
      num_ref_idx_l1_active_minus1 := v.currPicParams.num_ref_idx_l1_active_minus1 } }

/-- **The first half** comes back, unless the identification of an IDR picture is 65535. -/
theorem carries_firstHalf (ha : Active decvid d v) (h : LegalSlice d v)
    (hb : Baseline v.currSeqParams v.currPicParams)
    (hidr : v.nal_unit_type = AVC_NALTYPE_IDR → v.sliceHdr.idr_pic_id < 65535)
    (hred : v.currPicParams.redundant_pic_cnt_present_flag ≠ 0 → v.sliceHdr.redundant_pic_cnt = 0)
    (href : v.slice_type = AVC_I_SLICE → v.currPicParams.num_ref_idx_l0_active_minus1 ≤ 15) :
    Carries (Enc.firstPart v ++ Enc.idrPart v ++ Enc.orderPart v ++ Enc.referencePart v)
      (Dec.firstHalf configure decvid d)
      (receivedHalf d v, v.currPicParams, v.currSeqParams) := by
  obtain ⟨-, htype, -⟩ := h.types
  have hlog := hb.log2_max_frame_num_minus4
  have hmbs := hb.frame_mbs_only_flag
  have hinside := h.inside
  rw [ha.PicSizeInMapUnits] at hinside
  unfold Enc.firstPart Enc.idrPart Dec.firstHalf
  have hw : (if v.mbNum = 0 then v.sliceHdr.slice_type else v.slice_type) = v.writtenType := rfl
  rw [hw, ← ha.nal_unit_type]
  simp only [append_assoc]
  rw [← append_assoc (Enc.ue_v v.writtenType), ← append_assoc (Enc.ue_v _)]
  refine .bind (carries_first ha h) ?_
  dsimp only
  refine .bind (.bits (by omega) (by omega) h.frame_num) ?_
  refine .skip (v := d.sliceHdr.field_pic_flag) ?_ ?_
  · rw [if_neg (by omega)]
    exact .pure _
  refine .check (by omega) (.check ?_ ?_)
  · rw [hmbs, Nat.add_one_sub_one, Nat.one_mul]
    exact Nat.not_le_of_lt hinside
  refine .bind (v := if d.nal_unit_type = AVC_NALTYPE_IDR then v.sliceHdr.idr_pic_id else 0)
    (.ite (fun hi => .ue (hidr (ha.nal_unit_type ▸ hi))) fun _ => .pure 0) ?_
  refine .bind (carries_order h hb _) ?_
  simp only [htype]
  exact .bind_pure (carries_reference h hred href _)

/-! ## 5. The second half -/

/-- Without commands, the list is the flag. -/
theorem carries_reordering (h : LegalSlice d v)
    (hplain : v.slice_type = AVC_P_SLICE → v.sliceHdr.l0.ref_pic_list_reordering_flag = 0)
    (MaxPicNum num : Nat) (l0 : Reordering) :
    Carries (Enc.ref_pic_list_reordering v.sliceHdr v.slice_type)
      (Dec.ref_pic_list_reordering MaxPicNum num v.slice_type l0)
      { l0 with
        ref_pic_list_reordering_flag :=
          if v.slice_type = AVC_P_SLICE then v.sliceHdr.l0.ref_pic_list_reordering_flag
          else l0.ref_pic_list_reordering_flag } := by
  unfold Enc.ref_pic_list_reordering Dec.ref_pic_list_reordering
  rcases h.slice_type with ht | ht
  · rw [ht]
    exact .pure l0
  · have hf := hplain ht
    have hI : v.slice_type ≠ AVC_I_SLICE := by rw [ht]; decide
    have hSI : v.slice_type ≠ AVC_SI_SLICE := by rw [ht]; decide
    have hB : v.slice_type ≠ AVC_B_SLICE := by rw [ht]; decide
    rw [if_pos ⟨hI, hSI⟩, if_neg hB, if_pos hI, if_pos ht, hf]
    unfold Enc.reorderingList
    rw [hf]
    exact .bind (.bit (v := 0) (by decide)) (.pure _)

/-- What is kept of the marking syntax. -/
def MarkingRecovered (v : EncVideo) (m : Marking) : Prop :=
  (v.nal_unit_type = AVC_NALTYPE_IDR →
    m.no_output_of_prior_pics_flag = v.sliceHdr.marking.no_output_of_prior_pics_flag ∧
      m.long_term_reference_flag = v.sliceHdr.marking.long_term_reference_flag) ∧
  (v.nal_unit_type ≠ AVC_NALTYPE_IDR →
    m.adaptive_ref_pic_marking_mode_flag =
        v.sliceHdr.marking.adaptive_ref_pic_marking_mode_flag ∧
      (v.sliceHdr.marking.adaptive_ref_pic_marking_mode_flag ≠ 0 →
        m.Same v.sliceHdr.marking))

theorem carries_terminator (m : Marking) :
    ∃ m' : Marking, Carries (Enc.ue_v 0) (Dec.markingLoop MAX_DEC_REF_PIC_MARKING 0 m) m' ∧
      m'.adaptive_ref_pic_marking_mode_flag = m.adaptive_ref_pic_marking_mode_flag ∧
      m'.memory_management_control_operation 0 = 0 := by
  refine ⟨{ m with
    memory_management_control_operation :=
      update m.memory_management_control_operation 0 0
    difference_of_pic_nums_minus1 :=
      update m.difference_of_pic_nums_minus1 0 (m.difference_of_pic_nums_minus1 0)
    long_term_pic_num := update m.long_term_pic_num 0 (m.long_term_pic_num 0)
    long_term_frame_idx := update m.long_term_frame_idx 0 (m.long_term_frame_idx 0)
    max_long_term_frame_idx_plus1 :=
      update m.max_long_term_frame_idx_plus1 0 (m.max_long_term_frame_idx_plus1 0) },
    ?_, rfl, Function.update_self (0 : Nat) (0 : Nat) m.memory_management_control_operation⟩
  rw [← append_nil (Enc.ue_v 0)]
  exact .bind (.ue (by decide)) (.pure _)

/-- Without operations, the marking syntax comes back. -/
theorem carries_marking (h : LegalSlice d v) (video : DecVideo)
    (hnal : video.nal_unit_type = v.nal_unit_type)
    (hplain : v.nal_unit_type ≠ AVC_NALTYPE_IDR →
      v.sliceHdr.marking.adaptive_ref_pic_marking_mode_flag = 0 ∨
        v.sliceHdr.marking.memory_management_control_operation 0 = 0) :
    (Enc.dec_ref_pic_marking v.nal_unit_type v.sliceHdr.marking).2 = .AVCENC_SUCCESS ∧
    ∃ marking MaxLongTermFrameIdx LongTermFrameIdx,
      Carries (Enc.dec_ref_pic_marking v.nal_unit_type v.sliceHdr.marking).1
        (Dec.dec_ref_pic_marking video)
        (video.marked marking MaxLongTermFrameIdx LongTermFrameIdx) ∧
      MarkingRecovered v marking := by
  obtain ⟨m, hm⟩ : ∃ m, v.sliceHdr.marking = m := ⟨_, rfl⟩
  unfold MarkingRecovered Enc.dec_ref_pic_marking Dec.dec_ref_pic_marking
  have hflag := h.marking_flag
  have hlegal := h.marking
  rw [hm] at hplain hflag hlegal ⊢
  by_cases hi : v.nal_unit_type = AVC_NALTYPE_IDR
  · have hprior := h.no_output_of_prior_pics_flag
    have hlong := h.long_term_reference_flag
    rw [hm] at hprior hlong
    simp only [hnal, if_pos hi]
    refine ⟨trivial, _, _, _, .bind (.bit hprior) (.bind_pure (.bit hlong)), ?_, ?_⟩
    · exact fun _ => ⟨rfl, rfl⟩
    · exact fun hne => absurd hi hne
  simp only [hnal, if_neg hi]
  by_cases hf : m.adaptive_ref_pic_marking_mode_flag = 0
  · rw [if_neg (not_not_intro hf)]
    refine ⟨rfl, { video.sliceHdr.marking with adaptive_ref_pic_marking_mode_flag := 0 },
      video.MaxLongTermFrameIdx, video.LongTermFrameIdx, ?_, fun h => absurd h hi, fun _ => ?_⟩
    · rw [hf, ← append_nil (Enc.write1Bit 0)]
      exact .bind (.bit (v := 0) (by decide)) (.pure _)
    · exact ⟨hf.symm, fun hne => absurd hf hne⟩
  · -- the terminator alone
    have hf1 : m.adaptive_ref_pic_marking_mode_flag = 1 := by omega
    have h0 : m.memory_management_control_operation 0 = 0 := (hplain hi).resolve_left hf
    obtain ⟨k, -, hzero, hops⟩ := hlegal hf
    have hk : k = 0 := by
      by_contra hk
      exact (hops 0 (by omega)).1 h0
    have hend : Enc.markingEnd m MAX_DEC_REF_PIC_MARKING 1 = 1 := by
      show (if m.memory_management_control_operation 1 ≠ 0 ∧ 1 < MAX_DEC_REF_PIC_MARKING then
        Enc.markingEnd m 63 2 else 1) = 1
      rw [if_neg (fun hc => hc.1 (hzero 1 (by omega)))]
    have hloop : Enc.markingLoop m MAX_DEC_REF_PIC_MARKING 0 = Enc.ue_v 0 := by
      show Enc.markingCommand m 0 ++ (if m.memory_management_control_operation 1 ≠ 0 ∧
        1 < MAX_DEC_REF_PIC_MARKING then Enc.markingLoop m 63 1 else []) = Enc.ue_v 0
      rw [if_neg (fun hc => hc.1 (hzero 1 (by omega))), Enc.markingCommand, h0]
      rfl
    rw [if_pos hf, hend, hloop, hf1]
    have hshort : ¬ (1 ≥ MAX_DEC_REF_PIC_MARKING ∧ m.memory_management_control_operation 1 ≠ 0) :=
      fun hc => absurd hc.1 (by decide)
    rw [if_neg hshort]
    obtain ⟨m', hm', hflag', hop'⟩ := carries_terminator
      { video.sliceHdr.marking with adaptive_ref_pic_marking_mode_flag := 1 }
    refine ⟨rfl, _, video.MaxLongTermFrameIdx, video.LongTermFrameIdx,
      .bind (.bit (v := 1) (by decide)) (.bind_pure hm'), fun h => absurd h hi,
      fun _ => ⟨hflag', fun _ i hi => ?_⟩⟩
    obtain rfl : i = 0 := by
      by_contra hne
      exact hi 0 (by omega) h0
    rw [hop']
    refine ⟨h0.symm, ?_, ?_, ?_, ?_⟩ <;> (rw [h0]; intro hop; omega)

/-- What the decoder has of the quantiser and the deblocking filter. -/
def receivedFilter (v : EncVideo) : Int × Nat × Int × Int :=
  let there := v.currPicParams.deblocking_filter_control_present_flag ≠ 0
  let offsets := v.sliceHdr.disable_deblocking_filter_idc ≠ 1
  (v.sliceHdr.slice_qp_delta,
    if there then
      (v.sliceHdr.disable_deblocking_filter_idc,
        if offsets then
          (v.sliceHdr.slice_alpha_c0_offset_div2, v.sliceHdr.slice_beta_offset_div_2)
        else (0, 0))
    else (0, 0, 0))

theorem carries_filter (h : LegalSlice d v) :
    Carries (Enc.filterPart v) (Dec.filterPart v.currPicParams) (receivedFilter v) := by
  have hidc := h.disable_deblocking_filter_idc
  have halpha := h.slice_alpha_c0_offset_div2
  have hbeta := h.slice_beta_offset_div_2
  have hSP : ¬ (v.slice_type = AVC_SP_SLICE ∨ v.slice_type = AVC_SI_SLICE) := by
    rcases h.slice_type with ht | ht <;> rw [ht] <;> decide
  unfold Enc.filterPart Dec.filterPart
  rw [if_neg hSP, append_nil]
  refine .bind (.se (codeOf_small h.slice_qp_delta)) (.bind_pure (.ite (fun _ => ?_) fun _ => .pure _))
  refine .bind (.ue (by omega)) (.check (by omega) (.bind_pure (.ite (fun _ => ?_) fun _ => .pure _)))
  refine .bind (.se (codeOf_small halpha)) (.check (by omega) ?_)
  rw [← append_nil (Enc.se_v _)]
  exact .bind (.se (codeOf_small hbeta)) (.check (by omega) (.pure _))

/-- The calls of the second half. -/
def Enc.secondHalf (v : EncVideo) : List WriteCall :=
  Enc.ref_pic_list_reordering v.sliceHdr v.slice_type ++
  ((if v.nal_ref_idc ≠ 0 then (Enc.dec_ref_pic_marking v.nal_unit_type v.sliceHdr.marking).1
    else []) ++
  (Enc.filterPart v ++ Enc.cyclePart v))

/-- All calls, when the operations fit into their array. -/
theorem encode_calls (h : LegalSlice d v) (hb : Baseline v.currSeqParams v.currPicParams)
    (hm : v.nal_ref_idc ≠ 0 →
      (Enc.dec_ref_pic_marking v.nal_unit_type v.sliceHdr.marking).2 = .AVCENC_SUCCESS) :
    (Enc.EncodeSliceHeader v).1 =
      (Enc.firstPart v ++ Enc.idrPart v ++ Enc.orderPart v ++ Enc.referencePart v) ++
        Enc.secondHalf v := by
  have hweight : ¬ ((v.currPicParams.weighted_pred_flag ≠ 0 ∧
        (v.slice_type = AVC_P_SLICE ∨ v.slice_type = AVC_SP_SLICE)) ∨
      (v.currPicParams.weighted_bipred_idc = 1 ∧ v.slice_type = AVC_B_SLICE)) := by
    have hw := hb.weighted_pred_flag
    rintro (⟨hne, -⟩ | ⟨-, hB⟩)
    · exact hne hw
    · rcases h.slice_type with ht | ht <;> exact absurd (ht.symm.trans hB) (by decide)
  have hcabac : ¬ (v.currPicParams.entropy_coding_mode_flag ≠ 0 ∧ v.slice_type ≠ AVC_I_SLICE ∧
      v.slice_type ≠ AVC_SI_SLICE) := fun hc => hc.1 hb.entropy_coding_mode_flag
  unfold Enc.EncodeSliceHeader Enc.secondHalf
  simp only [if_neg hweight, if_neg hcabac]
  by_cases hr : v.nal_ref_idc ≠ 0
  · simp only [if_pos hr, hm hr, ne_eq, not_true, if_false, append_assoc]
  · simp only [if_neg hr, ne_eq, not_true, if_false, append_assoc]

/-- The decoder behind the commands, when there are none. -/
def receivedL0 (d : DecVideo) (v : EncVideo) : Reordering :=
  { d.sliceHdr.l0 with
    ref_pic_list_reordering_flag :=
      if v.slice_type = AVC_P_SLICE then v.sliceHdr.l0.ref_pic_list_reordering_flag
      else d.sliceHdr.l0.ref_pic_list_reordering_flag }

theorem carries_secondHalf (ha : Active decvid d v) (h : LegalSlice d v) (hp : Plain v) :
    (v.nal_ref_idc ≠ 0 →
      (Enc.dec_ref_pic_marking v.nal_unit_type v.sliceHdr.marking).2 = .AVCENC_SUCCESS) ∧
    ∃ marking x y,
      Carries (Enc.secondHalf v)
        (Dec.secondHalf (receivedHalf d v) v.currPicParams v.currSeqParams)
        ((((receivedHalf d v).withL0 (receivedL0 d v)).marked marking x y).withEnd
          (receivedFilter v) d.sliceHdr.slice_group_change_cycle) ∧
      (v.nal_ref_idc ≠ 0 → MarkingRecovered v marking) := by
  obtain ⟨video, hvideo⟩ : ∃ video, (receivedHalf d v).withL0 (receivedL0 d v) = video := ⟨_, rfl⟩
  have hnal : video.nal_unit_type = v.nal_unit_type := by
    rw [← hvideo]
    exact ha.nal_unit_type
  have hidc : video.nal_ref_idc = v.nal_ref_idc := by
    rw [← hvideo]
    exact ha.nal_ref_idc
  have hmark : (v.nal_ref_idc ≠ 0 →
      (Enc.dec_ref_pic_marking v.nal_unit_type v.sliceHdr.marking).2 = .AVCENC_SUCCESS) ∧
      ∃ marking x y,
        Carries
          (if v.nal_ref_idc ≠ 0 then
            (Enc.dec_ref_pic_marking v.nal_unit_type v.sliceHdr.marking).1
          else [])
          (if video.nal_ref_idc ≠ 0 then Dec.dec_ref_pic_marking video else pure video)
          (video.marked marking x y) ∧
        (v.nal_ref_idc ≠ 0 → MarkingRecovered v marking) := by
    rw [hidc]
    by_cases hr : v.nal_ref_idc ≠ 0
    · obtain ⟨hok, m, x, y, hc, hm⟩ := carries_marking h video hnal (hp.marking hr)
      rw [if_pos hr, if_pos hr]
      exact ⟨fun _ => hok, m, x, y, hc, fun _ => hm⟩
    · rw [if_neg hr, if_neg hr]
      exact ⟨fun hne => absurd hne hr, video.sliceHdr.marking, video.MaxLongTermFrameIdx,
        video.LongTermFrameIdx, .pure video, fun hne => absurd hne hr⟩
  obtain ⟨hok, m, x, y, hmarks, hm⟩ := hmark
  have hcycle : Carries (Enc.cyclePart v) (Dec.cyclePart v.currSeqParams v.currPicParams
      (video.marked m x y).sliceHdr.slice_group_change_cycle)
      d.sliceHdr.slice_group_change_cycle := by
    unfold Enc.cyclePart Dec.cyclePart
    rw [if_neg hp.groups, if_neg hp.groups, ← hvideo]
    exact .pure _
  refine ⟨hok, m, x, y, ?_, hm⟩
  rw [hvideo]
  unfold Enc.secondHalf Dec.secondHalf
  refine .bind (carries_reordering h hp.reordering _ _ _) ?_
  rw [← hvideo] at hmarks hcycle ⊢
  exact .bind hmarks (.bind (carries_filter h) (.bind_pure hcycle))

theorem recovered (hp : Plain v) (marking : Marking) (x y : Int)
    (hm : v.nal_ref_idc ≠ 0 → MarkingRecovered v marking) :
    HeaderRecovered v ((((receivedHalf d v).withL0 (receivedL0 d v)).marked marking x y).withEnd
      (receivedFilter v) d.sliceHdr.slice_group_change_cycle) where
  first_mb_in_slice := rfl
  slice_type := rfl
  header_type := rfl
  pic_parameter_set_id := rfl
  frame_num := rfl
  pic_order_cnt_lsb h0 := if_pos h0
  delta_pic_order_cnt_bottom h0 hb := (if_pos h0).trans (if_pos hb)
  delta_pic_order_cnt_0 h1 ha := if_pos ⟨h1, ha⟩
  delta_pic_order_cnt_1 h1 ha hb := (if_pos ⟨h1, ha⟩).trans (if_pos hb)
  redundant_pic_cnt hr := (hp.redundant_pic_cnt hr).symm
  num_ref_idx_active_override_flag ht := if_pos ht
  num_ref_idx_l0_active_minus1 ht := if_pos ht
  reordering_flag ht := if_pos ht
  reordering ht hf := absurd (hp.reordering ht) hf
  prior_pics hr hi := (hm hr).1 hi
  marking_flag hr hi := ((hm hr).2 hi).1
  marking hr hi hf := ((hm hr).2 hi).2 hf
  slice_qp_delta := rfl
  disable_deblocking_filter_idc hd := congrArg Prod.fst (if_pos hd)
  filter_offsets hd h1 := by
    have he : (receivedFilter v).2 = (v.sliceHdr.disable_deblocking_filter_idc,
        v.sliceHdr.slice_alpha_c0_offset_div2, v.sliceHdr.slice_beta_offset_div_2) := by
      simp only [receivedFilter, if_pos hd, if_pos h1]
    exact ⟨congrArg (·.2.1) he, congrArg (·.2.2) he⟩
  slice_group_change_cycle hn h3 h5 := absurd ⟨hn, h3, h5⟩ hp.groups

/-- **A plain header arrives.** -/
theorem header_arrives (ha : Active decvid d v) (h : LegalSlice d v)
    (hb : Baseline v.currSeqParams v.currPicParams) (hp : Plain v) :
    ComesBack configure decvid d v := by
  obtain ⟨hm, marking, x, y, hsecond, hmarked⟩ := carries_secondHalf ha h hp
  obtain ⟨g, hg⟩ : ∃ g, (((receivedHalf d v).withL0 (receivedL0 d v)).marked marking x y).withEnd
      (receivedFilter v) d.sliceHdr.slice_group_change_cycle = g := ⟨_, rfl⟩
  have hrec : HeaderRecovered v g := hg ▸ recovered hp marking x y hmarked
  rw [hg] at hsecond
  have hall : Carries (Enc.EncodeSliceHeader v).1 (Dec.DecodeSliceHeader configure decvid d) g := by
    rw [encode_calls h hb hm]
    exact (carries_firstHalf ha h hb hp.idr_pic_id hp.redundant_pic_cnt hp.references).bind hsecond
  intro w hw r rest hr
  have hfit : w = callsBits (Enc.EncodeSliceHeader v).1 := hw.2 fun c hc => (hall.fits c hc).1
  have hbits : allBits [] (Enc.EncodeSliceHeader v).1 = w := by
    rw [hfit]
    exact allBits_eq [] _ fun c hc => (hall.fits c hc).2
  rw [← hbits] at hr ⊢
  obtain ⟨s, hs, hcnt⟩ := hall.unit hr
  exact ⟨g, s, hs, hcnt, hrec⟩

end Half

end OpenCore.Avc
