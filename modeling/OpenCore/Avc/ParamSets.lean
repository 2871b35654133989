/-
  File:      OpenCore/Avc/ParamSets.lean
  Subject:   THE PARAMETER SETS: as the encoder writes them and as the decoder reads them.

  Both walk the same syntax; each part is a lemma (`carries_vui`, `carries_sps`, `carries_pps`) about
  the two walks side by side. The decoder throws away what it does not use (`received`).

  **Main result**: `paramSets_received`.
-/
import OpenCore.Avc.BitSyntax
import OpenCore.Avc.Syntax

namespace OpenCore.Avc

open MsbBits List
open Function (update)

/-! ## 1. The encoder -/

/-- The loop that counts the bits of `i`. -/
def numBits : Nat → Nat → Nat
  | 0, _ => 0
  | fuel + 1, i => if i > 0 then numBits fuel (i >>> 1) + 1 else 0

namespace Enc

def EncodeHRD (hrd : AVCHRDParams) : List WriteCall :=
  ue_v hrd.cpb_cnt_minus1 ++
  writeBits 4 hrd.bit_rate_scale ++
  writeBits 4 hrd.cpb_size_scale ++
  ((List.range (hrd.cpb_cnt_minus1 + 1)).flatMap fun i =>
    ue_v (hrd.bit_rate_value_minus1.getD i 0) ++
    ue_v (hrd.cpb_size_value_minus1.getD i 0) ++
    ue_v (hrd.cbr_flag.getD i 0)) ++
  writeBits 5 hrd.initial_cpb_removal_delay_length_minus1 ++
  writeBits 5 hrd.cpb_removal_delay_length_minus1 ++
  writeBits 5 hrd.dpb_output_delay_length_minus1 ++
  writeBits 5 hrd.time_offset_length

/-- The part of `EncodeVUI` about the aspect ratio. -/
def aspectRatioPart (vui : AVCVUIParams) : List WriteCall :=
  write1Bit vui.aspect_ratio_info_present_flag ++
  if vui.aspect_ratio_info_present_flag ≠ 0 then
    writeBits 8 vui.aspect_ratio_idc ++
    if vui.aspect_ratio_idc = 255 then
      writeBits 16 vui.sar_width ++
      writeBits 16 vui.sar_height
    else []
  else []

/-- The part about overscan. -/
def overscanPart (vui : AVCVUIParams) : List WriteCall :=
  write1Bit vui.overscan_info_present_flag ++
  if vui.overscan_info_present_flag ≠ 0 then write1Bit vui.overscan_appropriate_flag else []

/-- The part about the video signal. -/
def videoSignalPart (vui : AVCVUIParams) : List WriteCall :=
  write1Bit vui.video_signal_type_present_flag ++
  if vui.video_signal_type_present_flag ≠ 0 then
    writeBits 3 vui.video_format ++
    write1Bit vui.video_full_range_flag ++
    write1Bit vui.colour_description_present_flag ++
    if vui.colour_description_present_flag ≠ 0 then
      writeBits 8 vui.colour_primaries ++
      writeBits 8 vui.transfer_characteristics ++
      writeBits 8 vui.matrix_coefficients
    else []
  else []

/-- The part about the location of the chroma samples. -/
def chromaLocationPart (vui : AVCVUIParams) : List WriteCall :=
  write1Bit vui.chroma_location_info_present_flag ++
  if vui.chroma_location_info_present_flag ≠ 0 then
    ue_v vui.chroma_sample_loc_type_top_field ++
    ue_v vui.chroma_sample_loc_type_bottom_field
  else []

/-- The part about timing. -/
def timingPart (vui : AVCVUIParams) : List WriteCall :=
  write1Bit vui.timing_info_present_flag ++
  if vui.timing_info_present_flag ≠ 0 then
    writeBits 32 vui.num_units_in_tick ++
    writeBits 32 vui.time_scale ++
    write1Bit vui.fixed_frame_rate_flag
  else []

/-- The part about restrictions of the bit stream. -/
def restrictionPart (vui : AVCVUIParams) : List WriteCall :=
  write1Bit vui.bitstream_restriction_flag ++
  if vui.bitstream_restriction_flag ≠ 0 then
    write1Bit vui.motion_vectors_over_pic_boundaries_flag ++
    ue_v vui.max_bytes_per_pic_denom ++
    ue_v vui.max_bits_per_mb_denom ++
    ue_v vui.log2_max_mv_length_horizontal ++
    ue_v vui.log2_max_mv_length_vertical ++
    ue_v vui.max_dec_frame_reordering ++
    ue_v vui.max_dec_frame_buffering
  else []

def EncodeVUI (vui : AVCVUIParams) : List WriteCall :=
  aspectRatioPart vui ++
  overscanPart vui ++
  videoSignalPart vui ++
  chromaLocationPart vui ++
  timingPart vui ++
  write1Bit vui.nal_hrd_parameters_present_flag ++
  (if vui.nal_hrd_parameters_present_flag ≠ 0 then EncodeHRD vui.nal_hrd_parameters else []) ++
  write1Bit vui.vcl_hrd_parameters_present_flag ++
  (if vui.vcl_hrd_parameters_present_flag ≠ 0 then EncodeHRD vui.vcl_hrd_parameters else []) ++
  (if vui.nal_hrd_parameters_present_flag ≠ 0 ∨ vui.vcl_hrd_parameters_present_flag ≠ 0 then
    write1Bit vui.low_delay_hrd_flag
  else []) ++
  write1Bit vui.pic_struct_present_flag ++
  restrictionPart vui

/-- The part of `EncodeSPS` about the order of pictures. -/
def picOrderPart (seqParam : AVCSeqParamSet) : List WriteCall :=
  if seqParam.pic_order_cnt_type = 0 then ue_v seqParam.log2_max_pic_order_cnt_lsb_minus4
  else if seqParam.pic_order_cnt_type = 1 then
    write1Bit seqParam.delta_pic_order_always_zero_flag ++
    se_v seqParam.offset_for_non_ref_pic ++
    se_v seqParam.offset_for_top_to_bottom_field ++
    ue_v seqParam.num_ref_frames_in_pic_order_cnt_cycle ++
    (List.range seqParam.num_ref_frames_in_pic_order_cnt_cycle).flatMap fun i =>
      se_v (seqParam.offset_for_ref_frame.getD i 0)
  else []

/-- The part of `EncodeSPS` about cropping. -/
def croppingPart (seqParam : AVCSeqParamSet) : List WriteCall :=
  if seqParam.frame_cropping_flag ≠ 0 then
    ue_v seqParam.frame_crop_left_offset ++
    ue_v seqParam.frame_crop_right_offset ++
    ue_v seqParam.frame_crop_top_offset ++
    ue_v seqParam.frame_crop_bottom_offset
  else []

def EncodeSPS (seqParam : AVCSeqParamSet) : List WriteCall :=
  writeBits 8 seqParam.profile_idc ++
  write1Bit seqParam.constrained_set0_flag ++
  write1Bit seqParam.constrained_set1_flag ++
  write1Bit seqParam.constrained_set2_flag ++
  (write1Bit seqParam.constrained_set3_flag ++ writeBits 4 0) ++
  writeBits 8 seqParam.level_idc ++
  ue_v seqParam.seq_parameter_set_id ++
  ue_v seqParam.log2_max_frame_num_minus4 ++
  ue_v seqParam.pic_order_cnt_type ++
  picOrderPart seqParam ++
  ue_v seqParam.num_ref_frames ++
  write1Bit seqParam.gaps_in_frame_num_value_allowed_flag ++
  ue_v seqParam.pic_width_in_mbs_minus1 ++
  ue_v seqParam.pic_height_in_map_units_minus1 ++
  write1Bit seqParam.frame_mbs_only_flag ++
  -- no mb_adaptive_frame_field_flag, whatever frame_mbs_only_flag says
  write1Bit seqParam.direct_8x8_inference_flag ++
  write1Bit seqParam.frame_cropping_flag ++
  croppingPart seqParam ++
  write1Bit seqParam.vui_parameters_present_flag ++
  (if seqParam.vui_parameters_present_flag ≠ 0 then EncodeVUI seqParam.vui_parameters else [])

/-- The part of `EncodePPS` about slice groups. -/
def sliceGroupPart (picParam : AVCPicParamSet) : List WriteCall :=
  if picParam.slice_group_map_type = 0 then
    (List.range (picParam.num_slice_groups_minus1 + 1)).flatMap fun iGroup =>
      ue_v (picParam.run_length_minus1.getD iGroup 0)
  else if picParam.slice_group_map_type = 2 then
    (List.range picParam.num_slice_groups_minus1).flatMap fun iGroup =>
      ue_v (picParam.top_left.getD iGroup 0) ++
      ue_v (picParam.bottom_right.getD iGroup 0)
  else if picParam.slice_group_map_type = 3 ∨ picParam.slice_group_map_type = 4 ∨
      picParam.slice_group_map_type = 5 then
    write1Bit picParam.slice_group_change_direction_flag ++
    ue_v picParam.slice_group_change_rate_minus1
  else
    -- meant for type 6; type 1 comes here too
    ue_v picParam.pic_size_in_map_units_minus1 ++
    (List.range (picParam.pic_size_in_map_units_minus1 + 1)).flatMap fun i =>
      writeBits (numBits 32 picParam.num_slice_groups_minus1) (picParam.slice_group_id.getD i 0)

def EncodePPS (picParam : AVCPicParamSet) : List WriteCall :=
  ue_v picParam.pic_parameter_set_id ++
  ue_v picParam.seq_parameter_set_id ++
  write1Bit picParam.entropy_coding_mode_flag ++
  write1Bit picParam.pic_order_present_flag ++
  ue_v picParam.num_slice_groups_minus1 ++
  (if picParam.num_slice_groups_minus1 > 0 then
    ue_v picParam.slice_group_map_type ++ sliceGroupPart picParam
  else []) ++
  ue_v picParam.num_ref_idx_l0_active_minus1 ++
  ue_v picParam.num_ref_idx_l1_active_minus1 ++
  write1Bit picParam.weighted_pred_flag ++
  writeBits 2 picParam.weighted_bipred_idc ++
  se_v picParam.pic_init_qp_minus26 ++
  se_v picParam.pic_init_qs_minus26 ++
  se_v picParam.chroma_qp_index_offset ++
  writeBits 3 (picParam.deblocking_filter_control_present_flag <<< 2 |||
    picParam.constrained_intra_pred_flag <<< 1 ||| picParam.redundant_pic_cnt_present_flag)

end Enc

/-! ## 2. The decoder -/

/-- The fields of `AVCDecObject` and of the common object for parameter sets; `lastSPS` and
    `currPicParams` point into the tables. -/
structure AVCDecObject where
  seqParams : Nat → Option AVCSeqParamSet
  picParams : Nat → Option AVCPicParamSet
  lastSPS : Option Nat
  currPicParams : Option Nat

/-- A decoder that has not received anything. -/
def AVCDecObject.empty : AVCDecObject := ⟨fun _ => none, fun _ => none, none, none⟩

def mapLev2Idx : List Nat :=
  [255, 255, 255, 255, 255, 255, 255, 255, 255, 1,
   0, 1, 2, 3, 255, 255, 255, 255, 255, 255,
   4, 5, 6, 255, 255, 255, 255, 255, 255, 255,
   7, 8, 9, 255, 255, 255, 255, 255, 255, 255,
   10, 11, 12, 255, 255, 255, 255, 255, 255, 255,
   13, 14, 255, 255, 255, 255, 255, 255, 255, 255]

def MAX_NUM_SLICE_GROUP : Nat := 8

/-- `MAX_NUM_REF_FRAMES_IN_PIC_ORDER_CNT_CYCLE`: the length of `offset_for_ref_frame`. -/
def MAX_NUM_REF_FRAMES_IN_PIC_ORDER_CNT_CYCLE : Nat := 255

/-- How often a loop up to `(int)n` runs. -/
def intCount (n : Nat) : Nat := if n < 2147483648 then n else 0

namespace Dec

/-- `hrd_parameters`: the values that are kept. -/
def hrd_parameters (HRDParam : AVCHRDParams) : DecM AVCHRDParams := do
  let cpb_cnt_minus1 ← ue_v
  let _ ← readBits 4
  let _ ← readBits 4
  -- the counter of the loop never exceeds the largest `uint`
  failIf (cpb_cnt_minus1 = 4294967295) .endless
  let _ ← readN (cpb_cnt_minus1 + 1) (do
    let _ ← ue_v
    let _ ← ue_v
    ue_v)
  let _ ← readBits 5
  let cpb_removal_delay_length_minus1 ← readBits 5
  let dpb_output_delay_length_minus1 ← readBits 5
  let time_offset_length ← readBits 5
  return { HRDParam with
    cpb_cnt_minus1, cpb_removal_delay_length_minus1, dpb_output_delay_length_minus1
    time_offset_length }

/-- The part of `vui_parameters` about the aspect ratio: nothing is kept. -/
def aspectRatioPart : DecM Unit := do
  let temp ← read1Bit
  if temp ≠ 0 then do
    let aspect_ratio_idc ← readBits 8
    if aspect_ratio_idc = 255 then do
      let _ ← readBits 16
      let _ ← readBits 16
      return ()
    else return ()
  else return ()

/-- The part about overscan. -/
def overscanPart : DecM Unit := do
  let temp ← read1Bit
  if temp ≠ 0 then do
    let _ ← read1Bit
    return ()
  else return ()

/-- The part about the video signal. -/
def videoSignalPart : DecM Unit := do
  let temp ← read1Bit
  if temp ≠ 0 then do
    let _ ← readBits 3
    let _ ← read1Bit
    let temp ← read1Bit
    if temp ≠ 0 then do
      let _ ← readBits 8
      let _ ← readBits 8
      let _ ← readBits 8
      return ()
    else return ()
  else return ()

/-- The part about the location of the chroma samples. -/
def chromaLocationPart : DecM Unit := do
  let temp ← read1Bit
  if temp ≠ 0 then do
    let _ ← ue_v
    let _ ← ue_v
    return ()
  else return ()

/-- The part about timing. -/
def timingPart : DecM Unit := do
  let temp ← read1Bit
  if temp ≠ 0 then do
    let _ ← readBits 32
    let _ ← readBits 32
    let _ ← read1Bit
    return ()
  else return ()

/-- The part about restrictions of the bit stream. -/
def restrictionPart : DecM Unit := do
  let temp ← read1Bit
  if temp ≠ 0 then do
    let _ ← read1Bit
    let _ ← ue_v
    let _ ← ue_v
    let _ ← ue_v
    let _ ← ue_v
    let _ ← ue_v
    let _ ← ue_v
    return ()
  else return ()

def vui_parameters (vui : AVCVUIParams) : DecM AVCVUIParams := do
  aspectRatioPart
  overscanPart
  videoSignalPart
  chromaLocationPart
  timingPart
  let nal_hrd_parameters_present_flag ← read1Bit
  let nal_hrd_parameters ←
    (if nal_hrd_parameters_present_flag ≠ 0 then hrd_parameters vui.nal_hrd_parameters
    else pure vui.nal_hrd_parameters)
  let vcl_hrd_parameters_present_flag ← read1Bit
  let vcl_hrd_parameters ←
    (if vcl_hrd_parameters_present_flag ≠ 0 then hrd_parameters vui.vcl_hrd_parameters
    else pure vui.vcl_hrd_parameters)
  let _ ←
    (if nal_hrd_parameters_present_flag ≠ 0 ∨ vcl_hrd_parameters_present_flag ≠ 0 then read1Bit
    else pure 0)
  let pic_struct_present_flag ← read1Bit
  restrictionPart
  return { vui with
    nal_hrd_parameters_present_flag, nal_hrd_parameters, vcl_hrd_parameters_present_flag
    vcl_hrd_parameters, pic_struct_present_flag }

/-- The part of `DecodeSPS` about the order of pictures. -/
def picOrderPart (seqParam : AVCSeqParamSet) : DecM AVCSeqParamSet :=
  if seqParam.pic_order_cnt_type = 0 then do
    let log2_max_pic_order_cnt_lsb_minus4 ← ue_v
    return { seqParam with log2_max_pic_order_cnt_lsb_minus4 }
  else if seqParam.pic_order_cnt_type = 1 then do
    let delta_pic_order_always_zero_flag ← read1Bit
    let offset_for_non_ref_pic ← se_v32bit
    let offset_for_top_to_bottom_field ← se_v32bit
    let num_ref_frames_in_pic_order_cnt_cycle ← ue_v
    let count := intCount num_ref_frames_in_pic_order_cnt_cycle
    let offset_for_ref_frame ← readN (min count MAX_NUM_REF_FRAMES_IN_PIC_ORDER_CNT_CYCLE) se_v32bit
    failIf (count > MAX_NUM_REF_FRAMES_IN_PIC_ORDER_CNT_CYCLE) .overrun
    return { seqParam with
      delta_pic_order_always_zero_flag, offset_for_non_ref_pic, offset_for_top_to_bottom_field
      num_ref_frames_in_pic_order_cnt_cycle, offset_for_ref_frame }
  else return seqParam

/-- The part of `DecodeSPS` about cropping. -/
def croppingPart (seqParam : AVCSeqParamSet) : DecM AVCSeqParamSet :=
  if seqParam.frame_cropping_flag ≠ 0 then do
    let frame_crop_left_offset ← ue_v
    let frame_crop_right_offset ← ue_v
    let frame_crop_top_offset ← ue_v
    let frame_crop_bottom_offset ← ue_v
    return { seqParam with
      frame_crop_left_offset, frame_crop_right_offset, frame_crop_top_offset
      frame_crop_bottom_offset }
  else return seqParam

def DecodeSPS (decvid : AVCDecObject) : DecM AVCDecObject := do
  let profile_idc ← readBits 8
  let constrained_set0_flag ← read1Bit
  let constrained_set1_flag ← read1Bit
  let constrained_set2_flag ← read1Bit
  let _ ← readBits 5
  let level_idc ← readBits 8
  failIf (level_idc > 51) .AVCDEC_FAIL
  failIf (mapLev2Idx.getD level_idc 255 = 255) .AVCDEC_FAIL
  let seq_parameter_set_id ← ue_v
  failIf (seq_parameter_set_id > 31) .AVCDEC_FAIL
  let log2_max_frame_num_minus4 ← ue_v
  failIf (log2_max_frame_num_minus4 > 12) .AVCDEC_FAIL
  let pic_order_cnt_type ← ue_v
  let seqParam ← picOrderPart { AVCSeqParamSet.zero with
    profile_idc, constrained_set0_flag, constrained_set1_flag, constrained_set2_flag, level_idc
    seq_parameter_set_id, log2_max_frame_num_minus4, pic_order_cnt_type }
  let num_ref_frames ← ue_v
  failIf (num_ref_frames > 16) .AVCDEC_FAIL
  let gaps_in_frame_num_value_allowed_flag ← read1Bit
  let pic_width_in_mbs_minus1 ← ue_v
  let pic_height_in_map_units_minus1 ← ue_v
  let frame_mbs_only_flag ← read1Bit
  let mb_adaptive_frame_field_flag ← (if frame_mbs_only_flag = 0 then read1Bit else pure 0)
  let direct_8x8_inference_flag ← read1Bit
  let frame_cropping_flag ← read1Bit
  let seqParam ← croppingPart { seqParam with
    num_ref_frames, gaps_in_frame_num_value_allowed_flag, pic_width_in_mbs_minus1
    pic_height_in_map_units_minus1, frame_mbs_only_flag, mb_adaptive_frame_field_flag
    direct_8x8_inference_flag, frame_cropping_flag }
  let vui_parameters_present_flag ← read1Bit
  let vui_parameters ←
    (if vui_parameters_present_flag ≠ 0 then vui_parameters seqParam.vui_parameters
    else pure seqParam.vui_parameters)
  let seqParam := { seqParam with vui_parameters_present_flag, vui_parameters }
  return { decvid with
    seqParams := update decvid.seqParams seq_parameter_set_id (some seqParam)
    lastSPS := some seq_parameter_set_id }

/-- The part of `DecodePPS` about slice groups; type 1 has nothing to read. -/
def sliceGroupPart (decvid : AVCDecObject) (picParam : AVCPicParamSet) : DecM AVCPicParamSet :=
  if picParam.slice_group_map_type = 0 then do
    let run_length_minus1 ← readN (picParam.num_slice_groups_minus1 + 1) ue_v
    return { picParam with run_length_minus1 }
  else if picParam.slice_group_map_type = 2 then do
    let rectangles ← readN picParam.num_slice_groups_minus1 (do
      let top_left ← ue_v
      let bottom_right ← ue_v
      return (top_left, bottom_right))
    return { picParam with
      top_left := rectangles.map (·.1), bottom_right := rectangles.map (·.2) }
  else if picParam.slice_group_map_type = 3 ∨ picParam.slice_group_map_type = 4 ∨
      picParam.slice_group_map_type = 5 then do
    let slice_group_change_direction_flag ← read1Bit
    let slice_group_change_rate_minus1 ← ue_v
    return { picParam with slice_group_change_direction_flag, slice_group_change_rate_minus1 }
  else if picParam.slice_group_map_type = 6 then do
    let pic_size_in_map_units_minus1 ← ue_v
    match decvid.seqParams picParam.seq_parameter_set_id with
    | none => throw .AVCDEC_FAIL
    | some sps => do
        let PicSizeInMapUnits :=
          (sps.pic_width_in_mbs_minus1 + 1) * (sps.pic_height_in_map_units_minus1 + 1)
        failIf (pic_size_in_map_units_minus1 ≠ PicSizeInMapUnits - 1) .AVCDEC_FAIL
        let slice_group_id ← readN PicSizeInMapUnits
          (readBits (numBits 32 picParam.num_slice_groups_minus1))
        return { picParam with pic_size_in_map_units_minus1, slice_group_id }
  else return picParam

def DecodePPS (decvid : AVCDecObject) : DecM AVCDecObject := do
  let pic_parameter_set_id ← ue_v
  failIf (pic_parameter_set_id > 255) .AVCDEC_FAIL
  let seq_parameter_set_id ← ue_v
  failIf (seq_parameter_set_id > 31) .AVCDEC_FAIL
  let entropy_coding_mode_flag ← read1Bit
  failIf (entropy_coding_mode_flag ≠ 0) .AVCDEC_NOT_SUPPORTED
  let pic_order_present_flag ← read1Bit
  let num_slice_groups_minus1 ← ue_v
  failIf (num_slice_groups_minus1 > MAX_NUM_SLICE_GROUP - 1) .AVCDEC_FAIL
  let picParam := { AVCPicParamSet.zero with
    pic_parameter_set_id, seq_parameter_set_id, entropy_coding_mode_flag, pic_order_present_flag
    num_slice_groups_minus1 }
  let picParam ←
    (if num_slice_groups_minus1 > 0 then do
      let slice_group_map_type ← ue_v
      failIf (slice_group_map_type > 6) .AVCDEC_FAIL
      sliceGroupPart decvid { picParam with slice_group_map_type }
    else pure picParam)
  let num_ref_idx_l0_active_minus1 ← ue_v
  failIf (num_ref_idx_l0_active_minus1 > 31) .AVCDEC_FAIL
  let num_ref_idx_l1_active_minus1 ← ue_v
  failIf (num_ref_idx_l1_active_minus1 > 31) .AVCDEC_FAIL
  let weighted_pred_flag ← read1Bit
  let weighted_bipred_idc ← readBits 2
  failIf (weighted_bipred_idc > 2) .AVCDEC_FAIL
  let pic_init_qp_minus26 ← se_v
  failIf (pic_init_qp_minus26 < -26 ∨ pic_init_qp_minus26 > 25) .AVCDEC_FAIL
  let pic_init_qs_minus26 ← se_v
  failIf (pic_init_qs_minus26 < -26 ∨ pic_init_qs_minus26 > 25) .AVCDEC_FAIL
  let chroma_qp_index_offset ← se_v
  failIf (chroma_qp_index_offset < -12 ∨ chroma_qp_index_offset > 12) .AVCDEC_FAIL
  let temp_uint ← readBits 3
  failIf (decvid.seqParams seq_parameter_set_id = none) .AVCDEC_FAIL
  let picParam := { picParam with
    num_ref_idx_l0_active_minus1, num_ref_idx_l1_active_minus1, weighted_pred_flag
    weighted_bipred_idc, pic_init_qp_minus26, pic_init_qs_minus26, chroma_qp_index_offset
    deblocking_filter_control_present_flag := temp_uint >>> 2
    constrained_intra_pred_flag := (temp_uint >>> 1) &&& 1
    redundant_pic_cnt_present_flag := temp_uint &&& 1 }
  return { decvid with
    picParams := update decvid.picParams pic_parameter_set_id (some picParam)
    currPicParams := some pic_parameter_set_id }

end Dec

/-! ## 3. Legal values, and what the decoder keeps -/

/-- Values of the usability information, without HRD parameters and timing. -/
structure AVCVUIParams.Legal (vui : AVCVUIParams) : Prop where
  aspect_ratio_info_present_flag : vui.aspect_ratio_info_present_flag < 2
  aspect_ratio_idc : vui.aspect_ratio_idc < 256
  sar_width : vui.sar_width < 65536
  sar_height : vui.sar_height < 65536
  overscan_info_present_flag : vui.overscan_info_present_flag < 2
  overscan_appropriate_flag : vui.overscan_appropriate_flag < 2
  video_signal_type_present_flag : vui.video_signal_type_present_flag < 2
  video_format : vui.video_format < 8
  video_full_range_flag : vui.video_full_range_flag < 2
  colour_description_present_flag : vui.colour_description_present_flag < 2
  colour_primaries : vui.colour_primaries < 256
  transfer_characteristics : vui.transfer_characteristics < 256
  matrix_coefficients : vui.matrix_coefficients < 256
  chroma_location_info_present_flag : vui.chroma_location_info_present_flag < 2
  chroma_sample_loc_type_top_field : vui.chroma_sample_loc_type_top_field < 65535
  chroma_sample_loc_type_bottom_field : vui.chroma_sample_loc_type_bottom_field < 65535
  timing_info_present_flag : vui.timing_info_present_flag = 0
  nal_hrd_parameters_present_flag : vui.nal_hrd_parameters_present_flag = 0
  vcl_hrd_parameters_present_flag : vui.vcl_hrd_parameters_present_flag = 0
  pic_struct_present_flag : vui.pic_struct_present_flag < 2
  bitstream_restriction_flag : vui.bitstream_restriction_flag < 2
  motion_vectors_over_pic_boundaries_flag : vui.motion_vectors_over_pic_boundaries_flag < 2
  max_bytes_per_pic_denom : vui.max_bytes_per_pic_denom < 65535
  max_bits_per_mb_denom : vui.max_bits_per_mb_denom < 65535
  log2_max_mv_length_vertical : vui.log2_max_mv_length_vertical < 65535
  log2_max_mv_length_horizontal : vui.log2_max_mv_length_horizontal < 65535
  max_dec_frame_reordering : vui.max_dec_frame_reordering < 65535
  max_dec_frame_buffering : vui.max_dec_frame_buffering < 65535

/-- Values of a sequence parameter set for frames. -/
structure AVCSeqParamSet.Legal (sps : AVCSeqParamSet) : Prop where
  profile_idc : sps.profile_idc < 256
  constrained_set0_flag : sps.constrained_set0_flag < 2
  constrained_set1_flag : sps.constrained_set1_flag < 2
  constrained_set2_flag : sps.constrained_set2_flag < 2
  constrained_set3_flag : sps.constrained_set3_flag < 2
  level_idc : sps.level_idc ∈ [9, 10, 11, 12, 13, 20, 21, 22, 30, 31, 32, 40, 41, 42, 50, 51]
  seq_parameter_set_id : sps.seq_parameter_set_id ≤ 31
  log2_max_frame_num_minus4 : sps.log2_max_frame_num_minus4 ≤ 12
  pic_order_cnt_type : sps.pic_order_cnt_type ≤ 2
  log2_max_pic_order_cnt_lsb_minus4 : sps.log2_max_pic_order_cnt_lsb_minus4 ≤ 12
  delta_pic_order_always_zero_flag : sps.delta_pic_order_always_zero_flag < 2
  offset_for_non_ref_pic : sps.offset_for_non_ref_pic.natAbs < 2 ^ 30
  offset_for_top_to_bottom_field : sps.offset_for_top_to_bottom_field.natAbs < 2 ^ 30
  num_ref_frames_in_pic_order_cnt_cycle : sps.num_ref_frames_in_pic_order_cnt_cycle ≤ 255
  offset_for_ref_frame : ∀ v ∈ sps.offset_for_ref_frame, v.natAbs < 2 ^ 30
  num_ref_frames : sps.num_ref_frames ≤ 16
  gaps_in_frame_num_value_allowed_flag : sps.gaps_in_frame_num_value_allowed_flag < 2
  pic_width_in_mbs_minus1 : sps.pic_width_in_mbs_minus1 < 65535
  pic_height_in_map_units_minus1 : sps.pic_height_in_map_units_minus1 < 65535
  frame_mbs_only_flag : sps.frame_mbs_only_flag = 1
  direct_8x8_inference_flag : sps.direct_8x8_inference_flag < 2
  frame_cropping_flag : sps.frame_cropping_flag < 2
  frame_crop_left_offset : sps.frame_crop_left_offset < 65535
  frame_crop_right_offset : sps.frame_crop_right_offset < 65535
  frame_crop_top_offset : sps.frame_crop_top_offset < 65535
  frame_crop_bottom_offset : sps.frame_crop_bottom_offset < 65535
  vui_parameters_present_flag : sps.vui_parameters_present_flag < 2
  vui_parameters : sps.vui_parameters.Legal

/-- Values of a picture parameter set; of the types of several slice groups, all but 1. -/
structure AVCPicParamSet.Legal (pps : AVCPicParamSet) : Prop where
  pic_parameter_set_id : pps.pic_parameter_set_id ≤ 255
  seq_parameter_set_id : pps.seq_parameter_set_id ≤ 31
  entropy_coding_mode_flag : pps.entropy_coding_mode_flag = 0
  pic_order_present_flag : pps.pic_order_present_flag < 2
  num_slice_groups_minus1 : pps.num_slice_groups_minus1 ≤ 7
  slice_group_map_type : 0 < pps.num_slice_groups_minus1 →
    pps.slice_group_map_type ≤ 6 ∧ pps.slice_group_map_type ≠ 1
  run_length_minus1 : ∀ v ∈ pps.run_length_minus1, v < 65535
  top_left : ∀ v ∈ pps.top_left, v < 65535
  bottom_right : ∀ v ∈ pps.bottom_right, v < 65535
  slice_group_change_direction_flag : pps.slice_group_change_direction_flag < 2
  slice_group_change_rate_minus1 : pps.slice_group_change_rate_minus1 < 65535
  pic_size_in_map_units_minus1 : pps.pic_size_in_map_units_minus1 < 65535
  slice_group_id : ∀ v ∈ pps.slice_group_id, v ≤ pps.num_slice_groups_minus1
  num_ref_idx_l0_active_minus1 : pps.num_ref_idx_l0_active_minus1 ≤ 31
  num_ref_idx_l1_active_minus1 : pps.num_ref_idx_l1_active_minus1 ≤ 31
  weighted_pred_flag : pps.weighted_pred_flag < 2
  weighted_bipred_idc : pps.weighted_bipred_idc ≤ 2
  pic_init_qp_minus26 : -26 ≤ pps.pic_init_qp_minus26 ∧ pps.pic_init_qp_minus26 ≤ 25
  pic_init_qs_minus26 : -26 ≤ pps.pic_init_qs_minus26 ∧ pps.pic_init_qs_minus26 ≤ 25
  chroma_qp_index_offset : -12 ≤ pps.chroma_qp_index_offset ∧ pps.chroma_qp_index_offset ≤ 12
  deblocking_filter_control_present_flag : pps.deblocking_filter_control_present_flag < 2
  constrained_intra_pred_flag : pps.constrained_intra_pred_flag < 2
  redundant_pic_cnt_present_flag : pps.redundant_pic_cnt_present_flag < 2

/-- The first `n` entries of an array. -/
def firstN {α : Type} (n : Nat) (l : List α) (zero : α) : List α :=
  (List.range n).map (l.getD · zero)

/-- What the decoder keeps of the usability information. -/
def AVCVUIParams.received (vui : AVCVUIParams) : AVCVUIParams :=
  { AVCVUIParams.zero with pic_struct_present_flag := vui.pic_struct_present_flag }

/-- What the decoder keeps of a sequence parameter set: what is not written is 0. -/
def AVCSeqParamSet.received (sps : AVCSeqParamSet) : AVCSeqParamSet :=
  let type := sps.pic_order_cnt_type
  let cropped := sps.frame_cropping_flag ≠ 0
  { sps with
    constrained_set3_flag := 0
    log2_max_pic_order_cnt_lsb_minus4 :=
      if type = 0 then sps.log2_max_pic_order_cnt_lsb_minus4 else 0
    delta_pic_order_always_zero_flag :=
      if type = 1 then sps.delta_pic_order_always_zero_flag else 0
    offset_for_non_ref_pic := if type = 1 then sps.offset_for_non_ref_pic else 0
    offset_for_top_to_bottom_field := if type = 1 then sps.offset_for_top_to_bottom_field else 0
    num_ref_frames_in_pic_order_cnt_cycle :=
      if type = 1 then sps.num_ref_frames_in_pic_order_cnt_cycle else 0
    offset_for_ref_frame :=
      if type = 1 then
        firstN sps.num_ref_frames_in_pic_order_cnt_cycle sps.offset_for_ref_frame 0
      else []
    mb_adaptive_frame_field_flag := 0
    frame_crop_left_offset := if cropped then sps.frame_crop_left_offset else 0
    frame_crop_right_offset := if cropped then sps.frame_crop_right_offset else 0
    frame_crop_top_offset := if cropped then sps.frame_crop_top_offset else 0
    frame_crop_bottom_offset := if cropped then sps.frame_crop_bottom_offset else 0
    vui_parameters :=
      if sps.vui_parameters_present_flag ≠ 0 then sps.vui_parameters.received else .zero }

/-- What the decoder keeps of a picture parameter set: what is not written is 0. -/
def AVCPicParamSet.received (pps : AVCPicParamSet) : AVCPicParamSet :=
  let type := pps.slice_group_map_type
  let groups := pps.num_slice_groups_minus1
  let changes := 0 < groups ∧ (type = 3 ∨ type = 4 ∨ type = 5)
  { pps with
    slice_group_map_type := if 0 < groups then type else 0
    run_length_minus1 :=
      if 0 < groups ∧ type = 0 then firstN (groups + 1) pps.run_length_minus1 0 else []
    top_left := if 0 < groups ∧ type = 2 then firstN groups pps.top_left 0 else []
    bottom_right := if 0 < groups ∧ type = 2 then firstN groups pps.bottom_right 0 else []
    slice_group_change_direction_flag :=
      if changes then pps.slice_group_change_direction_flag else 0
    slice_group_change_rate_minus1 := if changes then pps.slice_group_change_rate_minus1 else 0
    pic_size_in_map_units_minus1 :=
      if 0 < groups ∧ type = 6 then pps.pic_size_in_map_units_minus1 else 0
    slice_group_id :=
      if 0 < groups ∧ type = 6 then
        firstN (pps.pic_size_in_map_units_minus1 + 1) pps.slice_group_id 0
      else [] }

/-! ## 4. The usability information -/

variable {α : Type}

theorem Carries.option {flag : Nat} {calls : List WriteCall} {m : DecM α} {v w : α}
    (h₁ : flag ≠ 0 → Carries calls m v) (h₀ : flag = 0 → w = v) :
    Carries (if flag ≠ 0 then calls else []) (if flag ≠ 0 then m else Pure.pure w) v := by
  by_cases hf : flag = 0
  · rw [if_neg (not_not_intro hf), if_neg (not_not_intro hf), h₀ hf]
    exact .pure v
  · rw [if_pos hf, if_pos hf]
    exact h₁ hf

namespace AVCVUIParams.Legal

variable {vui : AVCVUIParams} (h : vui.Legal)

include h

theorem aspectRatio : Carries (Enc.aspectRatioPart vui) Dec.aspectRatioPart () := by
  refine .bind (.bit h.aspect_ratio_info_present_flag) (.option (fun _ => ?_) fun _ => rfl)
  refine .bind (.bits (by decide) (by decide) h.aspect_ratio_idc) ?_
  by_cases h255 : vui.aspect_ratio_idc = 255
  · rw [if_pos h255, if_pos h255]
    exact .bind (.bits (by decide) (by decide) h.sar_width)
      (.bind_pure (.bits (by decide) (by decide) h.sar_height))
  · rw [if_neg h255, if_neg h255]
    exact .pure ()

theorem overscan : Carries (Enc.overscanPart vui) Dec.overscanPart () := by
  refine .bind (.bit h.overscan_info_present_flag) (.option (fun _ => ?_) fun _ => rfl)
  exact .bind_pure (.bit h.overscan_appropriate_flag)

theorem videoSignal : Carries (Enc.videoSignalPart vui) Dec.videoSignalPart () := by
  refine .bind (.bit h.video_signal_type_present_flag) (.option (fun _ => ?_) fun _ => rfl)
  simp only [append_assoc]
  refine .bind (.bits (by decide) (by decide) h.video_format) ?_
  refine .bind (.bit h.video_full_range_flag) ?_
  refine .bind (.bit h.colour_description_present_flag) (.option (fun _ => ?_) fun _ => rfl)
  refine .bind (.bits (by decide) (by decide) h.colour_primaries) ?_
  refine .bind (.bits (by decide) (by decide) h.transfer_characteristics) ?_
  exact .bind_pure (.bits (by decide) (by decide) h.matrix_coefficients)

theorem chromaLocation : Carries (Enc.chromaLocationPart vui) Dec.chromaLocationPart () := by
  refine .bind (.bit h.chroma_location_info_present_flag) (.option (fun _ => ?_) fun _ => rfl)
  exact .bind (.ue h.chroma_sample_loc_type_top_field)
    (.bind_pure (.ue h.chroma_sample_loc_type_bottom_field))

theorem timing : Carries (Enc.timingPart vui) Dec.timingPart () := by
  have h0 := h.timing_info_present_flag
  refine .bind (.bit (by omega)) (.option (fun hne => ?_) fun _ => rfl)
  exact absurd h0 hne

theorem restriction : Carries (Enc.restrictionPart vui) Dec.restrictionPart () := by
  refine .bind (.bit h.bitstream_restriction_flag) (.option (fun _ => ?_) fun _ => rfl)
  simp only [append_assoc]
  refine .bind (.bit h.motion_vectors_over_pic_boundaries_flag) ?_
  refine .bind (.ue h.max_bytes_per_pic_denom) ?_
  refine .bind (.ue h.max_bits_per_mb_denom) ?_
  refine .bind (.ue h.log2_max_mv_length_horizontal) ?_
  refine .bind (.ue h.log2_max_mv_length_vertical) ?_
  refine .bind (.ue h.max_dec_frame_reordering) ?_
  exact .bind_pure (.ue h.max_dec_frame_buffering)

/-- **The usability information** goes past the decoder, which keeps one flag of it. -/
theorem carries : Carries (Enc.EncodeVUI vui) (Dec.vui_parameters .zero) vui.received := by
  have hn := h.nal_hrd_parameters_present_flag
  have hv := h.vcl_hrd_parameters_present_flag
  unfold Enc.EncodeVUI Dec.vui_parameters
  simp only [append_assoc]
  refine .bind h.aspectRatio (.bind h.overscan (.bind h.videoSignal (.bind h.chromaLocation ?_)))
  refine .bind h.timing ?_
  refine .bind (.bit (v := vui.nal_hrd_parameters_present_flag) (by omega)) ?_
  refine .bind (v := AVCHRDParams.zero) (.option (fun hne => absurd hn hne) fun _ => rfl) ?_
  refine .bind (.bit (v := vui.vcl_hrd_parameters_present_flag) (by omega)) ?_
  refine .bind (v := AVCHRDParams.zero) (.option (fun hne => absurd hv hne) fun _ => rfl) ?_
  rw [if_neg (by simp [hn, hv]), if_neg (by simp [hn, hv])]
  refine .bind (.pure 0) (.bind (.bit h.pic_struct_present_flag) ?_)
  rw [hn, hv]
  exact .bind_pure h.restriction

end AVCVUIParams.Legal

/-! ## 5. Sequence parameter sets -/

theorem codeOf_offset {v : Int} (hv : v.natAbs < 2 ^ 30) : Enc.codeOf v + 1 < 2 ^ 31 := by
  unfold Enc.codeOf
  split <;> omega

theorem firstN_flatMap (n : Nat) (l : List α) (zero : α) (enc : α → List WriteCall) :
    (firstN n l zero).flatMap enc = (range n).flatMap fun i => enc (l.getD i zero) :=
  flatMap_map ..

@[simp] theorem firstN_length (n : Nat) (l : List α) (zero : α) :
    (firstN n l zero).length = n := by
  simp [firstN]

theorem getD_of_all {P : α → Prop} {l : List α} {zero : α} (h0 : P zero)
    (h : ∀ v ∈ l, P v) (i : Nat) : P (l.getD i zero) := by
  rw [getD_eq_getElem?_getD]
  cases hi : l[i]? with
  | none => exact h0
  | some v => exact h v (mem_of_getElem? hi)

theorem Carries.firstN {n : Nat} {l : List α} {zero : α} {enc : α → List WriteCall}
    {m : DecM α} (h : ∀ i, Carries (enc (l.getD i zero)) m (l.getD i zero)) :
    Carries ((range n).flatMap fun i => enc (l.getD i zero)) (OpenCore.readN n m)
      (firstN n l zero) := by
  have := Carries.readN (e := enc) (m := m) (l := Avc.firstN n l zero) (by
    intro a ha
    obtain ⟨i, -, rfl⟩ := mem_map.mp ha
    exact h i)
  rw [firstN_flatMap, firstN_length] at this
  exact this

namespace AVCSeqParamSet.Legal

variable {sps : AVCSeqParamSet} (h : sps.Legal)

include h

theorem order (s : AVCSeqParamSet) (hs : s.pic_order_cnt_type = sps.pic_order_cnt_type) :
    Carries (Enc.picOrderPart sps) (Dec.picOrderPart s)
      (let type := sps.pic_order_cnt_type
       { s with
         log2_max_pic_order_cnt_lsb_minus4 :=
           if type = 0 then sps.log2_max_pic_order_cnt_lsb_minus4
           else s.log2_max_pic_order_cnt_lsb_minus4
         delta_pic_order_always_zero_flag :=
           if type = 1 then sps.delta_pic_order_always_zero_flag
           else s.delta_pic_order_always_zero_flag
         offset_for_non_ref_pic :=
           if type = 1 then sps.offset_for_non_ref_pic else s.offset_for_non_ref_pic
         offset_for_top_to_bottom_field :=
           if type = 1 then sps.offset_for_top_to_bottom_field
           else s.offset_for_top_to_bottom_field
         num_ref_frames_in_pic_order_cnt_cycle :=
           if type = 1 then sps.num_ref_frames_in_pic_order_cnt_cycle
           else s.num_ref_frames_in_pic_order_cnt_cycle
         offset_for_ref_frame :=
           if type = 1 then
             firstN sps.num_ref_frames_in_pic_order_cnt_cycle sps.offset_for_ref_frame 0
           else s.offset_for_ref_frame }) := by
  have hlsb := h.log2_max_pic_order_cnt_lsb_minus4
  have hcyc := h.num_ref_frames_in_pic_order_cnt_cycle
  unfold Enc.picOrderPart Dec.picOrderPart
  by_cases h0 : sps.pic_order_cnt_type = 0
  · simp only [hs, h0, if_pos, if_neg (show ¬ 0 = 1 by decide)]
    exact .bind_pure (.ue (by omega))
  by_cases h1 : sps.pic_order_cnt_type = 1
  · simp only [hs, h1, if_pos, if_neg (show ¬ 1 = 0 by decide), append_assoc]
    refine .bind (.bit h.delta_pic_order_always_zero_flag) ?_
    refine .bind (.se32 (codeOf_offset h.offset_for_non_ref_pic)) ?_
    refine .bind (.se32 (codeOf_offset h.offset_for_top_to_bottom_field)) ?_
    have hmax : MAX_NUM_REF_FRAMES_IN_PIC_ORDER_CNT_CYCLE = 255 := rfl
    have hint : intCount sps.num_ref_frames_in_pic_order_cnt_cycle =
        sps.num_ref_frames_in_pic_order_cnt_cycle := if_pos (by omega)
    refine .bind (.ue (by omega)) ?_
    simp only [hint, hmax, Nat.min_eq_left hcyc]
    rw [← append_nil (flatMap _ _)]
    refine .bind (.firstN fun i =>
      .se32 (codeOf_offset (getD_of_all (by decide) h.offset_for_ref_frame i))) ?_
    exact .check (by omega) (.pure _)
  · have h0s : s.pic_order_cnt_type ≠ 0 := by rwa [hs]
    have h1s : s.pic_order_cnt_type ≠ 1 := by rwa [hs]
    simp only [if_neg h0, if_neg h1, if_neg h0s, if_neg h1s]
    exact .pure s

theorem cropping (s : AVCSeqParamSet) (hs : s.frame_cropping_flag = sps.frame_cropping_flag) :
    Carries (Enc.croppingPart sps) (Dec.croppingPart s)
      (let cropped := sps.frame_cropping_flag ≠ 0
       { s with
         frame_crop_left_offset :=
           if cropped then sps.frame_crop_left_offset else s.frame_crop_left_offset
         frame_crop_right_offset :=
           if cropped then sps.frame_crop_right_offset else s.frame_crop_right_offset
         frame_crop_top_offset :=
           if cropped then sps.frame_crop_top_offset else s.frame_crop_top_offset
         frame_crop_bottom_offset :=
           if cropped then sps.frame_crop_bottom_offset else s.frame_crop_bottom_offset }) := by
  unfold Enc.croppingPart Dec.croppingPart
  by_cases hc : sps.frame_cropping_flag ≠ 0
  · have hcs : s.frame_cropping_flag ≠ 0 := by rwa [hs]
    simp only [if_pos hc, if_pos hcs, append_assoc]
    refine .bind (.ue h.frame_crop_left_offset) (.bind (.ue h.frame_crop_right_offset) ?_)
    exact .bind (.ue h.frame_crop_top_offset) (.bind_pure (.ue h.frame_crop_bottom_offset))
  · have hcs : ¬ s.frame_cropping_flag ≠ 0 := by rwa [hs]
    simp only [if_neg hc, if_neg hcs]
    exact .pure s

omit h in
/-- What is written behind the third flag is read as five bits, and lost. -/
theorem set3_reserved {flag : Nat} (hf : flag < 2) :
    Carries (Enc.write1Bit flag ++ Enc.writeBits 4 0) (Dec.readBits 5) (16 * flag) where
  fits c hc := by
    rcases mem_append.mp hc with hc | hc
    · rw [mem_singleton.mp hc]
      exact ⟨hf, by simp⟩
    · rw [mem_singleton.mp hc]
      exact ⟨(by decide : 0 < 2 ^ 4), by simp⟩
  gives r := by
    have hbits : callsBits (Enc.write1Bit flag ++ Enc.writeBits 4 0) = ofNum 5 (16 * flag) := by
      revert flag
      decide
    rw [hbits]
    exact gives_readBits (by decide) (by decide) (by omega)

theorem carries (decvid : AVCDecObject) :
    Carries (Enc.EncodeSPS sps) (Dec.DecodeSPS decvid)
      { decvid with
        seqParams := update decvid.seqParams sps.seq_parameter_set_id (some sps.received)
        lastSPS := some sps.seq_parameter_set_id } := by
  have hlevel : ¬ sps.level_idc > 51 ∧ ¬ mapLev2Idx.getD sps.level_idc 255 = 255 ∧
      sps.level_idc < 2 ^ 8 := by
    have := h.level_idc
    generalize sps.level_idc = level at this ⊢
    revert level
    decide
  have hid := h.seq_parameter_set_id
  have hlog := h.log2_max_frame_num_minus4
  have htype := h.pic_order_cnt_type
  have href := h.num_ref_frames
  have hmbs := h.frame_mbs_only_flag
  unfold Enc.EncodeSPS Dec.DecodeSPS
  simp only [append_assoc]
  refine .bind (.bits (by decide) (by decide) h.profile_idc) ?_
  refine .bind (.bit h.constrained_set0_flag) ?_
  refine .bind (.bit h.constrained_set1_flag) ?_
  refine .bind (.bit h.constrained_set2_flag) ?_
  rw [← append_assoc (Enc.write1Bit sps.constrained_set3_flag)]
  refine .bind (set3_reserved h.constrained_set3_flag) ?_
  refine .bind (.bits (by decide) (by decide) hlevel.2.2) (.check hlevel.1 (.check hlevel.2.1 ?_))
  refine .bind (.ue (by omega)) (.check (by omega) ?_)
  refine .bind (.ue (by omega)) (.check (by omega) ?_)
  refine .bind (.ue (by omega)) ?_
  refine .bind (h.order _ rfl) ?_
  refine .bind (.ue (by omega)) (.check (by omega) ?_)
  refine .bind (.bit h.gaps_in_frame_num_value_allowed_flag) ?_
  refine .bind (.ue h.pic_width_in_mbs_minus1) ?_
  refine .bind (.ue h.pic_height_in_map_units_minus1) ?_
  refine .bind (.bit (by omega)) ?_
  refine .skip (v := 0) ?_ ?_
  · rw [if_neg (by omega)]
    exact .pure 0
  refine .bind (.bit h.direct_8x8_inference_flag) ?_
  refine .bind (.bit h.frame_cropping_flag) ?_
  refine .bind (h.cropping _ rfl) ?_
  refine .bind (.bit h.vui_parameters_present_flag) ?_
  have hvui : Carries
      (if sps.vui_parameters_present_flag ≠ 0 then Enc.EncodeVUI sps.vui_parameters else [])
      (if sps.vui_parameters_present_flag ≠ 0 then Dec.vui_parameters .zero else pure .zero)
      (if sps.vui_parameters_present_flag ≠ 0 then sps.vui_parameters.received else .zero) :=
    .ite (fun _ => h.vui_parameters.carries) fun _ => .pure _
  exact hvui.bind_pure

end AVCSeqParamSet.Legal

/-! ## 6. Picture parameter sets -/

/-- The bits that are counted are enough. -/
theorem lt_two_pow_numBits {fuel i : Nat} (hi : i < 2 ^ fuel) : i < 2 ^ numBits fuel i := by
  induction fuel generalizing i with
  | zero => simpa [numBits] using hi
  | succ fuel ih =>
    rw [pow_succ] at hi
    unfold numBits
    by_cases h0 : i > 0
    · have hhalf := ih (i := i >>> 1) (by rw [Nat.shiftRight_one]; omega)
      rw [if_pos h0, pow_succ]
      rw [Nat.shiftRight_one] at hhalf ⊢
      omega
    · rw [if_neg h0]
      omega

theorem codeOf_small {v lo hi : Int} (hv : lo ≤ v ∧ v ≤ hi) (hlo : -32000 ≤ lo := by decide)
    (hhi : hi ≤ 32000 := by decide) : Enc.codeOf v < 65535 := by
  unfold Enc.codeOf
  split <;> omega

theorem numBits_pos {fuel i : Nat} (hi : 0 < i) : 0 < numBits (fuel + 1) i := by
  rw [numBits, if_pos hi]
  exact Nat.succ_pos _

theorem numBits_le {fuel i k : Nat} (hi : i < 2 ^ k) : numBits fuel i ≤ k := by
  induction fuel generalizing i k with
  | zero => exact Nat.zero_le _
  | succ fuel ih =>
    unfold numBits
    by_cases h0 : i > 0
    · rw [if_pos h0]
      obtain ⟨k, rfl⟩ : ∃ j, k = j + 1 := by
        refine ⟨k - 1, ?_⟩
        have : k ≠ 0 := by
          rintro rfl
          omega
        omega
      rw [pow_succ] at hi
      exact Nat.succ_le_succ (ih (by rw [Nat.shiftRight_one]; omega))
    · rw [if_neg h0]
      exact Nat.zero_le _

/-- The three flags at the end are taken apart again. -/
theorem flags_apart {d c r : Nat} (hd : d < 2) (hc : c < 2) (hr : r < 2) :
    d <<< 2 ||| c <<< 1 ||| r < 2 ^ 3 ∧ (d <<< 2 ||| c <<< 1 ||| r) >>> 2 = d ∧
      ((d <<< 2 ||| c <<< 1 ||| r) >>> 1) &&& 1 = c ∧ (d <<< 2 ||| c <<< 1 ||| r) &&& 1 = r := by
  have key : ∀ d < 2, ∀ c < 2, ∀ r < 2,
      d <<< 2 ||| c <<< 1 ||| r < 2 ^ 3 ∧ (d <<< 2 ||| c <<< 1 ||| r) >>> 2 = d ∧
        ((d <<< 2 ||| c <<< 1 ||| r) >>> 1) &&& 1 = c ∧
          (d <<< 2 ||| c <<< 1 ||| r) &&& 1 = r := by
    decide
  exact key d hd c hc r hr

variable {decvid : AVCDecObject}

namespace AVCPicParamSet.Legal

variable {pps : AVCPicParamSet} (h : pps.Legal)

include h

/-- The slice groups; `p` is what was decoded before them. -/
theorem sliceGroups {sps : AVCSeqParamSet}
    (hsps : decvid.seqParams pps.seq_parameter_set_id = some sps)
    (hsize : 0 < pps.num_slice_groups_minus1 → pps.slice_group_map_type = 6 →
      pps.pic_size_in_map_units_minus1 + 1 =
        (sps.pic_width_in_mbs_minus1 + 1) * (sps.pic_height_in_map_units_minus1 + 1))
    (p : AVCPicParamSet) (hid : p.seq_parameter_set_id = pps.seq_parameter_set_id)
    (hn : p.num_slice_groups_minus1 = pps.num_slice_groups_minus1) :
    Carries
      (if pps.num_slice_groups_minus1 > 0 then
        Enc.ue_v pps.slice_group_map_type ++ Enc.sliceGroupPart pps
      else [])
      (if pps.num_slice_groups_minus1 > 0 then do
        let slice_group_map_type ← Dec.ue_v
        Dec.failIf (slice_group_map_type > 6) .AVCDEC_FAIL
        Dec.sliceGroupPart decvid { p with slice_group_map_type }
      else pure p)
      (let type := pps.slice_group_map_type
       let groups := pps.num_slice_groups_minus1
       let changes := 0 < groups ∧ (type = 3 ∨ type = 4 ∨ type = 5)
       { p with
         slice_group_map_type := if 0 < groups then type else p.slice_group_map_type
         run_length_minus1 :=
           if 0 < groups ∧ type = 0 then firstN (groups + 1) pps.run_length_minus1 0
           else p.run_length_minus1
         top_left := if 0 < groups ∧ type = 2 then firstN groups pps.top_left 0 else p.top_left
         bottom_right :=
           if 0 < groups ∧ type = 2 then firstN groups pps.bottom_right 0 else p.bottom_right
         slice_group_change_direction_flag :=
           if changes then pps.slice_group_change_direction_flag
           else p.slice_group_change_direction_flag
         slice_group_change_rate_minus1 :=
           if changes then pps.slice_group_change_rate_minus1
           else p.slice_group_change_rate_minus1
         pic_size_in_map_units_minus1 :=
           if 0 < groups ∧ type = 6 then pps.pic_size_in_map_units_minus1
           else p.pic_size_in_map_units_minus1
         slice_group_id :=
           if 0 < groups ∧ type = 6 then
             firstN (pps.pic_size_in_map_units_minus1 + 1) pps.slice_group_id 0
           else p.slice_group_id }) := by
  have hgroups := h.num_slice_groups_minus1
  by_cases h0 : 0 < pps.num_slice_groups_minus1
  swap
  · simp only [h0, false_and, if_false]
    exact .pure p
  obtain ⟨ht6, ht1⟩ := h.slice_group_map_type h0
  have hcases : pps.slice_group_map_type = 0 ∨ pps.slice_group_map_type = 2 ∨
      (pps.slice_group_map_type = 3 ∨ pps.slice_group_map_type = 4 ∨
        pps.slice_group_map_type = 5) ∨ pps.slice_group_map_type = 6 := by
    omega
  simp only [h0, true_and, if_true]
  refine .bind (.ue (by omega)) (.check (by omega) ?_)
  unfold Enc.sliceGroupPart Dec.sliceGroupPart
  rcases hcases with ht | ht | ht | ht
  · simp only [hn, ht]
    exact .bind_pure (.firstN fun i => .ue (getD_of_all (by decide) h.run_length_minus1 i))
  · have hne : pps.slice_group_map_type ≠ 0 ∧ pps.slice_group_map_type ≠ 6 ∧
        ¬ (pps.slice_group_map_type = 3 ∨ pps.slice_group_map_type = 4 ∨
          pps.slice_group_map_type = 5) := by
      omega
    simp only [hn, if_neg hne.1, if_neg hne.2.1, if_neg hne.2.2, if_pos ht]
    have hpairs := Carries.readN (m := do return (← Dec.ue_v, ← Dec.ue_v))
      (e := fun c : Nat × Nat => Enc.ue_v c.1 ++ Enc.ue_v c.2)
      (l := (range pps.num_slice_groups_minus1).map fun i =>
        (pps.top_left.getD i 0, pps.bottom_right.getD i 0)) (by
      intro a ha
      obtain ⟨i, -, rfl⟩ := mem_map.mp ha
      exact .bind (.ue (getD_of_all (by decide) h.top_left i))
        (.bind_pure (.ue (getD_of_all (by decide) h.bottom_right i))))
    rw [flatMap_map, length_map, length_range] at hpairs
    have hfst : map Prod.fst ((range pps.num_slice_groups_minus1).map fun i =>
        (pps.top_left.getD i 0, pps.bottom_right.getD i 0)) =
          firstN pps.num_slice_groups_minus1 pps.top_left 0 := map_map
    have hsnd : map Prod.snd ((range pps.num_slice_groups_minus1).map fun i =>
        (pps.top_left.getD i 0, pps.bottom_right.getD i 0)) =
          firstN pps.num_slice_groups_minus1 pps.bottom_right 0 := map_map
    rw [← hfst, ← hsnd]
    exact hpairs.bind_pure
  · have hne : pps.slice_group_map_type ≠ 0 ∧ pps.slice_group_map_type ≠ 2 ∧
        pps.slice_group_map_type ≠ 6 := by
      omega
    simp only [if_neg hne.1, if_neg hne.2.1, if_neg hne.2.2, if_pos ht]
    exact .bind (.bit h.slice_group_change_direction_flag)
      (.bind_pure (.ue h.slice_group_change_rate_minus1))
  · simp only [hn, ht, hid, hsps]
    refine .bind (.ue h.pic_size_in_map_units_minus1) ?_
    have hsz := hsize h0 ht
    refine .check (by omega) ?_
    rw [← hsz]
    refine .bind_pure (.firstN fun i => .bits (numBits_pos h0) ?_ ?_)
    · exact (numBits_le (k := 3) (by omega)).trans (by decide)
    · have := getD_of_all (P := (· ≤ pps.num_slice_groups_minus1)) (Nat.zero_le _) h.slice_group_id i
      exact this.trans_lt (lt_two_pow_numBits (by omega))

theorem carries {sps : AVCSeqParamSet}
    (hsps : decvid.seqParams pps.seq_parameter_set_id = some sps)
    (hsize : 0 < pps.num_slice_groups_minus1 → pps.slice_group_map_type = 6 →
      pps.pic_size_in_map_units_minus1 + 1 =
        (sps.pic_width_in_mbs_minus1 + 1) * (sps.pic_height_in_map_units_minus1 + 1)) :
    Carries (Enc.EncodePPS pps) (Dec.DecodePPS decvid)
      { decvid with
        picParams := update decvid.picParams pps.pic_parameter_set_id (some pps.received)
        currPicParams := some pps.pic_parameter_set_id } := by
  have hid := h.pic_parameter_set_id
  have hsid := h.seq_parameter_set_id
  have hmode := h.entropy_coding_mode_flag
  have hgroups := h.num_slice_groups_minus1
  have hmax : MAX_NUM_SLICE_GROUP - 1 = 7 := rfl
  have hl0 := h.num_ref_idx_l0_active_minus1
  have hl1 := h.num_ref_idx_l1_active_minus1
  have hbi := h.weighted_bipred_idc
  have hqp := h.pic_init_qp_minus26
  have hqs := h.pic_init_qs_minus26
  have hcq := h.chroma_qp_index_offset
  obtain ⟨hf, hf1, hf2, hf3⟩ := flags_apart h.deblocking_filter_control_present_flag
    h.constrained_intra_pred_flag h.redundant_pic_cnt_present_flag
  unfold Enc.EncodePPS Dec.DecodePPS
  simp only [append_assoc]
  refine .bind (.ue (by omega)) (.check (by omega) ?_)
  refine .bind (.ue (by omega)) (.check (by omega) ?_)
  refine .bind (.bit (by omega)) (.check (not_not_intro hmode) ?_)
  refine .bind (.bit h.pic_order_present_flag) ?_
  refine .bind (.ue (by omega)) (.check (by omega) ?_)
  refine .bind (h.sliceGroups hsps hsize
    { AVCPicParamSet.zero with
      pic_parameter_set_id := pps.pic_parameter_set_id
      seq_parameter_set_id := pps.seq_parameter_set_id
      entropy_coding_mode_flag := pps.entropy_coding_mode_flag
      pic_order_present_flag := pps.pic_order_present_flag
      num_slice_groups_minus1 := pps.num_slice_groups_minus1 } rfl rfl) ?_
  refine .bind (.ue (by omega)) (.check (by omega) ?_)
  refine .bind (.ue (by omega)) (.check (by omega) ?_)
  refine .bind (.bit h.weighted_pred_flag) ?_
  refine .bind (.bits (by decide) (by decide) (by omega)) (.check (by omega) ?_)
  refine .bind (.se (codeOf_small hqp)) (.check (by omega) ?_)
  refine .bind (.se (codeOf_small hqs)) (.check (by omega) ?_)
  refine .bind (.se (codeOf_small hcq)) (.check (by omega) ?_)
  rw [← append_nil (Enc.writeBits 3 _)]
  refine .bind (.bits (by decide) (by decide) hf) (.check (by rw [hsps]; simp) ?_)
  simp only [hf1, hf2, hf3]
  exact .pure _

end AVCPicParamSet.Legal

/-! ## 7. Sequences -/

/-- The types of NAL units that carry parameter sets. -/
inductive NalType where
  | SPS
  | PPS
  deriving DecidableEq, Repr

/-- The decoder's function for a type. -/
def decodeUnit (decvid : AVCDecObject) : NalType → DecM AVCDecObject
  | .SPS => Dec.DecodeSPS decvid
  | .PPS => Dec.DecodePPS decvid

/-- The RBSPs of a sequence of units are decoded one after another: for each, what comes of it and
    the bits consumed. -/
def decodeUnits : AVCDecObject → List (NalType × List UInt8) →
    List (Except Stop AVCDecObject × Int)
  | _, [] => []
  | decvid, u :: us =>
    let o := (decodeUnit decvid u.1).exec (.opened u.2 u.2.length)
    let next := match o.1 with
      | .ok decvid' => decvid'
      | .error _ => decvid
    (o.1, o.2.bitcnt) :: decodeUnits next us

/-- A parameter set that is sent. -/
inductive ParamSet where
  | sps (sps : AVCSeqParamSet)
  | pps (pps : AVCPicParamSet)
  deriving DecidableEq, Repr

namespace ParamSet

def nalType : ParamSet → NalType
  | .sps _ => .SPS
  | .pps _ => .PPS

/-- What the encoder writes. -/
def calls : ParamSet → List WriteCall
  | .sps s => Enc.EncodeSPS s
  | .pps p => Enc.EncodePPS p

end ParamSet

/-- The tables with a set in its place. -/
def AVCDecObject.take (decvid : AVCDecObject) : ParamSet → AVCDecObject
  | .sps sps => { decvid with
      seqParams := update decvid.seqParams sps.seq_parameter_set_id (some sps.received)
      lastSPS := some sps.seq_parameter_set_id }
  | .pps pps => { decvid with
      picParams := update decvid.picParams pps.pic_parameter_set_id (some pps.received)
      currPicParams := some pps.pic_parameter_set_id }

/-- A set with legal values; the sequence parameter set that a picture parameter set names is there,
    and has the size of its map. -/
def AVCDecObject.Awaits (decvid : AVCDecObject) : ParamSet → Prop
  | .sps sps => sps.Legal
  | .pps pps => pps.Legal ∧ ∃ sps, decvid.seqParams pps.seq_parameter_set_id = some sps ∧
      (0 < pps.num_slice_groups_minus1 → pps.slice_group_map_type = 6 →
        pps.pic_size_in_map_units_minus1 + 1 =
          (sps.pic_width_in_mbs_minus1 + 1) * (sps.pic_height_in_map_units_minus1 + 1))

/-- So is every set of a sequence, when those before it are in place. -/
def AVCDecObject.AwaitsAll : AVCDecObject → List ParamSet → Prop
  | _, [] => True
  | decvid, x :: l => decvid.Awaits x ∧ (decvid.take x).AwaitsAll l

/-- Every set is taken, up to the bit where the encoder stopped. -/
def taken : AVCDecObject → List ParamSet → List (Except Stop AVCDecObject × Int)
  | _, [] => []
  | decvid, x :: l => (.ok (decvid.take x), (allBits [] x.calls).length) :: taken (decvid.take x) l

/-- An RBSP that begins with what the encoder writes for a set. -/
def Carried (x : ParamSet) (u : NalType × List UInt8) : Prop :=
  u.1 = x.nalType ∧ ∃ rest, bits u.2 = allBits [] x.calls ++ rest

theorem awaits_carries {x : ParamSet} (h : decvid.Awaits x) :
    Carries x.calls (decodeUnit decvid x.nalType) (decvid.take x) := by
  cases x with
  | sps sps =>
    have hlegal : sps.Legal := h
    exact hlegal.carries decvid
  | pps pps =>
    obtain ⟨hlegal, sps, hsps, hsize⟩ := h
    exact hlegal.carries hsps hsize

/-- One unit: what is written for the set is taken, and nothing else. -/
theorem Carries.unit {calls : List WriteCall} {m : DecM α} {v : α}
    (h : Carries calls m v) {r : List UInt8} {rest : List Bool}
    (hr : MsbBits.bits r = allBits [] calls ++ rest) :
    ∃ s, m.exec (.opened r r.length) = (.ok v, s) ∧ s.bitcnt = (allBits [] calls).length := by
  have hall : allBits [] calls = callsBits calls := allBits_eq [] calls fun c hc => (h.fits c hc).2
  rw [hall] at hr ⊢
  obtain ⟨s, hs, hsees⟩ := h.gives r _ rest (.opened hr)
  refine ⟨s, hs, ?_⟩
  have hcnt := hsees.bitcnt
  have hlen := congrArg length hr
  rw [bits_length, length_append] at hlen
  omega

/-- **Parameter sets are received.** From whatever the tables hold, a sequence of parameter sets is
    taken set by set, and of each RBSP the decoder consumes exactly what the encoder wrote. -/
theorem paramSets_received {decvid : AVCDecObject} {sets : List ParamSet}
    {units : List (NalType × List UInt8)} (hlegal : decvid.AwaitsAll sets)
    (hunits : List.Forall₂ Carried sets units) :
    decodeUnits decvid units = taken decvid sets ∧ ∀ x ∈ sets, ∀ c ∈ x.calls, c.Fits := by
  induction hunits generalizing decvid with
  | nil => exact ⟨rfl, fun x hx => absurd hx not_mem_nil⟩
  | cons hx _ ih =>
    rename_i x u l us
    obtain ⟨hawaits, hlegal⟩ := hlegal
    obtain ⟨htype, rest, hr⟩ := hx
    have hc := awaits_carries hawaits
    obtain ⟨s, hs, hcnt⟩ := hc.unit hr
    obtain ⟨hrun, hfit⟩ := ih hlegal
    refine ⟨?_, ?_⟩
    · rw [decodeUnits, htype, hs]
      simp only
      rw [hcnt, hrun, taken]
    · intro y hy
      rcases mem_cons.mp hy with rfl | hy
      · exact fun c hcall => (hc.fits c hcall).1
      · exact hfit y hy

/-- A small picture in two slice groups. -/
def sampleSps : AVCSeqParamSet := { AVCSeqParamSet.zero with
  profile_idc := 66, level_idc := 10, pic_order_cnt_type := 2, num_ref_frames := 1
  pic_width_in_mbs_minus1 := 10, pic_height_in_map_units_minus1 := 8, frame_mbs_only_flag := 1
  vui_parameters_present_flag := 1
  vui_parameters := { AVCVUIParams.zero with
    aspect_ratio_info_present_flag := 1, aspect_ratio_idc := 1 } }

def samplePps : AVCPicParamSet := { AVCPicParamSet.zero with
  num_slice_groups_minus1 := 1, slice_group_map_type := 2, top_left := [12], bottom_right := [40]
  pic_init_qp_minus26 := -4, deblocking_filter_control_present_flag := 1 }

theorem sampleSps_legal : sampleSps.Legal := by
  constructor
  case vui_parameters => constructor <;> decide
  all_goals decide

theorem samplePps_legal : samplePps.Legal := by
  constructor <;> decide

/-- The unit of a sequence parameter set and that of a picture parameter set. -/
theorem sample_units_received :
    decodeUnits .empty
        [(.SPS, [66, 0, 10, 218, 11, 19, 48, 16, 8]), (.PPS, [196, 198, 130, 156, 9, 228])] =
        taken .empty [.sps sampleSps, .pps samplePps] ∧
      ∀ x ∈ [ParamSet.sps sampleSps, .pps samplePps], ∀ c ∈ x.calls, c.Fits :=
  paramSets_received
    ⟨sampleSps_legal, ⟨samplePps_legal, _, rfl, by decide⟩, trivial⟩
    (.cons ⟨rfl, [true, false, false, false], by decide +kernel⟩
      (.cons ⟨rfl, [true, false, false], by decide +kernel⟩ .nil))

/-- The values of the usability information are not kept: the aspect ratio that is written comes
    back as 0. -/
theorem usability_information_lost :
    sampleSps.Legal ∧
      bits [66, 0, 10, 218, 11, 19, 48, 16, 8] =
        allBits [] (Enc.EncodeSPS sampleSps ++ [.trailing]) ∧
      (((Dec.DecodeSPS .empty).exec (.opened [66, 0, 10, 218, 11, 19, 48, 16, 8] 9)).1.toOption.bind
        fun d => (d.seqParams 0).map (·.vui_parameters.aspect_ratio_idc)) = some 0 ∧
      sampleSps.vui_parameters.aspect_ratio_idc = 1 :=
  ⟨sampleSps_legal, by decide +kernel, by decide +kernel, rfl⟩

end OpenCore.Avc
