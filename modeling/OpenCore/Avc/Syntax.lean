/-
  File:      OpenCore/Avc/Syntax.lean
  Subject:   THE SYNTAX STRUCTURES of the encoder and the decoder: parameter sets and the slice
             header, with the fields of the source. Flags and unsigned values are natural numbers,
             arrays are lists (`List.getD` reads them), those of the slice header functions.
-/
import Mathlib

namespace OpenCore.Avc

structure AVCHRDParams where
  cpb_cnt_minus1 : Nat
  bit_rate_scale : Nat
  cpb_size_scale : Nat
  bit_rate_value_minus1 : List Nat
  cpb_size_value_minus1 : List Nat
  cbr_flag : List Nat
  initial_cpb_removal_delay_length_minus1 : Nat
  cpb_removal_delay_length_minus1 : Nat
  dpb_output_delay_length_minus1 : Nat
  time_offset_length : Nat
  deriving DecidableEq, Repr

/-- The structure set to zero. -/
def AVCHRDParams.zero : AVCHRDParams := ⟨0, 0, 0, [], [], [], 0, 0, 0, 0⟩

structure AVCVUIParams where
  aspect_ratio_info_present_flag : Nat
  aspect_ratio_idc : Nat
  sar_width : Nat
  sar_height : Nat
  overscan_info_present_flag : Nat
  overscan_appropriate_flag : Nat
  video_signal_type_present_flag : Nat
  video_format : Nat
  video_full_range_flag : Nat
  colour_description_present_flag : Nat
  colour_primaries : Nat
  transfer_characteristics : Nat
  matrix_coefficients : Nat
  chroma_location_info_present_flag : Nat
  chroma_sample_loc_type_top_field : Nat
  chroma_sample_loc_type_bottom_field : Nat
  timing_info_present_flag : Nat
  num_units_in_tick : Nat
  time_scale : Nat
  fixed_frame_rate_flag : Nat
  nal_hrd_parameters_present_flag : Nat
  nal_hrd_parameters : AVCHRDParams
  vcl_hrd_parameters_present_flag : Nat
  vcl_hrd_parameters : AVCHRDParams
  low_delay_hrd_flag : Nat
  pic_struct_present_flag : Nat
  bitstream_restriction_flag : Nat
  motion_vectors_over_pic_boundaries_flag : Nat
  max_bytes_per_pic_denom : Nat
  max_bits_per_mb_denom : Nat
  log2_max_mv_length_vertical : Nat
  log2_max_mv_length_horizontal : Nat
  max_dec_frame_reordering : Nat
  max_dec_frame_buffering : Nat
  deriving DecidableEq, Repr

/-- The structure set to zero. -/
def AVCVUIParams.zero : AVCVUIParams :=
  ⟨0, 0, 0, 0, 0, 0, 0, 0, 0, 0, 0, 0, 0, 0, 0, 0, 0, 0, 0, 0, 0, .zero, 0, .zero, 0, 0, 0, 0, 0, 0,
    0, 0, 0, 0⟩

structure AVCSeqParamSet where
  profile_idc : Nat
  constrained_set0_flag : Nat
  constrained_set1_flag : Nat
  constrained_set2_flag : Nat
  constrained_set3_flag : Nat
  level_idc : Nat
  seq_parameter_set_id : Nat
  log2_max_frame_num_minus4 : Nat
  pic_order_cnt_type : Nat
  log2_max_pic_order_cnt_lsb_minus4 : Nat
  delta_pic_order_always_zero_flag : Nat
  offset_for_non_ref_pic : Int
  offset_for_top_to_bottom_field : Int
  num_ref_frames_in_pic_order_cnt_cycle : Nat
  offset_for_ref_frame : List Int
  num_ref_frames : Nat
  gaps_in_frame_num_value_allowed_flag : Nat
  pic_width_in_mbs_minus1 : Nat
  pic_height_in_map_units_minus1 : Nat
  frame_mbs_only_flag : Nat
  mb_adaptive_frame_field_flag : Nat
  direct_8x8_inference_flag : Nat
  frame_cropping_flag : Nat
  frame_crop_left_offset : Nat
  frame_crop_right_offset : Nat
  frame_crop_top_offset : Nat
  frame_crop_bottom_offset : Nat
  vui_parameters_present_flag : Nat
  vui_parameters : AVCVUIParams
  deriving DecidableEq, Repr

/-- The structure set to zero. -/
def AVCSeqParamSet.zero : AVCSeqParamSet :=
  ⟨0, 0, 0, 0, 0, 0, 0, 0, 0, 0, 0, 0, 0, 0, [], 0, 0, 0, 0, 0, 0, 0, 0, 0, 0, 0, 0, 0, .zero⟩

structure AVCPicParamSet where
  pic_parameter_set_id : Nat
  seq_parameter_set_id : Nat
  entropy_coding_mode_flag : Nat
  pic_order_present_flag : Nat
  num_slice_groups_minus1 : Nat
  slice_group_map_type : Nat
  run_length_minus1 : List Nat
  top_left : List Nat
  bottom_right : List Nat
  slice_group_change_direction_flag : Nat
  slice_group_change_rate_minus1 : Nat
  pic_size_in_map_units_minus1 : Nat
  slice_group_id : List Nat
  num_ref_idx_l0_active_minus1 : Nat
  num_ref_idx_l1_active_minus1 : Nat
  weighted_pred_flag : Nat
  weighted_bipred_idc : Nat
  pic_init_qp_minus26 : Int
  pic_init_qs_minus26 : Int
  chroma_qp_index_offset : Int
  deblocking_filter_control_present_flag : Nat
  constrained_intra_pred_flag : Nat
  redundant_pic_cnt_present_flag : Nat
  deriving DecidableEq, Repr

/-- The structure set to zero. -/
def AVCPicParamSet.zero : AVCPicParamSet :=
  ⟨0, 0, 0, 0, 0, 0, [], [], [], 0, 0, 0, [], 0, 0, 0, 0, 0, 0, 0, 0, 0, 0⟩

def AVCSeqParamSet.MaxFrameNum (sps : AVCSeqParamSet) : Nat :=
  2 ^ (sps.log2_max_frame_num_minus4 + 4)

def AVCSeqParamSet.MaxPicOrderCntLsb (sps : AVCSeqParamSet) : Nat :=
  2 ^ (sps.log2_max_pic_order_cnt_lsb_minus4 + 4)

/-- The reordering commands of one list: the fields of `AVCSliceHeader` that end in `_l0` or `_l1`. -/
structure Reordering where
  ref_pic_list_reordering_flag : Nat
  reordering_of_pic_nums_idc : Nat → Nat
  abs_diff_pic_num_minus1 : Nat → Nat
  long_term_pic_num : Nat → Nat

/-- The fields of `AVCSliceHeader` for `dec_ref_pic_marking`. -/
structure Marking where
  no_output_of_prior_pics_flag : Nat
  long_term_reference_flag : Nat
  adaptive_ref_pic_marking_mode_flag : Nat
  memory_management_control_operation : Nat → Nat
  difference_of_pic_nums_minus1 : Nat → Nat
  long_term_pic_num : Nat → Nat
  long_term_frame_idx : Nat → Nat
  max_long_term_frame_idx_plus1 : Nat → Nat

structure AVCSliceHeader where
  first_mb_in_slice : Nat
  slice_type : Nat
  pic_parameter_set_id : Nat
  frame_num : Nat
  field_pic_flag : Nat
  idr_pic_id : Nat
  pic_order_cnt_lsb : Nat
  delta_pic_order_cnt_bottom : Int
  delta_pic_order_cnt : Int × Int
  redundant_pic_cnt : Nat
  direct_spatial_mv_pred_flag : Nat
  num_ref_idx_active_override_flag : Nat
  num_ref_idx_l0_active_minus1 : Nat
  num_ref_idx_l1_active_minus1 : Nat
  l0 : Reordering
  l1 : Reordering
  marking : Marking
  slice_qp_delta : Int
  sp_for_switch_flag : Nat
  slice_qs_delta : Int
  disable_deblocking_filter_idc : Nat
  slice_alpha_c0_offset_div2 : Int
  slice_beta_offset_div_2 : Int
  slice_group_change_cycle : Nat

/-- The structures set to zero. -/
def Reordering.zero : Reordering := ⟨0, fun _ => 0, fun _ => 0, fun _ => 0⟩

def Marking.zero : Marking :=
  ⟨0, 0, 0, fun _ => 0, fun _ => 0, fun _ => 0, fun _ => 0, fun _ => 0⟩

def AVCSliceHeader.zero : AVCSliceHeader :=
  ⟨0, 0, 0, 0, 0, 0, 0, 0, (0, 0), 0, 0, 0, 0, 0, .zero, .zero, .zero, 0, 0, 0, 0, 0, 0, 0⟩

/-! `AVCSliceType` and the NAL type of IDR pictures. -/

def AVC_P_SLICE : Nat := 0
def AVC_B_SLICE : Nat := 1
def AVC_I_SLICE : Nat := 2
def AVC_SP_SLICE : Nat := 3
def AVC_SI_SLICE : Nat := 4
def AVC_NALTYPE_IDR : Nat := 5

def MAX_DEC_REF_PIC_MARKING : Nat := 64

end OpenCore.Avc
