/-
  File:      OpenCore/Avc/ParamSetFailure.lean
  Subject:   PARAMETER SETS THAT ARE REFUSED (header.cpp): what `DecodeSPS` and `DecodePPS` leave in
             the tables when they do not return success.

  Both read a set into a structure of their own and copy it into the table at the end. `DecodePPS`
  allocates the entry of the table there too; `DecodeSPS` allocates it behind the id, and goes on
  reading.

  * `ParamM` -- the functions of the decoder on the stream and the tables;
  * `DecodeSPS_eq`, `DecodePPS_eq` -- where they succeed, they are those of the values alone.

  **Main result**: `refused_sets_keep_iff`.
-/
import OpenCore.Avc.ParamSets

namespace OpenCore.Avc

open Prod (fst snd)
open Function (update update_idem)

/-! ## 1. The functions on stream and tables -/

/-- What the functions change. -/
structure ParamState where
  stream : AVCDecBitstream
  decvid : AVCDecObject

/-- A function of the decoder on both. -/
abbrev ParamM := ReadM Stop ParamState

namespace ParamM

variable {α : Type}

/-- A part that only reads the stream. -/
def onStream (m : DecM α) : ParamM α :=
  ExceptT.mk fun s => ((m.exec s.stream).1, { s with stream := (m.exec s.stream).2 })

/-- The tables as they are. -/
def tables : ParamM AVCDecObject := .step fun s => (s, s.decvid)

/-- An assignment to the tables. -/
def assign (f : AVCDecObject → AVCDecObject) : ParamM Unit :=
  .step fun s => ({ s with decvid := f s.decvid }, ())

end ParamM

open ParamM

/-! ## 2. The sequence parameter set -/

namespace Dec

/-- `DecodeSPS` up to the id. -/
def spsHead : DecM AVCSeqParamSet := do
  let profile_idc ← readBits 8
  let constrained_set0_flag ← read1Bit
  let constrained_set1_flag ← read1Bit
  let constrained_set2_flag ← read1Bit
  let _ ← readBits 5
  let level_idc ← readBits 8
  failIf (level_idc > 51) .AVCDEC_FAIL
  failIf (mapLev2Idx.getD level_idc 255 = 255) .AVCDEC_FAIL
  let seq_parameter_set_id ← ue_v
  failIf (seq_parameter_set_id > 31) .AVCDEC_FAIL
  return { AVCSeqParamSet.zero with
    profile_idc, constrained_set0_flag, constrained_set1_flag, constrained_set2_flag, level_idc
    seq_parameter_set_id }

/-- `DecodeSPS` behind the number of reference frames. -/
def spsRest (seqParam : AVCSeqParamSet) (num_ref_frames : Nat) : DecM AVCSeqParamSet := do
  let gaps_in_frame_num_value_allowed_flag ← read1Bit
  let pic_width_in_mbs_minus1 ← ue_v
  let pic_height_in_map_units_minus1 ← ue_v
  let frame_mbs_only_flag ← read1Bit
  let mb_adaptive_frame_field_flag ← (if frame_mbs_only_flag = 0 then read1Bit else pure 0)
  let direct_8x8_inference_flag ← read1Bit
  let frame_cropping_flag ← read1Bit
  let seqParam ← croppingPart { seqParam with
    num_ref_frames, gaps_in_frame_num_value_allowed_flag, pic_width_in_mbs_minus1
    pic_height_in_map_units_minus1, frame_mbs_only_flag, mb_adaptive_frame_field_flag
    direct_8x8_inference_flag, frame_cropping_flag }
  let vui_parameters_present_flag ← read1Bit
  let vui_parameters ←
    (if vui_parameters_present_flag ≠ 0 then vui_parameters seqParam.vui_parameters
    else pure seqParam.vui_parameters)
  return { seqParam with vui_parameters_present_flag, vui_parameters }

/-- `DecodeSPS` behind the id. -/
def spsBody (seqParam : AVCSeqParamSet) : DecM AVCSeqParamSet := do
  let log2_max_frame_num_minus4 ← ue_v
  failIf (log2_max_frame_num_minus4 > 12) .AVCDEC_FAIL
  let pic_order_cnt_type ← ue_v
  let seqParam ← picOrderPart { seqParam with log2_max_frame_num_minus4, pic_order_cnt_type }
  let num_ref_frames ← ue_v
  failIf (num_ref_frames > 16) .AVCDEC_FAIL
  spsRest seqParam num_ref_frames

end Dec

/-- The entry of the table: `malloc` is the memory `CBAVC_Malloc` gives, with what is in it, or
    nothing. -/
def allocSeqParam (malloc : Option AVCSeqParamSet) (id : Nat) : ParamM Unit := do
  let decvid ← tables
  if decvid.seqParams id = none then
    match malloc with
    | none => throw .AVCDEC_MEMORY_FAIL
    | some memory =>
      assign fun d => { d with seqParams := update d.seqParams id (some memory) }
  else pure ()

def DecodeSPS (malloc : Option AVCSeqParamSet) : ParamM Unit := do
  let seqParam ← onStream Dec.spsHead
  allocSeqParam malloc seqParam.seq_parameter_set_id
  let seqParam' ← onStream (Dec.spsBody seqParam)
  assign fun d => { d with
    seqParams := update d.seqParams seqParam.seq_parameter_set_id (some seqParam')
    lastSPS := some seqParam.seq_parameter_set_id }

/-! ## 3. The picture parameter set -/

namespace Dec

/-- The part about slice groups of type 6; `mallocMap` says whether `CBAVC_Malloc` gives the memory
    for the map. -/
def sliceGroupIds (mallocMap : Bool) (decvid : AVCDecObject) (picParam : AVCPicParamSet) :
    DecM AVCPicParamSet := do
  let pic_size_in_map_units_minus1 ← ue_v
  match decvid.seqParams picParam.seq_parameter_set_id with
  | none => throw .AVCDEC_FAIL
  | some sps => do
      let PicSizeInMapUnits :=
        mul32 (add32 sps.pic_width_in_mbs_minus1 1) (add32 sps.pic_height_in_map_units_minus1 1)
      failIf (pic_size_in_map_units_minus1 ≠ sub32 PicSizeInMapUnits 1) .AVCDEC_FAIL
      failIf (mallocMap = false) .AVCDEC_MEMORY_FAIL
      let slice_group_id ← readN (intCount PicSizeInMapUnits)
        (readBits (numBits 32 picParam.num_slice_groups_minus1))
      return { picParam with pic_size_in_map_units_minus1, slice_group_id }

/-- The part about slice groups. -/
def sliceGroups (mallocMap : Bool) (decvid : AVCDecObject) (picParam : AVCPicParamSet) :
    DecM AVCPicParamSet :=
  if picParam.slice_group_map_type = 6 then sliceGroupIds mallocMap decvid picParam
  else sliceGroupPart decvid picParam

/-- `DecodePPS` up to the tables: the id and the set. -/
def ppsBody (mallocMap : Bool) (decvid : AVCDecObject) : DecM (Nat × AVCPicParamSet) := do
  let pic_parameter_set_id ← ue_v
  failIf (pic_parameter_set_id > 255) .AVCDEC_FAIL
  let seq_parameter_set_id ← ue_v
  failIf (seq_parameter_set_id > 31) .AVCDEC_FAIL
  let entropy_coding_mode_flag ← read1Bit
  failIf (entropy_coding_mode_flag ≠ 0) .AVCDEC_NOT_SUPPORTED
  let pic_order_present_flag ← read1Bit
  let num_slice_groups_minus1 ← ue_v
  failIf (num_slice_groups_minus1 > MAX_NUM_SLICE_GROUP - 1) .AVCDEC_FAIL
  let picParam := { AVCPicParamSet.zero with
    pic_parameter_set_id, seq_parameter_set_id, entropy_coding_mode_flag, pic_order_present_flag
    num_slice_groups_minus1 }
  let picParam ←
    (if num_slice_groups_minus1 > 0 then do
      let slice_group_map_type ← ue_v
      failIf (slice_group_map_type > 6) .AVCDEC_FAIL
      sliceGroups mallocMap decvid { picParam with slice_group_map_type }
    else pure picParam)
  let num_ref_idx_l0_active_minus1 ← ue_v
  failIf (num_ref_idx_l0_active_minus1 > 31) .AVCDEC_FAIL
  let num_ref_idx_l1_active_minus1 ← ue_v
  failIf (num_ref_idx_l1_active_minus1 > 31) .AVCDEC_FAIL
  let weighted_pred_flag ← read1Bit
  let weighted_bipred_idc ← readBits 2
  failIf (weighted_bipred_idc > 2) .AVCDEC_FAIL
  let pic_init_qp_minus26 ← se_v
  failIf (pic_init_qp_minus26 < -26 ∨ pic_init_qp_minus26 > 25) .AVCDEC_FAIL
  let pic_init_qs_minus26 ← se_v
  failIf (pic_init_qs_minus26 < -26 ∨ pic_init_qs_minus26 > 25) .AVCDEC_FAIL
  let chroma_qp_index_offset ← se_v
  failIf (chroma_qp_index_offset < -12 ∨ chroma_qp_index_offset > 12) .AVCDEC_FAIL
  let temp_uint ← readBits 3
  failIf (decvid.seqParams seq_parameter_set_id = none) .AVCDEC_FAIL
  return (pic_parameter_set_id, { picParam with
    num_ref_idx_l0_active_minus1, num_ref_idx_l1_active_minus1, weighted_pred_flag
    weighted_bipred_idc, pic_init_qp_minus26, pic_init_qs_minus26, chroma_qp_index_offset
    deblocking_filter_control_present_flag := temp_uint >>> 2
    constrained_intra_pred_flag := (temp_uint >>> 1) &&& 1
    redundant_pic_cnt_present_flag := temp_uint &&& 1 })

end Dec

/-- The entry of the table, set to zero; `mallocSet` says whether `CBAVC_Malloc` gives its memory. -/
def allocPicParam (mallocSet : Bool) (id : Nat) : ParamM Unit := do
  let decvid ← tables
  if decvid.picParams id = none then
    if mallocSet then
      assign fun d => { d with picParams := update d.picParams id (some .zero) }
    else throw .AVCDEC_MEMORY_FAIL
  else pure ()

def DecodePPS (mallocMap mallocSet : Bool) : ParamM Unit := do
  let decvid ← tables
  let set ← onStream (Dec.ppsBody mallocMap decvid)
  allocPicParam mallocSet set.1
  assign fun d => { d with
    picParams := update d.picParams set.1 (some set.2), currPicParams := some set.1 }

/-! ## 4. Where they succeed -/

variable {α : Type}

section

variable (s : ParamState)
include s

theorem exec_onStream (m : DecM α) :
    (onStream m).exec s = ((m.exec s.stream).1, { s with stream := (m.exec s.stream).2 }) := rfl

theorem exec_tables : tables.exec s = (.ok s.decvid, s) := rfl

theorem exec_assign (f : AVCDecObject → AVCDecObject) :
    (assign f).exec s = (.ok (), { s with decvid := f s.decvid }) := rfl

theorem exec_allocSeqParam (malloc : Option AVCSeqParamSet) (id : Nat) :
    (allocSeqParam malloc id).exec s =
      if s.decvid.seqParams id = none then
        match malloc with
        | none => (.error .AVCDEC_MEMORY_FAIL, s)
        | some memory => (.ok (), { s with
            decvid := { s.decvid with
              seqParams := update s.decvid.seqParams id (some memory) } })
      else (.ok (), s) := by
  unfold allocSeqParam
  rw [exec_bind, exec_tables]
  show (if s.decvid.seqParams id = none then _ else _ : ParamM Unit).exec s = _
  split
  · cases malloc <;> rfl
  · rfl

theorem exec_allocPicParam (mallocSet : Bool) (id : Nat) :
    (allocPicParam mallocSet id).exec s =
      if s.decvid.picParams id = none then
        if mallocSet then (.ok (), { s with
          decvid := { s.decvid with
            picParams := update s.decvid.picParams id (some .zero) } })
        else (.error .AVCDEC_MEMORY_FAIL, s)
      else (.ok (), s) := by
  unfold allocPicParam
  rw [exec_bind, exec_tables]
  show (if s.decvid.picParams id = none then _ else _ : ParamM Unit).exec s = _
  split
  · cases mallocSet <;> rfl
  · rfl

end

/-- The function on values is the two parts. -/
theorem dec_DecodeSPS_parts (decvid : AVCDecObject) :
    Dec.DecodeSPS decvid = (do
      let seqParam ← Dec.spsHead
      let seqParam' ← Dec.spsBody seqParam
      return { decvid with
        seqParams := update decvid.seqParams seqParam.seq_parameter_set_id (some seqParam')
        lastSPS := some seqParam.seq_parameter_set_id }) := by
  simp only [Dec.DecodeSPS, Dec.spsHead, Dec.spsBody, Dec.spsRest, bind_assoc, pure_bind]

variable {decvid : AVCDecObject}

/-- **A sequence parameter set that is accepted** is put into the table as the function on values
    says. -/
theorem DecodeSPS_eq {decvid' : AVCDecObject} {s s' : AVCDecBitstream}
    (h : (Dec.DecodeSPS decvid).exec s = (.ok decvid', s')) (memory : AVCSeqParamSet) :
    (DecodeSPS (some memory)).exec ⟨s, decvid⟩ = (.ok (), ⟨s', decvid'⟩) := by
  rw [dec_DecodeSPS_parts, exec_bind] at h
  unfold DecodeSPS
  rw [exec_bind, exec_onStream]
  obtain ⟨o, hhead⟩ : ∃ o, Dec.spsHead.exec s = o := ⟨_, rfl⟩
  simp only [hhead] at h ⊢
  obtain ⟨head | head, s1⟩ := o
  · cases congrArg fst h
  · simp only [exec_bind] at h ⊢
    obtain ⟨o', hbody⟩ : ∃ o', (Dec.spsBody head).exec s1 = o' := ⟨_, rfl⟩
    rw [hbody] at h
    obtain ⟨x | set, s2⟩ := o'
    · cases congrArg fst h
    · obtain ⟨hd, hs⟩ := Prod.mk.inj ((exec_pure _ s2).symm.trans h)
      rw [← Except.ok.inj hd, ← hs, exec_allocSeqParam]
      by_cases hnone : decvid.seqParams head.seq_parameter_set_id = none
      · simp only [if_pos hnone, exec_onStream, hbody, exec_assign, update_idem]
      · simp only [if_neg hnone, exec_onStream, hbody, exec_assign]

section

variable (hsize : ∀ id sps, decvid.seqParams id = some sps → (sps.pic_width_in_mbs_minus1 + 1) * (sps.pic_height_in_map_units_minus1 + 1) < 2147483648)
include hsize

/-- Where the sizes of the pictures are numbers of an `int`, the map is read as the function on
    values says. -/
theorem sliceGroups_eq
    (picParam : AVCPicParamSet) :
    Dec.sliceGroups true decvid picParam = Dec.sliceGroupPart decvid picParam := by
  unfold Dec.sliceGroups
  split
  · rename_i h6
    unfold Dec.sliceGroupIds Dec.sliceGroupPart
    simp only [h6, if_neg (show ¬6 = 0 by decide), if_neg (show ¬6 = 2 by decide),
      if_neg (show ¬(6 = 3 ∨ 6 = 4 ∨ 6 = 5) by decide), if_true]
    refine congrArg (Dec.ue_v >>= ·) (funext fun size => ?_)
    cases hs : decvid.seqParams picParam.seq_parameter_set_id with
    | none => rfl
    | some sps =>
      have hlt := hsize _ sps hs
      obtain ⟨w, hw⟩ : ∃ w, sps.pic_width_in_mbs_minus1 + 1 = w := ⟨_, rfl⟩
      obtain ⟨h, hh⟩ : ∃ h, sps.pic_height_in_map_units_minus1 + 1 = h := ⟨_, rfl⟩
      rw [hw, hh] at hlt
      have hone : 1 ≤ w * h := Nat.mul_pos (by omega) (by omega)
      have hwle : w ≤ w * h := Nat.le_mul_of_pos_right w (by omega)
      have hhle : h ≤ w * h := Nat.le_mul_of_pos_left h (by omega)
      simp only [add32_eq (show sps.pic_width_in_mbs_minus1 + 1 < 4294967296 by omega),
        add32_eq (show sps.pic_height_in_map_units_minus1 + 1 < 4294967296 by omega), hw, hh,
        mul32_eq (show w * h < 4294967296 by omega),
        sub32_eq hone (show w * h < 4294967296 by omega), intCount, if_pos hlt, Dec.failIf,
        Bool.true_eq_false, if_false, pure_bind]
  · rfl

/-- **A picture parameter set that is accepted**, likewise. -/
theorem DecodePPS_eq {decvid' : AVCDecObject} {s s' : AVCDecBitstream}
    (h : (Dec.DecodePPS decvid).exec s = (.ok decvid', s')) :
    (DecodePPS true true).exec ⟨s, decvid⟩ = (.ok (), ⟨s', decvid'⟩) := by
  have hparts : Dec.DecodePPS decvid = (do
      let set ← Dec.ppsBody true decvid
      return { decvid with
        picParams := update decvid.picParams set.1 (some set.2)
        currPicParams := some set.1 }) := by
    simp only [Dec.DecodePPS, Dec.ppsBody, sliceGroups_eq hsize, bind_assoc, pure_bind]
  rw [hparts, exec_bind] at h
  unfold DecodePPS
  rw [exec_bind, exec_tables]
  obtain ⟨o, hbody⟩ : ∃ o, (Dec.ppsBody true decvid).exec s = o := ⟨_, rfl⟩
  simp only [exec_bind, exec_onStream, hbody] at h ⊢
  obtain ⟨x | set, s1⟩ := o
  · cases congrArg fst h
  · obtain ⟨hd, hs⟩ := Prod.mk.inj ((exec_pure _ s1).symm.trans h)
    rw [← Except.ok.inj hd, ← hs]
    simp only [exec_allocPicParam]
    by_cases hnone : decvid.picParams set.1 = none
    · simp only [if_pos hnone, if_true, exec_assign, update_idem]
    · simp only [if_neg hnone, exec_assign]

end

/-! ## 5. Where they fail -/

/-- **A call that fails leaves the parameter sets**: which ids have one, and what is in it. A loop
    that never ends does not return; a write behind an array promises nothing. -/
def KeepsSets (s : ParamState) (r : Except Stop Unit × ParamState) : Prop :=
  ∀ x, r.1 = .error x → x ≠ .endless → x ≠ .overrun ∧
    r.2.decvid.seqParams = s.decvid.seqParams ∧ r.2.decvid.picParams = s.decvid.picParams

namespace Dec

/-- The number of reference frames that the stream has behind the id. -/
def refFrames (seqParam : AVCSeqParamSet) : DecM Nat := do
  let log2_max_frame_num_minus4 ← ue_v
  let pic_order_cnt_type ← ue_v
  let _ ← picOrderPart { seqParam with log2_max_frame_num_minus4, pic_order_cnt_type }
  ue_v

end Dec

/-- The stream behind the id has a value that is refused: the size of `frame_num`, or the number of
    reference frames. -/
def RefusedBehindId (seqParam : AVCSeqParamSet) (stream : AVCDecBitstream) : Prop :=
  12 < stream.ue_v.2 ∨ ∃ n stream', (Dec.refFrames seqParam).exec stream = (.ok n, stream') ∧ 16 < n

/-- The stream behind the id has more offsets than the array. -/
def TooManyOffsets (seqParam : AVCSeqParamSet) (stream : AVCDecBitstream) : Prop :=
  stream.ue_v.2 ≤ 12 ∧ ∃ stream', (Dec.refFrames seqParam).exec stream = (.error .overrun, stream')

/-- **The streams and tables where `DecodeSPS` keeps the sets when it fails**: behind an id without
    a set nothing is refused, and there are not too many offsets (or there is no memory for the
    entry, and the function returns before). -/
structure SpsKept (malloc : Option AVCSeqParamSet) (s : ParamState) : Prop where
  entry : ∀ seqParam stream, Dec.spsHead.exec s.stream = (.ok seqParam, stream) →
    RefusedBehindId seqParam stream →
    s.decvid.seqParams seqParam.seq_parameter_set_id = none → malloc = none
  offsets : ∀ seqParam stream, Dec.spsHead.exec s.stream = (.ok seqParam, stream) →
    TooManyOffsets seqParam stream →
    s.decvid.seqParams seqParam.seq_parameter_set_id = none ∧ malloc = none

theorem stops_failIf {p : Prop} [Decidable p] {x : Stop} {P : Stop → Prop} (hx : P x) :
    (Dec.failIf p x).StopsWith P := by
  unfold Dec.failIf
  exact .ite (.throw hx) (.pure ())

/-- Up to the id the only status is `AVCDEC_FAIL`. -/
theorem stops_spsHead : Dec.spsHead.StopsWith (· = .AVCDEC_FAIL) := by
  unfold Dec.spsHead
  refine .bind (.step _) fun _ => .bind (.step _) fun _ => .bind (.step _) fun _ => ?_
  refine .bind (.step _) fun _ => .bind (.step _) fun _ => .bind (.step _) fun _ => ?_
  refine .bind (stops_failIf rfl) fun _ => .bind (stops_failIf rfl) fun _ => ?_
  exact .bind (.step _) fun _ => .bind (stops_failIf rfl) fun _ => .pure _

theorem stops_hrd (hrd : AVCHRDParams) : (Dec.hrd_parameters hrd).StopsWith (· = .endless) := by
  unfold Dec.hrd_parameters
  refine .bind (.step _) fun _ => .bind (.step _) fun _ => .bind (.step _) fun _ => ?_
  refine .bind (stops_failIf rfl) fun _ => .bind (.readN _ ?_) fun _ => ?_
  · exact .bind (.step _) fun _ => .bind (.step _) fun _ => .step _
  · exact .bind (.step _) fun _ => .bind (.step _) fun _ => .bind (.step _) fun _ =>
      .bind (.step _) fun _ => .pure _

/-- The usability information is never refused. -/
theorem stops_vui (vui : AVCVUIParams) : (Dec.vui_parameters vui).StopsWith (· = .endless) := by
  have haspect : Dec.aspectRatioPart.StopsWith (· = .endless) :=
    .bind (.step _) fun _ => .ite (.bind (.step _) fun _ =>
      .ite (.bind (.step _) fun _ => .bind (.step _) fun _ => .pure _) (.pure _)) (.pure _)
  have hoverscan : Dec.overscanPart.StopsWith (· = .endless) :=
    .bind (.step _) fun _ => .ite (.bind (.step _) fun _ => .pure _) (.pure _)
  have hvideo : Dec.videoSignalPart.StopsWith (· = .endless) :=
    .bind (.step _) fun _ => .ite (.bind (.step _) fun _ => .bind (.step _) fun _ =>
      .bind (.step _) fun _ => .ite (.bind (.step _) fun _ => .bind (.step _) fun _ =>
        .bind (.step _) fun _ => .pure _) (.pure _)) (.pure _)
  have hchroma : Dec.chromaLocationPart.StopsWith (· = .endless) :=
    .bind (.step _) fun _ => .ite (.bind (.step _) fun _ => .bind (.step _) fun _ => .pure _)
      (.pure _)
  have htiming : Dec.timingPart.StopsWith (· = .endless) :=
    .bind (.step _) fun _ => .ite (.bind (.step _) fun _ => .bind (.step _) fun _ =>
      .bind (.step _) fun _ => .pure _) (.pure _)
  have hrestriction : Dec.restrictionPart.StopsWith (· = .endless) :=
    .bind (.step _) fun _ => .ite (.bind (.step _) fun _ => .bind (.step _) fun _ =>
      .bind (.step _) fun _ => .bind (.step _) fun _ => .bind (.step _) fun _ =>
      .bind (.step _) fun _ => .bind (.step _) fun _ => .pure _) (.pure _)
  unfold Dec.vui_parameters
  refine haspect.bind fun _ => hoverscan.bind fun _ => hvideo.bind fun _ => ?_
  refine hchroma.bind fun _ => htiming.bind fun _ => .bind (.step _) fun _ => ?_
  refine .bind (.ite (stops_hrd _) (.pure _)) fun _ => .bind (.step _) fun _ => ?_
  refine .bind (.ite (stops_hrd _) (.pure _)) fun _ => ?_
  refine .bind (.ite (.step _) (.pure _)) fun _ => .bind (.step _) fun _ => ?_
  exact hrestriction.bind fun _ => .pure _

/-- Behind the number of reference frames nothing is refused. -/
theorem stops_spsRest (seqParam : AVCSeqParamSet) (n : Nat) :
    (Dec.spsRest seqParam n).StopsWith (· = .endless) := by
  have hcropping : ∀ set, (Dec.croppingPart set).StopsWith (· = .endless) := fun set =>
    .ite (.bind (.step _) fun _ => .bind (.step _) fun _ => .bind (.step _) fun _ =>
      .bind (.step _) fun _ => .pure _) (.pure _)
  unfold Dec.spsRest
  refine .bind (.step _) fun _ => .bind (.step _) fun _ => .bind (.step _) fun _ => ?_
  refine .bind (.step _) fun _ => .bind (.ite (.step _) (.pure _)) fun _ => ?_
  refine .bind (.step _) fun _ => .bind (.step _) fun _ => (hcropping _).bind fun _ => ?_
  exact .bind (.step _) fun _ => .bind (.ite (stops_vui _) (.pure _)) fun _ => .pure _

theorem exec_ue_v (stream : AVCDecBitstream) :
    Dec.ue_v.exec stream = (.ok stream.ue_v.2, stream.ue_v.1) := rfl

theorem exec_failIf (p : Prop) [Decidable p] (x : Stop) (stream : AVCDecBitstream) :
    (Dec.failIf p x).exec stream = if p then (.error x, stream) else (.ok (), stream) := by
  unfold Dec.failIf
  split <;> rfl

/-- What comes of the part behind the id, by what the stream has there. -/
theorem spsBody_cases (seqParam : AVCSeqParamSet) (stream : AVCDecBitstream) :
    (12 < stream.ue_v.2 ∧ ∃ stream',
      (Dec.spsBody seqParam).exec stream = (.error .AVCDEC_FAIL, stream')) ∨
    (stream.ue_v.2 ≤ 12 ∧ ∃ x stream', (Dec.refFrames seqParam).exec stream = (.error x, stream') ∧
      (Dec.spsBody seqParam).exec stream = (.error x, stream')) ∨
    (stream.ue_v.2 ≤ 12 ∧ ∃ n stream', (Dec.refFrames seqParam).exec stream = (.ok n, stream') ∧
      (16 < n ∧ (Dec.spsBody seqParam).exec stream = (.error .AVCDEC_FAIL, stream') ∨
        n ≤ 16 ∧ ∃ set, (Dec.spsBody seqParam).exec stream = (Dec.spsRest set n).exec stream')) := by
  unfold Dec.spsBody Dec.refFrames
  simp only [exec_bind, exec_ue_v, exec_failIf]
  by_cases h12 : stream.ue_v.2 > 12
  · simp only [if_pos h12]
    exact .inl ⟨h12, _, rfl⟩
  · simp only [if_neg h12]
    refine .inr ?_
    obtain ⟨o, ho⟩ : ∃ o, (Dec.picOrderPart { seqParam with
        log2_max_frame_num_minus4 := stream.ue_v.2
        pic_order_cnt_type := stream.ue_v.1.ue_v.2 }).exec stream.ue_v.1.ue_v.1 = o := ⟨_, rfl⟩
    rw [ho]
    obtain ⟨x | set, s1⟩ := o
    · exact .inl ⟨by omega, x, s1, rfl, rfl⟩
    · refine .inr ⟨by omega, s1.ue_v.2, s1.ue_v.1, rfl, ?_⟩
      by_cases h16 : s1.ue_v.2 > 16
      · simp only [if_pos h16]
        exact .inl ⟨h16, trivial⟩
      · simp only [if_neg h16]
        exact .inr ⟨by omega, set, rfl⟩

theorem stops_egZeros (fuel leadingZeros : Nat) :
    (Dec.egZeros fuel leadingZeros).StopsWith (· = .endless) := by
  induction fuel generalizing leadingZeros with
  | zero => exact .throw rfl
  | succ fuel ih =>
    unfold Dec.egZeros
    exact .bind (.step _) fun _ => .ite (.pure _) (ih _)

theorem stops_se_v32bit : Dec.se_v32bit.StopsWith (· = .endless) := by
  have hinfo : ∀ z, (Dec.egInfo z).StopsWith (· = .endless) := fun z =>
    .ite (.bind (.step _) fun _ => .pure _) (.pure _)
  exact .bind (.bind (.step _) fun _ => .bind (stops_egZeros _ _) fun _ => hinfo _) fun _ => .pure _

/-- Up to the number of reference frames the stream is not refused. -/
theorem stops_refFrames (seqParam : AVCSeqParamSet) :
    (Dec.refFrames seqParam).StopsWith fun x => x = .endless ∨ x = .overrun := by
  have hse : Dec.se_v32bit.StopsWith fun x => x = .endless ∨ x = .overrun :=
    fun s x s' h => .inl (stops_se_v32bit s x s' h)
  have horder : ∀ set, (Dec.picOrderPart set).StopsWith fun x => x = .endless ∨ x = .overrun := by
    intro set
    unfold Dec.picOrderPart
    refine .ite (.bind (.step _) fun _ => .pure _) (.ite ?_ (.pure _))
    refine .bind (.step _) fun _ => hse.bind fun _ => hse.bind fun _ => .bind (.step _) fun _ => ?_
    exact .bind (.readN _ hse) fun _ => .bind (stops_failIf (.inr rfl)) fun _ => .pure _
  unfold Dec.refFrames
  exact .bind (.step _) fun _ => .bind (.step _) fun _ => (horder _).bind fun _ => .step _

variable {seqParam : AVCSeqParamSet} {stream : AVCDecBitstream}

/-- The part behind the id fails where a value is refused or there are too many offsets. -/
theorem spsBody_error {stream' : AVCDecBitstream} {x : Stop}
    (h : (Dec.spsBody seqParam).exec stream = (.error x, stream')) (hx : x ≠ .endless) :
    (x = .overrun ∧ TooManyOffsets seqParam stream) ∨
      (x ≠ .overrun ∧ RefusedBehindId seqParam stream) := by
  obtain ⟨h12, s1, hbody⟩ | ⟨h12, y, s1, href, hbody⟩ | ⟨h12, n, s1, href, hbody⟩ :=
    spsBody_cases seqParam stream
  · obtain rfl := Except.error.inj (congrArg fst (h.symm.trans hbody))
    exact .inr ⟨nofun, .inl h12⟩
  · obtain rfl := Except.error.inj (congrArg fst (h.symm.trans hbody))
    have hover := (stops_refFrames seqParam stream x s1 href).resolve_left hx
    rw [hover] at href
    exact .inl ⟨hover, h12, s1, href⟩
  · obtain ⟨h16, hbody⟩ | ⟨_, set, hbody⟩ := hbody
    · obtain rfl := Except.error.inj (congrArg fst (h.symm.trans hbody))
      exact .inr ⟨nofun, .inr ⟨n, s1, href, h16⟩⟩
    · exact absurd (stops_spsRest set n s1 x stream' (hbody.symm.trans h)) hx

theorem spsBody_refused
    (h : RefusedBehindId seqParam stream) :
    ∃ stream', (Dec.spsBody seqParam).exec stream = (.error .AVCDEC_FAIL, stream') := by
  obtain ⟨_, s1, hbody⟩ | ⟨h12, y, s1, href, _⟩ | ⟨h12, n, s1, href, hbody⟩ :=
    spsBody_cases seqParam stream
  · exact ⟨s1, hbody⟩
  · obtain h | ⟨n', s2, href', _⟩ := h
    · omega
    · cases congrArg fst (href.symm.trans href')
  · obtain h | ⟨n', s2, href', h16'⟩ := h
    · omega
    · have hn := Except.ok.inj (congrArg fst (href.symm.trans href'))
      obtain ⟨_, hbody⟩ | ⟨hle, _⟩ := hbody
      · exact ⟨s1, hbody⟩
      · omega

theorem spsBody_tooMany
    (h : TooManyOffsets seqParam stream) :
    ∃ stream', (Dec.spsBody seqParam).exec stream = (.error .overrun, stream') := by
  obtain ⟨h12, s2, href'⟩ := h
  obtain ⟨h12', _⟩ | ⟨_, y, s1, href, hbody⟩ | ⟨_, n, s1, href, _⟩ :=
    spsBody_cases seqParam stream
  · omega
  · obtain rfl := Except.error.inj (congrArg fst (href.symm.trans href'))
    exact ⟨s1, hbody⟩
  · cases congrArg fst (href.symm.trans href')

/-! ## 6. The tables behind a failure -/

/-- Behind the entry of the table: the sets are kept where the entry is the old one or nothing is
    refused, and no array is overrun. -/
theorem keeps_behind_entry {malloc : Option AVCSeqParamSet} {s : ParamState}
        (hhead : Dec.spsHead.exec s.stream = (.ok seqParam, stream))
    (halloc : (allocSeqParam malloc seqParam.seq_parameter_set_id).exec ⟨stream, s.decvid⟩ =
      (.ok (), ⟨stream, decvid⟩)) (hpic : decvid.picParams = s.decvid.picParams) :
    KeepsSets s ((DecodeSPS malloc).exec s) ↔
      (RefusedBehindId seqParam stream → decvid.seqParams = s.decvid.seqParams) ∧
        ¬TooManyOffsets seqParam stream := by
  have hrun : ∀ x s2, (Dec.spsBody seqParam).exec stream = (.error x, s2) →
      (DecodeSPS malloc).exec s = (.error x, ⟨s2, decvid⟩) := by
    intro x s2 hbody
    unfold DecodeSPS
    simp only [exec_bind, exec_onStream, hhead, halloc, hbody]
  constructor
  · intro hkeeps
    refine ⟨fun href => ?_, fun hmany => ?_⟩
    · obtain ⟨s2, hbody⟩ := spsBody_refused href
      rw [hrun _ _ hbody] at hkeeps
      exact (hkeeps _ rfl nofun).2.1
    · obtain ⟨s2, hbody⟩ := spsBody_tooMany hmany
      rw [hrun _ _ hbody] at hkeeps
      exact (hkeeps _ rfl nofun).1 rfl
  · intro ⟨hkept, hmany⟩ x hx hend
    obtain ⟨o, hbody⟩ : ∃ o, (Dec.spsBody seqParam).exec stream = o := ⟨_, rfl⟩
    obtain ⟨y | set, s2⟩ := o
    · rw [hrun _ _ hbody] at hx ⊢
      obtain rfl := Except.error.inj hx
      obtain ⟨_, hmany'⟩ | ⟨hne, href⟩ := spsBody_error hbody hend
      · exact absurd hmany' hmany
      · exact ⟨hne, hkept href, hpic⟩
    · -- the set is accepted
      unfold DecodeSPS at hx
      simp only [exec_bind, exec_onStream, hhead, halloc, hbody] at hx
      cases hx

/-- **`DecodeSPS`** keeps the sets when it fails exactly where the condition on stream and tables
    holds. -/
theorem DecodeSPS_keeps_iff (malloc : Option AVCSeqParamSet) (s : ParamState) :
    KeepsSets s ((DecodeSPS malloc).exec s) ↔ SpsKept malloc s := by
  obtain ⟨o, hhead⟩ : ∃ o, Dec.spsHead.exec s.stream = o := ⟨_, rfl⟩
  obtain ⟨y | seqParam, stream⟩ := o
  · -- refused up to the id
    have hrun : (DecodeSPS malloc).exec s = (.error y, ⟨stream, s.decvid⟩) := by
      unfold DecodeSPS
      simp only [exec_bind, exec_onStream, hhead]
    have hfail : y = .AVCDEC_FAIL := stops_spsHead _ _ _ hhead
    have hnever : ∀ set s1, Dec.spsHead.exec s.stream ≠ (.ok set, s1) := by
      intro set s1 h
      cases congrArg fst (hhead.symm.trans h)
    refine iff_of_true ?_
      ⟨fun set s1 h => absurd h (hnever set s1), fun set s1 h => absurd h (hnever set s1)⟩
    intro x hx _
    rw [hrun] at hx ⊢
    rw [← Except.error.inj hx, hfail]
    exact ⟨nofun, rfl, rfl⟩
  have hunique : ∀ set s1, Dec.spsHead.exec s.stream = (.ok set, s1) →
      set = seqParam ∧ s1 = stream := by
    intro set s1 h
    have h' := hhead.symm.trans h
    exact ⟨(Except.ok.inj (congrArg fst h')).symm, (congrArg snd h').symm⟩
  have hkept : SpsKept malloc s ↔
      (RefusedBehindId seqParam stream →
        s.decvid.seqParams seqParam.seq_parameter_set_id = none → malloc = none) ∧
      (TooManyOffsets seqParam stream →
        s.decvid.seqParams seqParam.seq_parameter_set_id = none ∧ malloc = none) := by
    constructor
    · intro h
      exact ⟨h.entry _ _ hhead, h.offsets _ _ hhead⟩
    · intro ⟨hentry, hoffsets⟩
      refine ⟨fun set s1 h => ?_, fun set s1 h => ?_⟩
      · obtain ⟨hset, hs1⟩ := hunique set s1 h
        rw [hset, hs1]
        exact hentry
      · obtain ⟨hset, hs1⟩ := hunique set s1 h
        rw [hset, hs1]
        exact hoffsets
  rw [hkept]
  by_cases hnone : s.decvid.seqParams seqParam.seq_parameter_set_id = none
  · cases malloc with
    | none =>
      -- no memory for the entry
      have hrun : (DecodeSPS none).exec s = (.error .AVCDEC_MEMORY_FAIL, ⟨stream, s.decvid⟩) := by
        unfold DecodeSPS
        simp only [exec_bind, exec_onStream, hhead, exec_allocSeqParam, if_pos hnone]
      refine iff_of_true ?_ ⟨fun _ _ => rfl, fun _ => ⟨hnone, rfl⟩⟩
      intro x hx _
      rw [hrun] at hx ⊢
      rw [← Except.error.inj hx]
      exact ⟨nofun, rfl, rfl⟩
    | some memory =>
      -- an entry is made
      have hchanged : update s.decvid.seqParams seqParam.seq_parameter_set_id
          (some memory) ≠ s.decvid.seqParams := by
        intro hc
        have h := congrFun hc seqParam.seq_parameter_set_id
        rw [hnone, Function.update_self] at h
        exact Option.some_ne_none memory h
      have halloc : (allocSeqParam (some memory) seqParam.seq_parameter_set_id).exec
          ⟨stream, s.decvid⟩ = (.ok (), ⟨stream, { s.decvid with
            seqParams := update s.decvid.seqParams seqParam.seq_parameter_set_id
              (some memory) }⟩) := by
        simp only [exec_allocSeqParam, if_pos hnone]
      rw [keeps_behind_entry hhead halloc rfl]
      simp only [hnone, hchanged, Option.some_ne_none, and_false, imp_false, not_true_eq_false]
  · rw [keeps_behind_entry hhead (by rw [exec_allocSeqParam, if_neg hnone]) rfl]
    simp only [hnone, implies_true, false_implies, false_and, true_and, imp_false]

/-- A picture parameter set writes behind no array. -/
theorem stops_ppsBody (mallocMap : Bool) (decvid : AVCDecObject) :
    (Dec.ppsBody mallocMap decvid).StopsWith (· ≠ .overrun) := by
  have hids : ∀ set, (Dec.sliceGroupIds mallocMap decvid set).StopsWith (· ≠ .overrun) := by
    intro set
    unfold Dec.sliceGroupIds
    refine .bind (.step _) fun _ => ?_
    cases decvid.seqParams set.seq_parameter_set_id with
    | none => exact .throw nofun
    | some sps =>
      refine .bind (stops_failIf nofun) fun _ => ?_
      refine .bind (stops_failIf nofun) fun _ => ?_
      exact .bind (.readN _ (.step _)) fun _ => .pure _
  have hpart : ∀ set, (Dec.sliceGroupPart decvid set).StopsWith (· ≠ .overrun) := by
    intro set
    unfold Dec.sliceGroupPart
    refine .ite (.bind (.readN _ (.step _)) fun _ => .pure _) (.ite ?_ (.ite ?_ (.ite ?_ (.pure _))))
    · exact .bind (.readN _ (.bind (.step _) fun _ => .bind (.step _) fun _ => .pure _))
        fun _ => .pure _
    · exact .bind (.step _) fun _ => .bind (.step _) fun _ => .pure _
    · refine .bind (.step _) fun _ => ?_
      cases decvid.seqParams set.seq_parameter_set_id with
      | none => exact .throw nofun
      | some sps =>
        refine .bind (stops_failIf nofun) fun _ => ?_
        exact .bind (.readN _ (.step _)) fun _ => .pure _
  have hgroups : ∀ set, (Dec.sliceGroups mallocMap decvid set).StopsWith (· ≠ .overrun) :=
    fun set => .ite (hids set) (hpart set)
  have hfail : ∀ {p : Prop} [Decidable p], (Dec.failIf p .AVCDEC_FAIL).StopsWith (· ≠ .overrun) :=
    stops_failIf nofun
  unfold Dec.ppsBody
  refine .bind (.step _) fun _ => hfail.bind fun _ => .bind (.step _) fun _ => ?_
  refine hfail.bind fun _ => .bind (.step _) fun _ => ?_
  refine .bind (stops_failIf nofun) fun _ => .bind (.step _) fun _ => ?_
  refine .bind (.step _) fun _ => hfail.bind fun _ => .bind (.ite ?_ (.pure _)) fun _ => ?_
  · exact .bind (.step _) fun _ => hfail.bind fun _ => hgroups _
  refine .bind (.step _) fun _ => hfail.bind fun _ => .bind (.step _) fun _ => ?_
  refine hfail.bind fun _ => .bind (.step _) fun _ => .bind (.step _) fun _ => ?_
  refine hfail.bind fun _ => .bind (.step _) fun _ => hfail.bind fun _ => ?_
  refine .bind (.step _) fun _ => hfail.bind fun _ => .bind (.step _) fun _ => ?_
  exact hfail.bind fun _ => .bind (.step _) fun _ => hfail.bind fun _ => .pure _

/-- **`DecodePPS`** always keeps the sets when it fails. -/
theorem DecodePPS_keeps (mallocMap mallocSet : Bool) (s : ParamState) :
    KeepsSets s ((DecodePPS mallocMap mallocSet).exec s) := by
  intro x hx _
  unfold DecodePPS at hx ⊢
  obtain ⟨o, hbody⟩ : ∃ o, (Dec.ppsBody mallocMap s.decvid).exec s.stream = o := ⟨_, rfl⟩
  obtain ⟨y | set, stream⟩ := o
  · simp only [exec_bind, exec_tables, exec_onStream, hbody] at hx ⊢
    rw [← Except.error.inj hx]
    exact ⟨stops_ppsBody mallocMap s.decvid _ _ _ hbody, trivial, trivial⟩
  · simp only [exec_bind, exec_tables, exec_onStream, hbody, exec_allocPicParam] at hx ⊢
    by_cases hnone : s.decvid.picParams set.1 = none
    · cases mallocSet with
      | true =>
        simp only [if_pos hnone, if_true, exec_assign] at hx
        cases hx
      | false =>
        simp only [if_pos hnone, Bool.false_eq_true, if_false] at hx ⊢
        rw [← Except.error.inj hx]
        exact ⟨nofun, trivial, trivial⟩
    · simp only [if_neg hnone, exec_assign] at hx
      cases hx

/-- **Refused parameter sets.** For every stream and all tables, whatever `CBAVC_Malloc` gives: when
    `DecodePPS` does not return success the sets stored are as before; when `DecodeSPS` does not,
    they are so exactly where `SpsKept` holds. -/
theorem refused_sets_keep_iff (malloc : Option AVCSeqParamSet) (mallocMap mallocSet : Bool)
    (s : ParamState) :
    (KeepsSets s ((DecodeSPS malloc).exec s) ↔ SpsKept malloc s) ∧
      KeepsSets s ((DecodePPS mallocMap mallocSet).exec s) :=
  ⟨DecodeSPS_keeps_iff malloc s, DecodePPS_keeps mallocMap mallocSet s⟩

/-- **A set that is refused for its `frame_num` leaves an entry**: the id 0 had none, and has one
    afterwards, with what was in the memory. A picture parameter set that names it is then taken. -/
theorem refused_sps_leaves_entry :
    let s : ParamState := ⟨.opened [66, 0, 10, 0x8E, 0x80] 5, .empty⟩
    let r := (DecodeSPS (some .zero)).exec s
    r.1 = .error .AVCDEC_FAIL ∧ s.decvid.seqParams 0 = none ∧
      r.2.decvid.seqParams 0 = some .zero ∧ ¬KeepsSets s r ∧
      ((DecodePPS true true).exec ⟨.opened [0xCE, 0x38, 0x80] 3, s.decvid⟩).1 =
        .error .AVCDEC_FAIL ∧
      ((DecodePPS true true).exec ⟨.opened [0xCE, 0x38, 0x80] 3, r.2.decvid⟩).1 = .ok () := by
  intro s r
  have hfail : r.1 = .error .AVCDEC_FAIL := by decide +kernel
  have hentry : r.2.decvid.seqParams 0 = some .zero := by decide +kernel
  refine ⟨hfail, rfl, hentry, fun h => ?_, by decide +kernel, by decide +kernel⟩
  have hsame := (h _ hfail nofun).2.1
  rw [hsame] at hentry
  exact absurd hentry.symm (Option.some_ne_none _)

end OpenCore.Avc
