/-
  File:      OpenCore/Avc/RefListReorder.lean
  Subject:   THE REORDERED REFERENCE LIST: what the commands make of the initial list, and when it
             is the list that H.264 asks for.

  Before each command the array holds the pictures that were commanded so far, then the pictures
  that are left, then what earlier rounds and earlier slices have left behind, and empty slots
  last (`Window`). A command keeps this, and fills one empty slot; a long-term command that comes
  upon an empty slot below the size of the list follows a NULL pointer. The initial list is wrong
  where only long-term frames are there: the fallback for an empty list looks at the short-term
  frames alone.

  **Main result**: `ref_lists_iff`.
-/
import OpenCore.Avc.RefList

namespace OpenCore.Avc

open OpenCore.Lib List Option

/-! ## 1. What is asked for -/

/-- How far the commands before the `i`-th have moved the predicted number. -/
def Reordering.offset (l : Reordering) : Nat → Int
  | 0 => 0
  | i + 1 =>
    l.offset i +
      if l.reordering_of_pic_nums_idc i = 0 then -(l.abs_diff_pic_num_minus1 i + 1 : Int)
      else if l.reordering_of_pic_nums_idc i = 1 then (l.abs_diff_pic_num_minus1 i + 1 : Int)
      else 0

/-- The number that the `i`-th command names, where it is one for a short-term picture. -/
def RefVideo.commandNum (v : RefVideo) (i : Nat) : Int :=
  wrapped v.CurrPicNum v.MaxPicNum (v.CurrPicNum + v.sliceHdr.l0.offset (i + 1))

/-- The number of entries that the header asks for. -/
def RefVideo.active (v : RefVideo) : Nat := v.sliceHdr.num_ref_idx_l0_active_minus1 + 1

/-- The commands are for list 0, and name the pictures `cmds` in turn. -/
structure RefVideo.Legal (v : RefVideo) (cmds : List Nat) : Prop where
  terminator : v.sliceHdr.l0.reordering_of_pic_nums_idc cmds.length = 3
  count : cmds.length ≤ v.active
  diff : ∀ i < cmds.length, v.sliceHdr.l0.reordering_of_pic_nums_idc i < 2 →
    v.sliceHdr.l0.abs_diff_pic_num_minus1 i + 1 ≤ v.MaxPicNum
  names : ∀ (i c : Nat), cmds[i]? = some c →
    v.sliceHdr.l0.reordering_of_pic_nums_idc i < 2 ∧ c ∈ v.shorts ∧ v.shortNum c = v.commandNum i ∨
      v.sliceHdr.l0.reordering_of_pic_nums_idc i = 2 ∧ c ∈ v.longs ∧
        v.longNum c = v.sliceHdr.l0.long_term_pic_num i

/-- The pictures of the initial list that are left, up to the size of the list. -/
def RefVideo.remaining (v : RefVideo) (done : List Nat) : List Nat :=
  ((v.initialList.take v.active).filter (· ∉ done)).take (v.active - done.length)

/-- The final list: the commanded pictures, then those that are left. -/
def RefVideo.finalList (v : RefVideo) (cmds : List Nat) : List Nat :=
  if v.sliceHdr.l0.ref_pic_list_reordering_flag = 0 then v.initialList.take v.active
  else cmds ++ v.remaining cmds

/-- The entries of the final list; a list that was reordered has its full size. -/
def RefVideo.finalEntries (v : RefVideo) (cmds : List Nat) : List (Option Nat) :=
  if v.sliceHdr.l0.ref_pic_list_reordering_flag = 0 then (v.finalList cmds).map some
  else padded (v.finalList cmds) v.active

/-- The initial list is right, and reordering ends well with the entries of the final list in
    front. -/
def RefVideo.ListsBegin (v : RefVideo) (cmds : List Nat) : Prop :=
  (RefListInit v).list0 = (v.initialList.take v.active).map some ∧
    ∃ w, ReOrderList (RefListInit v) = some (.AVC_SUCCESS, w) ∧
      (v.finalList cmds).map some <+: w.list0

/-- Nothing is behind the final list either. -/
def RefVideo.ListsAre (v : RefVideo) (cmds : List Nat) : Prop :=
  (RefListInit v).list0 = (v.initialList.take v.active).map some ∧
    ∃ w, ReOrderList (RefListInit v) = some (.AVC_SUCCESS, w) ∧ w.list0 = v.finalEntries cmds

/-! ## 2. The pictures that the commands find -/

open RefVideo (finalEntries front initialList list0 pic remaining written)

/-- The frames of `v` are in `w` with their pictures numbered, and the header is the same. -/
structure RefVideo.Renumbered (v w : RefVideo) : Prop where
  header : w.sliceHdr = v.sliceHdr
  picNum : w.CurrPicNum = v.CurrPicNum ∧ w.MaxPicNum = v.MaxPicNum
  frames : ∀ (i : Nat) (f : AVCFrameStore), v.fs[i]? = some f →
    ∃ g, w.fs[i]? = some g ∧ g.IsReference = f.IsReference ∧
      g.frame.isLongTerm = f.frame.isLongTerm ∧
      (f.isShort → g.frame.PicNum = v.shortNum i) ∧
      (f.isLong → g.frame.LongTermPicNum = v.longNum i)
  length : w.fs.length = v.fs.length

/-- What a command keeps of the list when it puts the picture `c` in. -/
structure RefVideo.Keeps (v : RefVideo) (keep : Option Nat → Option Bool) (c : Nat) : Prop where
  filled : ∀ x < v.fs.length, ∃ b, keep (some x) = some b
  refs : ∀ x ∈ v.initialList, keep (some x) = some (decide (x ≠ c))

variable {c x : Nat}

section Found

variable {v w : RefVideo} {old : List Nat}

variable {f : AVCFrameStore}

theorem isShort_iff :
    f.isShort ↔ f.IsReference = 3 ∧ f.IsLongTerm = 0 := by
  rw [AVCFrameStore.isShort, Bool.and_eq_true, beq_iff_eq, beq_iff_eq]

section

variable (h : v.WellFormed old)
include h

/-- A reference frame is short-term or long-term. -/
theorem RefVideo.WellFormed.kind (hf : f ∈ v.fs) :
    f.IsReference = 3 → f.frame.isLongTerm = false → f.isShort := by
  intro href hno
  rw [h.picture f hf href, AVCFrameStore.isLong, beq_eq_false_iff_ne] at hno
  rcases h.marks f hf with hmark | ⟨hmark, _⟩
  · exact isShort_iff.mpr ⟨href, hmark⟩
  · exact absurd hmark hno

theorem RefVideo.WellFormed.isLongTerm_short
    (hf : f ∈ v.fs) (hs : f.isShort) : f.frame.isLongTerm = false := by
  rw [h.picture f hf (isShort_iff.mp hs).1, AVCFrameStore.isLong, (isShort_iff.mp hs).2]
  rfl

theorem RefVideo.WellFormed.isLongTerm_long
    (hf : f ∈ v.fs) (hl : f.isLong) : f.IsReference = 3 ∧ f.frame.isLongTerm = true := by
  have hmark : f.IsLongTerm = 3 := beq_iff_eq.mp hl
  rcases h.marks f hf with hzero | ⟨_, href⟩
  · omega
  · exact ⟨href, by rw [h.picture f hf href, hl]⟩

theorem RefVideo.WellFormed.getShortTermPic (hn : v.Renumbered w)
    (hc : c ∈ v.shorts) : GetShortTermPic w (v.shortNum c) = some c := by
  obtain ⟨f, hf, hs⟩ := mem_indicesOf.mp hc
  obtain ⟨g, hg, href, hlt, hnum, _⟩ := hn.frames c f hf
  obtain ⟨hcl, rfl⟩ := List.getElem?_eq_some_iff.mp hg
  refine findIdx?_eq_some_iff_getElem.mpr ⟨hcl, ?_, ?_⟩
  · rw [href, hlt, hnum hs, (isShort_iff.mp hs).1,
      h.isLongTerm_short (mem_of_getElem? hf) hs]
    simp
  · intro j hj hfound
    have hjv : j < v.fs.length := hn.length ▸ hj.trans hcl
    obtain ⟨g, hgj, hrefj, hltj, hnumj, _⟩ := hn.frames j _ (getElem?_eq_getElem hjv)
    obtain ⟨_, rfl⟩ := List.getElem?_eq_some_iff.mp hgj
    rw [Bool.and_eq_true, Bool.and_eq_true, beq_iff_eq, beq_iff_eq, beq_iff_eq, hrefj,
      hltj] at hfound
    obtain ⟨hr3, hnolong, heq⟩ := hfound
    have hsj := h.kind (getElem_mem hjv) hr3 hnolong
    have hmem : j ∈ v.shorts := mem_indicesOf.mpr ⟨_, getElem?_eq_getElem hjv, hsj⟩
    have := h.shortNum_inj hmem hc ((hnumj hsj).symm.trans heq)
    omega

theorem RefVideo.WellFormed.getLongTermPic (hn : v.Renumbered w)
    (hc : c ∈ v.longs) : GetLongTermPic w (v.longNum c) = some c := by
  obtain ⟨f, hf, hl⟩ := mem_indicesOf.mp hc
  obtain ⟨g, hg, href, hlt, _, hnum⟩ := hn.frames c f hf
  obtain ⟨hcl, rfl⟩ := List.getElem?_eq_some_iff.mp hg
  obtain ⟨hr3, hlong⟩ := h.isLongTerm_long (mem_of_getElem? hf) hl
  refine findIdx?_eq_some_iff_getElem.mpr ⟨hcl, ?_, ?_⟩
  · rw [href, hlt, hnum hl, hr3, hlong]
    simp
  · intro j hj hfound
    have hjv : j < v.fs.length := hn.length ▸ hj.trans hcl
    obtain ⟨g, hgj, hrefj, hltj, _, hnumj⟩ := hn.frames j _ (getElem?_eq_getElem hjv)
    obtain ⟨_, rfl⟩ := List.getElem?_eq_some_iff.mp hgj
    rw [Bool.and_eq_true, Bool.and_eq_true, beq_iff_eq, beq_iff_eq, beq_iff_eq, hrefj,
      hltj] at hfound
    obtain ⟨hr, hlj, heq⟩ := hfound
    rw [h.picture _ (getElem_mem hjv) hr] at hlj
    have hmem : j ∈ v.longs := mem_indicesOf.mpr ⟨_, getElem?_eq_getElem hjv, hlj⟩
    have := h.longNum_inj hmem hc ((hnumj hlj).symm.trans heq)
    omega

/-- The picture of a frame store is there, and it is marked and numbered as the frame store says. -/
theorem RefVideo.WellFormed.pic_ref (hn : v.Renumbered w)
    (hx : x ∈ v.initialList) : ∃ p, w.pic x = some p ∧
      (x ∈ v.shorts ∧ p.isLongTerm = false ∧ p.PicNum = v.shortNum x ∨
        x ∈ v.longs ∧ p.isLongTerm = true ∧ p.LongTermPicNum = v.longNum x) := by
  rcases mem_initialList.mp hx with hs | hl
  · obtain ⟨f, hf, hfs⟩ := mem_indicesOf.mp hs
    obtain ⟨g, hg, _, hlt, hnum, _⟩ := hn.frames x f hf
    exact ⟨g.frame, by rw [pic, hg, map_some],
      Or.inl ⟨hs, hlt.trans (h.isLongTerm_short (mem_of_getElem? hf) hfs), hnum hfs⟩⟩
  · obtain ⟨f, hf, hfl⟩ := mem_indicesOf.mp hl
    obtain ⟨g, hg, _, hlt, _, hnum⟩ := hn.frames x f hf
    exact ⟨g.frame, by rw [pic, hg, map_some],
      Or.inr ⟨hl, hlt.trans (h.isLongTerm_long (mem_of_getElem? hf) hfl).2, hnum hfl⟩⟩

end

theorem RefVideo.Renumbered.pic_filled (hn : v.Renumbered w) (hx : x < v.fs.length) :
    ∃ p, w.pic x = some p := by
  obtain ⟨g, hg, _⟩ := hn.frames x _ (getElem?_eq_getElem hx)
  exact ⟨g.frame, by rw [pic, hg, map_some]⟩

theorem not_short_and_long (hs : x ∈ v.shorts) (hl : x ∈ v.longs) : False := by
  obtain ⟨f, hf, hfs⟩ := mem_indicesOf.mp hs
  obtain ⟨g, hg, hgl⟩ := mem_indicesOf.mp hl
  rw [hf, some.injEq] at hg
  rw [hg, not_short_of_long hgl] at hfs
  exact Bool.false_ne_true hfs

theorem RefVideo.WellFormed.keepShortTerm (h : v.WellFormed old) (hn : v.Renumbered w)
    (hc : c ∈ v.shorts) : v.Keeps (keepShortTerm w (v.shortNum c)) c := by
  constructor
  · intro x hx
    obtain ⟨p, hp⟩ := hn.pic_filled hx
    exact ⟨_, by rw [Avc.keepShortTerm, elim_some, hp, map_some]⟩
  · intro x hx
    obtain ⟨p, hp, hkind⟩ := h.pic_ref hn hx
    rw [Avc.keepShortTerm, elim_some, hp, map_some, Option.some.injEq]
    rcases hkind with ⟨hs, hlt, hnum⟩ | ⟨hl, hlt, _⟩
    · rw [hlt, hnum, Bool.false_or, Bool.eq_iff_iff, bne_iff_ne, decide_eq_true_eq]
      exact not_congr ⟨fun he => h.shortNum_inj hs hc he, fun he => by rw [he]⟩
    · rw [hlt, Bool.true_or, eq_comm, decide_eq_true_eq]
      intro he
      exact not_short_and_long hc (he ▸ hl)

theorem RefVideo.WellFormed.keepLongTerm (h : v.WellFormed old) (hn : v.Renumbered w)
    (hc : c ∈ v.longs) : v.Keeps (keepLongTerm w (v.longNum c)) c := by
  constructor
  · intro x hx
    obtain ⟨p, hp⟩ := hn.pic_filled hx
    exact ⟨_, by rw [Avc.keepLongTerm, bind_some, hp, map_some]⟩
  · intro x hx
    obtain ⟨p, hp, hkind⟩ := h.pic_ref hn hx
    rw [Avc.keepLongTerm, bind_some, hp, map_some, Option.some.injEq]
    rcases hkind with ⟨hs, hlt, _⟩ | ⟨hl, hlt, hnum⟩
    · rw [hlt, Bool.not_false, Bool.true_or, eq_comm, decide_eq_true_eq]
      intro he
      exact not_short_and_long (he ▸ hs) hc
    · rw [hlt, hnum, Bool.not_true, Bool.false_or, Bool.eq_iff_iff, bne_iff_ne, decide_eq_true_eq]
      exact not_congr ⟨fun he => h.longNum_inj hl hc he, fun he => by rw [he]⟩

end Found

/-! ## 3. One command -/

section Step

variable {v w : RefVideo} {old cmds : List Nat}

theorem wrapped_emod (cur max : Nat) (n : Int) :
    wrapped cur max (n % max) = wrapped cur max n := by
  have h : ((cur : Int) - n % max) % max = (cur - n) % max := by simp
  rw [wrapped, wrapped, h]

/-- The predicted number stays the sum of the differences, modulo the number of numbers. -/
theorem picNumNoWrap_eq {l : Reordering} {i cur max : Nat} (hmax : 0 < max)
    (hidc : l.reordering_of_pic_nums_idc i < 2) (hdiff : l.abs_diff_pic_num_minus1 i + 1 ≤ max) :
    picNumNoWrap max ((cur + l.offset i) % max) (l.reordering_of_pic_nums_idc i)
      (l.abs_diff_pic_num_minus1 i) = (cur + l.offset (i + 1)) % max := by
  have hlo : 0 ≤ (cur + l.offset i) % (max : Int) := Int.emod_nonneg _ (by omega)
  have hhi : (cur + l.offset i) % (max : Int) < max := Int.emod_lt_of_pos _ (by omega)
  have hsum : ∀ d : Int,
      (cur + (l.offset i + d)) % max = ((cur + l.offset i) % max + d) % max :=
    fun d => by rw [Int.emod_add_emod, Int.add_assoc]
  rw [picNumNoWrap, Reordering.offset]
  generalize ((cur : Int) + l.offset i) % max = pred at hlo hhi hsum
  by_cases h0 : l.reordering_of_pic_nums_idc i = 0
  · rw [if_pos h0, if_pos h0, hsum]
    split
    · rw [← Int.add_emod_right, Int.emod_eq_of_lt (by omega) (by omega)]
      omega
    · rw [Int.emod_eq_of_lt (by omega) (by omega)]
      omega
  · rw [if_neg h0, if_neg h0, if_pos (show l.reordering_of_pic_nums_idc i = 1 by omega), hsum]
    split
    · rw [← Int.sub_emod_right, Int.emod_eq_of_lt (by omega) (by omega)]
    · rw [Int.emod_eq_of_lt (by omega) (by omega)]

/-- **The command that names a picture** puts it in; both kinds keep the same of the references,
    and differ on a NULL pointer. -/
theorem RefVideo.WellFormed.command_eq (h : v.WellFormed old) (hl : v.Legal cmds)
    (hn : v.Renumbered w) {i : Nat} (hc : cmds[i]? = some c) (refIdxLX : Nat) :
    ∃ keep, v.Keeps keep c ∧
      keep none = (if v.sliceHdr.l0.reordering_of_pic_nums_idc i = 2 then none else some false) ∧
      reorderCommand w i refIdxLX ((v.CurrPicNum + v.sliceHdr.l0.offset i) % v.MaxPicNum) =
        (reorderPic (some c) keep w refIdxLX,
          (v.CurrPicNum + v.sliceHdr.l0.offset (i + 1)) % v.MaxPicNum) := by
  obtain ⟨hcur, hmax⟩ := hn.picNum
  have hicmds : i < cmds.length := (List.getElem?_eq_some_iff.mp hc).1
  rcases hl.names i c hc with ⟨hidc, hcs, hnum⟩ | ⟨hidc, hcl, hnum⟩
  · have hcurlt : v.CurrPicNum < v.MaxPicNum := by
      rw [h.picNum.1, h.picNum.2]
      exact h.frame_num
    have hwrap : picNumWrap v.MaxPicNum v.CurrPicNum
        ((v.CurrPicNum + v.sliceHdr.l0.offset (i + 1)) % v.MaxPicNum) = v.shortNum c := by
      rw [picNumWrap, ← wrapped_eq hcurlt
        ⟨Int.emod_nonneg _ (by omega), Int.emod_lt_of_pos _ (by omega)⟩, wrapped_emod, hnum,
        RefVideo.commandNum]
    refine ⟨_, h.keepShortTerm hn hcs, ?_, ?_⟩
    · rw [if_neg (by omega)]
      rfl
    · rw [reorderCommand]
      simp only [hn.header, hcur, hmax]
      rw [if_pos hidc, picNumNoWrap_eq (by omega) hidc (hl.diff i hicmds hidc), hwrap,
        ReorderShortTerm, h.getShortTermPic hn hcs]
  · refine ⟨_, h.keepLongTerm hn hcl, ?_, ?_⟩
    · rw [if_pos hidc]
      rfl
    · have hoff : v.sliceHdr.l0.offset (i + 1) = v.sliceHdr.l0.offset i := by
        rw [Reordering.offset, if_neg (by omega), if_neg (by omega), Int.add_zero]
      rw [reorderCommand]
      simp only [hn.header]
      rw [if_neg (by omega), ← hnum, ReorderLongTerm, h.getLongTermPic hn hcl, hoff]

/-- The array before the `j`-th command: the pictures commanded so far, and the filled slots
    `X` behind them, with the pictures that are left in front. `f` slots were filled at first, and
    `T` is what the commands do not reach. -/
structure RefVideo.Window (v : RefVideo) (f : Nat) (T : List (Option Nat)) (cmds : List Nat)
    (j : Nat) (list : List (Option Nat)) (X : List Nat) : Prop where
  list : list = (cmds.take j).map some ++ padded X (v.active + 1 - j) ++ T
  length : X.length = min f (v.active + 1 - j)
  left : v.remaining (cmds.take j) <+: X
  pointers : ∀ x ∈ X, x < v.fs.length

/-- Taking one entry out of a list without repetitions leaves all but one of the first ones. -/
theorem take_filter_ne {X : List Nat} (hX : X.Nodup) (c n : Nat) :
    ((X.take (n + 1)).filter (fun x => decide (x ≠ c))).take n =
      (X.filter (fun x => decide (x ≠ c))).take n := by
  induction X generalizing n with
  | nil => rw [take_nil]
  | cons x X ih =>
    rw [nodup_cons] at hX
    rw [take_succ_cons]
    by_cases hx : x = c
    · have hall : ∀ l : List Nat, l ⊆ X → l.filter (fun y => decide (y ≠ c)) = l := fun l hl => by
        rw [filter_eq_self]
        intro y hy
        rw [decide_eq_true_eq]
        intro hyc
        exact hX.1 (hx ▸ hyc ▸ hl hy)
      rw [filter_cons_of_neg (by simp [hx]), filter_cons_of_neg (by simp [hx]),
        hall _ (take_subset n X), hall X (Subset.refl X), take_take, Nat.min_self]
    · rw [filter_cons_of_pos (by simp [hx]), filter_cons_of_pos (by simp [hx])]
      cases n with
      | zero => rfl
      | succ n => rw [take_succ_cons, take_succ_cons, ih hX.2]

/-- What is left after one more command. -/
theorem RefVideo.remaining_concat (v : RefVideo) {done : List Nat} (c : Nat)
    (hlt : done.length < v.active) :
    v.remaining (done ++ [c]) =
      ((v.remaining done).filter (fun x => decide (x ≠ c))).take
        (v.active - (done.length + 1)) := by
  have hnodup : ((v.initialList.take v.active).filter (fun x => decide (x ∉ done))).Nodup :=
    (nodup_initialList.sublist (take_sublist _ _)).filter _
  have hcount : v.active - done.length = v.active - (done.length + 1) + 1 := by omega
  have hfilter : (v.initialList.take v.active).filter (fun x => decide (x ∉ done ++ [c])) =
      ((v.initialList.take v.active).filter (fun x => decide (x ∉ done))).filter
        (fun x => decide (x ≠ c)) := by
    rw [List.filter_filter]
    refine filter_congr fun x _ => ?_
    rw [Bool.eq_iff_iff]
    simp only [decide_eq_true_eq, Bool.and_eq_true, mem_append, mem_singleton, not_or,
      and_comm]
  rw [remaining, remaining, hcount, take_filter_ne hnodup, length_append,
    length_singleton, hfilter]

theorem mem_remaining {done : List Nat} (h : x ∈ v.remaining done) :
    x ∈ v.initialList :=
  mem_of_mem_take (mem_of_mem_filter (mem_of_mem_take h))

variable {f j c : Nat} {T : List (Option Nat)} {X : List Nat} {keep : Option Nat → Option Bool}

section

variable (hw : v.Window f T cmds j w.RefPicList0 X)
include hw

/-- The picture goes in front of what is behind the commanded ones, and the slots behind it are
    examined. -/
theorem RefVideo.Window.placed (hjc : j < cmds.length)
    (hhdr : w.sliceHdr = v.sliceHdr) (hact : v.active < MAX_REF_PIC_LIST) {m : Nat}
    (hm : v.active = j + m) :
    X.length = min f (m + 1) ∧ reorderPic (some c) keep w j =
      (compactLoop keep m (j + 1) (j + 1)
        ((cmds.take j).map some ++ some c :: (padded (X.take m) m ++ T))).map fun list =>
          (.AVC_SUCCESS, { w with RefPicList0 := list }, j + 1) := by
  have hroom : v.active + 1 - j = m + 1 := by omega
  have hX := hw.length
  rw [hroom] at hX
  obtain ⟨z, hz⟩ := @padded_succ Nat X m (by omega)
  have hlist := hw.list
  rw [hroom, hz] at hlist
  have hshift := shiftUp_set ((cmds.take j).map some) (padded (X.take m) m) T z (some c)
  rw [length_map, length_take_of_le hjc.le, padded_length (length_take_le _ _), ← hm] at hshift
  have hsteps : v.sliceHdr.num_ref_idx_l0_active_minus1 + 1 - j = m := by
    rw [RefVideo.active] at hm
    omega
  refine ⟨hX, ?_⟩
  rw [reorderPic, elim_some]
  simp only [hhdr]
  rw [RefVideo.active] at hact hshift
  rw [if_neg (by omega), hsteps, hlist, append_assoc, append_assoc, singleton_append,
    ← append_assoc, hshift]

/-- **A command keeps the order of the array**, unless it comes upon an empty slot that it cannot
    examine. -/
theorem RefVideo.Window.step (hc : cmds[j]? = some c)
    (hk : v.Keeps keep c) (hhdr : w.sliceHdr = v.sliceHdr) (hact : v.active < MAX_REF_PIC_LIST)
    (hj : j < v.active) (hnull : (keep none).getD false = false)
    (hfull : keep none = some false ∨ v.active ≤ f + j) :
    ∃ list' X', reorderPic (some c) keep w j =
        some (.AVC_SUCCESS, { w with RefPicList0 := list' }, j + 1) ∧
      v.Window f T cmds (j + 1) list' X' := by
  have hjc := (List.getElem?_eq_some_iff.mp hc).1
  obtain ⟨m, hm⟩ : ∃ m, v.active = j + m := ⟨v.active - j, by omega⟩
  obtain ⟨hX, hplaced⟩ := hw.placed hjc hhdr hact hm
  have hnext : (cmds.take (j + 1)).map some = (cmds.take j).map some ++ [some c] := by
    rw [take_add_one, hc, toList_some, map_append, map_singleton]
  -- every slot behind it can be examined
  have hexam : ∀ e ∈ padded (X.take m) m, keep e = some ((keep e).getD false) := by
    intro e he
    rcases mem_append.mp he with he | he
    · obtain ⟨x, hx, rfl⟩ := mem_map.mp he
      obtain ⟨b, hb⟩ := hk.filled x (hw.pointers x (mem_of_mem_take hx))
      rw [hb, getD_some]
    · obtain ⟨hne, rfl⟩ := mem_replicate.mp he
      rw [length_take] at hne
      rcases hfull with hskip | hfull
      · rw [hskip, getD_some]
      · omega
  have hcompact := compactLoop_eq ((cmds.take (j + 1)).map some) (padded (X.take m) m) T hexam
  have hclosed : compacted (fun e => (keep e).getD false) (padded (X.take m) m) =
      padded (compacted (fun x => (keep (some x)).getD false) (X.take m)) m :=
    compacted_padded _ _ hnull fun _ _ => rfl
  have hnextlen : ((cmds.take (j + 1)).map some).length = j + 1 := by
    rw [length_map, length_take_of_le hjc]
  rw [hnextlen, padded_length (length_take_le _ _), hclosed, hnext, append_assoc,
    append_assoc, singleton_append] at hcompact
  refine ⟨_, compacted (fun x => (keep (some x)).getD false) (X.take m), ?_, rfl, ?_, ?_, ?_⟩
  · have hrest : v.active + 1 - (j + 1) = m := by omega
    rw [hplaced, hcompact, map_some, hnext, hrest, append_assoc, append_assoc, singleton_append]
  · rw [compacted_length, length_take, hX]
    omega
  · have hleft : v.remaining (cmds.take j) <+: X.take m :=
      prefix_take_iff.mpr ⟨hw.left, by
        rw [remaining, length_take_of_le hjc.le]
        exact (length_take_le _ _).trans (by omega)⟩
    have hsame : (v.remaining (cmds.take j)).filter (fun x => decide (x ≠ c)) =
        (v.remaining (cmds.take j)).filter (fun x => (keep (some x)).getD false) :=
      filter_congr fun x hx => by rw [hk.refs x (mem_remaining hx), getD_some]
    have hone : cmds.take (j + 1) = cmds.take j ++ [c] := by
      rw [take_add_one, hc, toList_some]
    rw [hone, v.remaining_concat c (by rwa [length_take_of_le hjc.le]), hsame]
    exact ( take_prefix _ _).trans ( compacted_prefix hleft)
  · intro x hx
    exact hw.pointers x (mem_of_mem_take (mem_compacted hx))

/-- **A slot that is empty below the size of the list** stops a command that follows every
    pointer. -/
theorem RefVideo.Window.stuck (hc : cmds[j]? = some c)
    (hhdr : w.sliceHdr = v.sliceHdr) (hact : v.active < MAX_REF_PIC_LIST)
    (hnull : keep none = none) (hempty : f + j < v.active) :
    reorderPic (some c) keep w j = none := by
  have hjc := (List.getElem?_eq_some_iff.mp hc).1
  obtain ⟨m, hm⟩ : ∃ m, v.active = j + m := ⟨v.active - j, by omega⟩
  obtain ⟨hX, hplaced⟩ := hw.placed hjc hhdr hact hm
  have htake : (cmds.take j).length = j := length_take_of_le hjc.le
  have hslot : ((cmds.take j).map some ++ some c :: (padded (X.take m) m ++ T))[j + 1 + f]? =
      some none := by
    rw [getElem?_append_right (by rw [length_map, htake]; omega), length_map, htake,
      show j + 1 + f - j = f + 1 by omega, getElem?_cons_succ,
      getElem?_append_left (by rw [padded_length (length_take_le _ _)]; omega),
      getElem?_padded (by omega), getElem?_eq_none (by rw [length_take]; omega)]
  rw [hplaced, compactLoop_stuck m (j + 1) (j + 1) _ le_rfl (by omega) (by omega) hslot hnull,
    map_none]

end

end Step

/-! ## 4. The commands one after the other -/

section Run

variable {v w : RefVideo} {old cmds : List Nat} {f : Nat} {T : List (Option Nat)} {X : List Nat}

theorem RefVideo.Renumbered.withList (hn : v.Renumbered w) (list : List (Option Nat)) :
    v.Renumbered { w with RefPicList0 := list } :=
  ⟨hn.header, hn.picNum, hn.frames, hn.length⟩

theorem RefVideo.Legal.idc_lt (hl : v.Legal cmds) {i : Nat} (hc : cmds[i]? = some c) :
    v.sliceHdr.l0.reordering_of_pic_nums_idc i < 3 := by
  rcases hl.names i c hc with ⟨h, _⟩ | ⟨h, _⟩ <;> omega

section

variable (h : v.WellFormed old)
include h

theorem RefVideo.WellFormed.active_le : v.active ≤ 16 := by
  have := h.active
  rw [RefVideo.active]
  omega

/-- The turn of the loop for a command. -/
theorem RefVideo.WellFormed.loop_command (hl : v.Legal cmds)
    (hn : v.Renumbered w) {j : Nat} (hc : cmds[j]? = some c) (fuel refIdxLX : Nat) (pred : Int) :
    reorderLoop (fuel + 1) j refIdxLX pred w =
      (reorderCommand w j refIdxLX pred).1.bind fun s =>
        if s.1 = .AVC_SUCCESS then
          reorderLoop fuel (j + 1) s.2.2 (reorderCommand w j refIdxLX pred).2 s.2.1
        else some (s.1, s.2.1) := by
  have hidc := hl.idc_lt hc
  have hcount := hl.count
  have hact := h.active_le
  have hj := (List.getElem?_eq_some_iff.mp hc).1
  rw [reorderLoop]
  simp only [hn.header]
  rw [if_neg (by omega), if_neg (by rw [MAX_REF_PIC_LIST_REORDERING]; omega)]

/-- **All the commands**, where no long-term command comes upon an empty slot: by induction on the
    commands that are left. -/
theorem RefVideo.WellFormed.loop_eq (hl : v.Legal cmds)
    (hfull : ∀ i < cmds.length, v.sliceHdr.l0.reordering_of_pic_nums_idc i = 2 → v.active ≤ f + i)
    (n : Nat) {j fuel : Nat} (hcount : cmds.length = j + n) (hfuel : n < fuel)
    (hn : v.Renumbered w) (hw : v.Window f T cmds j w.RefPicList0 X) :
    ∃ w' X', reorderLoop fuel j j ((v.CurrPicNum + v.sliceHdr.l0.offset j) % v.MaxPicNum) w =
        some (.AVC_SUCCESS, w') ∧
      w'.refList0Size = v.active ∧ v.Window f T cmds cmds.length w'.RefPicList0 X' := by
  induction n generalizing j fuel w X with
  | zero =>
    obtain ⟨fuel, rfl⟩ := Nat.exists_eq_add_one_of_ne_zero (Nat.ne_of_gt hfuel)
    have hterm := hl.terminator
    rw [hcount, Nat.add_zero] at hterm
    refine ⟨{ w with refList0Size := v.active }, X, ?_, rfl, ?_⟩
    · rw [reorderLoop]
      simp only [hn.header]
      rw [if_pos hterm, RefVideo.active]
    · rw [hcount, Nat.add_zero]
      exact hw
  | succ n ih =>
    obtain ⟨fuel, rfl⟩ := Nat.exists_eq_add_one_of_ne_zero (Nat.ne_of_gt (Nat.zero_lt_of_lt hfuel))
    have hjc : j < cmds.length := by omega
    have hc := getElem?_eq_getElem hjc
    have hle := hl.count
    have hact := h.active_le
    obtain ⟨keep, hk, hnone, hcmd⟩ := h.command_eq hl hn hc j
    have hnull : (keep none).getD false = false := by
      rw [hnone]
      split <;> rfl
    have hok : keep none = some false ∨ v.active ≤ f + j := by
      rw [hnone]
      split
      case isTrue hlong => exact Or.inr (hfull j hjc hlong)
      case isFalse => exact Or.inl rfl
    obtain ⟨list', X', hstep, hw'⟩ := hw.step hc hk hn.header
      (by rw [MAX_REF_PIC_LIST]; omega) (by omega) hnull hok
    obtain ⟨w', X'', hrun, hend⟩ :=
      ih (by omega) (Nat.lt_of_succ_lt_succ hfuel) (hn.withList list') hw'
    refine ⟨w', X'', ?_, hend⟩
    rw [h.loop_command hl hn hc, hcmd]
    simp only
    rw [hstep, bind_some, if_pos rfl]
    exact hrun

/-- **A long-term command that comes upon an empty slot** ends the decoder. -/
theorem RefVideo.WellFormed.loop_stuck (hl : v.Legal cmds) {i : Nat}
    (hi : i < cmds.length) (hlong : v.sliceHdr.l0.reordering_of_pic_nums_idc i = 2)
    (hempty : f + i < v.active) (n : Nat) {j fuel : Nat} (hcount : i = j + n) (hfuel : n < fuel)
    (hn : v.Renumbered w) (hw : v.Window f T cmds j w.RefPicList0 X) :
    reorderLoop fuel j j ((v.CurrPicNum + v.sliceHdr.l0.offset j) % v.MaxPicNum) w = none := by
  induction n generalizing j fuel w X with
  | zero =>
    obtain ⟨fuel, rfl⟩ := Nat.exists_eq_add_one_of_ne_zero (Nat.ne_of_gt hfuel)
    rw [Nat.add_zero] at hcount
    rw [hcount] at hi hlong hempty
    have hc := getElem?_eq_getElem hi
    have hact := h.active_le
    obtain ⟨keep, hk, hnone, hcmd⟩ := h.command_eq hl hn hc j
    rw [if_pos hlong] at hnone
    rw [h.loop_command hl hn hc, hcmd]
    simp only
    rw [hw.stuck hc hn.header (by rw [MAX_REF_PIC_LIST]; omega) hnone hempty, bind_none]
  | succ n ih =>
    obtain ⟨fuel, rfl⟩ := Nat.exists_eq_add_one_of_ne_zero (Nat.ne_of_gt (Nat.zero_lt_of_lt hfuel))
    have hjc : j < cmds.length := by omega
    have hc := getElem?_eq_getElem hjc
    have hact := h.active_le
    obtain ⟨keep, hk, hnone, hcmd⟩ := h.command_eq hl hn hc j
    rw [h.loop_command hl hn hc, hcmd]
    simp only
    by_cases hj : v.sliceHdr.l0.reordering_of_pic_nums_idc j = 2
    · rw [if_pos hj] at hnone
      rw [hw.stuck hc hn.header (by rw [MAX_REF_PIC_LIST]; omega) hnone (by omega),
        bind_none]
    · rw [if_neg hj] at hnone
      obtain ⟨list', X', hstep, hw'⟩ := hw.step hc hk hn.header
        (by rw [MAX_REF_PIC_LIST]; omega) (by have := hl.count; omega)
        (by rw [hnone]; rfl) (Or.inl hnone)
      rw [hstep, bind_some, if_pos rfl]
      exact ih (by omega) (Nat.lt_of_succ_lt_succ hfuel) (hn.withList list') hw'

end

end Run

/-! ## 5. The lists that the code makes -/

section Lists

variable {v w : RefVideo} {old cmds : List Nat}

/-- The filled slots after the initialisation. -/
def RefVideo.slots (v : RefVideo) (old : List Nat) : List Nat :=
  v.written ++ old.drop v.written.length

theorem slots_length : (v.slots old).length = max old.length v.written.length := by
  rw [RefVideo.slots, length_append, length_drop]
  omega

theorem written_of_short (h : v.shorts ≠ []) : v.written = v.initialList := by
  rw [written, front, if_neg h, initialList]

/-- Where no short-term frame is there, the first frame store is in front of the list. -/
theorem written_of_none (h : v.shorts = []) : v.written = 0 :: v.initialList := by
  rw [written, front, if_pos h, initialList, h, insertionSort_nil,
    nil_append, singleton_append]

theorem RefVideo.WellFormed.initialList_ne_nil (h : v.WellFormed old) : v.initialList ≠ [] := by
  obtain ⟨f, hf, href⟩ := h.reference
  obtain ⟨i, hi⟩ := mem_iff_getElem?.mp hf
  have hmem : i ∈ v.initialList := by
    rw [mem_initialList]
    rcases h.marks f hf with hmark | ⟨hmark, _⟩
    · exact Or.inl (mem_indicesOf.mpr ⟨f, hi, isShort_iff.mpr ⟨href, hmark⟩⟩)
    · exact Or.inr (mem_indicesOf.mpr ⟨f, hi, beq_iff_eq.mpr hmark⟩)
  exact ne_nil_of_mem hmem

/-- An entry in front of a list changes its first entries, but for one case. -/
theorem cons_take_eq_iff {L : List Nat} {a n : Nat} (hL : L ≠ []) (hnodup : L.Nodup) (hn : 0 < n) :
    (a :: L).take n = L.take n ↔ n = 1 ∧ L.head? = some a := by
  obtain ⟨b, L, rfl⟩ := exists_cons_of_ne_nil hL
  obtain ⟨n, rfl⟩ := Nat.exists_eq_add_one_of_ne_zero (Nat.ne_of_gt hn)
  rw [take_succ_cons, take_succ_cons, cons.injEq, head?_cons,
    some.injEq]
  constructor
  · intro ⟨hab, htail⟩
    refine ⟨?_, hab.symm⟩
    cases n with
    | zero => rfl
    | succ n =>
      cases L with
      | nil => simp at htail
      | cons c L =>
        rw [take_succ_cons, take_succ_cons, cons.injEq] at htail
        rw [← htail.1] at hnodup
        exact absurd mem_cons_self (nodup_cons.mp hnodup).1
  · intro ⟨hn1, hab⟩
    have hzero : n = 0 := by omega
    rw [hzero]
    exact ⟨hab.symm, rfl⟩

theorem RefVideo.WellFormed.init_list0 (h : v.WellFormed old) :
    (RefListInit v).list0 = (v.written.take v.active).map some := by
  have hle := h.written_length_le
  have hmin : min v.written.length v.active ≤ v.written.length := Nat.min_le_left _ _
  have hlen : (v.written.take (min v.written.length v.active)).length =
      min v.written.length v.active := by
    rw [length_take]
    omega
  have hcut : v.written.take (min v.written.length v.active) = v.written.take v.active := by
    rw [take_eq_take_iff]
    omega
  rw [h.init_eq, list0]
  simp only
  rw [← RefVideo.active, take_padded _ (by omega), take_append_of_le_length hmin, padded, hlen,
    Nat.sub_self, replicate_zero, append_nil, hcut]

/-- **When the initial list is right**: a short-term frame is there, or the one entry that is
    asked for is the first frame store anyway. -/
theorem RefVideo.WellFormed.init_right_iff (h : v.WellFormed old) :
    (RefListInit v).list0 = (v.initialList.take v.active).map some ↔
      v.shorts ≠ [] ∨ v.active = 1 ∧ v.initialList.head? = some 0 := by
  rw [h.init_list0, (map_injective_iff.mpr (some_injective Nat)).eq_iff]
  by_cases hs : v.shorts = []
  · rw [written_of_none hs, cons_take_eq_iff h.initialList_ne_nil nodup_initialList
      (show 0 < v.active from Nat.succ_pos _)]
    constructor
    · intro hr
      exact Or.inr hr
    · intro hr
      exact hr.resolve_left (fun hne => hne hs)
  · rw [written_of_short hs]
    exact ⟨fun _ => Or.inl hs, fun _ => rfl⟩

/-- The initialisation numbers the pictures; the fallback marks no frame that was not marked. -/
theorem RefVideo.WellFormed.renumbered (h : v.WellFormed old)
    (hright : v.shorts ≠ [] ∨ v.active = 1 ∧ v.initialList.head? = some 0) :
    v.Renumbered (RefListInit v) := by
  rw [h.init_eq]
  refine ⟨rfl, ⟨rfl, rfl⟩, ?_, initFs_length⟩
  intro i f hf
  obtain ⟨g, hg, href, _, hlt, hnums⟩ := h.getElem?_initFs hf
  refine ⟨g, hg, ?_, hlt, hnums⟩
  rw [href]
  split
  case isFalse => rfl
  case isTrue hfirst =>
    obtain ⟨hs, rfl⟩ := hfirst
    have hhead := (hright.resolve_left (fun hne => hne hs)).2
    have hmem : 0 ∈ v.initialList := mem_of_mem_head? hhead
    rw [mem_initialList, hs] at hmem
    obtain ⟨g', hg', hl⟩ := mem_indicesOf.mp (hmem.resolve_left not_mem_nil)
    rw [hf, some.injEq] at hg'
    rw [hg']
    exact (h.isLongTerm_long (mem_of_getElem? (hg' ▸ hf)) hl).1.symm

/-- Before the first command the whole initial list is left. -/
theorem remaining_nil : v.remaining [] = v.initialList.take v.active := by
  rw [remaining, filter_eq_self.mpr (fun _ _ => decide_eq_true not_mem_nil),
    length_nil, Nat.sub_zero, take_take, Nat.min_self]

theorem RefVideo.WellFormed.finalList_pos (h : v.WellFormed old) (cmds : List Nat) :
    0 < cmds.length + (v.remaining cmds).length := by
  cases cmds with
  | nil =>
    have hne := length_pos_iff.mpr h.initialList_ne_nil
    rw [remaining_nil, length_take, RefVideo.active]
    omega
  | cons c cmds =>
    rw [length_cons]
    omega

/-- The array before the first command. -/
theorem RefVideo.WellFormed.window (h : v.WellFormed old)
    (hright : v.written.take v.active = v.initialList.take v.active) :
    v.Window (v.slots old).length
      ((padded (v.slots old) MAX_REF_PIC_LIST).drop (v.active + 1)) cmds 0
      (RefListInit v).RefPicList0 ((v.slots old).take (v.active + 1)) := by
  have hact := h.active_le
  constructor
  · rw [h.init_eq, take_zero, map_nil, nil_append, Nat.sub_zero,
      ← take_padded (v.slots old)
        (show v.active + 1 ≤ MAX_REF_PIC_LIST by rw [MAX_REF_PIC_LIST]; omega),
      take_append_drop]
    rfl
  · rw [length_take, Nat.sub_zero, Nat.min_comm]
  · have hnone : v.remaining (cmds.take 0) = v.initialList.take v.active := by
      rw [take_zero, remaining, filter_eq_self.mpr
        (fun _ _ => decide_eq_true not_mem_nil), length_nil, Nat.sub_zero,
        take_take, Nat.min_self]
    rw [hnone, ← hright, RefVideo.slots]
    refine prefix_take_iff.mpr ⟨( take_prefix _ _).trans (prefix_append _ _), ?_⟩
    exact (length_take_le _ _).trans (Nat.le_succ _)
  · intro x hx
    rcases mem_append.mp (mem_of_mem_take hx) with hx | hx
    · exact h.mem_written hx
    · exact h.pointers x (mem_of_mem_drop hx)

/-- The entries below the size of the list after the last command. -/
theorem RefVideo.Window.entries {f : Nat} {T : List (Option Nat)} {X : List Nat}
    {list : List (Option Nat)} (hw : v.Window f T cmds cmds.length list X)
    (hcount : cmds.length ≤ v.active) :
    list.take v.active = padded (cmds ++ X.take (v.active - cmds.length)) v.active := by
  obtain ⟨m, hm⟩ : ∃ m, v.active = cmds.length + m := ⟨v.active - cmds.length, by omega⟩
  have hX := hw.length
  have htake : (cmds.map some ++ padded X (m + 1) ++ T).take (cmds.length + m) =
      cmds.map some ++ padded (X.take m) m := by
    have hsplit : (cmds.map some).length = cmds.length := length_map _
    rw [append_assoc, ← hsplit, take_length_add_append,
      take_append_of_le_length (by rw [padded_length (by omega)]; omega),
      take_padded X (Nat.le_succ m)]
  have hroom : v.active + 1 - cmds.length = m + 1 := by omega
  have hleft : v.active - cmds.length = m := by omega
  rw [hw.list, take_length, hroom, hleft, hm, htake, padded, padded, length_append,
    map_append, Nat.add_sub_add_left, append_assoc]

theorem RefVideo.remaining_length_le (v : RefVideo) (done : List Nat) :
    (v.remaining done).length ≤ v.active - done.length :=
  length_take_le _ _

section

variable (h : v.WellFormed old)
include h

theorem RefVideo.WellFormed.start_num (hn : v.Renumbered w) :
    (v.CurrPicNum + v.sliceHdr.l0.offset 0) % (v.MaxPicNum : Int) = w.CurrPicNum := by
  have hlt : v.CurrPicNum < v.MaxPicNum := by
    rw [h.picNum.1, h.picNum.2]
    exact h.frame_num
  rw [hn.picNum.1, Reordering.offset, Int.add_zero, Int.emod_eq_of_lt (by omega) (by omega)]

theorem RefVideo.WellFormed.init_slice_type :
    (RefListInit v).slice_type ≠ AVC_I_SLICE := by
  rw [h.init_eq]
  simp only
  rw [h.slice_type]
  decide

/-- **Reordering, where no command is stuck**: the final list is in front, and behind it are as
    many stale entries as slots are filled. -/
theorem RefVideo.WellFormed.reorder_eq (hl : v.Legal cmds)
    (hflag : v.sliceHdr.l0.ref_pic_list_reordering_flag ≠ 0)
    (hright : v.shorts ≠ [] ∨ v.active = 1 ∧ v.initialList.head? = some 0)
    (hfull : ∀ i < cmds.length, v.sliceHdr.l0.reordering_of_pic_nums_idc i = 2 →
      v.active ≤ (v.slots old).length + i) :
    ∃ w X, ReOrderList (RefListInit v) = some (.AVC_SUCCESS, w) ∧
      w.list0 = padded (cmds ++ X.take (v.active - cmds.length)) v.active ∧
      v.remaining cmds <+: X ∧
      X.length = min (v.slots old).length (v.active + 1 - cmds.length) := by
  have hwritten := (h.init_list0.symm.trans (h.init_right_iff.mpr hright))
  rw [(map_injective_iff.mpr (some_injective Nat)).eq_iff] at hwritten
  have hn := h.renumbered hright
  have hcount := hl.count
  have hact := h.active_le
  obtain ⟨w, X, hrun, hsize, hw⟩ := h.loop_eq hl hfull cmds.length
    (Nat.zero_add _).symm
    (show cmds.length < MAX_REF_PIC_LIST_REORDERING + 1 by
      rw [MAX_REF_PIC_LIST_REORDERING]; omega) hn (h.window hwritten)
  rw [h.start_num hn] at hrun
  refine ⟨w, X, ?_, ?_, ?_, hw.length⟩
  · rw [ReOrderList, if_neg h.init_slice_type, hn.header, if_pos hflag, ReorderRefPicList, hrun,
      map_some, if_neg]
    rw [hsize, RefVideo.active]
    omega
  · rw [list0, hsize]
    exact hw.entries hcount
  · have hleft := hw.left
    rwa [take_length] at hleft

/-- **Reordering, where a command is stuck.** -/
theorem RefVideo.WellFormed.reorder_stuck (hl : v.Legal cmds)
    (hflag : v.sliceHdr.l0.ref_pic_list_reordering_flag ≠ 0)
    (hright : v.shorts ≠ [] ∨ v.active = 1 ∧ v.initialList.head? = some 0) {i : Nat}
    (hi : i < cmds.length) (hlong : v.sliceHdr.l0.reordering_of_pic_nums_idc i = 2)
    (hempty : (v.slots old).length + i < v.active) : ReOrderList (RefListInit v) = none := by
  have hwritten := (h.init_list0.symm.trans (h.init_right_iff.mpr hright))
  rw [(map_injective_iff.mpr (some_injective Nat)).eq_iff] at hwritten
  have hn := h.renumbered hright
  have hact := h.active_le
  have hstuck := h.loop_stuck hl hi hlong hempty i (Nat.zero_add _).symm
    (show i < MAX_REF_PIC_LIST_REORDERING + 1 by rw [MAX_REF_PIC_LIST_REORDERING]; omega) hn
    (h.window hwritten)
  rw [h.start_num hn] at hstuck
  rw [ReOrderList, if_neg h.init_slice_type, hn.header, if_pos hflag, ReorderRefPicList, hstuck,
    map_none]

end

/-! ## 6. When the lists are right -/

/-- The first condition: a short-term frame is there, or the list has the one entry that the
    fallback puts in, and each long-term command finds enough filled slots. -/
def RefVideo.Followed (v : RefVideo) (old cmds : List Nat) : Prop :=
  (v.shorts ≠ [] ∨ v.active = 1 ∧ v.initialList.head? = some 0) ∧
    (v.sliceHdr.l0.ref_pic_list_reordering_flag ≠ 0 → ∀ i < cmds.length,
      v.sliceHdr.l0.reordering_of_pic_nums_idc i = 2 →
        v.active ≤ max old.length v.initialList.length + i)

/-- The second condition: the final list is as long as the header says, or no more slots are
    filled than it needs. -/
def RefVideo.NothingStale (v : RefVideo) (old cmds : List Nat) : Prop :=
  v.sliceHdr.l0.ref_pic_list_reordering_flag ≠ 0 →
    v.active ≤ (v.finalList cmds).length ∨
      max old.length v.initialList.length + cmds.length ≤ (v.finalList cmds).length

/-- The slots that are filled: with a fallback that is right, the one entry is. -/
theorem RefVideo.WellFormed.filled_iff (h : v.WellFormed old)
    (hright : v.shorts ≠ [] ∨ v.active = 1 ∧ v.initialList.head? = some 0) :
    max old.length v.initialList.length = (v.slots old).length ∨
      v.active = 1 ∧ 1 ≤ max old.length v.initialList.length ∧ 1 ≤ (v.slots old).length := by
  by_cases hs : v.shorts = []
  · have hpos := length_pos_iff.mpr h.initialList_ne_nil
    refine Or.inr ⟨(hright.resolve_left (fun hne => hne hs)).1, by omega, ?_⟩
    rw [slots_length, written_of_none hs, length_cons]
    omega
  · exact Or.inl (by rw [slots_length, written_of_short hs])

/-- Nothing stale is behind the pictures that are left exactly where they fill the list, or no
    other slot is filled. -/
theorem take_eq_prefix_iff {R X : List Nat} {f n : Nat} (hpre : R <+: X)
    (hlen : X.length = min f (n + 1)) (hR : R.length ≤ n) :
    X.take n = R ↔ n ≤ R.length ∨ f ≤ R.length := by
  have hle := hpre.length_le
  have htake : R <+: X.take n := prefix_take_iff.mpr ⟨hpre, hR⟩
  constructor
  · intro h
    have hlength := congrArg length h
    rw [length_take] at hlength
    omega
  · intro h
    refine (htake.eq_of_length ?_).symm
    rw [length_take]
    omega

/-- Without commands the initial list stays. -/
theorem RefVideo.WellFormed.reorder_none (h : v.WellFormed old)
    (hflag : v.sliceHdr.l0.ref_pic_list_reordering_flag = 0) :
    ReOrderList (RefListInit v) = some (.AVC_SUCCESS, RefListInit v) := by
  have hhdr : (RefListInit v).sliceHdr = v.sliceHdr := by rw [h.init_eq]
  have hsize : (RefListInit v).refList0Size ≠ 0 := by
    have hpos : 0 < v.written.length := by
      have hne := length_pos_iff.mpr h.initialList_ne_nil
      by_cases hs : v.shorts = []
      · rw [written_of_none hs, length_cons]
        omega
      · rw [written_of_short hs]
        exact hne
    rw [h.init_eq]
    simp only
    omega
  rw [ReOrderList, if_neg h.init_slice_type, hhdr, if_neg (not_not.mpr hflag), map_some,
    if_neg (fun hc => hsize hc.2)]

/-- **The reference lists of a P slice**, for every content of the buffer and every list of
    commands that name reference pictures. The list of H.264 is there exactly where `Followed`
    holds, and it is the whole list exactly where nothing stale stands behind it either. -/
theorem ref_lists_iff (h : v.WellFormed old)
    (hl : v.sliceHdr.l0.ref_pic_list_reordering_flag ≠ 0 → v.Legal cmds) :
    (v.ListsBegin cmds ↔ v.Followed old cmds) ∧
      (v.ListsAre cmds ↔ v.Followed old cmds ∧ v.NothingStale old cmds) := by
  rw [RefVideo.ListsBegin, RefVideo.ListsAre, RefVideo.Followed, RefVideo.NothingStale]
  by_cases hright : v.shorts ≠ [] ∨ v.active = 1 ∧ v.initialList.head? = some 0
  case neg =>
    have hwrong := mt h.init_right_iff.mp hright
    exact ⟨⟨fun hb => absurd hb.1 hwrong, fun hf => absurd hf.1 hright⟩,
      ⟨fun hb => absurd hb.1 hwrong, fun hf => absurd hf.1.1 hright⟩⟩
  have hinit := h.init_right_iff.mpr hright
  by_cases hflag : v.sliceHdr.l0.ref_pic_list_reordering_flag = 0
  case pos =>
    have hlist : v.finalList cmds = v.initialList.take v.active := if_pos hflag
    have hentries : v.finalEntries cmds = (v.initialList.take v.active).map some := by
      rw [finalEntries, if_pos hflag, hlist]
    refine ⟨⟨fun _ => ⟨hright, fun hne => absurd hflag hne⟩, fun _ => ⟨hinit, _,
      h.reorder_none hflag, ?_⟩⟩, ⟨fun _ => ⟨⟨hright, fun hne => absurd hflag hne⟩,
      fun hne => absurd hflag hne⟩, fun _ => ⟨hinit, _, h.reorder_none hflag, ?_⟩⟩⟩
    · rw [hlist, hinit]
    · rw [hentries, hinit]
  have hlegal := hl hflag
  have hcount := hlegal.count
  have hlist : v.finalList cmds = cmds ++ v.remaining cmds := if_neg hflag
  have hentries : v.finalEntries cmds = padded (cmds ++ v.remaining cmds) v.active := by
    rw [finalEntries, if_neg hflag, hlist]
  have hrem := v.remaining_length_le cmds
  have hfilled := h.filled_iff hright
  by_cases hfull : ∀ i < cmds.length, v.sliceHdr.l0.reordering_of_pic_nums_idc i = 2 →
      v.active ≤ max old.length v.initialList.length + i
  case neg =>
    simp only [not_forall, not_le, exists_prop] at hfull
    obtain ⟨i, hi, hlong, hlt⟩ := hfull
    have hstuck := h.reorder_stuck hlegal hflag hright hi hlong (by omega)
    have hnone : ∀ w, ReOrderList (RefListInit v) ≠ some (.AVC_SUCCESS, w) := fun w hw => by
      rw [hstuck] at hw
      exact some_ne_none _ hw.symm
    have hshort : ¬ v.active ≤ max old.length v.initialList.length + i := by omega
    exact ⟨⟨fun hb => absurd hb.2.choose_spec.1 (hnone _),
        fun hf => absurd (hf.2 hflag i hi hlong) hshort⟩,
      ⟨fun hb => absurd hb.2.choose_spec.1 (hnone _),
        fun hf => absurd (hf.1.2 hflag i hi hlong) hshort⟩⟩
  obtain ⟨w, X, hrun, hentriesw, hpre, hlen⟩ :=
    h.reorder_eq hlegal hflag hright fun i hi hlong => by
      have := hfull i hi hlong
      omega
  have hfollowed : (v.shorts ≠ [] ∨ v.active = 1 ∧ v.initialList.head? = some 0) ∧
      (v.sliceHdr.l0.ref_pic_list_reordering_flag ≠ 0 → ∀ i < cmds.length,
        v.sliceHdr.l0.reordering_of_pic_nums_idc i = 2 →
          v.active ≤ max old.length v.initialList.length + i) :=
    ⟨hright, fun _ => hfull⟩
  have hroom : v.active + 1 - cmds.length = v.active - cmds.length + 1 := by omega
  rw [hroom] at hlen
  refine ⟨⟨fun _ => hfollowed, fun _ => ⟨hinit, w, hrun, ?_⟩⟩, ?_⟩
  · have hfront : cmds ++ v.remaining cmds <+: cmds ++ X.take (v.active - cmds.length) :=
      (prefix_append_right_inj cmds).mpr (prefix_take_iff.mpr ⟨hpre, hrem⟩)
    rw [hlist, hentriesw, padded]
    exact (hfront.map some).trans (prefix_append _ _)
  · have hwhole : w.list0 = v.finalEntries cmds ↔
        v.active - cmds.length ≤ (v.remaining cmds).length ∨
          (v.slots old).length ≤ (v.remaining cmds).length := by
      rw [hentriesw, hentries, padded_inj (by rw [length_append, length_take]; omega)
        (by rw [length_append]; omega), append_cancel_left_eq]
      exact take_eq_prefix_iff hpre hlen hrem
    have hstale : (v.active - cmds.length ≤ (v.remaining cmds).length ∨
          (v.slots old).length ≤ (v.remaining cmds).length) ↔
        (v.active ≤ (v.finalList cmds).length ∨
          max old.length v.initialList.length + cmds.length ≤ (v.finalList cmds).length) := by
      rw [hlist, length_append]
      rcases hfilled with heq | ⟨hone, hmax, hslots⟩
      · omega
      · have hpos := h.finalList_pos cmds
        omega
    constructor
    · intro hare
      obtain ⟨-, w', hrun', heq⟩ := hare
      rw [hrun, Option.some.injEq, Prod.mk.injEq] at hrun'
      rw [← hrun'.2] at heq
      exact ⟨hfollowed, fun _ => hstale.mp (hwhole.mp heq)⟩
    · intro hf
      exact ⟨hinit, w, hrun, hwhole.mpr (hstale.mpr (hf.2 hflag))⟩

end Lists

/-! ## 7. Three buffers -/

/-- Numbers that no two frames of a kind share. -/
theorem inj_of_pairwise {fs : List AVCFrameStore} {kind : AVCFrameStore → Bool}
    {num : AVCFrameStore → Int}
    (h : fs.Pairwise fun f g => kind f → kind g → num f ≠ num g) (i j : Nat)
    (f g : AVCFrameStore) (hf : fs[i]? = some f) (hg : fs[j]? = some g) (hkf : kind f)
    (hkg : kind g) (heq : num f = num g) : i = j := by
  rw [pairwise_iff_getElem] at h
  obtain ⟨hi, rfl⟩ := List.getElem?_eq_some_iff.mp hf
  obtain ⟨hj, rfl⟩ := List.getElem?_eq_some_iff.mp hg
  rcases Nat.lt_trichotomy i j with hlt | hij | hlt
  · exact absurd heq (h i j hi hj hlt hkf hkg)
  · exact hij
  · exact absurd heq.symm (h j i hj hi hlt hkg hkf)

/-- A short-term frame store. -/
def shortFrame (num : Int) : AVCFrameStore := ⟨3, 0, num, 0, 0, ⟨false, 0, 0⟩⟩

/-- A long-term frame store. -/
def longFrame (idx : Int) : AVCFrameStore := ⟨3, 3, 0, 0, idx, ⟨true, 0, 0⟩⟩

/-- A P slice with frame number 6 of 16 over the frame stores, just after the buffer was set up. -/
def bufferOf (fs : List AVCFrameStore) (num_ref_idx_l0_active_minus1 : Nat) (l0 : Reordering) :
    RefVideo where
  sliceHdr := { AVCSliceHeader.zero with frame_num := 6, num_ref_idx_l0_active_minus1, l0 }
  slice_type := AVC_P_SLICE
  MaxFrameNum := 16
  MaxPicNum := 16
  CurrPicNum := 6
  fs := fs
  RefPicList0 := padded (List.range fs.length) MAX_REF_PIC_LIST
  RefPicList1 := List.replicate MAX_REF_PIC_LIST none
  refList0Size := 0
  refList1Size := 0

/-- The buffers are well formed where their frames are. -/
theorem bufferOf_wellFormed {fs : List AVCFrameStore} {num : Nat} {l0 : Reordering}
    (hnum : num ≤ 15) (hlen : fs.length ≤ MAX_FS)
    (hkind : ∀ f ∈ fs, (f.IsLongTerm = 0 ∨ f.IsLongTerm = 3 ∧ f.IsReference = 3) ∧
      (f.IsReference = 3 → f.frame.isLongTerm = f.isLong) ∧
      (f.isShort → 0 ≤ f.FrameNum ∧ f.FrameNum < (16 : Nat)))
    (hshort : fs.Pairwise fun f g => f.isShort → g.isShort → f.FrameNum ≠ g.FrameNum)
    (hlong : fs.Pairwise fun f g => f.isLong → g.isLong → f.LongTermFrameIdx ≠ g.LongTermFrameIdx)
    (href : ∃ f ∈ fs, f.IsReference = 3) :
    (bufferOf fs num l0).WellFormed (range fs.length) where
  slice_type := rfl
  frame_num := (by decide : 6 < 16)
  picNum := ⟨rfl, rfl⟩
  active := hnum
  num_fs := hlen
  marks := fun f hf => (hkind f hf).1
  picture := fun f hf => (hkind f hf).2.1
  range := fun f hf => (hkind f hf).2.2
  short_inj := inj_of_pairwise hshort
  long_inj := inj_of_pairwise hlong
  reference := href
  list := rfl
  filled := by
    rw [length_range]
    exact hlen.trans (by decide)
  pointers := fun i hi => mem_range.mp hi

/-- Two short-term frames, one of them from before the wrap, and a long-term one. -/
def mixedFrames : List AVCFrameStore := [shortFrame 5, shortFrame 14, longFrame 0]

/-- The long-term picture, and then the short-term one with the number -2. -/
def twoCommands : Reordering :=
  ⟨1, fun i => if i = 0 then 2 else if i = 1 then 0 else 3, fun _ => 7, fun _ => 0⟩

theorem mixedFrames_wellFormed (num : Nat) (hnum : num ≤ 15) (l0 : Reordering) :
    (bufferOf mixedFrames num l0).WellFormed [0, 1, 2] :=
  bufferOf_wellFormed hnum (by decide) (by decide) (by decide) (by decide) (by decide)

theorem twoCommands_legal (num : Nat) (hnum : 1 ≤ num) :
    (bufferOf mixedFrames num twoCommands).Legal [2, 1] where
  terminator := rfl
  count := by
    change 2 ≤ num + 1
    omega
  diff := fun _ _ _ => (by decide : 7 + 1 ≤ 16)
  names := by
    intro i c hc
    rcases i with _ | _ | i
    · cases hc
      exact Or.inr ⟨rfl, (by decide : 2 ∈ indicesOf (·.isLong) mixedFrames), rfl⟩
    · cases hc
      exact Or.inl ⟨(by decide : 0 < 2), (by decide : 1 ∈ indicesOf (·.isShort) mixedFrames), rfl⟩
    · cases hc

/-- A list of three entries that is reordered twice. -/
theorem ref_lists_mixed :
    (bufferOf mixedFrames 2 twoCommands).ListsAre [2, 1] ∧
      (bufferOf mixedFrames 2 twoCommands).finalEntries [2, 1] = [some 2, some 1, some 0] :=
  ⟨(ref_lists_iff (mixedFrames_wellFormed 2 (by decide) _)
      (fun _ => twoCommands_legal 2 (by decide))).2.mpr
    ⟨⟨Or.inl (by decide), fun _ i hi _ => by
        have : (bufferOf mixedFrames 2 twoCommands).active ≤ 3 := by decide
        have hmax : 3 ≤ max [0, 1, 2].length
          (bufferOf mixedFrames 2 twoCommands).initialList.length := le_max_left _ _
        omega⟩,
      fun _ => Or.inl (by decide)⟩, by decide⟩

/-- Only long-term frames. -/
def longFrames : List AVCFrameStore := [longFrame 1, longFrame 0]

/-- **The list is wrong** with long-term frames alone: the first frame store is in it twice. A
    long-term command for a list that is longer than the filled slots follows a NULL pointer. -/
theorem ref_lists_wrong :
    (bufferOf longFrames 2 .zero).WellFormed [0, 1] ∧
      (RefListInit (bufferOf longFrames 2 .zero)).list0 = [some 0, some 1, some 0] ∧
      ¬ (bufferOf longFrames 2 .zero).ListsBegin [] ∧
      (bufferOf mixedFrames 3 twoCommands).WellFormed [0, 1, 2] ∧
      (bufferOf mixedFrames 3 twoCommands).Legal [2, 1] ∧
      ¬ (bufferOf mixedFrames 3 twoCommands).ListsBegin [2, 1] := by
  refine ⟨bufferOf_wellFormed (by decide) (by decide) (by decide) (by decide) (by decide)
    (by decide), by decide, fun h => absurd h.1 (by decide),
    mixedFrames_wellFormed 3 (by decide) _, twoCommands_legal 3 (by decide), ?_⟩
  intro h
  obtain ⟨_, w, hw, _⟩ := h
  have hnone : ReOrderList (RefListInit (bufferOf mixedFrames 3 twoCommands)) = none := by rfl
  rw [hnone] at hw
  exact some_ne_none _ hw.symm

end OpenCore.Avc
