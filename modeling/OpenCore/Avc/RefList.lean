/-
  File:      OpenCore/Avc/RefList.lean
  Subject:   THE REFERENCE LIST OF A P SLICE: numbering the frames, the initial list, and the
             commands that reorder it in place.

  A picture is named by the index of its frame store, and a NULL pointer is `none`. Following one,
  or one to no frame store, has no result. List 1 is never used in a P slice: only what the
  functions do to its size and its first two entries is here.

  **Main result**: `RefVideo.WellFormed.init_eq`.
-/
import OpenCore.Lib.ExchangeSort
import OpenCore.Lib.Slots
import OpenCore.Avc.Syntax

namespace OpenCore.Avc

open OpenCore.Lib List Option

/-! ## 1. The buffer and the lists -/

def MAX_FS : Nat := 17

def MAX_REF_PIC_LIST : Nat := 33

def MAX_REF_PIC_LIST_REORDERING : Nat := 32

inductive AVCStatus where
  | AVC_SUCCESS
  | AVC_FAIL
  deriving DecidableEq, Repr

/-- The fields of `AVCPictureData` for the lists. -/
structure AVCPictureData where
  isLongTerm : Bool
  PicNum : Int
  LongTermPicNum : Int
  deriving DecidableEq, Repr

/-- The fields of `AVCFrameStore` for the lists. -/
structure AVCFrameStore where
  IsReference : Nat
  IsLongTerm : Nat
  FrameNum : Int
  FrameNumWrap : Int
  LongTermFrameIdx : Int
  frame : AVCPictureData
  deriving DecidableEq, Repr

/-- The fields of `AVCCommonObj` for the lists; `fs` are the `num_fs` frame stores of the buffer. -/
structure RefVideo where
  sliceHdr : AVCSliceHeader
  slice_type : Nat
  MaxFrameNum : Nat
  MaxPicNum : Nat
  CurrPicNum : Nat
  fs : List AVCFrameStore
  RefPicList0 : List (Option Nat)
  RefPicList1 : List (Option Nat)
  refList0Size : Nat
  refList1Size : Nat

/-- A frame store that is in use for short-term reference. -/
def AVCFrameStore.isShort (f : AVCFrameStore) : Bool := f.IsReference == 3 && f.IsLongTerm == 0

/-- A frame store that is in use for long-term reference. -/
def AVCFrameStore.isLong (f : AVCFrameStore) : Bool := f.IsLongTerm == 3

/-- The pictures whose frame store meets the test, in the order of the buffer. -/
def indicesOf (test : AVCFrameStore → Bool) (fs : List AVCFrameStore) : List Nat :=
  (List.range fs.length).filter fun i => (fs[i]?).any test

/-- `PicNum` of a picture that is there. -/
def picNumOf (fs : List AVCFrameStore) (i : Nat) : Int := (fs[i]?).elim 0 (·.frame.PicNum)

/-- `LongTermPicNum` of a picture that is there. -/
def longTermPicNumOf (fs : List AVCFrameStore) (i : Nat) : Int :=
  (fs[i]?).elim 0 (·.frame.LongTermPicNum)

/-! ## 2. The initial list -/

/-- A short-term frame store is numbered. -/
def RefVideo.numbered (v : RefVideo) (f : AVCFrameStore) : AVCFrameStore :=
  if f.isShort then
    let wrap :=
      if f.FrameNum > v.sliceHdr.frame_num then f.FrameNum - v.MaxFrameNum else f.FrameNum
    { f with FrameNumWrap := wrap, frame := { f.frame with PicNum := wrap } }
  else f

/-- A long-term frame store is numbered. -/
def longTermNumbered (f : AVCFrameStore) : AVCFrameStore :=
  if f.isLong then { f with frame := { f.frame with LongTermPicNum := f.LongTermFrameIdx } } else f

/-- Descending `PicNum`. -/
def SortPicByPicNum (fs : List AVCFrameStore) (data : List Nat) : List Nat :=
  exchangeSort (fun a b => decide (picNumOf fs a > picNumOf fs b)) data

/-- Ascending `LongTermPicNum`. -/
def SortPicByPicNumLongTerm (fs : List AVCFrameStore) (data : List Nat) : List Nat :=
  exchangeSort (fun a b => decide (longTermPicNumOf fs a < longTermPicNumOf fs b)) data

/-- The short-term frames at the front of the list; where there is none, the first frame store. -/
def RefVideo.shortTermPart (v : RefVideo) : RefVideo :=
  let fs := v.fs.map v.numbered
  let found := indicesOf (·.isShort) fs
  let fs' := if found = [] then fs.modify 0 ({ · with IsReference := 3 }) else fs
  let data := if found = [] then [0] else found
  { v with
    fs := fs'
    RefPicList0 := splice v.RefPicList0 0 ((SortPicByPicNum fs' data).map some)
    refList0Size := data.length }

/-- The long-term frames behind them. -/
def RefVideo.longTermPart (v : RefVideo) : RefVideo :=
  let fs := v.fs.map longTermNumbered
  let found := indicesOf (·.isLong) fs
  { v with
    fs := fs
    RefPicList0 :=
      splice v.RefPicList0 v.refList0Size ((SortPicByPicNumLongTerm fs found).map some)
    refList0Size := v.refList0Size + found.length
    refList1Size := 0 }

/-- The first two entries of list 1 change places where the lists are the same. -/
def RefVideo.swapList1 (v : RefVideo) : RefVideo :=
  if v.refList0Size = v.refList1Size ∧ 1 < v.refList0Size ∧
      v.RefPicList0.take v.refList0Size = v.RefPicList1.take v.refList0Size then
    { v with
      RefPicList1 := (v.RefPicList1.set 0 (v.RefPicList1.getD 1 none)).set 1
        (v.RefPicList1.getD 0 none) }
  else v

/-- The sizes are cut to what the header says. -/
def RefVideo.cutSizes (v : RefVideo) : RefVideo :=
  { v with
    refList0Size := min v.refList0Size (v.sliceHdr.num_ref_idx_l0_active_minus1 + 1)
    refList1Size := min v.refList1Size (v.sliceHdr.num_ref_idx_l1_active_minus1 + 1) }

def RefListInit (v : RefVideo) : RefVideo :=
  if v.slice_type = AVC_I_SLICE then
    { v with fs := v.fs.map v.numbered, refList0Size := 0, refList1Size := 0 }
  else if v.slice_type = AVC_P_SLICE then v.shortTermPart.longTermPart.swapList1.cutSizes
  else v.swapList1.cutSizes

/-! ## 3. Reordering -/

/-- The picture behind a pointer. -/
def RefVideo.pic (v : RefVideo) (i : Nat) : Option AVCPictureData := (v.fs[i]?).map (·.frame)

def GetShortTermPic (v : RefVideo) (picNum : Int) : Option Nat :=
  v.fs.findIdx? fun f =>
    f.IsReference == 3 && (f.frame.isLongTerm == false && f.frame.PicNum == picNum)

def GetLongTermPic (v : RefVideo) (LongtermPicNum : Int) : Option Nat :=
  v.fs.findIdx? fun f =>
    f.IsReference == 3 && (f.frame.isLongTerm == true && f.frame.LongTermPicNum == LongtermPicNum)

/-- The picture is put at `refIdxLX`, the entries behind it move up, and those that `keep` does
    not keep are closed over. -/
def reorderPic (picLX : Option Nat) (keep : Option Nat → Option Bool) (v : RefVideo)
    (refIdxLX : Nat) : Option (AVCStatus × RefVideo × Nat) :=
  picLX.elim (some (.AVC_FAIL, v, refIdxLX)) fun pic =>
    let num := v.sliceHdr.num_ref_idx_l0_active_minus1 + 1
    if MAX_REF_PIC_LIST ≤ num then some (.AVC_FAIL, v, refIdxLX)
    else
      (compactLoop keep (num - refIdxLX) (refIdxLX + 1) (refIdxLX + 1)
          ((shiftUp refIdxLX num v.RefPicList0).set refIdxLX (some pic))).map fun list =>
        (.AVC_SUCCESS, { v with RefPicList0 := list }, refIdxLX + 1)

/-- `ReorderShortTerm` passes over a NULL pointer. -/
def keepShortTerm (v : RefVideo) (picNumLX : Int) (entry : Option Nat) : Option Bool :=
  entry.elim (some false) fun i =>
    (v.pic i).map fun p => p.isLongTerm || p.PicNum != picNumLX

/-- `ReorderLongTerm` follows every pointer. -/
def keepLongTerm (v : RefVideo) (LongTermPicNum : Int) (entry : Option Nat) : Option Bool :=
  entry.bind fun i =>
    (v.pic i).map fun p => !p.isLongTerm || p.LongTermPicNum != LongTermPicNum

def ReorderShortTerm (v : RefVideo) (picNumLX : Int) (refIdxLX : Nat) :
    Option (AVCStatus × RefVideo × Nat) :=
  reorderPic (GetShortTermPic v picNumLX) (keepShortTerm v picNumLX) v refIdxLX

def ReorderLongTerm (v : RefVideo) (LongTermPicNum : Int) (refIdxLX : Nat) :
    Option (AVCStatus × RefVideo × Nat) :=
  reorderPic (GetLongTermPic v LongTermPicNum) (keepLongTerm v LongTermPicNum) v refIdxLX

/-- `picNumLXNoWrap`. -/
def picNumNoWrap (maxPicNum picNumLXPred : Int) (idc abs_diff_pic_num_minus1 : Nat) : Int :=
  let diff : Int := abs_diff_pic_num_minus1 + 1
  if idc = 0 then
    if picNumLXPred - diff < 0 then picNumLXPred - diff + maxPicNum else picNumLXPred - diff
  else
    if picNumLXPred + diff ≥ maxPicNum then picNumLXPred + diff - maxPicNum
    else picNumLXPred + diff

/-- `picNumLX`. -/
def picNumWrap (maxPicNum currPicNum noWrap : Int) : Int :=
  if noWrap > currPicNum then noWrap - maxPicNum else noWrap

/-- One command for list 0: the prediction for the next one is in the result. -/
def reorderCommand (v : RefVideo) (i refIdxLX : Nat) (picNumLXPred : Int) :
    Option (AVCStatus × RefVideo × Nat) × Int :=
  let l := v.sliceHdr.l0
  if l.reordering_of_pic_nums_idc i < 2 then
    let noWrap := picNumNoWrap v.MaxPicNum picNumLXPred (l.reordering_of_pic_nums_idc i)
      (l.abs_diff_pic_num_minus1 i)
    (ReorderShortTerm v (picNumWrap v.MaxPicNum v.CurrPicNum noWrap) refIdxLX, noWrap)
  else (ReorderLongTerm v (l.long_term_pic_num i) refIdxLX, picNumLXPred)

/-- The loop of `ReorderRefPicList`; it ends at index 32 at the latest. -/
def reorderLoop : Nat → Nat → Nat → Int → RefVideo → Option (AVCStatus × RefVideo)
  | 0, _, _, _, v => some (.AVC_FAIL, v)
  | fuel + 1, i, refIdxLX, picNumLXPred, v =>
    let idc := v.sliceHdr.l0.reordering_of_pic_nums_idc i
    if idc = 3 then
      some (.AVC_SUCCESS, { v with refList0Size := v.sliceHdr.num_ref_idx_l0_active_minus1 + 1 })
    else if idc > 3 ∨ MAX_REF_PIC_LIST_REORDERING ≤ i then some (.AVC_FAIL, v)
    else
      let r := reorderCommand v i refIdxLX picNumLXPred
      r.1.bind fun s =>
        if s.1 = .AVC_SUCCESS then reorderLoop fuel (i + 1) s.2.2 r.2 s.2.1 else some (s.1, s.2.1)

/-- `ReorderRefPicList` for list 0, the only one that it is called for. -/
def ReorderRefPicList (v : RefVideo) : Option (AVCStatus × RefVideo) :=
  reorderLoop (MAX_REF_PIC_LIST_REORDERING + 1) 0 0 v.CurrPicNum v

def ReOrderList (v : RefVideo) : Option (AVCStatus × RefVideo) :=
  if v.slice_type = AVC_I_SLICE then some (.AVC_SUCCESS, v)
  else
    (if v.sliceHdr.l0.ref_pic_list_reordering_flag ≠ 0 then ReorderRefPicList v
      else some (.AVC_SUCCESS, v)).map fun r =>
        if r.1 = .AVC_SUCCESS ∧ r.2.refList0Size = 0 then (.AVC_FAIL, r.2) else r

/-- The entries of list 0 below its size. -/
def RefVideo.list0 (v : RefVideo) : List (Option Nat) := v.RefPicList0.take v.refList0Size

/-! ## 4. The list that is asked for -/

/-- The number that is congruent to `n`, at most `cur` and less than `max` below it. -/
def wrapped (cur max : Nat) (n : Int) : Int := cur - (cur - n) % max

/-- The number of a short-term picture in the slice. -/
def RefVideo.shortNum (v : RefVideo) (i : Nat) : Int :=
  (v.fs[i]?).elim 0 fun f => wrapped v.sliceHdr.frame_num v.MaxFrameNum f.FrameNum

/-- The number of a long-term picture. -/
def RefVideo.longNum (v : RefVideo) (i : Nat) : Int := (v.fs[i]?).elim 0 (·.LongTermFrameIdx)

/-- The short-term pictures. -/
def RefVideo.shorts (v : RefVideo) : List Nat := indicesOf (·.isShort) v.fs

/-- The long-term pictures. -/
def RefVideo.longs (v : RefVideo) : List Nat := indicesOf (·.isLong) v.fs

/-- The initial list: the short-term pictures with the highest number first, then the long-term
    ones with the lowest number first. -/
def RefVideo.initialList (v : RefVideo) : List Nat :=
  (v.shorts.insertionSort fun a b => v.shortNum b ≤ v.shortNum a) ++
    v.longs.insertionSort fun a b => v.longNum a ≤ v.longNum b

/-- What the list is made from: the numbers are in their ranges, no two short-term frames and no
    two long-term frames share one, the marks of the frame store and of its picture agree, there is
    a reference, and the first slots of list 0 are filled. -/
structure RefVideo.WellFormed (v : RefVideo) (old : List Nat) : Prop where
  slice_type : v.slice_type = AVC_P_SLICE
  frame_num : v.sliceHdr.frame_num < v.MaxFrameNum
  picNum : v.CurrPicNum = v.sliceHdr.frame_num ∧ v.MaxPicNum = v.MaxFrameNum
  active : v.sliceHdr.num_ref_idx_l0_active_minus1 ≤ 15
  num_fs : v.fs.length ≤ MAX_FS
  marks : ∀ f ∈ v.fs, f.IsLongTerm = 0 ∨ f.IsLongTerm = 3 ∧ f.IsReference = 3
  picture : ∀ f ∈ v.fs, f.IsReference = 3 → f.frame.isLongTerm = f.isLong
  range : ∀ f ∈ v.fs, f.isShort → 0 ≤ f.FrameNum ∧ f.FrameNum < v.MaxFrameNum
  short_inj : ∀ (i j : Nat) (f g : AVCFrameStore), v.fs[i]? = some f → v.fs[j]? = some g →
    f.isShort → g.isShort → f.FrameNum = g.FrameNum → i = j
  long_inj : ∀ (i j : Nat) (f g : AVCFrameStore), v.fs[i]? = some f → v.fs[j]? = some g →
    f.isLong → g.isLong → f.LongTermFrameIdx = g.LongTermFrameIdx → i = j
  reference : ∃ f ∈ v.fs, f.IsReference = 3
  list : v.RefPicList0 = padded old MAX_REF_PIC_LIST
  filled : old.length ≤ MAX_REF_PIC_LIST
  pointers : ∀ i ∈ old, i < v.fs.length

variable {i : Nat}

section Lists

variable {v w : RefVideo} {old : List Nat}

theorem mem_indicesOf {test : AVCFrameStore → Bool} {fs : List AVCFrameStore} :
    i ∈ indicesOf test fs ↔ ∃ f, fs[i]? = some f ∧ test f := by
  rw [indicesOf, mem_filter, List.mem_range, Option.any_eq_true]
  constructor
  · intro ⟨_, h⟩
    exact h
  · intro ⟨f, hf, ht⟩
    exact ⟨(List.getElem?_eq_some_iff.mp hf).1, f, hf, ht⟩

theorem nodup_indicesOf (test : AVCFrameStore → Bool) (fs : List AVCFrameStore) :
    (indicesOf test fs).Nodup :=
  nodup_range.filter _

/-- The pictures that meet a test stay the same where the frame stores keep what is tested. -/
theorem indicesOf_congr {test test' : AVCFrameStore → Bool} {fs fs' : List AVCFrameStore}
    (hlen : fs'.length = fs.length)
    (h : ∀ (i : Nat) (f : AVCFrameStore), fs[i]? = some f →
      ∃ g, fs'[i]? = some g ∧ test' g = test f) :
    indicesOf test' fs' = indicesOf test fs := by
  rw [indicesOf, indicesOf, hlen]
  refine filter_congr fun i hi => ?_
  obtain ⟨g, hg, ht⟩ := h i _ (getElem?_eq_getElem (mem_range.mp hi))
  rw [hg, any_some, ht, getElem?_eq_getElem (mem_range.mp hi), any_some]

theorem not_short_of_long {f : AVCFrameStore} (h : f.isLong) : f.isShort = false := by
  rw [AVCFrameStore.isLong, beq_iff_eq] at h
  rw [AVCFrameStore.isShort, h]
  simp

theorem wrapped_inj {cur max : Nat} {m n : Int} (hm : 0 ≤ m ∧ m < max)
    (hn : 0 ≤ n ∧ n < max) (h : wrapped cur max m = wrapped cur max n) : m = n := by
  rw [wrapped, wrapped] at h
  have hmod : ((cur : Int) - m) % max = ((cur : Int) - n) % max := by omega
  have hdvd : (max : Int) ∣ n - m := by
    have := Int.dvd_of_emod_eq_zero (Int.emod_eq_emod_iff_emod_sub_eq_zero.mp hmod)
    have heq : (cur : Int) - m - (cur - n) = n - m := by omega
    rwa [heq] at this
  have hzero : n - m = 0 := Int.eq_zero_of_abs_lt_dvd hdvd (by rw [abs_lt]; omega)
  omega

/-- The number as the code computes it. -/
theorem wrapped_eq {cur max : Nat} {n : Int} (hcur : cur < max) (hn : 0 ≤ n ∧ n < max) :
    wrapped cur max n = if n > cur then n - max else n := by
  rw [wrapped]
  split
  · rw [← Int.add_emod_right, Int.emod_eq_of_lt (by omega) (by omega)]
    omega
  · rw [Int.emod_eq_of_lt (by omega) (by omega)]
    omega

theorem RefVideo.WellFormed.shortNum_inj (h : v.WellFormed old) {j : Nat} (hi : i ∈ v.shorts)
    (hj : j ∈ v.shorts) (hij : v.shortNum i = v.shortNum j) : i = j := by
  obtain ⟨f, hf, hfs⟩ := mem_indicesOf.mp hi
  obtain ⟨g, hg, hgs⟩ := mem_indicesOf.mp hj
  rw [RefVideo.shortNum, RefVideo.shortNum, hf, hg] at hij
  exact h.short_inj i j f g hf hg hfs hgs
    (wrapped_inj (h.range f (mem_of_getElem? hf) hfs) (h.range g (mem_of_getElem? hg) hgs)
      hij)

theorem RefVideo.WellFormed.longNum_inj (h : v.WellFormed old) {j : Nat} (hi : i ∈ v.longs)
    (hj : j ∈ v.longs) (hij : v.longNum i = v.longNum j) : i = j := by
  obtain ⟨f, hf, hfl⟩ := mem_indicesOf.mp hi
  obtain ⟨g, hg, hgl⟩ := mem_indicesOf.mp hj
  rw [RefVideo.longNum, RefVideo.longNum, hf, hg] at hij
  exact h.long_inj i j f g hf hg hfl hgl hij

/-- The initial list has the references, each one once. -/
theorem mem_initialList : i ∈ v.initialList ↔ i ∈ v.shorts ∨ i ∈ v.longs := by
  rw [RefVideo.initialList, mem_append, mem_insertionSort, mem_insertionSort]

theorem nodup_initialList : v.initialList.Nodup := by
  rw [RefVideo.initialList, nodup_append']
  refine ⟨(perm_insertionSort _ _).nodup_iff.mpr (nodup_indicesOf _ _),
    (perm_insertionSort _ _).nodup_iff.mpr (nodup_indicesOf _ _), ?_⟩
  intro i hs hl
  obtain ⟨f, hf, hfs⟩ := mem_indicesOf.mp ((mem_insertionSort _).mp hs)
  obtain ⟨g, hg, hgl⟩ := mem_indicesOf.mp ((mem_insertionSort _).mp hl)
  rw [hf, some.injEq] at hg
  rw [hg, not_short_of_long hgl] at hfs
  exact Bool.false_ne_true hfs

theorem initialList_length : v.initialList.length = v.shorts.length + v.longs.length := by
  rw [RefVideo.initialList, length_append, length_insertionSort,
    length_insertionSort]

end Lists

/-! ## 5. The initial list of the code -/

section Init

variable {v w : RefVideo} {old : List Nat}

@[simp] theorem numbered_isShort (v : RefVideo) (f : AVCFrameStore) :
    (v.numbered f).isShort = f.isShort := by
  rw [RefVideo.numbered]
  split <;> rfl

@[simp] theorem numbered_isLong (v : RefVideo) (f : AVCFrameStore) :
    (v.numbered f).isLong = f.isLong := by
  rw [RefVideo.numbered]
  split <;> rfl

/-- The frame stores after the initialisation. -/
def RefVideo.initFs (v : RefVideo) : List AVCFrameStore :=
  (if v.shorts = [] then (v.fs.map v.numbered).modify 0 ({ · with IsReference := 3 })
    else v.fs.map v.numbered).map longTermNumbered

/-- What the short-term part puts into the list. -/
def RefVideo.front (v : RefVideo) : List Nat :=
  if v.shorts = [] then [0] else v.shorts.insertionSort fun a b => v.shortNum b ≤ v.shortNum a

/-- What the whole initialisation puts into the list. -/
def RefVideo.written (v : RefVideo) : List Nat :=
  v.front ++ v.longs.insertionSort fun a b => v.longNum a ≤ v.longNum b

theorem indicesOf_numbered : indicesOf (·.isShort) (v.fs.map v.numbered) = v.shorts := by
  refine indicesOf_congr (length_map _) fun i f hf => ⟨v.numbered f, ?_, ?_⟩
  · rw [getElem?_map, hf, map_some]
  · exact numbered_isShort v f

/-- The numbers that the code sorts by. -/
theorem RefVideo.WellFormed.picNumOf_numbered (h : v.WellFormed old)
    (hi : i ∈ v.shorts) : picNumOf (v.fs.map v.numbered) i = v.shortNum i := by
  obtain ⟨f, hf, hs⟩ := mem_indicesOf.mp hi
  rw [picNumOf, RefVideo.shortNum, getElem?_map, hf, map_some, elim_some,
    elim_some, wrapped_eq h.frame_num (h.range f (mem_of_getElem? hf) hs),
    RefVideo.numbered, if_pos hs]

theorem RefVideo.WellFormed.sort_shorts (h : v.WellFormed old) :
    SortPicByPicNum (v.fs.map v.numbered) v.shorts =
      v.shorts.insertionSort fun a b => v.shortNum b ≤ v.shortNum a := by
  refine @exchangeSort_key Nat Intᵒᵈ _
    (fun i => OrderDual.toDual (picNumOf (v.fs.map v.numbered) i))
    (fun i => OrderDual.toDual (v.shortNum i)) _ ?_ ?_
  · intro i hi
    exact congrArg OrderDual.toDual (h.picNumOf_numbered hi)
  · intro i hi j hj hij
    exact h.shortNum_inj hi hj (OrderDual.toDual.injective hij)

/-- **The short-term part.** -/
theorem RefVideo.WellFormed.shortTermPart_eq (h : v.WellFormed old) :
    v.shortTermPart =
      { v with
        fs := if v.shorts = [] then (v.fs.map v.numbered).modify 0 ({ · with IsReference := 3 })
          else v.fs.map v.numbered
        RefPicList0 := splice v.RefPicList0 0 (v.front.map some)
        refList0Size := v.front.length } := by
  rw [RefVideo.shortTermPart, RefVideo.front]
  simp only [indicesOf_numbered]
  split
  · rfl
  · rw [h.sort_shorts, length_insertionSort]

theorem longTermNumbered_fields (f : AVCFrameStore) :
    let r := longTermNumbered f
    r.isLong = f.isLong ∧ r.IsReference = f.IsReference ∧ r.frame.isLongTerm = f.frame.isLongTerm ∧
      r.frame.PicNum = f.frame.PicNum ∧ (f.isLong → r.frame.LongTermPicNum = f.LongTermFrameIdx) := by
  rw [longTermNumbered]
  split
  case isTrue h => exact ⟨rfl, rfl, rfl, rfl, fun _ => rfl⟩
  case isFalse h => exact ⟨rfl, rfl, rfl, rfl, fun hl => absurd hl h⟩

theorem numbered_fields (v : RefVideo) (f : AVCFrameStore) :
    (v.numbered f).IsReference = f.IsReference ∧
      (v.numbered f).frame.isLongTerm = f.frame.isLongTerm ∧
      (v.numbered f).LongTermFrameIdx = f.LongTermFrameIdx := by
  rw [RefVideo.numbered]
  split <;> exact ⟨rfl, rfl, rfl⟩

/-- A frame store after the initialisation: the fallback marks the first one as a reference. -/
theorem RefVideo.WellFormed.getElem?_initFs (h : v.WellFormed old) {f : AVCFrameStore}
    (hf : v.fs[i]? = some f) : ∃ g, v.initFs[i]? = some g ∧
      g.IsReference = (if v.shorts = [] ∧ i = 0 then 3 else f.IsReference) ∧
      g.isLong = f.isLong ∧ g.frame.isLongTerm = f.frame.isLongTerm ∧
      (f.isShort → g.frame.PicNum = v.shortNum i) ∧
      (f.isLong → g.frame.LongTermPicNum = v.longNum i) := by
  obtain ⟨hr, hl, hidx⟩ := numbered_fields v f
  have hpic : f.isShort → (v.numbered f).frame.PicNum = v.shortNum i := fun hs => by
    have hmem : i ∈ v.shorts := mem_indicesOf.mpr ⟨f, hf, hs⟩
    have heq := h.picNumOf_numbered hmem
    rw [picNumOf, getElem?_map, hf, map_some, elim_some] at heq
    exact heq
  have hlong : v.longNum i = f.LongTermFrameIdx := by
    rw [RefVideo.longNum, hf, elim_some]
  have hmap : (v.fs.map v.numbered)[i]? = some (v.numbered f) := by
    rw [getElem?_map, hf, map_some]
  rw [RefVideo.initFs, hlong]
  by_cases hs : v.shorts = []
  · rw [if_pos hs, getElem?_map, getElem?_modify, hmap]
    by_cases hi : i = 0
    · rw [if_pos ⟨hs, hi⟩, hi]
      obtain ⟨h1, h2, h3, h4, h5⟩ :=
        longTermNumbered_fields { v.numbered f with IsReference := 3 }
      refine ⟨_, rfl, h2, h1.trans (numbered_isLong v f), h3.trans hl, ?_, ?_⟩
      · intro hsf
        have hmem : i ∈ v.shorts := mem_indicesOf.mpr ⟨f, hf, hsf⟩
        rw [hs] at hmem
        exact absurd hmem not_mem_nil
      · intro hlf
        exact (h5 ((numbered_isLong v f).trans hlf)).trans hidx
    · rw [if_neg (fun hc => hi hc.2)]
      obtain ⟨h1, h2, h3, h4, h5⟩ := longTermNumbered_fields (v.numbered f)
      refine ⟨longTermNumbered (v.numbered f), ?_, h2.trans hr, h1.trans (numbered_isLong v f),
        h3.trans hl, fun hsf => h4.trans (hpic hsf),
        fun hlf => (h5 ((numbered_isLong v f).trans hlf)).trans hidx⟩
      simp [Ne.symm hi]
  · rw [if_neg hs, if_neg (fun hc => hs hc.1), getElem?_map, hmap]
    obtain ⟨h1, h2, h3, h4, h5⟩ := longTermNumbered_fields (v.numbered f)
    exact ⟨_, rfl, h2.trans hr, h1.trans (numbered_isLong v f), h3.trans hl,
      fun hsf => h4.trans (hpic hsf),
      fun hlf => (h5 ((numbered_isLong v f).trans hlf)).trans hidx⟩

theorem initFs_length : v.initFs.length = v.fs.length := by
  rw [RefVideo.initFs, length_map]
  split
  · rw [length_modify, length_map]
  · rw [length_map]

section

variable (h : v.WellFormed old)
include h

theorem RefVideo.WellFormed.sort_longs :
    indicesOf (·.isLong) v.initFs = v.longs ∧
      SortPicByPicNumLongTerm v.initFs v.longs =
        v.longs.insertionSort fun a b => v.longNum a ≤ v.longNum b := by
  constructor
  · refine indicesOf_congr initFs_length fun i f hf => ?_
    obtain ⟨g, hg, _, hl, _⟩ := h.getElem?_initFs hf
    exact ⟨g, hg, hl⟩
  · refine exchangeSort_key ?_ fun i hi j hj hij => h.longNum_inj hi hj hij
    intro i hi
    obtain ⟨f, hf, hl⟩ := mem_indicesOf.mp hi
    obtain ⟨g, hg, _, _, _, _, hnum⟩ := h.getElem?_initFs hf
    rw [longTermPicNumOf, hg, elim_some, hnum hl]

theorem RefVideo.WellFormed.mem_written (hi : i ∈ v.written) :
    i < v.fs.length := by
  have hidx : ∀ {test : AVCFrameStore → Bool}, i ∈ indicesOf test v.fs → i < v.fs.length :=
    fun hm => by
      obtain ⟨f, hf, _⟩ := mem_indicesOf.mp hm
      exact (List.getElem?_eq_some_iff.mp hf).1
  rw [RefVideo.written, mem_append, mem_insertionSort, RefVideo.front] at hi
  rcases hi with hi | hi
  · split at hi
    · obtain ⟨f, hf, _⟩ := h.reference
      rw [mem_singleton.mp hi]
      exact length_pos_of_mem hf
    · exact hidx ((mem_insertionSort _).mp hi)
  · exact hidx hi

theorem RefVideo.WellFormed.written_length_le :
    v.written.length ≤ MAX_REF_PIC_LIST := by
  have hfs := h.num_fs
  rw [MAX_FS] at hfs
  have hboth : v.initialList.length ≤ v.fs.length := by
    have hsub : v.initialList ⊆ List.range v.fs.length := fun i hi => by
      rw [mem_range]
      rcases mem_initialList.mp hi with hi | hi
      all_goals
        obtain ⟨f, hf, _⟩ := mem_indicesOf.mp hi
        exact (List.getElem?_eq_some_iff.mp hf).1
    have hle := (nodup_initialList.subperm hsub).length_le
    rwa [length_range] at hle
  rw [initialList_length] at hboth
  rw [MAX_REF_PIC_LIST, RefVideo.written, length_append, length_insertionSort,
    RefVideo.front]
  rw [RefVideo.longs] at hboth ⊢
  split
  · rw [length_singleton]
    omega
  · rw [length_insertionSort]
    omega

/-- **The state after the initialisation.** -/
theorem RefVideo.WellFormed.init_eq :
    RefListInit v =
      { v with
        fs := v.initFs
        RefPicList0 := padded (v.written ++ old.drop v.written.length) MAX_REF_PIC_LIST
        refList0Size := min v.written.length (v.sliceHdr.num_ref_idx_l0_active_minus1 + 1)
        refList1Size := 0 } := by
  have hle := h.written_length_le
  have hlen : v.written.length = v.front.length + v.longs.length := by
    rw [RefVideo.written, length_append, length_insertionSort]
  have hfront : splice v.RefPicList0 0 (v.front.map some) =
      padded (v.front ++ old.drop v.front.length) MAX_REF_PIC_LIST := by
    rw [h.list, splice_padded (Nat.zero_le _) h.filled (by omega), take_zero,
      nil_append, Nat.zero_add]
  have hlongs : splice (padded (v.front ++ old.drop v.front.length) MAX_REF_PIC_LIST)
      v.front.length ((v.longs.insertionSort fun a b => v.longNum a ≤ v.longNum b).map some) =
      padded (v.written ++ old.drop v.written.length) MAX_REF_PIC_LIST := by
    have hold := h.filled
    rw [splice_padded (by rw [length_append]; omega)
      (by rw [length_append, length_drop]; omega)
      (by rw [length_insertionSort]; omega), take_left, length_insertionSort,
      drop_append, drop_eq_nil_of_le (Nat.le_add_right _ _), nil_append,
      Nat.add_sub_cancel_left, drop_drop, hlen, RefVideo.written]
  have hne : ¬ (v.written.length = 0 ∧ 1 < v.written.length ∧
      (padded (v.written ++ old.drop v.written.length) MAX_REF_PIC_LIST).take v.written.length =
        v.RefPicList1.take v.written.length) := fun hc => by omega
  obtain ⟨hfound, hsort⟩ := h.sort_longs
  rw [RefListInit, h.slice_type, if_neg (by decide), if_pos rfl, h.shortTermPart_eq,
    RefVideo.longTermPart]
  simp only
  rw [show ((if v.shorts = [] then (v.fs.map v.numbered).modify 0 ({ · with IsReference := 3 })
    else v.fs.map v.numbered).map longTermNumbered) = v.initFs from rfl, hfound, hsort, hfront,
    hlongs, ← hlen, RefVideo.swapList1, if_neg hne, RefVideo.cutSizes, Nat.zero_min, h.slice_type]

end

end Init

end OpenCore.Avc
