/-
  File:      OpenCore/Mp4/CompositionOffsetAtom.lean
  Subject:   `CompositionOffsetAtom` (compositionoffsetatom.cpp): the marker table the scheduler
             builds, and the time offset of a sample with and without it.

  `Run` creates the marker table and fills in up to 50 markers; from then on the scan is resumed at
  a marker. The resumed scan does not stop where it finds the sample, and its code is dropped.

  * `stage` -- the atom after so many runs, `none` where a run writes outside the marker arrays;
  * `Resumed` -- the entry whose offset a resumed scan ends with.

  **Main result**: `marker_table_right_iff`.
-/
import OpenCore.Lib.RunLength
import OpenCore.Mp4.ChunkOffsetAtom

namespace OpenCore.Mp4

open RunLength Option
open Prod (snd)
open Or (inl inr)
open StblTable (Serves)

/-! ## 1. The atom -/

/-- An entry: so many samples with this offset. -/
structure OffsetEntry where
  sampleCount : UInt32
  sampleOffset : UInt32
  deriving DecidableEq, Repr

/-- The threshold of `ParseEntryUnit`. -/
def offsetThreshold : Nat := 1024

/-- `CTTS_MIN_SAMPLE_TABLE_SIZE`. -/
def cttsMinSampleTableSize : Nat := 4096

/-- `MT_SAMPLECOUNT_INCREMENT`. -/
def mtSampleCountIncrement : UInt32 := 100

/-- `NUMBER_OF_SAMPLE_POPULATES_PER_RUNL`. -/
def numberOfSamplePopulatesPerRun : Nat := 50

/-- `ENABLE_MT_LOGIC_ON_CTTS_ENTRY_COUNT_VALUE`. -/
def enableMTLogicOnCttsEntryCountValue : Nat := 512

/-- `MT_SampleCount` and `MT_EntryCount`, of `MT_Table_Size` elements. -/
structure MarkerTable where
  size : Nat
  sampleCount : Nat → UInt32
  entryCount : Nat → UInt32

/-- `while ((aSampleNum < MT_SampleCount[MT_EC]) && (MT_EC > 0))`: the marker the loop ends at,
    `none` where it reads outside the array. -/
def MarkerTable.backtrack (m : MarkerTable) (aSampleNum : UInt32) : Nat → Option Nat
  | 0 => if 0 < m.size then some 0 else none
  | k + 1 =>
    if k + 1 < m.size then
      if aSampleNum < m.sampleCount (k + 1) then MarkerTable.backtrack m aSampleNum k
      else some (k + 1)
    else none

/-- The members the functions work on. No table where the arrays of the entries are `NULL`, no
    markers where those of the marker table are; `iMarkerTableCreation` is set when they are
    created. `ready` tells that the scheduler will call `Run`. -/
structure CompositionOffsetAtom where
  parsingMode : Bool
  table : Option (StblTable OffsetEntry)
  totalNumSamplesInTrack : UInt32
  markers : Option MarkerTable
  mtCounter : UInt32
  addSampleCount : UInt32
  prevSampleCount : UInt32
  entrycountTraversed : UInt32
  refSample : UInt32
  mtJ : UInt32
  ready : Bool

namespace CompositionOffsetAtom

variable (f : EntryFile OffsetEntry)

/-- `_entryCount`. -/
def entryCount (a : CompositionOffsetAtom) : Nat := (a.table.map StblTable.entryCount).getD 0

/-- The constructor, all file reads succeeding; before `SetSamplesCount` the number of samples is
    whatever the memory holds. -/
def create (parsingMode : Bool) (entryCount totalNumSamplesInTrack : UInt32) :
    CompositionOffsetAtom where
  parsingMode :=
    if 0 < entryCount.toNat ∧ entryCount.toNat ≤ cttsMinSampleTableSize then false else parsingMode
  table :=
    if 0 < entryCount.toNat then
      if parsingMode ∧ entryCount.toNat > cttsMinSampleTableSize then
        some (.windowed f entryCount.toNat cttsMinSampleTableSize fun _ => ⟨0, 0⟩)
      else some (.whole f entryCount.toNat)
    else none
  totalNumSamplesInTrack := totalNumSamplesInTrack
  markers := none
  mtCounter := 1
  addSampleCount := 0
  prevSampleCount := 0
  entrycountTraversed := 0
  refSample := mtSampleCountIncrement
  mtJ := 1
  ready := false

/-- `SetSamplesCount`, with a scheduler there. -/
def setSamplesCount (aSamplesCount : UInt32) (a : CompositionOffsetAtom) : CompositionOffsetAtom :=
  { a with
    totalNumSamplesInTrack := aSamplesCount
    ready := a.ready || a.entryCount > enableMTLogicOnCttsEntryCountValue }

/-! ## 2. Building the marker table -/

/-- `_iTotalNumSamplesInTrack / MT_SAMPLECOUNT_INCREMENT`. -/
def tableSize (a : CompositionOffsetAtom) : UInt32 :=
  a.totalNumSamplesInTrack / mtSampleCountIncrement

/-- `CreateMarkerTable`, the allocations succeeding. -/
def createMarkerTable (a : CompositionOffsetAtom) : CompositionOffsetAtom :=
  { a with
    markers := some {
      size := a.tableSize.toNat
      sampleCount := fun _ => 0
      entryCount := fun _ => 0 } }

/-- `if (_parsing_mode == 1) CheckAndParseEntry(i);` and the entry in slot `i`. -/
def parsed (i : UInt32) (a : CompositionOffsetAtom) :
    Option (CompositionOffsetAtom × OffsetEntry) :=
  a.table.bind fun t =>
    (t.fetch f offsetThreshold a.parsingMode i.toNat).map fun t =>
      ({ a with table := some t }, t.slot i.toNat)

/-- `MT_SampleCount[0] = ..`, and the two counts with it. -/
def markFirst (count : UInt32) (a : CompositionOffsetAtom) : Option CompositionOffsetAtom :=
  a.markers.bind fun m =>
    if 0 < m.size then
      some { a with
        markers := some { m with sampleCount := Function.update m.sampleCount 0 count }
        prevSampleCount := count
        addSampleCount := count }
    else none

/-- The branch that sets marker `MT_Counter`, at entry `i`; the index has to lie in the arrays. -/
def mark (i : UInt32) (a : CompositionOffsetAtom) : Option CompositionOffsetAtom :=
  a.markers.bind fun m =>
    let k := a.mtCounter.toNat
    if k < m.size then
      let sampleCount := Function.update m.sampleCount k a.prevSampleCount
      let entry :=
        if sampleCount k = sampleCount (a.mtCounter - 1).toNat then
          m.entryCount (a.mtCounter - 1).toNat
        else a.mtJ - 2
      some { a with
        entrycountTraversed := i - 1
        refSample := a.refSample + mtSampleCountIncrement
        markers := some {
          size := m.size
          sampleCount := sampleCount
          entryCount := Function.update m.entryCount k entry }
        mtCounter := a.mtCounter + 1 }
    else none

/-- The loop of `PopulateMarkerTable`. A turn either goes on to the next entry or sets one of at
    most 50 markers, so there are no more turns than `_entryCount + 51`. -/
def populateLoop : Nat → UInt32 → Nat → CompositionOffsetAtom →
    Option (CompositionOffsetAtom × Nat)
  | 0, _, numPopulated, a => some (a, numPopulated)
  | turns + 1, i, numPopulated, a =>
    if i.toNat < a.entryCount ∧ a.refSample < a.totalNumSamplesInTrack then
      if i = 0 then
        (parsed f i a).bind fun r =>
          (markFirst r.2.sampleCount r.1).bind fun a =>
            populateLoop turns (i + 1) numPopulated a
      else if a.addSampleCount < a.refSample then
        (parsed f a.mtJ a).bind fun r =>
          populateLoop turns (i + 1) numPopulated
            { r.1 with
              prevSampleCount := a.addSampleCount
              addSampleCount := a.addSampleCount + r.2.sampleCount
              mtJ := a.mtJ + 1 }
      else
        -- `i = i - 1` here and `i++` at the loop's end: entry `i` is looked at again
        (mark i a).bind fun a =>
          if numPopulated + 1 = numberOfSamplePopulatesPerRun ∨ a.tableSize ≤ a.mtCounter then
            some (a, numPopulated + 1)
          else populateLoop turns i (numPopulated + 1) a
    else some (a, numPopulated)

/-- `PopulateMarkerTable`. -/
def populateMarkerTable (a : CompositionOffsetAtom) : Option (CompositionOffsetAtom × Nat) :=
  populateLoop f (a.entryCount + 51) a.entrycountTraversed 0 a

/-- `Run`. -/
def run (a : CompositionOffsetAtom) : Option CompositionOffsetAtom :=
  let a := if a.markers.isNone then a.createMarkerTable else a
  (populateMarkerTable f a).map fun r =>
    { r.1 with
      ready := r.1.entrycountTraversed.toNat < r.1.entryCount ∧
        r.1.refSample < r.1.totalNumSamplesInTrack ∧ r.1.mtCounter < r.1.tableSize }

/-- So many calls of `Run`, as long as the scheduler has a reason to make them. -/
def runs : Nat → CompositionOffsetAtom → Option CompositionOffsetAtom
  | 0, a => some a
  | k + 1, a => if a.ready then (run f a).bind (runs k) else some a

/-- **A stage of the construction**: `k` runs after `SetSamplesCount`. -/
def stage (parsingMode : Bool) (entryCount aSamplesCount : UInt32) (k : Nat) :
    Option CompositionOffsetAtom :=
  runs f k (setSamplesCount aSamplesCount (create f parsingMode entryCount aSamplesCount))

/-! ## 3. The time offset of a sample -/

/-- What a call returns: the code and the offset it sets. -/
abbrev OffsetAnswer := Mp4ErrorCode × Option UInt32

/-- The loop of `GetTimeOffsetForSampleNumber`, `n` entries left. -/
def offsetScan (parsingMode : Bool) (aSampleNum : UInt32) :
    Nat → Nat → UInt32 → StblTable OffsetEntry → Option (StblTable OffsetEntry × OffsetAnswer)
  | 0, _, _, t => some (t, .defaultError, none)
  | n + 1, i, sampleCount, t =>
    (t.fetch f offsetThreshold parsingMode i).bind fun t =>
      if sampleCount + (t.slot i).sampleCount ≤ aSampleNum then
        offsetScan parsingMode aSampleNum n (i + 1) (sampleCount + (t.slot i).sampleCount) t
      else some (t, .everythingFine, some (t.slot i).sampleOffset)

/-- `GetTimeOffsetForSampleNumber` without a marker table: the plain scan. -/
def linearScan (aSampleNum : UInt32) (a : CompositionOffsetAtom) :
    Option (CompositionOffsetAtom × OffsetAnswer) :=
  match a.table with
  | none => some (a, .defaultError, none)
  | some t =>
    (offsetScan f a.parsingMode aSampleNum t.entryCount 0 0 t).map fun r =>
      ({ a with table := some r.1 }, r.2)

/-- The loop of `GetTimeOffsetFromMT`, `n` entries left. There is no `break` in it. -/
def markerScan (parsingMode : Bool) (aSampleNum : UInt32) :
    Nat → Nat → UInt32 → OffsetAnswer → StblTable OffsetEntry →
      Option (StblTable OffsetEntry × OffsetAnswer)
  | 0, _, _, answer, t => some (t, answer)
  | n + 1, i, aCurrSampleCount, answer, t =>
    (t.fetch f offsetThreshold parsingMode i).bind fun t =>
      if aSampleNum < aCurrSampleCount + (t.slot i).sampleCount then
        markerScan parsingMode aSampleNum n (i + 1) aCurrSampleCount
          (.everythingFine, some (t.slot i).sampleOffset) t
      else
        markerScan parsingMode aSampleNum n (i + 1)
          (aCurrSampleCount + (t.slot i).sampleCount) answer t

/-- `GetTimeOffsetFromMT`, for a table that is there. -/
def getTimeOffsetFromMT (parsingMode : Bool) (aSampleNum aCurrEC aCurrSampleCount : UInt32)
    (t : StblTable OffsetEntry) : Option (StblTable OffsetEntry × OffsetAnswer) :=
  if aSampleNum < aCurrSampleCount then
    (t.fetch f offsetThreshold parsingMode aCurrEC.toNat).map fun t =>
      (t, .everythingFine, some (t.slot aCurrEC.toNat).sampleOffset)
  else
    markerScan f parsingMode aSampleNum (t.entryCount - (aCurrEC + 1).toNat) (aCurrEC + 1).toNat
      aCurrSampleCount (.defaultError, none) t

/-- The marker guessed from the sample number, after the two bounds. -/
def guess (aSampleNum : UInt32) (a : CompositionOffsetAtom) : UInt32 :=
  let mtEC := aSampleNum / (mtSampleCountIncrement - 1)
  let mtEC := if a.tableSize - 1 < mtEC then a.tableSize - 1 else mtEC
  if a.mtCounter < mtEC then a.mtCounter else mtEC

/-- `GetTimeOffsetForSampleNumber`. What `GetTimeOffsetFromMT` returns is dropped. -/
def getTimeOffsetForSampleNumber (aSampleNum : UInt32) (a : CompositionOffsetAtom) :
    Option (CompositionOffsetAtom × OffsetAnswer) :=
  match a.markers with
  | some m =>
    (m.backtrack aSampleNum (guess aSampleNum a).toNat).bind fun k =>
      match a.table with
      | none => some (a, .everythingFine, none)
      | some t =>
        (getTimeOffsetFromMT f a.parsingMode aSampleNum (m.entryCount k) (m.sampleCount k)
          t).map fun r => ({ a with table := some r.1 }, .everythingFine, r.2.2)
  | none => linearScan f aSampleNum a

/-- The call returns, with the code and the offset of the plain scan. -/
def Agrees (a : CompositionOffsetAtom) (n : UInt32) : Prop :=
  ∃ answer, (getTimeOffsetForSampleNumber f n a).map snd = some answer ∧
    (linearScan f n a).map snd = some answer

/-! ## 4. Stages -/

variable {f : EntryFile OffsetEntry} {entries : Nat} {mode : Bool} {t : StblTable OffsetEntry}

/-- The counts of the entries. -/
def offsetCounts (f : EntryFile OffsetEntry) (k : Nat) : Nat := (f.entry k).sampleCount.toNat

/-- How many samples the entries have offsets for. -/
def coveredSamples (f : EntryFile OffsetEntry) (entries : Nat) : Nat :=
  before (offsetCounts f) entries

/-- The atom holds its table of so many entries. -/
structure HoldsOffsets (f : EntryFile OffsetEntry) (entries : Nat) (a : CompositionOffsetAtom) :
    Prop where
  table : ∃ t, a.table = some t ∧
    Serves f offsetThreshold entries a.parsingMode t
  small : a.parsingMode = true → entries + offsetThreshold ≤ 4294967296

/-- A marker table of the right size, its first marker at entry 0. -/
structure HoldsMarkers (a : CompositionOffsetAtom) (m : MarkerTable) : Prop where
  markers : a.markers = some m
  size : m.size = a.tableSize.toNat
  first : m.entryCount 0 = 0
  counter : a.mtCounter ≠ 0

variable {a : CompositionOffsetAtom}

theorem HoldsOffsets.parsed (h : HoldsOffsets f entries a)
    (i : UInt32) : ∃ t e, parsed f i a = some ({ a with table := some t }, e) ∧
      HoldsOffsets f entries { a with table := some t } := by
  obtain ⟨⟨t, ht, hserves⟩, hsmall⟩ := h
  have hfetch : ∃ t', t.fetch f offsetThreshold a.parsingMode i.toNat = some t' ∧
      Serves f offsetThreshold entries a.parsingMode t' := by
    rcases Nat.lt_or_ge i.toNat entries with hi | hi
    · obtain ⟨t', he, hserves', -⟩ := hserves.fetch_of_small (by decide) hi hsmall
      exact ⟨t', he, hserves'⟩
    · exact hserves.fetch_behind hi
  obtain ⟨t', he, hserves'⟩ := hfetch
  refine ⟨t', t'.slot i.toNat, ?_, ⟨t', rfl, hserves'⟩, hsmall⟩
  unfold CompositionOffsetAtom.parsed
  rw [ht, bind_some, he]
  rfl

variable {m : MarkerTable}

variable {a a' : CompositionOffsetAtom}

theorem HoldsMarkers.markFirst
    (h : HoldsMarkers a m) {count : UInt32} (he : a.markFirst count = some a') :
    (∃ m', HoldsMarkers a' m') ∧ a'.table = a.table ∧ a'.parsingMode = a.parsingMode := by
  unfold CompositionOffsetAtom.markFirst at he
  rw [h.markers, bind_some] at he
  split at he
  · cases he
    exact ⟨⟨_, rfl, h.size, h.first, h.counter⟩, rfl, rfl⟩
  · cases he

theorem HoldsMarkers.mark
    (h : HoldsMarkers a m) {i : UInt32} (he : a.mark i = some a') :
    (∃ m', HoldsMarkers a' m') ∧ a'.table = a.table ∧ a'.parsingMode = a.parsingMode := by
  unfold CompositionOffsetAtom.mark at he
  rw [h.markers, bind_some] at he
  dsimp only at he
  split at he
  · next hk =>
      cases he
      refine ⟨⟨_, rfl, h.size, ?_, ?_⟩, rfl, rfl⟩
      · -- marker 0 is not the one that is set
        have h0 : (0 : Nat) ≠ a.mtCounter.toNat := fun h0 =>
          h.counter (UInt32.toNat_inj.mp h0.symm)
        rw [← h.first]
        exact Function.update_of_ne h0 _ _
      · have hsize : m.size < 4294967296 := by
          rw [h.size]
          exact UInt32.toNat_lt _
        intro h0
        have hnat := congrArg UInt32.toNat h0
        rw [UInt32.toNat_add, Nat.mod_eq_of_lt (by simp only [UInt32.toNat_one]; omega)] at hnat
        exact Nat.succ_ne_zero _ hnat
  · cases he

/-- **What the loop keeps**. -/
theorem populateLoop_keeps {turns : Nat} {i : UInt32} {num : Nat}
    {r : CompositionOffsetAtom × Nat} (h : HoldsOffsets f entries a)
    (hm : ∃ m, HoldsMarkers a m) (he : populateLoop f turns i num a = some r) :
    HoldsOffsets f entries r.1 ∧ ∃ m, HoldsMarkers r.1 m := by
  induction turns generalizing i num a with
  | zero =>
    cases he
    exact ⟨h, hm⟩
  | succ turns ih =>
    obtain ⟨m, hm⟩ := hm
    rw [populateLoop] at he
    split at he
    · split at he
      · obtain ⟨t', e, hparsed, h'⟩ := h.parsed i
        rw [hparsed, bind_some] at he
        obtain ⟨a', hfirst, he⟩ := bind_eq_some_iff.mp he
        have hm' : HoldsMarkers { a with table := some t' } m :=
          ⟨hm.markers, hm.size, hm.first, hm.counter⟩
        obtain ⟨hm'', htable, hmode⟩ := hm'.markFirst hfirst
        refine ih ⟨?_, ?_⟩ hm'' he
        · rw [htable, hmode]
          exact h'.table
        · rw [hmode]
          exact h'.small
      · split at he
        · obtain ⟨t', e, hparsed, h'⟩ := h.parsed a.mtJ
          rw [hparsed, bind_some] at he
          refine ih ?_ ?_ he
          · exact ⟨h'.table, h'.small⟩
          · exact ⟨m, hm.markers, hm.size, hm.first, hm.counter⟩
        · obtain ⟨a', hmark, he⟩ := bind_eq_some_iff.mp he
          obtain ⟨hm', htable, hmode⟩ := hm.mark hmark
          have h' : HoldsOffsets f entries a' := by
            refine ⟨?_, ?_⟩
            · rw [htable, hmode]
              exact h.table
            · rw [hmode]
              exact h.small
          split at he
          · cases he
            exact ⟨h', hm'⟩
          · exact ih h' hm' he
    · cases he
      exact ⟨h, m, hm⟩

/-- **One run**: from then on there is a marker table. -/
theorem run_keeps (h : HoldsOffsets f entries a)
    (hm : (∃ m, HoldsMarkers a m) ∨ (a.markers = none ∧ a.mtCounter ≠ 0))
    (he : run f a = some a') : HoldsOffsets f entries a' ∧ ∃ m, HoldsMarkers a' m := by
  unfold run at he
  obtain ⟨r, hpop, he⟩ := map_eq_some_iff.mp he
  cases he
  have hkeeps : HoldsOffsets f entries r.1 ∧ ∃ m, HoldsMarkers r.1 m := by
    obtain ⟨m, hm⟩ | ⟨hnone, hcounter⟩ := hm
    · rw [hm.markers] at hpop
      exact populateLoop_keeps h ⟨m, hm⟩ hpop
    · rw [hnone] at hpop
      have hcreated : HoldsOffsets f entries a.createMarkerTable := ⟨h.table, h.small⟩
      have hmarkers : HoldsMarkers a.createMarkerTable
          { size := a.tableSize.toNat, sampleCount := fun _ => 0, entryCount := fun _ => 0 } :=
        ⟨rfl, rfl, rfl, hcounter⟩
      have hpop' : populateMarkerTable f a.createMarkerTable = some r := hpop
      exact populateLoop_keeps hcreated ⟨_, hmarkers⟩ hpop'
  obtain ⟨h', m, hm'⟩ := hkeeps
  exact ⟨⟨h'.table, h'.small⟩, m, hm'.markers, hm'.size, hm'.first, hm'.counter⟩

theorem runs_keep {k : Nat} (h : HoldsOffsets f entries a)
    (hm : ∃ m, HoldsMarkers a m) (he : runs f k a = some a') :
    HoldsOffsets f entries a' ∧ ∃ m, HoldsMarkers a' m := by
  induction k generalizing a with
  | zero =>
    cases he
    exact ⟨h, hm⟩
  | succ k ih =>
    rw [runs] at he
    split at he
    · obtain ⟨a₁, hrun, he⟩ := bind_eq_some_iff.mp he
      obtain ⟨h₁, hm₁⟩ := run_keeps h (inl hm) hrun
      exact ih h₁ hm₁ he
    · cases he
      exact ⟨h, hm⟩

variable {entryCount : UInt32}

theorem holdsOffsets_create {mode : Bool} (total : UInt32)
    (hpos : 0 < entryCount.toNat)
    (hsmall : mode = true → entryCount.toNat + offsetThreshold ≤ 4294967296) :
    HoldsOffsets f entryCount.toNat (create f mode entryCount total) := by
  unfold create
  rw [if_pos hpos]
  by_cases hlong : mode = true ∧ entryCount.toNat > cttsMinSampleTableSize
  · rw [if_pos hlong, if_neg (fun h => Nat.not_le_of_gt hlong.2 h.2)]
    refine ⟨⟨_, rfl, ?_⟩, hsmall⟩
    dsimp only
    rw [hlong.1]
    exact StblTable.serves_windowed (by decide) hpos _
  · rw [if_neg hlong]
    have hmode : (if 0 < entryCount.toNat ∧ entryCount.toNat ≤ cttsMinSampleTableSize then false
        else mode) = false := by
      by_cases hshort : entryCount.toNat ≤ cttsMinSampleTableSize
      · rw [if_pos ⟨hpos, hshort⟩]
      · rw [if_neg (fun h => hshort h.2)]
        exact Bool.eq_false_iff.mpr fun h => hlong ⟨h, Nat.gt_of_not_le hshort⟩
    rw [hmode]
    exact ⟨⟨_, rfl, .whole⟩, fun h => absurd h Bool.false_ne_true⟩

theorem entryCount_create {mode : Bool} (total : UInt32) :
    (create f mode entryCount total).entryCount = entryCount.toNat := by
  unfold create CompositionOffsetAtom.entryCount
  dsimp only
  by_cases hpos : 0 < entryCount.toNat
  · rw [if_pos hpos]
    split <;> rfl
  · rw [if_neg hpos]
    exact (Nat.le_zero.mp (Nat.le_of_not_lt hpos)).symm

/-- The scheduler is asked for runs of tables with more than 512 entries. -/
theorem ready_setSamplesCount {mode : Bool} (total : UInt32) :
    (setSamplesCount total (create f mode entryCount total)).ready = true ↔
      enableMTLogicOnCttsEntryCountValue < entryCount.toNat := by
  unfold setSamplesCount
  dsimp only
  rw [entryCount_create]
  show (false || decide (entryCount.toNat > enableMTLogicOnCttsEntryCountValue)) = true ↔ _
  rw [Bool.false_or, decide_eq_true_iff]

/-- **The stages**: before the first run there is no marker table, then there is one. -/
theorem stage_cases {mode : Bool} {entryCount total : UInt32} {k : Nat}
    (he : stage f mode entryCount total k = some a)
    (hsmall : mode = true → entryCount.toNat + offsetThreshold ≤ 4294967296) :
    ((k = 0 ∨ entryCount.toNat ≤ enableMTLogicOnCttsEntryCountValue) ∧
        a = setSamplesCount total (create f mode entryCount total)) ∨
      (0 < k ∧ enableMTLogicOnCttsEntryCountValue < entryCount.toNat ∧
        HoldsOffsets f entryCount.toNat a ∧ ∃ m, HoldsMarkers a m) := by
  unfold stage at he
  cases k with
  | zero =>
    cases he
    exact inl ⟨inl rfl, rfl⟩
  | succ k =>
    rw [runs] at he
    by_cases hready : (setSamplesCount total (create f mode entryCount total)).ready = true
    · rw [if_pos hready] at he
      have hlong := (ready_setSamplesCount total).mp hready
      obtain ⟨a₁, hrun, he⟩ := bind_eq_some_iff.mp he
      have hpos : 0 < entryCount.toNat := Nat.zero_lt_of_lt hlong
      have hnew := holdsOffsets_create (f := f) total hpos hsmall
      obtain ⟨h₁, hm₁⟩ := run_keeps (a := setSamplesCount total (create f mode entryCount total))
        ⟨hnew.table, hnew.small⟩ (inr ⟨rfl, (by decide : (1 : UInt32) ≠ 0)⟩) hrun
      obtain ⟨h, hm⟩ := runs_keep h₁ hm₁ he
      exact inr ⟨Nat.succ_pos k, hlong, h, hm⟩
    · rw [if_neg hready] at he
      cases he
      exact inl ⟨inr (Nat.le_of_not_lt fun h =>
        hready ((ready_setSamplesCount total).mpr h)), rfl⟩

/-! ## 5. The plain scan -/

section

variable (hsmall : mode = true → entries + offsetThreshold ≤ 4294967296)
include hsmall

/-- The scan finds the entry a sample lies in, and nothing behind the last one. -/
theorem offsetScan_spec
    (hcovered : coveredSamples f entries < 4294967296) {a : UInt32} {n i : Nat}
    {sampleCount : UInt32} (h : Serves f offsetThreshold entries mode t)
    (hn : i + n = entries) (hcount : sampleCount.toNat = before (offsetCounts f) i)
    (hpassed : before (offsetCounts f) i ≤ a.toNat) :
    ∃ t' answer, offsetScan f mode a n i sampleCount t = some (t', answer) ∧
      (coveredSamples f entries ≤ a.toNat → answer = (.defaultError, none)) ∧
      ∀ y < entries, before (offsetCounts f) y ≤ a.toNat →
        a.toNat < before (offsetCounts f) (y + 1) →
        answer = (.everythingFine, some (f.entry y).sampleOffset) := by
  induction n generalizing i sampleCount t with
  | zero =>
    refine ⟨t, _, rfl, fun _ => rfl, fun y hy hle hlt => ?_⟩
    have hmono : before (offsetCounts f) (y + 1) ≤ before (offsetCounts f) i :=
      before_mono _ (by omega)
    omega
  | succ n ih =>
    have hi : i < entries := by omega
    obtain ⟨t', ht', hserves, hslot, -⟩ := h.fetch_of_small (by decide) hi hsmall
    have hend : before (offsetCounts f) (i + 1) ≤ coveredSamples f entries := before_mono _ hi
    have hcount' : (sampleCount + (f.entry i).sampleCount).toNat =
        before (offsetCounts f) (i + 1) := by
      rw [UInt32.toNat_add, hcount]
      exact Nat.mod_eq_of_lt (Nat.lt_of_le_of_lt hend hcovered)
    rw [offsetScan, ht', bind_some, hslot]
    by_cases hle : sampleCount + (f.entry i).sampleCount ≤ a
    · rw [if_pos hle]
      have hle' := UInt32.le_iff_toNat_le.mp hle
      rw [hcount'] at hle'
      exact ih hserves (by omega) hcount' hle'
    · rw [if_neg hle]
      have hlt := UInt32.lt_iff_toNat_lt.mp (UInt32.not_le.mp hle)
      rw [hcount'] at hlt
      refine ⟨t', _, rfl, fun hbehind => by omega, fun y hy hley hlty => ?_⟩
      rw [run_unique _ hley hlty hpassed hlt]

theorem offsetScan_returns
    {a : UInt32} {n i : Nat} {sampleCount : UInt32}
    (h : Serves f offsetThreshold entries mode t) (hn : i + n = entries) :
    ∃ r, offsetScan f mode a n i sampleCount t = some r := by
  induction n generalizing i sampleCount t with
  | zero => exact ⟨_, rfl⟩
  | succ n ih =>
    obtain ⟨t', ht', hserves, -⟩ :=
      h.fetch_of_small (by decide) (show i < entries by omega) hsmall
    rw [offsetScan, ht', bind_some]
    split
    · exact ih hserves (by omega)
    · exact ⟨_, rfl⟩

end

/-- No table has an entry with sample `2^32 - 1`. -/
theorem offsetScan_last {n i : Nat} {sampleCount : UInt32}
    {r : StblTable OffsetEntry × OffsetAnswer}
    (he : offsetScan f mode 4294967295 n i sampleCount t = some r) :
    r.2 = (.defaultError, none) := by
  induction n generalizing i sampleCount t with
  | zero =>
    cases he
    rfl
  | succ n ih =>
    rw [offsetScan] at he
    obtain ⟨t', -, he⟩ := bind_eq_some_iff.mp he
    have hle : sampleCount + (t'.slot i).sampleCount ≤ 4294967295 := by
      rw [UInt32.le_iff_toNat_le]
      exact Nat.le_of_lt_succ (UInt32.toNat_lt _)
    rw [if_pos hle] at he
    exact ih he

/-! ## 6. The resumed scan -/

/-- The running count of a scan resumed at entry `first` with this count, before it looks at entry
    `first + d`: entries that reach sample `n` are not counted. -/
def passed (f : EntryFile OffsetEntry) (n resumedAt : UInt32) (first : Nat) : Nat → UInt32
  | 0 => resumedAt
  | d + 1 =>
    if n < passed f n resumedAt first d + (f.entry (first + d)).sampleCount then
      passed f n resumedAt first d
    else passed f n resumedAt first d + (f.entry (first + d)).sampleCount

/-- Entry `first + d` reaches sample `n`. -/
def Reaches (f : EntryFile OffsetEntry) (n resumedAt : UInt32) (first d : Nat) : Prop :=
  n < passed f n resumedAt first d + (f.entry (first + d)).sampleCount

/-- Entry `z` is the last one that reaches sample `n`, in a scan resumed at `first`. -/
def Resumed (f : EntryFile OffsetEntry) (entries : Nat) (n resumedAt : UInt32) (first z : Nat) :
    Prop :=
  first ≤ z ∧ z < entries ∧ Reaches f n resumedAt first (z - first) ∧
    ∀ j, z < j → j < entries → ¬ Reaches f n resumedAt first (j - first)

/-- **The resumed scan** ends with the offset of the last entry that reaches the sample. -/
theorem markerScan_spec (hsmall : mode = true → entries + offsetThreshold ≤ 4294967296)
    {a resumedAt : UInt32} {first : Nat} {k d : Nat} {answer : OffsetAnswer}
    (h : Serves f offsetThreshold entries mode t) (hk : first + d + k = entries) :
    ∃ t' answer', markerScan f mode a k (first + d) (passed f a resumedAt first d) answer t =
        some (t', answer') ∧
      (((∀ j, d ≤ j → first + j < entries → ¬ Reaches f a resumedAt first j) ∧ answer' = answer) ∨
        ∃ z, d ≤ z ∧ first + z < entries ∧ Reaches f a resumedAt first z ∧
          (∀ j, z < j → first + j < entries → ¬ Reaches f a resumedAt first j) ∧
          answer' = (.everythingFine, some (f.entry (first + z)).sampleOffset)) := by
  induction k generalizing d t answer with
  | zero => exact ⟨t, answer, rfl, inl ⟨fun j hj hlt => by omega, rfl⟩⟩
  | succ k ih =>
    obtain ⟨t', ht', hserves, hslot, -⟩ :=
      h.fetch_of_small (by decide) (show first + d < entries by omega) hsmall
    rw [markerScan, ht', bind_some, hslot]
    by_cases hreach : Reaches f a resumedAt first d
    · have hpassed : passed f a resumedAt first d = passed f a resumedAt first (d + 1) := by
        rw [passed]
        exact (if_pos hreach).symm
      have hreach' := hreach
      unfold Reaches at hreach'
      rw [if_pos hreach', hpassed]
      obtain ⟨t₂, answer', he, hlast⟩ := @ih t' (d + 1)
        (.everythingFine, some (f.entry (first + d)).sampleOffset) hserves (by omega)
      refine ⟨t₂, answer', he, inr ?_⟩
      obtain ⟨hnone, hanswer⟩ | ⟨z, hz, hrest⟩ := hlast
      · exact ⟨d, Nat.le_refl d, by omega, hreach, fun j hj hlt => hnone j hj hlt, hanswer⟩
      · exact ⟨z, by omega, hrest⟩
    · have hpassed : passed f a resumedAt first (d + 1) =
          passed f a resumedAt first d + (f.entry (first + d)).sampleCount := by
        rw [passed]
        exact if_neg hreach
      have hreach' := hreach
      unfold Reaches at hreach'
      rw [if_neg hreach', ← hpassed]
      obtain ⟨t₂, answer', he, hlast⟩ := @ih t' (d + 1) answer hserves (by omega)
      refine ⟨t₂, answer', he, ?_⟩
      obtain ⟨hnone, hanswer⟩ | ⟨z, hz, hrest⟩ := hlast
      · refine inl ⟨fun j hj hlt => ?_, hanswer⟩
        obtain rfl | hj := Nat.eq_or_lt_of_le hj
        · exact hreach
        · exact hnone j hj hlt
      · exact inr ⟨z, by omega, hrest⟩

/-- The marker the loop steps back to. -/
def steppedBack (m : MarkerTable) (n : UInt32) : Nat → Nat
  | 0 => 0
  | k + 1 => if n < m.sampleCount (k + 1) then steppedBack m n k else k + 1

theorem backtrack_eq (n : UInt32) {k : Nat} (hk : k < m.size) :
    m.backtrack n k = some (steppedBack m n k) := by
  induction k with
  | zero =>
    unfold MarkerTable.backtrack
    exact if_pos hk
  | succ k ih =>
    unfold MarkerTable.backtrack steppedBack
    rw [if_pos hk]
    by_cases hlt : n < m.sampleCount (k + 1)
    · rw [if_pos hlt, if_pos hlt]
      exact ih (Nat.lt_of_succ_lt hk)
    · rw [if_neg hlt, if_neg hlt]

/-- Where the sample lies before the marker, the marker is the first. -/
theorem steppedBack_eq_zero {n : UInt32} {k : Nat}
    (hlt : n < m.sampleCount (steppedBack m n k)) : steppedBack m n k = 0 := by
  induction k with
  | zero => rfl
  | succ k ih =>
    unfold steppedBack at hlt ⊢
    by_cases hgo : n < m.sampleCount (k + 1)
    · rw [if_pos hgo] at hlt ⊢
      exact ih hlt
    · rw [if_neg hgo] at hlt
      exact absurd hlt hgo

/-- The guess lies in a table that has a marker. -/
theorem guess_lt (hsize : 0 < a.tableSize.toNat) (n : UInt32) :
    (guess n a).toNat < a.tableSize.toNat := by
  have hone : (1 : UInt32) ≤ a.tableSize := UInt32.le_iff_toNat_le.mpr hsize
  have hlast : (a.tableSize - 1).toNat = a.tableSize.toNat - 1 := by
    rw [UInt32.toNat_sub_of_le _ _ hone, UInt32.toNat_one]
  have hbound : (if a.tableSize - 1 < n / (mtSampleCountIncrement - 1) then a.tableSize - 1
      else n / (mtSampleCountIncrement - 1)).toNat < a.tableSize.toNat := by
    split
    · omega
    · next hle =>
        have hle' := UInt32.le_iff_toNat_le.mp (UInt32.not_lt.mp hle)
        omega
  unfold guess
  dsimp only
  generalize (if a.tableSize - 1 < n / (mtSampleCountIncrement - 1) then a.tableSize - 1
      else n / (mtSampleCountIncrement - 1)) = mtEC at hbound
  split
  · next hlt =>
      have hlt' := UInt32.lt_iff_toNat_lt.mp hlt
      omega
  · exact hbound

/-- Without a marker the first access is outside the arrays. -/
theorem backtrack_none (hsize : m.size = 0) (n : UInt32) (k : Nat) :
    m.backtrack n k = none := by
  cases k with
  | zero | succ k =>
    unfold MarkerTable.backtrack
    exact if_neg (by omega)

/-- The marker a call for sample `n` starts from. -/
def startMarker (a : CompositionOffsetAtom) (m : MarkerTable) (n : UInt32) : Nat :=
  steppedBack m n (guess n a).toNat

/-- The offset a call through the marker table ends with is the one of this entry: entry 0 where
    the sample lies before its marker, else the last entry behind the marker's that reaches it. -/
def EndsAt (f : EntryFile OffsetEntry) (entries : Nat) (a : CompositionOffsetAtom) (m : MarkerTable)
    (n : UInt32) (z : Nat) : Prop :=
  (n < m.sampleCount (startMarker a m n) ∧ z = 0) ∨
    (m.sampleCount (startMarker a m n) ≤ n ∧
      Resumed f entries n (m.sampleCount (startMarker a m n))
        (m.entryCount (startMarker a m n) + 1).toNat z)

/-- **A call through the marker table**. -/
theorem getTimeOffset_markers
    (h : HoldsOffsets f entries a) (hm : HoldsMarkers a m) (hpos : 0 < entries)
    (hsize : 0 < a.tableSize.toNat) (n : UInt32) :
    ∃ a' offset, getTimeOffsetForSampleNumber f n a = some (a', .everythingFine, offset) ∧
      ∀ o, offset = some o ↔ ∃ z, EndsAt f entries a m n z ∧ (f.entry z).sampleOffset = o := by
  obtain ⟨⟨t, ht, hserves⟩, hsmall⟩ := h
  have hk : (guess n a).toNat < m.size := by
    rw [hm.size]
    exact guess_lt hsize n
  have hcall : getTimeOffsetForSampleNumber f n a =
      (getTimeOffsetFromMT f a.parsingMode n (m.entryCount (startMarker a m n))
        (m.sampleCount (startMarker a m n)) t).map fun r =>
          ({ a with table := some r.1 }, .everythingFine, r.2.2) := by
    unfold getTimeOffsetForSampleNumber
    rw [hm.markers]
    dsimp only
    rw [backtrack_eq n hk, bind_some, ht]
    rfl
  rw [hcall]
  unfold getTimeOffsetFromMT EndsAt
  by_cases hlt : n < m.sampleCount (startMarker a m n)
  · have hzero : startMarker a m n = 0 := steppedBack_eq_zero hlt
    have hentry : (m.entryCount (startMarker a m n)).toNat = 0 := by
      rw [hzero, hm.first]
      rfl
    obtain ⟨t', ht', -, hslot, -⟩ := hserves.fetch_of_small (by decide) hpos hsmall
    rw [if_pos hlt, hentry, ht', map_some, map_some, hslot]
    refine ⟨_, _, rfl, fun o => ⟨fun ho => ⟨0, inl ⟨hlt, rfl⟩, some.inj ho⟩, ?_⟩⟩
    rintro ⟨z, ⟨-, rfl⟩ | ⟨hle, -⟩, ho⟩
    · rw [ho]
    · exact absurd hlt (UInt32.not_lt.mpr hle)
  · have hle := UInt32.not_lt.mp hlt
    rw [if_neg hlt, hserves.entryCount_eq]
    generalize hfirst : (m.entryCount (startMarker a m n) + 1).toNat = first
    generalize m.sampleCount (startMarker a m n) = resumedAt at hle hlt
    by_cases hin : first ≤ entries
    · obtain ⟨t', answer, he, hlast⟩ := @markerScan_spec f entries a.parsingMode t hsmall n
        resumedAt first (entries - first) 0 (.defaultError, none) hserves (by omega)
      rw [Nat.add_zero] at he
      have he' : markerScan f a.parsingMode n (entries - first) first resumedAt
          (.defaultError, none) t = some (t', answer) := he
      rw [he', map_some]
      refine ⟨_, _, rfl, fun o => ?_⟩
      obtain ⟨hnone, rfl⟩ | ⟨z, -, hz, hreach, hnext, rfl⟩ := hlast
      · refine ⟨(fun ho => by cases ho), ?_⟩
        rintro ⟨z, ⟨hlt', -⟩ | ⟨-, hfz, hz, hreach, -⟩, ho⟩
        · exact absurd hlt' hlt
        · exact absurd hreach (hnone (z - first) (Nat.zero_le _) (by omega))
      · have hresumed : Resumed f entries n resumedAt first (first + z) := by
          refine ⟨by omega, hz, ?_, fun j hj hje => hnext (j - first) (by omega) (by omega)⟩
          rw [Nat.add_sub_cancel_left]
          exact hreach
        refine ⟨fun ho => ⟨first + z, inr ⟨hle, hresumed⟩, some.inj ho⟩, ?_⟩
        rintro ⟨z', ⟨hlt', -⟩ | ⟨-, hfz, hz', hreach', hnext'⟩, ho⟩
        · exact absurd hlt' hlt
        · have hsame : z' = first + z := by
            rcases Nat.lt_trichotomy z' (first + z) with hlt' | heq | hgt
            · refine absurd ?_ (hnext' (first + z) hlt' hz)
              rw [Nat.add_sub_cancel_left]
              exact hreach
            · exact heq
            · exact absurd hreach' (hnext (z' - first) (by omega) (by omega))
          rw [← ho, hsame]
    · rw [Nat.sub_eq_zero_of_le (by omega)]
      refine ⟨_, _, rfl, fun o => ⟨(fun ho => by cases ho), ?_⟩⟩
      rintro ⟨z, ⟨hlt', -⟩ | ⟨-, hfz, hz, -, -⟩, ho⟩
      · exact absurd hlt' hlt
      · omega

/-- Without an element in the marker arrays a call reads outside them. -/
theorem not_agrees_of_size (hm : HoldsMarkers a m)
    (hsize : m.size = 0) (n : UInt32) : ¬ Agrees f a n := by
  rintro ⟨answer, he, -⟩
  unfold getTimeOffsetForSampleNumber at he
  rw [hm.markers] at he
  dsimp only at he
  rw [backtrack_none hsize] at he
  cases he

/-- **Agreement for one number**, once there is a marker table. -/
theorem agrees_iff (h : HoldsOffsets f entries a)
    (hm : HoldsMarkers a m) (hpos : 0 < entries)
    (hcovered : coveredSamples f entries < 4294967296) (n : UInt32) :
    Agrees f a n ↔ 0 < m.size ∧ ∃ y < entries, before (offsetCounts f) y ≤ n.toNat ∧
      n.toNat < before (offsetCounts f) (y + 1) ∧
      ∃ z, EndsAt f entries a m n z ∧ (f.entry z).sampleOffset = (f.entry y).sampleOffset := by
  obtain hzero | hsize := Nat.eq_zero_or_pos m.size
  · exact ⟨fun h => absurd h (not_agrees_of_size hm hzero n), fun h => by omega⟩
  obtain ⟨a', offset, hcall, hoffset⟩ :=
    getTimeOffset_markers h hm hpos (by rw [← hm.size]; exact hsize) n
  obtain ⟨t, ht, hserves⟩ := h.table
  obtain ⟨t', answer, hscan, hbehind, hinside⟩ := offsetScan_spec h.small hcovered hserves
    (Nat.zero_add entries) (show (0 : UInt32).toNat = before (offsetCounts f) 0 from rfl)
    (Nat.zero_le n.toNat)
  have hlinear : (linearScan f n a).map snd = some answer := by
    unfold linearScan
    rw [ht]
    dsimp only
    rw [hserves.entryCount_eq, hscan]
    rfl
  unfold Agrees
  rw [hcall, hlinear]
  constructor
  · rintro ⟨answer', he, hans⟩
    cases he
    refine ⟨hsize, ?_⟩
    rcases Nat.lt_or_ge n.toNat (coveredSamples f entries) with hin | hge
    · obtain ⟨y, hy, hle, hlt⟩ := exists_run (offsetCounts f) hin
      rw [hinside y hy hle hlt] at hans
      obtain ⟨z, hz, hsame⟩ := (hoffset (f.entry y).sampleOffset).mp
        (congrArg snd (some.inj hans)).symm
      exact ⟨y, hy, hle, hlt, z, hz, hsame⟩
    · rw [hbehind hge] at hans
      cases hans
  · rintro ⟨-, y, hy, hle, hlt, z, hz, hsame⟩
    have hoff := (hoffset (f.entry y).sampleOffset).mpr ⟨z, hz, hsame⟩
    rw [hinside y hy hle hlt, hoff]
    exact ⟨_, rfl, rfl⟩

/-- With a marker table number `2^32 - 1` is found, without one it is not. -/
theorem not_agrees_last (h : HoldsOffsets f entries a)
    (hm : HoldsMarkers a m) (hpos : 0 < entries) : ¬ Agrees f a 4294967295 := by
  obtain hzero | hsize := Nat.eq_zero_or_pos m.size
  · exact not_agrees_of_size hm hzero _
  obtain ⟨a', offset, hcall, -⟩ :=
    getTimeOffset_markers h hm hpos (by rw [← hm.size]; exact hsize) 4294967295
  rintro ⟨answer, he, hscan⟩
  rw [hcall] at he
  cases he
  obtain ⟨t, ht, -⟩ := h.table
  unfold linearScan at hscan
  rw [ht] at hscan
  dsimp only at hscan
  rw [map_map] at hscan
  obtain ⟨r, hr, hans⟩ := map_eq_some_iff.mp hscan
  have hlast := offsetScan_last hr
  rw [Function.comp_apply] at hans
  dsimp only at hans
  rw [hlast] at hans
  cases hans

/-- A new atom agrees with the plain scan: it is the plain scan. -/
theorem agrees_new {mode : Bool} (total : UInt32)
    (hsmall : mode = true → entryCount.toNat + offsetThreshold ≤ 4294967296) (n : UInt32) :
    Agrees f (setSamplesCount total (create f mode entryCount total)) n := by
  have hreturns : ∃ answer, (linearScan f n
      (setSamplesCount total (create f mode entryCount total))).map snd = some answer := by
    unfold linearScan
    by_cases hpos : 0 < entryCount.toNat
    · obtain ⟨⟨t, ht, hserves⟩, hsmall'⟩ := holdsOffsets_create (f := f) total hpos hsmall
      have ht' : (setSamplesCount total (create f mode entryCount total)).table = some t := ht
      rw [ht']
      dsimp only
      obtain ⟨r, hr⟩ := offsetScan_returns (a := n) hsmall' hserves (Nat.zero_add entryCount.toNat)
      rw [hserves.entryCount_eq]
      have hr' : offsetScan f (setSamplesCount total (create f mode entryCount total)).parsingMode n
          entryCount.toNat 0 0 t = some r := hr
      rw [hr']
      exact ⟨_, rfl⟩
    · have hnone : (setSamplesCount total (create f mode entryCount total)).table = none :=
        if_neg hpos
      rw [hnone]
      exact ⟨_, rfl⟩
  obtain ⟨answer, hscan⟩ := hreturns
  exact ⟨answer, hscan, hscan⟩

end CompositionOffsetAtom

open CompositionOffsetAtom

/-- **Offsets through the marker table** agree with the plain scan for every number exactly as long
    as nothing has run, or the table is too short for a run. Once there is a marker table, a number
    agrees exactly where the arrays have an element, an entry has the sample, and the resumed scan
    ends at an entry with that entry's offset. -/
theorem marker_table_right_iff {f : EntryFile OffsetEntry} {mode : Bool}
    {entryCount total : UInt32} {k : Nat}
    (hsmall : mode = true → entryCount.toNat + offsetThreshold ≤ 4294967296) :
    ((∃ a, stage f mode entryCount total k = some a ∧ ∀ n, Agrees f a n) ↔
        k = 0 ∨ entryCount.toNat ≤ enableMTLogicOnCttsEntryCountValue) ∧
      (coveredSamples f entryCount.toNat < 4294967296 →
        ∀ a m, stage f mode entryCount total k = some a → a.markers = some m → ∀ n : UInt32,
          (Agrees f a n ↔ 0 < m.size ∧ ∃ y < entryCount.toNat,
            before (offsetCounts f) y ≤ n.toNat ∧ n.toNat < before (offsetCounts f) (y + 1) ∧
            ∃ z, EndsAt f entryCount.toNat a m n z ∧
              (f.entry z).sampleOffset = (f.entry y).sampleOffset)) := by
  refine ⟨⟨?_, fun hnone => ?_⟩, fun hcovered a m he hm n => ?_⟩
  · rintro ⟨a, he, hall⟩
    obtain ⟨hnone, -⟩ | ⟨-, hlong, h, m, hm⟩ := stage_cases he hsmall
    · exact hnone
    · exact absurd (hall 4294967295) (not_agrees_last h hm (Nat.zero_lt_of_lt hlong))
  · refine ⟨setSamplesCount total (create f mode entryCount total), ?_, agrees_new total hsmall⟩
    unfold stage
    cases k with
    | zero => rfl
    | succ k =>
      obtain h0 | hshort := hnone
      · exact absurd h0 (Nat.succ_ne_zero k)
      · rw [runs, if_neg fun hready => Nat.not_lt_of_le hshort
          ((ready_setSamplesCount total).mp hready)]
  · obtain ⟨-, rfl⟩ | ⟨-, hlong, h, m', hm'⟩ := stage_cases he hsmall
    · cases hm
    · rw [hm'.markers] at hm
      cases hm
      exact agrees_iff h hm' (Nat.zero_lt_of_lt hlong) hcovered n

/-- Three entries are too few for a marker table, whatever the scheduler does. -/
theorem marker_table_right_three :
    ∃ a, stage ⟨16, 8, fun k _ => ⟨2, UInt32.ofNat k⟩⟩ false 3 6 4 = some a ∧
      ∀ n, Agrees ⟨16, 8, fun k _ => ⟨2, UInt32.ofNat k⟩⟩ a n :=
  (marker_table_right_iff fun h => absurd h Bool.false_ne_true).1.mpr (inr (by decide))

/-- 600 entries of one sample each, with their indices as offsets. -/
def indexOffsets : EntryFile OffsetEntry where
  headOffset := 16
  entrySize := 8
  readAt := fun k _ => ⟨1, UInt32.ofNat k⟩

/-- After one run the offset of sample 5 is that of sample 599. -/
theorem marker_table_overruns :
    ¬ ∃ a, stage indexOffsets false 600 600 1 = some a ∧ ∀ n, Agrees indexOffsets a n := by
  rintro ⟨a, he, hall⟩
  obtain ⟨answer, hcall, hscan⟩ := hall 5
  have hmarked : ((stage indexOffsets false 600 600 1).bind fun a =>
      (getTimeOffsetForSampleNumber indexOffsets 5 a).map snd) =
      some (.everythingFine, some 599) := by decide +kernel
  have hplain : ((stage indexOffsets false 600 600 1).bind fun a =>
      (linearScan indexOffsets 5 a).map snd) = some (.everythingFine, some 5) := by
    decide +kernel
  rw [he, bind_some] at hmarked hplain
  rw [hmarked] at hcall
  rw [hplain, ← hcall] at hscan
  exact absurd hscan (by decide)

end OpenCore.Mp4
