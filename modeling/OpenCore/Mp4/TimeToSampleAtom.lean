/-
  File:      OpenCore/Mp4/TimeToSampleAtom.lean
  Subject:   `TimeToSampleAtom` (timetosampleatom.cpp): counts, deltas, time stamps and sample
             numbers from the time-to-sample table, through the window and from memory.

  The search by time stamp steps back one entry to find the place inside it. Each loop is one
  function over the number of turns left.

  * `stopByCount`, `stopByTime` -- the entry a scan stops at.

  **Main result**: `windowed_tables_answer_as_whole`.
-/
import OpenCore.Mp4.ChunkOffsetAtom

namespace OpenCore.Mp4

open ChunkOffsetAtom (InTable getChunkOffsetAt)

/-- An entry: so many samples with this distance in time. -/
structure TimeEntry where
  sampleCount : UInt32
  sampleDelta : UInt32
  deriving DecidableEq, Repr

/-- `MEDIA_TYPE_VISUAL`. -/
def mediaTypeVisual : UInt32 := 0x76696465

/-- The members the queries work on; no table where the arrays are `NULL`. -/
structure TimeToSampleAtom where
  mediaType : UInt32
  parsingMode : Bool
  table : Option (StblTable TimeEntry)

namespace TimeToSampleAtom

/-! ## 1. The scans -/

variable (f : EntryFile TimeEntry) (parsingMode : Bool)

/-- `if (_parsing_mode == 1) CheckAndParseEntry(i);` -/
def fetch (i : Nat) (t : StblTable TimeEntry) : Option (StblTable TimeEntry) :=
  t.fetch f tableEntriesThresholdFile parsingMode i

/-- The loop of `GetTimeDeltaForSampleNumber`, `n` entries left from `i` on. -/
def deltaScan (aNumber : UInt32) :
    Nat → Nat → UInt32 → StblTable TimeEntry →
      Option (StblTable TimeEntry × Mp4ErrorCode × Option UInt32)
  | 0, _, _, t => some (t, .readFailed, none)
  | n + 1, i, sampleCount, t =>
    (fetch f parsingMode i t).bind fun t =>
      if aNumber ≤ sampleCount + (t.slot i).sampleCount then
        some (t, .everythingFine, some (t.slot i).sampleDelta)
      else deltaScan aNumber n (i + 1) (sampleCount + (t.slot i).sampleCount) t

/-- The loop of `GetTimestampForSampleNumber`. Count times delta is a product of `uint32`s. -/
def timestampScan (aSampleNumber : UInt32) :
    Nat → Nat → UInt32 → UInt64 → StblTable TimeEntry →
      Option (StblTable TimeEntry × Mp4ErrorCode × Option UInt64)
  | 0, _, _, _, t => some (t, .readFailed, none)
  | n + 1, i, sampleCount, ts, t =>
    (fetch f parsingMode i t).bind fun t =>
      if aSampleNumber ≤ sampleCount + (t.slot i).sampleCount then
        let count := aSampleNumber - sampleCount
        some (t, .everythingFine, some (ts + ((t.slot i).sampleDelta * count).toUInt64))
      else
        timestampScan aSampleNumber n (i + 1) (sampleCount + (t.slot i).sampleCount)
          (ts + ((t.slot i).sampleDelta * (t.slot i).sampleCount).toUInt64) t

/-- `while (timeCount <= aTimeStamp) { timeCount += delta; sampleCount += 1; }`; a loop that has
    not ended after as many turns as there are values of `timeCount` never does. -/
def backtrack (aTimeStamp : UInt64) (delta : UInt32) :
    Nat → UInt64 → UInt32 → Option UInt32
  | 0, _, _ => none
  | fuel + 1, timeCount, sampleCount =>
    if timeCount ≤ aTimeStamp then
      backtrack aTimeStamp delta fuel (timeCount + delta.toUInt64) (sampleCount + 1)
    else some sampleCount

/-- `if (sampleCount > 0) sampleCount--;` -/
def stepBack (sampleCount : UInt32) : UInt32 :=
  if 0 < sampleCount then sampleCount - 1 else sampleCount

/-- The walk through the last run in `GetSampleNumberFromTimestamp`, `n` samples left. -/
def lastRun (mediaType : UInt32) (oAlwaysRetSampleCount : Bool) (aTimeStamp : UInt64) (delta : UInt32) :
    Nat → UInt64 → UInt32 → Mp4ErrorCode × Option UInt32
  | 0, timeCount, sampleCount =>
    let sampleCount := sampleCount + 1
    if timeCount ≤ aTimeStamp ∧ (oAlwaysRetSampleCount ∨ mediaType = mediaTypeVisual) then
      (.everythingFine, some sampleCount)
    else (.defaultError, none)
  | n + 1, timeCount, sampleCount =>
    let timeCount := timeCount + delta.toUInt64
    let sampleCount := sampleCount + 1
    if aTimeStamp < timeCount then (.everythingFine, some (stepBack sampleCount))
    else if timeCount = aTimeStamp then (.everythingFine, some sampleCount)
    else lastRun mediaType oAlwaysRetSampleCount aTimeStamp delta n timeCount sampleCount

/-- The loop of `GetSampleNumberFromTimestamp` and what follows it. -/
def sampleNumberScan (mediaType : UInt32) (oAlwaysRetSampleCount : Bool) (aTimeStamp : UInt64) :
    Nat → Nat → UInt32 → UInt64 → StblTable TimeEntry →
      Option (StblTable TimeEntry × Mp4ErrorCode × Option UInt32)
  | 0, _, sampleCount, timeCount, t =>
    let samples := (t.slot (t.entryCount - 1)).sampleCount
    let delta := (t.slot (t.entryCount - 1)).sampleDelta
    some (t, lastRun mediaType oAlwaysRetSampleCount aTimeStamp delta (samples - 1).toNat
      (timeCount - (delta * samples).toUInt64) (sampleCount - samples))
  | n + 1, i, sampleCount, timeCount, t =>
    (fetch f parsingMode i t).bind fun t =>
      if aTimeStamp < timeCount then
        -- the sample lies in the entry before
        (fetch f parsingMode (sub32 i 1) t).bind fun t =>
          let samples := (t.slot (sub32 i 1)).sampleCount
          let delta := (t.slot (sub32 i 1)).sampleDelta
          (backtrack aTimeStamp delta 18446744073709551617
            (timeCount - (delta * samples).toUInt64) (sampleCount - samples)).map fun sampleCount =>
              (t, .everythingFine, some (stepBack sampleCount))
      else if aTimeStamp = timeCount then some (t, .everythingFine, some sampleCount)
      else
        sampleNumberScan mediaType oAlwaysRetSampleCount aTimeStamp n (i + 1)
          (sampleCount + (t.slot i).sampleCount)
          (timeCount + ((t.slot i).sampleDelta * (t.slot i).sampleCount).toUInt64) t

/-! ## 2. The queries -/

inductive Query where
  | getSampleCountAt (aIndex : UInt32)
  | getTimeDeltaForSampleNumber (aNumber : UInt32)
  | getTimestampForSampleNumber (aSampleNumber : UInt32)
  | getSampleNumberFromTimestamp (aTimeStamp : UInt64) (oAlwaysRetSampleCount : Bool)
  deriving DecidableEq, Repr

/-- What a query returns: the code, and the value it sets, if it sets one. -/
abbrev Answer := Mp4ErrorCode × Option UInt64

/-- An answer of 32 bits. -/
def widen (r : Mp4ErrorCode × Option UInt32) : Answer := (r.1, r.2.map UInt32.toUInt64)

/-- The code for a query of an atom whose arrays are `NULL`. -/
def Query.onNull : Query → Answer
  | .getSampleCountAt _ => (.readFailed, none)
  | .getTimeDeltaForSampleNumber _ => (.readFailed, none)
  | .getTimestampForSampleNumber _ => (.readFailed, none)
  | .getSampleNumberFromTimestamp _ _ => (.defaultError, none)

/-- A query of a table that is there. -/
def queryTable (mediaType : UInt32) (t : StblTable TimeEntry) :
    Query → Option (StblTable TimeEntry × Answer)
  | .getSampleCountAt aIndex =>
    if aIndex.toNat < t.entryCount then
      (fetch f parsingMode aIndex.toNat t).map fun t =>
        (t, .everythingFine, some (t.slot aIndex.toNat).sampleCount.toUInt64)
    else some (t, .readFailed, none)
  | .getTimeDeltaForSampleNumber aNumber =>
    if aNumber = 0 then some (t, .everythingFine, some 0)
    else (deltaScan f parsingMode aNumber t.entryCount 0 0 t).map fun r => (r.1, widen r.2)
  | .getTimestampForSampleNumber aSampleNumber =>
    if aSampleNumber = 0 then some (t, .everythingFine, some 0)
    else timestampScan f parsingMode aSampleNumber t.entryCount 0 0 0 t
  | .getSampleNumberFromTimestamp aTimeStamp oAlwaysRetSampleCount =>
    (sampleNumberScan f parsingMode mediaType oAlwaysRetSampleCount aTimeStamp t.entryCount 0 0 0
      t).map fun r => (r.1, widen r.2)

/-- A query of the atom: `GetSampleCountAt`, `GetTimeDeltaForSampleNumber`,
    `GetTimestampForSampleNumber`, `GetSampleNumberFromTimestamp`. -/
def query (a : TimeToSampleAtom) (q : Query) : Option (TimeToSampleAtom × Answer) :=
  match a.table with
  | none => some (a, q.onNull)
  | some t =>
    (queryTable f a.parsingMode a.mediaType t q).map fun r => ({ a with table := some r.1 }, r.2)

/-- The constructor, all file reads succeeding. -/
def create (mediaType : UInt32) (entryCount : UInt32) : TimeToSampleAtom :=
  if 0 < entryCount.toNat then
    if parsingMode ∧ entryCount.toNat > maxCachedTableEntriesFile then
      { mediaType := mediaType
        parsingMode := true
        table := some (.windowed f entryCount.toNat maxCachedTableEntriesFile fun _ => ⟨0, 0⟩) }
    else
      { mediaType := mediaType
        parsingMode := false
        table := some (.whole f entryCount.toNat) }
  else
    { mediaType := mediaType
      parsingMode := parsingMode
      table := none }

/-! ## 3. Where a scan stops -/

/-- The entry at which the scans by sample number stop: the first whose running count reaches the
    number, or the table's end. -/
def stopByCount (e : Nat → TimeEntry) (aNumber : UInt32) : Nat → Nat → UInt32 → Nat
  | 0, i, _ => i
  | n + 1, i, sampleCount =>
    if aNumber ≤ sampleCount + (e i).sampleCount then i
    else stopByCount e aNumber n (i + 1) (sampleCount + (e i).sampleCount)

/-- The entry at which the scan by time stamp stops: the first whose start is not before it. -/
def stopByTime (e : Nat → TimeEntry) (aTimeStamp : UInt64) : Nat → Nat → UInt64 → Nat
  | 0, i, _ => i
  | n + 1, i, timeCount =>
    if aTimeStamp ≤ timeCount then i
    else stopByTime e aTimeStamp n (i + 1)
      (timeCount + ((e i).sampleDelta * (e i).sampleCount).toUInt64)

variable {e : Nat → TimeEntry}

theorem le_stopByCount (aNumber : UInt32) (n i : Nat) (sampleCount : UInt32) :
    i ≤ stopByCount e aNumber n i sampleCount := by
  induction n generalizing i sampleCount with
  | zero => exact Nat.le_refl i
  | succ n ih =>
    unfold stopByCount
    split
    · exact Nat.le_refl i
    · exact Nat.le_trans (Nat.le_succ i) (ih (i + 1) _)

theorem le_stopByTime (aTimeStamp : UInt64) (n i : Nat) (timeCount : UInt64) :
    i ≤ stopByTime e aTimeStamp n i timeCount := by
  induction n generalizing i timeCount with
  | zero => exact Nat.le_refl i
  | succ n ih =>
    unfold stopByTime
    split
    · exact Nat.le_refl i
    · exact Nat.le_trans (Nat.le_succ i) (ih (i + 1) _)

/-- The entries of the table up to this one have an index that `ParseEntryUnit` can add its
    threshold to. -/
def SmallUpTo (entryCount last : Nat) : Prop :=
  ∀ i < entryCount, i ≤ last → i + tableEntriesThresholdFile < 4294967296

/-- A query that looks at no entry from `2^32 - threshold` on. -/
def SmallQuery (f : EntryFile TimeEntry) (entryCount : UInt32) : Query → Prop
  | .getSampleCountAt aIndex => SmallUpTo entryCount.toNat aIndex.toNat
  | .getTimeDeltaForSampleNumber aNumber =>
    SmallUpTo entryCount.toNat (stopByCount f.entry aNumber entryCount.toNat 0 0)
  | .getTimestampForSampleNumber aSampleNumber =>
    SmallUpTo entryCount.toNat (stopByCount f.entry aSampleNumber entryCount.toNat 0 0)
  | .getSampleNumberFromTimestamp aTimeStamp _ =>
    SmallUpTo entryCount.toNat (stopByTime f.entry aTimeStamp entryCount.toNat 0 0)

/-! ## 4. Either way of holding the table -/

section Twin

variable {f : EntryFile TimeEntry} {entryCount : Nat} {mode mode' : Bool}
  {t w : StblTable TimeEntry}

/-- Two holders of the same table. -/
def Twin (f : EntryFile TimeEntry) (entryCount : Nat) (mode mode' : Bool)
    (t w : StblTable TimeEntry) : Prop :=
  StblTable.Serves f tableEntriesThresholdFile entryCount mode t ∧
    StblTable.Serves f tableEntriesThresholdFile entryCount mode' w

/-- Both fetch an entry and go on with it. -/
theorem Twin.fetch_bind {A : Type} (h : Twin f entryCount mode mode' t w) {i : Nat}
    (hi : i < entryCount) (hsmall : i + tableEntriesThresholdFile < 4294967296)
    {k k' : StblTable TimeEntry → Option (StblTable TimeEntry × A)}
    (hk : ∀ t' w', Twin f entryCount mode mode' t' w' → t'.slot i = f.entry i →
      w'.slot i = f.entry i → SameAnswer (Twin f entryCount mode mode') (k t') (k' w')) :
    SameAnswer (Twin f entryCount mode mode') ((fetch f mode i t).bind k)
      ((fetch f mode' i w).bind k') := by
  obtain ⟨t', ht, hst, hti, -⟩ := h.1.fetch (by decide) hi hsmall
  obtain ⟨w', hw, hsw, hwi, -⟩ := h.2.fetch (by decide) hi hsmall
  have ht' : fetch f mode i t = some t' := ht
  have hw' : fetch f mode' i w = some w' := hw
  rw [ht', hw']
  exact hk t' w' ⟨hst, hsw⟩ hti hwi

theorem deltaScan_same (aNumber : UInt32) {n i : Nat} (sampleCount : UInt32)
    (h : Twin f entryCount mode mode' t w) (hn : i + n = entryCount)
    (hsmall : SmallUpTo entryCount (stopByCount f.entry aNumber n i sampleCount)) :
    SameAnswer (Twin f entryCount mode mode') (deltaScan f mode aNumber n i sampleCount t)
      (deltaScan f mode' aNumber n i sampleCount w) := by
  induction n generalizing i sampleCount t w with
  | zero => exact .of_eq_some h
  | succ n ih =>
    have hi : i < entryCount := by omega
    refine h.fetch_bind hi (hsmall i hi (le_stopByCount _ _ _ _)) ?_
    intro t' w' h' ht hw
    unfold stopByCount at hsmall
    rw [ht, hw]
    by_cases hstop : aNumber ≤ sampleCount + (f.entry i).sampleCount
    · rw [if_pos hstop, if_pos hstop]
      exact .of_eq_some h'
    · rw [if_neg hstop] at hsmall
      rw [if_neg hstop, if_neg hstop]
      exact ih _ h' (by omega) hsmall

theorem timestampScan_same (aSampleNumber : UInt32) {n i : Nat} (sampleCount : UInt32)
    (ts : UInt64) (h : Twin f entryCount mode mode' t w) (hn : i + n = entryCount)
    (hsmall : SmallUpTo entryCount (stopByCount f.entry aSampleNumber n i sampleCount)) :
    SameAnswer (Twin f entryCount mode mode')
      (timestampScan f mode aSampleNumber n i sampleCount ts t)
      (timestampScan f mode' aSampleNumber n i sampleCount ts w) := by
  induction n generalizing i sampleCount ts t w with
  | zero => exact .of_eq_some h
  | succ n ih =>
    have hi : i < entryCount := by omega
    refine h.fetch_bind hi (hsmall i hi (le_stopByCount _ _ _ _)) ?_
    intro t' w' h' ht hw
    unfold stopByCount at hsmall
    rw [ht, hw]
    by_cases hstop : aSampleNumber ≤ sampleCount + (f.entry i).sampleCount
    · rw [if_pos hstop, if_pos hstop]
      exact .of_eq_some h'
    · rw [if_neg hstop] at hsmall
      rw [if_neg hstop, if_neg hstop]
      exact ih _ _ h' (by omega) hsmall

theorem sampleNumberScan_same (mediaType : UInt32) (oAlwaysRetSampleCount : Bool)
    (aTimeStamp : UInt64) {n i : Nat} (sampleCount : UInt32) {timeCount : UInt64}
    (h : Twin f entryCount mode mode' t w) (hn : i + n = entryCount) (hpos : 0 < entryCount)
    (hstart : i = 0 → timeCount = 0)
    (hheld : 0 < i → t.slot (i - 1) = f.entry (i - 1) ∧ w.slot (i - 1) = f.entry (i - 1))
    (hsmall : SmallUpTo entryCount (stopByTime f.entry aTimeStamp n i timeCount)) :
    SameAnswer (Twin f entryCount mode mode')
      (sampleNumberScan f mode mediaType oAlwaysRetSampleCount aTimeStamp n i sampleCount timeCount
        t)
      (sampleNumberScan f mode' mediaType oAlwaysRetSampleCount aTimeStamp n i sampleCount timeCount
        w) := by
  induction n generalizing i sampleCount timeCount t w with
  | zero =>
    obtain ⟨ht, hw⟩ := hheld (by omega)
    have hlast : i - 1 = entryCount - 1 := by omega
    rw [hlast] at ht hw
    unfold sampleNumberScan
    dsimp only
    rw [h.1.entryCount_eq, h.2.entryCount_eq, ht, hw]
    exact .of_eq_some h
  | succ n ih =>
    have hi : i < entryCount := by omega
    have hsi := hsmall i hi (le_stopByTime _ _ _ _)
    refine h.fetch_bind hi hsi ?_
    intro t' w' h' ht hw
    by_cases hbefore : aTimeStamp < timeCount
    · rw [if_pos hbefore, if_pos hbefore]
      -- entry 0 starts at time 0, so there is an entry to step back to
      have hi0 : 0 < i := by
        obtain rfl | hi0 := Nat.eq_zero_or_pos i
        · rw [hstart rfl] at hbefore
          exact absurd hbefore (UInt64.not_lt.mpr UInt64.zero_le)
        · exact hi0
      have hsub : sub32 i 1 = i - 1 := sub32_eq hi0 (by omega)
      rw [hsub]
      refine h'.fetch_bind (by omega) (by omega) ?_
      intro t₂ w₂ h₂ ht₂ hw₂
      dsimp only
      rw [ht₂, hw₂]
      cases backtrack aTimeStamp (f.entry (i - 1)).sampleDelta 18446744073709551617
          (timeCount - ((f.entry (i - 1)).sampleDelta *
            (f.entry (i - 1)).sampleCount).toUInt64)
          (sampleCount - (f.entry (i - 1)).sampleCount) with
      | none => exact ⟨rfl, fun _ _ _ _ hnone => by cases hnone⟩
      | some sampleNumber => exact .of_eq_some h₂
    · rw [if_neg hbefore, if_neg hbefore]
      by_cases hhit : aTimeStamp = timeCount
      · rw [if_pos hhit, if_pos hhit]
        exact .of_eq_some h'
      · unfold stopByTime at hsmall
        have hgo : ¬ aTimeStamp ≤ timeCount := fun hle =>
          hhit (UInt64.le_antisymm hle (UInt64.not_lt.mp hbefore))
        rw [if_neg hgo] at hsmall
        rw [if_neg hhit, if_neg hhit, ht, hw]
        refine ih _ h' (by omega) (fun h0 => by omega) (fun _ => ?_) hsmall
        rw [Nat.add_sub_cancel]
        exact ⟨ht, hw⟩

theorem queryTable_same (mediaType : UInt32) {entryCount : UInt32} (hpos : 0 < entryCount.toNat)
    (h : Twin f entryCount.toNat mode mode' t w) {q : Query} (hq : SmallQuery f entryCount q) :
    SameAnswer (Twin f entryCount.toNat mode mode') (queryTable f mode mediaType t q)
      (queryTable f mode' mediaType w q) := by
  have hct := h.1.entryCount_eq
  have hcw := h.2.entryCount_eq
  cases q with
  | getSampleCountAt aIndex =>
    unfold queryTable
    dsimp only
    rw [hct, hcw]
    by_cases hi : aIndex.toNat < entryCount.toNat
    · rw [if_pos hi, if_pos hi, Option.map_eq_bind, Option.map_eq_bind]
      refine h.fetch_bind hi (hq _ hi (Nat.le_refl _)) ?_
      intro t' w' h' ht hw
      dsimp only [Function.comp_apply]
      rw [ht, hw]
      exact .of_eq_some h'
    · rw [if_neg hi, if_neg hi]
      exact .of_eq_some h
  | getTimeDeltaForSampleNumber aNumber =>
    unfold queryTable
    dsimp only
    rw [hct, hcw]
    by_cases h0 : aNumber = 0
    · rw [if_pos h0, if_pos h0]
      exact .of_eq_some h
    · rw [if_neg h0, if_neg h0]
      exact (deltaScan_same aNumber 0 h (Nat.zero_add _) hq).map (fun _ _ h => h) widen
  | getTimestampForSampleNumber aSampleNumber =>
    unfold queryTable
    dsimp only
    rw [hct, hcw]
    by_cases h0 : aSampleNumber = 0
    · rw [if_pos h0, if_pos h0]
      exact .of_eq_some h
    · rw [if_neg h0, if_neg h0]
      exact timestampScan_same aSampleNumber 0 0 h (Nat.zero_add _) hq
  | getSampleNumberFromTimestamp aTimeStamp oAlwaysRetSampleCount =>
    unfold queryTable
    dsimp only
    rw [hct, hcw]
    have hscan := sampleNumberScan_same mediaType oAlwaysRetSampleCount aTimeStamp 0 h
      (Nat.zero_add _) hpos (fun _ => rfl) (fun h0 => absurd h0 (Nat.lt_irrefl 0)) hq
    exact hscan.map (fun _ _ h => h) widen

end Twin

/-! ## 5. Runs -/

/-- The two kinds of atom beside each other: the same table, or none in either. -/
inductive Agree (f : EntryFile TimeEntry) (entryCount : Nat) :
    TimeToSampleAtom → TimeToSampleAtom → Prop where
  | none {a w : TimeToSampleAtom} (ha : a.table = none) (hw : w.table = none) :
      Agree f entryCount a w
  | table {a w : TimeToSampleAtom} (t u : StblTable TimeEntry) (hpos : 0 < entryCount)
      (ha : a.table = some t) (hw : w.table = some u) (hmedia : a.mediaType = w.mediaType)
      (htwin : Twin f entryCount a.parsingMode w.parsingMode t u) : Agree f entryCount a w

variable {f : EntryFile TimeEntry}

theorem Agree.query {a w : TimeToSampleAtom} {entryCount : UInt32}
    (h : Agree f entryCount.toNat a w) {q : Query} (hq : SmallQuery f entryCount q) :
    SameAnswer (Agree f entryCount.toNat) (a.query f q) (w.query f q) := by
  unfold TimeToSampleAtom.query
  cases h with
  | none ha hw =>
    rw [ha, hw]
    exact .of_eq_some (.none ha hw)
  | table t u hpos ha hw hmedia htwin =>
    rw [ha, hw]
    dsimp only
    have hsame := queryTable_same a.mediaType hpos htwin hq
    rw [← hmedia]
    have hnext : ∀ t' u', Twin f entryCount.toNat a.parsingMode w.parsingMode t' u' →
        Agree f entryCount.toNat { a with table := some t' }
          { mediaType := a.mediaType, parsingMode := w.parsingMode, table := some u' } :=
      fun t' u' htwin' => .table t' u' hpos rfl rfl rfl htwin'
    exact hsame.map hnext fun r => r

theorem create_agree (parsingMode : Bool) (mediaType entryCount : UInt32) :
    Agree f entryCount.toNat (create f parsingMode mediaType entryCount)
      (create f false mediaType entryCount) := by
  unfold create
  by_cases h0 : 0 < entryCount.toNat
  · have hno : ¬ (false = true ∧ entryCount.toNat > maxCachedTableEntriesFile) :=
      fun h => Bool.false_ne_true h.1
    rw [if_pos h0, if_pos h0, if_neg hno]
    by_cases hlong : parsingMode = true ∧ entryCount.toNat > maxCachedTableEntriesFile
    · rw [if_pos hlong]
      exact .table _ _ h0 rfl rfl rfl ⟨StblTable.serves_windowed (by decide) h0 _, .whole⟩
    · rw [if_neg hlong]
      exact .table _ _ h0 rfl rfl rfl ⟨.whole, .whole⟩
  · rw [if_neg h0, if_neg h0]
    exact .none rfl rfl

theorem agree_step (entryCount : UInt32) (a w : TimeToSampleAtom) (q : Query)
    (h : Agree f entryCount.toNat a w) (hq : SmallQuery f entryCount q) :
    SameAnswer (Agree f entryCount.toNat) (a.query f q) (w.query f q) := h.query hq

/-- Queries that look at no large index are answered through the window as from memory. -/
theorem answers_query_eq (mediaType entryCount : UInt32) {qs : List Query}
    (hqs : ∀ q ∈ qs, SmallQuery f entryCount q) :
    answers (TimeToSampleAtom.query f) (create f true mediaType entryCount) qs =
      answers (TimeToSampleAtom.query f) (create f false mediaType entryCount) qs :=
  answers_eq (agree_step entryCount) (create_agree true mediaType entryCount)
    (AllCalls.of_forall hqs _)

/-- In every state of a windowed atom between two queries, its table is served. -/
theorem parsesEntries_of_run (mediaType entryCount : UInt32) {qs : List Query}
    (hqs : ∀ q ∈ qs, SmallQuery f entryCount q) {a : TimeToSampleAtom}
    (hrun : execAll (fun a q => (TimeToSampleAtom.query f a q).map Prod.fst)
      (create f true mediaType entryCount) qs = some a)
    {t : StblTable TimeEntry} (ht : a.table = some t) (hmode : a.parsingMode = true) :
    t.ParsesEntries f tableEntriesThresholdFile := by
  obtain ⟨w, hagree⟩ := execAll_related (agree_step entryCount)
    (create_agree true mediaType entryCount) hqs hrun
  cases hagree with
  | none ha hw =>
    rw [ha] at ht
    cases ht
  | table t' u hpos ha hw hmedia htwin =>
    rw [ha] at ht
    cases ht
    have hserves := htwin.1
    rw [hmode] at hserves
    exact hserves.parsesEntries (by decide)

end TimeToSampleAtom

/-! ## 6. Both tables -/

open TimeToSampleAtom (query)

/-- **The windowed tables answer as the whole ones**: queries of the time-to-sample table that look
    at no entry from `2^32 - threshold` on, and queries of the chunk offsets whose index is not
    negative or too large, in any order. In every state on the way `CheckAndParseEntry` ends with
    its entry in its slot. -/
theorem windowed_tables_answer_as_whole (f : EntryFile TimeEntry) (g : EntryFile UInt64)
    (mediaType timeCount chunkCount : UInt32) (vec vec' : Nat → UInt64)
    {qs : List TimeToSampleAtom.Query} {indices : List Int32}
    (hqs : ∀ q ∈ qs, TimeToSampleAtom.SmallQuery f timeCount q)
    (hindices : ∀ index ∈ indices, InTable chunkCount index) :
    answers (query f) (.create f true mediaType timeCount) qs =
        answers (query f) (.create f false mediaType timeCount) qs ∧
      (∀ a t, execAll (fun a q => (query f a q).map Prod.fst)
          (.create f true mediaType timeCount) qs = some a → a.table = some t →
        a.parsingMode = true → t.ParsesEntries f tableEntriesThresholdFile) ∧
      answers (getChunkOffsetAt g) (.create g true chunkCount vec) indices =
        answers (getChunkOffsetAt g) (.create g false chunkCount vec') indices ∧
      ∀ a t, execAll (fun a index => (getChunkOffsetAt g a index).map Prod.fst)
          (.create g true chunkCount vec) indices = some a → a.table = some t →
        a.parsingMode = true → t.ParsesEntries g tableEntriesThresholdFile :=
  ⟨TimeToSampleAtom.answers_query_eq mediaType timeCount hqs,
    fun _ _ hrun ht hmode =>
      TimeToSampleAtom.parsesEntries_of_run mediaType timeCount hqs hrun ht hmode,
    ChunkOffsetAtom.answers_getChunkOffsetAt_eq chunkCount vec vec' hindices,
    fun _ _ hrun ht hmode =>
      ChunkOffsetAtom.parsesEntries_of_run chunkCount vec hindices hrun ht hmode⟩

/-- A table file with the same entry throughout. -/
def constantFile {ε : Type} (e : ε) : EntryFile ε where
  headOffset := 16
  entrySize := 8
  readAt := fun _ _ => e

/-- 5000 entries in either table: queries ahead, back to the first window, and by time. -/
theorem windowed_tables_answer_as_whole_5000 :
    answers (query (constantFile ⟨2, 3⟩))
        (.create (constantFile ⟨2, 3⟩) true mediaTypeVisual 5000)
        [.getSampleCountAt 4500, .getTimestampForSampleNumber 3,
          .getSampleNumberFromTimestamp 7 false] =
      answers (query (constantFile ⟨2, 3⟩))
        (.create (constantFile ⟨2, 3⟩) false mediaTypeVisual 5000)
        [.getSampleCountAt 4500, .getTimestampForSampleNumber 3,
          .getSampleNumberFromTimestamp 7 false] := by
  have hsmall : ∀ last, TimeToSampleAtom.SmallUpTo (UInt32.toNat 5000) last := by
    intro last i hi _
    have hi' : i < 5000 := hi
    unfold tableEntriesThresholdFile
    omega
  have hindices : ∀ index ∈ ([4999, 2] : List Int32), InTable 5000 index := by
    intro index hindex
    simp only [List.mem_cons, List.not_mem_nil, or_false] at hindex
    obtain rfl | rfl := hindex <;> exact Or.inl (by decide)
  refine (windowed_tables_answer_as_whole (constantFile ⟨2, 3⟩) (constantFile 0) mediaTypeVisual
    5000 5000 (fun _ => 0) (fun _ => 0) ?_ hindices).1
  intro q hq
  simp only [List.mem_cons, List.not_mem_nil, or_false] at hq
  obtain rfl | rfl | rfl := hq <;> exact hsmall _

/-- The first query of a table of `2^32 - 512` entries, for entry `2^32 - 1024`: nothing is parsed,
    and the window answers with the zero its array was filled with. The chunk offset of index -1:
    the window answers, the whole table is read in front of its array. -/
theorem windowed_tables_differ :
    answers (query (constantFile ⟨1, 1⟩))
        (.create (constantFile ⟨1, 1⟩) true mediaTypeVisual 4294966784)
        [.getSampleCountAt 4294966272] = [some (.everythingFine, some 0)] ∧
      answers (query (constantFile ⟨1, 1⟩))
        (.create (constantFile ⟨1, 1⟩) false mediaTypeVisual 4294966784)
        [.getSampleCountAt 4294966272] = [some (.everythingFine, some 1)] ∧
      (answers (getChunkOffsetAt (constantFile 0))
        (.create (constantFile 0) true 5000 fun _ => 0) [-1]).head? ≠ some none ∧
      answers (getChunkOffsetAt (constantFile 0))
        (.create (constantFile 0) false 5000 fun _ => 0) [-1] = [none] := by
  refine ⟨by decide +kernel, by decide +kernel, by decide +kernel, by decide +kernel⟩

end OpenCore.Mp4
