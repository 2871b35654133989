/-
  File:      OpenCore/Mp4/SampleSizeAtom.lean
  Subject:   `SampleSizeAtom::getSampleSizeAt` (samplesizeatom.cpp): the sample sizes through the
             window and from memory.

  In parsing mode 1 a call for an entry that was already parsed may take a shortcut: an entry of
  the window before the current one is taken from the ring without a look at which of its slots
  have been overwritten. `usesOldEntry` is the shortcut's test, `SoundCall` says when the slot it
  reads still holds the entry asked for.

  **Main result** `window_answers_eq_whole`: sound calls are answered as they are from memory.
-/
import OpenCore.Lib.Run
import OpenCore.Mp4.TableWindow

namespace OpenCore.Mp4

/-! ## 1. The atom -/

/-- `MAX_CACHED_TABLE_ENTRIES_MBDS` for a source that buffers, else
    `MAX_CACHED_TABLE_ENTRIES_FILE`. -/
def maxCachedTableEntries (buffering : Bool) : Nat := if buffering then 16384 else 4096

/-- `TABLE_ENTRIES_THRESHOLD_MBDS` or `TABLE_ENTRIES_THRESHOLD_FILE`. -/
def tableEntriesThreshold (buffering : Bool) : Nat := if buffering then 4096 else 1024

/-- The members `getSampleSizeAt` works on; no table where `_psampleSizeVec` is `NULL`. -/
structure SampleSizeAtom where
  sampleSize : UInt32
  parsingMode : Bool
  skipOldEntry : Bool
  table : Option (StblTable UInt32)

variable {index : Nat}

namespace SampleSizeAtom

/-- The constructor, all file reads succeeding. `vec` is what the new array holds. -/
def create (f : EntryFile UInt32) (buffering parsingMode : Bool) (sampleSize sampleCount : UInt32)
    (vec : Nat → UInt32) : SampleSizeAtom :=
  if sampleSize = 0 then
    if parsingMode ∧ sampleCount.toNat > maxCachedTableEntries buffering then
      { sampleSize := sampleSize
        parsingMode := true
        skipOldEntry := false
        table := some (.windowed f sampleCount.toNat (maxCachedTableEntries buffering) vec) }
    else
      { sampleSize := sampleSize
        parsingMode := false
        skipOldEntry := false
        table := some (.whole f sampleCount.toNat) }
  else
    { sampleSize := sampleSize
      parsingMode := parsingMode
      skipOldEntry := false
      table := none }

/-- The test of the shortcut: the entry lies in the window before the current one, and its number
    is larger than the slot the next entry goes to. -/
def usesOldEntry (a : SampleSizeAtom) (t : StblTable UInt32) (index : Nat) : Bool :=
  let actualEntryIndex := t.parsedEntryCnt % t.stblBuffSize
  let prevEntriesInBuffer := sub32 t.stblBuffSize actualEntryIndex
  !a.skipOldEntry && actualEntryIndex < index && prevEntriesInBuffer != 0 &&
    sub32 t.currBuffNumber (index / t.stblBuffSize) == 1

/-- `getSampleSizeAt`: the atom behind the call, the code it returns and the size it sets. `none`
    where it does not return, or reads outside the array. -/
def getSampleSizeAt (f : EntryFile UInt32) (threshold : Nat) (a : SampleSizeAtom) (index : Nat) :
    Option (SampleSizeAtom × Mp4ErrorCode × Option UInt32) :=
  match a.table with
  | none => some (a, .everythingFine, some a.sampleSize)
  | some t =>
    if a.parsingMode then
      if index < t.entryCount then
        if t.parsedEntryCnt ≤ index then
          let t := t.parseEntryUnit f threshold index
          some ({ a with table := some t }, .everythingFine, some (t.slot index))
        else if a.usesOldEntry t index then
          some (a, .everythingFine, some (t.slot index))
        else if t.currBuffNumber ≠ index / t.stblBuffSize then
          (t.rewind f threshold index).map fun t =>
            ({ a with skipOldEntry := false, table := some t }, .everythingFine,
              some (t.slot index))
        else some ({ a with skipOldEntry := false }, .everythingFine, some (t.slot index))
      else some (a, .defaultError, none)
    else if index < t.entryCount then some (a, .everythingFine, some (t.vec index))
    else none

/-- The calls: a query, and the flag the sample table sets before it goes back. -/
inductive Call where
  | getSampleSizeAt (index : UInt32)
  | setSkipOldEntry
  deriving DecidableEq, Repr

/-- A call; setting the flag has no answer of its own. -/
def call (f : EntryFile UInt32) (threshold : Nat) (a : SampleSizeAtom) :
    Call → Option (SampleSizeAtom × Option (Mp4ErrorCode × Option UInt32))
  | .getSampleSizeAt index =>
    (a.getSampleSizeAt f threshold index.toNat).map fun r => (r.1, some r.2)
  | .setSkipOldEntry => some ({ a with skipOldEntry := true }, none)

/-! ## 2. Sound calls -/

/-- The entry the last refill started at, behind a call: a rewind starts at the head of the window
    asked for. The code does not keep it. -/
def restartAfter (a : SampleSizeAtom) (restart : Nat) : Call → Nat
  | .getSampleSizeAt index =>
    match a.table with
    | none => restart
    | some t =>
      if t.parsedEntryCnt ≤ index.toNat ∨ a.usesOldEntry t index.toNat then restart
      else if t.currBuffNumber ≠ index.toNat / t.stblBuffSize then
        index.toNat / t.stblBuffSize * t.stblBuffSize
      else restart
  | .setSkipOldEntry => restart

/-- A call of the atom, with the entry the last refill started at beside it. -/
def trackedCall (f : EntryFile UInt32) (threshold : Nat) (s : SampleSizeAtom × Nat) (c : Call) :
    Option ((SampleSizeAtom × Nat) × Option (Mp4ErrorCode × Option UInt32)) :=
  (s.1.call f threshold c).map fun r => ((r.1, s.1.restartAfter s.2 c), r.2)

/-- When a call is answered rightly: a query asks for a sample of the table; where it has to read
    on, `index + threshold` is a `uint32`; and where it takes the shortcut, the last refill started
    at the entry or before it, and no more than the ring holds was parsed from the entry on. -/
def SoundCall (threshold : Nat) (s : SampleSizeAtom × Nat) : Call → Prop
  | .getSampleSizeAt index =>
    ∀ t, s.1.table = some t → index.toNat < t.entryCount ∧
      (s.1.parsingMode = true →
        if t.parsedEntryCnt ≤ index.toNat then index.toNat + threshold < 4294967296
        else if s.1.usesOldEntry t index.toNat then
          s.2 ≤ index.toNat ∧ t.parsedEntryCnt ≤ index.toNat + t.stblBuffSize
        else t.currBuffNumber ≠ index.toNat / t.stblBuffSize →
          index.toNat + threshold < 4294967296)
  | .setSkipOldEntry => True

/-- A query of a sample of the table that needs no carry, and whose entry the ring still holds if
    it was parsed. -/
theorem soundCall_of_held {threshold : Nat} {s : SampleSizeAtom × Nat} {index : UInt32}
    (hsmall : index.toNat + threshold < 4294967296)
    (h : ∀ t, s.1.table = some t → index.toNat < t.entryCount ∧
      (index.toNat < t.parsedEntryCnt →
        s.2 ≤ index.toNat ∧ t.parsedEntryCnt ≤ index.toNat + t.stblBuffSize)) :
    SoundCall threshold s (.getSampleSizeAt index) := by
  intro t ht
  obtain ⟨hi, hheld⟩ := h t ht
  refine ⟨hi, fun _ => ?_⟩
  by_cases hparsed : t.parsedEntryCnt ≤ index.toNat
  · rw [if_pos hparsed]
    exact hsmall
  · rw [if_neg hparsed]
    by_cases hold : s.1.usesOldEntry t index.toNat = true
    · rw [if_pos hold]
      exact hheld (by omega)
    · rw [if_neg hold]
      exact fun _ => hsmall

/-! ## 3. Through the window and from memory -/

variable {f : EntryFile UInt32} {a : SampleSizeAtom} {t : StblTable UInt32} {restart : Nat}
  {threshold : Nat}

/-- A query ahead of what was parsed reads on. -/
theorem getSampleSizeAt_forward (htable : a.table = some t) (hmode : a.parsingMode = true)
    (hi : index < t.entryCount) (hparsed : t.parsedEntryCnt ≤ index) :
    a.getSampleSizeAt f threshold index =
      some ({ a with table := some (t.parseEntryUnit f threshold index) }, .everythingFine,
        some ((t.parseEntryUnit f threshold index).slot index)) := by
  unfold getSampleSizeAt
  rw [htable]
  dsimp only
  rw [if_pos hmode, if_pos hi, if_pos hparsed]

/-- A query that takes the shortcut reads its slot, whatever it holds. -/
theorem getSampleSizeAt_old (htable : a.table = some t) (hmode : a.parsingMode = true)
    (hi : index < t.entryCount) (hparsed : ¬ t.parsedEntryCnt ≤ index)
    (hold : a.usesOldEntry t index = true) :
    a.getSampleSizeAt f threshold index = some (a, .everythingFine, some (t.slot index)) := by
  unfold getSampleSizeAt
  rw [htable]
  dsimp only
  rw [if_pos hmode, if_pos hi, if_neg hparsed, if_pos hold]

/-- A sound query through the window gives the entry asked for. -/
theorem getSampleSizeAt_window (hs : t.Served f restart) (h0 : 0 < threshold)
    (hring : threshold < t.stblBuffSize) (htable : a.table = some t) (hmode : a.parsingMode = true)
    {index : UInt32} (hok : SoundCall threshold (a, restart) (.getSampleSizeAt index)) :
    ∃ a' t', a.getSampleSizeAt f threshold index.toNat =
        some (a', .everythingFine, some (f.entry index.toNat)) ∧
      a'.table = some t' ∧ a'.parsingMode = true ∧
      t'.Served f (a.restartAfter restart (.getSampleSizeAt index)) ∧
      t'.entryCount = t.entryCount ∧ t'.stblBuffSize = t.stblBuffSize := by
  obtain ⟨hi, hok⟩ := hok t htable
  have hok := hok hmode
  have hlow := hs.low_le
  unfold restartAfter
  rw [htable]
  dsimp only
  by_cases hparsed : t.parsedEntryCnt ≤ index.toNat
  · rw [if_pos hparsed] at hok
    rw [getSampleSizeAt_forward htable hmode hi hparsed, if_pos (Or.inl hparsed)]
    obtain ⟨hcount, hsize⟩ := StblTable.parseEntryUnit_entryCount f threshold index.toNat t
    have hs' := hs.parseEntryUnit (i := index.toNat) hok
    have hcnt := StblTable.parseEntryUnit_parsedEntryCnt hs.toFilled hok (by omega)
    refine ⟨{ a with table := some (t.parseEntryUnit f threshold index.toNat) }, _, ?_, rfl, hmode,
      hs', hcount, hsize⟩
    rw [hs'.slot_eq (by omega) (by omega) (by omega)]
  · rw [if_neg hparsed] at hok
    by_cases hold : a.usesOldEntry t index.toNat = true
    · rw [if_pos hold] at hok
      rw [getSampleSizeAt_old htable hmode hi hparsed hold, if_pos (Or.inr hold)]
      refine ⟨a, t, ?_, htable, hmode, hs, rfl, rfl⟩
      rw [hs.slot_eq hok.1 (by omega) hok.2]
    · rw [if_neg hold] at hok
      unfold getSampleSizeAt
      rw [htable]
      dsimp only
      rw [if_pos hmode, if_pos hi, if_neg hparsed, if_neg hold,
        if_neg (not_or.mpr ⟨hparsed, hold⟩)]
      by_cases hbuff : t.currBuffNumber = index.toNat / t.stblBuffSize
      · rw [if_neg (not_not.mpr hbuff), if_neg (not_not.mpr hbuff)]
        obtain ⟨hcl, hcr⟩ := hs.current hbuff
        refine ⟨{ a with skipOldEntry := false }, t, ?_, htable, hmode, hs, rfl, rfl⟩
        rw [hs.slot_eq hcl (by omega) hcr, htable]
      · rw [if_pos hbuff, if_pos hbuff]
        obtain ⟨t', he, hs', hcount, hsize, hlt, hend, -⟩ :=
          hs.toFilled.rewind h0 (by omega) (hok hbuff)
        refine ⟨{ a with skipOldEntry := false, table := some t' }, t', ?_, rfl, hmode, hs', hcount,
          hsize⟩
        rw [he, Option.map_some, hs'.slot_eq (Nat.div_mul_le_self _ _) hlt (by omega)]

/-- The atom that reads through the window beside the one that holds the whole table. -/
inductive Agree (f : EntryFile UInt32) (threshold : Nat) :
    SampleSizeAtom × Nat → SampleSizeAtom → Prop where
  | same {s : SampleSizeAtom × Nat} {w : SampleSizeAtom} (hs : s.1.table = none)
      (hw : w.table = none) (hsize : s.1.sampleSize = w.sampleSize) : Agree f threshold s w
  | whole {s : SampleSizeAtom × Nat} {w : SampleSizeAtom} {count : Nat}
      (hs : s.1.table = some (.whole f count)) (hsm : s.1.parsingMode = false)
      (hw : w.table = some (.whole f count)) (hwm : w.parsingMode = false) : Agree f threshold s w
  | window {s : SampleSizeAtom × Nat} {w : SampleSizeAtom} {t : StblTable UInt32}
      (hs : s.1.table = some t) (hsm : s.1.parsingMode = true) (ht : t.Served f s.2)
      (hring : threshold < t.stblBuffSize)
      (hw : w.table = some (.whole f t.entryCount)) (hwm : w.parsingMode = false) :
      Agree f threshold s w

theorem getSampleSizeAt_whole {count : Nat} (hw : a.table = some (.whole f count))
    (hwm : a.parsingMode = false) (hi : index < count) :
    a.getSampleSizeAt f threshold index = some (a, .everythingFine, some (f.entry index)) := by
  unfold getSampleSizeAt
  rw [hw]
  dsimp only
  rw [hwm, if_neg Bool.false_ne_true]
  exact if_pos hi

/-- One sound call: the same answer, and the two agree again. -/
theorem Agree.call (h0 : 0 < threshold) {s : SampleSizeAtom × Nat} {w : SampleSizeAtom} {c : Call}
    (h : Agree f threshold s w) (hok : SoundCall threshold s c) :
    SameAnswer (Agree f threshold) (trackedCall f threshold s c) (w.call f threshold c) := by
  obtain ⟨a, restart⟩ := s
  cases c with
  | setSkipOldEntry =>
    refine SameAnswer.of_eq_some ?_
    cases h with
    | same hs hw hsize => exact .same hs hw hsize
    | whole hs hsm hw hwm => exact .whole hs hsm hw hwm
    | window hs hsm ht hring hw hwm => exact .window hs hsm ht hring hw hwm
  | getSampleSizeAt index =>
    unfold trackedCall
    dsimp only [SampleSizeAtom.call]
    cases h with
    | same hs hw hsize =>
      have hsame : ∀ (b : SampleSizeAtom), b.table = none →
          b.getSampleSizeAt f threshold index.toNat =
            some (b, .everythingFine, some b.sampleSize) := by
        intro b hb
        unfold getSampleSizeAt
        rw [hb]
      rw [hsame a hs, hsame w hw]
      rw [hsize]
      exact SameAnswer.of_eq_some (Agree.same hs hw hsize)
    | whole hs hsm hw hwm =>
      have hi := (hok _ hs).1
      rw [getSampleSizeAt_whole hs hsm hi, getSampleSizeAt_whole hw hwm hi]
      exact SameAnswer.of_eq_some (Agree.whole hs hsm hw hwm)
    | window hs hsm ht hring hw hwm =>
      have hi := (hok _ hs).1
      obtain ⟨a', t', he, htable, hmode, hs', hcount, hsize⟩ :=
        getSampleSizeAt_window ht h0 hring hs hsm hok
      rw [he, getSampleSizeAt_whole hw hwm hi]
      have hring' : threshold < t'.stblBuffSize := by
        rw [hsize]
        exact hring
      have hw' : w.table = some (.whole f t'.entryCount) := by
        rw [hcount]
        exact hw
      exact SameAnswer.of_eq_some (Agree.window htable hmode hs' hring' hw' hwm)

/-- What is tracked beside the atom changes no answer. -/
theorem answers_trackedCall (s : SampleSizeAtom × Nat) (calls : List Call) :
    answers (trackedCall f threshold) s calls =
      answers (SampleSizeAtom.call f threshold) s.1 calls := by
  have hsim : ∀ (s : SampleSizeAtom × Nat) (a : SampleSizeAtom) (c : Call), s.1 = a → True →
      SameAnswer (fun s a => s.1 = a) (trackedCall f threshold s c) (a.call f threshold c) := by
    intro s a c hs _
    subst hs
    unfold trackedCall
    cases s.1.call f threshold c with
    | none => exact ⟨rfl, fun _ _ _ _ h => by cases h⟩
    | some r =>
      exact SameAnswer.of_eq_some rfl
  exact @answers_eq _ _ _ _ (fun s a => s.1 = a) _ _ (fun _ _ => True) hsim s s.1 rfl calls
    (AllCalls.of_forall (fun _ _ => trivial) s)

theorem create_agree (buffering : Bool) (sampleSize sampleCount : UInt32)
    (vec vec' : Nat → UInt32) :
    Agree f (tableEntriesThreshold buffering)
      (create f buffering true sampleSize sampleCount vec, 0)
      (create f buffering false sampleSize sampleCount vec') := by
  unfold create
  by_cases hz : sampleSize = 0
  · have hno : ¬ (false = true ∧ sampleCount.toNat > maxCachedTableEntries buffering) :=
      fun h => Bool.false_ne_true h.1
    rw [if_pos hz, if_pos hz]
    rw [if_neg hno]
    by_cases hlong : sampleCount.toNat > maxCachedTableEntries buffering
    · rw [if_pos ⟨rfl, hlong⟩]
      have hpos : 0 < maxCachedTableEntries buffering := by
        cases buffering <;> decide
      have hring : tableEntriesThreshold buffering < maxCachedTableEntries buffering := by
        cases buffering <;> decide
      exact .window rfl rfl (StblTable.windowed_served hpos (by omega) vec) hring rfl rfl
    · rw [if_neg fun h => hlong h.2]
      exact .whole rfl rfl rfl rfl
  · rw [if_neg hz, if_neg hz]
    exact .same rfl rfl rfl

/-- **Sound calls are answered through the window as from memory**: for every table, in either
    buffering of the file, whatever the new arrays held. -/
theorem window_answers_eq_whole (buffering : Bool) (sampleSize sampleCount : UInt32)
    (vec vec' : Nat → UInt32) (calls : List Call)
    (hok : AllCalls (trackedCall f (tableEntriesThreshold buffering))
      (SoundCall (tableEntriesThreshold buffering))
      (create f buffering true sampleSize sampleCount vec, 0) calls) :
    answers (SampleSizeAtom.call f (tableEntriesThreshold buffering))
        (create f buffering true sampleSize sampleCount vec) calls =
      answers (SampleSizeAtom.call f (tableEntriesThreshold buffering))
        (create f buffering false sampleSize sampleCount vec') calls := by
  have h0 : 0 < tableEntriesThreshold buffering := by
    cases buffering <;> decide
  rw [← answers_trackedCall (create f buffering true sampleSize sampleCount vec, 0)]
  have hsim := fun s w c => @Agree.call f _ h0 s w c
  exact answers_eq hsim (create_agree buffering sampleSize sampleCount vec vec') hok

/-- A file whose table holds its own indices, at offset 20. -/
def countingFile : EntryFile UInt32 where
  headOffset := 20
  entrySize := 4
  readAt := fun _ pos => UInt32.ofNat ((pos - 20) / 4)

theorem countingFile_entry (k : Nat) : countingFile.entry k = UInt32.ofNat k := by
  show UInt32.ofNat ((20 + k * 4 - 20) / 4) = UInt32.ofNat k
  congr 1
  omega

/-- An atom in parsing mode 1 with a table. -/
def countingAtom (t : StblTable UInt32) : SampleSizeAtom where
  sampleSize := 0
  parsingMode := true
  skipOldEntry := false
  table := some t

/-- The first query of a table of 9000 entries reads on to 1024 entries behind it. -/
theorem counting_forward (vec : Nat → UInt32) (hi : index < 9000)
    (hle : index + 1024 ≤ 9000) :
    ∃ t : StblTable UInt32, (create countingFile false true 0 9000 vec).getSampleSizeAt
        countingFile 1024 index = some
          (countingAtom t, .everythingFine, some (UInt32.ofNat index)) ∧
      t.Served countingFile 0 ∧ t.parsedEntryCnt = index + 1024 ∧ t.entryCount = 9000 ∧
      t.stblBuffSize = 4096 := by
  have hs := StblTable.windowed_served (f := countingFile) (show 0 < 4096 by decide)
    (show 0 < 9000 by decide) vec
  have hsmall : index + 1024 < 4294967296 := by omega
  have hs' := hs.parseEntryUnit (i := index) hsmall
  have hcnt := StblTable.parseEntryUnit_parsedEntryCnt hs.toFilled hsmall (Nat.zero_le _)
  obtain ⟨hcount, hsize⟩ := StblTable.parseEntryUnit_entryCount countingFile 1024 index
    (.windowed countingFile 9000 4096 vec)
  rw [show (StblTable.windowed countingFile 9000 4096 vec).entryCount = 9000 from rfl] at hcnt hcount
  rw [show (StblTable.windowed countingFile 9000 4096 vec).stblBuffSize = 4096 from rfl] at hsize
  refine ⟨_, ?_, hs', by omega, hcount, hsize⟩
  rw [getSampleSizeAt_forward (t := .windowed countingFile 9000 4096 vec) rfl rfl hi (Nat.zero_le _),
    hs'.slot_eq (Nat.zero_le _) (by omega) (by omega), countingFile_entry]
  rfl

/-- A forward query, and one that the shortcut answers from the window before. -/
theorem window_answers_eq_whole_counting :
    answers (SampleSizeAtom.call countingFile (tableEntriesThreshold false))
        (create countingFile false true 0 9000 fun _ => 0)
        [.getSampleSizeAt 5000, .getSampleSizeAt 3000] =
      answers (SampleSizeAtom.call countingFile (tableEntriesThreshold false))
        (create countingFile false false 0 9000 fun _ => 0)
        [.getSampleSizeAt 5000, .getSampleSizeAt 3000] := by
  refine window_answers_eq_whole false 0 9000 (fun _ => 0) (fun _ => 0) _ ⟨?_, ?_⟩
  · refine soundCall_of_held (by decide) fun t ht => ?_
    cases ht
    exact ⟨by decide, fun h => absurd h (Nat.not_lt_zero _)⟩
  · intro s b hs
    obtain ⟨t, he, -, hparsed, hcount, hsize⟩ :=
      counting_forward (fun _ => 0) (show 5000 < 9000 by decide) (by decide)
    have hcall : (create countingFile false true 0 9000 fun _ => 0).call countingFile
        (tableEntriesThreshold false) (.getSampleSizeAt 5000) =
        some (countingAtom t, some (.everythingFine, some 5000)) := by
      dsimp only [SampleSizeAtom.call]
      exact congrArg (Option.map _) he
    unfold trackedCall at hs
    rw [hcall] at hs
    cases hs
    refine ⟨soundCall_of_held (by decide) fun t' ht' => ?_, fun _ _ _ => trivial⟩
    cases ht'
    rw [hparsed, hcount, hsize]
    exact ⟨by decide, fun _ => ⟨Nat.zero_le _, by decide⟩⟩

/-- The shortcut gives the entry one ring further on where that one was parsed since. -/
theorem getSampleSizeAt_stale (hs : t.Served f restart) (htable : a.table = some t)
    (hmode : a.parsingMode = true) {index : Nat} (hold : a.usesOldEntry t index = true)
    (hlow : restart ≤ index + t.stblBuffSize) (hover : index + t.stblBuffSize < t.parsedEntryCnt)
    (hfit : t.parsedEntryCnt ≤ index + t.stblBuffSize + t.stblBuffSize) :
    a.getSampleSizeAt f threshold index =
      some (a, .everythingFine, some (f.entry (index + t.stblBuffSize))) := by
  have hle := hs.le
  rw [getSampleSizeAt_old htable hmode (by omega) (by omega) hold, ← hs.slot_eq hlow hover hfit]
  unfold StblTable.slot
  rw [Nat.add_mod_right]

/-- Sample 7168 of 9000, then sample 100: the entries are parsed up to 8192, slot 100 holds entry
    4196, and the shortcut returns its size. -/
theorem stale_entry_returned :
    answers (SampleSizeAtom.call countingFile (tableEntriesThreshold false))
        (create countingFile false true 0 9000 fun _ => 0)
        [.getSampleSizeAt 7168, .getSampleSizeAt 100] =
      [some (some (.everythingFine, some 7168)), some (some (.everythingFine, some 4196))] ∧
    answers (SampleSizeAtom.call countingFile (tableEntriesThreshold false))
        (create countingFile false false 0 9000 fun _ => 0)
        [.getSampleSizeAt 7168, .getSampleSizeAt 100] =
      [some (some (.everythingFine, some 7168)), some (some (.everythingFine, some 100))] := by
  refine ⟨?_, by rfl⟩
  obtain ⟨t, he, hs, hparsed, hcount, hsize⟩ :=
    counting_forward (fun _ => 0) (show 7168 < 9000 by decide) (by decide)
  have hbuff : t.currBuffNumber = 1 := by
    rw [hs.buff, hparsed, hsize]
  have hold : (countingAtom t).usesOldEntry t 100 = true := by
    have h4096 : sub32 4096 0 = 4096 := sub32_eq (Nat.zero_le _) (by decide)
    have h1 : sub32 1 (100 / 4096) = 1 := sub32_eq (by decide) (by decide)
    unfold usesOldEntry
    rw [hparsed, hsize, hbuff]
    dsimp only
    rw [h1, show (7168 + 1024) % 4096 = 0 from rfl, h4096]
    rfl
  have hstale := @getSampleSizeAt_stale countingFile (countingAtom t) t 0 1024 hs rfl rfl 100 hold
    (Nat.zero_le _) (by omega) (by omega)
  rw [hsize, countingFile_entry] at hstale
  have hfirst : (create countingFile false true 0 9000 fun _ => 0).call countingFile
      (tableEntriesThreshold false) (.getSampleSizeAt 7168) =
      some (countingAtom t, some (.everythingFine, some 7168)) := by
    dsimp only [SampleSizeAtom.call]
    exact congrArg (Option.map _) he
  have hsecond : (countingAtom t).call countingFile (tableEntriesThreshold false)
      (.getSampleSizeAt 100) = some (countingAtom t, some (.everythingFine, some 4196)) := by
    dsimp only [SampleSizeAtom.call]
    exact congrArg (Option.map _) hstale
  unfold answers
  rw [hfirst]
  dsimp only
  unfold answers
  rw [hsecond]
  rfl

end SampleSizeAtom

end OpenCore.Mp4
