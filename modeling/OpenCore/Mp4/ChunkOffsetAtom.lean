/-
  File:      OpenCore/Mp4/ChunkOffsetAtom.lean
  Subject:   `ChunkOffsetAtom::getChunkOffsetAt` (chunkoffsetatom.cpp), through the window and from
             memory.

  The table holds 32-bit offsets (stco) or 64-bit ones (co64); only the array of the one kind is
  allocated, so an entry is its offset in 64 bits. The index is an `int32`: a negative one passes
  the check against the entry count, and the whole table is then read outside its array.
-/
import OpenCore.Lib.Run
import OpenCore.Mp4.TableWindow

namespace OpenCore.Mp4

/-- `MAX_CACHED_TABLE_ENTRIES_FILE`. -/
def maxCachedTableEntriesFile : Nat := 4096

/-- `TABLE_ENTRIES_THRESHOLD_FILE`. -/
def tableEntriesThresholdFile : Nat := 1024

/-- The members `getChunkOffsetAt` works on; no table where the array is `NULL`. -/
structure ChunkOffsetAtom where
  parsingMode : Bool
  table : Option (StblTable UInt64)

namespace ChunkOffsetAtom

/-- The constructor, all file reads succeeding. `vec` is what the new array holds. -/
def create (f : EntryFile UInt64) (parsingMode : Bool) (entryCount : UInt32) (vec : Nat → UInt64) :
    ChunkOffsetAtom :=
  if 0 < entryCount.toNat then
    if parsingMode ∧ entryCount.toNat > maxCachedTableEntriesFile then
      { parsingMode := true
        table := some (.windowed f entryCount.toNat maxCachedTableEntriesFile vec) }
    else { parsingMode := false, table := some (.whole f entryCount.toNat) }
  else { parsingMode := parsingMode, table := none }

/-- `getChunkOffsetAt`: the atom behind the call, the code it returns and the offset it sets.
    `none` where it does not return, or reads outside the array. -/
def getChunkOffsetAt (f : EntryFile UInt64) (a : ChunkOffsetAtom) (index : Int32) :
    Option (ChunkOffsetAtom × Mp4ErrorCode × Option UInt64) :=
  match a.table with
  | none => some (a, .defaultError, none)
  | some t =>
    if index.toInt < toInt32 t.entryCount then
      if a.parsingMode then
        (t.checkAndParseEntry f tableEntriesThresholdFile index.toUInt32.toNat).map fun t =>
          ({ a with table := some t }, .everythingFine, some (t.slot index.toUInt32.toNat))
      else if 0 ≤ index.toInt ∧ index.toInt < t.entryCount then
        some (a, .everythingFine, some (t.vec index.toInt.toNat))
      else none
    else some (a, .defaultError, none)

/-- The two kinds of atom beside each other: the same table, or none in either. -/
inductive Agree (f : EntryFile UInt64) : ChunkOffsetAtom → ChunkOffsetAtom → Prop where
  | none {a w : ChunkOffsetAtom} (ha : a.table = none) (hw : w.table = none) : Agree f a w
  | table {a w : ChunkOffsetAtom} (t : StblTable UInt64) (entryCount : Nat)
      (ha : a.table = some t)
      (ht : StblTable.Serves f tableEntriesThresholdFile entryCount a.parsingMode t)
      (hw : w.table = some (.whole f entryCount)) (hwm : w.parsingMode = false) : Agree f a w

/-- A query with an index that is not negative, or too large for the table. -/
def InTable (entryCount : UInt32) (index : Int32) : Prop :=
  0 ≤ index.toInt ∨ toInt32 entryCount.toNat ≤ index.toInt

variable {f : EntryFile UInt64}

theorem toInt32_le (n : Nat) : toInt32 n ≤ n ∧ toInt32 n < 2147483648 := by
  unfold toInt32
  split <;> omega

/-- An index that is not negative is itself as a `uint32`. -/
theorem index_toNat {index : Int32} (h : 0 ≤ index.toInt) :
    index.toUInt32.toNat = index.toInt.toNat :=
  Int32.toNat_toUInt32_of_le (Int32.le_iff_toInt_le.mpr h)

/-- One query: the same answer, and the two atoms agree again. -/
theorem Agree.getChunkOffsetAt {a w : ChunkOffsetAtom} (h : Agree f a w) {entryCount : UInt32}
    (hcount : ∀ t, w.table = some t → t.entryCount = entryCount.toNat) {index : Int32}
    (hok : InTable entryCount index) :
    SameAnswer (fun a' w' => Agree f a' w' ∧ w' = w) (a.getChunkOffsetAt f index)
      (w.getChunkOffsetAt f index) := by
  unfold ChunkOffsetAtom.getChunkOffsetAt
  cases h with
  | none ha hw =>
    rw [ha, hw]
    exact .of_eq_some ⟨.none ha hw, rfl⟩
  | table t count ha ht hw hwm =>
    have hcount : count = entryCount.toNat := hcount _ hw
    have hwhole_count : (StblTable.whole f count).entryCount = count := rfl
    rw [ha, hw, hwm]
    dsimp only
    rw [ht.entryCount_eq, hwhole_count, if_neg Bool.false_ne_true]
    by_cases hi : index.toInt < toInt32 count
    · obtain h0 | hover := hok
      · have hbound := toInt32_le count
        have hin : 0 ≤ index.toInt ∧ index.toInt < count := by omega
        have hnat := index_toNat h0
        have hwhole : (StblTable.whole f count).vec index.toInt.toNat =
            f.entry index.toUInt32.toNat := by
          rw [hnat]
          rfl
        rw [if_pos hi, if_pos hi]
        generalize hmode : a.parsingMode = mode at ht
        cases ht with
        | whole =>
          rw [if_neg Bool.false_ne_true]
          rw [if_pos hin, if_pos hin]
          refine .of_eq_some ⟨.table _ count ha ?_ hw hwm, rfl⟩
          rw [hmode]
          exact .whole
        | window hlive hring hcnt =>
          have hsmall : index.toUInt32.toNat + tableEntriesThresholdFile < 4294967296 := by
            rw [hnat]
            unfold tableEntriesThresholdFile
            omega
          have hlt : index.toUInt32.toNat < count := by
            rw [hnat]
            omega
          obtain ⟨t', he, ht', hslot, -⟩ := StblTable.Serves.fetch
            (.window hlive hring hcnt) (show 0 < tableEntriesThresholdFile by decide) hlt hsmall
          have he' : t.checkAndParseEntry f tableEntriesThresholdFile index.toUInt32.toNat =
            some t' := he
          rw [if_pos rfl, he', Option.map_some, hslot, if_pos hin, hwhole]
          have hagree : Agree f { parsingMode := true, table := some t' } w :=
            .table t' count rfl ht' hw hwm
          refine SameAnswer.of_eq_some ?_
          exact ⟨hagree, rfl⟩
      · rw [← hcount] at hover
        omega
    · rw [if_neg hi, if_neg hi]
      exact .of_eq_some ⟨.table t count ha ht hw hwm, rfl⟩

theorem create_agree (parsingMode : Bool) (entryCount : UInt32) (vec vec' : Nat → UInt64) :
    Agree f (create f parsingMode entryCount vec) (create f false entryCount vec') := by
  unfold create
  by_cases h0 : 0 < entryCount.toNat
  · have hno : ¬ (false = true ∧ entryCount.toNat > maxCachedTableEntriesFile) :=
      fun h => Bool.false_ne_true h.1
    rw [if_pos h0, if_pos h0, if_neg hno]
    by_cases hlong : parsingMode = true ∧ entryCount.toNat > maxCachedTableEntriesFile
    · rw [if_pos hlong]
      exact .table _ _ rfl (StblTable.serves_windowed (by decide) h0 vec) rfl rfl
    · rw [if_neg hlong]
      exact .table _ _ rfl .whole rfl rfl
  · rw [if_neg h0, if_neg h0]
    exact .none rfl rfl

theorem create_false_entryCount (entryCount : UInt32) (vec : Nat → UInt64) :
    ∀ t, (create f false entryCount vec).table = some t → t.entryCount = entryCount.toNat := by
  intro t ht
  unfold create at ht
  by_cases h0 : 0 < entryCount.toNat
  · rw [if_pos h0, if_neg fun h => Bool.false_ne_true h.1] at ht
    cases ht
    rfl
  · rw [if_neg h0] at ht
    cases ht

/-- One query beside the whole table, which no query changes. -/
theorem agree_step (entryCount : UInt32) (vec : Nat → UInt64) (a w : ChunkOffsetAtom)
    (index : Int32) (h : Agree f a w ∧ w = create f false entryCount vec)
    (hindex : InTable entryCount index) :
    SameAnswer (fun a w => Agree f a w ∧ w = create f false entryCount vec)
      (a.getChunkOffsetAt f index) (w.getChunkOffsetAt f index) := by
  obtain ⟨h, rfl⟩ := h
  exact h.getChunkOffsetAt (create_false_entryCount entryCount vec) hindex

/-- Queries with an index in the table are answered through the window as from memory. -/
theorem answers_getChunkOffsetAt_eq (entryCount : UInt32) (vec vec' : Nat → UInt64)
    {indices : List Int32} (hok : ∀ index ∈ indices, InTable entryCount index) :
    answers (ChunkOffsetAtom.getChunkOffsetAt f) (create f true entryCount vec) indices =
      answers (ChunkOffsetAtom.getChunkOffsetAt f) (create f false entryCount vec') indices :=
  answers_eq (agree_step entryCount vec') ⟨create_agree true entryCount vec vec', rfl⟩
    (AllCalls.of_forall hok _)

/-- In every state of a windowed atom between two queries, its table is served. -/
theorem parsesEntries_of_run (entryCount : UInt32) (vec : Nat → UInt64)
    {indices : List Int32} (hok : ∀ index ∈ indices, InTable entryCount index)
    {a : ChunkOffsetAtom}
    (hrun : execAll (fun a index => (ChunkOffsetAtom.getChunkOffsetAt f a index).map Prod.fst)
      (create f true entryCount vec) indices = some a)
    {t : StblTable UInt64} (ht : a.table = some t) (hmode : a.parsingMode = true) :
    t.ParsesEntries f tableEntriesThresholdFile := by
  obtain ⟨w, hagree, -⟩ := execAll_related (agree_step entryCount vec)
    ⟨create_agree true entryCount vec vec, rfl⟩ hok hrun
  cases hagree with
  | none ha hw =>
    rw [ha] at ht
    cases ht
  | table t' count ha hserves hw hwm =>
    rw [ha] at ht
    cases ht
    rw [hmode] at hserves
    exact hserves.parsesEntries (by decide)

end ChunkOffsetAtom

end OpenCore.Mp4
