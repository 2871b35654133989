/-
  File:      OpenCore/Mp4/SampleToChunkWindow.lean
  Subject:   `SampleToChunkAtom` THROUGH THE WINDOW AND FROM MEMORY.

  Where `first_chunk` rises from entry to entry no entry is dropped, and `ParseEntryUnit` of this
  atom is that of TableWindow.lean; so the window serves the entries of `entryFile`. The whole table
  subtracts the first entry's `first_chunk` throughout, the window subtracts 1 behind entry 0: they
  hold the same entries where the first `first_chunk` is 1.

  `Holds` is either way of holding a table.
-/
import OpenCore.Mp4.SampleToChunkAtom

namespace OpenCore.Mp4

open Option
open Function (update_of_ne update_self)
open Or (inl inr)
open Prod (fst snd)

variable {k i : Nat} {vec : Nat → SampleToChunkEntry} {prev : UInt32}

namespace SampleToChunkTable

variable {T : SampleToChunkTable} {t w : StblTable SampleToChunkEntry} {low : Nat}

/-! ## 1. Reading inside the table -/

theorem read32_eq {fp : Mp4File} {pos : Nat} (h : pos + 4 ≤ fp.fileSize) :
    fp.read32 pos = some (fp.word pos) := if_pos h

theorem posOf_add_le (hk : k < T.entryCount.toNat) :
    T.entryFile.posOf k + 12 ≤ T.file.fileSize := by
  have hin := T.inFile
  show T.headOffset + k * 12 + 12 ≤ T.file.fileSize
  omega

/-- An entry of the table can be read. -/
theorem readEntry_eq (hk : k < T.entryCount.toNat) :
    T.file.readEntry (T.entryFile.posOf k) =
      .ok { firstChunk := T.firstChunkAt k
            samplesPerChunk := T.file.word (T.entryFile.posOf k + 4)
            sampleDescrIndex := T.file.word (T.entryFile.posOf k + 8) } := by
  have hin := posOf_add_le hk
  unfold Mp4File.readEntry
  rw [read32_eq (by omega), read32_eq (by omega), read32_eq (by omega)]
  rfl

/-- An entry as the constructor stores it that reads all of them. -/
def rawEntry (T : SampleToChunkTable) (offSet : UInt32) (k : Nat) : SampleToChunkEntry where
  firstChunk := T.firstChunkAt k - offSet
  samplesPerChunk := T.file.word (T.entryFile.posOf k + 4)
  sampleDescrIndex := T.file.word (T.entryFile.posOf k + 8)

variable {n : Nat}

/-- One turn of the loop that reads all entries. -/
theorem readAll_succ (hi : i < T.entryCount.toNat) (offSet prevFirstChunk : UInt32)
    (j : Nat) (vec : Nat → SampleToChunkEntry) :
    T.readAll (n + 1) i offSet prevFirstChunk j vec =
      if prevFirstChunk < T.firstChunkAt i then
        T.readAll n (i + 1) (if i = 0 then T.firstChunkAt i else offSet) (T.firstChunkAt i) (j + 1)
          (Function.update vec j (T.rawEntry (if i = 0 then T.firstChunkAt i else offSet) i))
      else
        T.readAll n (i + 1) (if i = 0 then T.firstChunkAt i else offSet) prevFirstChunk j vec := by
  rw [readAll, readEntry_eq hi]
  rfl

/-- What the loop reads it reads inside the table. -/
theorem readAll_pos (hn : i + n = T.entryCount.toNat) (offSet prevFirstChunk : UInt32)
    (j : Nat) (vec : Nat → SampleToChunkEntry) :
    (T.readAll n i offSet prevFirstChunk j vec).2.2 = T.entryFile.posOf T.entryCount.toNat := by
  induction n generalizing i offSet prevFirstChunk j vec with
  | zero =>
    rw [← hn]
    rfl
  | succ n ih =>
    rw [readAll_succ (by omega)]
    split <;> exact ih (by omega) _ _ _ _

/-- What the new arrays held does not matter for the entries kept. -/
theorem readAll_agree (hn : i + n = T.entryCount.toNat)
    (offSet prevFirstChunk : UInt32) {j : Nat} {vec' : Nat → SampleToChunkEntry}
    (h : ∀ k < j, vec k = vec' k) :
    let r := T.readAll n i offSet prevFirstChunk j vec
    r.1 = (T.readAll n i offSet prevFirstChunk j vec').1 ∧ j ≤ r.1 ∧ r.1 ≤ j + n ∧
      (∀ k < j, r.2.1 k = vec k) ∧
      ∀ k < r.1, r.2.1 k = (T.readAll n i offSet prevFirstChunk j vec').2.1 k := by
  induction n generalizing i offSet prevFirstChunk j vec vec' with
  | zero => exact ⟨rfl, Nat.le_refl j, Nat.le_refl j, fun _ _ => rfl, h⟩
  | succ n ih =>
    have hi : i < T.entryCount.toNat := by omega
    have hn' : i + 1 + n = T.entryCount.toNat := by omega
    rw [readAll_succ hi, readAll_succ hi]
    by_cases hkept : prevFirstChunk < T.firstChunkAt i
    · rw [if_pos hkept, if_pos hkept]
      generalize T.rawEntry (if i = 0 then T.firstChunkAt i else offSet) i = e
      have hup : ∀ k < j + 1, Function.update vec j e k = Function.update vec' j e k := by
        intro k hk
        by_cases hkj : k = j
        · rw [hkj, update_self, update_self]
        · rw [update_of_ne hkj, update_of_ne hkj, h k (by omega)]
      obtain ⟨hcount, hle, hge, hold, hnew⟩ := ih hn'
        (if i = 0 then T.firstChunkAt i else offSet) (T.firstChunkAt i) hup
      refine ⟨hcount, by omega, by omega, fun k hk => ?_, hnew⟩
      rw [hold k (by omega), update_of_ne (by omega)]
    · rw [if_neg hkept, if_neg hkept]
      obtain ⟨hcount, hle, hge, hold, hnew⟩ := ih hn'
        (if i = 0 then T.firstChunkAt i else offSet) prevFirstChunk h
      exact ⟨hcount, hle, by omega, hold, hnew⟩

theorem readAll_old (hn : i + n = T.entryCount.toNat) (offSet prevFirstChunk : UInt32)
    {j : Nat} (hk : k < j) (vec : Nat → SampleToChunkEntry) :
    (T.readAll n i offSet prevFirstChunk j vec).2.1 k = vec k := by
  have hsame : ∀ l < j, vec l = vec l := fun _ _ => rfl
  exact (readAll_agree hn offSet prevFirstChunk hsame).2.2.2.1 k hk

/-- From entry `i` on each `first_chunk` exceeds the one before, and the first of them `prev`. -/
def RisesFrom (T : SampleToChunkTable) (prev : UInt32) (i : Nat) : Prop :=
  (i < T.entryCount.toNat → prev < T.firstChunkAt i) ∧
    ∀ k, i ≤ k → k + 1 < T.entryCount.toNat → T.firstChunkAt k < T.firstChunkAt (k + 1)

theorem RisesFrom.next (h : T.RisesFrom prev i) :
    T.RisesFrom (T.firstChunkAt i) (i + 1) :=
  ⟨fun hi => h.2 i (Nat.le_refl i) hi, fun k hk => h.2 k (by omega)⟩

/-- Rising entries are all kept, each with its offset. -/
theorem readAll_keeps {n i : Nat} (hn : i + n = T.entryCount.toNat) {offSet prev : UInt32}
    (hrises : T.RisesFrom prev i) {j : Nat} (vec : Nat → SampleToChunkEntry) {off : UInt32}
    (hoff : off = if i = 0 then T.firstChunkAt 0 else offSet) :
    let r := T.readAll n i offSet prev j vec
    r.1 = j + n ∧ (∀ k < j, r.2.1 k = vec k) ∧ ∀ k < n, r.2.1 (j + k) = T.rawEntry off (i + k) := by
  induction n generalizing i offSet prev j vec with
  | zero => exact ⟨rfl, fun _ _ => rfl, fun k hk => absurd hk (Nat.not_lt_zero k)⟩
  | succ n ih =>
    have hi : i < T.entryCount.toNat := by omega
    have hoff' : (if i = 0 then T.firstChunkAt i else offSet) = off := by
      rw [hoff]
      split
      · rename_i h0
        rw [h0]
      · rfl
    have hn' : i + 1 + n = T.entryCount.toNat := by omega
    have hoff₁ : off = if i + 1 = 0 then T.firstChunkAt 0 else off :=
      (if_neg (Nat.succ_ne_zero i)).symm
    rw [readAll_succ hi, if_pos (hrises.1 hi), hoff']
    obtain ⟨hcount, hold, hnew⟩ := @ih (i + 1) hn' off (T.firstChunkAt i) hrises.next (j + 1)
      (Function.update vec j (T.rawEntry off i)) hoff₁
    refine ⟨by omega, fun k hk => ?_, fun k hk => ?_⟩
    · rw [hold k (by omega), update_of_ne (by omega)]
    · obtain rfl | ⟨k, rfl⟩ : k = 0 ∨ ∃ l, k = l + 1 := by
        cases k with
        | zero => exact inl rfl
        | succ k => exact inr ⟨k, rfl⟩
      · rw [Nat.add_zero j, Nat.add_zero i, hold j (by omega), update_self]
      · have hk' := hnew k (by omega)
        rw [show j + 1 + k = j + (k + 1) by omega, show i + 1 + k = i + (k + 1) by omega] at hk'
        exact hk'

/-- An entry that does not rise is not kept. -/
theorem risesFrom_of_readAll (hn : i + n = T.entryCount.toNat) {offSet : UInt32}
    {j : Nat} (h : (T.readAll n i offSet prev j vec).1 = j + n) :
    T.RisesFrom prev i := by
  induction n generalizing i offSet prev j vec with
  | zero => exact ⟨fun hi => by omega, fun k hk hk' => by omega⟩
  | succ n ih =>
    have hi : i < T.entryCount.toNat := by omega
    rw [readAll_succ hi] at h
    by_cases hkept : prev < T.firstChunkAt i
    · rw [if_pos hkept] at h
      have hrest := ih (by omega) (h.trans (by omega))
      refine ⟨fun _ => hkept, fun k hk hk' => ?_⟩
      obtain rfl | hlt : k = i ∨ i < k := by omega
      · exact hrest.1 hk'
      · exact hrest.2 k hlt hk'
    · rw [if_neg hkept] at h
      have hle := (readAll_agree (by omega : i + 1 + n = T.entryCount.toNat)
        (if i = 0 then T.firstChunkAt i else offSet) prev
        (fun k (_ : k < j) => rfl : ∀ k < j, vec k = vec k)).2.2.1
      omega

/-! ## 2. The window of a rising table -/

/-- `first_chunk` starts above 0 and rises: neither way of loading drops an entry. -/
def Increasing (T : SampleToChunkTable) : Prop := T.RisesFrom 0 0

theorem Increasing.pos (hT : T.Increasing) (hk : k < T.entryCount.toNat) :
    0 < T.firstChunkAt k := by
  induction k with
  | zero => exact hT.1 hk
  | succ k ih => exact UInt32.lt_trans (ih (by omega)) (hT.2 k (Nat.zero_le k) hk)

/-- The turn that reads entry `k` of a rising table is a turn of TableWindow.lean. -/
theorem parseTurn_eq (h : t.Filled T.entryFile low) (hlt : t.parsedEntryCnt < T.entryCount.toNat)
    (hprev : prev < T.firstChunkAt t.parsedEntryCnt) :
    T.parseTurn prev t =
      (t.parseEntry T.entryFile, some (T.firstChunkAt t.parsedEntryCnt)) := by
  unfold parseTurn StblTable.parseEntry
  dsimp only
  rw [h.readPos, readEntry_eq hlt]
  dsimp only
  rw [if_pos hprev]
  rfl

theorem parseLoop_eq (hT : T.Increasing) {n fuel : Nat} (h : t.Filled T.entryFile low)
    (hn : t.parsedEntryCnt + n ≤ T.entryCount.toNat) (hcount : t.entryCount = T.entryCount.toNat)
    (hprev : 0 < n → prev < T.firstChunkAt t.parsedEntryCnt)
    (hfuel : n < fuel) :
    T.parseLoop (t.parsedEntryCnt + n) fuel prev t =
      some (StblTable.parseEntries T.entryFile n t) := by
  induction n generalizing t fuel prev with
  | zero =>
    obtain ⟨fuel, rfl⟩ : ∃ k, fuel = k + 1 := ⟨fuel - 1, by omega⟩
    rw [parseLoop, if_neg (by omega)]
    rfl
  | succ n ih =>
    obtain ⟨fuel, rfl⟩ : ∃ k, fuel = k + 1 := ⟨fuel - 1, by omega⟩
    have hlt : t.parsedEntryCnt < T.entryCount.toNat := by omega
    have hstep : T.parseLoop ((t.parseEntry T.entryFile).parsedEntryCnt + n) fuel
        (T.firstChunkAt t.parsedEntryCnt) (t.parseEntry T.entryFile) =
          some (StblTable.parseEntries T.entryFile n (t.parseEntry T.entryFile)) := by
      refine ih (h.parseEntry (by omega)) ?_ hcount ?_ (by omega)
      · show t.parsedEntryCnt + 1 + n ≤ _
        omega
      · intro h0
        exact hT.2 t.parsedEntryCnt (Nat.zero_le _) (by omega)
    rw [parseLoop, if_pos (by omega), parseTurn_eq h hlt (hprev (by omega))]
    have hend : (t.parseEntry T.entryFile).parsedEntryCnt + n = t.parsedEntryCnt + (n + 1) := by
      show t.parsedEntryCnt + 1 + n = _
      omega
    rw [hend] at hstep
    exact hstep

/-- `ParseEntryUnit` of a rising table is that of TableWindow.lean. -/
theorem parseEntryUnit_eq (hT : T.Increasing) (h : t.Filled T.entryFile low)
    (hcount : t.entryCount = T.entryCount.toNat) (i : Nat) :
    T.parseEntryUnit i t =
      some (t.parseEntryUnit T.entryFile tableEntriesThresholdFile i) := by
  unfold parseEntryUnit StblTable.parseEntryUnit
  dsimp only
  have hend : (if add32 i tableEntriesThresholdFile > t.entryCount then t.entryCount
      else add32 i tableEntriesThresholdFile) ≤ T.entryCount.toNat := by
    split <;> omega
  generalize (if add32 i tableEntriesThresholdFile > t.entryCount then t.entryCount
      else add32 i tableEntriesThresholdFile) = upTo at hend
  have hfuel : upTo < T.parseFuel upTo := by
    have hmul := Nat.mul_le_mul_left (upTo + 1) (show 1 ≤ T.file.fileSize + 2 by omega)
    unfold parseFuel
    omega
  by_cases hle : t.parsedEntryCnt ≤ upTo
  · have hloop := parseLoop_eq hT (n := upTo - t.parsedEntryCnt) h (by omega) hcount
      (fun h0 => hT.pos (show t.parsedEntryCnt < T.entryCount.toNat by omega))
      (show upTo - t.parsedEntryCnt < T.parseFuel upTo by omega)
    rw [Nat.add_sub_cancel' hle] at hloop
    exact hloop
  · obtain ⟨fuel, hf⟩ : ∃ k, T.parseFuel upTo = k + 1 := ⟨T.parseFuel upTo - 1, by omega⟩
    rw [hf, parseLoop, if_neg (by omega), Nat.sub_eq_zero_of_le (by omega)]
    rfl

/-- Every index of the table leaves room for the threshold in a `uint32`. -/
theorem small (T : SampleToChunkTable) (hi : i ≤ T.entryCount.toNat) :
    i + tableEntriesThresholdFile < 4294967296 := by
  have := T.inAtom
  unfold tableEntriesThresholdFile
  omega

theorem refill_eq (hT : T.Increasing) (fuel : Nat) (h : t.Filled T.entryFile low)
    (hcount : t.entryCount = T.entryCount.toNat) :
    T.refill i fuel t =
      StblTable.refill T.entryFile tableEntriesThresholdFile i fuel t := by
  induction fuel generalizing t with
  | zero => rfl
  | succ fuel ih =>
    have hle := h.le
    have hsmall := T.small (i := t.parsedEntryCnt) (by omega)
    rw [refill, StblTable.refill, parseEntryUnit_eq hT h hcount]
    split
    · exact ih (h.parseEntryUnit hsmall)
        ((StblTable.parseEntryUnit_entryCount T.entryFile _ _ t).1.trans hcount)
    · rfl

/-- **`CheckAndParseEntry` of a rising table** is that of TableWindow.lean. -/
theorem checkAndParseEntry_eq (hT : T.Increasing) (h : t.Live T.entryFile)
    (hcount : t.entryCount = T.entryCount.toNat) (i : Nat) :
    T.checkAndParseEntry i t =
      t.checkAndParseEntry T.entryFile tableEntriesThresholdFile i := by
  obtain ⟨low, hs⟩ := h
  unfold checkAndParseEntry StblTable.checkAndParseEntry
  rw [parseEntryUnit_eq hT hs.toFilled hcount]
  by_cases hparsed : t.parsedEntryCnt ≤ i
  · rw [if_pos hparsed, if_pos hparsed]
  · rw [if_neg hparsed, if_neg hparsed]
    have hhead := Nat.div_mul_le_self i t.stblBuffSize
    have hrewound := hs.toFilled.rewound
      (show i / t.stblBuffSize * t.stblBuffSize < t.parsedEntryCnt by omega)
    rw [refill_eq hT (i + 2) hrewound hcount]
    rfl

/-! ## 3. Either way of holding the table -/

/-- A table that holds the entries `e`, `entryCount` of them, in its arrays or through the window;
    nothing behind the table was read. -/
inductive Holds (T : SampleToChunkTable) :
    (Nat → SampleToChunkEntry) → Nat → Bool → StblTable SampleToChunkEntry → Prop where
  | memory {e : Nat → SampleToChunkEntry} {t : StblTable SampleToChunkEntry}
      (hslots : ∀ i < t.entryCount, t.slot i = e i)
      (hle : t.entryCount ≤ T.entryCount.toNat)
      (hinside : t.consumed ≤ T.entryFile.posOf T.entryCount.toNat) :
      Holds T e t.entryCount false t
  | window {t : StblTable SampleToChunkEntry} (hT : T.Increasing) (hlive : t.Live T.entryFile)
      (hring : tableEntriesThresholdFile < t.stblBuffSize)
      (hcount : t.entryCount = T.entryCount.toNat) :
      Holds T T.entryFile.entry T.entryCount.toNat true t

variable {e : Nat → SampleToChunkEntry} {entryCount : Nat} {mode mode' : Bool}

theorem Holds.entryCount_eq (h : T.Holds e entryCount mode t) : t.entryCount = entryCount := by
  cases h with
  | memory => rfl
  | window _ _ _ hcount => exact hcount

theorem Holds.le (h : T.Holds e entryCount mode t) : entryCount ≤ T.entryCount.toNat := by
  cases h with
  | memory _ hle _ => exact hle
  | window => exact Nat.le_refl _

/-- A table in memory holds any entries its slots agree with. -/
theorem Holds.congr (h : T.Holds e entryCount false t) {e' : Nat → SampleToChunkEntry}
    (he : ∀ i < entryCount, e i = e' i) : T.Holds e' entryCount false t := by
  cases h with
  | memory hslots hle hinside =>
    exact .memory (fun i hi => (hslots i hi).trans (he i hi)) hle hinside

section

variable (h : T.Holds e entryCount mode t)
include h

/-- Nothing behind the atom's own entries was read. -/
theorem Holds.inside :
    t.consumed ≤ T.entryFile.posOf T.entryCount.toNat := by
  cases h with
  | memory _ _ hinside => exact hinside
  | window _ hlive _ hcount =>
    obtain ⟨low, hs⟩ := hlive
    have := hs.inside
    rw [hcount] at this
    exact this

/-- **Fetching an entry** ends and leaves it in its slot; the entry before stays. -/
theorem Holds.fetch (hi : i < entryCount) :
    ∃ t', T.fetch mode i t = some t' ∧ T.Holds e entryCount mode t' ∧ t'.slot i = e i ∧
      ∀ j, j + 1 = i → t.slot j = e j ∨ j = 0 → t'.slot j = e j := by
  cases h with
  | memory hslots hle hinside =>
    exact ⟨t, if_neg Bool.false_ne_true, .memory hslots hle hinside, hslots i hi,
      fun j hj _ => hslots j (by omega)⟩
  | window hT hlive hring hcount =>
    obtain ⟨t', he, hlive', hcount', hsize, hslot, hprev⟩ := hlive.checkAndParseEntry
      (by decide) hring (by rw [hcount]; exact hi) (T.small (Nat.le_of_lt hi))
    refine ⟨t', ?_, .window hT hlive' (by rw [hsize]; exact hring) (hcount'.trans hcount), hslot,
      fun j hj hheld => hprev j hj ?_⟩
    · rw [fetch, if_pos rfl, checkAndParseEntry_eq hT hlive hcount, he]
    · obtain hheld | rfl := hheld
      · exact inl hheld
      · right
        have : tableEntriesThresholdFile = 1024 := rfl
        rw [Nat.div_eq_of_lt (by omega), Nat.div_eq_of_lt (by omega)]

/-- **Fetching the entry behind `i`**, if there is one: both are in their slots then. -/
theorem Holds.fetchNext (hi : i < entryCount)
    (hheld : t.slot i = e i ∨ i = 0) :
    ∃ t', T.fetch mode (i + 1) t = some t' ∧ T.Holds e entryCount mode t' ∧ t'.slot i = e i ∧
      (i + 1 < entryCount → t'.slot (i + 1) = e (i + 1)) := by
  by_cases hnext : i + 1 < entryCount
  · obtain ⟨t', he, h', hslot, hprev⟩ := h.fetch hnext
    exact ⟨t', he, h', hprev i rfl hheld, fun _ => hslot⟩
  · have hend : i + 1 = entryCount := by omega
    cases h with
    | memory hslots hle hinside =>
      exact ⟨t, if_neg Bool.false_ne_true, .memory hslots hle hinside, hslots i hi,
        fun hlt => absurd hlt hnext⟩
    | window hT hlive hring hcount =>
      have hsmall : t.entryCount + tableEntriesThresholdFile < 4294967296 := by
        rw [hcount]
        exact T.small (Nat.le_refl _)
      obtain ⟨t', he, hlive', hcount', hsize, hslot⟩ := hlive.checkAndParseEntry_end
        (by decide) (by omega) hsmall
      refine ⟨t', ?_, .window hT hlive' (by rw [hsize]; exact hring) (hcount'.trans hcount), ?_,
        fun hlt => absurd hlt hnext⟩
      · rw [SampleToChunkTable.fetch, if_pos rfl, checkAndParseEntry_eq hT hlive hcount, hend,
          ← hcount]
        exact he
      · rw [show i = t.entryCount - 1 by omega]
        exact hslot

end

/-! ## 4. Two holders of the same table -/

/-- Two holders of the same entries. -/
def Twin (T : SampleToChunkTable) (e : Nat → SampleToChunkEntry) (entryCount : Nat)
    (mode mode' : Bool) (t w : StblTable SampleToChunkEntry) : Prop :=
  T.Holds e entryCount mode t ∧ T.Holds e entryCount mode' w

/-- Both fetch an entry and go on with it. -/
theorem Twin.fetch_bind {A : Type} (h : T.Twin e entryCount mode mode' t w)
    (hi : i < entryCount)
    {k k' : StblTable SampleToChunkEntry → Option (StblTable SampleToChunkEntry × A)}
    (hk : ∀ t' w', T.Twin e entryCount mode mode' t' w' → t'.slot i = e i → w'.slot i = e i →
      SameAnswer (T.Twin e entryCount mode mode') (k t') (k' w')) :
    SameAnswer (T.Twin e entryCount mode mode') ((T.fetch mode i t).bind k)
      ((T.fetch mode' i w).bind k') := by
  obtain ⟨t', ht, hst, hti, -⟩ := h.1.fetch hi
  obtain ⟨w', hw, hsw, hwi, -⟩ := h.2.fetch hi
  rw [ht, hw]
  exact hk t' w' ⟨hst, hsw⟩ hti hwi

/-- Both fetch the entry behind `i` and go on with both entries. -/
theorem Twin.fetchNext_bind {A : Type} (h : T.Twin e entryCount mode mode' t w)
    (hi : i < entryCount) (ht : t.slot i = e i ∨ i = 0) (hw : w.slot i = e i ∨ i = 0)
    {k k' : StblTable SampleToChunkEntry → Option (StblTable SampleToChunkEntry × A)}
    (hk : ∀ t' w', T.Twin e entryCount mode mode' t' w' → t'.slot i = e i → w'.slot i = e i →
      (i + 1 < entryCount → t'.slot (i + 1) = e (i + 1) ∧ w'.slot (i + 1) = e (i + 1)) →
      SameAnswer (T.Twin e entryCount mode mode') (k t') (k' w')) :
    SameAnswer (T.Twin e entryCount mode mode') ((T.fetch mode (i + 1) t).bind k)
      ((T.fetch mode' (i + 1) w).bind k') := by
  obtain ⟨t', hft, hst, hti, htn⟩ := h.1.fetchNext hi ht
  obtain ⟨w', hfw, hsw, hwi, hwn⟩ := h.2.fetchNext hi hw
  rw [hft, hfw]
  exact hk t' w' ⟨hst, hsw⟩ hti hwi fun hn => ⟨htn hn, hwn hn⟩

theorem sampleScan_same
    (lastRun : UInt32 → UInt32 → Nat → UInt32 → UInt32 → Option (Option UInt32))
    (sampleNum : UInt32) (sampleCount : UInt32)
    (h : T.Twin e entryCount mode mode' t w) (hn : i + n = entryCount) :
    SameAnswer (T.Twin e entryCount mode mode')
      (T.sampleScan mode lastRun sampleNum n i sampleCount t)
      (T.sampleScan mode' lastRun sampleNum n i sampleCount w) := by
  induction n generalizing i sampleCount t w with
  | zero => exact .of_eq_some h
  | succ n ih =>
    refine h.fetch_bind (show i < entryCount by omega) ?_
    intro t₁ w₁ h₁ ht hw
    dsimp only
    rw [ht, hw, h₁.1.entryCount_eq, h₁.2.entryCount_eq]
    by_cases hnext : i + 1 < entryCount
    · rw [if_pos hnext, if_pos hnext]
      refine h₁.fetch_bind hnext ?_
      intro t₂ w₂ h₂ ht₂ hw₂
      rw [ht₂, hw₂]
      split
      · exact ih _ h₂ (by omega)
      · generalize inRun sampleNum (e i).samplesPerChunk _ 0 sampleCount = r
        obtain ⟨count, found⟩ := r
        cases found with
        | none => exact ih _ h₂ (by omega)
        | some j => exact .of_eq_some h₂
    · rw [if_neg hnext, if_neg hnext]
      cases lastRun sampleNum (e i).samplesPerChunk wordFuel 0 sampleCount with
      | none => exact ⟨rfl, fun _ _ _ _ hnone => by cases hnone⟩
      | some found =>
        cases found with
        | none => exact ih _ h₁ (by omega)
        | some k => exact .of_eq_some h₁

/-- The first run starts at chunk 0, so the step back from a run never leaves the table. -/
theorem firstSampleScan_same (h0 : (e 0).firstChunk = 0) (chunkNum : UInt32)
    (firstSample samplesInRun : UInt32) (h : T.Twin e entryCount mode mode' t w)
    (hn : i + n = entryCount) :
    SameAnswer (T.Twin e entryCount mode mode')
      (T.firstSampleScan mode chunkNum n i firstSample samplesInRun t)
      (T.firstSampleScan mode' chunkNum n i firstSample samplesInRun w) := by
  induction n generalizing i firstSample samplesInRun t w with
  | zero => exact .of_eq_some h
  | succ n ih =>
    have hi : i < entryCount := by omega
    refine h.fetch_bind hi ?_
    intro t₁ w₁ h₁ ht hw
    dsimp only
    rw [ht, hw, h₁.1.entryCount_eq, h₁.2.entryCount_eq]
    by_cases hbefore : chunkNum < (e i).firstChunk
    · rw [if_pos hbefore, if_pos hbefore]
      have hi0 : 0 < i := by
        obtain rfl | hi0 := Nat.eq_zero_or_pos i
        · rw [h0] at hbefore
          exact absurd hbefore (UInt32.not_lt.mpr UInt32.zero_le)
        · exact hi0
      have hle := h₁.1.le
      have hin := T.inAtom
      rw [sub32_eq hi0 (by omega)]
      refine h₁.fetch_bind (by omega) ?_
      intro t₂ w₂ h₂ ht₂ hw₂
      rw [ht₂, hw₂]
      exact .of_eq_some h₂
    · rw [if_neg hbefore, if_neg hbefore]
      by_cases hhit : chunkNum = (e i).firstChunk
      · rw [if_pos hhit, if_pos hhit]
        exact .of_eq_some h₁
      · rw [if_neg hhit, if_neg hhit]
        by_cases hnext : i + 1 < entryCount
        · rw [if_pos hnext, if_pos hnext]
          refine h₁.fetchNext_bind hi (inl ht) (inl hw) ?_
          intro t₂ w₂ h₂ ht₂ hw₂ hbehind
          rw [ht₂, hw₂, (hbehind hnext).1, (hbehind hnext).2]
          exact ih _ _ h₂ (by omega)
        · rw [if_neg hnext, if_neg hnext]
          exact .of_eq_some h₁

theorem resetScan_same (sampleNum : UInt32) (sampleCount : UInt32) (c : Cursor)
    (numChunks : Int32) (h : T.Twin e entryCount mode mode' t w) (hn : i + n = entryCount)
    (ht : i < entryCount → t.slot i = e i ∨ i = 0)
    (hw : i < entryCount → w.slot i = e i ∨ i = 0) :
    SameAnswer (T.Twin e entryCount mode mode')
      (T.resetScan mode sampleNum n i sampleCount t c numChunks)
      (T.resetScan mode' sampleNum n i sampleCount w c numChunks) := by
  induction n generalizing i sampleCount t w c with
  | zero => exact .of_eq_some h
  | succ n ih =>
    have hi : i < entryCount := by omega
    refine h.fetchNext_bind hi (ht hi) (hw hi) ?_
    intro t₁ w₁ h₁ ht₁ hw₁ hbehind
    dsimp only
    rw [ht₁, hw₁, h₁.1.entryCount_eq, h₁.2.entryCount_eq]
    by_cases hnext : i + 1 < entryCount
    · obtain ⟨ht₂, hw₂⟩ := hbehind hnext
      rw [if_pos hnext, if_pos hnext, ht₂, hw₂]
      split
      · exact ih _ c h₁ (by omega) (fun _ => inl ht₂) (fun _ => inl hw₂)
      · generalize resetRun sampleNum (e i).firstChunk (e i).samplesPerChunk _ 0 sampleCount _ = r
        obtain ⟨c', count, found⟩ := r
        cases found with
        | false => exact ih _ c' h₁ (by omega) (fun _ => inl ht₂) (fun _ => inl hw₂)
        | true => exact .of_eq_some h₁
    · rw [if_neg hnext, if_neg hnext]
      cases resetLastRun sampleNum (e i).firstChunk (e i).samplesPerChunk wordFuel 0 sampleCount
          c with
      | none => exact ⟨rfl, fun _ _ _ _ hnone => by cases hnone⟩
      | some r =>
        obtain ⟨c', found⟩ := r
        cases found with
        | false =>
          exact ih _ c' h₁ (by omega) (fun hlt => absurd hlt hnext)
            (fun hlt => absurd hlt hnext)
        | true => exact .of_eq_some h₁

end SampleToChunkTable

variable {a : SampleToChunkAtom}

namespace SampleToChunkAtom

variable {T : SampleToChunkTable}

/-! ## 5. Two atoms -/

inductive Query where
  | getFirstChunkAt (index : UInt32)
  | getSamplesPerChunkAt (index : UInt32)
  | getChunkNumberForSample (sampleNum : UInt32)
  | getFirstSampleNumInChunk (chunkNum : UInt32)
  deriving DecidableEq, Repr

/-- A query of the atom. -/
def query (T : SampleToChunkTable) (a : SampleToChunkAtom) :
    Query → Option (SampleToChunkAtom × Answer)
  | .getFirstChunkAt index => a.getFirstChunkAt T index
  | .getSamplesPerChunkAt index => a.getSamplesPerChunkAt T index
  | .getChunkNumberForSample sampleNum => a.getChunkNumberForSample T sampleNum
  | .getFirstSampleNumInChunk chunkNum => a.getFirstSampleNumInChunk T chunkNum

/-- Two atoms beside each other: no table in either, or the same entries from chunk 0 on. -/
inductive Agree (T : SampleToChunkTable) (e : Nat → SampleToChunkEntry) (entryCount : Nat) :
    SampleToChunkAtom → SampleToChunkAtom → Prop where
  | null {a w : SampleToChunkAtom} (ha : a.table = none) (hw : w.table = none) :
      Agree T e entryCount a w
  | table {a w : SampleToChunkAtom} (t u : StblTable SampleToChunkEntry) (ha : a.table = some t)
      (hw : w.table = some u) (h0 : (e 0).firstChunk = 0)
      (htwin : T.Twin e entryCount a.parsingMode w.parsingMode t u) : Agree T e entryCount a w

variable {e : Nat → SampleToChunkEntry} {entryCount : Nat}

variable {w : SampleToChunkAtom}

/-- A query of the tables, with what it does to the rest of the atoms. -/
theorem Agree.onTable (h : Agree T e entryCount a w)
    {f g : StblTable SampleToChunkEntry → Option (StblTable SampleToChunkEntry × Answer)}
    (hfg : ∀ t u, (e 0).firstChunk = 0 →
      T.Twin e entryCount a.parsingMode w.parsingMode t u →
      SameAnswer (T.Twin e entryCount a.parsingMode w.parsingMode) (f t) (g u)) :
    SameAnswer (Agree T e entryCount) (a.onTable f) (w.onTable g) := by
  unfold SampleToChunkAtom.onTable
  cases h with
  | null ha hw =>
    rw [ha, hw]
    exact .of_eq_some (.null ha hw)
  | table t u ha hw h0 htwin =>
    rw [ha, hw]
    have hnext : ∀ t' u', T.Twin e entryCount a.parsingMode w.parsingMode t' u' →
        Agree T e entryCount { a with table := some t' } { w with table := some u' } :=
      fun t' u' htwin' => .table _ _ rfl rfl h0 htwin'
    exact (hfg t u h0 htwin).map hnext fun r => r

theorem Agree.entryAt (h : Agree T e entryCount a w)
    (field : SampleToChunkEntry → UInt32) (index : UInt32) :
    SameAnswer (Agree T e entryCount) (a.entryAt T field index) (w.entryAt T field index) := by
  refine h.onTable ?_
  intro t u _ htwin
  rw [htwin.1.entryCount_eq, htwin.2.entryCount_eq]
  by_cases hi : index.toNat < entryCount
  · rw [if_pos hi, if_pos hi, map_eq_bind, map_eq_bind]
    refine htwin.fetch_bind hi ?_
    intro t' u' htwin' ht hu
    dsimp only [Function.comp_apply]
    rw [ht, hu]
    exact .of_eq_some htwin'
  · rw [if_neg hi, if_neg hi]
    exact .of_eq_some htwin

theorem Agree.getChunkNumberForSample (h : Agree T e entryCount a w)
    (sampleNum : UInt32) :
    SameAnswer (Agree T e entryCount) (a.getChunkNumberForSample T sampleNum)
      (w.getChunkNumberForSample T sampleNum) := by
  unfold SampleToChunkAtom.getChunkNumberForSample
  cases h with
  | null ha hw =>
    rw [ha, hw]
    exact .of_eq_some (.null ha hw)
  | table t u ha hw h0 htwin =>
    rw [ha, hw]
    dsimp only
    rw [htwin.1.entryCount_eq, htwin.2.entryCount_eq]
    have hsame := SampleToChunkTable.sampleScan_same SampleToChunkTable.inLastRun sampleNum 0
      htwin (Nat.zero_add entryCount)
    cases hx : T.sampleScan a.parsingMode SampleToChunkTable.inLastRun sampleNum entryCount 0 0
        t with
    | none =>
      rw [hx] at hsame
      rw [map_eq_none_iff.mp (hsame.1.symm.trans rfl)]
      exact ⟨rfl, fun _ _ _ _ hnone => by cases hnone⟩
    | some r =>
      obtain ⟨t', found⟩ := r
      obtain ⟨u', hu', htwin'⟩ := hsame.right hx
      rw [hu']
      cases found with
      | none => exact .of_eq_some (.table _ _ rfl rfl h0 htwin')
      | some found => exact .of_eq_some (.table _ _ rfl rfl h0 htwin')

/-- **A query of two atoms** with the same entries has the same answer. -/
theorem agree_step (a w : SampleToChunkAtom) (q : Query) (h : Agree T e entryCount a w) :
    SameAnswer (Agree T e entryCount) (a.query T q) (w.query T q) := by
  cases q with
  | getFirstChunkAt index => exact h.entryAt _ index
  | getSamplesPerChunkAt index => exact h.entryAt _ index
  | getChunkNumberForSample sampleNum => exact h.getChunkNumberForSample sampleNum
  | getFirstSampleNumInChunk chunkNum =>
    refine h.onTable ?_
    intro t u h0 htwin
    rw [htwin.1.entryCount_eq, htwin.2.entryCount_eq]
    exact (SampleToChunkTable.firstSampleScan_same h0 chunkNum 0 0 htwin
      (Nat.zero_add entryCount)).map (fun _ _ h => h) fun r =>
        r.elim failed fun sampleNum => (.everythingFine, some sampleNum)

/-! ## 6. Construction -/

/-- The reset of two atoms with the same entries. -/
theorem Agree.resetStateVariablesTo (h : Agree T e entryCount a w)
    (hnum : a.numChunksInRun = w.numChunksInRun) (sampleNum : UInt32) :
    SameAnswer (Agree T e entryCount) (a.resetStateVariablesTo T sampleNum)
      (w.resetStateVariablesTo T sampleNum) := by
  unfold SampleToChunkAtom.resetStateVariablesTo
  cases h with
  | null ha hw =>
    have ha' : a.resetStateVariables.table = none := ha
    have hw' : w.resetStateVariables.table = none := hw
    dsimp only
    rw [ha', hw']
    exact .of_eq_some (.null ha' hw')
  | table t u ha hw h0 htwin =>
    have ha' : a.resetStateVariables.table = some t := ha
    have hw' : w.resetStateVariables.table = some u := hw
    dsimp only
    rw [ha', hw']
    dsimp only
    rw [htwin.1.entryCount_eq, htwin.2.entryCount_eq]
    have hsame := SampleToChunkTable.resetScan_same sampleNum 0 SampleToChunkTable.Cursor.start
      a.numChunksInRun htwin (Nat.zero_add entryCount) (fun _ => inr rfl) (fun _ => inr rfl)
    have hl : T.resetScan a.resetStateVariables.parsingMode sampleNum entryCount 0 0 t
        a.resetStateVariables.get a.resetStateVariables.numChunksInRun =
        T.resetScan a.parsingMode sampleNum entryCount 0 0 t .start a.numChunksInRun := rfl
    have hr : T.resetScan w.resetStateVariables.parsingMode sampleNum entryCount 0 0 u
        w.resetStateVariables.get w.resetStateVariables.numChunksInRun =
        T.resetScan w.parsingMode sampleNum entryCount 0 0 u .start a.numChunksInRun := by
      rw [hnum]
      rfl
    rw [hl, hr]
    cases hx : T.resetScan a.parsingMode sampleNum entryCount 0 0 t .start
        a.numChunksInRun with
    | none =>
      rw [hx] at hsame
      rw [map_eq_none_iff.mp (hsame.1.symm.trans rfl)]
      exact ⟨rfl, fun _ _ _ _ hnone => by cases hnone⟩
    | some r =>
      obtain ⟨t', c', num, found⟩ := r
      obtain ⟨u', hu', htwin'⟩ := hsame.right hx
      rw [hu']
      cases found with
      | false => exact .of_eq_some (.table _ _ rfl rfl h0 htwin')
      | true => exact .of_eq_some (.table _ _ rfl rfl h0 htwin')

end SampleToChunkAtom

variable {sampleNum : UInt32}

namespace SampleToChunkTable

variable {T : SampleToChunkTable}

/-- The whole table holds what its loop kept, whatever was in the arrays before. -/
theorem whole_holds (vec vec' : Nat → SampleToChunkEntry) :
    T.Holds (T.readAll T.entryCount.toNat 0 0 0 0 vec').2.1
      (T.readAll T.entryCount.toNat 0 0 0 0 vec').1 false (T.whole vec) := by
  have hnone : ∀ k < 0, vec k = vec' k := fun k hk => absurd hk (Nat.not_lt_zero k)
  obtain ⟨hcount, -, hle, -, hslots⟩ :=
    readAll_agree (Nat.zero_add T.entryCount.toNat) 0 0 hnone
  rw [← hcount]
  have hpos : (T.whole vec).consumed = T.entryFile.posOf T.entryCount.toNat :=
    readAll_pos (Nat.zero_add _) _ _ _ _
  refine .memory ?_ ?_ (Nat.le_of_eq hpos)
  · intro i hi
    have hi' : i < (T.readAll T.entryCount.toNat 0 0 0 0 vec).1 := hi
    have hmod : i % T.entryCount.toNat = i := Nat.mod_eq_of_lt (by omega)
    show (T.readAll T.entryCount.toNat 0 0 0 0 vec).2.1 (i % T.entryCount.toNat) = _
    rw [hmod]
    exact hslots i hi'
  · show (T.readAll T.entryCount.toNat 0 0 0 0 vec).1 ≤ _
    omega

/-- The first entry kept starts at chunk 0, where it is the table's first. -/
theorem readAll_zero (h0 : 0 < T.entryCount.toNat) (hfirst : T.firstChunkAt 0 ≠ 0)
    (vec : Nat → SampleToChunkEntry) :
    ((T.readAll T.entryCount.toNat 0 0 0 0 vec).2.1 0).firstChunk = 0 := by
  obtain ⟨n, hn⟩ : ∃ n, T.entryCount.toNat = n + 1 := ⟨T.entryCount.toNat - 1, by omega⟩
  have hpos : 0 < T.firstChunkAt 0 := UInt32.pos_iff_ne_zero.mpr hfirst
  have hn' : 0 + 1 + n = T.entryCount.toNat := by omega
  rw [hn, readAll_succ h0, if_pos hpos, if_pos rfl, readAll_old hn' _ _ (Nat.lt_succ_self 0),
    update_self]
  exact UInt32.sub_self _

/-- The whole table of a rising one: all entries, less the first `first_chunk`. -/
theorem whole_holds_raw (hT : T.Increasing) (vec : Nat → SampleToChunkEntry) :
    T.Holds (T.rawEntry (T.firstChunkAt 0)) T.entryCount.toNat false (T.whole vec) := by
  obtain ⟨hcount, -, hslots⟩ := @readAll_keeps T T.entryCount.toNat 0 (Nat.zero_add _) 0 0 hT 0 vec
    (T.firstChunkAt 0) (if_pos rfl).symm
  have h := T.whole_holds vec vec
  rw [hcount, Nat.zero_add] at h
  refine h.congr fun k hk => ?_
  have hraw := hslots k hk
  rw [Nat.zero_add] at hraw
  exact hraw

/-- Where the first `first_chunk` is 1, that is what the window serves. -/
theorem rawEntry_eq_entry (hfirst : T.firstChunkAt 0 = 1) (k : Nat) :
    T.rawEntry (T.firstChunkAt 0) k = T.entryFile.entry k := by
  unfold rawEntry EntryFile.entry entryFile
  dsimp only
  by_cases hk : k = 0
  · rw [if_pos hk, hk]
    rfl
  · rw [if_neg hk, hfirst]
    rfl

theorem entry_zero : (T.entryFile.entry 0).firstChunk = 0 := UInt32.sub_self _

/-- What the windowed constructor parses first. -/
theorem windowed_holds (hT : T.Increasing) (h0 : 0 < T.entryCount.toNat)
    (vec : Nat → SampleToChunkEntry) :
    ∃ t, T.parseEntryUnit 0
        (.windowed T.entryFile T.entryCount.toNat maxCachedTableEntriesFile vec) = some t ∧
      T.Holds T.entryFile.entry T.entryCount.toNat true t := by
  have hserved := StblTable.windowed_served (f := T.entryFile)
    (show 0 < maxCachedTableEntriesFile by decide) h0 vec
  have hsmall := T.small (Nat.zero_le T.entryCount.toNat)
  obtain ⟨hcount, hsize⟩ := StblTable.parseEntryUnit_entryCount T.entryFile
    tableEntriesThresholdFile 0
    (.windowed T.entryFile T.entryCount.toNat maxCachedTableEntriesFile vec)
  refine ⟨_, parseEntryUnit_eq hT hserved.toFilled rfl 0, .window hT
    ⟨0, hserved.parseEntryUnit hsmall⟩ ?_ hcount⟩
  rw [hsize]
  show tableEntriesThresholdFile < maxCachedTableEntriesFile
  decide

/-! ## 7. What any table keeps -/

variable {t t' : StblTable SampleToChunkEntry}

theorem parseTurn_entryCount (prev : UInt32) (t : StblTable SampleToChunkEntry) :
    (T.parseTurn prev t).1.entryCount = t.entryCount := by
  unfold parseTurn
  dsimp only
  split
  · rfl
  · split <;> rfl

theorem parseLoop_entryCount {upTo fuel : Nat}
    (h : T.parseLoop upTo fuel prev t = some t') : t'.entryCount = t.entryCount := by
  induction fuel generalizing t prev with
  | zero => cases h
  | succ fuel ih =>
    rw [parseLoop] at h
    split at h
    · have hturn := T.parseTurn_entryCount prev t
      generalize T.parseTurn prev t = r at h hturn
      obtain ⟨t₁, next⟩ := r
      cases next with
      | none =>
        cases h
        exact hturn
      | some prev' => exact (ih h).trans hturn
    · cases h
      rfl

theorem refill_entryCount {fuel : Nat} (h : T.refill i fuel t = some t') :
    t'.entryCount = t.entryCount := by
  induction fuel generalizing t with
  | zero => cases h
  | succ fuel ih =>
    rw [refill] at h
    split at h
    · obtain ⟨t₁, h₁, h₂⟩ := bind_eq_some_iff.mp h
      exact (ih h₂).trans (parseLoop_entryCount h₁)
    · cases h
      rfl

theorem fetch_entryCount {mode : Bool} (h : T.fetch mode i t = some t') :
    t'.entryCount = t.entryCount := by
  unfold fetch at h
  split at h
  · unfold checkAndParseEntry at h
    split at h
    · exact parseLoop_entryCount h
    · split at h
      · have hc := refill_entryCount h
        exact hc
      · cases h
        rfl
  · cases h
    rfl

variable {sampleCount : UInt32}

theorem resetScan_entryCount {mode : Bool} {n : Nat}
    {c : Cursor} {numChunks : Int32} {r : Cursor × Int32 × Bool}
    (h : T.resetScan mode sampleNum n i sampleCount t c numChunks = some (t', r)) :
    t'.entryCount = t.entryCount := by
  induction n generalizing i sampleCount t c with
  | zero =>
    cases h
    rfl
  | succ n ih =>
    obtain ⟨t₁, h₁, h₂⟩ := bind_eq_some_iff.mp h
    have hc := fetch_entryCount h₁
    dsimp only at h₂
    split at h₂
    · split at h₂
      · exact (ih h₂).trans hc
      · split at h₂
        · cases h₂
          exact hc
        · exact (ih h₂).trans hc
    · obtain ⟨r₁, -, h₃⟩ := bind_eq_some_iff.mp h₂
      split at h₃
      · cases h₃
        exact hc
      · exact (ih h₃).trans hc

/-! ## 8. A table in memory stays as it is -/

@[simp] theorem fetch_memory (i : Nat) (t : StblTable SampleToChunkEntry) :
    T.fetch false i t = some t := if_neg Bool.false_ne_true

theorem sampleScan_memory
    {lastRun : UInt32 → UInt32 → Nat → UInt32 → UInt32 → Option (Option UInt32)}
    {n : Nat} {found : Option Found}
    (h : T.sampleScan false lastRun sampleNum n i sampleCount t = some (t', found)) : t' = t := by
  induction n generalizing i sampleCount with
  | zero =>
    cases h
    rfl
  | succ n ih =>
    rw [sampleScan, fetch_memory, bind_some] at h
    dsimp only at h
    rw [fetch_memory, bind_some] at h
    split at h
    · split at h
      · exact ih h
      · split at h
        · cases h
          rfl
        · exact ih h
    · obtain ⟨r, -, h'⟩ := bind_eq_some_iff.mp h
      split at h'
      · cases h'
        rfl
      · exact ih h'

theorem firstSampleScan_memory {chunkNum firstSample samplesInRun : UInt32} {n : Nat}
    {found : Option UInt32}
    (h : T.firstSampleScan false chunkNum n i firstSample samplesInRun t = some (t', found)) :
    t' = t := by
  induction n generalizing i firstSample samplesInRun with
  | zero =>
    cases h
    rfl
  | succ n ih =>
    rw [firstSampleScan, fetch_memory, bind_some] at h
    dsimp only at h
    rw [fetch_memory, bind_some, fetch_memory, bind_some] at h
    split at h
    · cases h
      rfl
    · split at h
      · cases h
        rfl
      · split at h
        · exact ih h
        · cases h
          rfl

theorem resetScan_memory {n : Nat} {c : Cursor}
    {numChunks : Int32} {r : Cursor × Int32 × Bool}
    (h : T.resetScan false sampleNum n i sampleCount t c numChunks = some (t', r)) : t' = t := by
  induction n generalizing i sampleCount c with
  | zero =>
    cases h
    rfl
  | succ n ih =>
    rw [resetScan, fetch_memory, bind_some] at h
    dsimp only at h
    split at h
    · split at h
      · exact ih h
      · split at h
        · cases h
          rfl
        · exact ih h
    · obtain ⟨r₁, -, h'⟩ := bind_eq_some_iff.mp h
      split at h'
      · cases h'
        rfl
      · exact ih h'

end SampleToChunkTable

namespace SampleToChunkAtom

variable {T : SampleToChunkTable}

variable {t : StblTable SampleToChunkEntry}

variable {a' : SampleToChunkAtom}

theorem resetStateVariablesTo_entryCount {code : Mp4ErrorCode}
    (ht : a.table = some t)
    (h : a.resetStateVariablesTo T sampleNum = some (a', code)) :
    ∃ t', a'.table = some t' ∧ t'.entryCount = t.entryCount ∧ a'.parsingMode = a.parsingMode := by
  unfold resetStateVariablesTo at h
  have ht' : a.resetStateVariables.table = some t := ht
  dsimp only at h
  rw [ht'] at h
  obtain ⟨r, hr, he⟩ := map_eq_some_iff.mp h
  obtain ⟨t', c, num, found⟩ := r
  have hc := SampleToChunkTable.resetScan_entryCount hr
  cases found with
  | false | true =>
    cases he
    exact ⟨t', rfl, hc, rfl⟩

/-- No query changes a table in memory. -/
theorem query_memory {q : Query} {ans : Answer}
    (hmode : a.parsingMode = false) (h : a.query T q = some (a', ans)) :
    a'.table = a.table ∧ a'.parsingMode = false := by
  have honTable : ∀ f : StblTable SampleToChunkEntry →
      Option (StblTable SampleToChunkEntry × Answer),
      (∀ t t' r, a.table = some t → f t = some (t', r) → t' = t) →
      a.onTable f = some (a', ans) → a'.table = a.table ∧ a'.parsingMode = false := by
    intro f hf hq
    unfold onTable at hq
    split at hq
    · cases hq
      exact ⟨rfl, hmode⟩
    · rename_i t ht
      obtain ⟨r, hr, he⟩ := map_eq_some_iff.mp hq
      cases he
      exact ⟨by rw [ht, hf t r.1 r.2 ht hr], hmode⟩
  have hentry : ∀ (field : SampleToChunkEntry → UInt32) (index : UInt32),
      a.entryAt T field index = some (a', ans) →
      a'.table = a.table ∧ a'.parsingMode = false := by
    intro field index hq
    refine honTable _ ?_ hq
    intro t t' r _ hr
    rw [hmode, SampleToChunkTable.fetch_memory] at hr
    split at hr <;>
    · cases hr
      rfl
  cases q with
  | getFirstChunkAt index => exact hentry _ index h
  | getSamplesPerChunkAt index => exact hentry _ index h
  | getChunkNumberForSample sampleNum =>
    have h' : a.getChunkNumberForSample T sampleNum = some (a', ans) := h
    unfold getChunkNumberForSample at h'
    rw [hmode] at h'
    split at h'
    · cases h'
      exact ⟨rfl, hmode⟩
    · rename_i t ht
      obtain ⟨r, hr, he⟩ := map_eq_some_iff.mp h'
      obtain ⟨t', found⟩ := r
      have htt := SampleToChunkTable.sampleScan_memory hr
      cases found with
      | none =>
        cases he
        exact ⟨by rw [ht, htt], rfl⟩
      | some found =>
        cases he
        exact ⟨by rw [ht, htt], rfl⟩
  | getFirstSampleNumInChunk chunkNum =>
    refine honTable _ ?_ h
    intro t t' r _ hr
    rw [hmode] at hr
    obtain ⟨r₁, hr₁, he⟩ := map_eq_some_iff.mp hr
    cases he
    exact SampleToChunkTable.firstSampleScan_memory hr₁

/-! ## 9. The two ways -/

/-- The answers of an atom to its queries, where its constructor returns. -/
def createdAnswers (T : SampleToChunkTable) (parsingMode : Bool) (vec : Nat → SampleToChunkEntry)
    (qs : List Query) : Option (List (Option Answer)) :=
  (create T parsingMode vec).map fun a => answers (query T) a qs

/-- After these queries nothing behind the atom's own entries was read. -/
def ReadsInside (T : SampleToChunkTable) (parsingMode : Bool) (vec : Nat → SampleToChunkEntry)
    (qs : List Query) : Prop :=
  ∀ a₀ a t, create T parsingMode vec = some a₀ →
    execAll (fun a q => (query T a q).map fst) a₀ qs = some a → a.table = some t →
      t.consumed ≤ T.entryFile.posOf T.entryCount.toNat

/-- The table rises from 1, or it is short and held whole in either mode: then its first entry must
    be kept, or the arrays be given the same memory, since the step back from the first entry kept
    reads a slot that may not be written. -/
def Alike (T : SampleToChunkTable) (vec vec' : Nat → SampleToChunkEntry) : Prop :=
  (T.Increasing ∧ T.firstChunkAt 0 = 1) ∨
    (T.entryCount.toNat ≤ maxCachedTableEntriesFile ∧
      (0 < T.entryCount.toNat → T.firstChunkAt 0 ≠ 0 ∨ vec = vec'))

/-- Two constructors that return both or neither, with the same entries. -/
def Created (T : SampleToChunkTable) (x y : Option SampleToChunkAtom) : Prop :=
  (x = none ∧ y = none) ∨
    ∃ e entryCount a w, x = some a ∧ y = some w ∧ Agree T e entryCount a w

variable {e : Nat → SampleToChunkEntry} {entryCount : Nat}

theorem Created.of_sameAnswer
    {x y : Option (SampleToChunkAtom × Mp4ErrorCode)}
    (h : SameAnswer (Agree T e entryCount) x y) : Created T (x.map fst) (y.map fst) := by
  cases x with
  | none =>
    rw [map_eq_none_iff.mp (h.1.symm.trans rfl)]
    exact inl ⟨rfl, rfl⟩
  | some r =>
    obtain ⟨a, code⟩ := r
    obtain ⟨w, hw, hagree⟩ := h.right rfl
    rw [hw]
    exact inr ⟨e, entryCount, a, w, rfl, rfl, hagree⟩

theorem loaded_agree {mode mode' : Bool}
    {u : StblTable SampleToChunkEntry} (h0 : (e 0).firstChunk = 0)
    (htwin : T.Twin e entryCount mode mode' t u) :
    Created T (((loaded mode (some t)).resetStateVariablesTo T 0).map fst)
      (((loaded mode' (some u)).resetStateVariablesTo T 0).map fst) := by
  have hagree : Agree T e entryCount (loaded mode (some t)) (loaded mode' (some u)) :=
    .table t u rfl rfl h0 htwin
  exact .of_sameAnswer (hagree.resetStateVariablesTo rfl 0)

theorem create_whole (h0 : 0 < T.entryCount.toNat) {parsingMode : Bool}
    (hshort : ¬ (parsingMode = true ∧ T.entryCount.toNat > maxCachedTableEntriesFile))
    (vec : Nat → SampleToChunkEntry) :
    create T parsingMode vec =
      ((loaded false (some (T.whole vec))).resetStateVariablesTo T 0).map fst := by
  unfold create
  rw [if_pos h0, if_neg hshort]

theorem not_windowed (T : SampleToChunkTable) :
    ¬ (false = true ∧ T.entryCount.toNat > maxCachedTableEntriesFile) :=
  fun h => Bool.false_ne_true h.1

variable {vec' : Nat → SampleToChunkEntry}

/-- **Construction**: the atoms hold the same entries, or are the same atom. -/
theorem create_agree (h : Alike T vec vec') :
    Created T (create T true vec) (create T false vec') ∨
      (0 < T.entryCount.toNat ∧ create T true vec = create T false vec') := by
  by_cases h0 : 0 < T.entryCount.toNat
  · rw [create_whole h0 (not_windowed T)]
    by_cases hlong : T.entryCount.toNat > maxCachedTableEntriesFile
    · obtain ⟨hT, hfirst⟩ | ⟨hshort, -⟩ := h
      · left
        obtain ⟨t, ht, hholds⟩ := SampleToChunkTable.windowed_holds hT h0 vec
        have hmode : true = true ∧ T.entryCount.toNat > maxCachedTableEntriesFile := ⟨rfl, hlong⟩
        unfold create
        rw [if_pos h0, if_pos hmode, ht]
        exact loaded_agree SampleToChunkTable.entry_zero ⟨hholds,
          (SampleToChunkTable.whole_holds_raw hT vec').congr fun k _ =>
            SampleToChunkTable.rawEntry_eq_entry hfirst k⟩
      · omega
    · rw [create_whole h0 fun hmode => hlong hmode.2]
      have hmem := SampleToChunkTable.whole_holds (T := T)
      by_cases hfirst : T.firstChunkAt 0 = 0
      · have hvec : vec = vec' := by
          obtain ⟨hT, hone⟩ | ⟨-, hsame⟩ := h
          · rw [hfirst] at hone
            cases hone
          · exact (hsame h0).resolve_left fun hne => hne hfirst
        rw [hvec]
        exact inr ⟨h0, rfl⟩
      · exact inl (loaded_agree (SampleToChunkTable.readAll_zero h0 hfirst vec)
          ⟨hmem vec vec, hmem vec' vec⟩)
  · left
    unfold create
    rw [if_neg h0, if_neg h0]
    exact inr ⟨fun _ => ⟨0, 0, 0⟩, 0, _, _, rfl, rfl, .null rfl rfl⟩

/-- Where the two ways are alike, so are the answers. -/
theorem createdAnswers_eq (h : Alike T vec vec')
    (qs : List Query) : createdAnswers T true vec qs = createdAnswers T false vec' qs := by
  unfold createdAnswers
  obtain hcreated | ⟨-, hsame⟩ := create_agree h
  · obtain ⟨hx, hy⟩ | ⟨e, entryCount, a, w, hx, hy, hagree⟩ := hcreated
    · rw [hx, hy]
    · rw [hx, hy]
      have hstep : ∀ a w q, Agree T e entryCount a w → True →
          SameAnswer (Agree T e entryCount) (a.query T q) (w.query T q) :=
        fun a w q hagree _ => agree_step a w q hagree
      exact congrArg some (answers_eq hstep hagree (AllCalls.of_forall (fun _ _ => trivial) a))
  · rw [hsame]

/-- The table in memory was read inside the atom. -/
theorem readsInside_memory {parsingMode : Bool} (h0 : 0 < T.entryCount.toNat)
    (hshort : ¬ (parsingMode = true ∧ T.entryCount.toNat > maxCachedTableEntriesFile))
    (vec : Nat → SampleToChunkEntry) (qs : List Query) : ReadsInside T parsingMode vec qs := by
  intro a₀ a t hcreate hrun ht
  rw [create_whole h0 hshort] at hcreate
  obtain ⟨⟨a₁, code⟩, hreset, he⟩ := map_eq_some_iff.mp hcreate
  cases he
  -- neither the reset nor a query touches the table
  have hkept : a₁.table = some (T.whole vec) ∧ a₁.parsingMode = false := by
    unfold resetStateVariablesTo at hreset
    obtain ⟨⟨t', c, num, found⟩, hr, he⟩ := map_eq_some_iff.mp hreset
    have htt := SampleToChunkTable.resetScan_memory hr
    cases found with
    | false | true =>
      cases he
      exact ⟨congrArg some htt, rfl⟩
  have hinv : ∀ a q a', a.table = some (T.whole vec) ∧ a.parsingMode = false →
      (query T a q).map fst = some a' →
      a'.table = some (T.whole vec) ∧ a'.parsingMode = false := by
    intro a q a' ha hq
    obtain ⟨⟨a₂, ans⟩, hq', he⟩ := map_eq_some_iff.mp hq
    cases he
    obtain ⟨htable, hmode⟩ := query_memory ha.2 hq'
    exact ⟨htable.trans ha.1, hmode⟩
  have hend := Run.invariant
    (I := fun a => a.table = some (T.whole vec) ∧ a.parsingMode = false) hkept hinv
    (Run.of_execAll hrun)
  rw [ht] at hend
  obtain rfl := some.inj hend.1
  exact (SampleToChunkTable.whole_holds vec vec).inside

/-- In the window of such a table nothing else is read either. -/
theorem readsInside_of_alike (h : Alike T vec vec')
    (qs : List Query) : ReadsInside T true vec qs := by
  intro a₀ a t hcreate hrun ht
  obtain hcreated | ⟨h0, hsame⟩ := create_agree h
  · obtain ⟨hx, hy⟩ | ⟨e, entryCount, a₁, w, hx, hy, hagree⟩ := hcreated
    · rw [hx] at hcreate
      cases hcreate
    · rw [hx] at hcreate
      cases hcreate
      have hstep : ∀ a w q, Agree T e entryCount a w → True →
          SameAnswer (Agree T e entryCount) (a.query T q) (w.query T q) :=
        fun a w q hagree _ => agree_step a w q hagree
      obtain ⟨w', hend⟩ := execAll_related hstep hagree (fun _ _ => trivial) hrun
      cases hend with
      | null ha _ =>
        rw [ha] at ht
        cases ht
      | table t' u ha hw h0 htwin =>
        rw [ha] at ht
        cases ht
        exact htwin.1.inside
  · rw [hsame] at hcreate
    refine readsInside_memory h0 (not_windowed T) vec' qs a₀ a t hcreate hrun ht

/-! ## 10. Where they differ -/

/-- An index that is in the table: the call sets a value, if it returns. -/
theorem entryAt_inTable
    (ht : a.table = some t) {index : UInt32} (hi : index.toNat < t.entryCount)
    (field : SampleToChunkEntry → UInt32) :
    a.entryAt T field index = (T.fetch a.parsingMode index.toNat t).map fun t =>
      ({ a with table := some t }, .everythingFine, some (field (t.slot index.toNat))) := by
  unfold entryAt onTable
  rw [ht]
  dsimp only
  rw [if_pos hi, map_map]
  rfl

theorem entryAt_notInTable
    (ht : a.table = some t) {index : UInt32} (hi : ¬ index.toNat < t.entryCount)
    (field : SampleToChunkEntry → UInt32) :
    (a.entryAt T field index).map snd = some failed := by
  unfold entryAt onTable
  rw [ht]
  dsimp only
  rw [if_neg hi]
  rfl

theorem answers_single (a : SampleToChunkAtom) (q : Query) :
    answers (query T) a [q] = [(a.query T q).map snd] := by
  unfold answers
  cases a.query T q with
  | none => rfl
  | some r => rfl

/-- The windowed atom keeps the entry count of the table in the file. -/
theorem create_windowed
    (hlong : T.entryCount.toNat > maxCachedTableEntriesFile)
    (h : create T true vec = some a) :
    ∃ t, a.table = some t ∧ t.entryCount = T.entryCount.toNat := by
  have h0 : 0 < T.entryCount.toNat := by omega
  have hmode : true = true ∧ T.entryCount.toNat > maxCachedTableEntriesFile := ⟨rfl, hlong⟩
  unfold create at h
  rw [if_pos h0, if_pos hmode] at h
  obtain ⟨t, ht, h'⟩ := bind_eq_some_iff.mp h
  obtain ⟨⟨a₁, code⟩, hreset, he⟩ := map_eq_some_iff.mp h'
  cases he
  obtain ⟨t', ht', hcount, -⟩ := resetStateVariablesTo_entryCount rfl hreset
  exact ⟨t', ht', hcount.trans (SampleToChunkTable.parseLoop_entryCount ht)⟩

/-- The reset keeps what the table holds. -/
theorem resetStateVariablesTo_holds
    (ht : a.table = some t)
    (hholds : T.Holds e entryCount a.parsingMode t) {code : Mp4ErrorCode}
    (h : a.resetStateVariablesTo T sampleNum = some (a', code)) :
    ∃ t', a'.table = some t' ∧ T.Holds e entryCount a'.parsingMode t' := by
  unfold resetStateVariablesTo at h
  have ht' : a.resetStateVariables.table = some t := ht
  dsimp only at h
  rw [ht'] at h
  obtain ⟨⟨t', c, num, found⟩, hr, he⟩ := map_eq_some_iff.mp h
  have hcount := hholds.entryCount_eq
  have hsame := SampleToChunkTable.resetScan_same sampleNum 0 a.resetStateVariables.get
    a.numChunksInRun ⟨hholds, hholds⟩ (Nat.zero_add entryCount) (fun _ => inr rfl)
    (fun _ => inr rfl)
  rw [← hcount] at hsame
  have hr' : T.resetScan a.parsingMode sampleNum t.entryCount 0 0 t a.resetStateVariables.get
      a.numChunksInRun = some (t', c, num, found) := hr
  obtain ⟨u, -, htwin⟩ := hsame.right hr'
  rw [hcount] at htwin
  cases found with
  | false | true =>
    cases he
    exact ⟨t', rfl, htwin.1⟩

/-- A constructed atom serves what its table served. -/
theorem reset_loaded {mode : Bool}
    (hholds : T.Holds e entryCount mode t)
    (h : ((loaded mode (some t)).resetStateVariablesTo T 0).map fst = some a) :
    ∃ t', a.table = some t' ∧ T.Holds e entryCount a.parsingMode t' := by
  obtain ⟨⟨a₁, code⟩, hreset, he⟩ := map_eq_some_iff.mp h
  cases he
  exact resetStateVariablesTo_holds (a := loaded mode (some t)) rfl hholds hreset

theorem getFirstChunkAt_one
    (ht : a.table = some t)
    (hholds : T.Holds e entryCount a.parsingMode t) (h1 : 1 < entryCount) :
    (a.query T (.getFirstChunkAt 1)).map snd =
      some (.everythingFine, some (e 1).firstChunk) := by
  obtain ⟨t', hfetch, -, hslot, -⟩ := hholds.fetch h1
  have hi : (1 : UInt32).toNat < t.entryCount := by
    rw [hholds.entryCount_eq]
    exact h1
  have hone : (1 : UInt32).toNat = 1 := rfl
  show (a.entryAt T SampleToChunkEntry.firstChunk 1).map snd = _
  rw [entryAt_inTable ht hi, hone, hfetch, map_some, map_some, hslot]

/-- **Elsewhere a long table answers some query differently**: the last entry where an entry was
    dropped, and entry 1 where the first `first_chunk` is not 1. -/
theorem createdAnswers_ne
    (hlong : T.entryCount.toNat > maxCachedTableEntriesFile)
    (hirregular : ¬ (T.Increasing ∧ T.firstChunkAt 0 = 1))
    (hcreated : (create T false vec').isSome) :
    ∃ q, createdAnswers T true vec [q] ≠ createdAnswers T false vec' [q] := by
  have h0 : 0 < T.entryCount.toNat := by omega
  obtain ⟨w, hw⟩ := isSome_iff_exists.mp hcreated
  unfold createdAnswers
  rw [hw]
  have hcw := hw
  rw [create_whole h0 (not_windowed T)] at hcw
  by_cases hT : T.Increasing
  · refine ⟨.getFirstChunkAt 1, ?_⟩
    have hfirst : T.firstChunkAt 0 ≠ 1 := fun hone => hirregular ⟨hT, hone⟩
    have h1 : 1 < T.entryCount.toNat := by
      unfold maxCachedTableEntriesFile at hlong
      omega
    cases ha : create T true vec with
    | none => exact some_ne_none _ ∘ Eq.symm
    | some a =>
      have hmode : true = true ∧ T.entryCount.toNat > maxCachedTableEntriesFile := ⟨rfl, hlong⟩
      unfold create at ha
      rw [if_pos h0, if_pos hmode] at ha
      obtain ⟨t, ht, hholds⟩ := SampleToChunkTable.windowed_holds hT h0 vec
      rw [ht, bind_some] at ha
      obtain ⟨t', ht', hholds'⟩ := reset_loaded hholds ha
      obtain ⟨u, hu, hmem⟩ := reset_loaded (SampleToChunkTable.whole_holds_raw hT vec') hcw
      rw [map_some, map_some, answers_single, answers_single,
        getFirstChunkAt_one ht' hholds' h1, getFirstChunkAt_one hu hmem h1]
      intro he
      have hvalue := congrArg snd (some.inj (List.head_eq_of_cons_eq
        (some.inj he)))
      have hsub : T.firstChunkAt 1 - 1 = T.firstChunkAt 1 - T.firstChunkAt 0 :=
        some.inj hvalue
      exact hfirst (sub_right_injective hsub).symm
  · -- an entry was dropped, so the last index is behind the whole table
    obtain ⟨⟨w₁, code⟩, hreset, he⟩ := map_eq_some_iff.mp hcw
    cases he
    obtain ⟨u, hu, hcount, -⟩ := resetStateVariablesTo_entryCount rfl hreset
    have hnone : ∀ k < 0, vec' k = vec' k := fun _ _ => rfl
    obtain ⟨-, -, hle, -, -⟩ :=
      SampleToChunkTable.readAll_agree (Nat.zero_add T.entryCount.toNat) 0 0 hnone
    have hdropped : (T.readAll T.entryCount.toNat 0 0 0 0 vec').1 ≠ T.entryCount.toNat :=
      fun hall => hT (SampleToChunkTable.risesFrom_of_readAll (Nat.zero_add _)
        (hall.trans (Nat.zero_add _).symm))
    have hfewer : u.entryCount < T.entryCount.toNat := by
      have hu' : u.entryCount = (T.readAll T.entryCount.toNat 0 0 0 0 vec').1 := hcount
      omega
    have hlast : (T.entryCount - 1).toNat = T.entryCount.toNat - 1 :=
      UInt32.toNat_sub_of_le _ _ (UInt32.le_iff_toNat_le.mpr h0)
    refine ⟨.getFirstChunkAt (T.entryCount - 1), ?_⟩
    have hfailed : (w₁.query T (.getFirstChunkAt (T.entryCount - 1))).map snd = some failed :=
      entryAt_notInTable hu (by rw [hlast]; omega) _
    rw [map_some, answers_single, hfailed]
    cases ha : create T true vec with
    | none => exact some_ne_none _ ∘ Eq.symm
    | some a =>
      obtain ⟨t, ht, hct⟩ := create_windowed hlong ha
      have hin : (T.entryCount - 1).toNat < t.entryCount := by
        rw [hlast]
        omega
      have hfine : a.query T (.getFirstChunkAt (T.entryCount - 1)) = _ :=
        entryAt_inTable ht hin SampleToChunkEntry.firstChunk
      rw [map_some, answers_single, hfine]
      cases T.fetch a.parsingMode (T.entryCount - 1).toNat t with
      | none =>
        intro he
        cases he
      | some t' =>
        intro he
        cases he

/-- **The window answers as the whole table** and reads nothing behind it, for every table that
    rises from 1 and every short one, whatever is asked in whatever order; every other table
    whose atom can be constructed is answered differently. -/
theorem windowed_answers_eq_whole (T : SampleToChunkTable) (vec vec' : Nat → SampleToChunkEntry) :
    (Alike T vec vec' → ∀ qs, createdAnswers T true vec qs = createdAnswers T false vec' qs ∧
      ReadsInside T true vec qs) ∧
      (T.entryCount.toNat > maxCachedTableEntriesFile → ¬ Alike T vec vec' →
        (create T false vec').isSome →
          ∃ q, createdAnswers T true vec [q] ≠ createdAnswers T false vec' [q]) := by
  refine ⟨fun h qs => ⟨createdAnswers_eq h qs, readsInside_of_alike h qs⟩, ?_⟩
  intro hlong hnot hcreated
  exact createdAnswers_ne hlong (fun hregular => hnot (inl hregular)) hcreated

/-- A table of 4097 runs of one sample in each chunk, with these `first_chunk`s. -/
def longTable (firstChunk : Nat → UInt32) : SampleToChunkTable where
  file :=
    { fileSize := 49180
      word := fun pos => if (pos - 16) % 12 = 0 then firstChunk ((pos - 16) / 12) else 1 }
  headOffset := 16
  entryCount := 4097
  inAtom := by decide
  inFile := Nat.le_refl 49180

/-- The first chunks `1, 2, 3, …`. -/
theorem windowed_answers_eq_whole_rising :
    createdAnswers (longTable fun k => k.toUInt32 + 1) true (fun _ => ⟨0, 0, 0⟩)
        [.getFirstChunkAt 4096, .getChunkNumberForSample 7, .getFirstSampleNumInChunk 3] =
      createdAnswers (longTable fun k => k.toUInt32 + 1) false (fun _ => ⟨0, 0, 0⟩)
        [.getFirstChunkAt 4096, .getChunkNumberForSample 7, .getFirstSampleNumInChunk 3] := by
  have hfirst : ∀ k, k < 4097 →
      ((longTable fun k => k.toUInt32 + 1).firstChunkAt k).toNat = k + 1 := by
    intro k hk
    have hmod : (16 + k * 12 - 16) % 12 = 0 := by omega
    have hdiv : (16 + k * 12 - 16) / 12 = k := by omega
    show (if (16 + k * 12 - 16) % 12 = 0 then ((16 + k * 12 - 16) / 12).toUInt32 + 1
      else 1 : UInt32).toNat = k + 1
    rw [if_pos hmod, hdiv, UInt32.toNat_add]
    show (k % 4294967296 + 1) % 4294967296 = k + 1
    omega
  have hT : (longTable fun k => k.toUInt32 + 1).Increasing := by
    refine ⟨fun _ => ?_, fun k _ hk => ?_⟩
    · rw [UInt32.lt_iff_toNat_lt, hfirst 0 (by decide)]
      decide
    · have hk' : k + 1 < 4097 := hk
      rw [UInt32.lt_iff_toNat_lt, hfirst k (by omega), hfirst (k + 1) hk']
      omega
  have hone : (longTable fun k => k.toUInt32 + 1).firstChunkAt 0 = 1 :=
    UInt32.toNat_inj.mp (hfirst 0 (by decide))
  exact ((windowed_answers_eq_whole (longTable fun k => k.toUInt32 + 1) (fun _ => ⟨0, 0, 0⟩)
    (fun _ => ⟨0, 0, 0⟩)).1 (inl ⟨hT, hone⟩) _).1

/-- The first chunks `5, 6, 7, …`: run 1 starts at chunk 5 through the window and at chunk 1 from
    memory. -/
theorem windowed_answers_differ :
    createdAnswers (longTable fun k => k.toUInt32 + 5) true (fun _ => ⟨0, 0, 0⟩)
        [.getFirstChunkAt 1] = some [some (.everythingFine, some 5)] ∧
      createdAnswers (longTable fun k => k.toUInt32 + 5) false (fun _ => ⟨0, 0, 0⟩)
        [.getFirstChunkAt 1] = some [some (.everythingFine, some 1)] := by
  refine ⟨by decide +kernel, by decide +kernel⟩

end SampleToChunkAtom

end OpenCore.Mp4
