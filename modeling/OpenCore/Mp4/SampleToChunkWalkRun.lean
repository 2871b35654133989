/-
  File:      OpenCore/Mp4/SampleToChunkWalkRun.lean
  Subject:   RUNS OF THE WALK: `resetStateVariables(s)` and then calls for the same sample or the
             next, with `Get` and `Peek` in any order.

  * `Sound` -- what every call of the atom keeps: a table that holds its entries, and cursors on
    them.

  **Main result**: `walk_answers_eq_scans`.
-/
import OpenCore.Mp4.SampleToChunkWalk

namespace OpenCore.Mp4

open List Option

/-! ## 1. The entries an atom holds -/

open SampleToChunkTable (Cursor)

variable {k : Nat} {parsingMode mode : Bool} {t : StblTable SampleToChunkEntry} {sampleNum : UInt32}

namespace SampleToChunkTable

variable (T : SampleToChunkTable)

/-- Whether the atom reads its table through the window. -/
def windowed (parsingMode : Bool) : Bool :=
  parsingMode && decide (T.entryCount.toNat > maxCachedTableEntriesFile)

/-- Entry `k` of the atom: of the window, or of those the constructor kept. -/
def storedEntry (parsingMode : Bool) (k : Nat) : SampleToChunkEntry :=
  if T.windowed parsingMode then T.entryFile.entry k
  else if T.firstChunkAt 0 = 0 then T.rawEntry 0 (k + 1)
  else T.rawEntry (T.firstChunkAt 0) k

/-- How many entries the atom has: the constructor does not keep an entry whose `first_chunk`
    is 0. -/
def storedCount (parsingMode : Bool) : Nat :=
  if T.windowed parsingMode = false ∧ T.firstChunkAt 0 = 0 then T.entryCount.toNat - 1
  else T.entryCount.toNat

/-- Increasing `first_chunk`s, and no `samples_per_chunk` that is zero. -/
structure InOrder : Prop where
  rises : ∀ k, k + 1 < T.entryCount.toNat → T.firstChunkAt k < T.firstChunkAt (k + 1)
  full : ∀ k < T.entryCount.toNat, T.file.word (T.entryFile.posOf k + 4) ≠ 0

variable {T} {vec : Nat → SampleToChunkEntry}

theorem InOrder.increasing (hT : T.InOrder) (h0 : T.firstChunkAt 0 ≠ 0) : T.Increasing :=
  ⟨fun _ => UInt32.pos_iff_ne_zero.mpr h0, fun k _ hk => hT.rises k hk⟩

theorem InOrder.le_firstChunk (hT : T.InOrder) (hk : k < T.entryCount.toNat) :
    (T.firstChunkAt 0).toNat + k ≤ (T.firstChunkAt k).toNat := by
  induction k with
  | zero => exact Nat.le_refl _
  | succ k ih =>
    have hlt := UInt32.lt_iff_toNat_lt.mp (hT.rises k hk)
    have := ih (by omega)
    omega

/-- Entries less one offset keep their order. -/
theorem rawEntry_firstChunk {off : UInt32} (h : off.toNat ≤ (T.firstChunkAt k).toNat) :
    (T.rawEntry off k).firstChunk.toNat = (T.firstChunkAt k).toNat - off.toNat := toNat_sub h

/-- The entries of the window, `first_chunk` less 1 behind the first. -/
theorem entry_firstChunk (hT : T.InOrder)
    (hk : k < T.entryCount.toNat) :
    (T.entryFile.entry k).firstChunk.toNat =
      if k = 0 then 0 else (T.firstChunkAt k).toNat - 1 := by
  by_cases hk0 : k = 0
  · rw [if_pos hk0, hk0, entry_zero]
    rfl
  · have hle := hT.le_firstChunk hk
    have hone : (1 : UInt32).toNat ≤ (T.firstChunkAt k).toNat := by
      show 1 ≤ _
      omega
    have he : (T.entryFile.entry k).firstChunk = T.firstChunkAt k - 1 := by
      show T.firstChunkAt k - (if k = 0 then T.firstChunkAt k else 1) = _
      rw [if_neg hk0]
    rw [if_neg hk0, he, toNat_sub hone]
    rfl

/-- What an atom holds is in order, as the file is. -/
theorem InOrder.ordered (hT : T.InOrder)
    (hw : T.windowed parsingMode = true → T.firstChunkAt 0 ≠ 0) :
    Ordered (T.storedEntry parsingMode) (T.storedCount parsingMode) := by
  unfold storedEntry storedCount
  by_cases hmode : T.windowed parsingMode = true
  · have h0 := hw hmode
    have hno : ¬ (T.windowed parsingMode = false ∧ T.firstChunkAt 0 = 0) := fun h => h0 h.2
    rw [if_neg hno]
    refine ⟨fun i hi => ?_, fun i hi => ?_⟩
    · rw [if_pos hmode, if_pos hmode, entry_firstChunk hT (by omega),
        entry_firstChunk hT hi, if_neg (Nat.succ_ne_zero i)]
      have hlt := UInt32.lt_iff_toNat_lt.mp (hT.rises i hi)
      have hle := hT.le_firstChunk hi
      have hpos : 0 < (T.firstChunkAt 0).toNat :=
        Nat.pos_of_ne_zero fun hz => h0 (UInt32.toNat_inj.mp hz)
      split <;> omega
    · rw [if_pos hmode]
      exact Nat.pos_of_ne_zero fun hz => hT.full i hi (UInt32.toNat_inj.mp hz)
  · have hmode' : T.windowed parsingMode = false := Bool.eq_false_iff.mpr hmode
    by_cases h0 : T.firstChunkAt 0 = 0
    · have hyes : T.windowed parsingMode = false ∧ T.firstChunkAt 0 = 0 := ⟨hmode', h0⟩
      rw [if_pos hyes]
      refine ⟨fun i hi => ?_, fun i hi => ?_⟩
      · rw [if_neg hmode, if_pos h0, if_neg hmode, if_pos h0,
          rawEntry_firstChunk (Nat.zero_le _), rawEntry_firstChunk (Nat.zero_le _)]
        exact UInt32.lt_iff_toNat_lt.mp (hT.rises (i + 1) (by omega))
      · rw [if_neg hmode, if_pos h0]
        exact Nat.pos_of_ne_zero fun hz => hT.full (i + 1) (by omega) (UInt32.toNat_inj.mp hz)
    · have hno : ¬ (T.windowed parsingMode = false ∧ T.firstChunkAt 0 = 0) := fun h => h0 h.2
      rw [if_neg hno]
      refine ⟨fun i hi => ?_, fun i hi => ?_⟩
      · have hlt := UInt32.lt_iff_toNat_lt.mp (hT.rises i hi)
        have hle := hT.le_firstChunk (show i < T.entryCount.toNat by omega)
        rw [if_neg hmode, if_neg h0, if_neg hmode, if_neg h0,
          rawEntry_firstChunk (by omega), rawEntry_firstChunk (by omega)]
        omega
      · rw [if_neg hmode, if_neg h0]
        exact Nat.pos_of_ne_zero fun hz => hT.full i hi (UInt32.toNat_inj.mp hz)

/-- The whole table of a file in order. -/
theorem whole_holds_stored (hT : T.InOrder)
    (hmode : T.windowed parsingMode = false) (vec : Nat → SampleToChunkEntry) :
    T.Holds (T.storedEntry parsingMode) (T.storedCount parsingMode) false (T.whole vec) := by
  have hmode' : ¬ T.windowed parsingMode = true := by
    rw [hmode]
    exact Bool.false_ne_true
  by_cases h0 : T.firstChunkAt 0 = 0
  · have hcount : T.storedCount parsingMode = T.entryCount.toNat - 1 := if_pos ⟨hmode, h0⟩
    have he : ∀ k, T.storedEntry parsingMode k = T.rawEntry 0 (k + 1) := by
      intro k
      unfold storedEntry
      rw [if_neg hmode', if_pos h0]
    have h := T.whole_holds vec vec
    by_cases hc : T.entryCount.toNat = 0
    · rw [hcount]
      rw [hc] at h ⊢
      exact h.congr fun k hk => absurd hk (Nat.not_lt_zero k)
    · -- the first turn drops entry 0, the others keep theirs
      obtain ⟨n, hn⟩ : ∃ n, T.entryCount.toNat = n + 1 := ⟨T.entryCount.toNat - 1, by omega⟩
      have hn' : 1 + n = T.entryCount.toNat := by omega
      have hrises : T.RisesFrom 0 1 := by
        refine ⟨fun hi => ?_, fun k _ hk => hT.rises k hk⟩
        have hlt := hT.rises 0 hi
        rw [h0] at hlt
        exact hlt
      have hfirst : T.readAll (n + 1) 0 0 0 0 vec = T.readAll n 1 0 0 0 vec := by
        rw [readAll_succ (show 0 < T.entryCount.toNat by omega), h0,
          if_neg (UInt32.lt_irrefl 0), if_pos rfl]
      obtain ⟨hkept, -, hslots⟩ := @readAll_keeps T n 1 hn' 0 0 hrises 0 vec 0
        (if_neg Nat.one_ne_zero).symm
      rw [hn, hfirst, hkept, Nat.zero_add] at h
      rw [hcount, hn, Nat.add_sub_cancel]
      refine h.congr fun k hk => ?_
      have hraw := hslots k hk
      rw [Nat.zero_add, Nat.add_comm 1 k] at hraw
      rw [hraw, he k]
  · have hcount : T.storedCount parsingMode = T.entryCount.toNat := if_neg fun h => h0 h.2
    rw [hcount]
    refine (T.whole_holds_raw (hT.increasing h0) vec).congr fun k _ => ?_
    unfold storedEntry
    rw [if_neg hmode', if_neg h0]

/-- At the head of the table an entry that is dropped is read again, for ever. -/
theorem parseLoop_stuck (h0 : T.firstChunkAt 0 = 0) (hpos : 0 < T.entryCount.toNat) {upTo : Nat}
    (hup : 0 < upTo) (fuel : Nat)
    (hparsed : t.parsedEntryCnt = 0)
    (hhead : (if 0 = t.nextBuffNumber then Function.update t.stblFptrVec 0 t.filePos
      else t.stblFptrVec) 0 = T.entryFile.posOf 0) :
    T.parseLoop upTo fuel 0 t = none := by
  induction fuel generalizing t with
  | zero => rfl
  | succ fuel ih =>
    have hdropped : ¬ T.firstChunkAt 0 > 0 := by
      rw [h0]
      exact UInt32.lt_irrefl 0
    rw [parseLoop, hparsed, if_pos hup]
    unfold parseTurn
    dsimp only
    rw [hparsed, Nat.zero_mod, Nat.zero_div, if_pos rfl, hhead, readEntry_eq hpos]
    dsimp only
    rw [if_neg hdropped]
    refine ih rfl ?_
    dsimp only
    by_cases hnext : 0 = t.nextBuffNumber
    · simp only [← hnext, if_true] at hhead ⊢
      rw [if_neg (Nat.zero_ne_add_one 0)]
      exact hhead
    · simp only [hnext, if_false] at hhead ⊢
      exact hhead

/-- **One call of the walk on two holders** of the same entries, in range: the same cursor and the
    same answer. -/
theorem advance_same {e : Nat → SampleToChunkEntry} {m : Nat} {mode' : Bool}
    {w : StblTable SampleToChunkEntry} (h : T.Twin e m mode mode' t w) {c : Cursor}
    (hc : c.majorIndex < m) (sampleNum : UInt32) (numChunks numChunks' : Int32) :
    ∃ s s', T.advance mode sampleNum numChunks c t = some s ∧
      T.advance mode' sampleNum numChunks' c w = some s' ∧ T.Twin e m mode mode' s.table s'.table ∧
      s.cursor = s'.cursor ∧ s.answer = s'.answer ∧ s.cursor.majorIndex < m := by
  obtain ⟨t₁, hft, ht, hst, -⟩ := h.1.fetch hc
  obtain ⟨w₁, hfw, hw, hsw, -⟩ := h.2.fetch hc
  have hlast := lastIndex_eq T (show 0 < m by omega) h.1.le
  unfold advance
  rw [hft, hfw, bind_some, bind_some, ht.entryCount_eq, hw.entryCount_eq, hlast]
  by_cases hsame : sampleNum < c.currSampleCount
  · rw [if_pos hsame, if_pos hsame]
    exact ⟨_, _, rfl, rfl, ⟨ht, hw⟩, rfl, rfl, hc⟩
  · rw [if_neg hsame, if_neg hsame]
    by_cases hleft : 1 < c.numChunksInRun
    · rw [if_pos hleft, if_pos hleft]
      refine ⟨_, _, rfl, rfl, ⟨ht, hw⟩, rfl, rfl, ?_⟩
      dsimp only
      split <;> exact hc
    · rw [if_neg hleft, if_neg hleft]
      by_cases hlt : (c.majorIndex : Int) < (m : Int) - 1
      · have hnext : c.majorIndex + 1 < m := by omega
        obtain ⟨t₂, hft₂, ht₂, hst₂, -⟩ := ht.fetch hnext
        obtain ⟨w₂, hfw₂, hw₂, hsw₂, -⟩ := hw.fetch hnext
        rw [if_pos hlt, if_pos hlt, hft₂, hfw₂, bind_some, bind_some, hst, hsw,
          hst₂, hsw₂]
        exact ⟨_, _, rfl, rfl, ⟨ht₂, hw₂⟩, rfl, rfl, hnext⟩
      · have heq : (c.majorIndex : Int) = (m : Int) - 1 := by omega
        rw [if_neg hlt, if_neg hlt, if_pos heq, if_pos heq, hst, hsw]
        exact ⟨_, _, rfl, rfl, ⟨ht, hw⟩, rfl, rfl, hc⟩

/-- The loop of the reset leaves a cursor in the table. -/
theorem resetScan_major {sampleCount : UInt32} {i m : Nat}
    {t' : StblTable SampleToChunkEntry} {c c' : Cursor} {numChunks num : Int32} {found : Bool}
    (hk : i + k = m) (hc : c.majorIndex < m)
    (h : T.resetScan mode sampleNum k i sampleCount t c numChunks = some (t', c', num, found)) :
    c'.majorIndex < m := by
  have hrun : ∀ (n : Nat) (sampleNum chunkNum samples j count : UInt32) (c : Cursor),
      (resetRun sampleNum chunkNum samples n j count c).1.majorIndex = c.majorIndex := by
    intro n sampleNum chunkNum samples
    induction n with
    | zero => exact fun _ _ _ => rfl
    | succ n ih =>
      intro j count c
      unfold resetRun
      dsimp only
      split
      · rfl
      · exact ih _ _ _
  have hlastRun : ∀ (n : Nat) (sampleNum chunkNum samples k count : UInt32) (c : Cursor)
      (r : Cursor × Bool), resetLastRun sampleNum chunkNum samples n k count c = some r →
      r.1.majorIndex = c.majorIndex := by
    intro n sampleNum chunkNum samples
    induction n with
    | zero => exact fun _ _ _ _ hr => by cases hr
    | succ n ih =>
      intro k count c r hr
      unfold resetLastRun at hr
      dsimp only at hr
      split at hr
      · split at hr
        · cases hr
          rfl
        · have hkept := ih _ _ _ _ hr
          exact hkept
      · cases hr
        rfl
  induction k generalizing i sampleCount t c with
  | zero =>
    cases h
    exact hc
  | succ k ih =>
    obtain ⟨t₁, -, h₁⟩ := bind_eq_some_iff.mp h
    dsimp only at h₁
    split at h₁
    · split at h₁
      · exact ih (by omega) hc h₁
      · split at h₁
        · cases h₁
          show i < m
          omega
        · rename_i c₁ count hr
          refine ih (by omega) ?_ h₁
          have hmajor := congrArg (fun r => r.1.majorIndex) hr
          rw [← show _ = c₁.majorIndex from hmajor, hrun]
          exact hc
    · obtain ⟨r, hr, h₂⟩ := bind_eq_some_iff.mp h₁
      have hmajor := hlastRun _ _ _ _ _ _ _ _ hr
      split at h₂
      · cases h₂
        show i < m
        omega
      · exact ih (by omega) (by rw [hmajor]; exact hc) h₂

end SampleToChunkTable

variable {ans : Answer} {w b : SampleToChunkAtom} {calls : List Call}

namespace SampleToChunkAtom

open SampleToChunkTable (Holds Twin Ordered Fits LiesIn)

variable {T : SampleToChunkTable}

/-! ## 2. What every call keeps -/

/-- A call of the atom, of its walk or of its scans. -/
inductive Op where
  | query (q : Query)
  | getSamplesPerChunkCorrespondingToSample (sampleNum : UInt32)
  | getChunkNumberForSampleGet (sampleNum : UInt32)
  | getChunkNumberForSamplePeek (sampleNum : UInt32)
  | resetStateVariables
  | resetStateVariablesTo (sampleNum : UInt32)
  | resetPeekwithGet
  deriving DecidableEq, Repr

/-- The atom behind a call. -/
def apply (T : SampleToChunkTable) (a : SampleToChunkAtom) : Op → Option SampleToChunkAtom
  | .query q => (a.query T q).map Prod.fst
  | .getSamplesPerChunkCorrespondingToSample sampleNum =>
    (a.getSamplesPerChunkCorrespondingToSample T sampleNum).map Prod.fst
  | .getChunkNumberForSampleGet sampleNum =>
    (a.getChunkNumberForSampleGet T sampleNum).map Prod.fst
  | .getChunkNumberForSamplePeek sampleNum =>
    (a.getChunkNumberForSamplePeek T sampleNum).map Prod.fst
  | .resetStateVariables => some a.resetStateVariables
  | .resetStateVariablesTo sampleNum => (a.resetStateVariablesTo T sampleNum).map Prod.fst
  | .resetPeekwithGet => some a.resetPeekwithGet

/-- An atom that holds the entries `e`, `m` of them, with both cursors on them. -/
structure Sound (T : SampleToChunkTable) (e : Nat → SampleToChunkEntry) (m : Nat)
    (a : SampleToChunkAtom) : Prop where
  held : ∃ t, a.table = some t ∧ T.Holds e m a.parsingMode t
  get : a.get.majorIndex < m
  peek : a.peek.majorIndex < m

variable {e : Nat → SampleToChunkEntry} {m : Nat} {a a' : SampleToChunkAtom}

theorem Sound.holding (h : Sound T e m a) : Holding T e m a := by
  obtain ⟨t, ht, hholds⟩ := h.held
  exact .table t ht hholds

theorem Holding.held (h : Holding T e m a) (hm : 0 < m) :
    ∃ t, a.table = some t ∧ T.Holds e m a.parsingMode t := by
  cases h with
  | null _ hcount => omega
  | table t ht h => exact ⟨t, ht, h⟩

/-- A call that works on the table alone does not move the cursors. -/
theorem onTable_cursors
    {f : StblTable SampleToChunkEntry → Option (StblTable SampleToChunkEntry × Answer)}
    (hr : a.onTable f = some (a', ans)) : a'.get = a.get ∧ a'.peek = a.peek := by
  unfold onTable at hr
  split at hr
  · cases hr
    exact ⟨rfl, rfl⟩
  · obtain ⟨r, -, he⟩ := map_eq_some_iff.mp hr
    cases he
    exact ⟨rfl, rfl⟩

/-- Nor does a query. -/
theorem query_cursors {q : Query} (hr : a.query T q = some (a', ans)) :
    a'.get = a.get ∧ a'.peek = a.peek := by
  cases q with
  | getFirstChunkAt index | getSamplesPerChunkAt index | getFirstSampleNumInChunk chunkNum =>
    exact onTable_cursors hr
  | getChunkNumberForSample sampleNum =>
    have hr' : a.getChunkNumberForSample T sampleNum = some (a', ans) := hr
    unfold getChunkNumberForSample at hr'
    split at hr'
    · cases hr'
      exact ⟨rfl, rfl⟩
    · obtain ⟨⟨t', found⟩, -, he⟩ := map_eq_some_iff.mp hr'
      cases found with
      | none =>
        cases he
        exact ⟨rfl, rfl⟩
      | some found =>
        cases he
        exact ⟨rfl, rfl⟩

/-- An atom that keeps its entries and its cursors. -/
theorem Sound.of_cursors (h : Sound T e m a) (hold : Holding T e m a')
    (hc : a'.get = a.get ∧ a'.peek = a.peek) : Sound T e m a' := by
  refine ⟨hold.held (Nat.zero_lt_of_lt h.get), ?_, ?_⟩
  · rw [hc.1]
    exact h.get
  · rw [hc.2]
    exact h.peek

theorem Sound.query (h : Sound T e m a) {q : Query}
    (hr : a.query T q = some (a', ans)) : Sound T e m a' :=
  h.of_cursors (h.holding.ask (c := .query q) (map_eq_some_iff.mpr ⟨_, hr, rfl⟩))
    (query_cursors hr)

theorem Sound.getSamplesPerChunk (h : Sound T e m a)
    (hr : a.getSamplesPerChunkCorrespondingToSample T sampleNum = some (a', ans)) :
    Sound T e m a' :=
  h.of_cursors (h.holding.getSamplesPerChunk hr) (onTable_cursors hr)

/-- The walk takes a step with its cursor. -/
theorem getChunkNumberForSampleGet_eq (ht : a.table = some t) {s : SampleToChunkTable.Step}
    (hs : T.advance a.parsingMode sampleNum a.numChunksInRun a.get t = some s) :
    a.getChunkNumberForSampleGet T sampleNum =
      some ({ a with table := some s.table, get := s.cursor,
                     numChunksInRun := s.numChunksInRun }, s.answer) := by
  unfold getChunkNumberForSampleGet
  rw [ht]
  dsimp only
  rw [hs]
  rfl

theorem getChunkNumberForSamplePeek_eq (ht : a.table = some t) {s : SampleToChunkTable.Step}
    (hs : T.advance a.parsingMode sampleNum a.numChunksInRun a.peek t = some s) :
    a.getChunkNumberForSamplePeek T sampleNum =
      some ({ a with table := some s.table, peek := s.cursor }, s.answer) := by
  unfold getChunkNumberForSamplePeek
  rw [ht]
  dsimp only
  rw [hs]
  rfl

theorem Sound.getChunkNumberForSampleGet (h : Sound T e m a)
    (hr : a.getChunkNumberForSampleGet T sampleNum = some (a', ans)) : Sound T e m a' := by
  obtain ⟨t, ht, hholds⟩ := h.held
  obtain ⟨s, _, hs, -, htwin, -, -, hmajor⟩ := SampleToChunkTable.advance_same ⟨hholds, hholds⟩
    h.get sampleNum a.numChunksInRun a.numChunksInRun
  rw [getChunkNumberForSampleGet_eq ht hs] at hr
  cases hr
  exact ⟨⟨s.table, rfl, htwin.1⟩, hmajor, h.peek⟩

theorem Sound.getChunkNumberForSamplePeek (h : Sound T e m a)
    (hr : a.getChunkNumberForSamplePeek T sampleNum = some (a', ans)) : Sound T e m a' := by
  obtain ⟨t, ht, hholds⟩ := h.held
  obtain ⟨s, _, hs, -, htwin, -, -, hmajor⟩ := SampleToChunkTable.advance_same ⟨hholds, hholds⟩
    h.peek sampleNum a.numChunksInRun a.numChunksInRun
  rw [getChunkNumberForSamplePeek_eq ht hs] at hr
  cases hr
  exact ⟨⟨s.table, rfl, htwin.1⟩, h.get, hmajor⟩

theorem sound_resetStateVariablesTo (hm : 0 < m)
    (hheld : ∃ t, a.table = some t ∧ T.Holds e m a.parsingMode t)
    {code : Mp4ErrorCode} (hr : a.resetStateVariablesTo T sampleNum = some (a', code)) :
    Sound T e m a' := by
  obtain ⟨t, ht, hholds⟩ := hheld
  have hheld' := resetStateVariablesTo_holds ht hholds hr
  have hcount := hholds.entryCount_eq
  unfold resetStateVariablesTo at hr
  have ht' : a.resetStateVariables.table = some t := ht
  dsimp only at hr
  rw [ht'] at hr
  obtain ⟨⟨t', c, num, found⟩, hs, he⟩ := map_eq_some_iff.mp hr
  have hmajor : c.majorIndex < m :=
    SampleToChunkTable.resetScan_major (by rw [hcount, Nat.zero_add]) hm hs
  cases found with
  | false =>
    cases he
    exact ⟨hheld', hmajor, hm⟩
  | true =>
    have hend := (SampleToChunkTable.resetScan_entryCount hs).trans hcount
    have hlast := SampleToChunkTable.lastIndex_eq T hm hholds.le
    have hboth : (if (c.majorIndex : Int) < toInt32 (sub32 t'.entryCount 1) then
        { c with majorIndex := c.majorIndex + 1 } else c).majorIndex < m := by
      rw [hend, hlast]
      split
      · show c.majorIndex + 1 < m
        omega
      · exact hmajor
    cases he
    exact ⟨hheld', hboth, hboth⟩

/-- **Every call** keeps the table and the cursors. -/
theorem Sound.apply (hm : 0 < m) (h : Sound T e m a) {op : Op} (hr : a.apply T op = some a') :
    Sound T e m a' := by
  cases op with
  | query q =>
    obtain ⟨r, hr', he⟩ := map_eq_some_iff.mp hr
    cases he
    exact h.query hr'
  | getSamplesPerChunkCorrespondingToSample sampleNum =>
    obtain ⟨r, hr', he⟩ := map_eq_some_iff.mp hr
    cases he
    exact h.getSamplesPerChunk hr'
  | getChunkNumberForSampleGet sampleNum =>
    obtain ⟨r, hr', he⟩ := map_eq_some_iff.mp hr
    cases he
    exact h.getChunkNumberForSampleGet hr'
  | getChunkNumberForSamplePeek sampleNum =>
    obtain ⟨r, hr', he⟩ := map_eq_some_iff.mp hr
    cases he
    exact h.getChunkNumberForSamplePeek hr'
  | resetStateVariables =>
    cases hr
    exact ⟨h.held, hm, hm⟩
  | resetStateVariablesTo sampleNum =>
    obtain ⟨r, hr', he⟩ := map_eq_some_iff.mp hr
    cases he
    exact sound_resetStateVariablesTo hm h.held hr'
  | resetPeekwithGet =>
    cases hr
    exact ⟨h.held, h.get, h.get⟩

/-- **A new atom** of a file in order holds its entries; where the window would have to drop the
    first, there is no new atom. -/
theorem sound_create (hT : T.InOrder) {vec : Nat → SampleToChunkEntry}
    (hm : 0 < T.storedCount parsingMode) (h : create T parsingMode vec = some a) :
    Sound T (T.storedEntry parsingMode) (T.storedCount parsingMode) a ∧
      (T.windowed parsingMode = true → T.firstChunkAt 0 ≠ 0) := by
  have h0 : 0 < T.entryCount.toNat := by
    unfold SampleToChunkTable.storedCount at hm
    split at hm <;> omega
  by_cases hw : T.windowed parsingMode = true
  · have hmode : parsingMode = true ∧ T.entryCount.toNat > maxCachedTableEntriesFile := by
      unfold SampleToChunkTable.windowed at hw
      rw [Bool.and_eq_true, decide_eq_true_eq] at hw
      exact hw
    unfold create at h
    rw [if_pos h0, if_pos hmode] at h
    obtain ⟨t, ht, h'⟩ := bind_eq_some_iff.mp h
    by_cases hfirst : T.firstChunkAt 0 = 0
    · -- the constructor does not return
      have hup : (if add32 0 tableEntriesThresholdFile > T.entryCount.toNat then
          T.entryCount.toNat else add32 0 tableEntriesThresholdFile) =
          tableEntriesThresholdFile := by
        have hlong := hmode.2
        unfold maxCachedTableEntriesFile at hlong
        rw [add32_eq (by decide), Nat.zero_add]
        unfold tableEntriesThresholdFile
        rw [if_neg (by omega)]
      have hstuck : T.parseEntryUnit 0 (.windowed T.entryFile T.entryCount.toNat
          maxCachedTableEntriesFile vec) = none := by
        unfold SampleToChunkTable.parseEntryUnit
        dsimp only
        have hcount : (StblTable.windowed T.entryFile T.entryCount.toNat
            maxCachedTableEntriesFile vec).entryCount = T.entryCount.toNat := rfl
        rw [hcount, hup]
        refine SampleToChunkTable.parseLoop_stuck hfirst h0 (by decide) _ rfl ?_
        show (if (0 : Nat) = 0 then Function.update (fun _ : Nat => (0 : Nat)) 0 T.headOffset
          else fun _ => 0) 0 = _
        rw [if_pos rfl, Function.update_self]
        show T.headOffset = T.headOffset + 0 * 12
        omega
      rw [hstuck] at ht
      cases ht
    · have hT' := hT.increasing hfirst
      obtain ⟨t', ht', hholds⟩ := SampleToChunkTable.windowed_holds hT' h0 vec
      rw [ht] at ht'
      cases ht'
      have hcount : T.storedCount parsingMode = T.entryCount.toNat :=
        if_neg fun hz => hfirst hz.2
      have hentry : T.storedEntry parsingMode = T.entryFile.entry := by
        funext k
        unfold SampleToChunkTable.storedEntry
        rw [if_pos hw]
      obtain ⟨r, hr, he⟩ := map_eq_some_iff.mp h'
      cases he
      rw [hcount, hentry]
      exact ⟨sound_resetStateVariablesTo (a := loaded true (some t)) h0 ⟨t, rfl, hholds⟩ hr,
        fun _ => hfirst⟩
  · have hmode : ¬ (parsingMode = true ∧ T.entryCount.toNat > maxCachedTableEntriesFile) := by
      intro hboth
      apply hw
      unfold SampleToChunkTable.windowed
      rw [Bool.and_eq_true, decide_eq_true_eq]
      exact hboth
    rw [create_whole h0 hmode] at h
    obtain ⟨r, hr, he⟩ := map_eq_some_iff.mp h
    cases he
    have hholds := SampleToChunkTable.whole_holds_stored hT (Bool.eq_false_iff.mpr hw) vec
    exact ⟨sound_resetStateVariablesTo (a := loaded false (some (T.whole vec))) hm
      ⟨_, rfl, hholds⟩ hr, fun hyes => absurd hyes hw⟩

/-! ## 3. The walk and the scans -/

/-- A call of the walk. -/
inductive Call where
  | get (sampleNum : UInt32)
  | peek (sampleNum : UInt32)
  | resetPeekwithGet
  deriving DecidableEq, Repr

/-- The sample a call asks for. -/
def Call.sample : Call → Option UInt32
  | .get sampleNum => some sampleNum
  | .peek sampleNum => some sampleNum
  | .resetPeekwithGet => none

/-- A call of the walk, with what the functions that read its cursor return behind it: the chunk,
    its first sample, for `Get` the samples in it, and the description index. -/
def walkCall (T : SampleToChunkTable) (a : SampleToChunkAtom) :
    Call → Option (SampleToChunkAtom × List Answer)
  | .get sampleNum =>
    (a.getChunkNumberForSampleGet T sampleNum).map fun r =>
      (r.1, [r.2, r.1.getFirstSampleNumInChunkGet,
        r.1.getSamplesPerChunkCorrespondingToSampleGet, r.1.getSDIndexGet])
  | .peek sampleNum =>
    (a.getChunkNumberForSamplePeek T sampleNum).map fun r =>
      (r.1, [r.2, r.1.getFirstSampleNumInChunkPeek, r.1.getSDIndexPeek])
  | .resetPeekwithGet => some (a.resetPeekwithGet, [])

/-- A description index that is zero is not returned. -/
def unlessZeroIndex : Answer → Answer
  | (code, some x) => if x = 0 then failed else (code, some x)
  | (code, none) => (code, none)

/-- The same by the scans: the chunk of the sample, the description index of the run it was found
    in, the first sample of the chunk, for `Get` the samples in it. -/
def scanCall (T : SampleToChunkTable) (a : SampleToChunkAtom) :
    Call → Option (SampleToChunkAtom × List Answer)
  | .get sampleNum =>
    (a.getChunkNumberForSample T sampleNum).bind fun r =>
      (r.1.getFirstSampleNumInChunk T (r.2.2.getD 0)).bind fun s =>
        (s.1.getSamplesPerChunkCorrespondingToSample T sampleNum).map fun u =>
          (u.1, [r.2, s.2, u.2, unlessZeroIndex r.1.getSDIndex])
  | .peek sampleNum =>
    (a.getChunkNumberForSample T sampleNum).bind fun r =>
      (r.1.getFirstSampleNumInChunk T (r.2.2.getD 0)).map fun s =>
        (s.1, [r.2, s.2, unlessZeroIndex r.1.getSDIndex])
  | .resetPeekwithGet => some (a, [])

/-- The same sample or the next. -/
def Next (x y : UInt32) : Prop := x.toNat ≤ y.toNat ∧ y.toNat ≤ x.toNat + 1

/-- From the samples `g` and `p` that `Get` and `Peek` stand at, each call asks for the same sample
    or the next. -/
def Walks : UInt32 → UInt32 → List Call → Prop
  | _, _, [] => True
  | g, p, .get sampleNum :: calls => Next g sampleNum ∧ Walks sampleNum p calls
  | g, p, .peek sampleNum :: calls => Next p sampleNum ∧ Walks g sampleNum calls
  | g, _, .resetPeekwithGet :: calls => Walks g g calls

/-- The answers to the calls of `Get`. -/
def getReplies : List Call → List (Option (List Answer)) → List (Option (List Answer))
  | .get _ :: calls, reply :: replies => reply :: getReplies calls replies
  | .peek _ :: calls, _ :: replies => getReplies calls replies
  | .resetPeekwithGet :: calls, _ :: replies => getReplies calls replies
  | _, _ => []

/-- Whether a call is one of `Get`. -/
def Call.isGet : Call → Bool
  | .get _ => true
  | .peek _ => false
  | .resetPeekwithGet => false

/-- What every function prescribes for a sample in chunk `q` of run `R`. -/
def chunkAnswer (e : Nat → SampleToChunkEntry) (R q : Nat) : Answer :=
  (.everythingFine, some ((e R).firstChunk + UInt32.ofNat q))

def firstAnswer (e : Nat → SampleToChunkEntry) (R q : Nat) : Answer :=
  (.everythingFine, some (UInt32.ofNat (SampleToChunkTable.chunkStart e R q)))

def samplesAnswer (e : Nat → SampleToChunkEntry) (R : Nat) : Answer :=
  (.everythingFine, some (e R).samplesPerChunk)

def indexAnswer (e : Nat → SampleToChunkEntry) (R : Nat) : Answer :=
  if (e R).sampleDescrIndex = 0 then failed
  else (.everythingFine, some (e R).sampleDescrIndex)

theorem unlessZero_eq {x : Int32} {y : UInt32} (h : x.toUInt32 = y) :
    unlessZero x = if y = 0 then none else some y := by
  unfold unlessZero
  by_cases hy : y = 0
  · have hx : x = 0 := by
      rw [← Int32.toInt32_toUInt32 x, h, hy]
      rfl
    rw [if_pos hy, if_neg (not_not.mpr hx)]
  · have hx : x ≠ 0 := by
      intro hx
      rw [hx] at h
      exact hy h.symm
    rw [if_neg hy, if_pos hx, h]

theorem ofCursor_some (ht : a.table = some t) (x : UInt32) :
    a.ofCursor (some x) = (.everythingFine, some x) := by
  unfold ofCursor
  rw [ht]
  rfl

theorem ofCursor_none (ht : a.table = some t) :
    a.ofCursor none = failed := by
  unfold ofCursor
  rw [ht]
  rfl

theorem word_eq {x : UInt32} {n : Nat} (h : x.toNat = n) : x = UInt32.ofNat n := by
  rw [← h, UInt32.ofNat_toNat]

/-- The readers of a cursor that stands in a chunk. -/
theorem readers_eq {t : StblTable SampleToChunkEntry} (ht : a.table = some t)
    {c : Cursor} {R q : Nat} (hc : c.Stands e m R q)
    (hfull : 0 < (e R).samplesPerChunk.toNat) :
    a.ofCursor (some c.firstSampleInCurrChunk.toUInt32) = firstAnswer e R q ∧
      a.ofCursor (unlessZero c.numSamplesPerChunk) = samplesAnswer e R ∧
      a.ofCursor (unlessZero c.currSDI) = indexAnswer e R := by
  have hsamples : (e R).samplesPerChunk ≠ 0 := by
    intro hz
    rw [hz] at hfull
    exact absurd hfull (Nat.lt_irrefl 0)
  refine ⟨?_, ?_, ?_⟩
  · rw [ofCursor_some ht, word_eq hc.first]
    rfl
  · rw [unlessZero_eq hc.samples, if_neg hsamples, ofCursor_some ht]
    rfl
  · rw [unlessZero_eq hc.sdi]
    unfold indexAnswer
    split
    · exact ofCursor_none ht
    · exact ofCursor_some ht _

/-! ## 4. One call -/

/-- The scans for a sample give what is prescribed for its place, from any state. -/
theorem scans_eq (hO : Ordered e m) {R q : Nat}
    (hL : LiesIn e m sampleNum.toNat R q) (hF : Fits e m sampleNum.toNat)
    (h : Sound T e m a) :
    (∃ a', scanCall T a (.get sampleNum) = some (a', [chunkAnswer e R q, firstAnswer e R q,
        samplesAnswer e R, indexAnswer e R]) ∧ Sound T e m a') ∧
      ∃ a', scanCall T a (.peek sampleNum) = some (a', [chunkAnswer e R q, firstAnswer e R q,
        indexAnswer e R]) ∧ Sound T e m a' := by
  obtain ⟨t, ht, hholds⟩ := h.held
  obtain ⟨t₁, hs₁, hholds₁, hslot⟩ := SampleToChunkTable.sampleScan_finds hO hL hF
    SampleToChunkTable.inLastRun_loop hholds
  have hcount := hholds.entryCount_eq
  have he₁ : a.getChunkNumberForSample T sampleNum =
      some ({ a with table := some t₁, index := R }, chunkAnswer e R q) := by
    unfold getChunkNumberForSample
    rw [ht]
    dsimp only
    rw [hcount, hs₁]
    rfl
  have hsound₁ := h.query (q := .getChunkNumberForSample sampleNum) he₁
  obtain ⟨t₂, sample, hs₂, hsample, hholds₂⟩ := SampleToChunkTable.firstSampleScan_finds hO hL
    hF hholds₁
  have hcount₁ := hholds₁.entryCount_eq
  have hindex : unlessZeroIndex ({ a with table := some t₁, index := R } :
      SampleToChunkAtom).getSDIndex = indexAnswer e R := by
    unfold getSDIndex
    dsimp only
    rw [hcount₁, if_pos hL.inTable, hslot]
    rfl
  have he₂ : ({ a with table := some t₁, index := R } :
      SampleToChunkAtom).getFirstSampleNumInChunk T ((e R).firstChunk + UInt32.ofNat q) =
      some ({ a with table := some t₂, index := R }, firstAnswer e R q) := by
    unfold getFirstSampleNumInChunk onTable
    dsimp only
    rw [hcount₁, hs₂]
    unfold firstAnswer
    rw [← word_eq hsample]
    rfl
  have hsound₂ := hsound₁.query (q := .getFirstSampleNumInChunk _) he₂
  obtain ⟨t₃, hs₃, -⟩ := SampleToChunkTable.sampleScan_finds hO hL hF
    SampleToChunkTable.inLastRunForEver_loop hholds₂
  have hcount₂ := hholds₂.entryCount_eq
  have he₃ : ({ a with table := some t₂, index := R } :
      SampleToChunkAtom).getSamplesPerChunkCorrespondingToSample T sampleNum =
      some ({ a with table := some t₃, index := R }, samplesAnswer e R) := by
    unfold getSamplesPerChunkCorrespondingToSample onTable
    dsimp only
    rw [hcount₂, hs₃]
    rfl
  unfold scanCall
  dsimp only
  rw [he₁, bind_some, bind_some]
  dsimp only
  rw [hindex]
  unfold chunkAnswer
  rw [getD_some, he₂, bind_some, he₃]
  exact ⟨⟨_, rfl, hsound₂.getSamplesPerChunk he₃⟩, _, rfl, hsound₂⟩

/-- Two atoms of the same entries, the first with its cursors at the samples `g` and `p`. -/
structure Walking (T : SampleToChunkTable) (e : Nat → SampleToChunkEntry) (m : Nat) (g p : UInt32)
    (a w : SampleToChunkAtom) : Prop where
  walk : Sound T e m a
  scan : Sound T e m w
  getAt : ∃ R q, LiesIn e m g.toNat R q ∧ a.get.Stands e m R q
  peekAt : ∃ R q, LiesIn e m p.toNat R q ∧ a.peek.Stands e m R q

/-- **A `Get` of the walk** answers as the scans. -/
theorem Walking.get (hO : Ordered e m) {g p : UInt32}
    (h : Walking T e m g p a w) (hnext : Next g sampleNum) (hF : Fits e m sampleNum.toNat) :
    ∃ a' w' reply, walkCall T a (.get sampleNum) = some (a', reply) ∧
      scanCall T w (.get sampleNum) = some (w', reply) ∧ Walking T e m sampleNum p a' w' := by
  obtain ⟨R, q, hL, hc⟩ := h.getAt
  obtain ⟨t, ht, hholds⟩ := h.walk.held
  obtain ⟨s, R', q', hs, hholds', hc', hL', hanswer⟩ :=
    hc.advance hO hL hnext hF hholds a.numChunksInRun
  obtain ⟨⟨w', hscan, hsound⟩, -⟩ := scans_eq hO hL' hF h.scan
  have he := getChunkNumberForSampleGet_eq ht hs
  rw [hanswer] at he
  obtain ⟨hfirst, hsamples, hsdi⟩ := @readers_eq e m { a with
    table := some s.table, get := s.cursor, numChunksInRun := s.numChunksInRun } s.table rfl
    s.cursor R' q' hc' (hO.full R' hL'.inTable)
  refine ⟨_, w', _, ?_, hscan, ⟨h.walk.getChunkNumberForSampleGet he, hsound, ⟨R', q', hL', hc'⟩,
    h.peekAt⟩⟩
  unfold walkCall
  dsimp only
  rw [he, map_some]
  dsimp only
  unfold getFirstSampleNumInChunkGet getSamplesPerChunkCorrespondingToSampleGet getSDIndexGet
  rw [hfirst, hsamples, hsdi]
  rfl

/-- **A `Peek` of the walk** answers as the scans. -/
theorem Walking.peek (hO : Ordered e m) {g p : UInt32}
    (h : Walking T e m g p a w) (hnext : Next p sampleNum) (hF : Fits e m sampleNum.toNat) :
    ∃ a' w' reply, walkCall T a (.peek sampleNum) = some (a', reply) ∧
      scanCall T w (.peek sampleNum) = some (w', reply) ∧ Walking T e m g sampleNum a' w' := by
  obtain ⟨R, q, hL, hc⟩ := h.peekAt
  obtain ⟨t, ht, hholds⟩ := h.walk.held
  obtain ⟨s, R', q', hs, hholds', hc', hL', hanswer⟩ :=
    hc.advance hO hL hnext hF hholds a.numChunksInRun
  obtain ⟨-, w', hscan, hsound⟩ := scans_eq hO hL' hF h.scan
  have he := getChunkNumberForSamplePeek_eq ht hs
  rw [hanswer] at he
  obtain ⟨hfirst, -, hsdi⟩ := @readers_eq e m { a with
    table := some s.table, peek := s.cursor } s.table rfl s.cursor R' q' hc'
    (hO.full R' hL'.inTable)
  refine ⟨_, w', _, ?_, hscan,
    ⟨h.walk.getChunkNumberForSamplePeek he, hsound, h.getAt, ⟨R', q', hL', hc'⟩⟩⟩
  unfold walkCall
  dsimp only
  rw [he, map_some]
  dsimp only
  unfold getFirstSampleNumInChunkPeek getSDIndexPeek
  rw [hfirst, hsdi]
  rfl

/-! ## 5. Runs -/

/-- The samples a list of calls asks for. -/
def AllFit (e : Nat → SampleToChunkEntry) (m : Nat) (calls : List Call) : Prop :=
  ∀ sampleNum ∈ calls.filterMap Call.sample, Fits e m sampleNum.toNat

theorem AllFit.tail {call : Call} (h : AllFit e m (call :: calls)) :
    AllFit e m calls := by
  intro sampleNum hs
  obtain ⟨c, hc, hsample⟩ := mem_filterMap.mp hs
  exact h sampleNum (mem_filterMap.mpr ⟨c, mem_cons_of_mem call hc, hsample⟩)

theorem AllFit.head {call : Call} (h : AllFit e m (call :: calls))
    (hs : call.sample = some sampleNum) : Fits e m sampleNum.toNat :=
  h sampleNum (mem_filterMap.mpr ⟨call, mem_cons_self, hs⟩)

/-- A walk answers as the scans, call by call, and every call returns. -/
theorem answers_walk_eq (hO : Ordered e m) {g p : UInt32}
    {a : SampleToChunkAtom} (h : Walking T e m g p a w) (hwalk : Walks g p calls)
    (hfit : AllFit e m calls) :
    answers (walkCall T) a calls = answers (scanCall T) w calls ∧
      ∀ r ∈ answers (walkCall T) a calls, r.isSome := by
  induction calls generalizing g p a w with
  | nil => exact ⟨rfl, fun r hr => absurd hr not_mem_nil⟩
  | cons call calls ih =>
    have hstep : ∃ a' w' reply g' p', walkCall T a call = some (a', reply) ∧
        scanCall T w call = some (w', reply) ∧ Walking T e m g' p' a' w' ∧
        Walks g' p' calls := by
      cases call with
      | get sampleNum =>
        obtain ⟨a', w', reply, h₁, h₂, h₃⟩ := h.get hO hwalk.1 (hfit.head rfl)
        exact ⟨a', w', reply, _, _, h₁, h₂, h₃, hwalk.2⟩
      | peek sampleNum =>
        obtain ⟨a', w', reply, h₁, h₂, h₃⟩ := h.peek hO hwalk.1 (hfit.head rfl)
        exact ⟨a', w', reply, _, _, h₁, h₂, h₃, hwalk.2⟩
      | resetPeekwithGet =>
        have hwalking : Walking T e m g g a.resetPeekwithGet w :=
          ⟨⟨h.walk.held, h.walk.get, h.walk.get⟩, h.scan, h.getAt, h.getAt⟩
        exact ⟨_, w, [], g, g, rfl, rfl, hwalking, hwalk⟩
    obtain ⟨a', w', reply, g', p', h₁, h₂, h₃, hwalk'⟩ := hstep
    obtain ⟨heq, hsome⟩ := ih h₃ hwalk' hfit.tail
    unfold answers
    rw [h₁, h₂]
    refine ⟨congrArg (some reply :: ·) heq, fun r hr => ?_⟩
    obtain rfl | hr' := mem_cons.mp hr
    · rfl
    · exact hsome r hr'

/-- Two atoms whose `Get` cursors are the same. -/
structure SameGet (T : SampleToChunkTable) (e : Nat → SampleToChunkEntry) (m : Nat)
    (a b : SampleToChunkAtom) : Prop where
  left : Sound T e m a
  right : Sound T e m b
  get : a.get = b.get

theorem SameGet.getCall (h : SameGet T e m a b) (sampleNum : UInt32) :
    ∃ a' b' reply, walkCall T a (.get sampleNum) = some (a', reply) ∧
      walkCall T b (.get sampleNum) = some (b', reply) ∧ SameGet T e m a' b' := by
  obtain ⟨t, ht, hholds⟩ := h.left.held
  obtain ⟨u, hu, hholds'⟩ := h.right.held
  obtain ⟨s, s', hs, hs', -, hcursor, hanswer, -⟩ := SampleToChunkTable.advance_same
    ⟨hholds, hholds'⟩ h.left.get sampleNum a.numChunksInRun b.numChunksInRun
  rw [h.get] at hs'
  have ha := getChunkNumberForSampleGet_eq ht hs
  have hb := getChunkNumberForSampleGet_eq hu hs'
  have hnext := h.left.getChunkNumberForSampleGet ha
  have hnext' := h.right.getChunkNumberForSampleGet hb
  unfold walkCall
  dsimp only
  rw [ha, hb]
  refine ⟨_, _, _, rfl, ?_, hnext, hnext', hcursor⟩
  rw [map_some, hanswer]
  unfold getFirstSampleNumInChunkGet getSamplesPerChunkCorrespondingToSampleGet getSDIndexGet
    ofCursor
  dsimp only
  rw [hcursor]
  rfl

theorem SameGet.peekCall (h : SameGet T e m a b) (sampleNum : UInt32) :
    ∃ a' reply, walkCall T a (.peek sampleNum) = some (a', reply) ∧ SameGet T e m a' b := by
  obtain ⟨t, ht, hholds⟩ := h.left.held
  obtain ⟨s, _, hs, -⟩ := SampleToChunkTable.advance_same
    ⟨hholds, hholds⟩ h.left.peek sampleNum a.numChunksInRun a.numChunksInRun
  have ha := getChunkNumberForSamplePeek_eq ht hs
  have hnext := h.left.getChunkNumberForSamplePeek ha
  unfold walkCall
  dsimp only
  rw [ha]
  exact ⟨_, _, rfl, hnext, h.right, h.get⟩

/-- **No `Peek` changes what a `Get` answers**, whatever the calls ask for. -/
theorem getReplies_eq (h : SameGet T e m a b) :
    getReplies calls (answers (walkCall T) a calls) =
      answers (walkCall T) b (calls.filter Call.isGet) := by
  induction calls generalizing a b with
  | nil => rfl
  | cons call calls ih =>
    cases call with
    | get sampleNum =>
      obtain ⟨a', b', reply, h₁, h₂, h₃⟩ := h.getCall sampleNum
      rw [filter_cons_of_pos rfl]
      unfold answers
      rw [h₁, h₂]
      exact congrArg (some reply :: ·) (ih h₃)
    | peek sampleNum =>
      obtain ⟨a', reply, h₁, h₂⟩ := h.peekCall sampleNum
      rw [filter_cons_of_neg Bool.false_ne_true, answers, h₁]
      exact ih h₂
    | resetPeekwithGet =>
      have h' : SameGet T e m a.resetPeekwithGet b :=
        ⟨⟨h.left.held, h.left.get, h.left.get⟩, h.right, h.get⟩
      have hcall : walkCall T a .resetPeekwithGet = some (a.resetPeekwithGet, []) := rfl
      rw [filter_cons_of_neg Bool.false_ne_true, answers, hcall]
      exact ih h'

/-- The reset puts both cursors where its sample lies. -/
theorem reset_walking (hO : Ordered e m) (hm : 0 < m) (h : Sound T e m a)
    (hF : Fits e m sampleNum.toNat) :
    ∃ a₁, a.resetStateVariablesTo T sampleNum = some (a₁, .everythingFine) ∧
      Walking T e m sampleNum sampleNum a₁ a₁ := by
  obtain ⟨t, ht, hholds⟩ := h.held
  obtain ⟨R, q, hL⟩ := SampleToChunkTable.exists_liesIn hO hm sampleNum.toNat
  obtain ⟨t', c, num, hs, hfound, hholds'⟩ := SampleToChunkTable.resetScan_finds hO hL hF hholds
    Cursor.start a.numChunksInRun
  have hstands := hfound.stands (T := T) hL.inTable hholds.le
  have hcount := hholds.entryCount_eq
  have hcount' := hholds'.entryCount_eq
  have he : ∃ c', c'.Stands e m R q ∧ a.resetStateVariablesTo T sampleNum =
      some ({ a.resetStateVariables with table := some t', numChunksInRun := num, get := c',
                                         peek := c' }, .everythingFine) := by
    refine ⟨_, hstands, ?_⟩
    have ht' : a.resetStateVariables.table = some t := ht
    have hs' : T.resetScan a.resetStateVariables.parsingMode sampleNum m 0 0 t
        a.resetStateVariables.get a.resetStateVariables.numChunksInRun =
        some (t', c, num, true) := hs
    unfold resetStateVariablesTo
    dsimp only
    rw [ht']
    dsimp only
    rw [hcount, hs', map_some]
    dsimp only
    rw [hcount']
  obtain ⟨c', hc', hreset⟩ := he
  have hsound := sound_resetStateVariablesTo hm h.held hreset
  exact ⟨_, hreset, hsound, hsound, ⟨R, q, hL, hc'⟩, ⟨R, q, hL, hc'⟩⟩

/-- **The walk answers as the scans.** For every table in order with an entry to keep, from every
    state the atom can get into: `resetStateVariables(s)` finds its sample, and behind it calls of
    `Get` and `Peek`, each for the same sample as the one before or for the next, return what the
    scans return: the chunk, its first sample, the samples in it, and the description index of the
    run, which is not returned where it is 0. No `Peek` changes what a `Get` returns, whatever is
    asked. -/
theorem walk_answers_eq_scans (T : SampleToChunkTable) (hT : T.InOrder) {parsingMode : Bool}
    {vec : Nat → SampleToChunkEntry} {a₀ a : SampleToChunkAtom} {ops : List Op}
    (hm : 0 < T.storedCount parsingMode) (hcreate : create T parsingMode vec = some a₀)
    (hrun : execAll (SampleToChunkAtom.apply T) a₀ ops = some a) {s : UInt32}
    (hs : Fits (T.storedEntry parsingMode) (T.storedCount parsingMode) s.toNat) :
    ∃ a₁, a.resetStateVariablesTo T s = some (a₁, .everythingFine) ∧
      (∀ calls, Walks s s calls →
        AllFit (T.storedEntry parsingMode) (T.storedCount parsingMode) calls →
        answers (walkCall T) a₁ calls = answers (scanCall T) a₁ calls ∧
          ∀ r ∈ answers (walkCall T) a₁ calls, r.isSome) ∧
      ∀ calls, getReplies calls (answers (walkCall T) a₁ calls) =
        answers (walkCall T) a₁ (calls.filter Call.isGet) := by
  obtain ⟨hsound₀, hfirst⟩ := sound_create hT hm hcreate
  have hO := hT.ordered hfirst
  have hkeep : ∀ a op a', Sound T (T.storedEntry parsingMode) (T.storedCount parsingMode) a →
      a.apply T op = some a' →
      Sound T (T.storedEntry parsingMode) (T.storedCount parsingMode) a' :=
    fun _ _ _ h hop => h.apply hm hop
  have hsound := (Run.of_execAll hrun).invariant hsound₀ hkeep
  obtain ⟨a₁, hreset, hwalking⟩ := reset_walking hO hm hsound hs
  exact ⟨a₁, hreset, fun calls hwalk hfit => answers_walk_eq hO hwalking hwalk hfit,
    fun calls => getReplies_eq ⟨hwalking.walk, hwalking.walk, rfl⟩⟩

/-- A table of three entries. -/
def shortTable (e₀ e₁ e₂ : SampleToChunkEntry) : SampleToChunkTable where
  file :=
    { fileSize := 52
      word := fun pos =>
        let e := if pos < 28 then e₀ else if pos < 40 then e₁ else e₂
        if (pos - 16) % 12 = 0 then e.firstChunk
        else if (pos - 16) % 12 = 4 then e.samplesPerChunk
        else e.sampleDescrIndex }
  headOffset := 16
  entryCount := 3
  inAtom := by decide
  inFile := Nat.le_refl 52

/-- Nothing leaves the range where the counts of the table are far below it. -/
theorem fits_of_small {n : Nat} (hO : Ordered e m)
    (hruns : ∀ i, i + 1 < m → SampleToChunkTable.runLength e i < 2147483648 ∧
      SampleToChunkTable.runStart e (i + 1) < 4294967296)
    (hsmall : ∀ i < m, n + (e i).samplesPerChunk.toNat < 4294967296 ∧
      (e i).firstChunk.toNat + n < 4294967296) : Fits e m n := by
  refine ⟨fun i hi _ => hruns i hi, fun R q hL => ?_⟩
  obtain ⟨hsamples, hfirst⟩ := hsmall R hL.inTable
  have hle := hL.le
  have hmul := Nat.le_mul_of_pos_right q (hO.full R hL.inTable)
  have hq : q ≤ n := by
    unfold SampleToChunkTable.chunkStart at hle
    omega
  rw [SampleToChunkTable.chunkStart_succ]
  omega

/-- Runs of 2 chunks of 2 samples, of 1 chunk of 5 samples, and of chunks of 3: the walk from
    sample 3, with `Peek` running ahead. -/
theorem walk_answers_eq_scans_short :
    ∃ a₀ a₁, create (shortTable ⟨1, 2, 1⟩ ⟨3, 5, 2⟩ ⟨4, 3, 1⟩) false (fun _ => ⟨0, 0, 0⟩) =
        some a₀ ∧
      a₀.resetStateVariablesTo (shortTable ⟨1, 2, 1⟩ ⟨3, 5, 2⟩ ⟨4, 3, 1⟩) 3 =
        some (a₁, .everythingFine) ∧
      answers (walkCall (shortTable ⟨1, 2, 1⟩ ⟨3, 5, 2⟩ ⟨4, 3, 1⟩)) a₁
          [.get 3, .peek 4, .peek 5, .get 4, .resetPeekwithGet, .peek 5, .get 5] =
        answers (scanCall (shortTable ⟨1, 2, 1⟩ ⟨3, 5, 2⟩ ⟨4, 3, 1⟩)) a₁
          [.get 3, .peek 4, .peek 5, .get 4, .resetPeekwithGet, .peek 5, .get 5] := by
  have hT : (shortTable ⟨1, 2, 1⟩ ⟨3, 5, 2⟩ ⟨4, 3, 1⟩).InOrder := by
    refine ⟨fun k hk => ?_, fun k hk => ?_⟩
    · have hk' : k + 1 < 3 := hk
      obtain rfl | rfl : k = 0 ∨ k = 1 := by omega
      · decide
      · decide
    · have hk' : k < 3 := hk
      obtain rfl | rfl | rfl : k = 0 ∨ k = 1 ∨ k = 2 := by omega
      · decide
      · decide
      · decide
  have hO : Ordered ((shortTable ⟨1, 2, 1⟩ ⟨3, 5, 2⟩ ⟨4, 3, 1⟩).storedEntry false)
      ((shortTable ⟨1, 2, 1⟩ ⟨3, 5, 2⟩ ⟨4, 3, 1⟩).storedCount false) :=
    hT.ordered fun h => absurd h Bool.false_ne_true
  have hfits : ∀ n < 10, Fits ((shortTable ⟨1, 2, 1⟩ ⟨3, 5, 2⟩ ⟨4, 3, 1⟩).storedEntry false)
      ((shortTable ⟨1, 2, 1⟩ ⟨3, 5, 2⟩ ⟨4, 3, 1⟩).storedCount false) n := by
    intro n hn
    refine fits_of_small hO (fun i hi => ?_) (fun i hi => ?_)
    · have hi' : i + 1 < 3 := hi
      obtain rfl | rfl : i = 0 ∨ i = 1 := by omega
      · decide
      · decide
    · have hi' : i < 3 := hi
      have hvalues : ((shortTable ⟨1, 2, 1⟩ ⟨3, 5, 2⟩ ⟨4, 3, 1⟩).storedEntry false
          i).samplesPerChunk.toNat ≤ 5 ∧
          ((shortTable ⟨1, 2, 1⟩ ⟨3, 5, 2⟩ ⟨4, 3, 1⟩).storedEntry false i).firstChunk.toNat ≤ 3 := by
        obtain rfl | rfl | rfl : i = 0 ∨ i = 1 ∨ i = 2 := by omega
        · decide
        · decide
        · decide
      omega
  have hsome : (create (shortTable ⟨1, 2, 1⟩ ⟨3, 5, 2⟩ ⟨4, 3, 1⟩) false
      fun _ => ⟨0, 0, 0⟩).isSome = true := by decide +kernel
  obtain ⟨a₀, ha₀⟩ := isSome_iff_exists.mp hsome
  have hrun : execAll (SampleToChunkAtom.apply (shortTable ⟨1, 2, 1⟩ ⟨3, 5, 2⟩ ⟨4, 3, 1⟩)) a₀ [] =
      some a₀ := rfl
  obtain ⟨a₁, hreset, hwalk, -⟩ := walk_answers_eq_scans _ hT (by decide) ha₀ hrun
    (hfits (3 : UInt32).toNat (by decide))
  refine ⟨a₀, a₁, ha₀, hreset, (hwalk _ ?_ ?_).1⟩
  · simp only [Walks, Next]
    decide
  · intro sampleNum hmem
    have hlist : sampleNum ∈ ([3, 4, 5, 4, 5, 5] : List UInt32) := hmem
    simp only [mem_cons, not_mem_nil, or_false] at hlist
    obtain rfl | rfl | rfl | rfl | rfl | rfl := hlist <;> exact hfits _ (by decide)

/-- A run whose description index is 0: the walk finds the chunk of sample 9 and fails to return
    the index, which is the 0 the scan gives. And runs of 2 chunks with `2^31` samples each: the
    count of the first run wraps to 0, so the scan looks for sample 1 behind it. -/
theorem walk_answers_differ :
    ((create (shortTable ⟨1, 2, 1⟩ ⟨3, 5, 2⟩ ⟨4, 3, 0⟩) false fun _ => ⟨0, 0, 0⟩).bind fun a =>
      (a.resetStateVariablesTo (shortTable ⟨1, 2, 1⟩ ⟨3, 5, 2⟩ ⟨4, 3, 0⟩) 9).bind fun r =>
        (r.1.getChunkNumberForSampleGet (shortTable ⟨1, 2, 1⟩ ⟨3, 5, 2⟩ ⟨4, 3, 0⟩) 9).map fun r =>
          (r.2, r.1.getSDIndexGet)) = some ((.everythingFine, some 3), failed) ∧
      ((create (shortTable ⟨1, 2, 1⟩ ⟨3, 5, 2⟩ ⟨4, 3, 0⟩) false fun _ => ⟨0, 0, 0⟩).bind fun a =>
        (a.getChunkNumberForSample (shortTable ⟨1, 2, 1⟩ ⟨3, 5, 2⟩ ⟨4, 3, 0⟩) 9).map fun r =>
          (r.2, r.1.getSDIndex)) = some ((.everythingFine, some 3), .everythingFine, some 0) ∧
      ((create (shortTable ⟨1, 2147483648, 1⟩ ⟨3, 1, 1⟩ ⟨4, 1, 1⟩) false
        fun _ => ⟨0, 0, 0⟩).bind fun a =>
          (a.getChunkNumberForSampleGet (shortTable ⟨1, 2147483648, 1⟩ ⟨3, 1, 1⟩ ⟨4, 1, 1⟩)
            1).map Prod.snd) = some (.everythingFine, some 0) ∧
      ((create (shortTable ⟨1, 2147483648, 1⟩ ⟨3, 1, 1⟩ ⟨4, 1, 1⟩) false
        fun _ => ⟨0, 0, 0⟩).bind fun a =>
          (a.getChunkNumberForSample (shortTable ⟨1, 2147483648, 1⟩ ⟨3, 1, 1⟩ ⟨4, 1, 1⟩)
            1).map Prod.snd) = some (.everythingFine, some 3) := by
  refine ⟨by decide +kernel, by decide +kernel, by decide +kernel, by decide +kernel⟩

end SampleToChunkAtom

end OpenCore.Mp4
