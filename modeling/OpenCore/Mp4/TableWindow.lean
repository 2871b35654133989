/-
  File:      OpenCore/Mp4/TableWindow.lean
  Subject:   A SAMPLE TABLE READ THROUGH A WINDOW: `ParseEntryUnit` and `CheckAndParseEntry`.

  The table atoms (stsz, stts, stco, stsc) keep a ring of `_stbl_buff_size` slots, entry `i` in slot
  `i % _stbl_buff_size`, refilled from a file handle of its own. `_parsed_entry_cnt` goes back on a
  rewind; `_stbl_fptr_vec` remembers the file position at the head of each window.

  * `StblTable.Filled` -- what one turn of the loop of `ParseEntryUnit` keeps;
  * `StblTable.checkAndParseEntry_served` -- after `CheckAndParseEntry(i)` slot `i` of the ring
    holds entry `i`, and the refill loop has ended, as long as `i + threshold` is a `uint32`.
-/
import OpenCore.Lib.Word32

namespace OpenCore.Mp4

open Function (update update_of_ne update_self)

/-! ## 1. The table in its file -/

/-- `MP4_ERROR_CODE`, as far as the table atoms return it. -/
inductive Mp4ErrorCode where
  | everythingFine
  | defaultError
  | readFailed
  | readSampleToChunkAtomFailed
  deriving DecidableEq, Repr

/-- The part of the file a table lies in. `readAt k pos` is what a turn of the loop stores for the
    entry at file position `pos` when `k` entries have been parsed. -/
structure EntryFile (ε : Type) where
  headOffset : Nat
  entrySize : Nat
  readAt : Nat → Nat → ε

/-- The file position of entry `k`. -/
def EntryFile.posOf {ε : Type} (f : EntryFile ε) (k : Nat) : Nat := f.headOffset + k * f.entrySize

/-- Entry `k` of the table. -/
def EntryFile.entry {ε : Type} (f : EntryFile ε) (k : Nat) : ε := f.readAt k (f.posOf k)

/-! ## 2. The members of an atom -/

/-- The members the table atoms share. `consumed` is the file position the furthest read so far
    ended at; the code has no such member and nothing reads it. -/
structure StblTable (ε : Type) where
  entryCount : Nat
  stblBuffSize : Nat
  parsedEntryCnt : Nat
  currEntryPoint : Nat
  currBuffNumber : Nat
  nextBuffNumber : Nat
  stblFptrVec : Nat → Nat
  filePos : Nat
  consumed : Nat
  vec : Nat → ε

variable {stblBuffSize : Nat}

namespace StblTable

variable {ε : Type}

/-- Slot `i % _stbl_buff_size`. -/
def slot (t : StblTable ε) (i : Nat) : ε := t.vec (i % t.stblBuffSize)

/-- The table as a constructor in parsing mode 1 leaves it: nothing read, the handle at the head of
    the table, the slots as they were allocated. -/
def windowed (f : EntryFile ε) (entryCount stblBuffSize : Nat) (vec : Nat → ε) : StblTable ε where
  entryCount := entryCount
  stblBuffSize := stblBuffSize
  parsedEntryCnt := 0
  currEntryPoint := 0
  currBuffNumber := 0
  nextBuffNumber := 0
  stblFptrVec := fun _ => 0
  filePos := f.headOffset
  consumed := f.headOffset
  vec := vec

/-- The table as a constructor leaves it that reads all entries. -/
def whole (f : EntryFile ε) (entryCount : Nat) : StblTable ε where
  entryCount := entryCount
  stblBuffSize := entryCount
  parsedEntryCnt := entryCount
  currEntryPoint := 0
  currBuffNumber := 0
  nextBuffNumber := 0
  stblFptrVec := fun _ => 0
  filePos := f.posOf entryCount
  consumed := f.posOf entryCount
  vec := f.entry

/-- One turn of the loop of `ParseEntryUnit`. -/
def parseEntry (f : EntryFile ε) (t : StblTable ε) : StblTable ε :=
  let point := t.parsedEntryCnt % t.stblBuffSize
  let number := t.parsedEntryCnt / t.stblBuffSize
  let fptrs :=
    if number = t.nextBuffNumber then update t.stblFptrVec number t.filePos
    else t.stblFptrVec
  let next := if number = t.nextBuffNumber then t.nextBuffNumber + 1 else t.nextBuffNumber
  let pos := if point = 0 then fptrs number else t.filePos
  { t with
    parsedEntryCnt := t.parsedEntryCnt + 1
    currEntryPoint := point
    currBuffNumber := number
    nextBuffNumber := next
    stblFptrVec := fptrs
    filePos := pos + f.entrySize
    consumed := max t.consumed (pos + f.entrySize)
    vec := update t.vec point (f.readAt t.parsedEntryCnt pos) }

/-- So many turns of the loop. -/
def parseEntries (f : EntryFile ε) : Nat → StblTable ε → StblTable ε
  | 0, t => t
  | n + 1, t => parseEntries f n (t.parseEntry f)

/-- `ParseEntryUnit`: read on up to `threshold` entries behind `entry_cnt`. Every turn parses one
    entry, so the loop makes as many turns as entries are missing. -/
def parseEntryUnit (f : EntryFile ε) (threshold entry_cnt : Nat) (t : StblTable ε) :
    StblTable ε :=
  let upTo := add32 entry_cnt threshold
  let upTo := if upTo > t.entryCount then t.entryCount else upTo
  parseEntries f (upTo - t.parsedEntryCnt) t

/-- `while (_parsed_entry_cnt <= i) ParseEntryUnit(_parsed_entry_cnt);`, `none` where the turns do
    not reach the end: a turn that parses nothing is repeated for ever. -/
def refill (f : EntryFile ε) (threshold i : Nat) : Nat → StblTable ε → Option (StblTable ε)
  | 0, _ => none
  | fuel + 1, t =>
    if t.parsedEntryCnt ≤ i then
      refill f threshold i fuel (t.parseEntryUnit f threshold t.parsedEntryCnt)
    else some t

/-- The rewind: start over at the head of the window that `i` lies in. -/
def rewind (f : EntryFile ε) (threshold i : Nat) (t : StblTable ε) : Option (StblTable ε) :=
  refill f threshold i (i + 2)
    { t with parsedEntryCnt := i / t.stblBuffSize * t.stblBuffSize }

/-- `CheckAndParseEntry`. -/
def checkAndParseEntry (f : EntryFile ε) (threshold i : Nat) (t : StblTable ε) :
    Option (StblTable ε) :=
  if t.parsedEntryCnt ≤ i then some (t.parseEntryUnit f threshold i)
  else if t.currBuffNumber ≠ i / t.stblBuffSize then t.rewind f threshold i
  else some t

/-! ## 3. What the loop keeps -/

/-- The state between two turns of the loop: from entry `low` on, what was parsed and still fits
    the ring is in its slot. -/
structure Filled (f : EntryFile ε) (low : Nat) (t : StblTable ε) : Prop where
  pos : 0 < t.stblBuffSize
  le : t.parsedEntryCnt ≤ t.entryCount
  low_le : low ≤ t.parsedEntryCnt
  slots : ∀ j, low ≤ j → j < t.parsedEntryCnt → t.parsedEntryCnt ≤ j + t.stblBuffSize →
    t.slot j = f.entry j
  known : ∀ k < t.nextBuffNumber, t.stblFptrVec k = f.posOf (k * t.stblBuffSize)
  reach : t.parsedEntryCnt ≤ t.nextBuffNumber * t.stblBuffSize
  inBounds : t.nextBuffNumber * t.stblBuffSize < t.entryCount + t.stblBuffSize
  seek : t.filePos = f.posOf t.parsedEntryCnt ∨
    (t.parsedEntryCnt % t.stblBuffSize = 0 ∧
      t.parsedEntryCnt < t.nextBuffNumber * t.stblBuffSize)
  inside : t.consumed ≤ f.posOf t.entryCount

variable {f : EntryFile ε} {t : StblTable ε} {low : Nat}

theorem EntryFile.posOf_succ (k : Nat) : f.posOf (k + 1) = f.posOf k + f.entrySize := by
  unfold EntryFile.posOf
  rw [Nat.succ_mul]
  omega

theorem EntryFile.posOf_mono {j k : Nat} (h : j ≤ k) : f.posOf j ≤ f.posOf k :=
  Nat.add_le_add_left (Nat.mul_le_mul_right _ h) _

theorem windowed_filled {entryCount : Nat} (hpos : 0 < stblBuffSize)
    (hcount : 0 < entryCount) (vec : Nat → ε) :
    (windowed f entryCount stblBuffSize vec).Filled f 0 where
  pos := hpos
  le := Nat.zero_le _
  low_le := Nat.le_refl _
  slots := fun j _ hj _ => absurd hj (Nat.not_lt_zero j)
  known := fun k hk => absurd hk (Nat.not_lt_zero k)
  reach := Nat.zero_le _
  inBounds := by
    show 0 * stblBuffSize < entryCount + stblBuffSize
    omega
  seek := Or.inl (by
    show f.headOffset = f.headOffset + 0 * f.entrySize
    omega)
  inside := Nat.le_add_right _ _

/-- Two entries less than a ring apart have different slots. -/
theorem mod_ne_of_lt {n j k : Nat} (hjk : j < k) (hk : k < j + n) : j % n ≠ k % n := by
  intro he
  have hsub : n ∣ k - j := (Nat.modEq_iff_dvd' (Nat.le_of_lt hjk)).mp he
  have := Nat.le_of_dvd (by omega) hsub
  omega

theorem Filled.readPos (h : t.Filled f low) :
    (if t.parsedEntryCnt % t.stblBuffSize = 0 then
      (if t.parsedEntryCnt / t.stblBuffSize = t.nextBuffNumber then
        update t.stblFptrVec (t.parsedEntryCnt / t.stblBuffSize) t.filePos
      else t.stblFptrVec) (t.parsedEntryCnt / t.stblBuffSize)
    else t.filePos) = f.posOf t.parsedEntryCnt := by
  have hdiv := Nat.div_add_mod' t.parsedEntryCnt t.stblBuffSize
  by_cases hp : t.parsedEntryCnt % t.stblBuffSize = 0
  · rw [if_pos hp]
    have hhead : t.parsedEntryCnt / t.stblBuffSize * t.stblBuffSize = t.parsedEntryCnt := by
      omega
    by_cases hn : t.parsedEntryCnt / t.stblBuffSize = t.nextBuffNumber
    · rw [if_pos hn, update_self]
      obtain hpos | ⟨-, hlt⟩ := h.seek
      · exact hpos
      · rw [← hn, hhead] at hlt
        exact absurd hlt (Nat.lt_irrefl _)
    · have hle : t.parsedEntryCnt / t.stblBuffSize ≤ t.nextBuffNumber :=
        Nat.div_le_of_le_mul (by rw [Nat.mul_comm]; exact h.reach)
      rw [if_neg hn, h.known _ (by omega), hhead]
  · rw [if_neg hp]
    obtain hpos | ⟨hz, -⟩ := h.seek
    · exact hpos
    · exact absurd hz hp

/-- **One turn**: the next entry goes to its slot, read at its own position. -/
theorem Filled.parseEntry (h : t.Filled f low) (hlt : t.parsedEntryCnt < t.entryCount) :
    (t.parseEntry f).Filled f low := by
  have hread := h.readPos
  have hdiv := Nat.div_add_mod' t.parsedEntryCnt t.stblBuffSize
  have hnum : t.parsedEntryCnt / t.stblBuffSize ≤ t.nextBuffNumber :=
    Nat.div_le_of_le_mul (by rw [Nat.mul_comm]; exact h.reach)
  have hin := h.inBounds
  have hslots : ∀ j, low ≤ j → j < t.parsedEntryCnt + 1 →
      t.parsedEntryCnt + 1 ≤ j + t.stblBuffSize → (t.parseEntry f).slot j = f.entry j := by
    intro j hlow hj hfit
    show update t.vec (t.parsedEntryCnt % t.stblBuffSize) _ (j % t.stblBuffSize) = _
    obtain rfl | hj' : j = t.parsedEntryCnt ∨ j < t.parsedEntryCnt := by omega
    · rw [update_self, hread]
      rfl
    · rw [update_of_ne (mod_ne_of_lt hj' hfit)]
      exact h.slots j hlow hj' (by omega)
  have hend : (t.parseEntry f).filePos = f.posOf (t.parsedEntryCnt + 1) := by
    rw [EntryFile.posOf_succ, ← hread]
    rfl
  have hinside : (t.parseEntry f).consumed ≤ f.posOf t.entryCount := by
    have hmono : f.posOf (t.parsedEntryCnt + 1) ≤ f.posOf t.entryCount :=
      EntryFile.posOf_mono hlt
    rw [EntryFile.posOf_succ, ← hread] at hmono
    exact Nat.max_le.mpr ⟨h.inside, hmono⟩
  by_cases hn : t.parsedEntryCnt / t.stblBuffSize = t.nextBuffNumber
  · -- the first entry of a window that was never read: the handle stands at its head
    have hhead : t.parsedEntryCnt = t.nextBuffNumber * t.stblBuffSize := by
      have := h.reach
      rw [hn] at hdiv
      omega
    have hpos : t.filePos = f.posOf t.parsedEntryCnt := by
      obtain hpos | ⟨-, hlt'⟩ := h.seek
      · exact hpos
      · omega
    have hnext : (t.parseEntry f).nextBuffNumber = t.nextBuffNumber + 1 := if_pos hn
    refine ⟨h.pos, hlt, Nat.le_succ_of_le h.low_le, hslots, ?_, ?_, ?_, Or.inl hend, hinside⟩
    · intro k hk
      show (if t.parsedEntryCnt / t.stblBuffSize = t.nextBuffNumber then
        update t.stblFptrVec (t.parsedEntryCnt / t.stblBuffSize) t.filePos
        else t.stblFptrVec) k = f.posOf (k * t.stblBuffSize)
      rw [hnext] at hk
      rw [if_pos hn, hn]
      obtain rfl | hk' : k = t.nextBuffNumber ∨ k < t.nextBuffNumber := by omega
      · rw [update_self, hpos, hhead]
      · rw [update_of_ne (by omega), h.known k hk']
    · show t.parsedEntryCnt + 1 ≤ (t.parseEntry f).nextBuffNumber * t.stblBuffSize
      have := h.pos
      rw [hnext, Nat.succ_mul]
      omega
    · show (t.parseEntry f).nextBuffNumber * t.stblBuffSize < t.entryCount + t.stblBuffSize
      rw [hnext, Nat.succ_mul]
      omega
  · have hbelow : t.parsedEntryCnt < t.nextBuffNumber * t.stblBuffSize :=
      (Nat.div_lt_iff_lt_mul h.pos).mp (by omega)
    have hnext : (t.parseEntry f).nextBuffNumber = t.nextBuffNumber := if_neg hn
    refine ⟨h.pos, hlt, Nat.le_succ_of_le h.low_le, hslots, ?_, ?_, ?_, Or.inl hend, hinside⟩
    · intro k hk
      show (if t.parsedEntryCnt / t.stblBuffSize = t.nextBuffNumber then
        update t.stblFptrVec (t.parsedEntryCnt / t.stblBuffSize) t.filePos
        else t.stblFptrVec) k = f.posOf (k * t.stblBuffSize)
      rw [hnext] at hk
      rw [if_neg hn, h.known k hk]
    · show t.parsedEntryCnt + 1 ≤ (t.parseEntry f).nextBuffNumber * t.stblBuffSize
      rw [hnext]
      exact hbelow
    · show (t.parseEntry f).nextBuffNumber * t.stblBuffSize < t.entryCount + t.stblBuffSize
      rw [hnext]
      exact hin

/-! ## 4. The loop -/

theorem parseEntries_entryCount (n : Nat) (t : StblTable ε) :
    (parseEntries f n t).entryCount = t.entryCount ∧
      (parseEntries f n t).stblBuffSize = t.stblBuffSize ∧
      (parseEntries f n t).parsedEntryCnt = t.parsedEntryCnt + n := by
  induction n generalizing t with
  | zero => exact ⟨rfl, rfl, rfl⟩
  | succ n ih =>
    obtain ⟨hcount, hsize, hparsed⟩ := ih (t.parseEntry f)
    refine ⟨hcount, hsize, hparsed.trans ?_⟩
    show t.parsedEntryCnt + 1 + n = _
    omega

/-- Behind the loop: the invariant, and the window of the last entry read is the current one. -/
theorem Filled.parseEntries {n : Nat} (h : t.Filled f low)
    (hn : t.parsedEntryCnt + n ≤ t.entryCount) :
    (parseEntries f n t).Filled f low ∧ (0 < n →
      (StblTable.parseEntries f n t).currBuffNumber =
        (t.parsedEntryCnt + n - 1) / t.stblBuffSize) := by
  induction n generalizing t with
  | zero => exact ⟨h, fun h0 => absurd h0 (Nat.lt_irrefl 0)⟩
  | succ n ih =>
    have hone : (t.parsedEntryCnt + 1) + n ≤ t.entryCount := by omega
    obtain ⟨hfill, hbuff⟩ := ih (h.parseEntry (by omega)) hone
    refine ⟨hfill, fun _ => ?_⟩
    cases n with
    | zero => rfl
    | succ n =>
      refine (hbuff (by omega)).trans ?_
      show (t.parsedEntryCnt + 1 + (n + 1) - 1) / t.stblBuffSize = _
      congr 1
      omega

/-- A slot that none of the entries read belongs in is left alone. -/
theorem parseEntries_slot {n s : Nat} (t : StblTable ε)
    (hs : ∀ j, t.parsedEntryCnt ≤ j → j < t.parsedEntryCnt + n → j % t.stblBuffSize ≠ s) :
    (parseEntries f n t).vec s = t.vec s := by
  induction n generalizing t with
  | zero => rfl
  | succ n ih =>
    have hstep : ∀ j, t.parsedEntryCnt + 1 ≤ j → j < t.parsedEntryCnt + 1 + n →
        j % t.stblBuffSize ≠ s := fun j h1 h2 => hs j (by omega) (by omega)
    refine (ih (t.parseEntry f) hstep).trans ?_
    exact update_of_ne (hs _ (Nat.le_refl _) (by omega)).symm _ _

/-! ## 5. Between two calls -/

/-- The state between two calls: the current window is that of the last entry read, and it was
    refilled from its head on. -/
structure Served (f : EntryFile ε) (low : Nat) (t : StblTable ε) : Prop extends
    Filled f low t where
  buff : t.currBuffNumber = (t.parsedEntryCnt - 1) / t.stblBuffSize
  low_buff : low ≤ t.currBuffNumber * t.stblBuffSize

variable {threshold i : Nat}

theorem windowed_served {entryCount : Nat} (hpos : 0 < stblBuffSize)
    (hcount : 0 < entryCount) (vec : Nat → ε) :
    (windowed f entryCount stblBuffSize vec).Served f 0 where
  toFilled := windowed_filled hpos hcount vec
  buff := (Nat.zero_div stblBuffSize).symm
  low_buff := Nat.zero_le _

/-- Without a carry `ParseEntryUnit` stops `threshold` entries further on or at the table's end. -/
theorem parseEntryUnit_eq (hsmall : i + threshold < 4294967296) (t : StblTable ε) :
    t.parseEntryUnit f threshold i =
      parseEntries f (min (i + threshold) t.entryCount - t.parsedEntryCnt) t := by
  unfold parseEntryUnit
  dsimp only
  rw [add32_eq hsmall]
  congr 2
  split <;> omega

theorem whole_slot {entryCount : Nat} (hi : i < entryCount) :
    (whole f entryCount).slot i = f.entry i := by
  show f.entry (i % entryCount) = f.entry i
  rw [Nat.mod_eq_of_lt hi]

theorem parseEntryUnit_entryCount (f : EntryFile ε) (threshold i : Nat) (t : StblTable ε) :
    (t.parseEntryUnit f threshold i).entryCount = t.entryCount ∧
      (t.parseEntryUnit f threshold i).stblBuffSize = t.stblBuffSize :=
  ⟨(parseEntries_entryCount _ t).1, (parseEntries_entryCount _ t).2.1⟩

theorem parseEntryUnit_parsedEntryCnt (h : t.Filled f low)
    (hsmall : i + threshold < 4294967296) (hle : t.parsedEntryCnt ≤ i + threshold) :
    (t.parseEntryUnit f threshold i).parsedEntryCnt = min (i + threshold) t.entryCount := by
  have := h.le
  rw [parseEntryUnit_eq hsmall, (parseEntries_entryCount _ t).2.2]
  omega

theorem Filled.parseEntryUnit (h : t.Filled f low) (hsmall : i + threshold < 4294967296) :
    (t.parseEntryUnit f threshold i).Filled f low := by
  have := h.le
  rw [parseEntryUnit_eq hsmall]
  by_cases hle : t.parsedEntryCnt ≤ min (i + threshold) t.entryCount
  · exact (h.parseEntries (by omega)).1
  · rw [Nat.sub_eq_zero_of_le (by omega)]
    exact h

/-- Reading on keeps the state between two calls. -/
theorem Served.parseEntries (h : t.Served f low) {n : Nat}
    (hn : t.parsedEntryCnt + n ≤ t.entryCount) : (t.parseEntries f n).Served f low := by
  obtain rfl | hpos := Nat.eq_zero_or_pos n
  · exact h
  · obtain ⟨hfill, hbuff⟩ := h.toFilled.parseEntries hn
    obtain ⟨-, hsize, hparsed⟩ := parseEntries_entryCount (f := f) n t
    refine ⟨hfill, ?_, ?_⟩
    · rw [hbuff hpos, hparsed, hsize]
    · rw [hbuff hpos, hsize]
      refine Nat.le_trans h.low_buff (Nat.mul_le_mul_right _ ?_)
      rw [h.buff]
      exact Nat.div_le_div_right (by omega)

theorem Served.parseEntryUnit (h : t.Served f low) (hsmall : i + threshold < 4294967296) :
    (t.parseEntryUnit f threshold i).Served f low := by
  have hle := h.le
  rw [parseEntryUnit_eq hsmall]
  exact h.parseEntries (by omega)

/-- A rewind to the head of an earlier window: what follows is read again, from the position
    remembered for it. -/
theorem Filled.rewound (h : t.Filled f low) {k : Nat} (hk : k * t.stblBuffSize < t.parsedEntryCnt) :
    ({ t with parsedEntryCnt := k * t.stblBuffSize } : StblTable ε).Filled f
      (k * t.stblBuffSize) := by
  have hreach := h.reach
  have hle := h.le
  refine ⟨h.pos, ?_, Nat.le_refl _, ?_, h.known, ?_, h.inBounds, Or.inr ⟨?_, ?_⟩, h.inside⟩
  · show k * t.stblBuffSize ≤ t.entryCount
    omega
  · intro j hlow hj
    exact absurd hj (Nat.not_lt.mpr hlow)
  · show k * t.stblBuffSize ≤ t.nextBuffNumber * t.stblBuffSize
    omega
  · exact Nat.mul_mod_left k t.stblBuffSize
  · show k * t.stblBuffSize < t.nextBuffNumber * t.stblBuffSize
    omega

/-- **The refill loop ends**, behind entry `i` and at most `threshold` entries further. -/
theorem refill_eq {fuel : Nat} (h : t.Filled f low) (h0 : 0 < threshold) (hi : i < t.entryCount)
    (hsmall : i + threshold < 4294967296) (hle : t.parsedEntryCnt ≤ i)
    (hfuel : i + 2 ≤ fuel + t.parsedEntryCnt) :
    ∃ t', refill f threshold i fuel t = some t' ∧ t'.Filled f low ∧
      t'.entryCount = t.entryCount ∧ t'.stblBuffSize = t.stblBuffSize ∧
      i < t'.parsedEntryCnt ∧ t'.parsedEntryCnt ≤ i + threshold ∧
      t'.currBuffNumber = (t'.parsedEntryCnt - 1) / t'.stblBuffSize ∧
      ∀ s, (∀ j, t.parsedEntryCnt ≤ j → j < t'.parsedEntryCnt → j % t.stblBuffSize ≠ s) →
        t'.vec s = t.vec s := by
  induction fuel generalizing t with
  | zero => omega
  | succ fuel ih =>
    have hcarry : t.parsedEntryCnt + threshold < 4294967296 := by omega
    have hfill := h.parseEntryUnit (i := t.parsedEntryCnt) hcarry
    have hparsed := parseEntryUnit_parsedEntryCnt h hcarry (Nat.le_add_right _ _)
    obtain ⟨hcount, hsize⟩ := parseEntryUnit_entryCount f threshold t.parsedEntryCnt t
    have hframe : ∀ s, (∀ j, t.parsedEntryCnt ≤ j →
        j < (t.parseEntryUnit f threshold t.parsedEntryCnt).parsedEntryCnt →
        j % t.stblBuffSize ≠ s) →
        (t.parseEntryUnit f threshold t.parsedEntryCnt).vec s = t.vec s := by
      intro s hs
      rw [parseEntryUnit_eq hcarry]
      exact parseEntries_slot t fun j h1 h2 => hs j h1 (by rw [hparsed]; omega)
    rw [refill, if_pos hle]
    by_cases hmore : (t.parseEntryUnit f threshold t.parsedEntryCnt).parsedEntryCnt ≤ i
    · obtain ⟨t', he, hfill', hcount', hsize', hlt, hend, hbuff, hframe'⟩ :=
        ih hfill (by rw [hcount]; exact hi) hmore (by rw [hparsed]; omega)
      refine ⟨t', he, hfill', hcount'.trans hcount, hsize'.trans hsize, hlt, hend, hbuff, ?_⟩
      intro s hs
      rw [hsize] at hframe'
      refine (hframe' s fun j h1 h2 => hs j ?_ h2).trans
        (hframe s fun j h1 h2 => hs j h1 (by omega))
      rw [hparsed] at h1
      omega
    · obtain ⟨fuel, rfl⟩ : ∃ k, fuel = k + 1 := ⟨fuel - 1, by omega⟩
      refine ⟨_, ?_, hfill, hcount, hsize, by omega, by rw [hparsed]; omega, ?_, hframe⟩
      · rw [refill, if_neg hmore]
      · have hbuff := (h.parseEntries (n := min (t.parsedEntryCnt + threshold) t.entryCount -
          t.parsedEntryCnt) (by omega)).2 (by omega)
        rw [hparsed, hsize]
        rw [parseEntryUnit_eq hcarry, hbuff]
        congr 1
        omega

/-- **The rewind ends**, with the window of entry `i` refilled from its head on. -/
theorem Filled.rewind (h : t.Filled f low) (h0 : 0 < threshold) (hi : i < t.parsedEntryCnt)
    (hsmall : i + threshold < 4294967296) :
    ∃ t', t.rewind f threshold i = some t' ∧ t'.Served f (i / t.stblBuffSize * t.stblBuffSize) ∧
      t'.entryCount = t.entryCount ∧ t'.stblBuffSize = t.stblBuffSize ∧
      i < t'.parsedEntryCnt ∧ t'.parsedEntryCnt ≤ i + threshold ∧
      ∀ s, (∀ j, i / t.stblBuffSize * t.stblBuffSize ≤ j → j < t'.parsedEntryCnt →
        j % t.stblBuffSize ≠ s) → t'.vec s = t.vec s := by
  have hle := h.le
  have hhead := Nat.div_mul_le_self i t.stblBuffSize
  have hrewound := h.rewound (show i / t.stblBuffSize * t.stblBuffSize < t.parsedEntryCnt by omega)
  have hcount' : i < t.entryCount := by omega
  have hfuel : i + 2 ≤ i + 2 + i / t.stblBuffSize * t.stblBuffSize := Nat.le_add_right _ _
  obtain ⟨t', he, hfill, hcount, hsize, hlt, hend, hbuff, hframe⟩ :=
    refill_eq hrewound h0 hcount' hsmall hhead hfuel
  refine ⟨t', he, ⟨hfill, hbuff, ?_⟩, hcount, hsize, hlt, hend, hframe⟩
  rw [hbuff, hsize]
  exact Nat.mul_le_mul_right _ (Nat.div_le_div_right (by omega))

/-- A table that serves its entries through the window. -/
def Live (f : EntryFile ε) (t : StblTable ε) : Prop := ∃ low, t.Served f low

/-- A parsed entry of the current window is in its slot. -/
theorem Served.slot_eq (h : t.Served f low) (hlow : low ≤ i) (hi : i < t.parsedEntryCnt)
    (hfit : t.parsedEntryCnt ≤ i + t.stblBuffSize) : t.slot i = f.entry i :=
  h.slots i hlow hi hfit

theorem Served.current (h : t.Served f low) (hbuff : t.currBuffNumber = i / t.stblBuffSize) :
    low ≤ i ∧ t.parsedEntryCnt ≤ i + t.stblBuffSize := by
  have hdiv := Nat.div_add_mod' i t.stblBuffSize
  have hlow := h.low_buff
  have hcur := h.buff
  have hmod := Nat.mod_lt (t.parsedEntryCnt - 1) h.pos
  have hdiv' := Nat.div_add_mod' (t.parsedEntryCnt - 1) t.stblBuffSize
  rw [hbuff] at hlow hcur
  rw [← hcur] at hdiv'
  have := h.pos
  omega

/-- **After `CheckAndParseEntry(i)` slot `i` holds entry `i`**, the call has ended, and the entry
    before is in its slot if it was there or lies in the same window. -/
theorem Live.checkAndParseEntry (h : t.Live f) (h0 : 0 < threshold)
    (hring : threshold < t.stblBuffSize) (hi : i < t.entryCount)
    (hsmall : i + threshold < 4294967296) :
    ∃ t', t.checkAndParseEntry f threshold i = some t' ∧ t'.Live f ∧
      t'.entryCount = t.entryCount ∧ t'.stblBuffSize = t.stblBuffSize ∧
      t'.slot i = f.entry i ∧
      ∀ j, j + 1 = i → t.slot j = f.entry j ∨ j / t.stblBuffSize = i / t.stblBuffSize →
        t'.slot j = f.entry j := by
  obtain ⟨low, hs⟩ := h
  have hlow := hs.low_le
  unfold StblTable.checkAndParseEntry
  by_cases hparsed : t.parsedEntryCnt ≤ i
  · rw [if_pos hparsed]
    obtain ⟨hcount, hsize⟩ := parseEntryUnit_entryCount f threshold i t
    have hs' : (t.parseEntryUnit f threshold i).Served f low := hs.parseEntryUnit hsmall
    have hcnt := parseEntryUnit_parsedEntryCnt hs.toFilled hsmall (by omega)
    refine ⟨_, rfl, ⟨low, hs'⟩, hcount, hsize, ?_, ?_⟩
    · exact hs'.slot_eq (by omega) (by omega) (by omega)
    · intro j hj _
      by_cases hjp : j < t.parsedEntryCnt
      · -- the entry before was the last one parsed: its slot is not reached again
        have hlast : t.currBuffNumber = j / t.stblBuffSize := by
          rw [hs.buff]
          congr 1
          omega
        obtain ⟨hcl, hcr⟩ := hs.current hlast
        show (t.parseEntryUnit f threshold i).vec _ = _
        rw [hsize, parseEntryUnit_eq hsmall]
        refine (parseEntries_slot t fun k h1 h2 => ?_).trans (hs.slot_eq hcl hjp hcr)
        exact (mod_ne_of_lt (show j < k by omega) (by omega)).symm
      · exact hs'.slot_eq (by omega) (by omega) (by omega)
  · rw [if_neg hparsed]
    by_cases hbuff : t.currBuffNumber = i / t.stblBuffSize
    · rw [if_neg (not_not.mpr hbuff)]
      obtain ⟨hcl, hcr⟩ := hs.current hbuff
      refine ⟨t, rfl, ⟨low, hs⟩, rfl, rfl, hs.slot_eq hcl (by omega) hcr, ?_⟩
      intro j hj hheld
      obtain hheld | hsame := hheld
      · exact hheld
      · obtain ⟨hjl, hjr⟩ := hs.current (hbuff.trans hsame.symm)
        exact hs.slot_eq hjl (by omega) hjr
    · rw [if_pos hbuff]
      obtain ⟨t', he, hs', hcount, hsize, hlt, hend, hframe⟩ :=
        hs.toFilled.rewind h0 (by omega) hsmall
      have hhead := Nat.div_mul_le_self i t.stblBuffSize
      refine ⟨t', he, ⟨_, hs'⟩, hcount, hsize, ?_, ?_⟩
      · exact hs'.slot_eq hhead hlt (by omega)
      · intro j hj hheld
        by_cases hjw : i / t.stblBuffSize * t.stblBuffSize ≤ j
        · exact hs'.slot_eq hjw (by omega) (by omega)
        · -- the entry before ends the window before: the refill does not reach its slot
          obtain hheld | hsame := hheld
          · show t'.vec _ = _
            rw [hsize]
            refine (hframe _ fun k h1 h2 => ?_).trans hheld
            exact (mod_ne_of_lt (show j < k by omega) (by omega)).symm
          · rw [← hsame] at hjw
            exact absurd (Nat.div_mul_le_self j t.stblBuffSize) hjw

/-- `CheckAndParseEntry` behind the last entry reads the table to its end; the last entry's slot
    holds it. -/
theorem Live.checkAndParseEntry_end (h : t.Live f) (h0 : 0 < threshold)
    (hcount : 0 < t.entryCount) (hsmall : t.entryCount + threshold < 4294967296) :
    ∃ t', t.checkAndParseEntry f threshold t.entryCount = some t' ∧ t'.Live f ∧
      t'.entryCount = t.entryCount ∧ t'.stblBuffSize = t.stblBuffSize ∧
      t'.slot (t.entryCount - 1) = f.entry (t.entryCount - 1) := by
  obtain ⟨low, hs⟩ := h
  have hle := hs.le
  obtain ⟨hcount', hsize⟩ := parseEntryUnit_entryCount f threshold t.entryCount t
  have hs' : (t.parseEntryUnit f threshold t.entryCount).Served f low := hs.parseEntryUnit hsmall
  have hcnt := parseEntryUnit_parsedEntryCnt hs.toFilled hsmall (by omega)
  have hcur : (t.parseEntryUnit f threshold t.entryCount).currBuffNumber =
      (t.entryCount - 1) / (t.parseEntryUnit f threshold t.entryCount).stblBuffSize := by
    rw [hs'.buff, hcnt]
    congr 1
    omega
  unfold StblTable.checkAndParseEntry
  rw [if_pos hle]
  obtain ⟨hcl, hcr⟩ := hs'.current hcur
  exact ⟨_, rfl, ⟨low, hs'⟩, hcount', hsize, hs'.slot_eq hcl (by omega) hcr⟩

/-! ## 6. Either way of holding a table -/

/-- `if (_parsing_mode == 1) CheckAndParseEntry(i);` -/
def fetch (f : EntryFile ε) (threshold : Nat) (parsingMode : Bool) (i : Nat) (t : StblTable ε) :
    Option (StblTable ε) :=
  if parsingMode then t.checkAndParseEntry f threshold i else some t

/-- A table of `entryCount` entries, held whole or through the window. -/
inductive Serves (f : EntryFile ε) (threshold entryCount : Nat) : Bool → StblTable ε → Prop where
  | whole : Serves f threshold entryCount false (.whole f entryCount)
  | window {t : StblTable ε} (hlive : t.Live f) (hring : threshold < t.stblBuffSize)
      (hcount : t.entryCount = entryCount) : Serves f threshold entryCount true t

variable {entryCount : Nat} {parsingMode : Bool}

section

variable (h : Serves f threshold entryCount parsingMode t)
include h

theorem Serves.entryCount_eq :
    t.entryCount = entryCount := by
  cases h with
  | whole => rfl
  | window _ _ hcount => exact hcount

/-- **Fetching an entry** ends, and leaves it in its slot. -/
theorem Serves.fetch (h0 : 0 < threshold)
    (hi : i < entryCount) (hsmall : i + threshold < 4294967296) :
    ∃ t', t.fetch f threshold parsingMode i = some t' ∧
      Serves f threshold entryCount parsingMode t' ∧ t'.slot i = f.entry i ∧
      ∀ j, j + 1 = i → t.slot j = f.entry j → t'.slot j = f.entry j := by
  cases h with
  | whole => exact ⟨_, if_neg Bool.false_ne_true, .whole, whole_slot hi, fun _ _ hheld => hheld⟩
  | window hlive hring hcount =>
    subst hcount
    obtain ⟨t', he, hlive', hcount', hsize, hslot, hprev⟩ :=
      hlive.checkAndParseEntry h0 hring hi hsmall
    refine ⟨t', (if_pos rfl).trans he, .window hlive' (by rw [hsize]; exact hring) hcount', hslot,
      fun j hj hheld => hprev j hj (Or.inl hheld)⟩

/-- Fetching an entry of a table whose indices leave room for the threshold. -/
theorem Serves.fetch_of_small
    (h0 : 0 < threshold) (hi : i < entryCount)
    (hsmall : parsingMode = true → entryCount + threshold ≤ 4294967296) :
    ∃ t', t.fetch f threshold parsingMode i = some t' ∧
      Serves f threshold entryCount parsingMode t' ∧ t'.slot i = f.entry i ∧
      ∀ j, j + 1 = i → t.slot j = f.entry j → t'.slot j = f.entry j := by
  cases h with
  | whole => exact ⟨.whole f entryCount, rfl, .whole, whole_slot hi, fun _ _ hheld => hheld⟩
  | window hlive hring hcount =>
    have hroom := hsmall rfl
    exact Serves.fetch (.window hlive hring hcount) h0 hi (by omega)

/-- Fetching behind the table's end leaves the table served. -/
theorem Serves.fetch_behind
    (hi : entryCount ≤ i) :
    ∃ t', t.fetch f threshold parsingMode i = some t' ∧
      Serves f threshold entryCount parsingMode t' := by
  cases h with
  | whole => exact ⟨.whole f entryCount, rfl, .whole⟩
  | window hlive hring hcount =>
    subst hcount
    obtain ⟨low, hs⟩ := hlive
    have hle := hs.le
    obtain ⟨hcount', hsize⟩ := parseEntryUnit_entryCount f threshold i t
    refine ⟨t.parseEntryUnit f threshold i, ?_, .window ⟨low, ?_⟩ (by rw [hsize]; exact hring)
      hcount'⟩
    · show (if true = true then t.checkAndParseEntry f threshold i else some t) = _
      rw [if_pos rfl, checkAndParseEntry, if_pos (Nat.le_trans hle hi)]
    · exact hs.parseEntries (by split <;> omega)

end

/-- A new table in parsing mode 1 with more entries than the ring holds. -/
theorem serves_windowed (hring : threshold < stblBuffSize)
    (hcount : 0 < entryCount) (vec : Nat → ε) :
    Serves f threshold entryCount true (.windowed f entryCount stblBuffSize vec) :=
  .window ⟨0, windowed_served (by omega) hcount vec⟩ hring rfl

/-- In every state a window serves its table from, `CheckAndParseEntry(i)` ends with entry `i` in
    slot `i % _stbl_buff_size`. -/
def ParsesEntries (f : EntryFile ε) (threshold : Nat) (t : StblTable ε) : Prop :=
  ∀ i < t.entryCount, i + threshold < 4294967296 →
    ∃ t', t.checkAndParseEntry f threshold i = some t' ∧ t'.slot i = f.entry i

theorem Serves.parsesEntries (h : Serves f threshold entryCount true t) (h0 : 0 < threshold) :
    t.ParsesEntries f threshold := by
  intro i hi hsmall
  obtain ⟨t', he, -, hslot, -⟩ := h.fetch h0 (by rw [← h.entryCount_eq]; exact hi) hsmall
  exact ⟨t', he, hslot⟩

end StblTable

end OpenCore.Mp4
