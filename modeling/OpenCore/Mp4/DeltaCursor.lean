/-
  File:      OpenCore/Mp4/DeltaCursor.lean
  Subject:   The two cursors of `TimeToSampleAtom` (timetosampleatom.cpp): reset to a sample, then
             asked for the deltas of the samples from there on.

  A call whose sample lies behind the cursor's entry moves the cursor on by one entry, and over more
  only while no sample has been counted. The entry is taken modulo the table's size.

  * `GoodCall` -- the condition on a call; `CursorAt` -- where the cursor stands before the next.

  **Main result**: `delta_calls_right`.
-/
import OpenCore.Mp4.SampleTimes

namespace OpenCore.Mp4

open RunLength TimeToSampleAtom List Option
open UInt32 (lt_iff_toNat_lt toNat_inj zero_add)
open Or (inl inr)
open StblTable (Serves)
open Function (update)

/-! ## 1. The cursors -/

/-- `_currGetSampleCount`, `_currGetIndex`, `_currGetTimeDelta`, or the three members for peeking.
    The index is an `int32` that starts at -1 and is only used as a `uint32`. -/
structure Cursor where
  sampleCount : UInt32
  index : UInt32
  timeDelta : UInt32
  deriving DecidableEq, Repr

/-- As `ResetStateVariables` sets the members first. -/
def Cursor.start : Cursor where
  sampleCount := 0
  index := 4294967295
  timeDelta := 0

/-- The next entry taken into account. -/
def Cursor.take (c : Cursor) (e : TimeEntry) : Cursor where
  sampleCount := c.sampleCount + e.sampleCount
  index := c.index + 1
  timeDelta := e.sampleDelta

/-- What a call returns: the code, the delta it sets, and the entries it has read. -/
structure DeltaAnswer where
  code : Mp4ErrorCode
  aTimeDelta : Option UInt32
  reads : List Nat
  deriving DecidableEq, Repr

/-- The loop `do .. while (_currGetSampleCount == 0)`. A loop that has not ended after as many turns
    as there are indices never does. -/
def Cursor.advance (f : EntryFile TimeEntry) (parsingMode : Bool) :
    Nat → Cursor → StblTable TimeEntry → List Nat →
      Option (StblTable TimeEntry × Cursor × List Nat)
  | 0, _, _, _ => none
  | fuel + 1, c, t, reads =>
    (fetch f parsingMode (c.index + 1).toNat t).bind fun t =>
      let reads := reads ++ [(c.index + 1).toNat]
      let c := c.take (t.slot (c.index + 1).toNat)
      if c.sampleCount = 0 then Cursor.advance f parsingMode fuel c t reads
      else some (t, c, reads)

/-- `GetTimeDeltaForSampleNumberGet` and `GetTimeDeltaForSampleNumberPeek`, on their cursors. -/
def Cursor.getTimeDelta (f : EntryFile TimeEntry) (parsingMode : Bool) (aSampleNumber : UInt32)
    (c : Cursor) (t : StblTable TimeEntry) : Option (StblTable TimeEntry × Cursor × DeltaAnswer) :=
  if aSampleNumber < c.sampleCount then
    some (t, c, { code := .everythingFine, aTimeDelta := some c.timeDelta, reads := [] })
  else
    (c.advance f parsingMode 4294967297 t []).map fun r =>
      if aSampleNumber < r.2.1.sampleCount then
        (r.1, r.2.1,
          { code := .everythingFine, aTimeDelta := some r.2.1.timeDelta, reads := r.2.2 })
      else (r.1, r.2.1, { code := .readFailed, aTimeDelta := none, reads := r.2.2 })

inductive CursorName where
  | get
  | peek
  deriving DecidableEq, Repr

/-- The atom with its two cursors. -/
structure DeltaReader where
  atom : TimeToSampleAtom
  get : Cursor
  peek : Cursor

namespace DeltaReader

def cursor (r : DeltaReader) : CursorName → Cursor
  | .get => r.get
  | .peek => r.peek

def setCursor (r : DeltaReader) (c : Cursor) : CursorName → DeltaReader
  | .get => { r with get := c }
  | .peek => { r with peek := c }

/-- Either function, the atom's arrays checked first. -/
def getTimeDelta (f : EntryFile TimeEntry) (name : CursorName) (aSampleNumber : UInt32)
    (r : DeltaReader) : Option (DeltaReader × DeltaAnswer) :=
  match r.atom.table with
  | none => some (r, { code := .readFailed, aTimeDelta := none, reads := [] })
  | some t =>
    ((r.cursor name).getTimeDelta f r.atom.parsingMode aSampleNumber t).map fun x =>
      ({ r with atom := { r.atom with table := some x.1 } }.setCursor x.2.1 name, x.2.2)

/-- `GetTimeDeltaForSampleNumberGet`. -/
def getTimeDeltaForSampleNumberGet (f : EntryFile TimeEntry) (aSampleNumber : UInt32)
    (r : DeltaReader) : Option (DeltaReader × DeltaAnswer) :=
  r.getTimeDelta f .get aSampleNumber

/-- `GetTimeDeltaForSampleNumberPeek`. -/
def getTimeDeltaForSampleNumberPeek (f : EntryFile TimeEntry) (aSampleNumber : UInt32)
    (r : DeltaReader) : Option (DeltaReader × DeltaAnswer) :=
  r.getTimeDelta f .peek aSampleNumber

/-- The loop of `ResetStateVariables`, `n` entries left. -/
def resetScan (f : EntryFile TimeEntry) (parsingMode : Bool) (aSampleNum : UInt32) :
    Nat → Nat → Cursor → Cursor → StblTable TimeEntry →
      Option (StblTable TimeEntry × Cursor × Cursor × Mp4ErrorCode)
  | 0, _, peek, get, t => some (t, peek, get, .defaultError)
  | n + 1, i, peek, get, t =>
    (fetch f parsingMode i t).bind fun t =>
      let peek := peek.take (t.slot i)
      let get := get.take (t.slot i)
      if aSampleNum ≤ peek.sampleCount then some (t, peek, get, .everythingFine)
      else resetScan f parsingMode aSampleNum n (i + 1) peek get t

/-- `ResetStateVariables`. -/
def resetStateVariables (f : EntryFile TimeEntry) (aSampleNum : UInt32) (r : DeltaReader) :
    Option (DeltaReader × Mp4ErrorCode) :=
  match r.atom.table with
  | none => some ({ r with get := .start, peek := .start }, .defaultError)
  | some t =>
    (resetScan f r.atom.parsingMode aSampleNum t.entryCount 0 .start .start t).map fun x =>
      ({ atom := { r.atom with table := some x.1 }, peek := x.2.1, get := x.2.2.1 }, x.2.2.2)

/-- `ResetPeekwithGet`. -/
def resetPeekwithGet (r : DeltaReader) : DeltaReader := { r with peek := r.get }

end DeltaReader

/-! ## 2. Calls in order -/

inductive DeltaCall where
  | delta (name : CursorName) (aSampleNumber : UInt32)
  | resetPeekwithGet
  deriving DecidableEq, Repr

/-- Each cursor is asked for one sample after the other; `next` is the sample it is asked for
    next. -/
def InOrder : (CursorName → Nat) → List DeltaCall → Prop
  | _, [] => True
  | next, .delta name n :: calls =>
    n.toNat = next name ∧ InOrder (update next name (next name + 1)) calls
  | next, .resetPeekwithGet :: calls => InOrder (update next .peek (next .get)) calls

/-- The answer for sample `n` that the table gives, without a look outside the table: the delta of
    the entry with this sample, and a failure where there is none. -/
def DeltaRight (f : EntryFile TimeEntry) (entryCount n : Nat) (answer : DeltaAnswer) : Prop :=
  (∀ i ∈ answer.reads, i < entryCount) ∧
    (n < totalSamples f entryCount → answer.code = .everythingFine ∧
      answer.aTimeDelta =
        (expand (sampleCounts f) (fun k => (f.entry k).sampleDelta) entryCount)[n]?) ∧
    (totalSamples f entryCount ≤ n → answer.code ≠ .everythingFine)

/-- All calls return, with the right answers. -/
def CallsRight (f : EntryFile TimeEntry) (entryCount : Nat) : DeltaReader → List DeltaCall → Prop
  | _, [] => True
  | r, .delta name n :: calls =>
    ∃ r' answer, r.getTimeDelta f name n = some (r', answer) ∧
      DeltaRight f entryCount n.toNat answer ∧ CallsRight f entryCount r' calls
  | r, .resetPeekwithGet :: calls => CallsRight f entryCount r.resetPeekwithGet calls

/-- Sample `n` in the table: its entry ends below `2^32`, and no empty entry lies in front of it,
    unless it is sample 0. -/
def GoodInside (f : EntryFile TimeEntry) (entryCount n : Nat) : Prop :=
  n < totalSamples f entryCount ∧
    (∀ i < entryCount, before (sampleCounts f) i ≤ n → n < before (sampleCounts f) (i + 1) →
      before (sampleCounts f) (i + 1) < 4294967296) ∧
    (n ≠ 0 → ∀ j < entryCount, before (sampleCounts f) j = n → sampleCounts f j ≠ 0)

/-- Number `n` behind the last sample: the last `n - total + 1` entries are empty. -/
def GoodBehind (f : EntryFile TimeEntry) (entryCount n : Nat) : Prop :=
  totalSamples f entryCount ≤ n ∧ 0 < totalSamples f entryCount ∧
    totalSamples f entryCount < 4294967296 ∧ n - totalSamples f entryCount < entryCount ∧
    before (sampleCounts f) (entryCount - 1 - (n - totalSamples f entryCount)) =
      totalSamples f entryCount

/-- A call for sample `n` after a reset to sample `s` that goes well. -/
def GoodCall (f : EntryFile TimeEntry) (entryCount s n : Nat) : Prop :=
  entryCount = 0 ∨ (s ≤ totalSamples f entryCount ∧
    (GoodInside f entryCount n ∨ GoodBehind f entryCount n))

def DeltaCall.Good (f : EntryFile TimeEntry) (entryCount s : Nat) : DeltaCall → Prop
  | .delta _ n => GoodCall f entryCount s n.toNat
  | .resetPeekwithGet => True

instance decidableInOrder (next : CursorName → Nat) (calls : List DeltaCall) :
    Decidable (InOrder next calls) :=
  match calls with
  | [] => inferInstanceAs (Decidable True)
  | .delta name _ :: calls =>
    have := decidableInOrder (update next name (next name + 1)) calls
    inferInstanceAs (Decidable (_ ∧ _))
  | .resetPeekwithGet :: calls => decidableInOrder (update next .peek (next .get)) calls

instance (f : EntryFile TimeEntry) (entryCount n : Nat) : Decidable (GoodInside f entryCount n) :=
  inferInstanceAs (Decidable (_ ∧ _))

instance (f : EntryFile TimeEntry) (entryCount n : Nat) : Decidable (GoodBehind f entryCount n) :=
  inferInstanceAs (Decidable (_ ∧ _))

instance (f : EntryFile TimeEntry) (entryCount s n : Nat) :
    Decidable (GoodCall f entryCount s n) :=
  inferInstanceAs (Decidable (_ ∨ _))

instance (f : EntryFile TimeEntry) (entryCount s : Nat) (call : DeltaCall) :
    Decidable (call.Good f entryCount s) :=
  match call with
  | .delta _ n => inferInstanceAs (Decidable (GoodCall f entryCount s n.toNat))
  | .resetPeekwithGet => inferInstanceAs (Decidable True)

/-! ## 3. Turns of the loop -/

variable {f : EntryFile TimeEntry} {entryCount : Nat} {mode : Bool} {t : StblTable TimeEntry}

section Turns

variable (hsmall : mode = true → entryCount + tableEntriesThresholdFile ≤ 4294967296)
  (hwidth : entryCount < 4294967296)

variable {c : Cursor}

include hwidth in
theorem index_succ {x : Nat} (hindex : c.index.toNat = x) (hx : x < entryCount) :
    (c.index + 1).toNat = x + 1 := by
  rw [UInt32.toNat_add, hindex]
  exact Nat.mod_eq_of_lt (by simp only [UInt32.toNat_one]; omega)

include hsmall hwidth in
theorem advance_step (h : Serves f tableEntriesThresholdFile entryCount mode t)
    {x : Nat} (hindex : c.index.toNat = x) (hx : x + 1 < entryCount) (fuel : Nat)
    (reads : List Nat) :
    ∃ t', Serves f tableEntriesThresholdFile entryCount mode t' ∧
      c.advance f mode (fuel + 1) t reads =
        if (c.take (f.entry (x + 1))).sampleCount = 0 then
          (c.take (f.entry (x + 1))).advance f mode fuel t' (reads ++ [x + 1])
        else some (t', c.take (f.entry (x + 1)), reads ++ [x + 1]) := by
  have hsucc := index_succ hwidth hindex (by omega)
  obtain ⟨t', ht', hserves, hslot, -⟩ := fetch_served h hx hsmall
  refine ⟨t', hserves, ?_⟩
  rw [Cursor.advance, hsucc, ht', bind_some, hslot]

variable {r : StblTable TimeEntry × Cursor × List Nat}

/-- The entry behind the cursor is read. -/
theorem mem_reads_of_advance {fuel : Nat} {reads : List Nat}
    (h : c.advance f mode fuel t reads = some r) :
    (∀ i ∈ reads, i ∈ r.2.2) ∧ (c.index + 1).toNat ∈ r.2.2 := by
  induction fuel generalizing c t reads with
  | zero => cases h
  | succ fuel ih =>
    unfold Cursor.advance at h
    obtain ⟨t', -, h⟩ := bind_eq_some_iff.mp h
    dsimp only at h
    have hlast : (c.index + 1).toNat ∈ reads ++ [(c.index + 1).toNat] :=
      mem_append_right _ (mem_singleton_self _)
    split at h
    · obtain ⟨hreads, -⟩ := ih h
      exact ⟨fun i hi => hreads i (mem_append_left _ hi), hreads _ hlast⟩
    · cases h
      exact ⟨fun i hi => mem_append_left _ hi, hlast⟩

include hsmall hwidth in
/-- **Over empty entries** to the first one with samples. -/
theorem advance_over_empty (h : Serves f tableEntriesThresholdFile entryCount mode t)
    {c : Cursor} {x z fuel : Nat} {reads : List Nat} (hindex : c.index.toNat = x)
    (hzero : c.sampleCount = 0) (hxz : x < z) (hz : z < entryCount)
    (hempty : ∀ j, x < j → j < z → sampleCounts f j = 0) (hcount : sampleCounts f z ≠ 0)
    (hfuel : z ≤ x + fuel) (hreads : ∀ i ∈ reads, i < entryCount) :
    ∃ t' c' reads', c.advance f mode fuel t reads = some (t', c', reads') ∧
      Serves f tableEntriesThresholdFile entryCount mode t' ∧
      (∀ i ∈ reads', i < entryCount) ∧ c'.index.toNat = z ∧
      c'.sampleCount = (f.entry z).sampleCount ∧ c'.timeDelta = (f.entry z).sampleDelta := by
  induction fuel generalizing c t x reads with
  | zero => omega
  | succ fuel ih =>
    obtain ⟨t', hserves, he⟩ := advance_step hsmall hwidth h hindex (by omega) fuel reads
    have htake : (c.take (f.entry (x + 1))).sampleCount = (f.entry (x + 1)).sampleCount := by
      show c.sampleCount + (f.entry (x + 1)).sampleCount = _
      rw [hzero, zero_add]
    have hindex' : (c.take (f.entry (x + 1))).index.toNat = x + 1 :=
      index_succ hwidth hindex (by omega)
    have hreads' : ∀ i ∈ reads ++ [x + 1], i < entryCount := by
      intro i hi
      obtain hi | hi := mem_append.mp hi
      · exact hreads i hi
      · rw [mem_singleton.mp hi]
        omega
    rw [he, htake]
    by_cases hxz' : x + 1 = z
    · subst hxz'
      rw [if_neg fun h0 => hcount (by unfold sampleCounts; rw [h0]; rfl)]
      exact ⟨t', _, _, rfl, hserves, hreads', hindex', htake, rfl⟩
    · have h0 : (f.entry (x + 1)).sampleCount = 0 :=
        toNat_inj.mp (hempty (x + 1) (Nat.lt_succ_self x) (by omega))
      rw [if_pos h0]
      exact ih hserves hindex' (by rw [htake, h0]) (by omega)
        (fun j hj hjz => hempty j (by omega) hjz) (by omega) hreads'

include hsmall hwidth in
/-- A table without samples is read to its end and beyond. -/
theorem advance_no_samples (h : Serves f tableEntriesThresholdFile entryCount mode t)
    {x fuel : Nat} {reads : List Nat} (hindex : c.index.toNat = x)
    (hzero : c.sampleCount = 0) (hx : x < entryCount)
    (hempty : ∀ j < entryCount, sampleCounts f j = 0)
    (he : c.advance f mode fuel t reads = some r) :
    entryCount ∈ r.2.2 := by
  induction fuel generalizing c t x reads with
  | zero => cases he
  | succ fuel ih =>
    by_cases hend : x + 1 < entryCount
    · obtain ⟨t', hserves, he'⟩ := advance_step hsmall hwidth h hindex hend fuel reads
      have h0 : (c.take (f.entry (x + 1))).sampleCount = 0 := by
        show c.sampleCount + (f.entry (x + 1)).sampleCount = 0
        rw [hzero, zero_add]
        exact toNat_inj.mp (hempty (x + 1) hend)
      rw [he', if_pos h0] at he
      exact ih hserves (index_succ hwidth hindex hx) h0 hend he
    · have hlast := (mem_reads_of_advance he).2
      rw [index_succ hwidth hindex hx] at hlast
      rwa [show x + 1 = entryCount by omega] at hlast

end Turns

/-! ## 4. One call -/

/-- Entry `x` is the one a cursor stands at before the call for sample `n`: the entry of the sample
    before, or the one that ends there; behind the last sample one entry further each time. -/
inductive Place (f : EntryFile TimeEntry) (entryCount : Nat) : Nat → Nat → Prop where
  | first : Place f entryCount 0 0
  | inside {x n : Nat} (hlt : before (sampleCounts f) x < n)
      (hle : n ≤ before (sampleCounts f) (x + 1)) : Place f entryCount x n
  | behind {last n : Nat} (hlast : before (sampleCounts f) last < totalSamples f entryCount)
      (hend : before (sampleCounts f) (last + 1) = totalSamples f entryCount)
      (hn : totalSamples f entryCount < n) :
      Place f entryCount (last + (n - totalSamples f entryCount)) n

/-- Where a cursor stands before the call for sample `n`, when it was reset to sample `s`: a reset
    behind the last sample leaves it at the last entry. -/
structure CursorAt (f : EntryFile TimeEntry) (entryCount s n x : Nat) (c : Cursor) : Prop where
  inTable : x < entryCount
  index : c.index.toNat = x
  sampleCount : c.sampleCount.toNat = before (sampleCounts f) (x + 1)
  timeDelta : c.timeDelta = (f.entry x).sampleDelta
  place : (s ≤ totalSamples f entryCount ∧ Place f entryCount x n) ∨
    (totalSamples f entryCount < s ∧ x + 1 = entryCount ∧ totalSamples f entryCount < n)

variable {i last : Nat} {a : UInt32}

section Step

variable {s n x : Nat} {c : Cursor}

/-- A sample in the run of entry `i` has its delta. -/
theorem expand_delta (hi : i < entryCount) (hle : before (sampleCounts f) i ≤ n)
    (hlt : n < before (sampleCounts f) (i + 1)) :
    (expand (sampleCounts f) (fun k => (f.entry k).sampleDelta) entryCount)[n]? =
      some (f.entry i).sampleDelta :=
  expand_getElem? _ _ hi hle hlt

/-- An answer with the delta of the sample's entry. -/
theorem deltaRight_of_run (hi : i < entryCount) (hle : before (sampleCounts f) i ≤ n)
    (hlt : n < before (sampleCounts f) (i + 1)) {answer : DeltaAnswer}
    (hreads : ∀ k ∈ answer.reads, k < entryCount) (hcode : answer.code = .everythingFine)
    (hdelta : answer.aTimeDelta = some (f.entry i).sampleDelta) :
    DeltaRight f entryCount n answer := by
  have hend : before (sampleCounts f) (i + 1) ≤ totalSamples f entryCount := before_le_total hi
  exact ⟨hreads, fun _ => ⟨hcode, by rw [hdelta, expand_delta hi hle hlt]⟩, fun h => by omega⟩

/-- No empty entry stands in front of a sample in the middle of a run. -/
theorem goodInside_of_middle (hx : x < entryCount) (hlt : before (sampleCounts f) x < n)
    (hend : n < before (sampleCounts f) (x + 1))
    (hfits : before (sampleCounts f) (x + 1) < 4294967296) : GoodInside f entryCount n := by
  have htotal : before (sampleCounts f) (x + 1) ≤ totalSamples f entryCount := before_le_total hx
  refine ⟨by omega, fun i hi hle hlt' => ?_, fun _ j hj hbefore hzero => ?_⟩
  · rw [run_unique _ hle hlt' (Nat.le_of_lt hlt) hend]
    exact hfits
  · rcases Nat.lt_or_ge x j with hxj | hjx
    · have hmono : before (sampleCounts f) (x + 1) ≤ before (sampleCounts f) j := before_mono _ hxj
      omega
    · have hmono : before (sampleCounts f) j ≤ before (sampleCounts f) x := before_mono _ hjx
      omega

/-- The first sample of a run behind a run that is not empty. -/
theorem goodInside_of_next (hx : x + 1 < entryCount) (hlt : before (sampleCounts f) x < n)
    (hn : n = before (sampleCounts f) (x + 1)) (hcount : sampleCounts f (x + 1) ≠ 0)
    (htotal : totalSamples f entryCount < 4294967296) : GoodInside f entryCount n := by
  have hsucc := before_succ (sampleCounts f) (x + 1)
  have hend : before (sampleCounts f) (x + 1 + 1) ≤ totalSamples f entryCount := before_le_total hx
  refine ⟨by omega, fun i hi _ _ => ?_, fun _ j hj hbefore hzero => ?_⟩
  · exact Nat.lt_of_le_of_lt (before_le_total hi) htotal
  · rcases Nat.lt_trichotomy j (x + 1) with hjx | rfl | hxj
    · have hmono : before (sampleCounts f) j ≤ before (sampleCounts f) x :=
        before_mono _ (Nat.le_of_lt_succ hjx)
      omega
    · exact hcount hzero
    · have hmono : before (sampleCounts f) (x + 1 + 1) ≤ before (sampleCounts f) j :=
        before_mono _ hxj
      omega

section

variable (hlast : before (sampleCounts f) last < totalSamples f entryCount)
include hlast

/-- Numbers behind the last sample while empty entries are left. -/
theorem goodBehind_of_last
    (hend : before (sampleCounts f) (last + 1) = totalSamples f entryCount)
    (htotal : totalSamples f entryCount < 4294967296) (hn : totalSamples f entryCount ≤ n)
    (hleft : last + (n - totalSamples f entryCount) + 1 < entryCount) :
    GoodBehind f entryCount n := by
  refine ⟨hn, by omega, htotal, by omega, Nat.le_antisymm (before_le_total (by omega)) ?_⟩
  rw [← hend]
  exact before_mono _ (by omega)

theorem left_of_goodBehind
    (h : GoodBehind f entryCount n) :
    last + (n - totalSamples f entryCount) + 1 < entryCount := by
  obtain ⟨-, -, -, hleft, hempty⟩ := h
  rcases Nat.lt_or_ge last (entryCount - 1 - (n - totalSamples f entryCount)) with hlt | hge
  · omega
  · have hmono : before (sampleCounts f) (entryCount - 1 - (n - totalSamples f entryCount)) ≤
        before (sampleCounts f) last := before_mono _ hge
    omega

end

/-- Behind the last run there are only empty entries. -/
theorem before_of_end
    (hend : before (sampleCounts f) (last + 1) = totalSamples f entryCount)
    (hi : last < i) (hie : i ≤ entryCount) :
    before (sampleCounts f) i = totalSamples f entryCount := by
  refine Nat.le_antisymm (before_le_total hie) ?_
  rw [← hend]
  exact before_mono _ hi

/-- The entry of a cursor that has a sample before it, or is the first. -/
theorem Place.before_le (h : Place f entryCount x n) (hhere : n < before (sampleCounts f) (x + 1))
    (hx : x < entryCount) : before (sampleCounts f) x ≤ n := by
  cases h with
  | first => exact Nat.le_refl 0
  | inside hlt _ => exact Nat.le_of_lt hlt
  | behind _ _ hn =>
    have hle : before (sampleCounts f) (_ + 1) ≤ totalSamples f entryCount := before_le_total hx
    omega

/-- A call for a sample in the cursor's entry. -/
theorem getTimeDelta_here (h : a < c.sampleCount) :
    c.getTimeDelta f mode a t = some (t, c,
      { code := .everythingFine, aTimeDelta := some c.timeDelta, reads := [] }) := by
  unfold Cursor.getTimeDelta
  rw [if_pos h]

variable (hsmall : mode = true → entryCount + tableEntriesThresholdFile ≤ 4294967296)
  (hwidth : entryCount < 4294967296)

include hsmall hwidth in
/-- **A call that moves the cursor on by one entry.** -/
theorem getTimeDelta_next (h : Serves f tableEntriesThresholdFile entryCount mode t)
    (hindex : c.index.toNat = x) (hx : x + 1 < entryCount)
    (hcount : c.sampleCount.toNat = before (sampleCounts f) (x + 1))
    (hpos : 0 < before (sampleCounts f) (x + 1))
    (hfits : before (sampleCounts f) (x + 1 + 1) < 4294967296)
    (hge : c.sampleCount.toNat ≤ a.toNat) :
    ∃ t' c', Serves f tableEntriesThresholdFile entryCount mode t' ∧
      c'.index.toNat = x + 1 ∧
      c'.sampleCount.toNat = before (sampleCounts f) (x + 1 + 1) ∧
      c'.timeDelta = (f.entry (x + 1)).sampleDelta ∧
      c.getTimeDelta f mode a t = some (t', c',
        if a.toNat < before (sampleCounts f) (x + 1 + 1) then
          { code := .everythingFine, aTimeDelta := some (f.entry (x + 1)).sampleDelta,
            reads := [x + 1] }
        else { code := .readFailed, aTimeDelta := none, reads := [x + 1] }) := by
  obtain ⟨t', hserves, he⟩ := advance_step hsmall hwidth h hindex hx 4294967296 []
  have hsucc := before_succ (sampleCounts f) (x + 1)
  have hcount' : (c.take (f.entry (x + 1))).sampleCount.toNat =
      before (sampleCounts f) (x + 1 + 1) := by
    show (c.sampleCount + (f.entry (x + 1)).sampleCount).toNat = _
    rw [UInt32.toNat_add, hcount]
    exact Nat.mod_eq_of_lt hfits
  have hne : (c.take (f.entry (x + 1))).sampleCount ≠ 0 := fun h0 => by
    rw [h0, UInt32.toNat_zero] at hcount'
    omega
  rw [if_neg hne] at he
  refine ⟨t', c.take (f.entry (x + 1)), hserves, index_succ hwidth hindex (by omega), hcount', rfl,
    ?_⟩
  have hno : ¬ a < c.sampleCount := fun hlt => by
    have hlt' := lt_iff_toNat_lt.mp hlt
    omega
  unfold Cursor.getTimeDelta
  rw [if_neg hno, show (4294967297 : Nat) = 4294967296 + 1 from rfl, he, map_some]
  by_cases hlt : a.toNat < before (sampleCounts f) (x + 1 + 1)
  · have hlt' : a < (c.take (f.entry (x + 1))).sampleCount :=
      lt_iff_toNat_lt.mpr (by rw [hcount']; exact hlt)
    rw [if_pos hlt, if_pos hlt']
    rfl
  · have hlt' : ¬ a < (c.take (f.entry (x + 1))).sampleCount := fun hlt' =>
      hlt (by rw [← hcount']; exact lt_iff_toNat_lt.mp hlt')
    rw [if_neg hlt, if_neg hlt']
    rfl

variable {r : StblTable TimeEntry × Cursor × DeltaAnswer}

/-- A call whose sample is not in the cursor's entry reads the next. -/
theorem mem_reads_of_getTimeDelta (hge : c.sampleCount.toNat ≤ a.toNat)
    (he : c.getTimeDelta f mode a t = some r) :
    ∃ r', c.advance f mode 4294967297 t [] = some r' ∧ r.2.2.reads = r'.2.2 := by
  have hno : ¬ a < c.sampleCount := fun hlt => by
    have hlt' := lt_iff_toNat_lt.mp hlt
    omega
  unfold Cursor.getTimeDelta at he
  rw [if_neg hno] at he
  obtain ⟨r', hr', he⟩ := map_eq_some_iff.mp he
  refine ⟨r', hr', ?_⟩
  split at he <;> · cases he; rfl

include hsmall hwidth in
/-- The first sample of the table, from an entry before it. -/
theorem getTimeDelta_first (h : Serves f tableEntriesThresholdFile entryCount mode t)
    (hindex : c.index.toNat = 0) (hcount : c.sampleCount.toNat = 0)
    (hempty : before (sampleCounts f) 1 = 0) (htotal : 0 < totalSamples f entryCount)
    (ha : a.toNat = 0) :
    ∃ t' c' z answer, c.getTimeDelta f mode a t = some (t', c', answer) ∧
      Serves f tableEntriesThresholdFile entryCount mode t' ∧
      DeltaRight f entryCount 0 answer ∧ z < entryCount ∧ c'.index.toNat = z ∧
      c'.sampleCount.toNat = before (sampleCounts f) (z + 1) ∧
      c'.timeDelta = (f.entry z).sampleDelta ∧ before (sampleCounts f) z = 0 ∧
      0 < before (sampleCounts f) (z + 1) := by
  obtain ⟨z, hz, hle, hlt⟩ := exists_run (sampleCounts f) htotal
  have hz0 : 0 < z := Nat.pos_of_ne_zero fun h0 => by
    rw [h0, Nat.zero_add, hempty] at hlt
    exact Nat.lt_irrefl 0 hlt
  have hsucc := before_succ (sampleCounts f) z
  have hzero : c.sampleCount = 0 := toNat_inj.mp hcount
  obtain ⟨t', c', reads, he, hserves, hreads, hindex', hcount', hdelta⟩ :=
    @advance_over_empty f entryCount mode t hsmall hwidth h c 0 z 4294967297 [] hindex hzero hz0 hz
      (fun j hj hjz => by
        have hmono : before (sampleCounts f) (j + 1) ≤ before (sampleCounts f) z :=
          before_mono _ hjz
        rw [before_succ] at hmono
        omega) (by omega) (by omega) (fun i hi => absurd hi not_mem_nil)
  have hcountNat : c'.sampleCount.toNat = before (sampleCounts f) (z + 1) := by
    rw [hcount', hsucc, Nat.le_zero.mp hle, Nat.zero_add]
    rfl
  have hno : ¬ a < c.sampleCount := fun hlt => by
    rw [hzero] at hlt
    exact UInt32.not_lt_zero hlt
  have hin : a < c'.sampleCount := lt_iff_toNat_lt.mpr (by rw [ha, hcountNat]; exact hlt)
  refine ⟨t', c', z,
    { code := .everythingFine, aTimeDelta := some c'.timeDelta, reads := reads }, ?_, hserves,
    deltaRight_of_run hz hle hlt hreads rfl (by rw [hdelta]), hz, hindex', hcountNat, hdelta,
    Nat.le_zero.mp hle, hlt⟩
  unfold Cursor.getTimeDelta
  rw [if_neg hno, he, map_some, if_pos hin]

include hsmall hwidth in
/-- **A good call** is answered right and leaves the cursor in its place. -/
theorem getTimeDelta_good (h : Serves f tableEntriesThresholdFile entryCount mode t)
    (hc : CursorAt f entryCount s n x c) (hs : s ≤ totalSamples f entryCount)
    (hgood : GoodInside f entryCount n ∨ GoodBehind f entryCount n)
    (ha : a.toNat = n) :
    ∃ t' c' x' answer, c.getTimeDelta f mode a t = some (t', c', answer) ∧
      Serves f tableEntriesThresholdFile entryCount mode t' ∧
      DeltaRight f entryCount n answer ∧ CursorAt f entryCount s (n + 1) x' c' := by
  have hplace : Place f entryCount x n := by
    obtain ⟨-, hplace⟩ | ⟨hlt, -⟩ := hc.place
    · exact hplace
    · exact absurd hlt (Nat.not_lt_of_le hs)
  have hle := @before_le_total f entryCount (x + 1) hc.inTable
  by_cases hhere : n < before (sampleCounts f) (x + 1)
  · have hlt : a < c.sampleCount :=
      lt_iff_toNat_lt.mpr (by rw [ha, hc.sampleCount]; exact hhere)
    have hbefore := hplace.before_le hhere hc.inTable
    refine ⟨t, c, x, _, getTimeDelta_here hlt, h, ?_, hc.inTable, hc.index, hc.sampleCount,
      hc.timeDelta, inl ⟨hs, .inside (Nat.lt_succ_of_le hbefore) hhere⟩⟩
    exact deltaRight_of_run hc.inTable hbefore hhere (fun i hi => absurd hi not_mem_nil) rfl
      (by rw [hc.timeDelta])
  -- behind the last sample, one entry further
  have hbehind : ∀ last, x = last + (n - totalSamples f entryCount) →
      before (sampleCounts f) last < totalSamples f entryCount →
      before (sampleCounts f) (last + 1) = totalSamples f entryCount →
      GoodBehind f entryCount n →
      ∃ t' c' x' answer, c.getTimeDelta f mode a t = some (t', c', answer) ∧
        Serves f tableEntriesThresholdFile entryCount mode t' ∧
        DeltaRight f entryCount n answer ∧ CursorAt f entryCount s (n + 1) x' c' := by
    intro last hx hlast hend hgood
    have hleft := left_of_goodBehind hlast hgood
    obtain ⟨hn, hpos, hfits, -, -⟩ := hgood
    have hx' : x + 1 < entryCount := by omega
    have hcur := before_of_end hend (show last < x + 1 by omega) (Nat.le_of_lt hx')
    have hnext := before_of_end hend (show last < x + 1 + 1 by omega) hx'
    obtain ⟨t', c', hserves, hindex, hcount, hdelta, he⟩ := getTimeDelta_next hsmall hwidth h
      hc.index hx' hc.sampleCount (by omega) (by omega)
      (show c.sampleCount.toNat ≤ a.toNat by rw [hc.sampleCount, ha]; omega)
    have hno : ¬ a.toNat < before (sampleCounts f) (x + 1 + 1) := by
      rw [hnext, ha]
      omega
    rw [if_neg hno] at he
    have hplace' : Place f entryCount (x + 1) (n + 1) := by
      have hpast := @Place.behind f entryCount last (n + 1) hlast hend (by omega)
      rwa [show last + (n + 1 - totalSamples f entryCount) = x + 1 by omega] at hpast
    refine ⟨t', c', x + 1, _, he, hserves, ⟨?_, fun hlt => by omega, fun _ hcode => by cases hcode⟩,
      hx', hindex, hcount, hdelta, inl ⟨hs, hplace'⟩⟩
    intro i hi
    rw [mem_singleton.mp hi]
    exact hx'
  cases hplace with
  | first =>
    have hempty : before (sampleCounts f) (0 + 1) = 0 := by omega
    have htotal : 0 < totalSamples f entryCount := by
      obtain hin | hbehind := hgood
      · exact hin.1
      · exact hbehind.2.1
    obtain ⟨t', c', z, answer, he, hserves, hright, hz, hindex, hcount, hdelta, hz0, hzend⟩ :=
      getTimeDelta_first hsmall hwidth h hc.index (by rw [hc.sampleCount, hempty]) hempty htotal
        ha
    exact ⟨t', c', z, answer, he, hserves, hright, hz, hindex, hcount, hdelta,
      inl ⟨hs, .inside (by omega) (by omega)⟩⟩
  | behind hlast hend hn =>
    refine hbehind _ rfl hlast hend ?_
    obtain hin | hbehind := hgood
    · exact absurd hin.1 (by omega)
    · exact hbehind
  | inside hlt hle' =>
    have hn : n = before (sampleCounts f) (x + 1) := by omega
    obtain ⟨htotal, hfits, hcount⟩ | hgood := hgood
    · have hx' : x + 1 < entryCount := by
        refine Nat.lt_of_le_of_ne hc.inTable fun heq => ?_
        rw [hn, show x + 1 = entryCount from heq] at htotal
        exact Nat.lt_irrefl _ htotal
      have hsucc := before_succ (sampleCounts f) (x + 1)
      have hne := hcount (by omega) (x + 1) hx' hn.symm
      have hbound := hfits (x + 1) hx' (Nat.le_of_eq hn.symm) (by omega)
      obtain ⟨t', c', hserves, hindex, hcount', hdelta, he⟩ := getTimeDelta_next hsmall hwidth h
        hc.index hx' hc.sampleCount (by omega) hbound
        (show c.sampleCount.toNat ≤ a.toNat by rw [hc.sampleCount, ha]; omega)
      have hin : n < before (sampleCounts f) (x + 1 + 1) := by omega
      rw [if_pos (by rw [ha]; exact hin)] at he
      refine ⟨t', c', x + 1, _, he, hserves, ?_, hx', hindex, hcount', hdelta,
        inl ⟨hs, .inside (by omega) hin⟩⟩
      refine deltaRight_of_run hx' (Nat.le_of_eq hn.symm) hin (fun i hi => ?_) rfl rfl
      rw [mem_singleton.mp hi]
      exact hx'
    · have hn' : n = totalSamples f entryCount := Nat.le_antisymm (by omega) hgood.1
      exact hbehind x (by omega) (by omega) (by omega) hgood

include hsmall hwidth in
/-- **Only a good call** is answered right, in a table of less than `2^32` samples. -/
theorem good_of_deltaRight (h : Serves f tableEntriesThresholdFile entryCount mode t)
    (hc : CursorAt f entryCount s n x c) (htotal : totalSamples f entryCount < 4294967296)
    (ha : a.toNat = n)
    (he : c.getTimeDelta f mode a t = some r) (hright : DeltaRight f entryCount n r.2.2) :
    s ≤ totalSamples f entryCount ∧ (GoodInside f entryCount n ∨ GoodBehind f entryCount n) := by
  have hle := @before_le_total f entryCount (x + 1) hc.inTable
  by_cases hhere : n < before (sampleCounts f) (x + 1)
  · obtain ⟨hs, hplace⟩ | ⟨-, -, hn⟩ := hc.place
    · refine ⟨hs, inl ?_⟩
      have hfits : before (sampleCounts f) (x + 1) < 4294967296 := by omega
      cases hplace with
      | first =>
        exact ⟨by omega, fun i hi _ _ => Nat.lt_of_le_of_lt (before_le_total hi) htotal,
          fun h0 => absurd rfl h0⟩
      | inside hlt _ => exact goodInside_of_middle hc.inTable hlt hhere hfits
      | behind _ _ hn => omega
    · omega
  -- the next entry is read, so there is one
  have hge : c.sampleCount.toNat ≤ a.toNat := by
    rw [hc.sampleCount, ha]
    omega
  obtain ⟨r', hadvance, hreads⟩ := mem_reads_of_getTimeDelta hge he
  have hmem := (mem_reads_of_advance hadvance).2
  rw [index_succ hwidth hc.index hc.inTable, ← hreads] at hmem
  have hx' : x + 1 < entryCount := hright.1 _ hmem
  obtain ⟨hs, hplace⟩ | ⟨-, hx, -⟩ := hc.place
  · refine ⟨hs, ?_⟩
    cases hplace with
    | first =>
      have hempty : before (sampleCounts f) (0 + 1) = 0 := by omega
      by_cases hzero : totalSamples f entryCount = 0
      · -- no entry has a sample
        have hnone : ∀ j < entryCount, sampleCounts f j = 0 := by
          intro j hj
          have hend := @before_add_le_total f entryCount j hj
          omega
        have hall := advance_no_samples hsmall hwidth h hc.index
          (toNat_inj.mp (by rw [hc.sampleCount, hempty]; rfl)) hc.inTable hnone hadvance
        rw [← hreads] at hall
        exact absurd (hright.1 _ hall) (Nat.lt_irrefl _)
      · exact inl ⟨Nat.pos_of_ne_zero hzero,
          fun i hi _ _ => Nat.lt_of_le_of_lt (before_le_total hi) htotal,
          fun h0 => absurd rfl h0⟩
    | behind hlast hend hn =>
      exact inr (goodBehind_of_last hlast hend htotal (Nat.le_of_lt hn) hx')
    | inside hlt hle' =>
      have hn : n = before (sampleCounts f) (x + 1) := by omega
      by_cases hcount : sampleCounts f (x + 1) = 0
      · have hsucc := before_succ (sampleCounts f) (x + 1)
        obtain ⟨t', c', -, -, -, -, he'⟩ := getTimeDelta_next hsmall hwidth h hc.index hx'
          hc.sampleCount (by omega) (by omega) hge
        rw [if_neg (by rw [ha]; omega)] at he'
        rw [he'] at he
        cases he
        have hbehind : totalSamples f entryCount ≤ n := by
          rcases Nat.lt_or_ge n (totalSamples f entryCount) with hin | hbehind
          · exact absurd (hright.2.1 hin).1 (fun hcode => by cases hcode)
          · exact hbehind
        have hlast : before (sampleCounts f) x < totalSamples f entryCount := by omega
        exact inr (goodBehind_of_last hlast (by omega) htotal hbehind (by omega))
      · exact inl (goodInside_of_next hx' hlt hn hcount htotal)
  · omega

end Step

/-! ## 5. The reset -/

section Reset

variable (hsmall : mode = true → entryCount + tableEntriesThresholdFile ≤ 4294967296)
  (hwidth : entryCount < 4294967296)

include hsmall in
/-- The reset comes back, with both cursors in one place. -/
theorem resetScan_returns (h : Serves f tableEntriesThresholdFile entryCount mode t)
    (s : UInt32) {n : Nat} (c : Cursor) (hn : i + n = entryCount) :
    ∃ t' c' code, DeltaReader.resetScan f mode s n i c c t = some (t', c', c', code) ∧
      Serves f tableEntriesThresholdFile entryCount mode t' := by
  induction n generalizing i c t with
  | zero => exact ⟨t, c, .defaultError, rfl, h⟩
  | succ n ih =>
    obtain ⟨t', ht', hserves, -, -⟩ := fetch_served h (show i < entryCount by omega) hsmall
    rw [DeltaReader.resetScan, ht', bind_some]
    dsimp only
    split
    · exact ⟨t', _, _, rfl, hserves⟩
    · exact ih hserves _ (by omega)

include hsmall hwidth in
/-- **Where the reset leaves a cursor**: at the first entry whose end reaches the sample. -/
theorem resetScan_at (h : Serves f tableEntriesThresholdFile entryCount mode t)
    {s : UInt32} (hfits : ∀ k < entryCount, before (sampleCounts f) k < s.toNat →
      before (sampleCounts f) (k + 1) < 4294967296) {n : Nat} {c get : Cursor}
    (hn : i + n = entryCount) (hpos : 0 < entryCount) (hindex : (c.index + 1).toNat = i)
    (hcount : c.sampleCount.toNat = before (sampleCounts f) i)
    (hpassed : 0 < i → before (sampleCounts f) i < s.toNat)
    (hlast : ∀ x, i = x + 1 → c.index.toNat = x ∧ c.timeDelta = (f.entry x).sampleDelta)
    {r : StblTable TimeEntry × Cursor × Cursor × Mp4ErrorCode}
    (he : DeltaReader.resetScan f mode s n i c get t = some r) :
    ∃ x, CursorAt f entryCount s.toNat s.toNat x r.2.1 := by
  induction n generalizing i c get t with
  | zero =>
    cases he
    obtain ⟨x, rfl⟩ : ∃ x, i = x + 1 := ⟨i - 1, by omega⟩
    obtain ⟨hx, hdelta⟩ := hlast x rfl
    have hend : before (sampleCounts f) (x + 1) = totalSamples f entryCount := by
      rw [← hn]
      rfl
    have hlt := hpassed (Nat.succ_pos x)
    rw [hend] at hlt
    exact ⟨x, by omega, hx, hcount, hdelta, inr ⟨hlt, hn, hlt⟩⟩
  | succ n ih =>
    have hi : i < entryCount := by omega
    obtain ⟨t', ht', hserves, hslot, -⟩ := fetch_served h hi hsmall
    have hend := @before_le_total f entryCount (i + 1) hi
    have hsum : before (sampleCounts f) (i + 1) < 4294967296 := by
      by_cases h0 : 0 < i
      · exact hfits i hi (hpassed h0)
      · rw [Nat.le_zero.mp (Nat.le_of_not_lt h0), before_succ, before_zero, Nat.zero_add]
        exact sampleCounts_lt 0
    have hcount' : (c.take (f.entry i)).sampleCount.toNat = before (sampleCounts f) (i + 1) := by
      show (c.sampleCount + (f.entry i).sampleCount).toNat = _
      rw [UInt32.toNat_add, hcount]
      exact Nat.mod_eq_of_lt hsum
    have hindex' : (c.take (f.entry i)).index.toNat = i := hindex
    rw [DeltaReader.resetScan, ht', bind_some, hslot] at he
    dsimp only at he
    by_cases hstop : s ≤ (c.take (f.entry i)).sampleCount
    · rw [if_pos hstop] at he
      cases he
      have hstop' := UInt32.le_iff_toNat_le.mp hstop
      rw [hcount'] at hstop'
      refine ⟨i, hi, hindex', hcount', rfl, inl ⟨by omega, ?_⟩⟩
      by_cases h0 : s.toNat = 0
      · have hi0 : i = 0 := by
          refine Nat.le_zero.mp (Nat.le_of_not_lt fun hpos => ?_)
          have hlt := hpassed hpos
          omega
        rw [h0, hi0]
        exact .first
      · refine .inside ?_ hstop'
        by_cases hpos : 0 < i
        · exact hpassed hpos
        · rw [Nat.le_zero.mp (Nat.le_of_not_lt hpos), before_zero]
          exact Nat.pos_of_ne_zero h0
    · rw [if_neg hstop] at he
      have hgo := lt_iff_toNat_lt.mp (UInt32.not_le.mp hstop)
      rw [hcount'] at hgo
      refine ih hserves (by omega) ?_ hcount' (fun _ => hgo) (fun x hx => ?_) he
      · exact index_succ hwidth hindex' hi
      · obtain rfl : i = x := by omega
        exact ⟨hindex', rfl⟩

end Reset

variable {s : Nat}

/-- A good first call has entries that end below `2^32` up to the sample. -/
theorem fits_of_good (hgood : GoodInside f entryCount s ∨ GoodBehind f entryCount s) :
    ∀ k < entryCount, before (sampleCounts f) k < s →
      before (sampleCounts f) (k + 1) < 4294967296 := by
  intro k hk hlt
  have hend := @before_le_total f entryCount (k + 1) hk
  obtain ⟨htotal, hfits, -⟩ | ⟨-, -, htotal, -, -⟩ := hgood
  · obtain ⟨y, hy, hle, hlt'⟩ := exists_run (sampleCounts f) htotal
    have hky : k < y + 1 := by
      refine Nat.lt_of_not_le fun hge => ?_
      have hmono : before (sampleCounts f) (y + 1) ≤ before (sampleCounts f) k :=
        before_mono _ hge
      omega
    have hmono : before (sampleCounts f) (k + 1) ≤ before (sampleCounts f) (y + 1) :=
      before_mono _ hky
    have hbound := hfits y hy hle hlt'
    omega
  · omega

/-! ## 6. Runs -/

/-- Between two calls: the table is served, and each cursor is in its place. -/
structure ReaderAt (f : EntryFile TimeEntry) (entryCount s : Nat) (next : CursorName → Nat)
    (r : DeltaReader) : Prop where
  table : ∃ t, r.atom.table = some t ∧
    Serves f tableEntriesThresholdFile entryCount r.atom.parsingMode t
  small : r.atom.parsingMode = true → entryCount + tableEntriesThresholdFile ≤ 4294967296
  cursors : ∀ name, ∃ x, CursorAt f entryCount s (next name) x (r.cursor name)

variable {next : CursorName → Nat} {r : DeltaReader}

theorem ReaderAt.moved {s n : Nat}
    (h : ReaderAt f entryCount s next r)
    (ht : Serves f tableEntriesThresholdFile entryCount r.atom.parsingMode t)
    {c : Cursor} {x : Nat} (hc : CursorAt f entryCount s n x c) (name : CursorName) :
    ReaderAt f entryCount s (update next name n)
      ({ r with atom := { r.atom with table := some t } }.setCursor c name) := by
  cases name with
  | get =>
    refine ⟨⟨t, rfl, ht⟩, h.small, fun name => ?_⟩
    cases name with
    | get => exact ⟨x, hc⟩
    | peek => exact h.cursors .peek
  | peek =>
    refine ⟨⟨t, rfl, ht⟩, h.small, fun name => ?_⟩
    cases name with
    | get => exact h.cursors .get
    | peek => exact ⟨x, hc⟩

/-- `ResetPeekwithGet` puts the one cursor where the other is. -/
theorem ReaderAt.resetPeekwithGet
    (h : ReaderAt f entryCount s next r) :
    ReaderAt f entryCount s (update next .peek (next .get)) r.resetPeekwithGet := by
  refine ⟨h.table, h.small, fun name => ?_⟩
  cases name with
  | get => exact h.cursors .get
  | peek => exact h.cursors .get

/-- What a call of the reader makes of the call of its cursor. -/
theorem getTimeDelta_reader (ht : r.atom.table = some t) (name : CursorName)
    (a : UInt32) :
    r.getTimeDelta f name a = ((r.cursor name).getTimeDelta f r.atom.parsingMode a t).map fun x =>
      ({ r with atom := { r.atom with table := some x.1 } }.setCursor x.2.1 name, x.2.2) := by
  unfold DeltaReader.getTimeDelta
  rw [ht]

variable {calls : List DeltaCall}

/-- **A run of good calls.** -/
theorem callsRight_of_good (hwidth : entryCount < 4294967296) (hpos : 0 < entryCount)
        (h : ReaderAt f entryCount s next r) (horder : InOrder next calls)
    (hgood : ∀ call ∈ calls, call.Good f entryCount s) : CallsRight f entryCount r calls := by
  induction calls generalizing next r with
  | nil => exact trivial
  | cons call calls ih =>
    have hrest : ∀ call ∈ calls, call.Good f entryCount s := fun call hcall =>
      hgood call (mem_cons_of_mem _ hcall)
    cases call with
    | resetPeekwithGet => exact ih h.resetPeekwithGet horder hrest
    | delta name a =>
      obtain ⟨ha, horder⟩ := horder
      obtain ⟨t, ht, hserves⟩ := h.table
      obtain ⟨x, hc⟩ := h.cursors name
      obtain hzero | ⟨hs, hcall⟩ := hgood _ mem_cons_self
      · omega
      rw [ha] at hcall
      obtain ⟨t', c', x', answer, he, hserves', hright, hc'⟩ :=
        getTimeDelta_good h.small hwidth hserves hc hs hcall ha
      refine ⟨_, answer, ?_, by rw [ha]; exact hright, ih (h.moved hserves' hc' name) horder hrest⟩
      rw [getTimeDelta_reader ht, he]
      rfl

/-- **A run with right answers** has good calls. -/
theorem good_of_callsRight (hwidth : entryCount < 4294967296)
    (htotal : totalSamples f entryCount < 4294967296)
    (h : ReaderAt f entryCount s next r)
    (horder : InOrder next calls) (hright : CallsRight f entryCount r calls) :
    ∀ call ∈ calls, call.Good f entryCount s := by
  induction calls generalizing next r with
  | nil => exact fun call hcall => absurd hcall not_mem_nil
  | cons call calls ih =>
    cases call with
    | resetPeekwithGet =>
      intro call hcall
      obtain rfl | hcall := mem_cons.mp hcall
      · exact trivial
      · exact ih h.resetPeekwithGet horder hright call hcall
    | delta name a =>
      obtain ⟨ha, horder⟩ := horder
      obtain ⟨r', answer, he, hanswer, hright⟩ := hright
      obtain ⟨t, ht, hserves⟩ := h.table
      obtain ⟨x, hc⟩ := h.cursors name
      rw [getTimeDelta_reader ht] at he
      obtain ⟨res, hres, hr'⟩ := map_eq_some_iff.mp he
      cases hr'
      rw [ha] at hanswer
      obtain ⟨hs, hcall⟩ := good_of_deltaRight h.small hwidth hserves hc htotal ha hres hanswer
      obtain ⟨t', c', x', answer, he', hserves', -, hc'⟩ :=
        getTimeDelta_good h.small hwidth hserves hc hs hcall ha
      rw [he'] at hres
      cases hres
      intro call hmem
      obtain rfl | hmem := mem_cons.mp hmem
      · show GoodCall f entryCount s a.toNat
        rw [ha]
        exact inr ⟨hs, hcall⟩
      · exact ih (h.moved hserves' hc' name) horder hright call hmem

/-- Where nothing is asked, nothing goes wrong. -/
theorem callsRight_of_no_delta
    (hnone : ∀ name n, DeltaCall.delta name n ∉ calls) (r : DeltaReader) :
    CallsRight f entryCount r calls := by
  induction calls generalizing r with
  | nil => exact trivial
  | cons call calls ih =>
    cases call with
    | resetPeekwithGet =>
      exact ih (fun name n hmem => hnone name n (mem_cons_of_mem _ hmem)) _
    | delta name n => exact absurd mem_cons_self (hnone name n)

/-- The first sample asked for is the one of the reset. -/
theorem first_call (horder : InOrder (fun _ => s) calls)
    {name : CursorName} {n : UInt32} (hmem : DeltaCall.delta name n ∈ calls) :
    ∃ name n, DeltaCall.delta name n ∈ calls ∧ n.toNat = s := by
  induction calls with
  | nil => exact absurd hmem not_mem_nil
  | cons call calls ih =>
    cases call with
    | delta name' n' => exact ⟨name', n', mem_cons_self, horder.1⟩
    | resetPeekwithGet =>
      have hsame : update (fun _ : CursorName => s) .peek s = fun _ => s :=
        Function.update_eq_self _ _
      have horder' : InOrder (update (fun _ => s) .peek s) calls := horder
      rw [hsame] at horder'
      obtain heq | hmem := mem_cons.mp hmem
      · cases heq
      · obtain ⟨name', n', hmem', hn'⟩ := ih horder' hmem
        exact ⟨name', n', mem_cons_of_mem _ hmem', hn'⟩

/-- An atom without a table fails for every sample. -/
theorem callsRight_of_none (hnone : r.atom.table = none) :
    CallsRight f 0 r calls := by
  induction calls generalizing r with
  | nil => exact trivial
  | cons call calls ih =>
    cases call with
    | resetPeekwithGet => exact ih hnone
    | delta name n =>
      refine ⟨r, { code := .readFailed, aTimeDelta := none, reads := [] }, ?_, ?_, ih hnone⟩
      · unfold DeltaReader.getTimeDelta
        rw [hnone]
      · exact ⟨fun i hi => absurd hi not_mem_nil, fun hlt => absurd hlt (Nat.not_lt_zero _),
          fun _ hcode => by cases hcode⟩

/-- **The deltas after a reset**: calls in order, with either cursor and `ResetPeekwithGet` between
    them, are all answered from the table where each of them is good; in a table of less than `2^32`
    samples only there. -/
theorem delta_calls_right {f : EntryFile TimeEntry} {entryCount : UInt32} {r : DeltaReader}
    (hholds : Holds f entryCount.toNat r.atom) (s : UInt32) {calls : List DeltaCall}
    (horder : InOrder (fun _ => s.toNat) calls) :
    ∃ r' code, r.resetStateVariables f s = some (r', code) ∧
      ((∀ call ∈ calls, call.Good f entryCount.toNat s.toNat) →
        CallsRight f entryCount.toNat r' calls) ∧
      (totalSamples f entryCount.toNat < 4294967296 →
        CallsRight f entryCount.toNat r' calls →
        ∀ call ∈ calls, call.Good f entryCount.toNat s.toNat) := by
  obtain ⟨hzero, hnone⟩ | ⟨hpos, t, ht, hserves, hsmall⟩ := hholds
  · refine ⟨{ r with get := .start, peek := .start }, .defaultError, ?_, fun _ => ?_,
      fun _ _ call _ => ?_⟩
    · unfold DeltaReader.resetStateVariables
      rw [hnone]
    · rw [hzero]
      exact callsRight_of_none hnone
    · cases call with
      | delta name n => exact inl hzero
      | resetPeekwithGet => exact trivial
  have hwidth := entryCount.toNat_lt
  obtain ⟨t', c, code, he, hserves'⟩ := resetScan_returns hsmall hserves s .start
    (Nat.zero_add entryCount.toNat)
  -- where the first call does not wrap, the cursors are in their places
  have hat : (∀ k < entryCount.toNat, before (sampleCounts f) k < s.toNat →
        before (sampleCounts f) (k + 1) < 4294967296) →
      ReaderAt f entryCount.toNat s.toNat (fun _ => s.toNat)
        { atom := { r.atom with table := some t' }, peek := c, get := c } := by
    intro hfits
    obtain ⟨x, hx⟩ := resetScan_at hsmall hwidth hserves hfits (Nat.zero_add entryCount.toNat) hpos
      (c := .start) rfl rfl (fun h0 => absurd h0 (Nat.lt_irrefl 0))
      (fun x hx => absurd hx (Nat.succ_ne_zero x).symm) he
    refine ⟨⟨t', rfl, hserves'⟩, hsmall, fun name => ⟨x, ?_⟩⟩
    cases name with
    | get => exact hx
    | peek => exact hx
  refine ⟨{ atom := { r.atom with table := some t' }, peek := c, get := c }, code, ?_,
    fun hgood => ?_, fun htotal hright => ?_⟩
  · unfold DeltaReader.resetStateVariables
    rw [ht]
    dsimp only
    rw [hserves.entryCount_eq, he]
    rfl
  · by_cases hnone : ∀ name n, DeltaCall.delta name n ∉ calls
    · exact callsRight_of_no_delta hnone _
    · obtain ⟨name, hname⟩ := not_forall.mp hnone
      obtain ⟨n, hn⟩ := not_forall.mp hname
      obtain ⟨name', n', hmem, hn'⟩ := first_call horder (not_not.mp hn)
      obtain hzero | ⟨-, hfirst⟩ := hgood _ hmem
      · omega
      rw [hn'] at hfirst
      exact callsRight_of_good hwidth hpos (hat (fits_of_good hfirst)) horder hgood
  · refine good_of_callsRight hwidth htotal (hat fun k hk _ => ?_) horder hright
    exact Nat.lt_of_le_of_lt (before_le_total hk) htotal

/-- A table file with these entries. -/
def tableFile (entries : List TimeEntry) : EntryFile TimeEntry where
  headOffset := 16
  entrySize := 8
  readAt := fun k _ => entries.getD k ⟨0, 0⟩

/-- A new atom with these entries in memory. -/
def tableReader (entries : List TimeEntry) : DeltaReader where
  atom := .create (tableFile entries) false mediaTypeVisual (UInt32.ofNat entries.length)
  get := .start
  peek := .start

/-- Two samples, one, and an empty entry: from sample 1 to behind the end, the cursors in turns. -/
theorem delta_calls_right_to_end :
    ∃ r' code, (tableReader [⟨2, 10⟩, ⟨1, 30⟩, ⟨0, 7⟩]).resetStateVariables
        (tableFile [⟨2, 10⟩, ⟨1, 30⟩, ⟨0, 7⟩]) 1 = some (r', code) ∧
      CallsRight (tableFile [⟨2, 10⟩, ⟨1, 30⟩, ⟨0, 7⟩]) 3 r'
        [.delta .get 1, .delta .peek 1, .delta .get 2, .resetPeekwithGet, .delta .peek 3,
          .delta .get 3] := by
  have hholds : Holds (tableFile [⟨2, 10⟩, ⟨1, 30⟩, ⟨0, 7⟩]) (UInt32.toNat 3)
      (tableReader [⟨2, 10⟩, ⟨1, 30⟩, ⟨0, 7⟩]).atom :=
    holds_create _ _ _ _ fun h => absurd h Bool.false_ne_true
  have horder : InOrder (fun _ => UInt32.toNat 1) [.delta .get 1, .delta .peek 1, .delta .get 2,
      .resetPeekwithGet, .delta .peek 3, .delta .get 3] := by decide
  obtain ⟨r', code, he, hright, -⟩ := delta_calls_right hholds 1 horder
  exact ⟨r', code, he, hright (by decide)⟩

/-- An empty entry in front of sample 1: the call for it fails. One entry with one sample: the call
    for sample 1 reads entry 1, which is slot 0 again, and succeeds. -/
theorem delta_calls_wrong :
    (¬ ∃ r' code, (tableReader [⟨1, 10⟩, ⟨0, 20⟩, ⟨1, 30⟩]).resetStateVariables
        (tableFile [⟨1, 10⟩, ⟨0, 20⟩, ⟨1, 30⟩]) 0 = some (r', code) ∧
      CallsRight (tableFile [⟨1, 10⟩, ⟨0, 20⟩, ⟨1, 30⟩]) 3 r' [.delta .get 0, .delta .get 1]) ∧
    ¬ ∃ r' code, (tableReader [⟨1, 10⟩]).resetStateVariables (tableFile [⟨1, 10⟩]) 0 =
        some (r', code) ∧
      CallsRight (tableFile [⟨1, 10⟩]) 1 r' [.delta .get 0, .delta .get 1] := by
  constructor
  · rintro ⟨r', code, he, r₁, a₁, h₁, -, r₂, a₂, h₂, hright, -⟩
    have hall : (((tableReader [⟨1, 10⟩, ⟨0, 20⟩, ⟨1, 30⟩]).resetStateVariables
        (tableFile [⟨1, 10⟩, ⟨0, 20⟩, ⟨1, 30⟩]) 0).bind fun x =>
          (x.1.getTimeDelta (tableFile [⟨1, 10⟩, ⟨0, 20⟩, ⟨1, 30⟩]) .get 0).bind fun y =>
            (y.1.getTimeDelta (tableFile [⟨1, 10⟩, ⟨0, 20⟩, ⟨1, 30⟩]) .get 1).map Prod.snd) =
        some { code := .readFailed, aTimeDelta := none, reads := [1] } := by decide
    rw [he, bind_some, h₁, bind_some, h₂] at hall
    cases Option.some.inj hall
    exact absurd (hright.2.1 (by decide)).1 (fun hcode => by cases hcode)
  · rintro ⟨r', code, he, r₁, a₁, h₁, -, r₂, a₂, h₂, hright, -⟩
    have hall : (((tableReader [⟨1, 10⟩]).resetStateVariables (tableFile [⟨1, 10⟩]) 0).bind fun x =>
          (x.1.getTimeDelta (tableFile [⟨1, 10⟩]) .get 0).bind fun y =>
            (y.1.getTimeDelta (tableFile [⟨1, 10⟩]) .get 1).map Prod.snd) =
        some { code := .everythingFine, aTimeDelta := some 10, reads := [1] } := by decide
    rw [he, bind_some, h₁, bind_some, h₂] at hall
    cases Option.some.inj hall
    exact absurd (hright.1 1 mem_cons_self) (Nat.lt_irrefl 1)

end OpenCore.Mp4
