/-
  File:      OpenCore/Mp4/SampleToChunkWalk.lean
  Subject:   THE WALK OF `SampleToChunkAtom` AND ITS SCANS: `getChunkNumberForSampleGet` and
             `getChunkNumberForSamplePeek` against the functions that start over at run 0.

  Run `i` starts at sample `runStart e i`; sample `n` lies in chunk `q` of run `R` (`LiesIn`). As
  long as no count of samples or chunks leaves 32 bits (`Fits`), that is where the sums of the scans
  first exceed it (`LiesIn.located`), so the scans find it (`sampleScan_finds`,
  `firstSampleScan_finds`, `resetScan_finds`), and a cursor that stands there (`Cursor.Stands`) moves
  to the place of the next sample (**`Stands.advance`**).
-/
import OpenCore.Mp4.SampleInChunk

namespace OpenCore.Mp4

open Option
open Nat (succ_mul)
open UInt32 (add_assoc lt_iff_toNat_lt ofNat_toNat zero_add)

variable {i : Nat} {chunk : UInt32}

namespace SampleToChunkTable

/-! ## 1. The place of a sample -/

section Places

variable (e : Nat → SampleToChunkEntry)

/-- The number of chunks in run `i`. -/
def runLength (i : Nat) : Nat := (e (i + 1)).firstChunk.toNat - (e i).firstChunk.toNat

/-- The first sample of run `i`. -/
def runStart : Nat → Nat
  | 0 => 0
  | i + 1 => runStart i + (e i).samplesPerChunk.toNat * runLength e i

/-- The first sample of chunk `q` of run `R`. -/
def chunkStart (R q : Nat) : Nat := runStart e R + q * (e R).samplesPerChunk.toNat

/-- Runs in order, each chunk with a sample. -/
structure Ordered (m : Nat) : Prop where
  rises : ∀ i, i + 1 < m → (e i).firstChunk.toNat < (e (i + 1)).firstChunk.toNat
  full : ∀ i < m, 0 < (e i).samplesPerChunk.toNat

/-- Sample `n` lies in chunk `q` of run `R`, one of `m`; the last run has no end. -/
structure LiesIn (m n R q : Nat) : Prop where
  inTable : R < m
  inRun : R + 1 < m → q < runLength e R
  le : chunkStart e R q ≤ n
  lt : n < chunkStart e R (q + 1)

/-- What is counted on the way to sample `n` stays in range: the runs up to its own have fewer than
    `2^31` chunks and end below sample `2^32`, and so does its chunk, with a number below `2^32`. -/
structure Fits (m n : Nat) : Prop where
  runs : ∀ i, i + 1 < m → runStart e i ≤ n →
    runLength e i < 2147483648 ∧ runStart e (i + 1) < 4294967296
  chunk : ∀ R q, LiesIn e m n R q →
    chunkStart e R (q + 1) < 4294967296 ∧ (e R).firstChunk.toNat + q < 4294967296

end Places

variable {e : Nat → SampleToChunkEntry} {m n R q : Nat}

theorem chunkStart_succ (R q : Nat) :
    chunkStart e R (q + 1) = chunkStart e R q + (e R).samplesPerChunk.toNat := by
  unfold chunkStart
  rw [succ_mul, Nat.add_assoc]

theorem chunkStart_zero (R : Nat) : chunkStart e R 0 = runStart e R := by
  unfold chunkStart
  rw [Nat.zero_mul, Nat.add_zero]

theorem chunkStart_runLength (R : Nat) :
    chunkStart e R (runLength e R) = runStart e (R + 1) := by
  unfold chunkStart
  rw [Nat.mul_comm]
  rfl

theorem chunkStart_mono {q q' : Nat} (h : q ≤ q') : chunkStart e R q ≤ chunkStart e R q' :=
  Nat.add_le_add_left (Nat.mul_le_mul_right _ h) _

theorem runStart_mono {j : Nat} (h : i ≤ j) : runStart e i ≤ runStart e j := by
  induction h with
  | refl => exact Nat.le_refl _
  | step _ ih => exact Nat.le_trans ih (Nat.le_add_right _ _)

theorem LiesIn.runStart_le (h : LiesIn e m n R q) (hi : i ≤ R) : runStart e i ≤ n :=
  Nat.le_trans (runStart_mono hi) (Nat.le_trans (Nat.le_add_right _ _) h.le)

/-- Behind its own run a sample does not lie. -/
theorem LiesIn.lt_runStart (h : LiesIn e m n R q) (hR : R + 1 < m) : n < runStart e (R + 1) := by
  have := @chunkStart_mono e R _ _ (h.inRun hR)
  rw [chunkStart_runLength] at this
  exact Nat.lt_of_lt_of_le h.lt this

theorem Ordered.runLength_pos (hO : Ordered e m) (hi : i + 1 < m) :
    0 < runLength e i := by
  have := hO.rises i hi
  unfold runLength
  omega

/-- A sample lies in the chunk its offset in the run says. -/
theorem liesIn_of_run (hO : Ordered e m) (hR : R < m) (hle : runStart e R ≤ n)
    (hlt : R + 1 < m → n < runStart e (R + 1)) :
    LiesIn e m n R ((n - runStart e R) / (e R).samplesPerChunk.toNat) := by
  have hfull := hO.full R hR
  have hdiv := Nat.div_add_mod' (n - runStart e R) (e R).samplesPerChunk.toNat
  have hmod := Nat.mod_lt (n - runStart e R) hfull
  refine ⟨hR, fun hnext => ?_, ?_, ?_⟩
  · have hend := hlt hnext
    rw [runStart] at hend
    rw [Nat.div_lt_iff_lt_mul hfull, Nat.mul_comm]
    omega
  · unfold chunkStart
    omega
  · rw [chunkStart_succ]
    unfold chunkStart
    omega

theorem exists_liesIn (hO : Ordered e m) (hm : 0 < m) (n : Nat) :
    ∃ R q, LiesIn e m n R q := by
  -- the last run among the first `k + 1` that starts at or before the sample
  have hfind : ∀ k, k < m → ∃ R ≤ k, runStart e R ≤ n ∧
      (R < k → n < runStart e (R + 1)) := by
    intro k
    induction k with
    | zero => exact fun _ => ⟨0, Nat.le_refl 0, Nat.zero_le n, fun h => absurd h (Nat.lt_irrefl 0)⟩
    | succ k ih =>
      intro hk
      by_cases hstart : runStart e (k + 1) ≤ n
      · exact ⟨k + 1, Nat.le_refl _, hstart, fun h => absurd h (Nat.lt_irrefl _)⟩
      · obtain ⟨R, hRk, hle, hlt⟩ := ih (by omega)
        refine ⟨R, by omega, hle, fun _ => ?_⟩
        obtain rfl | hlast : R = k ∨ R < k := by omega
        · omega
        · exact hlt hlast
  obtain ⟨R, hRm, hle, hlt⟩ := hfind (m - 1) (by omega)
  exact ⟨R, _, liesIn_of_run hO (by omega) hle fun hnext => hlt (by omega)⟩

/-- **The next sample** lies in the same chunk, in the next chunk of the run, or in chunk 0 of the
    next run. -/
theorem LiesIn.next (hO : Ordered e m) (h : LiesIn e m n R q) {n' : Nat}
    (hn : n ≤ n' ∧ n' ≤ n + 1) (hlt : ¬ n' < chunkStart e R (q + 1)) :
    (R + 1 < m ∧ q + 1 = runLength e R ∧ LiesIn e m n' (R + 1) 0) ∨
      ((R + 1 < m → q + 1 < runLength e R) ∧ LiesIn e m n' R (q + 1)) := by
  have hl := h.lt
  have hn' : n' = chunkStart e R (q + 1) := by omega
  by_cases hend : R + 1 < m ∧ q + 1 = runLength e R
  · left
    have hstart : n' = runStart e (R + 1) := by rw [hn', hend.2, chunkStart_runLength]
    refine ⟨hend.1, hend.2, hend.1, fun hnext => hO.runLength_pos hnext, ?_, ?_⟩
    · rw [chunkStart_zero]
      omega
    · have := hO.full (R + 1) hend.1
      rw [chunkStart_succ, chunkStart_zero]
      omega
  · right
    have hrun : R + 1 < m → q + 1 < runLength e R := by
      intro hnext
      have := h.inRun hnext
      have hne : q + 1 ≠ runLength e R := fun heq => hend ⟨hnext, heq⟩
      omega
    refine ⟨hrun, h.inTable, hrun, Nat.le_of_eq hn'.symm, ?_⟩
    have := hO.full R h.inTable
    rw [chunkStart_succ]
    omega

/-! ## 2. The words -/

theorem toNat_add {x y : UInt32} (h : x.toNat + y.toNat < 4294967296) :
    (x + y).toNat = x.toNat + y.toNat := by
  rw [UInt32.toNat_add]
  exact Nat.mod_eq_of_lt h

theorem toNat_mul {x y : UInt32} (h : x.toNat * y.toNat < 4294967296) :
    (x * y).toNat = x.toNat * y.toNat := by
  rw [UInt32.toNat_mul]
  exact Nat.mod_eq_of_lt h

theorem toNat_sub {x y : UInt32} (h : y.toNat ≤ x.toNat) : (x - y).toNat = x.toNat - y.toNat :=
  UInt32.toNat_sub_of_le _ _ (UInt32.le_iff_toNat_le.mpr h)

/-- The number of chunks in a run, as the code computes it. -/
theorem numChunks_toNat (hO : Ordered e m) (hi : i + 1 < m) :
    ((e (i + 1)).firstChunk - (e i).firstChunk).toNat = runLength e i :=
  toNat_sub (Nat.le_of_lt (hO.rises i hi))

theorem samplesInRun_toNat (hO : Ordered e m) (hi : i + 1 < m)
    (hend : runStart e (i + 1) < 4294967296) :
    ((e i).samplesPerChunk * ((e (i + 1)).firstChunk - (e i).firstChunk)).toNat =
      (e i).samplesPerChunk.toNat * runLength e i := by
  rw [runStart] at hend
  rw [toNat_mul (by rw [numChunks_toNat hO hi]; omega), numChunks_toNat hO hi]

theorem count_toNat (hO : Ordered e m) (hi : i + 1 < m)
    (hend : runStart e (i + 1) < 4294967296) {sampleCount : UInt32}
    (hcount : sampleCount.toNat = runStart e i) :
    (sampleCount + (e i).samplesPerChunk *
      ((e (i + 1)).firstChunk - (e i).firstChunk)).toNat = runStart e (i + 1) := by
  have hsamples := samplesInRun_toNat hO hi hend
  rw [runStart] at hend ⊢
  rw [toNat_add (by rw [hsamples, hcount]; exact hend), hsamples, hcount]

/-! ## 3. The place as the scans count it -/

section Scans

variable {T : SampleToChunkTable} {mode : Bool} {t : StblTable SampleToChunkEntry}
  {sampleNum sampleCount samplesPerChunk : UInt32}

theorem summed_toNat {d : Nat}
    (h : sampleCount.toNat + d * samplesPerChunk.toNat < 4294967296) :
    (summed sampleCount samplesPerChunk d).toNat =
      sampleCount.toNat + d * samplesPerChunk.toNat := by
  induction d with
  | zero => rw [summed_zero, Nat.zero_mul, Nat.add_zero]
  | succ d ih =>
    rw [succ_mul] at h ⊢
    have hsum := ih (by omega)
    rw [summed_succ, toNat_add (by omega), hsum, Nat.add_assoc]

/-- The loop over a run with an end turns once for each of its chunks. -/
theorem LiesIn.turns_eq (hO : Ordered e m) (hL : LiesIn e m n R q) (hF : Fits e m n)
    (hi : i ≤ R) (hnext : i + 1 < m) : turns (numChunks e i) = runLength e i := by
  have hnum : (numChunks e i).toNat = runLength e i := numChunks_toNat hO hnext
  rw [SampleToChunkTable.turns_eq (by rw [hnum]; exact (hF.runs i hnext (hL.runStart_le hi)).1),
    hnum]

section Place

variable (hO : Ordered e m) (hL : LiesIn e m sampleNum.toNat R q)
  (hF : Fits e m sampleNum.toNat)

include hO hL hF

/-- What is counted in front of a run is its start, by the scans and by
    `getFirstSampleNumInChunk`. -/
theorem LiesIn.countBefore_toNat (hi : i ≤ R) :
    (countBefore e sampleNum i).toNat = runStart e i ∧
      (samplesBefore e i).toNat = runStart e i := by
  induction i with
  | zero => exact ⟨rfl, rfl⟩
  | succ i ih =>
    have hnext : i + 1 < m := Nat.lt_of_le_of_lt hi hL.inTable
    have hle : i ≤ R := Nat.le_of_succ_le hi
    obtain ⟨hcount, hsamples⟩ := ih hle
    have hend := (hF.runs i hnext (hL.runStart_le hle)).2
    refine ⟨?_, count_toNat hO hnext hend hsamples⟩
    have hsum := count_toNat hO hnext hend hcount
    rw [countBefore]
    split
    · exact hsum
    · have hnum : (numChunks e i).toNat = runLength e i := numChunks_toNat hO hnext
      rw [hL.turns_eq hO hF hle hnext, ← hnum, summed, ofNat_toNat, UInt32.mul_comm]
      exact hsum

/-- The sums are the starts of the chunks. -/
theorem LiesIn.summed_toNat (hi : i ≤ R) {d : Nat} (hfits : chunkStart e i d < 4294967296) :
    (summed (countBefore e sampleNum i) (e i).samplesPerChunk d).toNat = chunkStart e i d ∧
      (summed (samplesBefore e i) (e i).samplesPerChunk d).toNat = chunkStart e i d := by
  obtain ⟨hcount, hsamples⟩ := hL.countBefore_toNat hO hF hi
  unfold chunkStart at hfits ⊢
  exact ⟨by rw [SampleToChunkTable.summed_toNat (by rw [hcount]; exact hfits), hcount],
    by rw [SampleToChunkTable.summed_toNat (by rw [hsamples]; exact hfits), hsamples]⟩

theorem LiesIn.summed_le (hi : i ≤ R) {d : Nat} (hle : chunkStart e i d ≤ sampleNum.toNat) :
    summed (countBefore e sampleNum i) (e i).samplesPerChunk d ≤ sampleNum := by
  have hlt := sampleNum.toNat_lt
  rw [UInt32.le_iff_toNat_le, (hL.summed_toNat hO hF hi (by omega)).1]
  exact hle

/-- **Where a sample lies, the sums first exceed it.** -/
theorem LiesIn.located : Located e m sampleNum R q := by
  have hfits := (hF.chunk R q hL).1
  have hR := Nat.le_refl R
  refine ⟨hL.inTable, fun i hi => .inr fun d hd => ?_, fun hnext => ⟨?_, ?_⟩, ?_, fun d hd => ?_⟩
  · rw [hL.turns_eq hO hF (Nat.le_of_lt hi) (Nat.lt_of_le_of_lt hi hL.inTable)] at hd
    refine hL.summed_le hO hF (Nat.le_of_lt hi) (Nat.le_trans (chunkStart_mono hd) ?_)
    rw [chunkStart_runLength]
    exact hL.runStart_le hi
  · have hsum := count_toNat hO hnext (hF.runs R hnext (hL.runStart_le hR)).2
      (hL.countBefore_toNat hO hF hR).1
    have hbefore := hL.lt_runStart hnext
    rw [numChunks, lt_iff_toNat_lt, hsum]
    omega
  · rw [hL.turns_eq hO hF hR hnext]
    exact hL.inRun hnext
  · rw [lt_iff_toNat_lt, (hL.summed_toNat hO hF hR hfits).1]
    exact hL.lt
  · exact hL.summed_le hO hF hR (Nat.le_trans (chunkStart_mono hd) hL.le)

/-- **The scans for a sample** find its run and its chunk. -/
theorem sampleScan_finds
    {lastRun : UInt32 → UInt32 → Nat → UInt32 → UInt32 → Option (Option UInt32)}
    (hlast : LastRunLoop lastRun) (h : T.Holds e m mode t) :
    ∃ t', T.sampleScan mode lastRun sampleNum m 0 0 t =
        some (t', some ⟨R, (e R).firstChunk + UInt32.ofNat q, (e R).samplesPerChunk⟩) ∧
      T.Holds e m mode t' ∧ t'.slot R = e R :=
  sampleScan_located hlast h (Nat.zero_add m) (Nat.zero_le R) (hL.located hO hF)

/-- **The scan for the first sample of a chunk** finds where the chunk starts. -/
theorem firstSampleScan_finds (h : T.Holds e m mode t) :
    ∃ t' sample, T.firstSampleScan mode ((e R).firstChunk + UInt32.ofNat q) m 0 0 0 t =
        some (t', some sample) ∧
      sample.toNat = chunkStart e R q ∧ T.Holds e m mode t' := by
  obtain ⟨hend, hnumber⟩ := hF.chunk R q hL
  have hrises : Rising e m := fun i hi => lt_iff_toNat_lt.mpr (hO.rises i hi)
  have hchunk : ChunkOf e m R q :=
    ⟨hL.inTable, fun hnext => (hL.inRun hnext).trans_eq (numChunks_toNat hO hnext).symm, hnumber⟩
  obtain ⟨t', hscan, h'⟩ :=
    firstSampleScan_at h hrises hchunk (Nat.zero_add m) (Nat.zero_le R) 0
  have hfits := Nat.lt_of_le_of_lt (chunkStart_mono (Nat.le_succ q)) hend
  exact ⟨t', _, hscan, (hL.summed_toNat hO hF (Nat.le_refl R) hfits).2, h'⟩

end Place

/-- What the loops of `resetStateVariables` have set when they stop. -/
structure Cursor.Reads (c : Cursor) (first count : Nat) (samplesPerChunk chunk : UInt32) :
    Prop where
  first : c.firstSampleInCurrChunk.toUInt32.toNat = first
  count : c.currSampleCount.toNat = count
  samples : c.numSamplesPerChunk.toUInt32 = samplesPerChunk
  chunk : c.currChunk.toUInt32 = chunk

/-- A cursor that stands in chunk `q` of run `R`. While the run has an end the next one to load is
    behind it, and the chunks left in it are counted. -/
structure Cursor.Stands (e : Nat → SampleToChunkEntry) (m R q : Nat) (c : Cursor) : Prop extends
    c.Reads (chunkStart e R q) (chunkStart e R (q + 1)) (e R).samplesPerChunk
      ((e R).firstChunk + UInt32.ofNat q) where
  major : c.majorIndex = if R + 1 < m then R + 1 else R
  left : c.numChunksInRun.toInt = if R + 1 < m then (runLength e R : Int) - q else 1
  sdi : c.currSDI.toUInt32 = (e R).sampleDescrIndex

/-- The cursor the loop of the reset leaves, before its run is stepped over. -/
structure Cursor.Found (e : Nat → SampleToChunkEntry) (m R q : Nat) (c : Cursor) : Prop extends
    c.Reads (chunkStart e R q) (chunkStart e R (q + 1)) (e R).samplesPerChunk
      ((e R).firstChunk + UInt32.ofNat q) where
  major : c.majorIndex = R
  left : c.numChunksInRun.toInt = if R + 1 < m then (runLength e R : Int) - q else 1
  sdi : c.currSDI.toUInt32 = (e R).sampleDescrIndex

/-- **The reset** finds the place of its sample. -/
theorem resetScan_finds (hO : Ordered e m) (hL : LiesIn e m sampleNum.toNat R q)
    (hF : Fits e m sampleNum.toNat) (h : T.Holds e m mode t) (c : Cursor) (numChunks : Int32) :
    ∃ t' c' num, T.resetScan mode sampleNum m 0 0 t c numChunks = some (t', c', num, true) ∧
      c'.Found e m R q ∧ T.Holds e m mode t' := by
  obtain ⟨t', c', num, hscan, h', hat, hmajor, hsdi, hleft⟩ := resetScan_located h
    (Nat.zero_add m) (Nat.zero_le R) (.inr rfl) (hL.located hO hF) c numChunks
  have hend := (hF.chunk R q hL).1
  have hfits := Nat.lt_of_le_of_lt (chunkStart_mono (Nat.le_succ q)) hend
  have hR := Nat.le_refl R
  refine ⟨t', c', num, hscan, ⟨⟨?_, ?_, ?_, ?_⟩, hmajor, ?_, ?_⟩, h'⟩
  · rw [hat.first]
    exact (hL.summed_toNat hO hF hR hfits).1
  · rw [hat.count]
    exact (hL.summed_toNat hO hF hR hend).1
  · rw [hat.samples]
    rfl
  · rw [hat.currChunk]
    rfl
  · rw [hleft]
    by_cases hnext : R + 1 < m
    · have hshort := (hF.runs R hnext (hL.runStart_le hR)).1
      have hin := hL.inRun hnext
      have hnum : (SampleToChunkTable.numChunks e R).toNat = runLength e R :=
        numChunks_toNat hO hnext
      have hq : (Int32.ofNat q).toInt = q := Int32.toInt_ofNat_of_lt (by omega)
      rw [if_pos hnext, if_pos hnext, Int32.toInt_sub, toInt32_toInt (by omega), hnum, hq]
      exact Int.bmod_eq_of_le (by omega) (by omega)
    · rw [if_neg hnext, if_neg hnext]
      rfl
  · rw [hsdi]
    rfl

end Scans

/-! ## 4. The walk -/

section Walk

variable {T : SampleToChunkTable} {mode : Bool} {t : StblTable SampleToChunkEntry}
  {sampleNum : UInt32} {c : Cursor}

theorem lastIndex_eq (T : SampleToChunkTable) {m : Nat} (hm : 0 < m) (hle : m ≤ T.entryCount.toNat) :
    toInt32 (sub32 m 1) = (m : Int) - 1 := by
  have hin := T.inAtom
  rw [sub32_eq (by omega) (by omega), toInt32_eq (by omega)]
  omega

/-- The end of the reset: the run found is stepped over, unless it is the last. -/
theorem Cursor.Found.stands (h : c.Found e m R q) (hR : R < m) (hle : m ≤ T.entryCount.toNat) :
    (if (c.majorIndex : Int) < toInt32 (sub32 m 1) then { c with majorIndex := c.majorIndex + 1 }
      else c).Stands e m R q := by
  have hlast := lastIndex_eq T (show 0 < m by omega) hle
  have hmajor := h.major
  rw [hlast]
  by_cases hnext : R + 1 < m
  · have hlt : (c.majorIndex : Int) < (m : Int) - 1 := by omega
    rw [if_pos hlt]
    refine ⟨⟨h.first, h.count, h.samples, h.chunk⟩, ?_, h.left, h.sdi⟩
    show c.majorIndex + 1 = _
    rw [if_pos hnext, hmajor]
  · have hlt : ¬ (c.majorIndex : Int) < (m : Int) - 1 := by omega
    rw [if_neg hlt]
    refine ⟨h.toReads, ?_, h.left, h.sdi⟩
    rw [if_neg hnext, hmajor]

theorem Cursor.Stands.major_lt (h : c.Stands e m R q) (hR : R < m) : c.majorIndex < m := by
  rw [h.major]
  split <;> omega

/-- A cursor that moves on by a chunk, in its run or to the run it has loaded. -/
theorem Cursor.nextChunk_reads (hc : c.currSampleCount.toNat = chunkStart e R q)
    (hsamples : c.numSamplesPerChunk.toUInt32 = (e R).samplesPerChunk)
    (hchunk : c.currChunk.toUInt32 + 1 = chunk) (hfits : chunkStart e R (q + 1) < 4294967296) :
    c.nextChunk.Reads (chunkStart e R q) (chunkStart e R (q + 1)) (e R).samplesPerChunk chunk := by
  rw [chunkStart_succ] at hfits
  refine ⟨hc, ?_, hsamples, hchunk⟩
  show (c.currSampleCount + c.numSamplesPerChunk.toUInt32).toNat = _
  rw [hsamples, toNat_add (by omega), chunkStart_succ, hc]

/-- A call that finds its sample in front of the count. -/
theorem Cursor.answer_eq (hlt : sampleNum < c.currSampleCount)
    (hchunk : c.currChunk.toUInt32 = chunk) :
    c.answer sampleNum = (.everythingFine, some chunk) := by
  unfold Cursor.answer
  rw [if_pos hlt, hchunk]

/-- The chunk behind the last of a run is the first of the next one. -/
theorem chunk_boundary (hO : Ordered e m) (hR : R + 1 < m) (hq : q + 1 = runLength e R) :
    (e R).firstChunk + UInt32.ofNat q + 1 = (e (R + 1)).firstChunk + UInt32.ofNat 0 := by
  have hlt := hO.rises R hR
  have h' := (e (R + 1)).firstChunk.toNat_lt
  have hsum : (e R).firstChunk.toNat + (q + 1) = (e (R + 1)).firstChunk.toNat := by
    rw [hq]
    unfold runLength
    omega
  apply UInt32.toNat_inj.mp
  have hzero : (e (R + 1)).firstChunk + UInt32.ofNat 0 = (e (R + 1)).firstChunk :=
    UInt32.add_zero _
  rw [add_assoc, ← ofNat_succ, hzero]
  have hword : q + 1 < UInt32.size := show q + 1 < 4294967296 by omega
  have hq' : (UInt32.ofNat (q + 1)).toNat = q + 1 := UInt32.toNat_ofNat_of_lt hword
  rw [toNat_add (by omega), hq', hsum]

/-- **A step of the walk**, to the same sample or to the next: the cursor stands where that sample
    lies, and the call returns its chunk. -/
theorem Cursor.Stands.advance (hO : Ordered e m) (hc : c.Stands e m R q) (hL : LiesIn e m n R q)
    (hnext : n ≤ sampleNum.toNat ∧ sampleNum.toNat ≤ n + 1) (hF : Fits e m sampleNum.toNat)
    (h : T.Holds e m mode t) (numChunks : Int32) :
    ∃ s R' q', T.advance mode sampleNum numChunks c t = some s ∧ T.Holds e m mode s.table ∧
      s.cursor.Stands e m R' q' ∧ LiesIn e m sampleNum.toNat R' q' ∧
      s.answer = (.everythingFine, some ((e R').firstChunk + UInt32.ofNat q')) := by
  have hRm := hL.inTable
  have hlast := lastIndex_eq T (show 0 < m by omega) h.le
  have hmajor := hc.major
  obtain ⟨t₁, hf₁, h₁, hs₁, -⟩ := h.fetch (hc.major_lt hRm)
  unfold SampleToChunkTable.advance
  rw [hf₁, bind_some, h₁.entryCount_eq, hlast]
  by_cases hsame : sampleNum < c.currSampleCount
  · -- still in the chunk of the call before
    rw [if_pos hsame]
    have hlt := lt_iff_toNat_lt.mp hsame
    rw [hc.count] at hlt
    refine ⟨_, R, q, rfl, h₁, hc, ⟨hRm, hL.inRun, Nat.le_trans hL.le hnext.1, hlt⟩, ?_⟩
    rw [hc.chunk]
  · rw [if_neg hsame]
    have hge : ¬ sampleNum.toNat < chunkStart e R (q + 1) := by
      rw [← hc.count]
      exact fun hlt => hsame (lt_iff_toNat_lt.mpr hlt)
    obtain ⟨hR, hq, hL'⟩ | ⟨hin, hL'⟩ := hL.next hO hnext hge
    · -- chunk 0 of the next run
      have hleft : ¬ 1 < c.numChunksInRun := by
        have hl := hc.left
        rw [if_pos hR] at hl
        rw [Int32.lt_iff_toInt_lt, Int32.toInt_one]
        omega
      rw [if_pos hR] at hmajor
      have hcount : c.currSampleCount.toNat = chunkStart e (R + 1) 0 := by
        rw [hc.count, hq, chunkStart_runLength, chunkStart_zero]
      have hchunk : c.currChunk.toUInt32 + 1 = (e (R + 1)).firstChunk + UInt32.ofNat 0 := by
        rw [hc.chunk]
        exact chunk_boundary hO hR hq
      have hfits := (hF.chunk _ _ hL').1
      have hreads := Cursor.nextChunk_reads (c := c.load (e (R + 1))) hcount rfl hchunk hfits
      have hinside : sampleNum < (c.load (e (R + 1))).nextChunk.currSampleCount := by
        rw [lt_iff_toNat_lt, hreads.count]
        exact hL'.lt
      rw [hmajor] at hs₁
      rw [if_neg hleft, hmajor]
      by_cases hmore : R + 1 + 1 < m
      · obtain ⟨t₂, hf₂, h₂, hs₂, -⟩ := h₁.fetch hmore
        have hlt : ((R + 1 : Nat) : Int) < (m : Int) - 1 := by omega
        rw [if_pos hlt, hf₂, bind_some, hs₁, hs₂]
        have hshort := (hF.runs (R + 1) hmore (hL'.runStart_le (Nat.le_refl _))).1
        have hnum : ((e (R + 1 + 1)).firstChunk - (e (R + 1)).firstChunk).toInt32.toInt =
            runLength e (R + 1) := by
          rw [toInt32_toInt (by rw [numChunks_toNat hO hmore]; exact hshort),
            numChunks_toNat hO hmore]
        refine ⟨_, R + 1, 0, rfl, h₂,
          ⟨⟨hreads.first, hreads.count, hreads.samples, hreads.chunk⟩, ?_, ?_, rfl⟩, hL', ?_⟩
        · exact (if_pos hmore).symm
        · show ((e (R + 1 + 1)).firstChunk - (e (R + 1)).firstChunk).toInt32.toInt = _
          rw [if_pos hmore, hnum]
          omega
        · exact Cursor.answer_eq hinside hreads.chunk
      · have hlt : ¬ ((R + 1 : Nat) : Int) < (m : Int) - 1 := by omega
        have heq : ((R + 1 : Nat) : Int) = (m : Int) - 1 := by omega
        rw [if_neg hlt, if_pos heq, hs₁]
        refine ⟨_, R + 1, 0, rfl, h₁,
          ⟨⟨hreads.first, hreads.count, hreads.samples, hreads.chunk⟩, ?_, ?_, rfl⟩, hL', ?_⟩
        · exact hmajor.trans (if_neg hmore).symm
        · exact (if_neg hmore).symm
        · exact Cursor.answer_eq hinside hreads.chunk
    · have hcount : c.currSampleCount.toNat = chunkStart e R (q + 1) := hc.count
      have hchunk : c.currChunk.toUInt32 + 1 = (e R).firstChunk + UInt32.ofNat (q + 1) := by
        rw [hc.chunk, ofNat_succ, add_assoc]
      have hfits := (hF.chunk _ _ hL').1
      by_cases hR : R + 1 < m
      · -- the next chunk of a run with an end
        have hshort := (hF.runs R hR (hL'.runStart_le (Nat.le_refl _))).1
        have hin' := hin hR
        have hl := hc.left
        rw [if_pos hR] at hl hmajor
        have hleft : 1 < c.numChunksInRun := by
          rw [Int32.lt_iff_toInt_lt, Int32.toInt_one]
          omega
        have hreads := Cursor.nextChunk_reads hcount hc.samples hchunk hfits
        have hinside : sampleNum < c.nextChunk.currSampleCount := by
          rw [lt_iff_toNat_lt, hreads.count]
          exact hL'.lt
        have hmany : m > 1 := by omega
        rw [if_pos hleft]
        dsimp only
        rw [if_pos hmany]
        refine ⟨_, R, q + 1, rfl, h₁,
          ⟨⟨hreads.first, hreads.count, hreads.samples, hreads.chunk⟩, ?_, ?_, hc.sdi⟩, hL', ?_⟩
        · exact hmajor.trans (if_pos hR).symm
        · show (c.numChunksInRun - 1).toInt = _
          rw [Int32.toInt_sub, hl, Int32.toInt_one, if_pos hR, Int.bmod_eq_of_le (by omega)
            (by omega)]
          omega
        · exact Cursor.answer_eq hinside hreads.chunk
      · -- the next chunk of the last run
        rw [if_neg hR] at hmajor
        have hleft : ¬ 1 < c.numChunksInRun := by
          have hl := hc.left
          rw [if_neg hR] at hl
          rw [Int32.lt_iff_toInt_lt, Int32.toInt_one, hl]
          omega
        have hreads := Cursor.nextChunk_reads (c := c.load (e R)) hcount rfl hchunk hfits
        have hinside : sampleNum < (c.load (e R)).nextChunk.currSampleCount := by
          rw [lt_iff_toNat_lt, hreads.count]
          exact hL'.lt
        rw [hmajor] at hs₁
        rw [if_neg hleft, hmajor]
        have hlt : ¬ (R : Int) < (m : Int) - 1 := by omega
        have heq : (R : Int) = (m : Int) - 1 := by omega
        rw [if_neg hlt, if_pos heq, hs₁]
        refine ⟨_, R, q + 1, rfl, h₁,
          ⟨⟨hreads.first, hreads.count, hreads.samples, hreads.chunk⟩, ?_, ?_, rfl⟩, hL', ?_⟩
        · exact hmajor.trans (if_neg hR).symm
        · exact (if_neg hR).symm
        · exact Cursor.answer_eq hinside hreads.chunk

end Walk

end SampleToChunkTable

end OpenCore.Mp4
