/-
  File:      OpenCore/Mp4/SampleInChunk.lean
  Subject:   THE CHUNK OF A SAMPLE: whether the scans of `SampleToChunkAtom` end, and whether the
             sample lies in the chunk they find.

  The scans add up the samples of the chunks in 32 bits, and the last run goes on until the sum
  exceeds the sample. Where no sum does, with no samples in a chunk or with sums that go around, the
  loop does not end. A run of 2^31 chunks and more is not counted at all: its number of chunks is
  negative.

  **Main result** `sample_in_chunk`: when the scans end, and when the sample lies in the chunk.
-/
import OpenCore.Mp4.SampleToChunkWindow

namespace OpenCore.Mp4

open Option
open UInt32 (lt_iff_toNat_lt ofNat_toNat toNat_add toNat_ofNat' toNat_sub_of_le)
open Function (update update_of_ne update_self)
open Nat (find_min find_spec lt_of_succ_lt lt_succ_self not_lt_zero succ_ne_zero succ_pos)

namespace SampleToChunkTable

/-! ## 1. Sums in 32 bits -/

/-- The sum behind `d` more chunks. -/
def summed (sampleCount samplesPerChunk : UInt32) (d : Nat) : UInt32 :=
  sampleCount + UInt32.ofNat d * samplesPerChunk

theorem toInt32_toInt {x : UInt32} (h : x.toNat < 2147483648) : x.toInt32.toInt = x.toNat := by
  have hx : x = UInt32.ofNat x.toNat := ofNat_toNat.symm
  rw [hx, UInt32.toInt32_ofNat', Int32.toInt_ofNat_of_lt h, ofNat_toNat]

theorem turns_eq {x : UInt32} (h : x.toNat < 2147483648) : turns x = x.toNat := by
  unfold turns
  rw [toInt32_toInt h]
  rfl

theorem ofNat_succ (q : Nat) : UInt32.ofNat (q + 1) = UInt32.ofNat q + 1 := UInt32.ofNat_add q 1

theorem add_one_add (k : UInt32) (q : Nat) : k + 1 + UInt32.ofNat q = k + UInt32.ofNat (q + 1) := by
  rw [ofNat_succ, UInt32.add_assoc, UInt32.add_comm 1]

section Sums

variable {sampleNum sampleCount samplesPerChunk : UInt32} {d n : Nat}

@[simp] theorem summed_zero : summed sampleCount samplesPerChunk 0 = sampleCount := by
  have hzero : UInt32.ofNat 0 = 0 := rfl
  rw [summed, hzero, UInt32.zero_mul, UInt32.add_zero]

theorem summed_succ : summed sampleCount samplesPerChunk (d + 1) =
    summed sampleCount samplesPerChunk d + samplesPerChunk := by
  rw [summed, summed, ofNat_succ, UInt32.add_mul, UInt32.one_mul, UInt32.add_assoc]

theorem summed_add : summed (sampleCount + samplesPerChunk) samplesPerChunk d =
    summed sampleCount samplesPerChunk (d + 1) := by
  rw [summed_succ, summed, summed, UInt32.add_assoc, UInt32.add_comm samplesPerChunk,
    ← UInt32.add_assoc]

/-- After 2^32 chunks the sums repeat. -/
theorem summed_period : summed sampleCount samplesPerChunk (d + 4294967296) =
    summed sampleCount samplesPerChunk d := by
  have hperiod : UInt32.ofNat (d + 4294967296) = UInt32.ofNat d := by
    refine UInt32.toNat_inj.mp ?_
    rw [toNat_ofNat', toNat_ofNat']
    omega
  rw [summed, summed, hperiod]

/-- **The sums first exceed the sample** behind chunk `d`. -/
structure FirstOver (sampleNum sampleCount samplesPerChunk : UInt32) (d : Nat) : Prop where
  exceeds : sampleNum < summed sampleCount samplesPerChunk (d + 1)
  before : ∀ d' < d, summed sampleCount samplesPerChunk (d' + 1) ≤ sampleNum

/-- At chunk 0 the first sum exceeds the sample. -/
theorem FirstOver.stop (h : FirstOver sampleNum sampleCount samplesPerChunk 0) :
    sampleNum < sampleCount + samplesPerChunk := by
  have hexceeds := h.exceeds
  rwa [summed_succ, summed_zero] at hexceeds

/-- Else it does not. -/
theorem FirstOver.go (h : FirstOver sampleNum sampleCount samplesPerChunk (d + 1)) :
    sampleCount + samplesPerChunk ≤ sampleNum := by
  have hbefore := h.before 0 (succ_pos d)
  rwa [summed_succ, summed_zero] at hbefore

/-- Where no sum up to some chunk exceeds the sample, none does from the next chunk on. -/
theorem summed_next (h : ∀ d < n + 1, summed sampleCount samplesPerChunk (d + 1) ≤ sampleNum) :
    sampleCount + samplesPerChunk ≤ sampleNum ∧
      ∀ d < n, summed (sampleCount + samplesPerChunk) samplesPerChunk (d + 1) ≤ sampleNum := by
  have hfirst := h 0 (succ_pos n)
  rw [summed_succ, summed_zero] at hfirst
  refine ⟨hfirst, fun d hd => ?_⟩
  rw [summed_add]
  exact h (d + 1) (Nat.succ_lt_succ hd)

theorem summed_next_all (h : ∀ d, summed sampleCount samplesPerChunk (d + 1) ≤ sampleNum) :
    sampleCount + samplesPerChunk ≤ sampleNum ∧
      ∀ d, summed (sampleCount + samplesPerChunk) samplesPerChunk (d + 1) ≤ sampleNum :=
  ⟨(@summed_next _ _ _ 0 fun d _ => h d).1,
    fun d => (@summed_next _ _ _ (d + 1) fun d _ => h d).2 d (lt_succ_self d)⟩

theorem FirstOver.next (h : FirstOver sampleNum sampleCount samplesPerChunk (d + 1)) :
    FirstOver sampleNum (sampleCount + samplesPerChunk) samplesPerChunk d := by
  refine ⟨?_, fun d' hd' => ?_⟩
  · rw [summed_add]
    exact h.exceeds
  · rw [summed_add]
    exact h.before (d' + 1) (Nat.succ_lt_succ hd')

/-- What was counted in front of the chunk does not exceed the sample. -/
theorem FirstOver.le (h : FirstOver sampleNum sampleCount samplesPerChunk d)
    (hle : sampleCount ≤ sampleNum) : summed sampleCount samplesPerChunk d ≤ sampleNum := by
  cases d with
  | zero =>
    rw [summed_zero]
    exact hle
  | succ d => exact h.before d (lt_succ_self d)

/-- If a sum exceeds the sample, one does first, among the first 2^32. -/
theorem exists_firstOver (h : ∃ d, sampleNum < summed sampleCount samplesPerChunk (d + 1)) :
    ∃ d < 4294967296, FirstOver sampleNum sampleCount samplesPerChunk d := by
  classical
  refine ⟨Nat.find h, ?_, find_spec h, fun d' hd' => UInt32.not_lt.mp (find_min h hd')⟩
  by_contra hlarge
  have hspec := find_spec h
  obtain ⟨k, hk⟩ : ∃ k, Nat.find h = k + 4294967296 :=
    ⟨Nat.find h - 4294967296, by omega⟩
  rw [hk, Nat.add_right_comm, summed_period] at hspec
  exact find_min h (by omega) hspec

/-- The first sum to exceed the sample is not behind any other that does. -/
theorem FirstOver.le_of_over (h : FirstOver sampleNum sampleCount samplesPerChunk d) {d' : Nat}
    (hover : sampleNum < summed sampleCount samplesPerChunk (d' + 1)) : d ≤ d' := by
  by_contra hlater
  exact absurd hover (UInt32.not_lt.mpr (h.before d' (Nat.lt_of_not_le hlater)))

theorem FirstOver.lt (h : FirstOver sampleNum sampleCount samplesPerChunk d) :
    d < 4294967296 := by
  obtain ⟨d', hlt, hfirst⟩ := exists_firstOver ⟨d, h.exceeds⟩
  exact Nat.lt_of_le_of_lt (h.le_of_over hfirst.exceeds) hlt

/-- **Steps that are small enough** meet the numbers above the sample. -/
theorem exists_over_of_small (hpos : 0 < samplesPerChunk)
    (hsmall : sampleNum.toNat + samplesPerChunk.toNat < 4294967296)
    (hle : sampleCount ≤ sampleNum) :
    ∃ d, sampleNum < summed sampleCount samplesPerChunk (d + 1) := by
  by_contra hnone
  have hbelow : ∀ d, (summed sampleCount samplesPerChunk d).toNat =
      sampleCount.toNat + d * samplesPerChunk.toNat ∧
      summed sampleCount samplesPerChunk d ≤ sampleNum := by
    intro d
    induction d with
    | zero => exact ⟨by rw [summed_zero, Nat.zero_mul, Nat.add_zero], by rwa [summed_zero]⟩
    | succ d ih =>
      obtain ⟨hsum, hd⟩ := ih
      have hd' : (summed sampleCount samplesPerChunk d).toNat ≤ sampleNum.toNat := hd
      refine ⟨?_, UInt32.not_lt.mp fun hover => hnone ⟨d, hover⟩⟩
      rw [summed_succ, toNat_add, Nat.succ_mul, ← Nat.add_assoc, ← hsum]
      exact Nat.mod_eq_of_lt (by omega)
  obtain ⟨hsum, hd⟩ := hbelow (sampleNum.toNat + 1)
  have hd' : (summed sampleCount samplesPerChunk (sampleNum.toNat + 1)).toNat ≤ sampleNum.toNat := hd
  have hpos' : 0 < samplesPerChunk.toNat := hpos
  have hmul : sampleNum.toNat + 1 ≤ (sampleNum.toNat + 1) * samplesPerChunk.toNat :=
    Nat.le_mul_of_pos_right _ hpos'
  omega

end Sums

/-! ## 2. The loops -/

section Loops

variable {sampleNum sampleCount samplesPerChunk : UInt32} {d n fuel : Nat} {j k : UInt32}

theorem inRun_meets (h : FirstOver sampleNum sampleCount samplesPerChunk d) (hd : d < n) :
    ∃ count, inRun sampleNum samplesPerChunk n j sampleCount =
      (count, some (j + UInt32.ofNat d)) := by
  induction n generalizing d j sampleCount with
  | zero => exact absurd hd (not_lt_zero d)
  | succ n ih =>
    rw [inRun]
    cases d with
    | zero =>
      rw [if_pos h.stop]
      exact ⟨_, congrArg (fun x => (_, some x)) (UInt32.add_zero j).symm⟩
    | succ d =>
      rw [if_neg (UInt32.not_lt.mpr h.go), ← add_one_add]
      exact ih h.next (Nat.lt_of_succ_lt_succ hd)

theorem inRun_passed (h : ∀ d < n, summed sampleCount samplesPerChunk (d + 1) ≤ sampleNum) :
    inRun sampleNum samplesPerChunk n j sampleCount =
      (summed sampleCount samplesPerChunk n, none) := by
  induction n generalizing j sampleCount with
  | zero => rw [inRun, summed_zero]
  | succ n ih =>
    obtain ⟨hfirst, hnext⟩ := summed_next h
    rw [inRun]
    rw [if_neg (UInt32.not_lt.mpr hfirst), ih hnext, summed_add]

/-- What the scans need of a loop over the last run. -/
structure LastRunLoop
    (lastRun : UInt32 → UInt32 → Nat → UInt32 → UInt32 → Option (Option UInt32)) : Prop where
  found : ∀ {sampleNum samplesPerChunk : UInt32} {fuel d : Nat} {k sampleCount : UInt32},
    sampleCount ≤ sampleNum → FirstOver sampleNum sampleCount samplesPerChunk d → d < fuel →
      lastRun sampleNum samplesPerChunk fuel k sampleCount = some (some (k + UInt32.ofNat d))
  endless : ∀ {sampleNum samplesPerChunk : UInt32} {fuel : Nat} {k sampleCount : UInt32},
    sampleCount ≤ sampleNum → (∀ d, summed sampleCount samplesPerChunk (d + 1) ≤ sampleNum) →
      lastRun sampleNum samplesPerChunk fuel k sampleCount = none

theorem inLastRunForEver_loop : LastRunLoop inLastRunForEver where
  found := by
    intro sampleNum samplesPerChunk fuel d k sampleCount hle h hd
    induction fuel generalizing d k sampleCount with
    | zero => exact absurd hd (not_lt_zero d)
    | succ fuel ih =>
      rw [inLastRunForEver]
      cases d with
      | zero =>
        rw [if_pos h.stop]
        exact congrArg (fun x => some (some x)) (UInt32.add_zero k).symm
      | succ d =>
        rw [if_neg (UInt32.not_lt.mpr h.go),
          ih h.go h.next (Nat.lt_of_succ_lt_succ hd), add_one_add]
  endless := by
    intro sampleNum samplesPerChunk fuel k sampleCount hle h
    induction fuel generalizing k sampleCount with
    | zero => rfl
    | succ fuel ih =>
      obtain ⟨hfirst, hnext⟩ := summed_next_all h
      rw [inLastRunForEver, if_neg (UInt32.not_lt.mpr hfirst)]
      exact ih hfirst hnext

/-- The test in front of the loop is that of the turn before. -/
theorem inLastRun_eq (hle : sampleCount ≤ sampleNum) :
    inLastRun sampleNum samplesPerChunk fuel k sampleCount =
      inLastRunForEver sampleNum samplesPerChunk fuel k sampleCount := by
  induction fuel generalizing k sampleCount with
  | zero => rfl
  | succ fuel ih =>
    rw [inLastRun, inLastRunForEver, if_pos hle]
    dsimp only
    by_cases hexceeds : sampleNum < sampleCount + samplesPerChunk
    · rw [if_pos hexceeds, if_pos hexceeds]
    · rw [if_neg hexceeds, if_neg hexceeds]
      exact ih (UInt32.not_lt.mp hexceeds)

theorem inLastRun_loop : LastRunLoop inLastRun where
  found := fun hle h hd => (inLastRun_eq hle).trans (inLastRunForEver_loop.found hle h hd)
  endless := fun hle h => (inLastRun_eq hle).trans (inLastRunForEver_loop.endless hle h)

/-- A cursor at chunk `d` of a run. -/
structure AtChunk (c : Cursor) (sampleCount samplesPerChunk chunkNum : UInt32) (d : Nat) : Prop where
  currChunk : c.currChunk = (chunkNum + UInt32.ofNat d).toInt32
  first : c.firstSampleInCurrChunk = (summed sampleCount samplesPerChunk d).toInt32
  samples : c.numSamplesPerChunk = samplesPerChunk.toInt32
  count : c.currSampleCount = summed sampleCount samplesPerChunk (d + 1)

/-- The cursor that stands at the first chunk of what is left of a run. -/
theorem atChunk_zero (chunk : UInt32) {c : Cursor} (hchunk : c.currChunk = chunk.toInt32)
    (hfirst : c.firstSampleInCurrChunk = sampleCount.toInt32)
    (hsamples : c.numSamplesPerChunk = samplesPerChunk.toInt32)
    (hcount : c.currSampleCount = sampleCount + samplesPerChunk) :
    AtChunk c sampleCount samplesPerChunk chunk 0 := by
  refine ⟨hchunk.trans (congrArg UInt32.toInt32 (UInt32.add_zero _).symm), ?_, hsamples, ?_⟩
  · rw [hfirst, summed_zero]
  · rw [hcount, summed_succ, summed_zero]

variable {chunkNum : UInt32}

theorem AtChunk.step {c : Cursor}
    (h : AtChunk c (sampleCount + samplesPerChunk) samplesPerChunk (chunkNum + (j + 1)) d) :
    AtChunk c sampleCount samplesPerChunk (chunkNum + j) (d + 1) := by
  obtain ⟨hchunk, hfirst, hsamples, hcount⟩ := h
  rw [summed_add] at hfirst hcount
  rw [← UInt32.add_assoc, add_one_add] at hchunk
  exact ⟨hchunk, hfirst, hsamples, hcount⟩

theorem resetRun_meets {c : Cursor}
    (h : FirstOver sampleNum sampleCount samplesPerChunk d) (hd : d < n) :
    ∃ c' count, resetRun sampleNum chunkNum samplesPerChunk n j sampleCount c = (c', count, true) ∧
      AtChunk c' sampleCount samplesPerChunk (chunkNum + j) d ∧
      c'.numChunksInRun = c.numChunksInRun - Int32.ofNat d := by
  induction n generalizing d j sampleCount c with
  | zero => exact absurd hd (not_lt_zero d)
  | succ n ih =>
    rw [resetRun]
    cases d with
    | zero =>
      rw [if_pos h.stop]
      exact ⟨_, _, rfl, atChunk_zero _ rfl rfl rfl rfl, (Int32.sub_zero _).symm⟩
    | succ d =>
      rw [if_neg (UInt32.not_lt.mpr h.go)]
      obtain ⟨c', count, hrun, hat, hleft⟩ :=
        ih (j := j + 1) h.next (Nat.lt_of_succ_lt_succ hd)
      refine ⟨c', count, hrun, hat.step, hleft.trans ?_⟩
      show c.numChunksInRun - 1 - Int32.ofNat d = _
      rw [Int32.ofNat_add]
      show _ = c.numChunksInRun - (Int32.ofNat d + 1)
      grind

theorem resetRun_passed {c : Cursor}
    (h : ∀ d < n, summed sampleCount samplesPerChunk (d + 1) ≤ sampleNum) :
    ∃ c', resetRun sampleNum chunkNum samplesPerChunk n j sampleCount c =
      (c', summed sampleCount samplesPerChunk n, false) := by
  induction n generalizing j sampleCount c with
  | zero => exact ⟨c, by rw [resetRun, summed_zero]⟩
  | succ n ih =>
    obtain ⟨hfirst, hnext⟩ := summed_next h
    rw [resetRun, if_neg (UInt32.not_lt.mpr hfirst), ← summed_add]
    exact ih hnext

theorem resetLastRun_meets {c : Cursor} (hle : sampleCount ≤ sampleNum)
    (h : FirstOver sampleNum sampleCount samplesPerChunk d) (hd : d < fuel) :
    ∃ c', resetLastRun sampleNum chunkNum samplesPerChunk fuel k sampleCount c = some (c', true) ∧
      AtChunk c' sampleCount samplesPerChunk (chunkNum + k) d := by
  induction fuel generalizing d k sampleCount c with
  | zero => exact absurd hd (not_lt_zero d)
  | succ fuel ih =>
    rw [resetLastRun, if_pos hle]
    cases d with
    | zero =>
      rw [if_pos h.stop]
      exact ⟨_, rfl, atChunk_zero _ rfl rfl rfl rfl⟩
    | succ d =>
      rw [if_neg (UInt32.not_lt.mpr h.go)]
      obtain ⟨c', hrun, hat⟩ := ih (k := k + 1) h.go h.next (Nat.lt_of_succ_lt_succ hd)
      exact ⟨c', hrun, hat.step⟩

theorem resetLastRun_endless {c : Cursor} (hle : sampleCount ≤ sampleNum)
    (h : ∀ d, summed sampleCount samplesPerChunk (d + 1) ≤ sampleNum) :
    resetLastRun sampleNum chunkNum samplesPerChunk fuel k sampleCount c = none := by
  induction fuel generalizing k sampleCount c with
  | zero => rfl
  | succ fuel ih =>
    obtain ⟨hfirst, hnext⟩ := summed_next_all h
    rw [resetLastRun, if_pos hle, if_neg (UInt32.not_lt.mpr hfirst)]
    exact ih hfirst hnext

end Loops

/-! ## 3. Where a sample is -/

/-- The number of chunks in run `i`, and the samples in front of a run as `getFirstSampleNumInChunk`
    adds them up. -/
def numChunks (e : Nat → SampleToChunkEntry) (i : Nat) : UInt32 :=
  (e (i + 1)).firstChunk - (e i).firstChunk

def samplesBefore (e : Nat → SampleToChunkEntry) : Nat → UInt32
  | 0 => 0
  | i + 1 => samplesBefore e i + (e i).samplesPerChunk * numChunks e i

/-- The sum the scan for a sample has in front of a run: the chunks of a run that is not skipped are
    counted one by one, and a number of chunks from 2^31 on is negative. -/
def countBefore (e : Nat → SampleToChunkEntry) (sampleNum : UInt32) : Nat → UInt32
  | 0 => 0
  | i + 1 =>
    let count := countBefore e sampleNum i + (e i).samplesPerChunk * numChunks e i
    if count < sampleNum then count
    else summed (countBefore e sampleNum i) (e i).samplesPerChunk (turns (numChunks e i))

/-- The scan is past run `i`: the samples up to the next run are fewer, or no chunk's sum exceeds the
    sample. -/
def Passed (e : Nat → SampleToChunkEntry) (sampleNum : UInt32) (i : Nat) : Prop :=
  countBefore e sampleNum i + (e i).samplesPerChunk * numChunks e i < sampleNum ∨
    ∀ d < turns (numChunks e i),
      summed (countBefore e sampleNum i) (e i).samplesPerChunk (d + 1) ≤ sampleNum

/-- **The sample is met** in run `i`, behind `d` chunks of it. -/
structure Located (e : Nat → SampleToChunkEntry) (entryCount : Nat) (sampleNum : UInt32)
    (i d : Nat) : Prop where
  lt : i < entryCount
  passed : ∀ i' < i, Passed e sampleNum i'
  inside : i + 1 < entryCount →
    ¬ countBefore e sampleNum i + (e i).samplesPerChunk * numChunks e i < sampleNum ∧
      d < turns (numChunks e i)
  firstOver : FirstOver sampleNum (countBefore e sampleNum i) (e i).samplesPerChunk d

/-- **The scan has an end**: there is no run, a run is not passed, or a sum over the chunks of the
    last run exceeds the sample. -/
def ScanEnds (e : Nat → SampleToChunkEntry) (entryCount : Nat) (sampleNum : UInt32) : Prop :=
  entryCount = 0 ∨ (∃ i, i + 1 < entryCount ∧ ¬ Passed e sampleNum i) ∨
    ∃ d, sampleNum < summed (countBefore e sampleNum (entryCount - 1))
      (e (entryCount - 1)).samplesPerChunk (d + 1)

section Place

variable {e : Nat → SampleToChunkEntry} {entryCount : Nat} {sampleNum : UInt32} {i d : Nat}

/-- What was counted in the runs that are passed does not exceed the sample. -/
theorem countBefore_le (h : ∀ i' < i, Passed e sampleNum i') :
    countBefore e sampleNum i ≤ sampleNum := by
  induction i with
  | zero => exact UInt32.zero_le
  | succ i ih =>
    have hle := ih fun i' hi' => h i' (Nat.lt_succ_of_lt hi')
    rw [countBefore]
    split
    · rename_i hcount
      exact UInt32.le_of_lt hcount
    · rename_i hcount
      have hsums := (h i (lt_succ_self i)).resolve_left hcount
      generalize turns (numChunks e i) = n at hsums
      cases n with
      | zero => rwa [summed_zero]
      | succ n => exact hsums n (lt_succ_self n)

/-- In a run that is not passed the sample is met. -/
theorem exists_located_of_not_passed (hi : i + 1 < entryCount) (h : ∀ i' < i, Passed e sampleNum i')
    (hnot : ¬ Passed e sampleNum i) : ∃ d, Located e entryCount sampleNum i d := by
  unfold Passed at hnot
  rw [not_or] at hnot
  obtain ⟨hcount, hsums⟩ := hnot
  have hexists : ∃ d, d < turns (numChunks e i) ∧
      sampleNum < summed (countBefore e sampleNum i) (e i).samplesPerChunk (d + 1) := by
    by_contra hnone
    exact hsums fun d hd => UInt32.not_lt.mp fun hlt => hnone ⟨d, hd, hlt⟩
  obtain ⟨d, hd, hlt⟩ := hexists
  obtain ⟨d₀, -, hfirst⟩ := exists_firstOver ⟨d, hlt⟩
  have hle := hfirst.le_of_over hlt
  exact ⟨d₀, by omega, h, fun _ => ⟨hcount, by omega⟩, hfirst⟩

/-- **Where the scan has an end**, it has met the sample, or there was no run. -/
theorem scanEnds_iff : ScanEnds e entryCount sampleNum ↔
    entryCount = 0 ∨ ∃ i d, Located e entryCount sampleNum i d := by
  classical
  constructor
  · intro hends
    obtain hnone | hpos := Nat.eq_zero_or_pos entryCount
    · exact .inl hnone
    · right
      replace hends := hends.resolve_left (Nat.ne_of_gt hpos)
      by_cases hpassed : ∃ i, i + 1 < entryCount ∧ ¬ Passed e sampleNum i
      · refine ⟨Nat.find hpassed, ?_⟩
        obtain ⟨hlt, hnot⟩ := find_spec hpassed
        refine exists_located_of_not_passed hlt (fun i' hi' => ?_) hnot
        by_contra hnot'
        exact find_min hpassed hi' ⟨by omega, hnot'⟩
      · obtain ⟨d, hd⟩ := hends.resolve_left hpassed
        obtain ⟨d₀, -, hfirst⟩ := exists_firstOver ⟨d, hd⟩
        refine ⟨entryCount - 1, d₀, by omega, fun i' hi' => ?_, fun hlt => by omega, hfirst⟩
        by_contra hnot
        exact hpassed ⟨i', by omega, hnot⟩
  · intro hlocated
    obtain hnone | ⟨i, d, h⟩ := hlocated
    · exact .inl hnone
    · right
      by_cases hlast : i + 1 < entryCount
      · left
        refine ⟨i, hlast, fun hpassed => ?_⟩
        obtain hcount | hsums := hpassed
        · exact (h.inside hlast).1 hcount
        · exact absurd h.firstOver.exceeds (UInt32.not_lt.mpr (hsums d (h.inside hlast).2))
      · right
        have hlt := h.lt
        obtain rfl : i = entryCount - 1 := by omega
        exact ⟨d, h.firstOver.exceeds⟩

/-- Where it has none, every run is passed, and no sum over the last run's chunks exceeds the
    sample. -/
theorem passed_of_not_ends (hends : ¬ ScanEnds e entryCount sampleNum) :
    (∀ i, i + 1 < entryCount → Passed e sampleNum i) ∧
      ∀ d, summed (countBefore e sampleNum (entryCount - 1))
        (e (entryCount - 1)).samplesPerChunk (d + 1) ≤ sampleNum := by
  unfold ScanEnds at hends
  rw [not_or, not_or] at hends
  obtain ⟨-, hpassed, hnone⟩ := hends
  refine ⟨fun i hi => ?_, fun d => UInt32.not_lt.mp fun hlt => hnone ⟨d, hlt⟩⟩
  by_contra hnot
  exact hpassed ⟨i, hi, hnot⟩

end Place

/-! ## 4. The scans -/

section Scans

variable {T : SampleToChunkTable} {t : StblTable SampleToChunkEntry}
variable {e : Nat → SampleToChunkEntry} {entryCount : Nat} {mode : Bool} {sampleNum : UInt32}
variable {lastRun : UInt32 → UInt32 → Nat → UInt32 → UInt32 → Option (Option UInt32)}

/-- A run that is passed, in the scan. -/
theorem sampleScan_passed (h : T.Holds e entryCount mode t) {i n : Nat} (hi : i + 1 < entryCount)
    (hpassed : Passed e sampleNum i) :
    ∃ t', T.Holds e entryCount mode t' ∧
      T.sampleScan mode lastRun sampleNum (n + 1) i (countBefore e sampleNum i) t =
        T.sampleScan mode lastRun sampleNum n (i + 1) (countBefore e sampleNum (i + 1)) t' := by
  obtain ⟨t₁, hfetch, h₁, hslot, -⟩ := h.fetch (lt_of_succ_lt hi)
  obtain ⟨t₂, hfetch₂, h₂, hslot₂, -⟩ := h₁.fetch hi
  refine ⟨t₂, h₂, ?_⟩
  rw [sampleScan, hfetch, bind_some]
  dsimp only
  rw [hslot, h₁.entryCount_eq, if_pos hi, hfetch₂, bind_some, hslot₂, countBefore]
  unfold Passed at hpassed
  rw [numChunks] at hpassed ⊢
  by_cases hcount : countBefore e sampleNum i +
      (e i).samplesPerChunk * ((e (i + 1)).firstChunk - (e i).firstChunk) < sampleNum
  · rw [if_pos hcount, if_pos hcount]
  · rw [if_neg hcount, if_neg hcount, inRun_passed (hpassed.resolve_left hcount)]

/-- **The scan meets the sample**. -/
theorem sampleScan_located (hloop : LastRunLoop lastRun) (h : T.Holds e entryCount mode t)
    {i d n i₀ : Nat} (hn : i₀ + n = entryCount) (hi : i₀ ≤ i)
    (hat : Located e entryCount sampleNum i d) :
    ∃ t', T.sampleScan mode lastRun sampleNum n i₀ (countBefore e sampleNum i₀) t =
        some (t', some ⟨i, (e i).firstChunk + UInt32.ofNat d, (e i).samplesPerChunk⟩) ∧
      T.Holds e entryCount mode t' ∧ t'.slot i = e i := by
  have hlt := hat.lt
  induction n generalizing i₀ t with
  | zero => omega
  | succ n ih =>
    by_cases hhere : i₀ = i
    · subst hhere
      have hle := countBefore_le hat.passed
      obtain ⟨t₁, hfetch, h₁, hslot, -⟩ := h.fetch hlt
      rw [sampleScan, hfetch, bind_some]
      dsimp only
      rw [hslot, h₁.entryCount_eq]
      by_cases hlast : i₀ + 1 < entryCount
      · obtain ⟨hcount, hd⟩ := hat.inside hlast
        obtain ⟨t₂, hfetch₂, h₂, hslot₂, hprev⟩ := h₁.fetch hlast
        obtain ⟨count, hrun⟩ := @inRun_meets _ _ _ d (turns (numChunks e i₀)) 0 hat.firstOver hd
        rw [numChunks] at hcount hrun
        rw [if_pos hlast, hfetch₂, bind_some, hslot₂, if_neg hcount, hrun,
          UInt32.zero_add]
        exact ⟨t₂, rfl, h₂, hprev i₀ rfl (.inl hslot)⟩
      · have hfuel : d < wordFuel := Nat.lt_succ_of_lt hat.firstOver.lt
        have hrun := @LastRunLoop.found _ hloop _ _ _ _ 0 _ hle hat.firstOver hfuel
        rw [UInt32.zero_add] at hrun
        rw [if_neg hlast, hrun, bind_some]
        exact ⟨t₁, rfl, h₁, hslot⟩
    · obtain ⟨t', h', hscan⟩ := @sampleScan_passed T t e entryCount mode sampleNum lastRun h i₀ n
        (by omega) (hat.passed i₀ (by omega))
      rw [hscan]
      exact ih h' (by omega) (by omega)

/-- **The scan does not end** where every run is passed and no sum over the last run's chunks exceeds
    the sample. -/
theorem sampleScan_endless (hloop : LastRunLoop lastRun) (h : T.Holds e entryCount mode t)
    {n i₀ : Nat} (hn : i₀ + (n + 1) = entryCount) (hends : ¬ ScanEnds e entryCount sampleNum) :
    T.sampleScan mode lastRun sampleNum (n + 1) i₀ (countBefore e sampleNum i₀) t = none := by
  obtain ⟨hall, hnone⟩ := passed_of_not_ends hends
  induction n generalizing i₀ t with
  | zero =>
    have hlast : i₀ = entryCount - 1 := by omega
    rw [← hlast] at hnone
    have hle := countBefore_le fun i' (hi' : i' < i₀) => hall i' (by omega)
    obtain ⟨t₁, hfetch, h₁, hslot, -⟩ := h.fetch (show i₀ < entryCount by omega)
    rw [sampleScan, hfetch, bind_some]
    dsimp only
    rw [hslot, h₁.entryCount_eq, if_neg (by omega), hloop.endless hle hnone, bind_none]
  | succ n ih =>
    obtain ⟨t', h', hscan⟩ := @sampleScan_passed T t e entryCount mode sampleNum lastRun h i₀
      (n + 1) (by omega) (hall i₀ (by omega))
    rw [hscan]
    exact ih h' (by omega)

/-- A run that is passed, in the reset. -/
theorem resetScan_passed (h : T.Holds e entryCount mode t) {i n : Nat} (hi : i + 1 < entryCount)
    (hheld : t.slot i = e i ∨ i = 0) (hpassed : Passed e sampleNum i) (c : Cursor)
    (numChunks : Int32) :
    ∃ t' c', T.Holds e entryCount mode t' ∧ t'.slot (i + 1) = e (i + 1) ∧
      T.resetScan mode sampleNum (n + 1) i (countBefore e sampleNum i) t c numChunks =
        T.resetScan mode sampleNum n (i + 1) (countBefore e sampleNum (i + 1)) t' c' numChunks := by
  obtain ⟨t₁, hfetch, h₁, hslot, hnext⟩ := h.fetchNext (lt_of_succ_lt hi) hheld
  have hslot₂ := hnext hi
  rw [resetScan, hfetch, bind_some]
  dsimp only
  rw [hslot, h₁.entryCount_eq, if_pos hi, hslot₂, countBefore]
  unfold Passed at hpassed
  rw [SampleToChunkTable.numChunks] at hpassed ⊢
  by_cases hcount : countBefore e sampleNum i +
      (e i).samplesPerChunk * ((e (i + 1)).firstChunk - (e i).firstChunk) < sampleNum
  · rw [if_pos hcount, if_pos hcount]
    exact ⟨t₁, c, h₁, hslot₂, rfl⟩
  · obtain ⟨c', hrun⟩ := @resetRun_passed sampleNum _ _ _ 0 (e i).firstChunk
      { c with numChunksInRun := ((e (i + 1)).firstChunk - (e i).firstChunk).toInt32 }
      (hpassed.resolve_left hcount)
    rw [if_neg hcount, if_neg hcount, hrun]
    exact ⟨t₁, c', h₁, hslot₂, rfl⟩

/-- **The reset meets the sample**: its cursor is at the sample's chunk, and counts the chunks left
    in a run with an end. -/
theorem resetScan_located (h : T.Holds e entryCount mode t) {i d n i₀ : Nat}
    (hn : i₀ + n = entryCount) (hi : i₀ ≤ i) (hheld : t.slot i₀ = e i₀ ∨ i₀ = 0)
    (hat : Located e entryCount sampleNum i d) (c : Cursor) (numChunks : Int32) :
    ∃ t' c' num,
      T.resetScan mode sampleNum n i₀ (countBefore e sampleNum i₀) t c numChunks =
        some (t', c', num, true) ∧
      T.Holds e entryCount mode t' ∧
      AtChunk c' (countBefore e sampleNum i) (e i).samplesPerChunk (e i).firstChunk d ∧
      c'.majorIndex = i ∧ c'.currSDI = (e i).sampleDescrIndex.toInt32 ∧
      c'.numChunksInRun =
        if i + 1 < entryCount then (SampleToChunkTable.numChunks e i).toInt32 - Int32.ofNat d
        else 1 := by
  have hlt := hat.lt
  induction n generalizing i₀ t c with
  | zero => omega
  | succ n ih =>
    by_cases hhere : i₀ = i
    · subst hhere
      have hle := countBefore_le hat.passed
      obtain ⟨t₁, hfetch, h₁, hslot, hnext⟩ := h.fetchNext hlt hheld
      rw [resetScan, hfetch, bind_some]
      dsimp only
      rw [hslot, h₁.entryCount_eq]
      by_cases hlast : i₀ + 1 < entryCount
      · obtain ⟨hcount, hd⟩ := hat.inside hlast
        have hslot₂ := hnext hlast
        rw [SampleToChunkTable.numChunks] at hcount hd
        obtain ⟨c', count, hrun, hat', hleft⟩ := @resetRun_meets _ _ _ d _ 0 (e i₀).firstChunk
          { c with numChunksInRun := ((e (i₀ + 1)).firstChunk - (e i₀).firstChunk).toInt32 }
          hat.firstOver hd
        rw [UInt32.add_zero] at hat'
        rw [if_pos hlast, hslot₂, if_neg hcount, hrun, if_pos hlast]
        exact ⟨t₁, _, _, rfl, h₁, ⟨hat'.currChunk, hat'.first, hat'.samples, hat'.count⟩, rfl, rfl,
          hleft⟩
      · have hfuel : d < wordFuel := Nat.lt_succ_of_lt hat.firstOver.lt
        obtain ⟨c', hrun, hat'⟩ := @resetLastRun_meets _ _ _ d wordFuel 0 (e i₀).firstChunk c hle
          hat.firstOver hfuel
        rw [UInt32.add_zero] at hat'
        rw [if_neg hlast, hrun, bind_some, if_neg hlast]
        exact ⟨t₁, _, _, rfl, h₁, ⟨hat'.currChunk, hat'.first, hat'.samples, hat'.count⟩, rfl, rfl,
          rfl⟩
    · obtain ⟨t', c', h', hslot', hscan⟩ := @resetScan_passed T t e entryCount mode sampleNum h i₀
        n (by omega) hheld (hat.passed i₀ (by omega)) c numChunks
      rw [hscan]
      exact ih h' (by omega) (by omega) (.inl hslot') c'

theorem resetScan_endless (h : T.Holds e entryCount mode t) {n i₀ : Nat}
    (hn : i₀ + (n + 1) = entryCount) (hheld : t.slot i₀ = e i₀ ∨ i₀ = 0)
    (hends : ¬ ScanEnds e entryCount sampleNum) (c : Cursor) (numChunks : Int32) :
    T.resetScan mode sampleNum (n + 1) i₀ (countBefore e sampleNum i₀) t c numChunks = none := by
  obtain ⟨hall, hnone⟩ := passed_of_not_ends hends
  induction n generalizing i₀ t c with
  | zero =>
    have hlast : i₀ = entryCount - 1 := by omega
    rw [← hlast] at hnone
    have hle := countBefore_le fun i' (hi' : i' < i₀) => hall i' (by omega)
    obtain ⟨t₁, hfetch, h₁, hslot, -⟩ := h.fetchNext (show i₀ < entryCount by omega) hheld
    rw [resetScan, hfetch, bind_some]
    dsimp only
    rw [hslot, h₁.entryCount_eq, if_neg (by omega), resetLastRun_endless hle hnone,
      bind_none]
  | succ n ih =>
    obtain ⟨t', c', h', hslot', hscan⟩ := @resetScan_passed T t e entryCount mode sampleNum h i₀
      (n + 1) (by omega) hheld (hall i₀ (by omega)) c numChunks
    rw [hscan]
    exact ih h' (by omega) (.inl hslot') c'

end Scans

/-! ## 5. The first sample of a chunk -/

/-- The runs start at rising chunks. -/
def Rising (e : Nat → SampleToChunkEntry) (entryCount : Nat) : Prop :=
  ∀ i, i + 1 < entryCount → (e i).firstChunk < (e (i + 1)).firstChunk

/-- **Chunk `d` of run `i`** is there, and its number is a number of 32 bits. -/
structure ChunkOf (e : Nat → SampleToChunkEntry) (entryCount i d : Nat) : Prop where
  lt : i < entryCount
  inside : i + 1 < entryCount → d < (numChunks e i).toNat
  number : (e i).firstChunk.toNat + d < 4294967296

section FirstSample

variable {T : SampleToChunkTable} {t : StblTable SampleToChunkEntry}
variable {e : Nat → SampleToChunkEntry} {entryCount : Nat} {mode : Bool} {i d : Nat}

theorem Rising.lt (hrises : Rising e entryCount) {i' : Nat} (hi : i < i') (hlt : i' < entryCount) :
    (e i).firstChunk < (e i').firstChunk := by
  induction i' with
  | zero => exact absurd hi (not_lt_zero i)
  | succ i' ih =>
    have hstep := hrises i' hlt
    obtain hbefore | rfl := Nat.lt_succ_iff_lt_or_eq.mp hi
    · exact UInt32.lt_trans (ih hbefore (by omega)) hstep
    · exact hstep

theorem ChunkOf.toNat (h : ChunkOf e entryCount i d) :
    ((e i).firstChunk + UInt32.ofNat d).toNat = (e i).firstChunk.toNat + d := by
  have hnumber := h.number
  rw [toNat_add, toNat_ofNat']
  omega

/-- The chunks of a run end where the next run starts. -/
theorem ChunkOf.lt_next (h : ChunkOf e entryCount i d) (hrises : Rising e entryCount)
    (hi : i + 1 < entryCount) :
    (e i).firstChunk + UInt32.ofNat d < (e (i + 1)).firstChunk := by
  have hd := h.inside hi
  have hstep : (e i).firstChunk.toNat < (e (i + 1)).firstChunk.toNat := hrises i hi
  rw [numChunks, toNat_sub_of_le _ _ (UInt32.le_of_lt (hrises i hi))] at hd
  rw [lt_iff_toNat_lt, h.toNat]
  omega

theorem offset_mul (d : Nat) (firstChunk samplesPerChunk : UInt32) :
    (firstChunk + UInt32.ofNat d - firstChunk) * samplesPerChunk =
      UInt32.ofNat d * samplesPerChunk := by
  rw [UInt32.add_comm, UInt32.add_sub_cancel]

/-- **The first sample of a chunk** is counted up from the samples in front of its run. -/
theorem firstSampleScan_at (h : T.Holds e entryCount mode t) (hrises : Rising e entryCount)
    (hat : ChunkOf e entryCount i d) {n i₀ : Nat} (hn : i₀ + n = entryCount) (hi : i₀ ≤ i)
    (samplesInRun : UInt32) :
    ∃ t', T.firstSampleScan mode ((e i).firstChunk + UInt32.ofNat d) n i₀ (samplesBefore e i₀)
        samplesInRun t = some (t', some (summed (samplesBefore e i) (e i).samplesPerChunk d)) ∧
      T.Holds e entryCount mode t' := by
  have hlt := hat.lt
  have hle := h.le
  have hin := T.inAtom
  induction n generalizing i₀ samplesInRun t with
  | zero => omega
  | succ n ih =>
    obtain ⟨t₁, hfetch, h₁, hslot, -⟩ := h.fetch (show i₀ < entryCount by omega)
    rw [firstSampleScan, hfetch, bind_some]
    dsimp only
    rw [hslot, h₁.entryCount_eq]
    by_cases hhere : i₀ = i
    · subst hhere
      have hnotBefore : ¬ (e i₀).firstChunk + UInt32.ofNat d < (e i₀).firstChunk := by
        rw [lt_iff_toNat_lt, hat.toNat]
        omega
      rw [if_neg hnotBefore]
      by_cases hfirst : (e i₀).firstChunk + UInt32.ofNat d = (e i₀).firstChunk
      · have hzero : UInt32.ofNat d = 0 := UInt32.add_eq_left.mp hfirst
        rw [if_pos hfirst, summed, hzero, UInt32.zero_mul, UInt32.add_zero]
        exact ⟨t₁, rfl, h₁⟩
      · rw [if_neg hfirst]
        by_cases hlast : i₀ + 1 < entryCount
        · -- the next run starts behind the chunk, and the scan steps back
          obtain ⟨t₂, hfetch₂, h₂, hslot₂, hnext⟩ := h₁.fetchNext hlt (.inl hslot)
          obtain ⟨t₃, hfetch₃, h₃, hslot₃, -⟩ := h₂.fetch hlast
          obtain ⟨t₄, hfetch₄, h₄, hslot₄, -⟩ := h₃.fetch hlt
          obtain ⟨n, rfl⟩ : ∃ n', n = n' + 1 := ⟨n - 1, by omega⟩
          have hback : sub32 (i₀ + 1) 1 = i₀ := sub32_eq (succ_pos i₀) (by omega)
          rw [if_pos hlast, hfetch₂, bind_some, hnext hlast, hslot₂, firstSampleScan,
            hfetch₃, bind_some]
          dsimp only
          rw [hslot₃, if_pos (hat.lt_next hrises hlast), hback, hfetch₄, bind_some,
            hslot₄, offset_mul, UInt32.add_sub_cancel]
          exact ⟨t₄, rfl, h₄⟩
        · rw [if_neg hlast, offset_mul]
          exact ⟨t₁, rfl, h₁⟩
    · have hbefore := hrises.lt (show i₀ < i by omega) hlt
      have hchunk : (e i₀).firstChunk < (e i).firstChunk + UInt32.ofNat d := by
        rw [lt_iff_toNat_lt] at hbefore ⊢
        rw [hat.toNat]
        omega
      obtain ⟨t₂, hfetch₂, h₂, hslot₂, hnext⟩ :=
        h₁.fetchNext (show i₀ < entryCount by omega) (.inl hslot)
      have hlast : i₀ + 1 < entryCount := by omega
      rw [if_neg (UInt32.not_lt.mpr (UInt32.le_of_lt hchunk)),
        if_neg (UInt32.ne_of_lt hchunk).symm, if_pos hlast, hfetch₂, bind_some,
        hnext hlast, hslot₂]
      exact ih h₂ (by omega) (by omega) _

/-- The runs that are kept start at rising chunks. -/
theorem readAll_rising {n i : Nat} (hn : i + n = T.entryCount.toNat) {offSet prev : UInt32} {j : Nat}
    {vec : Nat → SampleToChunkEntry} (hrises : Rising vec j)
    (hlast : ∀ k, k + 1 = j → (vec k).firstChunk = prev - offSet) (hstart : i = 0 → j = 0)
    (hoff : 0 < i → offSet ≤ prev) :
    Rising (T.readAll n i offSet prev j vec).2.1 (T.readAll n i offSet prev j vec).1 := by
  induction n generalizing i offSet prev j vec with
  | zero => exact hrises
  | succ n ih =>
    rw [readAll_succ (by omega)]
    split
    · rename_i hkept
      refine ih (by omega) ?_ ?_ (fun h => absurd h (succ_ne_zero i)) fun _ => ?_
      · intro k hk
        obtain hbefore | hat := Nat.lt_or_ge (k + 1) j
        · rw [update_of_ne (by omega), update_of_ne (by omega)]
          exact hrises k hbefore
        · -- the run kept before, and the new one behind it
          obtain rfl : j = k + 1 := by omega
          have hi : i ≠ 0 := fun hi => absurd (hstart hi) (succ_ne_zero k)
          have hle := hoff (Nat.pos_of_ne_zero hi)
          rw [update_of_ne (Nat.ne_of_lt (lt_succ_self k)), update_self,
            if_neg hi, hlast k rfl, rawEntry, lt_iff_toNat_lt,
            toNat_sub_of_le _ _ hle,
            toNat_sub_of_le _ _ (UInt32.le_trans hle (UInt32.le_of_lt hkept))]
          have hkept' : prev.toNat < (T.firstChunkAt i).toNat := hkept
          have hle' : offSet.toNat ≤ prev.toNat := hle
          omega
      · intro k hk
        obtain rfl : j = k := by omega
        rw [update_self]
        rfl
      · split
        · exact UInt32.le_refl _
        · rename_i hi
          exact UInt32.le_trans (hoff (Nat.pos_of_ne_zero hi)) (UInt32.le_of_lt hkept)
    · rename_i hkept
      refine ih (by omega) hrises ?_ (fun h => absurd h (succ_ne_zero i)) fun _ => ?_
      · intro k hk
        have hi : i ≠ 0 := fun hi => absurd (hstart hi) (by omega)
        rw [if_neg hi]
        exact hlast k hk
      · split
        · exact UInt32.not_lt.mp hkept
        · rename_i hi
          exact hoff (Nat.pos_of_ne_zero hi)

theorem rising_window (hT : T.Increasing) : Rising T.entryFile.entry T.entryCount.toNat := by
  intro i hi
  have hpos : 0 < (T.firstChunkAt i).toNat := hT.pos (lt_of_succ_lt hi)
  have hstep : (T.firstChunkAt i).toNat < (T.firstChunkAt (i + 1)).toNat :=
    hT.2 i (Nat.zero_le i) hi
  have hlow : (1 : UInt32) ≤ T.firstChunkAt (i + 1) := by
    rw [UInt32.le_iff_toNat_le]
    show 1 ≤ _
    omega
  have hnext : (T.entryFile.entry (i + 1)).firstChunk = T.firstChunkAt (i + 1) - 1 := rfl
  rw [lt_iff_toNat_lt, hnext, toNat_sub_of_le _ _ hlow]
  obtain rfl | hi0 := Nat.eq_zero_or_pos i
  · rw [entry_zero]
    show 0 < _ - 1
    omega
  · have hle : (1 : UInt32) ≤ T.firstChunkAt i := by
      rw [UInt32.le_iff_toNat_le]
      exact hpos
    have hhere : (T.entryFile.entry i).firstChunk = T.firstChunkAt i - 1 := by
      show T.firstChunkAt i - (if i = 0 then _ else 1) = _
      rw [if_neg (Nat.ne_of_gt hi0)]
    rw [hhere, toNat_sub_of_le _ _ hle]
    show _ - 1 < _ - 1
    omega

end FirstSample

/-! ## 6. The chunk of the sample -/

/-- **A sample within reach**: a run is not passed, or a sum over the chunks of the last run exceeds
    the sample before the chunk numbers go around; and the chunks of each run that is not skipped
    are fewer than 2^31. -/
structure WithinReach (e : Nat → SampleToChunkEntry) (entryCount : Nat) (sampleNum : UInt32) :
    Prop where
  meets : (∃ i, i + 1 < entryCount ∧ ¬ Passed e sampleNum i) ∨
    0 < entryCount ∧ ∃ d, (e (entryCount - 1)).firstChunk.toNat + d < 4294967296 ∧
      sampleNum < summed (countBefore e sampleNum (entryCount - 1))
        (e (entryCount - 1)).samplesPerChunk (d + 1)
  counted : ∀ i, i + 1 < entryCount →
    countBefore e sampleNum i + (e i).samplesPerChunk * numChunks e i < sampleNum ∨
      (numChunks e i).toNat < 2147483648

section Reach

variable {e : Nat → SampleToChunkEntry} {entryCount : Nat} {sampleNum : UInt32} {i d : Nat}

/-- A run has no turns that are not chunks of it. -/
theorem turns_le (n : UInt32) : turns n ≤ n.toNat := by
  obtain hsmall | hlarge := Nat.lt_or_ge n.toNat 2147483648
  · exact Nat.le_of_eq (turns_eq hsmall)
  · have hneg : n.toInt32.toInt = (n.toNat : Int) - 4294967296 := by
      show n.toBitVec.toInt = _
      have hle : 4294967296 ≤ 2 * n.toBitVec.toNat := by
        show 4294967296 ≤ 2 * n.toNat
        omega
      rw [BitVec.toInt_eq_toNat_cond, if_neg (Nat.not_lt.mpr hle)]
      rfl
    have hlt := n.toNat_lt
    rw [turns, hneg]
    omega

section

variable (h : WithinReach e entryCount sampleNum)
include h

/-- Where the runs are counted, the scan's sum is that of the samples in front of a run. -/
theorem WithinReach.countBefore_eq (hi : i < entryCount) :
    countBefore e sampleNum i = samplesBefore e i := by
  induction i with
  | zero => rfl
  | succ i ih =>
    rw [countBefore, samplesBefore, ← ih (lt_of_succ_lt hi)]
    by_cases hskip : countBefore e sampleNum i + (e i).samplesPerChunk * numChunks e i < sampleNum
    · rw [if_pos hskip]
    · rw [if_neg hskip, turns_eq ((h.counted i hi).resolve_left hskip), summed,
        ofNat_toNat, UInt32.mul_comm]

/-- **A sample within reach is in a chunk** of some run. -/
theorem WithinReach.located (hrises : Rising e entryCount) :
    ∃ i d, Located e entryCount sampleNum i d ∧ ChunkOf e entryCount i d := by
  classical
  by_cases hpassed : ∃ i, i + 1 < entryCount ∧ ¬ Passed e sampleNum i
  · obtain ⟨hlt, hnot⟩ := find_spec hpassed
    obtain ⟨d, hat⟩ := exists_located_of_not_passed hlt (fun i' hi' => by
      by_contra hnot'
      exact find_min hpassed hi' ⟨by omega, hnot'⟩) hnot
    refine ⟨Nat.find hpassed, d, hat, ?_⟩
    have hd := Nat.lt_of_lt_of_le (hat.inside hlt).2 (turns_le _)
    refine ⟨hat.lt, fun _ => hd, ?_⟩
    -- the next run's first chunk is a number of 32 bits
    have hle := UInt32.le_of_lt (hrises _ hlt)
    have hnext := UInt32.toNat_lt (e (Nat.find hpassed + 1)).firstChunk
    rw [numChunks, toNat_sub_of_le _ _ hle] at hd
    omega
  · obtain ⟨hpos, d, hnumber, hover⟩ := h.meets.resolve_left hpassed
    obtain ⟨d₀, -, hfirst⟩ := exists_firstOver ⟨d, hover⟩
    have hle := hfirst.le_of_over hover
    refine ⟨entryCount - 1, d₀, ⟨by omega, fun i' hi' => ?_, fun hlt => by omega, hfirst⟩,
      by omega, fun hlt => by omega, by omega⟩
    by_contra hnot
    exact hpassed ⟨i', by omega, hnot⟩

/-- **The sample is in that chunk**: not in front of it, and not behind its samples. -/
theorem Located.contains (hat : Located e entryCount sampleNum i d) :
    summed (samplesBefore e i) (e i).samplesPerChunk d ≤ sampleNum ∧
      sampleNum.toNat < (summed (samplesBefore e i) (e i).samplesPerChunk d).toNat +
        (e i).samplesPerChunk.toNat := by
  have hle := hat.firstOver.le (countBefore_le hat.passed)
  have hover := hat.firstOver.exceeds
  rw [h.countBefore_eq hat.lt] at hle hover
  refine ⟨hle, ?_⟩
  rw [summed_succ, lt_iff_toNat_lt, toNat_add] at hover
  exact Nat.lt_of_lt_of_le hover (Nat.mod_le _ _)

end

end Reach

end SampleToChunkTable

variable {ans : Answer}

namespace SampleToChunkAtom

open SampleToChunkTable

variable {T : SampleToChunkTable} {e : Nat → SampleToChunkEntry} {entryCount : Nat}
variable {a a' : SampleToChunkAtom} {sampleNum : UInt32}

/-- An atom with these runs: its table holds them, or it has neither. -/
inductive Holding (T : SampleToChunkTable) (e : Nat → SampleToChunkEntry) (entryCount : Nat)
    (a : SampleToChunkAtom) : Prop where
  | null (hnone : a.table = none) (hcount : entryCount = 0)
  | table (t : StblTable SampleToChunkEntry) (ht : a.table = some t)
      (h : T.Holds e entryCount a.parsingMode t)

/-- The calls the atom answers, by query or for a sample. -/
inductive Ask where
  | query (q : Query)
  | getSamplesPerChunkCorrespondingToSample (sampleNum : UInt32)
  | resetStateVariablesTo (sampleNum : UInt32)
  deriving DecidableEq, Repr

/-- The atom behind a call, where the call returns. -/
def ask (T : SampleToChunkTable) (a : SampleToChunkAtom) : Ask → Option SampleToChunkAtom
  | .query q => (a.query T q).map Prod.fst
  | .getSamplesPerChunkCorrespondingToSample n =>
    (a.getSamplesPerChunkCorrespondingToSample T n).map Prod.fst
  | .resetStateVariablesTo n => (a.resetStateVariablesTo T n).map Prod.fst

/-! ## 7. What every call keeps -/

/-- A query of the table keeps the runs, if the table does. -/
theorem Holding.onTable (h : Holding T e entryCount a)
    {f : StblTable SampleToChunkEntry → Option (StblTable SampleToChunkEntry × Answer)}
    (hf : ∀ t t' ans, T.Holds e entryCount a.parsingMode t → f t = some (t', ans) →
      T.Holds e entryCount a.parsingMode t')
    (hq : a.onTable f = some (a', ans)) : Holding T e entryCount a' := by
  unfold SampleToChunkAtom.onTable at hq
  cases h with
  | null hnone hcount =>
    rw [hnone] at hq
    cases hq
    exact .null hnone hcount
  | table t ht h =>
    rw [ht] at hq
    obtain ⟨r, hr, he⟩ := map_eq_some_iff.mp hq
    cases he
    exact .table r.1 rfl (hf t r.1 r.2 h hr)

theorem Holding.entryAt (h : Holding T e entryCount a) {field : SampleToChunkEntry → UInt32}
    {index : UInt32} (hq : a.entryAt T field index = some (a', ans)) :
    Holding T e entryCount a' := by
  refine h.onTable (fun t t' ans h hr => ?_) hq
  rw [h.entryCount_eq] at hr
  by_cases hi : index.toNat < entryCount
  · obtain ⟨t₁, hfetch, h₁, -⟩ := h.fetch hi
    rw [if_pos hi, hfetch] at hr
    cases hr
    exact h₁
  · rw [if_neg hi] at hr
    cases hr
    exact h

variable {t : StblTable SampleToChunkEntry} {mode : Bool}

variable {lastRun : UInt32 → UInt32 → Nat → UInt32 → UInt32 → Option (Option UInt32)}

theorem holds_of_sampleScan {t' : StblTable SampleToChunkEntry} {found : Option Found}
    (h : T.Holds e entryCount mode t)
    (hr : T.sampleScan mode lastRun sampleNum t.entryCount 0 0 t = some (t', found)) :
    T.Holds e entryCount mode t' := by
  rw [h.entryCount_eq] at hr
  obtain ⟨u, -, htwin⟩ :=
    (sampleScan_same lastRun sampleNum 0 ⟨h, h⟩ (Nat.zero_add entryCount)).right hr
  exact htwin.1

section

variable (h : Holding T e entryCount a)
include h

theorem Holding.getChunkNumberForSample
    (hq : a.getChunkNumberForSample T sampleNum = some (a', ans)) : Holding T e entryCount a' := by
  unfold SampleToChunkAtom.getChunkNumberForSample at hq
  cases h with
  | null hnone hcount =>
    rw [hnone] at hq
    cases hq
    exact .null hnone hcount
  | table t ht h =>
    rw [ht] at hq
    obtain ⟨⟨t', found⟩, hr, he⟩ := map_eq_some_iff.mp hq
    have h' := holds_of_sampleScan h hr
    cases found with
    | none =>
      cases he
      exact .table t' rfl h'
    | some found =>
      cases he
      exact .table t' rfl h'

theorem Holding.getFirstSampleNumInChunk {chunkNum : UInt32}
    (hq : a.getFirstSampleNumInChunk T chunkNum = some (a', ans)) :
    Holding T e entryCount a' := by
  refine h.onTable (fun t t' ans h hr => ?_) hq
  obtain ⟨⟨t₁, found⟩, hscan, he⟩ := map_eq_some_iff.mp hr
  cases he
  generalize a.parsingMode = mode at h hscan
  cases mode with
  | false =>
    rw [firstSampleScan_memory hscan]
    exact h
  | true =>
    -- the window serves from chunk 0 on
    have hzero : (e 0).firstChunk = 0 := by
      cases h with
      | window => exact entry_zero
    rw [h.entryCount_eq] at hscan
    obtain ⟨u, -, htwin⟩ := (firstSampleScan_same hzero chunkNum 0 0 ⟨h, h⟩
      (Nat.zero_add entryCount)).right hscan
    exact htwin.1

theorem Holding.getSamplesPerChunk
    (hq : a.getSamplesPerChunkCorrespondingToSample T sampleNum = some (a', ans)) :
    Holding T e entryCount a' := by
  refine h.onTable (fun t t' ans h hr => ?_) hq
  obtain ⟨⟨t₁, found⟩, hscan, he⟩ := map_eq_some_iff.mp hr
  cases he
  exact holds_of_sampleScan h hscan

theorem Holding.resetStateVariablesTo {code : Mp4ErrorCode}
    (hq : a.resetStateVariablesTo T sampleNum = some (a', code)) : Holding T e entryCount a' := by
  cases h with
  | null hnone hcount =>
    have hnone' : a.resetStateVariables.table = none := hnone
    unfold SampleToChunkAtom.resetStateVariablesTo at hq
    dsimp only at hq
    rw [hnone'] at hq
    cases hq
    exact .null hnone' hcount
  | table t ht h =>
    obtain ⟨t', ht', h'⟩ := resetStateVariablesTo_holds ht h hq
    exact .table t' ht' h'

/-- **No call changes the runs** an atom has. -/
theorem Holding.ask {c : Ask} (hc : a.ask T c = some a') :
    Holding T e entryCount a' := by
  cases c with
  | query q =>
    obtain ⟨⟨a₁, ans⟩, hq, rfl⟩ := map_eq_some_iff.mp hc
    cases q with
    | getFirstChunkAt index => exact h.entryAt hq
    | getSamplesPerChunkAt index => exact h.entryAt hq
    | getChunkNumberForSample n => exact h.getChunkNumberForSample hq
    | getFirstSampleNumInChunk c => exact h.getFirstSampleNumInChunk hq
  | getSamplesPerChunkCorrespondingToSample n =>
    obtain ⟨⟨a₁, ans⟩, hq, rfl⟩ := map_eq_some_iff.mp hc
    exact h.getSamplesPerChunk hq
  | resetStateVariablesTo n =>
    obtain ⟨⟨a₁, code⟩, hq, rfl⟩ := map_eq_some_iff.mp hc
    exact h.resetStateVariablesTo hq

end

theorem Holding.asks {a₀ : SampleToChunkAtom} (h : Holding T e entryCount a₀) {cs : List Ask}
    (hrun : execAll (SampleToChunkAtom.ask T) a₀ cs = some a) : Holding T e entryCount a := by
  have hstep : ∀ a c a', Holding T e entryCount a → stepsOf (SampleToChunkAtom.ask T) a c a' →
      Holding T e entryCount a' := fun _ _ _ hold hc => Holding.ask hold hc
  exact Run.invariant h hstep (Run.of_execAll hrun)

/-! ## 8. When the calls return -/

theorem sampleScan_isSome
    (hloop : LastRunLoop lastRun) (h : T.Holds e entryCount mode t) :
    (T.sampleScan mode lastRun sampleNum t.entryCount 0 0 t).isSome ↔
      ScanEnds e entryCount sampleNum := by
  rw [h.entryCount_eq]
  by_cases hends : ScanEnds e entryCount sampleNum
  · refine iff_of_true ?_ hends
    obtain hzero | ⟨i, d, hat⟩ := scanEnds_iff.mp hends
    · rw [hzero]
      rfl
    · obtain ⟨t', hscan, -⟩ :=
        sampleScan_located hloop h (Nat.zero_add entryCount) (Nat.zero_le i) hat
      rw [show (0 : UInt32) = countBefore e sampleNum 0 from rfl, hscan]
      rfl
  · refine iff_of_false ?_ hends
    obtain ⟨n, rfl⟩ : ∃ n, entryCount = n + 1 :=
      Nat.exists_eq_succ_of_ne_zero fun hzero => hends (.inl hzero)
    have hscan := sampleScan_endless hloop h (Nat.zero_add (n + 1)) hends
    rw [show (0 : UInt32) = countBefore e sampleNum 0 from rfl, hscan]
    exact Bool.false_ne_true

theorem resetScan_isSome
    (h : T.Holds e entryCount mode t) (c : Cursor) (numChunks : Int32) :
    (T.resetScan mode sampleNum t.entryCount 0 0 t c numChunks).isSome ↔
      ScanEnds e entryCount sampleNum := by
  rw [h.entryCount_eq]
  by_cases hends : ScanEnds e entryCount sampleNum
  · refine iff_of_true ?_ hends
    obtain hzero | ⟨i, d, hat⟩ := scanEnds_iff.mp hends
    · rw [hzero]
      rfl
    · obtain ⟨t', c', num, hscan, -⟩ := resetScan_located h (Nat.zero_add entryCount)
        (Nat.zero_le i) (.inr rfl) hat c numChunks
      rw [show (0 : UInt32) = countBefore e sampleNum 0 from rfl, hscan]
      rfl
  · refine iff_of_false ?_ hends
    obtain ⟨n, rfl⟩ : ∃ n, entryCount = n + 1 :=
      Nat.exists_eq_succ_of_ne_zero fun hzero => hends (.inl hzero)
    have hscan := resetScan_endless h (Nat.zero_add (n + 1)) (.inr rfl) hends c numChunks
    rw [show (0 : UInt32) = countBefore e sampleNum 0 from rfl, hscan]
    exact Bool.false_ne_true

/-- **The calls for a sample return** where the scan has an end, and only there. -/
theorem Holding.returns_iff (h : Holding T e entryCount a) (sampleNum : UInt32) :
    ((a.getChunkNumberForSample T sampleNum).isSome ↔ ScanEnds e entryCount sampleNum) ∧
      ((a.getSamplesPerChunkCorrespondingToSample T sampleNum).isSome ↔
        ScanEnds e entryCount sampleNum) ∧
      ((a.resetStateVariablesTo T sampleNum).isSome ↔ ScanEnds e entryCount sampleNum) := by
  cases h with
  | null hnone hcount =>
    have hends : ScanEnds e entryCount sampleNum := .inl hcount
    have hnone' : a.resetStateVariables.table = none := hnone
    unfold SampleToChunkAtom.getChunkNumberForSample getSamplesPerChunkCorrespondingToSample
      SampleToChunkAtom.onTable SampleToChunkAtom.resetStateVariablesTo
    dsimp only
    rw [hnone, hnone']
    exact ⟨iff_of_true rfl hends, iff_of_true rfl hends, iff_of_true rfl hends⟩
  | table t ht h =>
    have ht' : a.resetStateVariables.table = some t := ht
    unfold SampleToChunkAtom.getChunkNumberForSample getSamplesPerChunkCorrespondingToSample
      SampleToChunkAtom.onTable SampleToChunkAtom.resetStateVariablesTo
    dsimp only
    rw [ht, ht']
    dsimp only
    rw [isSome_map, isSome_map, isSome_map, isSome_map]
    exact ⟨sampleScan_isSome inLastRun_loop h, sampleScan_isSome inLastRunForEver_loop h,
      resetScan_isSome h _ _⟩

/-! ## 9. The chunk the calls find -/

/-- **The sample is in the chunk**: it is not in front of the first sample
    `getFirstSampleNumInChunk` finds, and not behind the chunk's samples. -/
def InChunk (T : SampleToChunkTable) (a : SampleToChunkAtom) (sampleNum chunkNum samples : UInt32) :
    Prop :=
  ∃ a' first, a.getFirstSampleNumInChunk T chunkNum = some (a', .everythingFine, some first) ∧
    first ≤ sampleNum ∧ sampleNum.toNat < first.toNat + samples.toNat

/-- What the calls find of a chunk of a run. -/
theorem Holding.finds (h : Holding T e entryCount a) {i d : Nat}
    (hat : Located e entryCount sampleNum i d) :
    (∃ a', a.getChunkNumberForSample T sampleNum =
        some (a', .everythingFine, some ((e i).firstChunk + UInt32.ofNat d))) ∧
      (∃ a', a.getSamplesPerChunkCorrespondingToSample T sampleNum =
        some (a', .everythingFine, some (e i).samplesPerChunk)) ∧
      ∃ a', a.resetStateVariablesTo T sampleNum = some (a', .everythingFine) ∧
        a'.get.currChunk = ((e i).firstChunk + UInt32.ofNat d).toInt32 ∧
        a'.get.numSamplesPerChunk = (e i).samplesPerChunk.toInt32 ∧
        a'.get.firstSampleInCurrChunk =
          (summed (countBefore e sampleNum i) (e i).samplesPerChunk d).toInt32 := by
  have hlt := hat.lt
  cases h with
  | null _ hcount => omega
  | table t ht h =>
    have ht' : a.resetStateVariables.table = some t := ht
    obtain ⟨t₁, hscan, -⟩ :=
      sampleScan_located inLastRun_loop h (Nat.zero_add entryCount) (Nat.zero_le i) hat
    obtain ⟨t₂, hscan₂, -⟩ :=
      sampleScan_located inLastRunForEver_loop h (Nat.zero_add entryCount) (Nat.zero_le i) hat
    obtain ⟨t₃, c, num, hscan₃, -, hcursor, -⟩ := resetScan_located h (Nat.zero_add entryCount)
      (Nat.zero_le i) (.inr rfl) hat a.resetStateVariables.get
      a.resetStateVariables.numChunksInRun
    rw [show countBefore e sampleNum 0 = 0 from rfl] at hscan hscan₂ hscan₃
    have hmode : a.resetStateVariables.parsingMode = a.parsingMode := rfl
    refine ⟨⟨{ a with table := some t₁, index := i }, ?_⟩, ⟨{ a with table := some t₂ }, ?_⟩, ?_⟩
    · unfold SampleToChunkAtom.getChunkNumberForSample
      rw [ht]
      dsimp only
      rw [h.entryCount_eq, hscan]
      rfl
    · unfold getSamplesPerChunkCorrespondingToSample SampleToChunkAtom.onTable
      rw [ht]
      dsimp only
      rw [h.entryCount_eq, hscan₂]
      rfl
    · unfold SampleToChunkAtom.resetStateVariablesTo
      dsimp only
      rw [ht']
      dsimp only
      rw [h.entryCount_eq, hmode, hscan₃]
      refine ⟨_, rfl, ?_⟩
      dsimp only
      split <;> exact ⟨hcursor.currChunk, hcursor.samples, hcursor.first⟩

theorem Holding.firstSampleNum (h : Holding T e entryCount a) (hrises : Rising e entryCount)
    {i d : Nat} (hat : ChunkOf e entryCount i d) :
    ∃ a', a.getFirstSampleNumInChunk T ((e i).firstChunk + UInt32.ofNat d) =
      some (a', .everythingFine, some (summed (samplesBefore e i) (e i).samplesPerChunk d)) := by
  have hlt := hat.lt
  cases h with
  | null _ hcount => omega
  | table t ht h =>
    obtain ⟨t', hscan, -⟩ :=
      firstSampleScan_at h hrises hat (Nat.zero_add entryCount) (Nat.zero_le i) 0
    rw [show samplesBefore e 0 = 0 from rfl] at hscan
    refine ⟨{ a with table := some t' }, ?_⟩
    unfold SampleToChunkAtom.getFirstSampleNumInChunk SampleToChunkAtom.onTable
    rw [ht]
    dsimp only
    rw [h.entryCount_eq, hscan]
    rfl

theorem Holding.fails (h : Holding T e 0 a) (sampleNum : UInt32) :
    (a.getChunkNumberForSample T sampleNum).map Prod.snd = some failed ∧
      (a.getSamplesPerChunkCorrespondingToSample T sampleNum).map Prod.snd = some failed ∧
      (a.resetStateVariablesTo T sampleNum).map Prod.snd = some .defaultError := by
  unfold SampleToChunkAtom.getChunkNumberForSample getSamplesPerChunkCorrespondingToSample
    SampleToChunkAtom.onTable SampleToChunkAtom.resetStateVariablesTo
  cases h with
  | null hnone _ =>
    have hnone' : a.resetStateVariables.table = none := hnone
    dsimp only
    rw [hnone, hnone']
    exact ⟨rfl, rfl, rfl⟩
  | table t ht h =>
    have ht' : a.resetStateVariables.table = some t := ht
    dsimp only
    rw [ht, ht']
    dsimp only
    rw [h.entryCount_eq]
    exact ⟨rfl, rfl, rfl⟩

/-! ## 10. Every table read from a file -/

/-- The runs of the atom the constructor makes, and how many they are. -/
def runsOf (T : SampleToChunkTable) (parsingMode : Bool) (vec : Nat → SampleToChunkEntry) :
    (Nat → SampleToChunkEntry) × Nat :=
  if parsingMode ∧ T.entryCount.toNat > maxCachedTableEntriesFile then
    (T.entryFile.entry, T.entryCount.toNat)
  else
    ((T.readAll T.entryCount.toNat 0 0 0 0 vec).2.1, (T.readAll T.entryCount.toNat 0 0 0 0 vec).1)

/-- Through the window only a rising table is loaded as it stands. -/
def Loads (T : SampleToChunkTable) (parsingMode : Bool) : Prop :=
  parsingMode = true ∧ T.entryCount.toNat > maxCachedTableEntriesFile → T.Increasing

variable {parsingMode : Bool} {vec : Nat → SampleToChunkEntry}

section

variable (hloads : Loads T parsingMode)
include hloads

theorem runsOf_rising :
    Rising (runsOf T parsingMode vec).1 (runsOf T parsingMode vec).2 := by
  unfold runsOf
  split
  · rename_i hlong
    exact rising_window (hloads hlong)
  · exact readAll_rising (Nat.zero_add _) (fun k hk => absurd hk (not_lt_zero _))
      (fun k hk => absurd hk (succ_ne_zero k)) (fun _ => rfl) fun h => absurd h (Nat.lt_irrefl 0)

/-- The constructor resets an atom that has its runs. -/
theorem create_eq :
    (∃ a, create T parsingMode vec = some a ∧ a.table = none ∧
        (runsOf T parsingMode vec).2 = 0) ∨
      ∃ a, Holding T (runsOf T parsingMode vec).1 (runsOf T parsingMode vec).2 a ∧
        create T parsingMode vec = (a.resetStateVariablesTo T 0).map Prod.fst := by
  unfold create runsOf
  by_cases h0 : 0 < T.entryCount.toNat
  · right
    rw [if_pos h0]
    by_cases hlong : parsingMode = true ∧ T.entryCount.toNat > maxCachedTableEntriesFile
    · obtain ⟨t, ht, hholds⟩ := windowed_holds (hloads hlong) h0 vec
      rw [if_pos hlong, if_pos hlong, ht, bind_some]
      exact ⟨loaded true (some t), .table t rfl hholds, rfl⟩
    · rw [if_neg hlong, if_neg hlong]
      exact ⟨loaded false (some (T.whole vec)), .table _ rfl (T.whole_holds vec vec), rfl⟩
  · left
    have hzero : T.entryCount.toNat = 0 := by omega
    have hshort : ¬ (parsingMode = true ∧ T.entryCount.toNat > maxCachedTableEntriesFile) := by
      omega
    rw [if_neg h0, if_neg hshort, hzero]
    exact ⟨_, rfl, rfl, rfl⟩

/-- An atom that is constructed has its runs. -/
theorem create_holding (hcreate : create T parsingMode vec = some a) :
    Holding T (runsOf T parsingMode vec).1 (runsOf T parsingMode vec).2 a := by
  obtain ⟨a₁, ha, hnone, hcount⟩ | ⟨a₁, hold, ha⟩ := @create_eq T parsingMode vec hloads
  · obtain rfl := some.inj (ha.symm.trans hcreate)
    exact .null hnone hcount
  · obtain ⟨⟨a₂, code⟩, hreset, rfl⟩ := map_eq_some_iff.mp (ha.symm.trans hcreate)
    exact hold.resetStateVariablesTo hreset

theorem create_isSome_iff : (create T parsingMode vec).isSome ↔
    ScanEnds (runsOf T parsingMode vec).1 (runsOf T parsingMode vec).2 0 := by
  obtain ⟨a₁, ha, -, hcount⟩ | ⟨a₁, hold, ha⟩ := @create_eq T parsingMode vec hloads
  · rw [ha]
    exact iff_of_true rfl (.inl hcount)
  · rw [ha, isSome_map]
    exact (hold.returns_iff 0).2.2

end

/-- A table of one run from chunk 1 on. -/
def oneRun (samplesPerChunk : UInt32) : SampleToChunkTable where
  file :=
    { fileSize := 28
      word := fun pos => if pos = 20 then samplesPerChunk else 1 }
  headOffset := 16
  entryCount := 1
  inAtom := by decide
  inFile := Nat.le_refl 28

theorem oneRun_runs (samplesPerChunk : UInt32) :
    runsOf (oneRun samplesPerChunk) false vec =
      (update vec 0 ⟨0, samplesPerChunk, 1⟩, 1) := by
  have hcount : (oneRun samplesPerChunk).entryCount.toNat = 1 := rfl
  have hfirst : (oneRun samplesPerChunk).firstChunkAt 0 = 1 := by
    show (if 16 + 0 * 12 = 20 then samplesPerChunk else 1) = 1
    rw [if_neg (by decide)]
  have hraw : (oneRun samplesPerChunk).rawEntry 1 0 = ⟨0, samplesPerChunk, 1⟩ := by
    rw [rawEntry, hfirst]
    rfl
  unfold runsOf
  rw [if_neg fun h => Bool.false_ne_true h.1, hcount, readAll_succ (by rw [hcount]; exact Nat.one_pos),
    if_pos rfl, hfirst, if_pos (by decide), hraw]
  rfl

theorem loads_memory (T : SampleToChunkTable) : Loads T false :=
  fun h => absurd h.1 Bool.false_ne_true

/-- Chunks with samples, but not so many that a sum goes around. -/
theorem oneRun_withinReach {samplesPerChunk : UInt32} (hpos : 0 < samplesPerChunk)
    (hsmall : sampleNum.toNat + samplesPerChunk.toNat < 4294967296) :
    WithinReach (runsOf (oneRun samplesPerChunk) false vec).1
      (runsOf (oneRun samplesPerChunk) false vec).2 sampleNum := by
  obtain ⟨d, hlt, hfirst⟩ := exists_firstOver (exists_over_of_small hpos hsmall UInt32.zero_le)
  rw [oneRun_runs]
  refine ⟨.inr ⟨Nat.one_pos, d, ?_, ?_⟩, fun i hi => ?_⟩
  · show (update vec 0 ⟨0, samplesPerChunk, 1⟩ 0).firstChunk.toNat + d < _
    rw [update_self]
    show 0 + d < _
    omega
  · show _ < summed 0 (update vec 0 ⟨0, samplesPerChunk, 1⟩ 0).samplesPerChunk _
    rw [update_self]
    exact hfirst.exceeds
  · have hi' : i + 1 < 1 := hi
    omega

/-- Chunks without samples: no sum exceeds a sample. -/
theorem oneRun_not_ends (sampleNum : UInt32) :
    ¬ ScanEnds (runsOf (oneRun 0) false vec).1 (runsOf (oneRun 0) false vec).2 sampleNum := by
  rw [oneRun_runs]
  intro hends
  obtain hnone | ⟨i, hi, -⟩ | ⟨d, hd⟩ := hends
  · exact absurd hnone Nat.one_ne_zero
  · have hi' : i + 1 < 1 := hi
    omega
  · have hd' : sampleNum < summed 0 (update vec 0 ⟨0, 0, 1⟩ 0).samplesPerChunk (d + 1) := hd
    rw [update_self, summed, UInt32.mul_zero] at hd'
    exact absurd hd' (UInt32.not_lt.mpr UInt32.zero_le)

end SampleToChunkAtom

end OpenCore.Mp4
