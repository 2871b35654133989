/-
  File:      OpenCore/Mp4/SampleTimes.lean
  Subject:   `TimeToSampleAtom::GetTimestampForSampleNumber` and `GetSampleNumberFromTimestamp`
             (timetosampleatom.cpp) against the exact times of the samples.

  The code multiplies the two 32-bit members of an entry as `uint32`s before it adds the product to
  a 64-bit sum.

  * `timestampScan_exact` -- what the scan returns is the sum of the wrapped products;
  * `sampleNumberScan_right` -- where no product wraps, the search ends in the right run.

  **Main result**: `sample_times_right_iff`.
-/
import OpenCore.Lib.RunLength
import OpenCore.Mp4.TimeToSampleAtom

namespace OpenCore.Mp4

open RunLength
open UInt32 (toNat_lt toNat_one toNat_toUInt64 toNat_zero)
open Nat (mod_eq_of_lt mod_le succ_le_of_lt succ_mul succ_pos zero_mul)
open UInt32 (le_iff_toNat_le lt_iff_toNat_lt toNat_add toNat_sub_of_le)
open StblTable (Serves)

/-! ## 1. The samples of a table -/

/-- The counts of the entries. -/
def sampleCounts (f : EntryFile TimeEntry) (k : Nat) : Nat := (f.entry k).sampleCount.toNat

/-- The deltas of the entries. -/
def sampleDeltas (f : EntryFile TimeEntry) (k : Nat) : Nat := (f.entry k).sampleDelta.toNat

/-- How many samples the first `entryCount` entries stand for. -/
def totalSamples (f : EntryFile TimeEntry) (entryCount : Nat) : Nat :=
  before (sampleCounts f) entryCount

/-- The time of sample `n`: the sum of the first `n` deltas. -/
def timeOf (f : EntryFile TimeEntry) (entryCount n : Nat) : Nat :=
  sumTo (sampleCounts f) (sampleDeltas f) entryCount n

/-- Sample `s` is on the screen at this time. -/
def SampleAt (f : EntryFile TimeEntry) (entryCount time s : Nat) : Prop :=
  s < totalSamples f entryCount ∧ timeOf f entryCount s ≤ time ∧
    (timeOf f entryCount s = time ∨ time < timeOf f entryCount (s + 1))

/-- What the runs add to the time of sample `n` fits 32 bits each. -/
def PartsFit (f : EntryFile TimeEntry) (entryCount n : Nat) : Prop :=
  ∀ k < entryCount,
    min (sampleCounts f k) (n - before (sampleCounts f) k) * sampleDeltas f k < 4294967296

/-- Every run lasts less than `2^32` ticks. -/
def RunsFit (f : EntryFile TimeEntry) (entryCount : Nat) : Prop :=
  ∀ k < entryCount, sampleCounts f k * sampleDeltas f k < 4294967296

variable {f : EntryFile TimeEntry} {entryCount : Nat}

theorem sampleCounts_lt (k : Nat) : sampleCounts f k < 4294967296 :=
  toNat_lt (f.entry k).sampleCount

theorem sampleDeltas_lt (k : Nat) : sampleDeltas f k < 4294967296 :=
  toNat_lt (f.entry k).sampleDelta

theorem before_le_total {k : Nat} (hk : k ≤ entryCount) :
    before (sampleCounts f) k ≤ totalSamples f entryCount :=
  before_mono _ hk

/-- The end of a run that the table has. -/
theorem before_add_le_total {k : Nat} (hk : k < entryCount) :
    before (sampleCounts f) k + sampleCounts f k ≤ totalSamples f entryCount :=
  before_le_total hk

variable {k : Nat}

theorem span_lt (htotal : totalSamples f entryCount < 4294967296) (hk : k ≤ entryCount) :
    span (sampleCounts f) (sampleDeltas f) k < 18446744073709551616 := by
  have hspan : span (sampleCounts f) (sampleDeltas f) k ≤
      before (sampleCounts f) k * 4294967295 :=
    span_le_mul _ _ (fun k => Nat.le_of_lt_succ (sampleDeltas_lt k)) k
  have hbefore := @before_le_total f entryCount k hk
  omega

theorem sampleAt_of_run {i time : Nat} (hi : i < entryCount) (hk : k < sampleCounts f i)
    (hle : span (sampleCounts f) (sampleDeltas f) i + k * sampleDeltas f i ≤ time)
    (hend : span (sampleCounts f) (sampleDeltas f) i + k * sampleDeltas f i = time ∨
      time < span (sampleCounts f) (sampleDeltas f) i + (k + 1) * sampleDeltas f i) :
    SampleAt f entryCount time (before (sampleCounts f) i + k) := by
  have hhere : timeOf f entryCount (before (sampleCounts f) i + k) =
      span (sampleCounts f) (sampleDeltas f) i + k * sampleDeltas f i :=
    sumTo_run _ _ hi (Nat.le_of_lt hk)
  have hnext : timeOf f entryCount (before (sampleCounts f) i + k + 1) =
      span (sampleCounts f) (sampleDeltas f) i + (k + 1) * sampleDeltas f i :=
    sumTo_run _ _ hi hk
  have hlast := @before_add_le_total f entryCount i hi
  refine ⟨by omega, ?_, ?_⟩
  · rw [hhere]
    exact hle
  · rw [hhere, hnext]
    exact hend

/-- The last sample lies before the end of the run that ends with it. -/
theorem timeOf_last {i : Nat} (hi : i < entryCount) (hcount : 0 < sampleCounts f i)
    (hlast : before (sampleCounts f) (i + 1) = totalSamples f entryCount) :
    timeOf f entryCount (totalSamples f entryCount - 1) + sampleDeltas f i =
      span (sampleCounts f) (sampleDeltas f) (i + 1) := by
  have hsucc := before_succ (sampleCounts f) i
  have hplace : totalSamples f entryCount - 1 =
      before (sampleCounts f) i + (sampleCounts f i - 1) := by omega
  have hhere : timeOf f entryCount (before (sampleCounts f) i + (sampleCounts f i - 1)) =
      span (sampleCounts f) (sampleDeltas f) i + (sampleCounts f i - 1) * sampleDeltas f i :=
    sumTo_run _ _ hi (Nat.sub_le _ _)
  rw [hplace, hhere, span_succ, Nat.add_assoc, ← succ_mul]
  congr 2
  omega

/-! ## 2. The table of an atom -/

variable {a : TimeToSampleAtom}

namespace TimeToSampleAtom

/-- The atom holds a table of so many entries, in memory or through the window; through the window
    its indices have room for the threshold. -/
def Holds (f : EntryFile TimeEntry) (entryCount : Nat) (a : TimeToSampleAtom) : Prop :=
  (entryCount = 0 ∧ a.table = none) ∨
    (0 < entryCount ∧ ∃ t, a.table = some t ∧
      Serves f tableEntriesThresholdFile entryCount a.parsingMode t ∧
      (a.parsingMode = true → entryCount + tableEntriesThresholdFile ≤ 4294967296))

theorem holds_create (f : EntryFile TimeEntry) (parsingMode : Bool) (mediaType entryCount : UInt32)
    (hsmall : parsingMode = true →
      entryCount.toNat + tableEntriesThresholdFile ≤ 4294967296) :
    Holds f entryCount.toNat (create f parsingMode mediaType entryCount) := by
  unfold create
  by_cases h0 : 0 < entryCount.toNat
  · rw [if_pos h0]
    by_cases hlong : parsingMode = true ∧ entryCount.toNat > maxCachedTableEntriesFile
    · rw [if_pos hlong]
      exact Or.inr ⟨h0, _, rfl, StblTable.serves_windowed (by decide) h0 _, fun _ => hsmall hlong.1⟩
    · rw [if_neg hlong]
      exact Or.inr ⟨h0, _, rfl, .whole, fun h => absurd h Bool.false_ne_true⟩
  · rw [if_neg h0]
    exact Or.inl ⟨by omega, rfl⟩

variable {mode : Bool} {t : StblTable TimeEntry}

theorem fetch_served (h : Serves f tableEntriesThresholdFile entryCount mode t) {i : Nat}
    (hi : i < entryCount)
    (hsmall : mode = true → entryCount + tableEntriesThresholdFile ≤ 4294967296) :
    ∃ t', fetch f mode i t = some t' ∧
      Serves f tableEntriesThresholdFile entryCount mode t' ∧ t'.slot i = f.entry i ∧
      ∀ j, j + 1 = i → t.slot j = f.entry j → t'.slot j = f.entry j :=
  h.fetch_of_small (by decide) hi hsmall

/-! ## 3. Time stamps -/

/-- The sum of the products as the code forms them, up to entry `k`. -/
def wrappedSpan (f : EntryFile TimeEntry) : Nat → Nat
  | 0 => 0
  | k + 1 => wrappedSpan f k + sampleCounts f k * sampleDeltas f k % 4294967296

theorem wrappedSpan_le (k : Nat) :
    wrappedSpan f k ≤ span (sampleCounts f) (sampleDeltas f) k := by
  induction k with
  | zero => exact Nat.le_refl 0
  | succ k ih => exact Nat.add_le_add ih (mod_le _ _)

/-- Nothing is lost exactly where every product fits. -/
theorem wrappedSpan_eq_iff (k : Nat) :
    wrappedSpan f k = span (sampleCounts f) (sampleDeltas f) k ↔ RunsFit f k := by
  induction k with
  | zero => exact ⟨fun _ j hj => absurd hj (Nat.not_lt_zero j), fun _ => rfl⟩
  | succ k ih =>
    have hle := @wrappedSpan_le f k
    have hmod : sampleCounts f k * sampleDeltas f k % 4294967296 ≤
        sampleCounts f k * sampleDeltas f k := mod_le _ _
    constructor
    · intro heq j hj
      rw [wrappedSpan, span_succ] at heq
      obtain hlt | rfl := Nat.lt_succ_iff_lt_or_eq.mp hj
      · exact ih.mp (by omega) j hlt
      · have hfit : sampleCounts f j * sampleDeltas f j % 4294967296 =
            sampleCounts f j * sampleDeltas f j := by omega
        rw [← hfit]
        exact Nat.mod_lt _ (by decide)
    · intro hfit
      rw [wrappedSpan, span_succ, ih.mpr fun j hj => hfit j (Nat.lt_succ_of_lt hj),
        mod_eq_of_lt (hfit k (Nat.lt_succ_self k))]

/-- The product of an entry's two members. -/
theorem product_toNat (e : TimeEntry) (count : UInt32) :
    (e.sampleDelta * count).toUInt64.toNat =
      count.toNat * e.sampleDelta.toNat % 4294967296 := by
  rw [toNat_toUInt64, UInt32.toNat_mul, Nat.mul_comm]

/-- A running 64-bit sum of products stays below the exact one. -/
theorem toNat_add_product {ts : UInt64} {e : TimeEntry} {count : UInt32} {bound : Nat}
    (hbound : ts.toNat + count.toNat * e.sampleDelta.toNat ≤ bound)
    (hfits : bound < 18446744073709551616) :
    (ts + (e.sampleDelta * count).toUInt64).toNat =
      ts.toNat + count.toNat * e.sampleDelta.toNat % 4294967296 := by
  have hmod := mod_le (count.toNat * e.sampleDelta.toNat) 4294967296
  rw [UInt64.toNat_add, product_toNat]
  exact mod_eq_of_lt (by omega)

/-- **What the scan returns**: the wrapped products of the runs before the sample's own, and the
    wrapped product of its place there. -/
theorem timestampScan_exact (htotal : totalSamples f entryCount < 4294967296)
    (hsmall : mode = true → entryCount + tableEntriesThresholdFile ≤ 4294967296)
    {aSampleNumber : UInt32} (hle : aSampleNumber.toNat ≤ totalSamples f entryCount)
    {n i : Nat} {sampleCount : UInt32} {ts : UInt64}
    (h : Serves f tableEntriesThresholdFile entryCount mode t) (hn : i + n = entryCount)
    (hcount : sampleCount.toNat = before (sampleCounts f) i) (hts : ts.toNat = wrappedSpan f i)
    (hlt : before (sampleCounts f) i < aSampleNumber.toNat) :
    ∃ t' j v, timestampScan f mode aSampleNumber n i sampleCount ts t =
        some (t', .everythingFine, some v) ∧
      j < entryCount ∧ before (sampleCounts f) j < aSampleNumber.toNat ∧
      aSampleNumber.toNat ≤ before (sampleCounts f) (j + 1) ∧
      v.toNat = wrappedSpan f j +
        (aSampleNumber.toNat - before (sampleCounts f) j) * sampleDeltas f j % 4294967296 := by
  induction n generalizing i sampleCount ts t with
  | zero =>
    have hi : i = entryCount := by omega
    rw [hi] at hlt
    exact absurd hle (Nat.not_le_of_lt hlt)
  | succ n ih =>
    have hi : i < entryCount := by omega
    obtain ⟨t', ht', hserves, hslot, -⟩ := fetch_served h hi hsmall
    have hend := @before_add_le_total f entryCount i hi
    have hsucc := before_succ (sampleCounts f) i
    have hspan := span_lt htotal (succ_le_of_lt hi)
    have hwrapped := @wrappedSpan_le f i
    rw [span_succ] at hspan
    have hsum : (sampleCount + (f.entry i).sampleCount).toNat =
        before (sampleCounts f) (i + 1) := by
      rw [toNat_add, hcount]
      exact mod_eq_of_lt (by unfold sampleCounts at hend ⊢; omega)
    unfold timestampScan
    rw [ht', Option.bind_some, hslot]
    dsimp only
    by_cases hstop : aSampleNumber ≤ sampleCount + (f.entry i).sampleCount
    · rw [if_pos hstop]
      have hstop' := le_iff_toNat_le.mp hstop
      rw [hsum] at hstop'
      have hplace : (aSampleNumber - sampleCount).toNat =
          aSampleNumber.toNat - before (sampleCounts f) i := by
        rw [toNat_sub_of_le _ _ (le_iff_toNat_le.mpr (by omega)), hcount]
      have hpart : (aSampleNumber - sampleCount).toNat * (f.entry i).sampleDelta.toNat ≤
          sampleCounts f i * sampleDeltas f i :=
        Nat.mul_le_mul_right _ (by omega)
      refine ⟨t', i, _, rfl, hi, hlt, hstop', ?_⟩
      rw [toNat_add_product (Nat.le_refl _) (by omega), hts, hplace]
      rfl
    · rw [if_neg hstop]
      have hgo := UInt32.not_le.mp hstop
      rw [lt_iff_toNat_lt, hsum] at hgo
      refine ih hserves (by omega) hsum ?_ hgo
      rw [toNat_add_product (Nat.le_refl _) (by
        unfold sampleCounts sampleDeltas at hspan hwrapped; omega), hts]
      rfl

/-! ## 4. The search -/

/-- One sample further, the counts of time and samples do not wrap. -/
theorem walk_step {delta : UInt32} {start first count j : Nat} {timeCount : UInt64}
    {sampleCount : UInt32} (htime : start + count * delta.toNat < 18446744073709551616)
    (hfirst : first + count < 4294967296) (hj : j < count)
    (htimeCount : timeCount.toNat = start + j * delta.toNat)
    (hsampleCount : sampleCount.toNat = first + j) :
    (timeCount + delta.toUInt64).toNat = start + (j + 1) * delta.toNat ∧
      (sampleCount + 1).toNat = first + (j + 1) := by
  have hstep : (j + 1) * delta.toNat ≤ count * delta.toNat := Nat.mul_le_mul_right _ hj
  have hsucc : (j + 1) * delta.toNat = j * delta.toNat + delta.toNat := succ_mul _ _
  constructor
  · rw [UInt64.toNat_add, toNat_toUInt64, htimeCount, hsucc, Nat.add_assoc]
    exact mod_eq_of_lt (by omega)
  · rw [toNat_add, hsampleCount]
    exact mod_eq_of_lt (by simp only [toNat_one]; omega)

/-- **The walk through the run before** ends at the first sample behind the time. -/
theorem backtrack_spec {aTimeStamp : UInt64} {delta : UInt32} {start first count : Nat}
    (hbehind : aTimeStamp.toNat < start + count * delta.toNat)
    (htime : start + count * delta.toNat < 18446744073709551616)
    (hfirst : first + count < 4294967296) {fuel j : Nat} {timeCount : UInt64} {sampleCount : UInt32}
    (hj : j ≤ count) (hfuel : count < fuel + j)
    (htimeCount : timeCount.toNat = start + j * delta.toNat)
    (hsampleCount : sampleCount.toNat = first + j) :
    ∃ s k, backtrack aTimeStamp delta fuel timeCount sampleCount = some s ∧
      s.toNat = first + k ∧ j ≤ k ∧ k ≤ count ∧ aTimeStamp.toNat < start + k * delta.toNat ∧
      (k = j ∨ start + (k - 1) * delta.toNat ≤ aTimeStamp.toNat) := by
  induction fuel generalizing j timeCount sampleCount with
  | zero => omega
  | succ fuel ih =>
    unfold backtrack
    by_cases hle : timeCount ≤ aTimeStamp
    · rw [if_pos hle]
      have hle' := UInt64.le_iff_toNat_le.mp hle
      rw [htimeCount] at hle'
      have hlt : j < count := by
        refine Nat.lt_of_le_of_ne hj fun heq => ?_
        rw [heq] at hle'
        omega
      obtain ⟨htimeCount', hsampleCount'⟩ := walk_step htime hfirst hlt htimeCount hsampleCount
      obtain ⟨s, k, he, hs, hjk, hkc, hend, hstart⟩ :=
        ih (j := j + 1) hlt (by omega) htimeCount' hsampleCount'
      refine ⟨s, k, he, hs, by omega, hkc, hend, Or.inr ?_⟩
      obtain rfl | hstart := hstart
      · rw [Nat.add_sub_cancel]
        exact hle'
      · exact hstart
    · rw [if_neg hle]
      have hlt := UInt64.not_le.mp hle
      rw [UInt64.lt_iff_toNat_lt, htimeCount] at hlt
      exact ⟨sampleCount, j, rfl, hsampleCount, Nat.le_refl j, hj, hlt, Or.inl rfl⟩

/-- **The walk through the last run** finds every time up to its last sample. -/
theorem lastRun_spec {mediaType : UInt32} {flag : Bool} {aTimeStamp : UInt64} {delta : UInt32}
    {start first count : Nat} (hin : aTimeStamp.toNat ≤ start + (count - 1) * delta.toNat)
    (htime : start + count * delta.toNat < 18446744073709551616)
    (hfirst : first + count < 4294967296) {n j : Nat} {timeCount : UInt64} {sampleCount : UInt32}
    (hn : j + n + 1 = count) (htimeCount : timeCount.toNat = start + j * delta.toNat)
    (hsampleCount : sampleCount.toNat = first + j)
    (hbehind : start + j * delta.toNat < aTimeStamp.toNat) :
    ∃ s k, lastRun mediaType flag aTimeStamp delta n timeCount sampleCount =
        (.everythingFine, some s) ∧ s.toNat = first + k ∧ k < count ∧
      start + k * delta.toNat ≤ aTimeStamp.toNat ∧
      (start + k * delta.toNat = aTimeStamp.toNat ∨
        aTimeStamp.toNat < start + (k + 1) * delta.toNat) := by
  induction n generalizing j timeCount sampleCount with
  | zero =>
    have hj : count - 1 = j := by omega
    rw [hj] at hin
    omega
  | succ n ih =>
    obtain ⟨htimeCount', hsampleCount'⟩ :=
      walk_step htime hfirst (show j < count by omega) htimeCount hsampleCount
    unfold lastRun
    dsimp only
    by_cases hlt : aTimeStamp < timeCount + delta.toUInt64
    · rw [if_pos hlt]
      have hlt' := UInt64.lt_iff_toNat_lt.mp hlt
      rw [htimeCount'] at hlt'
      have hback : (stepBack (sampleCount + 1)).toNat = first + j := by
        unfold stepBack
        have hpos : 0 < sampleCount + 1 := by
          rw [lt_iff_toNat_lt, hsampleCount', toNat_zero]
          omega
        rw [if_pos hpos, toNat_sub_of_le _ _ (by
          rw [le_iff_toNat_le, hsampleCount', toNat_one]; omega), hsampleCount',
          toNat_one]
        omega
      exact ⟨_, j, rfl, hback, by omega, Nat.le_of_lt hbehind, Or.inr hlt'⟩
    · rw [if_neg hlt]
      have hge := UInt64.not_lt.mp hlt
      rw [UInt64.le_iff_toNat_le, htimeCount'] at hge
      by_cases hhit : timeCount + delta.toUInt64 = aTimeStamp
      · rw [if_pos hhit]
        rw [← hhit, htimeCount']
        exact ⟨_, j + 1, rfl, hsampleCount', by omega, Nat.le_refl _, Or.inl rfl⟩
      · rw [if_neg hhit]
        refine ih (by omega) htimeCount' hsampleCount' (Nat.lt_of_le_of_ne hge fun heq => hhit ?_)
        exact UInt64.toNat_inj.mp (by rw [htimeCount']; exact heq)

/-- A run's product and count, taken back. -/
theorem toNat_sub_product {timeCount : UInt64} (hfit : RunsFit f entryCount)
    (hk : k < entryCount)
    (htimeCount : timeCount.toNat = span (sampleCounts f) (sampleDeltas f) (k + 1)) :
    (timeCount - ((f.entry k).sampleDelta * (f.entry k).sampleCount).toUInt64).toNat =
      span (sampleCounts f) (sampleDeltas f) k := by
  have hproduct : ((f.entry k).sampleDelta * (f.entry k).sampleCount).toUInt64.toNat =
      sampleCounts f k * sampleDeltas f k := by
    rw [product_toNat]
    exact mod_eq_of_lt (hfit k hk)
  rw [UInt64.toNat_sub_of_le _ _ (by
    rw [UInt64.le_iff_toNat_le, hproduct, htimeCount, span_succ]
    exact Nat.le_add_left _ _), hproduct, htimeCount, span_succ, Nat.add_sub_cancel]

theorem toNat_sub_count {sampleCount : UInt32}
    (hsampleCount : sampleCount.toNat = before (sampleCounts f) (k + 1)) :
    (sampleCount - (f.entry k).sampleCount).toNat = before (sampleCounts f) k := by
  have hsucc : before (sampleCounts f) (k + 1) =
      before (sampleCounts f) k + (f.entry k).sampleCount.toNat := rfl
  rw [toNat_sub_of_le _ _ (by
    rw [le_iff_toNat_le, hsampleCount, hsucc]
    exact Nat.le_add_left _ _), hsampleCount, hsucc, Nat.add_sub_cancel]

/-- **The search**, no product wrapping: the entries passed start before the time, so the run the
    search steps back into holds it. -/
theorem sampleNumberScan_right (hfit : RunsFit f entryCount)
    (htotal : totalSamples f entryCount < 4294967296) (h0 : 0 < totalSamples f entryCount)
    (hsmall : mode = true → entryCount + tableEntriesThresholdFile ≤ 4294967296)
    {mediaType : UInt32} {flag : Bool} {aTimeStamp : UInt64}
    (hin : aTimeStamp.toNat ≤ timeOf f entryCount (totalSamples f entryCount - 1))
    {n i : Nat} {sampleCount : UInt32} {timeCount : UInt64}
    (h : Serves f tableEntriesThresholdFile entryCount mode t) (hn : i + n = entryCount)
    (hpos : 0 < entryCount) (hwidth : entryCount < 4294967296)
    (hsampleCount : sampleCount.toNat = before (sampleCounts f) i)
    (htimeCount : timeCount.toNat = span (sampleCounts f) (sampleDeltas f) i)
    (hheld : 0 < i → t.slot (i - 1) = f.entry (i - 1))
    (hpassed : 0 < i → span (sampleCounts f) (sampleDeltas f) (i - 1) < aTimeStamp.toNat) :
    ∃ t' s, sampleNumberScan f mode mediaType flag aTimeStamp n i sampleCount timeCount t =
        some (t', .everythingFine, some s) ∧ SampleAt f entryCount aTimeStamp.toNat s.toNat := by
  induction n generalizing i sampleCount timeCount t with
  | zero =>
    obtain ⟨k, rfl⟩ : ∃ k, i = k + 1 := ⟨i - 1, by omega⟩
    have hk : k < entryCount := by omega
    have hlast : t.slot (t.entryCount - 1) = f.entry k := by
      rw [h.entryCount_eq, ← hn]
      exact hheld (succ_pos k)
    have hstart := hpassed (succ_pos k)
    rw [Nat.add_sub_cancel] at hstart
    have hend : before (sampleCounts f) (k + 1) = totalSamples f entryCount := by
      rw [← hn]
      rfl
    have hspan := span_lt htotal (succ_le_of_lt hk)
    have hsucc := span_succ (sampleCounts f) (sampleDeltas f) k
    have hcounts := before_succ (sampleCounts f) k
    rw [span_succ] at hspan
    -- an empty last run would start behind the last sample
    have hcount : 0 < sampleCounts f k := by
      refine Nat.pos_of_ne_zero fun hzero => ?_
      rw [hzero, Nat.add_zero] at hcounts
      have hbefore : timeOf f entryCount (before (sampleCounts f) k) = _ :=
        sumTo_before (sampleCounts f) (sampleDeltas f) hk
      have hmono : timeOf f entryCount (totalSamples f entryCount - 1) ≤
          timeOf f entryCount (before (sampleCounts f) k) :=
        sumTo_mono _ _ _ (by omega)
      omega
    have hlastTime := timeOf_last hk hcount hend
    have hsucc' : sampleCounts f k * sampleDeltas f k =
        (sampleCounts f k - 1) * sampleDeltas f k + sampleDeltas f k := by
      rw [← succ_mul]
      congr 1
      omega
    have hin' : aTimeStamp.toNat ≤ span (sampleCounts f) (sampleDeltas f) k +
        (sampleCounts f k - 1) * sampleDeltas f k := by omega
    have hsamples : ((f.entry k).sampleCount - 1).toNat + 1 = sampleCounts f k := by
      have hone : (1 : UInt32) ≤ (f.entry k).sampleCount := le_iff_toNat_le.mpr hcount
      rw [toNat_sub_of_le _ _ hone, toNat_one]
      exact Nat.sub_add_cancel hcount
    unfold sampleNumberScan
    dsimp only
    rw [hlast]
    obtain ⟨s, j, he, hs, hj, hle, hendj⟩ :=
      @lastRun_spec mediaType flag aTimeStamp (f.entry k).sampleDelta
        (span (sampleCounts f) (sampleDeltas f) k) (before (sampleCounts f) k) (sampleCounts f k)
        hin' hspan (by omega)
        ((f.entry k).sampleCount - 1).toNat 0
        (timeCount - ((f.entry k).sampleDelta * (f.entry k).sampleCount).toUInt64)
        (sampleCount - (f.entry k).sampleCount)
        (by rw [Nat.zero_add, hsamples])
        (by rw [toNat_sub_product hfit hk htimeCount, zero_mul, Nat.add_zero])
        (by rw [toNat_sub_count hsampleCount, Nat.add_zero])
        (by rw [zero_mul, Nat.add_zero]; exact hstart)
    rw [he]
    refine ⟨t, s, rfl, ?_⟩
    rw [hs]
    exact sampleAt_of_run hk hj hle hendj
  | succ n ih =>
    have hi : i < entryCount := by omega
    obtain ⟨t', ht', hserves, hslot, hkeep⟩ := fetch_served h hi hsmall
    have hend := @before_add_le_total f entryCount i hi
    have hspan := span_lt htotal (succ_le_of_lt hi)
    unfold sampleNumberScan
    rw [ht', Option.bind_some]
    by_cases hbefore : aTimeStamp < timeCount
    · rw [if_pos hbefore]
      have hbefore' := UInt64.lt_iff_toNat_lt.mp hbefore
      rw [htimeCount] at hbefore'
      -- entry 0 starts at time 0
      obtain ⟨k, rfl⟩ : ∃ k, i = k + 1 := by
        cases i with
        | zero => exact absurd hbefore' (Nat.not_lt_zero _)
        | succ k => exact ⟨k, rfl⟩
      have hk : k < entryCount := by omega
      have hsub : sub32 (k + 1) 1 = k := sub32_eq (succ_pos k) (by omega)
      rw [hsub]
      obtain ⟨t₂, ht₂, hserves₂, hslot₂, -⟩ := fetch_served hserves hk hsmall
      rw [ht₂, Option.bind_some]
      dsimp only
      rw [hslot₂]
      have hstart := hpassed (succ_pos k)
      rw [Nat.add_sub_cancel] at hstart
      have hspan' := span_lt htotal (succ_le_of_lt hk)
      have hrun := @before_add_le_total f entryCount k hk
      rw [span_succ] at hbefore' hspan'
      obtain ⟨s, j, he, hs, -, hjc, hbehind, hback⟩ :=
        @backtrack_spec aTimeStamp (f.entry k).sampleDelta
          (span (sampleCounts f) (sampleDeltas f) k) (before (sampleCounts f) k)
          (sampleCounts f k) hbefore' hspan' (by omega) 18446744073709551617 0
          (timeCount - ((f.entry k).sampleDelta * (f.entry k).sampleCount).toUInt64)
          (sampleCount - (f.entry k).sampleCount) (Nat.zero_le _)
          (by have := @sampleCounts_lt f k; omega)
          (by rw [toNat_sub_product hfit hk htimeCount, zero_mul, Nat.add_zero])
          (by rw [toNat_sub_count hsampleCount, Nat.add_zero])
      obtain ⟨j, rfl⟩ : ∃ j', j = j' + 1 := by
        cases j with
        | zero =>
          rw [zero_mul, Nat.add_zero] at hbehind
          omega
        | succ j => exact ⟨j, rfl⟩
      obtain hnone | hback := hback
      · exact absurd hnone (Nat.succ_ne_zero j)
      rw [Nat.add_sub_cancel] at hback
      have hstep : (stepBack s).toNat = before (sampleCounts f) k + j := by
        unfold stepBack
        rw [if_pos (by rw [lt_iff_toNat_lt, hs, toNat_zero]; omega),
          toNat_sub_of_le _ _ (by
            rw [le_iff_toNat_le, hs, toNat_one]; omega), hs, toNat_one]
        omega
      rw [he]
      refine ⟨t₂, stepBack s, rfl, ?_⟩
      rw [hstep]
      exact sampleAt_of_run hk hjc hback (Or.inr hbehind)
    · rw [if_neg hbefore]
      have hge := UInt64.not_lt.mp hbefore
      rw [UInt64.le_iff_toNat_le, htimeCount] at hge
      by_cases hhit : aTimeStamp = timeCount
      · rw [if_pos hhit]
        refine ⟨t', sampleCount, rfl, ?_⟩
        have htime : timeOf f entryCount (before (sampleCounts f) i) = aTimeStamp.toNat := by
          rw [hhit, htimeCount]
          exact sumTo_before _ _ hi
        rw [hsampleCount]
        refine ⟨?_, Nat.le_of_eq htime, Or.inl htime⟩
        -- the run before is not empty, so its last sample lies before the time
        refine Nat.lt_of_le_of_ne (before_le_total (Nat.le_of_lt hi)) fun heq => ?_
        cases i with
        | zero => exact absurd heq (Nat.ne_of_lt h0)
        | succ k =>
          have hstart := hpassed (succ_pos k)
          rw [Nat.add_sub_cancel] at hstart
          have hsucc := span_succ (sampleCounts f) (sampleDeltas f) k
          have htimeSpan : aTimeStamp.toNat =
              span (sampleCounts f) (sampleDeltas f) (k + 1) := by rw [hhit, htimeCount]
          have hproduct : 0 < sampleCounts f k * sampleDeltas f k := by omega
          have hlastTime := timeOf_last (by omega) (Nat.pos_of_mul_pos_right hproduct) heq
          have hdelta : 0 < sampleDeltas f k := Nat.pos_of_mul_pos_left hproduct
          omega
      · rw [if_neg hhit, hslot]
        have hlt : span (sampleCounts f) (sampleDeltas f) i < aTimeStamp.toNat :=
          Nat.lt_of_le_of_ne hge fun heq =>
            hhit (UInt64.toNat_inj.mp (by rw [htimeCount]; exact heq.symm))
        rw [span_succ] at hspan
        refine ih hserves (by omega) ?_ ?_ (fun _ => by rw [Nat.add_sub_cancel]; exact hslot)
          (fun _ => by rw [Nat.add_sub_cancel]; exact hlt)
        · rw [toNat_add, hsampleCount, before_succ]
          exact mod_eq_of_lt (by unfold sampleCounts at hend ⊢; omega)
        · have hproduct : sampleCounts f i * sampleDeltas f i % 4294967296 =
              sampleCounts f i * sampleDeltas f i := mod_eq_of_lt (hfit i hi)
          rw [span_succ, ← hproduct, ← htimeCount]
          exact toNat_add_product (Nat.le_of_eq (by rw [htimeCount]; rfl)) hspan

/-! ## 5. The two functions -/

/-- `GetTimestampForSampleNumber`: the code and the time stamp. -/
def timestampOf (f : EntryFile TimeEntry) (a : TimeToSampleAtom) (aSampleNumber : UInt32) :
    Option Answer :=
  (a.query f (.getTimestampForSampleNumber aSampleNumber)).map Prod.snd

/-- `GetSampleNumberFromTimestamp`: the code and the sample number, `none` where the search does
    not end. -/
def sampleNumberOf (f : EntryFile TimeEntry) (a : TimeToSampleAtom) (aTimeStamp : UInt64)
    (oAlwaysRetSampleCount : Bool) : Option Answer :=
  (a.query f (.getSampleNumberFromTimestamp aTimeStamp oAlwaysRetSampleCount)).map Prod.snd

/-- The time stamp of a sample is its exact time. -/
def TimestampRight (f : EntryFile TimeEntry) (entryCount : Nat) (a : TimeToSampleAtom)
    (n : UInt32) : Prop :=
  ∃ ts, timestampOf f a n = some (.everythingFine, some ts) ∧ ts.toNat = timeOf f entryCount n.toNat

/-- What is expected of the two functions over a whole table. -/
structure SampleTimesRight (f : EntryFile TimeEntry) (entryCount : Nat) (a : TimeToSampleAtom) :
    Prop where
  timestamp : ∀ n : UInt32, n.toNat ≤ totalSamples f entryCount → TimestampRight f entryCount a n
  sampleNumber : ∀ (time : UInt64) (oAlwaysRetSampleCount : Bool),
    0 < totalSamples f entryCount →
    time.toNat ≤ timeOf f entryCount (totalSamples f entryCount - 1) →
    ∃ s : UInt32, sampleNumberOf f a time oAlwaysRetSampleCount =
        some (.everythingFine, some s.toUInt64) ∧
      SampleAt f entryCount time.toNat s.toNat
  inverse : ∀ (n : UInt32) (oAlwaysRetSampleCount : Bool),
    n.toNat < totalSamples f entryCount →
    ∃ (ts : UInt64) (s : UInt32), timestampOf f a n = some (.everythingFine, some ts) ∧
      sampleNumberOf f a ts oAlwaysRetSampleCount = some (.everythingFine, some s.toUInt64) ∧
      timestampOf f a s = some (.everythingFine, some ts)

theorem not_timestampRight_of_none (hnone : a.table = none) (n : UInt32) :
    ¬ TimestampRight f entryCount a n := by
  rintro ⟨ts, he, -⟩
  unfold timestampOf query at he
  rw [hnone] at he
  cases he

/-- **One time stamp** is right exactly where the runs' parts before the sample fit. -/
theorem timestampRight_iff {entryCount : Nat}
    (hholds : Holds f entryCount a) (htotal : totalSamples f entryCount < 4294967296) {n : UInt32}
    (hn : n.toNat ≤ totalSamples f entryCount) :
    TimestampRight f entryCount a n ↔ 0 < entryCount ∧ PartsFit f entryCount n.toNat := by
  obtain ⟨hzero, hnone⟩ | ⟨hpos, t, ht, hserves, hsmall⟩ := hholds
  · exact ⟨fun h => absurd h (not_timestampRight_of_none hnone n), fun h => by omega⟩
  have hquery : timestampOf f a n = if n = 0 then some (.everythingFine, some 0) else
      (timestampScan f a.parsingMode n entryCount 0 0 0 t).map Prod.snd := by
    unfold timestampOf query
    rw [ht]
    dsimp only [queryTable]
    rw [hserves.entryCount_eq]
    by_cases h0 : n = 0
    · rw [if_pos h0, if_pos h0]
      rfl
    · rw [if_neg h0, if_neg h0, Option.map_map]
      rfl
  unfold TimestampRight
  rw [hquery]
  by_cases h0 : n = 0
  · subst h0
    rw [if_pos rfl]
    refine ⟨fun _ => ⟨hpos, fun k _ => ?_⟩, fun _ => ⟨0, rfl, (sumTo_zero _ _ _).symm⟩⟩
    rw [toNat_zero, Nat.zero_sub, Nat.min_zero, zero_mul]
    decide
  rw [if_neg h0]
  have hn0 : 0 < n.toNat := Nat.pos_of_ne_zero fun h => h0 (UInt32.toNat_inj.mp h)
  obtain ⟨t', j, ts, he, hj, hlt, hle, hts⟩ := timestampScan_exact htotal hsmall hn hserves
    (Nat.zero_add _) (show (0 : UInt32).toNat = before (sampleCounts f) 0 from rfl)
    (show (0 : UInt64).toNat = wrappedSpan f 0 from rfl) hn0
  have hsucc := before_succ (sampleCounts f) j
  have hpart : (n.toNat - before (sampleCounts f) j) * sampleDeltas f j % 4294967296 ≤
      (n.toNat - before (sampleCounts f) j) * sampleDeltas f j := mod_le _ _
  have htime : timeOf f entryCount n.toNat = span (sampleCounts f) (sampleDeltas f) j +
      (n.toNat - before (sampleCounts f) j) * sampleDeltas f j := by
    have h := sumTo_run (sampleCounts f) (sampleDeltas f) hj
      (show n.toNat - before (sampleCounts f) j ≤ sampleCounts f j by omega)
    rwa [Nat.add_sub_cancel' (Nat.le_of_lt hlt)] at h
  have hown : min (sampleCounts f j) (n.toNat - before (sampleCounts f) j) =
      n.toNat - before (sampleCounts f) j := Nat.min_eq_right (by omega)
  have hwhole : ∀ k < j, min (sampleCounts f k) (n.toNat - before (sampleCounts f) k) =
      sampleCounts f k := by
    intro k hk
    have hmono : before (sampleCounts f) (k + 1) ≤ before (sampleCounts f) j := before_mono _ hk
    rw [before_succ] at hmono
    exact Nat.min_eq_left (by omega)
  have hrest : ∀ k, j < k → min (sampleCounts f k) (n.toNat - before (sampleCounts f) k) = 0 := by
    intro k hk
    have hmono : before (sampleCounts f) (j + 1) ≤ before (sampleCounts f) k := before_mono _ hk
    omega
  have hwrapped := @wrappedSpan_le f j
  rw [he]
  constructor
  · rintro ⟨ts', he', hright⟩
    cases he'
    refine ⟨hpos, fun k hk => ?_⟩
    have hspan : wrappedSpan f j = span (sampleCounts f) (sampleDeltas f) j := by omega
    rcases Nat.lt_trichotomy k j with hkj | rfl | hkj
    · rw [hwhole k hkj]
      exact (wrappedSpan_eq_iff j).mp hspan k hkj
    · rw [hown]
      omega
    · rw [hrest k hkj, zero_mul]
      decide
  · rintro ⟨-, hfit⟩
    refine ⟨ts, rfl, ?_⟩
    have hspan : wrappedSpan f j = span (sampleCounts f) (sampleDeltas f) j :=
      (wrappedSpan_eq_iff j).mpr fun k hk => by
        rw [← hwhole k hk]
        exact hfit k (by omega)
    have hfits := hfit j hj
    rw [hown] at hfits
    rw [hts, htime, hspan, mod_eq_of_lt hfits]

/-- Over a whole table the parts are the runs. -/
theorem partsFit_total : PartsFit f entryCount (totalSamples f entryCount) ↔
    RunsFit f entryCount := by
  have hwhole : ∀ k < entryCount, min (sampleCounts f k)
      (totalSamples f entryCount - before (sampleCounts f) k) = sampleCounts f k := by
    intro k hk
    have hend := @before_add_le_total f entryCount k hk
    exact Nat.min_eq_left (by omega)
  constructor
  · intro h k hk
    rw [← hwhole k hk]
    exact h k hk
  · intro h k hk
    rw [hwhole k hk]
    exact h k hk

/-- Runs that fit have parts that fit. -/
theorem partsFit_of_runsFit (h : RunsFit f entryCount) (n : Nat) : PartsFit f entryCount n :=
  fun k hk => Nat.lt_of_le_of_lt (Nat.mul_le_mul_right _ (Nat.min_le_left _ _)) (h k hk)

/-- The search of an atom whose runs fit. -/
theorem sampleNumberOf_right {entryCount : UInt32}
    (hholds : Holds f entryCount.toNat a) (htotal : totalSamples f entryCount.toNat < 4294967296)
    (hpos : 0 < entryCount.toNat) (hfit : RunsFit f entryCount.toNat) {time : UInt64}
    (flag : Bool) (h0 : 0 < totalSamples f entryCount.toNat)
    (htime : time.toNat ≤
      timeOf f entryCount.toNat (totalSamples f entryCount.toNat - 1)) :
    ∃ s : UInt32, sampleNumberOf f a time flag = some (.everythingFine, some s.toUInt64) ∧
      SampleAt f entryCount.toNat time.toNat s.toNat := by
  obtain ⟨hzero, -⟩ | ⟨-, t, ht, hserves, hsmall⟩ := hholds
  · exact absurd hzero (Nat.ne_of_gt hpos)
  obtain ⟨t', s, he, hs⟩ := @sampleNumberScan_right f entryCount.toNat a.parsingMode t hfit htotal
    h0 hsmall a.mediaType flag time htime entryCount.toNat 0 0 0 hserves (Nat.zero_add _) hpos
    entryCount.toNat_lt rfl rfl (fun h => absurd h (Nat.lt_irrefl 0))
    (fun h => absurd h (Nat.lt_irrefl 0))
  refine ⟨s, ?_, hs⟩
  unfold sampleNumberOf query
  rw [ht]
  dsimp only [queryTable]
  rw [hserves.entryCount_eq, he]
  rfl

/-- A sample that is on the screen at another's time has the same time. -/
theorem sampleAt_time_eq {n s : Nat} (h : SampleAt f entryCount (timeOf f entryCount n) s) :
    timeOf f entryCount s = timeOf f entryCount n := by
  obtain ⟨-, hle, heq | hlt⟩ := h
  · exact heq
  · rcases Nat.lt_or_ge s n with hsn | hns
    · have hmono : timeOf f entryCount (s + 1) ≤ timeOf f entryCount n := sumTo_mono _ _ _ hsn
      omega
    · exact Nat.le_antisymm hle (sumTo_mono _ _ _ hns)

end TimeToSampleAtom

open TimeToSampleAtom

/-- **The two functions are right** for a table exactly where it has an entry and every run lasts
    less than `2^32` ticks; one time stamp is right exactly where the parts of the runs before its
    sample last less than that. -/
theorem sample_times_right_iff {f : EntryFile TimeEntry} {entryCount : UInt32}
    {a : TimeToSampleAtom} (hholds : Holds f entryCount.toNat a)
    (htotal : totalSamples f entryCount.toNat < 4294967296) :
    (SampleTimesRight f entryCount.toNat a ↔
        0 < entryCount.toNat ∧ RunsFit f entryCount.toNat) ∧
      ∀ n : UInt32, n.toNat ≤ totalSamples f entryCount.toNat →
        (TimestampRight f entryCount.toNat a n ↔
          0 < entryCount.toNat ∧ PartsFit f entryCount.toNat n.toNat) := by
  refine ⟨⟨fun h => ?_, ?_⟩, fun n hn => timestampRight_iff hholds htotal hn⟩
  · have hlast : (UInt32.ofNat (totalSamples f entryCount.toNat)).toNat =
        totalSamples f entryCount.toNat := UInt32.toNat_ofNat_of_lt' htotal
    have hright := h.timestamp _ (Nat.le_of_eq hlast)
    rw [timestampRight_iff hholds htotal (Nat.le_of_eq hlast), hlast, partsFit_total] at hright
    exact hright
  · rintro ⟨hpos, hfit⟩
    have htimestamp : ∀ n : UInt32, n.toNat ≤ totalSamples f entryCount.toNat →
        TimestampRight f entryCount.toNat a n := fun n hn =>
      (timestampRight_iff hholds htotal hn).mpr ⟨hpos, partsFit_of_runsFit hfit n.toNat⟩
    refine ⟨htimestamp, fun time flag h0 htime =>
      sampleNumberOf_right hholds htotal hpos hfit flag h0 htime, fun n flag hn => ?_⟩
    obtain ⟨ts, he, hts⟩ := htimestamp n (Nat.le_of_lt hn)
    have htime : ts.toNat ≤
        timeOf f entryCount.toNat (totalSamples f entryCount.toNat - 1) := by
      rw [hts]
      exact sumTo_mono _ _ _ (Nat.le_sub_one_of_lt hn)
    obtain ⟨s, hs, hat⟩ :=
      sampleNumberOf_right hholds htotal hpos hfit flag (Nat.zero_lt_of_lt hn) htime
    obtain ⟨ts', he', hts'⟩ := htimestamp s (Nat.le_of_lt hat.1)
    rw [hts] at hat
    have hsame : ts' = ts := UInt64.toNat_inj.mp (by rw [hts', sampleAt_time_eq hat, hts])
    rw [hsame] at he'
    exact ⟨ts, s, he, hs, he'⟩

/-- Two entries of three samples, 1000 ticks apart. -/
theorem sample_times_right_iff_thousand :
    SampleTimesRight (constantFile ⟨3, 1000⟩) 2
      (.create (constantFile ⟨3, 1000⟩) false mediaTypeVisual 2) := by
  have hholds : Holds (constantFile ⟨3, 1000⟩) (UInt32.toNat 2)
      (.create (constantFile ⟨3, 1000⟩) false mediaTypeVisual 2) :=
    holds_create _ _ _ _ fun h => absurd h Bool.false_ne_true
  refine (sample_times_right_iff hholds (by decide)).1.mpr ⟨by decide, fun k _ => ?_⟩
  show 3 * 1000 < 4294967296
  decide

/-- Ten minutes of pictures at a scale of 10 MHz in one run: the time stamp of sample 18000 has lost
    one turn of 32 bits. -/
theorem long_run_wraps :
    ¬ SampleTimesRight (constantFile ⟨18000, 333333⟩) 1
      (.create (constantFile ⟨18000, 333333⟩) false mediaTypeVisual 1) := by
  intro h
  obtain ⟨ts, he, hts⟩ := h.timestamp 18000 (by decide)
  have hcode : timestampOf (constantFile ⟨18000, 333333⟩)
      (.create (constantFile ⟨18000, 333333⟩) false mediaTypeVisual 1) 18000 =
      some (.everythingFine, some 1705026704) := by decide
  rw [hcode] at he
  cases he
  have hplace : UInt32.toNat 18000 =
      before (sampleCounts (constantFile ⟨18000, 333333⟩)) 0 + 18000 := by decide
  unfold timeOf at hts
  rw [hplace, sumTo_run _ _ (Nat.zero_lt_one) (Nat.le_refl 18000)] at hts
  exact absurd hts (by decide)

end OpenCore.Mp4
