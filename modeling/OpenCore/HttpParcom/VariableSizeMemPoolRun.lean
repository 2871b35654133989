/-
  File:      OpenCore/HttpParcom/VariableSizeMemPoolRun.lean
  Subject:   WHAT THE POOL KEEPS: used and free chunks tile it and no free ones touch, as long as
             nothing is given back by its tail and no request rounds to zero.

  A tail that is given back enters the free list while its block stays whole in the used one, so
  from there on two chunks share its bytes. A request above `2 ^ 32 - 8` is rounded to zero, and
  a request of zero gives a block without bytes at the address of the next one.

  **Main result**: `pool_kept`.
-/
import OpenCore.HttpParcom.VariableSizeMemPool

namespace OpenCore.HttpParcom

open List Option

open Lib (Segment Tiles)
open Lib.Segment

namespace OsclMemPoolVariableChunkAllocator

/-! ## 1. Chunks of a list -/

section Lists

variable {α : Type} {l : List α} {i j : Nat} {x y : α}

theorem set_perm (h : l[i]? = some x) (z : α) :
    ∃ rest, l.Perm (x :: rest) ∧ (l.set i z).Perm (z :: rest) := by
  obtain ⟨hi, rfl⟩ := List.getElem?_eq_some_iff.mp h
  refine ⟨l.eraseIdx i, (getElem_cons_eraseIdx_perm hi).symm, ?_⟩
  have hset : ((l.set i z).get ⟨i, by rw [length_set]; exact hi⟩ ::
      (l.set i z).eraseIdx i).Perm (l.set i z) := getElem_cons_eraseIdx_perm _
  rw [get_eq_getElem, getElem_set_self, eraseIdx_set_eq] at hset
  exact hset.symm

/-- A chunk is changed in its place, and another one erased. -/
theorem set_eraseIdx_perm (hi : l[i]? = some x) (hj : l[j]? = some y) (hij : i ≠ j) (z : α) :
    ∃ rest, l.Perm (x :: y :: rest) ∧ ((l.set i z).eraseIdx j).Perm (z :: rest) := by
  induction l generalizing i j with
  | nil => cases hi
  | cons a l ih =>
    cases i with
    | zero =>
      obtain rfl : a = x := some.inj hi
      cases j with
      | zero => exact absurd rfl hij
      | succ j =>
        obtain ⟨hlt, rfl⟩ := List.getElem?_eq_some_iff.mp hj
        exact ⟨l.eraseIdx j, ((getElem_cons_eraseIdx_perm _).symm).cons a, .refl _⟩
    | succ i =>
      cases j with
      | zero =>
        obtain rfl : a = y := some.inj hj
        have hi' : l[i]? = some x := hi
        obtain ⟨rest, hl, hset⟩ := set_perm hi' z
        exact ⟨rest, (hl.cons a).trans (.swap x a rest), hset⟩
      | succ j =>
        obtain ⟨rest, hl, hset⟩ := ih hi hj (fun h => hij (congrArg Nat.succ h))
        refine ⟨a :: rest, ?_, (hset.cons a).trans (.swap z a rest)⟩
        exact (hl.cons a).trans ((Perm.swap x a _).trans ((Perm.swap y a rest).cons x))

end Lists

/-! ## 2. The free list -/

section Merge

variable {base size : Nat} {used chunks rest : List Segment} {c x y : Segment}

/-- What a search has found in the chunks it has seen. -/
structure Found (c : Segment) (chunks : List Segment) (index : Option Nat × Option Nat) : Prop where
  left : ∀ i, index.1 = some i → ∃ x, chunks[i]? = some x ∧ x.stop = c.ptr
  no_left : index.1 = none → ∀ x ∈ chunks, x.stop ≠ c.ptr
  right : ∀ i, index.2 = some i → ∃ x, chunks[i]? = some x ∧ x.ptr = c.stop
  no_right : index.2 = none → ∀ x ∈ chunks, x.ptr ≠ c.stop

/-- The loop finds the chunks that touch, and stops early only when there are both. -/
theorem searchLoop_found (seen : List Segment) (index : Option Nat × Option Nat)
    (h : Found c seen index) :
    Found c (seen ++ chunks) (searchLoop c seen.length chunks index) := by
  induction chunks generalizing seen index with
  | nil =>
    rw [append_nil]
    exact h
  | cons x chunks ih =>
    obtain ⟨left, hleft⟩ : ∃ left,
        left = if c.ptr = x.stop then some seen.length else index.1 := ⟨_, rfl⟩
    obtain ⟨right, hright⟩ : ∃ right,
        right = if c.stop = x.ptr then some seen.length else index.2 := ⟨_, rfl⟩
    have hgrow : ∀ (i : Nat) (z : Segment), seen[i]? = some z → (seen ++ [x])[i]? = some z := by
      intro i z hz
      rw [List.getElem?_append_left (List.getElem?_eq_some_iff.mp hz).1]
      exact hz
    have hnew : (seen ++ [x])[seen.length]? = some x := by simp
    have hstep : Found c (seen ++ [x]) (left, right) := by
      refine ⟨fun i hi => ?_, fun hn z hz => ?_, fun i hi => ?_, fun hn z hz => ?_⟩
      · by_cases ht : c.ptr = x.stop
        · rw [hleft, if_pos ht] at hi
          cases hi
          exact ⟨x, hnew, ht.symm⟩
        · rw [hleft, if_neg ht] at hi
          obtain ⟨z, hz, hzc⟩ := h.left i hi
          exact ⟨z, hgrow i z hz, hzc⟩
      · by_cases ht : c.ptr = x.stop
        · rw [hleft, if_pos ht] at hn
          cases hn
        · rw [hleft, if_neg ht] at hn
          rcases mem_append.mp hz with hz | hz
          · exact h.no_left hn z hz
          · rw [mem_singleton.mp hz]
            exact Ne.symm ht
      · by_cases ht : c.stop = x.ptr
        · rw [hright, if_pos ht] at hi
          cases hi
          exact ⟨x, hnew, ht.symm⟩
        · rw [hright, if_neg ht] at hi
          obtain ⟨z, hz, hzc⟩ := h.right i hi
          exact ⟨z, hgrow i z hz, hzc⟩
      · by_cases ht : c.stop = x.ptr
        · rw [hright, if_pos ht] at hn
          cases hn
        · rw [hright, if_neg ht] at hn
          rcases mem_append.mp hz with hz | hz
          · exact h.no_right hn z hz
          · rw [mem_singleton.mp hz]
            exact Ne.symm ht
    have happend : seen ++ x :: chunks = (seen ++ [x]) ++ chunks := by simp
    rw [searchLoop]
    simp only [← hleft, ← hright]
    by_cases hboth : (left.isSome && right.isSome) = true
    · rw [if_pos hboth, happend]
      obtain ⟨hl, hr⟩ := Bool.and_eq_true_iff.mp hboth
      have hmore : ∀ (i : Nat) (z : Segment), (seen ++ [x])[i]? = some z →
          ((seen ++ [x]) ++ chunks)[i]? = some z := by
        intro i z hz
        rw [List.getElem?_append_left (List.getElem?_eq_some_iff.mp hz).1]
        exact hz
      refine ⟨fun i hi => ?_, fun hn => ?_, fun i hi => ?_, fun hn => ?_⟩
      · obtain ⟨z, hz, hzc⟩ := hstep.left i hi
        exact ⟨z, hmore i z hz, hzc⟩
      · rw [show left = none from hn] at hl
        cases hl
      · obtain ⟨z, hz, hzc⟩ := hstep.right i hi
        exact ⟨z, hmore i z hz, hzc⟩
      · rw [show right = none from hn] at hr
        cases hr
    · rw [if_neg hboth, happend]
      have hnext := ih (seen ++ [x]) (left, right) hstep
      rwa [length_append, length_singleton] at hnext

theorem search_found (c : Segment) (chunks : List Segment) :
    Found c chunks (searchSegmentContinuity c chunks) :=
  searchLoop_found [] (none, none)
    ⟨fun _ h => absurd h.symm (some_ne_none _), fun _ _ h => absurd h not_mem_nil,
      fun _ h => absurd h.symm (some_ne_none _), fun _ _ h => absurd h not_mem_nil⟩

/-- Nothing touches a chunk: it is one more. -/
theorem separated_add (ha : ∀ x ∈ rest, c.Apart x) (hl : ∀ x ∈ rest, x.stop ≠ c.ptr)
    (hr : ∀ x ∈ rest, x.ptr ≠ c.stop) (hs : rest.Pairwise Separated) :
    (c :: rest).Pairwise Separated := by
  refine pairwise_cons.mpr ⟨fun x hx => ?_, hs⟩
  have h1 := ha x hx
  have h2 := hl x hx
  have h3 := hr x hx
  unfold Apart at h1
  unfold Separated
  omega

/-- A chunk is joined to the one on its left. -/
theorem separated_left (hs : (x :: rest).Pairwise Separated) (hx : x.stop = c.ptr)
    (ha : ∀ y ∈ rest, c.Apart y) (hr : ∀ y ∈ rest, y.ptr ≠ c.stop) :
    ((⟨x.ptr, x.len + c.len⟩ : Segment) :: rest).Pairwise Separated := by
  obtain ⟨hx', hrest⟩ := pairwise_cons.mp hs
  refine pairwise_cons.mpr ⟨fun y hy => ?_, hrest⟩
  have h1 := hx' y hy
  have h2 := ha y hy
  have h3 := hr y hy
  simp only [Apart, Separated, Segment.stop] at hx h1 h2 h3 ⊢
  omega

/-- A chunk is joined to the one on its right. -/
theorem separated_right (hs : (y :: rest).Pairwise Separated) (hy : y.ptr = c.stop)
    (ha : ∀ x ∈ rest, c.Apart x) (hl : ∀ x ∈ rest, x.stop ≠ c.ptr) :
    ((⟨c.ptr, y.len + c.len⟩ : Segment) :: rest).Pairwise Separated := by
  obtain ⟨hy', hrest⟩ := pairwise_cons.mp hs
  refine pairwise_cons.mpr ⟨fun x hx => ?_, hrest⟩
  have h1 := hy' x hx
  have h2 := ha x hx
  have h3 := hl x hx
  simp only [Apart, Separated, Segment.stop] at hy h1 h2 h3 ⊢
  omega

/-- A chunk is joined to the ones on both sides. -/
theorem separated_both (hs : (x :: y :: rest).Pairwise Separated) (hx : x.stop = c.ptr)
    (hy : y.ptr = c.stop) (ha : ∀ z ∈ rest, c.Apart z) :
    ((⟨x.ptr, x.len + (c.len + y.len)⟩ : Segment) :: rest).Pairwise Separated := by
  obtain ⟨hx', hs'⟩ := pairwise_cons.mp hs
  obtain ⟨hy', hrest⟩ := pairwise_cons.mp hs'
  refine pairwise_cons.mpr ⟨fun z hz => ?_, hrest⟩
  have h1 := hx' z (mem_cons_of_mem y hz)
  have h2 := hy' z hz
  have h3 := ha z hz
  simp only [Apart, Separated, Segment.stop] at hx hy h1 h2 h3 ⊢
  omega

theorem chunkAt_eq {i : Nat} (h : chunks[i]? = some x) : chunkAt chunks i = x := by
  rw [chunkAt, getD_eq_getElem?_getD, h, getD_some]

/-- A chunk in front of the used ones is one of the free ones. -/
theorem tiles_free {z : Segment} {free : List Segment} (h : Tiles base size (z :: (used ++ rest)))
    (hp : free.Perm (z :: rest)) : Tiles base size (used ++ free) :=
  h.perm (perm_middle.symm.trans (hp.symm.append_left used))

/-- A chunk between free ones that are separated, with used ones that are not empty. -/
theorem no_seam (hu : ∀ z ∈ used, 0 < z.len) (hs : (x :: rest).Pairwise Separated) {seam : Nat}
    (hseam : seam = x.ptr ∨ seam = x.stop) : ∀ z ∈ used ++ rest, 0 < z.len ∨ z.ptr ≠ seam := by
  intro z hz
  rcases mem_append.mp hz with hz | hz
  · exact .inl (hu z hz)
  · have h1 := (pairwise_cons.mp hs).1 z hz
    unfold Separated at h1
    have hxs : x.stop = x.ptr + x.len := rfl
    have hzs : z.stop = z.ptr + z.len := rfl
    omega

/-- The sizes of joined chunks do not wrap. -/
theorem len_mod (hsize : size < 2 ^ 32) {z : Segment} (h : Tiles base size (z :: rest)) :
    z.len % 2 ^ 32 = z.len := by
  obtain ⟨h1, h2⟩ := h.inside z mem_cons_self
  unfold stop at h2
  exact Nat.mod_eq_of_lt (by omega)

/-- A chunk that is in no other one goes to the free list. -/
theorem reclaim_spec (hsize : size < 2 ^ 32) (hu : ∀ z ∈ used, 0 < z.len)
    (hT : Tiles base size (c :: (used ++ chunks))) (hs : chunks.Pairwise Separated) :
    Tiles base size (used ++ reclaim c chunks) ∧ (reclaim c chunks).Pairwise Separated := by
  have hapart : ∀ z ∈ chunks, c.Apart z := fun z hz =>
    (pairwise_cons.mp hT.apart).1 z (mem_append_right used hz)
  unfold reclaim
  by_cases hnil : chunks = []
  · rw [if_pos hnil]
    rw [hnil] at hT
    exact ⟨tiles_free hT (.refl _), pairwise_singleton _ _⟩
  rw [if_neg hnil]
  obtain ⟨left, hl⟩ : ∃ left, (searchSegmentContinuity c chunks).1 = left := ⟨_, rfl⟩
  obtain ⟨right, hr⟩ : ∃ right, (searchSegmentContinuity c chunks).2 = right := ⟨_, rfl⟩
  have hfound := search_found c chunks
  simp only [hl, hr]
  cases left with
  | none =>
    have hnl := hfound.no_left hl
    cases right with
    | none =>
      have hp : (chunks ++ [c]).Perm (c :: chunks) := perm_append_singleton c chunks
      exact ⟨tiles_free hT hp, (hp.pairwise_iff Or.symm).mpr
        (separated_add hapart hnl (hfound.no_right hr) hs)⟩
    | some j =>
      obtain ⟨y, hy, hyc⟩ := hfound.right j hr
      have hlist : doMerge c chunks none (some j) =
          chunks.set j ⟨c.ptr, (y.len + c.len) % 2 ^ 32⟩ := by rw [doMerge, chunkAt_eq hy]
      obtain ⟨rest, hp, hset⟩ := set_perm hy (⟨c.ptr, (y.len + c.len) % 2 ^ 32⟩ : Segment)
      have hs' := (hp.pairwise_iff Or.symm).mp hs
      have hT' : Tiles base size (c :: y :: (used ++ rest)) :=
        hT.perm (((hp.append_left used).trans perm_middle).cons c)
      have hjoin := hT'.join hyc.symm (no_seam hu hs' (.inl rfl))
      rw [Nat.add_comm c.len] at hjoin
      have hmod : (y.len + c.len) % 2 ^ 32 = y.len + c.len := len_mod hsize hjoin
      rw [hmod] at hset hlist
      rw [hlist]
      refine ⟨tiles_free hjoin hset, (hset.pairwise_iff Or.symm).mpr ?_⟩
      exact separated_right hs' hyc
        (fun z hz => hapart z (hp.mem_iff.mpr (mem_cons_of_mem y hz)))
        (fun z hz => hnl z (hp.mem_iff.mpr (mem_cons_of_mem y hz)))
  | some i =>
    obtain ⟨x, hx, hxc⟩ := hfound.left i hl
    cases right with
    | none =>
      have hnr := hfound.no_right hr
      have hlist : doMerge c chunks (some i) none =
          chunks.set i ⟨x.ptr, (x.len + c.len) % 2 ^ 32⟩ := by rw [doMerge, chunkAt_eq hx]
      obtain ⟨rest, hp, hset⟩ := set_perm hx (⟨x.ptr, (x.len + c.len) % 2 ^ 32⟩ : Segment)
      have hs' := (hp.pairwise_iff Or.symm).mp hs
      have hT' : Tiles base size (x :: c :: (used ++ rest)) :=
        hT.perm ((((hp.append_left used).trans perm_middle).cons c).trans (.swap x c _))
      have hjoin := hT'.join hxc (no_seam hu hs' (.inr hxc.symm))
      have hmod : (x.len + c.len) % 2 ^ 32 = x.len + c.len := len_mod hsize hjoin
      rw [hmod] at hset hlist
      rw [hlist]
      refine ⟨tiles_free hjoin hset, (hset.pairwise_iff Or.symm).mpr ?_⟩
      exact separated_left hs' hxc
        (fun z hz => hapart z (hp.mem_iff.mpr (mem_cons_of_mem x hz)))
        (fun z hz => hnr z (hp.mem_iff.mpr (mem_cons_of_mem x hz)))
    | some j =>
      obtain ⟨y, hy, hyc⟩ := hfound.right j hr
      have hlist : doMerge c chunks (some i) (some j) =
          (chunks.set i ⟨x.ptr, (x.len + (c.len + y.len)) % 2 ^ 32⟩).eraseIdx j := by
        rw [doMerge, chunkAt_eq hx, chunkAt_eq hy]
      by_cases hij : i = j
      · -- The chunk that touches on both sides is empty, and so is the one that comes.
        subst hij
        obtain rfl : x = y := some.inj (hx.symm.trans hy)
        have hcs : c.stop = c.ptr + c.len := rfl
        have hxs : x.stop = x.ptr + x.len := rfl
        have hdrop : doMerge c chunks (some i) (some i) = chunks.eraseIdx i := by
          rw [hlist, eraseIdx_set_eq]
        obtain ⟨hi, hxi⟩ := List.getElem?_eq_some_iff.mp hx
        have hp : chunks.Perm (x :: chunks.eraseIdx i) := by
          rw [← hxi]
          exact (getElem_cons_eraseIdx_perm hi).symm
        have hT' : Tiles base size (x :: (used ++ chunks.eraseIdx i)) :=
          (hT.drop_empty (by omega)).perm ((hp.append_left used).trans perm_middle)
        rw [hdrop]
        refine ⟨hT'.drop_empty (by omega), ?_⟩
        exact (pairwise_cons.mp ((hp.pairwise_iff Or.symm).mp hs)).2
      · obtain ⟨rest, hp, hset⟩ := set_eraseIdx_perm hx hy hij
          (⟨x.ptr, (x.len + (c.len + y.len)) % 2 ^ 32⟩ : Segment)
        have hs' := (hp.pairwise_iff Or.symm).mp hs
        have hsy := (pairwise_cons.mp hs').2
        have hsx : (x :: rest).Pairwise Separated := by
          refine hs'.sublist ?_
          exact .cons_cons x (.cons y (.refl rest))
        have hT' : Tiles base size (x :: c :: y :: (used ++ rest)) := by
          have h1 : (used ++ chunks).Perm (x :: y :: (used ++ rest)) :=
            (hp.append_left used).trans (perm_middle.trans (perm_middle.cons x))
          exact hT.perm ((h1.cons c).trans (.swap x c _))
        have hT2 : Tiles base size (c :: y :: x :: (used ++ rest)) :=
          hT'.perm ((Perm.swap c x _).trans ((Perm.swap y x _).cons c))
        have hxy : x.ptr ≠ y.ptr := by
          have h1 := (pairwise_cons.mp hs').1 y mem_cons_self
          have hxs : x.stop = x.ptr + x.len := rfl
          have hys : y.stop = y.ptr + y.len := rfl
          exact fun he => by rcases h1 with h1 | h1 <;> omega
        have hright := hT2.join hyc.symm (forall_mem_cons.mpr
          ⟨.inr hxy, no_seam hu hsy (.inl rfl)⟩)
        have hjoin := (hright.perm (.swap x _ _)).join hxc
          (no_seam hu hsx (.inr hxc.symm))
        have hmod : (x.len + (c.len + y.len)) % 2 ^ 32 = x.len + (c.len + y.len) :=
          len_mod hsize hjoin
        rw [hmod] at hset hlist
        rw [hlist]
        refine ⟨tiles_free hjoin hset, (hset.pairwise_iff Or.symm).mpr ?_⟩
        exact separated_both hs' hxc hyc fun z hz => hapart z
          (hp.mem_iff.mpr (mem_cons_of_mem x (mem_cons_of_mem y hz)))

end Merge

/-! ## 3. What the pool keeps -/

variable {OsclFloat : Type}

/-- Used and free chunks tile the pool, free ones do not touch, used ones are not empty, and a
    pool without bytes has not been used. -/
structure Good (s : OsclMemPoolVariableChunkAllocator OsclFloat) : Prop where
  tiles : Tiles s.iMemPool s.iMaxPoolSize (s.iUsedMemChunkList ++ s.iFreeMemChunkList)
  separated : s.iFreeMemChunkList.Pairwise Separated
  used : ∀ chunk ∈ s.iUsedMemChunkList, 0 < chunk.len
  small : s.iMaxPoolSize < 2 ^ 32
  empty : s.iMaxPoolSize = 0 →
    s.iUsedMemChunkList = [] ∧ s.iFreeMemChunkList = [⟨s.iMemPool, 0⟩]

section Operations

variable {averaging : Averaging OsclFloat} {s s' : OsclMemPoolVariableChunkAllocator OsclFloat}

/-- Rounding up: to no less, where it does not wrap. -/
theorem aligned_spec {n : Nat} (hn : n < 2 ^ 32) :
    oscl_mem_aligned_size n < 2 ^ 32 ∧ (n ≤ 2 ^ 32 - 8 → n ≤ oscl_mem_aligned_size n) := by
  have hand : n &&& 0xfffffff8 = n / 2 ^ 3 * 2 ^ 3 := by
    refine Nat.eq_of_testBit_eq fun i => ?_
    rw [show (0xfffffff8 : Nat) = (2 ^ 29 - 1) * 2 ^ 3 by decide, Nat.testBit_and,
      Nat.testBit_mul_two_pow, Nat.testBit_mul_two_pow, Nat.testBit_two_pow_sub_one,
      Nat.testBit_div_two_pow]
    by_cases h3 : 3 ≤ i
    · rw [Nat.sub_add_cancel h3]
      by_cases h32 : i - 3 < 29
      · simp [h3, h32]
      · have hhigh : n.testBit i = false := Nat.testBit_lt_two_pow
          (Nat.lt_of_lt_of_le hn (Nat.pow_le_pow_right (by decide) (by omega)))
        simp [hhigh]
    · simp [h3]
  have hlow : n &&& 0x7 = n % 8 := Nat.and_two_pow_sub_one_eq_mod n 3
  unfold oscl_mem_aligned_size
  rw [hand, hlow]
  split
  · omega
  · exact ⟨hn, fun _ => Nat.le_refl n⟩

theorem createMempool_good {maxPoolSize iMemPool : Nat} (hsize : maxPoolSize < 2 ^ 32)
    (h : createMempool averaging maxPoolSize iMemPool = some s) : Good s := by
  unfold createMempool at h
  split at h
  · cases h
  · cases h
    refine ⟨.whole _ _, pairwise_singleton _ _, fun _ h => absurd h not_mem_nil,
      (aligned_spec hsize).1, fun h0 => ⟨rfl, ?_⟩⟩
    show [(⟨iMemPool, oscl_mem_aligned_size maxPoolSize⟩ : Segment)] = _
    rw [show oscl_mem_aligned_size maxPoolSize = 0 from h0]

/-- The chunk that is got: a free one, or the beginning of one with the rest left in its place. -/
theorem getFreeMemChunk_spec {aver n : Nat} {chunks : List Segment} {r : Segment × List Segment}
    (h : getFreeMemChunk aver n chunks = some r) :
    ∃ x rest, chunks.Perm (x :: rest) ∧ n ≤ x.len ∧
      (r.1 = ⟨x.ptr, n⟩ ∧ r.2.Perm (⟨x.ptr + n, x.len - n⟩ :: rest) ∨
        r.1 = x ∧ r.2.Perm rest) := by
  induction chunks generalizing r with
  | nil => cases h
  | cons chunk chunks ih =>
    unfold getFreeMemChunk at h
    by_cases hless : chunk.len < n
    · rw [if_pos hless] at h
      obtain ⟨r', hr', rfl⟩ := map_eq_some_iff.mp h
      obtain ⟨x, rest, hp, hle, hcase⟩ := ih hr'
      refine ⟨x, chunk :: rest, (hp.cons chunk).trans (.swap x chunk rest), hle, ?_⟩
      rcases hcase with ⟨hchunk, hfree⟩ | ⟨hchunk, hfree⟩
      · exact .inl ⟨hchunk, (hfree.cons chunk).trans (.swap _ chunk rest)⟩
      · exact .inr ⟨hchunk, hfree.cons chunk⟩
    · rw [if_neg hless] at h
      refine ⟨chunk, chunks, .refl _, by omega, ?_⟩
      split at h
      · cases h
        exact .inl ⟨rfl, .refl _⟩
      · cases h
        exact .inr ⟨rfl, .refl _⟩

/-- An allocation of more than nothing: the block has the bytes, and is apart from the others. -/
theorem allocate_good {n p : Nat} (hg : Good s) (h0 : 0 < n) (hn : n ≤ 2 ^ 32 - 8)
    (h : s.allocate averaging n = some (p, s')) :
    Good s' ∧ s'.iMemPool = s.iMemPool ∧ s'.iMaxPoolSize = s.iMaxPoolSize ∧
      ∃ block ∈ s'.iUsedMemChunkList, block.ptr = p ∧ n ≤ block.len ∧
        ∀ live ∈ s.iUsedMemChunkList, block.Apart live := by
  have hle := (aligned_spec (show n < 2 ^ 32 by omega)).2 hn
  unfold allocate at h
  simp only at h
  split at h
  · obtain ⟨r, hr, he⟩ := map_eq_some_iff.mp h
    cases he
    obtain ⟨x, rest, hp, hxn, hcase⟩ := getFreeMemChunk_spec hr
    have hsep := (hp.pairwise_iff Or.symm).mp hg.separated
    obtain ⟨hx, hrest⟩ := pairwise_cons.mp hsep
    have hT : Tiles s.iMemPool s.iMaxPoolSize (x :: (s.iUsedMemChunkList ++ rest)) :=
      hg.tiles.perm ((hp.append_left _).trans perm_middle)
    -- The block in front of the pool's other chunks, and the free ones left separated.
    have hnew : Tiles s.iMemPool s.iMaxPoolSize (r.1 :: (s.iUsedMemChunkList ++ r.2)) ∧
        r.2.Pairwise Separated ∧ n ≤ r.1.len := by
      rcases hcase with ⟨hchunk, hfree⟩ | ⟨hchunk, hfree⟩
      · refine ⟨?_, (hfree.pairwise_iff Or.symm).mpr ?_, by rw [hchunk]; exact hle⟩
        · rw [hchunk]
          exact (hT.split hxn).perm ((perm_middle.symm.trans
            (hfree.symm.append_left _)).cons _)
        · refine pairwise_cons.mpr
            ⟨fun y hy => (hx y hy).imp (fun h1 => ?_) fun h1 => ?_, hrest⟩
          · show x.ptr + oscl_mem_aligned_size n + (x.len - oscl_mem_aligned_size n) < y.ptr
            have hxs : x.stop = x.ptr + x.len := rfl
            omega
          · show y.stop < x.ptr + oscl_mem_aligned_size n
            omega
      · refine ⟨?_, (hfree.pairwise_iff Or.symm).mpr hrest, by rw [hchunk]; omega⟩
        rw [hchunk]
        exact hT.perm ((hfree.symm.append_left _).cons x)
    obtain ⟨hT', hsep', hlen⟩ := hnew
    refine ⟨⟨?_, hsep', ?_, hg.small, fun hz => ?_⟩, rfl, rfl, r.1,
      mem_append_right _ mem_cons_self, rfl, hlen, fun live hl =>
      (pairwise_cons.mp hT'.apart).1 live (mem_append_left _ hl)⟩
    · rw [append_assoc]
      exact hT'.perm perm_middle.symm
    · intro chunk hc
      rcases mem_append.mp hc with hc | hc
      · exact hg.used chunk hc
      · rw [mem_singleton.mp hc]
        omega
    · have hmem : x ∈ s.iFreeMemChunkList := hp.mem_iff.mpr mem_cons_self
      rw [(hg.empty hz).2, mem_singleton] at hmem
      rw [hmem] at hxn
      exact absurd hxn (by show ¬ oscl_mem_aligned_size n ≤ 0; omega)
  · cases h

theorem takeUsed_spec {p : Nat} {chunks : List Segment} {r : Segment × List Segment}
    (h : takeUsed p chunks = some r) : chunks.Perm (r.1 :: r.2) := by
  induction chunks generalizing r with
  | nil => cases h
  | cons chunk chunks ih =>
    unfold takeUsed at h
    split at h
    · cases h
      exact .refl _
    · obtain ⟨r', hr', rfl⟩ := map_eq_some_iff.mp h
      exact ((ih hr').cons chunk).trans (.swap r'.1 chunk r'.2)

/-- A chunk that is given back is joined to what is free beside it. -/
theorem deallocate_good {p : Nat} (hg : Good s) (h : s.deallocate p = some s') :
    Good s' ∧ s'.iMemPool = s.iMemPool ∧ s'.iMaxPoolSize = s.iMaxPoolSize := by
  unfold deallocate at h
  split at h
  · obtain ⟨r, hr, rfl⟩ := map_eq_some_iff.mp h
    have hp := takeUsed_spec hr
    have hused : ∀ chunk ∈ r.2, 0 < chunk.len := fun chunk hc =>
      hg.used chunk (hp.mem_iff.mpr (mem_cons_of_mem r.1 hc))
    have hT : Tiles s.iMemPool s.iMaxPoolSize (r.1 :: (r.2 ++ s.iFreeMemChunkList)) :=
      hg.tiles.perm (hp.append_right _)
    obtain ⟨hT', hsep'⟩ := reclaim_spec hg.small hused hT hg.separated
    refine ⟨⟨hT', hsep', hused, hg.small, fun hz => ?_⟩, rfl, rfl⟩
    rw [(hg.empty hz).1] at hr
    cases hr
  · cases h

/-- Nothing is given back at the end of a block. -/
theorem reclaim_nothing_good {q : Nat} (hg : Good s)
    (htail : ∃ block ∈ s.iUsedMemChunkList, q = block.stop)
    (h : s.reclaimUnusedPortion q 0 = some s') :
    Good s' ∧ s'.iMemPool = s.iMemPool ∧ s'.iMaxPoolSize = s.iMaxPoolSize := by
  unfold reclaimUnusedPortion at h
  split at h
  · cases h
    obtain ⟨block, hblock, rfl⟩ := htail
    have hin := hg.tiles.inside block (mem_append_left _ hblock)
    obtain ⟨rest, hp⟩ : ∃ rest,
        (s.iUsedMemChunkList ++ s.iFreeMemChunkList).Perm (block :: rest) :=
      ⟨_, perm_cons_erase (mem_append_left _ hblock)⟩
    have hT := hg.tiles.perm hp
    have hempty : Tiles s.iMemPool s.iMaxPoolSize
        (⟨block.stop, 0⟩ :: (s.iUsedMemChunkList ++ s.iFreeMemChunkList)) := by
      have hbs : block.stop = block.ptr + block.len := rfl
      refine hg.tiles.add_empty rfl ⟨by show _ ≤ block.stop; omega, hin.2⟩ fun x hx => ?_
      rcases mem_cons.mp (hp.mem_iff.mp hx) with rfl | hx
      · exact .inr (Nat.le_refl _)
      · refine ((pairwise_cons.mp hT.apart).1 x hx).imp id fun hle => ?_
        show x.stop ≤ block.stop
        omega
    obtain ⟨hT', hsep'⟩ := reclaim_spec hg.small hg.used hempty hg.separated
    refine ⟨⟨hT', hsep', hg.used, hg.small, fun hz => ?_⟩, rfl, rfl⟩
    rw [(hg.empty hz).1] at hblock
    exact absurd hblock not_mem_nil
  · cases h

/-- Once nothing is used, the free list is the whole pool. -/
theorem Good.all_free (hg : Good s) (h : s.iUsedMemChunkList = []) :
    s.iFreeMemChunkList = [⟨s.iMemPool, s.iMaxPoolSize⟩] := by
  rcases Nat.eq_zero_or_pos s.iMaxPoolSize with hz | hpos
  · rw [(hg.empty hz).2, hz]
  · have hT := hg.tiles
    rw [h, nil_append] at hT
    exact hT.single hg.separated hpos

end Operations

/-! ## 4. Every sequence of calls -/

/-- A call of the pool. -/
inductive Call where
  | allocate (n : Nat)
  | deallocate (p : Nat)
  | reclaimUnusedPortion (aPtr aBytesToFree : Nat)

section Calls

variable (averaging : Averaging OsclFloat)

/-- The pool after a call; one that leaves has changed nothing. -/
def after (s : OsclMemPoolVariableChunkAllocator OsclFloat) :
    Call → OsclMemPoolVariableChunkAllocator OsclFloat
  | .allocate n => ((s.allocate averaging n).map Prod.snd).getD s
  | .deallocate p => (s.deallocate p).getD s
  | .reclaimUnusedPortion aPtr aBytesToFree => (s.reclaimUnusedPortion aPtr aBytesToFree).getD s

/-- A call that can be made: a request is a 32-bit number, and what is given back is the tail of a
    used block. -/
def CanCall (s : OsclMemPoolVariableChunkAllocator OsclFloat) : Call → Prop
  | .allocate n => n < 2 ^ 32
  | .deallocate _ => True
  | .reclaimUnusedPortion aPtr aBytesToFree =>
    ∃ block ∈ s.iUsedMemChunkList, block.ptr ≤ aPtr ∧ aPtr + aBytesToFree = block.stop

/-- A call the pool is made for: a request is for something, and is not rounded to zero; and no
    bytes are given back at the end of a block. -/
def Suits (s : OsclMemPoolVariableChunkAllocator OsclFloat) : Call → Prop
  | .allocate n => 0 < n ∧ n ≤ 2 ^ 32 - 8
  | .deallocate _ => True
  | .reclaimUnusedPortion aPtr aBytesToFree =>
    aBytesToFree = 0 ∧ ∃ block ∈ s.iUsedMemChunkList, aPtr = block.stop

instance (s : OsclMemPoolVariableChunkAllocator OsclFloat) : (call : Call) →
    Decidable (s.CanCall call)
  | .allocate n => inferInstanceAs (Decidable (n < 2 ^ 32))
  | .deallocate _ => inferInstanceAs (Decidable True)
  | .reclaimUnusedPortion aPtr aBytesToFree => inferInstanceAs (Decidable
      (∃ block ∈ s.iUsedMemChunkList, block.ptr ≤ aPtr ∧ aPtr + aBytesToFree = block.stop))

instance (s : OsclMemPoolVariableChunkAllocator OsclFloat) : (call : Call) →
    Decidable (s.Suits call)
  | .allocate n => inferInstanceAs (Decidable (0 < n ∧ n ≤ 2 ^ 32 - 8))
  | .deallocate _ => inferInstanceAs (Decidable True)
  | .reclaimUnusedPortion aPtr aBytesToFree => inferInstanceAs (Decidable
      (aBytesToFree = 0 ∧ ∃ block ∈ s.iUsedMemChunkList, aPtr = block.stop))

/-- What holds after a call: used and free chunks tile the pool, free ones do not touch, a block
    that was allocated has its bytes apart from all others, and once nothing is used the free list
    is the first segment. -/
structure Keeps (first : Segment) (s : OsclMemPoolVariableChunkAllocator OsclFloat)
    (call : Call) : Prop where
  tiles : Tiles first.ptr first.len
    ((after averaging s call).iUsedMemChunkList ++ (after averaging s call).iFreeMemChunkList)
  separated : (after averaging s call).iFreeMemChunkList.Pairwise Separated
  allocated : ∀ n p s', call = .allocate n → s.allocate averaging n = some (p, s') →
    ∃ block ∈ s'.iUsedMemChunkList, block.ptr = p ∧ n ≤ block.len ∧
      ∀ live ∈ s.iUsedMemChunkList, block.Apart live
  all_free : (after averaging s call).iUsedMemChunkList = [] →
    (after averaging s call).iFreeMemChunkList = [first]

/-- A property of a pool and a call holds at every call of a sequence. -/
def Always (P : OsclMemPoolVariableChunkAllocator OsclFloat → Call → Prop) :
    OsclMemPoolVariableChunkAllocator OsclFloat → List Call → Prop
  | _, [] => True
  | s, call :: calls => P s call ∧ Always P (after averaging s call) calls

instance decidableAlways (P : OsclMemPoolVariableChunkAllocator OsclFloat → Call → Prop)
    [∀ s call, Decidable (P s call)] : (s : OsclMemPoolVariableChunkAllocator OsclFloat) →
    (calls : List Call) → Decidable (Always averaging P s calls)
  | _, [] => inferInstanceAs (Decidable True)
  | s, call :: calls =>
    have := decidableAlways P (after averaging s call) calls
    inferInstanceAs (Decidable (P s call ∧ Always averaging P (after averaging s call) calls))

variable {averaging}

variable {s : OsclMemPoolVariableChunkAllocator OsclFloat}

theorem Good.after {call : Call} (hg : Good s)
    (hc : s.Suits call) : Good (after averaging s call) ∧
      (OsclMemPoolVariableChunkAllocator.after averaging s call).iMemPool = s.iMemPool ∧
      (OsclMemPoolVariableChunkAllocator.after averaging s call).iMaxPoolSize =
        s.iMaxPoolSize := by
  cases call with
  | allocate n =>
    have heq : OsclMemPoolVariableChunkAllocator.after averaging s (.allocate n) =
      ((s.allocate averaging n).map Prod.snd).getD s := rfl
    rw [heq]
    cases h : s.allocate averaging n with
    | none => exact ⟨hg, rfl, rfl⟩
    | some r =>
      obtain ⟨hgood, hmem, hsize, -⟩ := allocate_good hg hc.1 hc.2 h
      exact ⟨hgood, hmem, hsize⟩
  | deallocate p =>
    have heq : OsclMemPoolVariableChunkAllocator.after averaging s (.deallocate p) =
      (s.deallocate p).getD s := rfl
    rw [heq]
    cases h : s.deallocate p with
    | none => exact ⟨hg, rfl, rfl⟩
    | some s' => exact deallocate_good hg h
  | reclaimUnusedPortion aPtr aBytesToFree =>
    obtain ⟨rfl, htail⟩ := hc
    have heq : OsclMemPoolVariableChunkAllocator.after averaging s
      (.reclaimUnusedPortion aPtr 0) = (s.reclaimUnusedPortion aPtr 0).getD s := rfl
    rw [heq]
    cases h : s.reclaimUnusedPortion aPtr 0 with
    | none => exact ⟨hg, rfl, rfl⟩
    | some s' => exact reclaim_nothing_good hg htail h

theorem Good.always (hg : Good s)
    (calls : List Call) (h : Always averaging Suits s calls) :
    Always averaging (Keeps averaging ⟨s.iMemPool, s.iMaxPoolSize⟩) s calls := by
  induction calls generalizing s with
  | nil => trivial
  | cons call calls ih =>
    obtain ⟨hc, hcalls⟩ := h
    obtain ⟨hgood, hmem, hsize⟩ : Good (OsclMemPoolVariableChunkAllocator.after averaging s call) ∧
        (OsclMemPoolVariableChunkAllocator.after averaging s call).iMemPool = s.iMemPool ∧
        (OsclMemPoolVariableChunkAllocator.after averaging s call).iMaxPoolSize = s.iMaxPoolSize :=
      hg.after hc
    have hrest := ih hgood hcalls
    have hT := hgood.tiles
    have hall := hgood.all_free
    rw [hmem, hsize] at hrest hT hall
    refine ⟨⟨hT, hgood.separated, ?_, hall⟩, hrest⟩
    rintro n p s' rfl hs'
    exact (allocate_good hg hc.1 hc.2 hs').2.2.2

end Calls

/-- Whatever the pool's size and the sequence of calls: the pool keeps what it should, where every
    call suits it. -/
theorem pool_kept (averaging : Averaging OsclFloat) {maxPoolSize iMemPool : Nat}
    {s : OsclMemPoolVariableChunkAllocator OsclFloat} (calls : List Call)
    (hsize : maxPoolSize < 2 ^ 32) (hs : createMempool averaging maxPoolSize iMemPool = some s)
    (hcalls : Always averaging Suits s calls) :
    Always averaging (Keeps averaging ⟨iMemPool, oscl_mem_aligned_size maxPoolSize⟩) s calls := by
  have hkept := (createMempool_good hsize hs).always calls hcalls
  unfold createMempool at hs
  split at hs
  · cases hs
  · cases hs
    exact hkept

/-- The average in whole numbers. -/
def wholeAveraging : Averaging Nat where
  zero := 0
  next aver num size := (aver * num + size) / (num + 1)
  toUint32 := id

theorem pool_kept_calls : ∃ s, createMempool wholeAveraging 64 4096 = some s ∧
    Always wholeAveraging (Keeps wholeAveraging ⟨4096, oscl_mem_aligned_size 64⟩) s
      [.allocate 20, .allocate 8, .reclaimUnusedPortion 4128 0, .deallocate 4096,
        .deallocate 4120] :=
  ⟨_, rfl, pool_kept wholeAveraging _ (by decide) rfl (by decide)⟩

/-- The tail of a block is given back, and is in the block and in the free list then. -/
theorem tail_twice : ¬ ∀ (maxPoolSize iMemPool : Nat)
    (s : OsclMemPoolVariableChunkAllocator Nat) (calls : List Call), maxPoolSize < 2 ^ 32 →
    createMempool wholeAveraging maxPoolSize iMemPool = some s →
    Always wholeAveraging CanCall s calls →
    Always wholeAveraging (Keeps wholeAveraging ⟨iMemPool, oscl_mem_aligned_size maxPoolSize⟩) s
      calls := by
  intro h
  have hkept := h 16 4096 _ [.allocate 16, .reclaimUnusedPortion 4104 8] (by decide) rfl
    (by decide)
  exact absurd hkept.2.1.tiles.apart (by decide)

end OsclMemPoolVariableChunkAllocator

end OpenCore.HttpParcom
