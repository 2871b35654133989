/-
  File:      OpenCore/OsclIo/FixedCacheUpdate.lean
  Subject:   `OsclFileCache::UpdateFixedCaches` (oscl_file_cache.cpp): which fixed caches are there
             behind it.

  The search for a cache to remove ends at the first cache in front of the position, so it never
  gets past the first cache of the sorted list.

  * `removals_spec` -- a list of requests removes the longest front of the list that it asks for in
    list order;
  * **`updateFixedCaches_right_iff`** -- the caches that stay are the right ones exactly where the
    removed ones are the first of the list and are asked for in list order.
-/
import OpenCore.OsclIo.FileCacheData
import OpenCore.OsclIo.FixedCache

namespace OpenCore.OsclIo

open FileCacheBuffer FileCache List

/-! ## 1. What is expected -/

open FileCacheBuffer (filePosition window)

/-- In the order of their file positions. -/
def SortedByPosition (fs : List FileCacheBuffer) : Prop :=
  fs.Pairwise fun a b => a.filePosition ≤ b.filePosition

/-- In order, no two at one position. -/
def SortedApart (fs : List FileCacheBuffer) : Prop :=
  fs.Pairwise fun a b => a.filePosition < b.filePosition

/-- The fixed cache made for a descriptor. -/
def newFixedCache (p : FixedCacheParam) : FileCacheBuffer where
  isFixed := true
  pBuffer := List.replicate p.iSize 0
  capacity := p.iSize
  usableSize := p.iSize
  filePosition := p.iFilePosition

/-- The caches whose removal is not asked for. -/
def keptCaches (fs : List FileCacheBuffer) (removes : List Nat) : List FileCacheBuffer :=
  fs.filter fun f => decide (f.filePosition ∉ removes)

/-- Behind `UpdateFixedCaches` there are the old caches without the removed ones and the added ones,
    in order. -/
def UpdateRight (fc : FileCache) : Prop :=
  fc.updateFixedCaches.1.fixedCaches.elems.Perm
      (keptCaches fc.fixedCaches.elems fc.iRemoveFixedCache ++
        fc.iAddFixedCache.map fun q => newFixedCache q.1) ∧
    SortedByPosition fc.updateFixedCaches.1.fixedCaches.elems

/-- The caches to be removed stand in front, and the requests ask for them in list order. -/
def RemovesFront (fs : List FileCacheBuffer) (removes : List Nat) : Prop :=
  ∃ front back, fs = front ++ back ∧
    (front.map filePosition).Sublist removes ∧
    ∀ f ∈ back, f.filePosition ∉ removes

/-- The pending data of the movable cache lie in its buffer. -/
def UpdatesInBuffer (b : FileCacheBuffer) : Prop :=
  b.isUpdated = true → b.updateEnd ≤ b.pBuffer.length ∧ b.pBuffer.length < 4294967296

/-! ## 2. Removals -/

variable {fs : List FileCacheBuffer}

/-- No cache is found behind one at a larger position. -/
theorem removeFixedCache_none (c : Container) {pos : Nat}
    (h : ∀ f ∈ fs, pos < f.filePosition) : (removeFixedCache c pos fs).2.1 = fs := by
  induction fs with
  | nil => rfl
  | cons f fs ih =>
    have hf := h f mem_cons_self
    unfold removeFixedCache
    rw [if_neg (by omega), if_neg (by omega)]
    dsimp only
    rw [ih fun g hg => h g (mem_cons_of_mem f hg)]

/-- **One request** removes the first cache, or none. -/
theorem removeFixedCache_head (c : Container) (pos : Nat) {f : FileCacheBuffer}
    (h : SortedApart (f :: fs)) :
    (removeFixedCache c pos (f :: fs)).2.1 = if f.filePosition = pos then fs else f :: fs := by
  unfold removeFixedCache
  by_cases hlt : f.filePosition < pos
  · rw [if_pos hlt, if_neg (by omega)]
  · rw [if_neg hlt]
    by_cases heq : f.filePosition = pos
    · rw [if_pos heq, if_pos heq]
    · rw [if_neg heq, if_neg heq]
      dsimp only
      rw [removeFixedCache_none c fun g hg => ?_]
      have hfg := (pairwise_cons.mp h).1 g hg
      omega

/-- The loop over the removals, as `updateFixedCaches` folds it. -/
def removals (s : FileCache × Int) (poss : List Nat) : FileCache × Int :=
  poss.foldl
    (fun (s : FileCache × Int) pos =>
      let r := removeFixedCache s.1.container pos s.1.fixedCaches.elems
      ({ s.1 with
        container := r.1
        fixedCaches := { s.1.fixedCaches with elems := r.2.1 } },
        if r.2.2 ≠ 0 then r.2.2 else s.2)) s

/-- The removals leave the movable cache alone. -/
theorem removals_movableCache (s : FileCache × Int) (poss : List Nat) :
    (removals s poss).1.movableCache = s.1.movableCache := by
  induction poss generalizing s with
  | nil => rfl
  | cons pos poss ih => exact ih _

/-- **All requests**: they remove the front of the list that they ask for in list order, and they
    do not ask for one cache more. -/
theorem removals_spec (s : FileCache × Int) (poss : List Nat)
    (h : SortedApart s.1.fixedCaches.elems) :
    ∃ front back, s.1.fixedCaches.elems = front ++ back ∧
      (removals s poss).1.fixedCaches.elems = back ∧
      (front.map filePosition).Sublist poss ∧
      ∀ f rest, back = f :: rest →
        ¬ ((front ++ [f]).map filePosition).Sublist poss := by
  induction poss generalizing s with
  | nil =>
    refine ⟨[], s.1.fixedCaches.elems, rfl, rfl, Sublist.refl _, fun f rest _ hsub => ?_⟩
    cases hsub
  | cons pos poss ih =>
    cases hfs : s.1.fixedCaches.elems with
    | nil =>
      have hstep : SortedApart (removals s [pos]).1.fixedCaches.elems := by
        show SortedApart (removeFixedCache s.1.container pos s.1.fixedCaches.elems).2.1
        rw [hfs]
        exact Pairwise.nil
      obtain ⟨front, back, hsplit, hback, -, -⟩ := ih (removals s [pos]) hstep
      have hempty : (removals s [pos]).1.fixedCaches.elems = [] := by
        show (removeFixedCache s.1.container pos s.1.fixedCaches.elems).2.1 = []
        rw [hfs]
        rfl
      rw [hempty] at hsplit
      obtain ⟨rfl, rfl⟩ := append_eq_nil_iff.mp hsplit.symm
      exact ⟨[], [], rfl, hback, nil_sublist _, fun f rest hcons => by cases hcons⟩
    | cons f fs =>
      rw [hfs] at h
      have hhead : (removals s [pos]).1.fixedCaches.elems =
          if f.filePosition = pos then fs else f :: fs := by
        show (removeFixedCache s.1.container pos s.1.fixedCaches.elems).2.1 = _
        rw [hfs]
        exact removeFixedCache_head _ pos h
      have hstep : SortedApart (removals s [pos]).1.fixedCaches.elems := by
        rw [hhead]
        split
        · exact (pairwise_cons.mp h).2
        · exact h
      obtain ⟨front, back, hsplit, hback, hsub, hmax⟩ := ih (removals s [pos]) hstep
      rw [hhead] at hsplit
      by_cases heq : f.filePosition = pos
      · -- the first cache goes
        rw [if_pos heq] at hsplit
        refine ⟨f :: front, back, by rw [hsplit]; rfl, hback, ?_, fun g rest hg hsub' => ?_⟩
        · rw [map_cons, heq]
          exact hsub.cons_cons pos
        · rw [cons_append, map_cons, heq] at hsub'
          exact hmax g rest hg (cons_sublist_cons.mp hsub')
      · rw [if_neg heq] at hsplit
        refine ⟨front, back, hsplit, hback, hsub.cons pos, fun g rest hg hsub' => ?_⟩
        have hfirst : ∃ more, (front ++ [g]).map filePosition =
            f.filePosition :: more := by
          cases front with
          | nil =>
            rw [hg] at hsplit
            cases hsplit
            exact ⟨[], rfl⟩
          | cons f' front =>
            cases hsplit
            exact ⟨_, rfl⟩
        obtain ⟨more, hmore⟩ := hfirst
        rw [hmore] at hsub'
        refine hmax g rest hg ?_
        rw [hmore]
        cases hsub' with
        | cons _ hsub' => exact hsub'
        | cons_cons _ _ => exact absurd rfl heq

/-! ## 3. Additions -/

/-- Pending data that lie in the buffer can be written. -/
theorem writeUpdatesToFile_ok (c : Container) {b : FileCacheBuffer} (h : UpdatesInBuffer b) :
    (writeUpdatesToFile c b).2.2 = 0 ∧ (writeUpdatesToFile c b).2.1.isUpdated = false := by
  unfold writeUpdatesToFile
  by_cases hu : b.isUpdated = true
  · obtain ⟨hend, hlen⟩ := h hu
    have hlt : b.updateStart < b.updateEnd := by
      unfold isUpdated at hu
      exact of_decide_eq_true hu
    have hseek : (c.seekTo ((b.filePosition : Int) + b.updateStart)).2 = 0 := by
      have hcast : ((b.filePosition : Int) + b.updateStart) =
          ((b.filePosition + b.updateStart : Nat) : Int) := by omega
      rw [hcast, Container.seekTo_nat]
    have hs : (if c.nativePosition ≠ (b.filePosition : Int) + b.updateStart then
        if c.isAppend then ({ c with nativePosition := (b.filePosition : Int) + b.updateStart }, 0)
        else c.seekTo ((b.filePosition : Int) + b.updateStart) else (c, 0)).2 = 0 := by
      split
      · split
        · rfl
        · exact hseek
      · rfl
    have hdata : (slice b.pBuffer b.updateStart (b.updateEnd - b.updateStart)).length =
        b.updateEnd - b.updateStart := length_slice_of_le (by omega)
    rw [if_pos hu]
    dsimp only
    rw [if_neg (not_not.mpr hs)]
    dsimp only
    rw [hdata, toUInt32_toInt32, Nat.mod_eq_of_lt (by omega), if_pos rfl]
    exact ⟨rfl, decide_eq_false (Nat.lt_irrefl 0)⟩
  · rw [if_neg hu]
    exact ⟨rfl, Bool.eq_false_iff.mpr hu⟩

/-- **A fixed cache whose memory is there** is inserted in front of the first one that does not
    start before it. -/
theorem addFixedCache_ok {fc : FileCache} (p : FixedCacheParam)
    (h : UpdatesInBuffer fc.movableCache) :
    UpdatesInBuffer (fc.addFixedCache p true).1.movableCache ∧
      (fc.addFixedCache p true).1.fixedCaches.elems =
        fc.fixedCaches.elems.take (fc.fixedCaches.elems.findIdx fun f =>
          decide (p.iFilePosition ≤ f.filePosition)) ++
        newFixedCache p :: fc.fixedCaches.elems.drop (fc.fixedCaches.elems.findIdx fun f =>
          decide (p.iFilePosition ≤ f.filePosition)) := by
  obtain ⟨hok, hdone⟩ := writeUpdatesToFile_ok fc.container h
  unfold addFixedCache
  rw [writeUpdatesToFile_guard]
  by_cases hmeets : fc.movableCache.contains p.iFilePosition = true ∨
      p.contains fc.movableCache.filePosition = true
  · rw [if_pos hmeets]
    dsimp only
    rw [if_neg (not_not.mpr hok)]
    dsimp only
    rw [if_neg (by simp)]
    exact ⟨fun hu => absurd hu (by rw [← Bool.not_eq_true] at hdone; exact hdone), rfl⟩
  · rw [if_neg hmeets]
    dsimp only
    rw [if_neg (by simp)]
    exact ⟨h, rfl⟩

/-- The loop over the additions, as `updateFixedCaches` folds it. -/
def additions (s : FileCache × Int) (qs : List (FixedCacheParam × Bool)) : FileCache × Int :=
  qs.foldl
    (fun (s : FileCache × Int) p =>
      let r := s.1.addFixedCache p.1 p.2
      (r.1, if r.2 then s.2 else -1)) s

theorem sortedByPosition_insert (h : SortedByPosition fs)
    (b : FileCacheBuffer) :
    SortedByPosition (fs.take (fs.findIdx fun f => decide (b.filePosition ≤ f.filePosition)) ++
      b :: fs.drop (fs.findIdx fun f => decide (b.filePosition ≤ f.filePosition))) := by
  have hstarts : ∀ gs : List FileCacheBuffer,
      SortedByPosition gs ↔ Window.Sorted (gs.map window) :=
    fun gs => (pairwise_map (f := window)
      (R := fun v w => v.start ≤ w.start)).symm
  rw [hstarts, map_window_insert]
  exact Window.Sorted.insertSorted ((hstarts fs).mp h) b.window

/-- **The additions** add all caches, and keep the order. -/
theorem additions_spec (s : FileCache × Int) {qs : List (FixedCacheParam × Bool)}
    (hmalloc : ∀ q ∈ qs, q.2 = true) (hupdates : UpdatesInBuffer s.1.movableCache)
    (hsorted : SortedByPosition s.1.fixedCaches.elems) :
    (additions s qs).1.fixedCaches.elems.Perm
        (s.1.fixedCaches.elems ++ qs.map fun q => newFixedCache q.1) ∧
      SortedByPosition (additions s qs).1.fixedCaches.elems := by
  induction qs generalizing s with
  | nil =>
    refine ⟨?_, hsorted⟩
    rw [map_nil, append_nil]
    exact Perm.refl _
  | cons q qs ih =>
    obtain ⟨p, ok⟩ := q
    obtain rfl : ok = true := hmalloc _ mem_cons_self
    obtain ⟨hupdates', helems⟩ := addFixedCache_ok p hupdates
    have hstep : (additions s [(p, true)]).1 = (s.1.addFixedCache p true).1 := rfl
    have hsorted' : SortedByPosition (additions s [(p, true)]).1.fixedCaches.elems := by
      rw [hstep, helems]
      exact sortedByPosition_insert hsorted (newFixedCache p)
    obtain ⟨hperm, hdone⟩ := ih (additions s [(p, true)])
      (fun q hq => hmalloc q (mem_cons_of_mem _ hq)) hupdates' hsorted'
    refine ⟨hperm.trans ?_, hdone⟩
    have hmiddle := @perm_middle _ (newFixedCache p)
      (s.1.fixedCaches.elems.take (s.1.fixedCaches.elems.findIdx fun f =>
        decide (p.iFilePosition ≤ f.filePosition)))
      (s.1.fixedCaches.elems.drop (s.1.fixedCaches.elems.findIdx fun f =>
        decide (p.iFilePosition ≤ f.filePosition)))
    rw [take_append_drop] at hmiddle
    rw [hstep, helems, map_cons]
    exact (hmiddle.append_right _).trans perm_middle.symm

/-! ## 4. Both loops -/

theorem updateFixedCaches_elems (fc : FileCache) :
    fc.updateFixedCaches.1.fixedCaches.elems =
      (additions (removals (fc, 0) fc.iRemoveFixedCache)
        fc.iAddFixedCache).1.fixedCaches.elems := rfl

/-- **`UpdateFixedCaches`** leaves the right caches exactly where the ones to be removed are the
    first of the list and are asked for in list order. -/
theorem updateFixedCaches_right_iff {fc : FileCache} (hsorted : SortedApart fc.fixedCaches.elems)
    (hupdates : UpdatesInBuffer fc.movableCache)
    (hmalloc : ∀ q ∈ fc.iAddFixedCache, q.2 = true) :
    UpdateRight fc ↔ RemovesFront fc.fixedCaches.elems fc.iRemoveFixedCache := by
  obtain ⟨front, back, hsplit, hback, hsub, hmax⟩ :=
    removals_spec (fc, 0) fc.iRemoveFixedCache hsorted
  have hsplit' : fc.fixedCaches.elems = front ++ back := hsplit
  have hrest : SortedByPosition back := by
    rw [hsplit'] at hsorted
    exact (pairwise_append.mp hsorted).2.1.imp fun hlt => Nat.le_of_lt hlt
  obtain ⟨hperm, hdone⟩ := additions_spec (removals (fc, 0) fc.iRemoveFixedCache) hmalloc
    (by rw [removals_movableCache]; exact hupdates) (by rw [hback]; exact hrest)
  rw [hback] at hperm
  have hright : UpdateRight fc ↔
      back.Perm (keptCaches fc.fixedCaches.elems fc.iRemoveFixedCache) := by
    unfold UpdateRight
    rw [updateFixedCaches_elems]
    constructor
    · rintro ⟨hall, -⟩
      exact (perm_append_right_iff _).mp (hperm.symm.trans hall)
    · intro hkept
      exact ⟨hperm.trans (hkept.append_right _), hdone⟩
  rw [hright]
  constructor
  · intro hkept
    refine ⟨front, back, hsplit', hsub, fun f hf => ?_⟩
    exact of_decide_eq_true (mem_filter.mp (hkept.mem_iff.mp hf)).2
  · rintro ⟨front', back', hsplit'', hsub', hnot⟩
    have hsame : back = back' := by
      rw [hsplit'] at hsplit''
      obtain ⟨more, hmore, hback'⟩ | ⟨more, hmore, hback'⟩ :=
        append_eq_append_iff.mp hsplit''
      · -- the requests would have asked for one cache more
        cases more with
        | nil => exact hback'
        | cons f rest =>
          refine absurd ?_ (hmax f (rest ++ back') hback')
          refine List.Sublist.trans ?_ hsub'
          rw [hmore, map_append, map_append]
          refine (List.Sublist.refl _).append ?_
          rw [map_cons, map_cons]
          exact (nil_sublist _).cons_cons _
      · -- a cache that is not asked for would have been removed
        cases more with
        | nil => exact hback'.symm
        | cons f rest =>
          have hin : f.filePosition ∈ fc.iRemoveFixedCache := by
            refine hsub.subset ?_
            rw [hmore, map_append]
            exact mem_append_right _ mem_cons_self
          refine absurd hin (hnot f ?_)
          rw [hback']
          exact mem_cons_self
    have hkept : keptCaches fc.fixedCaches.elems fc.iRemoveFixedCache = back' := by
      unfold keptCaches
      rw [hsplit'', filter_append, List.filter_eq_nil_iff.mpr, nil_append,
        filter_eq_self.mpr]
      · intro f hf
        exact decide_eq_true (hnot f hf)
      · intro f hf hkeep
        refine of_decide_eq_true hkeep (hsub'.subset ?_)
        exact List.mem_map_of_mem hf
    rw [hkept, hsame]

/-- A cache over a native file of 64 zeros, with fixed caches of 8 bytes at these positions and
    these requests. -/
def cacheWithRequests (positions removes : List Nat) (adds : List (FixedCacheParam × Bool)) :
    FileCache where
  container :=
    { mode := MODE_READWRITE
      fileSize := 64
      nativePosition := 0
      native := { content := List.replicate 64 0, position := 0 } }
  movableCache := { capacity := 4, usableSize := 4, pBuffer := [0, 0, 0, 0] }
  fixedCaches :=
    { elems := positions.map fun pos => newFixedCache ⟨pos, 8⟩
      bufsize := positions.length }
  curCache := .movable
  iAddFixedCache := adds
  iRemoveFixedCache := removes

/-- The first two of three caches are removed, in their order, and one is added between. -/
theorem updateFixedCaches_right_front :
    UpdateRight (cacheWithRequests [8, 24, 40] [8, 16, 24] [(⟨30, 4⟩, true)]) := by
  refine (updateFixedCaches_right_iff ?_ ?_ ?_).mpr ?_
  · unfold SortedApart
    decide
  · intro hu
    exact absurd hu (by decide)
  · decide
  · exact ⟨[newFixedCache ⟨8, 8⟩, newFixedCache ⟨24, 8⟩], [newFixedCache ⟨40, 8⟩], rfl, by decide,
      by decide⟩

/-- The second of two caches stays when it is to be removed. -/
theorem second_cache_stays : ¬ UpdateRight (cacheWithRequests [8, 24] [24] []) := by
  rintro ⟨hperm, -⟩
  have hlength := hperm.length_eq
  revert hlength
  decide

end OpenCore.OsclIo
