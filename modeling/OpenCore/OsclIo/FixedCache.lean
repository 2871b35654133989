/-
  File:      OpenCore/OsclIo/FixedCache.lean
  Subject:   EVERY FILE BYTE HAS AT MOST ONE CACHE, over every run of calls that add fixed caches.

  The layout of a file cache (`Layout`) is what its buffers cover: the window of the movable cache,
  the fixed caches, and the fixed caches requested. `Layout.Separate` says that no two of them
  overlap, and that carrying out the requests keeps it so. Moving the window clips it; adding a
  fixed cache over it puts it back to the start of the file at full size, which is the one step
  that does not look at the other fixed caches.
-/
import OpenCore.Lib.Windows
import OpenCore.OsclIo.FileCache

namespace OpenCore.OsclIo

open FileCacheBuffer FileCache List Option

/-! ## 1. Layouts -/

open Window (Apart Sorted clip insertSorted_perm)

/-- What the buffers cover, and the fixed caches requested, each with the answer of its memory
    allocation. -/
structure Layout where
  capacity : Nat
  window : Window
  fixed : List Window
  waiting : List (Window × Bool)

variable {pos : Nat}

namespace Layout

/-- The movable cache at the start of the file, unclipped. -/
def zone (l : Layout) : Window := ⟨0, l.capacity⟩

/-- The requested caches leave the movable window alone, or the window they send it to is free. -/
def Clear (l : Layout) : Prop :=
  (∀ q ∈ l.waiting, ¬ l.window.Meets q.1) ∨
  (∀ w ∈ l.fixed, l.zone.Apart w) ∧ ∀ q ∈ l.waiting, q.2 = true → l.zone.Apart q.1

instance (l : Layout) : Decidable l.Clear := inferInstanceAs (Decidable (_ ∨ _ ∧ _))

/-- The requested caches are apart from each other and from those there are. -/
def Distinct (l : Layout) : Prop :=
  (l.waiting.Pairwise fun p q => p.1.Apart q.1) ∧ ∀ q ∈ l.waiting, ∀ w ∈ l.fixed, q.1.Apart w

/-- What the fixed caches cover, those there are and those requested. -/
def regions (l : Layout) : List Window := l.fixed ++ l.waiting.map Prod.fst

/-- **No two caches overlap**, and the requests keep it so. -/
structure Separate (l : Layout) : Prop where
  movable : ∀ w ∈ l.fixed, l.window.Apart w
  fixed : l.fixed.Pairwise Apart
  sorted : Sorted l.fixed
  distinct : l.Distinct
  clear : l.Clear

/-- One requested cache added. -/
def add (l : Layout) (w : Window) (mallocOk : Bool) : Layout :=
  { l with
    window := if l.window.Meets w then l.zone else l.window
    fixed := if mallocOk then w.insertSorted l.fixed else l.fixed }

variable {l : Layout}

theorem Separate.of_perm {ws : List (Window × Bool)} (h : l.Separate) (hp : ws.Perm l.waiting) :
    { l with waiting := ws }.Separate where
  movable := h.movable
  fixed := h.fixed
  sorted := h.sorted
  distinct := by
    obtain ⟨h1, h2⟩ := h.distinct
    have hsymm : ∀ {p q : Window × Bool}, p.1.Apart q.1 → q.1.Apart p.1 := fun h => h.symm
    exact ⟨(hp.pairwise_iff hsymm).mpr h1, fun q hq => h2 q (hp.mem_iff.mp hq)⟩
  clear := by
    rcases h.clear with h1 | ⟨h1, h2⟩
    · exact Or.inl fun q hq => h1 q (hp.mem_iff.mp hq)
    · exact Or.inr ⟨h1, fun q hq => h2 q (hp.mem_iff.mp hq)⟩

/-- **Carrying out a request.** -/
theorem Separate.add {w : Window} {mallocOk : Bool} {rest : List (Window × Bool)}
    (h : { l with waiting := (w, mallocOk) :: rest }.Separate) :
    { l.add w mallocOk with waiting := rest }.Separate := by
  obtain ⟨hdist, hcross⟩ := h.distinct
  obtain ⟨hw, hrest⟩ := pairwise_cons.mp hdist
  have hnew : ∀ v ∈ l.fixed, w.Apart v := hcross _ mem_cons_self
  have hmem : ∀ v ∈ (l.add w mallocOk).fixed, v = w ∧ mallocOk = true ∨ v ∈ l.fixed := by
    intro v hv
    unfold Layout.add at hv
    dsimp only at hv
    split at hv
    · rename_i hok
      rcases mem_cons.mp ((insertSorted_perm w l.fixed).mem_iff.mp hv) with rfl | hv
      · exact Or.inl ⟨rfl, hok⟩
      · exact Or.inr hv
    · exact Or.inr hv
  have hdistinct : { l.add w mallocOk with waiting := rest }.Distinct := by
    refine ⟨hrest, fun q hq v hv => ?_⟩
    rcases hmem v hv with ⟨rfl, -⟩ | hv
    · exact (hw q hq).symm
    · exact hcross q (mem_cons_of_mem _ hq) v hv
  have hfixed : (l.add w mallocOk).fixed.Pairwise Apart := by
    unfold Layout.add
    dsimp only
    split
    · refine ((insertSorted_perm w l.fixed).pairwise_iff fun h => h.symm).mpr ?_
      exact pairwise_cons.mpr ⟨hnew, h.fixed⟩
    · exact h.fixed
  have hsorted : Sorted (l.add w mallocOk).fixed := by
    unfold Layout.add
    dsimp only
    split
    · exact Sorted.insertSorted h.sorted w
    · exact h.sorted
  -- the zone is free of all fixed caches wherever `Clear` holds by its second part
  have hzone : (∀ v ∈ l.fixed, l.zone.Apart v) ∧
      (∀ q ∈ (w, mallocOk) :: rest, q.2 = true → l.zone.Apart q.1) →
      (∀ v ∈ (l.add w mallocOk).fixed, l.zone.Apart v) ∧
      ∀ q ∈ rest, q.2 = true → l.zone.Apart q.1 := by
    rintro ⟨h1, h2⟩
    refine ⟨fun v hv => ?_, fun q hq => h2 q (mem_cons_of_mem _ hq)⟩
    rcases hmem v hv with ⟨rfl, hok⟩ | hv
    · exact h2 _ mem_cons_self hok
    · exact h1 v hv
  by_cases hmeets : l.window.Meets w
  · have hclear : (∀ v ∈ l.fixed, l.zone.Apart v) ∧
        ∀ q ∈ (w, mallocOk) :: rest, q.2 = true → l.zone.Apart q.1 :=
      h.clear.resolve_left fun h1 => h1 _ mem_cons_self hmeets
    have hwindow : (l.add w mallocOk).window = l.zone := if_pos hmeets
    exact
      { movable := fun v hv => by
          dsimp only
          rw [hwindow]
          exact (hzone hclear).1 v hv
        fixed := hfixed
        sorted := hsorted
        distinct := hdistinct
        clear := Or.inr (hzone hclear) }
  · have hwindow : (l.add w mallocOk).window = l.window := if_neg hmeets
    exact
      { movable := fun v hv => by
          dsimp only
          rw [hwindow]
          rcases hmem v hv with ⟨rfl, -⟩ | hv
          · exact Window.apart_of_not_meets hmeets
          · exact h.movable v hv
        fixed := hfixed
        sorted := hsorted
        distinct := hdistinct
        clear := by
          rcases h.clear with h1 | h1
          · refine Or.inl fun q hq => ?_
            dsimp only
            rw [hwindow]
            exact h1 q (mem_cons_of_mem _ hq)
          · exact Or.inr (hzone h1) }

theorem regions_add (w : Window) (mallocOk : Bool) (rest : List (Window × Bool)) :
    { l.add w mallocOk with waiting := rest }.regions.Subperm
      { l with waiting := (w, mallocOk) :: rest }.regions := by
  unfold regions add
  dsimp only
  split
  · refine Perm.subperm ?_
    rw [map_cons]
    exact ((insertSorted_perm w l.fixed).append_right _).trans
      perm_middle.symm
  · exact ((Sublist.refl _).append (sublist_cons_self w _)).subperm

/-- Regions apart from each other make requests apart. -/
theorem distinct_of_regions (h : l.regions.Pairwise Apart) : l.Distinct := by
  obtain ⟨-, h2, h3⟩ := pairwise_append.mp h
  exact ⟨pairwise_map.mp h2,
    fun q hq w hw => (h3 w hw q.1 (mem_map_of_mem hq)).symm⟩

theorem Separate.tail {q : Window × Bool} {rest : List (Window × Bool)}
    (h : { l with waiting := q :: rest }.Separate) : { l with waiting := rest }.Separate where
  movable := h.movable
  fixed := h.fixed
  sorted := h.sorted
  distinct := ⟨(pairwise_cons.mp h.distinct.1).2,
    fun p hp => h.distinct.2 p (mem_cons_of_mem q hp)⟩
  clear := h.clear.imp (fun h1 p hp => h1 p (mem_cons_of_mem q hp))
    fun h1 => ⟨h1.1, fun p hp => h1.2 p (mem_cons_of_mem q hp)⟩

/-- **Removing** fixed caches. -/
theorem Separate.remove {fixed : List Window} (h : l.Separate) (hs : fixed.Sublist l.fixed) :
    { l with fixed := fixed }.Separate where
  movable := fun w hw => h.movable w (hs.subset hw)
  fixed := h.fixed.sublist hs
  sorted := Pairwise.sublist hs h.sorted
  distinct := ⟨h.distinct.1, fun q hq w hw => h.distinct.2 q hq w (hs.subset hw)⟩
  clear := h.clear.imp id fun h1 => ⟨fun w hw => h1.1 w (hs.subset hw), h1.2⟩

/-- **Moving the window** to a position no fixed cache has, with no requests waiting. -/
theorem Separate.move (h : l.Separate) (hempty : l.waiting = [])
    (hfree : ∀ w ∈ l.fixed, pos ∉ w.range) :
    { l with window := ⟨pos, clip pos l.capacity l.fixed⟩ }.Separate where
  movable := Window.clip_apart h.sorted hfree
  fixed := h.fixed
  sorted := h.sorted
  distinct := h.distinct
  clear := Or.inl fun q hq => by
    rw [show _ = l.waiting from rfl, hempty] at hq
    cases hq

end Layout

/-! ## 2. The layout of a file cache -/

def FileCacheBuffer.window (b : FileCacheBuffer) : Window := ⟨b.filePosition, b.usableSize⟩

def FixedCacheParam.window (p : FixedCacheParam) : Window := ⟨p.iFilePosition, p.iSize⟩

/-- A request: what it is to cover, and the answer of its memory allocation. -/
def requestOf (q : FixedCacheParam × Bool) : Window × Bool := (q.1.window, q.2)

def FileCache.layout (fc : FileCache) (waiting : List (FixedCacheParam × Bool)) : Layout where
  capacity := fc.movableCache.capacity
  window := fc.movableCache.window
  fixed := fc.fixedCaches.elems.map FileCacheBuffer.window
  waiting := waiting.map requestOf

/-- Each file byte is in at most one cache. -/
def OneOwner (fc : FileCache) : Prop :=
  (∀ f ∈ fc.fixedCaches.elems, fc.movableCache.window.Apart f.window) ∧
    fc.fixedCaches.elems.Pairwise fun f g => f.window.Apart g.window

/-- What of a buffer the layout depends on. -/
def FileCacheBuffer.frame (b : FileCacheBuffer) : Bool × Nat × Window :=
  (b.isFixed, b.capacity, b.window)

def FileCache.frame (fc : FileCache) :
    (Bool × Nat × Window) × List (Bool × Nat × Window) × List (FixedCacheParam × Bool) :=
  (fc.movableCache.frame, fc.fixedCaches.elems.map FileCacheBuffer.frame, fc.iAddFixedCache)

/-- The invariant: the layout is separate, for given requests still to be carried out, its regions
    are among those asked for so far, and the buffers know which of them are fixed. -/
structure Owned (asked : List Window) (fc : FileCache) (waiting : List (FixedCacheParam × Bool)) :
    Prop where
  movable : fc.movableCache.isFixed = false
  fixed : ∀ f ∈ fc.fixedCaches.elems, f.isFixed = true
  separate : (fc.layout waiting).Separate
  among : (fc.layout waiting).regions.Subperm asked

variable {asked : List Window} {fc fc' : FileCache} {waiting : List (FixedCacheParam × Bool)}

theorem Owned.oneOwner (h : Owned asked fc waiting) : OneOwner fc :=
  ⟨fun _ hf => h.separate.movable _ (mem_map_of_mem hf), pairwise_map.mp h.separate.fixed⟩

theorem Owned.perm {waiting' : List (FixedCacheParam × Bool)} (h : Owned asked fc waiting)
    (hp : waiting'.Perm waiting) : Owned asked fc waiting' :=
  ⟨h.movable, h.fixed, Layout.Separate.of_perm (l := fc.layout waiting) h.separate (hp.map _),
    (((Perm.refl _).append ((hp.map _).map _)).subperm).trans h.among⟩

/-- Calls that leave the frame alone keep the invariant. -/
theorem Owned.congr (h : Owned asked fc waiting) (hf : fc'.frame = fc.frame) : Owned asked fc' waiting := by
  obtain ⟨h1, h2, -⟩ : fc'.movableCache.frame = fc.movableCache.frame ∧
      fc'.fixedCaches.elems.map FileCacheBuffer.frame =
        fc.fixedCaches.elems.map FileCacheBuffer.frame ∧
      fc'.iAddFixedCache = fc.iAddFixedCache := by
    simpa only [FileCache.frame, Prod.mk.injEq] using hf
  have hwindows : fc'.fixedCaches.elems.map window =
      fc.fixedCaches.elems.map window := by
    have h3 := congrArg (map fun w => w.2.2) h2
    rw [List.map_map, List.map_map] at h3
    exact h3
  have hlayout : fc'.layout waiting = fc.layout waiting := by
    have hcap : fc'.movableCache.capacity = fc.movableCache.capacity :=
      congrArg (fun w => w.2.1) h1
    have hwin : fc'.movableCache.window = fc.movableCache.window := congrArg (fun w => w.2.2) h1
    unfold layout
    rw [hcap, hwin, hwindows]
  refine ⟨(congrArg Prod.fst h1).trans h.movable, fun f hf => ?_, ?_, ?_⟩
  · have hmem := h2 ▸ mem_map_of_mem (f := FileCacheBuffer.frame) hf
    obtain ⟨g, hg, hfg⟩ := mem_map.mp hmem
    exact (congrArg Prod.fst hfg).symm.trans (h.fixed g hg)
  · rw [hlayout]
    exact h.separate
  · rw [hlayout]
    exact h.among

/-! ## 3. Calls that keep the windows -/

open FileCache (cur findFixedCache layout openCache readLoop removeFixedCache writeLoop)

theorem frame_writeUpdatesToFile (c : Container) (b : FileCacheBuffer) :
    (writeUpdatesToFile c b).2.1.frame = b.frame := by
  by_cases hup : b.isUpdated = true
  · unfold writeUpdatesToFile
    rw [if_pos hup]
    dsimp only
    generalize (if c.nativePosition ≠ ((b.filePosition : Int) + b.updateStart) then
      if c.isAppend = true then
        ({ c with nativePosition := (b.filePosition : Int) + b.updateStart }, (0 : Int))
      else c.seekTo (b.filePosition + b.updateStart) else (c, 0)) = s
    split <;> rfl
  · unfold writeUpdatesToFile
    rw [if_neg hup]

theorem frame_fillFromFile (c : Container) (b : FileCacheBuffer) (aStart aEnd : Nat) :
    (fillFromFile c b aStart aEnd).2.1.frame = b.frame := by
  unfold fillFromFile
  dsimp only
  have hs : (if b.isUpdated = true ∧ b.updateStart ≤ aStart ∧ aStart < b.updateEnd then
      writeUpdatesToFile c b else (c, b, 0)).2.1.frame = b.frame := by
    split
    · exact frame_writeUpdatesToFile c b
    · rfl
  generalize (if b.isUpdated = true ∧ b.updateStart ≤ aStart ∧ aStart < b.updateEnd then
      writeUpdatesToFile c b else (c, b, 0)) = s at hs ⊢
  split
  · exact hs
  · generalize (if s.1.nativePosition ≠ (s.2.1.filePosition : Int) + aStart then
      s.1.seekTo (s.2.1.filePosition + aStart) else (s.1, 0)) = t
    split
    · exact hs
    · split <;> split <;> exact hs

theorem frame_prepRead (c : Container) (b : FileCacheBuffer) :
    (FileCacheBuffer.prepRead c b).2.1.frame = b.frame := by
  unfold prepRead
  split
  · exact frame_fillFromFile c b _ _
  · rfl

theorem frame_prepWrite (c : Container) (b : FileCacheBuffer) :
    (FileCacheBuffer.prepWrite c b).2.1.frame = b.frame := by
  unfold prepWrite
  split
  · exact frame_fillFromFile c b _ _
  · rfl

variable {b : FileCacheBuffer}

theorem cur_mem_fixed {block i : Nat} (h : fc.cur = some b)
    (hcur : fc.curCache = .fixed block i) : b ∈ fc.fixedCaches.elems := by
  unfold cur at h
  rw [hcur] at h
  dsimp only at h
  split at h
  · exact mem_of_getElem? h
  · cases h

/-- The current cache rewritten, with its window as it was. -/
theorem frame_setCur {b' : FileCacheBuffer} (h : fc.cur = some b) (hf : b'.frame = b.frame) :
    (fc.setCur b').frame = fc.frame := by
  unfold cur at h
  unfold setCur
  split at h
  · cases h
  · cases h
    rename_i heq
    rw [heq]
    simp only [FileCache.frame, hf]
  · rename_i block i heq
    rw [heq]
    split at h
    · obtain ⟨hi, rfl⟩ := List.getElem?_eq_some_iff.mp h
      have hset : (fc.fixedCaches.elems.set i b').map FileCacheBuffer.frame =
          fc.fixedCaches.elems.map FileCacheBuffer.frame := by
        have hi' : i < (fc.fixedCaches.elems.map FileCacheBuffer.frame).length := by
          rwa [length_map]
        have hb : b'.frame = (fc.fixedCaches.elems.map FileCacheBuffer.frame)[i] := by
          rw [getElem_map, hf]
        rw [map_set, hb, set_getElem_self hi']
      simp only [FileCache.frame, hset]
    · cases h

variable {r : FileCache × Int}

theorem frame_onCur {f : Container → FileCacheBuffer → Container × FileCacheBuffer × Int}
    (hf : ∀ c b, (f c b).2.1.frame = b.frame) (h : fc.onCur f = some r) :
    r.1.frame = fc.frame := by
  unfold onCur at h
  obtain ⟨b, hb, rfl⟩ := map_eq_some_iff.mp h
  have hb' : cur { fc with container := (f fc.container b).1 } = some b := hb
  exact frame_setCur hb' (hf _ b)

theorem frame_extendFileSize (fc : FileCache) (b : FileCacheBuffer) :
    (fc.extendFileSize b).frame = fc.frame := by
  unfold extendFileSize
  split <;> rfl

theorem frame_flushFixedCaches (c : Container) (fs : List FileCacheBuffer) :
    (flushFixedCaches c fs).2.1.map FileCacheBuffer.frame = fs.map FileCacheBuffer.frame := by
  induction fs generalizing c with
  | nil => rfl
  | cons f fs ih =>
    unfold flushFixedCaches
    split
    · dsimp only
      split
      · simp only [map_cons, frame_writeUpdatesToFile]
      · simp only [map_cons, frame_writeUpdatesToFile, ih]
    · simp only [map_cons, ih]

theorem frame_flush (fc : FileCache) : fc.flush.1.frame = fc.frame := by
  have hw : (if fc.movableCache.isUpdated = true then
      writeUpdatesToFile fc.container fc.movableCache
      else (fc.container, fc.movableCache, 0)).2.1.frame = fc.movableCache.frame := by
    split
    · exact frame_writeUpdatesToFile _ _
    · rfl
  unfold flush
  dsimp only
  generalize (if fc.movableCache.isUpdated = true then
      writeUpdatesToFile fc.container fc.movableCache
      else (fc.container, fc.movableCache, 0)) = w at hw ⊢
  split
  · simp only [FileCache.frame, hw]
  · split
    · simp only [FileCache.frame, hw, frame_flushFixedCaches]
    · split <;> simp only [FileCache.frame, hw, frame_flushFixedCaches]

/-! ## 4. Moving the window -/

theorem clipUsableSize_eq (b : FileCacheBuffer) (fs : List FileCacheBuffer) :
    clipUsableSize b fs =
      clip b.filePosition b.usableSize (fs.map FileCacheBuffer.window) := by
  induction fs with
  | nil => rfl
  | cons f fs ih =>
    rw [clipUsableSize, map_cons, clip, ih]
    have hstart : f.window.start = f.filePosition := rfl
    rw [hstart]
    by_cases h1 : b.filePosition + b.usableSize ≤ f.filePosition
    · have hp : b.preceeds f.filePosition = true := decide_eq_true h1
      rw [if_pos hp, if_pos h1]
    · have hp : ¬ b.preceeds f.filePosition = true := by
        simpa only [preceeds, decide_eq_true_eq] using h1
      rw [if_neg hp, if_neg h1]
      have hc : b.contains f.filePosition = true ↔ b.filePosition ≤ f.filePosition := by
        unfold FileCacheBuffer.contains
        rw [Bool.and_eq_true, decide_eq_true_eq, decide_eq_true_eq]
        omega
      simp only [hc]

/-- **`SetPosition`** keeps the window, or moves the one that is not fixed and clips it. -/
theorem frame_setPosition (fs : List FileCacheBuffer) (aNewPos : Nat) (c : Container)
    (b : FileCacheBuffer) :
    (FileCacheBuffer.setPosition fs aNewPos c b).2.1.frame = b.frame ∨
      b.isFixed = false ∧ (FileCacheBuffer.setPosition fs aNewPos c b).2.1.frame =
        (false, b.capacity,
          ⟨aNewPos, clip aNewPos b.capacity (fs.map FileCacheBuffer.window)⟩) := by
  unfold setPosition
  split
  · exact Or.inl rfl
  · split
    · exact Or.inl rfl
    · rename_i hfixed
      have hs : (if b.isUpdated = true then writeUpdatesToFile c b else (c, b, 0)).2.1.frame =
          b.frame := by
        split
        · exact frame_writeUpdatesToFile c b
        · rfl
      generalize (if b.isUpdated = true then writeUpdatesToFile c b else (c, b, 0)) = s at hs
      dsimp only
      split
      · exact Or.inl hs
      · have hfix : s.2.1.isFixed = b.isFixed := congrArg Prod.fst hs
        have hcap : s.2.1.capacity = b.capacity := congrArg (fun w => w.2.1) hs
        refine Or.inr ⟨Bool.eq_false_iff.mpr hfixed, ?_⟩
        rw [clipUsableSize_eq]
        unfold FileCacheBuffer.frame FileCacheBuffer.window
        dsimp only
        rw [hcap, hfix, Bool.eq_false_iff.mpr hfixed]

theorem contains_iff :
    b.contains pos = true ↔ pos ∈ b.window.range := by
  unfold FileCacheBuffer.contains
  rw [Bool.and_eq_true, decide_eq_true_eq, decide_eq_true_eq, Window.mem_range]
  rfl

/-- Where the search finds nothing, no fixed cache has the position. -/
theorem findFixedCache_none {fs : List FileCacheBuffer}
    (hs : Sorted (fs.map FileCacheBuffer.window))
    (h : findFixedCache pos fs = none) :
    ∀ w ∈ fs.map FileCacheBuffer.window, pos ∉ w.range := by
  induction fs with
  | nil => nofun
  | cons f fs ih =>
    obtain ⟨hf, hs⟩ := pairwise_cons.mp (show (f.window :: _).Pairwise _ from hs)
    unfold findFixedCache at h
    rw [map_cons]
    intro w hw
    split at h
    · rename_i hlt
      have hle : f.window.start ≤ w.start := by
        rcases mem_cons.mp hw with rfl | hw
        · exact le_refl _
        · exact hf w hw
      have hstart : f.window.start = f.filePosition := rfl
      rw [Window.mem_range]
      omega
    · split at h
      · cases h
      · rename_i hnot
        rcases mem_cons.mp hw with rfl | hw
        · rwa [contains_iff] at hnot
        · exact ih hs (map_eq_none_iff.mp h) w hw

theorem Owned.move (h : Owned asked fc []) (c : Container)
    (hnone : findFixedCache pos fc.fixedCaches.elems = none) :
    Owned asked { fc with
      container := c
      curCache := .movable
      movableCache :=
        (setPosition fc.fixedCaches.elems pos fc.container fc.movableCache).2.1 }
      [] := by
  rcases frame_setPosition fc.fixedCaches.elems pos fc.container fc.movableCache with hf | ⟨-, hf⟩
  · exact h.congr (by simp only [FileCache.frame, hf])
  · have hsep := h.separate.move rfl (findFixedCache_none h.separate.sorted hnone)
    refine ⟨congrArg Prod.fst hf, h.fixed, ?_, h.among⟩
    have hcap := congrArg (fun w => w.2.1) hf
    have hwin := congrArg (fun w => w.2.2) hf
    dsimp only [FileCacheBuffer.frame] at hcap hwin
    unfold layout at hsep ⊢
    dsimp only at hsep ⊢
    rw [hcap, hwin]
    exact hsep

/-! ## 5. Adding and removing fixed caches -/

/-- A new fixed cache is inserted in the order of the starts. -/
theorem map_window_insert (fs : List FileCacheBuffer) (b : FileCacheBuffer) :
    (fs.take (fs.findIdx fun f => decide (b.filePosition ≤ f.filePosition)) ++
      b :: fs.drop (fs.findIdx fun f => decide (b.filePosition ≤ f.filePosition))).map
        FileCacheBuffer.window = b.window.insertSorted (fs.map FileCacheBuffer.window) := by
  rw [← Window.take_cons_drop_findIdx, map_append, map_cons, map_take,
    map_drop, findIdx_map]
  rfl

/-- The caches behind one request: the window and the fixed caches are those of `Layout.add`. -/
theorem Owned.of_added {q : FixedCacheParam × Bool} {rest : List (FixedCacheParam × Bool)}
    (h : Owned asked fc (q :: rest)) (hfix : fc'.movableCache.isFixed = false)
    (hfixed : ∀ f ∈ fc'.fixedCaches.elems, f.isFixed = true)
    (hlayout : fc'.layout rest =
      { (fc.layout (q :: rest)).add q.1.window q.2 with waiting := rest.map requestOf }) :
    Owned asked fc' rest := by
  refine ⟨hfix, hfixed, ?_, ?_⟩
  · rw [hlayout]
    exact Layout.Separate.add (l := fc.layout (q :: rest)) h.separate
  · rw [hlayout]
    exact (Layout.regions_add (l := fc.layout (q :: rest)) q.1.window q.2 _).trans h.among

/-- The movable cache behind the first part of `AddFixedCache`: written out and put back to the
    start of the file where it meets the new cache, or the error of the write. -/
theorem frame_resetMovable {b' : FileCacheBuffer} {c c' : Container} {err : Int}
    {meets : Prop} [Decidable meets] (hb : b.isFixed = false)
    (h : (c', b', err) =
      if meets then
        let w := if b.isUpdated then writeUpdatesToFile c b else (c, b, 0)
        if w.2.2 ≠ 0 then w
        else
          (w.1, { w.2.1 with
            endPos := 0
            currentPos := 0
            filePosition := 0
            usableSize := w.2.1.capacity }, 0)
      else (c, b, 0)) :
    err ≠ 0 ∧ b'.frame = b.frame ∨
      err = 0 ∧ b'.frame = (false, b.capacity, if meets then ⟨0, b.capacity⟩ else b.window) := by
  have hw : (if b.isUpdated = true then writeUpdatesToFile c b else (c, b, 0)).2.1.frame =
      b.frame := by
    split
    · exact frame_writeUpdatesToFile c b
    · rfl
  generalize (if b.isUpdated = true then writeUpdatesToFile c b else (c, b, 0)) = w at h hw
  have hcap : w.2.1.capacity = b.capacity := congrArg (fun w => w.2.1) hw
  have hfix : w.2.1.isFixed = false := (congrArg Prod.fst hw).trans hb
  split at h
  · rename_i hm
    dsimp only at h
    split at h
    · rename_i herr
      subst h
      exact Or.inl ⟨herr, hw⟩
    · cases h
      refine Or.inr ⟨rfl, ?_⟩
      rw [if_pos hm]
      simp only [FileCacheBuffer.frame, FileCacheBuffer.window, hcap, hfix]
  · rename_i hm
    cases h
    exact Or.inr ⟨rfl, by rw [if_neg hm, FileCacheBuffer.frame, hb]⟩

/-- **`AddFixedCache`** carries out a request. -/
theorem Owned.addFixedCache {p : FixedCacheParam} {ok : Bool}
    {rest : List (FixedCacheParam × Bool)} (h : Owned asked fc ((p, ok) :: rest)) :
    Owned asked (fc.addFixedCache p ok).1 rest := by
  unfold FileCache.addFixedCache
  have hmeets : (fc.movableCache.contains p.iFilePosition = true ∨
      p.contains fc.movableCache.filePosition = true) ↔ fc.movableCache.window.Meets p.window := by
    have hp : p.contains fc.movableCache.filePosition = true ↔
        fc.movableCache.window.start ∈ p.window.range := by
      unfold FixedCacheParam.contains
      rw [Bool.and_eq_true, decide_eq_true_eq, decide_eq_true_eq, Window.mem_range]
      rfl
    rw [contains_iff, hp]
    rfl
  simp only [hmeets]
  generalize hs : (if fc.movableCache.window.Meets p.window then _ else _ :
    Container × FileCacheBuffer × Int) = s
  obtain ⟨c, b, err⟩ := s
  rcases frame_resetMovable h.movable hs.symm with ⟨herr, hb⟩ | ⟨herr, hb⟩
  · rw [if_pos (Or.inl herr)]
    have hdrop : Owned asked fc rest :=
      ⟨h.movable, h.fixed, Layout.Separate.tail (l := fc.layout rest) h.separate,
        ((Sublist.refl _).append (sublist_cons_self p.window _)).subperm.trans h.among⟩
    exact hdrop.congr (by simp only [FileCache.frame, hb])
  · have hcap : b.capacity = fc.movableCache.capacity := congrArg (fun w => w.2.1) hb
    have hwin := congrArg (fun w => w.2.2) hb
    dsimp only [FileCacheBuffer.frame] at hwin
    cases ok with
    | false =>
      rw [if_pos (Or.inr rfl)]
      refine h.of_added (congrArg Prod.fst hb) h.fixed ?_
      simp only [layout, Layout.add, Layout.zone, hcap, hwin]
      rfl
    | true =>
      rw [if_neg (by simp [herr])]
      refine h.of_added (congrArg Prod.fst hb) (fun f hf => ?_) ?_
      · rcases mem_append.mp hf with hf | hf
        · exact h.fixed f (mem_of_mem_take hf)
        · rcases mem_cons.mp hf with rfl | hf
          · rfl
          · exact h.fixed f (mem_of_mem_drop hf)
      · have hinsert := map_window_insert fc.fixedCaches.elems
          { isFixed := true
            pBuffer := replicate p.iSize 0
            capacity := p.iSize
            usableSize := p.iSize
            filePosition := p.iFilePosition }
        simp only [layout, Layout.add, Layout.zone, hcap, hwin, CacheVector.insert,
          if_true]
        exact congrArg (fun ws => Layout.mk _ _ ws _) hinsert

theorem addFixedCache_requests (fc : FileCache) (p : FixedCacheParam) (ok : Bool) :
    (fc.addFixedCache p ok).1.iAddFixedCache = fc.iAddFixedCache := by
  unfold addFixedCache
  dsimp only
  generalize (if fc.movableCache.contains p.iFilePosition = true ∨
      p.contains fc.movableCache.filePosition = true then _ else _ :
    Container × FileCacheBuffer × Int) = s
  split <;> rfl

/-- The removal leaves some of the fixed caches. -/
theorem removeFixedCache_sublist (c : Container) (pos : Nat) (fs : List FileCacheBuffer) :
    (removeFixedCache c pos fs).2.1.Sublist fs := by
  induction fs with
  | nil => exact Sublist.refl _
  | cons f fs ih =>
    unfold removeFixedCache
    split
    · exact Sublist.refl _
    · split
      · exact sublist_cons_self f fs
      · exact ih.cons_cons f

theorem Owned.remove {v : CacheVector} (h : Owned asked fc waiting) (c : Container)
    (hs : v.elems.Sublist fc.fixedCaches.elems) :
    Owned asked { fc with container := c, fixedCaches := v } waiting :=
  ⟨h.movable, fun f hf => h.fixed f (hs.subset hf), h.separate.remove (hs.map _),
    ((hs.map _).append (Sublist.refl _)).subperm.trans h.among⟩

/-- **`UpdateFixedCaches`** carries out all requests. -/
theorem Owned.updateFixedCaches (h : Owned asked fc fc.iAddFixedCache) :
    Owned asked fc.updateFixedCaches.1 [] ∧ fc.updateFixedCaches.1.iAddFixedCache = [] := by
  have hremove : ∀ (poss : List Nat) (s : FileCache × Int),
      Owned asked s.1 fc.iAddFixedCache → Owned asked (poss.foldl
        (fun (s : FileCache × Int) pos =>
          let r := removeFixedCache s.1.container pos s.1.fixedCaches.elems
          ({ s.1 with
            container := r.1
            fixedCaches := { s.1.fixedCaches with elems := r.2.1 } },
            if r.2.2 ≠ 0 then r.2.2 else s.2)) s).1 fc.iAddFixedCache := by
    intro poss
    induction poss with
    | nil => exact fun _ hs => hs
    | cons pos poss ih =>
      exact fun s hs => ih _ (hs.remove _ (removeFixedCache_sublist _ pos _))
  have hadd : ∀ (qs : List (FixedCacheParam × Bool)) (s : FileCache × Int),
      Owned asked s.1 qs → Owned asked (qs.foldl
        (fun (s : FileCache × Int) p =>
          let r := s.1.addFixedCache p.1 p.2
          (r.1, if r.2 then s.2 else -1)) s).1 [] := by
    intro qs
    induction qs with
    | nil => exact fun _ hs => hs
    | cons q qs ih => exact fun s hs => ih _ hs.addFixedCache
  have := hadd fc.iAddFixedCache _ (hremove fc.iRemoveFixedCache (fc, 0) h)
  exact ⟨⟨this.movable, this.fixed, this.separate, this.among⟩, rfl⟩

/-! ## 6. The calls -/

/-- The requests still waiting are carried out in an order that keeps the layout separate. -/
abbrev FileCache.Kept (asked : List Window) (fc : FileCache) : Prop :=
  Owned asked fc fc.iAddFixedCache

section

variable (h : fc.Kept asked)
include h

theorem FileCache.Kept.of_frame (hf : fc'.frame = fc.frame) : fc'.Kept asked := by
  have hwait : fc'.iAddFixedCache = fc.iAddFixedCache := congrArg (fun w => w.2.2) hf
  rw [Kept, hwait]
  exact Owned.congr h hf

theorem FileCache.Kept.setCachePosition
    (hr : fc.setCachePosition pos = some r) : r.1.Kept asked := by
  unfold FileCache.setCachePosition at hr
  have hu : (if fc.iAddFixedCache ≠ [] ∨ fc.iRemoveFixedCache ≠ [] then fc.updateFixedCaches
      else (fc, 0)).1.Kept asked ∧ (if fc.iAddFixedCache ≠ [] ∨ fc.iRemoveFixedCache ≠ [] then
        fc.updateFixedCaches else (fc, 0)).1.iAddFixedCache = [] := by
    split
    · obtain ⟨h1, h2⟩ := Owned.updateFixedCaches h
      exact ⟨by rwa [Kept, h2], h2⟩
    · rename_i hno
      exact ⟨h, not_not.mp (not_or.mp hno).1⟩
  generalize (if fc.iAddFixedCache ≠ [] ∨ fc.iRemoveFixedCache ≠ [] then fc.updateFixedCaches
      else (fc, 0)) = u at hu hr
  obtain ⟨hkept, hempty⟩ := hu
  dsimp only at hr
  split at hr
  · cases hr
    exact hkept
  · split at hr
    · -- the current cache is a fixed one, which does not move
      rename_i i hi
      obtain ⟨b, hb, rfl⟩ := map_eq_some_iff.mp hr
      have hkept' : Kept asked { u.1 with curCache := .fixed u.1.fixedCaches.block i } :=
        hkept.of_frame rfl
      refine hkept'.of_frame (frame_setCur hb ?_)
      have hmem := cur_mem_fixed hb rfl
      have hfix : b.isFixed = true := hkept.fixed b hmem
      exact (frame_setPosition _ _ _ b).resolve_right fun hm =>
        Bool.false_ne_true (hm.1.symm.trans hfix)
    · rename_i hnone
      obtain ⟨b, hb, rfl⟩ := map_eq_some_iff.mp hr
      cases hb
      have hkept' : Owned asked u.1 [] := by rwa [Kept, hempty] at hkept
      have hmove := hkept'.move (setPosition u.1.fixedCaches.elems pos
        u.1.container u.1.movableCache).1 hnone
      rwa [← hempty] at hmove

theorem FileCache.Kept.onCur {f : Container → FileCacheBuffer → Container × FileCacheBuffer × Int}
    (hf : ∀ c b, (f c b).2.1.frame = b.frame)
    (hr : fc.onCur f = some r) : r.1.Kept asked := h.of_frame (frame_onCur hf hr)

theorem FileCache.Kept.readLoop {fuel bytesToRead : Nat} {destBuf : List UInt8}
    {r : FileCache × Nat × List UInt8}
    (hr : readLoop fuel fc bytesToRead destBuf = some r) : r.1.Kept asked := by
  induction fuel generalizing fc bytesToRead destBuf with
  | zero => cases hr
  | succ fuel ih =>
    unfold readLoop at hr
    split at hr
    · cases hr
      exact h
    · obtain ⟨b, hb, hr⟩ := bind_eq_some_iff.mp hr
      dsimp only at hr
      split at hr
      · refine ih (h.of_frame ?_) hr
        exact frame_setCur hb rfl
      · obtain ⟨s, hs, hr⟩ := bind_eq_some_iff.mp hr
        have hks := h.setCachePosition hs
        split at hr
        · cases hr
          exact hks
        · obtain ⟨p, hp, hr⟩ := bind_eq_some_iff.mp hr
          have hkp := hks.onCur frame_prepRead hp
          split at hr
          · cases hr
            exact hkp
          · obtain ⟨b', -, hr⟩ := bind_eq_some_iff.mp hr
            split at hr
            · cases hr
              exact hkp
            · exact ih hkp hr

theorem FileCache.Kept.read {size numelements : Nat} {r : FileCache × Nat × List UInt8}
    (hr : fc.read size numelements = some r) : r.1.Kept asked := by
  unfold FileCache.read at hr
  split at hr
  · obtain ⟨pos, -, hr⟩ := bind_eq_some_iff.mp hr
    dsimp only at hr
    generalize (if toUInt32 ((fc.container.fileSize : Int) - pos) < mul32 numelements size then
      toUInt32 ((fc.container.fileSize : Int) - pos) / size else numelements) = n at hr
    obtain ⟨p, hp, hr⟩ := bind_eq_some_iff.mp hr
    have hkp : p.1.Kept asked := by
      split at hp
      · exact h.onCur frame_prepRead hp
      · cases hp
        exact h
    split at hr
    · cases hr
      exact hkp
    · obtain ⟨s, hs, rfl⟩ := map_eq_some_iff.mp hr
      have hks := hkp.readLoop hs
      exact hks
  · cases hr
    exact h

end

theorem frame_store (b : FileCacheBuffer) (data : List UInt8) : (b.store data).frame = b.frame :=
  rfl

theorem FileCache.Kept.writeLoop {fuel bytesToWrite : Nat} {srcBuf : List UInt8}
    {r : FileCache × Nat} (h : fc.Kept asked)
    (hr : writeLoop fuel fc bytesToWrite srcBuf = some r) : r.1.Kept asked := by
  induction fuel generalizing fc bytesToWrite srcBuf with
  | zero => cases hr
  | succ fuel ih =>
    unfold writeLoop at hr
    split at hr
    · cases hr
      exact h
    · obtain ⟨b, hb, hr⟩ := bind_eq_some_iff.mp hr
      dsimp only at hr
      split at hr
      · refine ih (h.of_frame ?_) hr
        rw [frame_extendFileSize]
        exact frame_setCur hb (frame_store b _)
      · obtain ⟨s, hs, hr⟩ := bind_eq_some_iff.mp hr
        have hks := h.setCachePosition hs
        split at hr
        · cases hr
          exact hks
        · obtain ⟨p, hp, hr⟩ := bind_eq_some_iff.mp hr
          have hkp := hks.onCur frame_prepWrite hp
          split at hr
          · cases hr
            exact hkp
          · exact ih hkp hr

theorem FileCache.Kept.write {inputBuffer : List UInt8} {size numelements : Nat}
    {r : FileCache × Nat} (h : fc.Kept asked) (hr : fc.write inputBuffer size numelements = some r) :
    r.1.Kept asked := by
  unfold FileCache.write at hr
  split at hr
  · obtain ⟨s, hs, hr⟩ := bind_eq_some_iff.mp hr
    have hks : s.1.Kept asked := by
      split at hs
      · obtain ⟨pos, -, hs⟩ := bind_eq_some_iff.mp hs
        split at hs
        · exact h.setCachePosition hs
        · cases hs
          exact h
      · cases hs
        exact h
    split at hr
    · cases hr
      exact hks
    · obtain ⟨p, hp, hr⟩ := bind_eq_some_iff.mp hr
      have hkp := hks.onCur frame_prepWrite hp
      split at hr
      · cases hr
        exact hkp
      · obtain ⟨w, hw, rfl⟩ := map_eq_some_iff.mp hr
        have hkw := hkp.writeLoop hw
        exact hkw
  · cases hr
    exact h

theorem FileCache.Kept.seek {offset : Int} {origin : FileCache.SeekType}
    (h : fc.Kept asked) (hr : fc.seek offset origin = some r) : r.1.Kept asked := by
  unfold FileCache.seek at hr
  obtain ⟨pos, -, hr⟩ := bind_eq_some_iff.mp hr
  split at hr
  · cases hr
    exact h
  · obtain ⟨b, hb, hr⟩ := bind_eq_some_iff.mp hr
    split at hr
    · cases hr
      exact h.of_frame (frame_setCur hb rfl)
    · exact h.setCachePosition hr

/-! ## 7. Runs -/

/-- The region a call asks a fixed cache for. -/
def FileRequest.region : FileRequest → List Window
  | .addFixedCache p _ => [p.window]
  | .addFixedCacheNow p _ => [p.window]
  | _ => []

def regionsOf (calls : List (FileRequest × FileAnswer)) : List Window :=
  calls.flatMap fun l => l.1.region

/-- A request for a fixed cache finds the movable window, or the start of the file the window goes
    to, clear of all that is asked for. -/
def AddsClear (fc : FileCache) : FileRequest → Prop
  | .addFixedCache p ok => (fc.layout (fc.iAddFixedCache ++ [(p, ok)])).Clear
  | .addFixedCacheNow p ok => (fc.layout (fc.iAddFixedCache ++ [(p, ok)])).Clear
  | _ => True

instance (fc : FileCache) (q : FileRequest) : Decidable (AddsClear fc q) := by
  unfold AddsClear
  split <;> infer_instance

/-- One more request, clear and apart from the others. -/
theorem FileCache.Kept.request {p : FixedCacheParam} {ok : Bool} (h : fc.Kept asked)
    (happart : (asked ++ [p.window]).Pairwise Apart)
    (hclear : (fc.layout (fc.iAddFixedCache ++ [(p, ok)])).Clear) :
    Owned (asked ++ [p.window]) fc (fc.iAddFixedCache ++ [(p, ok)]) := by
  have hregions : (fc.layout (fc.iAddFixedCache ++ [(p, ok)])).regions =
      (fc.layout fc.iAddFixedCache).regions ++ [p.window] := by
    simp only [layout, Layout.regions, map_append, append_assoc]
    rfl
  have hamong : (fc.layout (fc.iAddFixedCache ++ [(p, ok)])).regions.Subperm
      (asked ++ [p.window]) := by
    rw [hregions]
    exact (subperm_append_right _).mpr h.among
  obtain ⟨ws, hperm, hsub⟩ := hamong
  have hsymm : ∀ {v w : Window}, v.Apart w → w.Apart v := fun h => h.symm
  have hdistinct := Layout.distinct_of_regions
    ((hperm.pairwise_iff hsymm).mp (happart.sublist hsub))
  exact
    { movable := h.movable
      fixed := h.fixed
      separate :=
        { movable := h.separate.movable
          fixed := h.separate.fixed
          sorted := h.separate.sorted
          distinct := hdistinct
          clear := hclear }
      among := ⟨ws, hperm, hsub⟩ }

/-- **One call.** -/
theorem FileCache.Kept.call {q : FileRequest} {a : FileAnswer} (h : fc.Kept asked)
    (happart : (asked ++ q.region).Pairwise Apart) (hclear : AddsClear fc q)
    (hs : fc.call q = some (fc', a)) : fc'.Kept (asked ++ q.region) := by
  have hmap : ∀ {X : Type} {x : Option X} {f : X → FileCache × FileAnswer},
      x.map f = some (fc', a) → ∃ r, x = some r ∧ (f r).1 = fc' := by
    intro X x f hx
    obtain ⟨r, hr, heq⟩ := map_eq_some_iff.mp hx
    exact ⟨r, hr, congrArg Prod.fst heq⟩
  have hnone : ∀ fc' : FileCache, fc'.Kept asked → fc'.Kept (asked ++ []) := fun fc' h' => by
    rwa [append_nil]
  cases q with
  | read size numelements =>
    obtain ⟨r, hr, rfl⟩ := hmap hs
    exact hnone _ (h.read hr)
  | write inputBuffer size numelements =>
    rw [FileCache.call] at hs
    split at hs
    · obtain ⟨r, hr, rfl⟩ := hmap hs
      exact hnone _ (h.write hr)
    · cases hs
  | seek offset origin =>
    obtain ⟨r, hr, rfl⟩ := hmap hs
    exact hnone _ (h.seek hr)
  | tell =>
    obtain ⟨r, -, rfl⟩ := hmap hs
    exact hnone _ h
  | flush =>
    cases hs
    exact hnone _ (h.of_frame (frame_flush fc))
  | addFixedCache p ok =>
    cases hs
    have hr := h.request happart hclear
    exact ⟨hr.movable, hr.fixed, hr.separate, hr.among⟩
  | addFixedCacheNow p ok =>
    have hr := h.request happart hclear
    have hperm : ((p, ok) :: fc.iAddFixedCache).Perm (fc.iAddFixedCache ++ [(p, ok)]) :=
      @perm_append_comm _ [(p, ok)] _
    have hadded := (hr.perm hperm).addFixedCache
    rw [FileCache.call] at hs
    cases hs
    rw [Kept, addFixedCache_requests]
    exact hadded
  | removeFixedCache pos =>
    cases hs
    exact hnone _ ⟨h.movable, h.fixed, h.separate, h.among⟩

theorem kept_openCache {mode size : Nat} {native : NativeFile}
    {adds : List (FixedCacheParam × Bool)}
    (happart : (adds.map fun q => q.1.window).Pairwise Apart)
    (hclear : ∀ q ∈ adds, ¬ (Window.mk 0 size).Meets q.1.window) {fc₀ : FileCache}
    (h₀ : openCache mode size native adds = some fc₀) :
    fc₀.Kept (adds.map fun q => q.1.window) := by
  unfold openCache at h₀
  obtain ⟨r, hr, rfl⟩ := map_eq_some_iff.mp h₀
  have hwindows : (adds.map requestOf).map Prod.fst = adds.map fun q => q.1.window :=
    map_map
  have hkept : r.1.Kept (adds.map fun q => q.1.window) := by
    refine Kept.setCachePosition ?_ hr
    exact
      { movable := rfl
        fixed := nofun
        separate :=
          { movable := nofun
            fixed := Pairwise.nil
            sorted := Pairwise.nil
            distinct := Layout.distinct_of_regions (by
              show ((adds.map requestOf).map Prod.fst).Pairwise _
              rwa [hwindows])
            clear := Or.inl fun q hq => by
              obtain ⟨p, hp, rfl⟩ := mem_map.mp hq
              exact hclear p hp }
        among := by
          show ((adds.map requestOf).map Prod.fst).Subperm _
          rw [hwindows] }
  exact ⟨hkept.movable, hkept.fixed, hkept.separate, hkept.among⟩

/-- **Each file byte has at most one cache**, over every run of calls that ask for fixed caches in
    regions apart from each other, each clear of the movable window. -/
theorem oneOwner_of_clear_run {mode size : Nat} {native : NativeFile}
    {adds : List (FixedCacheParam × Bool)} {calls : List (FileRequest × FileAnswer)}
    (happart : (adds.map (fun q => q.1.window) ++ regionsOf calls).Pairwise Apart)
    (hclear : ∀ q ∈ adds, ¬ (Window.mk 0 size).Meets q.1.window) {fc₀ fc : FileCache}
    (h₀ : openCache mode size native adds = some fc₀)
    (hr : Run (onlyWhen (fun s l => AddsClear s l.1) cacheStep) fc₀ calls fc) : OneOwner fc := by
  have hkept : fc.Kept (adds.map (fun q => q.1.window) ++ regionsOf calls) := by
    induction hr with
    | start =>
      rw [regionsOf, flatMap_nil, append_nil] at happart ⊢
      exact kept_openCache happart hclear h₀
    | step hr hs ih =>
      rename_i calls s s' l
      obtain ⟨q, a⟩ := l
      obtain ⟨hc, hs⟩ := hs
      rw [regionsOf, flatMap_append, flatMap_singleton, ← append_assoc]
        at happart ⊢
      have hpre := happart.sublist (sublist_append_left _ _)
      exact (ih hpre).call happart hc (answering_eq_some.mp hs)
  exact hkept.oneOwner

instance (fc : FileCache) : Decidable (OneOwner fc) := inferInstanceAs (Decidable (_ ∧ _))

/-- A fixed cache behind the movable window, which is then moved in front of it and cut off
    there. -/
theorem oneOwner_of_clear_run_six :
    ∃ fc₀ fc, openCache MODE_READWRITE 4 ⟨[1, 2, 3, 4, 5, 6], 0⟩ [] = some fc₀ ∧
      Run cacheStep fc₀ [(.seek 5 .SEEKSET, .code 0), (.addFixedCache ⟨2, 1⟩ true, .done),
        (.seek 0 .SEEKSET, .code 0), (.read 1 3, .read 3 [1, 2, 3])] fc ∧
      OneOwner fc := by
  have hsome : ((openCache MODE_READWRITE 4 ⟨[1, 2, 3, 4, 5, 6], 0⟩ []).bind fun fc₀ =>
      execAll (guarded (fun s l => AddsClear s l.1) (answering FileCache.call)) fc₀
        [(.seek 5 .SEEKSET, .code 0), (.addFixedCache ⟨2, 1⟩ true, .done),
        (.seek 0 .SEEKSET, .code 0), (.read 1 3, .read 3 [1, 2, 3])]).isSome := by decide +kernel
  obtain ⟨fc, hfc⟩ := isSome_iff_exists.mp hsome
  obtain ⟨fc₀, h₀, hexec⟩ := bind_eq_some_iff.mp hfc
  have hr := Run.of_guarded hexec
  exact ⟨fc₀, fc, h₀, hr.of_onlyWhen, oneOwner_of_clear_run (by decide)
    (fun _ hq => absurd hq not_mem_nil) h₀ hr⟩

/-- A fixed cache over the window [5, 9): the window goes back to [0, 4) and meets the cache at
    [3, 6). -/
theorem reset_window_overlaps :
    ¬ ∀ fc₀ calls fc, openCache MODE_READWRITE 4 ⟨[1, 2, 3, 4, 5, 6], 0⟩ [] = some fc₀ →
      (regionsOf calls).Pairwise Apart → Run cacheStep fc₀ calls fc → OneOwner fc := by
  intro h
  have hsome : ((openCache MODE_READWRITE 4 ⟨[1, 2, 3, 4, 5, 6], 0⟩ []).bind fun fc₀ =>
      (execAll (answering FileCache.call) fc₀
        [(.seek 5 .SEEKSET, .code 0), (.addFixedCache ⟨3, 3⟩ true, .done),
        (.seek 0 .SEEKSET, .code 0)]).map fun fc => decide (OneOwner fc)) = some false := by
    decide +kernel
  obtain ⟨fc₀, h₀, hmap⟩ := bind_eq_some_iff.mp hsome
  obtain ⟨fc, hexec, hnot⟩ := map_eq_some_iff.mp hmap
  exact of_decide_eq_false hnot (h fc₀ _ fc h₀ (by decide) (Run.of_execAll hexec))

end OpenCore.OsclIo
