/-
  File:      OpenCore/OsclIo/FileCacheData.lean
  Subject:   What the methods of the movable cache do to the data.

  `Holds c b F`: the buffer and the native file together hold the contents `F` of the virtual file.
  Up to `endPos` the buffer has the bytes of `F`; outside the updated range the native file has
  them. Every method keeps it: writing the updates back empties the range, filling reads behind it,
  moving the window writes back first, and storing extends the range over cached bytes only.
-/
import OpenCore.OsclIo.FileCache

namespace OpenCore.OsclIo

open FileCacheBuffer

/-! ## 1. Native calls -/

theorem NativeFile.seek_nat (f : NativeFile) (pos : Nat) :
    f.seek pos = ({ f with position := pos }, 0) := by
  rw [NativeFile.seek, if_neg (by omega), Int.toNat_natCast]

/-- A seek of the native file to a position, and the position kept. -/
theorem Container.seekTo_nat (c : Container) (pos : Nat) :
    c.seekTo pos = ({ c with
      native := { c.native with position := pos }
      nativePosition := pos }, 0) := by
  rw [Container.seekTo, NativeFile.seek_nat]
  rfl

theorem NativeFile.write_of_le {f : NativeFile} {append : Bool} {data : List UInt8} {start : Nat}
    (hs : start = if append then f.content.length else f.position)
    (h : start ≤ f.content.length) :
    f.write append data =
      { content := splice f.content start data, position := start + data.length } := by
  rw [NativeFile.write, ← hs, Nat.sub_eq_zero_of_le h, List.replicate_zero, List.append_nil]

/-! ## 2. Buffer and native file hold one file -/

structure Holds (c : Container) (b : FileCacheBuffer) (F : List UInt8) : Prop where
  movable : b.isFixed = false
  capacity_pos : 0 < b.capacity
  capacity_lt : b.capacity < 4294967296
  usable : b.usableSize = b.capacity
  length : b.pBuffer.length = b.capacity
  endPos_le : b.endPos ≤ b.capacity
  inFile : b.filePosition + b.endPos ≤ F.length
  cached : ∀ i < b.endPos, b.pBuffer[i]? = F[b.filePosition + i]?
  update_le : b.updateStart ≤ b.updateEnd
  updateEnd_le : b.updateStart < b.updateEnd → b.updateEnd ≤ b.endPos
  native : ∀ j, j < b.filePosition + b.updateStart ∨ b.filePosition + b.updateEnd ≤ j →
    c.native.content[j]? = F[j]?
  start_le : b.updateStart < b.updateEnd →
    b.filePosition + b.updateStart ≤ c.native.content.length
  append : c.isAppend = true → b.updateStart < b.updateEnd →
    c.native.content.length = b.filePosition + b.updateStart
  nativePosition : c.nativePosition = c.native.position
  fileSize : c.fileSize = F.length
  narrow : b.capacity < 2147483648 ∨ F.length < 2147483648

variable {c : Container} {b : FileCacheBuffer} {F : List UInt8}

/-- Without updates the native file is up to date. -/
theorem Holds.native_eq (h : Holds c b F) (hu : b.updateEnd ≤ b.updateStart) :
    c.native.content = F :=
  List.ext_getElem? fun j => h.native j (by omega)

/-- The working position plays no part in it. -/
theorem Holds.move (h : Holds c b F) (pos : Nat) : Holds c { b with currentPos := pos } F :=
  { h with }

/-! ## 3. Writing back -/

/-- The check around a call of `WriteUpdatesToFile` is its own. -/
theorem writeUpdatesToFile_guard (c : Container) (b : FileCacheBuffer) :
    (if b.isUpdated = true then writeUpdatesToFile c b else (c, b, 0)) =
      writeUpdatesToFile c b := by
  by_cases h : b.isUpdated = true
  · rw [if_pos h]
  · rw [if_neg h, writeUpdatesToFile, if_neg h]

/-- The buffer behind `WriteUpdatesToFile`. -/
def FileCacheBuffer.written (b : FileCacheBuffer) : FileCacheBuffer :=
  if b.isUpdated then { b with updateStart := 0, updateEnd := 0 } else b

section Written

variable (b : FileCacheBuffer)

@[simp] theorem written_filePosition : b.written.filePosition = b.filePosition := by
  unfold written
  split <;> rfl

@[simp] theorem written_currentPos : b.written.currentPos = b.currentPos := by
  unfold written
  split <;> rfl

@[simp] theorem written_usableSize : b.written.usableSize = b.usableSize := by
  unfold written
  split <;> rfl

@[simp] theorem written_capacity : b.written.capacity = b.capacity := by
  unfold written
  split <;> rfl

theorem written_update : b.written.updateEnd ≤ b.written.updateStart := by
  unfold written
  split
  · exact le_refl 0
  · rename_i h
    simpa [isUpdated] using h

end Written

section

variable (h : Holds c b F)
include h

theorem Holds.updateLength (hu : b.updateStart < b.updateEnd) :
    (slice b.pBuffer b.updateStart (b.updateEnd - b.updateStart)).length =
      b.updateEnd - b.updateStart := by
  have h1 := h.updateEnd_le hu
  have h2 := h.endPos_le
  have h3 := h.length
  exact length_slice_of_le (by omega)

/-- The updated range fits an `int32`. -/
theorem Holds.updateLength_lt (hu : b.updateStart < b.updateEnd) :
    b.updateEnd - b.updateStart < 2147483648 := by
  have h1 := h.updateEnd_le hu
  have h2 := h.endPos_le
  have h3 := h.inFile
  rcases h.narrow with h4 | h4 <;> omega

/-- **Writing back** brings the native file up to date and changes nothing else. -/
theorem Holds.writeBack :
    ∃ c', writeUpdatesToFile c b = (c', b.written, 0) ∧ Holds c' b.written F ∧
      c'.native.content = F ∧ c'.mode = c.mode := by
  by_cases hu : b.updateStart < b.updateEnd
  case neg =>
    have hf : ¬ b.isUpdated = true := by simpa [isUpdated] using hu
    refine ⟨c, ?_, ?_, h.native_eq (by omega), rfl⟩
    · rw [writeUpdatesToFile, if_neg hf, written, if_neg hf]
    · rw [written, if_neg hf]
      exact h
  have ht : b.isUpdated = true := by simpa [isUpdated] using hu
  have hlen := h.updateLength hu
  have hlt := h.updateLength_lt hu
  have hstart := h.start_le hu
  -- where the native write goes
  set start := b.filePosition + b.updateStart with hstartdef
  set data := slice b.pBuffer b.updateStart (b.updateEnd - b.updateStart) with hdata
  obtain ⟨s, hs, hmode, hfs, hpos, hcontent, hwhere⟩ : ∃ s : Container,
      (if c.nativePosition ≠ (start : Int) then
        if c.isAppend = true then (({ c with nativePosition := (start : Int) } : Container), (0 : Int))
        else c.seekTo start
      else (c, 0)) = (s, 0) ∧ s.mode = c.mode ∧ s.fileSize = c.fileSize ∧
      s.nativePosition = (start : Int) ∧ s.native.content = c.native.content ∧
      start = if s.isAppend = true then s.native.content.length else s.native.position := by
    by_cases hne : c.nativePosition ≠ (start : Int)
    · by_cases ha : c.isAppend = true
      · refine ⟨{ c with nativePosition := (start : Int) }, by rw [if_pos hne, if_pos ha], rfl, rfl,
          rfl, rfl, ?_⟩
        show start = if c.isAppend = true then c.native.content.length else c.native.position
        rw [if_pos ha]
        exact (h.append ha hu).symm
      · refine ⟨{ c with
          native := { c.native with position := start }
          nativePosition := start }, by rw [if_pos hne, if_neg ha, Container.seekTo_nat], rfl, rfl,
          rfl, rfl, ?_⟩
        show start = if c.isAppend = true then c.native.content.length else start
        rw [if_neg ha]
    · refine ⟨c, if_neg hne, rfl, rfl, not_not.mp hne, rfl, ?_⟩
      by_cases ha : c.isAppend = true
      · rw [if_pos ha]
        exact (h.append ha hu).symm
      · rw [if_neg ha]
        have := h.nativePosition
        rw [not_not.mp hne] at this
        exact Int.ofNat.inj this
  have hcast : ((b.filePosition : Int) + (b.updateStart : Int)) = (start : Int) := by
    rw [hstartdef, Int.natCast_add]
  have hwrite : s.native.write s.isAppend data =
      { content := splice c.native.content start data, position := start + data.length } := by
    rw [NativeFile.write_of_le hwhere (by rw [hcontent]; exact hstart), hcontent]
  have hsplice : splice c.native.content start data = F := by
    refine List.ext_getElem? fun j => ?_
    have hcache := h.updateEnd_le hu
    rcases Nat.lt_or_ge j start with hj | hj
    · rw [getElem?_splice_lt hstart hj]
      exact h.native j (Or.inl hj)
    rcases Nat.lt_or_ge j (start + data.length) with hj' | hj'
    · obtain ⟨i, rfl⟩ := Nat.exists_eq_add_of_le hj
      rw [getElem?_splice_mid hstart (by omega), hdata, getElem?_slice (by omega),
        h.cached _ (by omega), hstartdef, Nat.add_assoc]
    · rw [getElem?_splice_ge hstart hj']
      exact h.native j (Or.inr (by omega))
  refine ⟨{ s with
    native := s.native.write s.isAppend data
    nativePosition := s.nativePosition + toInt32 data.length }, ?_, ?_, ?_, hmode⟩
  · rw [writeUpdatesToFile, if_pos ht, hcast]
    simp only [hs]
    rw [if_neg (by decide), if_pos, written, if_pos ht]
    rw [toUInt32_toInt32, hlen, Nat.mod_eq_of_lt (by omega)]
  · rw [written, if_pos ht]
    exact
      { h with
        update_le := le_refl 0
        updateEnd_le := fun hlt => absurd hlt (Nat.lt_irrefl 0)
        native := fun j _ => by
          dsimp only
          rw [hwrite]
          exact congrArg (·[j]?) hsplice
        start_le := fun hlt => absurd hlt (Nat.lt_irrefl 0)
        append := fun _ hlt => absurd hlt (Nat.lt_irrefl 0)
        nativePosition := by
          dsimp only
          rw [hwrite, hpos, toInt32_eq (by omega), ← Int.natCast_add]
        fileSize := hfs.trans h.fileSize }
  · rw [hwrite]
    exact hsplice

/-! ## 4. Filling -/

/-- Moving the native file to a position, where it is not there yet. -/
theorem Holds.seekTo (pos : Nat) :
    ∃ c', (if c.nativePosition ≠ (pos : Int) then c.seekTo pos else (c, 0)) = (c', 0) ∧
      Holds c' b F ∧ c'.mode = c.mode ∧ c'.native.position = pos := by
  by_cases hne : c.nativePosition ≠ (pos : Int)
  · refine ⟨{ c with
      native := { c.native with position := pos }
      nativePosition := pos }, by rw [if_pos hne, Container.seekTo_nat],
      { h with nativePosition := rfl }, rfl, rfl⟩
  · refine ⟨c, if_neg hne, h, rfl, ?_⟩
    have := h.nativePosition
    rw [not_not.mp hne] at this
    exact (Int.ofNat.inj this).symm

/-- The bytes the native file gives from the end of the cached data on are those of the file. -/
theorem Holds.native_slice (n : Nat) :
    slice c.native.content (b.filePosition + b.endPos) n =
      slice F (b.filePosition + b.endPos) n := by
  have := h.updateEnd_le
  exact slice_congr fun j hj => h.native j (by omega)

/-- The buffer with bytes of the file behind its cached ones. -/
theorem Holds.extend {n : Nat} (hn : b.endPos + n ≤ b.capacity) :
    Holds c
      { b with
        pBuffer := splice b.pBuffer b.endPos (slice F (b.filePosition + b.endPos) n)
        endPos := b.endPos + (slice F (b.filePosition + b.endPos) n).length } F := by
  have hlen := length_slice F (b.filePosition + b.endPos) n
  have h1 := h.endPos_le
  have h2 := h.length
  have h3 := h.inFile
  have h4 := h.updateEnd_le
  have hend : b.endPos ≤ b.pBuffer.length := by omega
  exact
    { h with
      length := by
        dsimp only
        rw [length_splice hend]
        omega
      endPos_le := by
        dsimp only
        omega
      inFile := by
        dsimp only
        omega
      cached := fun i hi => by
        dsimp only at hi ⊢
        rcases Nat.lt_or_ge i b.endPos with hlt | hge
        · rw [getElem?_splice_lt hend hlt]
          exact h.cached i hlt
        · obtain ⟨k, rfl⟩ := Nat.exists_eq_add_of_le hge
          rw [getElem?_splice_mid hend (by omega), getElem?_slice (by omega), Nat.add_assoc]
      updateEnd_le := fun hu => by
        have := h4 hu
        dsimp only
        omega }

/-- **Filling** from the end of the cached data reads what the file has there. -/
theorem Holds.fill {aEnd : Nat} (h1 : b.endPos < aEnd) (h2 : aEnd ≤ b.capacity)
    (hcur : b.currentPos ≤ aEnd) (hpos : b.filePosition + b.currentPos ≤ F.length) :
    ∃ c' b', fillFromFile c b b.endPos aEnd = (c', b', 0) ∧ Holds c' b' F ∧ c'.mode = c.mode ∧
      b'.filePosition = b.filePosition ∧ b'.currentPos = b.currentPos ∧
      b'.capacity = b.capacity ∧ b'.endPos = min aEnd (F.length - b.filePosition) := by
  have hcap := h.capacity_lt
  have hin := h.inFile
  have hnot : ¬ (b.isUpdated = true ∧ b.updateStart ≤ b.endPos ∧ b.endPos < b.updateEnd) := by
    rintro ⟨hu, -, hlt⟩
    have := h.updateEnd_le (by simpa [isUpdated] using hu)
    omega
  obtain ⟨c₁, hseek, hold₁, hmode₁, hpos₁⟩ := h.seekTo (b.filePosition + b.endPos)
  have hcast : ((b.filePosition : Int) + (b.endPos : Int)) = (b.filePosition + b.endPos : Nat) :=
    (Int.natCast_add _ _).symm
  have hsize : sub32 aEnd b.endPos = aEnd - b.endPos := sub32_eq (by omega) (by omega)
  have hread : c₁.native.read (aEnd - b.endPos) =
      ({ c₁.native with
        position := b.filePosition + b.endPos +
          (slice F (b.filePosition + b.endPos) (aEnd - b.endPos)).length },
        slice F (b.filePosition + b.endPos) (aEnd - b.endPos)) := by
    rw [NativeFile.read, hpos₁, hold₁.native_slice]
  set data := slice F (b.filePosition + b.endPos) (aEnd - b.endPos) with hdata
  have hlen : data.length = min (aEnd - b.endPos) (F.length - (b.filePosition + b.endPos)) :=
    length_slice _ _ _
  have hlt : data.length < 2147483648 := by
    rcases h.narrow with h3 | h3 <;> omega
  have hend : add32 b.endPos (toUInt32 (toInt32 data.length)) = b.endPos + data.length := by
    rw [toUInt32_toInt32, Nat.mod_eq_of_lt (by omega), add32_eq (by omega)]
  have hfull : ¬ b.endPos + data.length < b.currentPos := by omega
  -- the container behind the read, before the seek that append mode adds
  obtain ⟨c₂, hc₂⟩ : ∃ c₂ : Container, c₂ = { c₁ with
    native := { c₁.native with position := b.filePosition + b.endPos + data.length }
    nativePosition := c₁.nativePosition + toInt32 data.length } := ⟨_, rfl⟩
  have hnp : c₂.nativePosition = (b.filePosition + b.endPos + data.length : Nat) := by
    rw [hc₂]
    dsimp only
    rw [hold₁.nativePosition, hpos₁, toInt32_eq hlt, Int.natCast_add (b.filePosition + b.endPos)]
  have hold₂ : Holds c₂ b F := by
    subst hc₂
    exact { hold₁ with nativePosition := hnp }
  have hmode₂ : c₂.mode = c₁.mode := by rw [hc₂]
  obtain ⟨c₃, hseek₃, hold₃, hmode₃⟩ : ∃ c₃,
      (if c₂.isAppend = true ∧ (c₂.fileSize : Int) ≤ c₂.nativePosition then
        c₂.seekTo c₂.nativePosition else (c₂, 0)) = (c₃, 0) ∧ Holds c₃ b F ∧
      c₃.mode = c₂.mode := by
    by_cases ha : c₂.isAppend = true ∧ (c₂.fileSize : Int) ≤ c₂.nativePosition
    · refine ⟨{ c₂ with
        native := { c₂.native with position := b.filePosition + b.endPos + data.length }
        nativePosition := (b.filePosition + b.endPos + data.length : Nat) }, ?_,
        { hold₂ with nativePosition := rfl }, rfl⟩
      rw [if_pos ha, hnp, Container.seekTo_nat]
    · exact ⟨c₂, if_neg ha, hold₂, rfl⟩
  refine ⟨c₃, { b with
    pBuffer := splice b.pBuffer b.endPos data
    endPos := b.endPos + data.length }, ?_, hold₃.extend (by omega),
    hmode₃.trans (hmode₂.trans hmode₁), rfl, rfl, rfl, ?_⟩
  · rw [fillFromFile, if_neg hnot]
    dsimp only
    rw [if_neg (by decide), hcast, hseek, hsize]
    dsimp only
    rw [if_neg (by decide), hread]
    subst hc₂
    dsimp only at hseek₃ ⊢
    rw [hend, hseek₃]
    dsimp only
    rw [if_neg (by decide), if_neg hfull]
  · dsimp only
    omega

/-- **`PrepRead`** leaves cached bytes at a position inside the file and the window. -/
theorem Holds.prepRead (hcur : b.currentPos ≤ b.usableSize)
    (hpos : b.filePosition + b.currentPos ≤ F.length) :
    ∃ c' b', FileCacheBuffer.prepRead c b = (c', b', 0) ∧ Holds c' b' F ∧ c'.mode = c.mode ∧
      b'.filePosition = b.filePosition ∧ b'.currentPos = b.currentPos ∧
      b'.capacity = b.capacity ∧ b'.currentPos ≤ b'.endPos ∧
      (b.currentPos < b.usableSize → b.filePosition + b.currentPos < F.length →
        b.currentPos < b'.endPos) := by
  have hus := h.usable
  unfold FileCacheBuffer.prepRead
  by_cases hfill : b.endPos ≤ b.currentPos ∧ b.endPos < b.usableSize
  · obtain ⟨c', b', heq, hold, hmode, hfp, hcp, hcap, hend⟩ :=
      h.fill hfill.2 (le_of_eq hus) hcur hpos
    exact ⟨c', b', by rw [if_pos hfill, heq], hold, hmode, hfp, hcp, hcap, by omega,
      fun _ _ => by omega⟩
  · exact ⟨c, b, if_neg hfill, h, rfl, rfl, rfl, rfl, by omega, fun _ _ => by omega⟩

/-- **`PrepWrite`** leaves no gap in front of the position. -/
theorem Holds.prepWrite (hcur : b.currentPos ≤ b.usableSize)
    (hpos : b.filePosition + b.currentPos ≤ F.length) :
    ∃ c' b', FileCacheBuffer.prepWrite c b = (c', b', 0) ∧ Holds c' b' F ∧ c'.mode = c.mode ∧
      b'.filePosition = b.filePosition ∧ b'.currentPos = b.currentPos ∧
      b'.capacity = b.capacity ∧ b'.currentPos ≤ b'.endPos := by
  have hus := h.usable
  unfold FileCacheBuffer.prepWrite
  by_cases hgap : b.endPos < b.currentPos
  · obtain ⟨c', b', heq, hold, hmode, hfp, hcp, hcap, hend⟩ :=
      h.fill hgap (by omega) (le_refl _) hpos
    exact ⟨c', b', by rw [if_pos hgap, heq], hold, hmode, hfp, hcp, hcap, by omega⟩
  · exact ⟨c, b, if_neg hgap, h, rfl, rfl, rfl, rfl, by omega⟩

/-! ## 5. Moving the window -/

/-- **`SetPosition`** without fixed caches. -/
theorem Holds.setPosition {pos : Nat} (hpos : pos ≤ F.length) :
    ∃ c' b', FileCacheBuffer.setPosition [] pos c b = (c', b', 0) ∧ Holds c' b' F ∧
      c'.mode = c.mode ∧ b'.filePosition + b'.currentPos = pos ∧ b'.capacity = b.capacity ∧
      b'.currentPos < b'.usableSize := by
  have hus := h.usable
  have hcap := h.capacity_pos
  unfold FileCacheBuffer.setPosition
  by_cases hin : b.contains pos = true
  · have hin' := hin
    rw [contains, Bool.and_eq_true, decide_eq_true_eq, decide_eq_true_eq] at hin'
    refine ⟨c, { b with currentPos := pos - b.filePosition }, if_pos hin, h.move _, rfl, ?_, rfl, ?_⟩
    · dsimp only
      omega
    · dsimp only
      omega
  · obtain ⟨c', heq, hold, hnative, hmode⟩ := h.writeBack
    have hup := written_update b
    have hle := hold.update_le
    rw [if_neg hin, if_neg (by rw [h.movable]; decide), writeUpdatesToFile_guard, heq]
    dsimp only
    rw [if_neg (by decide)]
    refine ⟨c', _, rfl, ?_, hmode, Nat.add_zero pos, written_capacity b, ?_⟩
    · exact
        { hold with
          usable := rfl
          endPos_le := Nat.zero_le _
          inFile := hpos
          cached := fun i hi => absurd hi (Nat.not_lt_zero i)
          updateEnd_le := fun hlt => absurd hlt (by dsimp only; omega)
          native := fun j _ => by rw [hnative]
          start_le := fun hlt => absurd hlt (by dsimp only; omega)
          append := fun _ hlt => absurd hlt (by dsimp only; omega) }
    · dsimp only [clipUsableSize]
      rw [written_capacity]
      exact hcap

/-! ## 6. Storing -/

/-- **Storing** at a position with no gap in front of it, in append mode at the end of the file. The
    updated range may take in bytes between two updates: they are cached, so they are right. -/
theorem Holds.store {data : List UInt8} (hne : 0 < data.length)
    (hgap : b.currentPos ≤ b.endPos) (hroom : b.currentPos + data.length ≤ b.usableSize)
    (happ : c.isAppend = true → b.filePosition + b.currentPos = F.length)
    (hnarrow : b.capacity < 2147483648 ∨
      b.filePosition + b.currentPos + data.length < 2147483648 ∧ F.length < 2147483648) :
    Holds { c with fileSize := (splice F (b.filePosition + b.currentPos) data).length }
      (b.store data) (splice F (b.filePosition + b.currentPos) data) := by
  have h1 := h.endPos_le
  have h2 := h.length
  have h3 := h.inFile
  have h4 := h.updateEnd_le
  have h5 := h.update_le
  have h6 := h.usable
  have h7 := h.start_le
  have hbuf : b.currentPos ≤ b.pBuffer.length := by omega
  have hF : b.filePosition + b.currentPos ≤ F.length := by omega
  have hlen := length_splice hF data
  have hnative : b.updateEnd ≤ b.updateStart → c.native.content.length = F.length :=
    fun hu => congrArg List.length (h.native_eq hu)
  -- how the updated range grows
  have hstart : (b.store data).updateStart =
      if b.updateEnd = b.updateStart then b.currentPos else min b.currentPos b.updateStart := by
    unfold FileCacheBuffer.store
    dsimp only
    split
    · rfl
    · split <;> omega
  have hend : (b.store data).updateEnd =
      if b.updateEnd = b.updateStart then b.currentPos + data.length
      else max b.updateEnd (b.currentPos + data.length) := by
    unfold FileCacheBuffer.store
    dsimp only
    split
    · rfl
    · split <;> omega
  have hendPos : (b.store data).endPos = max b.endPos (b.currentPos + data.length) := by
    unfold FileCacheBuffer.store
    dsimp only
    split <;> omega
  have hout : ∀ j, j < b.filePosition + b.currentPos ∨
      b.filePosition + b.currentPos + data.length ≤ j →
      (splice F (b.filePosition + b.currentPos) data)[j]? = F[j]? := by
    rintro j (hj | hj)
    · exact getElem?_splice_lt hF hj
    · exact getElem?_splice_ge hF hj
  exact
    { movable := h.movable
      capacity_pos := h.capacity_pos
      capacity_lt := h.capacity_lt
      usable := h6
      length := by
        show (splice b.pBuffer b.currentPos data).length = b.capacity
        rw [length_splice hbuf]
        omega
      endPos_le := by
        rw [hendPos]
        show _ ≤ b.capacity
        omega
      inFile := by
        rw [hendPos, hlen]
        show b.filePosition + _ ≤ _
        omega
      cached := fun i hi => by
        rw [hendPos] at hi
        show (splice b.pBuffer b.currentPos data)[i]? = _
        show _ = (splice F (b.filePosition + b.currentPos) data)[b.filePosition + i]?
        rcases Nat.lt_or_ge i b.currentPos with hlt | hge
        · rw [getElem?_splice_lt hbuf hlt, getElem?_splice_lt hF (by omega)]
          exact h.cached i (by omega)
        · obtain ⟨k, rfl⟩ := Nat.exists_eq_add_of_le hge
          rcases Nat.lt_or_ge k data.length with hk | hk
          · rw [getElem?_splice_mid hbuf hk, ← Nat.add_assoc, getElem?_splice_mid hF hk]
          · rw [getElem?_splice_ge hbuf (by omega), getElem?_splice_ge hF (by omega)]
            exact h.cached _ (by omega)
      update_le := by
        rw [hstart, hend]
        split <;> omega
      updateEnd_le := fun _ => by
        rw [hend, hendPos]
        split <;> omega
      native := fun j hj => by
        rw [hstart, hend] at hj
        change j < b.filePosition + _ ∨ b.filePosition + _ ≤ j at hj
        show c.native.content[j]? = _
        by_cases hu : b.updateEnd = b.updateStart
        · rw [if_pos hu, if_pos hu] at hj
          rw [h.native_eq (by omega), hout j (by omega)]
        · rw [if_neg hu, if_neg hu] at hj
          rw [h.native j (by omega), hout j (by omega)]
      start_le := fun _ => by
        rw [hstart]
        show b.filePosition + _ ≤ c.native.content.length
        by_cases hu : b.updateEnd = b.updateStart
        · rw [if_pos hu, hnative (by omega)]
          exact hF
        · rw [if_neg hu]
          have := h7 (by omega)
          omega
      append := fun ha _ => by
        have happ' := happ ha
        rw [hstart]
        show c.native.content.length = b.filePosition + _
        by_cases hu : b.updateEnd = b.updateStart
        · rw [if_pos hu, hnative (by omega), happ']
        · rw [if_neg hu, h.append ha (by omega)]
          have := h4 (by omega)
          omega
      nativePosition := h.nativePosition
      fileSize := rfl
      narrow := by
        rw [hlen]
        show b.capacity < _ ∨ _
        omega }

end

end OpenCore.OsclIo
