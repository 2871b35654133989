/-
  File:      OpenCore/OsclIo/FileCacheRun.lean
  Subject:   A CACHED FILE BEHAVES LIKE A PLAIN ONE, over every run of calls.

  `PlainFile` is a file in memory. The cache with its native file stands for one (`Stands`), every
  call keeps that and gives the plain file's answer, where its 32-bit byte counts are exact
  (`Fits`).
-/
import OpenCore.OsclIo.FileCacheData

namespace OpenCore.OsclIo

open FileCacheBuffer FileCache List Option

/-! ## 1. What the cache is for -/

open FileCache (call seekTarget)

/-- A file in memory. -/
structure PlainFile where
  content : List UInt8
  position : Nat
  deriving DecidableEq

/-- Where a seek goes. -/
def PlainFile.target (f : PlainFile) (offset : Int) : SeekType → Int
  | .SEEKSET => offset
  | .SEEKCUR => f.position + offset
  | .SEEKEND => f.content.length + offset

/-- The calls on a plain file: whole elements are read, a write in append mode goes to the end, a
    seek stays inside the file. -/
def PlainFile.call (append : Bool) (f : PlainFile) : FileRequest → PlainFile × FileAnswer
  | .read size numelements =>
    let count := min numelements ((f.content.length - f.position) / size)
    ({ f with position := f.position + count * size },
      .read count (slice f.content f.position (count * size)))
  | .write inputBuffer size numelements =>
    let start := if append then f.content.length else f.position
    ({ content := splice f.content start inputBuffer
       position := start + inputBuffer.length },
      .count (if size = 0 then 0 else numelements))
  | .seek offset origin =>
    let pos := f.target offset origin
    if 0 ≤ pos ∧ pos ≤ f.content.length then ({ f with position := pos.toNat }, .code 0)
    else (f, .code (-1))
  | .tell => (f, .position f.position)
  | .flush => (f, .code 0)
  | .addFixedCache _ _ => (f, .done)
  | .addFixedCacheNow _ _ => (f, .done)
  | .removeFixedCache _ => (f, .done)

/-- The plain file as a machine. -/
def plainStep (append : Bool) : PlainFile → FileRequest × FileAnswer → PlainFile → Prop :=
  stepsOf (answering fun f q => some (PlainFile.call append f q))

/-! ## 2. When the code's byte counts are exact -/

/-- The bytes `Read` sets out to read. -/
def bytesToRead (size numelements left : Nat) : Nat :=
  let bytesLeftInFile := toUInt32 left
  mul32 (if bytesLeftInFile < mul32 numelements size then bytesLeftInFile / size else numelements)
    size

/-- The product of a read fits 32 bits, and so do the bytes left or at least those wanted; or it
    does not, but is cut down to the bytes left in the same way. -/
def ReadFits (size numelements left : Nat) : Prop :=
  size * numelements < 4294967296 ∧ (left < 4294967296 ∨ size * numelements ≤ left % 4294967296) ∨
  4294967296 ≤ size * numelements ∧ left < 4294967296 ∧
    (left < mul32 numelements size ∨ mul32 numelements size = left / size * size)

theorem toUInt32_nat (n : Nat) : toUInt32 n = n % 4294967296 := by
  unfold toUInt32
  omega

/-- **The condition is exact**: it says when the code reads as many bytes as there are to read. -/
theorem bytesToRead_eq_iff {size numelements left : Nat} (hsize : size < 4294967296) :
    bytesToRead size numelements left = min numelements (left / size) * size ↔
      ReadFits size numelements left := by
  unfold bytesToRead ReadFits
  rw [toUInt32_nat, ← Nat.mul_min_mul_right, Nat.mul_comm size numelements]
  rcases Nat.eq_zero_or_pos size with rfl | hpos
  · simp [mul32]
  have hq1 : left / size * size ≤ left := Nat.div_mul_le_self left size
  have hq2 : left < left / size * size + size := Nat.lt_div_mul_add hpos
  have hl1 : left % 4294967296 / size * size ≤ left % 4294967296 := Nat.div_mul_le_self _ size
  have hpq : numelements * size ≤ left → numelements * size ≤ left / size * size := fun h =>
    Nat.mul_le_mul_right size ((Nat.le_div_iff_mul_le hpos).mpr h)
  have hsmall : left < 4294967296 → left % 4294967296 / size * size = left / size * size := fun h =>
    by rw [Nat.mod_eq_of_lt h]
  have hlt : left % 4294967296 / size * size < 4294967296 := by omega
  have hcode : mul32 (if left % 4294967296 < mul32 numelements size then
        left % 4294967296 / size else numelements) size =
      if left % 4294967296 < mul32 numelements size then left % 4294967296 / size * size
      else mul32 numelements size := by
    split
    · exact mul32_eq hlt
    · rfl
  have hw : mul32 numelements size = numelements * size % 4294967296 := by unfold mul32; rfl
  dsimp only
  rw [hcode, hw]
  generalize numelements * size = p at *
  generalize left / size * size = q at *
  generalize left % 4294967296 / size * size = q' at *
  split <;> omega

/-! ## 3. A cache without fixed caches -/

/-- The cache that has only its movable buffer. -/
def single (c : Container) (b : FileCacheBuffer) : FileCache where
  container := c
  movableCache := b
  fixedCaches := {}
  curCache := .movable
  iAddFixedCache := []
  iRemoveFixedCache := []

@[simp] theorem cur_single (c : Container) (b : FileCacheBuffer) : (single c b).cur = some b := rfl

@[simp] theorem tell_single (c : Container) (b : FileCacheBuffer) :
    (single c b).tell = some (b.filePosition + b.currentPos) := rfl

@[simp] theorem setCur_single (c : Container) (b b' : FileCacheBuffer) :
    (single c b).setCur b' = single c b' := rfl

@[simp] theorem container_single (c : Container) (b : FileCacheBuffer) :
    (single c b).container = c := rfl

theorem onCur_single {c c' : Container} {b b' : FileCacheBuffer} {err : Int}
    {f : Container → FileCacheBuffer → Container × FileCacheBuffer × Int}
    (h : f c b = (c', b', err)) : (single c b).onCur f = some (single c' b', err) := by
  rw [onCur, cur_single, map_some, container_single, h]
  rfl

theorem setCachePosition_single {c c' : Container} {b b' : FileCacheBuffer} {err : Int} {pos : Nat}
    (h : FileCacheBuffer.setPosition [] pos c b = (c', b', err)) :
    (single c b).setCachePosition pos = some (single c' b', err) :=
  onCur_single (f := setPosition [] pos) h

/-- The cache stands for the plain file with contents `F` at position `pos`. -/
structure Stands (mode capacity : Nat) (c : Container) (b : FileCacheBuffer) (F : List UInt8)
    (pos : Nat) : Prop where
  holds : Holds c b F
  mode : c.mode = mode
  capacity : b.capacity = capacity
  position : b.filePosition + b.currentPos = pos
  inWindow : b.currentPos ≤ b.usableSize
  inFile : pos ≤ F.length

variable {mode capacity : Nat} {c : Container} {b : FileCacheBuffer} {F : List UInt8} {pos : Nat}

theorem Stands.isAppend_eq (h : Stands mode capacity c b F pos) :
    c.isAppend = decide (mode &&& MODE_APPEND ≠ 0) := by
  rw [Container.isAppend, h.mode]

theorem Stands.prepRead (h : Stands mode capacity c b F pos) :
    ∃ c' b', (single c b).onCur FileCacheBuffer.prepRead = some (single c' b', 0) ∧
      Stands mode capacity c' b' F pos ∧ b'.currentPos ≤ b'.endPos ∧
      (b.currentPos < b.usableSize → pos < F.length → b'.currentPos < b'.endPos) := by
  have hpos := h.position
  obtain ⟨c', b', heq, hold, hmode, hfp, hcp, hcap, hgap, hsome⟩ :=
    h.holds.prepRead h.inWindow (hpos ▸ h.inFile)
  have h1 := h.holds.usable
  have h2 := hold.usable
  have h3 := h.inWindow
  refine ⟨c', b', onCur_single heq, ⟨hold, hmode.trans h.mode, hcap.trans h.capacity, ?_, ?_,
    h.inFile⟩, hgap, ?_⟩
  · rw [hfp, hcp, hpos]
  · omega
  · rw [hcp]
    intro h4 h5
    exact hsome h4 (by omega)

theorem Stands.prepWrite (h : Stands mode capacity c b F pos) :
    ∃ c' b', (single c b).onCur FileCacheBuffer.prepWrite = some (single c' b', 0) ∧
      Stands mode capacity c' b' F pos ∧ b'.currentPos ≤ b'.endPos ∧
      b'.currentPos = b.currentPos ∧ b'.usableSize = b.usableSize := by
  have hpos := h.position
  obtain ⟨c', b', heq, hold, hmode, hfp, hcp, hcap, hgap⟩ :=
    h.holds.prepWrite h.inWindow (hpos ▸ h.inFile)
  have h1 := h.holds.usable
  have h2 := hold.usable
  have h3 := h.inWindow
  refine ⟨c', b', onCur_single heq, ⟨hold, hmode.trans h.mode, hcap.trans h.capacity, ?_, ?_,
    h.inFile⟩, hgap, hcp, ?_⟩
  · rw [hfp, hcp, hpos]
  · omega
  · omega

theorem Stands.setCachePosition (h : Stands mode capacity c b F pos) {pos' : Nat}
    (hpos : pos' ≤ F.length) :
    ∃ c' b', (single c b).setCachePosition pos' = some (single c' b', 0) ∧
      Stands mode capacity c' b' F pos' ∧ b'.currentPos < b'.usableSize := by
  obtain ⟨c', b', heq, hold, hmode, hfp, hcap, hroom⟩ := h.holds.setPosition hpos
  exact ⟨c', b', setCachePosition_single heq, ⟨hold, hmode.trans h.mode, hcap.trans h.capacity,
    hfp, le_of_lt hroom, hpos⟩, hroom⟩

/-! ## 4. The loops -/

/-- **The loop of `Read`** hands out the next bytes of the file. -/
theorem readLoop_stands (fuel : Nat) {n : Nat} (destBuf : List UInt8) (h : Stands mode capacity c b F pos)
    (hgap : b.currentPos ≤ b.endPos) (hn : pos + n ≤ F.length)
    (hfuel : 2 * n + (if b.currentPos = b.endPos then 1 else 0) < fuel) :
    ∃ c' b', readLoop fuel (single c b) n destBuf =
        some (single c' b', 0, destBuf ++ slice F pos n) ∧
      Stands mode capacity c' b' F (pos + n) := by
  induction fuel generalizing c b n pos destBuf with
  | zero => exact absurd hfuel (Nat.not_lt_zero _)
  | succ fuel ih =>
    rw [readLoop]
    by_cases hzero : n = 0
    · subst hzero
      rw [if_pos rfl, slice_zero, append_nil]
      exact ⟨c, b, rfl, h⟩
    have h1 := h.holds.endPos_le
    have h2 := h.holds.capacity_lt
    have h3 := h.holds.usable
    rw [if_neg hzero, cur_single, bind_some, sub32_eq hgap (by omega)]
    dsimp only
    by_cases hsome : b.currentPos < b.endPos
    · -- a round that copies
      rw [if_pos (by omega), setCur_single]
      obtain ⟨k, hk⟩ : ∃ k, k = if n < b.endPos - b.currentPos then n
          else b.endPos - b.currentPos := ⟨_, rfl⟩
      rw [← hk]
      have hk1 : 0 < k ∧ k ≤ n ∧ b.currentPos + k ≤ b.endPos := by
        split at hk <;> omega
      have hcopy : slice b.pBuffer b.currentPos k = slice F pos k := by
        refine ext_getElem? fun i => ?_
        rcases Nat.lt_or_ge i k with hi | hi
        · rw [getElem?_slice hi, getElem?_slice hi, h.holds.cached _ (by omega), ← Nat.add_assoc,
            h.position]
        · have h4 := length_slice_le b.pBuffer b.currentPos k
          have h5 := length_slice_le F pos k
          rw [getElem?_eq_none (by omega), getElem?_eq_none (by omega)]
      have hst₁ : Stands mode capacity c { b with currentPos := b.currentPos + k } F (pos + k) :=
        ⟨h.holds.move _, h.mode, h.capacity, by
          have := h.position
          dsimp only
          omega, by
          dsimp only
          omega, by omega⟩
      obtain ⟨c', b', heq, hst⟩ := ih (n := n - k) _ hst₁ hk1.2.2 (by omega) (by
        dsimp only
        split at hfuel <;> split <;> omega)
      refine ⟨c', b', ?_, ?_⟩
      · rw [heq, hcopy, append_assoc, slice_append, Nat.add_sub_cancel' hk1.2.1]
      · rwa [Nat.add_assoc, Nat.add_sub_cancel' hk1.2.1] at hst
    · -- a refill at the same position
      have heq : b.currentPos = b.endPos := by omega
      rw [if_pos heq] at hfuel
      rw [if_neg (by omega), h.position]
      obtain ⟨c₁, b₁, heq₁, hst₁, hroom⟩ := h.setCachePosition h.inFile
      obtain ⟨c₂, b₂, heq₂, hst₂, hgap₂, hsome₂⟩ := hst₁.prepRead
      have hlt := hsome₂ hroom (by omega)
      have h4 := hst₂.holds.endPos_le
      have h5 := hst₂.holds.capacity_lt
      rw [heq₁, bind_some]
      dsimp only
      rw [if_neg (by decide), heq₂, bind_some]
      dsimp only
      rw [if_neg (by decide), cur_single, bind_some, sub32_eq hgap₂ (by omega),
        if_neg (by omega)]
      exact ih destBuf hst₂ hgap₂ hn (by rw [if_neg (by omega)]; omega)

/-- One round of the loop of `Write` that stores. -/
theorem Stands.store (h : Stands mode capacity c b F pos) (data : List UInt8)
    (hne : 0 < data.length) (hgap : b.currentPos ≤ b.endPos)
    (hroom : b.currentPos + data.length ≤ b.usableSize)
    (happ : c.isAppend = true → pos = F.length)
    (hnarrow : capacity < 2147483648 ∨ pos + data.length < 2147483648 ∧ F.length < 2147483648) :
    let r := b.store data
    ∃ c', ((single c b).setCur r).extendFileSize r = single c' r ∧
      Stands mode capacity c' r (splice F pos data) (pos + data.length) ∧ r.currentPos ≤ r.endPos := by
  have hpos := h.position
  have hlen := length_splice h.inFile data
  have hcap := h.capacity
  have hstore := h.holds.store hne hgap hroom (hpos.symm ▸ happ) (by rw [hpos, hcap]; exact hnarrow)
  rw [hpos] at hstore
  have hend : (b.store data).endPos = max b.endPos (b.currentPos + data.length) := by
    unfold FileCacheBuffer.store
    dsimp only
    split <;> omega
  refine ⟨{ c with fileSize := (splice F pos data).length }, ?_,
    ⟨hstore, h.mode, hcap, ?_, hroom, by omega⟩, ?_⟩
  · have hin := h.holds.inFile
    have hsize := h.holds.fileSize
    have hfp : (b.store data).filePosition = b.filePosition := rfl
    rw [setCur_single, extendFileSize, container_single, hfp, hend, hsize]
    split
    · have : b.filePosition + max b.endPos (b.currentPos + data.length) =
          (splice F pos data).length := by omega
      rw [this]
      rfl
    · have : c.fileSize = (splice F pos data).length := by omega
      rw [← this]
  · show b.filePosition + (b.currentPos + data.length) = pos + data.length
    omega
  · rw [hend]
    show b.currentPos + data.length ≤ _
    omega

/-- **The loop of `Write`** copies the data over the file. -/
theorem writeLoop_stands (fuel : Nat) (data : List UInt8) (h : Stands mode capacity c b F pos)
    (hgap : b.currentPos ≤ b.endPos) (happ : c.isAppend = true → pos = F.length)
    (hnarrow : capacity < 2147483648 ∨ pos + data.length < 2147483648 ∧ F.length < 2147483648)
    (hfuel : 2 * data.length + (if b.currentPos = b.usableSize then 1 else 0) < fuel) :
    ∃ c' b', writeLoop fuel (single c b) data.length data = some (single c' b', 0) ∧
      Stands mode capacity c' b' (splice F pos data) (pos + data.length) := by
  induction fuel generalizing c b F data pos with
  | zero => exact absurd hfuel (Nat.not_lt_zero _)
  | succ fuel ih =>
    rw [writeLoop]
    by_cases hzero : data.length = 0
    · rw [if_pos hzero, length_eq_zero_iff.mp hzero, splice_nil]
      exact ⟨c, b, rfl, h⟩
    have h1 := h.inWindow
    have h2 := h.holds.capacity_lt
    have h3 := h.holds.usable
    rw [if_neg hzero, cur_single, bind_some, sub32_eq h1 (by omega)]
    dsimp only
    by_cases hroom : b.currentPos < b.usableSize
    · -- a round that stores
      rw [if_pos (by omega)]
      obtain ⟨k, hk⟩ : ∃ k, k = if data.length < b.usableSize - b.currentPos then data.length
          else b.usableSize - b.currentPos := ⟨_, rfl⟩
      rw [← hk]
      have hk1 : 0 < k ∧ k ≤ data.length ∧ b.currentPos + k ≤ b.usableSize := by
        split at hk <;> omega
      have hlen : (data.take k).length = k := by
        rw [length_take]
        omega
      obtain ⟨c₁, heq₁, hst₁, hgap₁⟩ := h.store (data.take k) (by omega) hgap (by omega)
        happ (by omega)
      have hmode₁ := hst₁.isAppend_eq.trans h.isAppend_eq.symm
      have hF : (splice F pos (data.take k)).length = max F.length (pos + k) := by
        rw [length_splice h.inFile, hlen]
      have hdrop : (data.drop k).length = data.length - k := length_drop
      obtain ⟨c', b', heq, hst⟩ := ih (data.drop k) hst₁ hgap₁
        (fun ha => by
          have := happ (hmode₁ ▸ ha)
          omega)
        (by omega) (by
          rw [hdrop]
          split at hfuel <;> split <;> omega)
      refine ⟨c', b', ?_, ?_⟩
      · rw [heq₁, ← hdrop, heq]
      · rw [hlen] at hst
        have hsplice := splice_append h.inFile (a := data.take k) (b := data.drop k)
        rw [hlen, take_append_drop] at hsplice
        rw [hsplice, hdrop, Nat.add_assoc, Nat.add_sub_cancel' hk1.2.1] at hst
        exact hst
    · -- the window is full
      have hfull : b.currentPos = b.usableSize := by omega
      rw [if_pos hfull] at hfuel
      rw [if_neg (by omega), h.position]
      obtain ⟨c₁, b₁, heq₁, hst₁, hroom₁⟩ := h.setCachePosition h.inFile
      obtain ⟨c₂, b₂, heq₂, hst₂, hgap₂, hcp₂, hus₂⟩ := hst₁.prepWrite
      rw [heq₁, bind_some]
      dsimp only
      rw [if_neg (by decide), heq₂, bind_some]
      dsimp only
      rw [if_neg (by decide)]
      have hmode₂ := hst₂.isAppend_eq.trans h.isAppend_eq.symm
      exact ih data hst₂ hgap₂ (fun ha => happ (hmode₂ ▸ ha)) hnarrow
        (by rw [if_neg (by omega)]; omega)

/-! ## 5. The calls -/

/-- **`Read`**, where its byte count is exact. -/
theorem Stands.read (h : Stands mode capacity c b F pos) (hmode : canRead mode = true)
    {size numelements : Nat} (hsize : size < 4294967296)
    (hfits : ReadFits size numelements (F.length - pos)) :
    ∃ c' b', (single c b).read size numelements =
        some (single c' b', min numelements ((F.length - pos) / size),
          slice F pos (min numelements ((F.length - pos) / size) * size)) ∧
      Stands mode capacity c' b' F (pos + min numelements ((F.length - pos) / size) * size) := by
  have hin := h.inFile
  have hbytes := (bytesToRead_eq_iff hsize).mpr hfits
  have hle : min numelements ((F.length - pos) / size) * size ≤ F.length - pos :=
    le_trans (Nat.mul_le_mul_right size (Nat.min_le_right _ _)) (Nat.div_mul_le_self _ _)
  have hleft : ((c.fileSize : Int) - (pos : Nat)) = (F.length - pos : Nat) := by
    rw [h.holds.fileSize]
    omega
  rw [FileCache.read, container_single, h.mode, if_pos hmode, tell_single, bind_some,
    h.position]
  dsimp only
  rw [hleft]
  unfold bytesToRead at hbytes
  dsimp only at hbytes
  generalize (if toUInt32 (F.length - pos : Nat) < mul32 numelements size then
    toUInt32 (F.length - pos : Nat) / size else numelements) = n at hbytes ⊢
  have hcount : (if size = 0 then 0 else sub32 (mul32 size n) 0 / size) =
      min numelements ((F.length - pos) / size) := by
    by_cases hzero : size = 0
    · rw [if_pos hzero, hzero, Nat.div_zero, Nat.min_zero]
    · have hlt := mul32_lt n size
      have hcomm : mul32 size n = mul32 n size := by
        unfold mul32
        rw [Nat.mul_comm]
      rw [if_neg hzero, hcomm, sub32_eq (Nat.zero_le _) hlt, Nat.sub_zero, hbytes,
        Nat.mul_div_cancel _ (Nat.pos_of_ne_zero hzero)]
  generalize hk : min numelements ((F.length - pos) / size) = k at *
  rw [hbytes]
  obtain ⟨c₁, b₁, heq₁, hst₁, hgap₁⟩ : ∃ c₁ b₁,
      (if k * size ≠ 0 then (single c b).onCur FileCacheBuffer.prepRead
        else some (single c b, 0)) = some (single c₁ b₁, 0) ∧
      Stands mode capacity c₁ b₁ F pos ∧ (k * size ≠ 0 → b₁.currentPos ≤ b₁.endPos) := by
    by_cases hzero : k * size = 0
    · exact ⟨c, b, if_neg (not_not.mpr hzero), h, fun hne => absurd hzero hne⟩
    · obtain ⟨c₁, b₁, heq₁, hst₁, hgap₁, -⟩ := h.prepRead
      exact ⟨c₁, b₁, by rw [if_pos hzero, heq₁], hst₁, fun _ => hgap₁⟩
  rw [heq₁, bind_some]
  dsimp only
  rw [if_neg (by decide)]
  by_cases hzero : k * size = 0
  · refine ⟨c₁, b₁, ?_, by rw [hzero]; exact hst₁⟩
    rw [hzero, readLoop, if_pos rfl, map_some, slice_zero]
    dsimp only
    rw [hcount]
  · obtain ⟨c', b', heq, hst⟩ := readLoop_stands (2 * (k * size) + 2) (n := k * size)
      [] hst₁ (hgap₁ hzero) (by omega) (by split <;> omega)
    refine ⟨c', b', ?_, hst⟩
    rw [heq, map_some]
    dsimp only
    rw [hcount, nil_append]

/-- **`Write`** of a number of bytes that fits 32 bits. -/
theorem Stands.write (h : Stands mode capacity c b F pos) (hmode : canWrite mode = true)
    {data : List UInt8} {size numelements start : Nat}
    (hstart : start = if mode &&& MODE_APPEND ≠ 0 then F.length else pos)
    (hdata : data.length = size * numelements) (hfits : size * numelements < 4294967296)
    (hnarrow : capacity < 2147483648 ∨
      start + size * numelements < 2147483648 ∧ F.length < 2147483648) :
    ∃ c' b', (single c b).write data size numelements =
        some (single c' b', if size = 0 then 0 else numelements) ∧
      Stands mode capacity c' b' (splice F start data) (start + data.length) := by
  have happend := h.isAppend_eq
  have hsize := h.holds.fileSize
  rw [FileCache.write, container_single, h.mode, if_pos hmode, tell_single, h.position, hsize]
  -- in append mode the position goes to the end first
  obtain ⟨c₁, b₁, heq₁, hst₁⟩ : ∃ c₁ b₁,
      (if c.isAppend = true then
        (some pos).bind fun p =>
          if p ≠ F.length then (single c b).setCachePosition F.length
          else some (single c b, 0)
      else some (single c b, 0)) = some (single c₁ b₁, 0) ∧
      Stands mode capacity c₁ b₁ F start := by
    rw [bind_some, happend]
    by_cases ha : mode &&& MODE_APPEND ≠ 0
    · rw [if_pos (decide_eq_true ha)]
      rw [if_pos ha] at hstart
      by_cases hne : pos ≠ F.length
      · obtain ⟨c₁, b₁, heq₁, hst₁, -⟩ := h.setCachePosition (le_refl F.length)
        exact ⟨c₁, b₁, by rw [if_pos hne, heq₁], hstart ▸ hst₁⟩
      · refine ⟨c, b, if_neg hne, ?_⟩
        rw [hstart, ← not_not.mp hne]
        exact h
    · rw [if_neg (by simpa using ha)]
      rw [if_neg ha] at hstart
      exact ⟨c, b, rfl, hstart ▸ h⟩
  obtain ⟨c₂, b₂, heq₂, hst₂, hgap₂, -⟩ := hst₁.prepWrite
  have happ₂ : c₂.isAppend = true → start = F.length := by
    intro ha
    rw [hst₂.isAppend_eq, decide_eq_true_eq] at ha
    rw [hstart, if_pos ha]
  obtain ⟨c', b', heq, hst⟩ := writeLoop_stands (2 * data.length + 2) data hst₂ hgap₂ happ₂ (by rw [hdata]; exact hnarrow) (by split <;> omega)
  refine ⟨c', b', ?_, hst⟩
  rw [heq₁, bind_some]
  dsimp only
  rw [if_neg (by decide), heq₂, bind_some]
  dsimp only
  rw [if_neg (by decide), mul32_eq hfits, ← hdata, heq, map_some]
  dsimp only
  rw [sub32_eq (Nat.zero_le _) (by omega), Nat.sub_zero, hdata]
  by_cases hzero : size = 0
  · rw [if_pos hzero, if_pos hzero]
  · rw [if_neg hzero, if_neg hzero, Nat.mul_div_cancel_left _ (Nat.pos_of_ne_zero hzero)]

/-- **`Seek`** goes to every target inside the file. -/
theorem Stands.seek (h : Stands mode capacity c b F pos) {target : Int} {offset : Int}
    {origin : SeekType} (htarget : target = PlainFile.target ⟨F, pos⟩ offset origin) :
    ∃ c' b', (single c b).seek offset origin = some (single c' b',
        if 0 ≤ target ∧ target ≤ F.length then 0 else -1) ∧
      Stands mode capacity c' b' F
        (if 0 ≤ target ∧ target ≤ F.length then target.toNat else pos) := by
  have hsize := h.holds.fileSize
  have heq : (single c b).seekTarget offset origin = some target := by
    rw [htarget]
    cases origin with
    | SEEKSET => rfl
    | SEEKCUR => rw [seekTarget, tell_single, h.position, map_some]; rfl
    | SEEKEND => rw [seekTarget, container_single, hsize]; rfl
  rw [FileCache.seek, heq, bind_some, container_single, hsize]
  by_cases hok : 0 ≤ target ∧ target ≤ F.length
  case neg =>
    rw [if_pos (by omega), if_neg hok, if_neg hok]
    exact ⟨c, b, rfl, h⟩
  rw [if_neg (by omega), if_pos hok, if_pos hok, cur_single, bind_some]
  by_cases hin : b.contains target.toNat = true
  · have hin' := hin
    rw [FileCacheBuffer.contains, Bool.and_eq_true, decide_eq_true_eq, decide_eq_true_eq] at hin'
    rw [if_pos hin, setCur_single]
    refine ⟨c, _, rfl, h.holds.move _, h.mode, h.capacity, ?_, ?_, by omega⟩
    · dsimp only
      omega
    · dsimp only
      omega
  · rw [if_neg hin]
    obtain ⟨c₁, b₁, heq₁, hst₁, -⟩ := h.setCachePosition (show target.toNat ≤ F.length by omega)
    exact ⟨c₁, b₁, heq₁, hst₁⟩

/-- **`Flush`** leaves no updates behind. -/
theorem Stands.flush (h : Stands mode capacity c b F pos) :
    ∃ c' b', (single c b).flush = (single c' b', 0) ∧ Stands mode capacity c' b' F pos ∧
      b'.updateEnd ≤ b'.updateStart := by
  obtain ⟨c₁, heq, hold, -, hmode⟩ := h.holds.writeBack
  have hst : ∀ c', c'.mode = c₁.mode → Holds c' b.written F →
      Stands mode capacity c' b.written F pos := by
    intro c' hm hh
    refine ⟨hh, hm.trans (hmode.trans h.mode), ?_, ?_, ?_, h.inFile⟩
    · rw [written_capacity, h.capacity]
    · rw [written_filePosition, written_currentPos, h.position]
    · rw [written_currentPos, written_usableSize]
      exact h.inWindow
  have hguard : (if (single c b).movableCache.isUpdated = true then
        writeUpdatesToFile (single c b).container (single c b).movableCache
      else ((single c b).container, (single c b).movableCache, 0)) = (c₁, b.written, 0) :=
    (writeUpdatesToFile_guard c b).trans heq
  unfold FileCache.flush
  rw [hguard]
  dsimp only [single, flushFixedCaches]
  rw [if_neg (by decide), if_neg (by decide)]
  by_cases hu : b.isUpdated = true ∨ false = true
  · exact ⟨_, _, if_pos hu, hst _ rfl { hold with nativePosition := rfl },
      written_update b⟩
  · exact ⟨_, _, if_neg hu, hst _ rfl hold, written_update b⟩

/-! ## 6. Whole runs -/

/-- The request is one the plain file has, its numbers are `uint32`, and the input buffer of a
    write has the size it says. -/
def FileRequest.WellFormed : FileRequest → Prop
  | .read size _ => size < 4294967296
  | .write inputBuffer size numelements => inputBuffer.length = size * numelements
  | .seek _ _ => True
  | .tell => True
  | .flush => True
  | _ => False

/-- The 32-bit byte counts of the call are exact. -/
def Fits (fc : FileCache) : FileRequest → Prop
  | .read size numelements => ReadFits size numelements (fc.container.fileSize - fc.tell.getD 0)
  | .write _ size numelements =>
    let start := if fc.container.isAppend then fc.container.fileSize else fc.tell.getD 0
    size * numelements < 4294967296 ∧
      (fc.movableCache.capacity < 2147483648 ∨
        start + size * numelements < 2147483648 ∧ fc.container.fileSize < 2147483648)
  | _ => True

/-- The cache stands for the plain file. -/
def Mirrors (mode capacity : Nat) (fc : FileCache) (t : PlainFile) : Prop :=
  ∃ c b, fc = single c b ∧ Stands mode capacity c b t.content t.position

def appendMode (mode : Nat) : Bool := decide (mode &&& MODE_APPEND ≠ 0)

theorem canRead_of_canWrite {mode : Nat} (h : canWrite mode = true) : canRead mode = true := by
  unfold canWrite canRead at *
  rw [decide_eq_true_eq] at *
  omega

/-- **One call**: it gives an answer, and that is the plain file's. -/
theorem call_mirrors {fc : FileCache} {t : PlainFile} (hmode : canWrite mode = true)
    (h : Mirrors mode capacity fc t) {q : FileRequest} (hq : q.WellFormed) (hfits : Fits fc q) :
    ∃ fc', fc.call q = some (fc', (t.call (appendMode mode) q).2) ∧
      Mirrors mode capacity fc' (t.call (appendMode mode) q).1 := by
  obtain ⟨c, b, rfl, hst⟩ := h
  have htell : (single c b).tell.getD 0 = t.position := by
    rw [tell_single, getD_some, hst.position]
  cases q with
  | read size numelements =>
    rw [Fits, htell, container_single, hst.holds.fileSize] at hfits
    obtain ⟨c', b', heq, hst'⟩ := hst.read (canRead_of_canWrite hmode) hq hfits
    exact ⟨single c' b', by rw [call, heq]; rfl, c', b', rfl, hst'⟩
  | write inputBuffer size numelements =>
    obtain ⟨hlt, hnarrow⟩ := hfits
    rw [htell, container_single, hst.holds.fileSize, hst.isAppend_eq] at hnarrow
    have hcap : (single c b).movableCache.capacity = capacity := hst.capacity
    rw [hcap] at hnarrow
    have hstart : (if decide (mode &&& MODE_APPEND ≠ 0) = true then t.content.length
        else t.position) =
        if mode &&& MODE_APPEND ≠ 0 then t.content.length else t.position := by
      simp only [decide_eq_true_eq]
    rw [hstart] at hnarrow
    obtain ⟨c', b', heq, hst'⟩ := hst.write hmode rfl hq hlt hnarrow
    refine ⟨single c' b', ?_, c', b', rfl, ?_⟩
    · rw [call, if_pos (show inputBuffer.length = size * numelements from hq), heq]
      rfl
    · rw [PlainFile.call, appendMode, hstart]
      exact hst'
  | seek offset origin =>
    obtain ⟨c', b', heq, hst'⟩ := hst.seek (show t.target offset origin = PlainFile.target ⟨t.content, t.position⟩ offset origin from rfl)
    have hplain : t.call (appendMode mode) (.seek offset origin) =
        if 0 ≤ t.target offset origin ∧ t.target offset origin ≤ t.content.length then
          ({ t with position := (t.target offset origin).toNat }, .code 0)
        else (t, .code (-1)) := rfl
    refine ⟨single c' b', ?_, c', b', rfl, ?_⟩
    · rw [call, heq, hplain]
      split <;> rfl
    · rw [hplain]
      by_cases hok : 0 ≤ t.target offset origin ∧ t.target offset origin ≤ t.content.length
      · rw [if_pos hok] at hst' ⊢
        exact hst'
      · rw [if_neg hok] at hst' ⊢
        exact hst'
  | tell =>
    refine ⟨single c b, ?_, c, b, rfl, hst⟩
    rw [call, tell_single, hst.position]
    rfl
  | flush =>
    obtain ⟨c', b', heq, hst', -⟩ := hst.flush
    exact ⟨single c' b', by rw [call, heq]; rfl, c', b', rfl, hst'⟩
  | addFixedCache => exact hq.elim
  | addFixedCacheNow => exact hq.elim
  | removeFixedCache => exact hq.elim

variable (mode) in
/-- A new cache stands for the file it is opened on, at its start. -/
theorem openCache_mirrors {native : NativeFile} (hcap : 0 < capacity)
    (hlt : capacity < 4294967296)
    (hnarrow : capacity < 2147483648 ∨ native.content.length < 2147483648) :
    ∃ fc, openCache mode capacity native [] = some fc ∧
      Mirrors mode capacity fc ⟨native.content, 0⟩ := by
  set b : FileCacheBuffer :=
    { capacity := capacity, usableSize := capacity, pBuffer := replicate capacity 0 } with hb
  have hin : b.contains 0 = true := by simpa [hb, FileCacheBuffer.contains] using hcap
  have hset : ∀ c, setPosition [] 0 c b = (c, b, 0) := fun c => if_pos hin
  have hopen : openCache mode capacity native [] =
      ((single ⟨mode, 0, 0, native⟩ b).setCachePosition 0).map fun r =>
        { r.1 with
          container :=
            { r.1.container with
              fileSize := native.content.length
              nativePosition := native.position } } := rfl
  refine ⟨single ⟨mode, native.content.length, native.position, native⟩ b, ?_, _, _, rfl, ?_⟩
  · rw [hopen, setCachePosition_single (hset _)]
    rfl
  exact
    { holds :=
        { movable := rfl
          capacity_pos := hcap
          capacity_lt := hlt
          usable := rfl
          length := length_replicate
          endPos_le := Nat.zero_le _
          inFile := Nat.zero_le _
          cached := fun i hi => absurd hi (Nat.not_lt_zero i)
          update_le := le_refl 0
          updateEnd_le := fun h => absurd h (Nat.lt_irrefl 0)
          native := fun _ _ => rfl
          start_le := fun h => absurd h (Nat.lt_irrefl 0)
          append := fun _ h => absurd h (Nat.lt_irrefl 0)
          nativePosition := rfl
          fileSize := rfl
          narrow := hnarrow }
      mode := rfl
      capacity := rfl
      position := rfl
      inWindow := Nat.zero_le _
      inFile := Nat.zero_le _ }

/-- **A cached file is a plain file**, over every run of calls whose byte counts are exact: each
    call gives an answer, the plain file's; and behind a `Flush` the native file has its
    contents. -/
theorem fileCache_of_fits_run {native : NativeFile} (hmode : canWrite mode = true)
    (hcap : 0 < capacity) (hlt : capacity < 4294967296)
    (hnarrow : capacity < 2147483648 ∨ native.content.length < 2147483648) :
    ∃ fc₀, openCache mode capacity native [] = some fc₀ ∧
      ∀ calls fc, Run (onlyWhen (fun s l => l.1.WellFormed ∧ Fits s l.1) cacheStep) fc₀ calls fc →
        (∃ t, Run (plainStep (appendMode mode)) ⟨native.content, 0⟩ calls t ∧
          ((∃ l err, calls = l ++ [(.flush, .code err)]) → fc.container.native.content = t.content)) ∧
        ∀ q, q.WellFormed → Fits fc q → ∃ r, fc.call q = some r := by
  obtain ⟨fc₀, heq₀, hm₀⟩ := openCache_mirrors mode hcap hlt hnarrow
  refine ⟨fc₀, heq₀, fun calls fc hr => ?_⟩
  have hstep : ∀ (s : FileCache) (l : FileRequest × FileAnswer) (s' : FileCache) (t : PlainFile),
      Mirrors mode capacity s t →
      onlyWhen (fun s l => l.1.WellFormed ∧ Fits s l.1) cacheStep s l s' →
      ∃ t', plainStep (appendMode mode) t l t' ∧ Mirrors mode capacity s' t' := by
    rintro s ⟨q, a⟩ s' t hm ⟨⟨hq, hfits⟩, hs⟩
    obtain ⟨fc', heq, hm'⟩ := call_mirrors hmode hm hq hfits
    rw [cacheStep, stepsOf, answering_eq_some, heq] at hs
    obtain ⟨rfl, ha⟩ := Prod.mk.inj (Option.some.inj hs)
    exact ⟨_, answering_eq_some.mpr (congrArg some (Prod.ext rfl ha)), hm'⟩
  obtain ⟨t, hrun, hm⟩ := hr.simulate hm₀ hstep
  refine ⟨⟨t, hrun, ?_⟩, fun q hq hfits => ?_⟩
  · rintro ⟨l, err, rfl⟩
    obtain ⟨fc₁, hr₁, -, hs⟩ := hr.of_concat
    obtain ⟨t₁, -, c, b, rfl, hst⟩ := hr₁.simulate hm₀ hstep
    obtain ⟨c', b', heq, -, hup⟩ := hst.flush
    rw [cacheStep, stepsOf, answering_eq_some, call, heq] at hs
    cases hs
    obtain ⟨c₂, b₂, heq₂, hst₂⟩ := hm
    have hc : c' = c₂ := congrArg FileCache.container heq₂
    have hb : b' = b₂ := congrArg FileCache.movableCache heq₂
    subst hc hb
    exact hst₂.holds.native_eq hup
  · obtain ⟨fc', heq, -⟩ := call_mirrors hmode hm hq hfits
    exact ⟨_, heq⟩

instance (size numelements left : Nat) : Decidable (ReadFits size numelements left) :=
  inferInstanceAs (Decidable (_ ∧ _ ∨ _ ∧ _ ∧ _))

instance (q : FileRequest) : Decidable q.WellFormed :=
  match q with
  | .read size _ => inferInstanceAs (Decidable (size < 4294967296))
  | .write inputBuffer size numelements =>
    inferInstanceAs (Decidable (inputBuffer.length = size * numelements))
  | .seek _ _ => isTrue trivial
  | .tell => isTrue trivial
  | .flush => isTrue trivial
  | .addFixedCache _ _ => isFalse id
  | .addFixedCacheNow _ _ => isFalse id
  | .removeFixedCache _ => isFalse id

instance (fc : FileCache) (q : FileRequest) : Decidable (Fits fc q) :=
  match q with
  | .read size numelements =>
    inferInstanceAs (Decidable (ReadFits size numelements
      (fc.container.fileSize - fc.tell.getD 0)))
  | .write _ _ _ => inferInstanceAs (Decidable (_ ∧ (_ ∨ _)))
  | .seek _ _ => isTrue trivial
  | .tell => isTrue trivial
  | .flush => isTrue trivial
  | .addFixedCache _ _ => isTrue trivial
  | .addFixedCacheNow _ _ => isTrue trivial
  | .removeFixedCache _ => isTrue trivial

/-- A window of four bytes on a file of six: a read, a seek back, a write over the window's end, and
    a flush. -/
theorem fileCache_of_fits_run_four :
    ∃ fc₀ fc t, openCache MODE_READWRITE 4 ⟨[1, 2, 3, 4, 5, 6], 0⟩ [] = some fc₀ ∧
      Run cacheStep fc₀ [(.read 2 2, .read 2 [1, 2, 3, 4]), (.seek (-1) .SEEKCUR, .code 0),
        (.write [8, 9] 1 2, .count 2), (.tell, .position 5), (.flush, .code 0)] fc ∧
      Run (plainStep (appendMode MODE_READWRITE)) ⟨[1, 2, 3, 4, 5, 6], 0⟩
        [(.read 2 2, .read 2 [1, 2, 3, 4]), (.seek (-1) .SEEKCUR, .code 0),
        (.write [8, 9] 1 2, .count 2), (.tell, .position 5), (.flush, .code 0)] t ∧
      fc.container.native.content = t.content := by
  obtain ⟨fc₀, h₀, hall⟩ := @fileCache_of_fits_run MODE_READWRITE 4
    ⟨[1, 2, 3, 4, 5, 6], 0⟩ (by decide) (by decide) (by decide) (Or.inl (by decide))
  have hsome : ((openCache MODE_READWRITE 4 ⟨[1, 2, 3, 4, 5, 6], 0⟩ []).bind fun fc₀ =>
      execAll (guarded (fun s l => l.1.WellFormed ∧ Fits s l.1) (answering call)) fc₀
        [(.read 2 2, .read 2 [1, 2, 3, 4]), (.seek (-1) .SEEKCUR, .code 0),
        (.write [8, 9] 1 2, .count 2), (.tell, .position 5), (.flush, .code 0)]).isSome := by
    decide +kernel
  rw [h₀, bind_some] at hsome
  obtain ⟨fc, hfc⟩ := isSome_iff_exists.mp hsome
  have hr := Run.of_guarded hfc
  obtain ⟨⟨t, hrun, hflush⟩, -⟩ := hall _ fc hr
  exact ⟨fc₀, fc, t, h₀, hr.of_onlyWhen, hrun, hflush ⟨[(.read 2 2, .read 2 [1, 2, 3, 4]),
    (.seek (-1) .SEEKCUR, .code 0), (.write [8, 9] 1 2, .count 2), (.tell, .position 5)], 0, rfl⟩⟩

/-- On a file of six bytes, a read of 1431655766 elements of three reads two bytes and no element:
    the byte count is 2 in 32 bits. -/
theorem read_count_wraps :
    ¬ ∀ fc₀ calls fc, openCache MODE_READWRITE 4 ⟨[1, 2, 3, 4, 5, 6], 0⟩ [] = some fc₀ →
      Run (onlyWhen (fun _ l => l.1.WellFormed) cacheStep) fc₀ calls fc →
      ∃ t, Run (plainStep (appendMode MODE_READWRITE)) ⟨[1, 2, 3, 4, 5, 6], 0⟩ calls t := by
  intro h
  have hsome : ((openCache MODE_READWRITE 4 ⟨[1, 2, 3, 4, 5, 6], 0⟩ []).bind fun fc₀ =>
      execAll (guarded (fun _ l => l.1.WellFormed) (answering call)) fc₀
        ([] ++ [(.read 3 1431655766, .read 0 [1, 2])])).isSome := by decide +kernel
  obtain ⟨fc, hfc⟩ := isSome_iff_exists.mp hsome
  obtain ⟨fc₀, h₀, hexec⟩ := bind_eq_some_iff.mp hfc
  obtain ⟨t, hr⟩ := h fc₀ _ fc h₀ (Run.of_guarded hexec)
  obtain ⟨t₁, hr₁, hs⟩ := hr.of_concat
  rw [hr₁.eq_of_nil, plainStep, stepsOf, answering_eq_some] at hs
  have hanswer : (PlainFile.call (appendMode MODE_READWRITE) ⟨[1, 2, 3, 4, 5, 6], 0⟩
      (.read 3 1431655766)).2 = .read 0 [1, 2] := congrArg Prod.snd (Option.some.inj hs)
  exact absurd hanswer (by decide +kernel)

end OpenCore.OsclIo
