/-
  File:      OpenCore/OsclIo/FileCache.lean
  Subject:   `OsclFileCache` and its buffers (oscl_file_cache.cpp), as the code computes them.

  `NativeFile` is the file below the cache; its calls do what they say and do not fail. The fields
  the buffers reach through `iContainer` are in `Container`. `_curCache` is a pointer into the
  cache or into the block of memory of `_fixedCaches`: reading through it is undefined (`none`)
  once an insertion has moved that vector to another block.
-/
import OpenCore.Lib.Run
import OpenCore.Lib.Splice
import OpenCore.Lib.Word32

namespace OpenCore.OsclIo

/-! ## 1. The native file -/

structure NativeFile where
  content : List UInt8
  position : Nat
  deriving DecidableEq, Repr

/-- The next `n` bytes, or as many as there are. -/
def NativeFile.read (f : NativeFile) (n : Nat) : NativeFile × List UInt8 :=
  let data := slice f.content f.position n
  ({ f with position := f.position + data.length }, data)

/-- A write at the position, in append mode at the end; a gap is filled with zeros. -/
def NativeFile.write (f : NativeFile) (append : Bool) (data : List UInt8) : NativeFile :=
  let start := if append then f.content.length else f.position
  { content := splice (f.content ++ List.replicate (start - f.content.length) 0) start data
    position := start + data.length }

def NativeFile.seek (f : NativeFile) (offset : Int) : NativeFile × Int :=
  if offset < 0 then (f, -1) else ({ f with position := offset.toNat }, 0)

/-! ## 2. The buffers -/

def MODE_READ : Nat := 0x0001

def MODE_READWRITE : Nat := 0x0002

def MODE_APPEND : Nat := 0x0004

def MODE_READ_PLUS : Nat := 0x0020

/-- What the buffers reach through their `OsclFileCache`. -/
structure Container where
  mode : Nat
  fileSize : Nat
  nativePosition : Int
  native : NativeFile
  deriving DecidableEq, Repr

def Container.isAppend (c : Container) : Bool := decide (c.mode &&& MODE_APPEND ≠ 0)

/-- `CallNativeSeek` to a position, which is kept as the native position. -/
def Container.seekTo (c : Container) (pos : Int) : Container × Int :=
  let r := c.native.seek pos
  if r.2 ≠ 0 then ({ c with native := r.1 }, r.2)
  else ({ c with native := r.1, nativePosition := pos }, 0)

/-- `OsclFileCacheBuffer`. -/
structure FileCacheBuffer where
  isFixed : Bool := false
  capacity : Nat := 0
  usableSize : Nat := 0
  pBuffer : List UInt8 := []
  filePosition : Nat := 0
  currentPos : Nat := 0
  endPos : Nat := 0
  updateStart : Nat := 0
  updateEnd : Nat := 0
  deriving DecidableEq, Repr

namespace FileCacheBuffer

def isUpdated (b : FileCacheBuffer) : Bool := decide (b.updateStart < b.updateEnd)

def contains (b : FileCacheBuffer) (pos : Nat) : Bool :=
  decide (b.filePosition ≤ pos) && decide (pos < b.filePosition + b.usableSize)

def preceeds (b : FileCacheBuffer) (pos : Nat) : Bool :=
  decide (b.filePosition + b.usableSize ≤ pos)

def writeUpdatesToFile (c : Container) (b : FileCacheBuffer) : Container × FileCacheBuffer × Int :=
  if b.isUpdated then
    let bytesToWrite := b.updateEnd - b.updateStart
    let pos : Int := b.filePosition + b.updateStart
    let s :=
      if c.nativePosition ≠ pos then
        if c.isAppend then ({ c with nativePosition := pos }, 0) else c.seekTo pos
      else (c, 0)
    if s.2 ≠ 0 then (s.1, b, s.2)
    else
      let data := slice b.pBuffer b.updateStart bytesToWrite
      let retval := toInt32 data.length
      let c' := { s.1 with
        native := s.1.native.write s.1.isAppend data
        nativePosition := s.1.nativePosition + retval }
      (c', { b with updateStart := 0, updateEnd := 0 },
        if toUInt32 retval = bytesToWrite then 0 else -1)
  else (c, b, 0)

def fillFromFile (c : Container) (b : FileCacheBuffer) (aStart aEnd : Nat) :
    Container × FileCacheBuffer × Int :=
  let s :=
    if b.isUpdated ∧ b.updateStart ≤ aStart ∧ aStart < b.updateEnd then writeUpdatesToFile c b
    else (c, b, 0)
  if s.2.2 ≠ 0 then s
  else
    let newpos : Int := s.2.1.filePosition + aStart
    let t := if s.1.nativePosition ≠ newpos then s.1.seekTo newpos else (s.1, 0)
    if t.2 ≠ 0 then (t.1, s.2.1, t.2)
    else
      let r := t.1.native.read (sub32 aEnd aStart)
      let nread := toInt32 r.2.length
      let b' := { s.2.1 with
        pBuffer := splice s.2.1.pBuffer aStart r.2
        endPos := add32 aStart (toUInt32 nread) }
      let c' := { t.1 with native := r.1, nativePosition := t.1.nativePosition + nread }
      -- "When reading to EOF in append mode, a subsequent native write will fail."
      let u :=
        if c'.isAppend ∧ (c'.fileSize : Int) ≤ c'.nativePosition then c'.seekTo c'.nativePosition
        else (c', 0)
      if u.2 ≠ 0 then (u.1, b', u.2)
      else (u.1, b', if b'.endPos < b'.currentPos then -1 else 0)

def prepRead (c : Container) (b : FileCacheBuffer) : Container × FileCacheBuffer × Int :=
  if b.endPos ≤ b.currentPos ∧ b.endPos < b.usableSize then fillFromFile c b b.endPos b.usableSize
  else (c, b, 0)

def prepWrite (c : Container) (b : FileCacheBuffer) : Container × FileCacheBuffer × Int :=
  if b.endPos < b.currentPos then fillFromFile c b b.endPos b.currentPos else (c, b, 0)

/-- The loop of `SetPosition` that cuts the usable size down at the first fixed cache behind. -/
def clipUsableSize (b : FileCacheBuffer) : List FileCacheBuffer → Nat
  | [] => b.usableSize
  | f :: fs =>
    if b.preceeds f.filePosition then b.usableSize
    else if b.contains f.filePosition then f.filePosition - b.filePosition
    else clipUsableSize b fs

def setPosition (fixedCaches : List FileCacheBuffer) (aNewPos : Nat) (c : Container)
    (b : FileCacheBuffer) : Container × FileCacheBuffer × Int :=
  if b.contains aNewPos then (c, { b with currentPos := aNewPos - b.filePosition }, 0)
  else if b.isFixed then (c, b, -1)
  else
    let s := if b.isUpdated then writeUpdatesToFile c b else (c, b, 0)
    if s.2.2 ≠ 0 then s
    else
      let b' := { s.2.1 with
        filePosition := aNewPos
        currentPos := 0
        endPos := 0
        usableSize := s.2.1.capacity }
      (s.1, { b' with usableSize := clipUsableSize b' fixedCaches }, 0)

/-- One round of the loop of `Write`: the data copied in at the current position. -/
def store (b : FileCacheBuffer) (data : List UInt8) : FileCacheBuffer :=
  let currentPos' := b.currentPos + data.length
  { b with
    pBuffer := splice b.pBuffer b.currentPos data
    updateStart :=
      if b.updateEnd = b.updateStart then b.currentPos
      else if b.currentPos < b.updateStart then b.currentPos else b.updateStart
    updateEnd :=
      if b.updateEnd = b.updateStart then currentPos'
      else if b.updateEnd < currentPos' then currentPos' else b.updateEnd
    currentPos := currentPos'
    endPos := if b.endPos < currentPos' then currentPos' else b.endPos }

end FileCacheBuffer

open FileCacheBuffer

/-! ## 3. The cache -/

/-- `OsclFixedCacheParam`. -/
structure FixedCacheParam where
  iFilePosition : Nat
  iSize : Nat
  deriving DecidableEq, Repr

def FixedCacheParam.contains (p : FixedCacheParam) (pos : Nat) : Bool :=
  decide (p.iFilePosition ≤ pos) && decide (pos < p.iFilePosition + p.iSize)

/-- `Oscl_Vector`, with the number of the memory block its elements are in. -/
structure CacheVector where
  elems : List FileCacheBuffer := []
  bufsize : Nat := 0
  block : Nat := 0
  deriving DecidableEq, Repr

/-- `reserve` of twice the size where the block is full. -/
def CacheVector.grow (v : CacheVector) : CacheVector :=
  if v.elems.length = v.bufsize then
    { v with bufsize := if v.bufsize = 0 then 2 else 2 * v.bufsize, block := v.block + 1 }
  else v

/-- `insert` in front of element `i`; `push_back` where there is none. -/
def CacheVector.insert (v : CacheVector) (i : Nat) (x : FileCacheBuffer) : CacheVector :=
  { v.grow with elems := v.elems.take i ++ x :: v.elems.drop i }

/-- `_curCache`. -/
inductive CachePtr where
  | null
  | movable
  | fixed (block i : Nat)
  deriving DecidableEq, Repr

/-- `OsclFileCache`, with the requests that wait in its `Oscl_File`; a waiting fixed cache comes
    with the answer the memory allocation will give it. -/
structure FileCache where
  container : Container
  movableCache : FileCacheBuffer
  fixedCaches : CacheVector
  curCache : CachePtr
  iAddFixedCache : List (FixedCacheParam × Bool)
  iRemoveFixedCache : List Nat
  deriving DecidableEq, Repr

namespace FileCache

/-- What `_curCache` points to. -/
def cur (fc : FileCache) : Option FileCacheBuffer :=
  match fc.curCache with
  | .null => none
  | .movable => some fc.movableCache
  | .fixed block i => if block = fc.fixedCaches.block then fc.fixedCaches.elems[i]? else none

def setCur (fc : FileCache) (b : FileCacheBuffer) : FileCache :=
  match fc.curCache with
  | .null => fc
  | .movable => { fc with movableCache := b }
  | .fixed _ i =>
    { fc with fixedCaches := { fc.fixedCaches with elems := fc.fixedCaches.elems.set i b } }

/-- A method of `*_curCache`. -/
def onCur (fc : FileCache)
    (f : Container → FileCacheBuffer → Container × FileCacheBuffer × Int) :
    Option (FileCache × Int) :=
  fc.cur.map fun b =>
    let r := f fc.container b
    ({ fc with container := r.1 }.setCur r.2.1, r.2.2)

def tell (fc : FileCache) : Option Nat :=
  if fc.curCache = .null then some 0 else fc.cur.map fun b => b.filePosition + b.currentPos

/-- `OsclFileCache::AddFixedCache`; `mallocOk` says whether it gets its memory, and the answer
    whether it returns a buffer. -/
def addFixedCache (fc : FileCache) (aParam : FixedCacheParam) (mallocOk : Bool) :
    FileCache × Bool :=
  let s :=
    if fc.movableCache.contains aParam.iFilePosition ∨
        aParam.contains fc.movableCache.filePosition then
      let w :=
        if fc.movableCache.isUpdated then writeUpdatesToFile fc.container fc.movableCache
        else (fc.container, fc.movableCache, 0)
      if w.2.2 ≠ 0 then w
      else
        (w.1, { w.2.1 with
          endPos := 0
          currentPos := 0
          filePosition := 0
          usableSize := w.2.1.capacity }, 0)
    else (fc.container, fc.movableCache, 0)
  let fc' := { fc with container := s.1, movableCache := s.2.1 }
  if s.2.2 ≠ 0 ∨ mallocOk = false then (fc', false)
  else
    let entry : FileCacheBuffer :=
      { isFixed := true
        pBuffer := List.replicate aParam.iSize 0
        capacity := aParam.iSize
        usableSize := aParam.iSize
        filePosition := aParam.iFilePosition }
    let insertIndex := fc'.fixedCaches.elems.findIdx fun f =>
      decide (entry.filePosition ≤ f.filePosition)
    ({ fc' with fixedCaches := fc'.fixedCaches.insert insertIndex entry }, true)

/-- The search and the removal for one entry of `iRemoveFixedCache`. The search ends at the first
    cache in front of the position. -/
def removeFixedCache (c : Container) (pos : Nat) :
    List FileCacheBuffer → Container × List FileCacheBuffer × Int
  | [] => (c, [], 0)
  | f :: fs =>
    if f.filePosition < pos then (c, f :: fs, 0)
    else if f.filePosition = pos then
      let r := if f.isUpdated then writeUpdatesToFile c f else (c, f, 0)
      (r.1, fs, r.2.2)
    else
      let r := removeFixedCache c pos fs
      (r.1, f :: r.2.1, r.2.2)

/-- `UpdateFixedCaches`. -/
def updateFixedCaches (fc : FileCache) : FileCache × Int :=
  let r := fc.iRemoveFixedCache.foldl
    (fun (s : FileCache × Int) pos =>
      let r := removeFixedCache s.1.container pos s.1.fixedCaches.elems
      ({ s.1 with
        container := r.1
        fixedCaches := { s.1.fixedCaches with elems := r.2.1 } },
        if r.2.2 ≠ 0 then r.2.2 else s.2))
    (fc, 0)
  let a := fc.iAddFixedCache.foldl
    (fun (s : FileCache × Int) p =>
      let r := s.1.addFixedCache p.1 p.2
      (r.1, if r.2 then s.2 else -1))
    r
  ({ a.1 with iAddFixedCache := [], iRemoveFixedCache := [] }, a.2)

/-- The search of `SetCachePosition` for a fixed cache. -/
def findFixedCache (aPos : Nat) : List FileCacheBuffer → Option Nat
  | [] => none
  | f :: fs =>
    if aPos < f.filePosition then none
    else if f.contains aPos then some 0
    else (findFixedCache aPos fs).map (· + 1)

def setCachePosition (fc : FileCache) (aPos : Nat) : Option (FileCache × Int) :=
  let u :=
    if fc.iAddFixedCache ≠ [] ∨ fc.iRemoveFixedCache ≠ [] then fc.updateFixedCaches else (fc, 0)
  if u.2 ≠ 0 then some u
  else
    let fc' :=
      match findFixedCache aPos u.1.fixedCaches.elems with
      | some i => { u.1 with curCache := .fixed u.1.fixedCaches.block i }
      | none => { u.1 with curCache := .movable }
    fc'.onCur (setPosition fc'.fixedCaches.elems aPos)

/-! ## 4. The calls -/

/-- The loop of `Read`, with the bytes not read and the bytes handed out so far. A round copies
    bytes or follows a refill that gave some, so it has no more than two rounds a byte. -/
def readLoop : Nat → FileCache → Nat → List UInt8 → Option (FileCache × Nat × List UInt8)
  | 0, _, _, _ => none
  | fuel + 1, fc, bytesToRead, destBuf =>
    if bytesToRead = 0 then some (fc, 0, destBuf)
    else
      fc.cur.bind fun b =>
        let bytesInCache := sub32 b.endPos b.currentPos
        if 0 < bytesInCache then
          let thisRead := if bytesToRead < bytesInCache then bytesToRead else bytesInCache
          readLoop fuel (fc.setCur { b with currentPos := b.currentPos + thisRead })
            (bytesToRead - thisRead) (destBuf ++ slice b.pBuffer b.currentPos thisRead)
        else
          (fc.setCachePosition (b.filePosition + b.currentPos)).bind fun s =>
            if s.2 ≠ 0 then some (s.1, bytesToRead, destBuf)
            else
              (s.1.onCur prepRead).bind fun p =>
                if p.2 ≠ 0 then some (p.1, bytesToRead, destBuf)
                else
                  p.1.cur.bind fun b' =>
                    if sub32 b'.endPos b'.currentPos = 0 then some (p.1, bytesToRead, destBuf)
                    else readLoop fuel p.1 bytesToRead destBuf

def canRead (mode : Nat) : Bool :=
  decide (mode &&& MODE_READWRITE ≠ 0 ∨ mode &&& MODE_READ ≠ 0 ∨ mode &&& MODE_APPEND ≠ 0 ∨
    mode &&& MODE_READ_PLUS ≠ 0)

def canWrite (mode : Nat) : Bool :=
  decide (mode &&& MODE_READWRITE ≠ 0 ∨ mode &&& MODE_APPEND ≠ 0 ∨ mode &&& MODE_READ_PLUS ≠ 0)

/-- `Read`: the number of elements, and the bytes in the output buffer. -/
def read (fc : FileCache) (size numelements : Nat) : Option (FileCache × Nat × List UInt8) :=
  if canRead fc.container.mode then
    fc.tell.bind fun pos =>
      let bytesLeftInFile := toUInt32 ((fc.container.fileSize : Int) - pos)
      let n :=
        if bytesLeftInFile < mul32 numelements size then bytesLeftInFile / size else numelements
      let bytesToRead := mul32 n size
      (if bytesToRead ≠ 0 then fc.onCur prepRead else some (fc, 0)).bind fun p =>
        if p.2 ≠ 0 then some (p.1, 0, [])
        else
          (readLoop (2 * bytesToRead + 2) p.1 bytesToRead []).map fun r =>
            (r.1, if size = 0 then 0 else sub32 (mul32 size n) r.2.1 / size, r.2.2)
  else some (fc, 0, [])

/-- The virtual file size behind a round of the loop of `Write`. -/
def extendFileSize (fc : FileCache) (b : FileCacheBuffer) : FileCache :=
  if fc.container.fileSize < b.filePosition + b.endPos then
    { fc with container := { fc.container with fileSize := b.filePosition + b.endPos } }
  else fc

/-- The loop of `Write`, with the bytes not written. -/
def writeLoop : Nat → FileCache → Nat → List UInt8 → Option (FileCache × Nat)
  | 0, _, _, _ => none
  | fuel + 1, fc, bytesToWrite, srcBuf =>
    if bytesToWrite = 0 then some (fc, 0)
    else
      fc.cur.bind fun b =>
        let spaceInCache := sub32 b.usableSize b.currentPos
        if 0 < spaceInCache then
          let thisWrite := if bytesToWrite < spaceInCache then bytesToWrite else spaceInCache
          let b' := b.store (srcBuf.take thisWrite)
          writeLoop fuel ((fc.setCur b').extendFileSize b') (bytesToWrite - thisWrite)
            (srcBuf.drop thisWrite)
        else
          (fc.setCachePosition (b.filePosition + b.currentPos)).bind fun s =>
            if s.2 ≠ 0 then some (s.1, bytesToWrite)
            else
              (s.1.onCur prepWrite).bind fun p =>
                if p.2 ≠ 0 then some (p.1, bytesToWrite)
                else writeLoop fuel p.1 bytesToWrite srcBuf

/-- `Write`: the number of elements. -/
def write (fc : FileCache) (inputBuffer : List UInt8) (size numelements : Nat) :
    Option (FileCache × Nat) :=
  if canWrite fc.container.mode then
    (if fc.container.isAppend then
        fc.tell.bind fun pos =>
          if pos ≠ fc.container.fileSize then fc.setCachePosition fc.container.fileSize
          else some (fc, 0)
      else some (fc, 0)).bind fun s =>
        if s.2 ≠ 0 then some (s.1, 0)
        else
          (s.1.onCur prepWrite).bind fun p =>
            if p.2 ≠ 0 then some (p.1, 0)
            else
              let bytesToWrite := mul32 size numelements
              (writeLoop (2 * bytesToWrite + 2) p.1 bytesToWrite inputBuffer).map fun r =>
                (r.1, if size = 0 then 0 else sub32 (mul32 size numelements) r.2 / size)
  else some (fc, 0)

inductive SeekType where
  | SEEKSET
  | SEEKCUR
  | SEEKEND
  deriving DecidableEq, Repr

/-- The position a seek is trying to go to. -/
def seekTarget (fc : FileCache) (offset : Int) : SeekType → Option Int
  | .SEEKCUR => fc.tell.map fun (pos : Nat) => (pos : Int) + offset
  | .SEEKSET => some offset
  | .SEEKEND => some (fc.container.fileSize + offset)

def seek (fc : FileCache) (offset : Int) (origin : SeekType) : Option (FileCache × Int) :=
  (fc.seekTarget offset origin).bind fun pos =>
    if pos < 0 ∨ (fc.container.fileSize : Int) < pos then some (fc, -1)
    else
      fc.cur.bind fun b =>
        if b.contains pos.toNat then
          some (fc.setCur { b with currentPos := pos.toNat - b.filePosition }, 0)
        else fc.setCachePosition pos.toNat

/-- The loop of `Flush` over the fixed caches: what is left of them, the first error, and whether
    anything was written. -/
def flushFixedCaches (c : Container) :
    List FileCacheBuffer → Container × List FileCacheBuffer × Int × Bool
  | [] => (c, [], 0, false)
  | f :: fs =>
    if f.isUpdated then
      let w := writeUpdatesToFile c f
      if w.2.2 ≠ 0 then (w.1, w.2.1 :: fs, w.2.2, false)
      else
        let r := flushFixedCaches w.1 fs
        (r.1, w.2.1 :: r.2.1, r.2.2.1, true)
    else
      let r := flushFixedCaches c fs
      (r.1, f :: r.2.1, r.2.2)

def flush (fc : FileCache) : FileCache × Int :=
  let w :=
    if fc.movableCache.isUpdated then writeUpdatesToFile fc.container fc.movableCache
    else (fc.container, fc.movableCache, 0)
  let fc' := { fc with container := w.1, movableCache := w.2.1 }
  if w.2.2 ≠ 0 then (fc', w.2.2)
  else
    let r := flushFixedCaches w.1 fc.fixedCaches.elems
    let fc'' := { fc' with
      container := r.1
      fixedCaches := { fc.fixedCaches with elems := r.2.1 } }
    if r.2.2.1 ≠ 0 then (fc'', r.2.2.1)
    else if fc.movableCache.isUpdated ∨ r.2.2.2 then
      ({ fc'' with container := { r.1 with nativePosition := r.1.native.position } }, 0)
    else (fc'', 0)

/-- `Open` of a new cache on a file just opened, with the fixed caches already requested. -/
def openCache (mode size : Nat) (native : NativeFile) (adds : List (FixedCacheParam × Bool)) :
    Option FileCache :=
  let fc : FileCache :=
    { container := { mode := mode, fileSize := 0, nativePosition := 0, native := native }
      movableCache :=
        { capacity := size, usableSize := size, pBuffer := List.replicate size 0 }
      fixedCaches := {}
      curCache := .null
      iAddFixedCache := adds
      iRemoveFixedCache := [] }
  (fc.setCachePosition 0).map fun r =>
    { r.1 with
      container :=
        { r.1.container with
          fileSize := native.content.length
          nativePosition := native.position } }

end FileCache

/-! ## 5. The machine -/

inductive FileRequest where
  | read (size numelements : Nat)
  | write (inputBuffer : List UInt8) (size numelements : Nat)
  | seek (offset : Int) (origin : FileCache.SeekType)
  | tell
  | flush
  /-- `Oscl_File::AddFixedCache`: done by the next `SetCachePosition` -/
  | addFixedCache (aParam : FixedCacheParam) (mallocOk : Bool)
  /-- `OsclFileCache::AddFixedCache` -/
  | addFixedCacheNow (aParam : FixedCacheParam) (mallocOk : Bool)
  /-- `Oscl_File::RemoveFixedCache` -/
  | removeFixedCache (aPos : Nat)
  deriving DecidableEq

inductive FileAnswer where
  | read (count : Nat) (outputBuffer : List UInt8)
  | count (n : Nat)
  | code (err : Int)
  | position (pos : Nat)
  | added (ok : Bool)
  | done
  deriving DecidableEq, Repr

/-- A call with its answer; the input buffer of `Write` has the size the call says. -/
def FileCache.call (fc : FileCache) : FileRequest → Option (FileCache × FileAnswer)
  | .read size numelements =>
    (fc.read size numelements).map fun r => (r.1, .read r.2.1 r.2.2)
  | .write inputBuffer size numelements =>
    if inputBuffer.length = size * numelements then
      (fc.write inputBuffer size numelements).map fun r => (r.1, .count r.2)
    else none
  | .seek offset origin => (fc.seek offset origin).map fun r => (r.1, .code r.2)
  | .tell => fc.tell.map fun pos => (fc, .position pos)
  | .flush => let r := fc.flush; some (r.1, .code r.2)
  | .addFixedCache aParam mallocOk =>
    some ({ fc with iAddFixedCache := fc.iAddFixedCache ++ [(aParam, mallocOk)] }, .done)
  | .addFixedCacheNow aParam mallocOk =>
    let r := fc.addFixedCache aParam mallocOk
    some (r.1, .added r.2)
  | .removeFixedCache aPos =>
    some ({ fc with iRemoveFixedCache := fc.iRemoveFixedCache ++ [aPos] }, .done)

/-- The calls of the machine. -/
def cacheStep : FileCache → FileRequest × FileAnswer → FileCache → Prop :=
  stepsOf (answering FileCache.call)

end OpenCore.OsclIo
