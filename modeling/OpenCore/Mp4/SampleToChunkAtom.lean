/-
  File:      OpenCore/Mp4/SampleToChunkAtom.lean
  Subject:   `SampleToChunkAtom` (sampletochunkatom.cpp): the two ways a table is loaded, the queries
             that scan it from its start, and the walk that goes through it sample by sample.

  Unlike the other table atoms this one drops entries: an entry whose `first_chunk` does not exceed
  the one kept before is skipped. The constructor that reads all entries does so over the whole
  table; `ParseEntryUnit` starts its comparison anew at every call, and an entry it skips counts
  neither as parsed nor as read: the loop may read on behind the table, or, at the head of a
  window, seek back to the same entry for ever.

  Loops that may not end give `none`.
-/
import OpenCore.Mp4.ChunkOffsetAtom

namespace OpenCore.Mp4

/-! ## 1. The table in its file -/

/-- An open file: the word of 32 bits at every position, and the size. -/
structure Mp4File where
  fileSize : Nat
  word : Nat → UInt32

def Mp4File.read32 (fp : Mp4File) (pos : Nat) : Option UInt32 :=
  if pos + 4 ≤ fp.fileSize then some (fp.word pos) else none

/-- A run of chunks. -/
structure SampleToChunkEntry where
  firstChunk : UInt32
  samplesPerChunk : UInt32
  sampleDescrIndex : UInt32
  deriving DecidableEq, Repr

/-- The three words of an entry; where one cannot be read, the position of that word. -/
def Mp4File.readEntry (fp : Mp4File) (pos : Nat) : Except Nat SampleToChunkEntry :=
  match fp.read32 pos with
  | none => .error pos
  | some firstChunk =>
    match fp.read32 (pos + 4) with
    | none => .error (pos + 4)
    | some samplesPerChunk =>
      match fp.read32 (pos + 8) with
      | none => .error (pos + 8)
      | some sampleDescrIndex => .ok ⟨firstChunk, samplesPerChunk, sampleDescrIndex⟩

/-- A table that fits its atom: the `16 + 12 * entryCount` bytes are counted by a `uint32`, and the
    atom lies in its file. -/
structure SampleToChunkTable where
  file : Mp4File
  headOffset : Nat
  entryCount : UInt32
  inAtom : 16 + 12 * entryCount.toNat < 4294967296
  inFile : headOffset + 12 * entryCount.toNat ≤ file.fileSize

namespace SampleToChunkTable

variable (T : SampleToChunkTable)

/-- `first_chunk` of entry `k` as it stands in the file. -/
def firstChunkAt (k : Nat) : UInt32 := T.file.word (T.headOffset + k * 12)

/-- The entries as `ParseEntryUnit` stores them. -/
def entryFile : EntryFile SampleToChunkEntry where
  headOffset := T.headOffset
  entrySize := 12
  readAt := fun k pos =>
    { firstChunk := T.file.word pos - if k = 0 then T.file.word pos else 1
      samplesPerChunk := T.file.word (pos + 4)
      sampleDescrIndex := T.file.word (pos + 8) }

/-! ## 2. Loading the table -/

/-- The loop of the constructor that reads all entries, `n` left, the next one `i`: how many are
    kept, the arrays, and where the last read ended. -/
def readAll : Nat → Nat → UInt32 → UInt32 → Nat → (Nat → SampleToChunkEntry) →
    Nat × (Nat → SampleToChunkEntry) × Nat
  | 0, i, _, _, j, vec => (j, vec, T.entryFile.posOf i)
  | n + 1, i, offSet, prevFirstChunk, j, vec =>
    match T.file.readEntry (T.entryFile.posOf i) with
    | .error pos => (j, vec, pos)
    | .ok e =>
      let offSet := if i = 0 then e.firstChunk else offSet
      if e.firstChunk > prevFirstChunk then
        readAll n (i + 1) offSet e.firstChunk (j + 1)
          (Function.update vec j { e with firstChunk := e.firstChunk - offSet })
      else readAll n (i + 1) offSet prevFirstChunk j vec

/-- The table behind that loop; `vec` is what the new arrays hold. The buffer keeps the size of the
    table in the file. -/
def whole (vec : Nat → SampleToChunkEntry) : StblTable SampleToChunkEntry where
  entryCount := (T.readAll T.entryCount.toNat 0 0 0 0 vec).1
  stblBuffSize := T.entryCount.toNat
  parsedEntryCnt := 0
  currEntryPoint := 0
  currBuffNumber := 0
  nextBuffNumber := 0
  stblFptrVec := fun _ => 0
  filePos := (T.readAll T.entryCount.toNat 0 0 0 0 vec).2.2
  consumed := (T.readAll T.entryCount.toNat 0 0 0 0 vec).2.2
  vec := (T.readAll T.entryCount.toNat 0 0 0 0 vec).2.1

/-- One turn of the loop of `ParseEntryUnit`, and `prevFirstChunk` behind it: none where a read
    failed and the loop breaks. -/
def parseTurn (prevFirstChunk : UInt32) (t : StblTable SampleToChunkEntry) :
    StblTable SampleToChunkEntry × Option UInt32 :=
  let point := t.parsedEntryCnt % t.stblBuffSize
  let number := t.parsedEntryCnt / t.stblBuffSize
  let fptrs :=
    if number = t.nextBuffNumber then Function.update t.stblFptrVec number t.filePos
    else t.stblFptrVec
  let next := if number = t.nextBuffNumber then t.nextBuffNumber + 1 else t.nextBuffNumber
  let pos := if point = 0 then fptrs number else t.filePos
  match T.file.readEntry pos with
  | .error pos =>
    ({ t with
        currEntryPoint := point
        currBuffNumber := number
        nextBuffNumber := next
        stblFptrVec := fptrs
        filePos := pos
        consumed := max t.consumed pos }, none)
  | .ok e =>
    let offSet := if t.parsedEntryCnt = 0 then e.firstChunk else 1
    if e.firstChunk > prevFirstChunk then
      ({ t with
          parsedEntryCnt := t.parsedEntryCnt + 1
          currEntryPoint := point
          currBuffNumber := number
          nextBuffNumber := next
          stblFptrVec := fptrs
          filePos := pos + 12
          consumed := max t.consumed (pos + 12)
          vec := Function.update t.vec point
            { e with firstChunk := e.firstChunk - offSet } }, some e.firstChunk)
    else
      -- the entry is dropped, and not counted as parsed
      ({ t with
          currEntryPoint := point
          currBuffNumber := number
          nextBuffNumber := next
          stblFptrVec := fptrs
          filePos := pos + 12
          consumed := max t.consumed (pos + 12) }, some prevFirstChunk)

/-- `while (_parsed_entry_cnt < sample_cnt)`. -/
def parseLoop (sample_cnt : Nat) :
    Nat → UInt32 → StblTable SampleToChunkEntry → Option (StblTable SampleToChunkEntry)
  | 0, _, _ => none
  | fuel + 1, prevFirstChunk, t =>
    if t.parsedEntryCnt < sample_cnt then
      match T.parseTurn prevFirstChunk t with
      | (t, none) => some t
      | (t, some prevFirstChunk) => parseLoop sample_cnt fuel prevFirstChunk t
    else some t

/-- More turns than a loop that ends can make: between two entries kept, each turn reads 12 bytes
    further on in the file, or the loop stands at a window's head and repeats itself. -/
def parseFuel (sample_cnt : Nat) : Nat := (sample_cnt + 1) * (T.file.fileSize + 2)

/-- `ParseEntryUnit`. -/
def parseEntryUnit (sample_cnt : Nat) (t : StblTable SampleToChunkEntry) :
    Option (StblTable SampleToChunkEntry) :=
  let upTo := add32 sample_cnt tableEntriesThresholdFile
  let upTo := if upTo > t.entryCount then t.entryCount else upTo
  T.parseLoop upTo (T.parseFuel upTo) 0 t

/-- `while (_parsed_entry_cnt <= i) ParseEntryUnit(_parsed_entry_cnt);` A call that parses nothing
    is repeated for ever. -/
def refill (i : Nat) :
    Nat → StblTable SampleToChunkEntry → Option (StblTable SampleToChunkEntry)
  | 0, _ => none
  | fuel + 1, t =>
    if t.parsedEntryCnt ≤ i then
      (T.parseEntryUnit t.parsedEntryCnt t).bind (refill i fuel)
    else some t

/-- `CheckAndParseEntry`. -/
def checkAndParseEntry (i : Nat) (t : StblTable SampleToChunkEntry) :
    Option (StblTable SampleToChunkEntry) :=
  if t.parsedEntryCnt ≤ i then T.parseEntryUnit i t
  else if t.currBuffNumber ≠ i / t.stblBuffSize then
    T.refill i (i + 2) { t with parsedEntryCnt := i / t.stblBuffSize * t.stblBuffSize }
  else some t

/-- `if (_parsing_mode == 1) CheckAndParseEntry(i);` -/
def fetch (parsingMode : Bool) (i : Nat) (t : StblTable SampleToChunkEntry) :
    Option (StblTable SampleToChunkEntry) :=
  if parsingMode then T.checkAndParseEntry i t else some t

/-! ## 3. The scans from the table's start -/

/-- How often `for (int32 j = 0; j < (int32)numChunksInRun; j++)` turns. -/
def turns (numChunksInRun : UInt32) : Nat := numChunksInRun.toInt32.toInt.toNat

/-- More turns than there are values of a `uint32`. -/
def wordFuel : Nat := 4294967297

/-- The loop over the chunks of a run: the sample count behind it, and the chunk of the sample. -/
def inRun (sampleNum samplesPerChunkInRun : UInt32) :
    Nat → UInt32 → UInt32 → UInt32 × Option UInt32
  | 0, _, sampleCount => (sampleCount, none)
  | n + 1, j, sampleCount =>
    let sampleCount := sampleCount + samplesPerChunkInRun
    if sampleNum < sampleCount then (sampleCount, some j)
    else inRun sampleNum samplesPerChunkInRun n (j + 1) sampleCount

/-- `for_ever`: the loop over the last run of `getSamplesPerChunkCorrespondingToSample`. -/
def inLastRunForEver (sampleNum samplesPerChunkInRun : UInt32) :
    Nat → UInt32 → UInt32 → Option (Option UInt32)
  | 0, _, _ => none
  | fuel + 1, k, sampleCount =>
    let sampleCount := sampleCount + samplesPerChunkInRun
    if sampleNum < sampleCount then some (some k)
    else inLastRunForEver sampleNum samplesPerChunkInRun fuel (k + 1) sampleCount

/-- `while (sampleNum >= sampleCount)`: the loop over the last run of `getChunkNumberForSample`. -/
def inLastRun (sampleNum samplesPerChunkInRun : UInt32) :
    Nat → UInt32 → UInt32 → Option (Option UInt32)
  | 0, _, _ => none
  | fuel + 1, k, sampleCount =>
    if sampleCount ≤ sampleNum then
      let sampleCount := sampleCount + samplesPerChunkInRun
      if sampleNum < sampleCount then some (some k)
      else inLastRun sampleNum samplesPerChunkInRun fuel (k + 1) sampleCount
    else some none

/-- Where a scan found a sample: the run, the chunk, the samples in each chunk of the run. -/
structure Found where
  run : Nat
  chunkNumber : UInt32
  samplesPerChunk : UInt32
  deriving DecidableEq, Repr

/-- The scan of `getChunkNumberForSample` and `getSamplesPerChunkCorrespondingToSample`, which
    differ in their loops over the last run, `n` runs left from `i` on. -/
def sampleScan (parsingMode : Bool)
    (lastRun : UInt32 → UInt32 → Nat → UInt32 → UInt32 → Option (Option UInt32))
    (sampleNum : UInt32) :
    Nat → Nat → UInt32 → StblTable SampleToChunkEntry →
      Option (StblTable SampleToChunkEntry × Option Found)
  | 0, _, _, t => some (t, none)
  | n + 1, i, sampleCount, t =>
    (T.fetch parsingMode i t).bind fun t =>
      let chunkNum := (t.slot i).firstChunk
      let samplesPerChunkInRun := (t.slot i).samplesPerChunk
      if i + 1 < t.entryCount then
        (T.fetch parsingMode (i + 1) t).bind fun t =>
          let numChunksInRun := (t.slot (i + 1)).firstChunk - chunkNum
          let count := sampleCount + samplesPerChunkInRun * numChunksInRun
          if count < sampleNum then
            sampleScan parsingMode lastRun sampleNum n (i + 1) count t
          else
            match inRun sampleNum samplesPerChunkInRun (turns numChunksInRun) 0 sampleCount with
            | (_, some j) => some (t, some ⟨i, chunkNum + j, samplesPerChunkInRun⟩)
            | (sampleCount, none) =>
              sampleScan parsingMode lastRun sampleNum n (i + 1) sampleCount t
      else
        (lastRun sampleNum samplesPerChunkInRun wordFuel 0 sampleCount).bind fun found =>
          match found with
          | some k => some (t, some ⟨i, chunkNum + k, samplesPerChunkInRun⟩)
          | none => sampleScan parsingMode lastRun sampleNum n (i + 1) sampleCount t

/-- The loop of `getFirstSampleNumInChunk`, `n` runs left from `i` on. -/
def firstSampleScan (parsingMode : Bool) (chunkNum : UInt32) :
    Nat → Nat → UInt32 → UInt32 → StblTable SampleToChunkEntry →
      Option (StblTable SampleToChunkEntry × Option UInt32)
  | 0, _, _, _, t => some (t, none)
  | n + 1, i, firstSample, samplesInRun, t =>
    (T.fetch parsingMode i t).bind fun t =>
      let firstChunkCurrentRun := (t.slot i).firstChunk
      if chunkNum < firstChunkCurrentRun then
        -- the chunk lies in the run before
        (T.fetch parsingMode (sub32 i 1) t).bind fun t =>
          let e := t.slot (sub32 i 1)
          let sampleOffset := (chunkNum - e.firstChunk) * e.samplesPerChunk
          some (t, some (firstSample - samplesInRun + sampleOffset))
      else if chunkNum = firstChunkCurrentRun then some (t, some firstSample)
      else if i + 1 < t.entryCount then
        (T.fetch parsingMode (i + 1) t).bind fun t =>
          let numChunks := (t.slot (i + 1)).firstChunk - firstChunkCurrentRun
          let samplesInRun := (t.slot i).samplesPerChunk * numChunks
          firstSampleScan parsingMode chunkNum n (i + 1) (firstSample + samplesInRun)
            samplesInRun t
      else
        let e := t.slot i
        let sampleOffset := (chunkNum - e.firstChunk) * e.samplesPerChunk
        some (t, some (firstSample + sampleOffset))

/-! ## 4. The position of the walk -/

/-- The members `_majorGetIndex` to `_currGetSDI`, and their likes for `Peek`. -/
structure Cursor where
  majorIndex : Nat
  currChunk : Int32
  numChunksInRun : Int32
  currSampleCount : UInt32
  firstSampleInCurrChunk : Int32
  numSamplesPerChunk : Int32
  currSDI : Int32
  deriving DecidableEq, Repr

/-- The values the constructor and the resets start from. -/
def Cursor.start : Cursor where
  majorIndex := 0
  currChunk := -1
  numChunksInRun := 0
  currSampleCount := 0
  firstSampleInCurrChunk := 0
  numSamplesPerChunk := 0
  currSDI := 0

/-- The loop over the chunks of a run in `resetStateVariables`: whether the sample is in the run,
    and the sample count behind the loop. -/
def resetRun (sampleNum chunkNum samplesPerChunkInRun : UInt32) :
    Nat → UInt32 → UInt32 → Cursor → Cursor × UInt32 × Bool
  | 0, _, sampleCount, c => (c, sampleCount, false)
  | n + 1, j, sampleCount, c =>
    let c := { c with
      firstSampleInCurrChunk := sampleCount.toInt32
      numSamplesPerChunk := samplesPerChunkInRun.toInt32 }
    let sampleCount := sampleCount + samplesPerChunkInRun
    if sampleNum < sampleCount then
      ({ c with
          currSampleCount := sampleCount
          currChunk := (chunkNum + j).toInt32 }, sampleCount, true)
    else
      resetRun sampleNum chunkNum samplesPerChunkInRun n (j + 1) sampleCount
        { c with numChunksInRun := c.numChunksInRun - 1 }

/-- The loop over the last run in `resetStateVariables`. -/
def resetLastRun (sampleNum chunkNum samplesPerChunkInRun : UInt32) :
    Nat → UInt32 → UInt32 → Cursor → Option (Cursor × Bool)
  | 0, _, _, _ => none
  | fuel + 1, k, sampleCount, c =>
    if sampleCount ≤ sampleNum then
      let c := { c with
        firstSampleInCurrChunk := sampleCount.toInt32
        numSamplesPerChunk := samplesPerChunkInRun.toInt32 }
      let sampleCount := sampleCount + samplesPerChunkInRun
      if sampleNum < sampleCount then
        some ({ c with
          currSampleCount := sampleCount
          currChunk := (chunkNum + k).toInt32 }, true)
      else resetLastRun sampleNum chunkNum samplesPerChunkInRun fuel (k + 1) sampleCount c
    else some (c, false)

/-- The loop of `resetStateVariables(sampleNum)`: the table, the cursor, `_numChunksInRun`, and
    whether the sample was found. -/
def resetScan (parsingMode : Bool) (sampleNum : UInt32) :
    Nat → Nat → UInt32 → StblTable SampleToChunkEntry → Cursor → Int32 →
      Option (StblTable SampleToChunkEntry × Cursor × Int32 × Bool)
  | 0, _, _, t, c, numChunks => some (t, c, numChunks, false)
  | n + 1, i, sampleCount, t, c, numChunks =>
    (T.fetch parsingMode (i + 1) t).bind fun t =>
      let e := t.slot i
      if i + 1 < t.entryCount then
        let numChunksInRun := (t.slot (i + 1)).firstChunk - e.firstChunk
        let count := sampleCount + e.samplesPerChunk * numChunksInRun
        if count < sampleNum then
          resetScan parsingMode sampleNum n (i + 1) count t c numChunks
        else
          match resetRun sampleNum e.firstChunk e.samplesPerChunk (turns numChunksInRun) 0
            sampleCount { c with numChunksInRun := numChunksInRun.toInt32 } with
          | (c, _, true) =>
            some (t, { c with majorIndex := i, currSDI := e.sampleDescrIndex.toInt32 },
              numChunksInRun.toInt32, true)
          | (c, sampleCount, false) =>
            resetScan parsingMode sampleNum n (i + 1) sampleCount t c numChunks
      else
        (resetLastRun sampleNum e.firstChunk e.samplesPerChunk wordFuel 0 sampleCount c).bind
          fun r =>
            match r with
            | (c, true) =>
              some (t, { c with
                majorIndex := i
                numChunksInRun := 1
                currSDI := e.sampleDescrIndex.toInt32 }, 1, true)
            | (c, false) =>
              resetScan parsingMode sampleNum n (i + 1) sampleCount t c numChunks

/-- What a step of the walk leaves: the table, the cursor, `_numChunksInRun`, and what the call
    returns and sets. -/
structure Step where
  table : StblTable SampleToChunkEntry
  cursor : Cursor
  numChunksInRun : Int32
  answer : Mp4ErrorCode × Option UInt32

/-- `if (sampleNum < _currGetSampleCount)`, as it stands behind each move. -/
def Cursor.answer (sampleNum : UInt32) (c : Cursor) : Mp4ErrorCode × Option UInt32 :=
  if sampleNum < c.currSampleCount then (.everythingFine, some c.currChunk.toUInt32)
  else (.readSampleToChunkAtomFailed, none)

/-- A cursor at the first sample of the next chunk. -/
def Cursor.nextChunk (c : Cursor) : Cursor :=
  { c with
    firstSampleInCurrChunk := c.currSampleCount.toInt32
    currSampleCount := c.currSampleCount + c.numSamplesPerChunk.toUInt32
    currChunk := c.currChunk + 1 }

/-- A cursor that has loaded a run. -/
def Cursor.load (c : Cursor) (e : SampleToChunkEntry) : Cursor :=
  { c with
    numSamplesPerChunk := e.samplesPerChunk.toInt32
    currSDI := e.sampleDescrIndex.toInt32 }

/-- The body of `getChunkNumberForSampleGet` and `getChunkNumberForSamplePeek`. -/
def advance (parsingMode : Bool) (sampleNum : UInt32) (numChunks : Int32) (c : Cursor)
    (t : StblTable SampleToChunkEntry) : Option Step :=
  (T.fetch parsingMode c.majorIndex t).bind fun t =>
    if sampleNum < c.currSampleCount then
      some ⟨t, c, numChunks, .everythingFine, some c.currChunk.toUInt32⟩
    else if 1 < c.numChunksInRun then
      let c := c.nextChunk
      let c := if t.entryCount > 1 then { c with numChunksInRun := c.numChunksInRun - 1 } else c
      some ⟨t, c, numChunks, c.answer sampleNum⟩
    else if (c.majorIndex : Int) < toInt32 (sub32 t.entryCount 1) then
      let e := t.slot c.majorIndex
      (T.fetch parsingMode (c.majorIndex + 1) t).bind fun t =>
        let numChunksInRun :=
          ((t.slot (c.majorIndex + 1)).firstChunk - e.firstChunk).toInt32
        let c := { (c.load e).nextChunk with
          numChunksInRun := numChunksInRun
          majorIndex := c.majorIndex + 1 }
        some ⟨t, c, numChunksInRun, c.answer sampleNum⟩
    else if (c.majorIndex : Int) = toInt32 (sub32 t.entryCount 1) then
      -- the last run: its chunks are not counted
      let c := { (c.load (t.slot c.majorIndex)).nextChunk with numChunksInRun := 1 }
      some ⟨t, c, 1, c.answer sampleNum⟩
    else some ⟨t, c, numChunks, .readSampleToChunkAtomFailed, none⟩

end SampleToChunkTable

/-! ## 5. The atom -/

/-- The members of the atom; no table where the arrays are `NULL`. -/
structure SampleToChunkAtom where
  parsingMode : Bool
  table : Option (StblTable SampleToChunkEntry)
  index : Nat
  numChunksInRun : Int32
  get : SampleToChunkTable.Cursor
  peek : SampleToChunkTable.Cursor

namespace SampleToChunkAtom

open SampleToChunkTable (Cursor)

/-- What a call returns: the code, and the bits of the value it sets, if it sets one. -/
abbrev Answer := Mp4ErrorCode × Option UInt32

/-- What every function returns that finds an array to be `NULL`, or finds nothing. -/
def failed : Answer := (.readSampleToChunkAtomFailed, none)

variable (T : SampleToChunkTable)

/-- `resetStateVariables()`. -/
def resetStateVariables (a : SampleToChunkAtom) : SampleToChunkAtom :=
  { a with get := .start, peek := .start }

/-- `resetPeekwithGet()`. -/
def resetPeekwithGet (a : SampleToChunkAtom) : SampleToChunkAtom := { a with peek := a.get }

/-- `resetStateVariables(sampleNum)`. The label `END_OF_RESET` is reached where the sample is
    found. -/
def resetStateVariablesTo (a : SampleToChunkAtom) (sampleNum : UInt32) :
    Option (SampleToChunkAtom × Mp4ErrorCode) :=
  let a := a.resetStateVariables
  match a.table with
  | none => some (a, .defaultError)
  | some t =>
    (T.resetScan a.parsingMode sampleNum t.entryCount 0 0 t a.get a.numChunksInRun).map fun r =>
      match r with
      | (t, c, numChunks, true) =>
        let c :=
          if (c.majorIndex : Int) < toInt32 (sub32 t.entryCount 1) then
            { c with majorIndex := c.majorIndex + 1 }
          else c
        ({ a with table := some t, numChunksInRun := numChunks, get := c, peek := c },
          .everythingFine)
      | (t, c, numChunks, false) =>
        ({ a with table := some t, numChunksInRun := numChunks, get := c }, .defaultError)

/-- The atom before its constructor calls `resetStateVariables(0)`. -/
def loaded (parsingMode : Bool) (table : Option (StblTable SampleToChunkEntry)) :
    SampleToChunkAtom where
  parsingMode := parsingMode
  table := table
  index := 0
  numChunksInRun := 0
  get := .start
  peek := .start

/-- The constructor; `vec` is what the new arrays hold. `none` where it does not return. -/
def create (parsingMode : Bool) (vec : Nat → SampleToChunkEntry) : Option SampleToChunkAtom :=
  if 0 < T.entryCount.toNat then
    if parsingMode ∧ T.entryCount.toNat > maxCachedTableEntriesFile then
      (T.parseEntryUnit 0 (.windowed T.entryFile T.entryCount.toNat maxCachedTableEntriesFile
        vec)).bind fun t => ((loaded true (some t)).resetStateVariablesTo T 0).map Prod.fst
    else ((loaded false (some (T.whole vec))).resetStateVariablesTo T 0).map Prod.fst
  else some (loaded parsingMode none)

/-! ## 6. The stateless queries -/

/-- A query of the table, where there is one. -/
def onTable (a : SampleToChunkAtom)
    (f : StblTable SampleToChunkEntry → Option (StblTable SampleToChunkEntry × Answer)) :
    Option (SampleToChunkAtom × Answer) :=
  match a.table with
  | none => some (a, failed)
  | some t => (f t).map fun r => ({ a with table := some r.1 }, r.2)

/-- The body of `getFirstChunkAt` and `getSamplesPerChunkAt`, which differ in their array. -/
def entryAt (field : SampleToChunkEntry → UInt32) (a : SampleToChunkAtom) (index : UInt32) :
    Option (SampleToChunkAtom × Answer) :=
  a.onTable fun t =>
    if index.toNat < t.entryCount then
      (T.fetch a.parsingMode index.toNat t).map fun t =>
        (t, .everythingFine, some (field (t.slot index.toNat)))
    else some (t, failed)

def getFirstChunkAt (a : SampleToChunkAtom) (index : UInt32) :
    Option (SampleToChunkAtom × Answer) :=
  a.entryAt T SampleToChunkEntry.firstChunk index

def getSamplesPerChunkAt (a : SampleToChunkAtom) (index : UInt32) :
    Option (SampleToChunkAtom × Answer) :=
  a.entryAt T SampleToChunkEntry.samplesPerChunk index

/-- `getChunkNumberForSample`, which also sets `_Index`. -/
def getChunkNumberForSample (a : SampleToChunkAtom) (sampleNum : UInt32) :
    Option (SampleToChunkAtom × Answer) :=
  match a.table with
  | none => some (a, failed)
  | some t =>
    (T.sampleScan a.parsingMode SampleToChunkTable.inLastRun sampleNum t.entryCount 0 0 t).map
      fun r =>
        match r.2 with
        | none => ({ a with table := some r.1 }, failed)
        | some found =>
          ({ a with table := some r.1, index := found.run },
            .everythingFine, some found.chunkNumber)

def getSamplesPerChunkCorrespondingToSample (a : SampleToChunkAtom) (sampleNum : UInt32) :
    Option (SampleToChunkAtom × Answer) :=
  a.onTable fun t =>
    (T.sampleScan a.parsingMode SampleToChunkTable.inLastRunForEver sampleNum t.entryCount 0 0
      t).map fun r =>
        (r.1, r.2.elim failed fun found => (.everythingFine, some found.samplesPerChunk))

def getFirstSampleNumInChunk (a : SampleToChunkAtom) (chunkNum : UInt32) :
    Option (SampleToChunkAtom × Answer) :=
  a.onTable fun t =>
    (T.firstSampleScan a.parsingMode chunkNum t.entryCount 0 0 0 t).map fun r =>
      (r.1, r.2.elim failed fun sampleNum => (.everythingFine, some sampleNum))

/-- `getSDIndex`: the description index of the run `_Index`, with no call of
    `CheckAndParseEntry`. -/
def getSDIndex (a : SampleToChunkAtom) : Answer :=
  match a.table with
  | none => failed
  | some t =>
    if a.index < t.entryCount then
      (.everythingFine, some (t.slot a.index).sampleDescrIndex)
    else failed

/-! ## 7. The walk -/

def getChunkNumberForSampleGet (a : SampleToChunkAtom) (sampleNum : UInt32) :
    Option (SampleToChunkAtom × Answer) :=
  match a.table with
  | none => some (a, failed)
  | some t =>
    (T.advance a.parsingMode sampleNum a.numChunksInRun a.get t).map fun s =>
      ({ a with table := some s.table, get := s.cursor, numChunksInRun := s.numChunksInRun },
        s.answer)

/-- `getChunkNumberForSamplePeek`, which does not set `_numChunksInRun`. -/
def getChunkNumberForSamplePeek (a : SampleToChunkAtom) (sampleNum : UInt32) :
    Option (SampleToChunkAtom × Answer) :=
  match a.table with
  | none => some (a, failed)
  | some t =>
    (T.advance a.parsingMode sampleNum a.numChunksInRun a.peek t).map fun s =>
      ({ a with table := some s.table, peek := s.cursor }, s.answer)

/-- A value of a cursor, where the arrays are there. -/
def ofCursor (a : SampleToChunkAtom) (value : Option UInt32) : Answer :=
  if a.table.isNone then failed
  else
    match value with
    | none => failed
    | some x => (.everythingFine, some x)

/-- A value that is not set while it is 0. -/
def unlessZero (x : Int32) : Option UInt32 := if x ≠ 0 then some x.toUInt32 else none

def getFirstSampleNumInChunkGet (a : SampleToChunkAtom) : Answer :=
  a.ofCursor (some a.get.firstSampleInCurrChunk.toUInt32)

def getFirstSampleNumInChunkPeek (a : SampleToChunkAtom) : Answer :=
  a.ofCursor (some a.peek.firstSampleInCurrChunk.toUInt32)

def getSamplesPerChunkCorrespondingToSampleGet (a : SampleToChunkAtom) : Answer :=
  a.ofCursor (unlessZero a.get.numSamplesPerChunk)

def getNumChunksInRunofChunksGet (a : SampleToChunkAtom) : Answer :=
  a.ofCursor (unlessZero a.numChunksInRun)

def getSDIndexGet (a : SampleToChunkAtom) : Answer := a.ofCursor (unlessZero a.get.currSDI)

def getSDIndexPeek (a : SampleToChunkAtom) : Answer := a.ofCursor (unlessZero a.peek.currSDI)

end SampleToChunkAtom

end OpenCore.Mp4
