/-
  File:      OpenCore/JitterBuffer/CircularArray.lean
  Subject:   `PVMFDynamicCircularArray` (pvmf_jitter_buffer.h), as the code computes it.

  The vector of shared pointers is a list of optional packets (`none` is a pointer without a
  representation); every counter is a `uint32` (Word32.lean). The parameter `aPrevSeqNumBaseOut`
  of the purges is passed by value and only assigned to, so it is left out; so are the loggers.
-/
import OpenCore.Lib.Word32

namespace OpenCore.JitterBuffer

/-! ## 1. Data -/

/-- What the array reads of a `PVMFSharedMediaDataPtr`: the fragments count by their lengths. -/
structure MediaData where
  streamID : Nat
  seqNum : Nat
  timestamp : Nat
  fragments : List Nat
  deriving DecidableEq, Repr

/-- The loop that adds up the fragment lengths. -/
def packetSize (p : MediaData) : Nat := p.fragments.foldl add32 0

/-- `PVMFJitterBufferStats`. -/
structure Stats where
  totalNumPacketsReceived : Nat := 0
  totalNumPacketsRegistered : Nat := 0
  totalPacketsLost : Nat := 0
  totalNumPacketsRetrieved : Nat := 0
  maxTimeStampRegistered : Nat := 0
  maxTimeStampRetrieved : Nat := 0
  currentOccupancy : Nat := 0
  totalNumBytesRecvd : Nat := 0
  packetSizeInBytesLeftInBuffer : Nat := 0
  maxSeqNumReceived : Nat := 0
  maxSeqNumRegistered : Nat := 0
  lastRegisteredSeqNum : Nat := 0
  lastRetrievedSeqNum : Nat := 0
  ssrc : Nat := 0
  deriving DecidableEq, Repr

/-- `PVMFDynamicCircularArray`. -/
structure CircularArray where
  iNumElems : Nat
  iArraySize : Nat
  iReadOffset : Nat
  iLastRetrievedSeqNum : Nat
  iLastRetrievedTS : Nat
  iFirstSeqNumAdded : Nat
  iJitterBufferStats : Stats
  iMediaPtrVec : List (Option MediaData)
  deriving DecidableEq, Repr

inductive AddElemStatus where
  | packetOverwrite
  | success
  deriving DecidableEq, Repr

/-- The constructor with a size. -/
def CircularArray.new (n : Nat) : CircularArray where
  iNumElems := 0
  iArraySize := n
  iReadOffset := 0
  iLastRetrievedSeqNum := 0
  iLastRetrievedTS := 0
  iFirstSeqNumAdded := 0
  iJitterBufferStats := {}
  iMediaPtrVec := List.replicate n none

namespace CircularArray

def setFirstSeqNumAdded (a : CircularArray) (aFirstSeqNumAdded : Nat) : CircularArray :=
  { a with iFirstSeqNumAdded := aFirstSeqNumAdded }

def setReadOffset (a : CircularArray) (aSeqNum : Nat) : CircularArray :=
  { a with iReadOffset := sub32 aSeqNum a.iFirstSeqNumAdded % a.iArraySize }

def clear (a : CircularArray) : CircularArray where
  iNumElems := 0
  iArraySize := a.iArraySize
  iReadOffset := 0
  iLastRetrievedSeqNum := 0
  iLastRetrievedTS := 0
  iFirstSeqNumAdded := 0
  iJitterBufferStats := { a.iJitterBufferStats with
    currentOccupancy := 0, packetSizeInBytesLeftInBuffer := 0 }
  iMediaPtrVec := List.replicate a.iArraySize none

/-! ## 2. `addElement` -/

/-- The slot of a sequence number. -/
def slot (a : CircularArray) (aSeqNumBase seqNum : Nat) : Nat :=
  sub32 seqNum aSeqNumBase % a.iArraySize

/-- The statistics every arriving packet updates. -/
def Stats.arrive (s : Stats) (elem : MediaData) : Stats :=
  { s with
    totalNumPacketsReceived := add32 s.totalNumPacketsReceived 1
    ssrc := elem.streamID
    totalNumBytesRecvd := add32 s.totalNumBytesRecvd (packetSize elem)
    packetSizeInBytesLeftInBuffer := add32 s.packetSizeInBytesLeftInBuffer (packetSize elem)
    maxSeqNumReceived :=
      if s.maxSeqNumRegistered < elem.seqNum then elem.seqNum else s.maxSeqNumReceived }

/-- The statistics a registered packet updates, with the occupancy `n`. -/
def Stats.register (s : Stats) (elem : MediaData) (n : Nat) : Stats :=
  { s with
    totalNumPacketsRegistered := add32 s.totalNumPacketsRegistered 1
    lastRegisteredSeqNum := elem.seqNum
    maxSeqNumRegistered :=
      if s.maxSeqNumRegistered < elem.seqNum then elem.seqNum else s.maxSeqNumRegistered
    maxTimeStampRegistered :=
      if s.maxSeqNumRegistered < elem.seqNum then elem.timestamp else s.maxTimeStampRegistered
    currentOccupancy := n }

def addElement (a : CircularArray) (elem : MediaData) (aSeqNumBase : Nat) :
    CircularArray × AddElemStatus :=
  let stats := Stats.arrive a.iJitterBufferStats elem
  let offset := a.slot aSeqNumBase elem.seqNum
  match (a.iMediaPtrVec[offset]?).join with
  | none =>
    let n := add32 a.iNumElems 1
    ({ a with
        iMediaPtrVec := a.iMediaPtrVec.set offset (some elem)
        iNumElems := n
        iJitterBufferStats := Stats.register stats elem n }, .success)
  | some currElem =>
    if currElem.seqNum ≠ elem.seqNum then
      ({ a with
          iMediaPtrVec := a.iMediaPtrVec.set offset (some elem)
          iJitterBufferStats := Stats.register stats elem a.iNumElems }, .packetOverwrite)
    else
      ({ a with iJitterBufferStats := stats }, .success)

/-! ## 3. `retrieveElement` -/

/-- The search loop: `tries` counts down from `iArraySize + 1`; the answer has the packet, the
    read offset behind it and the number of slots looked at. -/
def retrieveLoop (vec : List (Option MediaData)) (size : Nat) :
    Nat → Nat → Nat → Option MediaData × Nat × Nat
  | 0, readOffset, count => (none, readOffset, count)
  | tries + 1, readOffset, count =>
    let offset := if size ≤ readOffset then 0 else readOffset
    match (vec[offset]?).join with
    | some dataPkt => (some dataPkt, offset + 1, count + 1)
    | none => retrieveLoop vec size tries (offset + 1) (count + 1)

def retrieveElement (a : CircularArray) : CircularArray × Option MediaData :=
  match retrieveLoop a.iMediaPtrVec a.iArraySize (a.iArraySize + 1) a.iReadOffset 0 with
  | (none, readOffset, _) => ({ a with iReadOffset := readOffset }, none)
  | (some dataPkt, readOffset, count) =>
    let n := sub32 a.iNumElems 1
    ({ a with
        iNumElems := n
        iReadOffset := readOffset
        iMediaPtrVec := a.iMediaPtrVec.set (readOffset - 1) none
        iLastRetrievedSeqNum := dataPkt.seqNum
        iJitterBufferStats := { a.iJitterBufferStats with
          totalPacketsLost := add32 a.iJitterBufferStats.totalPacketsLost (count - 1)
          maxTimeStampRetrieved := dataPkt.timestamp
          currentOccupancy := n
          totalNumPacketsRetrieved := add32 a.iJitterBufferStats.totalNumPacketsRetrieved 1
          lastRetrievedSeqNum := dataPkt.seqNum
          packetSizeInBytesLeftInBuffer :=
            sub32 a.iJitterBufferStats.packetSizeInBytesLeftInBuffer (packetSize dataPkt) } },
      some dataPkt)

/-! ## 4. The purges -/

/-- Unbinding the packet of one slot, with its bytes taken off the total. -/
def unbind (a : CircularArray) (offset : Nat) (elem : MediaData) : CircularArray :=
  { a with
    iMediaPtrVec := a.iMediaPtrVec.set offset none
    iJitterBufferStats := { a.iJitterBufferStats with
      packetSizeInBytesLeftInBuffer :=
        sub32 a.iJitterBufferStats.packetSizeInBytesLeftInBuffer (packetSize elem) } }

/-- The same with the element count: what both selective purges do to a packet. -/
def purge (a : CircularArray) (offset : Nat) (elem : MediaData) : CircularArray :=
  { a.unbind offset elem with iNumElems := sub32 a.iNumElems 1 }

/-- The loop over the whole vector, from position `i` on for `left` positions. -/
def unbindAll (a : CircularArray) : Nat → Nat → CircularArray
  | 0, _ => a
  | left + 1, i =>
    match (a.iMediaPtrVec[i]?).join with
    | some elem => unbindAll (a.unbind i elem) left (i + 1)
    | none => unbindAll a left (i + 1)

/-- The end of both purges by sequence number. -/
def afterPurge (a : CircularArray) (aSeqNum : Nat) : CircularArray :=
  setReadOffset
    { a with
      iLastRetrievedSeqNum := sub32 aSeqNum 1
      iJitterBufferStats := { a.iJitterBufferStats with
        lastRetrievedSeqNum := sub32 aSeqNum 1
        currentOccupancy := a.iNumElems } } aSeqNum

/-- All packets out, and the count set to zero. -/
def dropAll (a : CircularArray) : CircularArray :=
  { a.unbindAll a.iMediaPtrVec.length 0 with iNumElems := 0 }

def purgeAllElements (a : CircularArray) (aSeqNum : Nat) : CircularArray :=
  afterPurge (if a.iMediaPtrVec.isEmpty then a else a.dropAll) aSeqNum

/-- The loop of `PurgeElementsWithSeqNumsLessThan`: `left` slots from `startoffset + i` on. -/
def purgeSeqLoop (aSeqNum startoffset : Nat) : Nat → Nat → CircularArray → CircularArray
  | 0, _, a => a
  | left + 1, i, a =>
    let offset := add32 startoffset i % a.iArraySize
    match (a.iMediaPtrVec[offset]?).join with
    | some elem =>
      if elem.seqNum < aSeqNum then
        purgeSeqLoop aSeqNum startoffset left (i + 1) (a.purge offset elem)
      else purgeSeqLoop aSeqNum startoffset left (i + 1) a
    | none => purgeSeqLoop aSeqNum startoffset left (i + 1) a

def purgeElementsWithSeqNumsLessThan (a : CircularArray) (aSeqNum : Nat) : CircularArray :=
  afterPurge
    (if a.iMediaPtrVec.isEmpty then a
     else if aSeqNum < a.iLastRetrievedSeqNum then a.dropAll
     else if a.iLastRetrievedSeqNum < aSeqNum then
       purgeSeqLoop aSeqNum
         (add32 (sub32 a.iLastRetrievedSeqNum a.iFirstSeqNumAdded) 1 % a.iArraySize)
         (sub32 aSeqNum (add32 a.iLastRetrievedSeqNum 1)) 0 a
     else a) aSeqNum

/-- The loop of `PurgeElementsWithTimestampLessThan`. The source has no bound on it; `none` is a
    loop that has not ended within `fuel` rounds. -/
def purgeTsLoop (aTS : Nat) : Nat → CircularArray → Option CircularArray
  | 0, _ => none
  | fuel + 1, a =>
    if 0 < a.iNumElems then
      let offset := if a.iArraySize ≤ a.iReadOffset then 0 else a.iReadOffset
      match (a.iMediaPtrVec[offset]?).join with
      | some dataPkt =>
        if aTS ≤ dataPkt.timestamp then some { a with iReadOffset := offset }
        else purgeTsLoop aTS fuel { a.purge offset dataPkt with iReadOffset := offset + 1 }
      | none => purgeTsLoop aTS fuel { a with iReadOffset := offset + 1 }
    else some a

/-- The rounds that are always enough (`purgeTs_isSome`). -/
def purgeTsFuel (a : CircularArray) : Nat := (a.iNumElems + 1) * (a.iArraySize + 1)

def purgeElementsWithTimestampLessThan (a : CircularArray) (aTS : Nat) : Option CircularArray :=
  ((if a.iMediaPtrVec.isEmpty then some a else purgeTsLoop aTS (purgeTsFuel a) a)).map fun a =>
    { a with
      iLastRetrievedTS := aTS
      iJitterBufferStats := { a.iJitterBufferStats with currentOccupancy := a.iNumElems } }

/-! ## 5. Calls -/

/-- The calls on an array. -/
inductive Op where
  | addElement (elem : MediaData) (aSeqNumBase : Nat)
  | retrieveElement
  | purgeElementsWithSeqNumsLessThan (aSeqNum : Nat)
  | purgeElementsWithTimestampLessThan (aTS : Nat)
  | purgeAllElements (aSeqNum : Nat)
  | clear
  | setFirstSeqNumAdded (aFirstSeqNumAdded : Nat)
  | setReadOffset (aSeqNum : Nat)
  deriving DecidableEq

def call (a : CircularArray) : Op → Option CircularArray
  | .addElement elem base => some (a.addElement elem base).1
  | .retrieveElement => some a.retrieveElement.1
  | .purgeElementsWithSeqNumsLessThan s => some (a.purgeElementsWithSeqNumsLessThan s)
  | .purgeElementsWithTimestampLessThan ts => a.purgeElementsWithTimestampLessThan ts
  | .purgeAllElements s => some (a.purgeAllElements s)
  | .clear => some a.clear
  | .setFirstSeqNumAdded s => some (a.setFirstSeqNumAdded s)
  | .setReadOffset s => some (a.setReadOffset s)

end CircularArray

end OpenCore.JitterBuffer
