/-
  File:      OpenCore/HttpParcom/VariableSizeMemPool.lean
  Subject:   The memory pool with chunks of variable size (oscl_variablesize_mem_pool.h), as the
             code computes it.

  Addresses are numbers, and the pool is at one that is not `NULL`. The average of the allocations
  is a number of type `OsclFloat`, which is a parameter with the operations the code uses. `none`
  stands for `OSCL_LEAVE`; a call that leaves has changed nothing.
-/
import Mathlib
import OpenCore.Lib.Segments

namespace OpenCore.HttpParcom

open Lib (Segment)

/-- The operations on the average: the one before an allocation, and the next one of an average,
    the number of allocations in it and the size of one more; and its cast to `uint32`. -/
structure Averaging (OsclFloat : Type) where
  zero : OsclFloat
  next : OsclFloat → Nat → Nat → OsclFloat
  toUint32 : OsclFloat → Nat

def oscl_mem_aligned_size (x : Nat) : Nat :=
  if x &&& 0x7 ≠ 0 then ((x &&& 0xfffffff8) + 8) % 2 ^ 32 else x

/-- `OsclMemPoolVariableChunkAllocator`; the chunks of the lists are segments. -/
structure OsclMemPoolVariableChunkAllocator (OsclFloat : Type) where
  iMaxPoolSize : Nat
  iMemPool : Nat
  iNumRealAlloc : Nat
  iAverAllocSize : OsclFloat
  iFreeMemChunkList : List Segment
  iUsedMemChunkList : List Segment

namespace OsclMemPoolVariableChunkAllocator

variable {OsclFloat : Type} (averaging : Averaging OsclFloat)

/-- The constructor, with `createMempool`: the pool that `OSCL_MALLOC` gives is at `iMemPool`. -/
def createMempool (maxPoolSize iMemPool : Nat) :
    Option (OsclMemPoolVariableChunkAllocator OsclFloat) :=
  if maxPoolSize = 0 ∨ iMemPool = 0 then none
  else some {
    iMaxPoolSize := oscl_mem_aligned_size maxPoolSize
    iMemPool
    iNumRealAlloc := 0
    iAverAllocSize := averaging.zero
    iFreeMemChunkList := [⟨iMemPool, oscl_mem_aligned_size maxPoolSize⟩]
    iUsedMemChunkList := [] }

/-! ## 1. Allocation -/

def allocateSanityCheck (s : OsclMemPoolVariableChunkAllocator OsclFloat) (n : Nat) : Bool :=
  decide (n ≤ s.iMaxPoolSize) && !s.iFreeMemChunkList.isEmpty

/-- `getFreeMemChunk`: the chunk, and the free list then. -/
def getFreeMemChunk (aver alloc_size : Nat) : List Segment → Option (Segment × List Segment)
  | [] => none
  | chunk :: chunks =>
    if chunk.len < alloc_size then
      (getFreeMemChunk aver alloc_size chunks).map fun r => (r.1, chunk :: r.2)
    else if chunk.len - alloc_size > aver then
      some (⟨chunk.ptr, alloc_size⟩,
        ⟨chunk.ptr + alloc_size, chunk.len - alloc_size⟩ :: chunks)
    else some (chunk, chunks)

def doAllocate (s : OsclMemPoolVariableChunkAllocator OsclFloat) (n : Nat) :
    Option (Nat × OsclMemPoolVariableChunkAllocator OsclFloat) :=
  (getFreeMemChunk (averaging.toUint32 s.iAverAllocSize) n s.iFreeMemChunkList).map fun r =>
    (r.1.ptr, { s with
      iFreeMemChunkList := r.2
      iUsedMemChunkList := s.iUsedMemChunkList ++ [r.1]
      iAverAllocSize := averaging.next s.iAverAllocSize s.iNumRealAlloc r.1.len
      iNumRealAlloc := (s.iNumRealAlloc + 1) % 2 ^ 32 })

def allocate (s : OsclMemPoolVariableChunkAllocator OsclFloat) (n : Nat) :
    Option (Nat × OsclMemPoolVariableChunkAllocator OsclFloat) :=
  let request_size := oscl_mem_aligned_size n
  if s.allocateSanityCheck request_size then s.doAllocate averaging request_size else none

/-! ## 2. Reclaiming -/

def deallocateSanityCheck (s : OsclMemPoolVariableChunkAllocator OsclFloat) (p : Nat) : Bool :=
  decide (s.iMemPool ≤ p) && decide (p < s.iMemPool + s.iMaxPoolSize) &&
    !s.iUsedMemChunkList.isEmpty

/-- The loop of `searchSegmentContinuity`, from the index `i` on, with what was found so far. -/
def searchLoop (aMemChunk : Segment) :
    Nat → List Segment → Option Nat × Option Nat → Option Nat × Option Nat
  | _, [], found => found
  | i, chunk :: chunks, found =>
    let left := if aMemChunk.ptr = chunk.stop then some i else found.1
    let right := if aMemChunk.stop = chunk.ptr then some i else found.2
    if left.isSome && right.isSome then (left, right)
    else searchLoop aMemChunk (i + 1) chunks (left, right)

/-- `searchSegmentContinuity`: the indices of the chunks on the left and on the right. -/
def searchSegmentContinuity (aMemChunk : Segment) (chunks : List Segment) :
    Option Nat × Option Nat :=
  searchLoop aMemChunk 0 chunks (none, none)

/-- A chunk of the list. -/
def chunkAt (chunks : List Segment) (i : Nat) : Segment := chunks.getD i ⟨0, 0⟩

/-- `doMerge`: what the free list is then. -/
def doMerge (aMemChunk : Segment) (chunks : List Segment) :
    Option Nat → Option Nat → List Segment
  | none, none => chunks ++ [aMemChunk]
  | some left, some right =>
    (chunks.set left ⟨(chunkAt chunks left).ptr, ((chunkAt chunks left).len +
      (aMemChunk.len + (chunkAt chunks right).len)) % 2 ^ 32⟩).eraseIdx right
  | some left, none =>
    chunks.set left
      ⟨(chunkAt chunks left).ptr, ((chunkAt chunks left).len + aMemChunk.len) % 2 ^ 32⟩
  | none, some right =>
    chunks.set right ⟨aMemChunk.ptr, ((chunkAt chunks right).len + aMemChunk.len) % 2 ^ 32⟩

/-- `reclaim`: what the free list is then. -/
def reclaim (aMemChunk : Segment) (chunks : List Segment) : List Segment :=
  if chunks = [] then [aMemChunk]
  else
    let index := searchSegmentContinuity aMemChunk chunks
    doMerge aMemChunk chunks index.1 index.2

/-- The loop of `doDeAllocate`: the first used chunk at `p`, and the used list without it. -/
def takeUsed (p : Nat) : List Segment → Option (Segment × List Segment)
  | [] => none
  | chunk :: chunks =>
    if chunk.ptr = p then some (chunk, chunks)
    else (takeUsed p chunks).map fun r => (r.1, chunk :: r.2)

def deallocate (s : OsclMemPoolVariableChunkAllocator OsclFloat) (p : Nat) :
    Option (OsclMemPoolVariableChunkAllocator OsclFloat) :=
  if s.deallocateSanityCheck p then
    (takeUsed p s.iUsedMemChunkList).map fun r => { s with
      iUsedMemChunkList := r.2
      iFreeMemChunkList := reclaim r.1 s.iFreeMemChunkList }
  else none

def reclaimUnusedPortion (s : OsclMemPoolVariableChunkAllocator OsclFloat)
    (aPtr aBytesToFree : Nat) : Option (OsclMemPoolVariableChunkAllocator OsclFloat) :=
  if s.deallocateSanityCheck aPtr then
    some { s with iFreeMemChunkList := reclaim ⟨aPtr, aBytesToFree⟩ s.iFreeMemChunkList }
  else none

end OsclMemPoolVariableChunkAllocator

end OpenCore.HttpParcom
