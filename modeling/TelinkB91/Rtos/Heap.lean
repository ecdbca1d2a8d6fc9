import TelinkB91.Lib.WordMemory

/-!
# Rtos — the heap

`heap_4.c`: `pvPortMalloc` and `vPortFree` over one array, `ucHeap`.  A free block starts with a
header of two words, the address of the next free block and its own size; the list of the free
blocks starts at `xStart`, which is outside the array, is in the order of the addresses, and ends at
`pxEnd`, a header behind the last block.  The top bit of the size marks a block that is in use.

The memory is bytes, so that the headers lie among the bytes the callers use.  Addresses and sizes
are numbers below `2^32`; additions and subtractions wrap.  A loop along the list runs as often as
the array has bytes, and the result is `none` where that is not enough.
-/

namespace TelinkB91.Rtos

open WordMemory

/-- `configTOTAL_HEAP_SIZE`. -/
def configTotalHeapSize : Nat := 16 * 1024

/-- `portBYTE_ALIGNMENT`. -/
def portByteAlignment : Nat := 16

/-- `size_t` addition. -/
def add32 (a b : Nat) : Nat := (a + b) % 2 ^ 32

/-- `size_t` subtraction. -/
def sub32 (a b : Nat) : Nat := (a + 2 ^ 32 - b) % 2 ^ 32

/-- `x & ~portBYTE_ALIGNMENT_MASK`. -/
def andNotMask (x : Nat) : Nat := x - x % portByteAlignment

/-- `xHeapStructSize`, from `sizeof( BlockLink_t )`, two words. -/
def xHeapStructSize : Nat := andNotMask (8 + (portByteAlignment - 1))

/-- `heapMINIMUM_BLOCK_SIZE`. -/
def heapMinimumBlockSize : Nat := xHeapStructSize * 2

/-- Where the array and the head of the list are. -/
structure Link where
  ucHeap : Nat
  xStart : Nat

/-- The variables of the file, and the memory.  `pxEnd` is 0 for `NULL`. -/
structure Heap where
  mem : Memory
  pxEnd : Nat
  xFreeBytesRemaining : Nat
  xMinimumEverFreeBytesRemaining : Nat
  xNumberOfSuccessfulAllocations : Nat
  xNumberOfSuccessfulFrees : Nat
  xBlockAllocatedBit : Nat

/-- `pxBlock->pxNextFreeBlock`. -/
def pxNextFreeBlock (m : Memory) (p : Nat) : Nat := word m p

/-- `pxBlock->xBlockSize`. -/
def xBlockSize (m : Memory) (p : Nat) : Nat := word m (p + 4)

def setNextFreeBlock (m : Memory) (p v : Nat) : Memory := setWord m p v

def setBlockSize (m : Memory) (p v : Nat) : Memory := setWord m (p + 4) v

/-- The heap before the first call. -/
def Heap.boot (m : Memory) : Heap := ⟨m, 0, 0, 0, 0, 0, 0⟩

/-- The first aligned address of the array, and how many bytes are left from there. -/
def alignedHeap (l : Link) : Nat × Nat :=
  if l.ucHeap % portByteAlignment ≠ 0 then
    let uxAddress := andNotMask (add32 l.ucHeap (portByteAlignment - 1))
    (uxAddress, sub32 configTotalHeapSize (sub32 uxAddress l.ucHeap))
  else (l.ucHeap, configTotalHeapSize)

/-- `prvHeapInit`: one free block, which ends where `pxEnd` is put. -/
def prvHeapInit (l : Link) (h : Heap) : Heap :=
  let pucAlignedHeap := (alignedHeap l).1
  let pxEnd := andNotMask (sub32 (add32 pucAlignedHeap (alignedHeap l).2) xHeapStructSize)
  let m := setNextFreeBlock h.mem l.xStart pucAlignedHeap
  let m := setBlockSize m l.xStart 0
  let m := setBlockSize m pxEnd 0
  let m := setNextFreeBlock m pxEnd 0
  let m := setBlockSize m pucAlignedHeap (sub32 pxEnd pucAlignedHeap)
  let m := setNextFreeBlock m pucAlignedHeap pxEnd
  { h with
    mem := m
    pxEnd := pxEnd
    xMinimumEverFreeBytesRemaining := xBlockSize m pucAlignedHeap
    xFreeBytesRemaining := xBlockSize m pucAlignedHeap
    xBlockAllocatedBit := 2 ^ 31 }

/-- The loop of `prvInsertBlockIntoFreeList`: the last header of the list in front of the block. -/
def pxIterator (m : Memory) (pxBlockToInsert : Nat) : Nat → Nat → Option Nat
  | 0, _ => none
  | k + 1, it =>
      if pxNextFreeBlock m it < pxBlockToInsert then
        pxIterator m pxBlockToInsert k (pxNextFreeBlock m it)
      else some it

/-- Do the block and the one it is inserted after make one?  The block that goes on is returned. -/
def mergeBefore (m : Memory) (it pxBlockToInsert : Nat) : Memory × Nat :=
  if add32 it (xBlockSize m it) = pxBlockToInsert then
    (setBlockSize m it (add32 (xBlockSize m it) (xBlockSize m pxBlockToInsert)), it)
  else (m, pxBlockToInsert)

/-- Do the block and the one it is inserted before make one? -/
def mergeAfter (m : Memory) (pxEnd it pxBlockToInsert : Nat) : Memory :=
  if add32 pxBlockToInsert (xBlockSize m pxBlockToInsert) = pxNextFreeBlock m it then
    if pxNextFreeBlock m it ≠ pxEnd then
      let m := setBlockSize m pxBlockToInsert
        (add32 (xBlockSize m pxBlockToInsert) (xBlockSize m (pxNextFreeBlock m it)))
      setNextFreeBlock m pxBlockToInsert (pxNextFreeBlock m (pxNextFreeBlock m it))
    else setNextFreeBlock m pxBlockToInsert pxEnd
  else setNextFreeBlock m pxBlockToInsert (pxNextFreeBlock m it)

/-- What `prvInsertBlockIntoFreeList` does at the place it has found. -/
def linkIn (m : Memory) (pxEnd it pxBlockToInsert : Nat) : Memory :=
  let b := mergeBefore m it pxBlockToInsert
  let m := mergeAfter b.1 pxEnd it b.2
  if it ≠ b.2 then setNextFreeBlock m it b.2 else m

def prvInsertBlockIntoFreeList (l : Link) (m : Memory) (pxEnd pxBlockToInsert : Nat) :
    Option Memory :=
  (pxIterator m pxBlockToInsert configTotalHeapSize l.xStart).map fun it =>
    linkIn m pxEnd it pxBlockToInsert

/-- `xWantedSize` with the header and rounded up. -/
def wantedSize (xWantedSize : Nat) : Nat :=
  if 0 < xWantedSize then
    let w := add32 xWantedSize xHeapStructSize
    if w % portByteAlignment ≠ 0 then
      add32 w (portByteAlignment - w % portByteAlignment)
    else w
  else xWantedSize

/-- The loop of `pvPortMalloc`: the first block of adequate size, or `pxEnd`, and the header in
front of it. -/
def findBlock (m : Memory) (xWantedSize : Nat) : Nat → Nat → Nat → Option (Nat × Nat)
  | 0, _, _ => none
  | k + 1, pxPreviousBlock, pxBlock =>
      if xBlockSize m pxBlock < xWantedSize ∧ pxNextFreeBlock m pxBlock ≠ 0 then
        findBlock m xWantedSize k pxBlock (pxNextFreeBlock m pxBlock)
      else some (pxPreviousBlock, pxBlock)

/-- The block is split if it is larger than required. -/
def splitBlock (l : Link) (m : Memory) (pxEnd pxBlock xWantedSize : Nat) : Option Memory :=
  if sub32 (xBlockSize m pxBlock) xWantedSize > heapMinimumBlockSize then
    let pxNewBlockLink := add32 pxBlock xWantedSize
    let m := setBlockSize m pxNewBlockLink (sub32 (xBlockSize m pxBlock) xWantedSize)
    let m := setBlockSize m pxBlock xWantedSize
    prvInsertBlockIntoFreeList l m pxEnd pxNewBlockLink
  else some m

/-- The bookkeeping at the end of `pvPortMalloc`, and the mark on the block. -/
def Heap.hand (h : Heap) (m : Memory) (pxBlock : Nat) : Heap :=
  let free := sub32 h.xFreeBytesRemaining (xBlockSize m pxBlock)
  let m := setBlockSize m pxBlock (xBlockSize m pxBlock ||| h.xBlockAllocatedBit)
  { h with
    mem := setNextFreeBlock m pxBlock 0
    xFreeBytesRemaining := free
    xMinimumEverFreeBytesRemaining :=
      if free < h.xMinimumEverFreeBytesRemaining then free else h.xMinimumEverFreeBytesRemaining
    xNumberOfSuccessfulAllocations := add32 h.xNumberOfSuccessfulAllocations 1 }

/-- What `pvPortMalloc` does with the block it has found: the heap, and the address or 0 for `NULL`.
-/
def Heap.take (l : Link) (h : Heap) (xWantedSize : Nat) : Nat × Nat → Option (Heap × Nat)
  | (pxPreviousBlock, pxBlock) =>
      if pxBlock ≠ h.pxEnd then
        let pvReturn := add32 (pxNextFreeBlock h.mem pxPreviousBlock) xHeapStructSize
        let m := setNextFreeBlock h.mem pxPreviousBlock (pxNextFreeBlock h.mem pxBlock)
        (splitBlock l m h.pxEnd pxBlock xWantedSize).map fun m => (h.hand m pxBlock, pvReturn)
      else some (h, 0)

/-- `pvPortMalloc` behind the initialisation. -/
def Heap.allocate (l : Link) (h : Heap) (xWantedSize : Nat) : Option (Heap × Nat) :=
  if xWantedSize &&& h.xBlockAllocatedBit ≠ 0 then some (h, 0)
  else
    let w := wantedSize xWantedSize
    if 0 < w ∧ w ≤ h.xFreeBytesRemaining then
      (findBlock h.mem w configTotalHeapSize l.xStart (pxNextFreeBlock h.mem l.xStart)).bind
        (h.take l w)
    else some (h, 0)

/-- `pvPortMalloc`. -/
def pvPortMalloc (l : Link) (h : Heap) (xWantedSize : Nat) : Option (Heap × Nat) :=
  (if h.pxEnd = 0 then prvHeapInit l h else h).allocate l xWantedSize

/-- `vPortFree`.  The two assertions of the source are compiled to nothing. -/
def vPortFree (l : Link) (h : Heap) (pv : Nat) : Option Heap :=
  if pv ≠ 0 then
    let pxLink := sub32 pv xHeapStructSize
    if xBlockSize h.mem pxLink &&& h.xBlockAllocatedBit ≠ 0 ∧ pxNextFreeBlock h.mem pxLink = 0 then
      let m := setBlockSize h.mem pxLink
        (xBlockSize h.mem pxLink &&& (2 ^ 32 - 1 - h.xBlockAllocatedBit))
      (prvInsertBlockIntoFreeList l m h.pxEnd pxLink).map fun m' =>
        { h with
          mem := m'
          xFreeBytesRemaining := add32 h.xFreeBytesRemaining (xBlockSize m pxLink)
          xNumberOfSuccessfulFrees := add32 h.xNumberOfSuccessfulFrees 1 }
    else some h
  else some h

end TelinkB91.Rtos
