import Mathlib.Data.Nat.Notation
import Mathlib.Logic.Function.Basic
import Mathlib.Tactic.SplitIfs

set_option autoImplicit false

/-!
# The heap of the kernel

`heap_4.c` on a memory of 32-bit words. The header of a block is a pointer to
the next free block and, four bytes on, its size with the top bit set while the
application owns it. `none` is an assertion that failed, or a loop that went
on for longer than the heap is large.
-/
namespace Stm32NetworkStack.Heap4

/-- Where the heap and the list head are in memory. -/
structure Config where
  ucHeap : ℕ
  configTotalHeapSize : ℕ
  xStart : ℕ
  positive : 0 < ucHeap
  room : 40 ≤ configTotalHeapSize
  size_lt : configTotalHeapSize < 0x80000000
  fits : ucHeap + configTotalHeapSize ≤ 0x100000000
  apart : xStart + 8 ≤ ucHeap ∨ ucHeap + configTotalHeapSize ≤ xStart

abbrev Memory := ℕ → ℕ

structure Heap where
  mem : Memory
  pxEnd : ℕ
  xFreeBytesRemaining : ℕ
  xMinimumEverFreeBytesRemaining : ℕ
  xNumberOfSuccessfulAllocations : ℕ
  xNumberOfSuccessfulFrees : ℕ

def xHeapStructSize : ℕ := 8
def portByteAlignment : ℕ := 8
def portByteAlignmentMask : ℕ := 7
def heapMinimumBlockSize : ℕ := xHeapStructSize <<< 1
def heapSizeMax : ℕ := 0xFFFFFFFF
def heapBlockAllocatedBitmask : ℕ := 0x80000000

def heapAddWillOverflow (a b : ℕ) : Bool := a > heapSizeMax - b
def heapSubtractWillUnderflow (a b : ℕ) : Bool := a < b
def heapBlockSizeIsValid (xBlockSize : ℕ) : Bool := xBlockSize &&& heapBlockAllocatedBitmask = 0

/-- Sums and differences of type `size_t`. -/
def sizeAdd (a b : ℕ) : ℕ := (a + b) % 0x100000000
def sizeSub (a b : ℕ) : ℕ := (a + 0x100000000 - b) % 0x100000000

def pxNextFreeBlock (mem : Memory) (px : ℕ) : ℕ := mem px
def xBlockSize (mem : Memory) (px : ℕ) : ℕ := mem (px + 4)

def setNext (mem : Memory) (px v : ℕ) : Memory := Function.update mem px v
def setSize (mem : Memory) (px v : ℕ) : Memory := Function.update mem (px + 4) v

def heapBlockIsAllocated (mem : Memory) (px : ℕ) : Bool := xBlockSize mem px &&& heapBlockAllocatedBitmask ≠ 0
def heapAllocateBlock (mem : Memory) (px : ℕ) : Memory :=
  setSize mem px (xBlockSize mem px ||| heapBlockAllocatedBitmask)
def heapFreeBlock (mem : Memory) (px : ℕ) : Memory :=
  setSize mem px (xBlockSize mem px &&& (heapSizeMax - heapBlockAllocatedBitmask))

variable (c : Config)

def heapValidateBlockPointer (px : ℕ) : Bool := c.ucHeap ≤ px ∧ px ≤ c.ucHeap + c.configTotalHeapSize - 1

/-- The first and the last aligned address of the heap, the latter with room for a header. -/
def uxStartAddress : ℕ :=
  if c.ucHeap &&& portByteAlignmentMask ≠ 0 then
    (c.ucHeap + (portByteAlignment - 1)) &&& (heapSizeMax - portByteAlignmentMask)
  else c.ucHeap

def uxEndAddress : ℕ :=
  let xTotalHeapSize := c.configTotalHeapSize - (uxStartAddress c - c.ucHeap)
  (uxStartAddress c + xTotalHeapSize - xHeapStructSize) &&& (heapSizeMax - portByteAlignmentMask)

def prvHeapInit (s : Heap) : Heap :=
  let pxEnd := uxEndAddress c
  let pxFirstFreeBlock := uxStartAddress c
  let mem := setSize (setNext s.mem c.xStart pxFirstFreeBlock) c.xStart 0
  let mem := setNext (setSize mem pxEnd 0) pxEnd 0
  let mem := setNext (setSize mem pxFirstFreeBlock (pxEnd - pxFirstFreeBlock)) pxFirstFreeBlock pxEnd
  { s with
    mem := mem
    pxEnd := pxEnd
    xFreeBytesRemaining := xBlockSize mem pxFirstFreeBlock
    xMinimumEverFreeBytesRemaining := xBlockSize mem pxFirstFreeBlock }

/-- The size of the block for a request, zero if nothing is wanted or the sum overflows. -/
def blockSizeFor (xWantedSize : ℕ) : ℕ :=
  if 0 < xWantedSize then
    if heapAddWillOverflow xWantedSize xHeapStructSize = false then
      let xWantedSize := xWantedSize + xHeapStructSize
      if xWantedSize &&& portByteAlignmentMask ≠ 0 then
        let xAdditionalRequiredSize := portByteAlignment - (xWantedSize &&& portByteAlignmentMask)
        if heapAddWillOverflow xWantedSize xAdditionalRequiredSize = false then
          xWantedSize + xAdditionalRequiredSize
        else 0
      else xWantedSize
    else 0
  else 0

/-- The loop over the free list: the block that is large enough, or `pxEnd`, and the one before. -/
def findBlock (mem : Memory) (xWantedSize : ℕ) : ℕ → ℕ → ℕ → Option (ℕ × ℕ)
  | 0, _, _ => none
  | fuel + 1, pxPreviousBlock, pxBlock =>
    if heapValidateBlockPointer c pxBlock = false then none
    else if xBlockSize mem pxBlock < xWantedSize ∧ pxNextFreeBlock mem pxBlock ≠ 0 then
      findBlock mem xWantedSize fuel pxBlock (pxNextFreeBlock mem pxBlock)
    else some (pxPreviousBlock, pxBlock)

/-- What is left of a block that is larger than needed becomes a free block. -/
def splitBlock (mem : Memory) (pxPreviousBlock pxBlock xWantedSize : ℕ) : Option Memory :=
  if sizeSub (xBlockSize mem pxBlock) xWantedSize > heapMinimumBlockSize then
    let pxNewBlockLink := pxBlock + xWantedSize
    if pxNewBlockLink &&& portByteAlignmentMask ≠ 0 then none
    else
      let mem := setSize mem pxNewBlockLink (sizeSub (xBlockSize mem pxBlock) xWantedSize)
      let mem := setSize mem pxBlock xWantedSize
      let mem := setNext mem pxNewBlockLink (pxNextFreeBlock mem pxPreviousBlock)
      some (setNext mem pxPreviousBlock pxNewBlockLink)
  else some mem

def takeBlock (s : Heap) (pxPreviousBlock pxBlock xWantedSize : ℕ) : Option (ℕ × Heap) :=
  let pvReturn := pxNextFreeBlock s.mem pxPreviousBlock + xHeapStructSize
  if heapValidateBlockPointer c pvReturn = false then none
  else
    let mem := setNext s.mem pxPreviousBlock (pxNextFreeBlock s.mem pxBlock)
    if heapSubtractWillUnderflow (xBlockSize mem pxBlock) xWantedSize then none
    else (splitBlock mem pxPreviousBlock pxBlock xWantedSize).bind fun mem =>
      let xFreeBytesRemaining := sizeSub s.xFreeBytesRemaining (xBlockSize mem pxBlock)
      let mem := setNext (heapAllocateBlock mem pxBlock) pxBlock 0
      if pvReturn &&& portByteAlignmentMask ≠ 0 then none
      else some (pvReturn, { s with
        mem := mem
        xFreeBytesRemaining := xFreeBytesRemaining
        xMinimumEverFreeBytesRemaining :=
          if xFreeBytesRemaining < s.xMinimumEverFreeBytesRemaining then xFreeBytesRemaining
          else s.xMinimumEverFreeBytesRemaining
        xNumberOfSuccessfulAllocations := sizeAdd s.xNumberOfSuccessfulAllocations 1 })

def pvPortMalloc (s : Heap) (xWantedSize : ℕ) : Option (ℕ × Heap) :=
  let xWantedSize := blockSizeFor xWantedSize
  let s := if s.pxEnd = 0 then prvHeapInit c s else s
  if heapBlockSizeIsValid xWantedSize then
    if 0 < xWantedSize ∧ xWantedSize ≤ s.xFreeBytesRemaining then
      (findBlock c s.mem xWantedSize (c.configTotalHeapSize + 1) c.xStart
          (pxNextFreeBlock s.mem c.xStart)).bind fun x =>
        if x.2 ≠ s.pxEnd then takeBlock c s x.1 x.2 xWantedSize else some (0, s)
    else some (0, s)
  else some (0, s)

/-- The last free block before an address. -/
def findPlace (mem : Memory) (pxBlockToInsert : ℕ) : ℕ → ℕ → Option ℕ
  | 0, _ => none
  | fuel + 1, pxIterator =>
    if pxNextFreeBlock mem pxIterator < pxBlockToInsert then
      findPlace mem pxBlockToInsert fuel (pxNextFreeBlock mem pxIterator)
    else some pxIterator

/-- A block that the one before it ends at becomes part of that one. -/
def mergeBefore (mem : Memory) (pxIterator pxBlockToInsert : ℕ) : Memory × ℕ :=
  if pxIterator + xBlockSize mem pxIterator = pxBlockToInsert then
    (setSize mem pxIterator (sizeAdd (xBlockSize mem pxIterator) (xBlockSize mem pxBlockToInsert)), pxIterator)
  else (mem, pxBlockToInsert)

def mergeAfter (mem : Memory) (pxEnd pxIterator pxBlockToInsert : ℕ) : Memory :=
  let next := pxNextFreeBlock mem pxIterator
  if pxBlockToInsert + xBlockSize mem pxBlockToInsert = next then
    if next ≠ pxEnd then
      let mem := setSize mem pxBlockToInsert (sizeAdd (xBlockSize mem pxBlockToInsert) (xBlockSize mem next))
      setNext mem pxBlockToInsert (pxNextFreeBlock mem next)
    else setNext mem pxBlockToInsert pxEnd
  else setNext mem pxBlockToInsert next

def prvInsertBlockIntoFreeList (mem : Memory) (pxEnd pxBlockToInsert : ℕ) : Option Memory :=
  (findPlace mem pxBlockToInsert (c.configTotalHeapSize + 1) c.xStart).bind fun pxIterator =>
    if pxIterator ≠ c.xStart ∧ heapValidateBlockPointer c pxIterator = false then none
    else
      let x := mergeBefore mem pxIterator pxBlockToInsert
      let mem := mergeAfter x.1 pxEnd pxIterator x.2
      some (if pxIterator ≠ x.2 then setNext mem pxIterator x.2 else mem)

def vPortFree (s : Heap) (pv : ℕ) : Option Heap :=
  if pv = 0 then some s
  else
    let pxLink := sizeSub pv xHeapStructSize
    if heapValidateBlockPointer c pxLink = false ∨ heapBlockIsAllocated s.mem pxLink = false ∨
      pxNextFreeBlock s.mem pxLink ≠ 0 then none
    else
      let mem := heapFreeBlock s.mem pxLink
      (prvInsertBlockIntoFreeList c mem s.pxEnd pxLink).map fun mem' =>
        { s with
          mem := mem'
          xFreeBytesRemaining := sizeAdd s.xFreeBytesRemaining (xBlockSize mem pxLink)
          xNumberOfSuccessfulFrees := sizeAdd s.xNumberOfSuccessfulFrees 1 }

end Stm32NetworkStack.Heap4
