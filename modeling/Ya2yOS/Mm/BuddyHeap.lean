import Ya2yOS.Lib.Dyadic
import Ya2yOS.Lib.Transition

/-!
# The buddy heap

`crates/buddy_system_allocator` and the contiguous allocator on top of it. An intrusive list is the list of its
addresses; an operation that panics has no result.
-/

namespace Ya2yOS.Mm.Buddy

open Lib (Block lowbit)

def usizeBits : ℕ := 64

def wordSize : ℕ := 8

def trailingZeros (n : ℕ) : ℕ := (lowbit usizeBits n).log2

def prevPowerOfTwo (n : ℕ) : ℕ := 2 ^ n.log2

def nextPowerOfTwo (n : ℕ) : ℕ := if n ≤ 1 then 1 else 2 ^ ((n - 1).log2 + 1)

/-- `Layout`: its alignment is a power of two, and the size does not overflow when it is rounded up to it. -/
structure Layout where
  size : ℕ
  align : ℕ
  align_pow : align = 2 ^ align.log2
  size_le : size + align ≤ 2 ^ 63
deriving DecidableEq

namespace Layout

def fromSizeAlign (size align : ℕ) : Option Layout :=
  if h : align = 2 ^ align.log2 ∧ size + align ≤ 2 ^ 63 then some ⟨size, align, h.1, h.2⟩ else none

def blockSize (l : Layout) : ℕ := max (nextPowerOfTwo l.size) (max l.align wordSize)

def sizeClass (l : Layout) : ℕ := trailingZeros l.blockSize

end Layout

def maxOrder : ℕ := 35

abbrev FreeLists := ℕ → List ℕ

namespace FreeLists

def push (fl : FreeLists) (c p : ℕ) : FreeLists := Function.update fl c (p :: fl c)

def split (c : ℕ) : ℕ → FreeLists → Except FreeLists FreeLists
  | 0, fl => .ok fl
  | d + 1, fl =>
    match fl (c + d + 1) with
    | [] => .error fl
    | block :: rest =>
      split c d ((push (Function.update fl (c + d + 1) rest) (c + d) (block + 2 ^ (c + d))).push (c + d) block)

def unlink (buddy : ℕ) : List ℕ → Option (List ℕ)
  | [] => none
  | block :: rest => if block = buddy then some rest else (unlink buddy rest).map (block :: ·)

def unlinkWithin (buddy : ℕ) : ℕ → List ℕ → Option (List ℕ) × ℕ
  | budget, [] => (none, budget)
  | 0, _ :: _ => (none, 0)
  | budget + 1, block :: rest =>
    if block = buddy then (some rest, budget)
    else ((unlinkWithin buddy budget rest).1.map (block :: ·), (unlinkWithin buddy budget rest).2)

def merge : ℕ → FreeLists → ℕ → ℕ → FreeLists
  | 0, fl, _, _ => fl
  | n + 1, fl, ptr, c =>
    match unlink (ptr ^^^ 2 ^ c) (fl c) with
    | none => fl
    | some rest =>
      merge n (push (Function.update fl c rest.tail) (c + 1) (min ptr (ptr ^^^ 2 ^ c)))
        (min ptr (ptr ^^^ 2 ^ c)) (c + 1)

def mergeWithin : ℕ → FreeLists → ℕ → ℕ → ℕ → Option FreeLists
  | 0, fl, _, _, _ => some fl
  | n + 1, fl, ptr, c, remaining =>
    if remaining = 0 then some fl
    else
      match unlinkWithin (ptr ^^^ 2 ^ c) remaining (fl c) with
      | (none, _) => some fl
      | (some [], _) => none
      | (some (_ :: rest), remaining) =>
        mergeWithin n (push (Function.update fl c rest) (c + 1) (min ptr (ptr ^^^ 2 ^ c)))
          (min ptr (ptr ^^^ 2 ^ c)) (c + 1) remaining

def addBlocks (stop : ℕ) : ℕ → FreeLists → ℕ → ℕ → Option (FreeLists × ℕ)
  | 0, _, _, _ => none
  | fuel + 1, fl, start, total =>
    if 2 ^ usizeBits ≤ start + wordSize then none
    else if start + wordSize ≤ stop then
      let size := min (lowbit usizeBits start) (prevPowerOfTwo (stop - start))
      if trailingZeros size < maxOrder then
        addBlocks stop fuel (fl.push (trailingZeros size) start) (start + size) (total + size)
      else none
    else some (fl, total)

end FreeLists

structure Heap where
  freeList : FreeLists
  user : ℕ
  allocated : ℕ
  total : ℕ

namespace Heap

open FreeLists

def empty : Heap := ⟨fun _ => [], 0, 0, 0⟩

def addToHeap (h : Heap) (start stop : ℕ) : Option Heap :=
  let start := (start + wordSize - 1) / wordSize * wordSize
  let stop := stop / wordSize * wordSize
  if start ≤ stop then
    (addBlocks stop (stop - start + 1) h.freeList start 0).map fun (fl, total) =>
      { h with freeList := fl, total := h.total + total }
  else none

def alloc (h : Heap) (l : Layout) : Option (Option ℕ × Heap) :=
  let c := l.sizeClass
  match (List.range' c (maxOrder - c)).find? fun i => ¬(h.freeList i).isEmpty with
  | none => some (none, h)
  | some i =>
    match split c (i - c) h.freeList with
    | .error fl => some (none, { h with freeList := fl })
    | .ok fl =>
      match fl c with
      | [] => none
      | block :: rest =>
        let h := { h with freeList := Function.update fl c rest }
        if block = 0 then some (none, h)
        else some (some block, { h with user := h.user + l.size, allocated := h.allocated + l.blockSize })

def settle (h : Heap) (l : Layout) (fl : FreeLists) : Option Heap :=
  if l.size ≤ h.user ∧ l.blockSize ≤ h.allocated then
    some { h with freeList := fl, user := h.user - l.size, allocated := h.allocated - l.blockSize }
  else none

def dealloc (h : Heap) (ptr : ℕ) (l : Layout) : Option Heap :=
  let c := l.sizeClass
  if c < maxOrder then h.settle l (merge (maxOrder - 1 - c) (h.freeList.push c ptr) ptr c) else none

def deallocWithBoundedMerge (h : Heap) (ptr : ℕ) (l : Layout) (maxBuddyScan : ℕ) : Option Heap :=
  let c := l.sizeClass
  if c < maxOrder then
    (mergeWithin (maxOrder - 1 - c) (h.freeList.push c ptr) ptr c maxBuddyScan).bind (h.settle l)
  else none

end Heap

def cmaPageSize : ℕ := 4096

/-- The boards that the kernel is built for. -/
inductive Board where
  | riscv64Qemu
  | visionfive2
  | loongarch64
deriving DecidableEq

/-- `KERNEL_ADDR_OFFSET`: where the direct map of the physical memory starts. -/
def Board.kernelAddrOffset : Board → ℕ
  | riscv64Qemu => 0xffff_ffc0_0000_0000
  | visionfive2 => 0xffff_ffc0_4000_0000
  | loongarch64 => 0x9000_0000_0000_0000

/-- The alignments that are asked for: one page in `cma_alloc`, and a huge page in `MapArea`. -/
def cmaAlignments : List ℕ := [1, 512]

def cmaPageBuddyScanLimit : ℕ := 256

def cmaLayout (pages alignPages : ℕ) : Option Layout :=
  if pages = 0 ∨ alignPages = 0 then none
  else if 2 ^ usizeBits ≤ pages * cmaPageSize ∨ 2 ^ usizeBits ≤ alignPages * cmaPageSize then none
  else Layout.fromSizeAlign (pages * cmaPageSize) (alignPages * cmaPageSize)

/-- `cma_alloc_aligned`, with the asserted alignment of the address. -/
def cmaAllocAligned (kernelAddrOffset : ℕ) (h : Heap) (pages alignPages : ℕ) : Option (Option ℕ × Heap) :=
  match cmaLayout pages alignPages with
  | none => some (none, h)
  | some l =>
    match h.alloc l with
    | none => none
    | some (none, h) => some (none, h)
    | some (some ptr, h) =>
      if ptr % cmaPageSize = 0 ∧ kernelAddrOffset ≤ ptr then some (some (ptr - kernelAddrOffset), h) else none

/-- `cma_dealloc_aligned`: single pages are merged with a bounded search. -/
def cmaDeallocAligned (kernelAddrOffset : ℕ) (h : Heap) (paddr pages alignPages : ℕ) : Option Heap :=
  if paddr % cmaPageSize ≠ 0 then none
  else
    match cmaLayout pages alignPages with
    | none => none
    | some l =>
      if pages = 1 then h.deallocWithBoundedMerge (paddr + kernelAddrOffset) l cmaPageBuddyScanLimit
      else h.dealloc (paddr + kernelAddrOffset) l

end Ya2yOS.Mm.Buddy
