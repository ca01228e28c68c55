import Ya2yOS.Mm.PageFault

/-!
# Duplicating an address space

`from_existed_user` of `mm/memory_set/fork_clone.rs`. Private pages are inherited copy-on-write and shared ones by
their frames. The fixed stack and the trap context are rebuilt elsewhere.
-/

namespace Ya2yOS.Mm

open Lib

/-- Make one page of a shared area resident before the fork. Running out of frames is ignored. -/
def prefaultPage (prefetched : List FilePage) (g : Globals) (pt : PageTable) (area : MapArea) (vpn : ℕ) :
    Option (Globals × PageTable × MapArea) :=
  if (area.dataFrames.get? vpn).isSome then some (g, pt, area)
  else
    match area.mmapFile.source with
    | .anonymous => (area.mapOne g pt vpn).map Prod.snd
    | .inode file =>
      let prepared := (area.mmapFile.pageIndex vpn area.vpnRange.start).bind fun index =>
        prefetched.find? fun p => p.inode = file.inode && p.pageIndex = index
      (mmapWritePageFault g pt area vpn prepared).map Prod.snd
    | .special _ => (mmapWritePageFault g pt area vpn none).map Prod.snd

def prefaultPages (prefetched : List FilePage) :
    List ℕ → Globals → PageTable → MapArea → Option (Globals × PageTable × MapArea)
  | [], g, pt, area => some (g, pt, area)
  | vpn :: rest, g, pt, area => do
    let (g, pt, area) ← prefaultPage prefetched g pt area vpn
    prefaultPages prefetched rest g pt area

def prefaultAreas (prefetched : List FilePage) :
    List MapArea → Globals → PageTable → Option (Globals × PageTable × List MapArea)
  | [], g, pt => some (g, pt, [])
  | a :: rest, g, pt => do
    let (g, pt, a) ←
      if a.isMmapVma ∧ a.mmapFlags.shared then
        prefaultPages prefetched (vpns a.vpnRange.start a.vpnRange.stop) g pt a
      else some (g, pt, a)
    let (g, pt, rest) ← prefaultAreas prefetched rest g pt
    return (g, pt, a :: rest)

def cowPage (pt child : PageTable) (vpn : ℕ) : Option (PageTable × PageTable) :=
  match pt.translate vpn, pt.findPte vpn with
  | some src, some (_, p) => do
    let child ← child.mapByPteFlags vpn src p.flags.toCow
    return (pt.updateFlags vpn RVPTEFlags.toCow, child)
  | _, _ => some (pt, child)

def cowPages : List ℕ → PageTable → PageTable → Option (PageTable × PageTable)
  | [], pt, child => some (pt, child)
  | vpn :: rest, pt, child => do
    let (pt, child) ← cowPage pt child vpn
    cowPages rest pt child

def rebuiltByClone (a : MapArea) : Bool :=
  (a.areaType = .stack && !a.mmapFlags.stack) || a.areaType = .trap

/-- The pages of a private or ELF area that are inherited copy-on-write: those that have a
record, or for the heap and ELF segments every page. -/
def cowVpns (a : MapArea) : List ℕ :=
  if a.areaType = .brk ∨ a.areaType = .elf then vpns a.vpnRange.start a.vpnRange.stop
  else a.dataFrames.keys

def copyMapped (g : Globals) (pt child : PageTable) (l : List ℕ) : Globals :=
  l.foldl (fun g vpn =>
    match pt.translate vpn, child.translate vpn with
    | some src, some dst => g.copyPage dst src
    | _, _ => g) g

def forkHuge (g : Globals) (pt : PageTable) (child : MemorySetInner) (a : MapArea) :
    Option (Globals × MemorySetInner) :=
  if a.mmapFlags.shared then do
    let (ok, childPt, new) ← a.fromAnother.mapHugeGivenFrames child.pageTable a.dataFrames.values
    let child := { child with pageTable := childPt }
    if ok then return (g, child.pushLazily new)
    else
      let g ← g.dropArea new.groupid
      return (g, child)
  else do
    let (ok, g, childPt, new) ← a.fromAnother.mapHuge g child.pageTable
    let child := { child with pageTable := childPt }
    if ok then
      let g := copyMapped g pt childPt (vpns a.vpnRange.start a.vpnRange.stop)
      return (g, child.pushLazily new)
    else
      let g ← g.dropArea new.groupid
      return (g, child)

/-- The body of the second loop of `from_existed_user`. A shared area pairs its frames with the
pages of its range from the first on. -/
def forkArea (g : Globals) (pt : PageTable) (child : MemorySetInner) (a : MapArea) :
    Option (Globals × PageTable × MemorySetInner) :=
  if rebuiltByClone a then some (g, pt, child)
  else
    let g := if a.isMmapVma ∧ a.mmapFlags.shared then g.addArea a.groupid else g
    if a.isHuge then do
      let (g, child) ← forkHuge g pt child a
      return (g, pt, child)
    else if ((a.isMmapVma ∨ a.areaType = .brk) ∧ a.mmapFlags.shared) ∨ a.areaType = .shm then do
      let pairs := (vpns a.vpnRange.start a.vpnRange.stop).zip a.dataFrames.values
      let (childPt, new) ← a.fromAnother.mapGivenFrames child.pageTable pairs
      return (g, pt, { child with pageTable := childPt }.pushLazily new)
    else do
      let (pt, childPt) ← cowPages (cowVpns a) pt child.pageTable
      return (g, pt, { child with pageTable := childPt }.pushLazily a)

def forkAreas : List MapArea → Globals → PageTable → MemorySetInner →
    Option (Globals × PageTable × MemorySetInner)
  | [], g, pt, child => some (g, pt, child)
  | a :: rest, g, pt, child => do
    let (g, pt, child) ← forkArea g pt child a
    forkAreas rest g pt child

namespace MemorySetInner

def newFromKernel (g : Globals) : MemorySetInner := ⟨g.kernel.table, [], 0, mmapTop⟩

def fromExistedUser (s : MemorySetInner) (g : Globals) (prefetched : List FilePage) :
    Option (MemorySetInner × MemorySetInner × Globals) := do
  let (g, pt, areas) ← prefaultAreas prefetched s.areas g s.pageTable
  let (g, pt, child) ← forkAreas areas g pt (newFromKernel g)
  return ({ s with pageTable := pt, areas := areas }, child, g)

def recycleDataPages (s : MemorySetInner) (g : Globals) : Option (MemorySetInner × Globals) := do
  let g ← s.areas.foldlM (fun g a => g.dropArea a.groupid) g
  return (⟨PageTable.empty, [], 0, mmapTop⟩, g)

end MemorySetInner

end Ya2yOS.Mm
