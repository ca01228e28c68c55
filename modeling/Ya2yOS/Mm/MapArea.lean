import Ya2yOS.Lib.OrdMap
import Ya2yOS.Mm.PageTable

/-!
# Logical areas, shared groups and frames

`mm/map_area.rs`, the groups through which forked `MAP_SHARED` areas find each other's frames, and the kernel state
that every address space shares. All user areas are framed. A failed `assert!` or `unwrap` has no result.
-/

namespace Ya2yOS.Mm

open Lib

/-- The flags of `mmap`. -/
structure MmapFlags where
  shared : Bool := false
  priv : Bool := false
  fixed : Bool := false
  anonymous : Bool := false
  growsdown : Bool := false
  denywrite : Bool := false
  executable : Bool := false
  locked : Bool := false
  noreserve : Bool := false
  populate : Bool := false
  stack : Bool := false
  hugetlb : Bool := false
  fixedNoreplace : Bool := false
deriving DecidableEq, Repr

namespace MmapFlags

def ofBits (raw : ℕ) : MmapFlags where
  shared := raw.testBit 0
  priv := raw.testBit 1
  fixed := raw.testBit 4
  anonymous := raw.testBit 5
  growsdown := raw.testBit 8
  denywrite := raw.testBit 11
  executable := raw.testBit 12
  locked := raw.testBit 13
  noreserve := raw.testBit 14
  populate := raw.testBit 15
  stack := raw.testBit 17
  hugetlb := raw.testBit 18
  fixedNoreplace := raw.testBit 20

def sharedValidate (f : MmapFlags) : Bool := f.shared && f.priv

def intersectsFixed (f : MmapFlags) : Bool := f.fixed || f.fixedNoreplace

end MmapFlags

def MapPermission.ofProt (prot : ℕ) : MapPermission where
  r := prot.testBit 0
  w := prot.testBit 1
  x := prot.testBit 2
  u := true

/-- What an area is for. -/
inductive MapAreaType where
  | elf
  | stack
  | brk
  | mmap
  | trap
  | shm
deriving DecidableEq, Repr

/-- An open file description of an inode: what the mapping code reads of an `OSFile`. -/
structure OSFile where
  inode : ℕ
  readable : Bool
  writable : Bool
deriving DecidableEq, Repr

/-- The mapping backing of a memfd (`TmpFileMmapBacking`). The kernel does not record in it
whether the descriptor of the mapping was open for writing; `opened` keeps that fact. -/
structure MmapBacking where
  memfd : ℕ
  shared : Bool
  writableShared : Bool
  opened : OSFile
deriving DecidableEq, Repr

/-- What the pages of an area come from. -/
inductive MmapSource where
  | anonymous
  | inode (file : OSFile)
  | special (backing : MmapBacking)
deriving DecidableEq, Repr

/-- The source of an area, with the offset of its first page. -/
structure MmapFile where
  source : MmapSource
  offset : ℕ
deriving DecidableEq, Repr

namespace MmapFile

def empty : MmapFile := ⟨.anonymous, 0⟩

def isAnonymous (f : MmapFile) : Bool := f.source = .anonymous

def inodeFile (f : MmapFile) : Option OSFile :=
  match f.source with
  | .inode file => some file
  | _ => none

def specialBacking (f : MmapFile) : Option MmapBacking :=
  match f.source with
  | .special backing => some backing
  | _ => none

/-- The page of the source; `none` where the offset overflows. -/
def pageIndex (f : MmapFile) (vpn startVpn : ℕ) : Option ℕ :=
  if startVpn ≤ vpn ∧ (vpn - startVpn) * pageSize + f.offset < wordSize then
    some (((vpn - startVpn) * pageSize + f.offset) / pageSize)
  else none

/-- The source of an area that begins later; the offset wraps. -/
def advance (f : MmapFile) (pages : ℕ) : MmapFile :=
  { f with offset := (f.offset + pages * pageSize) % wordSize }

end MmapFile

/-- The frames of a group of shared areas, and the number of the areas. -/
structure GroupInner where
  sharedFrames : OrdMap ℕ ℕ
  mapareaNum : ℕ
deriving DecidableEq

structure GroupManager where
  unusedId : List ℕ
  groups : OrdMap ℕ GroupInner

namespace GroupManager

/-- Identifier 0 stands for no group. -/
def allocId (m : GroupManager) : ℕ × GroupManager :=
  match m.unusedId with
  | [] => (0, m)
  | id :: rest => (id, { m with unusedId := rest })

def addArea (m : GroupManager) (id : ℕ) : GroupManager :=
  if id = 0 then m
  else
    match m.groups.get? id with
    | none => { m with groups := m.groups.insert id ⟨OrdMap.empty, 1⟩ }
    | some g => { m with groups := m.groups.insert id { g with mapareaNum := g.mapareaNum + 1 } }

/-- `del_area`: unwraps the group; the last area returns the identifier. The subtraction wraps at
zero; the counter stays below the word size, as every area takes memory. -/
def delArea (m : GroupManager) (id : ℕ) : Option GroupManager :=
  if id = 0 then some m
  else
    match m.groups.get? id with
    | none => none
    | some g =>
      let num := if g.mapareaNum = 0 then wordSize - 1 else g.mapareaNum - 1
      if num = 0 then some { unusedId := id :: m.unusedId, groups := m.groups.erase id }
      else some { m with groups := m.groups.insert id { g with mapareaNum := num } }

def addFrame (m : GroupManager) (id vpn frame : ℕ) : Option GroupManager :=
  match m.groups.get? id with
  | none => none
  | some g =>
    some { m with groups :=
      m.groups.insert id { g with sharedFrames := g.sharedFrames.insert vpn frame } }

/-- `find`: group zero shares nothing, any other group is unwrapped. -/
def find (m : GroupManager) (id vpn : ℕ) : Option (Option ℕ) :=
  if id = 0 then some none
  else
    match m.groups.get? id with
    | none => none
    | some g => some (g.sharedFrames.get? vpn)

end GroupManager

/-- A page of the page cache. -/
structure FilePage where
  inode : ℕ
  pageIndex : ℕ
  validLen : ℕ
  frame : ℕ
deriving DecidableEq, Repr

/-- What the mapping code sees of a memfd: its bytes, whether a write seal is set, and the
frames of shared pages that a mapping still keeps alive. -/
structure Memfd where
  len : ℕ
  data : ℕ → UInt8
  writeSealed : Bool
  sharedPage : ℕ → Option ℕ

/-- The root entries that `new_from_kernel` copies: from the index of the kernel base on. -/
structure KernelTable where
  table : PageTable
  high : ∀ v, vpnIndex v < 2 ^ 26 → table.findPte v = none

/-- The kernel state all address spaces share: the groups, the frames the allocator will hand
out next (single pages, and bases of aligned 2 MiB blocks), the contents of frames, the cached
file pages, the memfds and the kernel half of every page table. -/
structure Globals where
  groups : GroupManager
  pages : List ℕ
  blocks : List ℕ
  mem : ℕ → ℕ → UInt8
  fileCache : List FilePage
  memfds : ℕ → Memfd
  kernel : KernelTable

namespace Globals

/-- A new frame is zeroed. -/
def alloc (g : Globals) : Option (ℕ × Globals) :=
  match g.pages with
  | [] => none
  | f :: rest => some (f, { g with pages := rest, mem := Function.update g.mem f (fun _ => 0) })

/-- `cma_alloc_aligned` of a 2 MiB block, whose frames are zeroed as they are wrapped. -/
def allocBlock (g : Globals) : Option (ℕ × Globals) :=
  match g.blocks with
  | [] => none
  | b :: rest =>
    some (b, { g with
      blocks := rest
      mem := fun f => if b ≤ f ∧ f < b + hugePagePages then fun _ => 0 else g.mem f })

def copyPage (g : Globals) (dst src : ℕ) : Globals :=
  { g with mem := Function.update g.mem dst (g.mem src) }

def loadPage (g : Globals) (dst len : ℕ) (bytes : ℕ → UInt8) : Globals :=
  { g with mem := Function.update g.mem dst (fun i => if i < len then bytes i else 0) }

def addArea (g : Globals) (id : ℕ) : Globals := { g with groups := g.groups.addArea id }

def dropArea (g : Globals) (id : ℕ) : Option Globals :=
  (g.groups.delArea id).map fun groups => { g with groups := groups }

/-- `MmapBacking::allows_write` of a memfd: only the seals of a shared mapping count. -/
def allowsWrite (g : Globals) (b : MmapBacking) : Bool :=
  !b.shared || !(g.memfds b.memfd).writeSealed

end Globals

/-- `MapArea`: a contiguous range of pages of an address space, with the frames that are
resident in it. -/
structure MapArea where
  vpnRange : VPNRange
  dataFrames : OrdMap ℕ ℕ
  mapPerm : MapPermission
  areaType : MapAreaType
  mmapFile : MmapFile
  mmapFlags : MmapFlags
  groupid : ℕ
deriving DecidableEq

namespace MapArea

def new (startVa endVa : ℕ) (mapPerm : MapPermission) (areaType : MapAreaType) : Option MapArea := do
  let r ← VPNRange.new? (floorVpn startVa) (ceilVpn endVa)
  return ⟨r, OrdMap.empty, mapPerm, areaType, MmapFile.empty, {}, 0⟩

/-- A shared mapping joins a new group. -/
def newMmap (g : Globals) (startVa endVa : ℕ) (mapPerm : MapPermission) (areaType : MapAreaType)
    (mmapFlags : MmapFlags) (mmapFile : MmapFile) : Option (MapArea × Globals) := do
  let r ← VPNRange.new? (floorVpn startVa) (ceilVpn endVa)
  let (id, groups) :=
    if mmapFlags.shared then
      let (id, groups) := g.groups.allocId
      (id, groups.addArea id)
    else (0, g.groups)
  return (⟨r, OrdMap.empty, mapPerm, areaType, mmapFile, mmapFlags, id⟩, { g with groups := groups })

/-- A copy of an area without its records. -/
def fromAnother (a : MapArea) : MapArea := { a with dataFrames := OrdMap.empty }

def isHuge (a : MapArea) : Bool := a.mmapFlags.hugetlb

/-- Made by `mmap`; a stack counts if it was mapped with MAP_STACK. -/
def isMmapVma (a : MapArea) : Bool :=
  a.areaType = .mmap || (a.areaType = .stack && a.mmapFlags.stack)

def overlaps (a : MapArea) (l h : ℕ) : Prop := a.vpnRange.overlaps l h
deriving Decidable

def insertFrame (a : MapArea) (vpn frame : ℕ) : MapArea :=
  { a with dataFrames := a.dataFrames.insert vpn frame }

/-- `map_one`: a fresh frame for one page; asserts that the page is not mapped. -/
def mapOne (g : Globals) (pt : PageTable) (a : MapArea) (vpn : ℕ) :
    Option (Option ℕ × Globals × PageTable × MapArea) :=
  match g.alloc with
  | none => some (none, g, pt, a)
  | some (frame, g) => do
    let pt ← pt.mapByPteFlags vpn frame (RVPTEFlags.ofPerm a.mapPerm)
    return (some frame, g, pt, a.insertFrame vpn frame)

def unmapOne (pt : PageTable) (a : MapArea) (vpn : ℕ) : PageTable × MapArea :=
  (pt.unmap vpn, { a with dataFrames := a.dataFrames.erase vpn })

def unmapPages (pt : PageTable) (a : MapArea) (l h : ℕ) : PageTable × MapArea :=
  (vpns l h).foldl (fun s vpn => unmapOne s.1 s.2 vpn) (pt, a)

def unmapAll (pt : PageTable) (a : MapArea) : PageTable × MapArea :=
  unmapPages pt a a.vpnRange.start a.vpnRange.stop

/-- Maps pages to frames that exist. -/
def mapGivenFrames (pt : PageTable) (a : MapArea) : List (ℕ × ℕ) → Option (PageTable × MapArea)
  | [] => some (pt, a)
  | (vpn, frame) :: rest => do
    let pt ← pt.mapByPteFlags vpn frame (RVPTEFlags.ofPerm a.mapPerm)
    mapGivenFrames pt (a.insertFrame vpn frame) rest

/-- The records of a huge page. -/
def insertBlock (a : MapArea) (vpn base : ℕ) : MapArea :=
  { a with dataFrames :=
      (List.range hugePagePages).foldl (fun m k => m.insert (vpn + k) (base + k)) a.dataFrames }

@[simp] lemma isHuge_withFrames (a : MapArea) (m : OrdMap ℕ ℕ) : { a with dataFrames := m }.isHuge = a.isHuge := rfl

@[simp] lemma isMmapVma_withFrames (a : MapArea) (m : OrdMap ℕ ℕ) :
    { a with dataFrames := m }.isMmapVma = a.isMmapVma := rfl

@[simp] lemma insertBlock_vpnRange (a : MapArea) (v b : ℕ) :
    (a.insertBlock v b).vpnRange = a.vpnRange := by unfold insertBlock; rfl

@[simp] lemma insertBlock_isHuge (a : MapArea) (v b : ℕ) : (a.insertBlock v b).isHuge = a.isHuge :=
  isHuge_withFrames a _

@[simp] lemma insertBlock_isMmapVma (a : MapArea) (v b : ℕ) :
    (a.insertBlock v b).isMmapVma = a.isMmapVma := isMmapVma_withFrames a _

def hugeChunks (r : VPNRange) : List ℕ :=
  List.range' r.start ((r.stop - r.start) / hugePagePages) hugePagePages

def mapHugeLoop (g : Globals) (pt : PageTable) (a : MapArea) :
    List ℕ → Option (Bool × Globals × PageTable × MapArea)
  | [] => some (true, g, pt, a)
  | vpn :: rest =>
    match g.allocBlock with
    | none =>
      let (pt, a) := unmapAll pt a
      some (false, g, pt, a)
    | some (base, g) => do
      let pt ← pt.mapMegaPage vpn base (RVPTEFlags.ofPerm a.mapPerm)
      mapHugeLoop g pt (a.insertBlock vpn base) rest

/-- Maps an area by huge pages; `false` where it fails. -/
def mapHuge (g : Globals) (pt : PageTable) (a : MapArea) :
    Option (Bool × Globals × PageTable × MapArea) :=
  if a.vpnRange.start % hugePagePages ≠ 0 ∨ a.vpnRange.stop % hugePagePages ≠ 0 ∨ a.mapPerm.isEmpty then
    some (false, g, pt, a)
  else mapHugeLoop g pt a (hugeChunks a.vpnRange)

def mapHugeGivenLoop (pt : PageTable) (a : MapArea) :
    List ℕ → List ℕ → Option (Bool × PageTable × MapArea)
  | [], _ => some (true, pt, a)
  | vpn :: rest, frames =>
    match frames with
    | [] => none
    | base :: _ =>
      if base % hugePagePages ≠ 0 then some (false, pt, a)
      else do
        let a' := (List.range hugePagePages).zip frames |>.foldl
          (fun (a : MapArea) (p : ℕ × ℕ) => a.insertFrame (vpn + p.1) p.2) a
        let pt ← pt.mapMegaPage vpn base (RVPTEFlags.ofPerm a.mapPerm)
        mapHugeGivenLoop pt a' rest (frames.drop hugePagePages)

/-- Maps huge pages to frames that exist. -/
def mapHugeGivenFrames (pt : PageTable) (a : MapArea) (frames : List ℕ) :
    Option (Bool × PageTable × MapArea) :=
  if a.mapPerm.isEmpty ∨ a.vpnRange.stop - a.vpnRange.start ≠ frames.length ∨
      a.vpnRange.start % hugePagePages ≠ 0 ∨
      (a.vpnRange.stop - a.vpnRange.start) % hugePagePages ≠ 0 then
    some (false, pt, a)
  else mapHugeGivenLoop pt a (hugeChunks a.vpnRange) frames

end MapArea

end Ya2yOS.Mm
