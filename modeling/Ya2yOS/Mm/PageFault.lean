import Ya2yOS.Mm.AreaOps

/-!
# Page faults

`mm/page_fault_handler.rs` and `mm/memory_set/pagefault.rs`. The file page that a fault may need was loaded before.
`strongCount` counts the references to a frame in the whole kernel.
-/

namespace Ya2yOS.Mm

open Lib

inductive FaultCause where
  | load
  | fetch
  | store
  | privilege
deriving DecidableEq, Repr

/-- What a handler that may panic leaves: whether the fault is repaired, and the state. -/
abbrev FaultResult := Option (Bool × Globals × PageTable × MapArea)

def filePageForFault (g : Globals) (vma : MapArea) (vpn : ℕ) (prepared : Option FilePage) :
    Option FilePage := do
  let file ← vma.mmapFile.inodeFile
  let index ← vma.mmapFile.pageIndex vpn vma.vpnRange.start
  let fits := fun p : FilePage => p.inode = file.inode && p.pageIndex = index && 0 < p.validLen
  match prepared.filter fits with
  | some p => some p
  | none => g.fileCache.find? fits

def installShared (g : Globals) (pt : PageTable) (vma : MapArea) (vpn frame : ℕ) : FaultResult := do
  let pt ← pt.handleMmapReadPageFault vpn frame vma.mapPerm vma.mmapFlags.shared
  return (true, g, pt, vma.insertFrame vpn frame)

def mapFilePage (g : Globals) (pt : PageTable) (vma : MapArea) (vpn : ℕ) (prepared : Option FilePage) :
    FaultResult :=
  match filePageForFault g vma vpn prepared with
  | none => some (false, g, pt, vma)
  | some page => installShared g pt vma vpn page.frame

def specialPageIndex (g : Globals) (vma : MapArea) (b : MmapBacking) (vpn : ℕ) : Option ℕ := do
  let index ← vma.mmapFile.pageIndex vpn vma.vpnRange.start
  if index * pageSize < (g.memfds b.memfd).len then some index else none

def memfdPageLen (g : Globals) (b : MmapBacking) (index : ℕ) : ℕ :=
  min ((g.memfds b.memfd).len - index * pageSize) pageSize

def sharedPage (g : Globals) (b : MmapBacking) (index : ℕ) : Option (ℕ × Globals) :=
  if !b.shared then none
  else
    match (g.memfds b.memfd).sharedPage index with
    | some frame => some (frame, g)
    | none => do
      let (frame, g) ← g.alloc
      let m := g.memfds b.memfd
      let g := g.loadPage frame (memfdPageLen g b index) (fun i => m.data (index * pageSize + i))
      let m := { m with sharedPage := Function.update m.sharedPage index (some frame) }
      return (frame, { g with memfds := Function.update g.memfds b.memfd m })

def mapSpecialSharedPage (g : Globals) (pt : PageTable) (vma : MapArea) (b : MmapBacking) (vpn : ℕ) :
    FaultResult :=
  match specialPageIndex g vma b vpn with
  | none => some (false, g, pt, vma)
  | some index =>
    match sharedPage g b index with
    | none => some (false, g, pt, vma)
    | some (frame, g) => installShared g pt vma vpn frame

/-- `map_special_private_page`: the page is mapped writable first and made COW on top. -/
def mapSpecialPrivatePage (g : Globals) (pt : PageTable) (vma : MapArea) (b : MmapBacking) (vpn : ℕ) :
    FaultResult :=
  match specialPageIndex g vma b vpn with
  | none => some (false, g, pt, vma)
  | some index =>
    match g.alloc with
    | none => some (false, g, pt, vma)
    | some (frame, g) => do
      let g := g.loadPage frame (memfdPageLen g b index)
        (fun i => (g.memfds b.memfd).data (index * pageSize + i))
      let pt ← pt.mapByPteFlags vpn frame (RVPTEFlags.ofPerm vma.mapPerm)
      let pt ← pt.handleMmapWritePageFault vpn vma.mapPerm vma.mmapFlags.shared
      return (true, g, pt, vma.insertFrame vpn frame)

def mapOwnPage (g : Globals) (pt : PageTable) (vma : MapArea) (vpn : ℕ) (page : Option FilePage) :
    FaultResult := do
  let (ppn, g, pt, vma) ← vma.mapOne g pt vpn
  match ppn with
  | none => return (false, g, pt, vma)
  | some frame =>
    let g := match page with
      | some p => g.loadPage frame p.validLen (g.mem p.frame)
      | none => g
    let pt ← pt.handleMmapWritePageFault vpn vma.mapPerm vma.mmapFlags.shared
    return (true, g, pt, vma)

def mmapWritePageFault (g : Globals) (pt : PageTable) (vma : MapArea) (vpn : ℕ)
    (prepared : Option FilePage) : FaultResult :=
  match vma.mmapFile.source with
  | .special b =>
    if vma.mmapFlags.shared then mapSpecialSharedPage g pt vma b vpn
    else mapSpecialPrivatePage g pt vma b vpn
  | .inode _ =>
    match filePageForFault g vma vpn prepared with
    | none => some (false, g, pt, vma)
    | some page =>
      if vma.mmapFlags.shared then mapFilePage g pt vma vpn prepared
      else mapOwnPage g pt vma vpn (some page)
  | .anonymous => mapOwnPage g pt vma vpn none

def publishFrame (r : FaultResult) (vpn : ℕ) : FaultResult := do
  let (ok, g, pt, vma) ← r
  if !ok ∨ vma.groupid = 0 then return (ok, g, pt, vma)
  else
    let frame ← vma.dataFrames.get? vpn
    let groups ← g.groups.addFrame vma.groupid vpn frame
    return (true, { g with groups := groups }, pt, vma)

def mmapReadPageFault (g : Globals) (pt : PageTable) (vma : MapArea) (vpn : ℕ)
    (prepared : Option FilePage) : FaultResult := do
  match ← g.groups.find vma.groupid vpn with
  | some frame => installShared g pt vma vpn frame
  | none =>
    match vma.mmapFile.source with
    | .special b =>
      if vma.mmapFlags.shared then mapSpecialSharedPage g pt vma b vpn
      else mapSpecialPrivatePage g pt vma b vpn
    | _ =>
      let (ok, g, pt, vma) ← mapFilePage g pt vma vpn prepared
      if ok then return (true, g, pt, vma)
      else publishFrame (mmapWritePageFault g pt vma vpn prepared) vpn

def lazyPageFault (g : Globals) (pt : PageTable) (vma : MapArea) (vpn : ℕ) : FaultResult := do
  let (ppn, g, pt, vma) ← vma.mapOne g pt vpn
  return (ppn.isSome, g, pt, vma)

def mmapNotPresentFault (g : Globals) (pt : PageTable) (area : MapArea) (vpn : ℕ) (cause : FaultCause)
    (prepared : Option FilePage) : FaultResult :=
  match cause with
  | .load =>
    if area.mapPerm.r then mmapReadPageFault g pt area vpn prepared else some (false, g, pt, area)
  | .fetch =>
    if area.mapPerm.x then mmapReadPageFault g pt area vpn prepared else some (false, g, pt, area)
  | .privilege =>
    if area.mapPerm.r ∨ area.mapPerm.x then mmapReadPageFault g pt area vpn prepared
    else if area.mapPerm.w then mmapWritePageFault g pt area vpn prepared
    else some (false, g, pt, area)
  | .store =>
    if area.mapPerm.w then mmapWritePageFault g pt area vpn prepared else some (false, g, pt, area)

def lazyAllowed (perm : MapPermission) : FaultCause → Bool
  | .load => perm.r
  | .fetch => perm.x
  | .privilege => perm.r || perm.w || perm.x
  | .store => perm.w

/-- The PTE half of a COW fault (`handle_write_protect_page_fault`). A frame referenced once is
taken over; any other is copied, if the area tracks the frame that is mapped. -/
def writeProtectPageFault (strongCount : ℕ → ℕ) (g : Globals) (pt : PageTable) (vma : MapArea)
    (vpn : ℕ) : Bool × Globals × PageTable × MapArea :=
  match pt.findPte vpn with
  | none => (false, g, pt, vma)
  | some (_, p) =>
    if !p.flags.cow then
      if p.flags.writeable then (true, g, pt.updateFlags vpn ({ · with dirty := true }), vma)
      else (false, g, pt, vma)
    else
      let tracked := vma.dataFrames.get? vpn
      if tracked.any (strongCount · = 1) then
        (true, g, pt.updateFlags vpn ({ · with
          cow := false, writeable := true, readable := true, dirty := true }), vma)
      else
        let src := (pt.translate vpn).getD p.ppn
        if tracked.any (· ≠ src) then (false, g, pt, vma)
        else
          match g.alloc with
          | none => (false, g, pt, vma)
          | some (frame, g) =>
            let flags := { p.flags with cow := false, writeable := true, dirty := true }
            (true, g.copyPage frame src, pt.setPte vpn ⟨frame, flags⟩, vma.insertFrame vpn frame)

def lowestArea (p : MapArea → Bool) : List MapArea → Option (ℕ × MapArea)
  | [] => none
  | a :: rest =>
    match lowestArea p rest with
    | none => if p a then some (0, a) else none
    | some (j, b) =>
      if p a ∧ a.vpnRange.start ≤ b.vpnRange.start then some (0, a) else some (j + 1, b)

def stackGuardGapPages : ℕ := 256

def growsDownTo (vpn : ℕ) (a : MapArea) : Bool :=
  a.areaType = .mmap && a.mmapFlags.growsdown && a.mmapFlags.priv && a.mmapFile.isAnonymous &&
    vpn < a.vpnRange.start

namespace MemorySetInner

def putArea (s : MemorySetInner) (i : ℕ) (pt : PageTable) (area : MapArea) : MemorySetInner :=
  { s with pageTable := pt, areas := s.areas.set i area }

def growdownFault (s : MemorySetInner) (g : Globals) (vpn : ℕ) (cause : FaultCause)
    (prepared : Option FilePage) : Option (Bool × MemorySetInner × Globals) :=
  if s.areas.any (fun a => vpn ∈ a.vpnRange) then some (false, s, g)
  else
    match lowestArea (growsDownTo vpn) s.areas with
    | none => some (false, s, g)
    | some (i, area) =>
      let others := s.areas.eraseIdx i
      if others.any (fun a => a.overlaps vpn area.vpnRange.start) then some (false, s, g)
      else if others.any (fun a => a.vpnRange.stop ≤ vpn &&
          decide (vpn - a.vpnRange.stop < stackGuardGapPages)) then some (false, s, g)
      else do
        let (ok, g, pt, area) ← mmapNotPresentFault g s.pageTable area vpn cause prepared
        if !ok then return (false, s.putArea i pt area, g)
        else
          let r ← VPNRange.new? vpn area.vpnRange.stop
          return (true, s.putArea i pt { area with vpnRange := r }, g)

def handleNotPresentPageFault (s : MemorySetInner) (g : Globals) (vpn : ℕ) (cause : FaultCause)
    (prepared : Option FilePage) : Option (Bool × MemorySetInner × Globals) :=
  if (s.pageTable.translate vpn).isSome then some (false, s, g)
  else
    match s.areas.findIdx? (fun a => a.areaType = .mmap && vpn ∈ a.vpnRange) with
    | some i => do
      let area ← s.areas[i]?
      let (ok, g, pt, area) ← mmapNotPresentFault g s.pageTable area vpn cause prepared
      return (ok, s.putArea i pt area, g)
    | none =>
      match s.areas.findIdx? (fun a =>
          (a.areaType = .brk || a.areaType = .stack || a.areaType = .elf) && vpn ∈ a.vpnRange) with
      | some i => do
        let area ← s.areas[i]?
        if lazyAllowed area.mapPerm cause then
          let (ok, g, pt, area) ← lazyPageFault g s.pageTable area vpn
          return (ok, s.putArea i pt area, g)
        else return (false, s, g)
      | none => s.growdownFault g vpn cause prepared

def handleWriteProtectPageFault (strongCount : ℕ → ℕ) (s : MemorySetInner) (g : Globals) (vpn : ℕ)
    (cause : FaultCause) : Option (Bool × MemorySetInner × Globals) :=
  if cause = .load ∨ cause = .fetch then some (false, s, g)
  else
    match s.areas.findIdx? (fun a => (a.areaType = .elf || a.areaType = .brk ||
        a.areaType = .mmap || a.areaType = .stack) && vpn ∈ a.vpnRange) with
    | none => some (false, s, g)
    | some i => do
      let area ← s.areas[i]?
      let (ok, g, pt, area) := writeProtectPageFault strongCount g s.pageTable area vpn
      return (ok, s.putArea i pt area, g)

def handlePageFault (strongCount : ℕ → ℕ) (s : MemorySetInner) (g : Globals) (vpn : ℕ)
    (cause : FaultCause) (prepared : Option FilePage) : Option (Bool × MemorySetInner × Globals) := do
  let (ok, s, g) ← s.handleNotPresentPageFault g vpn cause prepared
  if ok then return (true, s, g) else s.handleWriteProtectPageFault strongCount g vpn cause

end MemorySetInner

end Ya2yOS.Mm
