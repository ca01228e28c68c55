import Ya2yOS.Mm.MmapOps

/-!
# mremap

`mremap_maymove` and `mremap_in_place`. Both first cut the source range out of its area, and
leave the cut in place when they fail later.
-/

namespace Ya2yOS.Mm

open Lib
open Logged (lift)

namespace MapArea

/-- The pages of an area below `c`. -/
def lowPart (a : MapArea) (c : ℕ) (h : a.vpnRange.start ≤ c) : MapArea :=
  { a with
    vpnRange := ⟨a.vpnRange.start, c, h⟩
    dataFrames := a.dataFrames.restrict (· < c) }

/-- The pages of an area from `c` on. -/
def highPart (a : MapArea) (c : ℕ) (h : c ≤ a.vpnRange.stop) : MapArea :=
  { a with
    vpnRange := ⟨c, a.vpnRange.stop, h⟩
    mmapFile := a.mmapFile.advance (c - a.vpnRange.start)
    dataFrames := a.dataFrames.restrict (c ≤ ·) }

end MapArea

namespace MemorySetInner

/-- The first mapping or segment that contains the range. -/
def mremapSource (s : MemorySetInner) (oldStart oldEnd : ℕ) : Option ℕ :=
  s.areas.findIdx? fun a => (a.isMmapVma || decide (a.areaType = .shm)) &&
    decide (a.vpnRange.start ≤ oldStart) && decide (oldEnd ≤ a.vpnRange.stop)

/-- The part before the range becomes an area of its own; the index of the rest may move. -/
def splitFront (s : MemorySetInner) (g : Globals) (i : ℕ) (area : MapArea) (oldStart : ℕ)
    (h : area.vpnRange.start < oldStart ∧ oldStart ≤ area.vpnRange.stop) :
    MemorySetInner × Globals × ℕ :=
  let front := area.lowPart oldStart (Nat.le_of_lt h.1)
  let (areas, frontIdx) := insertAreaSortedUnmerged (s.areas.set i (area.highPart oldStart h.2)) front
  ({ s with areas := areas }, g.addArea front.groupid, if frontIdx ≤ i then i + 1 else i)

/-- The part behind the range becomes an area of its own. -/
def splitTail (s : MemorySetInner) (g : Globals) (i : ℕ) (area : MapArea) (oldEnd : ℕ)
    (h : area.vpnRange.start ≤ oldEnd ∧ oldEnd < area.vpnRange.stop) : MemorySetInner × Globals :=
  let tail := area.highPart oldEnd (Nat.le_of_lt h.2)
  ({ s with areas := (insertAreaSortedUnmerged (s.areas.set i (area.lowPart oldEnd h.1)) tail).1 },
    g.addArea tail.groupid)

/-- The range becomes an area of its own. -/
def isolate (s : MemorySetInner) (g : Globals) (i oldStart oldEnd : ℕ) :
    Option (MemorySetInner × Globals × ℕ) := do
  let area ← s.areas[i]?
  let (s, g, i) :=
    if h : area.vpnRange.start < oldStart ∧ oldStart ≤ area.vpnRange.stop then
      s.splitFront g i area oldStart h
    else (s, g, i)
  let area ← s.areas[i]?
  let (s, g) :=
    if h : area.vpnRange.start ≤ oldEnd ∧ oldEnd < area.vpnRange.stop then
      s.splitTail g i area oldEnd h
    else (s, g)
  return (s, g, i)

/-- The frame of a mapped page, if some area has a record of it. -/
def sourceFrame (s : MemorySetInner) (source : MapArea) (oldVpn oldPpn : ℕ) : Option ℕ :=
  if source.dataFrames.get? oldVpn = some oldPpn then some oldPpn
  else if s.areas.any (fun a => a.dataFrames.values.contains oldPpn) then some oldPpn
  else none

/-- Every mapped page of the source is copied into a new frame; a failure unmaps the copies. -/
def copyLoop (s : MemorySetInner) (source : MapArea) (oldStart newStart : ℕ) :
    List ℕ → Globals → PageTable → MapArea → Option (Option SysErrNo × Globals × PageTable × MapArea)
  | [], g, pt, new => some (none, g, pt, new)
  | k :: rest, g, pt, new =>
    match pt.translate (oldStart + k) with
    | none => copyLoop s source oldStart newStart rest g pt new
    | some oldPpn =>
      match s.sourceFrame source (oldStart + k) oldPpn with
      | none =>
        let (pt, new) := new.unmapAll pt
        some (some .EFAULT, g, pt, new)
      | some src => do
        let (ppn, g, pt, new) ← new.mapOne g pt (newStart + k)
        match ppn with
        | none =>
          let (pt, new) := new.unmapAll pt
          return (some .ENOMEM, g, pt, new)
        | some dst => copyLoop s source oldStart newStart rest (g.copyPage dst src) pt new

end MemorySetInner

namespace Conv

/-- The pages go to a new area, and the old one is removed. -/
def moveTo (s : MemorySetInner) (g : Globals) (i : ℕ) (oldStart oldEnd dest newLen newTotal : ℕ) :
    Conv (SyscallRet × MemorySetInner × Globals) := do
  match checkedAdd dest newLen with
  | none => return (.error .ENOMEM, s, g)
  | some newEnd =>
    let first ← toVirtAddr dest
    let last ← toVirtAddr newEnd
    lift do
      let source ← s.areas[i]?
      let r ← VPNRange.new? (floorVpn first) (ceilVpn last)
      let new : MapArea := { source.fromAnother with
        vpnRange := r
        mmapFlags := { source.mmapFlags with fixed := false, fixedNoreplace := false } }
      let g := g.addArea new.groupid
      let count := min (oldEnd - oldStart) (r.stop - r.start)
      let (err, g, pt, new) ← s.copyLoop source oldStart r.start (List.range count) g s.pageTable new
      match err with
      | some e =>
        let g ← g.dropArea new.groupid
        return (.error e, { s with pageTable := pt }, g)
      | none =>
        let (pt, old) := source.unmapAll pt
        let g ← g.dropArea old.groupid
        let s := { s with pageTable := pt, areas := s.areas.eraseIdx i }.pushLazily new
        return (.ok dest, { s with totalMmapSize := newTotal }, g)

/-- The checks after the cut: the flags, the length and the total of the mappings. -/
def mremapBudget (s : MemorySetInner) (g : Globals) (i oldAddr oldStart oldEnd newLen newAddr : ℕ)
    (fixed : Bool) : Conv (SyscallRet × MemorySetInner × Globals) := do
  let source ← lift s.areas[i]?
  let oldLen := (oldEnd - oldStart) * pageSize
  let accounted := !source.mmapFlags.intersectsFixed
  if source.mmapFlags.sharedValidate then return (.error .ENOSYS, s, g)
  else if newLen = oldLen ∧ !fixed then return (.ok oldAddr, s, g)
  else if accounted ∧ s.totalMmapSize < oldLen then return (.error .EINVAL, s, g)
  else
    let newTotal := (if accounted then s.totalMmapSize - oldLen else s.totalMmapSize) + newLen
    if maxMmapSize < newTotal then return (.error .ENOMEM, s, g)
    else
      let (dest, s) ← if fixed then pure (newAddr, s) else findMmapAddr s newLen
      if dest = 0 then return (.error .ENOMEM, s, g)
      else moveTo s g i oldStart oldEnd dest newLen newTotal

/-- The beginning of both calls: the range becomes an area of its own. -/
def withSource (s : MemorySetInner) (g : Globals) (oldAddr oldLen : ℕ)
    (rest : ℕ → ℕ → ℕ → MemorySetInner × Globals × ℕ → Conv (SyscallRet × MemorySetInner × Globals)) :
    Conv (SyscallRet × MemorySetInner × Globals) :=
  match checkedAdd oldAddr oldLen with
  | none => pure (.error .EINVAL, s, g)
  | some oldEndAddr => do
    let first ← toVirtAddr oldAddr
    let last ← toVirtAddr oldEndAddr
    let oldStart := floorVpn first
    let oldEnd := ceilVpn last
    match s.mremapSource oldStart oldEnd with
    | none => return (.error .EFAULT, s, g)
    | some i =>
      let area ← lift s.areas[i]?
      if area.isHuge then return (.error .EOPNOTSUPP, s, g)
      else
        let r ← lift (s.isolate g i oldStart oldEnd)
        rest oldEndAddr oldStart oldEnd r

/-- With `fixed` the destination is unmapped first, after the source has been cut out. -/
def mremapMaymove (s : MemorySetInner) (g : Globals) (oldAddr oldLen newLen newAddr : ℕ) (fixed : Bool) :
    Conv (SyscallRet × MemorySetInner × Globals) :=
  withSource s g oldAddr oldLen fun oldEndAddr oldStart oldEnd (s, g, i) =>
    if !fixed then mremapBudget s g i oldAddr oldStart oldEnd newLen newAddr false
    else
      match checkedAdd newAddr newLen with
      | none => pure (.error .EINVAL, s, g)
      | some newEnd =>
        if userSpaceSize < newEnd ∨ !canonical newAddr ∨ !canonical (newEnd - 1) then pure (.error .EINVAL, s, g)
        else if newAddr < oldEndAddr ∧ oldAddr < newEnd then pure (.error .EINVAL, s, g)
        else do
          let (r, s, g) ← munmap s g newAddr newLen
          match r with
          | .error e => return (.error e, s, g)
          | .ok _ =>
            match s.mremapSource oldStart oldEnd with
            | none => return (.error .EFAULT, s, g)
            | some i => mremapBudget s g i oldAddr oldStart oldEnd newLen newAddr true

/-- An area grows if the range behind it is free. -/
def growInPlace (s : MemorySetInner) (g : Globals) (i oldAddr oldStart oldEnd oldLen newLen : ℕ) :
    Conv (SyscallRet × MemorySetInner × Globals) :=
  match checkedAdd oldAddr newLen with
  | none => pure (.error .EINVAL, s, g)
  | some newEndAddr =>
    if userSpaceSize < newEndAddr ∨ !canonical oldAddr ∨ !canonical (newEndAddr - 1) then
      pure (.error .EINVAL, s, g)
    else do
      let last ← toVirtAddr newEndAddr
      let newEnd := ceilVpn last
      lift do
        if (s.areas.eraseIdx i).any (fun a => a.overlaps oldEnd newEnd) then
          return (.error .ENOMEM, s, g)
        else
          let area ← s.areas[i]?
          let newTotal := if area.mmapFlags.intersectsFixed then s.totalMmapSize
            else s.totalMmapSize + (newLen - oldLen)
          if maxMmapSize < newTotal then return (.error .ENOMEM, s, g)
          else
            let r ← VPNRange.new? oldStart newEnd
            return (.ok oldAddr, { s with
              areas := s.areas.set i { area with vpnRange := r }
              totalMmapSize := newTotal }, g)

/-- The end of the range is unmapped, or the area grows. -/
def mremapInPlace (s : MemorySetInner) (g : Globals) (oldAddr oldLen newLen : ℕ) :
    Conv (SyscallRet × MemorySetInner × Globals) :=
  withSource s g oldAddr oldLen fun _ oldStart oldEnd (s, g, i) =>
    let oldLen := (oldEnd - oldStart) * pageSize
    if newLen = oldLen then pure (.ok oldAddr, s, g)
    else if newLen < oldLen then
      match checkedAdd oldAddr newLen with
      | none => pure (.error .EINVAL, s, g)
      | some trim => do
        let (r, s, g) ← munmap s g trim (oldLen - newLen)
        match r with
        | .error e => return (.error e, s, g)
        | .ok _ => return (.ok oldAddr, s, g)
    else growInPlace s g i oldAddr oldStart oldEnd oldLen newLen

end Conv

namespace MemorySetInner

def moveTo (s : MemorySetInner) (g : Globals) (i oldStart oldEnd dest newLen newTotal : ℕ) :=
  (Conv.moveTo s g i oldStart oldEnd dest newLen newTotal).result

def mremapBudget (s : MemorySetInner) (g : Globals) (i oldAddr oldStart oldEnd newLen newAddr : ℕ) (fixed : Bool) :=
  (Conv.mremapBudget s g i oldAddr oldStart oldEnd newLen newAddr fixed).result

def mremapMaymove (s : MemorySetInner) (g : Globals) (oldAddr oldLen newLen newAddr : ℕ) (fixed : Bool) :=
  (Conv.mremapMaymove s g oldAddr oldLen newLen newAddr fixed).result

def growInPlace (s : MemorySetInner) (g : Globals) (i oldAddr oldStart oldEnd oldLen newLen : ℕ) :=
  (Conv.growInPlace s g i oldAddr oldStart oldEnd oldLen newLen).result

def mremapInPlace (s : MemorySetInner) (g : Globals) (oldAddr oldLen newLen : ℕ) :=
  (Conv.mremapInPlace s g oldAddr oldLen newLen).result

end MemorySetInner

end Ya2yOS.Mm
