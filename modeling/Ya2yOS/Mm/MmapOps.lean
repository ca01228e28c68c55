import Ya2yOS.Mm.Conversions

/-!
# mmap, munmap and madvise

The methods of `MemorySetInner` in `mm/memory_set/mmap_ops.rs`. Where the source returns an error after a change, the
change stays.
-/

namespace Ya2yOS.Mm

open Lib
open Logged (lift)

namespace MemorySetInner

def coverLoop (areas : List MapArea) (endVpn : ℕ) : ℕ → ℕ → Bool
  | 0, cursor => endVpn ≤ cursor
  | fuel + 1, cursor =>
    if endVpn ≤ cursor then true
    else
      match areas.find? (fun a => cursor ∈ a.vpnRange) with
      | none => false
      | some a => coverLoop areas endVpn fuel a.vpnRange.stop

def discardLoop (startVpn endVpn : ℕ) (pt : PageTable) : List MapArea → PageTable × List MapArea
  | [] => (pt, [])
  | a :: rest =>
    let l := max a.vpnRange.start startVpn
    let h := min a.vpnRange.stop endVpn
    if h ≤ l ∨ !(decide (a.areaType = .brk) || a.isMmapVma) ∨ a.mmapFlags.shared then
      let (pt, rest) := discardLoop startVpn endVpn pt rest
      (pt, a :: rest)
    else
      let (pt, a) := a.unmapPages pt l h
      let (pt, rest) := discardLoop startVpn endVpn pt rest
      (pt, a :: rest)

end MemorySetInner

namespace Conv

/-- The test of `munmap` whether an end of the range lies in a huge mapping. -/
def endInHuge (addr endAddr len : ℕ) (a : MapArea) : Conv Bool :=
  if a.isHuge then do
    let first ← toVirtAddr addr
    if floorVpn first ∈ a.vpnRange then return true
    else if len ≠ 0 then do
      let last ← toVirtAddr (endAddr - 1)
      return decide (floorVpn last ∈ a.vpnRange)
    else return false
  else pure false

def munmap (s : MemorySetInner) (g : Globals) (addr len : ℕ) : Conv (SyscallRet × MemorySetInner × Globals) :=
  match checkedAdd addr len with
  | none => pure (.error .EINVAL, s, g)
  | some endAddr => do
    let huge ← s.areas.anyM (endInHuge addr endAddr len)
    if huge ∧ (addr % hugePageSize ≠ 0 ∨ len % hugePageSize ≠ 0) then return (.error .EINVAL, s, g)
    else
      let first ← toVirtAddr addr
      let last ← toVirtAddr endAddr
      let startVpn := floorVpn first
      let endVpn := ceilVpn last
      if endVpn ≤ startVpn then return (.error .EINVAL, s, g)
      else
        let (s, g) ← lift (MemorySetInner.removeLoop true startVpn endVpn (s.removalFuel startVpn endVpn) s g)
        -- reuse a hole above the cursor on the next top-down search
        let s := if s.mmapHint < endAddr then { s with mmapHint := min endAddr mmapTop } else s
        return (.ok 0, s, g)

def mmapHugeStart (s : MemorySetInner) (g : Globals) (addr len : ℕ) (flags : MmapFlags) :
    Conv (ℕ × MemorySetInner × Globals) :=
  if flags.intersectsFixed then
    match checkedAdd addr len with
    | none => pure (0, s, g)
    | some endAddr =>
      if addr % hugePageSize ≠ 0 ∨ userSpaceSize < endAddr ∨ !canonical addr ∨ !canonical (endAddr - 1) then
        pure (0, s, g)
      else do
        let first ← toVirtAddr addr
        let last ← toVirtAddr endAddr
        let startVpn := floorVpn first
        let endVpn := ceilVpn last
        if flags.fixedNoreplace ∧ s.areas.any (fun a => a.overlaps startVpn endVpn) then return (0, s, g)
        else if flags.fixed then
          if s.areas.any (fun a => a.areaType = .brk && a.overlaps startVpn endVpn) then return (0, s, g)
          else
            let (r, s, g) ← munmap s g addr len
            match r with
            | .error _ => return (0, s, g)
            | .ok _ => return (addr, s, g)
        else return (addr, s, g)
  else if maxMmapSize < s.totalMmapSize + len then pure (0, s, g)
  else do
    let (start, s) ← findMmapAddrAligned s len hugePageSize
    return (start, s, g)

def mmapHuge (s : MemorySetInner) (g : Globals) (addr len : ℕ) (mapPerm : MapPermission)
    (flags : MmapFlags) (mmapFile : MmapFile) : Conv (ℕ × MemorySetInner × Globals) :=
  if !mmapFile.isAnonymous ∨ len = 0 ∨ len % hugePageSize ≠ 0 ∨ mapPerm.isEmpty then pure (0, s, g)
  else do
    let (start, s, g) ← mmapHugeStart s g addr len flags
    if start = 0 then return (0, s, g)
    else
      let first ← toVirtAddr start
      let last ← toVirtAddr (start + len)
      lift do
        let (area, g) ← MapArea.newMmap g first last mapPerm .mmap flags mmapFile
        let (mapped, g, pt, area) ← area.mapHuge g s.pageTable
        if !mapped then
          let (pt, area) := area.unmapAll pt
          let g ← g.dropArea area.groupid
          return (0, { s with pageTable := pt }, g)
        else
          let s := { s with pageTable := pt }.pushLazily area
          let total := if flags.intersectsFixed then s.totalMmapSize else s.totalMmapSize + len
          return (start, { s with totalMmapSize := total }, g)

/-- What `MAP_FIXED` removes to make room; the result of the inner `munmap` is ignored. -/
def clearFixed (s : MemorySetInner) (g : Globals) (addr len startVpn endVpn : ℕ) :
    Conv (MemorySetInner × Globals) := do
  let (s, g) ← lift (s.removeBrkRange g startVpn endVpn)
  let (_, s, g) ← munmap s g addr len
  return (s, g)

def mmapFixed (s : MemorySetInner) (g : Globals) (addr len : ℕ) (mapPerm : MapPermission)
    (flags : MmapFlags) (mmapFile : MmapFile) : Conv (ℕ × MemorySetInner × Globals) :=
  match checkedAdd addr len with
  | none => pure (0, s, g)
  | some endAddr => do
    let first ← toVirtAddr addr
    let last ← toVirtAddr endAddr
    let startVpn := floorVpn first
    let endVpn := ceilVpn last
    if flags.fixedNoreplace ∧ s.areas.any (fun a => a.overlaps startVpn endVpn) then return (0, s, g)
    else
      let (s, g) ← if flags.fixed then clearFixed s g addr len startVpn endVpn else pure (s, g)
      let first ← toVirtAddr addr
      let last ← toVirtAddr endAddr
      let (area, g) ← lift (MapArea.newMmap g first last mapPerm .mmap flags mmapFile)
      return (addr, s.pushLazily area, g)

def mmap (s : MemorySetInner) (g : Globals) (addr len : ℕ) (mapPerm : MapPermission)
    (flags : MmapFlags) (mmapFile : MmapFile) : Conv (ℕ × MemorySetInner × Globals) :=
  if flags.hugetlb then mmapHuge s g addr len mapPerm flags mmapFile
  else if flags.fixed ∨ flags.fixedNoreplace then mmapFixed s g addr len mapPerm flags mmapFile
  else if maxMmapSize < s.totalMmapSize + len then pure (0, s, g)
  else do
    let (addr, s) ← freePlace s addr len
    if addr = 0 then return (0, s, g)
    else
      let first ← toVirtAddr addr
      let last ← toVirtAddr (addr + len)
      let areaType := if flags.stack then MapAreaType.stack else .mmap
      let (area, g) ← lift (MapArea.newMmap g first last mapPerm areaType flags mmapFile)
      let s := s.pushLazily area
      return (addr, { s with totalMmapSize := s.totalMmapSize + len }, g)

def validateMadviseRange (s : MemorySetInner) (addr len : ℕ) : Conv SyscallRet :=
  if addr % pageSize ≠ 0 then pure (.error .EINVAL)
  else
    match checkedAdd addr len with
    | none => pure (.error .EINVAL)
    | some endAddr =>
      if len = 0 then pure (.ok 0)
      else if !canonical addr ∨ !canonical (endAddr - 1) then pure (.error .EINVAL)
      else do
        let first ← toVirtAddr addr
        let last ← toVirtAddr endAddr
        if MemorySetInner.coverLoop s.areas (ceilVpn last) s.areas.length (floorVpn first) then return .ok 0
        else return .error .ENOMEM

def discardMadvisePages (s : MemorySetInner) (addr len : ℕ) : Conv (SyscallRet × MemorySetInner) := do
  match ← validateMadviseRange s addr len with
  | .error e => return (.error e, s)
  | .ok _ =>
    if len = 0 then return (.ok 0, s)
    else
      let first ← toVirtAddr addr
      let last ← toVirtAddr (addr + len)
      let startVpn := floorVpn first
      let endVpn := ceilVpn last
      if s.areas.any (fun a => a.isHuge && a.overlaps startVpn endVpn) then
        return (.error .EOPNOTSUPP, s)
      else
        let (pt, areas) := MemorySetInner.discardLoop startVpn endVpn s.pageTable s.areas
        return (.ok 0, { s with pageTable := pt, areas := areas })

end Conv

namespace MemorySetInner

def munmap (s : MemorySetInner) (g : Globals) (addr len : ℕ) := (Conv.munmap s g addr len).result

def mmapHugeStart (s : MemorySetInner) (g : Globals) (addr len : ℕ) (flags : MmapFlags) :=
  (Conv.mmapHugeStart s g addr len flags).result

def mmapHuge (s : MemorySetInner) (g : Globals) (addr len : ℕ) (mapPerm : MapPermission) (flags : MmapFlags)
    (mmapFile : MmapFile) :=
  (Conv.mmapHuge s g addr len mapPerm flags mmapFile).result

def clearFixed (s : MemorySetInner) (g : Globals) (addr len startVpn endVpn : ℕ) :=
  (Conv.clearFixed s g addr len startVpn endVpn).result

def mmapFixed (s : MemorySetInner) (g : Globals) (addr len : ℕ) (mapPerm : MapPermission) (flags : MmapFlags)
    (mmapFile : MmapFile) :=
  (Conv.mmapFixed s g addr len mapPerm flags mmapFile).result

def mmap (s : MemorySetInner) (g : Globals) (addr len : ℕ) (mapPerm : MapPermission) (flags : MmapFlags)
    (mmapFile : MmapFile) :=
  (Conv.mmap s g addr len mapPerm flags mmapFile).result

def discardMadvisePages (s : MemorySetInner) (addr len : ℕ) := (Conv.discardMadvisePages s addr len).result

end MemorySetInner

end Ya2yOS.Mm
