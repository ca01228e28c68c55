import Ya2yOS.Mm.Fork

/-!
# The heap and System V shared memory

The adjustment of the `brk` area, and the segments of `mm/shm.rs`. The heap pointer is a field of the task: threads
start with a copy of their creator's and then move their own.
-/

namespace Ya2yOS.Mm

open Lib

def maxBrkSize : ℕ := 0x8000_0000

structure TaskHeap where
  heappoint : ℕ
  heapbottom : ℕ
deriving DecidableEq, Repr

def heapPerm : MapPermission := { r := true, w := true, u := true }

def freeRanges (newVpn : ℕ) : List MapArea → ℕ → List (ℕ × ℕ)
  | [], cursor => if cursor < newVpn then [(cursor, newVpn)] else []
  | a :: rest, cursor =>
    if a.areaType = .brk then freeRanges newVpn rest cursor
    else if a.vpnRange.stop ≤ cursor ∨ newVpn ≤ a.vpnRange.start then freeRanges newVpn rest cursor
    else
      let gap := if cursor < a.vpnRange.start then [(cursor, min a.vpnRange.start newVpn)] else []
      gap ++ freeRanges newVpn rest (min a.vpnRange.stop newVpn)

namespace MemorySetInner

def pushHeap (s : MemorySetInner) (r : ℕ × ℕ) : Option MemorySetInner :=
  if r.1 < r.2 then do
    let a ← MapArea.new (r.1 * pageSize) (r.2 * pageSize) heapPerm .brk
    return s.pushLazily a
  else some s

def grow (s : MemorySetInner) (g : Globals) (growSize : ℤ) (t : TaskHeap) :
    Option (Option ℕ × MemorySetInner × Globals) :=
  let sum : ℤ := t.heappoint + growSize
  if sum < 0 ∨ wordSize ≤ sum then some (none, s, g)
  else do
    let newAddr ← virtAddr sum.toNat
    let oldAddr ← virtAddr t.heappoint
    let newVpn := ceilVpn newAddr
    let oldVpn := ceilVpn oldAddr
    if 0 < growSize then
      if (t.heapbottom + userHeapSize) % wordSize / pageSize ≤ newVpn then return (none, s, g)
      else if newVpn ≤ oldVpn then return (some newAddr, s, g)
      else
        let s ← (freeRanges newVpn s.areas oldVpn).foldlM pushHeap s
        return (some newAddr, s, g)
    else if growSize < 0 then
      if newAddr < t.heapbottom then return (none, s, g)
      else
        let (s, g) ← s.removeBrkRange g newVpn oldVpn
        return (some newAddr, s, g)
    else return (some newAddr, s, g)

def growproc (s : MemorySetInner) (g : Globals) (t : TaskHeap) (growSize : ℤ) :
    Option (Option ℕ × MemorySetInner × Globals × TaskHeap) :=
  if growSize = 0 then some (some t.heappoint, s, g, t)
  else do
    let (r, s, g) ← s.grow g growSize t
    return (r, s, g, match r with
      | some point => { t with heappoint := point }
      | none => t)

def sysBrk (s : MemorySetInner) (g : Globals) (t : TaskHeap) (brkAddr : ℕ) :
    Option (SyscallRet × MemorySetInner × Globals × TaskHeap) :=
  if brkAddr = 0 then some (.ok t.heappoint, s, g, t)
  else if t.heappoint < brkAddr ∧ maxBrkSize < (brkAddr + wordSize - t.heapbottom) % wordSize then
    some (.error .ENOMEM, s, g, t)
  else if t.heappoint ≤ brkAddr ∧ wordSize / 2 ≤ brkAddr - t.heappoint then some (.error .ENOMEM, s, g, t)
  else if brkAddr < t.heappoint ∧ wordSize / 2 ≤ t.heappoint - brkAddr then some (.error .EINVAL, s, g, t)
  else do
    let (r, s, g, t) ← s.growproc g t ((brkAddr : ℤ) - t.heappoint)
    return (match r with
      | some point => .ok point
      | none => .error .ENOMEM, s, g, t)

end MemorySetInner

structure ShmManager where
  nextKey : ℕ
  map : OrdMap ℕ (List ℕ)

namespace ShmManager

def new : ShmManager := ⟨1, OrdMap.empty⟩

def allocFrames : ℕ → Globals → Option (List ℕ × Globals)
  | 0, g => some ([], g)
  | n + 1, g => do
    let (frame, g) ← g.alloc
    let (frames, g) ← allocFrames n g
    return (frame :: frames, g)

/-- `shm_create`; the rounding of the size wraps. A segment of size zero has no pages. -/
def create (m : ShmManager) (g : Globals) (size : ℕ) : Option (ℕ × ShmManager × Globals) := do
  let num := ((size + pageSize) % wordSize + wordSize - 1) % wordSize / pageSize
  let (frames, g) ← allocFrames num g
  return (m.nextKey, ⟨m.nextKey + 1, m.map.insert m.nextKey frames⟩, g)

def find (m : ShmManager) (key : ℕ) : Bool := (m.map.get? key).isSome

def drop (m : ShmManager) (key : ℕ) : ShmManager := { m with map := m.map.erase key }

def flagsAll : ℕ := 0x9780

/-- `sys_shmget`; the words are 32 bits wide and the low nine bits of the flags are ignored. -/
def sysShmget (m : ShmManager) (g : Globals) (key : ℤ) (size flags : ℕ) :
    Option (SyscallRet × ShmManager × Globals) :=
  let flags := flags / 2 ^ 9 * 2 ^ 9
  if flags ||| flagsAll ≠ flagsAll then some (.error .EINVAL, m, g)
  else if key = 0 then do
    let (id, m, g) ← m.create g size
    return (.ok id, m, g)
  else if 0 < key then
    if m.find key.toNat then
      if flags.testBit 9 ∧ flags.testBit 10 then some (.error .EEXIST, m, g)
      else some (.ok key.toNat, m, g)
    else if flags.testBit 9 then do
      let (id, m, g) ← m.create g size
      return (.ok id, m, g)
    else some (.error .ENOENT, m, g)
  else some (.error .ENOENT, m, g)

def attachPerm (flags : ℕ) : Option MapPermission :=
  if flags = 0 then some { r := true, w := true, x := true, u := true }
  else if flags ||| flagsAll ≠ flagsAll then none
  else some { r := true, u := true, x := flags.testBit 15, w := !flags.testBit 12 }

end ShmManager

namespace MemorySetInner

/-- `shm`: map the frames of a segment where the search finds room. Its failure, the address zero,
is not looked at; attaching at an address panics. -/
def shm (s : MemorySetInner) (addr size : ℕ) (perm : MapPermission) (frames : List ℕ) :
    Option (ℕ × MemorySetInner) :=
  if addr = 0 then do
    let (va, s) := s.findMmapAddr size
    let first ← virtAddr va
    let last ← virtAddr ((va + size) % wordSize)
    let area ← MapArea.new first last perm .shm
    let pairs := (vpns area.vpnRange.start area.vpnRange.stop).zip frames
    let (pt, area) ← area.mapGivenFrames s.pageTable pairs
    return (va, { s with pageTable := pt }.pushLazily area)
  else none

def sysShmat (s : MemorySetInner) (m : ShmManager) (shmid : ℤ) (addr flags : ℕ) :
    Option (SyscallRet × MemorySetInner) :=
  match ShmManager.attachPerm flags with
  | none => some (.error .EINVAL, s)
  | some perm =>
    if shmid < 0 then some (.error .EINVAL, s)
    else
      match m.map.get? shmid.toNat with
      | none => some (.error .EINVAL, s)
      | some frames => do
        let (va, s) ← s.shm addr (frames.length * pageSize) perm frames
        return (.ok va, s)

def shmDetach (s : MemorySetInner) (g : Globals) (addr : ℕ) :
    Option (SyscallRet × MemorySetInner × Globals) :=
  if addr % pageSize ≠ 0 then some (.error .EINVAL, s, g)
  else do
    let first ← virtAddr addr
    match s.areas.findIdx? (fun a => a.areaType = .shm && a.vpnRange.start = floorVpn first) with
    | none => return (.error .EINVAL, s, g)
    | some i =>
      let area ← s.areas[i]?
      let (pt, area) := area.unmapAll s.pageTable
      let g ← g.dropArea area.groupid
      return (.ok 0, { s with pageTable := pt, areas := s.areas.eraseIdx i }, g)

end MemorySetInner

end Ya2yOS.Mm
