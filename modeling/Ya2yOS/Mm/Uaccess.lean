import Ya2yOS.Mm.Conversions
import Ya2yOS.Mm.PageFault

/-!
# Copies between the kernel and user memory

`mm/translate.rs` with the direct path of `arch/riscv64/qemu/uaccess.rs`. A copy keeps a log of
the pages whose bytes it reads or writes.
-/

namespace Ya2yOS.Mm

structure FaultEnv where
  strongCount : ℕ → ℕ
  prepared : ℕ → Option FilePage

/-- The state of a copy: what it has read so far, and the pages it has touched, last first. -/
structure CopyState where
  space : MemorySetInner
  kernel : Globals
  buffer : List UInt8
  log : List ℕ

def checkedUserRange (start len : ℕ) : Except SysErrNo ℕ :=
  if len = 0 then .ok start
  else if start = 0 ∨ !canonical start then .error .EFAULT
  else
    match checkedAdd start len with
    | some stop => .ok stop
    | none => .error .EFAULT

def permLoop (areas : List MapArea) (wanted : MapPermission) (requireUserMapping : Bool) (endVpn : ℕ) :
    ℕ → ℕ → Bool
  | 0, current => endVpn < current
  | fuel + 1, current =>
    if endVpn < current then true
    else
      match areas.find? (fun a => current ∈ a.vpnRange) with
      | none => false
      | some area =>
        if !area.mapPerm.contains wanted || (requireUserMapping && !area.mapPerm.contains { u := true }) then
          false
        else permLoop areas wanted requireUserMapping endVpn fuel area.vpnRange.stop

def userRangeHasPermIn (s : MemorySetInner) (start stop : ℕ) (wanted : MapPermission)
    (requireUserMapping : Bool) : Bool :=
  canonical start && canonical (stop - 1) &&
    permLoop s.areas wanted requireUserMapping (floorVpn (stop - 1))
      (floorVpn (stop - 1) + 1 - floorVpn start) (floorVpn start)

def userRangeHasPerm (s : MemorySetInner) (start len : ℕ) (wanted : MapPermission) : Bool :=
  if len = 0 then true
  else
    match checkedAdd start len with
    | none => false
    | some stop => userRangeHasPermIn s start stop wanted false

namespace PageTable

/-- A supervisor load with `sstatus.SUM` set: the user bit of the leaf does not matter. -/
def supervisorReads (pt : PageTable) (vpn : ℕ) : Bool :=
  match pt.flagsAt vpn with
  | some f => f.readable
  | none => false

/-- A supervisor store with `sstatus.SUM` set; the hardware knows nothing of COW. -/
def supervisorWrites (pt : PageTable) (vpn : ℕ) : Bool :=
  match pt.flagsAt vpn with
  | some f => f.writeable
  | none => false

end PageTable

namespace CopyState

def readFrame (c : CopyState) (vpn ppn offset len : ℕ) : CopyState :=
  { c with
    buffer := c.buffer ++ (List.range len).map fun i => c.kernel.mem ppn (offset + i)
    log := vpn :: c.log }

def writeFrame (c : CopyState) (vpn ppn offset : ℕ) (bytes : List UInt8) : CopyState :=
  { c with
    kernel := { c.kernel with mem := Function.update c.kernel.mem ppn fun i =>
      if offset ≤ i then (bytes[i - offset]?).getD (c.kernel.mem ppn i) else c.kernel.mem ppn i }
    log := vpn :: c.log }

def readAct (src : ℕ) (c : CopyState) (vpn ppn done n : ℕ) : CopyState :=
  c.readFrame vpn ppn ((src + done) % pageSize) n

def writeAct (dst : ℕ) (bytes : List UInt8) (c : CopyState) (vpn ppn done n : ℕ) : CopyState :=
  c.writeFrame vpn ppn ((dst + done) % pageSize) ((bytes.drop done).take n)

def probeAct (c : CopyState) (vpn _ppn _done _n : ℕ) : CopyState := { c with log := vpn :: c.log }

def rawLoop (allowed : PageTable → ℕ → Bool) (act : CopyState → ℕ → ℕ → ℕ → ℕ → CopyState) (start : ℕ) :
    ℕ → ℕ → CopyState → Bool × CopyState
  | 0, _, c => (true, c)
  | len + 1, cur, c =>
    if allowed c.space.pageTable (floorVpn cur) then
      match c.space.pageTable.translate (floorVpn cur) with
      | none => (false, c)
      | some ppn => rawLoop allowed act start len (cur + 1) (act c (floorVpn cur) ppn (cur - start) 1)
    else (false, c)

def rawCopyFromUser (len src : ℕ) (c : CopyState) : Bool × CopyState :=
  rawLoop PageTable.supervisorReads (readAct src) src len src c

def rawCopyToUser (src : List UInt8) (dst : ℕ) (c : CopyState) : Bool × CopyState :=
  rawLoop PageTable.supervisorWrites (writeAct dst src) dst src.length dst c

def currentUserCopyFastLimit : ℕ := 256

def tryCopyFromCurrentUser (active : Bool) (src stop len : ℕ) (c : CopyState) : Bool × CopyState :=
  if currentUserCopyFastLimit < len ∨ userSpaceSize ≤ src ∨ userSpaceSize < stop then (false, c)
  else if active then rawCopyFromUser len src c
  else (false, c)

def tryCopyToCurrentUser (active : Bool) (dst stop : ℕ) (src : List UInt8) (c : CopyState) :
    Bool × CopyState :=
  if currentUserCopyFastLimit < src.length ∨ userSpaceSize ≤ dst ∨ userSpaceSize < stop then (false, c)
  else if active then rawCopyToUser src dst c
  else (false, c)

def fault (env : FaultEnv) (c : CopyState) (vpn : ℕ) (cause : FaultCause) : Option (Bool × CopyState) := do
  let (ok, s, g) ← c.space.handlePageFault env.strongCount c.kernel vpn cause (env.prepared vpn)
  return (ok, { c with space := s, kernel := g })

def translatedUserPage (env : FaultEnv) (c : CopyState) (vpn : ℕ) : Option (Option ℕ × CopyState) :=
  match c.space.pageTable.translate vpn with
  | some ppn => some (some ppn, c)
  | none => do
    let (_, c) ← c.fault env vpn .load
    return (c.space.pageTable.translate vpn, c)

def resolveCow (env : FaultEnv) (c : CopyState) (vpn : ℕ) : Option (Option ℕ × CopyState) :=
  if c.space.pageTable.isCowPage vpn then do
    let (ok, c) ← c.fault env vpn .store
    return (if ok then c.space.pageTable.translate vpn else none, c)
  else some (c.space.pageTable.translate vpn, c)

def translatedUserPageForWrite (env : FaultEnv) (c : CopyState) (vpn : ℕ) :
    Option (Option ℕ × CopyState) :=
  match c.space.pageTable.translate vpn with
  | some _ => c.resolveCow env vpn
  | none => do
    let (ok, c) ← c.fault env vpn .store
    if ok then c.resolveCow env vpn else return (none, c)

def pageLoop (page : CopyState → ℕ → Option (Option ℕ × CopyState))
    (act : CopyState → ℕ → ℕ → ℕ → ℕ → CopyState) (start stop : ℕ) :
    ℕ → ℕ → CopyState → Option (Except SysErrNo Unit × CopyState)
  | 0, _, c => some (.ok (), c)
  | fuel + 1, cur, c =>
    if stop ≤ cur then some (.ok (), c)
    else if !canonical cur then some (.error .EFAULT, c)
    else do
      let (ppn, c) ← page c (floorVpn cur)
      match ppn with
      | none => return (.error .EFAULT, c)
      | some ppn =>
        let copyLen := min (stop - cur) ((floorVpn cur + 1) * pageSize - cur)
        pageLoop page act start stop fuel (cur + copyLen)
          (act c (floorVpn cur) ppn (cur - start) copyLen)

def finish (len : ℕ) (r : Except SysErrNo Unit × CopyState) : SyscallRet × CopyState :=
  (r.1.map fun _ => len, r.2)

end CopyState

open CopyState

def copyFromUser (env : FaultEnv) (active : Bool) (src len : ℕ) (c : CopyState) :
    Option (SyscallRet × CopyState) :=
  if len = 0 then some (.ok 0, c)
  else
    match checkedUserRange src len with
    | .error e => some (.error e, c)
    | .ok stop =>
      let (done, c) := tryCopyFromCurrentUser active src stop len c
      if done then some (.ok len, c)
      else if !userRangeHasPerm c.space src len { r := true } then some (.error .EFAULT, c)
      else (pageLoop (translatedUserPage env) (readAct src) src stop len src { c with buffer := [] }).map
        (finish len)

def copyToUser (env : FaultEnv) (active : Bool) (dst : ℕ) (src : List UInt8) (c : CopyState) :
    Option (SyscallRet × CopyState) :=
  if src.length = 0 then some (.ok 0, c)
  else
    match checkedUserRange dst src.length with
    | .error e => some (.error e, c)
    | .ok stop =>
      let (done, c) := tryCopyToCurrentUser active dst stop src c
      if done then some (.ok src.length, c)
      else if !userRangeHasPerm c.space dst src.length { w := true } then some (.error .EFAULT, c)
      else (pageLoop (translatedUserPageForWrite env) (writeAct dst src) dst stop src.length dst c).map
        (finish src.length)

def probeUserWrite (env : FaultEnv) (dst len : ℕ) (c : CopyState) : Option (SyscallRet × CopyState) :=
  if len = 0 then some (.ok 0, c)
  else
    match checkedUserRange dst len with
    | .error e => some (.error e, c)
    | .ok stop =>
      if !userRangeHasPerm c.space dst len { w := true } then some (.error .EFAULT, c)
      else (pageLoop (translatedUserPageForWrite env) probeAct dst stop len dst c).map (finish len)

namespace Conv

open Lib Logged

/-- The areas cover the range without a gap, with the wanted permission. -/
def rangeLoop (wanted : MapPermission) (endVpn : ℕ) : List MapArea → ℕ → Bool
  | [], current => endVpn ≤ current
  | a :: rest, current =>
    if a.vpnRange.stop ≤ current then rangeLoop wanted endVpn rest current
    else if current ∉ a.vpnRange ∨ !a.mapPerm.contains wanted then false
    else if endVpn ≤ min a.vpnRange.stop endVpn then true
    else rangeLoop wanted endVpn rest (min a.vpnRange.stop endVpn)

def checkUserRange (s : MemorySetInner) (start len : ℕ) (wanted : MapPermission) : Conv Bool :=
  if len = 0 then pure true
  else
    match checkedAdd start len with
    | none => pure false
    | some stop => do
      let first ← toVirtAddr start
      let last ← toVirtAddr (stop - 1)
      let r ← lift (VPNRange.new? (floorVpn first) (ceilVpn last))
      return rangeLoop wanted r.stop s.areas r.start

/-- The byte of `mincore` for each page. -/
def residency (s : MemorySetInner) (addr : ℕ) : List ℕ → Conv (List UInt8)
  | [] => pure []
  | i :: rest => do
    let page ← toVirtAddr (addr + i * pageSize)
    let bytes ← residency s addr rest
    return (if (s.pageTable.translate (floorVpn page)).isSome then 1 else 0) :: bytes

def sysMincore (env : FaultEnv) (active bad : Bool) (c : CopyState) (addr length vec : ℕ) :
    Conv (SyscallRet × CopyState) :=
  if vec = 0 ∨ 2 ^ 63 ≤ vec ∨ bad then pure (.error .EFAULT, c)
  else if addr % pageSize ≠ 0 then pure (.error .EINVAL, c)
  else if length = 0 then pure (.ok 0, c)
  else if (checkedAdd addr length).isNone then pure (.error .EINVAL, c)
  else do
    let mapped ← checkUserRange c.space addr length { r := true }
    if !mapped then return (.error .ENOMEM, c)
    else
      let bytes ← residency c.space addr (List.range ((length + pageSize - 1) / pageSize))
      let (r, c) ← lift (copyToUser env active vec bytes c)
      return (r.map fun _ => 0, c)

end Conv

end Ya2yOS.Mm
