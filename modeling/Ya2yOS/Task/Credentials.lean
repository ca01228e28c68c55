import Mathlib.Data.Fin.Basic
import Mathlib.Algebra.Order.Ring.Nat
import Ya2yOS.Utils.SysErrNo

/-!
# Credentials of a task

The user and group ids and the capability sets, the calls that change them, and what `clone` and `execve` do with them.
-/

namespace Ya2yOS.Task

abbrev capabilityU32s : ℕ := 2

/-- A set of capabilities as words of 32 bits. -/
abbrev CapWords := Fin capabilityU32s → BitVec 32

/-- The greatest capability. -/
def capLastCap : ℕ := 40

def capabilityFullMaskWord (word : ℕ) : BitVec 32 :=
  let firstCap := word * 32
  if capLastCap < firstCap then 0
  else
    let bits := capLastCap - firstCap + 1
    if 32 ≤ bits then BitVec.allOnes 32 else BitVec.ofNat 32 (2 ^ bits - 1)

def capabilityFullMask : CapWords := fun i => capabilityFullMaskWord i

structure CapabilitySets where
  effective : CapWords
  permitted : CapWords
  inheritable : CapWords

/-- Every capability of the first set is in the second. -/
def capSubset (lhs rhs : CapWords) : Bool := decide (∀ i, lhs i &&& ~~~rhs i = 0)

def capUnionSubset (lhs rhsA rhsB : CapWords) : Bool := decide (∀ i, lhs i &&& ~~~(rhsA i ||| rhsB i) = 0)

/-- The credentials in `TaskControlBlockInner`. The real user id is a `usize` there and only ever
holds a `u32`. -/
structure Cred where
  userId : UInt32
  effectiveUid : UInt32
  savedUid : UInt32
  realGid : UInt32
  effectiveGid : UInt32
  savedGid : UInt32
  capabilities : CapabilitySets

namespace Cred

def uids (c : Cred) : List UInt32 := [c.userId, c.effectiveUid, c.savedUid]

/-- Capabilities go with the last identity of root. -/
def syncCapabilitiesAfterUidChange (c : Cred) : Cred :=
  let permitted := if c.userId ≠ 0 ∧ c.effectiveUid ≠ 0 ∧ c.savedUid ≠ 0 then fun _ => 0
    else c.capabilities.permitted
  let effective := if c.effectiveUid = 0 then permitted else fun _ => 0
  { c with capabilities := { c.capabilities with permitted := permitted, effective := effective } }

def sysSetuid (uid : ℕ) (c : Cred) : SyscallRet × Cred :=
  if 65535 < uid then (.error .EINVAL, c)
  else
    let uid := UInt32.ofNat uid
    (.ok 0, { c with userId := uid, effectiveUid := uid, savedUid := uid }.syncCapabilitiesAfterUidChange)

def sysSetgid (gid : ℕ) (c : Cred) : SyscallRet × Cred :=
  if 65535 < gid then (.error .EINVAL, c)
  else
    let gid := UInt32.ofNat gid
    (.ok 0, { c with realGid := gid, effectiveGid := gid, savedGid := gid })

end Cred

/-- The argument -1 keeps an identity. -/
def unchanged : UInt32 := 0xffff_ffff

def argValid (id : UInt32) : Bool := id = unchanged || id ≤ 65535

/-- The real, effective and saved identity. -/
structure Ids where
  real : UInt32
  effective : UInt32
  saved : UInt32
deriving DecidableEq

def Ids.toList (i : Ids) : List UInt32 := [i.real, i.effective, i.saved]

/-- The common body of `sys_setreuid` and `sys_setregid`: the ids to store, or nothing where both
arguments keep their id. -/
def setreid (privileged : Bool) (old : Ids) (r e : UInt32) : Except SysErrNo (Option Ids) :=
  if !argValid r || !argValid e then .error .EINVAL
  else if r = unchanged ∧ e = unchanged then .ok none
  else if !privileged && (r ≠ unchanged && r ≠ old.real && r ≠ old.effective) then .error .EPERM
  else if !privileged && (e ≠ unchanged && e ≠ old.real && e ≠ old.effective && e ≠ old.saved) then
    .error .EPERM
  else
    let newR := if r = unchanged then old.real else r
    let newE := if e = unchanged then old.effective else e
    let saved := if r ≠ unchanged ∨ (e ≠ unchanged ∧ newE ≠ old.real) then newE else old.saved
    .ok (some ⟨newR, newE, saved⟩)

def computeResuid (cur : Ids) (r e s : UInt32) : Ids :=
  ⟨if r = unchanged then cur.real else r, if e = unchanged then cur.effective else e,
    if s = unchanged then cur.saved else s⟩

def idsAllowed (cur new : Ids) : Bool :=
  !(new.real ≠ cur.real && !cur.toList.contains new.real) &&
    !(new.effective ≠ cur.effective && !cur.toList.contains new.effective) &&
    !(new.saved ≠ cur.saved && !cur.toList.contains new.saved)

def setresuidAllowed (cur new : Ids) : Bool := idsAllowed cur new

/-- An identity that is given also replaces those after it that are not. -/
def computeResgid (cur : Ids) (r e s : UInt32) : Ids :=
  let new := if r = unchanged then cur
    else ⟨r, if e = unchanged then r else cur.effective, if s = unchanged then r else cur.saved⟩
  let new := if e = unchanged then new
    else { new with effective := e, saved := if s = unchanged then e else new.saved }
  if s = unchanged then new else { new with saved := s }

/-- Without privilege only one argument may be given. -/
def setresgidAllowed (cur new : Ids) (r e s : UInt32) : Bool :=
  idsAllowed cur new && decide (([r, e, s].filter (· ≠ unchanged)).length ≤ 1)

namespace Cred

def userIds (c : Cred) : Ids := ⟨c.userId, c.effectiveUid, c.savedUid⟩

def groupIds (c : Cred) : Ids := ⟨c.realGid, c.effectiveGid, c.savedGid⟩

def withUserIds (c : Cred) (i : Ids) : Cred :=
  { c with userId := i.real, effectiveUid := i.effective, savedUid := i.saved }

def withGroupIds (c : Cred) (i : Ids) : Cred :=
  { c with realGid := i.real, effectiveGid := i.effective, savedGid := i.saved }

def sysSetreuid (ruid euid : ℕ) (c : Cred) : SyscallRet × Cred :=
  match setreid (c.userId = 0 || c.effectiveUid = 0) c.userIds (UInt32.ofNat ruid) (UInt32.ofNat euid) with
  | .error err => (.error err, c)
  | .ok none => (.ok 0, c)
  | .ok (some ids) => (.ok 0, (c.withUserIds ids).syncCapabilitiesAfterUidChange)

def sysSetresuid (ruid euid suid : UInt32) (c : Cred) : SyscallRet × Cred :=
  if !argValid ruid || !argValid euid || !argValid suid then (.error .EINVAL, c)
  else
    let ids := computeResuid c.userIds ruid euid suid
    let privileged := c.userId = 0 || c.effectiveUid = 0
    if !privileged && !setresuidAllowed c.userIds ids then (.error .EPERM, c)
    else (.ok 0, (c.withUserIds ids).syncCapabilitiesAfterUidChange)

def sysSetregid (rgid egid : ℕ) (c : Cred) : SyscallRet × Cred :=
  match setreid (c.effectiveUid = 0) c.groupIds (UInt32.ofNat rgid) (UInt32.ofNat egid) with
  | .error err => (.error err, c)
  | .ok none => (.ok 0, c)
  | .ok (some ids) => (.ok 0, c.withGroupIds ids)

def sysSetresgid (rgid egid sgid : UInt32) (c : Cred) : SyscallRet × Cred :=
  if !argValid rgid || !argValid egid || !argValid sgid then (.error .EINVAL, c)
  else
    let ids := computeResgid c.groupIds rgid egid sgid
    if c.effectiveUid ≠ 0 ∧ !setresgidAllowed c.groupIds ids rgid egid sgid then (.error .EPERM, c)
    else (.ok 0, c.withGroupIds ids)

end Cred

/-- The header of `capset`. -/
structure CapUserHeader where
  version : UInt32
  pid : ℤ

structure CapUserData where
  effective : BitVec 32
  permitted : BitVec 32
  inheritable : BitVec 32

/-- What the reads of user memory give. -/
structure CapMemory where
  badAddress : ℕ → Bool
  header : ℕ → Except SysErrNo CapUserHeader
  data : ℕ → Except SysErrNo CapUserData
  putHeader : ℕ → CapUserHeader → Except SysErrNo Unit

/-- The words of a version of the interface. -/
def capVersionU32s (version : UInt32) : Option ℕ :=
  if version = 0x1998_0330 then some 1
  else if version = 0x2007_1026 ∨ version = 0x2008_0522 then some 2
  else none

def linuxCapabilityVersion3 : UInt32 := 0x2008_0522

def CapMemory.rejects (m : CapMemory) (ptr : ℕ) : Bool := ptr = 0 || 2 ^ 63 ≤ ptr || m.badAddress ptr

def capDataUserPtr (datap index : ℕ) : ℕ := datap + index * 12

def CapMemory.request (m : CapMemory) (datap u32s : ℕ) : Except SysErrNo (Fin capabilityU32s → CapUserData) := do
  let first ← if 0 < u32s then m.data (capDataUserPtr datap 0) else .ok ⟨0, 0, 0⟩
  let second ← if 1 < u32s then m.data (capDataUserPtr datap 1) else .ok ⟨0, 0, 0⟩
  return fun i => if i.val = 0 then first else second

def capSetsFromData (data : Fin capabilityU32s → CapUserData) : CapabilitySets :=
  ⟨fun i => (data i).effective, fun i => (data i).permitted, fun i => (data i).inheritable⟩

def capDataHasUnknownBits (data : Fin capabilityU32s → CapUserData) (u32s : ℕ) : Bool :=
  decide (∃ i, i.val < u32s ∧
    ((data i).effective ||| (data i).permitted ||| (data i).inheritable) &&& ~~~capabilityFullMask i ≠ 0)

/-- The sets that `capset` asks for. -/
def requestedCaps (m : CapMemory) (pid hdrp datap : ℕ) : Except SysErrNo CapabilitySets :=
  if m.rejects hdrp || m.rejects datap then .error .EFAULT
  else do
    let hdr ← m.header hdrp
    if hdr.pid < 0 then throw .EINVAL
    else if 0 < hdr.pid ∧ hdr.pid ≠ pid then throw .ESRCH
    else
      match capVersionU32s hdr.version with
      | none =>
        m.putHeader hdrp { hdr with version := linuxCapabilityVersion3 }
        throw .EINVAL
      | some u32s =>
        let data ← m.request datap u32s
        let caps := capSetsFromData data
        if capDataHasUnknownBits data u32s then throw .EINVAL
        else if !capSubset caps.effective caps.permitted then throw .EPERM
        else return caps

def Cred.sysCapset (m : CapMemory) (pid hdrp datap : ℕ) (c : Cred) : SyscallRet × Cred :=
  match requestedCaps m pid hdrp datap with
  | .error err => (.error err, c)
  | .ok caps =>
    let old := c.capabilities
    if c.effectiveUid ≠ 0 ∧ (!capSubset caps.permitted old.permitted ∨
        !capUnionSubset caps.inheritable old.inheritable old.permitted) then (.error .EPERM, c)
    else (.ok 0, { c with capabilities := caps })

/-- The execute bits of a file. -/
structure ExecMode where
  xusr : Bool
  xgrp : Bool
  xoth : Bool

/-- An executable as `sys_execve` finds it: the result of opening it, its mount's `MS_NOEXEC`, its
mode and owner, whether it is open for writing, and what reading and building the image gives (of a
script, also opening and checking its interpreter). -/
structure ExecFile where
  opened : Except SysErrNo Unit
  noexec : Bool
  mode : ExecMode
  ownerUid : UInt32
  ownerGid : UInt32
  writeOpen : Bool
  image : Except SysErrNo Unit

def Cred.canExec (c : Cred) (mode : ExecMode) (ownerUid ownerGid : UInt32) : Bool :=
  if c.effectiveUid = 0 then mode.xusr || mode.xgrp || mode.xoth
  else if c.effectiveUid = ownerUid then mode.xusr
  else if c.effectiveGid = ownerGid then mode.xgrp
  else mode.xoth

def Cred.sysExecve (c : Cred) (file : ExecFile) : SyscallRet :=
  match file.opened with
  | .error err => .error err
  | .ok _ =>
    if file.noexec then .error .EACCES
    else if !c.canExec file.mode file.ownerUid file.ownerGid then .error .EACCES
    else if file.writeOpen then .error .ETXTBSY
    else
      match file.image with
      | .error err => .error err
      | .ok _ => .ok 0

end Ya2yOS.Task
