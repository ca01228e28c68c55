import Ya2yOS.Mm.Mprotect
import Ya2yOS.Mm.Mremap

/-!
# The memory system calls

`syscall/mm/mmap.rs` over the methods of the address space.
-/

namespace Ya2yOS.Mm

open Lib
open Logged (lift)

/-- What an open descriptor stands for. -/
inductive Descriptor where
  | file (f : OSFile)
  | memfd (id : ℕ) (opened : OSFile)
  | devZero (readable writable : Bool)
  | otherAbs (readable writable : Bool)
  | notAbs
deriving DecidableEq, Repr

namespace Descriptor

def readable : Descriptor → Bool
  | .file f => f.readable
  | .memfd _ f => f.readable
  | .devZero r _ => r
  | .otherAbs r _ => r
  | .notAbs => false

def writable : Descriptor → Bool
  | .file f => f.writable
  | .memfd _ f => f.writable
  | .devZero _ w => w
  | .otherAbs _ w => w
  | .notAbs => false

end Descriptor

/-- The checks of the descriptor and of its seals for a mapping of a file. -/
def mmapFileOf (g : Globals) (desc : Option Descriptor) (flags : MmapFlags) (perm : MapPermission)
    (off : ℕ) : Except SysErrNo MmapFile :=
  match desc with
  | none => .error .EBADF
  | some .notAbs => .error .EINVAL
  | some d =>
    if !d.readable ∨ (flags.shared ∧ perm.w ∧ !d.writable) then .error .EACCES
    else
      match d with
      | .file f => .ok ⟨.inode f, off⟩
      | .memfd id opened =>
        let sharedWritable := flags.shared && perm.w
        if sharedWritable ∧ (g.memfds id).writeSealed then .error .EPERM
        else .ok ⟨.special ⟨id, flags.shared, sharedWritable, opened⟩, off⟩
      | .devZero _ _ => .ok MmapFile.empty
      | _ => .error .EINVAL

/-- The flags that `sys_mmap` knows. -/
def mmapFlagsAll : ℕ := 0x16F933

/-- The checks of the arguments before the descriptor is looked at. -/
def mmapCheck (len prot raw fd off : ℕ) : Option SysErrNo :=
  let flags := MmapFlags.ofBits raw
  let order := raw / 2 ^ 26 % 64
  let known := if flags.hugetlb then mmapFlagsAll ||| (63 <<< 26) else mmapFlagsAll
  if flags.hugetlb ∧ order ≠ 0 ∧ order ≠ 21 then some .EOPNOTSUPP
  else if flags.hugetlb ∧ !flags.anonymous then some .EOPNOTSUPP
  else if flags.hugetlb ∧ (off ≠ 0 ∨ len = 0 ∨ len % hugePageSize ≠ 0 ∨ prot % 8 = 0) then some .EINVAL
  else if raw % 16 = 3 ∧ raw ||| known ≠ known then some .EOPNOTSUPP
  else if !flags.shared ∧ !flags.priv then some .EINVAL
  else if !flags.anonymous ∧ fd = wordSize - 1 then some .EBADF
  else if len = 0 then some .EINVAL
  else none

def mmapLen (flags : MmapFlags) (len : ℕ) : ℕ := if flags.hugetlb then len else pageRoundUp len

def mremapLen (size : ℕ) : ℕ := (size + (pageSize - 1)) / pageSize * pageSize

/-- The source of a mapping: anonymous ones do not look at the descriptor. -/
def mmapSourceOf (g : Globals) (desc : Option Descriptor) (flags : MmapFlags) (perm : MapPermission)
    (off : ℕ) : Except SysErrNo MmapFile :=
  if flags.anonymous then .ok MmapFile.empty else mmapFileOf g desc flags perm off

/-- The address 0 stands for a failure. -/
def mmapRet (flags : MmapFlags) (rv : ℕ) : SyscallRet :=
  if rv ≠ 0 then .ok rv
  else if flags.fixedNoreplace then .error .EEXIST
  else .error .ENOMEM

namespace MemorySetInner

/-- The kinds of advice that `sys_madvise` accepts. -/
inductive Advice where
  | hint
  | dontneed
deriving DecidableEq, Repr

def Advice.ofWord : ℕ → Option Advice
  | 0 | 1 | 2 | 3 => some .hint
  | 4 => some .dontneed
  | _ => none

end MemorySetInner

namespace Conv

def mmapHandle (s : MemorySetInner) (g : Globals) (addr len : ℕ) (mapPerm : MapPermission)
    (flags : MmapFlags) (mmapFile : MmapFile) : Conv (ℕ × MemorySetInner × Globals) :=
  if !flags.hugetlb ∧ flags.fixed then
    match checkedAdd addr len with
    | none => pure (0, s, g)
    | some endAddr => do
      let _ ← toVirtAddr addr
      let _ ← toVirtAddr endAddr
      mmap s g addr len mapPerm flags mmapFile
  else mmap s g addr len mapPerm flags mmapFile

def sysMmap (s : MemorySetInner) (g : Globals) (addr len prot raw fd off : ℕ) (desc : Option Descriptor) :
    Conv (SyscallRet × MemorySetInner × Globals) :=
  let flags := MmapFlags.ofBits raw
  let perm := MapPermission.ofProt prot
  match mmapCheck len prot raw fd off with
  | some e => pure (.error e, s, g)
  | none =>
    let len := mmapLen flags len
    if maxMmapSize < len then pure (.error .ENOMEM, s, g)
    else
      match mmapSourceOf g desc flags perm off with
      | .error e => pure (.error e, s, g)
      | .ok file => do
        let (rv, s, g) ← mmapHandle s g addr len perm flags file
        return (mmapRet flags rv, s, g)

/-- `MemorySet::munmap`: the dirty pages are written back first, with the given outcome. -/
def munmapWriteback (s : MemorySetInner) (g : Globals) (addr len : ℕ) (ioError : Option SysErrNo) :
    Conv (SyscallRet × MemorySetInner × Globals) :=
  match checkedAdd addr len with
  | none => pure (.error .EINVAL, s, g)
  | some endAddr => do
    let first ← toVirtAddr addr
    let last ← toVirtAddr endAddr
    if ceilVpn last ≤ floorVpn first then return (.error .EINVAL, s, g)
    else
      match ioError with
      | some e => return (.error e, s, g)
      | none => munmap s g addr len

def sysMunmap (s : MemorySetInner) (g : Globals) (addr len : ℕ) (ioError : Option SysErrNo) :
    Conv (SyscallRet × MemorySetInner × Globals) :=
  if addr % pageSize ≠ 0 then pure (.error .EINVAL, s, g)
  else do
    let (r, s, g) ← munmapWriteback s g addr (pageRoundUp len) ioError
    return (if r = .error .ENOSPC then .ok 0 else r, s, g)

def sysMremap (s : MemorySetInner) (g : Globals) (oldAddr oldSize newSize flags newAddr : ℕ) :
    Conv (SyscallRet × MemorySetInner × Globals) :=
  let mayMove := flags.testBit 0
  let fixed := flags.testBit 1
  if 8 ≤ flags then pure (.error .EINVAL, s, g)
  else if flags.testBit 2 then pure (.error .ENOSYS, s, g)
  else if fixed ∧ !mayMove then pure (.error .EINVAL, s, g)
  else if oldAddr % pageSize ≠ 0 ∨ oldSize = 0 ∨ newSize = 0 then pure (.error .EINVAL, s, g)
  else if fixed ∧ newAddr % pageSize ≠ 0 then pure (.error .EINVAL, s, g)
  else if wordSize ≤ oldSize + (pageSize - 1) ∨ wordSize ≤ newSize + (pageSize - 1) then
    pure (.error .EINVAL, s, g)
  else
    let oldLen := mremapLen oldSize
    let newLen := mremapLen newSize
    match checkedAdd oldAddr oldLen with
    | none => pure (.error .EINVAL, s, g)
    | some oldEnd =>
      if userSpaceSize < oldEnd ∨ !canonical oldAddr ∨ !canonical (oldEnd - 1) then
        pure (.error .EINVAL, s, g)
      else do
        let _ ← toVirtAddr oldAddr
        let _ ← toVirtAddr oldEnd
        if mayMove then
          if fixed then
            match checkedAdd newAddr newLen with
            | none => return (.error .EINVAL, s, g)
            | some newEnd =>
              let _ ← toVirtAddr newAddr
              let _ ← toVirtAddr newEnd
              mremapMaymove s g oldAddr oldLen newLen newAddr true
          else mremapMaymove s g oldAddr oldLen newLen newAddr false
        else mremapInPlace s g oldAddr oldLen newLen

def sysMprotect (s : MemorySetInner) (g : Globals) (addr len prot : ℕ) :
    Conv (SyscallRet × MemorySetInner × Globals) :=
  if addr % pageSize ≠ 0 ∨ len % pageSize ≠ 0 then pure (.error .EINVAL, s, g)
  else
    match checkedAdd addr len with
    | none => pure (.error .EINVAL, s, g)
    | some endAddr => do
      let first ← toVirtAddr addr
      let last ← toVirtAddr endAddr
      return s.mprotect g (floorVpn first) (ceilVpn last) (MapPermission.ofProt prot)

def sysMadvise (s : MemorySetInner) (addr len advice : ℕ) : Conv (SyscallRet × MemorySetInner) :=
  match MemorySetInner.Advice.ofWord (advice % 2 ^ 32) with
  | none => pure (.error .EINVAL, s)
  | some advice =>
    if addr % pageSize ≠ 0 then pure (.error .EINVAL, s)
    else if len = 0 then pure (.ok 0, s)
    else
      match checkedAdd addr len with
      | none => pure (.error .EINVAL, s)
      | some endAddr =>
        if !canonical addr ∨ !canonical (endAddr - 1) then pure (.error .EINVAL, s)
        else
          match advice with
          | .dontneed => do
            let _ ← toVirtAddr addr
            let _ ← toVirtAddr endAddr
            discardMadvisePages s addr len
          | .hint => do
            let r ← validateMadviseRange s addr len
            return (r, s)

end Conv

namespace MemorySetInner

def sysMmap (s : MemorySetInner) (g : Globals) (addr len prot raw fd off : ℕ) (desc : Option Descriptor) :=
  (Conv.sysMmap s g addr len prot raw fd off desc).result

def sysMunmap (s : MemorySetInner) (g : Globals) (addr len : ℕ) (ioError : Option SysErrNo) :=
  (Conv.sysMunmap s g addr len ioError).result

def sysMremap (s : MemorySetInner) (g : Globals) (oldAddr oldSize newSize flags newAddr : ℕ) :=
  (Conv.sysMremap s g oldAddr oldSize newSize flags newAddr).result

def sysMprotect (s : MemorySetInner) (g : Globals) (addr len prot : ℕ) := (Conv.sysMprotect s g addr len prot).result

def sysMadvise (s : MemorySetInner) (addr len advice : ℕ) := (Conv.sysMadvise s addr len advice).result

end MemorySetInner

end Ya2yOS.Mm
