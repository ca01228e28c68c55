import Ya2yOS.Signal.Frame
import Mathlib.Data.List.Basic

/-!
# Scatter and gather transfers

`sys_write`, `sys_writev`, `sys_readv`, `sys_pwritev2` and `sys_preadv2` in pieces of at most `IO_CHUNK_SIZE` bytes. A
file may move fewer bytes than asked for, or fail, at any call. A transfer is the pairs of offset and place it joins.
-/

namespace Ya2yOS.Fs

open Signal (UserMemory)

/-- How much of a buffer is copied at a time. -/
def IO_CHUNK_SIZE : ℕ := 0x10000
def IOV_MAX : ℕ := 1024
def ISIZE_MAX : ℕ := 2 ^ 63 - 1

/-- A buffer of user memory. -/
structure Iovec where
  base : ℕ
  len : ℕ
deriving DecidableEq

/-- A byte of the buffers: the number of its buffer and its offset. -/
structure Place where
  index : ℕ
  offset : ℕ
deriving DecidableEq

/-- The places of a part of a buffer. -/
def span (i start n : ℕ) : List Place := (List.range' start n).map (Place.mk i)

/-- The concatenation of the buffers, the first of which has the number `i`. -/
def places : ℕ → List Iovec → List Place
  | _, [] => []
  | i, v :: vs => span i 0 v.len ++ places (i + 1) vs

@[simp]
lemma length_span (i start n : ℕ) : (span i start n).length = n := by
  rw [span, List.length_map, List.length_range']

lemma span_add (i start n k : ℕ) : span i start (n + k) = span i start n ++ span i (start + n) k := by
  rw [span, span, span, ← List.map_append, List.range'_append_1]

/-- A check that fails with an error. -/
def refuse (c : Prop) [Decidable c] (e : SysErrNo) : Except SysErrNo Unit := if c then .error e else .ok ()

lemma bind_eq_ok {α β : Type} {x : Except SysErrNo α} {f : α → Except SysErrNo β} {b : β} :
    x >>= f = .ok b ↔ ∃ a, x = .ok a ∧ f a = .ok b := by
  cases x with
  | error e => exact ⟨nofun, fun ⟨_, h, _⟩ => nomatch h⟩
  | ok a => exact ⟨fun h => ⟨a, rfl, h⟩, fun ⟨_, h, h'⟩ => Except.ok.inj h ▸ h'⟩

/-- What the calls ask a file. -/
structure Target where
  readable : Bool
  writable : Bool
  allowsWrite : Bool
  pathOnly : Bool
  isDir : Bool
  seekable : Bool
  append : Bool

/-- The offset and the size of a file, how often it was called, and which byte has gone where. -/
structure IoState where
  pos : ℕ
  size : ℕ
  calls : ℕ
  moved : List (ℕ × Place)

/-- What a file object does at each of its calls: fail, or move so many bytes if it is asked for that many. -/
abbrev Behaviour := ℕ → Except SysErrNo ℕ

namespace Target

variable (t : Target) (behave : Behaviour)

def writeStart (s : IoState) : ℕ := if t.append then s.size else s.pos

def write (buf : List Place) (s : IoState) : Except SysErrNo ℕ × IoState :=
  let start := t.writeStart s
  match behave s.calls with
  | .error e => (.error e, { s with pos := start, calls := s.calls + 1 })
  | .ok k =>
    let n := min k buf.length
    (.ok n,
      { pos := start + n
        size := if n = 0 then s.size else max s.size (start + n)
        calls := s.calls + 1
        moved := s.moved ++ (List.range' start n).zip buf })

def read (len : ℕ) (s : IoState) : Except SysErrNo (List ℕ) × IoState :=
  match behave s.calls with
  | .error e => (.error e, { s with calls := s.calls + 1 })
  | .ok k => (.ok (List.range' s.pos (min k len)), { s with pos := s.pos + min k len, calls := s.calls + 1 })

/-- The offset of a file that can seek. -/
def tell (s : IoState) : SyscallRet := if t.seekable then .ok s.pos else .error .ESPIPE

end Target

def copyFromUser (m : UserMemory) (v : Iovec) (i start n : ℕ) : Except SysErrNo (List Place) :=
  if (List.range n).all fun k => (m.byte (v.base + start + k)).isSome then .ok (span i start n) else .error .EFAULT

def copyToUser (m : UserMemory) (v : Iovec) (i start : ℕ) (data : List ℕ) (s : IoState) : Except SysErrNo IoState :=
  if m.canWrite (v.base + start) data.length then
    .ok { s with moved := s.moved ++ data.zip (span i start data.length) }
  else .error .EFAULT

def readIovec (m : UserMemory) (iov i : ℕ) : Except SysErrNo Iovec :=
  match m.readWord (iov + 16 * i), m.readWord (iov + 16 * i + 8) with
  | some base, some len => .ok ⟨base.toNat, len.toNat⟩
  | _, _ => .error .EFAULT

def validateIovLen (len : ℕ) : Except SysErrNo Unit := refuse (len > ISIZE_MAX) .EINVAL

/-- The buffers, read and checked one after another. -/
def readIovecs (m : UserMemory) (iov : ℕ) : (i total remaining : ℕ) → Except SysErrNo (List Iovec)
  | _, _, 0 => .ok []
  | i, total, k + 1 => do
    let v ← readIovec m iov i
    validateIovLen v.len
    refuse (total + v.len > ISIZE_MAX) .EINVAL
    let vs ← readIovecs m iov (i + 1) (total + v.len) k
    return v :: vs

def iovecs (m : UserMemory) (iov : ℕ) : (i n : ℕ) → List Iovec
  | _, 0 => []
  | i, n + 1 => ((readIovec m iov i).toOption.getD ⟨0, 0⟩) :: iovecs m iov (i + 1) n

/-- How a loop over the buffers ends. -/
inductive Ending where
  | done
  | short
  | fault (e : SysErrNo)

/-- An error is reported only if nothing was moved before it. -/
def Ending.finish (total : ℕ) : Ending → SyscallRet
  | .done => .ok total
  | .short => .ok total
  | .fault e => if total > 0 then .ok total else .error e

section Loops

variable (t : Target) (behave : Behaviour) (m : UserMemory)

/-- The chunks of one buffer; it ends when the file takes less than a chunk. -/
def writeBuffer (v : Iovec) (i : ℕ) : (fuel copied total : ℕ) → IoState → Ending × ℕ × IoState
  | 0, _, total, s => (.done, total, s)
  | fuel + 1, copied, total, s =>
    if copied < v.len then
      let chunk := min IO_CHUNK_SIZE (v.len - copied)
      match copyFromUser m v i copied chunk with
      | .error e => (.fault e, total, s)
      | .ok buf =>
        match t.write behave buf s with
        | (.error e, s) => (.fault e, total, s)
        | (.ok n, s) =>
          if n < chunk then (.short, total + n, s) else writeBuffer v i fuel (copied + n) (total + n) s
    else (.done, total, s)

/-- The chunks of one buffer; it ends when the file gives less than a chunk. -/
def readBuffer (v : Iovec) (i : ℕ) : (fuel copied total : ℕ) → IoState → Ending × ℕ × IoState
  | 0, _, total, s => (.done, total, s)
  | fuel + 1, copied, total, s =>
    if copied < v.len then
      let chunk := min IO_CHUNK_SIZE (v.len - copied)
      if m.canWrite (v.base + copied) chunk then
        match Target.read behave chunk s with
        | (.error e, s) => (.fault e, total, s)
        | (.ok data, s) =>
          if data.length = 0 then (.short, total, s)
          else
            match copyToUser m v i copied data s with
            | .error e => (.fault e, total, s)
            | .ok s =>
              if data.length < chunk then (.short, total + data.length, s)
              else readBuffer v i fuel (copied + data.length) (total + data.length) s
      else (.fault .EFAULT, total, s)
    else (.done, total, s)

/-- The buffers one after another. -/
def eachBuffer (body : Iovec → ℕ → ℕ → IoState → Ending × ℕ × IoState) :
    ℕ → List Iovec → ℕ → IoState → Ending × ℕ × IoState
  | _, [], total, s => (.done, total, s)
  | i, v :: vs, total, s =>
    match body v i total s with
    | (.done, total, s) => eachBuffer body (i + 1) vs total s
    | early => early

def writeBuffers : List Iovec → IoState → Ending × ℕ × IoState :=
  fun vs s => eachBuffer (fun v i => writeBuffer t behave m v i v.len 0) 0 vs 0 s

def readBuffers : List Iovec → IoState → Ending × ℕ × IoState :=
  fun vs s => eachBuffer (fun v i => readBuffer behave m v i v.len 0) 0 vs 0 s

def copyHead (v : Iovec) (i : ℕ) : Except SysErrNo (List Place) :=
  if v.len = 0 then .ok [] else copyFromUser m v i 0 (min IO_CHUNK_SIZE v.len)

/-- `writev` copies the head of each buffer only, up to a chunk. -/
def gather (iov : ℕ) : (i remaining : ℕ) → Except SysErrNo (List Place)
  | _, 0 => .ok []
  | i, k + 1 => do
    let v ← readIovec m iov i
    validateIovLen v.len
    let here ← copyHead m v i
    let rest ← gather iov (i + 1) k
    return here ++ rest

end Loops

/-- A write that begins at or behind the limit fails. -/
def checkFsize (t : Target) (limit : Option ℕ) (s : IoState) : Except SysErrNo Unit :=
  match limit with
  | none => .ok ()
  | some l => do
    let pos ← t.tell s
    refuse (pos ≥ l) .EFBIG

def validateIovcnt (n : ℕ) : Except SysErrNo Unit := refuse (n > IOV_MAX) .EINVAL

def checkRwFlags (flags : BitVec 32) : Except SysErrNo Unit := refuse (flags ≠ 0) .EOPNOTSUPP

def splitOffsetToI64 (low high : BitVec 64) : ℤ := ((high <<< 32) ||| (low.setWidth 32).setWidth 64).toInt

def validatePreadv2Offset (low high : BitVec 64) : Except SysErrNo (Option ℕ) :=
  let offset := splitOffsetToI64 low high
  if offset = -1 then .ok none else if offset < 0 then .error .EINVAL else .ok (some offset.toNat)

section Calls

variable (t : Target) (behave : Behaviour) (m : UserMemory)

def sysWrite (limit : Option ℕ) (buf len : ℕ) (s : IoState) : SyscallRet × IoState :=
  if len = 0 then (.ok 0, s)
  else if t.pathOnly || !t.writable then (.error .EBADF, s)
  else
    match checkFsize t limit s with
    | .error e => (.error e, s)
    | .ok () =>
      let (ending, total, s) := writeBuffer t behave m ⟨buf, len⟩ 0 len 0 0 s
      (ending.finish total, s)

def writevSource (limit : Option ℕ) (iov n : ℕ) (s : IoState) : Except SysErrNo (List Place) := do
  refuse (!t.writable) .EBADF
  checkFsize t limit s
  if n = 0 then return []
  else do
    validateIovcnt n
    gather m iov 0 n

def sysWritev (limit : Option ℕ) (iov n : ℕ) (s : IoState) : SyscallRet × IoState :=
  match writevSource t m limit iov n s with
  | .error e => (.error e, s)
  | .ok buf => if buf.length = 0 then (.ok 0, s) else t.write behave buf s

def readvTarget (iov n : ℕ) : Except SysErrNo (List Iovec) := do
  refuse (!t.readable) .EBADF
  if n = 0 then return []
  else do
    validateIovcnt n
    refuse t.isDir .EISDIR
    readIovecs m iov 0 0 n

def sysReadv (iov n : ℕ) (s : IoState) : SyscallRet × IoState :=
  match readvTarget t m iov n with
  | .error e => (.error e, s)
  | .ok vs =>
    let (ending, total, s) := readBuffers behave m vs s
    (ending.finish total, s)

/-- A transfer at an offset: the position is moved there, and back to where it was on every way out. -/
def atOffset (offset : Option ℕ) (body : IoState → SyscallRet × IoState) (s : IoState) : SyscallRet × IoState :=
  match offset with
  | none => body s
  | some o =>
    let (ret, s') := body { s with pos := o }
    (ret, { s' with pos := s.pos })

def checkPositioned (low high : BitVec 64) (flags : BitVec 32) (allowed : Except SysErrNo Unit) (s : IoState) :
    Except SysErrNo (Option ℕ) := do
  checkRwFlags flags
  let offset ← validatePreadv2Offset low high
  let _ ← t.tell s
  allowed
  return offset

def overIovecs (iov n : ℕ) (loop : List Iovec → IoState → Ending × ℕ × IoState) (s : IoState) :
    SyscallRet × IoState :=
  match readIovecs m iov 0 0 n with
  | .error e => (.error e, s)
  | .ok vs =>
    let (ending, total, s) := loop vs s
    (ending.finish total, s)

/-- `pwritev2` and `preadv2`: seek, loop, seek back. -/
def positioned (iov n : ℕ) (low high : BitVec 64) (flags : BitVec 32) (allowed : Except SysErrNo Unit)
    (loop : List Iovec → IoState → Ending × ℕ × IoState) (s : IoState) : SyscallRet × IoState :=
  if n > IOV_MAX then (.error .EINVAL, s)
  else if n = 0 then (.ok 0, s)
  else
    match checkPositioned t low high flags allowed s with
    | .error e => (.error e, s)
    | .ok offset => atOffset offset (overIovecs m iov n loop) s

def sysPwritev2 (iov n : ℕ) (low high : BitVec 64) (flags : BitVec 32) : IoState → SyscallRet × IoState :=
  positioned t m iov n low high flags (refuse (!t.allowsWrite || !t.writable) .EBADF)
    (writeBuffers t behave m)

def sysPreadv2 (iov n : ℕ) (low high : BitVec 64) (flags : BitVec 32) : IoState → SyscallRet × IoState :=
  positioned t m iov n low high flags (do refuse (!t.readable) .EBADF; refuse t.isDir .EISDIR) (readBuffers behave m)

end Calls

/-- The calls with their arguments. -/
inductive IoCall where
  | write (buf len : ℕ)
  | writev (iov n : ℕ)
  | readv (iov n : ℕ)
  | pwritev2 (iov n : ℕ) (low high : BitVec 64) (flags : BitVec 32)
  | preadv2 (iov n : ℕ) (low high : BitVec 64) (flags : BitVec 32)

namespace IoCall

def run (t : Target) (behave : Behaviour) (m : UserMemory) (limit : Option ℕ) : IoCall → IoState → SyscallRet × IoState
  | write buf len => sysWrite t behave m limit buf len
  | writev iov n => sysWritev t behave m limit iov n
  | readv iov n => sysReadv t behave m iov n
  | pwritev2 iov n low high flags => sysPwritev2 t behave m iov n low high flags
  | preadv2 iov n low high flags => sysPreadv2 t behave m iov n low high flags

def buffers (m : UserMemory) : IoCall → List Iovec
  | write buf len => [⟨buf, len⟩]
  | writev iov n | readv iov n | pwritev2 iov n _ _ _ | preadv2 iov n _ _ _ => iovecs m iov 0 n

def offset : IoCall → Option ℕ
  | pwritev2 _ _ low high _ | preadv2 _ _ low high _ => (validatePreadv2Offset low high).toOption.join
  | _ => none

def writes : IoCall → Bool
  | write .. | writev .. | pwritev2 .. => true
  | readv .. | preadv2 .. => false

def start (t : Target) (c : IoCall) (s : IoState) : ℕ :=
  if c.writes && t.append then s.size else c.offset.getD s.pos

end IoCall

end Ya2yOS.Fs
