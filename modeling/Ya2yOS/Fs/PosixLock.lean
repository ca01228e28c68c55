import Mathlib.Algebra.Order.Ring.Int
import Mathlib.Data.List.Sort
import Mathlib.Data.Prod.Lex
import Ya2yOS.Utils.SysErrNo

/-!
# Record locks

The lock table of `syscall/fs/file_lock/posix.rs`, one vector of locks for each file. The range of a `struct flock`
becomes a closed interval of absolute offsets before it meets the table.
-/

namespace Ya2yOS.Fs

def i64Max : ℤ := 2 ^ 63 - 1
def i64Min : ℤ := -2 ^ 63

abbrev I64 := {x : ℤ // i64Min ≤ x ∧ x ≤ i64Max}

/-- An offset below 256, for requests on fixed bytes. -/
def I64.byte (n : ℕ) : I64 := ⟨(n % 256 : ℕ), by unfold i64Min i64Max; omega⟩

def satAdd (a b : ℤ) : ℤ := max i64Min (min i64Max (a + b))

def satSub (a b : ℤ) : ℤ := max i64Min (min i64Max (a - b))

lemma satAdd_bounds (a b : ℤ) : i64Min ≤ satAdd a b ∧ satAdd a b ≤ i64Max := by
  unfold satAdd i64Min i64Max
  omega

lemma satSub_bounds (a b : ℤ) : i64Min ≤ satSub a b ∧ satSub a b ≤ i64Max := by
  unfold satSub i64Min i64Max
  omega

inductive LockKind where
  | read
  | write
deriving DecidableEq, Repr

def LockKind.word : LockKind → ℤ
  | .read => 0
  | .write => 1

def lockType (word : ℤ) : Option (Option LockKind) :=
  if word = 0 then some (some .read)
  else if word = 1 then some (some .write)
  else if word = 2 then some none
  else none

structure Flock where
  lType : ℤ
  lWhence : ℤ
  lStart : I64
  lLen : I64

def absoluteStart (fl : Flock) (fileSize currentOffset : ℤ) : Except SysErrNo ℤ :=
  if fl.lWhence = 0 then .ok fl.lStart
  else if fl.lWhence = 1 then .ok (satAdd currentOffset fl.lStart)
  else if fl.lWhence = 2 then .ok (satAdd fileSize fl.lStart)
  else .error .EINVAL

/-- `to_absolute`: the range of a request as a closed interval. -/
def toAbsolute (fl : Flock) (fileSize currentOffset : ℤ) : Except SysErrNo (ℤ × ℤ) :=
  match absoluteStart fl fileSize currentOffset with
  | .error e => .error e
  | .ok start =>
    if start < 0 then .error .EINVAL
    else if (fl.lLen : ℤ) = 0 then .ok (start, i64Max)
    else if (fl.lLen : ℤ) < 0 then
      let lockStart := satAdd (satAdd start fl.lLen) 1
      if lockStart < 0 then .error .EINVAL else .ok (lockStart, start)
    else .ok (start, satSub (satAdd start fl.lLen) 1)

structure PosixLock where
  kind : LockKind
  start : ℤ
  stop : ℤ
  pid : ℤ
deriving DecidableEq, Repr

namespace PosixLock

def conflicts (a b : PosixLock) : Bool :=
  !(a.kind = .read && b.kind = .read) && (a.start ≤ b.stop && b.start ≤ a.stop)

def overlaps (a : PosixLock) (start stop : ℤ) : Bool := a.start ≤ stop && start ≤ a.stop

def splitOwned (a : PosixLock) (start stop : ℤ) : List PosixLock :=
  (if a.start < start then [{ a with stop := satSub start 1 }] else []) ++
    (if stop ≠ i64Max ∧ stop < a.stop then [{ a with start := satAdd stop 1 }] else [])

/-- The order by which `normalize_locks` sorts. -/
def sortKey (a : PosixLock) : ℤ ×ₗ ℤ ×ₗ ℤ ×ₗ ℤ := toLex (a.start, toLex (a.stop, toLex (a.pid, a.kind.word)))

def sortLe (a b : PosixLock) : Prop := a.sortKey ≤ b.sortKey

instance : DecidableRel sortLe := fun a b => inferInstanceAs (Decidable (a.sortKey ≤ b.sortKey))

def joins (last a : PosixLock) : Bool :=
  last.pid = a.pid && last.kind = a.kind &&
    (last.start ≤ satAdd a.stop 1 && a.start ≤ satAdd last.stop 1)

end PosixLock

def mergeFrom : PosixLock → List PosixLock → List PosixLock
  | last, [] => [last]
  | last, a :: rest =>
    if last.joins a then mergeFrom { last with stop := max last.stop a.stop } rest
    else last :: mergeFrom a rest

def mergeLocks : List PosixLock → List PosixLock
  | [] => []
  | a :: rest => mergeFrom a rest

/-- `normalize_locks`. The sort is stable. -/
def normalizeLocks (locks : List PosixLock) : List PosixLock :=
  mergeLocks (locks.insertionSort PosixLock.sortLe)

def carve (entry : List PosixLock) (start stop owner : ℤ) : List PosixLock :=
  entry.flatMap fun a => if a.pid = owner ∧ a.overlaps start stop then a.splitOwned start stop else [a]

def blocked (entry : List PosixLock) (new : PosixLock) : Bool :=
  entry.any fun a => a.pid ≠ new.pid && a.conflicts new

abbrev LockTable := String → Option (List PosixLock)

namespace LockTable

def locks (t : LockTable) (path : String) : List PosixLock := (t path).getD []

def setRange (t : LockTable) (path : String) (kind : Option LockKind) (start stop owner : ℤ) :
    SyscallRet × LockTable :=
  let new : Option PosixLock := kind.map fun k => ⟨k, start, stop, owner⟩
  -- the entry of the path is made before the conflicts are looked for
  let entry := t.locks path
  let t : LockTable := Function.update t path (some entry)
  if new.any (blocked entry) then (.error .EAGAIN, t)
  else (.ok 0, Function.update t path (some (normalizeLocks (carve entry start stop owner ++ new.toList))))

def setlk (t : LockTable) (path : String) (fl : Flock) (fileSize currentOffset owner : ℤ) :
    SyscallRet × LockTable :=
  match lockType fl.lType with
  | none => (.error .EINVAL, t)
  | some kind =>
    match toAbsolute fl fileSize currentOffset with
    | .error e => (.error e, t)
    | .ok (start, stop) => t.setRange path kind start stop owner

def released (owner : ℤ) (entry : List PosixLock) : Option (List PosixLock) :=
  let rest := entry.filter fun a => a.pid ≠ owner
  if rest = [] then none else some rest

def releasePosixLocks (t : LockTable) (path : String) (owner : ℤ) : LockTable :=
  Function.update t path ((t path).bind (released owner))

def releasePosixLocksByOwner (t : LockTable) (owner : ℤ) : LockTable := fun path => (t path).bind (released owner)

def empty : LockTable := fun _ => none

end LockTable

end Ya2yOS.Fs
