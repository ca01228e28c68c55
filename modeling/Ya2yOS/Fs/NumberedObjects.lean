import Ya2yOS.Fs.FdSharing
import Ya2yOS.Timer.TimerCondvar

/-!
# Timers and message queues by descriptor number

`timerfd_create` installs a descriptor in the table of the process and enters its number in a table of the whole
kernel, as a weak reference. `mq_open` is written to do the same, but no queue ever comes to be: the insert into
`NAME_REGISTRY` stands in the `else` branch of an `if let` whose guard is still held there, so that the caller spins
on the lock it has. Names and queues are therefore left out, and so is the future that wakes the readers of a timer.
-/

namespace Ya2yOS.Fs

open Lib
open Timer (Timespec wordSize nsecPerSec)

/-- `timespec_sub`. -/
def timespecSub (stop start : Timespec) : Timespec :=
  if stop ≤ start then ⟨0, 0⟩
  else if start.tvNsec ≤ stop.tvNsec then ⟨stop.tvSec - start.tvSec, stop.tvNsec - start.tvNsec⟩
  else ⟨stop.tvSec - start.tvSec - 1, stop.tvNsec + nsecPerSec - start.tvNsec⟩

structure TimerFdSpec where
  interval : Timespec
  value : Timespec
deriving DecidableEq, Repr

/-- What the calls read of the hardware: the frequency of the counter and the time, which stands still in a call. -/
structure Clock where
  freq : ℕ
  now : Timespec

structure TimerFdState where
  nextExpiry : Option Timespec
  interval : Timespec
  expirations : ℕ
deriving DecidableEq, Repr

namespace TimerFdState

def new : TimerFdState := ⟨none, ⟨0, 0⟩, 0⟩

def u64Max : ℕ := 2 ^ 64 - 1

/-- `update_expirations`: a periodic timer skips the periods that have passed. -/
def updateExpirations (clock : Clock) (t : TimerFdState) : TimerFdState :=
  match t.nextExpiry with
  | none => t
  | some next =>
    if clock.now < next then t
    else if t.interval = ⟨0, 0⟩ then { t with expirations := min (t.expirations + 1) u64Max, nextExpiry := none }
    else
      let intervalTicks := max (t.interval.toTick clock.freq) 1
      let elapsed := ((clock.now.toTick clock.freq - next.toTick clock.freq) / intervalTicks + 1) % wordSize
      let nextTick := min (next.toTick clock.freq + min (elapsed * intervalTicks) u64Max) u64Max
      let nanos := if clock.freq = 0 then u64Max else min (nextTick * nsecPerSec / clock.freq) u64Max
      { t with
        expirations := min (t.expirations + elapsed) u64Max
        nextExpiry := some ⟨nanos / nsecPerSec, nanos % nsecPerSec⟩ }

def remaining (clock : Clock) (t : TimerFdState) : TimerFdSpec × TimerFdState :=
  let t := t.updateExpirations clock
  (⟨t.interval, (t.nextExpiry.map fun next => timespecSub next clock.now).getD ⟨0, 0⟩⟩, t)

def setTime (clock : Clock) (absolute : Bool) (spec : TimerFdSpec) : TimerFdState where
  interval := spec.interval
  expirations := 0
  nextExpiry :=
    if spec.value = ⟨0, 0⟩ then none else if absolute then some spec.value else some (clock.now.add spec.value)

end TimerFdState

/-- A call with its arguments; the user memory is given by what the copies of the kernel return. -/
inductive ObjectCall where
  | timedsend (mqdes msgPtr msgLen : ℕ)
  | timedreceive (mqdes msgPtr msgLen : ℕ)
  | settime (fd flags newValue oldValue : ℕ) (copied : Option TimerFdSpec) (oldOk : Bool) (clock : Clock)
  | gettime (fd currValue : ℕ) (copyOk : Bool) (clock : Clock)

structure CallOutcome where
  ret : SyscallRet
  spec : Option TimerFdSpec
deriving DecidableEq

def CallOutcome.fail (e : SysErrNo) : CallOutcome := ⟨.error e, none⟩

namespace ObjectCall

def fd : ObjectCall → ℕ
  | .timedsend mqdes .. | .timedreceive mqdes .. => mqdes
  | .settime fd .. | .gettime fd .. => fd

def forTimer : ObjectCall → Bool
  | .timedsend .. | .timedreceive .. => false
  | .settime .. | .gettime .. => true

/-- The checks that come before the look-up. -/
def invalid : ObjectCall → Option SysErrNo
  | .timedsend _ msgPtr msgLen | .timedreceive _ msgPtr msgLen =>
    if msgLen = 0 then some .EINVAL else if msgPtr = 0 then some .EFAULT else none
  | .settime _ flags newValue _ copied _ _ =>
    if 1 < flags ∨ newValue = 0 then some .EINVAL
    else
      match copied with
      | none => some .EFAULT
      | some spec => if nsecPerSec ≤ spec.interval.tvNsec ∨ nsecPerSec ≤ spec.value.tvNsec then some .EINVAL else none
  | .gettime _ currValue .. => if currValue = 0 then some .EFAULT else none

/-- The error of a look-up that finds nothing: `Mqueue::lookup` and `TimerFd::lookup`. -/
def missing (c : ObjectCall) : SysErrNo := if c.forTimer then .EINVAL else .EBADF

/-- What a call does to the timer that its look-up has found; the calls on queues never find anything. -/
def operate : ObjectCall → TimerFdState → CallOutcome × TimerFdState
  | .settime _ flags _ oldValue copied oldOk clock, state =>
    let (old, state) := if oldValue = 0 then (none, state) else (state.remaining clock).map some id
    if oldValue ≠ 0 && !oldOk then (.fail .EFAULT, state)
    else (⟨.ok 0, old⟩, .setTime clock (flags = 1) (copied.getD ⟨⟨0, 0⟩, ⟨0, 0⟩⟩))
  | .gettime _ _ copyOk clock, state =>
    let (spec, state) := state.remaining clock
    if copyOk then (⟨.ok 0, some spec⟩, state) else (.fail .EFAULT, state)
  | c, state => (.fail c.missing, state)

end ObjectCall

/-! ### Processes -/

/-- A descriptor table and the number of processes that use it. -/
structure OwnedTable where
  table : FdTable
  owners : ℕ

/-- The open file descriptions are numbers; those of timers have a state. -/
structure ObjectSystem where
  tableOf : ℕ → Option ℕ
  tables : List OwnedTable
  timer : ℕ → Option TimerFdState
  nextObject : ℕ
  /-- `TIMERFD_TABLE` -/
  registered : ℕ → Option ℕ
  /-- a caller of `mq_open` has locked `NAME_REGISTRY` for good -/
  registryHeld : Bool

inductive ObjectEvent where
  | mqOpen (p : ℕ) (name : List Char) (create : Bool)
  | timerfdCreate (p clockid : ℕ) (flags : BitVec 32)
  | openOther (p : ℕ)
  | dup (p old : ℕ)
  | dup3 (p old new : ℕ) (flags : BitVec 32)
  | close (p fd : ℕ)
  | fork (p child : ℕ) (shareFiles : Bool)
  | exit (p : ℕ)
  | call (p : ℕ) (c : ObjectCall)

def Dup3.complete (fuel : ℕ) (d : Dup3) (t : FdTable) : FdTable :=
  match fuel with
  | 0 => t
  | fuel + 1 =>
    match d.step t with
    | (t, .inl d) => complete fuel d t
    | (t, .inr _) => t

namespace FdTable

def install (t : FdTable) (file : FileDescriptor) : Except SysErrNo (ℕ × FdTable) := do
  let (fd, t) ← t.allocFd
  let t ← t.set fd file
  .ok (fd, t)

def copy (t : FdTable) : FdTable := { t with reserved := List.replicate t.files.length false }

def clear (t : FdTable) : FdTable := { t with files := [], reserved := [] }

end FdTable

namespace ObjectSystem

def initial (soft hard : ℕ) : ObjectSystem where
  tableOf p := if p = 0 then some 0 else none
  tables := [⟨⟨soft, hard, [], []⟩, 1⟩]
  timer _ := none
  nextObject := 0
  registered _ := none
  registryHeld := false

def slot (s : ObjectSystem) (i fd : ℕ) : Option ℕ :=
  (s.tables[i]?).bind fun t => (t.table.tryGet fd).map FileDescriptor.description

/-- The weak reference can be upgraded: some descriptor holds the description. -/
def live (s : ObjectSystem) (x : ℕ) : Bool :=
  s.tables.any fun t => t.table.files.any fun f => f.any fun d => d.description = x

/-- `TimerFd::lookup` and `Mqueue::lookup`; nothing is ever entered in `MQUEUE_TABLE`. -/
def lookup (s : ObjectSystem) (c : ObjectCall) : Option ℕ :=
  if c.forTimer then (s.registered c.fd).filter s.live else none

/-- The object of its kind that the descriptor of a call refers to in the calling process; none is a queue. -/
def refersTo (s : ObjectSystem) (p : ℕ) (c : ObjectCall) : Option ℕ :=
  if c.forTimer then ((s.tableOf p).bind fun i => s.slot i c.fd).filter fun x => (s.timer x).isSome else none

/-- The call on a given object. -/
def callOn (s : ObjectSystem) (x : Option ℕ) (c : ObjectCall) : CallOutcome × ObjectSystem :=
  match c.invalid, x.bind fun x => (s.timer x).map (x, ·) with
  | some e, _ => (.fail e, s)
  | none, none => (.fail c.missing, s)
  | none, some (x, t) =>
    let (out, t) := c.operate t
    (out, { s with timer := Function.update s.timer x (some t) })

def setTable (s : ObjectSystem) (i : ℕ) (t : FdTable) : ObjectSystem :=
  { s with tables := s.tables.modify i fun o => { o with table := t } }

def register (s : ObjectSystem) (fd : ℕ) (x : Option ℕ) : ObjectSystem :=
  { s with registered := Function.update s.registered fd x }

/-- `TimerFd::lookup` removes an entry that it cannot upgrade. -/
def forget (s : ObjectSystem) (c : ObjectCall) : ObjectSystem :=
  if c.forTimer ∧ c.invalid = none ∧ s.lookup c = none then s.register c.fd none else s

def call (s : ObjectSystem) (c : ObjectCall) : CallOutcome × ObjectSystem := (s.forget c).callOn (s.lookup c) c

/-- A new description gets a descriptor; a timer is entered in `TIMERFD_TABLE`, too. -/
def installNew (s : ObjectSystem) (i : ℕ) (t : Option TimerFdState) (cloexec : Bool) : Option ObjectSystem := do
  let o ← s.tables[i]?
  match o.table.install ⟨s.nextObject, cloexec⟩ with
  | .error _ => some s
  | .ok (fd, table) =>
    let x := s.nextObject
    let s := { s.setTable i table with timer := Function.update s.timer x t, nextObject := x + 1 }
    some (if t.isSome then s.register fd (some x) else s)

/-- `sys_mq_open` behind the copy of its arguments. A name that is not registered is either an error or the end of
the caller: it has the guard of the registry and waits for it. -/
def mqOpen (s : ObjectSystem) (name : List Char) (create : Bool) : Option SysErrNo × ObjectSystem :=
  if name.head? ≠ some '/' then (some .EINVAL, s)
  else if s.registryHeld then (none, s)
  else if create then (none, { s with registryHeld := true })
  else (some .ENOENT, s)

def dup (s : ObjectSystem) (i old : ℕ) : Option ObjectSystem := do
  let t ← s.tables[i]?
  match t.table.tryGet old with
  | none => some s
  | some file =>
    match t.table.install { file with cloexec := false } with
    | .error _ => some s
    | .ok (_, table) => some (s.setTable i table)

def dup3 (s : ObjectSystem) (i old new : ℕ) (flags : BitVec 32) : Option ObjectSystem := do
  let t ← s.tables[i]?
  match Dup3.enter old new flags with
  | .error _ => some s
  | .ok d => some (s.setTable i (d.complete 10 t.table))

def fork (s : ObjectSystem) (i child : ℕ) (shareFiles : Bool) : Option ObjectSystem := do
  let t ← s.tables[i]?
  if shareFiles then
    some { s with
      tableOf := Function.update s.tableOf child (some i)
      tables := s.tables.modify i fun o => { o with owners := o.owners + 1 } }
  else
    some { s with
      tableOf := Function.update s.tableOf child (some s.tables.length)
      tables := s.tables ++ [⟨t.table.copy, 1⟩] }

def exit (s : ObjectSystem) (p i : ℕ) : ObjectSystem :=
  { s with
    tableOf := Function.update s.tableOf p none
    tables := s.tables.modify i fun o => ⟨if o.owners = 1 then o.table.clear else o.table, o.owners - 1⟩ }

def tfdNonblock : BitVec 32 := 0x800

def tfdCloexec : BitVec 32 := 0x80000

def timerfdCreate (s : ObjectSystem) (i clockid : ℕ) (flags : BitVec 32) : Option ObjectSystem :=
  if 1 < clockid ∨ flags &&& ~~~(tfdNonblock ||| tfdCloexec) ≠ 0 then some s
  else s.installNew i (some .new) (flags &&& tfdCloexec != 0)

/-- One event of a process; a call that spins has no further effect. -/
def step (s : ObjectSystem) : ObjectEvent → Option ObjectSystem
  | .mqOpen p name create => (s.tableOf p).map fun _ => (s.mqOpen name create).2
  | .timerfdCreate p clockid flags => (s.tableOf p).bind fun i => s.timerfdCreate i clockid flags
  | .openOther p => (s.tableOf p).bind fun i => s.installNew i none false
  | .dup p old => (s.tableOf p).bind fun i => s.dup i old
  | .dup3 p old new flags => (s.tableOf p).bind fun i => s.dup3 i old new flags
  | .close p fd => (s.tableOf p).bind fun i => (s.tables[i]?).map fun t => s.setTable i (t.table.close fd)
  | .fork p child shareFiles =>
    if s.tableOf child = none then (s.tableOf p).bind fun i => s.fork i child shareFiles else none
  | .exit p => (s.tableOf p).map fun i => s.exit p i
  | .call p c => (s.tableOf p).map fun _ => (s.call c).2

end ObjectSystem

end Ya2yOS.Fs
