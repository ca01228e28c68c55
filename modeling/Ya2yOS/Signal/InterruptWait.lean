import Ya2yOS.Lib.Transition
import Ya2yOS.Signal.Types
import Ya2yOS.Task.BlockOn
import Ya2yOS.Utils.SysErrNo

/-!
# Waits that signals interrupt

`block_on` under `interruptible`, the wait of `wait4`, and the senders of signals. Only when the task is `Blocked` does
a sender go on to its waker; the task publishes `Blocked` without another look at its signals. Left out are `siginfo`,
the wait status, and tasks that are `Stopped` or in `vfork`.
-/

namespace Ya2yOS.Signal

open Lib
open Ya2yOS.Task (Waker Sleepers)

inductive WaitKind where
  | interruptible
  | waitpid
deriving DecidableEq, Repr

inductive SignalPc where
  | outside (last : SyscallRet)
  | loop (kind : WaitKind)
  | register
  | swap
  | poll (kind : WaitKind)
  | check
  | consume (signo : ℕ)
  | block (kind : WaitKind)
  | clear (last : SyscallRet)
  | drop (last : SyscallRet)
  /-- A sender: before the lock of the task, with a task seen `Blocked`, with a waker taken, and before the task is
  made ready. -/
  | send (target signo : ℕ)
  | notify (target : ℕ) (interruptWait : Bool)
  | store (target : ℕ) (w : Waker)
  | ready (target : ℕ)
deriving DecidableEq

namespace SignalPc

def waits : SignalPc → Option WaitKind
  | .loop kind | .poll kind | .block kind => some kind
  | .register | .swap => some .interruptible
  | .check | .consume _ => some .waitpid
  | _ => none

def isOutside : SignalPc → Bool
  | .outside _ => true
  | _ => false

end SignalPc

structure SignalTask where
  pending : SigSet
  mask : SigSet
  interrupted : Bool
  interruptWaker : Option Waker

structure SignalSystem where
  task : ℕ → SignalTask
  action : ℕ → ℕ → KSigAction
  sleepers : Sleepers
  pc : ℕ → SignalPc

inductive SignalEvent where
  | wait (t : ℕ) (kind : WaitKind)
  | send (t target signo : ℕ)
  | run (t : ℕ)
  | finish (t : ℕ)
  | quit (t : ℕ)
  | handle (t signo : ℕ)
  | setMask (t : ℕ) (mask : SigSet)
  | alert (t : ℕ)
  | rouse (t : ℕ)
  | deliver (t : ℕ)

namespace SignalSystem

def initial (action : ℕ → ℕ → KSigAction) : SignalSystem where
  task _ := ⟨0, 0, false, none⟩
  action := action
  sleepers := .initial
  pc _ := .outside (.ok 0)

def goto (s : SignalSystem) (t : ℕ) (pc : SignalPc) : SignalSystem := { s with pc := Function.update s.pc t pc }

def modify (s : SignalSystem) (t : ℕ) (f : SignalTask → SignalTask) : SignalSystem :=
  { s with task := Function.update s.task t (f (s.task t)) }

def Free (s : SignalSystem) (t : ℕ) : Prop := s.sleepers.blocked t = false ∧ s.sleepers.deliveries t = []
deriving Decidable

def actionOf (s : SignalSystem) (t signo : ℕ) : KSigAction :=
  if signo = SIGKILL ∨ signo = SIGSTOP then .defaultAction else s.action t signo

def interruptWait (s : SignalSystem) (t signo : ℕ) : Bool :=
  if signo = SIGCHLD then (s.actionOf t signo).isHandler
  else !(s.actionOf t signo).isIgnored && ((s.actionOf t signo).isHandler || defaultOp signo ≠ .ignore)

def waitIgnorable (s : SignalSystem) (t signo : ℕ) : Bool := signo = SIGCHLD || (s.actionOf t signo).ignores signo

def waitErrno (s : SignalSystem) (t signo : ℕ) : SysErrNo :=
  if (s.actionOf t signo).act.contains SigActionFlags.SA_RESTART then .ERESTART else .EINTR

def finished : WaitKind → SyscallRet → SignalPc
  | .interruptible, last => .clear last
  | .waitpid, last => .outside last

def advance (s : SignalSystem) (t : ℕ) : SignalPc → Option SignalSystem
  | .outside _ => none
  | .loop kind =>
    -- `exit_current_if_group_exited_or_killed`
    if SigSet.has (s.task t).pending SIGKILL then some (s.goto t (.outside (.ok 0)))
    else
      match kind with
      | .interruptible => some (s.goto t .register)
      | .waitpid => some (s.goto t (.poll .waitpid))
  | .register =>
    some ((s.modify t fun x => { x with interruptWaker := some (s.sleepers.waker t) }).goto t .swap)
  | .swap =>
    if (s.task t).interrupted then
      some ((s.modify t fun x => { x with interrupted := false }).goto t (.clear (.error .EINTR)))
    else some (s.goto t (.poll .interruptible))
  | .poll .interruptible => some (s.goto t (.block .interruptible))
  | .poll .waitpid => some (s.goto t .check)
  | .check =>
    match (SigSet.remove (s.task t).pending (s.task t).mask).peekFront with
    | none => some (s.goto t (.block .waitpid))
    | some signo =>
      if s.waitIgnorable t signo then some (s.goto t (.consume signo))
      else some (s.goto t (.outside (.error (s.waitErrno t signo))))
  | .consume signo =>
    some ((s.modify t fun x => { x with pending := SigSet.remove x.pending (.fromSig signo) }).goto t (.block .waitpid))
  | .block kind => some (goto { s with sleepers := s.sleepers.blockCurrentIfNotWoken t } t (.loop kind))
  | .clear last => some ((s.modify t fun x => { x with interrupted := false }).goto t (.drop last))
  | .drop last => some ((s.modify t fun x => { x with interruptWaker := none }).goto t (.outside last))
  | .send target signo =>
    some ((s.modify target fun x => { x with pending := x.pending ||| .fromSig signo }).goto t
      (if s.sleepers.blocked target then .notify target (s.interruptWait target signo) else .outside (.ok 0)))
  | .notify target interruptWait =>
    match interruptWait, (s.task target).interruptWaker with
    | true, some w => some ((s.modify target fun x => { x with interruptWaker := none }).goto t (.store target w))
    | _, _ => some (s.goto t (.ready target))
  | .store target w =>
    some (goto { s.modify target fun x => { x with interrupted := true } with sleepers := s.sleepers.take t [w] } t
      (.outside (.ok 0)))
  | .ready target => some (goto { s with sleepers := s.sleepers.rouse target } t (.outside (.ok 0)))

def Begins (s : SignalSystem) (t : ℕ) : Prop := (s.pc t).isOutside = true ∧ s.Free t
deriving Decidable

def step (s : SignalSystem) : SignalEvent → Option SignalSystem
  | .wait t kind =>
    if s.Begins t then some (goto { s with sleepers := s.sleepers.blockOn t } t (.loop kind)) else none
  | .send t target signo => if s.Begins t ∧ 0 < signo ∧ signo ≤ 33 then some (s.goto t (.send target signo)) else none
  | .run t => if s.Free t then s.advance t (s.pc t) else none
  | .finish t =>
    match s.pc t with
    | .poll kind => if s.Free t then some (s.goto t (finished kind (.ok 0))) else none
    | _ => none
  | .quit t =>
    match s.pc t with
    | .loop _ => if s.Free t then some (s.goto t (.outside (.ok 0))) else none
    | _ => none
  | .handle t signo =>
    if s.Begins t then some (s.modify t fun x => { x with pending := SigSet.remove x.pending (.fromSig signo) })
    else none
  | .setMask t mask => if s.Begins t then some (s.modify t fun x => { x with mask := mask }) else none
  | .alert t => some { s with sleepers := s.sleepers.wake (s.sleepers.waker t) }
  | .rouse t => some { s with sleepers := s.sleepers.rouse t }
  | .deliver t => (s.sleepers.deliver t).map fun sleepers => { s with sleepers := sleepers }

/-- The signal is `SIGKILL`, or is neither masked nor ignored. -/
def Effective (s : SignalSystem) (t signo : ℕ) : Prop :=
  signo = SIGKILL ∨ SigSet.has (s.task t).mask signo = false ∧ (s.actionOf t signo).ignores signo = false
deriving Decidable

/-- A signal is pending that must end a wait. -/
def Calls (s : SignalSystem) (t signo : ℕ) : Prop :=
  SigSet.has (s.task t).pending signo = true ∧ s.Effective t signo

def Quiet (s : SignalSystem) : Prop :=
  ∀ t, s.sleepers.deliveries t = [] ∧
    ((s.pc t).isOutside = true ∨
      (∃ kind, s.pc t = .loop kind) ∧ s.sleepers.blocked t = true ∧ s.sleepers.woke t = false)

/-- A signal that must end a wait is sent to a task in a wait only when the task is `Blocked`. A wait under
`interruptible` begins with no such signal, and a look at the signals that takes an ignorable one finds no other. -/
def Timely (s : SignalSystem) : SignalEvent → Prop
  | .wait t .interruptible => ∀ signo, ¬s.Calls t signo
  | .run t =>
    match s.pc t with
    | .send target signo => (s.pc target).waits ≠ none → s.Effective target signo → s.sleepers.blocked target = true
    | .check => ∀ signo, (SigSet.remove (s.task t).pending (s.task t).mask).peekFront = some signo →
        s.waitIgnorable t signo = true → ∀ other ≠ signo, ¬s.Calls t other
    | _ => True
  | _ => True

end SignalSystem

end Ya2yOS.Signal
