import Ya2yOS.Ipc.MsgQueue
import Ya2yOS.Lib.Transition
import Ya2yOS.Task.BlockOn

/-!
# Waiting on a message queue

The calls on one message queue, cut where another task may act. The attempts on the queue wake no one; the calls
around them do, on most of their paths.
-/

namespace Ya2yOS.Ipc

open Ya2yOS.Task (Waker Sleepers register)
open Lib (Reaches)

/-- What a task waits for at a queue. -/
inductive Request where
  | send (m : Message)
  | receive (sel : Selector)
deriving DecidableEq

inductive Side where
  | send
  | receive
deriving DecidableEq

def Request.side : Request → Side
  | .send _ => .send
  | .receive _ => .receive

structure SetRequest where
  uid : ℕ
  gid : ℕ
  mode : ℕ
  qbytes : ℕ
deriving DecidableEq

/-- The calls, with what the user memory gives: the type and the text of a message or the new settings, none or a
fault where they cannot be read. -/
inductive MsgCall where
  | msgsnd (uid gid : ℕ) (kind : Option ℤ) (text : List UInt8) (textFault nowait : Bool)
  | msgrcv (uid gid : ℕ) (sel : Selector) (nowait : Bool)
  | ipcSet (uid : ℕ) (requested : Option SetRequest)
  | ipcRmid (uid : ℕ)
deriving DecidableEq

/-- The arguments that are rejected before the queue is looked up. -/
def MsgCall.Malformed : MsgCall → Prop
  | .msgsnd _ _ _ text _ _ => msgMax < text.length
  | .msgrcv _ _ sel nowait => msgMax < sel.msgsz ∨ (sel.copy ∧ !nowait) ∨ (sel.copy ∧ sel.except)
  | _ => False

instance (call : MsgCall) : Decidable call.Malformed := by
  cases call <;> unfold MsgCall.Malformed <;> infer_instance

/-- Where a task is in its call. -/
inductive MsgPc where
  | outside (last : SyscallRet)
  | entered (call : MsgCall)
  | first (m : Message) (nowait : Bool)
  | once (sel : Selector)
  /-- In `wait_send` or `wait_receive`: before the first attempt of a poll, before the registration, before the
  second attempt, and before blocking. -/
  | poll (r : Request)
  | register (r : Request)
  | retry (r : Request)
  | park (r : Request)
  | copyOut (m : Message) (sel : Selector)
  | remove
  | wake (sides : List Side) (result : SyscallRet)
deriving DecidableEq

/-- One queue with its wait sets, and whether the table still lists it. -/
structure MsgSystem where
  queue : QueueState
  listed : Bool
  waits : Side → List Waker
  sleepers : Sleepers
  pc : ℕ → MsgPc

inductive MsgEvent where
  | enter (t : ℕ) (call : MsgCall)
  | run (t : ℕ)
  | deliver (t : ℕ)
  | fault (t : ℕ)
  | interrupt (t : ℕ)
  | rouse (t : ℕ)

namespace MsgSystem

def initial (key : ℤ) (uid gid mode : ℕ) : MsgSystem :=
  ⟨createQueue key uid gid mode, true, fun _ => [], .initial, fun _ => .outside (.ok 0)⟩

def goto (s : MsgSystem) (t : ℕ) (pc : MsgPc) : MsgSystem := { s with pc := Function.update s.pc t pc }

def ret (s : MsgSystem) (t : ℕ) (result : SyscallRet) : MsgSystem := s.goto t (.outside result)

def wait (s : MsgSystem) (t : ℕ) (r : Request) : MsgSystem :=
  goto { s with sleepers := s.sleepers.blockOn t } t (.poll r)

/-- One attempt of a request; without success the task goes to `pending`. -/
def attempt (s : MsgSystem) (t : ℕ) (pending : MsgPc) : Request → MsgSystem
  | .send m =>
    match s.queue.trySend m with
    | .error e => s.ret t (.error e)
    | .ok (some q) => { s with queue := q }.ret t (.ok 0)
    | .ok none => s.goto t pending
  | .receive sel =>
    match s.queue.tryReceive sel with
    | .error e => s.ret t (.error e)
    | .ok (some (m, q)) => { s with queue := q }.goto t (.copyOut m sel)
    | .ok none => s.goto t pending

/-- `IPC_SET` wakes the senders only if the queue was full before. -/
def queueWasFull (q : QueueState) : Bool := q.qbytes ≤ q.bytes || q.qbytes ≤ q.messages.length

/-- Who may set what. -/
def setAllowed (q : QueueState) (uid : ℕ) (r : SetRequest) : Bool :=
  ownerAllowed q.perm uid && (r.uid == q.perm.uid || hasCapOrRoot uid) &&
    (r.gid == q.perm.gid || hasCapOrRoot uid) && (r.qbytes ≤ msgMnb || hasCapOrRoot uid)

def setQueue (q : QueueState) (r : SetRequest) : QueueState :=
  { q with perm := { q.perm with uid := r.uid, gid := r.gid, mode := r.mode &&& 0o777 }, qbytes := r.qbytes }

/-- A call after its queue has been found. -/
def execute (s : MsgSystem) (t : ℕ) : MsgCall → MsgSystem
  | .msgsnd uid gid kind text textFault nowait =>
    if !accessAllowed s.queue.perm uid gid false true then s.ret t (.error .EACCES)
    else
      match kind with
      | none => s.ret t (.error .EFAULT)
      | some kind =>
        if kind ≤ 0 then s.ret t (.error .EINVAL)
        else if textFault then s.ret t (.error .EFAULT)
        else s.goto t (.first ⟨kind, text⟩ nowait)
  | .msgrcv uid gid sel nowait =>
    if !accessAllowed s.queue.perm uid gid true false then s.ret t (.error .EACCES)
    else if nowait then s.goto t (.once sel)
    else s.wait t (.receive sel)
  | .ipcSet uid requested =>
    match requested with
    | none => s.ret t (.error .EFAULT)
    | some r =>
      if !setAllowed s.queue uid r then s.ret t (.error .EPERM)
      else
        { s with queue := setQueue s.queue r }.goto t
          (.wake (if queueWasFull s.queue then [.send] else []) (.ok 0))
  | .ipcRmid uid =>
    if !ownerAllowed s.queue.perm uid then s.ret t (.error .EPERM) else s.goto t .remove

/-- The next step of a task in a call. -/
def advance (s : MsgSystem) (t : ℕ) : MsgPc → Option MsgSystem
  | .outside _ => none
  | .entered call => some (s.execute t call)
  | .first m nowait =>
    match s.queue.trySend m with
    | .error e => some (s.ret t (.error e))
    | .ok (some q) => some ({ s with queue := q }.goto t (.wake [.receive] (.ok 0)))
    | .ok none => some (if nowait then s.ret t (.error .EAGAIN) else s.wait t (.send m))
  | .once sel =>
    match s.queue.tryReceive sel with
    | .error e => some (s.ret t (.error e))
    | .ok (some (m, q)) => some ({ s with queue := q }.goto t (.copyOut m sel))
    | .ok none => some (s.ret t (.error .ENOMSG))
  | .poll r => some (s.attempt t (.register r) r)
  | .register r =>
    let out := register (s.waits r.side) (s.sleepers.waker t)
    some (goto { s with
      waits := Function.update s.waits r.side out.1
      sleepers := s.sleepers.take t out.2.toList } t (.retry r))
  | .retry r => some (s.attempt t (.park r) r)
  | .park r => some (goto { s with sleepers := s.sleepers.blockCurrentIfNotWoken t } t (.poll r))
  | .copyOut m sel => some (s.goto t (.wake (if sel.copy then [] else [.send]) (.ok (min m.text.length sel.msgsz))))
  | .remove =>
    if !s.listed then some (s.ret t (.error .EINVAL))
    else
      some ({ s with listed := false, queue := { s.queue with removed := true } }.goto t
        (.wake [.receive, .send] (.ok 0)))
  | .wake [] result => some (s.ret t result)
  | .wake (side :: sides) result =>
    some (goto { s with
      waits := Function.update s.waits side []
      sleepers := s.sleepers.take t (s.waits side) } t (.wake sides result))

def Free (s : MsgSystem) (t : ℕ) : Prop := s.sleepers.blocked t = false ∧ s.sleepers.deliveries t = []
deriving Decidable

def step (s : MsgSystem) : MsgEvent → Option MsgSystem
  | .enter t call =>
    match s.pc t with
    | .outside _ =>
      if call.Malformed ∨ s.listed = false then some (s.ret t (.error .EINVAL)) else some (s.goto t (.entered call))
    | _ => none
  | .run t => if s.Free t then s.advance t (s.pc t) else none
  | .deliver t => (s.sleepers.deliver t).map fun sleepers => { s with sleepers := sleepers }
  | .fault t =>
    match s.pc t with
    | .copyOut _ _ => some (s.ret t (.error .EFAULT))
    | _ => none
  | .interrupt t =>
    match s.pc t with
    | .poll _ => if s.Free t then some (s.ret t (.error .EINTR)) else none
    | _ => none
  | .rouse t => some { s with sleepers := s.sleepers.rouse t }

end MsgSystem

end Ya2yOS.Ipc
