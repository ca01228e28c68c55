import Ya2yOS.Fs.PipeRing
import Ya2yOS.Lib.Transition

/-!
# Waiting on a pipe

Reads, writes and splices on one pipe, cut where its lock is free. A task that has to wait publishes that it is
blocked, looks at the pipe again, and only then enters the queue of its side.
-/

namespace Ya2yOS.Fs

inductive PipeSide where
  | read
  | write
deriving DecidableEq

def PipeSide.other : PipeSide → PipeSide
  | .read => .write
  | .write => .read

/-- The operations that wait: `read` and `write`, and the two ends of a splice or tee (`wait_readable` and
`wait_writable`, the second also for file pages). -/
inductive PipeOp where
  | read (places : List ℕ)
  | write (pages : List (List UInt8))
  | spliceOut
  | spliceIn
deriving DecidableEq

def PipeOp.side : PipeOp → PipeSide
  | .read _ => .read
  | .write _ => .write
  | .spliceOut => .read
  | .spliceIn => .write

inductive PipePc where
  | outside (last : PipeRet)
  | looking (op : PipeOp)
  /-- The operation has to wait; the pending signals are looked at next. -/
  | waiting (op : PipeOp)
  /-- `Blocked` has been published; the pipe is looked at again next. -/
  | published (op : PipeOp)
  | parked (op : PipeOp)
  /-- Past `wait_readable` or `wait_writable`; what follows depends on the other end of the splice. -/
  | granted (op : PipeOp)
deriving DecidableEq

structure PipeSystem where
  ring : PipeRingBuffer
  queue : PipeSide → List ℕ
  blocked : ℕ → Bool
  pc : ℕ → PipePc

inductive PipeWaitEvent where
  | start (t : ℕ) (op : PipeOp)
  | look (t : ℕ) (nonblock : Bool)
  /-- An ignored signal is consumed and the loop goes on. -/
  | ignore (t : ℕ)
  | interrupt (t : ℕ)
  | publish (t : ℕ)
  | recheck (t : ℕ)
  | resume (t : ℕ)
  | ready (t : ℕ)
  /-- A task blocks in another wait: it is not in an operation on this pipe, or waits for the other end of its
  splice. -/
  | blockElsewhere (t : ℕ)
  | take (t : ℕ) (n : ℕ)
  | put (t : ℕ) (bufs : List PipeBuf)
  | leave (t : ℕ) (last : PipeRet)
  | writeKernelBytes (t : ℕ) (buf : List UInt8)
  | setCapacity (requested : ℕ) (privileged : Bool) (maxSize : ℕ)
  | openEnd (readable writable : Bool)
  | closeEnd (readable writable : Bool)

namespace PipeRingBuffer

def Avail (r : PipeRingBuffer) : PipeSide → Prop
  | .read => 0 < r.availableRead
  | .write => 0 < r.availableWrite

def Closed (r : PipeRingBuffer) : PipeSide → Prop
  | .read => r.writeEndCount = 0
  | .write => r.readEndCount = 0

instance (r : PipeRingBuffer) (side : PipeSide) : Decidable (r.Avail side) := by
  cases side <;> unfold Avail <;> infer_instance

instance (r : PipeRingBuffer) (side : PipeSide) : Decidable (r.Closed side) := by
  cases side <;> unfold Closed <;> infer_instance

end PipeRingBuffer

instance (b : PipeBuf) : Decidable b.Valid :=
  decidable_of_iff (b.offset + b.len ≤ b.storage.contents.length ∧ 0 < b.len)
    ⟨fun h => ⟨h.1, h.2⟩, fun h => ⟨h.inside, h.nonempty⟩⟩

/-- `wake_waiters` for one: entries of tasks that are not `Blocked` are dropped, the first that is gets ready. -/
def wakeOne : List ℕ → (ℕ → Bool) → List ℕ × (ℕ → Bool)
  | [], blocked => ([], blocked)
  | t :: waiters, blocked =>
    if blocked t then (waiters, Function.update blocked t false) else wakeOne waiters blocked

namespace PipeSystem

def initial (capacity : ℕ) : PipeSystem :=
  ⟨.withCapacity capacity, fun _ => [], fun _ => false, fun _ => .outside (.done 0)⟩

def goto (s : PipeSystem) (t : ℕ) (pc : PipePc) : PipeSystem := { s with pc := Function.update s.pc t pc }

def setBlocked (s : PipeSystem) (t : ℕ) (b : Bool) : PipeSystem :=
  { s with blocked := Function.update s.blocked t b }

def wake (s : PipeSystem) (side : PipeSide) : PipeSystem :=
  { s with
    queue := Function.update s.queue side (wakeOne (s.queue side) s.blocked).1
    blocked := (wakeOne (s.queue side) s.blocked).2 }

def wakeAll (s : PipeSystem) (side : PipeSide) : PipeSystem :=
  { s with
    queue := Function.update s.queue side []
    blocked := fun t => s.blocked t && !(s.queue side).contains t }

def push (s : PipeSystem) (side : PipeSide) (t : ℕ) : PipeSystem :=
  if t ∈ s.queue side then s else { s with queue := Function.update s.queue side (s.queue side ++ [t]) }

def pass (s : PipeSystem) (t : ℕ) (nonblock : Bool) (op : PipeOp) : Option PipeSystem :=
  match op with
  | .read places => do
    let (ret, ring) ← s.ring.read places nonblock
    match ret with
    | .block => return s.goto t (.waiting op)
    | ret =>
      if s.ring.availableRead = 0 then return s.goto t (.outside ret)
      else return wake (goto { s with ring := ring } t (.outside ret)) .write
  | .write pages => do
    let (ret, ring) ← s.ring.write pages nonblock
    match ret with
    | .block => return s.goto t (.waiting op)
    | .error e => return s.goto t (.outside (.error e))
    | ret => return wake (goto { s with ring := ring } t (.outside ret)) .read
  | .spliceOut =>
    if s.ring.Avail .read ∨ s.ring.Closed .read then some (s.goto t (.granted op))
    else if nonblock then some (s.goto t (.outside (.error .EAGAIN)))
    else some (s.goto t (.waiting op))
  | .spliceIn =>
    if s.ring.Closed .write then some (s.goto t (.outside (.error .EPIPE)))
    else if s.ring.Avail .write then some (s.goto t (.granted op))
    else if nonblock then some (s.goto t (.outside (.error .EAGAIN)))
    else some (s.goto t (.waiting op))

def recheck (s : PipeSystem) (t : ℕ) (op : PipeOp) : PipeSystem :=
  if op.side = .write ∧ s.ring.Closed .write then (s.setBlocked t false).goto t (.outside (.error .EPIPE))
  else if s.ring.Avail op.side ∨ s.ring.Closed op.side then (s.setBlocked t false).goto t (.looking op)
  else (s.push op.side t).goto t (.parked op)

def step (s : PipeSystem) : PipeWaitEvent → Option PipeSystem
  | .start t op =>
    match s.pc t with
    | .outside _ => if s.blocked t then none else some (s.goto t (.looking op))
    | _ => none
  | .look t nonblock =>
    match s.pc t with
    | .looking op => if s.blocked t then none else s.pass t nonblock op
    | _ => none
  | .ignore t =>
    match s.pc t with
    | .waiting op => some (s.goto t (.looking op))
    | _ => none
  | .interrupt t =>
    match s.pc t with
    | .waiting _ => some (s.goto t (.outside (.error .EINTR)))
    | _ => none
  | .publish t =>
    match s.pc t with
    | .waiting op => some ((s.setBlocked t true).goto t (.published op))
    | _ => none
  | .recheck t =>
    match s.pc t with
    | .published op => some (s.recheck t op)
    | _ => none
  | .resume t =>
    match s.pc t with
    | .parked op => if s.blocked t then none else some (s.goto t (.looking op))
    | _ => none
  | .ready t => some (s.setBlocked t false)
  | .blockElsewhere t =>
    match s.pc t with
    | .outside _ => some (s.setBlocked t true)
    | .granted _ => some (s.setBlocked t true)
    | _ => none
  | .take t n =>
    match s.pc t with
    | .granted .spliceOut =>
      if s.blocked t ∨ n = 0 ∨ s.ring.availableRead < n then none
      else do
        let (_, ring) ← s.ring.popBufs n
        return wake (goto { s with ring := ring } t (.outside (.done n))) .write
    | _ => none
  | .put t bufs =>
    match s.pc t with
    | .granted .spliceIn =>
      if s.blocked t ∨ s.ring.Closed .write ∨ ¬(∀ b ∈ bufs, b.Valid) ∨ s.ring.availableWrite < lens bufs then none
      else do
        let ring ← s.ring.pushBufs bufs
        return wake (goto { s with ring := ring } t (.outside (.done (lens bufs)))) .read
    | _ => none
  | .leave t last =>
    match s.pc t with
    | .granted _ => if s.blocked t then none else some (s.goto t (.outside last))
    | _ => none
  | .writeKernelBytes t buf =>
    match s.pc t with
    | .outside _ => do
      let (ret, ring) ← s.ring.writeKernelBytes buf
      match ret with
      | .done _ => return wake (goto { s with ring := ring } t (.outside ret)) .read
      | _ => return s.goto t (.outside ret)
    | _ => none
  | .setCapacity requested privileged maxSize =>
    match s.ring.setCapacity requested privileged maxSize with
    | (.done _, ring) => some (wakeAll { s with ring := ring } .write)
    | _ => some s
  | .openEnd readable writable => some { s with ring := s.ring.openEnd readable writable }
  | .closeEnd readable writable =>
    let s := { s with ring := s.ring.closeEnd readable writable }
    let s := if readable then s.wakeAll .write else s
    some (if writable then s.wakeAll .read else s)

end PipeSystem

end Ya2yOS.Fs
