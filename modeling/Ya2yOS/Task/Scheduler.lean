import Mathlib.Data.List.Basic
import Ya2yOS.Task.Futex

/-!
# The scheduler

`run_tasks` over the run queue of `task/scheduler/cfs.rs`. A step happens under one acquisition of a task's inner lock,
or is one access to an atomic; the queue lock is held over several steps.
-/

namespace Ya2yOS.Task

open Lib

/-- A task does not exist yet, exists, or is dropped with its last reference. -/
inductive TaskLife where
  | unborn
  | live
  | dropped
deriving DecidableEq, Repr

/-- The start time of a task that is on no hart. -/
def notRunning : ℕ := 2 ^ 64 - 1

/-- The fields of a task that the scheduler reads, whether the table of tasks has it, and its life. -/
structure SchedTask where
  tid : ℕ
  status : TaskStatus
  onCpu : Bool
  onRq : Bool
  vruntime : ℕ
  execStart : ℕ
  nice : ℤ
  cpuAffinity : ℕ
  scheduledHart : ℕ
  inTable : Bool
  life : TaskLife
deriving DecidableEq, Repr

/-- The weights of the nice values from -20 to 19. -/
def niceWeights : List ℕ :=
  [88761, 71755, 56483, 46273, 36291, 29154, 23254, 18705, 14949, 11916, 9548, 7620, 6100, 4904,
    3906, 3121, 2501, 1991, 1586, 1277, 1024, 820, 655, 526, 423, 335, 272, 215, 172, 137, 110, 87,
    70, 56, 45, 36, 29, 23, 18, 15]

namespace SchedTask

/-- The time since the start of the run, weighted, goes to the virtual runtime. -/
def accountRuntime (task : SchedTask) (now : ℕ) : SchedTask :=
  if task.execStart = notRunning then task
  else
    let deltaExec := (now + 2 ^ 64 - task.execStart) % 2 ^ 64
    let weight := niceWeights.getD (max (-20) (min task.nice 19) + 20).toNat 0
    let deltaVruntime := min (deltaExec * 1024 / weight) (2 ^ 64 - 1)
    { task with execStart := notRunning, vruntime := (task.vruntime + deltaVruntime) % 2 ^ 64 }

def canRunOn (task : SchedTask) (harts h : ℕ) : Bool := h < harts && task.cpuAffinity.testBit h

def asleep (task : SchedTask) : Bool :=
  task.status = .blocked || task.status = .stopped || task.status = .vforkBlocked

end SchedTask

/-- An entry of the run queue: a weak reference to a task under the key it was pushed with. -/
structure CfsEntry where
  vruntime : ℕ
  tid : ℕ
  task : ℕ
deriving DecidableEq, Repr

/-- The order of the heap: the virtual runtime, then the thread number. -/
def CfsEntry.le (e e' : CfsEntry) : Bool :=
  e.vruntime < e'.vruntime || e.vruntime = e'.vruntime && e.tid ≤ e'.tid

/-- The floor only rises: to the least of the current runtime and those in the queue. -/
def advanceMinVruntime (queue : List CfsEntry) (minVruntime current : ℕ) : ℕ :=
  max minVruntime (queue.foldl (fun m e => min m e.vruntime) current)

/-! ### Program points -/

/-- Who takes a step: a hart in `run_tasks`, or a task or interrupt that makes another task ready. -/
inductive Agent where
  | hart (h : ℕ)
  | waker (w : ℕ)
deriving DecidableEq, Repr

/-- The points of `add_task` between its accesses. -/
inductive AddPoint where
  | lock
  | status
  | cpu
  | mark
  | push
deriving DecidableEq, Repr

/-- Where `add_task` returns to. -/
inductive AddCaller where
  | waker
  | requeue
  | putBack
deriving DecidableEq, Repr

/-- The program points of `run_tasks`, `fetch_task`, `add_task` and the running task. -/
inductive SchedPc where
  | free
  | lookup (t : ℕ)
  | add (t : ℕ) (point : AddPoint) (caller : AddCaller)
  | loop
  | back (t : ℕ)
  | account (t : ℕ) (exits : Bool)
  | advance (t : ℕ) (exits : Bool)
  | finish (t : ℕ)
  | inspect (t : ℕ)
  | fetchLock
  | fetchLoop (left : ℕ)
  | upgrade (entry : CfsEntry) (left : ℕ)
  | examine (entry : CfsEntry) (canRun : Bool) (left : ℕ)
  | pushBack (entry : CfsEntry) (left : ℕ)
  | select (entry : CfsEntry)
  | selected (t : ℕ)
  | giveBack (t : ℕ)
  | publish (t : ℕ)
  | markRunning (t : ℕ)
  | markOnCpu (t : ℕ)
  | install (t : ℕ)
  | running (t : ℕ)
  | rechecking (t : ℕ)
  | switching (t : ℕ)
  | exiting (t : ℕ)
  | abandon (t : ℕ)
deriving DecidableEq, Repr

def AddCaller.next : AddCaller → SchedPc
  | .waker => .free
  | .requeue => .fetchLock
  | .putBack => .loop

/-- The tasks, the run queue with its lock, and the current task of each hart. -/
structure SchedState where
  harts : ℕ
  tasks : ℕ → SchedTask
  queue : List CfsEntry
  minVruntime : ℕ
  lock : Option Agent
  current : ℕ → Option ℕ
  pc : Agent → SchedPc

/-- One access of an agent, or something that a running task does. -/
inductive SchedEvent where
  | run (a : Agent)
  | pop (h : ℕ) (entry : CfsEntry)
  | account (h now : ℕ)
  | markRunning (h now : ℕ)
  | wake (w t : ℕ) (viaTable : Bool)
  | create (w t tid : ℕ) (nice : ℤ) (cpuAffinity scheduledHart : ℕ)
  | suspend (h : ℕ)
  | block (h : ℕ)
  | stop (h : ℕ)
  | vfork (h : ℕ)
  | sleep (h : ℕ)
  | recheck (h : ℕ) (found : Bool)
  | exit (h : ℕ)
  | setAffinity (t mask : ℕ)
  | setNice (t : ℕ) (nice : ℤ)
  | drop (t : ℕ)

namespace SchedState

def goto (s : SchedState) (a : Agent) (p : SchedPc) : SchedState := { s with pc := Function.update s.pc a p }

def setTask (s : SchedState) (t : ℕ) (task : SchedTask) : SchedState :=
  { s with tasks := Function.update s.tasks t task }

def setLock (s : SchedState) (lock : Option Agent) : SchedState := { s with lock := lock }

def setQueue (s : SchedState) (queue : List CfsEntry) : SchedState := { s with queue := queue }

def setMinVruntime (s : SchedState) (v : ℕ) : SchedState := { s with minVruntime := v }

def setCurrent (s : SchedState) (h : ℕ) (t : Option ℕ) : SchedState :=
  { s with current := Function.update s.current h t }

def setStatus (s : SchedState) (t : ℕ) (status : TaskStatus) : SchedState :=
  s.setTask t { s.tasks t with status := status }

def addDone (s : SchedState) (a : Agent) (caller : AddCaller) : SchedState := (s.setLock none).goto a caller.next

/-- `add_task`: a task is pushed if it is ready, off every hart and not in the queue. -/
def addStep (s : SchedState) (a : Agent) (t : ℕ) (caller : AddCaller) : AddPoint → Option SchedState
  | .lock => if s.lock = none then some ((s.setLock (some a)).goto a (.add t .status caller)) else none
  | .status =>
    if (s.tasks t).status = .ready then some (s.goto a (.add t .cpu caller)) else some (s.addDone a caller)
  | .cpu => if (s.tasks t).onCpu then some (s.addDone a caller) else some (s.goto a (.add t .mark caller))
  | .mark =>
    if (s.tasks t).onRq then some (s.addDone a caller)
    else some ((s.setTask t { s.tasks t with onRq := true }).goto a (.add t .push caller))
  | .push =>
    let vruntime := max (s.tasks t).vruntime s.minVruntime
    some (((s.setTask t { s.tasks t with vruntime := vruntime }).setQueue
      (⟨vruntime, (s.tasks t).tid, t⟩ :: s.queue)).addDone a caller)

/-- A popped task is taken, pushed back for other harts, or dropped if it is no longer ready. -/
def examineStep (s : SchedState) (h : ℕ) (entry : CfsEntry) (canRun : Bool) (left : ℕ) : SchedState :=
  let task := s.tasks entry.task
  if task.status = .ready then
    if canRun then
      (s.setTask entry.task { task with status := .running, onRq := false }).goto (.hart h) (.select entry)
    else s.goto (.hart h) (.pushBack entry left)
  else (s.setTask entry.task { task with onRq := false }).goto (.hart h) (.fetchLoop left)

def fetchNone (s : SchedState) (h : ℕ) : SchedState := (s.setLock none).goto (.hart h) .loop

/-- The loop of a hart, without the steps that need a value from outside. -/
def hartStep (s : SchedState) (h : ℕ) : SchedPc → Option SchedState
  | .loop => some (s.goto (.hart h) .fetchLock)
  | .back t => some ((s.setCurrent h none).goto (.hart h) (.account t false))
  | .advance t exits =>
    if s.lock = none then
      some ((s.setMinVruntime (advanceMinVruntime s.queue s.minVruntime (s.tasks t).vruntime)).goto (.hart h)
        (if exits then .exiting t else .finish t))
    else none
  | .finish t => some ((s.setTask t { s.tasks t with onCpu := false }).goto (.hart h) (.inspect t))
  | .inspect t =>
    if (s.tasks t).status = .ready ∨ (s.tasks t).status = .running then
      some (s.goto (.hart h) (.add t .lock .requeue))
    else some (s.goto (.hart h) .fetchLock)
  | .fetchLock =>
    if s.lock = none then some ((s.setLock (some (.hart h))).goto (.hart h) (.fetchLoop s.queue.length)) else none
  | .fetchLoop 0 => some (s.fetchNone h)
  | .fetchLoop (_ + 1) => if s.queue = [] then some (s.fetchNone h) else none
  | .upgrade entry left =>
    if (s.tasks entry.task).life = .dropped then some (s.goto (.hart h) (.fetchLoop left))
    else some (s.goto (.hart h) (.examine entry ((s.tasks entry.task).canRunOn s.harts h) left))
  | .examine entry canRun left => some (s.examineStep h entry canRun left)
  | .pushBack entry left => some ((s.setQueue (entry :: s.queue)).goto (.hart h) (.fetchLoop left))
  | .select entry =>
    some (((s.setMinVruntime (advanceMinVruntime s.queue s.minVruntime entry.vruntime)).setLock none).goto (.hart h)
      (.selected entry.task))
  | .selected t =>
    if (s.tasks t).canRunOn s.harts h then
      some ((s.setTask t { s.tasks t with scheduledHart := h }).goto (.hart h) (.publish t))
    else some (s.goto (.hart h) (.giveBack t))
  | .giveBack t => some ((s.setStatus t .ready).goto (.hart h) (.add t .lock .putBack))
  | .publish t => some ((s.setStatus t .running).goto (.hart h) (.markRunning t))
  | .markOnCpu t => some ((s.setTask t { s.tasks t with onCpu := true }).goto (.hart h) (.install t))
  | .install t => some ((s.setCurrent h (some t)).goto (.hart h) (.running t))
  | .switching t => some (s.goto (.hart h) (.back t))
  | .exiting t => some ((s.setStatus t .zombie).goto (.hart h) (.abandon t))
  | .abandon t => some ((s.setTask t { s.tasks t with inTable := false }).goto (.hart h) .loop)
  | _ => none

def runStep (s : SchedState) (a : Agent) : Option SchedState :=
  match s.pc a with
  | .add t point caller => s.addStep a t caller point
  | .lookup t => some (s.goto a (if (s.tasks t).inTable then .add t .lock .waker else .free))
  | p =>
    match a with
    | .hart h => s.hartStep h p
    | .waker _ => none

/-- A step of the task that runs on a hart. -/
def taskStep (s : SchedState) (h : ℕ) (f : ℕ → SchedState) : Option SchedState :=
  match s.pc (.hart h) with
  | .running t => some (f t)
  | _ => none

def step (s : SchedState) : SchedEvent → Option SchedState
  | .run a => s.runStep a
  | .pop h entry =>
    match s.pc (.hart h) with
    | .fetchLoop (left + 1) =>
      if entry ∈ s.queue ∧ ∀ e ∈ s.queue, entry.le e = true then
        some ((s.setQueue (s.queue.erase entry)).goto (.hart h) (.upgrade entry left))
      else none
    | _ => none
  | .account h now =>
    match s.pc (.hart h) with
    | .account t exits => some ((s.setTask t ((s.tasks t).accountRuntime now)).goto (.hart h) (.advance t exits))
    | _ => none
  | .markRunning h now =>
    match s.pc (.hart h) with
    | .markRunning t =>
      some ((s.setTask t { s.tasks t with onRq := false, execStart := now }).goto (.hart h) (.markOnCpu t))
    | _ => none
  | .wake w t viaTable =>
    match s.pc (.waker w) with
    | .free =>
      if (s.tasks t).life = .live ∧ (s.tasks t).asleep = true then
        some ((s.setStatus t .ready).goto (.waker w) (if viaTable then .lookup t else .add t .lock .waker))
      else none
    | _ => none
  | .create w t tid nice cpuAffinity scheduledHart =>
    match s.pc (.waker w) with
    | .free =>
      if (s.tasks t).life = .unborn then
        some ((s.setTask t ⟨tid, .ready, false, false, 0, notRunning, nice, cpuAffinity, scheduledHart,
          true, .live⟩).goto
          (.waker w) (.add t .lock .waker))
      else none
    | _ => none
  | .suspend h => s.taskStep h fun t =>
    (s.setStatus t (if (s.tasks t).status = .vforkBlocked then .vforkBlocked else .ready)).goto (.hart h) (.switching t)
  | .block h => s.taskStep h fun t => (s.setStatus t .blocked).goto (.hart h) (.switching t)
  | .stop h => s.taskStep h fun t => (s.setStatus t .stopped).goto (.hart h) (.switching t)
  | .vfork h => s.taskStep h fun t => (s.setStatus t .vforkBlocked).goto (.hart h) (.running t)
  | .sleep h => s.taskStep h fun t => (s.setStatus t .blocked).goto (.hart h) (.rechecking t)
  | .recheck h found =>
    match s.pc (.hart h) with
    | .rechecking t =>
      if found then some ((s.setStatus t .running).goto (.hart h) (.running t))
      else some (s.goto (.hart h) (.switching t))
    | _ => none
  | .exit h => s.taskStep h fun t => (s.setCurrent h none).goto (.hart h) (.account t true)
  | .setAffinity t mask => some (s.setTask t { s.tasks t with cpuAffinity := mask })
  | .setNice t nice => some (s.setTask t { s.tasks t with nice := nice })
  | .drop t =>
    if (s.tasks t).life = .live ∧ (s.tasks t).status = .zombie ∧ (s.tasks t).inTable = false then
      some (s.setTask t { s.tasks t with life := .dropped })
    else none

def initial (harts : ℕ) : SchedState where
  harts := harts
  tasks _ := ⟨0, .zombie, false, false, 0, notRunning, 0, 0, 0, false, .unborn⟩
  queue := []
  minVruntime := 0
  lock := none
  current _ := none
  pc
    | .hart _ => .loop
    | .waker _ => .free

end SchedState

end Ya2yOS.Task
