import Ya2yOS.Lib.Transition
import Ya2yOS.Utils.SysErrNo

/-!
# Futexes

`task/futex.rs` with the task transitions of `task/manager.rs`: first the code that runs under the queue lock, then the
system in which threads make futex calls, timers expire, signals arrive and threads exit.
-/

namespace Ya2yOS.Task

open Function List

inductive TaskStatus where
  | ready
  | running
  | zombie
  | blocked
  | stopped
  | vforkBlocked
deriving DecidableEq, Repr

/-- What the futex code reads and writes of a task. `deliverable` says that a pending signal is not
masked, `freed` that the weak references to the task no longer upgrade. -/
structure FutexTask where
  status : TaskStatus
  futexKey : ℕ
  futexPa : ℕ
  futexTimedout : Bool
  deliverable : Bool
  freed : Bool
deriving DecidableEq, Repr

structure FutexWaiter where
  task : ℕ
  bitset : BitVec 32
  futexKey : ℕ
deriving DecidableEq, Repr

abbrev FutexTasks := ℕ → FutexTask

def FutexTask.sleepsOn (task : FutexTask) (key : ℕ) : Bool := task.status = .blocked && task.futexKey = key

def wakeupFutexTask (tasks : FutexTasks) (t key : ℕ) : Bool × FutexTasks :=
  if (tasks t).sleepsOn key then
    (true, update tasks t { tasks t with status := .ready, futexKey := 0, futexPa := 0 })
  else (false, tasks)

def timeoutFutexTask (tasks : FutexTasks) (t key : ℕ) : Bool × FutexTasks :=
  if (tasks t).sleepsOn key then
    (true, update tasks t
      { tasks t with futexTimedout := true, status := .ready, futexKey := 0, futexPa := 0 })
  else (false, tasks)

def requeueFutexTask (tasks : FutexTasks) (t key newPa : ℕ) : Bool × FutexTasks :=
  if (tasks t).sleepsOn key then (true, update tasks t { tasks t with futexPa := newPa })
  else (false, tasks)

structure WakeScan where
  tasks : FutexTasks
  woken : List FutexWaiter
  queue : List FutexWaiter

def wakeLoop (maxNum : ℕ) (bitset : BitVec 32) : ℕ → WakeScan → WakeScan
  | 0, r => r
  | n + 1, r =>
    if maxNum ≤ r.woken.length then r
    else
      match r.queue with
      | [] => r
      | w :: rest =>
        if (r.tasks w.task).freed then wakeLoop maxNum bitset n { r with queue := rest }
        else if bitset &&& w.bitset ≠ 0 then
          let (ok, tasks) := wakeupFutexTask r.tasks w.task w.futexKey
          wakeLoop maxNum bitset n ⟨tasks, if ok then r.woken ++ [w] else r.woken, rest⟩
        else wakeLoop maxNum bitset n { r with queue := rest ++ [w] }

structure RequeueScan where
  tasks : FutexTasks
  woken : List FutexWaiter
  moved : List FutexWaiter
  retained : List FutexWaiter

def requeueLoop (wakeLimit requeueLimit newPa : ℕ) : List FutexWaiter → RequeueScan → RequeueScan
  | [], r => r
  | w :: rest, r =>
    if (r.tasks w.task).freed then requeueLoop wakeLimit requeueLimit newPa rest r
    else if r.woken.length < wakeLimit then
      let (ok, tasks) := wakeupFutexTask r.tasks w.task w.futexKey
      requeueLoop wakeLimit requeueLimit newPa rest
        { r with tasks := tasks, woken := if ok then r.woken ++ [w] else r.woken }
    else if r.moved.length < requeueLimit then
      let (ok, tasks) := requeueFutexTask r.tasks w.task w.futexKey newPa
      requeueLoop wakeLimit requeueLimit newPa rest
        { r with tasks := tasks, moved := if ok then r.moved ++ [w] else r.moved }
    else requeueLoop wakeLimit requeueLimit newPa rest { r with retained := r.retained ++ [w] }

abbrev FutexQueues := ℕ → Option (List FutexWaiter)

def FutexQueues.insertNonempty (q : FutexQueues) (pa : ℕ) (l : List FutexWaiter) : FutexQueues :=
  if l = [] then q else update q pa (some l)

def FutexQueues.extend (q : FutexQueues) (pa : ℕ) (l : List FutexWaiter) : FutexQueues :=
  update q pa (some ((q pa).getD [] ++ l))

def FutexQueues.putBack (q : FutexQueues) (oldPa newPa : ℕ) (r : RequeueScan) : FutexQueues :=
  let q : FutexQueues := update q oldPa none
  if oldPa = newPa then q.insertNonempty oldPa (r.retained ++ r.moved)
  else
    let q : FutexQueues := q.insertNonempty oldPa r.retained
    if r.moved = [] then q else q.extend newPa r.moved

def FutexQueues.unhook (q : FutexQueues) (pa key : ℕ) : FutexQueues :=
  match q pa with
  | none => q
  | some l => update q pa (some (l.eraseP (·.futexKey = key)))

lemma FutexQueues.hooks_update (q : FutexQueues) (pa : ℕ) (l : List FutexWaiter) :
    (fun p => (update q pa (some l) p).getD []) = update (fun p => (q p).getD []) pa l := by
  funext p
  by_cases hp : p = pa
  · subst hp
    simp
  · simp [hp]

lemma FutexQueues.hooks_unhook (q : FutexQueues) (pa key : ℕ) : (fun p => (q.unhook pa key p).getD []) =
    update (fun p => (q p).getD []) pa (((q pa).getD []).eraseP (·.futexKey = key)) := by
  cases hq : q pa with
  | none =>
    simp only [FutexQueues.unhook, hq]
    exact (update_eq_self_iff.2 (by simp [hq])).symm
  | some l =>
    simp only [FutexQueues.unhook, hq]
    exact hooks_update q pa _

lemma FutexQueues.hooks_putBack (q : FutexQueues) (oldPa newPa : ℕ) (r : RequeueScan) (p : ℕ) :
    (q.putBack oldPa newPa r p).getD [] =
      (if p = oldPa then r.retained else (q p).getD []) ++ (if p = newPa then r.moved else []) := by
  by_cases hr : r.retained = [] <;> by_cases hm : r.moved = [] <;> by_cases hpo : p = oldPa <;>
    by_cases hpn : p = newPa <;> by_cases hon : oldPa = newPa <;>
    simp_all [FutexQueues.putBack, FutexQueues.insertNonempty, FutexQueues.extend, update_apply]

variable {w : FutexWaiter}

/-- The arguments of `futex_wait_bitset`: the queue, the user word, the value it must have, the
bitset, and whether a timeout is given. -/
structure WaitArgs where
  queueKey : ℕ
  word : ℕ
  expected : ℤ
  bitset : BitVec 32
  timeout : Bool

inductive FutexPc where
  | idle
  | check (w : WaitArgs) (key : ℕ)
  /-- The word had the expected value, when `seen` bumps had been made; the version comes next. -/
  | load (w : WaitArgs) (key seen : ℕ)
  | lock (w : WaitArgs) (key version : ℕ)
  | recheck (w : WaitArgs) (key version : ℕ)
  | enqueue (w : WaitArgs) (key : ℕ)
  | arm (w : WaitArgs) (key : ℕ)
  | asleep (w : WaitArgs) (key : ℕ)
  /-- The wait failed with `err`; its entry is removed where `found` is not zero. -/
  | unhookBump (key found pa : ℕ) (err : SysErrNo)
  | unhook (key found pa : ℕ) (err : SysErrNo)
  /-- A wake or requeue between its version bump and its scan. -/
  | scan (pa : ℕ) (maxNum : ℤ) (bitset : BitVec 32)
  | rescan (oldPa : ℕ) (maxWakeup : ℤ) (newPa : ℕ) (maxRequeue : ℤ)

inductive FutexEvent where
  | store (t word : ℕ) (value : ℤ)
  | wait (t : ℕ) (w : WaitArgs)
  | read (t : ℕ)
  | load (t : ℕ)
  | lock (t : ℕ)
  | recheck (t : ℕ)
  | enqueue (t : ℕ)
  | arm (t : ℕ)
  | dispatch (t : ℕ)
  | resume (t : ℕ)
  | unhookBump (t : ℕ)
  | unhook (t : ℕ)
  | wake (t pa : ℕ) (maxNum : ℤ) (bitset : BitVec 32)
  | scan (t : ℕ)
  | requeue (t oldPa : ℕ) (maxWakeup : ℤ) (newPa : ℕ) (maxRequeue : ℤ)
  | rescan (t : ℕ)
  | expire (t key : ℕ)
  | handleTimer (t key : ℕ)
  | signal (t : ℕ) (unmasked : Bool)
  | handled (t : ℕ)
  | block (t : ℕ)
  | unblock (t : ℕ)
  | clear (t : ℕ)
  | unlink (pa key : ℕ)
  | free (t : ℕ)

/-- The state of the futex system. `version` counts the bumps of `FUTEX_QUEUE_VERSION`, which is its
remainder; `lock` is the thread that holds the queue lock between two steps; `mem` has the user words
that are mapped. `counted` and
`returns` record the waits that wakes counted and the results of waits, `trace` the steps, the
last one first. -/
structure FutexState where
  tasks : FutexTasks
  queues : FutexQueues
  version : ℕ
  keyCounter : ℕ
  lock : Option ℕ
  mem : ℕ → Option ℤ
  timers : List (ℕ × ℕ)
  firing : List (ℕ × ℕ)
  unlinks : List (ℕ × ℕ)
  pc : ℕ → FutexPc
  panicked : Bool
  counted : List (ℕ × ℕ)
  returns : List (ℕ × ℕ × SyscallRet)
  trace : List FutexEvent

namespace FutexState

def goto (s : FutexState) (t : ℕ) (pc : FutexPc) : FutexState := { s with pc := update s.pc t pc }

def setTask (s : FutexState) (t : ℕ) (task : FutexTask) : FutexState :=
  { s with tasks := update s.tasks t task }

def versionWord (n : ℕ) : ℕ := n % 2 ^ 64

def bump (s : FutexState) : FutexState := { s with version := s.version + 1 }

/-- `new_futex_key` after that many waits; the sum wraps. -/
def newFutexKey (n : ℕ) : ℕ := (n + 1) % 2 ^ 64

def finish (s : FutexState) (t key : ℕ) (ret : SyscallRet) : FutexState :=
  { s.goto t .idle with returns := (t, key, ret) :: s.returns }

def wakeUp (s : FutexState) (pa : ℕ) (maxNum : ℤ) (bitset : BitVec 32) : FutexState :=
  match s.queues pa with
  | none => s
  | some q =>
    let r := wakeLoop (if maxNum ≤ 0 then 1 else maxNum.toNat) bitset q.length ⟨s.tasks, [], q⟩
    { s with
      tasks := r.tasks
      queues := update s.queues pa (some r.queue)
      counted := r.woken.map (fun w => (w.task, w.futexKey)) ++ s.counted }

def requeueUp (s : FutexState) (oldPa : ℕ) (maxWakeup : ℤ) (newPa : ℕ) (maxRequeue : ℤ) : FutexState :=
  match s.queues oldPa with
  | none => s
  | some q =>
    let r := requeueLoop maxWakeup.toNat maxRequeue.toNat newPa q ⟨s.tasks, [], [], []⟩
    { s with
      tasks := r.tasks
      queues := s.queues.putBack oldPa newPa r
      counted := r.woken.map (fun w => (w.task, w.futexKey)) ++ s.counted }

/-- `handle_timer` under the queue lock; the `expect` on the queue panics. -/
def timeOut (s : FutexState) (t key : ℕ) : FutexState :=
  let task := s.tasks t
  if task.futexKey ≠ key then s
  else
    match s.queues task.futexPa with
    | none => { s with panicked := true }
    | some q =>
      if q.any (·.futexKey = key) then
        { s with
          queues := update s.queues task.futexPa (some (q.eraseP (·.futexKey = key)))
          tasks := (timeoutFutexTask s.tasks t key).2 }
      else s

def publishWait (s : FutexState) (t : ℕ) (w : WaitArgs) (key : ℕ) : FutexState :=
  let task := s.tasks t
  if task.deliverable then { s.finish t key (.error .EINTR) with lock := none }
  else
    { (s.setTask t { task with
        futexTimedout := false, futexPa := w.queueKey, futexKey := key, status := .blocked }).goto t
        (.arm w key) with
      queues := s.queues.extend w.queueKey [⟨t, w.bitset, key⟩]
      lock := none }

def resumeWait (s : FutexState) (t key : ℕ) : FutexState :=
  let task := s.tasks t
  if task.deliverable then s.goto t (.unhookBump key task.futexKey task.futexPa .EINTR)
  else if task.futexTimedout then
    (s.setTask t { task with futexTimedout := false }).goto t
      (.unhookBump key task.futexKey task.futexPa .ETIMEDOUT)
  else s.finish t key (.ok 0)

def stepWait (s : FutexState) (t : ℕ) : FutexEvent → Option FutexState
  | .read _ =>
    match s.pc t with
    | .check w key =>
      match s.mem w.word with
      | none => some (s.finish t key (.error .EFAULT))
      | some value =>
        if value ≠ w.expected then some (s.finish t key (.error .EAGAIN))
        else some (s.goto t (.load w key s.version))
    | _ => none
  | .load _ =>
    match s.pc t with
    | .load w key _ => some (s.goto t (.lock w key s.version))
    | _ => none
  | .lock _ =>
    match s.pc t, s.lock with
    | .lock w key v, none => some { s.goto t (.recheck w key v) with lock := some t }
    | _, _ => none
  | .recheck _ =>
    match s.pc t with
    | .recheck w key v =>
      if versionWord s.version ≠ versionWord v then some { s.goto t (.check w key) with lock := none }
      else some (s.goto t (.enqueue w key))
    | _ => none
  | .enqueue _ =>
    match s.pc t with
    | .enqueue w key => some (s.publishWait t w key)
    | _ => none
  | .arm _ =>
    match s.pc t with
    | .arm w key =>
      some { s.goto t (.asleep w key) with timers := if w.timeout then (t, key) :: s.timers else s.timers }
    | _ => none
  | .resume _ =>
    match s.pc t with
    | .asleep _ key => if (s.tasks t).status = .running then some (s.resumeWait t key) else none
    | _ => none
  | .unhookBump _ =>
    match s.pc t with
    | .unhookBump key found pa err =>
      if found = 0 then some (s.finish t key (.error err)) else some (s.bump.goto t (.unhook key found pa err))
    | _ => none
  | .unhook _ =>
    match s.pc t, s.lock with
    | .unhook key found pa err, none =>
      some { s.finish t key (.error err) with queues := s.queues.unhook pa found }
    | _, _ => none
  | _ => none

def stepIdle (s : FutexState) (t : ℕ) : FutexEvent → Option FutexState
  | .store _ word value =>
    if (s.mem word).isSome then some { s with mem := update s.mem word (some value) } else none
  | .wait _ w =>
    some { s.goto t (.check w (newFutexKey s.keyCounter)) with keyCounter := s.keyCounter + 1 }
  | .wake _ pa maxNum bitset => if bitset = 0 then none else some (s.bump.goto t (.scan pa maxNum bitset))
  | .requeue _ oldPa maxWakeup newPa maxRequeue =>
    some (s.bump.goto t (.rescan oldPa maxWakeup newPa maxRequeue))
  | .handled _ => some (s.setTask t { s.tasks t with deliverable := false })
  | .block _ => if (s.tasks t).deliverable then none else some (s.setTask t { s.tasks t with status := .blocked })
  | .free _ =>
    -- a timer that fires holds a strong reference
    if s.firing.any (·.1 = t) then none
    else some (s.setTask t { s.tasks t with status := .zombie, freed := true })
  | _ => none

def isIdle (s : FutexState) (t : ℕ) : Bool :=
  match s.pc t with
  | .idle => (s.tasks t).status = .running
  | _ => false

def canDispatch (s : FutexState) (t : ℕ) : Bool :=
  match s.pc t with
  | .idle | .asleep _ _ => (s.tasks t).status = .ready
  | _ => false

def act (s : FutexState) : FutexEvent → Option FutexState
  | e@(.read t) | e@(.load t) | e@(.lock t) | e@(.recheck t) | e@(.enqueue t) | e@(.arm t) | e@(.resume t)
  | e@(.unhookBump t) | e@(.unhook t) => s.stepWait t e
  | e@(.store t _ _) | e@(.wait t _) | e@(.wake t _ _ _) | e@(.requeue t _ _ _ _) | e@(.handled t) | e@(.block t)
  | e@(.free t) => if s.isIdle t then s.stepIdle t e else none
  | .scan t =>
    match s.pc t, s.lock with
    | .scan pa maxNum bitset, none => some ((s.wakeUp pa maxNum bitset).goto t .idle)
    | _, _ => none
  | .rescan t =>
    match s.pc t, s.lock with
    | .rescan oldPa maxWakeup newPa maxRequeue, none =>
      some ((s.requeueUp oldPa maxWakeup newPa maxRequeue).goto t .idle)
    | _, _ => none
  | .dispatch t => if s.canDispatch t then some (s.setTask t { s.tasks t with status := .running }) else none
  | .expire t key =>
    if (t, key) ∈ s.timers then
      let s := { s with timers := s.timers.erase (t, key) }
      if (s.tasks t).freed then some s else some { s.bump with firing := (t, key) :: s.firing }
    else none
  | .handleTimer t key =>
    if (t, key) ∈ s.firing ∧ s.lock = none then
      some ({ s with firing := s.firing.erase (t, key) }.timeOut t key)
    else none
  | .signal t unmasked =>
    let task := s.tasks t
    some (s.setTask t { task with
      deliverable := task.deliverable || unmasked
      status := if task.status = .blocked then .ready else task.status })
  | .unblock t =>
    match s.pc t with
    | .idle =>
      if (s.tasks t).status = .blocked then some (s.setTask t { s.tasks t with status := .ready }) else none
    | _ => none
  | .clear t =>
    let task := s.tasks t
    if task.status = .blocked then
      some { s.setTask t { task with status := .ready, futexKey := 0, futexPa := 0 } with
        unlinks := if task.futexKey ≠ 0 then (task.futexPa, task.futexKey) :: s.unlinks else s.unlinks }
    else none
  | .unlink pa key =>
    if (pa, key) ∈ s.unlinks ∧ s.lock = none then
      some { s with unlinks := s.unlinks.erase (pa, key), queues := s.queues.unhook pa key }
    else none

def step (s : FutexState) (e : FutexEvent) : Option FutexState :=
  (s.act e).map fun s' => { s' with trace := e :: s.trace }

def initial (mem : ℕ → Option ℤ) : FutexState where
  tasks _ := ⟨.running, 0, 0, false, false, false⟩
  queues _ := none
  version := 0
  keyCounter := 0
  lock := none
  mem := mem
  timers := []
  firing := []
  unlinks := []
  pc _ := .idle
  panicked := false
  counted := []
  returns := []
  trace := []

end FutexState

/-! ### Every step -/

def FutexEvent.thread : FutexEvent → Option ℕ
  | store t _ _ | wait t _ | read t | load t | lock t | recheck t | enqueue t | arm t | resume t | unhookBump t
  | unhook t | wake t _ _ _ | scan t | requeue t _ _ _ _ | rescan t => some t
  | _ => none

def FutexPc.key : FutexPc → Option ℕ
  | check _ key | load _ key _ | lock _ key _ | recheck _ key _ | enqueue _ key | arm _ key | asleep _ key
  | unhookBump key _ _ _ | unhook key _ _ _ => some key
  | _ => none

inductive FutexStep (s : FutexState) : FutexEvent → FutexState → Prop
  | store {t word : ℕ} {value : ℤ} : s.isIdle t = true →
      FutexStep s (.store t word value) { s with mem := update s.mem word (some value) }
  | wait {t : ℕ} {w : WaitArgs} : s.isIdle t = true → FutexStep s (.wait t w)
      { s.goto t (.check w (FutexState.newFutexKey s.keyCounter)) with keyCounter := s.keyCounter + 1 }
  | readFails {t key : ℕ} {w : WaitArgs} {err : SysErrNo} : s.pc t = .check w key →
      FutexStep s (.read t) (s.finish t key (.error err))
  | read {t key : ℕ} {w : WaitArgs} : s.pc t = .check w key → s.mem w.word = some w.expected →
      FutexStep s (.read t) (s.goto t (.load w key s.version))
  | load {t key seen : ℕ} {w : WaitArgs} : s.pc t = .load w key seen →
      FutexStep s (.load t) (s.goto t (.lock w key s.version))
  | lock {t key v : ℕ} {w : WaitArgs} : s.pc t = .lock w key v → s.lock = none →
      FutexStep s (.lock t) { s.goto t (.recheck w key v) with lock := some t }
  | retry {t key v : ℕ} {w : WaitArgs} : s.pc t = .recheck w key v →
      FutexStep s (.recheck t) { s.goto t (.check w key) with lock := none }
  | recheck {t key v : ℕ} {w : WaitArgs} : s.pc t = .recheck w key v →
      FutexState.versionWord s.version = FutexState.versionWord v →
      FutexStep s (.recheck t) (s.goto t (.enqueue w key))
  | interrupted {t key : ℕ} {w : WaitArgs} : s.pc t = .enqueue w key → (s.tasks t).deliverable = true →
      FutexStep s (.enqueue t) { s.finish t key (.error .EINTR) with lock := none }
  | enqueue {t key : ℕ} {w : WaitArgs} : s.pc t = .enqueue w key → (s.tasks t).deliverable = false →
      FutexStep s (.enqueue t)
        { (s.setTask t { s.tasks t with
            futexTimedout := false, futexPa := w.queueKey, futexKey := key, status := .blocked }).goto t
            (.arm w key) with
          queues := s.queues.extend w.queueKey [⟨t, w.bitset, key⟩]
          lock := none }
  | arm {t key : ℕ} {w : WaitArgs} : s.pc t = .arm w key → FutexStep s (.arm t)
      { s.goto t (.asleep w key) with timers := if w.timeout then (t, key) :: s.timers else s.timers }
  | resumeSignal {t key : ℕ} {w : WaitArgs} : s.pc t = .asleep w key → (s.tasks t).status = .running →
      (s.tasks t).deliverable = true →
      FutexStep s (.resume t) (s.goto t (.unhookBump key (s.tasks t).futexKey (s.tasks t).futexPa .EINTR))
  | resumeTimeout {t key : ℕ} {w : WaitArgs} : s.pc t = .asleep w key → (s.tasks t).status = .running →
      (s.tasks t).deliverable = false → (s.tasks t).futexTimedout = true →
      FutexStep s (.resume t) ((s.setTask t { s.tasks t with futexTimedout := false }).goto t
        (.unhookBump key (s.tasks t).futexKey (s.tasks t).futexPa .ETIMEDOUT))
  | resume {t key : ℕ} {w : WaitArgs} : s.pc t = .asleep w key → (s.tasks t).status = .running →
      (s.tasks t).deliverable = false → (s.tasks t).futexTimedout = false →
      FutexStep s (.resume t) (s.finish t key (.ok 0))
  | unhookNone {t key pa : ℕ} {err : SysErrNo} : s.pc t = .unhookBump key 0 pa err →
      FutexStep s (.unhookBump t) (s.finish t key (.error err))
  | unhookBump {t key found pa : ℕ} {err : SysErrNo} : s.pc t = .unhookBump key found pa err →
      FutexStep s (.unhookBump t) (s.bump.goto t (.unhook key found pa err))
  | unhook {t key found pa : ℕ} {err : SysErrNo} : s.pc t = .unhook key found pa err → s.lock = none →
      FutexStep s (.unhook t) { s.finish t key (.error err) with queues := s.queues.unhook pa found }
  | wake {t pa : ℕ} {maxNum : ℤ} {bitset : BitVec 32} : s.isIdle t = true →
      FutexStep s (.wake t pa maxNum bitset) (s.bump.goto t (.scan pa maxNum bitset))
  | scan {t pa : ℕ} {maxNum : ℤ} {bitset : BitVec 32} : s.pc t = .scan pa maxNum bitset → s.lock = none →
      FutexStep s (.scan t) { s.goto t .idle with
        tasks := (s.wakeUp pa maxNum bitset).tasks
        queues := (s.wakeUp pa maxNum bitset).queues
        counted := (s.wakeUp pa maxNum bitset).counted }
  | requeue {t oldPa newPa : ℕ} {maxWakeup maxRequeue : ℤ} : s.isIdle t = true →
      FutexStep s (.requeue t oldPa maxWakeup newPa maxRequeue)
        (s.bump.goto t (.rescan oldPa maxWakeup newPa maxRequeue))
  | rescan {t oldPa newPa : ℕ} {maxWakeup maxRequeue : ℤ} :
      s.pc t = .rescan oldPa maxWakeup newPa maxRequeue → s.lock = none →
      FutexStep s (.rescan t) { s.goto t .idle with
        tasks := (s.requeueUp oldPa maxWakeup newPa maxRequeue).tasks
        queues := (s.requeueUp oldPa maxWakeup newPa maxRequeue).queues
        counted := (s.requeueUp oldPa maxWakeup newPa maxRequeue).counted }
  | dispatch {t : ℕ} : s.canDispatch t = true →
      FutexStep s (.dispatch t) (s.setTask t { s.tasks t with status := .running })
  | expireFreed {t key : ℕ} : (t, key) ∈ s.timers →
      FutexStep s (.expire t key) { s with timers := s.timers.erase (t, key) }
  | expire {t key : ℕ} : (t, key) ∈ s.timers → (s.tasks t).freed = false → FutexStep s (.expire t key)
      { s.bump with timers := s.timers.erase (t, key), firing := (t, key) :: s.firing }
  | handleTimer {t key : ℕ} : (t, key) ∈ s.firing → s.lock = none →
      FutexStep s (.handleTimer t key) { s with
        firing := s.firing.erase (t, key)
        tasks := (s.timeOut t key).tasks
        queues := (s.timeOut t key).queues
        panicked := (s.timeOut t key).panicked }
  | signal {t : ℕ} {unmasked : Bool} : FutexStep s (.signal t unmasked) (s.setTask t { s.tasks t with
      deliverable := (s.tasks t).deliverable || unmasked
      status := if (s.tasks t).status = .blocked then .ready else (s.tasks t).status })
  | handled {t : ℕ} : s.isIdle t = true →
      FutexStep s (.handled t) (s.setTask t { s.tasks t with deliverable := false })
  | block {t : ℕ} : s.isIdle t = true → (s.tasks t).deliverable = false →
      FutexStep s (.block t) (s.setTask t { s.tasks t with status := .blocked })
  | unblock {t : ℕ} : s.pc t = .idle → (s.tasks t).status = .blocked →
      FutexStep s (.unblock t) (s.setTask t { s.tasks t with status := .ready })
  | clear {t : ℕ} : (s.tasks t).status = .blocked → FutexStep s (.clear t)
      { s.setTask t { s.tasks t with status := .ready, futexKey := 0, futexPa := 0 } with
        unlinks := if (s.tasks t).futexKey ≠ 0 then ((s.tasks t).futexPa, (s.tasks t).futexKey) :: s.unlinks
          else s.unlinks }
  | unlink {pa key : ℕ} : (pa, key) ∈ s.unlinks → s.lock = none → FutexStep s (.unlink pa key)
      { s with unlinks := s.unlinks.erase (pa, key), queues := s.queues.unhook pa key }
  | free {t : ℕ} : s.isIdle t = true → (∀ key, (t, key) ∉ s.firing) →
      FutexStep s (.free t) (s.setTask t { s.tasks t with status := .zombie, freed := true })

namespace FutexState

variable {s s' : FutexState} {e : FutexEvent} {t u : ℕ}

lemma stepIdle_step (h : (if s.isIdle t then s.stepIdle t e else none) = some s') :
    s.isIdle t = true ∧ s.stepIdle t e = some s' := by
  split_ifs at h
  exact ⟨‹_›, h⟩

lemma step_read (h : s.stepWait t (.read t) = some s') : FutexStep s (.read t) s' := by
  simp only [stepWait] at h
  split at h
  · next w key hpc =>
    split at h
    · cases h
      exact .readFails hpc
    next value hmem =>
    split at h
    · cases h
      exact .readFails hpc
    · next heq =>
      cases h
      exact .read hpc (by rw [hmem, not_not.1 heq])
  · cases h

lemma step_recheck (h : s.stepWait t (.recheck t) = some s') : FutexStep s (.recheck t) s' := by
  simp only [stepWait] at h
  split at h
  · next w key v hpc =>
    split at h
    · cases h
      exact .retry hpc
    · next heq =>
      cases h
      exact .recheck hpc (not_not.1 heq)
  · cases h

lemma step_enqueue (h : s.stepWait t (.enqueue t) = some s') : FutexStep s (.enqueue t) s' := by
  simp only [stepWait] at h
  split at h <;> cases h
  next w key hpc =>
  simp only [publishWait]
  split
  · next hsig => exact .interrupted hpc hsig
  · next hsig => exact .enqueue hpc (by simpa using hsig)

lemma step_resume (h : s.stepWait t (.resume t) = some s') : FutexStep s (.resume t) s' := by
  simp only [stepWait] at h
  split at h
  · next w key hpc =>
    obtain ⟨hrun, rfl⟩ := Lib.of_guard h
    simp only [resumeWait]
    split
    · next hsig => exact .resumeSignal hpc hrun hsig
    next hsig =>
    split
    · next htime => exact .resumeTimeout hpc hrun (by simpa using hsig) htime
    · next htime => exact .resume hpc hrun (by simpa using hsig) (by simpa using htime)
  · cases h

lemma wakeUp_frame (s : FutexState) (pa : ℕ) (n : ℤ) (b : BitVec 32) : s.wakeUp pa n b = { s with
    tasks := (s.wakeUp pa n b).tasks, queues := (s.wakeUp pa n b).queues, counted := (s.wakeUp pa n b).counted } := by
  unfold wakeUp
  split <;> rfl

lemma requeueUp_frame (s : FutexState) (old : ℕ) (n : ℤ) (new : ℕ) (m : ℤ) : s.requeueUp old n new m = { s with
    tasks := (s.requeueUp old n new m).tasks
    queues := (s.requeueUp old n new m).queues
    counted := (s.requeueUp old n new m).counted } := by
  unfold requeueUp
  split <;> rfl

lemma timeOut_frame (s : FutexState) (firing : List (ℕ × ℕ)) (t key : ℕ) :
    { s with firing := firing }.timeOut t key = { s with
      firing := firing
      tasks := (s.timeOut t key).tasks
      queues := (s.timeOut t key).queues
      panicked := (s.timeOut t key).panicked } := by
  simp only [timeOut]
  split
  · rfl
  split
  · rfl
  split <;> rfl

lemma act_step (h : s.act e = some s') : FutexStep s e s' := by
  cases e with
  | read t => exact step_read h
  | recheck t => exact step_recheck h
  | enqueue t => exact step_enqueue h
  | resume t => exact step_resume h
  | load t =>
    simp only [act, stepWait] at h
    split at h <;> cases h
    next hpc => exact .load hpc
  | lock t =>
    simp only [act, stepWait] at h
    split at h <;> cases h
    next hpc hlock => exact .lock hpc hlock
  | arm t =>
    simp only [act, stepWait] at h
    split at h <;> cases h
    next hpc => exact .arm hpc
  | unhookBump t =>
    simp only [act, stepWait] at h
    split at h
    · next hpc =>
      split at h
      · next h0 =>
        subst h0
        cases h
        exact .unhookNone hpc
      · cases h
        exact .unhookBump hpc
    · cases h
  | unhook t =>
    simp only [act, stepWait] at h
    split at h <;> cases h
    next hpc hlock => exact .unhook hpc hlock
  | store t word value =>
    obtain ⟨hidle, h⟩ := stepIdle_step h
    obtain ⟨-, rfl⟩ := Lib.of_guard h
    exact .store hidle
  | wait t w =>
    obtain ⟨hidle, h⟩ := stepIdle_step h
    cases h
    exact .wait hidle
  | wake t pa maxNum bitset =>
    obtain ⟨hidle, h⟩ := stepIdle_step h
    simp only [stepIdle] at h
    split_ifs at h
    cases h
    exact .wake hidle
  | requeue t oldPa maxWakeup newPa maxRequeue =>
    obtain ⟨hidle, h⟩ := stepIdle_step h
    cases h
    exact .requeue hidle
  | handled t =>
    obtain ⟨hidle, h⟩ := stepIdle_step h
    cases h
    exact .handled hidle
  | block t =>
    obtain ⟨hidle, h⟩ := stepIdle_step h
    simp only [stepIdle] at h
    split_ifs at h with hsig
    cases h
    exact .block hidle (by simpa using hsig)
  | free t =>
    obtain ⟨hidle, h⟩ := stepIdle_step h
    simp only [stepIdle] at h
    split_ifs at h with hfiring
    cases h
    refine .free hidle fun key hmem => hfiring ?_
    exact any_eq_true.2 ⟨(t, key), hmem, by simp⟩
  | scan t =>
    simp only [act] at h
    split at h <;> cases h
    next hpc hlock =>
    rw [wakeUp_frame]
    exact .scan hpc hlock
  | rescan t =>
    simp only [act] at h
    split at h <;> cases h
    next hpc hlock =>
    rw [requeueUp_frame]
    exact .rescan hpc hlock
  | dispatch t =>
    obtain ⟨hd, rfl⟩ := Lib.of_guard h
    exact .dispatch hd
  | expire t key =>
    simp only [act] at h
    split at h
    · next hmem =>
      split at h
      · cases h
        exact .expireFreed hmem
      · next hfreed =>
        cases h
        exact .expire hmem (by simpa using hfreed)
    · cases h
  | handleTimer t key =>
    obtain ⟨hmem, rfl⟩ := Lib.of_guard h
    rw [timeOut_frame]
    exact .handleTimer hmem.1 hmem.2
  | signal t unmasked =>
    cases h
    exact .signal
  | unblock t =>
    simp only [act] at h
    split at h
    · next hpc =>
      obtain ⟨hb, rfl⟩ := Lib.of_guard h
      exact .unblock hpc hb
    · cases h
  | clear t =>
    simp only [act] at h
    split at h <;> cases h
    next hb => exact .clear hb
  | unlink pa key =>
    obtain ⟨hmem, rfl⟩ := Lib.of_guard h
    exact .unlink hmem.1 hmem.2

lemma pc_of_not_thread (h : FutexStep s e s') (hu : e.thread ≠ some u) : s'.pc u = s.pc u := by
  have hne : ∀ {t : ℕ} {x : FutexPc}, some t ≠ some u → update s.pc t x u = s.pc u := fun hne =>
    update_of_ne (fun heq => hne (congrArg some heq.symm)) _ _
  cases h with
  | _ => first | rfl | exact hne hu

lemma pc_of_isIdle (h : s.isIdle t = true) : s.pc t = .idle := by
  unfold isIdle at h
  split at h
  · assumption
  · cases h

lemma key_step {k : ℕ} (h : FutexStep s e s') (hk : (s'.pc u).key = some k) :
    (s.pc u).key = some k ∨ (∃ w, e = .wait u w) ∧ k = newFutexKey s.keyCounter := by
  by_cases hu : e.thread = some u
  · cases h with
    | wait hidle =>
      cases hu
      simp only [goto, update_self] at hk
      exact .inr ⟨⟨_, rfl⟩, (Option.some.inj hk).symm⟩
    | store => exact .inl hk
    | _ =>
      cases hu
      all_goals
        left
        simp_all [goto, finish, bump, setTask, FutexPc.key]
  · rw [pc_of_not_thread h hu] at hk
    exact .inl hk

end FutexState

end Ya2yOS.Task
