import Mathlib.Algebra.Order.Ring.Int
import Mathlib.Data.List.Count
import Mathlib.Data.List.Nodup
import Ya2yOS.Lib.Transition

/-!
# The end of processes

`exit_current_and_run_next`, cut at every access to the thread lists, the exit codes and the owner counts. A thread
marks itself as a zombie, leaves the thread list, and tears the process down where all threads left on a copy of the
list are zombies.
-/

namespace Ya2yOS.Task

open Lib

/-- What threads and processes share with a count of owners. -/
inductive SharedKind where
  | fdTable
  | fsInfo
deriving DecidableEq, Repr

/-- The actions of the last thread of a process. -/
inductive TeardownAction where
  | usage
  | release (k : SharedKind)
  | publish
  | reparent
  | notify
deriving DecidableEq, Repr

/-- The order of the actions. -/
def teardown : List TeardownAction := [.usage, .release .fdTable, .release .fsInfo, .publish, .reparent, .notify]

/-- Where a thread is on its way out. -/
inductive ExitPc where
  | absent
  | running
  /-- In a wait that has found a child to collect. -/
  | found (child : ℕ)
  /-- In the exit path: before it marks itself, before it leaves the thread list, before it copies the list, and with
  the part of the copy it has not looked at. -/
  | leaving (code : ℤ)
  | zombie (code : ℤ)
  | removed (code : ℤ)
  | testing (code : ℤ) (rest : List ℕ)
  | tearing (code : ℤ) (rest : List TeardownAction)
  /-- After the exit path, and when the last reference to the thread is gone. -/
  | gone
  | dropped
deriving DecidableEq, Repr

namespace ExitPc

def live : ExitPc → Bool
  | .running | .found _ | .leaving _ => true
  | _ => false

/-- The thread is a zombie and has not finished its test for the last thread. -/
def inWindow : ExitPc → Bool
  | .zombie _ | .removed _ | .testing _ _ => true
  | _ => false

def tears : ExitPc → Bool
  | .tearing _ _ => true
  | _ => false

def active (pc : ExitPc) : Bool := pc.live || pc.inWindow

/-- A weak reference to the thread finds it. -/
def upgradable : ExitPc → Bool
  | .absent | .dropped => false
  | _ => true

def isZombie (pc : ExitPc) : Bool := pc.inWindow || pc.tears || pc = .gone

lemma live_iff (pc : ExitPc) : pc.live = true ↔ pc.upgradable = true ∧ pc.isZombie = false := by
  cases pc <;> simp [live, upgradable, isZombie, inWindow, tears]

lemma upgradable_of_live {pc : ExitPc} (h : pc.live = true) : pc.upgradable = true := ((live_iff pc).1 h).1

end ExitPc

/-- A process: its threads, its children, and the teardown actions performed for it. -/
structure ExitProcess where
  tasks : List ℕ
  children : List ℕ
  groupExitCode : Option ℤ
  shared : SharedKind → ℕ
  performed : List TeardownAction

/-- The processes, the threads, and the owners of what they share. -/
structure ExitSystem where
  pids : List ℕ
  proc : ℕ → ExitProcess
  pidOf : ℕ → ℕ
  pc : ℕ → ExitPc
  owners : SharedKind → ℕ → ℤ
  cleared : SharedKind → ℕ → Bool
  reaped : List ℕ

/-- A call of a thread, or its next step. -/
inductive ExitEvent where
  | cloneThread (t u : ℕ)
  | cloneProcess (t u : ℕ) (shares : SharedKind → Bool)
  | exit (t : ℕ) (code : ℤ)
  | exitGroup (t : ℕ) (code : ℤ)
  | run (t : ℕ) (reaper : ℕ)
  | drop (t : ℕ)
  | find (t : ℕ) (child : ℕ)

namespace ExitSystem

def initial : ExitSystem where
  pids := [1]
  proc p := if p = 1 then ⟨[1], [], none, fun _ => 1, []⟩ else ⟨[], [], none, fun _ => 0, []⟩
  pidOf _ := 1
  pc t := if t = 1 then .running else .absent
  owners _ n := if n = 1 then 1 else 0
  cleared _ _ := false
  reaped := []

def goto (s : ExitSystem) (t : ℕ) (pc : ExitPc) : ExitSystem := { s with pc := Function.update s.pc t pc }

def setProc (s : ExitSystem) (p : ℕ) (x : ExitProcess) : ExitSystem := { s with proc := Function.update s.proc p x }

/-- The test of a thread whether it is the last one. -/
def allTasksExited (s : ExitSystem) (p : ℕ) : Bool :=
  (s.proc p).groupExitCode.isSome && (s.proc p).tasks.all fun u => !(s.pc u).upgradable

def setGroupExitCodeOnce (s : ExitSystem) (p : ℕ) (code : ℤ) : ExitSystem :=
  s.setProc p { s.proc p with groupExitCode := some ((s.proc p).groupExitCode.getD code) }

/-- The last owner clears what is shared. -/
def releaseOwner (s : ExitSystem) (k : SharedKind) (n : ℕ) : ExitSystem :=
  { s with
    owners := Function.update s.owners k (Function.update (s.owners k) n (s.owners k n - 1))
    cleared := if s.owners k n = 1 then Function.update s.cleared k (Function.update (s.cleared k) n true)
      else s.cleared }

/-- The children go to the reaper. -/
def exitAndReparent (s : ExitSystem) (p reaper : ℕ) : ExitSystem :=
  let orphans := (s.proc p).children
  let s := s.setProc p { s.proc p with children := [], tasks := [] }
  s.setProc reaper { s.proc reaper with
    children := (s.proc reaper).children ++ orphans.filter (· ∉ (s.proc reaper).children) }

/-- One action of the teardown. -/
def perform (s : ExitSystem) (p reaper : ℕ) (code : ℤ) : TeardownAction → ExitSystem
  | .usage => s
  | .release k => s.releaseOwner k ((s.proc p).shared k)
  | .publish => s.setGroupExitCodeOnce p code
  | .reparent => s.exitAndReparent p reaper
  | .notify => s

def log (s : ExitSystem) (p : ℕ) (a : TeardownAction) : ExitSystem :=
  s.setProc p { s.proc p with performed := (s.proc p).performed ++ [a] }

def advance (s : ExitSystem) (t reaper : ℕ) : ExitPc → Option ExitSystem
  | .leaving code => some (s.goto t (.zombie code))
  | .zombie code =>
    let x := s.proc (s.pidOf t)
    some ((s.setProc (s.pidOf t) { x with
      tasks := x.tasks.filter fun u => (s.pc u).upgradable && decide (u ≠ t) }).goto t (.removed code))
  | .removed code => some (s.goto t (.testing code (s.proc (s.pidOf t)).tasks))
  | .testing code (u :: rest) =>
    if (s.pc u).upgradable && !(s.pc u).isZombie then some (s.goto t .gone) else some (s.goto t (.testing code rest))
  | .testing code [] => some (s.goto t (.tearing code teardown))
  | .tearing code (a :: rest) =>
    some (((s.perform (s.pidOf t) reaper code a).log (s.pidOf t) a).goto t (.tearing code rest))
  | .tearing _ [] => some (s.goto t .gone)
  | .found child =>
    let x := s.proc (s.pidOf t)
    if child ∈ x.children then
      some (goto { s.setProc (s.pidOf t) { x with children := x.children.erase child } with
        reaped := child :: s.reaped } t .running)
    else some (s.goto t .running)
  | _ => none

def step (s : ExitSystem) : ExitEvent → Option ExitSystem
  | .cloneThread t u =>
    if s.pc t = .running ∧ s.pc u = .absent then
      let x := s.proc (s.pidOf t)
      some (goto { s.setProc (s.pidOf t) { x with tasks := x.tasks.filter (fun v => (s.pc v).upgradable) ++ [u] } with
        pidOf := Function.update s.pidOf u (s.pidOf t) } u .running)
    else none
  | .cloneProcess t u shares =>
    if s.pc t = .running ∧ s.pc u = .absent then
      let x := s.proc (s.pidOf t)
      let s := s.setProc (s.pidOf t) { x with children := x.children ++ [u] }
      let child : ExitProcess := ⟨[u], [], none, fun k => if shares k then x.shared k else u, []⟩
      some (goto { s.setProc u child with
        pids := u :: s.pids
        pidOf := Function.update s.pidOf u u
        owners := fun k n => if n = child.shared k then s.owners k n + 1 else s.owners k n } u .running)
    else none
  | .exit t code => if s.pc t = .running then some (s.goto t (.leaving code)) else none
  | .exitGroup t code =>
    if s.pc t = .running then
      some ((s.setGroupExitCodeOnce (s.pidOf t) code).goto t
        (.leaving ((s.proc (s.pidOf t)).groupExitCode.getD code)))
    else none
  | .run t reaper => s.advance t reaper (s.pc t)
  | .drop t => if s.pc t = .gone then some (s.goto t .dropped) else none
  | .find t child =>
    if s.pc t = .running ∧ child ∈ (s.proc (s.pidOf t)).children ∧ s.allTasksExited child = true then
      some (s.goto t (.found child))
    else none

/-- No thread marks itself while another one of its process is between its mark and the end of its test. -/
def Alone (s : ExitSystem) : ExitEvent → Prop
  | .run t _ =>
    match s.pc t with
    | .leaving _ => ∀ u ≠ t, s.pidOf u = s.pidOf t → (s.pc u).inWindow = false
    | _ => True
  | _ => True

end ExitSystem

end Ya2yOS.Task
