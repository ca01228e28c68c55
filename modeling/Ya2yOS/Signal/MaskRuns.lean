import Ya2yOS.Lib.Transition
import Ya2yOS.Signal.Frame

/-!
# Masks of signals

The calls that write the mask of a task, handler entries, `rt_sigreturn` and `clone`. `rt_sigreturn` alone does not
take `SIGKILL` and `SIGSTOP` out of a mask it gets from the user.
-/

namespace Ya2yOS.Signal

open Function Lib Arch SigSet Option

def SIGSEGV : ℕ := 11
def SIG_MAX_NUM : ℕ := 64
def SIG_DFL : ℕ := 0
def SIG_IGN : ℕ := 1

/-- The signals that no mask blocks. -/
def unblockable : SigSet := .fromSig SIGKILL ||| .fromSig SIGSTOP

variable {C : Type} [Arch C] {signo : ℕ} {x : SigTask C}

/-- What a task sees in a call: itself, its table of actions and its memory. -/
structure SigView (C : Type) where
  task : SigTask C
  table : ℕ → KSigAction
  memory : UserMemory

/-- The calls on signals with their arguments. -/
inductive SigCall where
  | sigaction (signo act oldAct sigsetsize : ℕ)
  | sigreturn
  | sigprocmask (how set oldSet : ℕ)
  | sigsuspend (mask : ℕ)
  | sigaltstack (newStack oldStack : ℕ)

namespace SigView

def copyOut (v : SigView C) (addr : ℕ) (ws : List Word) : Option (SigView C) :=
  if addr = 0 then some v else (v.memory.writeWords addr ws).map fun m => { v with memory := m }

/-- An action by its handler word. -/
def kSigAction (act : SigAction) : KSigAction :=
  if act.saHandler = SIG_DFL then .defaultAction else if act.saHandler = SIG_IGN then .ignore else .handler act

def sysRtSigaction (v : SigView C) (signo act oldAct sigsetsize : ℕ) : SigView C × SyscallRet :=
  if sigsetsize ≠ 8 then (v, .error .EINVAL)
  else if signo = 0 ∨ SIG_MAX_NUM < signo then (v, .error .EINVAL)
  else if (signo = SIGKILL ∨ signo = SIGSTOP) ∧ act ≠ 0 then (v, .error .EINVAL)
  else
    match v.copyOut oldAct (fromSigaction C (v.table signo).act) with
    | none => (v, .error .EFAULT)
    | some v =>
      if act = 0 then (v, .ok 0)
      else
        match v.memory.readWords act 4 with
        | none => (v, .error .EFAULT)
        | some raw =>
          let new := intoSigaction C raw
          let new := { new with saMask := remove new.saMask unblockable }
          ({ v with table := update v.table signo (kSigAction new) }, .ok 0)

def sysRtSigreturn (v : SigView C) : SigView C × SyscallRet :=
  match restoreFrame v.task v.memory with
  | .error e => (v, .error e)
  | .ok (task, a0) => ({ v with task := task }, .ok a0.toNat)

/-- The mask that `how` asks for. -/
def newMask (how : ℕ) (old mask : SigSet) : Option SigSet :=
  match how with
  | 0 => some (old ||| mask)
  | 1 => some (old &&& complement mask)
  | 2 => some mask
  | _ => none

def sysRtSigprocmask (v : SigView C) (how set oldSet : ℕ) : SigView C × SyscallRet :=
  -- The flags name the bits of 1 and 2, so that 3 passes this check.
  if 3 < how then (v, .error .EINVAL)
  else
    match v.copyOut oldSet [v.task.sigMask] with
    | none => (v, .error .EFAULT)
    | some v =>
      if set = 0 then (v, .ok 0)
      else
        match v.memory.readWord set with
        | none => (v, .error .EFAULT)
        | some mask =>
          match newMask how v.task.sigMask (remove mask unblockable) with
          | none => (v, .error .EINVAL)
          | some mask => ({ v with task := { v.task with sigMask := remove mask unblockable } }, .ok 0)

def sysRtSigsuspend (v : SigView C) (mask : ℕ) : SigView C × Option SyscallRet :=
  match v.memory.readWord mask with
  | none => (v, some (.error .EFAULT))
  | some mask =>
    let task := { v.task with phase := .suspended v.task.sigMask, sigMask := remove mask unblockable }
    ({ v with task := task }, none)

def sysSigaltstack (v : SigView C) (newStack oldStack : ℕ) : SigView C × SyscallRet :=
  let sp := (getSp v.task.trapCx).toNat
  let previous := v.task.altSignalStack.userView sp
  let requested : Except SysErrNo SignalStack := if newStack = 0 then .ok v.task.altSignalStack else
    match v.memory.readWords newStack 3 with
    | none => .error .EFAULT
    | some ws => v.task.altSignalStack.replaceFromUser (.ofWords ws) sp
  match requested with
  | .error e => (v, .error e)
  | .ok stack =>
    let v := { v with task := { v.task with altSignalStack := stack } }
    match v.copyOut oldStack previous.words with
    | none => (v, .error .EFAULT)
    | some v => (v, .ok 0)

def call (v : SigView C) : SigCall → SigView C × Option SyscallRet
  | .sigaction signo act oldAct sigsetsize => (v.sysRtSigaction signo act oldAct sigsetsize).map id some
  | .sigreturn => v.sysRtSigreturn.map id some
  | .sigprocmask how set oldSet => (v.sysRtSigprocmask how set oldSet).map id some
  | .sigsuspend mask => v.sysRtSigsuspend mask
  | .sigaltstack newStack oldStack => (v.sysSigaltstack newStack oldStack).map id some

/-- The result goes to `a0`. -/
def leave (v : SigView C) (ret : SyscallRet) : SigView C :=
  let a0 : Word := match ret with
    | .ok n => .ofNat 64 n
    | .error e => -.ofNat 64 e.code
  { v with task := { v.task with phase := .returning, trapCx := setA0 v.task.trapCx a0 } }

/-- The trap handler steps over the instruction and keeps `a0`. -/
def enter (v : SigView C) : SigView C :=
  { v with task := { v.task with
    trapCx := sepcStep (setOriginA0 v.task.trapCx (getA0 v.task.trapCx)) 4 } }

def syscall (v : SigView C) (c : SigCall) : SigView C :=
  match v.enter.call c with
  | (v, none) => v
  | (v, some ret) => v.leave ret

/-- One round of the loop of `rt_sigsuspend`. -/
def suspendRound (v : SigView C) (oldMask : SigSet) : SigView C :=
  match (remove v.task.sigPending v.task.sigMask).peekFront with
  | none => v
  | some signo =>
    if (v.table signo).ignores signo then
      { v with task := { v.task with sigPending := remove v.task.sigPending (.fromSig signo) } }
    else leave { v with task := { v.task with sigsuspendRestoreMask := some oldMask } } (.error .EINTR)

/-- What the rest of the kernel decides in a round of `trap_return`: the area of the stack, whether the fixup of `rseq`
succeeds, the hart and the address of the trampoline. -/
structure ReturnEnv where
  area : Option ℕ
  rseqOk : Bool
  hart : Word
  sigreturnVa : Word

/-- Out of the loop of `trap_return`, or back to its beginning. -/
def resume (v : SigView C) (env : ReturnEnv) (breaks : Bool) : SigView C :=
  if breaks then
    { v with task := { v.task with phase := .user, trapCx := prepareUserReturn v.task.trapCx env.hart } }
  else { v with task := { v.task with phase := .returning } }

/-- A failed restart of a restartable sequence. -/
def queueSegv (v : SigView C) (rseqOk : Bool) : SigView C :=
  if rseqOk then v else { v with task := { v.task with sigPending := v.task.sigPending ||| .fromSig SIGSEGV } }

/-- The signal and its information are no longer pending. -/
def takePending (v : SigView C) (signo : ℕ) : SigView C :=
  { v with task := { v.task with
    sigPending := remove v.task.sigPending (.fromSig signo)
    sigPendingInfo := update v.task.sigPendingInfo signo none } }

/-- SA_RESETHAND. -/
def resetHandler (v : SigView C) (signo : ℕ) (act : SigAction) : SigView C :=
  if act.contains SigActionFlags.SA_RESETHAND then
    { v with table := update v.table signo .defaultAction }
  else v

def exit (v : SigView C) : SigView C := { v with task := { v.task with phase := .exited } }

/-- The chosen signal is taken and acted on. -/
def handleSignal (v : SigView C) (env : ReturnEnv) (signo : ℕ) (breaks : Bool) (action : KSigAction) : SigView C :=
  let info := v.task.sigPendingInfo signo
  let v := v.takePending signo
  if action.isHandler then
    let v := v.resetHandler signo action.act
    match setupFrame env.sigreturnVa signo action.act info env.area v.task v.memory with
    | none => v.exit
    | some (task, m) => resume { v with task := task, memory := m } env breaks
  else if action.isIgnored then v.resume env breaks
  else
    match defaultOp signo with
    | .ignore | .stop | .continue => v.resume env breaks
    | .terminate | .coreDump => v.exit

/-- The next step of a task on its way back to user mode. -/
def trapReturn (v : SigView C) (env : ReturnEnv) : Option (SigView C) :=
  match v.task.phase with
  | .returning =>
    match (remove v.task.sigPending v.task.sigMask).peekFront with
    | some signo =>
      let phase := .chosen signo ((v.table signo).isHandler && env.rseqOk)
      some (queueSegv { v with task := { v.task with phase := phase } } env.rseqOk)
    | none =>
      if env.rseqOk then
        let mask := v.task.sigsuspendRestoreMask.getD v.task.sigMask
        some (resume { v with task := { v.task with sigMask := mask, sigsuspendRestoreMask := none } } env true)
      else some (v.queueSegv false)
  | .chosen signo breaks => some { v with task := { v.task with phase := .handling signo breaks (v.table signo) } }
  | .handling signo breaks action => some (v.handleSignal env signo breaks action)
  | _ => none

end SigView

structure SigProcess where
  sigTable : ℕ
  memorySet : ℕ

/-- The tasks with the tables and memories they share. -/
structure MaskSystem (C : Type) where
  task : ℕ → Option (SigTask C)
  process : ℕ → SigProcess
  table : ℕ → ℕ → KSigAction
  memory : ℕ → UserMemory
  nextTable : ℕ
  nextMemory : ℕ

inductive MaskEvent where
  | syscall (t : ℕ) (call : SigCall)
  | clone (t child flags : ℕ) (stack tls kernelStack : Word)
  | suspendRound (t : ℕ)
  | trapReturn (t : ℕ) (env : SigView.ReturnEnv)
  | interrupt (t : ℕ)
  | post (t signo : ℕ) (info : Option SigInfo)
  | compute (t : ℕ) (mctx : List Word)
  | store (memorySet : ℕ) (memory : UserMemory)

namespace CloneFlags

def CLONE_VM : ℕ := 2 ^ 8
def CLONE_SIGHAND : ℕ := 2 ^ 11
def CLONE_VFORK : ℕ := 2 ^ 14
def CLONE_THREAD : ℕ := 2 ^ 16
def CLONE_SETTLS : ℕ := 2 ^ 19
def CLONE_CLEAR_SIGHAND : ℕ := 2 ^ 32

def contains (flags flag : ℕ) : Bool := flags &&& flag = flag

end CloneFlags

namespace MaskSystem

open CloneFlags

def initial (cx : C) (memory : UserMemory) : MaskSystem C where
  task t := if t = 0 then some ⟨0, .user, 0, 0, fun _ => none, none, .disabled, cx⟩ else none
  process _ := ⟨0, 0⟩
  table _ _ := .defaultAction
  memory _ := memory
  nextTable := 1
  nextMemory := 1

def view (s : MaskSystem C) (x : SigTask C) : SigView C :=
  ⟨x, s.table (s.process x.process).sigTable, s.memory (s.process x.process).memorySet⟩

def setTask (s : MaskSystem C) (t : ℕ) (x : SigTask C) : MaskSystem C :=
  { s with task := update s.task t (some x) }

/-- What a task did in its view. -/
def commit (s : MaskSystem C) (t process : ℕ) (v : SigView C) : MaskSystem C :=
  { s.setTask t v.task with
    table := update s.table (s.process process).sigTable v.table
    memory := update s.memory (s.process process).memorySet v.memory }

/-- The task that `clone` makes. -/
def childTask (x : SigTask C) (child flags : ℕ) (stack tls kernelStack : Word) : SigTask C :=
  let cx := setKernelStack (setA0 x.trapCx 0) kernelStack
  let cx := if stack = 0 then cx else setSp cx stack
  { process := if contains flags CLONE_THREAD then x.process else child
    phase := .returning
    sigMask := x.sigMask
    sigPending := 0
    sigPendingInfo := fun _ => none
    sigsuspendRestoreMask := none
    altSignalStack :=
      if contains flags CLONE_VM && !contains flags CLONE_VFORK then .disabled else x.altSignalStack
    trapCx := if contains flags CLONE_SETTLS then setTp cx tls else cx }

/-- The table of the child: the same one, a copy, or an empty one. -/
def childTable (s : MaskSystem C) (x : SigTask C) (flags : ℕ) : ℕ × MaskSystem C :=
  let own := (s.process x.process).sigTable
  if contains flags CLONE_SIGHAND then (own, s)
  else
    let table := if contains flags CLONE_CLEAR_SIGHAND then fun _ => .defaultAction else s.table own
    (s.nextTable, { s with table := update s.table s.nextTable table, nextTable := s.nextTable + 1 })

/-- The memory of the child: the same one or a copy. -/
def childMemory (s : MaskSystem C) (x : SigTask C) (flags : ℕ) : ℕ × MaskSystem C :=
  let own := (s.process x.process).memorySet
  if contains flags CLONE_VM then (own, s)
  else
    let memory := update s.memory s.nextMemory (s.memory own)
    (s.nextMemory, { s with memory := memory, nextMemory := s.nextMemory + 1 })

def cloneProcess (s : MaskSystem C) (t child flags : ℕ) (stack tls kernelStack : Word) (x : SigTask C) :
    MaskSystem C :=
  let entered := (s.view x).enter
  let (memorySet, s) := s.childMemory x flags
  let (sigTable, s) := s.childTable x flags
  let s := if contains flags CLONE_THREAD then s else
    { s with process := update s.process child ⟨sigTable, memorySet⟩ }
  let s := s.setTask child (childTask entered.task child flags stack tls kernelStack)
  s.setTask t (entered.leave (.ok child)).task

def onView (s : MaskSystem C) (t : ℕ) (f : SigView C → Option (SigView C)) : Option (MaskSystem C) := do
  let x ← s.task t
  let v ← f (s.view x)
  some (s.commit t x.process v)

def step (s : MaskSystem C) : MaskEvent → Option (MaskSystem C)
  | .syscall t c => s.onView t fun v => if v.task.phase = .user then some (v.syscall c) else none
  | .clone t child flags stack tls kernelStack => do
    let x ← s.task t
    if x.phase = .user ∧ s.task child = none then some (s.cloneProcess t child flags stack tls kernelStack x) else none
  | .suspendRound t => s.onView t fun v =>
    match v.task.phase with
    | .suspended oldMask => some (v.suspendRound oldMask)
    | _ => none
  | .trapReturn t env => s.onView t fun v => v.trapReturn env
  | .interrupt t => s.onView t fun v =>
    if v.task.phase = .user then some { v with task := { v.task with phase := .returning } } else none
  | .post t signo info => s.onView t fun v =>
    if 0 < signo ∧ signo ≤ SIG_MAX_NUM then
      some { v with task := { v.task with
        sigPending := v.task.sigPending ||| .fromSig signo
        sigPendingInfo := update v.task.sigPendingInfo signo info } }
    else none
  | .compute t mctx => s.onView t fun v =>
    if v.task.phase = .user then
      some { v with task := { v.task with trapCx := copyFromMctx v.task.trapCx mctx } }
    else none
  | .store memorySet memory => some { s with memory := update s.memory memorySet memory }

end MaskSystem

/-! ### What a mask must not hold -/

/-- SIGKILL and SIGSTOP are not blocked. -/
def Unblocking (mask : SigSet) : Prop := has mask SIGKILL = false ∧ has mask SIGSTOP = false
deriving Decidable

lemma unblocking_zero : Unblocking 0 := by decide

lemma unblocking_remove (mask : SigSet) : Unblocking (remove mask unblockable) := by
  constructor <;> rw [has_remove] <;> apply Bool.and_eq_false_imp.2 <;> intro _ <;> decide

lemma Unblocking.or {a b : SigSet} (ha : Unblocking a) (hb : Unblocking b) : Unblocking (a ||| b) := by
  constructor <;> rw [has_or, Bool.or_eq_false_iff]
  · exact ⟨ha.1, hb.1⟩
  · exact ⟨ha.2, hb.2⟩

lemma unblocking_fromSig (hpos : 0 < signo) (hkill : signo ≠ SIGKILL) (hstop : signo ≠ SIGSTOP) :
    Unblocking (.fromSig signo) := by
  constructor <;> rw [has_fromSig hpos]
  · rw [decide_eq_false hkill.symm, Bool.false_and]
  · rw [decide_eq_false hstop.symm, Bool.false_and]

/-- A handler blocks neither of the two signals and is not for one of them. -/
def SafeAction (signo : ℕ) (action : KSigAction) : Prop :=
  action.isHandler = true → Unblocking action.act.saMask ∧ signo ≠ SIGKILL ∧ signo ≠ SIGSTOP

lemma safeAction_default (signo : ℕ) : SafeAction signo .defaultAction := fun h => by cases h

namespace SigTask

def SafePhase : SigPhase → Prop
  | .suspended oldMask => Unblocking oldMask
  | .chosen signo _ => 0 < signo
  | .handling signo _ action => 0 < signo ∧ SafeAction signo action
  | _ => True

structure Safe (x : SigTask C) : Prop where
  mask : Unblocking x.sigMask
  restore : ∀ m, x.sigsuspendRestoreMask = some m → Unblocking m
  phase : SafePhase x.phase

end SigTask

namespace SigView

structure Safe (v : SigView C) : Prop where
  task : v.task.Safe
  table : ∀ signo, SafeAction signo (v.table signo)

variable {v v' : SigView C} {act : SigAction} {breaks : Bool} {c : SigCall} {env : ReturnEnv}

omit [Arch C] in
lemma Safe.copyOut {addr : ℕ} {ws : List Word} (hv : v.Safe) (h : v.copyOut addr ws = some v') : v'.Safe := by
  unfold SigView.copyOut at h
  split_ifs at h with haddr
  · exact some.inj h ▸ hv
  · obtain ⟨m, -, rfl⟩ := map_eq_some_iff.1 h
    exact ⟨hv.task, hv.table⟩

lemma safeAction_kSigAction (hmask : Unblocking act.saMask) (hkill : signo ≠ SIGKILL)
    (hstop : signo ≠ SIGSTOP) : SafeAction signo (kSigAction act) := by
  intro h
  unfold kSigAction at h ⊢
  split_ifs at h ⊢
  · cases h
  · cases h
  · exact ⟨hmask, hkill, hstop⟩

lemma Safe.sysRtSigaction {act oldAct sigsetsize : ℕ} (hv : v.Safe) :
    (v.sysRtSigaction signo act oldAct sigsetsize).1.Safe := by
  unfold SigView.sysRtSigaction
  split
  · exact hv
  split
  · exact hv
  split
  · exact hv
  next hfixed =>
  split
  · exact hv
  next v' hout =>
  have hv' := hv.copyOut hout
  split
  · exact hv'
  next hact =>
  split
  · exact hv'
  refine ⟨hv'.task, fun n => ?_⟩
  dsimp only
  by_cases hn : n = signo
  · subst hn
    rw [update_self]
    refine safeAction_kSigAction ?_ ?_ ?_
    · exact unblocking_remove _
    · exact fun hkill => hfixed ⟨.inl hkill, hact⟩
    · exact fun hstop => hfixed ⟨.inr hstop, hact⟩
  · rw [update_of_ne hn]
    exact hv'.table n

lemma Safe.sysRtSigreturn (hv : v.Safe)
    (hframe : ∀ frame, savedFrame C v.memory (getSp v.task.trapCx).toNat = some frame → Unblocking frame.2.1) :
    v.sysRtSigreturn.1.Safe := by
  unfold SigView.sysRtSigreturn restoreFrame
  cases hsaved : savedFrame C v.memory (getSp v.task.trapCx).toNat with
  | none => exact hv
  | some frame => exact ⟨⟨hframe frame hsaved, hv.task.restore, hv.task.phase⟩, hv.table⟩

omit [Arch C] in
lemma Safe.sysRtSigprocmask {how set oldSet : ℕ} (hv : v.Safe) : (v.sysRtSigprocmask how set oldSet).1.Safe := by
  unfold SigView.sysRtSigprocmask
  split
  · exact hv
  split
  · exact hv
  next v' hout =>
  have hv' := hv.copyOut hout
  split
  · exact hv'
  split
  · exact hv'
  split
  · exact hv'
  · exact ⟨⟨unblocking_remove _, hv'.task.restore, hv'.task.phase⟩, hv'.table⟩

omit [Arch C] in
lemma Safe.sysRtSigsuspend {mask : ℕ} (hv : v.Safe) : (v.sysRtSigsuspend mask).1.Safe := by
  unfold SigView.sysRtSigsuspend
  split
  · exact hv
  · exact ⟨⟨unblocking_remove _, hv.task.restore, hv.task.mask⟩, hv.table⟩

lemma Safe.sysSigaltstack {newStack oldStack : ℕ} (hv : v.Safe) : (v.sysSigaltstack newStack oldStack).1.Safe := by
  unfold SigView.sysSigaltstack
  dsimp only
  split
  · exact hv
  next stack _ =>
    have hv' : Safe { v with task := { v.task with altSignalStack := stack } } :=
      ⟨⟨hv.task.mask, hv.task.restore, hv.task.phase⟩, hv.table⟩
    split
    · exact hv'
    · next v'' hout => exact hv'.copyOut hout

/-- The frame that `rt_sigreturn` reads on the stack blocks neither of the two signals. -/
def Genuine (v : SigView C) : SigCall → Prop
  | .sigreturn =>
    ∀ frame, savedFrame C v.memory (getSp v.task.trapCx).toNat = some frame → Unblocking frame.2.1
  | _ => True

instance (v : SigView C) (c : SigCall) : Decidable (v.Genuine c) :=
  match c with
  | .sigreturn =>
    match h : savedFrame C v.memory (getSp v.task.trapCx).toNat with
    | none => isTrue fun _ hframe => by cases h.symm.trans hframe
    | some frame =>
      decidable_of_iff (Unblocking frame.2.1)
        ⟨fun hmask _ hframe => some.inj (h.symm.trans hframe) ▸ hmask, fun hall => hall frame h⟩
  | .sigaction .. | .sigprocmask .. | .sigsuspend _ | .sigaltstack .. => isTrue trivial

lemma Safe.call (hv : v.Safe) (hc : v.Genuine c) : (v.call c).1.Safe := by
  cases c with
  | sigaction signo act oldAct sigsetsize => exact hv.sysRtSigaction
  | sigreturn => exact hv.sysRtSigreturn hc
  | sigprocmask how set oldSet => exact hv.sysRtSigprocmask
  | sigsuspend mask => exact hv.sysRtSigsuspend
  | sigaltstack newStack oldStack => exact hv.sysSigaltstack

lemma Safe.leave {ret : SyscallRet} (hv : v.Safe) : (v.leave ret).Safe :=
  ⟨⟨hv.task.mask, hv.task.restore, trivial⟩, hv.table⟩

lemma Safe.enter (hv : v.Safe) : v.enter.Safe := ⟨⟨hv.task.mask, hv.task.restore, hv.task.phase⟩, hv.table⟩

lemma Safe.syscall (hv : v.Safe) (hc : v.enter.Genuine c) : (v.syscall c).Safe := by
  have hcall := hv.enter.call hc
  unfold SigView.syscall
  split
  · next heq => rwa [heq] at hcall
  · next heq =>
    rw [heq] at hcall
    exact hcall.leave

lemma Safe.suspendRound {oldMask : SigSet} (hv : v.Safe) (hold : Unblocking oldMask) :
    (v.suspendRound oldMask).Safe := by
  unfold SigView.suspendRound
  split
  · exact hv
  split_ifs
  · exact ⟨⟨hv.task.mask, hv.task.restore, hv.task.phase⟩, hv.table⟩
  · apply Safe.leave
    refine ⟨⟨hv.task.mask, fun m hm => ?_, hv.task.phase⟩, hv.table⟩
    exact some.inj hm ▸ hold

lemma Safe.resume (hv : v.Safe) : (v.resume env breaks).Safe := by
  unfold SigView.resume
  split_ifs <;> exact ⟨⟨hv.task.mask, hv.task.restore, trivial⟩, hv.table⟩

omit [Arch C] in
lemma Safe.queueSegv {rseqOk : Bool} (hv : v.Safe) : (v.queueSegv rseqOk).Safe := by
  unfold SigView.queueSegv
  split_ifs
  · exact hv
  · exact ⟨⟨hv.task.mask, hv.task.restore, hv.task.phase⟩, hv.table⟩

lemma unblocking_handlerMask {active : SigSet} (hactive : Unblocking active) (hmask : Unblocking act.saMask)
    (hsigno : Unblocking (.fromSig signo)) : Unblocking (handlerMask signo act active) := by
  unfold handlerMask
  split_ifs
  · exact hactive.or hmask
  · exact hactive.or (hmask.or hsigno)

lemma safe_setupFrame {sigreturnVa : Word} {info : Option SigInfo} {area : Option ℕ} {x' : SigTask C}
    {m m' : UserMemory} (hx : x.Safe) (hmask : Unblocking act.saMask) (hsigno : Unblocking (.fromSig signo))
    (h : setupFrame sigreturnVa signo act info area x m = some (x', m')) : x'.Safe := by
  unfold setupFrame at h
  simp only [bind_eq_bind, bind_eq_some_iff] at h
  obtain ⟨⟨userSp, stackBottom⟩, -, -, -, m₁, -, heq⟩ := h
  cases heq
  refine ⟨unblocking_handlerMask hx.mask hmask hsigno, fun m hm => ?_, hx.phase⟩
  cases hm

omit [Arch C] in
lemma Safe.takePending (hv : v.Safe) (signo : ℕ) : (v.takePending signo).Safe :=
  ⟨⟨hv.task.mask, hv.task.restore, hv.task.phase⟩, hv.table⟩

omit [Arch C] in
lemma Safe.exit (hv : v.Safe) : v.exit.Safe := ⟨⟨hv.task.mask, hv.task.restore, trivial⟩, hv.table⟩

omit [Arch C] in
lemma Safe.resetHandler (hv : v.Safe) (signo : ℕ) (act : SigAction) : (v.resetHandler signo act).Safe := by
  unfold SigView.resetHandler
  split
  · refine ⟨hv.task, fun n => ?_⟩
    dsimp only
    by_cases hn : n = signo
    · subst hn
      rw [update_self]
      exact safeAction_default n
    · rw [update_of_ne hn]
      exact hv.table n
  · exact hv

lemma Safe.handleSignal {action : KSigAction} (hv : v.Safe)
    (hpos : 0 < signo) (haction : SafeAction signo action) : (v.handleSignal env signo breaks action).Safe := by
  unfold SigView.handleSignal
  dsimp only
  split
  next hhandler =>
    obtain ⟨hmask, hkill, hstop⟩ := haction hhandler
    have hw := (hv.takePending signo).resetHandler signo action.act
    split
    · exact hw.exit
    next task m hsetup =>
      have htask := safe_setupFrame hw.task hmask (unblocking_fromSig hpos hkill hstop) hsetup
      exact Safe.resume ⟨htask, hw.table⟩
  next =>
    have hw := hv.takePending signo
    split
    · exact hw.resume
    split
    · exact hw.resume
    · exact hw.resume
    · exact hw.resume
    · exact hw.exit
    · exact hw.exit

lemma Safe.trapReturn (hv : v.Safe) (h : v.trapReturn env = some v') : v'.Safe := by
  unfold SigView.trapReturn at h
  have hphase := hv.task.phase
  cases hp : v.task.phase with
  | user | suspended oldMask | exited =>
    rw [hp] at h
    cases h
  | returning =>
    rw [hp] at h
    cases hfront : (remove v.task.sigPending v.task.sigMask).peekFront with
    | some signo =>
      rw [hfront] at h
      cases h
      apply Safe.queueSegv
      exact ⟨⟨hv.task.mask, hv.task.restore, pos_of_has (has_of_peekFront hfront)⟩, hv.table⟩
    | none =>
      rw [hfront] at h
      split_ifs at h
      · cases h
        apply Safe.resume
        refine ⟨⟨?_, fun m hm => (by cases hm), hphase⟩, hv.table⟩
        cases hrestore : v.task.sigsuspendRestoreMask with
        | none => exact hv.task.mask
        | some m => exact hv.task.restore m hrestore
      · cases h
        exact hv.queueSegv
  | chosen signo breaks =>
    rw [hp] at h hphase
    cases h
    exact ⟨⟨hv.task.mask, hv.task.restore, hphase, hv.table signo⟩, hv.table⟩
  | handling signo breaks action =>
    rw [hp] at h hphase
    cases h
    exact hv.handleSignal hphase.1 hphase.2

end SigView

namespace MaskSystem

variable {s s' : MaskSystem C} {t child flags : ℕ} {e : MaskEvent} {kernelStack : Word}

structure Safe (s : MaskSystem C) : Prop where
  task : ∀ t x, s.task t = some x → x.Safe
  table : ∀ i signo, SafeAction signo (s.table i signo)

omit [Arch C] in
lemma Safe.view (hs : s.Safe) (hx : s.task t = some x) : (s.view x).Safe := ⟨hs.task t x hx, hs.table _⟩

omit [Arch C] in
lemma Safe.setTask (hs : s.Safe) (hx : x.Safe) : (s.setTask t x).Safe := by
  refine ⟨fun u y hy => ?_, hs.table⟩
  unfold MaskSystem.setTask at hy
  dsimp only at hy
  by_cases hu : u = t
  · rw [hu, update_self] at hy
    exact some.inj hy ▸ hx
  · rw [update_of_ne hu] at hy
    exact hs.task u y hy

omit [Arch C] in
lemma Safe.setTable (hs : s.Safe) {table : ℕ → KSigAction} (i : ℕ) (htable : ∀ signo, SafeAction signo (table signo)) :
    ∀ j signo, SafeAction signo (update s.table i table j signo) := by
  intro j
  by_cases hj : j = i
  · rw [hj, update_self]
    exact htable
  · rw [update_of_ne hj]
    exact hs.table j

omit [Arch C] in
lemma Safe.commit {process : ℕ} {v : SigView C} (hs : s.Safe) (hv : v.Safe) : (s.commit t process v).Safe :=
  ⟨(hs.setTask hv.task).task, hs.setTable _ hv.table⟩

omit [Arch C] in
lemma Safe.onView {f : SigView C → Option (SigView C)} (hs : s.Safe)
    (hf : ∀ x v, s.task t = some x → f (s.view x) = some v → v.Safe) (h : s.onView t f = some s') : s'.Safe := by
  unfold MaskSystem.onView at h
  simp only [bind_eq_bind, bind_eq_some_iff] at h
  obtain ⟨x, hx, v, hv, heq⟩ := h
  exact some.inj heq ▸ hs.commit (hf x v hx hv)

lemma safe_childTask {stack tls : Word} (hx : x.Safe) : (childTask x child flags stack tls kernelStack).Safe :=
  ⟨hx.mask, fun _ hm => (by cases hm), trivial⟩

omit [Arch C] in
lemma Safe.childTable (hs : s.Safe) (x : SigTask C) (flags : ℕ) : (s.childTable x flags).2.Safe := by
  unfold MaskSystem.childTable
  split
  · exact hs
  · refine ⟨hs.task, hs.setTable _ ?_⟩
    split
    · exact safeAction_default
    · exact hs.table _

omit [Arch C] in
lemma Safe.childMemory (hs : s.Safe) (x : SigTask C) (flags : ℕ) : (s.childMemory x flags).2.Safe := by
  unfold MaskSystem.childMemory
  split
  · exact hs
  · exact ⟨hs.task, hs.table⟩

lemma Safe.cloneProcess {stack tls : Word} (hs : s.Safe)
    (hx : s.task t = some x) : (s.cloneProcess t child flags stack tls kernelStack x).Safe := by
  have henter := (hs.view hx).enter
  have hslots := (hs.childMemory x flags).childTable x flags
  apply Safe.setTask _ henter.leave.task
  apply Safe.setTask _ (safe_childTask henter.task)
  split
  · exact hslots
  · exact ⟨hslots.task, hslots.table⟩

/-- Every frame that `rt_sigreturn` takes from the user blocks neither `SIGKILL` nor `SIGSTOP`. -/
def Genuine (s : MaskSystem C) : MaskEvent → Prop
  | .syscall t c => ∀ x, s.task t = some x → (s.view x).enter.Genuine c
  | _ => True

instance (s : MaskSystem C) (e : MaskEvent) : Decidable (s.Genuine e) :=
  match e with
  | .syscall t c =>
    match h : s.task t with
    | none => isTrue fun _ hx => by cases h.symm.trans hx
    | some x =>
      decidable_of_iff ((s.view x).enter.Genuine c)
        ⟨fun hc _ hx => some.inj (h.symm.trans hx) ▸ hc, fun hall => hall x h⟩
  | .clone .. | .suspendRound _ | .trapReturn .. | .interrupt _ | .post .. | .compute .. | .store .. => isTrue trivial

lemma Safe.step (hs : s.Safe) (hg : s.Genuine e) (h : s.step e = some s') : s'.Safe := by
  cases e with
  | syscall t c =>
    rw [MaskSystem.step] at h
    refine hs.onView (fun x v hx hv => ?_) h
    split_ifs at hv
    cases hv
    exact (hs.view hx).syscall (hg x hx)
  | clone t child flags stack tls kernelStack =>
    obtain ⟨x, hx, hclone⟩ := bind_eq_some_iff.1 h
    split_ifs at hclone
    cases hclone
    exact hs.cloneProcess hx
  | suspendRound t =>
    rw [MaskSystem.step] at h
    refine hs.onView (fun x v hx hv => ?_) h
    have hphase := (hs.view hx).task.phase
    split at hv <;> cases hv
    next oldMask hp =>
    rw [hp] at hphase
    exact (hs.view hx).suspendRound hphase
  | trapReturn t env =>
    rw [MaskSystem.step] at h
    exact hs.onView (fun x v hx hv => (hs.view hx).trapReturn hv) h
  | interrupt t =>
    rw [MaskSystem.step] at h
    refine hs.onView (fun x v hx hv => ?_) h
    have hview := hs.view hx
    split_ifs at hv
    cases hv
    exact ⟨⟨hview.task.mask, hview.task.restore, trivial⟩, hview.table⟩
  | post t signo info | compute t mctx =>
    rw [MaskSystem.step] at h
    refine hs.onView (fun x v hx hv => ?_) h
    have hview := hs.view hx
    split_ifs at hv
    cases hv
    exact ⟨⟨hview.task.mask, hview.task.restore, hview.task.phase⟩, hview.table⟩
  | store memorySet memory =>
    cases h
    exact ⟨hs.task, hs.table⟩

omit [Arch C] in
lemma safe_initial (cx : C) (memory : UserMemory) : (initial cx memory).Safe := by
  refine ⟨fun t x hx => ?_, fun _ => safeAction_default⟩
  unfold initial at hx
  dsimp only at hx
  split_ifs at hx
  cases hx
  exact ⟨unblocking_zero, fun _ hm => (by cases hm), trivial⟩

lemma sigreturn_cases (h : s.step (.syscall t .sigreturn) = some s') :
    ∃ x, s.task t = some x ∧ ∃ x', s'.task t = some x' ∧ (∃ a0, x'.trapCx = setA0 (s.view x).enter.task.trapCx a0 ∨
        ∃ mctx, x'.trapCx = setA0 (copyFromMctx (s.view x).enter.task.trapCx mctx) a0) := by
  rw [MaskSystem.step] at h
  unfold MaskSystem.onView at h
  simp only [bind_eq_bind, bind_eq_some_iff] at h
  obtain ⟨x, hx, v, hv, heq⟩ := h
  split_ifs at hv
  cases hv
  cases heq
  refine ⟨x, hx, _, update_self _ _ _, ?_⟩
  unfold SigView.syscall SigView.call SigView.sysRtSigreturn restoreFrame
  cases hsaved : savedFrame C (s.view x).enter.memory (getSp (s.view x).enter.task.trapCx).toNat with
  | none => exact ⟨_, .inl rfl⟩
  | some frame => exact ⟨_, .inr ⟨_, rfl⟩⟩

/-- In every run in which the frames that `rt_sigreturn` takes block neither `SIGKILL` nor `SIGSTOP`, no mask of a task
does. With any frame, the status register, the kernel stack and the hart of the trap context stay as they are. -/
theorem unblockable_of_genuine {cx : C} {memory : UserMemory}
    (h : Reaches MaskSystem.step Genuine (initial cx memory) s) :
    (∀ t x, s.task t = some x → has x.sigMask SIGKILL = false ∧ has x.sigMask SIGSTOP = false) ∧
    (∀ (r r' : MaskSystem Riscv64.TrapContext) (t : ℕ), r.step (.syscall t .sigreturn) = some r' →
      ∃ x, r.task t = some x ∧ ∃ x', r'.task t = some x' ∧ x'.trapCx.sstatus = x.trapCx.sstatus ∧
        x'.trapCx.kernelStack = x.trapCx.kernelStack ∧ x'.trapCx.kernelHartid = x.trapCx.kernelHartid) ∧
    (∀ (r r' : MaskSystem Loongarch64.TrapContext) (t : ℕ), r.step (.syscall t .sigreturn) = some r' →
      ∃ x, r.task t = some x ∧ ∃ x', r'.task t = some x' ∧ x'.trapCx.sstatus = x.trapCx.sstatus ∧
        x'.trapCx.kernelStack = x.trapCx.kernelStack) := by
  have hsafe : s.Safe := h.invariant (fun _ _ _ hs hg he => hs.step hg he) (safe_initial cx memory)
  refine ⟨fun t x hx => (hsafe.task t x hx).mask, fun r r' t hr => ?_, fun r r' t hr => ?_⟩
  · obtain ⟨x, hx, x', hx', a0, hcx | ⟨mctx, hcx⟩⟩ := sigreturn_cases hr <;>
      exact ⟨x, hx, x', hx', by rw [hcx]; rfl, by rw [hcx]; rfl, by rw [hcx]; rfl⟩
  · obtain ⟨x, hx, x', hx', a0, hcx | ⟨mctx, hcx⟩⟩ := sigreturn_cases hr <;>
      exact ⟨x, hx, x', hx', by rw [hcx]; rfl, by rw [hcx]; rfl⟩

def memoryWith (addr : ℕ) (ws : List Word) : UserMemory :=
  let blank : UserMemory := ⟨fun _ => some 0, fun _ => true⟩
  (blank.writeWords addr ws).getD blank

def contextAt (sp : Word) : Riscv64.TrapContext :=
  ⟨fun i => if i.val = 2 then sp else 0, 0, 0, 0, 0, 0, ⟨fun _ => 0, 0⟩⟩

/-- A handler for `SIGTERM` that blocks every signal is installed, runs and returns. -/
def handlerReturns : List MaskEvent :=
  let env : SigView.ReturnEnv := ⟨some 0, true, 0, 0⟩
  [.syscall 0 (.sigaction SIGTERM 0x100 0 8), .trapReturn 0 env, .post 0 SIGTERM none, .interrupt 0, .trapReturn 0 env,
    .trapReturn 0 env, .trapReturn 0 env, .syscall 0 .sigreturn]

def handlerStart : MaskSystem Riscv64.TrapContext :=
  initial (contextAt 0x8000) (memoryWith 0x100 [0x5000, 0, 0, BitVec.allOnes 64])

set_option maxRecDepth 8000 in
theorem unblockable_of_genuine_handler :
    ∃ s x, Reaches MaskSystem.step Genuine handlerStart s ∧ s.task 0 = some x ∧ x.phase = .returning ∧
      has x.sigMask SIGKILL = false ∧ has x.sigMask SIGSTOP = false := by
  have hreach : Reaches MaskSystem.step Genuine handlerStart (run MaskSystem.step handlerStart handlerReturns) :=
    Reaches.run (by decide +kernel)
  have hend : ((run MaskSystem.step handlerStart handlerReturns).task 0).map SigTask.phase = some .returning := by
    decide +kernel
  obtain ⟨x, hx, hphase⟩ := map_eq_some_iff.1 hend
  exact ⟨_, x, hreach, hx, hphase, (unblockable_of_genuine hreach).1 0 x hx⟩

/-- A frame of the user whose mask has `SIGKILL` and `SIGSTOP`. -/
def forgedStart : MaskSystem Riscv64.TrapContext :=
  initial (contextAt 0x100) (memoryWith 0x100 (normalSignalFrame .disabled unblockable []))

set_option maxRecDepth 8000 in
/-- `rt_sigreturn` takes the mask of the frame as it is. -/
theorem kill_and_stop_blocked :
    ∃ s x, Reaches MaskSystem.step (fun _ _ => True) forgedStart s ∧ s.task 0 = some x ∧
      has x.sigMask SIGKILL = true ∧ has x.sigMask SIGSTOP = true := by
  have hend : ((run MaskSystem.step forgedStart [.syscall 0 .sigreturn]).task 0).map SigTask.sigMask =
      some unblockable := by
    decide +kernel
  obtain ⟨x, hx, hmask⟩ := map_eq_some_iff.1 hend
  refine ⟨_, x, Reaches.run (by decide +kernel), hx, ?_, ?_⟩ <;> rw [hmask] <;> decide

end MaskSystem

end Ya2yOS.Signal
