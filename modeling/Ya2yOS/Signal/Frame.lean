import Ya2yOS.Signal.TrapContext
import Ya2yOS.Utils.SysErrNo

/-!
# Signal frames

`setup_frame` writes the interrupted context into the user stack; `restore_frame` takes back what it finds there. A
write that fails, or that is not read back, ends the task.
-/

namespace Ya2yOS.Signal

open Arch

/-- The mapped bytes of a process, and those it may write. -/
structure UserMemory where
  byte : ℕ → Option (BitVec 8)
  writable : ℕ → Bool

namespace UserMemory

def readWord (m : UserMemory) (addr : ℕ) : Option Word :=
  ((List.range 8).mapM fun i => m.byte (addr + i)).map fun bytes =>
    bytes.foldr (fun b w => w <<< 8 ||| b.setWidth 64) 0

def readWords (m : UserMemory) (addr n : ℕ) : Option (List Word) :=
  (List.range n).mapM fun i => m.readWord (addr + 8 * i)

def canWrite (m : UserMemory) (addr len : ℕ) : Bool :=
  (List.range len).all fun i => (m.byte (addr + i)).isSome && m.writable (addr + i)

/-- Little endian; nothing is written unless every byte can be. -/
def writeWords (m : UserMemory) (addr : ℕ) (ws : List Word) : Option UserMemory :=
  let byte := fun a =>
    if addr ≤ a ∧ a < addr + 8 * ws.length then
      some ((ws.getD ((a - addr) / 8) 0 >>> (8 * ((a - addr) % 8))).setWidth 8)
    else m.byte a
  if m.canWrite addr (8 * ws.length) then some { m with byte := byte } else none

end UserMemory

/-- `stack_t`: the alternate stack of a task. -/
structure SignalStack where
  sp : ℕ
  flags : BitVec 32
  size : ℕ
deriving DecidableEq

namespace SignalStack

def ONSTACK : BitVec 32 := 1
def DISABLE : BitVec 32 := 2
def AUTODISARM : BitVec 32 := 0x80000000
def MINSIGSTKSZ : ℕ := 2048

def disabled : SignalStack := ⟨0, DISABLE, 0⟩

def isDisabled (st : SignalStack) : Bool := st.size = 0

def isAutodisarm (st : SignalStack) : Bool := st.flags &&& AUTODISARM ≠ 0

/-- The stack grows down, so its top counts and its base does not. -/
def isOnStack (st : SignalStack) (sp : ℕ) : Bool :=
  !st.isDisabled && !st.isAutodisarm && decide (st.sp < sp) && decide (sp - st.sp ≤ st.size)

def shouldSwitchForSignal (st : SignalStack) (sp : ℕ) : Bool := !st.isDisabled && !st.isOnStack sp

def stackTop (st : SignalStack) : Option ℕ := if st.sp + st.size < 2 ^ 64 then some (st.sp + st.size) else none

/-- What `sigaltstack` reports as the old stack. -/
def userView (st : SignalStack) (sp : ℕ) : SignalStack :=
  { st with flags := (st.flags &&& AUTODISARM) |||
      if st.isDisabled then DISABLE else if st.isOnStack sp then ONSTACK else 0 }

/-- `sigaltstack` with a new stack. -/
def replaceFromUser (st requested : SignalStack) (sp : ℕ) : Except SysErrNo SignalStack :=
  let mode := requested.flags &&& ~~~AUTODISARM
  if st.isOnStack sp then .error .EPERM
  else if mode ≠ 0 ∧ mode ≠ DISABLE ∧ mode ≠ ONSTACK then .error .EINVAL
  else if mode = DISABLE then .ok ⟨0, requested.flags, 0⟩
  else if requested.size < MINSIGSTKSZ then .error .ENOMEM
  else .ok ⟨requested.sp, requested.flags, requested.size⟩

def words (st : SignalStack) : List Word := [.ofNat 64 st.sp, .ofHalves st.flags 0, .ofNat 64 st.size]

def ofWords (ws : List Word) : SignalStack := ⟨(ws.getD 0 0).toNat, (ws.getD 1 0).low, (ws.getD 2 0).toNat⟩

end SignalStack

structure SigInfo where
  siSigno : BitVec 32
  siErrno : BitVec 32
  siCode : BitVec 32
  siPid : BitVec 32
  siUid : BitVec 32
  siStatus : BitVec 32
deriving DecidableEq

def SigInfo.words (info : SigInfo) : List Word :=
  [.ofHalves info.siSigno info.siErrno, .ofHalves info.siCode 0, .ofHalves info.siPid info.siUid,
    .ofHalves info.siStatus 0] ++ List.replicate 12 0

inductive SigPhase where
  | user
  /-- In the loop of `rt_sigsuspend`, with the mask from before the call. -/
  | suspended (oldMask : SigSet)
  /-- In the loop of `trap_return`: a signal chosen, and its action read. -/
  | returning
  | chosen (signo : ℕ) (hasHandler : Bool)
  | handling (signo : ℕ) (hasHandler : Bool) (action : KSigAction)
  | exited
deriving DecidableEq

/-- The fields of a task that the delivery of signals reads and writes. -/
structure SigTask (C : Type) where
  process : ℕ
  phase : SigPhase
  sigMask : SigSet
  sigPending : SigSet
  sigPendingInfo : ℕ → Option SigInfo
  sigsuspendRestoreMask : Option SigSet
  altSignalStack : SignalStack
  trapCx : C

variable {C : Type} [Arch C]

def SIGNAL_STACK_ALIGN : ℕ := 16
def SIGNAL_FRAME_MAGIC : Word := 0xdeadbeef
def USER_STACK_SIZE : ℕ := 8 * 1024 * 1024
def SIGINFO_FLAG : Word := BitVec.allOnes 64

/-- A frame for a handler without SA_SIGINFO. -/
def normalSignalFrame (stack : SignalStack) (sigmask : SigSet) (mcontext : List Word) : List Word :=
  [SIGNAL_FRAME_MAGIC, 0] ++ stack.words ++ [sigmask] ++ mcontext

def userContext (stack : SignalStack) (sigmask : SigSet) (mcontext : List Word) : List Word :=
  [0, 0] ++ stack.words ++ [sigmask] ++ List.replicate 16 0 ++ mcontext

/-- A frame with `siginfo_t` and `ucontext_t`. -/
def sigInfoSignalFrame (info : SigInfo) (ucontext : List Word) : List Word :=
  [SIGNAL_FRAME_MAGIC, SIGINFO_FLAG] ++ info.words ++ ucontext

/-- The stack pointer from which the frame grows and the lowest address it may reach; `area` is the start of the area
that holds the interrupted stack pointer. -/
def frameStack (t : SigTask C) (act : SigAction) (area : Option ℕ) : Option (ℕ × ℕ) :=
  let sp := (getSp t.trapCx).toNat
  if act.contains SigActionFlags.SA_ONSTACK && t.altSignalStack.shouldSwitchForSignal sp then
    t.altSignalStack.stackTop.map fun top => (top, t.altSignalStack.sp)
  else if t.altSignalStack.isOnStack sp then some (sp, t.altSignalStack.sp)
  else some (sp, area.getD (sp - USER_STACK_SIZE))

/-- An interrupted call is restarted, or returns EINTR. -/
def restartContext (act : SigAction) (cx : C) : C :=
  if getA0 cx = -BitVec.ofNat 64 SysErrNo.ERESTART.code then
    if act.contains SigActionFlags.SA_RESTART then setA0 (sepcStep cx (-4)) (originA0 cx)
    else setA0 cx (-BitVec.ofNat 64 SysErrNo.EINTR.code)
  else cx

/-- The registers with which the handler starts. -/
def handlerContext (sigreturnVa : Word) (signo : ℕ) (act : SigAction) (start : ℕ) (cx : C) : C :=
  let cx :=
    if act.contains SigActionFlags.SA_SIGINFO then
      setA1 (setA2 cx (.ofNat 64 (start + 16 + 128))) (.ofNat 64 (start + 16))
    else cx
  let cx := setSepc (setSp (setA0 cx (.ofNat 64 signo)) (.ofNat 64 start)) (.ofNat 64 act.saHandler)
  setRa cx (if act.contains SigActionFlags.SA_RESTORER then .ofNat 64 act.saRestore else sigreturnVa)

/-- The mask while the handler runs. -/
def handlerMask (signo : ℕ) (act : SigAction) (active : SigSet) : SigSet :=
  active ||| if act.contains SigActionFlags.SA_NODEFER then act.saMask else act.saMask ||| .fromSig signo

def frameImage (signo : ℕ) (act : SigAction) (info : Option SigInfo) (stack : SignalStack) (mask : SigSet) (cx : C) :
    List Word :=
  if act.contains SigActionFlags.SA_SIGINFO then
    sigInfoSignalFrame (info.getD ⟨.ofNat 32 signo, 0, 0, 0, 0, 0⟩) (userContext stack mask (asMctx cx))
  else normalSignalFrame stack mask (asMctx cx)

/-- `setup_frame`; `none` if the frame cannot be written. -/
def setupFrame (sigreturnVa : Word) (signo : ℕ) (act : SigAction) (info : Option SigInfo) (area : Option ℕ)
    (t : SigTask C) (m : UserMemory) : Option (SigTask C × UserMemory) := do
  -- Only the first frame after `rt_sigsuspend` saves the mask from before the call.
  let restoreMask := t.sigsuspendRestoreMask.getD t.sigMask
  let (userSp, stackBottom) ← frameStack t act area
  let cx := restartContext act t.trapCx
  let frame := frameImage signo act info t.altSignalStack restoreMask cx
  let start := (userSp - 8 * frame.length) / SIGNAL_STACK_ALIGN * SIGNAL_STACK_ALIGN
  guard (8 * frame.length ≤ userSp ∧ stackBottom ≤ start ∧ m.canWrite start (userSp - start) = true)
  let m ← m.writeWords start frame
  some ({ t with
    trapCx := handlerContext sigreturnVa signo act start cx
    sigMask := handlerMask signo act t.sigMask
    sigsuspendRestoreMask := none
    altSignalStack := if t.altSignalStack.isAutodisarm then .disabled else t.altSignalStack }, m)

/-- What a frame holds, if its magic is right and it can be read. -/
def savedFrame (C : Type) [Arch C] (m : UserMemory) (sp : ℕ) : Option (SignalStack × SigSet × List Word) := do
  let magic ← m.readWord sp
  guard (magic = SIGNAL_FRAME_MAGIC)
  let flag ← m.readWord (sp + 8)
  if flag ≠ SIGINFO_FLAG then
    let stack ← m.readWords (sp + 16) 3
    let mask ← m.readWord (sp + 40)
    let mctx ← m.readWords (sp + 48) (mctxWords C)
    some (.ofWords stack, mask, mctx)
  else
    let uctx ← m.readWords (sp + 16 + 128) (22 + mctxWords C)
    some (.ofWords (uctx.drop 2), uctx.getD 5 0, uctx.drop 22)

/-- `sigreturn`. -/
def restoreFrame (t : SigTask C) (m : UserMemory) : Except SysErrNo (SigTask C × Word) :=
  match savedFrame C m (getSp t.trapCx).toNat with
  | none => .error .EINVAL
  | some (stack, mask, mctx) =>
    let cx := copyFromMctx t.trapCx mctx
    let alt := match t.altSignalStack.replaceFromUser stack (getSp cx).toNat with
      | .ok alt => alt
      | .error _ => t.altSignalStack
    .ok ({ t with sigMask := mask, trapCx := cx, altSignalStack := alt }, getA0 cx)

end Ya2yOS.Signal
