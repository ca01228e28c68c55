import Ya2yOS.Signal.Types

/-!
# Trap contexts

The saved registers of a task for both architectures, which the signal code sees only through `Arch`, and their images
in a signal frame. RISC-V keeps the program counter in the place of `x0`.
-/

namespace Ya2yOS.Signal

abbrev Word := BitVec 64

def Word.ofHalves (low high : BitVec 32) : Word := high ++ low

def Word.low (w : Word) : BitVec 32 := w.setWidth 32

/-- What the signal code uses of a trap context, as the target architecture defines it. -/
class Arch (C : Type) where
  getSp : C → Word
  setSp : C → Word → C
  getA0 : C → Word
  setA0 : C → Word → C
  setA1 : C → Word → C
  setA2 : C → Word → C
  setRa : C → Word → C
  setTp : C → Word → C
  getSepc : C → Word
  setSepc : C → Word → C
  originA0 : C → Word
  setOriginA0 : C → Word → C
  setKernelStack : C → Word → C
  prepareUserReturn : C → Word → C
  mctxWords : ℕ
  asMctx : C → List Word
  copyFromMctx : C → List Word → C
  fromSigaction : SigAction → List Word
  intoSigaction : List Word → SigAction

def Arch.sepcStep {C : Type} [Arch C] (cx : C) (val : Word) : C := Arch.setSepc cx (Arch.getSepc cx + val)

def SigActionFlags.fromBitsTruncate (flags : Word) : ℕ := flags.low.toNat &&& 0xfc000007

namespace Riscv64

structure FloatRegs where
  f : Fin 32 → Word
  fcsr : BitVec 32

structure TrapContext where
  gp : Fin 32 → Word
  sstatus : Word
  sepc : Word
  kernelStack : Word
  kernelHartid : Word
  originA0 : Word
  fp : FloatRegs

namespace TrapContext

/-- Writes a general register. -/
def setReg (cx : TrapContext) (i : Fin 32) (w : Word) : TrapContext := { cx with gp := Function.update cx.gp i w }

/-- The registers of a signal frame; the place of `x0` holds the program counter. -/
def asMctx (cx : TrapContext) : List Word :=
  List.ofFn (Function.update cx.gp 0 cx.sepc) ++ List.ofFn cx.fp.f ++ [.ofHalves cx.fp.fcsr 0]

/-- The registers from a signal frame. -/
def copyFromMctx (cx : TrapContext) (mctx : List Word) : TrapContext :=
  let gp : Fin 32 → Word := fun i => mctx.getD i 0
  { cx with
    gp := Function.update gp 0 0
    sepc := gp 0
    fp := ⟨fun i => mctx.getD (32 + i) 0, (mctx.getD 64 0).low⟩ }

instance : Arch TrapContext where
  getSp cx := cx.gp 2
  setSp cx := cx.setReg 2
  getA0 cx := cx.gp 10
  setA0 cx := cx.setReg 10
  setA1 cx := cx.setReg 11
  setA2 cx := cx.setReg 12
  setRa cx := cx.setReg 1
  setTp cx := cx.setReg 4
  getSepc := sepc
  setSepc cx w := { cx with sepc := w }
  originA0 := originA0
  setOriginA0 cx w := { cx with originA0 := w }
  setKernelStack cx w := { cx with kernelStack := w }
  -- `SPP` is bit 8 of the status.
  prepareUserReturn cx hart := { cx with sstatus := cx.sstatus &&& ~~~(1#64 <<< 8), kernelHartid := hart }
  mctxWords := 65
  asMctx := asMctx
  copyFromMctx := copyFromMctx
  fromSigaction act := [.ofNat 64 act.saHandler, .ofNat 64 act.saFlags, .ofNat 64 act.saRestore, act.saMask]
  intoSigaction raw := ⟨(raw.getD 0 0).toNat, SigActionFlags.fromBitsTruncate (raw.getD 1 0), (raw.getD 2 0).toNat,
    .fromBitsTruncate (raw.getD 3 0)⟩

end TrapContext

end Riscv64

namespace Loongarch64

structure FloatRegs where
  f : Fin 64 → Word
  fcsr : BitVec 32
  fcc : BitVec 8

structure TrapContext where
  gp : Fin 32 → Word
  fp : FloatRegs
  originA0 : Word
  sstatus : Word
  kernelStack : Word

namespace TrapContext

def setReg (cx : TrapContext) (i : Fin 32) (w : Word) : TrapContext := { cx with gp := Function.update cx.gp i w }

def userReturnPrmd (bits : Word) : Word := bits &&& ~~~3#64 ||| 3 ||| 1 <<< 2

/-- The registers of a signal frame. -/
def asMctx (cx : TrapContext) : List Word :=
  List.ofFn cx.gp ++ List.ofFn cx.fp.f ++ [.ofHalves cx.fp.fcsr (cx.fp.fcc.setWidth 32), 0]

/-- The registers from a signal frame. -/
def copyFromMctx (cx : TrapContext) (mctx : List Word) : TrapContext :=
  let flags := mctx.getD 96 0
  { cx with
    gp := fun i => mctx.getD i 0
    fp := ⟨fun i => mctx.getD (32 + i) 0, flags.low, (flags >>> 32).setWidth 8⟩ }

instance : Arch TrapContext where
  getSp cx := cx.gp 3
  setSp cx := cx.setReg 3
  getA0 cx := cx.gp 4
  setA0 cx := cx.setReg 4
  setA1 cx := cx.setReg 5
  setA2 cx := cx.setReg 6
  setRa cx := cx.setReg 1
  setTp cx := cx.setReg 2
  getSepc cx := cx.gp 0
  setSepc cx := cx.setReg 0
  originA0 := originA0
  setOriginA0 cx w := { cx with originA0 := w }
  setKernelStack cx w := { cx with kernelStack := w }
  prepareUserReturn cx _ := { cx with sstatus := userReturnPrmd cx.sstatus }
  mctxWords := 98
  asMctx := asMctx
  copyFromMctx := copyFromMctx
  fromSigaction act := [.ofNat 64 act.saHandler, .ofNat 64 act.saFlags, act.saMask, 0]
  intoSigaction raw := ⟨(raw.getD 0 0).toNat, SigActionFlags.fromBitsTruncate (raw.getD 1 0), 0,
    .fromBitsTruncate (raw.getD 2 0)⟩

end TrapContext

end Loongarch64

end Ya2yOS.Signal
