import Mathlib.Algebra.Order.Ring.Nat
import Mathlib.Data.List.Basic

/-!
# Seccomp filters

The part of classic BPF that `prctl` accepts: load the number of the call, compare it, return. The other states of
`SeccompState` are left out.
-/

namespace Ya2yOS.Task

structure SockFilter where
  code : UInt16
  jt : UInt8
  jf : UInt8
  k : UInt32
deriving DecidableEq

def SECCOMP_FILTER_MAX_INSNS : ℕ := 4096

def BPF_LD_W_ABS : UInt16 := 0x20

def BPF_JMP_JEQ_K : UInt16 := 0x15

def BPF_RET_K : UInt16 := 0x06

def validateInstruction (len pc : ℕ) (i : SockFilter) : Bool :=
  if i.code = BPF_LD_W_ABS ∧ i.k = 0 then true
  else if i.code = BPF_JMP_JEQ_K then pc + 1 + i.jt.toNat < len && pc + 1 + i.jf.toNat < len
  else i.code = BPF_RET_K

def validateFilter (program : List SockFilter) : Bool :=
  !program.isEmpty && program.length ≤ SECCOMP_FILTER_MAX_INSNS &&
    (program.zipIdx.all fun p => validateInstruction program.length p.2 p.1) &&
    program.getLast?.any fun i => i.code = BPF_RET_K

def runLoop (program : List SockFilter) (syscallNr : UInt32) : (rounds pc : ℕ) → (accumulator : UInt32) → Option UInt32
  | 0, _, _ => none
  | rounds + 1, pc, accumulator => do
    let i ← program[pc]?
    if i.code = BPF_LD_W_ABS ∧ i.k = 0 then runLoop program syscallNr rounds (pc + 1) syscallNr
    else if i.code = BPF_JMP_JEQ_K then
      let offset := if accumulator = i.k then i.jt else i.jf
      if pc + (1 + offset.toNat) < 2 ^ 64 then runLoop program syscallNr rounds (pc + (1 + offset.toNat)) accumulator
      else none
    else if i.code = BPF_RET_K then some i.k
    else none

def runFilter (program : List SockFilter) (syscallNr : UInt32) : Option UInt32 :=
  runLoop program syscallNr program.length 0 0

/-- What a program of loads, comparisons and returns means, from instruction `pc` on. -/
inductive Evaluates (program : List SockFilter) (syscallNr : UInt32) : ℕ → UInt32 → UInt32 → Prop
  | load {pc : ℕ} {a v : UInt32} {i : SockFilter} (hi : program[pc]? = some i) (hc : i.code = BPF_LD_W_ABS)
      (h : Evaluates program syscallNr (pc + 1) syscallNr v) : Evaluates program syscallNr pc a v
  | jump {pc : ℕ} {a v : UInt32} {i : SockFilter} (hi : program[pc]? = some i) (hc : i.code = BPF_JMP_JEQ_K)
      (h : Evaluates program syscallNr (pc + (1 + (if a = i.k then i.jt else i.jf).toNat)) a v) :
      Evaluates program syscallNr pc a v
  | ret {pc : ℕ} {a : UInt32} {i : SockFilter} (hi : program[pc]? = some i) (hc : i.code = BPF_RET_K) :
      Evaluates program syscallNr pc a i.k

variable {program : List SockFilter} {syscallNr : UInt32} {pc : ℕ} {i : SockFilter}

/-- An instruction of an accepted program is a load, or stays inside with what comes after it, or returns; the last
one returns. -/
lemma validateFilter_cases (h : validateFilter program = true) (hi : program[pc]? = some i) :
    i.code = BPF_LD_W_ABS ∧ i.k = 0 ∧ pc + 1 < program.length ∨
      i.code = BPF_JMP_JEQ_K ∧ pc + 1 + i.jt.toNat < program.length ∧ pc + 1 + i.jf.toNat < program.length ∨
      i.code = BPF_RET_K := by
  simp only [validateFilter, Bool.and_eq_true, List.all_eq_true] at h
  obtain ⟨⟨-, hall⟩, hlast⟩ := h
  have hok := hall (i, pc) (List.mk_mem_zipIdx_iff_getElem?.2 hi)
  have hlt : pc < program.length := (List.getElem?_eq_some_iff.1 hi).1
  simp only [validateInstruction] at hok
  split_ifs at hok with hload hjump
  · left
    refine ⟨hload.1, hload.2, ?_⟩
    by_contra hend
    rw [List.getLast?_eq_getElem?, show program.length - 1 = pc by omega, hi] at hlast
    simp only [Option.any_some, decide_eq_true_eq, hload.1] at hlast
    exact absurd hlast (by decide)
  · simp only [Bool.and_eq_true, decide_eq_true_eq] at hok
    exact .inr (.inl ⟨hjump, hok⟩)
  · exact .inr (.inr (by simpa using hok))

lemma exists_evaluates (h : validateFilter program = true) (nr : UInt32) (n : ℕ) : ∀ pc a, pc < program.length →
    program.length ≤ pc + n → ∃ v, Evaluates program nr pc a v := by
  -- every instruction but a return goes on nearer to the end
  induction n with
  | zero => intro pc a hlt hn; omega
  | succ n ih =>
    intro pc a hlt hn
    have hi := List.getElem?_eq_getElem hlt
    rcases validateFilter_cases h hi with ⟨hc, -, hnext⟩ | ⟨hc, hjt, hjf⟩ | hc
    · obtain ⟨v, hv⟩ := ih (pc + 1) nr hnext (by omega)
      exact ⟨v, .load hi hc hv⟩
    · obtain ⟨v, hv⟩ := ih (pc + (1 + (if a = program[pc].k then program[pc].jt else program[pc].jf).toNat)) a
        (by split_ifs <;> omega) (by omega)
      exact ⟨v, .jump hi hc hv⟩
    · exact ⟨_, .ret hi hc⟩

lemma Evaluates.runLoop_eq (h : validateFilter program = true) {nr a v : UInt32} (he : Evaluates program nr pc a v)
    (rounds : ℕ) (hr : program.length ≤ pc + rounds) : runLoop program nr rounds pc a = some v := by
  have hsize : program.length ≤ 4096 := by
    simp only [validateFilter, Bool.and_eq_true, decide_eq_true_eq] at h
    exact h.1.1.2
  induction he generalizing rounds with
  | load hi hc _ ih =>
    obtain ⟨hlt, -⟩ := List.getElem?_eq_some_iff.1 hi
    obtain ⟨rounds, rfl⟩ := Nat.exists_eq_succ_of_ne_zero (show rounds ≠ 0 by omega)
    have hk := (validateFilter_cases h hi).resolve_right (by
      rintro (⟨hc', -⟩ | hc') <;> exact absurd (hc.symm.trans hc') (by decide))
    simp [runLoop, hi, hc, hk.2.1, ih rounds (by omega)]
  | @jump pc a v i hi hc _ ih =>
    obtain ⟨hlt, -⟩ := List.getElem?_eq_some_iff.1 hi
    obtain ⟨rounds, rfl⟩ := Nat.exists_eq_succ_of_ne_zero (show rounds ≠ 0 by omega)
    have hshort := (if a = i.k then i.jt else i.jf).toNat_lt
    have hload : ¬(i.code = BPF_LD_W_ABS ∧ i.k = 0) := fun hl => absurd (hc.symm.trans hl.1) (by decide)
    simp only [runLoop, hi, Option.bind_eq_bind, Option.bind_some, if_neg hload, if_pos hc]
    rw [if_pos (by omega)]
    exact ih rounds (by omega)
  | ret hi hc =>
    obtain ⟨hlt, -⟩ := List.getElem?_eq_some_iff.1 hi
    obtain ⟨rounds, rfl⟩ := Nat.exists_eq_succ_of_ne_zero (show rounds ≠ 0 by omega)
    simp [runLoop, hi, hc, BPF_LD_W_ABS, BPF_JMP_JEQ_K, BPF_RET_K]

/-- An accepted program returns, on every call, the one value that it means. -/
theorem filter_decides (h : validateFilter program = true) (syscallNr : UInt32) :
    ∃ v, runFilter program syscallNr = some v ∧ ∀ w, Evaluates program syscallNr 0 0 w ↔ w = v := by
  have hpos : 0 < program.length := by
    simp only [validateFilter, Bool.and_eq_true] at h
    exact List.length_pos_iff.2 (by simpa using h.1.1.1)
  obtain ⟨v, hv⟩ := exists_evaluates h syscallNr program.length 0 0 hpos (by omega)
  have hrun := hv.runLoop_eq h program.length (by omega)
  refine ⟨v, hrun, fun w => ⟨fun hw => ?_, fun hw => hw ▸ hv⟩⟩
  exact Option.some.inj ((hw.runLoop_eq h program.length (by omega)).symm.trans hrun)

/-- Load the number, allow call 64 and refuse every other. -/
def allowWrite : List SockFilter := [⟨0x20, 0, 0, 0⟩, ⟨0x15, 0, 1, 64⟩, ⟨0x06, 0, 0, 0x7fff0000⟩, ⟨0x06, 0, 0, 0x30000⟩]

theorem filter_decides_allowWrite : validateFilter allowWrite = true ∧
    ∃ v, runFilter allowWrite 64 = some v ∧ ∀ w, Evaluates allowWrite 64 0 0 w ↔ w = v :=
  ⟨by decide, filter_decides (by decide) 64⟩

end Ya2yOS.Task
