import Mathlib.Algebra.Order.Ring.Nat
import Mathlib.Data.Nat.Bitwise

/-!
# Signals

Sets of signals as words of 64 bits, the actions of signals, and what a signal does by default. A set names the
signals from 1 to 33 only: `from_sig` of a higher number is the empty set.
-/

namespace Ya2yOS.Signal

open BitVec

def SIGKILL : ℕ := 9
def SIGTERM : ℕ := 15
def SIGCHLD : ℕ := 17
def SIGSTOP : ℕ := 19

/-- A set of signals; the signal `n` is bit `n - 1`. -/
abbrev SigSet := BitVec 64

namespace SigSet

/-- The signals that `SigSet` names. -/
def all : SigSet := BitVec.ofNat 64 (2 ^ 33 - 1)

def fromBitsTruncate (bits : BitVec 64) : SigSet := bits &&& all

/-- The set of one signal, empty above 33. -/
def fromSig (signo : ℕ) : SigSet := fromBitsTruncate (1#64 <<< (signo - 1))

def remove (s t : SigSet) : SigSet := s &&& ~~~t

def complement (s : SigSet) : SigSet := fromBitsTruncate (~~~s)

def has (s : SigSet) (signo : ℕ) : Bool := decide (0 < signo) && s.getLsbD (signo - 1)

/-- The least signal of a set. -/
def peekFront (s : SigSet) : Option ℕ := ((List.range 64).find? fun i => s.getLsbD i).map (· + 1)

variable {s t : SigSet} {n m : ℕ}

lemma has_or : has (s ||| t) n = (has s n || has t n) := by
  unfold has
  rw [getLsbD_or, Bool.and_or_distrib_left]

lemma has_remove : has (remove s t) n = (has s n && !has t n) := by
  unfold has remove
  rw [getLsbD_and, getLsbD_not]
  by_cases hn : 0 < n
  · by_cases hlt : n - 1 < 64
    · simp [hn, hlt]
    · rw [getLsbD_of_ge s _ (by omega)]
      simp
  · simp [hn]

lemma getLsbD_all (i : ℕ) : all.getLsbD i = decide (i < 33) := by
  unfold all
  rw [getLsbD_ofNat, Nat.testBit_two_pow_sub_one]
  by_cases hi : i < 33
  · simp [hi, show i < 64 by omega]
  · simp [hi]

lemma has_fromBitsTruncate : has (fromBitsTruncate s) n = (has s n && decide (n ≤ 33)) := by
  unfold has fromBitsTruncate
  rw [getLsbD_and, getLsbD_all]
  by_cases hn : 0 < n
  · have : n - 1 < 33 ↔ n ≤ 33 := by omega
    simp [hn, this]
  · simp [hn]

lemma has_fromSig (hm : 0 < m) : has (fromSig m) n = (decide (n = m) && decide (n ≤ 33)) := by
  unfold fromSig
  rw [has_fromBitsTruncate]
  unfold has
  rw [getLsbD_shiftLeft, getLsbD_one]
  by_cases hnm : n = m
  · subst hnm
    by_cases hle : n ≤ 33
    · simp [hm, hle, show n - 1 < 64 by omega]
    · simp [hle]
  · by_cases hn : 0 < n
    · by_cases hlt : n - 1 < m - 1
      · simp [hnm, hlt]
      · simp [hnm, show n - 1 - (m - 1) ≠ 0 by omega]
    · simp [hn, hnm]

lemma pos_of_has (h : has s n = true) : 0 < n := of_decide_eq_true (Bool.and_eq_true_iff.1 h).1

lemma has_of_peekFront (h : s.peekFront = some n) : has s n = true := by
  obtain ⟨i, hi, rfl⟩ := Option.map_eq_some_iff.1 h
  have := List.find?_some hi
  unfold has
  simpa using this

lemma not_has_of_peekFront (h : s.peekFront = none) : has s n = false := by
  unfold peekFront at h
  rw [Option.map_eq_none_iff, List.find?_eq_none] at h
  unfold has
  by_cases hn : n - 1 < 64
  · have := h (n - 1) (List.mem_range.2 hn)
    simp [this]
  · rw [getLsbD_of_ge s _ (by omega), Bool.and_false]

end SigSet

namespace SigActionFlags

def SA_SIGINFO : ℕ := 4
def SA_RESTORER : ℕ := 0x04000000
def SA_ONSTACK : ℕ := 0x08000000
def SA_RESTART : ℕ := 0x10000000
def SA_NODEFER : ℕ := 0x40000000
def SA_RESETHAND : ℕ := 0x80000000

end SigActionFlags

/-- The action as user code passes it. -/
structure SigAction where
  saHandler : ℕ
  saFlags : ℕ
  saRestore : ℕ
  saMask : SigSet
deriving DecidableEq, Repr

def SigAction.contains (act : SigAction) (flag : ℕ) : Bool := act.saFlags &&& flag = flag

/-- What is done on a signal: the default, nothing, or a call of the handler. -/
inductive SigDisposition where
  | default
  | ignore
  | handler
deriving DecidableEq, Repr

/-- An action with its disposition. -/
structure KSigAction where
  act : SigAction
  disposition : SigDisposition
deriving DecidableEq, Repr

namespace KSigAction

def defaultAction : KSigAction := ⟨⟨0, 0, 0, 0⟩, .default⟩

def ignore : KSigAction := ⟨⟨1, 0, 0, 0⟩, .ignore⟩

def handler (act : SigAction) : KSigAction := ⟨act, .handler⟩

def isIgnored (a : KSigAction) : Bool := a.disposition = .ignore

def isHandler (a : KSigAction) : Bool := a.disposition = .handler

end KSigAction

/-- What a signal does by default. -/
inductive SigOp where
  | terminate
  | coreDump
  | ignore
  | stop
  | continue
deriving DecidableEq, Repr

/-- The default of each signal; unknown ones terminate. -/
def defaultOp (signo : ℕ) : SigOp :=
  if signo ∈ [1, 2, 9, 10, 12, 13, 14, 15, 16, 26, 27, 29, 30] then .terminate
  else if signo ∈ [3, 4, 5, 6, 7, 8, 11, 24, 25, 31] then .coreDump
  else if signo ∈ [17, 23, 28] then .ignore
  else if signo ∈ [19, 20, 21, 22] then .stop
  else if signo = 18 then .continue
  else .terminate

/-- The signal is ignored, by request or by default. -/
def KSigAction.ignores (a : KSigAction) (signo : ℕ) : Bool :=
  a.isIgnored || (!a.isHandler && defaultOp signo = .ignore)

end Ya2yOS.Signal
