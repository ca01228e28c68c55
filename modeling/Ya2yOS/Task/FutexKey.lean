import Mathlib.Data.Nat.Bitwise
import Ya2yOS.Task.Futex

/-!
# Queue keys

A shared futex is filed under its physical address, a private one under the exclusive or of the page table token and
the user address. These numbers may meet.
-/

namespace Ya2yOS.Task

open Function Lib Option List

/-- What `sys_futex` knows of a futex word: whether the call is private, the root page number of the
caller's page table, the user address, and the physical address it is translated to. -/
structure FutexCall where
  isPrivate : Bool
  token : ℕ
  uaddr : ℕ
  pa : ℕ
deriving DecidableEq, Repr

def futexQueueKey (isPrivate : Bool) (memoryToken uaddr pa : ℕ) : ℕ :=
  if isPrivate then memoryToken ^^^ uaddr else pa

namespace FutexCall

def key (c : FutexCall) : ℕ := futexQueueKey c.isPrivate c.token c.uaddr c.pa

def Same (a b : FutexCall) : Prop :=
  a.isPrivate = b.isPrivate ∧ if a.isPrivate then a.token = b.token ∧ a.uaddr = b.uaddr else a.pa = b.pa

lemma xor_cross {a b c d : ℕ} : a ^^^ b = c ^^^ d ↔ a ^^^ c = b ^^^ d := by
  have hcross : ∀ {a b c d : ℕ}, a ^^^ b = c ^^^ d → a ^^^ c = b ^^^ d := by
    intro a b c d h
    apply Nat.eq_of_testBit_eq
    intro i
    have hi := congrArg (fun n => n.testBit i) h
    simp only [Nat.testBit_xor] at hi ⊢
    revert hi
    cases a.testBit i <;> cases b.testBit i <;> cases c.testBit i <;> cases d.testBit i <;> decide
  exact ⟨hcross, hcross⟩

/-- No exclusive or of a token and an address meets another one, or a physical address in use. -/
def Isolated (F : Set FutexCall) : Prop :=
  ∀ a ∈ F, ∀ b ∈ F, a.isPrivate = true →
    (b.isPrivate = true → a.token ≠ b.token → a.token ^^^ b.token ≠ a.uaddr ^^^ b.uaddr) ∧
    (b.isPrivate = false → a.token ^^^ a.uaddr ≠ b.pa)

variable {F : Set FutexCall}

lemma Isolated.same (h : Isolated F) {a b : FutexCall} (ha : a ∈ F) (hb : b ∈ F) (hkey : a.key = b.key) : a.Same b := by
  unfold key futexQueueKey at hkey
  cases hpa : a.isPrivate <;> cases hpb : b.isPrivate <;>
    simp only [hpa, hpb, if_true, Bool.false_eq_true, if_false] at hkey
  · exact ⟨hpa.trans hpb.symm, by simpa [hpa] using hkey⟩
  · exact absurd hkey.symm ((h b hb a ha hpb).2 hpa)
  · exact absurd hkey ((h a ha b hb hpa).2 hpb)
  · by_cases htoken : a.token = b.token
    · rw [htoken, Nat.xor_right_inj] at hkey
      exact ⟨hpa.trans hpb.symm, by simpa [hpa] using ⟨htoken, hkey⟩⟩
    · exact absurd (xor_cross.1 hkey) ((h a ha b hb hpa).1 hpb htoken)

/-- Private futexes of one address space, or shared ones. -/
def SameSpace (a b : FutexCall) : Prop := a.isPrivate = b.isPrivate ∧ (a.isPrivate = true → a.token = b.token)

lemma Same.sameSpace {a b : FutexCall} (h : a.Same b) : a.SameSpace b := by
  refine ⟨h.1, fun hp => ?_⟩
  have h2 := h.2
  rw [if_pos hp] at h2
  exact h2.1

lemma SameSpace.trans {a b c : FutexCall} (h : a.SameSpace b) (h' : b.SameSpace c) : a.SameSpace c :=
  ⟨h.1.trans h'.1, fun hp => (h.2 hp).trans (h'.2 (h.1 ▸ hp))⟩

instance (a b : FutexCall) : Decidable (a.SameSpace b) := inferInstanceAs (Decidable (_ ∧ _))

end FutexCall

/-! ### Calls by name -/

/-- What happens to waiters: a thread enters the queue of a futex, or a requeue moves waiters to another futex. -/
inductive FutexMove where
  | entered (t : ℕ) (f : FutexCall)
  | requeued (src dst : FutexCall)

/-- A waiter of thread `t` has come to futex `g`: by its wait, or by a requeue that names the futex it was on. The last
move comes first. -/
def Came : List FutexMove → ℕ → FutexCall → Prop
  | [], _, _ => False
  | m :: moves, t, g =>
    Came moves t g ∨ m = .entered t g ∨ ∃ src f, m = .requeued src g ∧ f.Same src ∧ Came moves t f

lemma Came.step {moves : List FutexMove} {t : ℕ} {f : FutexCall} (h : Came moves t f) (ms : List FutexMove) :
    Came (ms ++ moves) t f := by
  induction ms with
  | nil => exact h
  | cons m ms ih => exact .inl ih

/-- A waiter stays in the space and kind of the futex that it waited on. -/
lemma Came.entered {moves : List FutexMove} {t : ℕ} {g : FutexCall}
    (hm : ∀ src dst, .requeued src dst ∈ moves → src.SameSpace dst) (h : Came moves t g) :
    ∃ f, .entered t f ∈ moves ∧ f.SameSpace g := by
  induction moves generalizing g with
  | nil => cases h
  | cons m moves ih =>
    have hback : ∀ {g}, Came moves t g → ∃ f, .entered t f ∈ m :: moves ∧ f.SameSpace g := fun h =>
      (ih (fun src dst hmem => hm src dst (mem_cons_of_mem m hmem)) h).imp fun f hf =>
        ⟨mem_cons_of_mem m hf.1, hf.2⟩
    rcases h with h | rfl | ⟨src, f, rfl, hsame, h⟩
    · exact hback h
    · exact ⟨g, mem_cons_self, rfl, fun _ => rfl⟩
    · obtain ⟨f', hf', hspace⟩ := hback h
      exact ⟨f', hf', hspace.trans (hsame.sameSpace.trans (hm src g mem_cons_self))⟩

/-- The system, the futexes that the last call of each thread named, and the moves so far. -/
structure FutexCalls where
  sys : FutexState
  named : ℕ → FutexCall × FutexCall
  moves : List FutexMove

namespace FutexCalls

def start (mem : ℕ → Option ℤ) : FutexCalls := ⟨.initial mem, fun _ => (⟨false, 0, 0, 0⟩, ⟨false, 0, 0, 0⟩), []⟩

/-- A call works on the keys of the futexes that it names; those of a requeue have the caller's space and kind. -/
def Names : FutexEvent → FutexCall × FutexCall → Prop
  | .wait _ w, f => w.queueKey = f.1.key
  | .wake _ pa _ _, f => pa = f.1.key
  | .requeue _ oldPa _ newPa _, f => oldPa = f.1.key ∧ newPa = f.2.key ∧ f.1.SameSpace f.2
  | _, _ => True

instance (e : FutexEvent) (f : FutexCall × FutexCall) : Decidable (Names e f) := by
  cases e <;> unfold Names <;> infer_instance

/-- The call that an event begins. -/
def caller : FutexEvent → Option ℕ
  | .wait t _ | .wake t _ _ _ | .requeue t _ _ _ _ => some t
  | _ => none

/-- The move that an event makes: a wait that is published, or the scan of a requeue. -/
def move (s : FutexCalls) : FutexEvent → List FutexMove
  | .enqueue t => if (s.sys.tasks t).deliverable then [] else [.entered t (s.named t).1]
  | .rescan t => [.requeued (s.named t).1 (s.named t).2]
  | _ => []

/-- A step with the futexes that its call names. -/
def step (s : FutexCalls) (e : FutexEvent × FutexCall × FutexCall) : Option FutexCalls :=
  if Names e.1 e.2 then
    (s.sys.step e.1).map fun sys =>
      ⟨sys, (caller e.1).elim s.named fun t => update s.named t e.2, s.move e.1 ++ s.moves⟩
  else none

end FutexCalls

def FutexPc.keys : FutexPc → Option (ℕ × ℕ)
  | rescan oldPa _ newPa _ => some (oldPa, newPa)
  | _ => none

namespace FutexState

variable {s s' : FutexState} {e : FutexEvent} {u key pa : ℕ} {n : ℤ} {w : FutexWaiter}

end FutexState

namespace FutexCalls

variable {s s' : FutexCalls} {e : FutexEvent × FutexCall × FutexCall} {F : Set FutexCall}

end FutexCalls

end Ya2yOS.Task
