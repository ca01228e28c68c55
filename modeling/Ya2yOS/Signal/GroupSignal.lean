import Mathlib.Data.List.Basic
import Ya2yOS.Lib.Transition
import Ya2yOS.Signal.Types

/-!
# Signals to a process

`deliver_signal_to_thread_group` copies the thread list and makes the signal pending for each thread in it; every
thread handles what is pending for itself.
-/

namespace Ya2yOS.Signal

open Function
open Lib (Reaches run)

structure GroupSystem where
  tasks : List ℕ
  action : ℕ → KSigAction
  mask : ℕ → SigSet
  pending : ℕ → SigSet
  /-- The signal that a thread is about to handle, with the action it has read. -/
  chosen : ℕ → Option (ℕ × KSigAction)
  /-- The sends to the process, each with the part of its copy of the list that is still to come. -/
  sends : List (ℕ × List ℕ)
  /-- The numbers of the sends that a pending signal stands for. -/
  causes : ℕ × ℕ → List ℕ
  /-- The handler invocations, with the sends they answer. -/
  invoked : List (List ℕ)

inductive GroupEvent where
  | kill (signo : ℕ)
  | deliver (n : ℕ)
  | tkill (t signo : ℕ)
  | choose (t : ℕ)
  | handle (t : ℕ)
  /-- A signal is taken without a handler, as `rt_sigtimedwait` does. -/
  | consume (t signo : ℕ)
  | setMask (t : ℕ) (mask : SigSet)
  | setAction (signo : ℕ) (action : KSigAction)
  | clone (t : ℕ)
  | exit (t : ℕ)

namespace GroupSystem

def initial (tasks : List ℕ) (action : ℕ → KSigAction) : GroupSystem :=
  ⟨tasks, action, fun _ => 0, fun _ => 0, fun _ => none, [], fun _ => [], []⟩

def addSignal (s : GroupSystem) (t signo : ℕ) : GroupSystem :=
  { s with pending := update s.pending t (s.pending t ||| .fromSig signo) }

def removeSignal (s : GroupSystem) (t signo : ℕ) : GroupSystem :=
  { s with
    pending := update s.pending t (SigSet.remove (s.pending t) (.fromSig signo))
    causes := update s.causes (t, signo) [] }

def step (s : GroupSystem) : GroupEvent → Option GroupSystem
  | .kill signo => some { s with sends := s.sends ++ [(signo, s.tasks)] }
  | .deliver n =>
    match s.sends[n]? with
    | some (signo, t :: rest) =>
      let s := { s with sends := s.sends.set n (signo, rest) }
      if t ∈ s.tasks then
        some { s.addSignal t signo with causes := update s.causes (t, signo) (n :: s.causes (t, signo)) }
      else some s
    | _ => none
  | .tkill t signo => some (s.addSignal t signo)
  | .choose t =>
    (SigSet.remove (s.pending t) (s.mask t)).peekFront.map fun signo =>
      { s with chosen := update s.chosen t (some (signo, s.action signo)) }
  | .handle t =>
    match s.chosen t with
    | some (signo, act) =>
      let s' := { s.removeSignal t signo with chosen := update s.chosen t none }
      some (if act.isHandler then { s' with invoked := s.causes (t, signo) :: s.invoked } else s')
    | none => none
  | .consume t signo => some (s.removeSignal t signo)
  | .setMask t mask => some { s with mask := update s.mask t mask }
  | .setAction signo action => some { s with action := update s.action signo action }
  | .clone t =>
    if t ∈ s.tasks then none
    else some { s with tasks := s.tasks ++ [t], pending := update s.pending t 0 }
  | .exit t => some { s with tasks := s.tasks.erase t }

/-- A signal is sent to the process only while it has at most one thread. -/
def Alone (s : GroupSystem) : GroupEvent → Prop
  | .kill _ => s.tasks.length ≤ 1
  | _ => True

/-- A send that has reached its thread is at one place only. -/
structure Once (sends : List (ℕ × List ℕ)) (causes : ℕ × ℕ → List ℕ) (invoked : List (List ℕ)) : Prop where
  short : ∀ x ∈ sends, x.2.length ≤ 1
  landed : ∀ n p, n ∈ causes p → (sends[n]?.map Prod.snd) = some []
  unique : ∀ n p q, n ∈ causes p → n ∈ causes q → p = q
  answered : ∀ c ∈ invoked, ∀ n ∈ c, (sends[n]?.map Prod.snd) = some [] ∧ ∀ p, n ∉ causes p
  apart : invoked.Pairwise List.Disjoint

variable {s s' : GroupSystem} {e : GroupEvent} {sends : List (ℕ × List ℕ)} {causes : ℕ × ℕ → List ℕ}
  {invoked : List (List ℕ)}

lemma Once.kill (h : Once sends causes invoked) {x : ℕ × List ℕ} (hx : x.2.length ≤ 1) :
    Once (sends ++ [x]) causes invoked := by
  obtain ⟨hshort, hlanded, hunique, hanswered, hapart⟩ := h
  refine ⟨?_, ?_, hunique, ?_, hapart⟩ <;> grind

lemma Once.deliver (h : Once sends causes invoked) {n t signo : ℕ} {rest : List ℕ}
    (hn : sends[n]? = some (signo, t :: rest)) : Once (sends.set n (signo, rest)) causes invoked ∧
      Once (sends.set n (signo, rest)) (update causes (t, signo) (n :: causes (t, signo))) invoked := by
  have hcauses : ∀ p m, m ∈ update causes (t, signo) (n :: causes (t, signo)) p ↔
      p = (t, signo) ∧ m = n ∨ m ∈ causes p := by
    grind [update_apply]
  have hrest : rest = [] := by simpa using h.short _ (List.mem_of_getElem? hn)
  obtain ⟨hshort, hlanded, hunique, hanswered, hapart⟩ := h
  constructor <;> refine ⟨?_, ?_, ?_, ?_, hapart⟩ <;> grind

lemma Once.take (h : Once sends causes invoked) (p : ℕ × ℕ) : Once sends (update causes p []) invoked ∧
    Once sends (update causes p []) (causes p :: invoked) := by
  have hcauses : ∀ q n, n ∈ update causes p [] q ↔ q ≠ p ∧ n ∈ causes q := by
    grind [update_apply]
  obtain ⟨hshort, hlanded, hunique, hanswered, hapart⟩ := h
  constructor
  · refine ⟨hshort, ?_, ?_, ?_, hapart⟩ <;> grind
  · have hnew : ∀ c ∈ invoked, (causes p).Disjoint c := fun c hc n hn hn' => (hanswered c hc n hn').2 p hn
    refine ⟨hshort, ?_, ?_, ?_, List.pairwise_cons.2 ⟨hnew, hapart⟩⟩ <;> grind

lemma Once.step (h : Once s.sends s.causes s.invoked) (halone : s.Alone e) (he : s.step e = some s') :
    Once s'.sends s'.causes s'.invoked := by
  cases e with
  | kill signo =>
    cases he
    exact h.kill halone
  | deliver n =>
    simp only [GroupSystem.step] at he
    split at he
    · rename_i signo t rest hn
      split_ifs at he <;> cases he
      · exact (h.deliver hn).2
      · exact (h.deliver hn).1
    · cases he
  | choose t =>
    obtain ⟨signo, -, rfl⟩ := Option.map_eq_some_iff.1 he
    exact h
  | handle t =>
    simp only [GroupSystem.step] at he
    split at he
    · rename_i signo act hchosen
      cases he
      split_ifs
      · exact (h.take (t, signo)).2
      · exact (h.take (t, signo)).1
    · cases he
  | consume t signo =>
    cases he
    exact (h.take (t, signo)).1
  | clone t =>
    simp only [GroupSystem.step] at he
    split_ifs at he
    cases he
    exact h
  | tkill t signo | setMask t mask | setAction signo action | exit t =>
    cases he
    exact h

/-- In every run in which signals are sent to the process while it has one thread, no two handler invocations answer
one send. -/
theorem group_signal_handled_once {tasks : List ℕ} {action : ℕ → KSigAction}
    (h : Reaches step Alone (initial tasks action) s) : s.invoked.Pairwise List.Disjoint := by
  have hinit : Once (initial tasks action).sends (initial tasks action).causes (initial tasks action).invoked :=
    ⟨nofun, nofun, nofun, nofun, .nil⟩
  exact (h.invariant (I := fun s => Once s.sends s.causes s.invoked) (fun _ _ _ hs hg he => hs.step hg he) hinit).apart

def caught (signo : ℕ) : KSigAction := if signo = 10 then .handler ⟨4096, 0, 0, 0⟩ else .defaultAction

theorem group_signal_handled_once_twoSends :
    let s := run step (initial [1] caught)
      [.kill 10, .deliver 0, .choose 1, .kill 10, .handle 1, .deliver 1, .choose 1, .handle 1]
    s.invoked = [[1], [0]] ∧ s.invoked.Pairwise List.Disjoint := by
  refine ⟨by decide +kernel, group_signal_handled_once (Reaches.run (s := initial [1] caught) ?_)⟩
  exact ⟨le_rfl, rfl, trivial, rfl, trivial, rfl, le_rfl, rfl, trivial, rfl, trivial, rfl,
    trivial, rfl, trivial, rfl, trivial⟩

/-- Two threads of one process both handle one signal. -/
theorem group_signal_handled_twice :
    let s := run step (initial [1, 2] caught)
      [.kill 10, .deliver 0, .deliver 0, .choose 1, .handle 1, .choose 2, .handle 2]
    Reaches step (fun _ _ => True) (initial [1, 2] caught) s ∧ s.invoked = [[0], [0]] :=
  ⟨Reaches.run (by decide), by decide +kernel⟩

end GroupSystem

end Ya2yOS.Signal
