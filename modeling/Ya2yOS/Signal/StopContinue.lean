import Ya2yOS.Lib.Transition
import Ya2yOS.Signal.Types

/-!
# Stopping and continuing a task

On its way back to user mode the target chooses the lowest pending signal, reads the action, clears the signal, records
the stop and publishes `Stopped`, in separate steps. A sender wakes the task only if `Stopped` is published by then.
-/

namespace Ya2yOS.Signal

open Lib

def SIGCONT : ℕ := 18

def stopSignals : List ℕ := [19, 20, 21, 22]

lemma mem_stopSignals {n : ℕ} : n ∈ stopSignals ↔ defaultOp n = .stop := by
  constructor
  · intro h
    simp only [stopSignals, List.mem_cons, List.not_mem_nil, or_false] at h
    rcases h with rfl | rfl | rfl | rfl <;> rfl
  · intro h
    unfold defaultOp at h
    split_ifs at h with _ _ _ hstop
    exact hstop

inductive StopPc where
  | user
  | chosen (signo : ℕ)
  | looked (signo : ℕ) (action : KSigAction)
  | cleared (signo : ℕ) (action : KSigAction)
  | recorded
deriving DecidableEq

def StopPc.handles : StopPc → Option ℕ
  | .chosen signo | .looked signo _ | .cleared signo _ => some signo
  | _ => none

structure StopTarget where
  pending : SigSet
  mask : SigSet
  action : ℕ → KSigAction
  stoppedSignal : Option ℕ
  stopped : Bool
  pc : StopPc
  last : Option ℕ

inductive StopEvent where
  | send (signo : ℕ)
  | choose
  | look
  | clear
  | act
  | publish
  | setMask (mask : SigSet)
  | setAction (signo : ℕ) (action : KSigAction)

namespace StopTarget

def initial (action : ℕ → KSigAction) : StopTarget := ⟨0, 0, action, none, false, .user, none⟩

def addSignal (s : StopTarget) (signo : ℕ) : StopTarget :=
  { s with
    pending := s.pending ||| SigSet.fromSig signo
    stopped := s.stopped && !(signo = SIGCONT || signo = SIGKILL)
    last := if signo ∈ stopSignals ∨ signo = SIGCONT then some signo else s.last }

def perform (s : StopTarget) (signo : ℕ) (action : KSigAction) : StopTarget :=
  if action.isHandler || action.isIgnored then { s with pc := .user }
  else
    match defaultOp signo with
    | .stop => { s with stoppedSignal := some signo, pc := .recorded }
    | .continue => { s with stoppedSignal := none, pc := .user }
    | _ => { s with pc := .user }

def step (s : StopTarget) : StopEvent → Option StopTarget
  | .send signo => if signo = 0 then none else some (s.addSignal signo)
  | .setAction signo action => some { s with action := Function.update s.action signo action }
  | .setMask mask => if s.stopped then none else some { s with mask := mask }
  | .choose =>
    match s.stopped, s.pc, (s.pending.remove s.mask).peekFront with
    | false, .user, some signo => some { s with pc := .chosen signo }
    | _, _, _ => none
  | .look =>
    match s.pc with
    | .chosen signo => some { s with pc := .looked signo (s.action signo) }
    | _ => none
  | .clear =>
    match s.pc with
    | .looked signo action => some { s with pending := s.pending.remove (.fromSig signo), pc := .cleared signo action }
    | _ => none
  | .act =>
    match s.pc with
    | .cleared signo action => some (s.perform signo action)
    | _ => none
  | .publish =>
    match s.pc with
    | .recorded => some { s with stopped := true, pc := .user }
    | _ => none

/-- No stop is under way: none is pending, and the target is not between choosing one and publishing `Stopped`. -/
structure Clear (s : StopTarget) : Prop where
  pending : ∀ n ∈ stopSignals, s.pending.has n = false
  handles : ∀ n ∈ s.pc.handles, n ∉ stopSignals
  recorded : s.pc ≠ .recorded

instance (s : StopTarget) : Decidable s.Clear :=
  decidable_of_iff ((∀ n ∈ stopSignals, s.pending.has n = false) ∧ (∀ n ∈ s.pc.handles, n ∉ stopSignals) ∧
    s.pc ≠ .recorded) ⟨fun h => ⟨h.1, h.2.1, h.2.2⟩, fun h => ⟨h.pending, h.handles, h.recorded⟩⟩

/-- The condition on a step: `SIGCONT` is sent while no stop is under way. -/
def Orderly (s : StopTarget) (e : StopEvent) : Prop :=
  match e with
  | .send signo => signo = SIGCONT → s.Clear
  | _ => True

instance (s : StopTarget) : ∀ e, Decidable (s.Orderly e)
  | .send signo => inferInstanceAs (Decidable (signo = SIGCONT → s.Clear))
  | .choose | .look | .clear | .act | .publish | .setMask _ | .setAction _ _ => isTrue trivial

def Handled (s : StopTarget) : Prop :=
  s.pc = .user ∧ ∀ n ∈ SIGCONT :: stopSignals, s.pending.has n = false
deriving Decidable

def Continued (s : StopTarget) : Prop := s.last = some SIGCONT → s.Clear ∧ s.stopped = false

variable {s s' : StopTarget} {e : StopEvent} {signo : ℕ}

lemma Clear.addSignal (h : s.Clear) (hpos : 0 < signo) (hsig : signo ∉ stopSignals) : (s.addSignal signo).Clear := by
  refine ⟨fun n hn => ?_, h.handles, h.recorded⟩
  have hne : n ≠ signo := fun heq => hsig (heq ▸ hn)
  rw [StopTarget.addSignal, SigSet.has_or, h.pending n hn, SigSet.has_fromSig hpos]
  simp [hne]

lemma Clear.perform (h : s.Clear) (hsig : signo ∉ stopSignals) (action : KSigAction) :
    (s.perform signo action).Clear := by
  have huser : Clear { s with pc := .user } := ⟨h.pending, nofun, nofun⟩
  unfold StopTarget.perform
  split
  · exact huser
  · split
    · next hop => exact absurd (mem_stopSignals.2 hop) hsig
    · exact ⟨huser.pending, huser.handles, huser.recorded⟩
    · exact huser

lemma Clear.step (h : s.Clear) (hs : s.step e = some s') (he : ∀ signo, e ≠ .send signo) :
    s'.Clear ∧ s'.stopped = s.stopped := by
  cases e with
  | send signo => exact absurd rfl (he signo)
  | setAction signo action =>
    cases hs
    exact ⟨⟨h.pending, h.handles, h.recorded⟩, rfl⟩
  | setMask mask =>
    simp only [StopTarget.step] at hs
    split_ifs at hs
    cases hs
    exact ⟨⟨h.pending, h.handles, h.recorded⟩, rfl⟩
  | choose =>
    simp only [StopTarget.step] at hs
    split at hs <;> cases hs
    next signo hstopped _ hfront =>
    refine ⟨⟨h.pending, ?_, nofun⟩, rfl⟩
    rintro n ⟨⟩ hn
    have hhas := SigSet.has_of_peekFront hfront
    rw [SigSet.has_remove, h.pending _ hn] at hhas
    cases hhas
  | look =>
    simp only [StopTarget.step] at hs
    split at hs <;> cases hs
    next signo hpc =>
    refine ⟨⟨h.pending, ?_, nofun⟩, rfl⟩
    rintro n ⟨⟩
    exact h.handles _ (by rw [hpc]; rfl)
  | clear =>
    simp only [StopTarget.step] at hs
    split at hs
    · next signo action hpc =>
      cases hs
      refine ⟨⟨fun n hn => ?_, ?_, nofun⟩, rfl⟩
      · rw [SigSet.has_remove, h.pending n hn, Bool.false_and]
      · rintro n ⟨⟩
        exact h.handles _ (by rw [hpc]; rfl)
    · cases hs
  | act =>
    simp only [StopTarget.step] at hs
    split at hs <;> cases hs
    next signo action hpc =>
    refine ⟨h.perform (h.handles _ (by rw [hpc]; rfl)) action, ?_⟩
    unfold StopTarget.perform
    split
    · rfl
    · split <;> rfl
  | publish =>
    simp only [StopTarget.step] at hs
    split at hs
    · next hpc => exact absurd hpc h.recorded
    · cases hs

lemma last_step (hs : s.step e = some s') (he : ∀ signo, e ≠ .send signo) : s'.last = s.last := by
  cases e <;> simp only [StopTarget.step] at hs
  case send signo => exact absurd rfl (he signo)
  all_goals grind [StopTarget.perform]

lemma Continued.step (h : s.Continued) (hg : s.Orderly e) (hs : s.step e = some s') : s'.Continued := by
  by_cases he : ∃ signo, e = .send signo
  · obtain ⟨signo, rfl⟩ := he
    simp only [StopTarget.step] at hs
    split_ifs at hs with hzero
    cases hs
    intro hlast
    have hpos : 0 < signo := Nat.pos_of_ne_zero hzero
    by_cases hcont : signo = SIGCONT
    · subst hcont
      exact ⟨(hg rfl).addSignal hpos (by decide), by simp [addSignal]⟩
    by_cases hstop : signo ∈ stopSignals
    · rw [addSignal] at hlast
      simp [hstop, hcont] at hlast
    · obtain ⟨hclear, hstopped⟩ := h (by simpa [addSignal, hstop, hcont] using hlast)
      exact ⟨hclear.addSignal hpos hstop, by simp [addSignal, hstopped]⟩
  · have hne : ∀ signo, e ≠ .send signo := fun signo heq => he ⟨signo, heq⟩
    intro hlast
    obtain ⟨hclear, hstopped⟩ := h (last_step hs hne ▸ hlast)
    obtain ⟨hclear', hstopped'⟩ := hclear.step hs hne
    exact ⟨hclear', hstopped'.trans hstopped⟩

/-- In orderly runs a task to which `SIGCONT` was sent last is not `Stopped`. -/
theorem not_stopped_of_continued {action : ℕ → KSigAction} (h : Reaches step Orderly (initial action) s)
    (hlast : s.last = some SIGCONT) : s.stopped = false := by
  have hs : s.Continued := h.invariant (fun _ _ _ hs hg he => hs.step hg he) fun h => by cases h
  exact (hs hlast).2

/-- A stop that is published before `SIGCONT` is sent. -/
theorem not_stopped_of_continued_after_stop :
    (run step (initial fun _ => .defaultAction)
      [.send 19, .choose, .look, .clear, .act, .publish, .send SIGCONT]).stopped = false :=
  not_stopped_of_continued (Reaches.run (by decide +kernel)) (by decide +kernel)

/-- `SIGCONT` overtakes a stop signal that is pending: the task is stopped by a signal that was sent before. -/
theorem stopped_after_continue : ∃ s, Reaches step (fun _ _ => True) (initial fun _ => .defaultAction) s ∧
    s.last = some SIGCONT ∧ s.Handled ∧ s.stopped = true := by
  refine ⟨run step (initial fun _ => .defaultAction) [.send 19, .send SIGCONT, .choose, .look, .clear, .act, .choose,
    .look, .clear, .act, .publish], Reaches.run ?_, ?_⟩
  · decide +kernel
  · decide +kernel

end StopTarget

end Ya2yOS.Signal
