import Mathlib.Data.List.Count
import Ya2yOS.Task.Custody

/-!
# Dispatch

Every step of the scheduler is a step of the custody protocol for one task only. So no task is current on two harts,
and a ready task that no hart runs is queued unless some agent is about to queue it.
-/

namespace Ya2yOS.Task

open Function Lib

def AddPoint.role : AddPoint → Role
  | .lock | .status => .attends
  | .cpu => .seen
  | .mark => .claims
  | .push => .hand

namespace SchedPc

def duty : SchedPc → Option (ℕ × Role)
  | .lookup t | .inspect t => some (t, .attends)
  | .add t point _ => some (t, point.role)
  | .upgrade entry _ | .examine entry _ _ | .pushBack entry _ => some (entry.task, .hand)
  | .select entry => some (entry.task, .reserved)
  | .selected t | .giveBack t | .publish t | .markRunning t | .markOnCpu t => some (t, .reserved)
  | .install t | .running t | .rechecking t | .switching t | .back t | .account t _ | .advance t _ | .finish t
  | .exiting t => some (t, .onCpu)
  | .abandon t => some (t, .abandons)
  | .free | .loop | .fetchLock | .fetchLoop _ => none

def role (p : SchedPc) (t : ℕ) : Role :=
  match p.duty with
  | some (u, r) => if u = t then r else .away
  | none => .away

def holds : SchedPc → Bool
  | .add _ point _ => point ≠ .lock
  | .fetchLoop _ | .upgrade _ _ | .examine _ _ _ | .pushBack _ _ | .select _ => true
  | _ => false

def current : SchedPc → Option ℕ
  | .running t | .rechecking t | .switching t | .back t => some t
  | _ => none

def OnlyFor (p : SchedPc) (t : ℕ) : Prop := p.duty = none ∨ ∃ r, p.duty = some (t, r)

variable {p : SchedPc} {t u : ℕ} {r : Role}

lemma role_self (h : p.duty = some (t, r)) : p.role t = r := by
  simp [role, h]

lemma role_of_ne (h : p.duty = some (t, r)) (hne : u ≠ t) : p.role u = .away := by
  simp [role, h, hne.symm]

lemma role_of_none (h : p.duty = none) (u : ℕ) : p.role u = .away := by
  simp [role, h]

lemma role_congr {p' : SchedPc} (h : p'.duty = p.duty) (u : ℕ) : p'.role u = p.role u := by
  rw [role, role, h]

lemma OnlyFor.role (h : p.OnlyFor t) (hne : u ≠ t) : p.role u = .away := by
  rcases h with h | ⟨r, h⟩
  · exact role_of_none h u
  · exact role_of_ne h hne

lemma holds_of_locks (h : (p.role t).locks = true) : p.holds = true := by
  cases p with
  | add u point _ =>
    cases point
    case lock | status =>
      simp only [role, duty, AddPoint.role] at h
      split at h <;> cases h
    all_goals rfl
  | upgrade _ _ | examine _ _ _ | pushBack _ _ => rfl
  | _ =>
    simp only [role, duty] at h
    first | cases h | (split at h <;> cases h)

lemma duty_of_current (h : p.current = some t) : p.duty = some (t, .onCpu) := by
  cases p <;> cases h <;> rfl

end SchedPc

namespace SchedState

open SchedPc

variable {s s' s₁ : SchedState} {a : Agent} {p : SchedPc} {t u : ℕ}

def entries (s : SchedState) (t : ℕ) : ℕ := s.queue.countP (·.task = t)

def view (s : SchedState) (t : ℕ) : Custody Agent where
  status := (s.tasks t).status
  onCpu := (s.tasks t).onCpu
  onRq := (s.tasks t).onRq
  inTable := (s.tasks t).inTable
  life := (s.tasks t).life
  entries := s.entries t
  role a := (s.pc a).role t

lemma view_goto (s : SchedState) (a : Agent) (p : SchedPc) (t : ℕ) :
    (s.goto a p).view t = (s.view t).setRole a (p.role t) := by
  simp only [view, goto, Custody.setRole, entries, Custody.mk.injEq, true_and]
  funext b
  by_cases hb : b = a
  · simp [hb]
  · simp [hb]

lemma view_setTask_self (s : SchedState) (t : ℕ) (x : SchedTask) : (s.setTask t x).view t =
    { s.view t with status := x.status, onCpu := x.onCpu, onRq := x.onRq, inTable := x.inTable, life := x.life } := by
  simp [view, setTask, entries]

lemma view_setTask_of_ne (x : SchedTask) (hne : u ≠ t) : (s.setTask t x).view u = s.view u := by
  simp [view, setTask, entries, hne]

lemma view_setTask_eq {x : SchedTask} (hx : (x.status, x.onCpu, x.onRq, x.inTable, x.life) =
    ((s.tasks t).status, (s.tasks t).onCpu, (s.tasks t).onRq, (s.tasks t).inTable, (s.tasks t).life)) (u : ℕ) :
    (s.setTask t x).view u = s.view u := by
  by_cases hu : u = t
  · subst hu
    simp only [Prod.mk.injEq] at hx
    rw [view_setTask_self]
    simp [view, hx]
  · exact view_setTask_of_ne x hu

variable {e : CfsEntry}

lemma view_push_self (hq : s₁.queue = s.queue) (h : s₁.view e.task = s.view e.task) :
    (s₁.setQueue (e :: s.queue)).view e.task = { s.view e.task with entries := (s.view e.task).entries + 1 } := by
  rw [← h]
  simp [view, setQueue, entries, hq]

lemma view_push_of_ne (hne : u ≠ e.task) : (s.setQueue (e :: s.queue)).view u = s.view u := by
  simp [view, setQueue, entries, hne.symm]

lemma view_pop_self (he : e ∈ s.queue) : ∃ n, s.entries e.task = n + 1 ∧
    (s.setQueue (s.queue.erase e)).view e.task = { s.view e.task with entries := n } := by
  have hperm := List.perm_cons_erase he
  refine ⟨(s.queue.erase e).countP (·.task = e.task), ?_, rfl⟩
  rw [entries, hperm.countP_eq]
  simp

lemma view_pop_of_ne (hne : u ≠ e.task) (he : e ∈ s.queue) : (s.setQueue (s.queue.erase e)).view u = s.view u := by
  have hcount : (s.queue.erase e).countP (·.task = u) = s.queue.countP (·.task = u) := by
    rw [(List.perm_cons_erase he).countP_eq]
    simp [hne.symm]
  simp [view, setQueue, entries, hcount]

/-! ### One step -/

def Locks (s : SchedState) : Prop := ∀ a, (s.pc a).holds = true → s.lock = some a

def Shown (s : SchedState) : Prop := ∀ h, s.current h = (s.pc (.hart h)).current

structure Moves (s s' : SchedState) : Prop where
  locks : s.Locks → s'.Locks
  shown : s.Shown → s'.Shown
  views : s.Locks → ∀ t, s'.view t = s.view t ∨ Custody.Step (s.view t) (s'.view t)

variable {p' : SchedPc}

lemma locks_keep (hpc : s₁.pc = s.pc) (hlock : s₁.lock = s.lock)
    (h : p'.holds = true → (s.pc a).holds = true) (hs : s.Locks) : (s₁.goto a p').Locks := by
  intro b hb
  by_cases hba : b = a
  · subst hba
    simp only [goto, update_self] at hb
    exact hlock.trans (hs b (h hb))
  · simp only [goto, update_of_ne hba, hpc] at hb
    exact hlock.trans (hs b hb)

lemma locks_take (hpc : s₁.pc = s.pc) (hfree : s.lock = none) (hlock : s₁.lock = some a)
    (hs : s.Locks) : (s₁.goto a p').Locks := by
  intro b hb
  by_cases hba : b = a
  · exact hba ▸ hlock
  · simp only [goto, update_of_ne hba, hpc] at hb
    exact absurd ((hs b hb).symm.trans hfree) (by simp)

lemma locks_drop (hpc : s₁.pc = s.pc) (hheld : (s.pc a).holds = true) (hp' : p'.holds = false)
    (hs : s.Locks) : (s₁.goto a p').Locks := by
  intro b hb
  by_cases hba : b = a
  · subst hba
    simp only [goto, update_self, hp'] at hb
    cases hb
  · simp only [goto, update_of_ne hba, hpc] at hb
    exact absurd (Option.some.inj ((hs b hb).symm.trans (hs a hheld))) hba

lemma shown_keep (hpc : s₁.pc = s.pc) (hcur : s₁.current = s.current)
    (h : p'.current = (s.pc a).current) (hs : s.Shown) : (s₁.goto a p').Shown := by
  intro i
  show s₁.current i = (update s₁.pc a p' (.hart i)).current
  rw [hcur, hs i]
  by_cases hi : Agent.hart i = a
  · rw [hi, update_self, h]
  · rw [update_of_ne hi, hpc]

variable {h : ℕ} {c : Custody Agent} {caller : AddCaller} {e : SchedEvent} {r : Role}

lemma shown_set {x : Option ℕ} (hx : p'.current = x) (hs : s.Shown) : ((s.setCurrent h x).goto (.hart h) p').Shown := by
  intro i
  by_cases hi : i = h
  · subst hi
    simp [goto, setCurrent, hx]
  · have hne : Agent.hart i ≠ .hart h := fun heq => hi (Agent.hart.inj heq)
    simp only [goto, setCurrent, update_of_ne hi, update_of_ne hne]
    exact hs i

lemma views_turn (t : ℕ) (hold : (s.pc a).OnlyFor t) (hnew : p'.OnlyFor t) (hframe : ∀ u, u ≠ t → s₁.view u = s.view u)
    (hat : Custody.Step (s.view t) ((s₁.goto a p').view t)) (u : ℕ) :
    (s₁.goto a p').view u = s.view u ∨ Custody.Step (s.view u) ((s₁.goto a p').view u) := by
  by_cases hu : u = t
  · exact hu ▸ .inr hat
  · refine .inl ?_
    have hrole : (s.view u).role a = .away := hold.role hu
    rw [view_goto, hframe u hu, hnew.role hu, ← hrole, Custody.setRole_self]

lemma views_same (hview : ∀ u, s₁.view u = s.view u) (hduty : p'.duty = (s.pc a).duty) (u : ℕ) :
    (s₁.goto a p').view u = s.view u ∨ Custody.Step (s.view u) ((s₁.goto a p').view u) := by
  have hrole : p'.role u = (s.view u).role a := role_congr hduty u
  rw [view_goto, hview u, hrole, Custody.setRole_self]
  exact .inl rfl

lemma Moves.shift (hp : s.pc a = p) (hpc : s₁.pc = s.pc) (hlock : s₁.lock = s.lock)
    (hcur : s₁.current = s.current) (hview : ∀ u, s₁.view u = s.view u) (hholds : p'.holds = true → p.holds = true)
    (hshown : p'.current = p.current) (hduty : p'.duty = p.duty) : Moves s (s₁.goto a p') := by
  subst hp
  exact ⟨locks_keep hpc hlock hholds, shown_keep hpc hcur hshown, fun _ => views_same hview hduty⟩

lemma Moves.turn (hp : s.pc a = p) (t : ℕ) (hpc : s₁.pc = s.pc) (hlock : s₁.lock = s.lock)
    (hcur : s₁.current = s.current) (hholds : p'.holds = true → p.holds = true) (hshown : p'.current = p.current)
    (hold : p.OnlyFor t) (hnew : p'.OnlyFor t) (hr : p'.role t = r) (hframe : ∀ u, u ≠ t → s₁.view u = s.view u)
    (hview : s₁.view t = c) (hat : s.Locks → Custody.Step (s.view t) (c.setRole a r)) : Moves s (s₁.goto a p') := by
  subst hp
  refine ⟨locks_keep hpc hlock hholds, shown_keep hpc hcur hshown, fun hs => views_turn t hold hnew hframe ?_⟩
  rw [view_goto, hr, hview]
  exact hat hs

lemma Moves.change {x : SchedTask} (hp : s.pc a = p)
    (hholds : p'.holds = true → p.holds = true) (hshown : p'.current = p.current) (hold : p.OnlyFor t)
    (hnew : p'.duty = some (t, r)) (hat : s.Locks → Custody.Step (s.view t) (Custody.setRole { s.view t with
      status := x.status, onCpu := x.onCpu, onRq := x.onRq, inTable := x.inTable, life := x.life } a r)) :
    Moves s ((s.setTask t x).goto a p') :=
  .turn hp t rfl rfl rfl hholds hshown hold (.inr ⟨_, hnew⟩) (role_self hnew) (fun _ => view_setTask_of_ne x)
    (view_setTask_self ..) hat

/-- An agent at a point of the protocol keeps others from having a role under the lock. -/
lemma Locks.free (hs : s.Locks) (ha : (s.pc a).holds = true) (t : ℕ) (b : Agent) (hb : b ≠ a) :
    ((s.view t).role b).locks = false := by
  by_contra hne
  have hholds := holds_of_locks (Bool.eq_true_of_not_eq_false hne)
  exact hb (Option.some.inj ((hs b hholds).symm.trans (hs a ha)))

lemma moves_addDone (hpc : s₁.pc = s.pc) (hcur : s₁.current = s.current)
    (hheld : (s.pc a).holds = true) (hnone : (s.pc a).current = none) (hold : (s.pc a).OnlyFor t)
    (hframe : ∀ u, u ≠ t → s₁.view u = s.view u) (hview : s₁.view t = c)
    (hat : s.Locks → Custody.Step (s.view t) (c.setRole a .away)) : Moves s (s₁.addDone a caller) := by
  have hduty : caller.next.duty = none := by cases caller <;> rfl
  have hpc' : (s₁.setLock none).pc = s.pc := hpc
  refine ⟨locks_drop hpc' hheld ?_, shown_keep hpc' hcur ?_, fun hs => ?_⟩
  · cases caller <;> rfl
  · cases caller <;> exact hnone.symm
  · refine views_turn t hold (.inl hduty) hframe ?_
    rw [view_goto, role_of_none hduty]
    exact hview ▸ hat hs

lemma moves_addStep {point : AddPoint} (hpc : s.pc a = .add t point caller)
    (h : s.addStep a t caller point = some s') : Moves s s' := by
  have hrole : (s.view t).role a = point.role := by
    simp only [view, hpc]
    exact role_self rfl
  have hold : (s.pc a).OnlyFor t := .inr ⟨point.role, by rw [hpc]; rfl⟩
  have hnone : (s.pc a).current = none := by rw [hpc]; rfl
  cases point with
  | lock =>
    simp only [addStep] at h
    split at h
    · next hfree =>
      cases h
      have hduty : (add t .status caller).duty = (s.pc a).duty := by rw [hpc]; rfl
      exact ⟨locks_take rfl hfree rfl, shown_keep rfl rfl hnone.symm, fun _ => views_same (fun _ => rfl) hduty⟩
    · cases h
  | status =>
    simp only [addStep] at h
    have hheld : (s.pc a).holds = true := by rw [hpc]; rfl
    split at h <;> cases h
    · next hready =>
      exact .turn hpc t rfl rfl rfl (fun _ => rfl) rfl (.inr ⟨_, rfl⟩) (.inr ⟨_, rfl⟩) (role_self rfl) (fun _ _ => rfl)
        rfl fun hs => .see hrole hready (hs.free hheld t)
    · next hready =>
      exact moves_addDone rfl rfl hheld hnone hold (fun _ _ => rfl) rfl fun _ => .dismiss hrole (.inr hready)
  | cpu =>
    simp only [addStep] at h
    have hheld : (s.pc a).holds = true := by rw [hpc]; rfl
    split at h <;> cases h
    · next hcpu => exact moves_addDone rfl rfl hheld hnone hold (fun _ _ => rfl) rfl fun _ => .busy hrole hcpu
    · next hcpu =>
      exact .turn hpc t rfl rfl rfl (fun _ => rfl) rfl (.inr ⟨_, rfl⟩) (.inr ⟨_, rfl⟩) (role_self rfl) (fun _ _ => rfl)
        rfl fun _ => .claim hrole (Bool.eq_false_of_not_eq_true hcpu)
  | mark =>
    simp only [addStep] at h
    have hheld : (s.pc a).holds = true := by rw [hpc]; rfl
    split at h <;> cases h
    · next hrq => exact moves_addDone rfl rfl hheld hnone hold (fun _ _ => rfl) rfl fun _ => .merge hrole hrq
    · next hrq =>
      exact .change hpc (fun _ => rfl) rfl (.inr ⟨_, rfl⟩) rfl fun _ => .mark hrole (Bool.eq_false_of_not_eq_true hrq)
  | push =>
    cases h
    refine moves_addDone rfl rfl (by rw [hpc]; rfl) hnone hold (fun u hu => ?_)
      (view_push_self rfl (view_setTask_eq (by rfl) t)) fun _ => .push hrole
    exact (view_push_of_ne hu).trans (view_setTask_of_ne _ hu)

lemma moves_examineStep {entry : CfsEntry} {canRun : Bool} {left : ℕ}
    (hpc : s.pc (.hart h) = .examine entry canRun left) : Moves s (s.examineStep h entry canRun left) := by
  have hrole : (s.view entry.task).role (.hart h) = .hand := by
    simp only [view, hpc]
    exact role_self rfl
  simp only [examineStep]
  split
  · next hready =>
    split
    · exact .change hpc (fun _ => rfl) rfl (.inr ⟨_, rfl⟩) rfl fun _ => .reserve hrole hready
    · exact .shift hpc rfl rfl rfl (fun _ => rfl) (fun _ => rfl) rfl rfl
  · next hready =>
    refine .turn hpc entry.task rfl rfl rfl (fun _ => rfl) rfl (.inr ⟨_, rfl⟩) (.inl rfl) (role_of_none rfl _)
      (fun _ => view_setTask_of_ne _) (view_setTask_self ..) fun _ => .stale hrole hready

lemma moves_fetchNone (hheld : (s.pc (.hart h)).holds = true) (hnone : (s.pc (.hart h)).current = none)
    (hduty : (s.pc (.hart h)).duty = none) : Moves s (s.fetchNone h) := by
  exact ⟨locks_drop rfl hheld rfl, shown_keep rfl rfl hnone.symm, fun _ => views_same (fun _ => rfl) hduty.symm⟩

lemma moves_hartStep (hpc : s.pc (.hart h) = p) (hstep : s.hartStep h p = some s') : Moves s s' := by
  have hrole : ∀ {t r}, p.duty = some (t, r) → (s.view t).role (.hart h) = r := by
    intro t r hduty
    simp only [view, hpc]
    exact role_self hduty
  cases p with
  | loop =>
    cases hstep
    exact .shift hpc rfl rfl rfl (fun _ => rfl) nofun rfl rfl
  | back t =>
    cases hstep
    exact ⟨locks_keep rfl rfl nofun, shown_set rfl, fun _ => views_same (fun _ => rfl) (by rw [hpc]; rfl)⟩
  | advance t exits =>
    simp only [hartStep] at hstep
    split at hstep
    · cases hstep
      cases exits <;>
        exact .shift hpc rfl rfl rfl (fun _ => rfl) nofun rfl rfl
    · cases hstep
  | finish t =>
    cases hstep
    exact .change hpc nofun rfl (.inr ⟨_, rfl⟩) rfl fun _ => .leave (hrole rfl)
  | inspect t =>
    simp only [hartStep] at hstep
    split at hstep <;> cases hstep
    · exact .shift hpc rfl rfl rfl (fun _ => rfl) nofun rfl rfl
    · next hidle =>
      exact .turn hpc t rfl rfl rfl nofun rfl (.inr ⟨_, rfl⟩) (.inl rfl) (role_of_none rfl t)
        (fun _ _ => rfl) rfl fun _ => .dismiss (hrole rfl) (.inr fun hready => hidle (.inl hready))
  | fetchLock =>
    simp only [hartStep] at hstep
    split at hstep
    · next hfree =>
      cases hstep
      exact ⟨locks_take rfl hfree rfl, shown_keep rfl rfl (by rw [hpc]; rfl),
        fun _ => views_same (fun _ => rfl) (by rw [hpc]; rfl)⟩
    · cases hstep
  | fetchLoop left =>
    have hnone : Moves s (s.fetchNone h) := moves_fetchNone (by rw [hpc]; rfl) (by rw [hpc]; rfl) (by rw [hpc]; rfl)
    cases left with
    | zero =>
      cases hstep
      exact hnone
    | succ left =>
      simp only [hartStep] at hstep
      split at hstep
      · cases hstep
        exact hnone
      · cases hstep
  | upgrade entry left =>
    simp only [hartStep] at hstep
    split at hstep <;> cases hstep
    · next hdropped =>
      exact .turn hpc entry.task rfl rfl rfl (fun _ => rfl) rfl (.inr ⟨_, rfl⟩) (.inl rfl)
        (role_of_none rfl _) (fun _ _ => rfl) rfl fun _ => .dead (hrole rfl) hdropped
    · exact .shift hpc rfl rfl rfl (fun _ => rfl) (fun _ => rfl) rfl rfl
  | examine entry canRun left =>
    cases hstep
    exact moves_examineStep hpc
  | pushBack entry left =>
    cases hstep
    refine .turn hpc entry.task rfl rfl rfl (fun _ => rfl) rfl (.inr ⟨_, rfl⟩) (.inl rfl)
      (role_of_none rfl _) (fun _ => view_push_of_ne) (view_push_self rfl rfl) fun _ => .push (hrole rfl)
  | select entry =>
    cases hstep
    exact ⟨locks_drop rfl (by rw [hpc]; rfl) rfl, shown_keep rfl rfl (by rw [hpc]; rfl),
      fun _ => views_same (fun _ => rfl) (by rw [hpc]; rfl)⟩
  | selected t =>
    simp only [hartStep] at hstep
    split at hstep <;> cases hstep
    · exact .shift hpc rfl rfl rfl (view_setTask_eq rfl) nofun rfl rfl
    · exact .shift hpc rfl rfl rfl (fun _ => rfl) nofun rfl rfl
  | giveBack t =>
    cases hstep
    exact .change hpc nofun rfl (.inr ⟨_, rfl⟩) rfl fun _ => .giveBack (hrole rfl)
  | publish t =>
    cases hstep
    exact .change hpc nofun rfl (.inr ⟨_, rfl⟩) rfl fun _ => .publish (hrole rfl)
  | markOnCpu t =>
    cases hstep
    exact .change hpc nofun rfl (.inr ⟨_, rfl⟩) rfl fun _ => .enter (hrole rfl)
  | install t =>
    cases hstep
    exact ⟨locks_keep rfl rfl nofun, shown_set rfl, fun _ => views_same (fun _ => rfl) (by rw [hpc]; rfl)⟩
  | switching t =>
    cases hstep
    exact .shift hpc rfl rfl rfl (fun _ => rfl) nofun rfl rfl
  | exiting t =>
    cases hstep
    exact .change hpc nofun rfl (.inr ⟨_, rfl⟩) rfl fun _ => .exit (hrole rfl)
  | abandon t =>
    cases hstep
    refine .turn hpc t rfl rfl rfl nofun rfl (.inr ⟨_, rfl⟩) (.inl rfl) (role_of_none rfl t)
      (fun _ => view_setTask_of_ne _) (view_setTask_self ..) fun _ => .abandon (hrole rfl)
  | _ => cases hstep

lemma moves_runStep (h : s.runStep a = some s') : Moves s s' := by
  simp only [runStep] at h
  split at h
  · next t point caller hpc => exact moves_addStep hpc h
  · next t hpc =>
    cases h
    have hrole : (s.view t).role a = .attends := by
      simp only [view, hpc]
      exact role_self rfl
    split
    · exact .shift hpc rfl rfl rfl (fun _ => rfl) nofun rfl rfl
    · next htable =>
      exact .turn hpc t rfl rfl rfl nofun rfl (.inr ⟨_, rfl⟩) (.inl rfl)
        (role_of_none rfl t) (fun _ _ => rfl) rfl
        fun _ => .dismiss hrole (.inl (Bool.eq_false_of_not_eq_true htable))
  · split at h
    · exact moves_hartStep rfl h
    · cases h

lemma moves_setStatus (hpc : s.pc (.hart h) = p) (status : TaskStatus)
    (hduty : p.duty = some (t, .onCpu)) (hduty' : p'.duty = some (t, .onCpu)) (hholds : p'.holds = false)
    (hcur : p'.current = p.current) : Moves s ((s.setStatus t status).goto (.hart h) p') :=
  .change hpc (by simp [hholds]) hcur (.inr ⟨_, hduty⟩) hduty' fun _ => .change (role_self (hpc ▸ hduty)) status

lemma taskStep_eq_some {f : ℕ → SchedState} (hstep : s.taskStep h f = some s') :
    ∃ t, s.pc (.hart h) = .running t ∧ s' = f t := by
  simp only [taskStep] at hstep
  split at hstep
  · next t hpc => exact ⟨t, hpc, (Option.some.inj hstep).symm⟩
  · cases hstep

lemma moves_setTask {x : SchedTask} (hat : (s.setTask t x).view t = s.view t ∨
    Custody.Step (s.view t) ((s.setTask t x).view t)) : Moves s (s.setTask t x) := by
  refine ⟨id, id, fun _ u => ?_⟩
  by_cases hu : u = t
  · exact hu ▸ hat
  · exact .inl (view_setTask_of_ne x hu)

lemma moves_step (h : s.step e = some s') : Moves s s' := by
  cases e with
  | run a => exact moves_runStep h
  | pop i entry =>
    simp only [step] at h
    split at h
    · next left hpc =>
      split at h
      · next hmin =>
        cases h
        obtain ⟨n, hn, hview⟩ := view_pop_self hmin.1
        have hheld : (s.pc (.hart i)).holds = true := by rw [hpc]; rfl
        refine .turn hpc entry.task rfl rfl rfl (fun _ => rfl) rfl (.inl rfl) (.inr ⟨_, rfl⟩)
          (role_self rfl) (fun u hu => view_pop_of_ne hu hmin.1) hview fun hs => ?_
        exact .pop (role_of_none (by rw [hpc]; rfl) _) (hs.free hheld _) hn
      · cases h
    · cases h
  | account i now =>
    simp only [step] at h
    split at h
    · next t exits hpc =>
      cases h
      refine .shift hpc rfl rfl rfl (view_setTask_eq ?_) nofun rfl rfl
      rw [SchedTask.accountRuntime]
      split <;> rfl
    · cases h
  | markRunning i now =>
    simp only [step] at h
    split at h
    · next t hpc =>
      cases h
      exact .change hpc nofun rfl (.inr ⟨_, rfl⟩) rfl fun _ => .unmark (role_self (by rw [hpc]; rfl))
    · cases h
  | wake w t viaTable =>
    simp only [step] at h
    split at h
    · next hpc =>
      split at h
      · next hasleep =>
        cases h
        have hstatus : (s.tasks t).status = .blocked ∨ (s.tasks t).status = .stopped ∨
            (s.tasks t).status = .vforkBlocked := by
          simpa [SchedTask.asleep, or_assoc] using hasleep.2
        cases viaTable <;>
          exact .change hpc nofun rfl (.inl rfl) rfl fun _ =>
            .wake (role_of_none (by rw [hpc]; rfl) t) hasleep.1 hstatus
      · cases h
    · cases h
  | create w t tid nice cpuAffinity scheduledHart =>
    simp only [step] at h
    split at h
    · next hpc =>
      split at h
      · next hunborn =>
        cases h
        exact .change hpc nofun rfl (.inl rfl) rfl fun _ => .create _ hunborn
      · cases h
    · cases h
  | suspend i | block i | stop i | vfork i | sleep i =>
    obtain ⟨t, hpc, rfl⟩ := taskStep_eq_some h
    exact moves_setStatus hpc _ rfl rfl rfl rfl
  | recheck i found =>
    simp only [step] at h
    split at h
    · next t hpc =>
      split at h <;> cases h
      · exact moves_setStatus hpc _ rfl rfl rfl rfl
      · exact .shift hpc rfl rfl rfl (fun _ => rfl) nofun rfl rfl
    · cases h
  | exit i =>
    obtain ⟨t, hpc, rfl⟩ := taskStep_eq_some h
    exact ⟨locks_keep rfl rfl nofun, shown_set rfl, fun _ => views_same (fun _ => rfl) (by rw [hpc]; rfl)⟩
  | setAffinity t mask | setNice t nice =>
    cases h
    exact moves_setTask (.inl (view_setTask_eq (by rfl) t))
  | drop t =>
    simp only [step] at h
    split at h
    · next hdrop =>
      cases h
      refine moves_setTask (.inr ?_)
      rw [view_setTask_self]
      exact .drop hdrop.1 hdrop.2.1 hdrop.2.2
    · cases h

structure Sound (s : SchedState) : Prop where
  locks : s.Locks
  shown : s.Shown
  views : ∀ t, (s.view t).Sound

lemma sound_step (hs : s.Sound) (h : s.step e = some s') : s'.Sound := by
  have hmoves := moves_step h
  refine ⟨hmoves.locks hs.locks, hmoves.shown hs.shown, fun t => ?_⟩
  rcases hmoves.views hs.locks t with heq | hstep
  · exact heq ▸ hs.views t
  · exact (hs.views t).step hstep

lemma sound_initial (harts : ℕ) : (initial harts).Sound := by
  have hduty : ∀ a, ((initial harts).pc a).duty = none := by
    intro a
    cases a <;> rfl
  refine ⟨fun a => ?_, fun h => rfl, fun t => ⟨?_, fun a => ?_, fun a b _ => ?_, nofun, nofun⟩⟩
  · cases a <;> nofun
  · exact ⟨Nat.zero_le 1, fun _ => rfl, fun hne => absurd rfl hne, fun _ => ⟨rfl, rfl⟩, fun _ _ => rfl, nofun⟩
  · simp only [view, role_of_none (hduty a)]
    exact trivial
  · simp only [view, role_of_none (hduty a)]
    exact Role.away_compat _

lemma sound_of_reaches {harts : ℕ} (h : Reaches step (fun _ _ => True) (initial harts) s) : s.Sound :=
  h.invariant (fun _ _ _ hs _ => sound_step hs) (sound_initial harts)

def InHand (s : SchedState) (t : ℕ) : Prop := ∃ a, s.lock = some a ∧ (s.pc a).role t = .hand

def InFlight (s : SchedState) (t : ℕ) : Prop := ∃ a, ((s.pc a).role t).handles = true

/-- In every run no task is current on two harts, no task has two entries, a task is marked exactly while
it has an entry, and a ready task that is off-CPU has one unless a step for it is in flight. -/
theorem dispatch_of_reaches {harts : ℕ} (h : Reaches step (fun _ _ => True) (initial harts) s) :
    (∀ i j t, s.current i = some t → s.current j = some t → i = j) ∧
    (∀ t, s.entries t ≤ 1) ∧
    (∀ t, (s.tasks t).life = .live → ((s.tasks t).onRq = true ↔ s.entries t = 1 ∨ s.InHand t)) ∧
    ∀ t, (s.tasks t).status = .ready → (s.tasks t).onCpu = false → s.entries t = 1 ∨ s.InFlight t := by
  have hs := sound_of_reaches h
  refine ⟨fun i j t hi hj => ?_, fun t => (hs.views t).core.single, fun t hlife => ⟨fun hrq => ?_, ?_⟩, fun t => ?_⟩
  · -- both harts would own the task
    have howns : ∀ k, s.current k = some t → ((s.view t).role (.hart k)) = .onCpu := fun k hk =>
      role_self (duty_of_current ((hs.shown k).symm.trans hk))
    by_contra hne
    have hcompat := (hs.views t).compat (.hart i) (.hart j) fun heq => hne (Agent.hart.inj heq)
    rw [howns i hi, howns j hj] at hcompat
    cases hcompat
  · refine ((hs.views t).entered hlife hrq).imp_right fun ⟨a, ha⟩ => ⟨a, ?_, ha⟩
    refine hs.locks a (holds_of_locks (t := t) ?_)
    rw [show (s.pc a).role t = .hand from ha]
    rfl
  · rintro (hone | ⟨a, -, ha⟩)
    · exact (hs.views t).core.marked (by rw [show (s.view t).entries = 1 from hone]; decide)
    · have hfits := (hs.views t).fits a
      rw [show (s.view t).role a = .hand from ha] at hfits
      exact hfits.2.2.2
  · exact (hs.views t).attended

def dispatched : SchedState :=
  run step (initial 2) [.create 0 1 10 0 3 0, .run (.waker 0), .run (.waker 0), .run (.waker 0), .run (.waker 0),
    .run (.waker 0), .create 0 2 11 0 3 0, .run (.waker 0), .run (.waker 0), .run (.waker 0), .run (.waker 0),
    .run (.waker 0), .run (.hart 0), .run (.hart 0), .pop 0 ⟨0, 10, 1⟩, .run (.hart 0), .run (.hart 0), .run (.hart 0),
    .run (.hart 0), .run (.hart 0), .markRunning 0 5, .run (.hart 0), .run (.hart 0)]

theorem dispatch_of_reaches_dispatched : dispatched.current 0 = some 1 ∧ dispatched.entries 2 = 1 ∧
    (∀ j, dispatched.current j = some 1 → j = 0) := by
  have hrun : Reaches step (fun _ _ => True) (initial 2) dispatched := Reaches.run (by decide)
  exact ⟨rfl, rfl, fun j hj => (dispatch_of_reaches hrun).1 j 0 1 hj rfl⟩

end SchedState

end Ya2yOS.Task
