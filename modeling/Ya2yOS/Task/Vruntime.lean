import Ya2yOS.Task.Scheduler

/-!
# Virtual time

The base of the queue and the virtual run times of the tasks go forward, as long as the run times of all tasks, each
multiplied by 1024 and divided by the weight, do not add up to `2 ^ 64`. No time is then above that sum: a task that is
queued is at most set to the base, and the base is at most set to the time of a task.
-/

namespace Ya2yOS.Task

open Lib Function

namespace SchedTask

/-- The ticks of the present run, multiplied by 1024 and divided by the weight. -/
def weightedTime (task : SchedTask) (now : ℕ) : ℕ :=
  if task.execStart = notRunning then 0
  else (now + 2 ^ 64 - task.execStart) % 2 ^ 64 * 1024 / niceWeights.getD (max (-20) (min task.nice 19) + 20).toNat 0

variable {task : SchedTask}

lemma vruntime_accountRuntime {now : ℕ} (h : task.vruntime + task.weightedTime now < 2 ^ 64) :
    (task.accountRuntime now).vruntime = task.vruntime + task.weightedTime now := by
  unfold accountRuntime weightedTime at *
  split_ifs at h ⊢
  · rfl
  · dsimp only
    rw [min_eq_left (by omega), Nat.mod_eq_of_lt h]

lemma life_accountRuntime (task : SchedTask) (now : ℕ) : (task.accountRuntime now).life = task.life := by
  unfold accountRuntime
  split_ifs <;> rfl

end SchedTask

/-- The entry that a hart has taken from the queue. -/
def SchedPc.entry : SchedPc → Option CfsEntry
  | .upgrade entry _ | .examine entry _ _ | .pushBack entry _ | .select entry => some entry
  | _ => none

namespace SchedState

def charged (s : SchedState) : SchedEvent → Option (ℕ × ℕ)
  | .account h now =>
    match s.pc (.hart h) with
    | .account t _ => some (t, now)
    | _ => none
  | _ => none

def weightedTime (s : SchedState) (e : SchedEvent) : ℕ :=
  (s.charged e).elim 0 fun p => (s.tasks p.1).weightedTime p.2

/-- The scheduler with the sum of the weighted run times that were charged. -/
def timedStep (x : SchedState × ℕ) (e : SchedEvent) : Option (SchedState × ℕ) :=
  (x.1.step e).map (·, x.2 + x.1.weightedTime e)

/-- The weighted run times do not add up to `2 ^ 64`. -/
def Within (x : SchedState × ℕ) (e : SchedEvent) : Prop := x.2 + x.1.weightedTime e < 2 ^ 64
deriving Decidable

/-- No virtual time is above `v`: not the base, nor that of a task, of a queued entry or of one that was taken out. -/
structure Below (s : SchedState) (v : ℕ) : Prop where
  base : s.minVruntime ≤ v
  tasks : ∀ t, (s.tasks t).vruntime ≤ v
  queue : ∀ e ∈ s.queue, e.vruntime ≤ v
  taken : ∀ a, ∀ e ∈ (s.pc a).entry, e.vruntime ≤ v

structure Later (s s' : SchedState) : Prop where
  base : s.minVruntime ≤ s'.minVruntime
  tasks : ∀ u, (s.tasks u).life ≠ .unborn →
    (s'.tasks u).life ≠ .unborn ∧ (s.tasks u).vruntime ≤ (s'.tasks u).vruntime

variable {s s' s₁ : SchedState} {a : Agent} {t h : ℕ}

lemma Later.same (hmin : s.minVruntime ≤ s'.minVruntime) (htasks : s'.tasks = s.tasks) : Later s s' :=
  ⟨hmin, fun u hu => by rw [htasks]; exact ⟨hu, le_rfl⟩⟩

lemma Later.change (hmin : s'.minVruntime = s.minVruntime) (htasks : s'.tasks = update s.tasks t task)
    (hlife : (s.tasks t).life ≠ .unborn → task.life ≠ .unborn ∧ (s.tasks t).vruntime ≤ task.vruntime) : Later s s' := by
  refine ⟨hmin.ge, fun u hu => ?_⟩
  rw [htasks]
  by_cases hut : u = t
  · subst hut
    rw [update_self]
    exact hlife hu
  · rw [update_of_ne hut]
    exact ⟨hu, le_rfl⟩

lemma Later.trans (h : Later s s₁) (h' : Later s₁ s') : Later s s' := by
  refine ⟨h.base.trans h'.base, fun u hu => ?_⟩
  obtain ⟨hl, hv⟩ := h.tasks u hu
  exact ⟨(h'.tasks u hl).1, hv.trans (h'.tasks u hl).2⟩

lemma advanceMinVruntime_le {queue : List CfsEntry} {m c v : ℕ} (hm : m ≤ v) (hc : c ≤ v) :
    advanceMinVruntime queue m c ≤ v := by
  have hle : queue.foldl (fun m e => min m e.vruntime) c ≤ v := by
    induction queue generalizing c with
    | nil => exact hc
    | cons e queue ih => exact ih ((min_le_left _ _).trans hc)
  exact max_le hm hle

section

variable {v m : ℕ} {p : SchedPc} {task : SchedTask} {queue : List CfsEntry} {lock : Option Agent} {c : Option ℕ}

lemma Below.goto (h : s.Below v) (hp : ∀ e ∈ p.entry, e.vruntime ≤ v) : (s.goto a p).Below v := by
  refine ⟨h.base, h.tasks, h.queue, fun b => ?_⟩
  by_cases hb : b = a
  · subst hb
    simpa only [SchedState.goto, update_self] using hp
  · simpa only [SchedState.goto, update_of_ne hb] using h.taken b

lemma Below.setTask (h : s.Below v) (htask : task.vruntime ≤ v) : (s.setTask t task).Below v := by
  refine ⟨h.base, fun u => ?_, h.queue, h.taken⟩
  by_cases hu : u = t
  · subst hu
    simpa only [SchedState.setTask, update_self] using htask
  · simpa only [SchedState.setTask, update_of_ne hu] using h.tasks u

lemma Below.setLock (h : s.Below v) : (s.setLock lock).Below v := ⟨h.base, h.tasks, h.queue, h.taken⟩

lemma Below.setCurrent {i : ℕ} (h : s.Below v) : (s.setCurrent i c).Below v := ⟨h.base, h.tasks, h.queue, h.taken⟩

lemma Below.setQueue (h : s.Below v) (hqueue : ∀ e ∈ queue, e.vruntime ≤ v) : (s.setQueue queue).Below v :=
  ⟨h.base, h.tasks, hqueue, h.taken⟩

lemma Below.setMinVruntime (h : s.Below v) (hm : m ≤ v) : (s.setMinVruntime m).Below v :=
  ⟨hm, h.tasks, h.queue, h.taken⟩

lemma entry_next (caller : AddCaller) : caller.next.entry = none := by cases caller <;> rfl

attribute [local grind ←] Below.goto Below.setTask Below.setLock Below.setCurrent Below.setQueue Below.setMinVruntime
  advanceMinVruntime_le
attribute [local grind] SchedPc.entry setStatus addDone
attribute [local grind →] Below.base Below.queue Below.taken
attribute [local grind =] entry_next

lemma Below.runStep (h : s.Below v) (hs : s.runStep a = some s') : s'.Below v := by
  have htasks := h.tasks
  have hbase := h.base
  have htaken := h.taken a
  unfold SchedState.runStep at hs
  split at hs
  · next point _ _ =>
    cases point <;> simp only [addStep] at hs <;> grind
  · grind
  split at hs
  · simp only [hartStep, examineStep, fetchNone] at hs
    repeat' split at hs
    all_goals cases hs
    all_goals grind
  · cases hs

lemma below_initial (harts : ℕ) : (initial harts).Below 0 :=
  ⟨le_rfl, fun _ => le_rfl, fun _ he => absurd he List.not_mem_nil, fun b e he => by cases b <;> cases he⟩

lemma Below.mono {w : ℕ} (h : s.Below v) (hvw : v ≤ w) : s.Below w :=
  ⟨h.base.trans hvw, fun t => (h.tasks t).trans hvw, fun e he => (h.queue e he).trans hvw,
    fun b e he => (h.taken b e he).trans hvw⟩

lemma Below.step {e : SchedEvent} (h : s.Below v) (hw : v + s.weightedTime e < 2 ^ 64) (hs : s.step e = some s') :
    s'.Below (v + s.weightedTime e) := by
  have htasks := h.tasks
  cases e with
  | run b => exact (h.runStep hs).mono (Nat.le_add_right _ _)
  | account i now =>
    simp only [SchedState.step] at hs
    split at hs <;> cases hs
    next t exits hpc =>
    have hcharge : s.weightedTime (.account i now) = (s.tasks t).weightedTime now := by
      simp only [weightedTime, charged, hpc, Option.elim]
    rw [hcharge] at hw ⊢
    refine ((h.mono (Nat.le_add_right _ _)).setTask ?_).goto nofun
    rw [SchedTask.vruntime_accountRuntime (by have := h.tasks t; omega)]
    exact Nat.add_le_add_right (h.tasks t) _
  | pop i entry =>
    refine Below.mono ?_ (Nat.le_add_right _ _)
    simp only [SchedState.step] at hs
    repeat' split at hs
    all_goals cases hs
    next hin => exact (h.setQueue fun e he => h.queue e (List.mem_of_mem_erase he)).goto (by grind)
  | _ =>
    refine Below.mono ?_ (Nat.le_add_right _ _)
    simp only [SchedState.step, taskStep] at hs
    repeat' split at hs
    all_goals cases hs
    all_goals grind

end

lemma later_addStep {caller : AddCaller} {point : AddPoint} (hs : s.addStep a t caller point = some s') :
    Later s s' := by
  cases point with
  | push =>
    cases hs
    exact .change rfl rfl fun hu => ⟨hu, le_max_left _ _⟩
  | lock | status | cpu | mark =>
    simp only [addStep] at hs
    split_ifs at hs
    all_goals cases hs
    all_goals first
      | exact .same le_rfl rfl
      | exact .change rfl rfl fun hu => ⟨hu, le_rfl⟩

lemma later_runStep (hs : s.runStep a = some s') : Later s s' := by
  unfold runStep at hs
  split at hs
  · exact later_addStep hs
  · cases hs
    exact .same le_rfl rfl
  split at hs
  · simp only [hartStep, examineStep] at hs
    repeat' split at hs
    all_goals cases hs
    -- the base is only ever raised, and the tasks change in their other fields
    all_goals first
      | exact .same le_rfl rfl
      | exact .same (le_max_left _ _) rfl
      | exact .change rfl rfl fun hu => ⟨hu, le_rfl⟩
  · cases hs

lemma later_step {e : SchedEvent} {v : ℕ} (hb : s.Below v) (hw : v + s.weightedTime e < 2 ^ 64)
    (hs : s.step e = some s') : Later s s' := by
  cases e with
  | run a => exact later_runStep hs
  | account h now =>
    simp only [step] at hs
    split at hs <;> cases hs
    next t exits hpc =>
    simp only [weightedTime, charged, hpc, Option.elim] at hw
    refine .change rfl rfl fun hu => ?_
    rw [SchedTask.life_accountRuntime, SchedTask.vruntime_accountRuntime (by have := hb.tasks t; omega)]
    exact ⟨hu, Nat.le_add_right _ _⟩
  | create w t tid nice affinity hart =>
    simp only [step] at hs
    repeat' split at hs
    all_goals cases hs
    next hu => exact .change rfl rfl fun hb => absurd hu hb
  | drop t =>
    obtain ⟨-, rfl⟩ := of_guard hs
    exact .change rfl rfl fun _ => ⟨nofun, le_rfl⟩
  | _ =>
    simp only [step, taskStep] at hs
    repeat' split at hs
    all_goals cases hs
    all_goals first
      | exact .same le_rfl rfl
      | exact .change rfl rfl fun hu => ⟨hu, le_rfl⟩

/-- In every run in which the weighted run times add up to less than `2 ^ 64`, the base never goes back, nor does the
time of a task, and a task is queued with a key at or above the base. -/
theorem vruntime_monotone {harts n n' : ℕ} (h : Reaches timedStep Within (initial harts, 0) (s, n))
    (h' : Reaches timedStep Within (s, n) (s', n')) :
    s.minVruntime ≤ s'.minVruntime ∧ (∀ u, (s.tasks u).life ≠ .unborn → (s.tasks u).vruntime ≤ (s'.tasks u).vruntime) ∧
      ∀ a u caller t, s'.pc a = .add u .push caller → s'.step (.run a) = some t →
        ∃ k, t.queue = k :: s'.queue ∧ k.task = u ∧ k.vruntime = (t.tasks u).vruntime ∧
          s'.minVruntime ≤ k.vruntime := by
  have hstep : ∀ x e y, x.1.Below x.2 → Within x e → timedStep x e = some y → y.1.Below y.2 ∧ Later x.1 y.1 := by
    rintro ⟨s, v⟩ e y hb hw hs
    obtain ⟨s', hs', rfl⟩ := Option.map_eq_some_iff.1 hs
    exact ⟨hb.step hw hs', later_step hb hw hs'⟩
  have hbelow : s.Below n :=
    h.invariant (I := fun x => x.1.Below x.2) (fun x e y hb hw hs => (hstep x e y hb hw hs).1) (below_initial harts)
  have hlater : s'.Below n' ∧ Later s s' := by
    refine h'.invariant (I := fun x => x.1.Below x.2 ∧ Later s x.1) (fun x e y hx hw hs => ?_) ⟨hbelow, ?_⟩
    · obtain ⟨hb, hl⟩ := hstep x e y hx.1 hw hs
      exact ⟨hb, hx.2.trans hl⟩
    · exact .same le_rfl rfl
  refine ⟨hlater.2.base, fun u hu => (hlater.2.tasks u hu).2, fun a u caller t hpc ht => ?_⟩
  simp only [step, runStep, hpc, addStep] at ht
  cases ht
  exact ⟨_, rfl, rfl, by simp [addDone, setQueue, setTask, setLock, goto], le_max_right _ _⟩

/-- Task 1 is created and put on the queue of the only hart. -/
def start : List SchedEvent := .create 0 1 10 19 1 0 :: List.replicate 5 (.run (.waker 0)) ++ [.run (.hart 0)]

/-- The task with time `v` is selected at tick 0 and leaves the hart at tick `now`. -/
def turn (v now : ℕ) : List SchedEvent :=
  .run (.hart 0) :: .pop 0 ⟨v, 10, 1⟩ :: List.replicate 5 (.run (.hart 0)) ++
    [.markRunning 0 0, .run (.hart 0), .run (.hart 0), .suspend 0, .run (.hart 0), .run (.hart 0), .account 0 now]

theorem vruntime_monotone_turn :
    let x := run timedStep (initial 1, 0) start
    let y := run timedStep x (turn 0 15)
    (x.1.tasks 1).vruntime ≤ (y.1.tasks 1).vruntime ∧ y.2 = 1024 :=
  ⟨(vruntime_monotone (Reaches.run (by decide)) (Reaches.run (by decide))).2.1 1 (by decide), by decide⟩

/-- A charge that saturates takes the counter to its end, and the next one past it. -/
theorem vruntime_wraps :
    let events := start ++ turn 0 (2 ^ 63)
    let more := events ++ List.replicate 8 (.run (.hart 0)) ++ turn (2 ^ 64 - 1) 1
    Admits step (fun _ _ => True) (initial 1) more ∧ ((run step (initial 1) events).tasks 1).life = .live ∧
      ((run step (initial 1) more).tasks 1).vruntime < ((run step (initial 1) events).tasks 1).vruntime := by
  decide +kernel

end SchedState

end Ya2yOS.Task
