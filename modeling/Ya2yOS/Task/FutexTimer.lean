import Ya2yOS.Task.Futex

/-!
# The timeout handler

`handle_timer` expects a queue at the place its task has recorded. A queue leaves the map only in `futex_requeue`,
behind the record of a wait that a signal has ended.
-/

namespace Ya2yOS.Task

open Function Lib List

def FutexTask.Keeps (old new : FutexTask) : Prop :=
  new.freed = old.freed ∧ (new.futexKey = 0 ∨ new.futexKey = old.futexKey ∧ new.futexPa = old.futexPa)

lemma FutexTask.Keeps.refl (task : FutexTask) : task.Keeps task := ⟨rfl, .inr ⟨rfl, rfl⟩⟩

lemma FutexTask.Keeps.trans {a b c : FutexTask} (hab : a.Keeps b) (hbc : b.Keeps c) : a.Keeps c := by
  refine ⟨hbc.1.trans hab.1, ?_⟩
  rcases hbc.2 with h0 | ⟨hkey, hpa⟩
  · exact .inl h0
  · rw [hkey, hpa]
    exact hab.2

variable {pa t : ℕ} {q : FutexQueues}

lemma FutexTask.Keeps.update {tasks : FutexTasks} {task : FutexTask} (h : (tasks t).Keeps task) (u : ℕ) :
    (tasks u).Keeps (update tasks t task u) := by
  by_cases hu : u = t
  · subst hu
    rwa [update_self]
  · rw [update_of_ne hu]
    exact .refl _

lemma wakeupFutexTask_keeps (tasks : FutexTasks) (t key u : ℕ) :
    (tasks u).Keeps ((wakeupFutexTask tasks t key).2 u) := by
  unfold wakeupFutexTask
  split
  · apply FutexTask.Keeps.update
    exact ⟨rfl, .inl rfl⟩
  · exact .refl _

lemma timeoutFutexTask_keeps (tasks : FutexTasks) (t key u : ℕ) :
    (tasks u).Keeps ((timeoutFutexTask tasks t key).2 u) := by
  unfold timeoutFutexTask
  split
  · apply FutexTask.Keeps.update
    exact ⟨rfl, .inl rfl⟩
  · exact .refl _

lemma wakeLoop_keeps (maxNum : ℕ) (bitset : BitVec 32) (n : ℕ) (r : WakeScan) (u : ℕ) :
    (r.tasks u).Keeps ((wakeLoop maxNum bitset n r).tasks u) := by
  induction n generalizing r with
  | zero => exact .refl _
  | succ n ih =>
    unfold wakeLoop
    split
    · exact .refl _
    split
    · exact .refl _
    split
    · exact ih _
    split
    · exact (wakeupFutexTask_keeps r.tasks _ _ u).trans (ih _)
    · exact ih _

lemma FutexQueues.putBack_isSome_iff {oldPa newPa : ℕ} {r : RequeueScan} :
    (q.putBack oldPa newPa r pa).isSome = true ↔
      pa = oldPa ∧ r.retained ≠ [] ∨ pa = newPa ∧ r.moved ≠ [] ∨ pa ≠ oldPa ∧ (q pa).isSome = true := by
  by_cases hr : r.retained = [] <;> by_cases hm : r.moved = [] <;> by_cases hpo : pa = oldPa <;>
    by_cases hpn : pa = newPa <;> by_cases hon : oldPa = newPa <;>
    simp_all [putBack, insertNonempty, extend, update_apply]

def RequeueScan.Hangs (r : RequeueScan) (q : FutexQueues) (oldPa newPa : ℕ) (rest : List FutexWaiter) : Prop :=
  ∀ u, (r.tasks u).freed = false → (r.tasks u).futexKey ≠ 0 →
    (q.putBack oldPa newPa r (r.tasks u).futexPa).isSome = true ∨
      (r.tasks u).futexPa = oldPa ∧ ∃ w ∈ rest, w.task = u ∧ (r.tasks u).sleepsOn w.futexKey = true

variable {q : FutexQueues} {oldPa newPa : ℕ} {w : FutexWaiter} {rest : List FutexWaiter} {r : RequeueScan}

lemma RequeueScan.Hangs.drop (h : r.Hangs q oldPa newPa (w :: rest))
    (hw : (r.tasks w.task).freed = true ∨ (r.tasks w.task).sleepsOn w.futexKey = false) :
    r.Hangs q oldPa newPa rest := by
  intro u hfreed hkey
  rcases h u hfreed hkey with hq | ⟨hpa, w', hw', rfl, hsleep⟩
  · exact .inl hq
  rcases mem_cons.1 hw' with rfl | hw'
  · rcases hw with hf | hs
    · rw [hf] at hfreed
      cases hfreed
    · rw [hs] at hsleep
      cases hsleep
  · exact .inr ⟨hpa, w', hw', rfl, hsleep⟩

lemma RequeueScan.Hangs.wake {woken : List FutexWaiter} (h : r.Hangs q oldPa newPa (w :: rest)) :
    { r with tasks := (wakeupFutexTask r.tasks w.task w.futexKey).2, woken := woken }.Hangs q oldPa newPa rest := by
  by_cases hsleep : (r.tasks w.task).sleepsOn w.futexKey = true
  · simp only [wakeupFutexTask, if_pos hsleep]
    intro u hfreed hkey
    by_cases hu : u = w.task
    · subst hu
      simp only [update_self, ne_eq, not_true_eq_false] at hkey
    · simp only [update_of_ne hu] at hfreed hkey ⊢
      rcases h u hfreed hkey with hq | ⟨hpa, w', hw', rfl, hs⟩
      · exact .inl hq
      · exact .inr ⟨hpa, w', (mem_cons.1 hw').resolve_left fun heq => hu (heq ▸ rfl), rfl, hs⟩
  · simp only [wakeupFutexTask, if_neg hsleep]
    exact h.drop (.inr (by simpa using hsleep))

lemma RequeueScan.Hangs.move (h : r.Hangs q oldPa newPa (w :: rest)) : { r with
      tasks := (requeueFutexTask r.tasks w.task w.futexKey newPa).2
      moved := if (requeueFutexTask r.tasks w.task w.futexKey newPa).1 then r.moved ++ [w] else r.moved
      }.Hangs q oldPa newPa rest := by
  by_cases hsleep : (r.tasks w.task).sleepsOn w.futexKey = true
  · simp only [requeueFutexTask, if_pos hsleep, if_true]
    intro u hfreed hkey
    by_cases hu : u = w.task
    · subst hu
      left
      rw [FutexQueues.putBack_isSome_iff]
      simp
    · simp only [update_of_ne hu] at hfreed hkey ⊢
      rcases h u hfreed hkey with hq | ⟨hpa, w', hw', rfl, hs⟩
      · left
        rw [FutexQueues.putBack_isSome_iff] at hq ⊢
        simp only [ne_eq, append_eq_nil_iff, cons_ne_self, and_false, not_false_eq_true, and_true]
        tauto
      · exact .inr ⟨hpa, w', (mem_cons.1 hw').resolve_left fun heq => hu (heq ▸ rfl), rfl, hs⟩
  · simp only [requeueFutexTask, if_neg hsleep, Bool.false_eq_true, if_false]
    exact h.drop (.inr (by simpa using hsleep))

lemma RequeueScan.Hangs.retain (h : r.Hangs q oldPa newPa (w :: rest)) :
    { r with retained := r.retained ++ [w] }.Hangs q oldPa newPa rest := by
  intro u hfreed hkey
  left
  rw [FutexQueues.putBack_isSome_iff]
  rcases h u hfreed hkey with hq | ⟨hpa, -⟩
  · rw [FutexQueues.putBack_isSome_iff] at hq
    simp only [ne_eq, append_eq_nil_iff, cons_ne_self, and_false, not_false_eq_true, and_true]
    tauto
  · exact .inl ⟨hpa, by simp⟩

lemma RequeueScan.Hangs.requeueLoop {wakeLimit requeueLimit : ℕ} (h : r.Hangs q oldPa newPa rest) :
    (requeueLoop wakeLimit requeueLimit newPa rest r).Hangs q oldPa newPa [] := by
  induction rest generalizing r with
  | nil => exact h
  | cons w rest ih =>
    unfold Task.requeueLoop
    split
    · next hfreed => exact ih (h.drop (.inl hfreed))
    split
    · exact ih h.wake
    split
    · exact ih h.move
    · exact ih h.retain

lemma requeueFutexTask_freed (tasks : FutexTasks) (t key newPa u : ℕ) :
    ((requeueFutexTask tasks t key newPa).2 u).freed = (tasks u).freed := by
  unfold requeueFutexTask
  split
  · by_cases hu : u = t <;> simp [hu]
  · rfl

lemma requeueLoop_freed (wakeLimit requeueLimit newPa : ℕ) (rest : List FutexWaiter) (r : RequeueScan) (u : ℕ) :
    ((requeueLoop wakeLimit requeueLimit newPa rest r).tasks u).freed = (r.tasks u).freed := by
  induction rest generalizing r with
  | nil => rfl
  | cons w rest ih =>
    unfold requeueLoop
    split
    · exact ih _
    split
    · exact (ih _).trans (wakeupFutexTask_keeps r.tasks _ _ u).1
    split
    · exact (ih _).trans (requeueFutexTask_freed r.tasks _ _ _ u)
    · exact ih _

namespace FutexState

variable {s s' : FutexState} {e : FutexEvent} {key pa' : ℕ}

/-! ### The invariant -/

/-- The condition on a step: the key counter does not wrap, and every record at the queue that a
requeue takes belongs to a wait that still sleeps there. -/
def Hooked (s : FutexState) : FutexEvent → Prop
  | .wait _ _ => s.keyCounter + 1 < 2 ^ 64
  | .rescan t =>
    match s.pc t with
    | .rescan oldPa _ _ _ => ∀ u, (s.tasks u).freed = false → (s.tasks u).futexKey ≠ 0 →
        (s.tasks u).futexPa = oldPa →
        ∃ w ∈ (s.queues oldPa).getD [], w.task = u ∧ (s.tasks u).sleepsOn w.futexKey = true
    | _ => True
  | _ => True

/-- Every record names a queue of the map; no timer has the key that stands for no wait. -/
structure Recorded (s : FutexState) : Prop where
  queue : ∀ u, (s.tasks u).freed = false → (s.tasks u).futexKey ≠ 0 →
    (s.queues (s.tasks u).futexPa).isSome = true
  key : ∀ u k, (s.pc u).key = some k → k ≠ 0
  timers : ∀ p ∈ s.timers, p.2 ≠ 0
  firing : ∀ p ∈ s.firing, p.2 ≠ 0 ∧ (s.tasks p.1).freed = false
  panicked : s.panicked = false

lemma Recorded.queue_of_keeps (hs : s.Recorded) (htasks : ∀ u, (s.tasks u).Keeps (s'.tasks u))
    (hqueues : ∀ pa, (s.queues pa).isSome = true → (s'.queues pa).isSome = true) (u : ℕ)
    (hfreed : (s'.tasks u).freed = false) (hkey : (s'.tasks u).futexKey ≠ 0) :
    (s'.queues (s'.tasks u).futexPa).isSome = true := by
  obtain ⟨hold, h0 | ⟨heq, hpa⟩⟩ := htasks u
  · exact absurd h0 hkey
  · rw [hpa]
    exact hqueues _ (hs.queue u (hold ▸ hfreed) (heq ▸ hkey))

lemma isSome_update {l : List FutexWaiter} (h : (q pa).isSome = true) : (update q pa' (some l) pa).isSome = true := by
  rw [update_apply]
  split_ifs
  exacts [rfl, h]

lemma isSome_unhook (h : (q pa).isSome = true) : (q.unhook pa' key pa).isSome = true := by
  cases hl : q pa' with
  | none => simpa only [FutexQueues.unhook, hl] using h
  | some l =>
    simp only [FutexQueues.unhook, hl]
    exact isSome_update h

lemma wakeUp_keeps (s : FutexState) (pa : ℕ) (n : ℤ) (b : BitVec 32) :
    (∀ u, (s.tasks u).Keeps ((s.wakeUp pa n b).tasks u)) ∧
      ∀ p, (s.queues p).isSome = true → ((s.wakeUp pa n b).queues p).isSome = true := by
  unfold wakeUp
  split
  · exact ⟨fun u => .refl _, fun p h => h⟩
  · exact ⟨fun u => wakeLoop_keeps _ _ _ _ u, fun p h => isSome_update h⟩

lemma timeOut_keeps (s : FutexState) (t key : ℕ) : (∀ u, (s.tasks u).Keeps ((s.timeOut t key).tasks u)) ∧
    ∀ p, (s.queues p).isSome = true → ((s.timeOut t key).queues p).isSome = true := by
  simp only [timeOut]
  split
  · exact ⟨fun u => .refl _, fun p h => h⟩
  split
  · exact ⟨fun u => .refl _, fun p h => h⟩
  split
  · exact ⟨fun u => timeoutFutexTask_keeps _ _ _ u, fun p h => isSome_update h⟩
  · exact ⟨fun u => .refl _, fun p h => h⟩

lemma queue_requeueUp (hs : s.Recorded) {n m : ℤ}
    (hooked : ∀ u, (s.tasks u).freed = false → (s.tasks u).futexKey ≠ 0 → (s.tasks u).futexPa = oldPa →
      ∃ w ∈ (s.queues oldPa).getD [], w.task = u ∧ (s.tasks u).sleepsOn w.futexKey = true) (u : ℕ)
    (hfreed : ((s.requeueUp oldPa n newPa m).tasks u).freed = false)
    (hkey : ((s.requeueUp oldPa n newPa m).tasks u).futexKey ≠ 0) :
    ((s.requeueUp oldPa n newPa m).queues ((s.requeueUp oldPa n newPa m).tasks u).futexPa).isSome = true := by
  revert hfreed hkey
  unfold requeueUp
  split
  · exact hs.queue u
  next l hl =>
  intro hfreed hkey
  have hstart : RequeueScan.Hangs ⟨s.tasks, [], [], []⟩ s.queues oldPa newPa l := by
    intro v hv hk
    by_cases hpa : (s.tasks v).futexPa = oldPa
    · right
      have := hooked v hv hk hpa
      rw [hl] at this
      exact ⟨hpa, this⟩
    · left
      rw [FutexQueues.putBack_isSome_iff]
      exact .inr (.inr ⟨hpa, hs.queue v hv hk⟩)
  rcases hstart.requeueLoop u hfreed hkey with hq | ⟨-, w, hw, -⟩
  · exact hq
  · cases hw

lemma queue_step (hs : s.Recorded) (hg : s.Hooked e) (h : FutexStep s e s') (u : ℕ)
    (hfreed : (s'.tasks u).freed = false) (hkey : (s'.tasks u).futexKey ≠ 0) :
    (s'.queues (s'.tasks u).futexPa).isSome = true := by
  have hset : ∀ {t : ℕ} {task : FutexTask}, (s.tasks t).Keeps task →
      ∀ v, (s.tasks v).Keeps (update s.tasks t task v) := fun h v => h.update v
  cases h with
  | @enqueue t key w hpc hsig =>
    simp only [goto, setTask] at hfreed hkey ⊢
    by_cases hu : u = t
    · subst hu
      simp [FutexQueues.extend]
    · rw [update_of_ne hu] at hfreed hkey ⊢
      exact isSome_update (hs.queue u hfreed hkey)
  | rescan hpc hlock =>
    simp only [Hooked, hpc] at hg
    exact queue_requeueUp hs hg u hfreed hkey
  | scan => exact hs.queue_of_keeps (s.wakeUp_keeps _ _ _).1 (s.wakeUp_keeps _ _ _).2 u hfreed hkey
  | @handleTimer t key =>
    exact hs.queue_of_keeps (s.timeOut_keeps t key).1 (s.timeOut_keeps t key).2 u hfreed hkey
  | unhook | unlink =>
    refine hs.queue_of_keeps ?_ ?_ u hfreed hkey
    · exact fun v => .refl _
    · exact fun pa => isSome_unhook
  | clear =>
    refine hs.queue_of_keeps ?_ ?_ u hfreed hkey
    · exact hset ⟨rfl, .inl rfl⟩
    · exact fun pa h => h
  | @free t =>
    simp only [setTask] at hfreed hkey ⊢
    by_cases hu : u = t
    · subst hu
      simp at hfreed
    · rw [update_of_ne hu] at hfreed hkey ⊢
      exact hs.queue u hfreed hkey
  | resumeTimeout | dispatch | signal | handled | block | unblock =>
    refine hs.queue_of_keeps ?_ ?_ u hfreed hkey
    · exact hset ⟨rfl, .inr ⟨rfl, rfl⟩⟩
    · exact fun pa h => h
  | _ => exact hs.queue u hfreed hkey

lemma freed_step (h : FutexStep s e s') {u : ℕ} (hu : e ≠ .free u) : (s'.tasks u).freed = (s.tasks u).freed := by
  cases h with
  | scan => exact ((s.wakeUp_keeps _ _ _).1 u).1
  | @rescan _ oldPa newPa n m =>
    unfold requeueUp
    split
    · rfl
    · exact requeueLoop_freed _ _ _ _ _ u
  | @handleTimer t key => exact ((s.timeOut_keeps t key).1 u).1
  | @enqueue t | @resumeTimeout t | @dispatch t | @signal t | @handled t | @block t | @unblock t | @clear t =>
    by_cases heq : u = t <;> simp [goto, setTask, heq]
  | @free t =>
    have hne : u ≠ t := fun heq => hu (by rw [heq])
    simp only [setTask, update_of_ne hne]
  | _ => rfl

lemma timers_step (hs : s.Recorded) (h : FutexStep s e s') : ∀ p ∈ s'.timers, p.2 ≠ 0 := by
  cases h with
  | @arm t key w hpc =>
    intro p hp
    simp only at hp
    split at hp
    · rcases mem_cons.1 hp with rfl | hp
      · exact hs.key t key (by rw [hpc]; rfl)
      · exact hs.timers p hp
    · exact hs.timers p hp
  | expireFreed | expire => exact fun p hp => hs.timers p (mem_of_mem_erase hp)
  | _ => exact hs.timers

lemma firing_step (hs : s.Recorded) (h : FutexStep s e s') :
    ∀ p ∈ s'.firing, p.2 ≠ 0 ∧ (s'.tasks p.1).freed = false := by
  suffices hold : ∀ p ∈ s'.firing, p.2 ≠ 0 ∧ (s.tasks p.1).freed = false ∧ e ≠ .free p.1 by
    intro p hp
    obtain ⟨hkey, hfreed, hne⟩ := hold p hp
    exact ⟨hkey, (freed_step h hne).trans hfreed⟩
  have hs := hs.firing
  cases h with
  | expire hmem hfreed =>
    intro p hp
    rcases mem_cons.1 hp with rfl | hp
    · exact ⟨‹s.Recorded›.timers _ hmem, hfreed, nofun⟩
    · exact ⟨(hs p hp).1, (hs p hp).2, nofun⟩
  | free hidle hfiring =>
    intro p hp
    refine ⟨(hs p hp).1, (hs p hp).2, ?_⟩
    rintro heq
    cases heq
    exact hfiring p.2 hp
  | handleTimer =>
    exact fun p hp => ⟨(hs p (mem_of_mem_erase hp)).1, (hs p (mem_of_mem_erase hp)).2, nofun⟩
  | _ => exact fun p hp => ⟨(hs p hp).1, (hs p hp).2, nofun⟩

lemma Recorded.expected (hs : s.Recorded) (hf : (t, key) ∈ s.firing) (hkey : (s.tasks t).futexKey = key) :
    (s.queues (s.tasks t).futexPa).isSome = true := by
  obtain ⟨h0, hfreed⟩ := hs.firing _ hf
  exact hs.queue t hfreed (hkey ▸ h0)

lemma panicked_step (hs : s.Recorded) (h : FutexStep s e s') : s'.panicked = false := by
  cases h with
  | @handleTimer t key hf =>
    simp only [timeOut]
    split
    · exact hs.panicked
    next hkey =>
    have hq := hs.expected hf (not_not.1 hkey)
    split
    · next hnone => simp [hnone] at hq
    · split <;> exact hs.panicked
  | _ => exact hs.panicked

lemma recorded_step (hs : s.Recorded) (hg : s.Hooked e) (h : s.step e = some s') : s'.Recorded := by
  obtain ⟨s₁, hact, rfl⟩ := Option.map_eq_some_iff.1 h
  have hstep := act_step hact
  have hkey : ∀ u k, (s₁.pc u).key = some k → k ≠ 0 := by
    intro u k hk
    rcases key_step hstep hk with hk | ⟨⟨w, rfl⟩, rfl⟩
    · exact hs.key u k hk
    · simp only [Hooked] at hg
      rw [newFutexKey, Nat.mod_eq_of_lt hg]
      exact Nat.succ_ne_zero _
  have hs₁ : s₁.Recorded :=
    ⟨queue_step hs hg hstep, hkey, timers_step hs hstep, firing_step hs hstep, panicked_step hs hstep⟩
  exact ⟨hs₁.queue, hs₁.key, hs₁.timers, hs₁.firing, hs₁.panicked⟩

lemma recorded_initial (mem : ℕ → Option ℤ) : (initial mem).Recorded :=
  ⟨fun _ _ h => absurd rfl h, fun _ _ h => (nomatch h), fun _ h => (nomatch h), fun _ h => (nomatch h), rfl⟩

/-- In every run whose requeues leave no record behind, `handle_timer` finds its queue. -/
theorem hooked_run_not_panicked {mem : ℕ → Option ℤ} (h : Reaches step Hooked (initial mem) s) :
    s.panicked = false ∧ ∀ t key, (t, key) ∈ s.firing → (s.tasks t).futexKey = key →
      (s.queues (s.tasks t).futexPa).isSome = true := by
  have hs : s.Recorded := h.invariant (fun _ _ _ hs hg hstep => recorded_step hs hg hstep) (recorded_initial mem)
  exact ⟨hs.panicked, fun t key hf hkey => hs.expected hf hkey⟩

/-- Thread 1 sleeps with a timeout, and thread 2 is about to requeue it. -/
def timedWait : FutexState :=
  run step (initial fun _ => some 0) [.wait 1 ⟨0x1000, 4, 0, BitVec.allOnes 32, true⟩, .read 1, .load 1, .lock 1,
    .recheck 1, .enqueue 1, .arm 1, .requeue 2 0x1000 0 0x2000 1]

lemma timedWait_reached : Reaches step Hooked (initial fun _ => some 0) timedWait :=
  Reaches.run ⟨Nat.one_lt_two_pow (by decide), rfl, trivial, rfl, trivial, rfl, trivial, rfl, trivial, rfl, trivial,
    rfl, trivial, rfl, trivial, rfl, trivial⟩

lemma timedWait_hooked : timedWait.Hooked (.rescan 2) := by
  have htasks : timedWait.tasks = update (fun _ => ⟨.running, 0, 0, false, false, false⟩) 1
      ⟨.blocked, 1, 0x1000, false, false, false⟩ := rfl
  rintro u - hkey -
  by_cases hu : u = 1
  · subst hu
    exact ⟨_, mem_singleton.2 rfl, rfl, rfl⟩
  · rw [htasks, update_of_ne hu] at hkey
    exact absurd rfl hkey

def requeuedTimeout : FutexState := run step timedWait [.rescan 2, .expire 1 1]

theorem hooked_run_not_panicked_requeued : (requeuedTimeout.tasks 1).futexPa = 0x2000 ∧
    (requeuedTimeout.queues 0x2000).isSome = true ∧ requeuedTimeout.panicked = false := by
  have hrun : Reaches step Hooked (initial fun _ => some 0) requeuedTimeout :=
    timedWait_reached.trans (Reaches.run ⟨timedWait_hooked, rfl, trivial, rfl, trivial⟩)
  obtain ⟨hpanic, hqueue⟩ := hooked_run_not_panicked hrun
  exact ⟨rfl, hqueue 1 1 (mem_singleton.2 rfl) rfl, hpanic⟩

/-- A signal ends the wait of thread 1, thread 2 requeues the queue it has left, and its timer fires. -/
def staleRecord : FutexState :=
  run step (initial fun _ => some 0) [.wait 1 ⟨0x1000, 4, 0, BitVec.allOnes 32, true⟩, .read 1, .load 1, .lock 1,
    .recheck 1, .enqueue 1, .arm 1, .signal 1 true, .dispatch 1, .resume 1, .unhookBump 1, .unhook 1,
    .requeue 2 0x1000 0 0x2000 1, .rescan 2, .expire 1 1, .handleTimer 1 1]

theorem staleRecord_panics : Reaches step (fun _ _ => True) (initial fun _ => some 0) staleRecord ∧
    staleRecord.panicked = true := by
  refine ⟨Reaches.run (by decide), rfl⟩

end FutexState

end Ya2yOS.Task
