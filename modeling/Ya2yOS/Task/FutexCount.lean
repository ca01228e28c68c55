import Ya2yOS.Task.FutexLedger
import Ya2yOS.Task.FutexScan

/-!
# Counted wakes

A wake counts a waiter under its lock, but the waiter decides what it returns when it runs again.
Unless a signal gets in between, it returns success.
-/

namespace Ya2yOS.Task

open Function Lib List FutexQueues FutexPc

namespace FutexState

variable {s s' : FutexState} {e : FutexEvent} {owner : ℕ → ℕ} {k key t : ℕ}

/-- The condition on a step: the key counter does not wrap, and no signal is deliverable to a counted
waiter when it runs again. -/
def Undisturbed (s : FutexState) : FutexEvent → Prop
  | .wait _ _ => s.keyCounter + 1 < 2 ^ 64
  | .resume t =>
    match s.pc t with
    | .asleep _ key => (t, key) ∈ s.counted → (s.tasks t).deliverable = false
    | _ => True
  | _ => True

lemma subperm_eraseP {hooks : ℕ → List FutexWaiter} (pa key p : ℕ) :
    (update hooks pa ((hooks pa).eraseP (·.futexKey = key)) p).Subperm (hooks p) := by
  by_cases hp : p = pa
  · subst hp
    rw [update_self]
    exact eraseP_sublist.subperm
  · rw [update_of_ne hp]

lemma futexKey_ne_of_mem_eraseP {q : List FutexWaiter} (h : (q.map FutexWaiter.futexKey).Nodup)
    {w : FutexWaiter} (hw : w ∈ q.eraseP (·.futexKey = key)) : w.futexKey ≠ key := by
  induction q with
  | nil => cases hw
  | cons x q ih =>
    rw [map_cons, nodup_cons] at h
    by_cases hx : x.futexKey = key
    · rw [eraseP_cons_of_pos (by simpa using hx)] at hw
      rintro rfl
      exact h.1 (hx ▸ mem_map_of_mem hw)
    · rw [eraseP_cons_of_neg (by simpa using hx)] at hw
      rcases mem_cons.1 hw with rfl | hw
      · exact hx
      · exact ih h.2 hw

lemma sound_wakeUp (h : s.ledger.Sound owner) (pa : ℕ) (n : ℤ) (b : BitVec 32) :
    (s.wakeUp pa n b).ledger.Sound owner := by
  unfold wakeUp
  split
  · exact h
  next q hq =>
  have hstart : (s.ledger.scanned pa ⟨s.tasks, [], q⟩).Sound owner := by
    refine h.shrink fun p => ?_
    refine List.Perm.subperm (List.Perm.of_eq ?_)
    by_cases hp : p = pa
    · subst hp
      simp [FutexState.ledger, hq]
    · simp [hp]
  have hend := hstart.wakeLoop (if n ≤ 0 then 1 else n.toNat) b q.length
  simp only [ledger, hooks_update]
  exact hend

lemma sound_requeueUp (h : s.ledger.Sound owner) (oldPa newPa : ℕ) (n m : ℤ) :
    (s.requeueUp oldPa n newPa m).ledger.Sound owner := by
  unfold requeueUp
  split
  · exact h
  next q hq =>
  have hstart : (s.ledger.rescanned oldPa newPa q ⟨s.tasks, [], [], []⟩).Sound owner := by
    refine h.shrink fun p => ?_
    refine List.Perm.subperm (List.Perm.of_eq ?_)
    by_cases hp : p = oldPa
    · subst hp
      simp [FutexState.ledger, hq]
    · simp [hp]
  have hend := hstart.requeueLoop n.toNat m.toNat
  simp only [ledger, hooks_putBack]
  exact hend

lemma sound_timeOut (h : s.ledger.Sound owner) (t key : ℕ) : (s.timeOut t key).ledger.Sound owner := by
  simp only [timeOut]
  split
  · exact h
  split
  · exact h
  next q hq =>
  split
  · have hshrink := h.shrink (subperm_eraseP (s.tasks t).futexPa key)
    have hhooks : s.ledger.hooks (s.tasks t).futexPa = q := by simp [ledger, hq]
    rw [hhooks] at hshrink
    simp only [ledger, hooks_update]
    by_cases hsleep : (s.tasks t).sleepsOn key = true
    · simp only [timeoutFutexTask, if_pos hsleep]
      have hb : (s.tasks t).status = .blocked := by simpa using (Bool.and_eq_true_iff.1 hsleep).1
      exact hshrink.clear _ hb rfl
    · simp only [timeoutFutexTask, if_neg hsleep]
      exact hshrink
  · exact h

lemma sound_abandon (h : s.ledger.Sound owner) (hpc : (s.pc t).pending = some k) (err : SysErrNo) :
    (s.finish t k (.error err)).ledger.Sound owner := by
  refine h.finish (fun h0 => ?_) fun k' hr => ?_
  · refine (h.ended t h0 fun hkey => ?_).imp_left (mem_cons_of_mem _)
    rw [ledger_pc, key_of_pending hpc] at hkey
    exact (h.fresh t k hpc).2.1 (Option.some.inj hkey).symm
  · have hsleeping := hr.sleeping
    rw [ledger_pc] at hsleeping
    cases hs : s.pc t <;> simp_all [pending, sleeping]

lemma sound_unhook (h : s.ledger.Sound owner) {found pa : ℕ} {err : SysErrNo}
    (hpc : s.pc t = .unhook k found pa err) :
    { s.finish t k (.error err) with queues := s.queues.unhook pa found }.ledger.Sound owner := by
  obtain ⟨-, hkey, hpa⟩ := h.unhooks t found pa (by rw [ledger_pc, hpc]; rfl)
  have hshrink := h.shrink (subperm_eraseP pa found)
  simp only [ledger, hooks_unhook]
  refine hshrink.finish (fun h0 => .inr fun p w hw hwk => ?_) fun k' hr => ?_
  · have hw' := (subperm_eraseP pa found p).subset hw
    have htask : w.task = t := by
      rw [← (h.hookKey p w hw').2.2, hwk]
      exact (h.taskKey t h0).2
    obtain rfl : p = pa := by
      rw [← h.place p w hw' (by rw [htask, hwk]), htask, hpa]
    simp only [update_self] at hw
    exact futexKey_ne_of_mem_eraseP (h.nodup p) hw (hwk.trans hkey)
  · have hsleeping := hr.sleeping
    simp only [ledger_pc, hpc] at hsleeping
    cases hsleeping

variable {t : ℕ}

lemma sound_setIdle (h : s.ledger.Sound owner) {task : FutexTask} (hpc : s.pc t = .idle)
    (hkey : task.futexKey = (s.tasks t).futexKey) (hpa : task.futexPa = (s.tasks t).futexPa)
    (htime : task.futexTimedout = (s.tasks t).futexTimedout) : (s.setTask t task).ledger.Sound owner := by
  refine h.setTask task hkey hpa (fun hf => htime.trans hf) (fun hun => ?_) fun k hr => ?_
  · rw [ledger_pc, hpc] at hun
    cases hun
  · have hsleeping := hr.sleeping
    rw [ledger_pc, hpc] at hsleeping
    cases hsleeping

lemma sound_step (h : s.ledger.Sound owner) (hg : s.Undisturbed e) (hstep : FutexStep s e s') :
    ∃ owner', s'.ledger.Sound owner' := by
  cases hstep with
  | @wait t w hidle =>
    have hwait := h.wait (w := w) (pc_of_isIdle hidle)
    simp only [Undisturbed] at hg
    simp only [newFutexKey, Nat.mod_eq_of_lt hg]
    exact ⟨_, hwait⟩
  | readFails hpc | interrupted hpc => exact ⟨owner, sound_abandon h (by rw [hpc]; rfl) _⟩
  | read hpc | load hpc | lock hpc | retry hpc | recheck hpc | unhookBump hpc =>
    exact ⟨owner, h.goto (by rw [ledger_pc, hpc]; rfl) nofun⟩
  | wake hidle | requeue hidle => exact ⟨owner, h.goto (by rw [ledger_pc, pc_of_isIdle hidle]; rfl) nofun⟩
  | @scan t pa n b hpc =>
    have hscan := sound_wakeUp h pa n b
    rw [wakeUp_frame] at hscan
    exact ⟨owner, hscan.goto (by rw [ledger_pc, hpc]; rfl) nofun⟩
  | @rescan t oldPa newPa n m hpc =>
    have hscan := sound_requeueUp h oldPa newPa n m
    rw [requeueUp_frame] at hscan
    exact ⟨owner, hscan.goto (by rw [ledger_pc, hpc]; rfl) nofun⟩
  | @enqueue t key w hpc hsig =>
    have henqueue := h.enqueue hpc { s.tasks t with
      futexTimedout := false, futexPa := w.queueKey, futexKey := key, status := .blocked } rfl rfl rfl
    simp only [goto, setTask, ledger, FutexQueues.extend, FutexQueues.hooks_update]
    exact ⟨owner, henqueue⟩
  | arm hpc => exact ⟨owner, h.goto (by rw [ledger_pc, hpc]; rfl) fun k hk => ⟨_, by cases hk; rfl⟩⟩
  | resumeSignal hpc hrun hsig =>
    refine ⟨owner, h.fail _ hpc hrun fun hmem => ?_⟩
    simp only [Undisturbed, hpc] at hg
    rw [hg hmem] at hsig
    cases hsig
  | @resumeTimeout t key w hpc hrun hsig htime =>
    have hfail := h.fail .ETIMEDOUT hpc hrun fun _ hr =>
      Bool.noConfusion (htime.symm.trans hr.untimed)
    refine ⟨owner, hfail.setTask { s.tasks t with futexTimedout := false } rfl rfl (fun _ => rfl)
      (fun _ h => h) fun k hr => ?_⟩
    have hsleeping := hr.sleeping
    simp only [update_self, FutexPc.sleeping] at hsleeping
    cases hsleeping
  | @resume t key w hpc =>
    have hsleeping : (s.pc t).sleeping = some key := by
      rw [hpc]
      rfl
    refine ⟨owner, h.finish (fun h0 => ?_) fun k' hr => ?_⟩
    · rcases h.sleeps t key hsleeping with h1 | ⟨h1, -⟩
      · exact absurd h1 h0
      · rw [h1]
        exact .inl List.mem_cons_self
    · obtain rfl : key = k' := Option.some.inj (hsleeping.symm.trans hr.sleeping)
      exact List.mem_cons_self
  | unhookNone hpc =>
    refine ⟨owner, h.finish (fun h0 => ?_) fun k' hr => ?_⟩
    · exact absurd (h.unhooks _ _ _ (by rw [ledger_pc, hpc]; rfl)).2.1 h0
    · have hsleeping := hr.sleeping
      rw [ledger_pc, hpc] at hsleeping
      cases hsleeping
  | unhook hpc => exact ⟨owner, sound_unhook h hpc⟩
  | @dispatch t hd =>
    refine ⟨owner, h.setTask _ rfl rfl id (fun _ _ => rfl) fun k hr => .inr ⟨rfl, ?_⟩⟩
    have hsleeping := hr.sleeping
    simp only [canDispatch] at hd
    rw [ledger_pc] at hsleeping ⊢
    cases hpc : s.pc t <;> simp_all [FutexPc.sleeping]
  | @handleTimer t key =>
    have htime := sound_timeOut (s := { s with firing := s.firing.erase (t, key) }) h t key
    rw [timeOut_frame] at htime
    exact ⟨owner, htime⟩
  | @signal t unmasked =>
    refine ⟨owner, h.setTask _ rfl rfl id (fun _ hrun => ?_) fun k hr => ?_⟩
    · rw [ledger_tasks] at hrun
      simp [hrun]
    have hstatus := hr.status
    rw [ledger_tasks] at hstatus
    rcases hstatus with hs | ⟨hs, hw⟩
    · simp [hs]
    · simpa [hs] using hw
  | handled hidle | block hidle | free hidle => exact ⟨owner, sound_setIdle h (pc_of_isIdle hidle) rfl rfl rfl⟩
  | unblock hpc => exact ⟨owner, sound_setIdle h hpc rfl rfl rfl⟩
  | clear hb => exact ⟨owner, h.clear _ hb rfl⟩
  | @unlink pa key =>
    simp only [ledger, FutexQueues.hooks_unhook]
    exact ⟨owner, h.shrink (subperm_eraseP pa key)⟩
  | _ => exact ⟨owner, h⟩

/-! ### Whole runs -/

lemma sound_initial (mem : ℕ → Option ℤ) : (initial mem).ledger.Sound fun _ => 0 :=
  ⟨nofun, nofun, fun _ h => absurd rfl h, nofun, fun _ => nodup_nil, nofun, nofun, nofun, nofun,
    fun _ h => absurd rfl h, nofun, nodup_nil⟩

lemma sound_of_reaches {mem : ℕ → Option ℤ} (h : Reaches step Undisturbed (initial mem) s) :
    ∃ owner, s.ledger.Sound owner := by
  refine Reaches.invariant (I := fun s => ∃ owner, s.ledger.Sound owner) ?_ ⟨_, sound_initial mem⟩ h
  rintro s e s' ⟨owner, hs⟩ hg hstep
  obtain ⟨s₁, hact, rfl⟩ := Option.map_eq_some_iff.1 hstep
  obtain ⟨owner', hs'⟩ := sound_step hs hg (act_step hact)
  exact ⟨owner', hs'⟩

lemma countP_ownEntry_le (h : s.ledger.Sound owner) (pa t : ℕ) :
    ((s.queues pa).getD []).countP (ownEntry s.tasks t) ≤ 1 := by
  have hkeys := nodup_iff_count_le_one.1 (h.nodup pa) (s.tasks t).futexKey
  refine le_trans ?_ hkeys
  rw [count, countP_map]
  exact countP_mono_left fun w _ hw => by simp_all [ownEntry]

/-- The entry of a wait stands in the queue that the record of its task names, and in no other. -/
lemma filed_of_sound (h : s.ledger.Sound owner) {w : FutexWaiter} {pa : ℕ} (hw : w ∈ (s.queues pa).getD [])
    (hlive : live s.tasks w = true) : Filed s.tasks s.queues w.task := by
  have hplace : ∀ p, ∀ v ∈ (s.queues p).getD [], ownEntry s.tasks w.task v = true → (s.tasks w.task).futexPa = p := by
    intro p v hv hown
    simp only [ownEntry, Bool.and_eq_true, decide_eq_true_eq] at hown
    have := h.place p v hv
    simp_all
  have hown := ownEntry_of_live hlive
  intro p
  split_ifs with hp
  · have hpos : 0 < ((s.queues p).getD []).countP (ownEntry s.tasks w.task) :=
      countP_pos_iff.2 ⟨w, by rwa [hp, hplace pa w hw hown], hown⟩
    have := countP_ownEntry_le h p w.task
    omega
  · exact countP_eq_zero.2 fun v hv hown => hp (hplace p v hv hown).symm

/-- In an undisturbed run the queues are as the scans of a wake and of a requeue need them. -/
lemma scannable_of_reaches {mem : ℕ → Option ℤ} (h : Reaches step Undisturbed (initial mem) s) (pa : ℕ) :
    SingleWaits s.tasks ((s.queues pa).getD []) ∧
      ∀ w ∈ (s.queues pa).getD [], live s.tasks w = true → Filed s.tasks s.queues w.task := by
  obtain ⟨owner, hs⟩ := sound_of_reaches h
  exact ⟨singleWaits_of_filed fun w _ _ => countP_ownEntry_le hs pa w.task, fun w hw => filed_of_sound hs hw⟩

def successes (s : FutexState) : List (ℕ × ℕ) :=
  s.returns.filterMap fun p => match p.2.2 with | .ok 0 => some (p.1, p.2.1) | _ => none

lemma mem_successes (h : (t, k, .ok 0) ∈ s.returns) : (t, k) ∈ s.successes :=
  mem_filterMap.2 ⟨(t, k, .ok 0), h, rfl⟩

def stepsLeft (s : FutexState) (t : ℕ) : ℕ :=
  match s.pc t with
  | .arm _ _ => 3
  | .asleep _ _ => if (s.tasks t).status = .running then 1 else 2
  | _ => 0

def isOwn (t : ℕ) (e : FutexEvent) : Prop := e = .arm t ∨ e = .dispatch t ∨ e = .resume t

lemma own_enabled (h : s.ledger.Returning t k) : ∃ e, isOwn t e ∧ (s.step e).isSome = true := by
  have hsleeping := h.sleeping
  have hstatus := h.status
  simp only [ledger_pc, ledger_tasks] at hsleeping hstatus
  cases hpc : s.pc t with
  | arm w key => exact ⟨.arm t, .inl rfl, by simp [step, act, stepWait, hpc]⟩
  | asleep w key =>
    rcases hstatus with hready | ⟨hrun, -⟩
    · exact ⟨.dispatch t, .inr (.inl rfl), by simp [step, act, canDispatch, hpc, hready]⟩
    · exact ⟨.resume t, .inr (.inr rfl), by simp [step, act, stepWait, hpc, hrun]⟩
  | _ => simp [hpc, sleeping] at hsleeping

variable {tasks : FutexTasks}

lemma update_of_running {u : ℕ} {x : FutexTask} (h : (tasks t).status = .running)
    (hsleep : (tasks u).sleepsOn key = true) : update tasks u x t = tasks t := by
  refine update_of_ne ?_ _ _
  rintro rfl
  simp [FutexTask.sleepsOn, h] at hsleep

lemma wakeupFutexTask_of_running (h : (tasks t).status = .running) (u key : ℕ) :
    (wakeupFutexTask tasks u key).2 t = tasks t := by
  unfold wakeupFutexTask
  split
  · next hsleep => exact update_of_running h hsleep
  · rfl

lemma timeoutFutexTask_of_running (h : (tasks t).status = .running) (u key : ℕ) :
    (timeoutFutexTask tasks u key).2 t = tasks t := by
  unfold timeoutFutexTask
  split
  · next hsleep => exact update_of_running h hsleep
  · rfl

lemma requeueFutexTask_of_running (h : (tasks t).status = .running) (u key pa : ℕ) :
    (requeueFutexTask tasks u key pa).2 t = tasks t := by
  unfold requeueFutexTask
  split
  · next hsleep => exact update_of_running h hsleep
  · rfl

lemma wakeLoop_of_running {maxNum n : ℕ} {b : BitVec 32} {r : WakeScan} (h : (r.tasks t).status = .running) :
    ((wakeLoop maxNum b n r).tasks t).status = .running := by
  induction n generalizing r with
  | zero => exact h
  | succ n ih =>
    unfold wakeLoop
    split
    · exact h
    split
    · exact h
    split
    · exact ih h
    split
    · exact ih ((congrArg FutexTask.status (wakeupFutexTask_of_running h _ _)).trans h)
    · exact ih h

lemma requeueLoop_of_running {wakeLimit requeueLimit newPa : ℕ} {rest : List FutexWaiter} {r : RequeueScan}
    (h : (r.tasks t).status = .running) :
    ((requeueLoop wakeLimit requeueLimit newPa rest r).tasks t).status = .running := by
  induction rest generalizing r with
  | nil => exact h
  | cons w rest ih =>
    unfold requeueLoop
    split
    · exact ih h
    split
    · exact ih ((congrArg FutexTask.status (wakeupFutexTask_of_running h _ _)).trans h)
    split
    · exact ih ((congrArg FutexTask.status (requeueFutexTask_of_running h _ _ _)).trans h)
    · exact ih h

lemma running_step (h : FutexStep s e s') (hpc : (s.pc t).sleeping.isSome = true)
    (hrun : (s.tasks t).status = .running) : (s'.tasks t).status = .running := by
  have hidle : ∀ {u : ℕ}, s.pc u = .idle → t ≠ u := by
    rintro u hu rfl
    rw [hu] at hpc
    cases hpc
  cases h with
  | @scan _ pa n b =>
    unfold wakeUp
    split
    · exact hrun
    · exact wakeLoop_of_running hrun
  | @rescan _ oldPa newPa n m =>
    unfold requeueUp
    split
    · exact hrun
    · exact requeueLoop_of_running hrun
  | @handleTimer u key =>
    simp only [timeOut]
    split
    · exact hrun
    split
    · exact hrun
    split
    · simp only [timeoutFutexTask_of_running hrun]
      exact hrun
    · exact hrun
  | @enqueue u key w hu =>
    have hne : t ≠ u := by
      rintro rfl
      rw [hu] at hpc
      cases hpc
    simpa only [goto, setTask, update_of_ne hne] using hrun
  | @resumeTimeout u | @dispatch u | @signal u =>
    by_cases hu : t = u
    · subst hu
      simp [goto, setTask, hrun]
    · simpa only [goto, setTask, update_of_ne hu] using hrun
  | @handled u hu | @block u hu | @free u hu =>
    simpa only [setTask, update_of_ne (hidle (pc_of_isIdle hu))] using hrun
  | @unblock u hu => simpa only [setTask, update_of_ne (hidle hu)] using hrun
  | @clear u hb =>
    have hne : t ≠ u := by
      rintro rfl
      rw [hb] at hrun
      cases hrun
    simpa only [setTask, update_of_ne hne] using hrun
  | _ => exact hrun

/-- A thread that has been woken gets nearer to its return with its own steps and further away with
none. -/
lemma stepsLeft_step (h : FutexStep s e s') (hr : s.ledger.Returning t k) (hr' : s'.ledger.Returning t k) :
    s'.stepsLeft t ≤ s.stepsLeft t ∧ (isOwn t e → s'.stepsLeft t < s.stepsLeft t) := by
  have hsleeping := hr.sleeping
  have hsleeping' := hr'.sleeping
  rw [ledger_pc] at hsleeping hsleeping'
  by_cases hthread : e.thread = some t
  · cases h with
    | arm hpc =>
      cases hthread
      have hlt : ∀ c : Prop, ∀ [Decidable c], (if c then 1 else 2) < 3 := fun c _ => by split <;> decide
      simp only [stepsLeft, hpc, goto, update_self]
      exact ⟨(hlt _).le, fun _ => hlt _⟩
    | resumeSignal | resumeTimeout | resume =>
      cases hthread
      simp [goto, finish, sleeping] at hsleeping'
    | store hidle | wait hidle | wake hidle | requeue hidle =>
      cases hthread
      rw [pc_of_isIdle hidle] at hsleeping
      cases hsleeping
    | readFails hpc | read hpc | load hpc | lock hpc | retry hpc | recheck hpc | interrupted hpc | enqueue hpc
    | unhookNone hpc | unhookBump hpc | unhook hpc | scan hpc | rescan hpc =>
      cases hthread
      rw [hpc] at hsleeping
      cases hsleeping
    | _ => cases hthread
  · have hpc := pc_of_not_thread h hthread
    have hown : isOwn t e → e = .dispatch t := by
      rintro (rfl | rfl | rfl)
      exacts [absurd rfl hthread, rfl, absurd rfl hthread]
    cases hs : s.pc t with
    | arm w key =>
      simp only [stepsLeft, hpc, hs, le_refl, true_and]
      intro he
      obtain rfl := hown he
      cases h with
      | dispatch hd => simp [canDispatch, hs] at hd
    | asleep w key =>
      simp only [stepsLeft, hpc, hs]
      by_cases hrun : (s.tasks t).status = .running
      · have hrun' := running_step h (by rw [hsleeping]; rfl) hrun
        simp only [if_pos hrun, if_pos hrun', le_refl, true_and]
        intro he
        obtain rfl := hown he
        cases h with
        | dispatch hd => simp [canDispatch, hs, hrun] at hd
      · simp only [if_neg hrun]
        refine ⟨by split <;> decide, fun he => ?_⟩
        obtain rfl := hown he
        cases h with
        | dispatch hd => simp [setTask]
    | _ => simp [hs, sleeping] at hsleeping

lemma counted_step {p : ℕ × ℕ} (h : s.step e = some s') (hp : p ∈ s.counted) : p ∈ s'.counted := by
  obtain ⟨s₁, hact, rfl⟩ := Option.map_eq_some_iff.1 h
  cases act_step hact with
  | @scan _ pa n b =>
    unfold wakeUp
    split
    · exact hp
    · exact mem_append_right _ hp
  | @rescan _ oldPa newPa n m =>
    unfold requeueUp
    split
    · exact hp
    · exact mem_append_right _ hp
  | _ => exact hp

/-- Along every execution in which no signal is deliverable to a counted waiter when it runs again,
each wait is counted once, a counted wait that a fair scheduler lets run returns success, and there
are as many successes as counted waits once all of them have returned. -/
theorem undisturbed_counted_succeed (mem : ℕ → Option ℤ) :
    (∀ s, Reaches step Undisturbed (initial mem) s → s.counted.Nodup ∧
      ((∀ p ∈ s.counted, (s.pc p.1).key ≠ some p.2) → s.counted.length ≤ s.successes.length)) ∧
    ∀ (x : Execution step Undisturbed (initial mem)) (n t k : ℕ), (t, k) ∈ (x.state n).counted →
      x.Fair (isOwn t) → ∃ m ≥ n, (t, k, .ok 0) ∈ (x.state m).returns := by
  refine ⟨fun s hs => ?_, fun x n t k hmem hfair => ?_⟩
  · obtain ⟨owner, hsound⟩ := sound_of_reaches hs
    refine ⟨hsound.distinct, fun hdone => ?_⟩
    refine (List.Nodup.subperm hsound.distinct fun p hp => ?_).length_le
    refine mem_successes ((hsound.settled p hp).2.resolve_right fun hr => hdone p hp ?_)
    exact key_of_sleeping hr.sleeping
  · have hcounted : ∀ m ≥ n, (t, k) ∈ (x.state m).counted := by
      intro m hm
      obtain ⟨d, rfl⟩ := Nat.exists_eq_add_of_le hm
      clear hm
      induction d with
      | zero => exact hmem
      | succ d ih => exact counted_step (x.next (n + d)) ih
    have hreturning : ∀ m ≥ n, (t, k, .ok 0) ∉ (x.state m).returns → (x.state m).ledger.Returning t k := by
      intro m hm hnot
      obtain ⟨owner, hsound⟩ := sound_of_reaches (x.reaches m)
      exact (hsound.settled (t, k) (hcounted m hm)).2.resolve_left hnot
    have hleft : ∀ m ≥ n, (t, k, .ok 0) ∉ (x.state m).returns → (t, k, .ok 0) ∉ (x.state (m + 1)).returns →
        (x.state (m + 1)).stepsLeft t ≤ (x.state m).stepsLeft t ∧
          (isOwn t (x.event m) → (x.state (m + 1)).stepsLeft t < (x.state m).stepsLeft t) := by
      intro m hm hnot hnot'
      obtain ⟨s₁, hact, heq⟩ := Option.map_eq_some_iff.1 (x.next m)
      have hr' := hreturning (m + 1) (by omega) hnot'
      rw [← heq] at hr'
      have hsteps := stepsLeft_step (act_step hact) (hreturning m hm hnot) ⟨hr'.1, hr'.2, hr'.3, hr'.4⟩
      rw [← heq]
      exact hsteps
    exact x.eventually hfair (fun s => (t, k, .ok 0) ∈ s.returns) (fun s => s.stepsLeft t) n
      (fun m hm hnot => own_enabled (hreturning m hm hnot)) (fun m hm hnot hnot' => (hleft m hm hnot hnot').1)
      fun m hm hnot hnot' => (hleft m hm hnot hnot').2

lemma signal_possible (s : FutexState) : s.Undisturbed (.signal 9 false) ∧ (s.step (.signal 9 false)).isSome = true :=
  ⟨trivial, rfl⟩

/-- Thread 1 sleeps on the word 4, thread 2 wakes it, and it runs and returns; from then on another
thread gets signals. -/
def wokenExecution : Execution step Undisturbed (initial fun _ => some 0) :=
  .ofList [.wait 1 ⟨0x1000, 4, 0, BitVec.allOnes 32, false⟩, .read 1, .load 1, .lock 1, .recheck 1, .enqueue 1,
    .arm 1, .wake 2 0x1000 1 (BitVec.allOnes 32), .scan 2, .dispatch 1, .resume 1] (.signal 9 false) signal_possible
    ⟨Nat.one_lt_two_pow (by decide), rfl, trivial, rfl, trivial, rfl, trivial, rfl, trivial, rfl, trivial, rfl,
      trivial, rfl, trivial, rfl, trivial, rfl, trivial, rfl, fun _ => rfl, rfl, trivial⟩

lemma wokenExecution_rests (d : ℕ) : (wokenExecution.state (11 + d)).pc 1 = .idle ∧
    ((wokenExecution.state (11 + d)).tasks 1).status = .running := by
  have hrest : ∀ (s : FutexState) (d : ℕ), s.pc 1 = .idle → (s.tasks 1).status = .running →
      (follow step (.signal 9 false) s [] d).pc 1 = .idle ∧
        ((follow step (.signal 9 false) s [] d).tasks 1).status = .running := by
    intro s d hpc hrun
    induction d generalizing s with
    | zero => exact ⟨hpc, hrun⟩
    | succ d ih => exact ih _ hpc hrun
  rw [show wokenExecution.state (11 + d) = follow step (.signal 9 false) _ [] d from follow_length _ _ d]
  exact hrest _ d rfl rfl

lemma wokenExecution_fair : wokenExecution.Fair (isOwn 1) := by
  intro n hpossible
  obtain ⟨e, hown, he⟩ := hpossible (11 + n) (Nat.le_add_left n 11)
  obtain ⟨hpc, hrun⟩ := wokenExecution_rests n
  rcases hown with rfl | rfl | rfl <;> simp [step, act, stepWait, canDispatch, hpc, hrun] at he

theorem undisturbed_counted_succeed_woken : (wokenExecution.state 9).counted = [(1, 1)] ∧
    (wokenExecution.state 9).counted.Nodup ∧ ∃ m ≥ 9, (1, 1, .ok 0) ∈ (wokenExecution.state m).returns := by
  obtain ⟨hfinite, hlive⟩ := undisturbed_counted_succeed fun _ => some 0
  exact ⟨rfl, (hfinite _ (wokenExecution.reaches 9)).1,
    hlive wokenExecution 9 1 1 (mem_singleton.2 rfl) wokenExecution_fair⟩

/-- A signal becomes deliverable to the counted waiter before it runs again. -/
def swallowed : FutexState :=
  run step (initial fun _ => some 0)
    [.wait 1 ⟨0x1000, 4, 0, BitVec.allOnes 32, false⟩, .read 1, .load 1, .lock 1, .recheck 1, .enqueue 1, .arm 1,
      .wake 2 0x1000 1 (BitVec.allOnes 32), .scan 2, .signal 1 true, .dispatch 1, .resume 1, .unhookBump 1]

/-- The wake is counted, its waiter returns `EINTR`, and no wait has returned success. -/
theorem swallowed_wake : Reaches step (fun _ _ => True) (initial fun _ => some 0) swallowed ∧
    swallowed.counted = [(1, 1)] ∧ swallowed.returns = [(1, 1, .error .EINTR)] ∧ swallowed.successes = [] := by
  refine ⟨Reaches.run (by decide), rfl, rfl, rfl⟩

end FutexState

end Ya2yOS.Task
