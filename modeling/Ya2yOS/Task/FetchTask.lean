import Ya2yOS.Lib.Heap
import Ya2yOS.Task.Scheduler

/-!
# Run-queue selection

`fetch_task` of `task/scheduler/cfs.rs` under the queue lock: entries of dropped tasks and of tasks that are not ready
are thrown away, and an entry of a task that may not run here goes back with its key.
-/

namespace Ya2yOS.Task

open Function Lib List Heap

def CfsEntry.key (e : CfsEntry) : ℕ ×ₗ ℕ := toLex (e.vruntime, e.tid)

variable {e : CfsEntry} {left : ℕ}

lemma CfsEntry.le_iff {e' : CfsEntry} : e.le e' = true ↔ e.key ≤ e'.key := by
  simp [CfsEntry.le, CfsEntry.key, Prod.Lex.toLex_le_toLex]

structure RunQueue where
  harts : ℕ
  tasks : ℕ → SchedTask
  queue : List CfsEntry
  minVruntime : ℕ

namespace RunQueue

open CfsEntry

def setTask (q : RunQueue) (t : ℕ) (task : SchedTask) : RunQueue :=
  { q with tasks := update q.tasks t task }

def markDequeued (q : RunQueue) (t : ℕ) : RunQueue := q.setTask t { q.tasks t with onRq := false }

def fetchLoop (H : Heap key) (h : ℕ) : ℕ → RunQueue → Option ℕ × RunQueue
  | 0, q => (none, q)
  | left + 1, q =>
    match H.pop q.queue with
    | none => (none, q)
    | some (entry, rest) =>
      let task := q.tasks entry.task
      let q := { q with queue := rest }
      if task.life = .dropped then fetchLoop H h left q
      else if task.status = .ready then
        if task.canRunOn q.harts h then
          (some entry.task, { q.setTask entry.task { task with status := .running, onRq := false } with
            minVruntime := advanceMinVruntime rest q.minVruntime entry.vruntime })
        else fetchLoop H h left { q with queue := H.push entry rest }
      else fetchLoop H h left (q.markDequeued entry.task)

def fetchTask (H : Heap key) (h : ℕ) (q : RunQueue) : Option ℕ × RunQueue :=
  fetchLoop H h q.queue.length q

def hasReadyForHart (q : RunQueue) (h : ℕ) : Bool :=
  q.queue.any fun e => (q.tasks e.task).life ≠ .dropped && (q.tasks e.task).canRunOn q.harts h

def Selectable (q : RunQueue) (h : ℕ) (e : CfsEntry) : Prop :=
  (q.tasks e.task).life ≠ .dropped ∧ (q.tasks e.task).status = .ready ∧
    (q.tasks e.task).canRunOn q.harts h = true
deriving Decidable

def Elsewhere (q : RunQueue) (h : ℕ) (e : CfsEntry) : Prop :=
  (q.tasks e.task).life ≠ .dropped ∧ (q.tasks e.task).status = .ready ∧
    (q.tasks e.task).canRunOn q.harts h = false
deriving Decidable

def Stale (q : RunQueue) (e : CfsEntry) : Prop :=
  (q.tasks e.task).life = .dropped ∨ (q.tasks e.task).status ≠ .ready

/-- Where the hart can run something, the first entry for it stands before every ready task that may
only run on other harts. -/
def Unobstructed (q : RunQueue) (h : ℕ) : Prop :=
  (∃ e ∈ q.queue, q.Selectable h e) →
    ∀ f ∈ q.queue, q.Elsewhere h f → ∃ e ∈ q.queue, q.Selectable h e ∧ e.key < f.key

variable {h : ℕ} {q : RunQueue}

lemma not_selectable_of_stale (hs : q.Stale e) : ¬ q.Selectable h e := by
  rintro ⟨hlife, hstatus, -⟩
  exact hs.elim hlife fun hne => hne hstatus

lemma not_elsewhere_of_stale (hs : q.Stale e) : ¬ q.Elsewhere h e := by
  rintro ⟨hlife, hstatus, -⟩
  exact hs.elim hlife fun hne => hne hstatus

/-! ### The loop -/

section Loop

variable {H : Heap key} {h : ℕ} {q q' q₁ : RunQueue} {r : Option ℕ}

structure SameTasks (q q' : RunQueue) : Prop where
  harts : q'.harts = q.harts
  life : ∀ t, (q'.tasks t).life = (q.tasks t).life
  status : ∀ t, (q'.tasks t).status = (q.tasks t).status
  cpuAffinity : ∀ t, (q'.tasks t).cpuAffinity = (q.tasks t).cpuAffinity

lemma sameTasks_queue (q : RunQueue) (l : List CfsEntry) : SameTasks q { q with queue := l } :=
  ⟨rfl, fun _ => rfl, fun _ => rfl, fun _ => rfl⟩

lemma sameTasks_markDequeued (q : RunQueue) (l : List CfsEntry) (t : ℕ) :
    SameTasks q ({ q with queue := l }.markDequeued t) := by
  have key (u : ℕ) : (({ q with queue := l }.markDequeued t).tasks u = q.tasks u) ∨
      ({ q with queue := l }.markDequeued t).tasks u = { q.tasks u with onRq := false } := by
    by_cases hu : u = t
    · subst hu
      exact .inr (update_self ..)
    · exact .inl (update_of_ne hu ..)
  constructor
  · rfl
  all_goals
    intro u
    rcases key u with h | h <;> rw [h]

namespace SameTasks

variable (hq : SameTasks q q') {e : CfsEntry}
include hq

lemma canRunOn : (q'.tasks e.task).canRunOn q'.harts h = (q.tasks e.task).canRunOn q.harts h := by
  unfold SchedTask.canRunOn
  rw [hq.harts, hq.cpuAffinity]

lemma selectable : q'.Selectable h e ↔ q.Selectable h e := by
  unfold Selectable
  rw [hq.life, hq.status, hq.canRunOn]

lemma elsewhere : q'.Elsewhere h e ↔ q.Elsewhere h e := by
  unfold Elsewhere
  rw [hq.life, hq.status, hq.canRunOn]

lemma stale : q'.Stale e ↔ q.Stale e := by
  unfold Stale
  rw [hq.life, hq.status]

lemma unobstructed (hperm : q.queue.Perm (e :: q'.queue)) (hstale : q.Stale e) :
    q'.Unobstructed h ↔ q.Unobstructed h := by
  have hmem {x : CfsEntry} (hx : ¬ q.Stale x) : x ∈ q'.queue ↔ x ∈ q.queue := by
    rw [hperm.mem_iff, mem_cons, or_iff_right]
    rintro rfl
    exact hx hstale
  have hsel (x : CfsEntry) : x ∈ q'.queue ∧ q'.Selectable h x ↔ x ∈ q.queue ∧ q.Selectable h x := by
    rw [hq.selectable]
    exact and_congr_left fun hx => hmem fun hst => not_selectable_of_stale hst hx
  have helse (x : CfsEntry) : x ∈ q'.queue ∧ q'.Elsewhere h x ↔ x ∈ q.queue ∧ q.Elsewhere h x := by
    rw [hq.elsewhere]
    exact and_congr_left fun hx => hmem fun hst => not_elsewhere_of_stale hst hx
  unfold Unobstructed
  simp only [← and_assoc, hsel, ← and_imp, helse]

end SameTasks

/-- What `fetch_task` does: it takes the first entry for this hart and throws away stale entries; where
none obstructs it, it comes back empty only if there is nothing to run. -/
structure Fetched (h : ℕ) (q : RunQueue) (r : Option ℕ) (q' : RunQueue) : Prop where
  least : ∀ t, r = some t → ∃ e ∈ q.queue, e.task = t ∧ q.Selectable h e ∧
    ∀ e' ∈ q.queue, q.Selectable h e' → e.key ≤ e'.key
  removed : ∃ taken stale, taken.map task = r.toList ∧ (∀ e ∈ taken, q.Selectable h e) ∧
    (∀ e ∈ stale, q.Stale e) ∧ q.queue.Perm (taken ++ (q'.queue ++ stale))
  status : ∀ t, (q'.tasks t).status = if r = some t then .running else (q.tasks t).status
  empty : r = none → q.Unobstructed h → ∀ e ∈ q.queue, ¬ q.Selectable h e

lemma Fetched.skip (hq : SameTasks q q₁) (hperm : q.queue.Perm (e :: q₁.queue))
    (hstale : q.Stale e) (hf : Fetched h q₁ r q') : Fetched h q r q' := by
  have hmem {x : CfsEntry} (hx : x ∈ q₁.queue) : x ∈ q.queue := hperm.mem_iff.2 (mem_cons_of_mem _ hx)
  have hrest {x : CfsEntry} (hx : x ∈ q.queue) (hsel : q.Selectable h x) : x ∈ q₁.queue := by
    apply (mem_cons.1 (hperm.mem_iff.1 hx)).resolve_left
    rintro rfl
    exact not_selectable_of_stale hstale hsel
  constructor
  · intro t ht
    obtain ⟨x, hx, htask, hsel, hle⟩ := hf.least t ht
    exact ⟨x, hmem hx, htask, hq.selectable.1 hsel, fun y hy hysel => hle y (hrest hy hysel) (hq.selectable.2 hysel)⟩
  · obtain ⟨taken, stale, htask, htaken, hst, hp⟩ := hf.removed
    refine ⟨taken, e :: stale, htask, fun x hx => hq.selectable.1 (htaken x hx), ?_, ?_⟩
    · intro x hx
      rcases mem_cons.1 hx with rfl | hx
      · exact hstale
      · exact hq.stale.1 (hst x hx)
    · have hmid : (e :: (taken ++ (q'.queue ++ stale))).Perm (taken ++ (q'.queue ++ e :: stale)) := by
        rw [← append_assoc, ← append_assoc]
        exact perm_middle.symm
      exact (hperm.trans (hp.cons e)).trans hmid
  · intro t
    rw [hf.status t, hq.status t]
  · intro hr hun x hx hsel
    exact hf.empty hr ((hq.unobstructed hperm hstale).2 hun) x (hrest hx hsel) (hq.selectable.2 hsel)

lemma Fetched.putBack (hq : SameTasks q q₁) (hperm : q.queue.Perm q₁.queue) (he : e ∈ q.queue)
    (hleast : ∀ x ∈ q.queue, e.key ≤ x.key) (helse : q.Elsewhere h e) (hf : Fetched h q₁ r q') : Fetched h q r q' := by
  constructor
  · intro t ht
    obtain ⟨x, hx, htask, hsel, hle⟩ := hf.least t ht
    exact ⟨x, hperm.mem_iff.2 hx, htask, hq.selectable.1 hsel,
      fun y hy hysel => hle y (hperm.mem_iff.1 hy) (hq.selectable.2 hysel)⟩
  · obtain ⟨taken, stale, htask, htaken, hst, hp⟩ := hf.removed
    exact ⟨taken, stale, htask, fun x hx => hq.selectable.1 (htaken x hx), fun x hx => hq.stale.1 (hst x hx),
      hperm.trans hp⟩
  · intro t
    rw [hf.status t, hq.status t]
  · -- the entry that went back is the first of the queue, so nothing for this hart stands before it
    intro _ hun x hx hsel
    obtain ⟨y, hy, -, hlt⟩ := hun ⟨x, hx, hsel⟩ e he helse
    exact absurd (hleast y hy) (not_le.2 hlt)

lemma Fetched.stop (hnone : q.Unobstructed h → ∀ e ∈ q.queue, ¬ q.Selectable h e) : Fetched h q none q :=
  ⟨nofun, ⟨[], [], rfl, by simp, by simp, by simp⟩, by simp, fun _ => hnone⟩

lemma Fetched.take {v : ℕ} (hsel : q.Selectable h e) (hperm : q.queue.Perm (e :: q'.queue))
    (hleast : ∀ x ∈ q.queue, e.key ≤ x.key) (htask : q'.tasks = update q.tasks e.task
      { q.tasks e.task with status := .running, onRq := false }) :
    Fetched h q (some e.task) { q' with minVruntime := v } := by
  constructor
  · intro t ht
    exact ⟨e, hperm.mem_iff.2 (by simp), Option.some.inj ht, hsel, fun x hx _ => hleast x hx⟩
  · exact ⟨[e], [], rfl, by simpa using hsel, by simp, by simpa using hperm⟩
  · intro t
    rw [htask]
    by_cases ht : e.task = t
    · subst ht
      simp
    · rw [update_of_ne (Ne.symm ht), if_neg (by simpa using ht)]
  · nofun

/-- While there is something to run and nothing obstructs it, every round takes an entry off the
queue, so that the rounds suffice. -/
lemma fetched_fetchLoop (hleft : q.Unobstructed h → (∃ e ∈ q.queue, q.Selectable h e) → left = q.queue.length) :
    Fetched h q (fetchLoop H h left q).1 (fetchLoop H h left q).2 := by
  induction left generalizing q with
  | zero =>
    apply Fetched.stop
    intro hun e he hsel
    have hlen := hleft hun ⟨e, he, hsel⟩
    rw [eq_nil_of_length_eq_zero hlen.symm] at he
    exact absurd he not_mem_nil
  | succ left ih =>
    rw [fetchLoop]
    cases hp : H.pop q.queue with
    | none =>
      apply Fetched.stop
      intro _ e he
      rw [pop_eq_none.1 hp] at he
      exact absurd he not_mem_nil
    | some x =>
      obtain ⟨e, rest⟩ := x
      have hperm := H.pop_perm hp
      have hleast {x : CfsEntry} (hx : x ∈ q.queue) : e.key ≤ x.key := pop_least hp hx
      have hskip {q₁ : RunQueue} (hq : SameTasks q q₁) (hrest : q₁.queue = rest) (hstale : q.Stale e) :
          Fetched h q (fetchLoop H h left q₁).1 (fetchLoop H h left q₁).2 := by
        have hperm₁ : q.queue.Perm (e :: q₁.queue) := hrest ▸ hperm
        apply Fetched.skip hq hperm₁ hstale
        apply ih
        rintro hun ⟨x, hx, hsel⟩
        have hxq : x ∈ q.queue := hperm₁.mem_iff.2 (mem_cons_of_mem _ hx)
        have hlen := hleft ((hq.unobstructed hperm₁ hstale).1 hun) ⟨x, hxq, hq.selectable.1 hsel⟩
        have := hperm₁.length_eq
        rw [length_cons] at this
        omega
      dsimp only
      split_ifs with hlife hstatus hcan
      · exact hskip (sameTasks_queue q rest) rfl (.inl hlife)
      · exact Fetched.take ⟨hlife, hstatus, hcan⟩ hperm (fun x hx => hleast hx) rfl
      · have helse : q.Elsewhere h e := ⟨hlife, hstatus, by simpa using hcan⟩
        have hq := sameTasks_queue q (H.push e rest)
        have hback : q.queue.Perm (H.push e rest) := hperm.trans H.push_perm.symm
        apply Fetched.putBack hq hback (pop_mem hp) (fun x hx => hleast hx) helse
        apply ih
        -- the same entry would be on top again, so the queue is obstructed
        rintro hun ⟨x, hx, hsel⟩
        obtain ⟨y, hy, -, hlt⟩ := hun ⟨x, hx, hsel⟩ e (hback.mem_iff.1 (pop_mem hp)) (hq.elsewhere.2 helse)
        exact absurd (hleast (hback.mem_iff.2 hy)) (not_le.2 hlt)
      · exact hskip (sameTasks_markDequeued q rest e.task) rfl (.inr hstatus)

lemma SameTasks.trans (hq : SameTasks q q₁) (hq' : SameTasks q₁ q') : SameTasks q q' :=
  ⟨hq'.harts.trans hq.harts, fun t => (hq'.life t).trans (hq.life t), fun t => (hq'.status t).trans (hq.status t),
    fun t => (hq'.cpuAffinity t).trans (hq.cpuAffinity t)⟩

/-- An entry for other harts that is on top, or may come there, is pushed back and popped in every round left. -/
lemma fetchLoop_obstructed {f : CfsEntry} (hq : SameTasks q q₁) (hf : f ∈ q₁.queue) (helse : q.Elsewhere h f)
    (hle : ∀ e ∈ q₁.queue, q.Selectable h e → f.key ≤ e.key) :
    (fetchLoop (favour key fun e => ¬ q.Selectable h e) h left q₁).1 = none := by
  induction left generalizing q₁ with
  | zero => rfl
  | succ left ih =>
    rw [fetchLoop]
    cases hp : (favour key fun e => ¬ q.Selectable h e).pop q₁.queue with
    | none => rfl
    | some x =>
      obtain ⟨e, rest⟩ := x
      have hperm := (favour key fun e => ¬ q.Selectable h e).pop_perm hp
      have hskip {q₂ : RunQueue} (hq₂ : SameTasks q₁ q₂) (hrest : q₂.queue = rest) (hstale : q.Stale e) :
          (fetchLoop (favour key fun e => ¬ q.Selectable h e) h left q₂).1 = none := by
        apply ih (hq.trans hq₂)
        · rw [hrest]
          refine (mem_cons.1 (hperm.mem_iff.1 hf)).resolve_left ?_
          rintro rfl
          exact not_elsewhere_of_stale hstale helse
        · intro x hx
          rw [hrest] at hx
          exact hle x (mem_of_pop hp hx)
      dsimp only
      split_ifs with hlife hstatus hcan
      · exact hskip (sameTasks_queue q₁ rest) rfl (hq.stale.1 (.inl hlife))
      · -- an entry for this hart is as small as `f`, which the heap favours
        have hsel : q.Selectable h e := hq.selectable.1 ⟨hlife, hstatus, hcan⟩
        have hfe := hle e (pop_mem hp) hsel
        have hnot : ¬ q.Selectable h f := fun hs => absurd (hs.2.2.symm.trans helse.2.2) (by decide)
        have hfav := favour_pop hp hf (by simpa using hnot) fun z hz => hfe.trans (pop_least hp hz)
        exact absurd hsel (by simpa using hfav)
      · have hback : q₁.queue.Perm ((favour key fun e => ¬ q.Selectable h e).push e rest) :=
          hperm.trans (favour key fun e => ¬ q.Selectable h e).push_perm.symm
        exact ih (hq.trans (sameTasks_queue q₁ _)) (hback.mem_iff.1 hf) fun x hx => hle x (hback.mem_iff.2 hx)
      · exact hskip (sameTasks_markDequeued q₁ rest e.task) rfl (hq.stale.1 (.inr hstatus))

end Loop

lemma hasReadyForHart_iff : q.hasReadyForHart h = true ↔
    ∃ e ∈ q.queue, (q.tasks e.task).life ≠ .dropped ∧ (q.tasks e.task).canRunOn q.harts h = true := by
  simp [hasReadyForHart]

/-- Selection as it should be: only the task that is returned leaves the queue, and `has_ready_for_hart` says whether
there is one. -/
structure FetchedExactly (h : ℕ) (q : RunQueue) (r : Option ℕ) (q' : RunQueue) : Prop where
  least : ∀ t, r = some t → ∃ e ∈ q.queue, e.task = t ∧ q.Selectable h e ∧
    ∀ e' ∈ q.queue, q.Selectable h e' → e.key ≤ e'.key
  empty : r = none → ∀ e ∈ q.queue, ¬ q.Selectable h e
  removed : ∃ taken, taken.map task = r.toList ∧ q.queue.Perm (taken ++ q'.queue)
  ready : r.isSome = q.hasReadyForHart h

lemma Fetched.exactly {r : Option ℕ} {q' : RunQueue} (hf : Fetched h q r q') (hun : q.Unobstructed h)
    (hfresh : ∀ e ∈ q.queue, ¬ q.Stale e) : FetchedExactly h q r q' := by
  refine ⟨hf.least, fun hr => hf.empty hr hun, ?_, ?_⟩
  · obtain ⟨taken, stale, htask, -, hst, hp⟩ := hf.removed
    have hnil : stale = [] := eq_nil_iff_forall_not_mem.2 fun e he => hfresh e (hp.mem_iff.2 (by simp [he])) (hst e he)
    exact ⟨taken, htask, by simpa [hnil] using hp⟩
  · cases r with
    | some t =>
      obtain ⟨e, he, -, hsel, -⟩ := hf.least t rfl
      exact (hasReadyForHart_iff.2 ⟨e, he, hsel.1, hsel.2.2⟩).symm
    | none =>
      refine ((Bool.not_eq_true _).mp fun hready => ?_).symm
      obtain ⟨e, he, hlife, hcan⟩ := hasReadyForHart_iff.1 hready
      have hstatus : (q.tasks e.task).status = .ready := not_not.1 fun hne => hfresh e he (.inr hne)
      exact hf.empty rfl hun e he ⟨hlife, hstatus, hcan⟩

/-- For every run queue and however the heap breaks ties, `fetch_task` takes the first entry of a live, ready task that
may run on the hart, and throws away stale entries only. That it comes back empty only if there is no such entry holds
for every heap exactly if no ready task of other harts stands before the first one; without stale entries the selection
is then exact. `has_ready_for_hart` is true whenever there is such an entry. -/
theorem fetchTask_fetches (h : ℕ) (q : RunQueue) :
    (∀ H : Heap key, Fetched h q (q.fetchTask H h).1 (q.fetchTask H h).2) ∧
    ((∀ H : Heap key, (q.fetchTask H h).1 = none → ∀ e ∈ q.queue, ¬ q.Selectable h e) ↔ q.Unobstructed h) ∧
    (q.Unobstructed h → (∀ e ∈ q.queue, ¬ q.Stale e) →
      ∀ H : Heap key, FetchedExactly h q (q.fetchTask H h).1 (q.fetchTask H h).2) ∧
    ((∃ e ∈ q.queue, q.Selectable h e) → q.hasReadyForHart h = true) := by
  have hf (H : Heap key) : Fetched h q (q.fetchTask H h).1 (q.fetchTask H h).2 := fetched_fetchLoop fun _ _ => rfl
  refine ⟨hf, ⟨fun hall => ?_, fun hun H hnone => (hf H).empty hnone hun⟩,
    fun hun hfresh H => (hf H).exactly hun hfresh, ?_⟩
  · rintro ⟨e, he, hsel⟩ f hfmem helse
    by_contra hnone
    push Not at hnone
    exact hall _ (fetchLoop_obstructed (sameTasks_queue q q.queue) hfmem helse hnone) e he hsel
  · rintro ⟨e, he, hlife, -, hcan⟩
    exact hasReadyForHart_iff.2 ⟨e, he, hlife, hcan⟩

/-- Two ready tasks on two harts; the first one is bound to hart `bound`. -/
def boundFirst (bound : ℕ) : RunQueue where
  harts := 2
  tasks t := ⟨t, .ready, false, true, 0, notRunning, 0, if t = 1 then 1 <<< bound else 3, 0, true, .live⟩
  queue := [⟨0, 1, 1⟩, ⟨5, 2, 2⟩]
  minVruntime := 0

/-- The task that hart 0 may run stands behind one that is bound to hart 1, and is not found. -/
theorem bound_task_obstructs :
    let q := boundFirst 1
    (q.fetchTask (favour key fun _ => true) 0).1 = none ∧ (∃ e ∈ q.queue, q.Selectable 0 e) ∧
      q.hasReadyForHart 0 = true := by
  decide +kernel

end RunQueue

namespace SchedState

variable {s : SchedState} {h : ℕ}

def runQueue (s : SchedState) : RunQueue := ⟨s.harts, s.tasks, s.queue, s.minVruntime⟩

def Alone (h : ℕ) (_ : SchedState) (e : SchedEvent) : Prop := e = .run (.hart h) ∨ ∃ entry, e = .pop h entry

def fetchedPc : Option ℕ → SchedPc
  | some t => .selected t
  | none => .loop

structure Returns (h : ℕ) (r : Option ℕ × RunQueue) (s : SchedState) : Prop where
  runQueue : s.runQueue = r.2
  lock : s.lock = none
  pc : s.pc (.hart h) = fetchedPc r.1

lemma goOn {r : Option ℕ × RunQueue} {e : SchedEvent} (hg : Alone h s e) (s₁ : SchedState)
    (hs : s.step e = some s₁) (h₁ : ∃ s', Reaches step (Alone h) s₁ s' ∧ Returns h r s') :
    ∃ s', Reaches step (Alone h) s s' ∧ Returns h r s' := by
  obtain ⟨s', hr, hret⟩ := h₁
  exact ⟨s', .head ⟨e, hg, hs⟩ hr, hret⟩

lemma returns_fetchNone (s : SchedState) (h : ℕ) : Returns h (none, s.runQueue) (s.fetchNone h) := by
  refine ⟨rfl, rfl, ?_⟩
  exact update_self ..

lemma reaches_fetchLoop (p : CfsEntry → Bool) (hpc : s.pc (.hart h) = .fetchLoop left)
    (hlock : s.lock = some (.hart h)) :
    ∃ s', Reaches step (Alone h) s s' ∧ Returns h (s.runQueue.fetchLoop (favour CfsEntry.key p) h left) s' := by
  induction left generalizing s with
  | zero =>
    have hs : s.step (.run (.hart h)) = some (s.fetchNone h) := by simp only [step, runStep, hpc, hartStep]
    exact goOn (.inl rfl) _ hs ⟨_, .refl, returns_fetchNone s h⟩
  | succ left ih =>
    rw [RunQueue.fetchLoop]
    cases hp : (favour CfsEntry.key p).pop s.runQueue.queue with
    | none =>
      have hempty : s.queue = [] := pop_eq_none.1 hp
      have hs : s.step (.run (.hart h)) = some (s.fetchNone h) := by
        simp only [step, runStep, hpc, hartStep, if_pos hempty]
      exact goOn (.inl rfl) _ hs ⟨_, .refl, returns_fetchNone s h⟩
    | some x =>
      obtain ⟨e, rest⟩ := x
      have hmem : e ∈ s.queue := pop_mem hp
      have hleast : ∀ x ∈ s.queue, e.le x = true := fun x hx => CfsEntry.le_iff.2 (pop_least hp hx)
      have hrest : rest = s.queue.erase e := by
        obtain ⟨y, -, hy⟩ := Option.map_eq_some_iff.1 hp
        cases hy
        rfl
      -- the entry is popped, and its task is looked at
      set s₁ := (s.setQueue rest).goto (.hart h) (.upgrade e left) with hs₁
      have hpc₁ : s₁.pc (.hart h) = .upgrade e left := update_self ..
      have hpop : s.step (.pop h e) = some s₁ := by
        rw [hs₁, hrest]
        simp only [step, hpc, if_pos (And.intro hmem hleast)]
      apply goOn (.inr ⟨e, rfl⟩) s₁ hpop
      dsimp only
      split_ifs with hlife hstatus hcan
      · have hs : s₁.step (.run (.hart h)) = some (s₁.goto (.hart h) (.fetchLoop left)) := by
          simp only [step, runStep, hpc₁, hartStep]
          exact if_pos hlife
        exact goOn (.inl rfl) _ hs (ih (update_self ..) hlock)
      all_goals
        set s₂ := s₁.goto (.hart h) (.examine e ((s.tasks e.task).canRunOn s.harts h) left) with hs₂
        have hpc₂ : s₂.pc (.hart h) = .examine e ((s.tasks e.task).canRunOn s.harts h) left := update_self ..
        have hexamine : s₁.step (.run (.hart h)) = some s₂ := by
          simp only [step, runStep, hpc₁, hartStep]
          exact if_neg hlife
        apply goOn (.inl rfl) s₂ hexamine
        have hs : s₂.step (.run (.hart h)) = some (s₂.examineStep h e ((s.tasks e.task).canRunOn s.harts h) left) := by
          simp only [step, runStep, hpc₂, hartStep]
        apply goOn (.inl rfl) _ hs
      · -- the task is reserved, and the lock released
        have hsel : s₂.examineStep h e ((s.tasks e.task).canRunOn s.harts h) left =
            (s₂.setTask e.task { s.tasks e.task with status := .running, onRq := false }).goto (.hart h)
              (.select e) := by
          exact (if_pos hstatus).trans (if_pos hcan)
        rw [hsel]
        set s₃ := (s₂.setTask e.task { s.tasks e.task with status := .running, onRq := false }).goto (.hart h)
          (.select e) with hs₃
        have hpc₃ : s₃.pc (.hart h) = .select e := update_self ..
        have hselect : s₃.step (.run (.hart h)) = s₃.hartStep h (.select e) := by
          simp only [step, runStep, hpc₃]
        apply goOn (.inl rfl) _ hselect
        refine ⟨_, .refl, ?_, rfl, update_self ..⟩
        rfl
      · have hback : s₂.examineStep h e ((s.tasks e.task).canRunOn s.harts h) left =
            s₂.goto (.hart h) (.pushBack e left) := by
          exact (if_pos hstatus).trans (if_neg hcan)
        rw [hback]
        set s₃ := s₂.goto (.hart h) (.pushBack e left) with hs₃
        have hpc₃ : s₃.pc (.hart h) = .pushBack e left := update_self ..
        have hpush : s₃.step (.run (.hart h)) = s₃.hartStep h (.pushBack e left) := by
          simp only [step, runStep, hpc₃]
        exact goOn (.inl rfl) _ hpush (ih (update_self ..) hlock)
      · have hdrop : s₂.examineStep h e ((s.tasks e.task).canRunOn s.harts h) left =
            (s₂.setTask e.task { s.tasks e.task with onRq := false }).goto (.hart h) (.fetchLoop left) := by
          exact if_neg hstatus
        rw [hdrop]
        exact ih (update_self ..) hlock

/-- The steps of a hart that moves alone compute `fetch_task`. -/
theorem reaches_fetchTask (p : CfsEntry → Bool) (hpc : s.pc (.hart h) = .fetchLock) (hlock : s.lock = none) :
    ∃ s', Reaches step (Alone h) s s' ∧ Returns h (s.runQueue.fetchTask (favour CfsEntry.key p) h) s' := by
  have hs : s.step (.run (.hart h)) =
      some ((s.setLock (some (.hart h))).goto (.hart h) (.fetchLoop s.queue.length)) := by
    simp only [step, runStep, hpc, hartStep, if_pos hlock]
  exact goOn (.inl rfl) _ hs (reaches_fetchLoop p (update_self ..) rfl)

def fetching : SchedState :=
  let q := RunQueue.boundFirst 0
  ⟨q.harts, q.tasks, q.queue, q.minVruntime, none, fun _ => none, fun _ => .fetchLock⟩

theorem reaches_fetchTask_ready : ∃ s, Reaches step (Alone 0) fetching s ∧ s.pc (.hart 0) = .selected 1 := by
  obtain ⟨s, hreach, hreturns⟩ := reaches_fetchTask (s := fetching) (h := 0) (fun _ => true) rfl rfl
  have hfetch : (fetching.runQueue.fetchTask (favour CfsEntry.key fun _ => true) 0).1 = some 1 := by decide +kernel
  exact ⟨s, hreach, hreturns.pc.trans (congrArg fetchedPc hfetch)⟩

end SchedState

end Ya2yOS.Task
