import Mathlib.Algebra.Ring.BooleanRing
import Ya2yOS.Task.ProcessExit

/-!
# Teardown of processes

As long as the exits of the threads of a process do not overlap, the last of them and no other tears the process
down.
-/

-- `grind` would try ring arithmetic on every `Bool`
attribute [-instance] instBooleanRingBool

namespace Ya2yOS.Task

open Function Lib List

namespace ExitSystem

/-- How far a process is: some thread has not finished its test and nothing is done; one thread tears down, and the
others have finished; or all threads have finished, and everything is done. -/
inductive Phase (s : ExitSystem) (p : ℕ) : Prop where
  | active (t : ℕ) (hpid : s.pidOf t = p) (ht : (s.pc t).active = true)
      (hnone : ∀ u, s.pidOf u = p → (s.pc u).tears = false) (hdone : (s.proc p).performed = [])
  | tearing (t : ℕ) (code : ℤ) (rest : List TeardownAction) (hpid : s.pidOf t = p) (ht : s.pc t = .tearing code rest)
      (hothers : ∀ u ≠ t, s.pidOf u = p → (s.pc u).active = false ∧ (s.pc u).tears = false)
      (hdone : (s.proc p).performed ++ rest = teardown)
  | done (hothers : ∀ u, s.pidOf u = p → (s.pc u).active = false ∧ (s.pc u).tears = false)
      (hdone : (s.proc p).performed = teardown)

structure Threads (s : ExitSystem) : Prop where
  listed : ∀ t, (s.pc t).live = true → t ∈ (s.proc (s.pidOf t)).tasks
  members : ∀ p, ∀ u ∈ (s.proc p).tasks, s.pidOf u = p ∧ s.pc u ≠ .absent
  alone : ∀ t u, (s.pc t).inWindow = true → (s.pc u).inWindow = true → s.pidOf t = s.pidOf u → t = u
  copied : ∀ t code rest, s.pc t = .testing code rest → ∀ v ∈ rest, s.pidOf v = s.pidOf t ∧ s.pc v ≠ .absent
  tested : ∀ t code rest, s.pc t = .testing code rest → ∀ u, (s.pc u).live = true → s.pidOf u = s.pidOf t →
    ∃ v ∈ rest, (s.pc v).live = true
  known : ∀ t, s.pc t ≠ .absent → s.pidOf t ∈ s.pids
  leader : ∀ p ∈ s.pids, s.pc p ≠ .absent
  phase : ∀ p ∈ s.pids, s.Phase p

variable {s s' : ExitSystem} {t u p reaper : ℕ} {e : ExitEvent} {pc : ExitPc} {a : TeardownAction} {code : ℤ}
  {rest : List TeardownAction} {shares : SharedKind → Bool}

attribute [grind =] ExitPc.live ExitPc.inWindow ExitPc.tears ExitPc.active

attribute [grind →] Threads.listed Threads.members Threads.alone Threads.copied Threads.known Threads.leader

lemma Phase.frame (h : s.Phase p) (hback : ∀ v, s'.pidOf v = p → s.pidOf v = p ∧ s'.pc v = s.pc v)
    (hforth : ∀ v, s.pidOf v = p → s.pc v ≠ .absent → s'.pidOf v = p ∧ s'.pc v = s.pc v)
    (hdone : (s'.proc p).performed = (s.proc p).performed) : s'.Phase p := by
  cases h with
  | active t hpid ht hnone hd =>
    have htp : s.pc t ≠ .absent := by grind
    exact .active t (hforth t hpid htp).1 (by grind) (by grind) (by grind)
  | tearing t code rest hpid ht hothers hd =>
    obtain ⟨hpid', hpc⟩ := hforth t hpid (by grind)
    exact .tearing t code rest hpid' (hpc.trans ht) (by grind) (by grind)
  | done hothers hd => exact .done (by grind) (by grind)

lemma Phase.of_active (h : s.Phase p) (hpid : s.pidOf t = p) (ht : (s.pc t).active = true) :
    (∀ u, s.pidOf u = p → (s.pc u).tears = false) ∧ (s.proc p).performed = [] := by
  cases h with
  | active t' hpid' ht' hnone hd => exact ⟨hnone, hd⟩
  | tearing t' code rest hpid' ht' hothers hd =>
    by_cases htt : t = t' <;> grind
  | done hothers hd => grind

lemma Phase.of_tearing (h : s.Phase p) (hpid : s.pidOf t = p) (ht : s.pc t = .tearing code rest) :
    (∀ u ≠ t, s.pidOf u = p → (s.pc u).active = false ∧ (s.pc u).tears = false) ∧
      (s.proc p).performed ++ rest = teardown := by
  cases h with
  | active t' hpid' ht' hnone hd => grind
  | tearing t' code' rest' hpid' ht' hothers hd =>
    by_cases htt : t = t' <;> grind
  | done hothers hd => grind

/-- What a step of one thread in the exit path leaves: its own process changes only in its list, children and code. -/
structure Moves (s s' : ExitSystem) (t : ℕ) (pc : ExitPc) : Prop where
  pids : s'.pids = s.pids
  pidOf : s'.pidOf = s.pidOf
  pc : s'.pc = update s.pc t pc
  tasks : ∀ p, ∀ u ∈ (s'.proc p).tasks, u ∈ (s.proc p).tasks

lemma Moves.pc_apply (h : Moves s s' t pc) (u : ℕ) : s'.pc u = if u = t then pc else s.pc u := by
  rw [h.pc, update_apply]

lemma moves_goto (s : ExitSystem) (t : ℕ) (pc : ExitPc) : Moves s (s.goto t pc) t pc := ⟨rfl, rfl, rfl, fun _ _ h => h⟩

section Moves

variable (hs : s.Threads) (hm : Moves s s' t pc)
include hs hm

lemma Threads.move (hphase : s'.Phase (s.pidOf t))
    (hdone : ∀ p ≠ s.pidOf t, (s'.proc p).performed = (s.proc p).performed)
    (hlisted : ∀ u, (s'.pc u).live = true → u ∈ (s.proc (s.pidOf u)).tasks → u ∈ (s'.proc (s.pidOf u)).tasks)
    (hpc : s.pc t ≠ .absent) (hne : pc ≠ .absent) (hlive : pc.live = true → (s.pc t).live = true)
    (halone : pc.inWindow = true → ∀ u ≠ t, s.pidOf u = s.pidOf t → (s.pc u).inWindow = false)
    (hwatched : ∀ u ≠ t, s.pidOf u = s.pidOf t → (s.pc u).inWindow = true → (s.pc t).live = true → pc.live = true)
    (hcopied : ∀ code rest, pc = .testing code rest → ∀ v ∈ rest, s.pidOf v = s.pidOf t ∧ s.pc v ≠ .absent)
    (htested : ∀ code rest, pc = .testing code rest → ∀ u, (s.pc u).live = true → s.pidOf u = s.pidOf t →
      ∃ v ∈ rest, v ≠ t ∧ (s.pc v).live = true) : s'.Threads := by
  obtain ⟨hpids, hpidOf, -, htasks⟩ := id hm
  have hpcs := hm.pc_apply
  have hback : ∀ u, (s'.pc u).live = true → (s.pc u).live = true := by grind
  constructor
  · intro u hu
    rw [hpidOf]
    exact hlisted u hu (hs.listed u (hback u hu))
  · grind
  · grind
  · grind
  · intro u code rest hu w hw hpid
    rw [hpidOf] at hpid
    by_cases hut : u = t
    · obtain ⟨v, hv, hvu, hlv⟩ := htested code rest (by grind) w (hback w hw) (by grind)
      exact ⟨v, hv, by grind⟩
    · obtain ⟨v, hv, hlv⟩ := hs.tested u code rest (by grind) w (hback w hw) hpid
      exact ⟨v, hv, by grind⟩
  · grind
  · grind
  · intro p hp
    by_cases hpt : p = s.pidOf t
    · exact hpt ▸ hphase
    · exact (hs.phase p (hpids ▸ hp)).frame (by grind) (by grind) (hdone p hpt)

lemma Threads.move_live (hlive : pc.live = true) (hlisted : ∀ p, (s.proc p).tasks = (s'.proc p).tasks)
    (hdone : ∀ p, (s'.proc p).performed = (s.proc p).performed) (ht : (s.pc t).live = true) : s'.Threads := by
  have hpcs := hm.pc_apply
  have hpidOf := hm.pidOf
  obtain ⟨hnone, hd⟩ := (hs.phase _ (hs.known t (by grind))).of_active rfl (by grind)
  have htears : pc.inWindow = false ∧ pc.tears = false := by cases pc <;> grind
  exact hs.move hm (.active t (by grind) (by grind) (by grind) (by grind)) (fun p _ => hdone p) (by grind) (by grind)
    (by grind) (by grind) (by grind) (by grind) (by grind) (by grind)

lemma Threads.move_window (hwindow : pc.inWindow = true) (hdone : ∀ p, (s'.proc p).performed = (s.proc p).performed)
    (hlisted : ∀ u ≠ t, (s.pc u).live = true → u ∈ (s.proc (s.pidOf u)).tasks → u ∈ (s'.proc (s.pidOf u)).tasks)
    (htested : ∀ code rest, pc = .testing code rest → ∀ u, (s.pc u).live = true → s.pidOf u = s.pidOf t →
      ∃ v ∈ rest, v ≠ t ∧ (s.pc v).live = true)
    (ht : (s.pc t).active = true) (halone : ∀ u ≠ t, s.pidOf u = s.pidOf t → (s.pc u).inWindow = false)
    (hcopied : ∀ code rest, pc = .testing code rest → ∀ v ∈ rest, s.pidOf v = s.pidOf t ∧ s.pc v ≠ .absent) :
    s'.Threads := by
  have hpcs := hm.pc_apply
  have hpidOf := hm.pidOf
  obtain ⟨hnone, hd⟩ := (hs.phase _ (hs.known t (by grind))).of_active rfl ht
  have hlive : pc.live = false ∧ pc.tears = false := by cases pc <;> grind
  exact hs.move hm (.active t (by grind) (by grind) (by grind) (by grind)) (fun p _ => hdone p) (by grind) (by grind)
    (by grind) (by grind) (by grind) (by grind) (by grind) (by grind)

lemma Threads.move_after (hphase : s'.Phase (s.pidOf t))
    (hdone : ∀ p ≠ s.pidOf t, (s'.proc p).performed = (s.proc p).performed)
    (hlisted : ∀ u ≠ t, (s.pc u).live = true → u ∈ (s.proc (s.pidOf u)).tasks → u ∈ (s'.proc (s.pidOf u)).tasks)
    (hpc : s.pc t ≠ .absent) (hne : pc ≠ .absent) (hwindow : pc.live = false ∧ pc.inWindow = false)
    (hnot : (s.pc t).live = false) : s'.Threads := by
  have hpcs := hm.pc_apply
  exact hs.move hm hphase hdone (by grind) hpc hne (by grind) (by grind) (by grind) (by grind) (by grind)

end Moves

@[grind =]
lemma proc_setProc (s : ExitSystem) (p : ℕ) (x : ExitProcess) (q : ℕ) :
    (s.setProc p x).proc q = if q = p then x else s.proc q := by
  unfold setProc
  dsimp only
  rw [update_apply]

@[grind =]
lemma goto_proc (s : ExitSystem) (t : ℕ) (pc : ExitPc) (q : ℕ) : (s.goto t pc).proc q = s.proc q := rfl

@[grind =]
lemma goto_pidOf (s : ExitSystem) (t : ℕ) (pc : ExitPc) (u : ℕ) : (s.goto t pc).pidOf u = s.pidOf u := rfl

@[grind =]
lemma goto_pc (s : ExitSystem) (t : ℕ) (pc : ExitPc) (u : ℕ) :
    (s.goto t pc).pc u = if u = t then pc else s.pc u := (moves_goto s t pc).pc_apply u

section Advance

variable {reaper v : ℕ} {code : ℤ} (hs : s.Threads) {rest : List ℕ}
include hs

lemma Threads.mark (hpc : s.pc t = .leaving code) (hg : s.Alone (.run t reaper)) :
    (s.goto t (.zombie code)).Threads := by
  simp only [Alone, hpc] at hg
  exact hs.move_window (moves_goto _ _ _) rfl (fun _ => rfl) (fun _ _ _ h => h) (by grind) (by grind) (by grind)
    (by grind)

lemma Threads.remove (hpc : s.pc t = .zombie code) : ((s.setProc (s.pidOf t) { s.proc (s.pidOf t) with
      tasks := (s.proc (s.pidOf t)).tasks.filter fun u => (s.pc u).upgradable && decide (u ≠ t) }).goto t
        (.removed code)).Threads := by
  have hwin : (s.pc t).inWindow = true := by grind
  refine hs.move_window ⟨rfl, rfl, rfl, by grind⟩ rfl (by grind) ?_ (by grind) (by grind) (by grind) (by grind)
  intro u hut hlive hmem
  have := ExitPc.upgradable_of_live hlive
  grind

lemma Threads.copy (hpc : s.pc t = .removed code) : (s.goto t (.testing code (s.proc (s.pidOf t)).tasks)).Threads := by
  have hwin : (s.pc t).inWindow = true := by grind
  refine hs.move_window (moves_goto _ _ _) rfl (fun _ => rfl) (fun _ _ _ h => h) ?_ (by grind) (by grind) (by grind)
  intro code' rest h u hu hpid
  cases h
  exact ⟨u, hpid ▸ hs.listed u hu, by grind, hu⟩

lemma Threads.testOn (hpc : s.pc t = .testing code (v :: rest))
    (hv : (s.pc v).live = false) : (s.goto t (.testing code rest)).Threads := by
  have hwin : (s.pc t).inWindow = true := by grind
  refine hs.move_window (moves_goto _ _ _) rfl (fun _ => rfl) (fun _ _ _ h => h) ?_ (by grind) (by grind) (by grind)
  intro code' rest' h u hu hpid
  cases h
  obtain ⟨w, hw, hlw⟩ := hs.tested t _ _ hpc u hu hpid
  exact ⟨w, by grind, by grind, hlw⟩

/-- The test ends where a thread of the copy is still alive; that thread is left to tear down. -/
lemma Threads.testFails (hpc : s.pc t = .testing code (v :: rest))
    (hv : (s.pc v).live = true) : (s.goto t .gone).Threads := by
  obtain ⟨hnone, hd⟩ := (hs.phase _ (hs.known t (by grind))).of_active rfl (by grind)
  exact hs.move_after (moves_goto _ _ _)
    (.active v (hs.copied t _ _ hpc v mem_cons_self).1 (by grind) (by grind) hd) (fun _ _ => rfl) (fun _ _ _ h => h)
    (by grind) (by grind) (by grind) (by grind)

lemma Threads.testSucceeds (hpc : s.pc t = .testing code []) : (s.goto t (.tearing code teardown)).Threads := by
  have hwin : (s.pc t).inWindow = true := by grind
  obtain ⟨hnone, hd⟩ := (hs.phase _ (hs.known t (by grind))).of_active rfl (by grind)
  refine hs.move_after (moves_goto _ _ _) (.tearing t code teardown rfl (by grind) ?_ (by rw [goto_proc, hd]; rfl))
    (fun _ _ => rfl) (fun _ _ _ h => h) (by grind) (by grind) (by grind) (by grind)
  intro u hut hu
  have hlive : ¬(s.pc u).live = true := by
    intro h
    obtain ⟨v, hv, -⟩ := hs.tested t _ _ hpc u h hu
    cases hv
  grind

end Advance

/-- What an action does to the processes: it only makes lists shorter, and only the list of its own. -/
lemma perform_proc (s : ExitSystem) (p reaper : ℕ) (code : ℤ) (a : TeardownAction) (q : ℕ) :
    ((s.perform p reaper code a).proc q).performed = (s.proc q).performed ∧
      ((s.perform p reaper code a).proc q).shared = (s.proc q).shared ∧
      (∀ u ∈ ((s.perform p reaper code a).proc q).tasks, u ∈ (s.proc q).tasks) ∧
      (q ≠ p → ((s.perform p reaper code a).proc q).tasks = (s.proc q).tasks) := by
  cases a <;> grind [perform, releaseOwner, setGroupExitCodeOnce, exitAndReparent]

lemma perform_rest (s : ExitSystem) (p reaper : ℕ) (code : ℤ) (a : TeardownAction) :
    (s.perform p reaper code a).pids = s.pids ∧ (s.perform p reaper code a).pidOf = s.pidOf ∧
      (s.perform p reaper code a).pc = s.pc := by
  cases a <;> exact ⟨rfl, rfl, rfl⟩

section Tear

variable {reaper : ℕ} {code : ℤ} (hs : s.Threads)
include hs

lemma Threads.tear (hpc : s.pc t = .tearing code (a :: rest)) :
    (((s.perform (s.pidOf t) reaper code a).log (s.pidOf t) a).goto t (.tearing code rest)).Threads := by
  obtain ⟨hothers, hd⟩ := (hs.phase _ (hs.known t (by grind))).of_tearing rfl hpc
  obtain ⟨hpids, hpidOf, hpcs⟩ := s.perform_rest (s.pidOf t) reaper code a
  have hproc := s.perform_proc (s.pidOf t) reaper code a
  have hm : Moves s (((s.perform (s.pidOf t) reaper code a).log (s.pidOf t) a).goto t (.tearing code rest)) t
      (.tearing code rest) :=
    ⟨hpids, hpidOf, congrArg (update · t _) hpcs, by grind [log]⟩
  have hpc' := hm.pc_apply
  have hpid' := hm.pidOf
  -- the live threads belong to other processes, whose lists stay
  exact hs.move_after hm (.tearing t code rest (by grind) (by grind) (by grind) (by grind [log])) (by grind [log])
    (by grind [log]) (by grind) (by grind) (by grind) (by grind)

lemma Threads.tornDown (hpc : s.pc t = .tearing code []) : (s.goto t .gone).Threads := by
  obtain ⟨hothers, hd⟩ := (hs.phase _ (hs.known t (by grind))).of_tearing rfl hpc
  exact hs.move_after (moves_goto _ _ _) (.done (by grind) (by grind)) (fun _ _ => rfl) (fun _ _ _ h => h)
    (by grind) (by grind) (by grind) (by grind)

lemma Threads.drop (hpc : s.pc t = .gone) : (s.goto t .dropped).Threads := by
  refine hs.move_after (moves_goto _ _ _) ?_ (fun _ _ => rfl) (fun _ _ _ h => h) (by grind) (by grind) (by grind)
    (by grind)
  cases hs.phase _ (hs.known t (by grind)) with
  | active v hpid hv hnone hd => exact .active v hpid (by grind) (by grind) hd
  | tearing v code rest hpid hv hothers hd => exact .tearing v code rest hpid (by grind) (by grind) hd
  | done hothers hd => exact .done (by grind) hd

end Tear

lemma Threads.advance (hs : s.Threads) (hg : s.Alone (.run t reaper))
    (h : s.advance t reaper (s.pc t) = some s') : s'.Threads := by
  generalize hpc : s.pc t = pc at h
  cases pc with
  | absent | running | gone | dropped =>
    cases h
  | found child =>
    simp only [ExitSystem.advance] at h
    split_ifs at h
    · cases h
      exact hs.move_live ⟨rfl, rfl, rfl, by grind⟩ rfl (by grind) (by grind) (by grind)
    · cases h
      exact hs.move_live (moves_goto _ _ _) rfl (fun _ => rfl) (fun _ => rfl) (by grind)
  | leaving code =>
    cases h
    exact hs.mark hpc hg
  | zombie code =>
    cases h
    exact hs.remove hpc
  | removed code =>
    cases h
    exact hs.copy hpc
  | testing code rest =>
    cases rest with
    | nil =>
      cases h
      exact hs.testSucceeds hpc
    | cons v rest =>
      have hv := (s.pc v).live_iff
      simp only [ExitSystem.advance] at h
      split_ifs at h
      · cases h
        exact hs.testFails hpc (by grind)
      · cases h
        exact hs.testOn hpc (by grind)
  | tearing code rest =>
    cases rest with
    | nil =>
      cases h
      exact hs.tornDown hpc
    | cons a rest =>
      cases h
      exact hs.tear hpc

structure Spawns (s s' : ExitSystem) (u q : ℕ) : Prop where
  absent : s.pc u = .absent
  pc : s'.pc u = .running
  pid : s'.pidOf u = q
  others : ∀ v ≠ u, s'.pc v = s.pc v ∧ s'.pidOf v = s.pidOf v
  listed : u ∈ (s'.proc q).tasks
  keeps : ∀ v, (s.pc v).live = true → v ∈ (s'.proc (s.pidOf v)).tasks
  members : ∀ p, ∀ v ∈ (s'.proc p).tasks, v ∈ (s.proc p).tasks ∨ v = u ∧ p = q
  pids : ∀ p, p ∈ s'.pids ↔ p ∈ s.pids ∨ p = q
  leader : q ∈ s.pids ∨ q = u

lemma Threads.spawn {q : ℕ} (hs : s.Threads) (h : Spawns s s' u q)
    (hcreator : ∀ v, (s.pc v).inWindow = true → s.pidOf v = q → ∃ t, (s.pc t).live = true ∧ s.pidOf t = q)
    (hphase : s'.Phase q) (hdone : ∀ p ∈ s.pids, p ≠ q → (s'.proc p).performed = (s.proc p).performed) :
    s'.Threads := by
  obtain ⟨habsent, hpc, hpid, hothers, hlisted, hkeeps, hmembers, hpids, hleader⟩ := h
  have hkeep : ∀ v, s.pc v ≠ .absent → s'.pc v = s.pc v ∧ s'.pidOf v = s.pidOf v := by grind
  constructor
  · grind
  · grind
  · grind
  · grind
  · intro v code rest hv w hw hvw
    have hvu : v ≠ u := by grind
    -- where the new thread counts, its creator does
    have hex : ∃ x ∈ rest, (s.pc x).live = true := by
      by_cases hwu : w = u
      · obtain ⟨t, ht, htq⟩ := hcreator v (by grind) (by grind)
        exact hs.tested v code rest (by grind) t ht (by grind)
      · exact hs.tested v code rest (by grind) w (by grind) (by grind)
    obtain ⟨x, hx, hlx⟩ := hex
    exact ⟨x, hx, by grind⟩
  · grind
  · grind
  · intro p hp
    by_cases hpq : p = q
    · exact hpq ▸ hphase
    · have hp : p ∈ s.pids := ((hpids p).1 hp).resolve_right hpq
      exact (hs.phase p hp).frame (by grind) (by grind) (hdone p hp hpq)

lemma cloneThread_spec (h : s.step (.cloneThread t u) = some s') :
    s.pc t = .running ∧ s.pc u = .absent ∧ s'.pids = s.pids ∧ s'.reaped = s.reaped ∧
      (∀ v, s'.pc v = if v = u then .running else s.pc v) ∧
      (∀ v, s'.pidOf v = if v = u then s.pidOf t else s.pidOf v) ∧
      ∀ q, s'.proc q = if q = s.pidOf t then { s.proc (s.pidOf t) with
        tasks := (s.proc (s.pidOf t)).tasks.filter (fun v => (s.pc v).upgradable) ++ [u] } else s.proc q := by
  obtain ⟨hcond, rfl⟩ := of_guard h
  exact ⟨hcond.1, hcond.2, rfl, rfl, update_apply _ _ _, update_apply _ _ _, proc_setProc _ _ _⟩

lemma cloneProcess_spec (h : s.step (.cloneProcess t u shares) = some s') :
    s.pc t = .running ∧ s.pc u = .absent ∧ s'.pids = u :: s.pids ∧ s'.reaped = s.reaped ∧
      (∀ v, s'.pc v = if v = u then .running else s.pc v) ∧
      (∀ v, s'.pidOf v = if v = u then u else s.pidOf v) ∧
      ∀ q, (s'.proc q).tasks = (if q = u then [u] else (s.proc q).tasks) ∧
        (s'.proc q).performed = (if q = u then [] else (s.proc q).performed) ∧
        ∀ c ∈ (s'.proc q).children, c ∈ (s.proc q).children ∨ c = u := by
  obtain ⟨hcond, rfl⟩ := of_guard h
  refine ⟨hcond.1, hcond.2, rfl, rfl, update_apply _ _ _, update_apply _ _ _, fun q => ?_⟩
  simp only [goto_proc, proc_setProc]
  grind

lemma Threads.cloneThread (hs : s.Threads) (h : s.step (.cloneThread t u) = some s') : s'.Threads := by
  obtain ⟨hpc, hu, hpids, -, hpcs, hpidOf, hproc⟩ := cloneThread_spec h
  have hknown := hs.known t (by grind)
  have hup : ∀ v, (s.pc v).live = true → (s.pc v).upgradable = true := fun _ => ExitPc.upgradable_of_live
  obtain ⟨hnone, hd⟩ := (hs.phase _ hknown).of_active rfl (by grind)
  exact hs.spawn ⟨hu, by grind, by grind, by grind, by grind, by grind, by grind, by grind,
    .inl hknown⟩ (fun v _ _ => ⟨t, by grind, rfl⟩)
    (.active t (by grind) (by grind) (by grind) (by grind)) (by grind)

lemma Threads.cloneProcess (hs : s.Threads) (h : s.step (.cloneProcess t u shares) = some s') : s'.Threads := by
  obtain ⟨hpc, hu, hpids, -, hpcs, hpidOf, hproc⟩ := cloneProcess_spec h
  have hfresh : ∀ v, s.pc v ≠ .absent → s.pidOf v ≠ u := by grind
  exact hs.spawn ⟨hu, by grind, by grind, by grind, by grind, by grind, by grind, by grind, .inr rfl⟩
    (by grind) (.active u (by grind) (by grind) (by grind) (by grind)) (by grind)

lemma Threads.step (hs : s.Threads) (hg : s.Alone e) (h : s.step e = some s') : s'.Threads := by
  cases e with
  | cloneThread t u => exact hs.cloneThread h
  | cloneProcess t u shares => exact hs.cloneProcess h
  | exit t code =>
    obtain ⟨hpc, rfl⟩ := of_guard h
    exact hs.move_live (moves_goto _ _ _) rfl (fun _ => rfl) (fun _ => rfl) (by grind)
  | exitGroup t code =>
    obtain ⟨hpc, rfl⟩ := of_guard h
    exact hs.move_live ⟨rfl, rfl, rfl, by grind [setGroupExitCodeOnce]⟩ rfl (by grind [setGroupExitCodeOnce])
      (by grind [setGroupExitCodeOnce]) (by grind)
  | run t reaper => exact hs.advance hg h
  | drop t =>
    obtain ⟨hpc, rfl⟩ := of_guard h
    exact hs.drop hpc
  | find t child =>
    obtain ⟨hcond, rfl⟩ := of_guard h
    exact hs.move_live (moves_goto _ _ _) rfl (fun _ => rfl) (fun _ => rfl) (by grind)

lemma threads_initial : initial.Threads := by
  have hpc : ∀ t, initial.pc t = if t = 1 then .running else .absent := fun _ => rfl
  have hpid : ∀ t, initial.pidOf t = 1 := fun _ => rfl
  have hpids : initial.pids = [1] := rfl
  have htasks : ∀ p, (initial.proc p).tasks = if p = 1 then [1] else [] := by
    intro p
    simp only [initial]
    split_ifs <;> rfl
  constructor
  case phase =>
    intro p hp
    obtain rfl := mem_singleton.1 hp
    exact .active 1 rfl rfl (by grind) rfl
  all_goals grind

/-! ### Owner counts -/

def Owns (s : ExitSystem) (k : SharedKind) (n p : ℕ) : Prop :=
  (s.proc p).shared k = n ∧ .release k ∉ (s.proc p).performed
deriving Decidable

structure Accounts (s : ExitSystem) : Prop where
  nodup : s.pids.Nodup
  ids : ∀ p ∈ s.pids, ∀ k, (s.proc p).shared k ∈ s.pids
  owners : ∀ k n, s.owners k n = (s.pids.countP fun p => s.Owns k n p : ℕ)
  cleared : ∀ k n, s.cleared k n = true →
    n ∈ s.pids ∧ ∀ p ∈ s.pids, (s.proc p).shared k = n → .release k ∈ (s.proc p).performed

lemma Accounts.frame (ha : s.Accounts) (hpids : s'.pids = s.pids) (howners : s'.owners = s.owners)
    (hcleared : s'.cleared = s.cleared)
    (hproc : ∀ p, (s'.proc p).shared = (s.proc p).shared ∧
      ∀ k, .release k ∈ (s'.proc p).performed ↔ .release k ∈ (s.proc p).performed) : s'.Accounts := by
  obtain ⟨hnodup, hids, hown, hclear⟩ := ha
  have hOwns : ∀ k n p, s'.Owns k n p ↔ s.Owns k n p := by grind [Owns]
  refine ⟨hpids ▸ hnodup, ?_, ?_, ?_⟩
  · intro p hp k
    rw [hpids] at hp ⊢
    rw [(hproc p).1]
    exact hids p hp k
  · intro k n
    simp only [howners, hown, hpids, hOwns]
  · intro k n hc
    rw [hcleared] at hc
    obtain ⟨hmem, hall⟩ := hclear k n hc
    exact ⟨hpids ▸ hmem, by grind⟩

lemma countP_eq_succ {l : List ℕ} {P Q : ℕ → Bool} (hl : l.Nodup) (hp : p ∈ l) (hP : P p = true) (hQ : Q p = false)
    (h : ∀ q ≠ p, P q = Q q) : l.countP P = l.countP Q + 1 := by
  have hperm := perm_cons_erase hp
  have herase : (l.erase p).countP P = (l.erase p).countP Q := by
    apply countP_congr
    intro q hq
    rw [h q]
    rintro rfl
    exact hl.not_mem_erase hq
  rw [hperm.countP_eq, hperm.countP_eq, countP_cons, countP_cons, herase, hP, hQ]
  rfl

lemma nodup_teardown : teardown.Nodup := by decide

@[grind =]
lemma owners_releaseOwner (s : ExitSystem) (k : SharedKind) (n : ℕ) (k' : SharedKind) (n' : ℕ) :
    (s.releaseOwner k n).owners k' n' = if k' = k ∧ n' = n then s.owners k n - 1 else s.owners k' n' := by
  by_cases hk : k' = k
  · subst hk
    simp only [releaseOwner, update_self, update_apply, true_and]
  · simp only [releaseOwner, update_of_ne hk, hk, false_and, if_false]

lemma cleared_releaseOwner (s : ExitSystem) (k : SharedKind) (n : ℕ) (k' : SharedKind) (n' : ℕ)
    (h : (s.releaseOwner k n).cleared k' n' = true) : s.cleared k' n' = true ∨ k' = k ∧ n' = n ∧ s.owners k n = 1 := by
  simp only [releaseOwner] at h
  split_ifs at h
  · simp only [update_apply] at h
    grind
  · exact .inl h

lemma Accounts.release (ha : s.Accounts) (hp : p ∈ s.pids) {k : SharedKind} (hnot : .release k ∉ (s.proc p).performed) :
    Accounts ((s.releaseOwner k ((s.proc p).shared k)).log p (.release k)) := by
  generalize hs' : (s.releaseOwner k ((s.proc p).shared k)).log p (.release k) = s'
  have hpids : s'.pids = s.pids := hs' ▸ rfl
  have howners : ∀ k' n, s'.owners k' n =
      if k' = k ∧ n = (s.proc p).shared k then s.owners k n - 1 else s.owners k' n := by
    intro k' n
    subst hs'
    exact (s.owners_releaseOwner k _ k' n).trans (by grind)
  have hcleared : ∀ k' n, s'.cleared k' n = true →
      s.cleared k' n = true ∨ k' = k ∧ n = (s.proc p).shared k ∧ s.owners k n = 1 := by
    intro k' n h
    subst hs'
    exact (s.cleared_releaseOwner k _ k' n h).imp_right (by grind)
  have hproc : ∀ q, (s'.proc q).shared = (s.proc q).shared ∧
      (s'.proc q).performed = (s.proc q).performed ++ if q = p then [.release k] else [] := by
    intro q
    subst hs'
    have hsame : ∀ q, (s.releaseOwner k ((s.proc p).shared k)).proc q = s.proc q := fun _ => rfl
    simp only [log, proc_setProc, hsame]
    split_ifs with hq
    · exact hq ▸ ⟨rfl, rfl⟩
    · exact ⟨rfl, (append_nil _).symm⟩
  have hshared : ∀ q k, (s'.proc q).shared k = (s.proc q).shared k := fun q => congrFun (hproc q).1
  have hcount : ∀ k' n, (s.pids.countP fun q => s.Owns k' n q) =
      (s.pids.countP fun q => s'.Owns k' n q) + if k' = k ∧ n = (s.proc p).shared k then 1 else 0 := by
    intro k' n
    have hother : ∀ q, q ≠ p ∨ ¬(k' = k ∧ n = (s.proc p).shared k) → (s.Owns k' n q ↔ s'.Owns k' n q) := by
      grind [Owns]
    split_ifs with hk
    · exact countP_eq_succ ha.nodup hp (by grind [Owns]) (by grind [Owns]) (by grind)
    · exact countP_congr (by grind)
  refine ⟨hpids ▸ ha.nodup, ?_, ?_, ?_⟩
  · intro q hq k'
    rw [hpids] at hq ⊢
    rw [hshared]
    exact ha.ids q hq k'
  · intro k' n
    have h1 := ha.owners k' n
    have h2 := hcount k' n
    rw [hpids, howners]
    split_ifs at h2 ⊢ <;> grind
  · intro k' n h
    have hold := ha.cleared k' n
    have hmono : ∀ q, .release k' ∈ (s.proc q).performed → .release k' ∈ (s'.proc q).performed := by grind
    rcases hcleared k' n h with hc | ⟨rfl, rfl, hlast⟩
    · grind
    -- the last owner: nobody else has it
    refine ⟨hpids ▸ ha.ids p hp k', fun q hq hqn => ?_⟩
    by_contra hno
    have hown := hcount k' ((s.proc p).shared k')
    have hcnt := ha.owners k' ((s.proc p).shared k')
    have hpos : 0 < s.pids.countP fun q => s'.Owns k' ((s.proc p).shared k') q :=
      countP_pos_iff.2 ⟨q, hpids ▸ hq, decide_eq_true ⟨hqn, hno⟩⟩
    rw [if_pos ⟨rfl, rfl⟩] at hown
    omega

lemma Accounts.goto (ha : s.Accounts) (t : ℕ) (pc : ExitPc) : (s.goto t pc).Accounts :=
  ha.frame rfl rfl rfl fun _ => ⟨rfl, fun _ => Iff.rfl⟩

lemma Accounts.setProc (ha : s.Accounts) {x : ExitProcess} (hshared : x.shared = (s.proc p).shared)
    (hdone : ∀ k, .release k ∈ x.performed ↔ .release k ∈ (s.proc p).performed) : (s.setProc p x).Accounts :=
  ha.frame rfl rfl rfl (by grind)

lemma Accounts.perform (ha : s.Accounts) (hne : ∀ k, a ≠ .release k) :
    ((s.perform p reaper code a).log p a).Accounts := by
  have hproc := s.perform_proc p reaper code a
  have hrest : (s.perform p reaper code a).owners = s.owners ∧ (s.perform p reaper code a).cleared = s.cleared := by
    cases a with
    | release k => exact absurd rfl (hne k)
    | _ => exact ⟨rfl, rfl⟩
  have hmid : (s.perform p reaper code a).Accounts :=
    ha.frame (s.perform_rest p reaper code a).1 hrest.1 hrest.2 (by grind)
  exact Accounts.setProc hmid rfl (by grind)

lemma Accounts.advance (ha : s.Accounts) (hs : s.Threads) (h : s.advance t reaper (s.pc t) = some s') :
    s'.Accounts := by
  generalize hpc : s.pc t = pc at h
  cases pc with
  | absent | running | gone | dropped =>
    cases h
  | leaving code | removed code =>
    cases h
    exact ha.goto _ _
  | found child =>
    simp only [ExitSystem.advance] at h
    split_ifs at h
    · cases h
      have hmid : (s.setProc (s.pidOf t) { s.proc (s.pidOf t) with
          children := (s.proc (s.pidOf t)).children.erase child }).Accounts := ha.setProc rfl fun _ => Iff.rfl
      exact hmid.frame rfl rfl rfl fun _ => ⟨rfl, fun _ => Iff.rfl⟩
    · cases h
      exact ha.goto _ _
  | zombie code =>
    cases h
    apply Accounts.goto
    exact ha.setProc rfl fun _ => Iff.rfl
  | testing code rest =>
    cases rest with
    | nil =>
      cases h
      exact ha.goto _ _
    | cons v rest =>
      simp only [ExitSystem.advance] at h
      split_ifs at h
      all_goals
        cases h
        exact ha.goto _ _
  | tearing code rest =>
    cases rest with
    | nil =>
      cases h
      exact ha.goto _ _
    | cons a rest =>
      cases h
      have hknown := hs.known t (by grind)
      by_cases hrel : ∃ k, a = .release k
      · obtain ⟨k, rfl⟩ := hrel
        have hd := ((hs.phase _ hknown).of_tearing rfl hpc).2
        have hnot : .release k ∉ (s.proc (s.pidOf t)).performed := by
          intro hmem
          have hnodup := nodup_teardown
          rw [← hd] at hnodup
          exact (nodup_append.1 hnodup).2.2 _ hmem _ mem_cons_self rfl
        exact (ha.release hknown hnot).goto _ _
      · exact (ha.perform fun k hk => hrel ⟨k, hk⟩).goto _ _

lemma Accounts.spawn (ha : s.Accounts) (hfresh : u ∉ s.pids) (hpids : s'.pids = u :: s.pids)
    (hold : ∀ p ∈ s.pids, (s'.proc p).shared = (s.proc p).shared ∧ (s'.proc p).performed = (s.proc p).performed)
    (hdone : (s'.proc u).performed = []) (hids : ∀ k, (s'.proc u).shared k ∈ u :: s.pids)
    (hcleared : s'.cleared = s.cleared) (hnot : ∀ k, s.cleared k ((s'.proc u).shared k) = false)
    (howners : ∀ k n, s'.owners k n = if n = (s'.proc u).shared k then s.owners k n + 1 else s.owners k n) :
    s'.Accounts := by
  obtain ⟨hnodup, hsids, hown, hclear⟩ := ha
  have hshared : ∀ p ∈ s.pids, ∀ k, (s'.proc p).shared k = (s.proc p).shared k := fun p hp => congrFun (hold p hp).1
  refine ⟨by grind, by grind, ?_, fun k n hc => ?_⟩
  swap
  · rw [hcleared] at hc
    obtain ⟨hmem, hall⟩ := hclear k n hc
    exact ⟨by grind, by grind⟩
  intro k n
  have hsame : (s.pids.countP fun p => s'.Owns k n p) = s.pids.countP fun p => s.Owns k n p :=
    countP_congr (by grind [Owns])
  have hself : s'.Owns k n u ↔ n = (s'.proc u).shared k := by grind [Owns]
  rw [howners, hpids, countP_cons, hsame, hown]
  grind

lemma Accounts.cloneProcess (ha : s.Accounts) (hs : s.Threads)
    (h : s.step (.cloneProcess t u shares) = some s') : s'.Accounts := by
  simp only [ExitSystem.step] at h
  split_ifs at h with hcond
  obtain ⟨hpc, hu⟩ := hcond
  have hknown := hs.known t (by grind)
  have hfresh : u ∉ s.pids := fun hmem => hs.leader u hmem hu
  have hd := ((hs.phase _ hknown).of_active rfl (by grind)).2
  cases h
  refine ha.spawn hfresh rfl ?_ ?_ ?_ rfl ?_ ?_
  · intro p hp
    simp only [goto_proc, proc_setProc]
    grind
  · simp only [goto_proc, proc_setProc, if_true]
  · intro k
    simp only [goto_proc, proc_setProc, if_true]
    grind [ha.ids]
  · -- a running parent has released nothing, and a new table has not been cleared
    intro k
    simp only [goto_proc, proc_setProc, if_true]
    by_contra hc
    obtain ⟨hmem, hall⟩ := ha.cleared k _ (by simpa using hc)
    split_ifs at hmem hall with hk
    · have := hall _ hknown rfl
      rw [hd] at this
      cases this
    · exact hfresh hmem
  · intro k n
    simp only [goto_proc, proc_setProc, if_true]
    rfl

lemma Accounts.step (ha : s.Accounts) (hs : s.Threads) (h : s.step e = some s') : s'.Accounts := by
  cases e with
  | cloneProcess t u shares => exact ha.cloneProcess hs h
  | run t reaper => exact ha.advance hs h
  | cloneThread t u =>
    obtain ⟨-, rfl⟩ := of_guard h
    refine ha.frame rfl rfl rfl fun p => ?_
    simp only [goto_proc, proc_setProc]
    grind
  | exitGroup t code =>
    obtain ⟨-, rfl⟩ := of_guard h
    apply Accounts.goto
    exact ha.setProc rfl fun _ => Iff.rfl
  | exit t code | drop t | find t child =>
    obtain ⟨-, rfl⟩ := of_guard h
    exact ha.goto _ _

lemma accounts_initial : initial.Accounts := by
  constructor
  · exact pairwise_singleton _ 1
  · intro p hp k
    obtain rfl := mem_singleton.1 hp
    exact mem_singleton.2 rfl
  · intro k n
    show (if n = 1 then (1 : ℤ) else 0) = (([1].countP fun p => initial.Owns k n p : ℕ) : ℤ)
    have hown : initial.Owns k n 1 ↔ n = 1 := ⟨fun h => h.1.symm, fun h => ⟨h.symm, not_mem_nil⟩⟩
    rw [countP_singleton]
    grind
  · intro k n h
    cases h

lemma sound_of_reaches (h : Reaches ExitSystem.step Alone initial s) : s.Threads ∧ s.Accounts :=
  h.invariant (I := fun s => s.Threads ∧ s.Accounts)
    (fun _ _ _ hi hg he => ⟨hi.1.step hg he, hi.2.step hi.1 he⟩) ⟨threads_initial, accounts_initial⟩

def Finished (s : ExitSystem) (t : ℕ) : Prop := (s.pc t).active = false ∧ (s.pc t).tears = false

lemma Phase.sublist (h : s.Phase p) : ∃ rest, (s.proc p).performed ++ rest = teardown := by
  cases h with
  | active t hpid ht hnone hd => exact ⟨teardown, by rw [hd]; rfl⟩
  | tearing t code rest hpid ht hothers hd => exact ⟨rest, hd⟩
  | done hothers hd => exact ⟨[], by rw [hd]; rfl⟩

lemma Phase.of_finished (h : s.Phase p) (hall : ∀ t, s.pidOf t = p → s.Finished t) :
    (s.proc p).performed = teardown := by
  cases h with
  | active t hpid ht hnone hd =>
    rw [(hall t hpid).1] at ht
    cases ht
  | tearing t code rest hpid ht hothers hd =>
    have := (hall t hpid).2
    rw [ht] at this
    cases this
  | done hothers hd => exact hd

/-- Where the exits of the threads of a process do not overlap, no action of its teardown is done twice, all of them
are done when its threads have finished, the owner counts are the numbers of owners, and a table is cleared only when
every process that has it has been torn down itself. -/
theorem teardown_once_of_alone (h : Reaches ExitSystem.step Alone initial s) :
    (∀ p ∈ s.pids, ∀ a, (s.proc p).performed.count a ≤ 1) ∧
      (∀ p ∈ s.pids, (∀ t, s.pidOf t = p → s.Finished t) → ∀ a, (s.proc p).performed.count a = 1) ∧
      (∀ k n, s.owners k n = (s.pids.countP fun p => s.Owns k n p : ℕ)) ∧
      ∀ k n, s.cleared k n = true → ∀ p ∈ s.pids, (s.proc p).shared k = n → .release k ∈ (s.proc p).performed := by
  obtain ⟨hs, ha⟩ := sound_of_reaches h
  refine ⟨?_, ?_, ha.owners, fun k n hc => (ha.cleared k n hc).2⟩
  · intro p hp a
    obtain ⟨rest, hrest⟩ := (hs.phase p hp).sublist
    have hnodup := nodup_teardown
    rw [← hrest] at hnodup
    exact nodup_iff_count_le_one.1 (nodup_append.1 hnodup).1 a
  · intro p hp hall a
    rw [(hs.phase p hp).of_finished hall]
    cases a with
    | release k => cases k <;> rfl
    | _ => rfl

def twoThreads : List ExitEvent :=
  [.cloneProcess 1 2 fun _ => true, .cloneThread 2 3, .exit 3 0, .exit 2 0]

def oneAfterTheOther : List ExitEvent :=
  twoThreads ++ [.run 3 1, .run 3 1, .run 3 1, .run 3 1,
    .run 2 1, .run 2 1, .run 2 1, .run 2 1, .run 2 1, .run 2 1, .run 2 1, .run 2 1, .run 2 1, .run 2 1, .run 2 1]

set_option maxRecDepth 4000 in
theorem teardown_once_of_alone_pair :
    ∃ s, Reaches ExitSystem.step Alone initial s ∧ (∀ a, (s.proc 2).performed.count a = 1) ∧ s.owners .fdTable 1 = 1 ∧
      s.cleared .fdTable 1 = false := by
  have hadmits : Admits ExitSystem.step Alone initial oneAfterTheOther := by
    refine .of_guards (by decide +kernel) ⟨trivial, trivial, trivial, trivial, ?_, trivial, trivial, trivial, ?_,
      trivial, trivial, trivial, trivial, trivial, trivial, trivial, trivial, trivial, trivial, trivial⟩
    all_goals
      intro u hu _
      match u with
      | 0 | 1 | 2 | 3 => decide +kernel
      | n + 4 => rfl
  have hreach := Reaches.run hadmits
  have honce := teardown_once_of_alone hreach
  refine ⟨_, hreach, honce.2.1 2 (by decide +kernel) ?_, by decide +kernel, by decide +kernel⟩
  intro t ht
  match t with
  | 0 => exact ⟨by decide +kernel, by decide +kernel⟩
  | 1 => exact absurd ht (by decide +kernel)
  | 2 | 3 => exact ⟨by decide +kernel, by decide +kernel⟩
  | n + 4 => exact ⟨rfl, rfl⟩

/-- Both threads leave the list of their process before either of them looks at it. -/
def bothLeave : List ExitEvent :=
  twoThreads ++ [.run 3 1, .run 3 1, .run 2 1, .run 2 1, .run 3 1, .run 3 1, .run 2 1, .run 2 1,
    .run 3 1, .run 3 1, .run 2 1, .run 2 1]

set_option maxRecDepth 4000 in
/-- The process releases its descriptor table twice, and the first process loses its descriptors. -/
theorem teardown_twice :
    ∃ s, Reaches ExitSystem.step (fun _ _ => True) initial s ∧
      (s.proc 2).performed.count (.release .fdTable) = 2 ∧ s.pc 1 = .running ∧ (s.proc 1).shared .fdTable = 1 ∧
      s.owners .fdTable 1 = 0 ∧ s.cleared .fdTable 1 = true := by
  refine ⟨run ExitSystem.step initial bothLeave, Reaches.run (by decide +kernel), ?_⟩
  decide +kernel

end ExitSystem

end Ya2yOS.Task
