import Ya2yOS.Task.ProcessTeardown

/-!
# Reaping and teardown

A wait takes a child for an exited one when its exit code is set and no reference of its thread list can be upgraded.
`exit_group` sets the code first, and a thread leaves the list before the teardown, so the test can succeed between.
-/

open Lib

-- `grind` would try ring arithmetic on every `Bool`
attribute [-instance] instBooleanRingBool

namespace Ya2yOS.Task

namespace ExitPc

def listed : ExitPc → Bool
  | .running | .found _ | .leaving _ | .zombie _ => true
  | _ => false

def departs : ExitPc → Bool
  | .removed _ | .testing _ _ | .tearing _ _ => true
  | _ => false

def busy (pc : ExitPc) : Bool := pc.listed || pc.departs

variable {pc : ExitPc}

lemma upgradable_of_listed (h : pc.listed = true) : pc.upgradable = true := by
  cases pc <;> first | rfl | cases h

lemma busy_of_live (h : pc.live = true) : pc.busy = true := by
  cases pc <;> first | rfl | cases h

end ExitPc

namespace ExitSystem

variable {s s' : ExitSystem} {e : ExitEvent} {t u p c reaper : ℕ} {pc : ExitPc} {a : TeardownAction}
  {rest : List TeardownAction}

/-- A wait looks at a child only when none of its threads is on its way from the list to the end of the exit path. -/
def Settled (s : ExitSystem) : ExitEvent → Prop
  | .find _ child => ∀ t, s.pidOf t = child → (s.pc t).departs = false
  | _ => True

def tornDown : List TeardownAction := [.usage, .release .fdTable, .release .fsInfo, .publish, .reparent]

def Fits (s : ExitSystem) (t : ℕ) : ExitPc → Prop
  | .testing _ rest => ∀ u ∈ rest, s.pidOf u = s.pidOf t ∧ s.pc u ≠ .absent
  | .tearing _ rest => ∃ done, done ++ rest = teardown ∧ ∀ a ∈ done, a ∈ (s.proc (s.pidOf t)).performed
  | .found child => child ∈ s.pids ∧ .reparent ∈ (s.proc child).performed
  | _ => True

structure Ordered (s : ExitSystem) : Prop where
  listed : ∀ t, (s.pc t).listed = true →
    t ∈ (s.proc (s.pidOf t)).tasks ∨ .reparent ∈ (s.proc (s.pidOf t)).performed
  members : ∀ p, ∀ u ∈ (s.proc p).tasks, s.pidOf u = p ∧ s.pc u ≠ .absent
  fits : ∀ t, s.Fits t (s.pc t)
  prior : ∀ p, .reparent ∈ (s.proc p).performed → ∀ a ∈ tornDown, a ∈ (s.proc p).performed
  covered : ∀ p ∈ s.pids, .reparent ∈ (s.proc p).performed ∨ ∃ t, s.pidOf t = p ∧ (s.pc t).busy = true
  known : ∀ t, s.pc t ≠ .absent → s.pidOf t ∈ s.pids
  leader : ∀ p ∈ s.pids, s.pc p ≠ .absent
  children : ∀ p, ∀ c ∈ (s.proc p).children, c ∈ s.pids
  reaped : ∀ c ∈ s.reaped, c ∈ s.pids ∧ .reparent ∈ (s.proc c).performed

attribute [grind =] ExitPc.listed ExitPc.departs ExitPc.busy

attribute [grind →] Ordered.listed Ordered.members Ordered.prior Ordered.covered Ordered.known Ordered.leader
  Ordered.children Ordered.reaped

lemma Fits.mono (h : s.Fits t pc) (hpids : ∀ q ∈ s.pids, q ∈ s'.pids)
    (hpid : ∀ v, s.pc v ≠ .absent → s'.pidOf v = s.pidOf v ∧ s'.pc v ≠ .absent) (ht : s.pc t ≠ .absent)
    (hin : s.pidOf t ∈ s.pids)
    (hdone : ∀ q ∈ s.pids, ∀ a ∈ (s.proc q).performed, a ∈ (s'.proc q).performed) : s'.Fits t pc := by
  have hsame := (hpid t ht).1
  cases pc with
  | testing code rest => exact fun v hv => by grind [h v hv]
  | tearing code rest =>
    obtain ⟨done, heq, hall⟩ := h
    exact ⟨done, heq, by grind⟩
  | found child => exact ⟨hpids _ h.1, hdone _ h.1 _ h.2⟩
  | _ => trivial

lemma perform_children (s : ExitSystem) (p reaper : ℕ) (code : ℤ) (a : TeardownAction) (q : ℕ) :
    ∀ c ∈ ((s.perform p reaper code a).proc q).children, ∃ r, c ∈ (s.proc r).children := by
  intro c hc
  cases a with
  | usage | notify | release k => exact ⟨q, hc⟩
  | publish => exact ⟨q, by grind [perform, setGroupExitCodeOnce]⟩
  | reparent =>
    simp only [perform, exitAndReparent, proc_setProc] at hc
    by_cases hp : c ∈ (s.proc p).children
    · exact ⟨p, hp⟩
    · exact ⟨q, by grind⟩

lemma perform_tasks (s : ExitSystem) (p reaper : ℕ) (code : ℤ) (ha : a ≠ .reparent) (q : ℕ) :
    ((s.perform p reaper code a).proc q).tasks = (s.proc q).tasks := by
  cases a <;> grind [perform, releaseOwner, setGroupExitCodeOnce]

lemma proc_log (s : ExitSystem) (p : ℕ) (a : TeardownAction) (q : ℕ) :
    ((s.log p a).proc q).tasks = (s.proc q).tasks ∧ ((s.log p a).proc q).children = (s.proc q).children ∧
      ((s.log p a).proc q).performed = if q = p then (s.proc q).performed ++ [a] else (s.proc q).performed := by
  grind [log]

/-- Everything else comes before the hand-over of the children. -/
lemma mem_of_before_reparent {done : List TeardownAction} (h : done ++ .reparent :: rest = teardown) :
    ∀ a ∈ tornDown, a ∈ done ∨ a = .reparent := by
  match done with
  | [] | [_] | [_, _] | [_, _, _] => simp [teardown] at h
  | [_, _, _, _] =>
    simp only [teardown, List.cons_append, List.nil_append, List.cons.injEq] at h
    obtain ⟨rfl, rfl, rfl, rfl, -⟩ := h
    decide
  | _ :: _ :: _ :: _ :: _ :: _ :: _ | [_, _, _, _, _] => simp [teardown] at h

section Steps

variable (hs : s.Ordered) {code : ℤ}
include hs

lemma Ordered.frame (hpids : s'.pids = s.pids) (hpid : s'.pidOf = s.pidOf) (hpc : s'.pc = s.pc)
    (hdone : ∀ p, ∀ a ∈ (s.proc p).performed, a ∈ (s'.proc p).performed)
    (hprior : ∀ p, .reparent ∈ (s'.proc p).performed →
      .reparent ∈ (s.proc p).performed ∨ ∀ a ∈ tornDown, a ∈ (s'.proc p).performed)
    (hlisted : ∀ t, (s.pc t).listed = true → t ∈ (s.proc (s.pidOf t)).tasks →
      t ∈ (s'.proc (s.pidOf t)).tasks ∨ .reparent ∈ (s'.proc (s.pidOf t)).performed)
    (htasks : ∀ p, ∀ u ∈ (s'.proc p).tasks, u ∈ (s.proc p).tasks)
    (hchildren : ∀ p, ∀ c ∈ (s'.proc p).children, ∃ q, c ∈ (s.proc q).children)
    (hreaped : ∀ c ∈ s'.reaped, c ∈ s.reaped ∨ ∃ t, s.pc t = .found c) : s'.Ordered := by
  have hpcs := congrFun hpc
  have hpidOf := congrFun hpid
  constructor
  case fits =>
    intro t
    rw [hpc]
    by_cases ht : s.pc t = .absent
    · rw [ht]
      trivial
    · exact (hs.fits t).mono (by grind) (by grind) ht (hs.known t ht) fun q _ => hdone q
  case reaped =>
    intro c hc
    rw [hpids]
    rcases hreaped c hc with hin | ⟨t, ht⟩
    · exact (hs.reaped c hin).imp_right (hdone _ _)
    · have hfits := hs.fits t
      rw [ht] at hfits
      exact hfits.imp_right (hdone _ _)
  case children =>
    intro p c hc
    obtain ⟨q, hq⟩ := hchildren p c hc
    exact hpids ▸ hs.children q c hq
  -- the others are read off thread by thread
  all_goals
    clear hpc hpid
    grind

/-- A thread moves on: its process still has a busy thread, unless the teardown got to the hand-over. -/
lemma Ordered.goto (hfits : s.Fits t pc) (hpc : s.pc t ≠ .absent) (hne : pc ≠ .absent)
    (hlisted : pc.listed = true → (s.pc t).listed = true)
    (hbusy : (s.pc t).busy = true → pc.busy = true ∨ .reparent ∈ (s.proc (s.pidOf t)).performed ∨
      ∃ u ≠ t, s.pidOf u = s.pidOf t ∧ (s.pc u).busy = true) : (s.goto t pc).Ordered := by
  have hpids : (s.goto t pc).pids = s.pids := rfl
  have hmono : ∀ v pc', s.pc v ≠ .absent → s.Fits v pc' → (s.goto t pc).Fits v pc' := fun v pc' hv h =>
    h.mono (fun _ hq => hq) (by grind) hv (hs.known v hv) fun _ _ _ ha => ha
  constructor
  case fits =>
    intro v
    rw [goto_pc]
    split_ifs with hv
    · exact hv ▸ hmono t pc hpc hfits
    · by_cases habs : s.pc v = .absent
      · rw [habs]
        trivial
      · exact hmono v _ habs (hs.fits v)
  case covered =>
    intro p hp
    rcases hs.covered p hp with hin | ⟨v, hv, hb⟩
    · exact .inl hin
    by_cases htv : v = t
    · subst htv
      rcases hbusy hb with hb' | hin | ⟨w, hw, hpid, hb'⟩
      · exact .inr ⟨v, hv, by grind⟩
      · exact .inl (hv ▸ hin)
      · exact .inr ⟨w, hpid.trans hv, by grind⟩
    · exact .inr ⟨v, hv, by grind⟩
  case children => exact hs.children
  case reaped => exact hs.reaped
  all_goals grind

lemma Ordered.goto_busy (hfits : s.Fits t pc) (hpc : (s.pc t).busy = true) (hbusy : pc.busy = true)
    (hlisted : pc.listed = true → (s.pc t).listed = true) : (s.goto t pc).Ordered :=
  hs.goto hfits (by grind) (by grind) hlisted fun _ => .inl hbusy

lemma Ordered.setProc {x : ExitProcess} (hdone : x.performed = (s.proc p).performed)
    (htasks : x.tasks = (s.proc p).tasks) (hchildren : ∀ c ∈ x.children, c ∈ (s.proc p).children) :
    (s.setProc p x).Ordered :=
  hs.frame rfl rfl rfl (by grind) (by grind) (by grind) (by grind) (fun q c hc => ⟨q, by grind⟩) fun c hc => .inl hc

lemma Ordered.remove (hpc : s.pc t = .zombie code) : ((s.setProc (s.pidOf t) { s.proc (s.pidOf t) with
      tasks := (s.proc (s.pidOf t)).tasks.filter fun v => (s.pc v).upgradable && decide (v ≠ t) }).goto t
        (.removed code)).Ordered := by
  have hgone : (s.goto t (.removed code)).Ordered := hs.goto_busy trivial (by grind) rfl fun h => Bool.noConfusion h
  have hup : ∀ v, (s.pc v).listed = true → (s.pc v).upgradable = true := fun _ => ExitPc.upgradable_of_listed
  exact hgone.frame rfl rfl rfl (by grind) (by grind) (by grind) (by grind) (fun q c hc => ⟨q, by grind⟩)
    fun c hc => .inl hc

lemma Ordered.tear (hpc : s.pc t = .tearing code (a :: rest)) :
    (((s.perform (s.pidOf t) reaper code a).log (s.pidOf t) a).goto t (.tearing code rest)).Ordered := by
  have hfits := hs.fits t
  rw [hpc] at hfits
  obtain ⟨done, heq, hdone⟩ := hfits
  obtain ⟨hpids, hpidOf, hpcs⟩ := s.perform_rest (s.pidOf t) reaper code a
  have hproc := s.perform_proc (s.pidOf t) reaper code a
  have hlogs := (s.perform (s.pidOf t) reaper code a).proc_log (s.pidOf t) a
  have hlog : ((s.perform (s.pidOf t) reaper code a).log (s.pidOf t) a).Ordered := by
    refine hs.frame hpids hpidOf hpcs (by grind) ?_ ?_ (by grind) ?_ ?_
    · intro q hq
      by_cases hnew : q = s.pidOf t ∧ a = .reparent
      · -- the hand-over comes after the rest
        obtain ⟨rfl, rfl⟩ := hnew
        have hbefore := mem_of_before_reparent heq
        exact .inr (by grind)
      · exact .inl (by grind)
    · intro v _ hin
      by_cases ha : a = .reparent
      · grind
      · have htasks := s.perform_tasks (s.pidOf t) reaper code ha
        exact .inl (by grind)
    · intro q c hc
      rw [(hlogs q).2.1] at hc
      exact perform_children _ _ _ _ _ _ c hc
    · intro c hc
      cases a <;> exact .inl hc
  have hpc' : ((s.perform (s.pidOf t) reaper code a).log (s.pidOf t) a).pc t = .tearing code (a :: rest) :=
    (congrFun hpcs t).trans hpc
  have hpid' : ((s.perform (s.pidOf t) reaper code a).log (s.pidOf t) a).pidOf t = s.pidOf t := congrFun hpidOf t
  refine hlog.goto_busy ⟨done ++ [a], ?_, ?_⟩ (by grind) rfl fun h => Bool.noConfusion h
  · rw [List.append_assoc]
    exact heq
  · rw [hpid']
    grind

end Steps

lemma Ordered.advance (hs : s.Ordered) (h : s.advance t reaper (s.pc t) = some s') : s'.Ordered := by
  have hfits := hs.fits t
  cases hpc : s.pc t with
  | absent | running | gone | dropped =>
    rw [hpc] at h
    cases h
  | found child =>
    rw [hpc] at h
    simp only [ExitSystem.advance] at h
    split_ifs at h
    · cases h
      have hset : (s.setProc (s.pidOf t) { s.proc (s.pidOf t) with
          children := (s.proc (s.pidOf t)).children.erase child }).Ordered :=
        hs.setProc rfl rfl fun c hc => List.mem_of_mem_erase hc
      have hreap : ExitSystem.Ordered { s.setProc (s.pidOf t) { s.proc (s.pidOf t) with
          children := (s.proc (s.pidOf t)).children.erase child } with reaped := child :: s.reaped } := by
        refine hset.frame rfl rfl rfl (fun _ _ h => h) (fun _ h => .inl h) (fun _ _ h => .inl h) (fun _ _ h => h)
          (fun q _ h => ⟨q, h⟩) fun c hc => ?_
        rcases List.mem_cons.1 hc with rfl | hc
        · exact .inr ⟨t, hpc⟩
        · exact .inl hc
      have hpc' : (s.setProc (s.pidOf t) { s.proc (s.pidOf t) with
          children := (s.proc (s.pidOf t)).children.erase child }).pc t = .found child := hpc
      exact hreap.goto_busy trivial (by grind) rfl (by grind)
    · cases h
      exact hs.goto_busy trivial (by grind) rfl (by grind)
  | leaving code =>
    rw [hpc] at h
    cases h
    exact hs.goto_busy trivial (by grind) rfl (by grind)
  | zombie code =>
    rw [hpc] at h
    cases h
    exact hs.remove hpc
  | removed code =>
    rw [hpc] at h
    cases h
    exact hs.goto_busy (hs.members _) (by grind) rfl (by grind)
  | testing code rest =>
    rw [hpc] at h hfits
    cases rest with
    | nil =>
      cases h
      exact hs.goto_busy ⟨[], rfl, fun a ha => absurd ha List.not_mem_nil⟩ (by grind) rfl (by grind)
    | cons v rest =>
      simp only [ExitSystem.advance] at h
      split_ifs at h with hv
      · cases h
        have hlive : (s.pc v).live = true := by
          rw [ExitPc.live_iff]
          simpa using hv
        have hmember := hfits v List.mem_cons_self
        exact hs.goto trivial (by grind) ExitPc.noConfusion (by grind) fun _ =>
          .inr (.inr ⟨v, by grind, hmember.1, ExitPc.busy_of_live hlive⟩)
      · cases h
        exact hs.goto_busy (fun w hw => hfits w (List.mem_cons_of_mem _ hw)) (by grind) rfl (by grind)
  | tearing code rest =>
    rw [hpc] at h hfits
    cases rest with
    | nil =>
      cases h
      obtain ⟨done, heq, hdone⟩ := hfits
      rw [List.append_nil] at heq
      refine hs.goto trivial (by grind) ExitPc.noConfusion (by grind) fun _ => .inr (.inl (hdone _ ?_))
      rw [heq]
      decide
    | cons a rest =>
      cases h
      exact hs.tear hpc

lemma Ordered.spawn {q : ℕ} (hs : s.Ordered) (hu : s.pc u = .absent)
    (hpc : ∀ v, s'.pc v = if v = u then .running else s.pc v)
    (hpid : ∀ v, s'.pidOf v = if v = u then q else s.pidOf v)
    (hpids : ∀ p, p ∈ s'.pids ↔ p ∈ s.pids ∨ p = q) (hleader : q ∈ s.pids ∨ q = u) (hnew : u ∈ (s'.proc q).tasks)
    (hlisted : ∀ v, (s.pc v).listed = true → v ∈ (s.proc (s.pidOf v)).tasks → v ∈ (s'.proc (s.pidOf v)).tasks)
    (hmembers : ∀ p, ∀ v ∈ (s'.proc p).tasks, v ∈ (s.proc p).tasks ∨ v = u ∧ p = q)
    (hdone : ∀ p ∈ s.pids, (s'.proc p).performed = (s.proc p).performed)
    (hempty : ∀ p ∉ s.pids, .reparent ∈ (s'.proc p).performed → .reparent ∈ (s.proc p).performed ∧
      (s'.proc p).performed = (s.proc p).performed)
    (hchildren : ∀ p, ∀ c ∈ (s'.proc p).children, c ∈ (s.proc p).children ∨ c = q)
    (hreaped : s'.reaped = s.reaped) : s'.Ordered := by
  have hold : ∀ v, s.pc v ≠ .absent → s'.pidOf v = s.pidOf v ∧ s'.pc v ≠ .absent := by grind
  constructor
  case fits =>
    intro v
    by_cases habs : s'.pc v = .absent
    · rw [habs]
      trivial
    by_cases hvu : v = u
    · rw [hpc, if_pos hvu]
      trivial
    · have hsame : s'.pc v = s.pc v := by grind
      rw [hsame] at habs ⊢
      exact (hs.fits v).mono (by grind) hold habs (hs.known v habs) (by grind)
  case covered =>
    intro p hp
    rcases (hpids p).1 hp with hp | rfl
    · rw [hdone p hp]
      rcases hs.covered p hp with h | ⟨v, hv, hb⟩
      · exact .inl h
      · exact .inr ⟨v, by grind, by grind⟩
    · exact .inr ⟨u, by grind, by grind⟩
  all_goals grind

lemma Ordered.cloneThread (hs : s.Ordered) (h : s.step (.cloneThread t u) = some s') : s'.Ordered := by
  obtain ⟨hpc, hu, hpids, hreaped, hpcs, hpidOf, hproc⟩ := cloneThread_spec h
  have hin : s.pidOf t ∈ s.pids := hs.known t (by grind)
  have hup : ∀ v, (s.pc v).listed = true → (s.pc v).upgradable = true := fun _ => ExitPc.upgradable_of_listed
  exact hs.spawn hu hpcs hpidOf (by grind) (.inl hin) (by grind) (by grind) (by grind) (by grind)
    (by grind) (by grind) hreaped

lemma Ordered.cloneProcess (hs : s.Ordered) {shares : SharedKind → Bool}
    (h : s.step (.cloneProcess t u shares) = some s') : s'.Ordered := by
  obtain ⟨hpc, hu, hpids, hreaped, hpcs, hpidOf, hproc⟩ := cloneProcess_spec h
  have hfresh : u ∉ s.pids := fun hin => hs.leader u hin hu
  have hne : ∀ v, (s.pc v).listed = true → s.pidOf v ≠ u := by grind
  exact hs.spawn hu hpcs hpidOf (by grind) (.inr rfl) (by grind) (by grind) (by grind) (by grind)
    (by grind) (by grind) hreaped

lemma Ordered.find (hs : s.Ordered) {child : ℕ} (hg : s.Settled (.find t child))
    (h : s.step (.find t child) = some s') : s'.Ordered := by
  obtain ⟨hfind, rfl⟩ := of_guard h
  obtain ⟨hrun, hchild, hexited⟩ := hfind
  have hin := hs.children _ _ hchild
  have hdead : ∀ v ∈ (s.proc child).tasks, (s.pc v).upgradable = false := by
    intro v hv
    have hall := (Bool.and_eq_true_iff.1 hexited).2
    have := List.all_eq_true.1 hall v hv
    rwa [Bool.not_eq_true'] at this
  have hdone : .reparent ∈ (s.proc child).performed := by
    rcases hs.covered child hin with h | ⟨v, hv, hb⟩
    · exact h
    have hlisted : (s.pc v).listed = true := by
      rw [ExitPc.busy, hg v hv, Bool.or_false] at hb
      exact hb
    rcases hs.listed v hlisted with h | h
    · rw [hv] at h
      have hup := ExitPc.upgradable_of_listed hlisted
      rw [hdead v h] at hup
      cases hup
    · rw [hv] at h
      exact h
  exact hs.goto_busy ⟨hin, hdone⟩ (by grind) rfl (by grind)

lemma Ordered.step (hs : s.Ordered) (hg : s.Settled e) (h : s.step e = some s') : s'.Ordered := by
  cases e with
  | cloneThread t u => exact hs.cloneThread h
  | cloneProcess t u shares => exact hs.cloneProcess h
  | exit t code =>
    obtain ⟨hrun, rfl⟩ := of_guard h
    exact hs.goto_busy trivial (by grind) rfl (by grind)
  | exitGroup t code =>
    obtain ⟨hrun, rfl⟩ := of_guard h
    have hset : (s.setGroupExitCodeOnce (s.pidOf t) code).Ordered := hs.setProc rfl rfl fun _ hc => hc
    have hrun' : (s.setGroupExitCodeOnce (s.pidOf t) code).pc t = .running := hrun
    exact hset.goto_busy trivial (by grind) rfl (by grind)
  | run t reaper => exact hs.advance h
  | drop t =>
    obtain ⟨hgone, rfl⟩ := of_guard h
    exact hs.goto trivial (by grind) ExitPc.noConfusion (by grind) (by grind)
  | find t child => exact hs.find hg h

lemma ordered_initial : initial.Ordered := by
  have hpc : ∀ t, initial.pc t = if t = 1 then .running else .absent := fun _ => rfl
  have hproc : ∀ p, (initial.proc p).performed = [] ∧ (initial.proc p).children = [] ∧
      (initial.proc p).tasks = if p = 1 then [1] else [] := by
    grind [initial]
  have hpid : ∀ t, initial.pidOf t = 1 := fun _ => rfl
  have hpids : initial.pids = [1] := rfl
  have hreaped : initial.reaped = [] := rfl
  constructor
  case fits =>
    intro t
    rw [hpc]
    split_ifs <;> trivial
  case covered =>
    intro p hp
    exact .inr ⟨1, by grind, by grind⟩
  all_goals grind

/-- In a run whose waits look at settled children only, a wait finds and removes a child after its usage is recorded,
its tables are released, its code is published and its children are handed over. -/
theorem torn_down_of_settled (h : Reaches ExitSystem.step Settled initial s) :
    (∀ t c, s.pc t = .found c → ∀ a ∈ tornDown, a ∈ (s.proc c).performed) ∧
      ∀ c ∈ s.reaped, ∀ a ∈ tornDown, a ∈ (s.proc c).performed := by
  have hs : s.Ordered := h.invariant (fun _ _ _ hs hg he => hs.step hg he) ordered_initial
  constructor
  · intro t c hc
    have hfits := hs.fits t
    rw [hc] at hfits
    exact hs.prior c hfits.2
  · intro c hc
    exact hs.prior c (hs.reaped c hc).2

/-- A child calls `exit_group` and does its whole exit path, and then the first process waits for it. -/
def waitsAfterExit : List ExitEvent :=
  [.cloneProcess 1 2 fun _ => true, .exitGroup 2 0, .run 2 1, .run 2 1, .run 2 1, .run 2 1, .run 2 1, .run 2 1,
    .run 2 1, .run 2 1, .run 2 1, .run 2 1, .run 2 1, .find 1 2, .run 1 1]

set_option maxRecDepth 4000 in
theorem torn_down_of_settled_child :
    ∃ s, Reaches ExitSystem.step Settled initial s ∧ s.reaped = [2] ∧ ∀ a ∈ tornDown, a ∈ (s.proc 2).performed := by
  have hadmits : Admits ExitSystem.step Settled initial waitsAfterExit := by
    refine .of_guards (by decide +kernel) ⟨trivial, trivial, trivial, trivial, trivial, trivial, trivial, trivial,
      trivial, trivial, trivial, trivial, trivial, ?_, trivial, trivial⟩
    intro t _
    match t with
    | 0 | 1 | 2 => decide +kernel
    | n + 3 => rfl
  have hreach := Reaches.run hadmits
  exact ⟨_, hreach, by decide +kernel, (torn_down_of_settled hreach).2 2 (by decide +kernel)⟩

/-- The first process waits right after the child left its own thread list. -/
def waitsTooEarly : List ExitEvent :=
  [.cloneProcess 1 2 fun _ => true, .exitGroup 2 0, .run 2 1, .run 2 1, .find 1 2, .run 1 1]

set_option maxRecDepth 4000 in
/-- The child is reaped although nothing has been done for it. -/
theorem reaped_before_teardown :
    ∃ s, Reaches ExitSystem.step (fun _ _ => True) initial s ∧ s.reaped = [2] ∧ (s.proc 2).performed = [] := by
  refine ⟨run ExitSystem.step initial waitsTooEarly, Reaches.run (by decide +kernel), ?_⟩
  decide +kernel

end ExitSystem

end Ya2yOS.Task
