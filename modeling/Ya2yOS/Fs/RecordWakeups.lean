import Ya2yOS.Fs.FlockWait
import Ya2yOS.Fs.RecordWait

/-!
# Wakeups of record locks

The slot of a file keeps one waker. The thread whose waker is there sleeps only as long as its request meets a
lock of another owner.
-/

namespace Ya2yOS.Fs

open Lib
open Ya2yOS.Task (Waker Sleepers)

namespace RecordSystem

def resting (s : RecordSystem) (t : ℕ) : Option RecordRequest :=
  match s.pc t with
  | .park r => some r
  | .poll r => if s.sleepers.blocked t then some r else none
  | _ => none

/-- A thread that sleeps with its waker in the slot of the file is called, or meets a lock of another owner. -/
def Heard (s : RecordSystem) (t : ℕ) : Prop :=
  ∀ r, s.resting t = some r → s.waiters r.path = some (s.sleepers.waker t) →
    s.Called t r.path ∨ r.conflictingOwners s.locks ≠ []

variable {s s' : RecordSystem} {t u : ℕ} {e : RecordEvent} {path : String} {r : RecordRequest}

attribute [grind =] resting

lemma resting_congr (hpc : s'.pc t = s.pc t) (hb : s'.sleepers.blocked t = true → s.sleepers.blocked t = true)
    (h : s'.resting t = some r) : s.resting t = some r := by
  grind

/-- What a step of a thread does to the slots: it puts its own waker there, and a wakeup empties the slot. -/
structure Rings (s s' : RecordSystem) (u : ℕ) : Prop where
  slot : ∀ path w, s'.waiters path = some w → s.waiters path = some w ∨ w = s.sleepers.waker u
  waking : ∀ path, s.Waking u path → s'.Waking u path ∨ s'.waiters path = none

lemma rings_of_waiters (h : s'.waiters = s.waiters) (hwaking : ∀ path, s.Waking u path → s'.Waking u path) :
    Rings s s' u := by
  constructor
  · intro path w hw
    rw [h] at hw
    exact .inl hw
  · exact fun path hw => .inl (hwaking path hw)

lemma rings_of_pc (h : s'.waiters = s.waiters)
    (hpc : ∀ actions result, s.pc u = .finish actions result → actions = []) :
    Rings s s' u := by
  apply rings_of_waiters h
  rintro path ⟨actions, result, hf, hmem⟩
  rw [hpc actions result hf] at hmem
  exact absurd hmem List.not_mem_nil

lemma waiters_tryLock (s : RecordSystem) (t : ℕ) (r : RecordRequest) (pending : RecordPc) :
    (s.tryLock t r pending).waiters = s.waiters := by
  rcases s.tryLock_cases t r pending with ⟨locks, n, hs, -⟩ | ⟨locks, hs, -⟩ | ⟨locks, e, hs, -⟩
  all_goals
    rw [hs]
    rfl

lemma rings_advance (h : s.advance u (s.pc u) = some s') : Rings s s' u := by
  generalize hpc : s.pc u = pc at h
  cases pc with
  | finish actions result =>
    cases actions with
    | nil =>
      cases h
      refine rings_of_pc rfl fun actions result hf => ?_
      cases hpc.symm.trans hf
      rfl
    | cons action actions =>
      cases action with
      | wake path =>
        cases h
        constructor
        · intro path' w hw
          dsimp only [goto] at hw
          exact .inl (by grind)
        · intro path' hw
          by_cases hp : path' = path
          · exact .inr (hp ▸ Function.update_self _ _ _)
          · exact .inl (by grind)
      | clear owner =>
        cases h
        exact rings_of_waiters rfl fun path' hw => by grind
  | register r =>
    cases h
    constructor
    · intro path w hw
      dsimp only [goto] at hw
      grind
    · rintro path ⟨actions, result, hf, -⟩
      cases hpc.symm.trans hf
  | outside last =>
    cases h
  | attempt r =>
    refine rings_of_pc ?_ fun _ _ hf => by cases hpc.symm.trans hf
    simp only [advance] at h
    split at h
    all_goals
      cases h
      rfl
  | poll r | retry r =>
    cases h
    exact rings_of_pc (s.waiters_tryLock u r _) fun _ _ hf => by cases hpc.symm.trans hf
  | check r owners =>
    refine rings_of_pc ?_ fun _ _ hf => by cases hpc.symm.trans hf
    simp only [advance] at h
    split at h
    all_goals
      cases h
      try rfl
  | query r | record r owners | park r =>
    cases h
    exact rings_of_pc rfl fun _ _ hf => by cases hpc.symm.trans hf

lemma rings_step (h : s.step e = some s') : Rings s s' e.thread := by
  cases e with
  | start t blocking r =>
    simp only [step] at h
    split at h
    · next last hpc =>
      split_ifs at h
      all_goals
        cases h
        exact rings_of_pc rfl fun _ _ hf => by cases hpc.symm.trans hf
    · cases h
  | release t owner paths =>
    simp only [step] at h
    split at h
    · next last hpc =>
      split_ifs at h
      cases h
      exact rings_of_pc rfl fun _ _ hf => by cases hpc.symm.trans hf
    · cases h
  | run t => exact rings_advance (free_of_run h).2
  | deliver t =>
    obtain ⟨sleepers, hd, rfl⟩ := Option.map_eq_some_iff.1 h
    exact rings_of_waiters rfl fun _ hw => hw
  | interrupt t =>
    simp only [step] at h
    split at h
    · next r hpc =>
      split_ifs at h
      cases h
      exact rings_of_pc rfl fun _ _ hf => by cases hpc.symm.trans hf
    · cases h
  | rouse t =>
    cases h
    exact rings_of_waiters rfl fun _ hw => hw

lemma Heard.other (h : s.Heard t) (hlocal : Local s s' u) (hrings : Rings s s' u) (ht : t ≠ u) : s'.Heard t := by
  intro r hr hslot
  have hr' := resting_congr (hlocal.pc t ht) (hlocal.blocked t ht) hr
  rw [hlocal.waker t ht] at hslot
  have hslot' : s.waiters r.path = some (s.sleepers.waker t) := by
    rcases hrings.slot _ _ hslot with h | h
    · exact h
    · exact absurd (congrArg Waker.task h) ht
  rcases h r hr' hslot' with (ha | ⟨v, hv⟩) | hc
  · exact .inl (.inl (hlocal.alerted t ht ha))
  · by_cases hvu : v = u
    · subst hvu
      rcases hrings.waking _ hv with hw | hnone
      · exact .inl (.inr ⟨v, hw⟩)
      · cases hnone.symm.trans hslot
    · obtain ⟨actions, result, hpc, hmem⟩ := hv
      exact .inl (.inr ⟨v, waking_of_pc ((hlocal.pc v hvu).trans hpc) hmem⟩)
  · rcases hlocal.locks r.path with hsame | hw
    · rw [← RecordRequest.conflictingOwners_congr hsame] at hc
      exact .inr hc
    · exact .inl (.inr ⟨u, hw⟩)

lemma heard_of_not_resting (h : s.resting t = none) : s.Heard t := by
  intro r hr
  rw [h] at hr
  cases hr

lemma heard_tryLock {pending : RecordPc}
    (hpending : ∀ s' : RecordSystem, s'.pc t = pending → ∀ r', s'.resting t = some r' → r' = r) :
    (s.tryLock t r pending).Heard t := by
  rcases s.tryLock_cases t r pending with ⟨locks, n, hs, -⟩ | ⟨locks, hs, hlocks, hc⟩ | ⟨locks, e, hs, -⟩
  · rw [hs]
    apply heard_of_not_resting
    rw [resting, pc_goto]
  · rw [hs]
    intro r' hr' _
    obtain rfl := hpending _ (pc_goto _ _ _) r' hr'
    rw [← RecordRequest.conflictingOwners_congr (hlocks r'.path)] at hc
    exact .inr hc
  · rw [hs]
    apply heard_of_not_resting
    rw [resting, pc_goto]

/-- The thread goes to sleep only after an attempt that has met a lock, and its waker is in the slot by then. -/
lemma Heard.advance (hs : s.Heard u) (hfree : s.Free u) (h : s.advance u (s.pc u) = some s') : s'.Heard u := by
  have hlocal := local_advance h
  generalize hpc : s.pc u = pc at h
  cases pc with
  | outside last =>
    cases h
  | attempt r =>
    simp only [RecordSystem.advance] at h
    split at h <;> cases h <;> exact heard_of_not_resting (by grind)
  | poll r =>
    cases h
    apply heard_tryLock
    intro s' hs' r' hr'
    rw [resting, hs'] at hr'
    cases hr'
  | check r owners =>
    simp only [RecordSystem.advance] at h
    split at h <;> cases h <;> exact heard_of_not_resting (by grind)
  | query r | record r owners | register r =>
    cases h
    exact heard_of_not_resting (by grind)
  | retry r =>
    cases h
    apply heard_tryLock
    intro s' hs' r' hr'
    rw [resting, hs'] at hr'
    exact (Option.some.inj hr').symm
  | park r =>
    cases h
    intro r' hr' hslot
    rw [resting, pc_goto] at hr'
    split_ifs at hr' with hb
    cases hr'
    have hr : s.resting u = some r := by rw [resting, hpc]
    have hslot' : s.waiters r.path = some (s.sleepers.waker u) :=
      hslot.trans (congrArg some (Sleepers.waker_blockCurrentIfNotWoken _ _ _))
    rcases hs r hr hslot' with (ha | ⟨v, actions, result, hf, hmem⟩) | hc
    · exact .inl (.inl (Sleepers.alerted_of_blocked hfree.1 hb ha))
    · have hvu : v ≠ u := by
        rintro rfl
        cases hpc.symm.trans hf
      exact .inl (.inr ⟨v, waking_of_pc ((hlocal.pc v hvu).trans hf) hmem⟩)
    · exact .inr hc
  | finish actions result =>
    rcases actions with _ | ⟨_ | _, actions⟩ <;> cases h <;> exact heard_of_not_resting (by grind)

lemma Heard.rouses (hs : s.Heard t) {sleepers : Sleepers} (h : s.sleepers.Rouses sleepers) :
    Heard { s with sleepers := sleepers } t := by
  intro r hr hslot
  have hr' : s.resting t = some r := resting_congr (by rfl) (h.blocked t) hr
  have hslot' : s.waiters r.path = some (s.sleepers.waker t) := hslot.trans (congrArg some (h.waker t))
  exact (hs r hr' hslot').imp_left fun hc => hc.imp_left (h.alerted t)

lemma heard_step (hs : ∀ t, s.Heard t) (h : s.step e = some s') (t : ℕ) : s'.Heard t := by
  by_cases ht : t = e.thread
  · subst ht
    cases e with
    | start t blocking r =>
      simp only [step] at h
      split at h
      · split_ifs at h with hfree hb
        · cases h
          apply heard_of_not_resting
          show resting _ t = none
          rw [resting, pc_goto]
          exact if_neg (Bool.eq_false_iff.1 hfree.1)
        · cases h
          exact heard_of_not_resting (show resting _ t = none by grind)
      · cases h
    | release t owner paths =>
      simp only [step] at h
      split at h
      · split_ifs at h
        cases h
        exact heard_of_not_resting (show resting _ t = none by grind)
      · cases h
    | run t => exact (hs t).advance (free_of_run h).1 (free_of_run h).2
    | deliver t =>
      obtain ⟨sleepers, hd, rfl⟩ := Option.map_eq_some_iff.1 h
      exact (hs t).rouses (Sleepers.deliver_rouses hd)
    | interrupt t =>
      simp only [step] at h
      split at h
      · split_ifs at h
        cases h
        exact heard_of_not_resting (show resting _ t = none by grind)
      · cases h
    | rouse t =>
      cases h
      exact (hs t).rouses (Sleepers.rouse_rouses _ _)
  · exact (hs t).other (local_step h) (rings_step h) ht

lemma heard_of_reaches (h : Reaches step (fun _ _ => True) initial s) (t : ℕ) : s.Heard t := by
  have hs : ∀ t, s.Heard t := h.invariant (fun _ _ _ hs _ he => heard_step hs he) fun _ => heard_of_not_resting rfl
  exact hs t

/-- Where no step is in flight, a sleeping thread whose waker is the one that its file keeps waits for a lock that
another owner holds, for record locks and for the locks of whole files. -/
theorem registered_waiter_conflicts {f : FlockSystem} (hs : Reaches step (fun _ _ => True) initial s)
    (hf : Reaches FlockSystem.step FlockSystem.Gentle FlockSystem.initial f) :
    (s.Quiet → ∀ t r, s.pc t = .poll r → s.sleepers.blocked t = true →
      s.waiters r.path = some (s.sleepers.waker t) → r.conflictingOwners s.locks ≠ []) ∧
    (f.Quiet → ∀ t r, f.pc t = .poll r → f.sleepers.blocked t = true →
      f.table.slot r.path = some (f.sleepers.waker t) → f.Conflicts r) := by
  constructor
  · intro hquiet t r hpc hb hslot
    have hr : s.resting t = some r := by
      rw [resting, hpc]
      exact if_pos hb
    rcases heard_of_reaches hs t r hr hslot with hc | hc
    · exact absurd hc (hquiet.not_called hpc)
    · exact hc
  · intro hquiet t r hpc hb hslot
    have hr : f.waiting t = some r := by
      rw [FlockSystem.waiting, hpc]
      exact if_pos hb
    rcases FlockSystem.heard_of_reaches hf t r hr (.inr hslot) with ha | hc
    · exact absurd ha (hquiet.not_alerted hpc)
    · exact hc

def byteRequest (lType owner : ℤ) (start len : I64) : RecordRequest := ⟨"f", ⟨lType, 0, start, len⟩, 0, 0, owner⟩

def twoWaiters : List RecordEvent :=
  [.start 0 false (byteRequest 1 1 (.byte 0) (.byte 2)), .run 0, .run 0, .run 0,
    .start 1 true (byteRequest 1 2 (.byte 0) (.byte 1)), .run 1, .run 1, .run 1, .run 1, .run 1, .run 1, .run 1,
    .start 2 true (byteRequest 1 3 (.byte 1) (.byte 1)), .run 2, .run 2, .run 2, .run 2, .run 2, .run 2, .run 2]

def flockWaiter : List FlockEvent :=
  [.call 0 "f" 10 6, .call 1 "f" 11 2, .run 1, .run 1, .run 1]

set_option maxRecDepth 2000 in
theorem registered_waiter_conflicts_last :
    (∃ s, Reaches step (fun _ _ => True) initial s ∧ s.Quiet ∧
      (byteRequest 1 3 ⟨1, by decide⟩ ⟨1, by decide⟩).conflictingOwners s.locks ≠ []) ∧
    ∃ f, Reaches FlockSystem.step FlockSystem.Gentle FlockSystem.initial f ∧ f.Quiet ∧
      f.Conflicts ⟨"f", 11, .exclusive⟩ := by
  have hs : Reaches step (fun _ _ => True) initial (run step initial twoWaiters) := Reaches.run (by decide +kernel)
  have hf : Reaches FlockSystem.step FlockSystem.Gentle FlockSystem.initial
      (run FlockSystem.step FlockSystem.initial flockWaiter) := by
    apply Reaches.run
    exact .of_guards (by decide +kernel) ⟨Or.inl (by decide +kernel), trivial, Or.inl (by decide +kernel), trivial,
      trivial, trivial⟩
  have hquiet : (run step initial twoWaiters).Quiet := by
    intro t
    match t with
    | 0 => exact ⟨by decide +kernel, .inl ⟨.ok 0, by decide +kernel⟩⟩
    | 1 =>
      exact ⟨by decide +kernel, .inr ⟨⟨byteRequest 1 2 ⟨0, by decide⟩ ⟨1, by decide⟩, by decide +kernel⟩,
        by decide +kernel⟩⟩
    | 2 =>
      exact ⟨by decide +kernel, .inr ⟨⟨byteRequest 1 3 ⟨1, by decide⟩ ⟨1, by decide⟩, by decide +kernel⟩,
        by decide +kernel⟩⟩
    | n + 3 => exact ⟨rfl, .inl ⟨.ok 0, rfl⟩⟩
  have hquiet' : (run FlockSystem.step FlockSystem.initial flockWaiter).Quiet := by
    intro t
    match t with
    | 0 => exact ⟨by decide +kernel, .inl ⟨.ok 0, by decide +kernel⟩⟩
    | 1 => exact ⟨by decide +kernel, .inr ⟨⟨⟨"f", 11, .exclusive⟩, by decide +kernel⟩, by decide +kernel⟩⟩
    | n + 2 => exact ⟨rfl, .inl ⟨.ok 0, rfl⟩⟩
  have h := registered_waiter_conflicts hs hf
  exact ⟨⟨_, hs, hquiet, h.1 hquiet 2 _ (by decide +kernel) (by decide +kernel) (by decide +kernel)⟩,
    ⟨_, hf, hquiet', h.2 hquiet' 1 _ (by decide +kernel) (by decide +kernel) (by decide +kernel)⟩⟩

def lastOneWoken : List RecordEvent :=
  [.start 0 false (byteRequest 2 1 (.byte 0) (.byte 2)), .run 0, .run 0, .deliver 0, .run 0,
    .run 2, .run 2, .run 2, .run 2, .run 2]

set_option maxRecDepth 4000 in
/-- The other waiter sleeps on although nobody is in its way. -/
theorem first_waiter_sleeps :
    ∃ s, Reaches step (fun _ _ => True) initial s ∧ s.Quiet ∧
      s.pc 1 = .poll (byteRequest 1 2 ⟨0, by decide⟩ ⟨1, by decide⟩) ∧ s.sleepers.blocked 1 = true ∧
      (byteRequest 1 2 ⟨0, by decide⟩ ⟨1, by decide⟩).conflictingOwners s.locks = [] := by
  refine ⟨run step initial (twoWaiters ++ lastOneWoken), Reaches.run (by decide +kernel), ?_, by decide +kernel,
    by decide +kernel, by decide +kernel⟩
  intro t
  match t with
  | 0 => exact ⟨by decide +kernel, .inl ⟨.ok 0, by decide +kernel⟩⟩
  | 1 =>
    exact ⟨by decide +kernel, .inr ⟨⟨byteRequest 1 2 ⟨0, by decide⟩ ⟨1, by decide⟩, by decide +kernel⟩,
      by decide +kernel⟩⟩
  | 2 => exact ⟨by decide +kernel, .inl ⟨.ok 0, by decide +kernel⟩⟩
  | n + 3 => exact ⟨rfl, .inl ⟨.ok 0, rfl⟩⟩

end RecordSystem

end Ya2yOS.Fs
