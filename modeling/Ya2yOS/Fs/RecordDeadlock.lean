import Ya2yOS.Fs.RecordWait

/-!
# Deadlocks of record locks

A blocking request searches the wait graph for a way back to itself before it records its own edges and sleeps. The
search and the recording are two steps, and the edges of all threads of an owner share one entry.
-/

namespace Ya2yOS.Fs

open Lib List.Subset WaitGraph
open Ya2yOS.Task (Waker Sleepers)

namespace RecordSystem

def waiting (s : RecordSystem) (t : ℕ) : Option RecordRequest :=
  match s.pc t with
  | .check r _ => some r
  | .record r _ => some r
  | .register r => some r
  | .retry r => some r
  | .park r => some r
  | .poll r => if s.sleepers.blocked t then some r else none
  | _ => none

def recorded (s : RecordSystem) (t : ℕ) : Option RecordRequest :=
  match s.pc t with
  | .check _ _ => none
  | .record _ _ => none
  | _ => s.waiting t

/-- The owners in the way as the thread knows them, in its hand or in the graph. -/
def knownOwners (s : RecordSystem) (t : ℕ) : List ℤ :=
  match s.pc t with
  | .check _ owners => owners
  | .record _ owners => owners
  | _ => (s.waiting t).elim [] fun r => s.waits.next r.owner

def Informed (s : RecordSystem) (t : ℕ) (r : RecordRequest) : Prop := r.conflictingOwners s.locks ⊆ s.knownOwners t

def Parked (s : RecordSystem) (t : ℕ) (r : RecordRequest) : Prop :=
  s.pc t = .poll r ∧ s.sleepers.blocked t = true ∧ ¬s.Called t r.path

/-- A thread of the first owner is parked for a lock that the second one holds. -/
def WaitsFor (s : RecordSystem) (p q : ℤ) : Prop :=
  ∃ t r, s.Parked t r ∧ r.owner = p ∧ q ∈ r.conflictingOwners s.locks

/-- No thread searches while another is between its search and its recording, no thread writes the entry of an
owner while another thread of the owner is waiting, and a wakeup of a file leaves no waiting thread behind
that does not know the owners in its way. -/
def Orderly (s : RecordSystem) : RecordEvent → Prop
  | .run t =>
    match s.pc t with
    | .check _ _ => ∀ u ≠ t, ∀ r owners, s.pc u ≠ .record r owners
    | .record r _ => ∀ u ≠ t, ∀ r', s.recorded u = some r' → r'.owner ≠ r.owner
    | .finish (.clear owner :: _) _ => ∀ u ≠ t, ∀ r', s.recorded u = some r' → r'.owner ≠ owner
    | .finish (.wake path :: _) _ => ∀ u r, s.waiting u = some r → r.path = path →
        s.waiters path = some (s.sleepers.waker u) ∨ s.sleepers.Alerted u ∨ s.Informed u r
    | _ => True
  | _ => True

/-- A waiting thread is called, or knows the owners in its way. -/
def Covered (s : RecordSystem) (t : ℕ) : Prop :=
  ∀ r, s.waiting t = some r → s.Called t r.path ∨ s.Informed t r

structure Safe (s : RecordSystem) : Prop where
  covered : ∀ t, s.Covered t
  acyclic : s.waits.Acyclic
  checked : ∀ t r owners, s.pc t = .record r owners → ∀ p ∈ owners, ¬Relation.ReflTransGen s.waits.Edge p r.owner
  alone : ∀ t u r owners r' owners', s.pc t = .record r owners → s.pc u = .record r' owners' → t = u

variable {s s' : RecordSystem} {t u v : ℕ} {e : RecordEvent} {path : String}

attribute [grind =] waiting recorded knownOwners RecordEvent.thread

variable {r : RecordRequest}

lemma waiting_congr (hpc : s'.pc t = s.pc t) (hb : s'.sleepers.blocked t = true → s.sleepers.blocked t = true)
    (h : s'.waiting t = some r) : s.waiting t = some r := by
  grind

lemma Informed.of_locks (h : s.Informed t r) (hlocks : s'.locks.locks r.path = s.locks.locks r.path)
    (hknown : s.knownOwners t ⊆ s'.knownOwners t) : s'.Informed t r := by
  unfold Informed
  rw [RecordRequest.conflictingOwners_congr hlocks]
  exact List.Subset.trans h hknown

/-- A thread stays covered where it waits for the same as before, does not know less, and is still called. -/
lemma Covered.frame (h : s.Covered t) (hlocal : Local s s' u)
    (hwait : ∀ r, s'.waiting t = some r → s.waiting t = some r ∧ s.knownOwners t ⊆ s'.knownOwners t)
    (hcalled : ∀ r, s'.waiting t = some r → s.Called t r.path → s'.Called t r.path ∨ s'.Informed t r) :
    s'.Covered t := by
  intro r hr
  obtain ⟨hr', hknown⟩ := hwait r hr
  rcases h r hr' with hc | hi
  · exact hcalled r hr hc
  · rcases hlocal.locks r.path with hsame | hwaking
    · exact .inr (hi.of_locks hsame hknown)
    · exact .inl (.inr ⟨u, hwaking⟩)

lemma knownOwners_subset (hpc : s'.pc t = s.pc t) (hr : s'.waiting t = some r) (hr' : s.waiting t = some r)
    (hnext : s.recorded t = some r → s'.waits.next r.owner = s.waits.next r.owner) :
    s.knownOwners t ⊆ s'.knownOwners t := by
  have hsame : s'.knownOwners t = s.knownOwners t := by grind
  rw [hsame]
  exact refl _

lemma Safe.others (hs : s.Safe) (hlocal : Local s s' u)
    (hnext : ∀ t ≠ u, ∀ r, s.recorded t = some r → s'.waits.next r.owner = s.waits.next r.owner)
    (hwaking : ∀ t ≠ u, ∀ r, s'.waiting t = some r → s.Waking u r.path → s'.Called t r.path ∨ s'.Informed t r)
    (ht : t ≠ u) : s'.Covered t := by
  apply (hs.covered t).frame hlocal
  · intro r hr
    have hr' := waiting_congr (hlocal.pc t ht) (hlocal.blocked t ht) hr
    exact ⟨hr', knownOwners_subset (hlocal.pc t ht) hr hr' (hnext t ht r)⟩
  intro r hr hc
  rcases hc with ha | ⟨v, hv⟩
  · exact .inl (.inl (hlocal.alerted t ht ha))
  · by_cases hvu : v = u
    · exact hwaking t ht r hr (hvu ▸ hv)
    · obtain ⟨actions, result, hpc, hmem⟩ := hv
      exact .inl (.inr ⟨v, waking_of_pc ((hlocal.pc v hvu).trans hpc) hmem⟩)

lemma Safe.move (hs : s.Safe) (hlocal : Local s s' u) (hwaits : s'.waits = s.waits)
    (hwaking : ∀ path, s.Waking u path → s'.Waking u path) (hown : s'.Covered u)
    (hrecord : ∀ r owners, s'.pc u = .record r owners → s.pc u = .record r owners) : s'.Safe := by
  have hpc : ∀ t r owners, s'.pc t = .record r owners → s.pc t = .record r owners := by
    intro t r owners ht
    by_cases htu : t = u
    · exact htu ▸ hrecord r owners (htu ▸ ht)
    · exact (hlocal.pc t htu).symm.trans ht
  constructor
  · intro t
    by_cases ht : t = u
    · rw [ht]
      exact hown
    · refine hs.others hlocal (fun _ _ r _ => by rw [hwaits]) (fun _ _ r _ hw => ?_) ht
      exact .inl (.inr ⟨u, hwaking r.path hw⟩)
  · rw [hwaits]
    exact hs.acyclic
  · intro t r owners ht
    rw [hwaits]
    exact hs.checked t r owners (hpc t r owners ht)
  · intro t v r owners r' owners' ht hv
    exact hs.alone t v r owners r' owners' (hpc t r owners ht) (hpc v r' owners' hv)

lemma covered_of_not_waiting (h : s.waiting t = none) : s.Covered t := by
  intro r hr
  rw [h] at hr
  cases hr

lemma not_waking_of_pc (h : ∀ actions result, s.pc u ≠ .finish actions result) : ¬s.Waking u path := by
  rintro ⟨actions, result, hpc, -⟩
  exact h actions result hpc

lemma Safe.own (hs : s.Safe) (hlocal : Local s s' u) (hbefore : ∀ actions result, s.pc u ≠ .finish actions result)
    (hr : s.waiting u = some r) (hr' : ∀ r', s'.waiting u = some r' → r' = r)
    (hknown : s'.waiting u = some r → s.knownOwners u ⊆ s'.knownOwners u)
    (halerted : s'.waiting u = some r → s.sleepers.Alerted u → s'.sleepers.Alerted u) : s'.Covered u := by
  apply (hs.covered u).frame hlocal
  · intro r' h
    obtain rfl := hr' r' h
    exact ⟨hr, hknown h⟩
  intro r' h hc
  obtain rfl := hr' r' h
  rcases hc with ha | ⟨v, actions, result, hpc, hmem⟩
  · exact .inl (.inl (halerted h ha))
  · have hvu : v ≠ u := by
      rintro rfl
      exact hbefore actions result hpc
    exact .inl (.inr ⟨v, waking_of_pc ((hlocal.pc v hvu).trans hpc) hmem⟩)

section Advance

variable (hs : s.Safe) (hfree : s.Free u)
include hs

variable {r : RecordRequest} {actions : List RecordAction} {owners : List ℤ} {result : SyscallRet}

lemma Safe.tryLock {pending : RecordPc} (hpc : ∀ actions result, s.pc u ≠ .finish actions result)
    (hpending : ∀ r owners, pending ≠ .record r owners)
    (hown : ∀ locks : LockTable, (∀ path, locks.locks path = s.locks.locks path) →
      (goto { s with locks := locks } u pending).Covered u) : (s.tryLock u r pending).Safe := by
  have hlocal := s.local_tryLock u r pending
  rcases s.tryLock_cases u r pending with ⟨locks, n, hs', -⟩ | ⟨locks, hs', hlocks, -⟩ | ⟨locks, e, hs', -⟩
  · rw [hs'] at hlocal ⊢
    apply hs.move hlocal rfl
    · exact fun path hw => absurd hw (not_waking_of_pc hpc)
    · exact covered_of_not_waiting (by grind)
    · grind
  · rw [hs'] at hlocal ⊢
    apply hs.move hlocal rfl
    · exact fun path hw => absurd hw (not_waking_of_pc hpc)
    · exact hown locks hlocks
    · grind
  · rw [hs'] at hlocal ⊢
    apply hs.move hlocal rfl
    · exact fun path hw => absurd hw (not_waking_of_pc hpc)
    · exact covered_of_not_waiting (by grind)
    · grind

lemma Safe.leave {pc : RecordPc} (hlocal : Local s s' u) (hwaits : s'.waits = s.waits) (hpc : s'.pc u = pc)
    (hbefore : ∀ actions result, s.pc u = .finish actions result → actions = [])
    (hwait : s'.waiting u = none) (hpc' : ∀ r owners, pc ≠ .record r owners) : s'.Safe := by
  apply hs.move hlocal hwaits
  · rintro path ⟨actions, result, h, hmem⟩
    rw [hbefore actions result h] at hmem
    exact absurd hmem List.not_mem_nil
  · exact covered_of_not_waiting hwait
  · intro r owners h
    exact absurd (hpc.symm.trans h) (hpc' r owners)

lemma Safe.check (hpc : s.pc u = .check r owners)
    (hg : ∀ v ≠ u, ∀ r owners, s.pc v ≠ .record r owners) (h : s.advance u (s.pc u) = some s') : s'.Safe := by
  have hlocal := local_advance h
  rw [hpc] at h
  simp only [advance] at h
  have hbefore : ∀ actions result, s.pc u ≠ .finish actions result := by grind
  obtain ⟨b, hb, hiff⟩ := s.waits.wouldDeadlock_spec r.owner owners
  rw [hb] at h
  cases b with
  | true =>
    cases h
    exact hs.leave hlocal rfl (pc_goto _ _ _) (by grind) (by grind) (by grind)
  | false =>
    cases h
    have hrecord : ∀ v r' owners', (s.goto u (.record r owners)).pc v = .record r' owners' → v = u := by grind
    constructor
    · intro t
      by_cases ht : t = u
      · subst ht
        have hknown : (s.goto t (.record r owners)).knownOwners t = s.knownOwners t := by grind
        exact hs.own hlocal hbefore (r := r) (by grind) (by grind) (fun _ => hknown ▸ refl _) fun _ ha => ha
      · refine hs.others hlocal (fun _ _ _ _ => rfl) (fun _ _ _ _ hw => ?_) ht
        exact absurd hw (not_waking_of_pc hbefore)
    · exact hs.acyclic
    · intro t r' owners' ht p hp hreach
      obtain rfl := hrecord t r' owners' ht
      cases (pc_goto s t (.record r owners)).symm.trans ht
      have := hiff.2 ⟨p, hp, hreach⟩
      cases this
    · intro t v r1 owners1 r2 owners2 ht hv
      rw [hrecord t r1 owners1 ht, hrecord v r2 owners2 hv]

lemma Safe.record (hpc : s.pc u = .record r owners) (hg : ∀ v ≠ u, ∀ r', s.recorded v = some r' → r'.owner ≠ r.owner)
    (h : s.advance u (s.pc u) = some s') : s'.Safe := by
  have hlocal := local_advance h
  rw [hpc] at h
  cases h
  have hbefore : ∀ actions result, s.pc u ≠ .finish actions result := by grind
  have hnone : ∀ t r' owners', (goto { s with waits := s.waits.recordWait r.owner owners } u (.register r)).pc t ≠
      .record r' owners' := by
    grind [hs.alone]
  constructor
  · intro t
    by_cases ht : t = u
    · subst ht
      have hpc' : (goto { s with waits := s.waits.recordWait r.owner owners } t (.register r)).pc t = .register r :=
        Function.update_self _ _ _
      refine hs.own hlocal hbefore (r := r) (by grind) (by grind) (fun hr' => ?_) fun _ ha => ha
      rw [knownOwners, knownOwners, hpc, hpc', hr']
      dsimp only [Option.elim, goto]
      rw [next_recordWait, if_pos rfl]
      exact refl _
    · refine hs.others hlocal (fun v hv r' hr' => ?_) (fun _ _ _ _ hw => ?_) ht
      · exact (next_recordWait _ _ _ _).trans (if_neg (hg v hv r' hr'))
      · exact absurd hw (not_waking_of_pc hbefore)
  · exact hs.acyclic.recordWait (hs.checked u r owners hpc)
  · exact fun t r' owners' ht => absurd ht (hnone t r' owners')
  · exact fun t v r1 owners1 _ _ ht => absurd ht (hnone t r1 owners1)

lemma Safe.clear {owner : ℤ} (hpc : s.pc u = .finish (.clear owner :: actions) result)
    (hg : ∀ v ≠ u, ∀ r', s.recorded v = some r' → r'.owner ≠ owner) (h : s.advance u (s.pc u) = some s') : s'.Safe := by
  have hlocal := local_advance h
  rw [hpc] at h
  cases h
  have hpc' : (goto { s with waits := s.waits.clearWait owner } u (.finish actions result)).pc u =
      .finish actions result := Function.update_self _ _ _
  have hrecord : ∀ t r' owners', (goto { s with waits := s.waits.clearWait owner } u (.finish actions result)).pc t =
      .record r' owners' → s.pc t = .record r' owners' := by grind
  constructor
  · intro t
    by_cases ht : t = u
    · exact ht ▸ covered_of_not_waiting (by grind)
    refine hs.others hlocal (fun v hv r' hr' => ?_) (fun _ _ r' _ hw => ?_) ht
    · exact (next_clearWait _ _ _).trans (if_neg (hg v hv r' hr'))
    -- the wakeups that are left to do come after the removal
    obtain ⟨actions', result', hf, hmem⟩ := hw
    cases hpc.symm.trans hf
    rcases List.mem_cons.1 hmem with hmem | hmem
    · cases hmem
    · exact .inl (.inr ⟨u, waking_of_pc hpc' hmem⟩)
  · exact hs.acyclic.mono fun _ _ => edge_of_clearWait
  · intro t r' owners' ht p hp hreach
    apply hs.checked t r' owners' (hrecord t r' owners' ht) p hp
    exact Relation.ReflTransGen.lift id (fun _ _ => edge_of_clearWait) _ _ hreach
  · intro t v r1 owners1 r2 owners2 ht hv
    exact hs.alone t v r1 owners1 r2 owners2 (hrecord t r1 owners1 ht) (hrecord v r2 owners2 hv)

lemma Safe.wake {path : String}
    (hpc : s.pc u = .finish (.wake path :: actions) result)
    (hg : ∀ v r, s.waiting v = some r → r.path = path →
      s.waiters path = some (s.sleepers.waker v) ∨ s.sleepers.Alerted v ∨ s.Informed v r)
    (h : s.advance u (s.pc u) = some s') : s'.Safe := by
  have hlocal := local_advance h
  rw [hpc] at h
  cases h
  have hpc' := Function.update_self u (RecordPc.finish actions result) s.pc
  have hrecord : ∀ t r' owners', Function.update s.pc u (.finish actions result) t = .record r' owners' →
      s.pc t = .record r' owners' := by
    grind
  constructor
  · intro t
    by_cases ht : t = u
    · exact covered_of_not_waiting (by grind)
    refine hs.others hlocal (fun _ _ _ _ => rfl) (fun v hv r hr hw => ?_) ht
    obtain ⟨actions', result', hf, hmem⟩ := hw
    cases hpc.symm.trans hf
    rcases List.mem_cons.1 hmem with hmem | hmem
    · obtain rfl := RecordAction.wake.inj hmem
      have hr' := waiting_congr (hlocal.pc v hv) (hlocal.blocked v hv) hr
      rcases hg v r hr' rfl with hslot | ha | hi
      · left
        left
        apply Sleepers.alerted_take
        rw [hslot]
        exact List.mem_singleton.2 rfl
      · exact .inl (.inl (hlocal.alerted v hv ha))
      · exact .inr (hi.of_locks rfl (knownOwners_subset (hlocal.pc v hv) hr hr' fun _ => rfl))
    · exact .inl (.inr ⟨u, waking_of_pc hpc' hmem⟩)
  · exact hs.acyclic
  · exact fun t r' owners' ht => hs.checked t r' owners' (hrecord t r' owners' ht)
  · intro t v r1 owners1 r2 owners2 ht hv
    exact hs.alone t v r1 owners1 r2 owners2 (hrecord t r1 owners1 ht) (hrecord v r2 owners2 hv)

include hfree

lemma Safe.advance (hg : s.Orderly (.run u)) (h : s.advance u (s.pc u) = some s') : s'.Safe := by
  have hlocal := local_advance h
  simp only [Orderly] at hg
  generalize hpc : s.pc u = pc at hg
  cases pc with
  | outside last =>
    rw [hpc] at h
    cases h
  | attempt r =>
    rw [hpc] at h
    simp only [RecordSystem.advance] at h
    split at h <;> cases h <;> exact hs.leave hlocal rfl (pc_goto _ _ _) (by grind) (by grind) (by grind)
  | poll r =>
    rw [hpc] at h
    cases h
    exact hs.tryLock (by grind) (by grind) fun locks _ => covered_of_not_waiting (by grind)
  | query r =>
    rw [hpc] at h
    cases h
    apply hs.move hlocal rfl
    · exact fun path hw => absurd hw (not_waking_of_pc (by grind))
    · intro r' hr'
      obtain rfl : r = r' := by grind
      right
      rw [Informed, knownOwners, pc_goto]
      exact refl _
    · grind
  | check r owners =>
    exact hs.check hpc hg h
  | record r owners =>
    exact hs.record hpc hg h
  | register r =>
    rw [hpc] at h
    cases h
    apply hs.move hlocal rfl
    · exact fun path hw => absurd hw (not_waking_of_pc (by grind))
    · refine hs.own hlocal (by grind) (r := r) (by grind) (by grind) (fun _ => ?_) fun _ ha => ha
      rw [knownOwners, knownOwners, waiting, waiting, hpc, pc_goto]
      exact refl _
    · grind
  | retry r =>
    rw [hpc] at h
    cases h
    have hbefore : ∀ actions result, s.pc u ≠ .finish actions result := by grind
    refine hs.tryLock hbefore (by grind) fun locks hlocks => ?_
    have hlocal : Local s (goto { s with locks := locks } u (.park r)) u :=
      local_goto rfl (.refl _) fun path => .inl (hlocks path)
    refine hs.own hlocal hbefore (r := r) (by grind) (by grind) (fun _ => ?_) fun _ ha => ha
    rw [knownOwners, knownOwners, waiting, waiting, hpc, pc_goto]
    exact refl _
  | park r =>
    rw [hpc] at h
    cases h
    apply hs.move hlocal rfl
    · exact fun path hw => absurd hw (not_waking_of_pc (by grind))
    · refine hs.own hlocal (by grind) (r := r) (by grind) (by grind) (fun hr' => ?_) fun hr' => ?_
      · rw [knownOwners, knownOwners, hr', waiting, hpc, pc_goto]
        exact refl _
      -- the thread still waits only where it has fallen asleep
      apply Sleepers.alerted_of_blocked hfree.1
      rw [waiting, pc_goto] at hr'
      split_ifs at hr' with hb
      exact hb
    · grind
  | finish actions result =>
    cases actions with
    | nil =>
      rw [hpc] at h
      cases h
      exact hs.leave hlocal rfl (pc_goto _ _ _) (by grind) (by grind) (by grind)
    | cons action actions =>
      cases action with
      | wake path => exact hs.wake hpc hg h
      | clear owner => exact hs.clear hpc hg h

end Advance

lemma Safe.rouses (hs : s.Safe) {sleepers : Sleepers} (h : s.sleepers.Rouses sleepers) :
    Safe { s with sleepers := sleepers } := by
  have hcalled : ∀ t path, s.Called t path → Called { s with sleepers := sleepers } t path :=
    fun t path hc => hc.imp_left (h.alerted t)
  refine ⟨fun t r hr => ?_, hs.acyclic, hs.checked, hs.alone⟩
  have hr' : s.waiting t = some r := waiting_congr (by rfl) (h.blocked t) hr
  rcases hs.covered t r hr' with hc | hi
  · exact .inl (hcalled t r.path hc)
  · exact .inr (hi.of_locks rfl (knownOwners_subset rfl hr hr' fun _ => rfl))

lemma Safe.step (hs : s.Safe) (hg : s.Orderly e) (h : s.step e = some s') : s'.Safe := by
  have hlocal := local_step h
  cases e with
  | start t blocking r =>
    simp only [RecordSystem.step] at h
    split at h
    · next last hpc =>
      split_ifs at h with hfree hb
      · cases h
        have hb' : (s.sleepers.blockOn t).blocked t = false := hfree.1
        exact hs.leave hlocal rfl (pc_goto _ _ _) (by grind) (by grind [goto]) (by grind)
      · cases h
        exact hs.leave hlocal rfl (pc_goto _ _ _) (by grind) (show waiting _ t = none by grind) (by grind)
    · cases h
  | release t owner paths =>
    simp only [RecordSystem.step] at h
    split at h
    · next last hpc =>
      split_ifs at h
      cases h
      exact hs.leave hlocal rfl (pc_goto _ _ _) (by grind) (show waiting _ t = none by grind) (by grind)
    · cases h
  | run t => exact hs.advance (free_of_run h).1 hg (free_of_run h).2
  | deliver t =>
    obtain ⟨sleepers, hd, rfl⟩ := Option.map_eq_some_iff.1 h
    exact hs.rouses (Sleepers.deliver_rouses hd)
  | interrupt t =>
    simp only [RecordSystem.step] at h
    split at h
    · next r hpc =>
      split_ifs at h
      cases h
      exact hs.leave hlocal rfl (pc_goto _ _ _) (by grind) (show waiting _ t = none by grind) (by grind)
    · cases h
  | rouse t =>
    cases h
    exact hs.rouses (Sleepers.rouse_rouses _ _)

lemma safe_initial : initial.Safe := by
  constructor
  · exact fun t => covered_of_not_waiting rfl
  · exact acyclic_empty
  · intro t r owners h
    cases h
  · intro t u r owners r' owners' h
    cases h

lemma Safe.edge (hs : s.Safe) {p q : ℤ} (h : s.WaitsFor p q) : s.waits.Edge p q := by
  obtain ⟨t, r, ⟨hpc, hb, hno⟩, rfl, hq⟩ := h
  have hr : s.waiting t = some r := by
    rw [waiting, hpc]
    exact if_pos hb
  rcases hs.covered t r hr with hc | hi
  · exact absurd hc hno
  · have hmem := hi hq
    rw [knownOwners, hpc, hr] at hmem
    exact hmem

/-- In an orderly run no owners are parked in a circle, each for a lock of the next. -/
theorem no_wait_cycle_of_orderly (h : Reaches step Orderly initial s) (p : ℤ) :
    ¬Relation.TransGen s.WaitsFor p p := by
  have hs : s.Safe := h.invariant (fun _ _ _ hs hg he => hs.step hg he) safe_initial
  intro hcycle
  exact hs.acyclic p (Relation.TransGen.lift id (fun _ _ => hs.edge) _ _ hcycle)

def writeByte (owner : ℤ) (start : I64) : RecordRequest := ⟨"f", ⟨1, 0, start, .byte 1⟩, 0, 0, owner⟩

lemma orderly_of_alone (h : ∀ u ≠ t, s.waiting u = none) : s.Orderly (.run t) := by
  have hrecord : ∀ u ≠ t, ∀ r owners, s.pc u ≠ .record r owners := by
    intro u hu r owners hpc
    have := h u hu
    grind
  have hrecorded : ∀ u ≠ t, ∀ r, s.recorded u ≠ some r := by
    intro u hu r hr
    have := h u hu
    grind
  simp only [Orderly]
  split
  · exact hrecord
  · exact fun u hu r hr => absurd hr (hrecorded u hu r)
  · exact fun u hu r hr => absurd hr (hrecorded u hu r)
  · next hpc =>
    intro u r hr
    by_cases hu : u = t <;> grind
  · trivial

def oneWaits : List RecordEvent :=
  [.start 0 false (writeByte 1 (.byte 0)), .run 0, .run 0, .run 0,
    .start 1 true (writeByte 2 (.byte 0)), .run 1, .run 1, .run 1, .run 1, .run 1, .run 1, .run 1]

theorem no_wait_cycle_of_orderly_pair :
    ∃ s, Reaches step Orderly initial s ∧ s.WaitsFor 2 1 ∧ ∀ p, ¬Relation.TransGen s.WaitsFor p p := by
  have hadmits : Admits step Orderly initial oneWaits := by
    refine .of_guards (by decide +kernel) ⟨trivial, orderly_of_alone ?_, orderly_of_alone ?_, orderly_of_alone ?_,
      trivial, orderly_of_alone ?_, orderly_of_alone ?_, orderly_of_alone ?_, orderly_of_alone ?_, orderly_of_alone ?_,
      orderly_of_alone ?_, orderly_of_alone ?_, trivial⟩
    all_goals
      intro u hu
      match u with
      | 0 | 1 => first | exact absurd rfl hu | decide +kernel
      | n + 2 => rfl
  have hreach := Reaches.run hadmits
  have hquiet : (run step initial oneWaits).Quiet := by
    intro t
    match t with
    | 0 => exact ⟨by decide +kernel, .inl ⟨.ok 0, by decide +kernel⟩⟩
    | 1 => exact ⟨by decide +kernel, .inr ⟨⟨writeByte 2 ⟨0, by decide⟩, by decide +kernel⟩, by decide +kernel⟩⟩
    | n + 2 => exact ⟨rfl, .inl ⟨.ok 0, rfl⟩⟩
  have hpc : (run step initial oneWaits).pc 1 = .poll (writeByte 2 ⟨0, by decide⟩) := by decide +kernel
  have hblocked : (run step initial oneWaits).sleepers.blocked 1 = true := by decide +kernel
  exact ⟨_, hreach, ⟨1, _, ⟨hpc, hblocked, hquiet.not_called hpc⟩, rfl, by decide +kernel⟩,
    no_wait_cycle_of_orderly hreach⟩

/-- Each of the two threads locks a byte and asks for the other's; both search the graph before one of them records
its edges. -/
def bothSearch : List RecordEvent :=
  [.start 0 false (writeByte 1 (.byte 0)), .run 0, .run 0, .run 0,
    .start 1 false (writeByte 2 (.byte 1)), .run 1, .run 1, .run 1,
    .start 0 true (writeByte 1 (.byte 1)), .run 0, .run 0, .run 0,
    .start 1 true (writeByte 2 (.byte 0)), .run 1, .run 1, .run 1,
    .run 0, .run 0, .run 0, .run 0, .run 1, .run 1, .run 1, .run 1]

set_option maxRecDepth 2000 in
/-- The two owners sleep, each for the lock of the other. -/
theorem two_owners_sleep :
    ∃ s, Reaches step (fun _ _ => True) initial s ∧ s.Quiet ∧ Relation.TransGen s.WaitsFor 1 1 := by
  have hreach : Reaches step (fun _ _ => True) initial (run step initial bothSearch) := Reaches.run (by decide +kernel)
  have hquiet : (run step initial bothSearch).Quiet := by
    intro t
    match t with
    | 0 => exact ⟨by decide +kernel, .inr ⟨⟨writeByte 1 ⟨1, by decide⟩, by decide +kernel⟩, by decide +kernel⟩⟩
    | 1 => exact ⟨by decide +kernel, .inr ⟨⟨writeByte 2 ⟨0, by decide⟩, by decide +kernel⟩, by decide +kernel⟩⟩
    | n + 2 => exact ⟨rfl, .inl ⟨.ok 0, rfl⟩⟩
  have hparked : ∀ t r, (run step initial bothSearch).pc t = .poll r →
      (run step initial bothSearch).sleepers.blocked t = true → (run step initial bothSearch).Parked t r :=
    fun t r hpc hb => ⟨hpc, hb, hquiet.not_called hpc⟩
  have hfirst : (run step initial bothSearch).WaitsFor 1 2 :=
    ⟨0, writeByte 1 ⟨1, by decide⟩, hparked 0 _ (by decide +kernel) (by decide +kernel), rfl, by decide +kernel⟩
  have hsecond : (run step initial bothSearch).WaitsFor 2 1 :=
    ⟨1, writeByte 2 ⟨0, by decide⟩, hparked 1 _ (by decide +kernel) (by decide +kernel), rfl, by decide +kernel⟩
  exact ⟨_, hreach, hquiet, .tail (.single hfirst) hsecond⟩

end RecordSystem

end Ya2yOS.Fs
