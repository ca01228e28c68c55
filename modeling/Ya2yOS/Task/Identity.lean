import Ya2yOS.Lib.Transition
import Ya2yOS.Task.Credentials

/-!
# Tasks keep their identity

A task and its descendants issue credential calls in any order. Without privilege every call but
`setuid` picks ids from those the task has, and no call adds a permitted capability.
-/

namespace Ya2yOS.Task

open Lib

lemma and_not_eq_zero_iff (x y : BitVec 32) : x &&& ~~~y = 0 ↔ ∀ k, x.getLsbD k = true → y.getLsbD k = true := by
  constructor
  · intro h k hx
    have hk : k < 32 := BitVec.lt_of_getLsbD hx
    have hbit : (x &&& ~~~y).getLsbD k = false := by rw [h]; exact BitVec.getLsbD_zero
    simpa only [BitVec.getLsbD_and, BitVec.getLsbD_not, hx, hk, decide_true, Bool.true_and,
      Bool.not_eq_false'] using hbit
  · intro h
    apply BitVec.eq_of_getLsbD_eq
    intro k hk
    have hb := h k
    rw [BitVec.getLsbD_and, BitVec.getLsbD_not]
    cases hx : x.getLsbD k <;> simp_all

lemma capSubset_iff {a b : CapWords} :
    capSubset a b = true ↔ ∀ i k, (a i).getLsbD k = true → (b i).getLsbD k = true := by
  simp only [capSubset, decide_eq_true_eq, and_not_eq_zero_iff]

lemma capSubset_refl (a : CapWords) : capSubset a a = true := capSubset_iff.2 fun _ _ h => h

lemma capSubset_trans {a b c : CapWords} (hab : capSubset a b = true) (hbc : capSubset b c = true) :
    capSubset a c = true :=
  capSubset_iff.2 fun i k h => capSubset_iff.1 hbc i k (capSubset_iff.1 hab i k h)

lemma capSubset_zero (a : CapWords) : capSubset (fun _ => 0) a = true := by
  simp [capSubset]

/-! ### One call -/

inductive CredCall where
  | setuid (uid : ℕ)
  | setgid (gid : ℕ)
  | setreuid (ruid euid : ℕ)
  | setresuid (ruid euid suid : UInt32)
  | setregid (rgid egid : ℕ)
  | setresgid (rgid egid sgid : UInt32)
  | capset (mem : CapMemory) (hdrp datap : ℕ)

def CredCall.run (pid : ℕ) : CredCall → Cred → SyscallRet × Cred
  | setuid uid => Cred.sysSetuid uid
  | setgid gid => Cred.sysSetgid gid
  | setreuid ruid euid => Cred.sysSetreuid ruid euid
  | setresuid ruid euid suid => Cred.sysSetresuid ruid euid suid
  | setregid rgid egid => Cred.sysSetregid rgid egid
  | setresgid rgid egid sgid => Cred.sysSetresgid rgid egid sgid
  | capset mem hdrp datap => Cred.sysCapset mem pid hdrp datap

/-- A `setuid` that an unprivileged task may make: to an id it has, or one that is refused. -/
def CredCall.Entitled (c : Cred) : CredCall → Prop
  | setuid uid => uid ≤ 65535 → UInt32.ofNat uid ∈ c.uids
  | _ => True

structure Cred.Within (d c : Cred) : Prop where
  uids : ∀ id ∈ d.uids, id ∈ c.uids
  permitted : capSubset d.capabilities.permitted c.capabilities.permitted = true

namespace Cred

variable {c d e : Cred}

lemma Within.refl (c : Cred) : c.Within c := ⟨fun _ h => h, capSubset_refl _⟩

lemma Within.trans (hd : d.Within c) (he : e.Within d) : e.Within c :=
  ⟨fun id h => hd.uids id (he.uids id h), capSubset_trans he.permitted hd.permitted⟩

def Unprivileged (c : Cred) : Prop := 0 ∉ c.uids

lemma Within.unprivileged (h : d.Within c) (hc : c.Unprivileged) : d.Unprivileged := fun h0 => hc (h.uids 0 h0)

lemma Unprivileged.effectiveUid_ne (h : c.Unprivileged) : c.effectiveUid ≠ 0 := by
  intro h0
  apply h
  simp [uids, h0]

lemma Unprivileged.userId_ne (h : c.Unprivileged) : c.userId ≠ 0 := by
  intro h0
  apply h
  simp [uids, h0]

lemma permitted_sync (c : Cred) :
    capSubset c.syncCapabilitiesAfterUidChange.capabilities.permitted c.capabilities.permitted = true := by
  unfold syncCapabilitiesAfterUidChange
  by_cases h0 : c.userId ≠ 0 ∧ c.effectiveUid ≠ 0 ∧ c.savedUid ≠ 0
  · simp only [if_pos h0]
    exact capSubset_zero _
  · simp only [if_neg h0]
    exact capSubset_refl _

lemma sync_within (ids : Ids) (h : ∀ id ∈ ids.toList, id ∈ c.uids) :
    (c.withUserIds ids).syncCapabilitiesAfterUidChange.Within c :=
  ⟨h, permitted_sync (c.withUserIds ids)⟩

lemma withGroupIds_within (c : Cred) (ids : Ids) : (c.withGroupIds ids).Within c := ⟨fun _ h => h, capSubset_refl _⟩

end Cred

lemma setreid_mem {old ids : Ids} {r e : UInt32} (h : setreid false old r e = .ok (some ids)) :
    ∀ id ∈ ids.toList, id ∈ old.toList := by
  unfold setreid at h
  split at h
  · cases h
  split at h
  · cases h
  split at h
  · cases h
  split at h
  · cases h
  next hr he =>
  simp only [Bool.not_false, Bool.true_and, Bool.and_eq_true, decide_eq_true_eq, not_and, not_not] at hr he
  obtain rfl := Option.some.inj (Except.ok.inj h)
  have hreal : (if r = unchanged then old.real else r) ∈ old.toList := by
    simp only [Ids.toList, List.mem_cons]
    grind
  have heff : (if e = unchanged then old.effective else e) ∈ old.toList := by
    simp only [Ids.toList, List.mem_cons]
    grind
  intro id hid
  simp only [Ids.toList, List.mem_cons, List.not_mem_nil, or_false] at hid
  rcases hid with rfl | rfl | rfl
  · exact hreal
  · exact heff
  by_cases hs : r ≠ unchanged ∨ (e ≠ unchanged ∧ (if e = unchanged then old.effective else e) ≠ old.real)
  · rw [if_pos hs]
    exact heff
  · rw [if_neg hs]
    simp [Ids.toList]

lemma idsAllowed_mem {cur new : Ids} (h : idsAllowed cur new = true) : ∀ id ∈ new.toList, id ∈ cur.toList := by
  simp only [idsAllowed, Bool.and_eq_true, Bool.not_eq_true', Bool.and_eq_false_iff, decide_eq_false_iff_not,
    Bool.not_eq_false', not_not, List.contains_iff_mem] at h
  obtain ⟨⟨hr, he⟩, hs⟩ := h
  intro id hid
  simp only [Ids.toList, List.mem_cons, List.not_mem_nil, or_false] at hid
  rcases hid with rfl | rfl | rfl
  · exact hr.elim (fun h => by simp [Ids.toList, h]) id
  · exact he.elim (fun h => by simp [Ids.toList, h]) id
  · exact hs.elim (fun h => by simp [Ids.toList, h]) id

lemma CredCall.run_within {pid : ℕ} {call : CredCall} {c : Cred} (hc : c.Unprivileged)
    (hcall : call.Entitled c) : (call.run pid c).2.Within c := by
  have hpriv : (decide (c.userId = 0) || decide (c.effectiveUid = 0)) = false := by
    simp [hc.userId_ne, hc.effectiveUid_ne]
  cases call with
  | setuid uid =>
    simp only [run, Cred.sysSetuid]
    split
    · exact .refl c
    next hle =>
    refine Cred.sync_within ⟨UInt32.ofNat uid, UInt32.ofNat uid, UInt32.ofNat uid⟩ ?_
    intro id hid
    obtain rfl : id = UInt32.ofNat uid := by simpa [Ids.toList] using hid
    exact hcall (by omega)
  | setgid gid =>
    simp only [run, Cred.sysSetgid]
    split
    · exact .refl c
    · exact Cred.withGroupIds_within c ⟨_, _, _⟩
  | setreuid ruid euid =>
    simp only [run, Cred.sysSetreuid, hpriv]
    split
    · exact .refl c
    · exact .refl c
    · next ids hids => exact Cred.sync_within ids (setreid_mem hids)
  | setresuid ruid euid suid =>
    simp only [run, Cred.sysSetresuid, hpriv]
    split
    · exact .refl c
    split
    · exact .refl c
    · next hallow => exact Cred.sync_within _ (idsAllowed_mem (by simpa [setresuidAllowed] using hallow))
  | setregid rgid egid =>
    simp only [run, Cred.sysSetregid]
    split
    · exact .refl c
    · exact .refl c
    · exact Cred.withGroupIds_within c _
  | setresgid rgid egid sgid =>
    simp only [run, Cred.sysSetresgid]
    split
    · exact .refl c
    split
    · exact .refl c
    · exact Cred.withGroupIds_within c _
  | capset mem hdrp datap =>
    simp only [run, Cred.sysCapset]
    split
    · exact .refl c
    split
    · exact .refl c
    next caps _ hallow =>
    refine ⟨fun _ h => h, ?_⟩
    simp only [not_and_or, not_or, Bool.not_eq_true', Bool.not_eq_false] at hallow
    rcases hallow with h0 | h
    · exact absurd hc.effectiveUid_ne h0
    · exact h.1

/-! ### A task and its descendants -/

structure TaskControlBlock where
  pid : ℕ
  cred : Cred
  exited : Bool

abbrev Family := List TaskControlBlock

inductive TaskCall where
  | cred (call : CredCall)
  | clone (thread : Bool) (tid : ℕ)
  | execve (file : ExecFile)

def TaskCall.Entitled (c : Cred) : TaskCall → Prop
  | cred call => call.Entitled c
  | _ => True

namespace Family

def collapse (f : Family) (i pid : ℕ) : Family :=
  f.mapIdx fun j t => { t with exited := t.exited || (j ≠ i && t.pid = pid) }

def step (f : Family) (e : ℕ × TaskCall) : Option Family :=
  match f[e.1]? with
  | none => none
  | some task =>
    if task.exited then none
    else
      match e.2 with
      | .cred call => some (f.set e.1 { task with cred := (call.run task.pid task.cred).2 })
      | .clone thread tid => some (f ++ [⟨if thread then task.pid else tid, task.cred, false⟩])
      | .execve file =>
        match task.cred.sysExecve file with
        | .error _ => some f
        | .ok _ => some (f.collapse e.1 task.pid)

def Entitled (f : Family) (e : ℕ × TaskCall) : Prop := ∀ task, f[e.1]? = some task → e.2.Entitled task.cred

variable {f f' : Family} {e : ℕ × TaskCall}

lemma step_within (hf : ∀ t ∈ f, t.cred.Unprivileged) (he : f.Entitled e) (h : f.step e = some f') :
    (∀ (j : ℕ) t, f[j]? = some t → ∃ t', f'[j]? = some t' ∧ t'.cred.Within t.cred) ∧
      ∀ t' ∈ f', ∃ t ∈ f, t'.cred.Within t.cred := by
  obtain ⟨i, call⟩ := e
  unfold step at h
  split at h
  · cases h
  next task htask =>
  split at h
  · cases h
  have hmem := List.mem_of_getElem? htask
  cases call with
  | cred call =>
    have hrun : (call.run task.pid task.cred).2.Within task.cred := CredCall.run_within (hf task hmem) (he task htask)
    cases h
    refine ⟨fun j t ht => ?_, fun t' ht' => ?_⟩
    · rw [List.getElem?_set]
      split
      · next hij =>
        subst hij
        obtain rfl := Option.some.inj (htask.symm.trans ht)
        exact ⟨_, if_pos (List.getElem?_eq_some_iff.1 htask).1, hrun⟩
      · exact ⟨t, ht, .refl _⟩
    · rcases List.mem_or_eq_of_mem_set ht' with ht' | rfl
      · exact ⟨t', ht', .refl _⟩
      · exact ⟨task, hmem, hrun⟩
  | clone thread tid =>
    cases h
    refine ⟨fun j t ht => ⟨t, ?_, .refl _⟩, fun t' ht' => ?_⟩
    · rw [List.getElem?_append_left (List.getElem?_eq_some_iff.1 ht).1]
      exact ht
    · rcases List.mem_append.1 ht' with ht' | ht'
      · exact ⟨t', ht', .refl _⟩
      · obtain rfl := List.mem_singleton.1 ht'
        exact ⟨task, hmem, .refl _⟩
  | execve file =>
    have hself : (∀ (j : ℕ) t, f[j]? = some t → ∃ t', f[j]? = some t' ∧ t'.cred.Within t.cred) ∧
        ∀ t' ∈ f, ∃ t ∈ f, t'.cred.Within t.cred :=
      ⟨fun j t ht => ⟨t, ht, .refl _⟩, fun t' ht' => ⟨t', ht', .refl _⟩⟩
    simp only at h
    split at h
    · cases h
      exact hself
    cases h
    refine ⟨fun j t ht => ⟨{ t with exited := t.exited || (j ≠ i && t.pid = task.pid) }, ?_,
      .refl t.cred⟩, fun t' ht' => ?_⟩
    · rw [collapse, List.getElem?_mapIdx, ht, Option.map_some]
    · obtain ⟨j, hj, rfl⟩ := List.mem_mapIdx.1 ht'
      exact ⟨f[j], List.getElem_mem hj, .refl _⟩

lemma within_of_reaches {root : TaskControlBlock} (hroot : root.cred.Unprivileged)
    (h : Reaches step Entitled [root] f) : ∀ t ∈ f, t.cred.Within root.cred := by
  refine Reaches.invariant (I := fun f : Family => ∀ t ∈ f, t.cred.Within root.cred) ?_ ?_ h
  · intro f e f' hf he hstep t' ht'
    obtain ⟨t, ht, hwithin⟩ := (step_within (fun t ht => (hf t ht).unprivileged hroot) he hstep).2 t' ht'
    exact (hf t ht).trans hwithin
  · intro t ht
    obtain rfl := List.mem_singleton.1 ht
    exact .refl _

/-- In every run of an unprivileged task and its descendants whose `setuid` calls are entitled, every
task holds only user ids of the first one and only capabilities it was permitted, and no further
call gives a task a permitted capability that it lacks. -/
theorem entitled_run_keeps_identity {root : TaskControlBlock} (hroot : root.cred.Unprivileged)
    (h : Reaches step Entitled [root] f) :
    (∀ t ∈ f, (∀ id ∈ t.cred.uids, id ∈ root.cred.uids) ∧
      capSubset t.cred.capabilities.permitted root.cred.capabilities.permitted = true) ∧
    ∀ e f', f.Entitled e → f.step e = some f' → ∀ (j : ℕ) t, f[j]? = some t → ∃ t', f'[j]? = some t' ∧
        capSubset t'.cred.capabilities.permitted t.cred.capabilities.permitted = true := by
  have hwithin := within_of_reaches hroot h
  refine ⟨fun t ht => ⟨(hwithin t ht).uids, (hwithin t ht).permitted⟩, fun e f' he hstep j t ht => ?_⟩
  have hunpriv : ∀ t ∈ f, t.cred.Unprivileged := fun t ht => (hwithin t ht).unprivileged hroot
  obtain ⟨t', ht', hw⟩ := (step_within hunpriv he hstep).1 j t ht
  exact ⟨t', ht', hw.permitted⟩

def shell : TaskControlBlock :=
  ⟨7, ⟨1000, 1000, 1001, 100, 100, 100, ⟨fun _ => 0, fun i => if i.val = 0 then 0x400 else 0, fun _ => 0⟩⟩, false⟩

/-- The task forks, and the child takes its saved id with `setresuid` and then with `setuid`. -/
def switched : Family :=
  after step (after step (after step [shell] (0, .clone false 8)) (1, .cred (.setresuid unchanged 1001 unchanged)))
    (1, .cred (.setuid 1001))

lemma unprivileged_shell : shell.cred.Unprivileged := by
  unfold Cred.Unprivileged
  decide

lemma reaches_switched : Reaches step Entitled [shell] switched := by
  refine ((Reaches.after .refl ?_ rfl).after ?_ rfl).after ?_ rfl
  · exact fun _ _ => trivial
  · exact fun _ _ => trivial
  · intro task htask _
    obtain rfl := Option.some.inj (htask.symm.trans (by rfl : _ = some _))
    decide

theorem entitled_run_keeps_identity_switched : shell.cred.Unprivileged ∧ switched.length = 2 ∧
    ∀ t ∈ switched, (∀ id ∈ t.cred.uids, id ∈ shell.cred.uids) ∧
      capSubset t.cred.capabilities.permitted shell.cred.capabilities.permitted = true :=
  ⟨unprivileged_shell, rfl, (entitled_run_keeps_identity unprivileged_shell reaches_switched).1⟩

def fullRequest : CapMemory where
  badAddress _ := false
  header _ := .ok ⟨linuxCapabilityVersion3, 0⟩
  data ptr :=
    let word := capabilityFullMaskWord ((ptr - 0x2000) / 12)
    .ok ⟨word, word, 0⟩
  putHeader _ _ := .ok ()

/-- The same task asks for user id 0, is not refused, and as root takes every capability. -/
theorem setuid_gains_root :
    let f := after step [shell] (0, .cred (.setuid 0))
    let f' := after step f (0, .cred (.capset fullRequest 0x1000 0x2000))
    shell.cred.Unprivileged ∧ (CredCall.run 7 (.setuid 0) shell.cred).1 = .ok 0 ∧
      f.map (fun t => t.cred.uids) = [[0, 0, 0]] ∧
      f'.map (fun t => capSubset t.cred.capabilities.permitted shell.cred.capabilities.permitted) = [false] ∧
      f'.map (fun t => capSubset capabilityFullMask t.cred.capabilities.permitted) = [true] := by
  refine ⟨unprivileged_shell, rfl, rfl, ?_, ?_⟩ <;> decide +kernel

end Family

end Ya2yOS.Task
