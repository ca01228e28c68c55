import Ya2yOS.Fs.LockMap
import Ya2yOS.Fs.WaitGraph
import Ya2yOS.Task.BlockOn

/-!
# Waiting for record locks

`F_SETLKW`, cut at every access to the lock table, the wait graph and the slots of the wakers. A file has one slot,
which keeps the waker that was registered last. Threads share the owner of their requests.
-/

namespace Ya2yOS.Fs

open Function

open Lib (Reaches run)

open Ya2yOS.Task (Waker Sleepers)

deriving instance DecidableEq for Flock

structure RecordRequest where
  path : String
  fl : Flock
  fileSize : ℤ
  currentOffset : ℤ
  owner : ℤ
deriving DecidableEq

namespace RecordRequest

def lock? (r : RecordRequest) : Option PosixLock :=
  match lockType r.fl.lType, toAbsolute r.fl r.fileSize r.currentOffset with
  | some (some kind), .ok (start, stop) => some ⟨kind, start, stop, r.owner⟩
  | _, _ => none

def setlk (r : RecordRequest) (t : LockTable) : SyscallRet × LockTable :=
  t.setlk r.path r.fl r.fileSize r.currentOffset r.owner

def conflictingOwners (r : RecordRequest) (t : LockTable) : List ℤ :=
  match r.lock? with
  | none => []
  | some new => conflictingOwnersLocked (t.locks r.path) new

end RecordRequest

/-- What is left to do once the lock table has been changed or the call has failed: wake the slot of a file, or
remove the edges of the owner. -/
inductive RecordAction where
  | wake (path : String)
  | clear (owner : ℤ)
deriving DecidableEq

inductive RecordPc where
  | outside (last : SyscallRet)
  | attempt (r : RecordRequest)
  /-- `F_SETLKW`: before the first attempt of a poll, before the owners in the way are looked up, before the search
  for a deadlock, before the edges are recorded, before the registration, before the second attempt, and before
  blocking. -/
  | poll (r : RecordRequest)
  | query (r : RecordRequest)
  | check (r : RecordRequest) (owners : List ℤ)
  | record (r : RecordRequest) (owners : List ℤ)
  | register (r : RecordRequest)
  | retry (r : RecordRequest)
  | park (r : RecordRequest)
  | finish (actions : List RecordAction) (result : SyscallRet)
deriving DecidableEq

structure RecordSystem where
  locks : LockTable
  waiters : String → Option Waker
  waits : WaitGraph
  sleepers : Sleepers
  pc : ℕ → RecordPc

inductive RecordEvent where
  | start (t : ℕ) (blocking : Bool) (r : RecordRequest)
  | release (t : ℕ) (owner : ℤ) (paths : List String)
  | run (t : ℕ)
  | deliver (t : ℕ)
  | interrupt (t : ℕ)
  | rouse (t : ℕ)

namespace RecordSystem

def initial : RecordSystem := ⟨.empty, fun _ => none, Lib.OrdMap.empty, .initial, fun _ => .outside (.ok 0)⟩

def goto (s : RecordSystem) (t : ℕ) (pc : RecordPc) : RecordSystem := { s with pc := update s.pc t pc }

@[simp] lemma pc_goto (s : RecordSystem) (t : ℕ) (pc : RecordPc) : (s.goto t pc).pc t = pc := update_self _ _ _

def Free (s : RecordSystem) (t : ℕ) : Prop := s.sleepers.blocked t = false ∧ s.sleepers.deliveries t = []
deriving Decidable

def releaseOn (t : LockTable) (paths : List String) (owner : ℤ) : LockTable :=
  fun path => if path ∈ paths then (t path).bind (LockTable.released owner) else t path

def changedPaths (t : LockTable) (paths : List String) (owner : ℤ) : List String :=
  paths.filter fun path => (t.locks path).any fun a => a.pid = owner

def tryLock (s : RecordSystem) (t : ℕ) (r : RecordRequest) (pending : RecordPc) : RecordSystem :=
  match r.setlk s.locks with
  | (.ok n, locks) => goto { s with locks := locks } t (.finish [.wake r.path, .clear r.owner, .clear r.owner] (.ok n))
  | (.error .EAGAIN, locks) => goto { s with locks := locks } t pending
  | (.error e, locks) => goto { s with locks := locks } t (.finish [.clear r.owner, .clear r.owner] (.error e))

def advance (s : RecordSystem) (t : ℕ) : RecordPc → Option RecordSystem
  | .outside _ => none
  | .attempt r =>
    match r.setlk s.locks with
    | (.ok n, locks) => some (goto { s with locks := locks } t (.finish [.wake r.path] (.ok n)))
    | (.error e, locks) => some (goto { s with locks := locks } t (.outside (.error e)))
  | .poll r => some (s.tryLock t r (.query r))
  | .query r => some (s.goto t (.check r (r.conflictingOwners s.locks)))
  | .check r owners =>
    match s.waits.wouldDeadlock r.owner owners with
    | none => none
    | some true => some (s.goto t (.finish [.clear r.owner, .clear r.owner] (.error .EDEADLK)))
    | some false => some (s.goto t (.record r owners))
  | .record r owners => some (goto { s with waits := s.waits.recordWait r.owner owners } t (.register r))
  | .register r =>
    some (goto { s with waiters := update s.waiters r.path (some (s.sleepers.waker t)) } t (.retry r))
  | .retry r => some (s.tryLock t r (.park r))
  | .park r => some (goto { s with sleepers := s.sleepers.blockCurrentIfNotWoken t } t (.poll r))
  | .finish [] result => some (s.goto t (.outside result))
  | .finish (.wake path :: actions) result =>
    some (goto { s with
      waiters := update s.waiters path none
      sleepers := s.sleepers.take t (s.waiters path).toList } t (.finish actions result))
  | .finish (.clear owner :: actions) result =>
    some (goto { s with waits := s.waits.clearWait owner } t (.finish actions result))

def step (s : RecordSystem) : RecordEvent → Option RecordSystem
  | .start t blocking r =>
    match s.pc t with
    | .outside _ =>
      if ¬s.Free t then none
      else if blocking then some (goto { s with sleepers := s.sleepers.blockOn t } t (.poll r))
      else some (s.goto t (.attempt r))
    | _ => none
  | .release t owner paths =>
    match s.pc t with
    | .outside _ =>
      if ¬s.Free t then none
      else some (goto { s with locks := releaseOn s.locks paths owner } t
        (.finish (.clear owner :: (changedPaths s.locks paths owner).map .wake) (.ok 0)))
    | _ => none
  | .run t => if s.Free t then s.advance t (s.pc t) else none
  | .deliver t => (s.sleepers.deliver t).map fun sleepers => { s with sleepers := sleepers }
  | .interrupt t =>
    match s.pc t with
    | .poll r => if s.Free t then some (s.goto t (.finish [.clear r.owner] (.error .EINTR))) else none
    | _ => none
  | .rouse t => some { s with sleepers := s.sleepers.rouse t }

/-! ### What a step leaves alone -/

def Waking (s : RecordSystem) (v : ℕ) (path : String) : Prop :=
  ∃ actions result, s.pc v = .finish actions result ∧ .wake path ∈ actions

def Called (s : RecordSystem) (t : ℕ) (path : String) : Prop := s.sleepers.Alerted t ∨ ∃ v, s.Waking v path

def Quiet (s : RecordSystem) : Prop :=
  ∀ t, s.sleepers.deliveries t = [] ∧
    ((∃ last, s.pc t = .outside last) ∨
      (∃ r, s.pc t = .poll r) ∧ s.sleepers.blocked t = true ∧ s.sleepers.woke t = false)

end RecordSystem

namespace RecordEvent

def thread : RecordEvent → ℕ
  | .start t _ _ => t
  | .release t _ _ => t
  | .run t => t
  | .deliver t => t
  | .interrupt t => t
  | .rouse t => t

end RecordEvent

namespace RecordRequest

variable {r : RecordRequest} {t : LockTable}

lemma conflictingOwners_congr {t' : LockTable} (h : t'.locks r.path = t.locks r.path) :
    r.conflictingOwners t' = r.conflictingOwners t := by
  unfold conflictingOwners
  rw [h]

lemma setlk_locks (r : RecordRequest) (t : LockTable) (path : String) :
    (r.setlk t).2.locks path = t.locks path ∨ path = r.path ∧ (r.setlk t).1 = .ok 0 := by
  have hself : ∀ path, LockTable.locks (update t r.path (some (t.locks r.path))) path = t.locks path := by
    intro path
    rw [LockTable.locks_update]
    split_ifs with hp
    · rw [hp]
    · rfl
  unfold setlk LockTable.setlk
  cases lockType r.fl.lType with
  | none => exact .inl rfl
  | some kind =>
    cases toAbsolute r.fl r.fileSize r.currentOffset with
    | error e => exact .inl rfl
    | ok range =>
      simp only [LockTable.setRange]
      split_ifs
      · exact .inl (hself path)
      · by_cases hp : path = r.path
        · exact .inr ⟨hp, rfl⟩
        · left
          rw [update_idem, LockTable.locks_update, if_neg hp]

lemma toAbsolute_error {fl : Flock} {size off : ℤ} {e : SysErrNo} (h : toAbsolute fl size off = .error e) :
    e = .EINVAL := by
  grind [toAbsolute, absoluteStart]

lemma conflictingOwners_of_setlk (h : (r.setlk t).1 = .error .EAGAIN) : r.conflictingOwners t ≠ [] := by
  unfold setlk LockTable.setlk at h
  unfold conflictingOwners lock?
  cases hk : lockType r.fl.lType with
  | none =>
    rw [hk] at h
    cases h
  | some kind =>
    rw [hk] at h
    cases ha : toAbsolute r.fl r.fileSize r.currentOffset with
    | error e =>
      rw [ha] at h
      obtain rfl := toAbsolute_error ha
      cases h
    | ok range =>
      rw [ha] at h
      simp only [LockTable.setRange] at h
      split_ifs at h with hb
      cases kind with
      | none => cases hb
      | some k =>
        simp only [Option.map_some, Option.any_some, blocked, List.any_eq_true, Bool.and_eq_true,
          decide_eq_true_eq] at hb
        obtain ⟨a, ha, hne, hc⟩ := hb
        apply List.ne_nil_of_mem
        exact mem_conflictingOwnersLocked.2 ⟨a, ha, rfl, hne, hc⟩

end RecordRequest

namespace RecordSystem

variable {s s' : RecordSystem} {t u v : ℕ} {e : RecordEvent} {path : String}

@[grind =]
lemma goto_pc (s : RecordSystem) (t : ℕ) (pc : RecordPc) (u : ℕ) : (s.goto t pc).pc u = if u = t then pc else s.pc u :=
  update_apply _ _ _ _

attribute [grind =] Waking

lemma Quiet.not_called (h : s.Quiet) {r : RecordRequest} (hpc : s.pc t = .poll r) :
    ¬s.Called t path := by
  rintro ((hwoke | ⟨v, hv⟩) | ⟨v, actions, result, hf, -⟩)
  · grind [h t]
  · grind [h v]
  · grind [h v]

structure Local (s s' : RecordSystem) (u : ℕ) : Prop where
  pc : ∀ t ≠ u, s'.pc t = s.pc t
  blocked : ∀ t ≠ u, s'.sleepers.blocked t = true → s.sleepers.blocked t = true
  alerted : ∀ t ≠ u, s.sleepers.Alerted t → s'.sleepers.Alerted t
  waker : ∀ t ≠ u, s'.sleepers.waker t = s.sleepers.waker t
  locks : ∀ path, s'.locks.locks path = s.locks.locks path ∨ s'.Waking u path

lemma local_goto {pc : RecordPc} (hpc : s'.pc = update s.pc u pc) (hsleepers : s.sleepers.Rouses s'.sleepers)
    (hlocks : ∀ path, s'.locks.locks path = s.locks.locks path ∨ s'.Waking u path) : Local s s' u := by
  constructor
  · intro t ht
    rw [hpc, update_of_ne ht]
  · exact fun t _ => hsleepers.blocked t
  · exact fun t _ => hsleepers.alerted t
  · exact fun t _ => hsleepers.waker t
  · exact hlocks

lemma waking_of_pc {actions : List RecordAction} {result : SyscallRet} (h : s.pc u = .finish actions result)
    (hmem : .wake path ∈ actions) : s.Waking u path := ⟨actions, result, h, hmem⟩

lemma free_of_run (h : s.step (.run t) = some s') : s.Free t ∧ s.advance t (s.pc t) = some s' := by
  simp only [step] at h
  split_ifs at h with hfree
  exact ⟨hfree, h⟩

/-- An attempt ends the call and is going to wake the file, or leaves the locks as they are. -/
lemma tryLock_cases (s : RecordSystem) (t : ℕ) (r : RecordRequest) (pending : RecordPc) :
    (∃ locks n, s.tryLock t r pending =
        goto { s with locks := locks } t (.finish [.wake r.path, .clear r.owner, .clear r.owner] (.ok n)) ∧
        ∀ path, locks.locks path = s.locks.locks path ∨ path = r.path) ∨
      (∃ locks, s.tryLock t r pending = goto { s with locks := locks } t pending ∧
        (∀ path, locks.locks path = s.locks.locks path) ∧ r.conflictingOwners s.locks ≠ []) ∨
      ∃ locks e, s.tryLock t r pending =
        goto { s with locks := locks } t (.finish [.clear r.owner, .clear r.owner] (.error e)) ∧
        ∀ path, locks.locks path = s.locks.locks path := by
  have hlocks := fun path => r.setlk_locks s.locks path
  unfold tryLock
  rcases hset : r.setlk s.locks with ⟨ret, locks⟩
  rw [hset] at hlocks
  cases ret with
  | ok n =>
    refine .inl ⟨locks, n, rfl, fun path => ?_⟩
    exact (hlocks path).imp_right And.left
  | error e =>
    have hsame : ∀ path, locks.locks path = s.locks.locks path := by
      intro path
      rcases hlocks path with h | ⟨-, h⟩
      · exact h
      · cases h
    by_cases he : e = .EAGAIN
    · subst he
      refine .inr (.inl ⟨locks, rfl, hsame, ?_⟩)
      apply RecordRequest.conflictingOwners_of_setlk
      rw [hset]
    · refine .inr (.inr ⟨locks, e, ?_, hsame⟩)
      split
      · next h => cases h
      · next h =>
        cases h
        exact absurd rfl he
      · next h =>
        cases h
        rfl

lemma locks_releaseOn (t : LockTable) (paths : List String) (owner : ℤ) (path : String) :
    (releaseOn t paths owner).locks path = t.locks path ∨ path ∈ changedPaths t paths owner := by
  by_cases hp : path ∈ paths
  · by_cases hany : (t.locks path).any (fun a => a.pid = owner) = true
    · exact .inr (List.mem_filter.2 ⟨hp, hany⟩)
    left
    -- the owner has no lock to lose
    have hkeep : ∀ entry, t path = some entry → (entry.filter fun a => a.pid ≠ owner) = entry := by
      intro entry hentry
      rw [LockTable.locks, hentry] at hany
      rw [List.filter_eq_self]
      intro a ha
      simp only [Option.getD_some, List.any_eq_true, not_exists, not_and, decide_eq_true_eq] at hany ⊢
      exact hany a ha
    unfold LockTable.locks releaseOn
    rw [if_pos hp]
    cases hentry : t path with
    | none => rfl
    | some entry =>
      rw [Option.bind_some, LockTable.released, hkeep entry hentry]
      split_ifs with hnil
      · rw [hnil]
        rfl
      · rfl
  · left
    unfold LockTable.locks releaseOn
    rw [if_neg hp]

lemma local_tryLock (s : RecordSystem) (t : ℕ) (r : RecordRequest) (pending : RecordPc) :
    Local s (s.tryLock t r pending) t := by
  rcases s.tryLock_cases t r pending with ⟨locks, n, hs, hlocks⟩ | ⟨locks, hs, hlocks, -⟩ | ⟨locks, e, hs, hlocks⟩
  · rw [hs]
    refine local_goto rfl (.refl _) fun path => (hlocks path).imp_right fun hp => ?_
    refine waking_of_pc (pc_goto _ _ _) ?_
    rw [hp]
    exact List.mem_cons_self
  · rw [hs]
    exact local_goto rfl (.refl _) fun path => .inl (hlocks path)
  · rw [hs]
    exact local_goto rfl (.refl _) fun path => .inl (hlocks path)

lemma local_advance (h : s.advance u (s.pc u) = some s') : Local s s' u := by
  generalize hpc : s.pc u = pc at h
  cases pc with
  | outside last =>
    cases h
  | attempt r =>
    simp only [advance] at h
    have hlocks := fun path => r.setlk_locks s.locks path
    rcases hset : r.setlk s.locks with ⟨ret, locks⟩
    rw [hset] at h hlocks
    cases ret <;> cases h <;>
      exact local_goto rfl (.refl _) fun path => (hlocks path).imp_right (by grind)
  | poll r | retry r =>
    cases h
    exact s.local_tryLock u r _
  | query r | record r owners | register r =>
    cases h
    exact local_goto rfl (.refl _) fun _ => .inl rfl
  | check r owners =>
    simp only [advance] at h
    split at h <;> cases h <;> exact local_goto rfl (.refl _) fun _ => .inl rfl
  | park r =>
    cases h
    constructor
    · exact fun t ht => update_of_ne ht _ _
    · intro t ht hb
      exact (Sleepers.blocked_blockCurrentIfNotWoken ht).symm.trans hb
    · exact fun t ht => (Sleepers.alerted_blockCurrentIfNotWoken ht).2
    · exact fun t _ => Sleepers.waker_blockCurrentIfNotWoken _ t u
    · exact fun _ => .inl rfl
  | finish actions result =>
    cases actions with
    | nil =>
      cases h
      exact local_goto rfl (.refl _) fun _ => .inl rfl
    | cons action actions =>
      cases action with
      | wake path =>
        cases h
        exact local_goto rfl (Sleepers.take_rouses _ _ _) fun _ => .inl rfl
      | clear owner =>
        cases h
        exact local_goto rfl (.refl _) fun _ => .inl rfl

/-- The other threads stay where they are, and the table changes only where the thread is going to wake. -/
lemma local_step (h : s.step e = some s') : Local s s' e.thread := by
  cases e with
  | start t blocking r =>
    simp only [step] at h
    split at h
    · split_ifs at h with hfree hb
      · cases h
        constructor
        · exact fun v hv => update_of_ne hv _ _
        · exact fun v _ hb => hb
        · exact fun v hv => (Sleepers.alerted_blockOn hv).2
        · exact fun v hv => Sleepers.waker_blockOn hv
        · exact fun _ => .inl rfl
      · cases h
        exact local_goto rfl (.refl _) fun _ => .inl rfl
    · cases h
  | release t owner paths =>
    simp only [step] at h
    split at h
    · split_ifs at h with hfree
      cases h
      refine local_goto rfl (.refl _) fun path => (locks_releaseOn s.locks paths owner path).imp_right fun hp => ?_
      exact waking_of_pc (pc_goto _ _ _) (List.mem_cons_of_mem _ (List.mem_map_of_mem hp))
    · cases h
  | run t => exact local_advance (free_of_run h).2
  | deliver t =>
    obtain ⟨sleepers, hd, rfl⟩ := Option.map_eq_some_iff.1 h
    exact local_goto (update_eq_self _ _).symm (Sleepers.deliver_rouses hd) fun _ => .inl rfl
  | interrupt t =>
    simp only [step] at h
    split at h
    · split_ifs at h
      cases h
      exact local_goto rfl (.refl _) fun _ => .inl rfl
    · cases h
  | rouse t =>
    cases h
    exact local_goto (update_eq_self _ _).symm (Sleepers.rouse_rouses _ _) fun _ => .inl rfl

lemma locks_sound_step (hs : s.locks.Sound) (h : s.step e = some s') : s'.locks.Sound := by
  have hset : ∀ r : RecordRequest, (r.setlk s.locks).2.Sound := fun r =>
    LockTable.sound_step (e := .setlk r.path r.fl r.fileSize r.currentOffset r.owner) hs rfl
  have hrelease : ∀ paths owner, (releaseOn s.locks paths owner).Sound := by
    intro paths owner path
    simp only [releaseOn, LockTable.locks]
    split_ifs
    · exact LockTable.entrySound_released owner (hs path)
    · exact hs path
  cases e with
  | run t =>
    have hadv := (free_of_run h).2
    unfold advance at hadv
    split at hadv <;> grind [tryLock, goto]
  | deliver t =>
    obtain ⟨_, -, rfl⟩ := Option.map_eq_some_iff.1 h
    exact hs
  | _ => grind [step, goto]

/-- However the calls and exits of any number of threads interleave, nobody else has a lock on a byte that an owner
has locked for writing. -/
theorem write_lock_excludes (h : Reaches step (fun _ _ => True) initial s) (path : String) (b p q : ℤ) (hpq : p ≠ q)
    (hw : lockAt (s.locks.locks path) p b = some .write) : lockAt (s.locks.locks path) q b = none := by
  have hs : s.locks.Sound :=
    Reaches.invariant (fun _ _ _ hi _ hstep => locks_sound_step hi hstep) LockTable.sound_empty h
  have hd := (hs path).disjoint
  obtain ⟨a, ha, rfl, hab, hwrite⟩ := (lockAt_eq_some hd).1 hw
  rw [Option.eq_none_iff_forall_not_mem]
  rintro k hk
  obtain ⟨c, hc, rfl, hcb, -⟩ := (lockAt_eq_some hd).1 hk
  have hac : a ≠ c := fun h => hpq (h ▸ rfl)
  have : Std.Symm PosixLock.Compatible := ⟨fun _ _ => PosixLock.Compatible.symm⟩
  exact hd.forall ha hc hac (.inr (.inl hwrite)) b hab hcb

/-- One thread has two bytes locked; another one asks for the second byte and parks. -/
def twoWriters : List RecordEvent :=
  [.start 0 false ⟨"f", ⟨1, 0, .byte 0, .byte 2⟩, 0, 0, 7⟩, .run 0, .run 0, .run 0,
    .start 1 true ⟨"f", ⟨1, 0, .byte 1, .byte 1⟩, 0, 0, 8⟩] ++ List.replicate 7 (.run 1)

theorem write_lock_excludes_writer : (run step initial twoWriters).sleepers.blocked 1 = true ∧
    lockAt ((run step initial twoWriters).locks.locks "f") 8 1 = none :=
  ⟨by decide +kernel, write_lock_excludes (Reaches.run (by decide +kernel)) "f" 1 7 8 (by decide) (by decide +kernel)⟩

end RecordSystem

end Ya2yOS.Fs
