import Mathlib.Data.List.Perm.Basic
import Ya2yOS.Fs.FlockWait
import Ya2yOS.Fs.PosixLock

/-!
# The tables of whole-file locks and leases

`flock` locks belong to open file descriptions, leases to processes. In both tables an owner has one entry for a
file, and an entry that excludes others stands alone.
-/

namespace Ya2yOS.Fs

open Function Lib List FlockTable

section Shared

variable {α β : Type*} {owner : α → β} {shares : α → Prop} {l : List α} {a b : α} {i : ℕ}

/-- Any two entries have different owners, and both admit others. -/
def Shared (owner : α → β) (shares : α → Prop) (l : List α) : Prop :=
  l.Pairwise fun a b => owner a ≠ owner b ∧ shares a ∧ shares b

lemma Shared.perm {l' : List α} (h : Shared owner shares l) (hp : l.Perm l') : Shared owner shares l' := by
  refine (hp.pairwise_iff ?_).1 h
  rintro a b ⟨ho, ha, hb⟩
  exact ⟨ho.symm, hb, ha⟩

lemma Shared.add (h : Shared owner shares l) (hl : ∀ b ∈ l, owner b ≠ owner a)
    (hs : ∀ b ∈ l, owner b ≠ owner a → shares b ∧ shares a) : Shared owner shares (l ++ [a]) := by
  refine pairwise_append.2 ⟨h, pairwise_singleton _ _, fun b hb c hc => ?_⟩
  rw [mem_singleton.1 hc]
  exact ⟨hl b hb, hs b hb (hl b hb)⟩

lemma Shared.set (h : Shared owner shares l) (hi : l[i]? = some b) (ho : owner b = owner a)
    (hs : ∀ b ∈ l, owner b ≠ owner a → shares b ∧ shares a) : Shared owner shares (l.set i a) := by
  obtain ⟨hlt, rfl⟩ := List.getElem?_eq_some_iff.1 hi
  obtain ⟨hfirst, hrest⟩ := List.pairwise_cons.1 (h.perm (List.getElem_cons_eraseIdx_perm hlt).symm)
  refine Shared.perm (List.pairwise_cons.2 ⟨fun c hc => ?_, hrest⟩) (List.set_perm_cons_eraseIdx hlt a).symm
  have hne : owner c ≠ owner a := ho ▸ (hfirst c hc).1.symm
  obtain ⟨hsc, hsa⟩ := hs c (List.mem_of_mem_eraseIdx hc) hne
  exact ⟨hne.symm, hsa, hsc⟩

lemma Shared.alone (h : Shared owner shares l) (ha : a ∈ l) (hx : ¬ shares a) : l = [a] := by
  obtain ⟨xs, ys, rfl⟩ := append_of_mem ha
  obtain ⟨hfirst, -⟩ := pairwise_cons.1 (h.perm perm_middle)
  have hnil : xs ++ ys = [] := eq_nil_iff_forall_not_mem.2 fun b hb => hx (hfirst b hb).2.1
  rw [append_eq_nil_iff] at hnil
  rw [hnil.1, hnil.2, nil_append]

end Shared

/-! ### Leases -/

structure FileLease where
  lType : LockKind
  lPid : ℤ
  breakWriteRequested : Bool
  breakNotified : Bool
  /-- How many signals the holder has got since the grant. -/
  notices : ℕ
deriving DecidableEq

namespace FileLease

def conflicts (a new : FileLease) : Bool := a.lPid ≠ new.lPid && (a.lType = .write || new.lType = .write)

def breaksOnAccess (leaseType : LockKind) (writeAccess : Bool) : Bool := leaseType = .write || writeAccess

def notify (a : FileLease) (requester : ℤ) (writeAccess : Bool) : FileLease :=
  if a.lPid = requester ∨ breaksOnAccess a.lType writeAccess = false then a
  else
    { a with
      breakWriteRequested := a.breakWriteRequested || writeAccess
      breakNotified := true
      notices := if a.breakNotified then a.notices else if 0 < a.lPid then a.notices + 1 else a.notices }

end FileLease

abbrev LeaseTable := String → Option (List FileLease)

namespace LeaseTable

def leases (t : LeaseTable) (path : String) : List FileLease := (t path).getD []

def notifyFileLeaseBreak (t : LeaseTable) (path : String) (requester : ℤ) (writeAccess : Bool) : LeaseTable :=
  update t path ((t path).map fun entry => entry.map (·.notify requester writeAccess))

def retained (owner : ℤ) (entry : List FileLease) : Option (List FileLease) :=
  let rest := entry.filter fun a => a.lPid ≠ owner
  if rest = [] then none else some rest

def releaseFileLeases (t : LeaseTable) (path : String) (owner : ℤ) : LeaseTable :=
  update t path ((t path).bind (retained owner))

def releaseFileLeasesByOwner (t : LeaseTable) (owner : ℤ) : LeaseTable := fun path => (t path).bind (retained owner)

def grant (entry : List FileLease) (new : FileLease) : SyscallRet × List FileLease :=
  if entry.any (·.conflicts new) then (.error .EAGAIN, entry)
  else
    match entry.findIdx? fun a => a.lPid = new.lPid with
    | none => (.ok 0, entry ++ [new])
    | some i =>
      if entry[i]?.any fun a => a.lType = .write && a.breakWriteRequested && new.lType = .read then
        (.error .EAGAIN, entry)
      else (.ok 0, entry.set i new)

def setFileLease (t : LeaseTable) (path : String) (leaseType owner : ℤ) (fdOpenedForWrite : Bool) :
    SyscallRet × LeaseTable :=
  match lockType leaseType with
  | none => (.error .EINVAL, t)
  | some none => (.ok 0, update t path (retained owner (t.leases path)))
  | some (some kind) =>
    if kind = .read ∧ fdOpenedForWrite then (.error .EAGAIN, t)
    else
      let (result, entry) := grant (t.leases path) ⟨kind, owner, false, false, 0⟩
      (result, update t path (some entry))

end LeaseTable

structure AdvisoryLocks where
  flocks : FlockTable
  leases : LeaseTable

/-- The calls that change the tables, each under the lock of its table. -/
inductive AdvisoryEvent where
  | flock (r : FlockRequest)
  | unlock (path : String) (filePtr : ℕ)
  | register (path : String) (w : Task.Waker)
  | setLease (path : String) (leaseType owner : ℤ) (fdOpenedForWrite : Bool)
  | notify (path : String) (requester : ℤ) (writeAccess : Bool)
  | release (path : String) (owner : ℤ)
  | releaseByOwner (owner : ℤ)

namespace AdvisoryLocks

def initial : AdvisoryLocks := ⟨fun _ => none, fun _ => none⟩

def step (s : AdvisoryLocks) : AdvisoryEvent → Option AdvisoryLocks
  | .flock r => some { s with flocks := (s.flocks.flockTryLock r).2 }
  | .unlock path filePtr => some { s with flocks := (s.flocks.flockUnlock path filePtr).1 }
  | .register path w => some { s with flocks := s.flocks.flockRegisterWaker path w }
  | .setLease path leaseType owner wr => some { s with leases := (s.leases.setFileLease path leaseType owner wr).2 }
  | .notify path requester wr => some { s with leases := s.leases.notifyFileLeaseBreak path requester wr }
  | .release path owner => some { s with leases := s.leases.releaseFileLeases path owner }
  | .releaseByOwner owner => some { s with leases := s.leases.releaseFileLeasesByOwner owner }

abbrev FlockSound (l : List FlockOwner) : Prop := Shared FlockOwner.filePtr (·.lockType = .shared) l

structure LeaseSound (l : List FileLease) : Prop where
  shared : Shared FileLease.lPid (·.lType = .read) l
  notices : ∀ a ∈ l, a.notices ≤ if a.breakNotified then 1 else 0

variable {t : FlockTable}

lemma FlockSound.tryLock (h : ∀ path, FlockSound (t.locks path)) (r : FlockRequest) (path : String) :
    FlockSound ((t.flockTryLock r).2.locks path) := by
  have hlocks : ((t r.path).getD ⟨[], none⟩).locks = t.locks r.path := by
    unfold locks
    cases t r.path <;> rfl
  have hrest : FlockSound (others (t.locks r.path) r.filePtr) := (h r.path).filter _
  simp only [flockTryLock, hlocks]
  split_ifs with hc
  all_goals
    rw [FlockSystem.locks_update]
    split_ifs
  · exact hrest
  · exact h path
  · rw [Bool.not_eq_true, conflicts, any_eq_false] at hc
    refine hrest.add (fun b hb => (FlockSystem.mem_others.1 hb).2) fun b hb _ => ?_
    have hb := hc b hb
    cases hk : b.lockType <;> cases hr : r.lockType <;> simp_all
  · exact h path

lemma FlockSound.unlock (h : ∀ path, FlockSound (t.locks path)) (p : String) (filePtr : ℕ)
    (path : String) : FlockSound ((t.flockUnlock p filePtr).1.locks path) := by
  unfold flockUnlock
  split
  · exact h path
  next state hs =>
  rw [FlockSystem.locks_update]
  split_ifs
  · have hp := h p
    rw [locks, hs] at hp
    exact hp.filter _
  · exact h path

lemma locks_register (t : FlockTable) (p path : String) (w : Task.Waker) :
    (t.flockRegisterWaker p w).locks path = t.locks path := by
  unfold flockRegisterWaker
  split
  · rfl
  next state hs =>
  rw [FlockSystem.locks_update]
  split_ifs with hp
  · rw [hp, locks, hs]
    rfl
  · rfl

namespace LeaseSound

variable {t : LeaseTable} {l : List FileLease}

lemma nil : LeaseSound [] := ⟨.nil, nofun⟩

lemma retained (h : LeaseSound l) (owner : ℤ) : LeaseSound ((LeaseTable.retained owner l).getD []) := by
  have hrest : LeaseSound (l.filter fun a => a.lPid ≠ owner) :=
    ⟨h.shared.filter _, fun a ha => h.notices a (mem_of_mem_filter ha)⟩
  unfold LeaseTable.retained
  dsimp only
  split_ifs
  · exact nil
  · exact hrest

lemma bind_retained (h : LeaseSound (t.leases path)) (owner : ℤ) :
    LeaseSound (((t path).bind (LeaseTable.retained owner)).getD []) := by
  unfold LeaseTable.leases at h
  cases hp : t path with
  | none => exact nil
  | some entry =>
    rw [hp] at h
    exact h.retained owner

lemma grant (h : LeaseSound l) (kind : LockKind) (owner : ℤ) :
    LeaseSound (LeaseTable.grant l ⟨kind, owner, false, false, 0⟩).2 := by
  unfold LeaseTable.grant
  split_ifs with hc
  · exact h
  rw [Bool.not_eq_true, any_eq_false] at hc
  have hread : ∀ b ∈ l, b.lPid ≠ owner → b.lType = .read ∧ kind = .read := by
    intro b hb hne
    have hb := hc b hb
    cases hk : b.lType <;> cases kind <;> simp_all [FileLease.conflicts]
  split
  · next hnone =>
    refine ⟨h.shared.add (fun b hb => ?_) hread, fun a ha => ?_⟩
    · simpa using findIdx?_eq_none_iff.1 hnone b hb
    · rcases mem_append.1 ha with ha | ha
      · exact h.notices a ha
      · rw [mem_singleton.1 ha]
        exact Nat.zero_le _
  · next i hi =>
    split_ifs
    · exact h
    obtain ⟨hlt, hpid, -⟩ := findIdx?_eq_some_iff_getElem.1 hi
    refine ⟨h.shared.set (getElem?_eq_getElem hlt) (by simpa using hpid) hread, fun a ha => ?_⟩
    rcases mem_or_eq_of_mem_set ha with ha | rfl
    · exact h.notices a ha
    · exact Nat.zero_le _

lemma notify (h : LeaseSound l) (requester : ℤ) (wr : Bool) : LeaseSound (l.map (·.notify requester wr)) := by
  have hsame : ∀ a : FileLease, (a.notify requester wr).lPid = a.lPid ∧ (a.notify requester wr).lType = a.lType := by
    intro a
    unfold FileLease.notify
    split_ifs <;> exact ⟨rfl, rfl⟩
  refine ⟨pairwise_map.2 (h.shared.imp fun hab => ?_), fun a ha => ?_⟩
  · simpa only [hsame] using hab
  · obtain ⟨b, hb, rfl⟩ := mem_map.1 ha
    have hn := h.notices b hb
    unfold FileLease.notify
    split_ifs at hn ⊢ <;> simp_all

lemma update (h : ∀ path, LeaseSound (t.leases path)) {p : String} {entry : Option (List FileLease)}
    (he : LeaseSound (entry.getD [])) (path : String) : LeaseSound (LeaseTable.leases (update t p entry) path) := by
  rw [LeaseTable.leases, update_apply]
  split_ifs
  · exact he
  · exact h path

end LeaseSound

structure Sound (s : AdvisoryLocks) : Prop where
  flocks : ∀ path, FlockSound (s.flocks.locks path)
  leases : ∀ path, LeaseSound (s.leases.leases path)

variable {s t : AdvisoryLocks} {e : AdvisoryEvent}

lemma Sound.step (h : s.Sound) (hs : s.step e = some t) : t.Sound := by
  cases e with
  | flock r =>
    cases hs
    exact ⟨.tryLock h.flocks r, h.leases⟩
  | unlock path filePtr =>
    cases hs
    exact ⟨.unlock h.flocks path filePtr, h.leases⟩
  | register path w =>
    cases hs
    exact ⟨fun p => by rw [locks_register]; exact h.flocks p, h.leases⟩
  | setLease path leaseType owner wr =>
    cases hs
    refine ⟨h.flocks, ?_⟩
    unfold LeaseTable.setFileLease
    split
    · exact h.leases
    · exact .update h.leases ((h.leases path).retained owner)
    · split_ifs
      · exact h.leases
      · exact .update h.leases ((h.leases path).grant _ owner)
  | notify path requester wr =>
    cases hs
    refine ⟨h.flocks, .update h.leases ?_⟩
    have hp := h.leases path
    unfold LeaseTable.leases at hp
    cases hl : s.leases path with
    | none => exact .nil
    | some entry =>
      rw [hl] at hp
      exact hp.notify requester wr
  | release path owner =>
    cases hs
    exact ⟨h.flocks, .update h.leases ((h.leases path).bind_retained owner)⟩
  | releaseByOwner owner =>
    cases hs
    exact ⟨h.flocks, fun path => (h.leases path).bind_retained owner⟩

/-- Every owner has one entry for a file, an exclusive lock or a write lease is the only one, and the holder of a lease
is notified once. -/
theorem advisoryLocks_consistent (h : Reaches step (fun _ _ => True) initial s) (path : String) :
    ((s.flocks.locks path).map FlockOwner.filePtr).Nodup ∧
      (∀ a ∈ s.flocks.locks path, a.lockType = .exclusive → s.flocks.locks path = [a]) ∧
      ((s.leases.leases path).map FileLease.lPid).Nodup ∧
      (∀ a ∈ s.leases.leases path, a.lType = .write → s.leases.leases path = [a]) ∧
      ∀ a ∈ s.leases.leases path, a.notices ≤ 1 := by
  have hinit : initial.Sound := ⟨fun _ => .nil, fun _ => .nil⟩
  have hs : s.Sound := h.invariant (fun _ _ _ hs _ he => hs.step he) hinit
  refine ⟨?_, fun a ha hx => (hs.flocks path).alone ha (by simp [hx]), ?_,
    fun a ha hx => (hs.leases path).shared.alone ha (by simp [hx]), fun a ha => ?_⟩
  · exact pairwise_map.2 ((hs.flocks path).imp And.left)
  · exact pairwise_map.2 ((hs.leases path).shared.imp And.left)
  · refine ((hs.leases path).notices a ha).trans ?_
    split_ifs <;> omega

/-- Two shared locks, of which one goes and the other becomes exclusive, and a write lease broken twice. -/
def upgraded : List AdvisoryEvent :=
  [.flock ⟨"f", 10, .shared⟩, .flock ⟨"f", 11, .shared⟩, .flock ⟨"f", 11, .exclusive⟩, .unlock "f" 10,
    .flock ⟨"f", 11, .exclusive⟩, .setLease "f" 1 7 false, .notify "f" 8 true, .notify "f" 9 true]

theorem advisoryLocks_consistent_broken :
    (∃ a ∈ (run step initial upgraded).flocks.locks "f", (run step initial upgraded).flocks.locks "f" = [a]) ∧
      ((run step initial upgraded).leases.leases "f").length = 1 ∧
      ∀ a ∈ (run step initial upgraded).leases.leases "f", a.notices ≤ 1 := by
  obtain ⟨-, halone, -, -, hnotices⟩ :=
    advisoryLocks_consistent (Reaches.run (by decide : Admits step _ _ upgraded)) "f"
  exact ⟨⟨⟨.exclusive, 11⟩, mem_singleton_self _, halone _ (mem_singleton_self _) rfl⟩, rfl, hnotices⟩

end AdvisoryLocks

end Ya2yOS.Fs
