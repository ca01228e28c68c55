import Ya2yOS.Lib.Transition
import Ya2yOS.Task.BlockOn
import Ya2yOS.Utils.SysErrNo

/-!
# Locks of whole files

An attempt of `flock` first drops the lock of the open file description, whatever becomes of it; a blocking call
registers its waker after a failed attempt and does not try again before it sleeps.
-/

namespace Ya2yOS.Fs

open Function Lib
open Ya2yOS.Task (Waker Sleepers)

inductive FlockType where
  | shared
  | exclusive
deriving DecidableEq, Repr

structure FlockOwner where
  lockType : FlockType
  filePtr : ℕ
deriving DecidableEq, Repr

structure FlockInodeState where
  locks : List FlockOwner
  waker : Option Waker
deriving DecidableEq

abbrev FlockTable := String → Option FlockInodeState

structure FlockRequest where
  path : String
  filePtr : ℕ
  lockType : FlockType
deriving DecidableEq

inductive FlockCommand where
  | unlock
  | lock (lockType : FlockType) (nonblock : Bool)
deriving DecidableEq, Repr

def flockCommand (op : ℕ) : Except SysErrNo FlockCommand :=
  if 16 ≤ op then .error .EINVAL
  else if op &&& 8 ≠ 0 then .ok .unlock
  else if op &&& 3 = 1 then .ok (.lock .shared (op &&& 4 ≠ 0))
  else if op &&& 3 = 2 then .ok (.lock .exclusive (op &&& 4 ≠ 0))
  else .error .EINVAL

namespace FlockTable

def locks (table : FlockTable) (path : String) : List FlockOwner := ((table path).map FlockInodeState.locks).getD []

def slot (table : FlockTable) (path : String) : Option Waker := (table path).bind FlockInodeState.waker

def others (locks : List FlockOwner) (filePtr : ℕ) : List FlockOwner := locks.filter fun e => e.filePtr ≠ filePtr

def conflicts (locks : List FlockOwner) (lockType : FlockType) : Bool :=
  locks.any fun existing => existing.lockType = .exclusive || lockType = .exclusive

def flockTryLock (table : FlockTable) (r : FlockRequest) : Except SysErrNo Unit × FlockTable :=
  let state := (table r.path).getD ⟨[], none⟩
  let rest := others state.locks r.filePtr
  if conflicts rest r.lockType then
    (.error .EAGAIN, update table r.path (some { state with locks := rest }))
  else (.ok (), update table r.path (some { state with locks := rest ++ [⟨r.lockType, r.filePtr⟩] }))

def flockUnlock (table : FlockTable) (path : String) (filePtr : ℕ) : FlockTable × Option Waker :=
  match table path with
  | none => (table, none)
  | some state => (update table path (some ⟨others state.locks filePtr, none⟩), state.waker)

def flockRegisterWaker (table : FlockTable) (path : String) (w : Waker) : FlockTable :=
  match table path with
  | none => table
  | some state => update table path (some { state with waker := some w })

end FlockTable

inductive FlockPc where
  | outside (last : SyscallRet)
  | poll (r : FlockRequest)
  | register (r : FlockRequest)
  | park (r : FlockRequest)
deriving DecidableEq

structure FlockSystem where
  table : FlockTable
  sleepers : Sleepers
  pc : ℕ → FlockPc

inductive FlockEvent where
  | call (t : ℕ) (path : String) (filePtr : ℕ) (op : ℕ)
  | run (t : ℕ)
  | deliver (t : ℕ)
  | interrupt (t : ℕ)
  | rouse (t : ℕ)

namespace FlockSystem

open FlockTable

def initial : FlockSystem := ⟨fun _ => none, .initial, fun _ => .outside (.ok 0)⟩

def goto (s : FlockSystem) (t : ℕ) (pc : FlockPc) : FlockSystem := { s with pc := update s.pc t pc }

@[simp] lemma pc_goto (s : FlockSystem) (t : ℕ) (pc : FlockPc) : (s.goto t pc).pc t = pc := update_self _ _ _

def Free (s : FlockSystem) (t : ℕ) : Prop := s.sleepers.blocked t = false ∧ s.sleepers.deliveries t = []
deriving Decidable

def tryLock (s : FlockSystem) (t : ℕ) (r : FlockRequest) (next : Except SysErrNo Unit → FlockPc) : FlockSystem :=
  goto { s with table := (s.table.flockTryLock r).2 } t (next (s.table.flockTryLock r).1)

def answer : Except SysErrNo Unit → FlockPc
  | .ok () => .outside (.ok 0)
  | .error e => .outside (.error e)

def answerPoll (r : FlockRequest) : Except SysErrNo Unit → FlockPc
  | .error .EAGAIN => .register r
  | ret => answer ret

def advance (s : FlockSystem) (t : ℕ) : FlockPc → Option FlockSystem
  | .outside _ => none
  | .poll r => some (s.tryLock t r (answerPoll r))
  | .register r =>
    some (goto { s with table := s.table.flockRegisterWaker r.path (s.sleepers.waker t) } t (.park r))
  | .park r => some (goto { s with sleepers := s.sleepers.blockCurrentIfNotWoken t } t (.poll r))

def enter (s : FlockSystem) (t : ℕ) (path : String) (filePtr op : ℕ) : FlockSystem :=
  match flockCommand op with
  | .error e => s.goto t (.outside (.error e))
  | .ok .unlock =>
    goto { s with
      table := (s.table.flockUnlock path filePtr).1
      sleepers := s.sleepers.take t (s.table.flockUnlock path filePtr).2.toList } t (.outside (.ok 0))
  | .ok (.lock lockType true) => s.tryLock t ⟨path, filePtr, lockType⟩ answer
  | .ok (.lock lockType false) =>
    goto { s with sleepers := s.sleepers.blockOn t } t (.poll ⟨path, filePtr, lockType⟩)

def step (s : FlockSystem) : FlockEvent → Option FlockSystem
  | .call t path filePtr op =>
    match s.pc t with
    | .outside _ => if s.Free t then some (s.enter t path filePtr op) else none
    | _ => none
  | .run t => if s.Free t then s.advance t (s.pc t) else none
  | .deliver t => (s.sleepers.deliver t).map fun sleepers => { s with sleepers := sleepers }
  | .interrupt t =>
    match s.pc t with
    | .poll _ => if s.Free t then some (s.goto t (.outside (.error .EINTR))) else none
    | _ => none
  | .rouse t => some { s with sleepers := s.sleepers.rouse t }

def waiting (s : FlockSystem) (t : ℕ) : Option FlockRequest :=
  match s.pc t with
  | .outside _ => none
  | .poll r => if s.sleepers.blocked t then some r else none
  | .register r => some r
  | .park r => some r

def Conflicts (s : FlockSystem) (r : FlockRequest) : Prop :=
  conflicts (others (s.table.locks r.path) r.filePtr) r.lockType = true

def Quiet (s : FlockSystem) : Prop :=
  ∀ t, s.sleepers.deliveries t = [] ∧
    ((∃ last, s.pc t = .outside last) ∨
      (∃ r, s.pc t = .poll r) ∧ s.sleepers.blocked t = true ∧ s.sleepers.woke t = false)

/-- An attempt on the file drops no lock that a waiting task could wait for. -/
def NoConversion (s : FlockSystem) (path : String) (filePtr : ℕ) : Prop :=
  (∀ e ∈ s.table.locks path, e.filePtr ≠ filePtr) ∨ ∀ u r, s.waiting u = some r → r.path ≠ path

/-- No attempt drops a lock on a file that another task waits for, and no task unlocks a file while another stands
between its attempt and its registration there. -/
def Gentle (s : FlockSystem) : FlockEvent → Prop
  | .call _ path filePtr op =>
    match flockCommand op with
    | .error _ => True
    | .ok .unlock => ∀ u r, s.pc u = .register r → r.path ≠ path
    | .ok (.lock _ true) => s.NoConversion path filePtr
    | .ok (.lock _ false) => True
  | .run t =>
    match s.pc t with
    | .poll r => s.NoConversion r.path r.filePtr
    | _ => True
  | _ => True

/-- A task before its registration, or with its waker at the file, is alerted or meets a lock. -/
def Heard (s : FlockSystem) (t : ℕ) : Prop :=
  ∀ r, s.waiting t = some r → s.pc t = .register r ∨ s.table.slot r.path = some (s.sleepers.waker t) →
    s.sleepers.Alerted t ∨ s.Conflicts r

variable {s s' : FlockSystem} {t u : ℕ} {e : FlockEvent} {path path' : String} {filePtr : ℕ} {r : FlockRequest}
  {l : List FlockOwner} {state : FlockInodeState} {table : FlockTable}

lemma waiting_congr (hpc : s'.pc t = s.pc t) (hb : s'.sleepers.blocked t = true → s.sleepers.blocked t = true)
    (h : s'.waiting t = some r) : s.waiting t = some r := by
  unfold waiting at *
  grind

lemma heard_of_not_waiting (h : s.waiting t = none) : s.Heard t := by
  intro r hr
  rw [h] at hr
  cases hr

lemma conflicts_mono {l' : List FlockOwner} {kind : FlockType} (h : ∀ e ∈ l, e ∈ l')
    (hc : conflicts (others l filePtr) kind = true) : conflicts (others l' filePtr) kind = true := by
  unfold conflicts others at *
  rw [List.any_eq_true] at *
  obtain ⟨e, he, hk⟩ := hc
  rw [List.mem_filter] at he
  exact ⟨e, List.mem_filter.2 ⟨h e he.1, he.2⟩, hk⟩

@[grind =]
lemma mem_others {e : FlockOwner} : e ∈ others l filePtr ↔ e ∈ l ∧ e.filePtr ≠ filePtr := by
  simp [others]

lemma others_eq_self (h : ∀ e ∈ l, e.filePtr ≠ filePtr) : others l filePtr = l := by
  unfold others
  rw [List.filter_eq_self]
  intro e he
  simpa using h e he

@[grind =]
lemma locks_update :
    FlockTable.locks (update table path (some state)) path' =
      if path' = path then state.locks else table.locks path' := by
  unfold locks
  rw [update_apply]
  split_ifs <;> rfl

@[grind =]
lemma slot_update :
    FlockTable.slot (update table path (some state)) path' =
      if path' = path then state.waker else table.slot path' := by
  unfold slot
  rw [update_apply]
  split_ifs <;> rfl

lemma getD_state (table : FlockTable) (path : String) :
    ((table path).getD ⟨[], none⟩).locks = table.locks path ∧
      ((table path).getD ⟨[], none⟩).waker = table.slot path := by
  unfold locks slot
  cases table path <;> exact ⟨rfl, rfl⟩

@[grind =]
lemma slot_flockTryLock (table : FlockTable) (r : FlockRequest) (path : String) :
    (table.flockTryLock r).2.slot path = table.slot path := by
  have hstate := getD_state table r.path
  grind [flockTryLock]

lemma locks_flockTryLock (table : FlockTable) (r : FlockRequest) (path : String) :
    (path ≠ r.path → (table.flockTryLock r).2.locks path = table.locks path) ∧
      ((∀ e ∈ table.locks r.path, e.filePtr ≠ r.filePtr) →
        ∀ e ∈ table.locks r.path, e ∈ (table.flockTryLock r).2.locks r.path) := by
  have hstate := getD_state table r.path
  grind [flockTryLock]

lemma conflicts_of_flockTryLock {e : SysErrNo} (h : (table.flockTryLock r).1 = .error e) :
    conflicts (others ((table.flockTryLock r).2.locks r.path) r.filePtr) r.lockType = true := by
  have hothers : others (others ((table r.path).getD ⟨[], none⟩).locks r.filePtr) r.filePtr = _ :=
    others_eq_self fun e he => (mem_others.1 he).2
  grind [flockTryLock]

lemma flockUnlock_cases (table : FlockTable) (path : String) (filePtr : ℕ) (path' : String) :
    (table.flockUnlock path filePtr).1.slot path' = table.slot path' ∧
        (table.flockUnlock path filePtr).1.locks path' = table.locks path' ∨
      path' = path ∧ (table.flockUnlock path filePtr).1.slot path' = none := by
  grind [flockUnlock]

lemma locks_flockRegisterWaker (table : FlockTable) (path : String) (w : Waker) (path' : String) :
    (table.flockRegisterWaker path w).locks path' = table.locks path' := by
  grind [flockRegisterWaker, locks]

lemma slot_flockRegisterWaker (table : FlockTable) (path : String) (w : Waker) (path' : String) :
    (table.flockRegisterWaker path w).slot path' = table.slot path' ∨
      (table.flockRegisterWaker path w).slot path' = some w := by
  grind [flockRegisterWaker]

/-! ### Steps -/

/-- What keeps a task heard through a step of another one. -/
structure Keeps (s s' : FlockSystem) (t : ℕ) : Prop where
  pc : s'.pc t = s.pc t
  blocked : s'.sleepers.blocked t = true → s.sleepers.blocked t = true
  alerted : s.sleepers.Alerted t → s'.sleepers.Alerted t
  waker : s'.sleepers.waker t = s.sleepers.waker t
  slot : ∀ path, s'.table.slot path = some (s.sleepers.waker t) → s.table.slot path = some (s.sleepers.waker t)
  conflicts : ∀ r, s.waiting t = some r →
    s.pc t = .register r ∨ s'.table.slot r.path = some (s.sleepers.waker t) → s.Conflicts r → s'.Conflicts r

lemma Heard.keeps (h : s.Heard t) (hk : Keeps s s' t) : s'.Heard t := by
  intro r hr hreg
  have hr' := waiting_congr hk.pc hk.blocked hr
  rw [hk.pc, hk.waker] at hreg
  rcases h r hr' (hreg.imp_right (hk.slot r.path)) with ha | hc
  · exact .inl (hk.alerted ha)
  · exact .inr (hk.conflicts r hr' hreg hc)

lemma keeps_goto {pc : FlockPc} (ht : t ≠ u) : Keeps s (s.goto u pc) t :=
  ⟨update_of_ne ht _ _, id, id, rfl, fun _ => id, fun _ _ _ => id⟩

lemma keeps_rouses {sleepers : Sleepers} (h : s.sleepers.Rouses sleepers) : Keeps s { s with sleepers := sleepers } t :=
  ⟨rfl, h.blocked t, h.alerted t, h.waker t, fun _ => id, fun _ _ _ => id⟩

lemma keeps_tryLock {next : Except SysErrNo Unit → FlockPc} (hg : s.NoConversion r.path r.filePtr) (ht : t ≠ u) :
    Keeps s (s.tryLock u r next) t := by
  refine ⟨update_of_ne ht _ _, id, id, rfl, fun path => ?_, fun r' hr' _ hc => ?_⟩
  · intro h
    exact (slot_flockTryLock s.table r path).symm.trans h
  have hlocks := locks_flockTryLock s.table r r'.path
  refine conflicts_mono (fun e he => ?_) hc
  by_cases hp : r'.path = r.path
  · rcases hg with hown | hnone
    · exact hp ▸ hlocks.2 hown e (hp ▸ he)
    · exact absurd hp (hnone t r' hr')
  · exact (hlocks.1 hp).symm ▸ he

lemma answer_outside (ret : Except SysErrNo Unit) : ∃ last, answer ret = .outside last := by
  cases ret <;> exact ⟨_, rfl⟩

lemma heard_poll : (s.tryLock u r (answerPoll r)).Heard u := by
  intro r' hr' _
  unfold waiting tryLock at hr'
  rw [pc_goto] at hr'
  cases hret : (s.table.flockTryLock r).1 with
  | ok _ => simp [hret, answerPoll, answer] at hr'
  | error e =>
    obtain rfl : r' = r := by grind [answerPoll, answer]
    exact .inr (conflicts_of_flockTryLock hret)

lemma Heard.leave (hs : s.Heard t) (hself : s'.waiting u = none) (hother : t ≠ u → Keeps s s' t) : s'.Heard t := by
  by_cases ht : t = u
  · exact heard_of_not_waiting (ht ▸ hself)
  · exact hs.keeps (hother ht)

lemma heard_enter (hs : ∀ t, s.Heard t) (hfree : s.Free u) {op : ℕ}
    (hg : s.Gentle (.call u path filePtr op)) (t : ℕ) : (s.enter u path filePtr op).Heard t := by
  simp only [Gentle] at hg
  unfold enter
  cases hcommand : flockCommand op with
  | error e => exact (hs t).leave (by rw [waiting, pc_goto]) keeps_goto
  | ok command =>
    rw [hcommand] at hg
    cases command with
    | unlock =>
      refine (hs t).leave (by rw [waiting, pc_goto]) fun ht => ?_
      have htake := Sleepers.take_rouses s.sleepers u (s.table.flockUnlock path filePtr).2.toList
      refine ⟨update_of_ne ht _ _, htake.blocked t, htake.alerted t, htake.waker t, fun path' h => ?_,
        fun r hr hreg hc => ?_⟩
      · rcases flockUnlock_cases s.table path filePtr path' with ⟨hslot, -⟩ | ⟨-, hnone⟩
        · exact hslot.symm.trans h
        · cases hnone.symm.trans h
      -- a task that waits for this file has lost its place in the slot
      rcases flockUnlock_cases s.table path filePtr r.path with ⟨-, hlocks⟩ | ⟨hp, hnone⟩
      · exact conflicts_mono (fun e he => hlocks.symm ▸ he) hc
      · rcases hreg with hreg | hslot
        · exact absurd hp (hg t r hreg)
        · cases hnone.symm.trans hslot
    | lock kind nonblock =>
      cases nonblock with
      | true =>
        refine (hs t).leave ?_ (keeps_tryLock hg)
        obtain ⟨last, hlast⟩ := answer_outside (s.table.flockTryLock ⟨path, filePtr, kind⟩).1
        unfold waiting tryLock
        rw [pc_goto, hlast]
      | false =>
        refine (hs t).leave (u := u) ?_ fun ht => ?_
        · rw [waiting, pc_goto]
          exact if_neg (Bool.eq_false_iff.1 hfree.1)
        · exact ⟨update_of_ne ht _ _, id, (Sleepers.alerted_blockOn ht).2, Sleepers.waker_blockOn ht,
            fun _ => id, fun _ _ _ => id⟩

lemma heard_advance (hs : ∀ t, s.Heard t) (hfree : s.Free u) (hg : s.Gentle (.run u))
    (h : s.advance u (s.pc u) = some s') (t : ℕ) : s'.Heard t := by
  simp only [Gentle] at hg
  cases hpc : s.pc u with
  | outside last =>
    rw [hpc] at h
    cases h
  | poll r =>
    rw [hpc] at h hg
    cases h
    by_cases ht : t = u
    · subst ht
      exact heard_poll
    · exact (hs t).keeps (keeps_tryLock hg ht)
  | register r =>
    rw [hpc] at h
    cases h
    have hconflicts : ∀ r', s.Conflicts r' →
        Conflicts (goto { s with table := s.table.flockRegisterWaker r.path (s.sleepers.waker u) } u (.park r)) r' := by
      intro r' hc
      apply conflicts_mono _ hc
      intro e he
      exact (locks_flockRegisterWaker s.table r.path (s.sleepers.waker u) r'.path).symm ▸ he
    by_cases ht : t = u
    · subst ht
      intro r' hr' _
      rw [waiting, pc_goto] at hr'
      cases hr'
      exact (hs t r (by rw [waiting, hpc]) (.inl hpc)).imp_right (hconflicts r)
    · apply (hs t).keeps
      refine ⟨update_of_ne ht _ _, id, id, rfl, fun path hslot => ?_, fun r' _ _ hc => hconflicts r' hc⟩
      rcases slot_flockRegisterWaker s.table r.path (s.sleepers.waker u) path with hsame | hnew
      · exact hsame.symm.trans hslot
      · have hw := Option.some.inj (hslot.symm.trans hnew)
        exact absurd (congrArg Waker.task hw) ht
  | park r =>
    rw [hpc] at h
    cases h
    by_cases ht : t = u
    · subst ht
      intro r' hr' hreg
      rw [waiting, pc_goto] at hr'
      split_ifs at hr' with hb
      cases hr'
      rcases hreg with hreg | hslot
      · cases (pc_goto _ _ _).symm.trans hreg
      · have hslot' : s.table.slot r.path = some (s.sleepers.waker t) :=
          hslot.trans (congrArg some (Sleepers.waker_blockCurrentIfNotWoken _ _ _))
        exact (hs t r (by rw [waiting, hpc]) (.inr hslot')).imp_left (Sleepers.alerted_of_blocked hfree.1 hb)
    · apply (hs t).keeps
      refine ⟨update_of_ne ht _ _, fun hb => ?_, (Sleepers.alerted_blockCurrentIfNotWoken ht).2,
        Sleepers.waker_blockCurrentIfNotWoken _ _ _, fun _ => id, fun _ _ _ => id⟩
      exact (Sleepers.blocked_blockCurrentIfNotWoken ht).symm.trans hb

lemma heard_step (hs : ∀ t, s.Heard t) (hg : s.Gentle e) (h : s.step e = some s') (t : ℕ) : s'.Heard t := by
  cases e with
  | call u path filePtr op =>
    simp only [step] at h
    split at h
    · split_ifs at h with hfree
      cases h
      exact heard_enter hs hfree hg t
    · cases h
  | run u =>
    simp only [step] at h
    split_ifs at h with hfree
    exact heard_advance hs hfree hg h t
  | deliver u =>
    obtain ⟨sleepers, hd, rfl⟩ := Option.map_eq_some_iff.1 h
    exact (hs t).keeps (keeps_rouses (Sleepers.deliver_rouses hd))
  | interrupt u =>
    simp only [step] at h
    split at h
    · split_ifs at h
      cases h
      exact (hs t).leave (by rw [waiting, pc_goto]) keeps_goto
    · cases h
  | rouse u =>
    cases h
    exact (hs t).keeps (keeps_rouses (Sleepers.rouse_rouses _ _))

lemma heard_of_reaches (h : Reaches step Gentle initial s) (t : ℕ) : s.Heard t := by
  have hs : ∀ t, s.Heard t := h.invariant (fun _ _ _ hs hg he => heard_step hs hg he) fun _ => heard_of_not_waiting rfl
  exact hs t

lemma Quiet.not_alerted (h : s.Quiet) (hpc : s.pc t = .poll r) : ¬s.sleepers.Alerted t := by
  rintro (hwoke | ⟨v, hv⟩)
  · rcases (h t).2 with ⟨last, ho⟩ | ⟨-, -, hno⟩
    · cases hpc.symm.trans ho
    · rw [hno] at hwoke
      cases hwoke
  · rw [(h v).1] at hv
    exact List.not_mem_nil hv

end FlockSystem

end Ya2yOS.Fs
