import Mathlib.Algebra.Ring.BooleanRing
import Mathlib.Data.List.Basic
import Ya2yOS.Lib.OrdMap
import Ya2yOS.Lib.Transition
import Ya2yOS.Task.BlockOn

/-!
# The task read-write lock of the file system

The lock of one `lwext4` resource: holders with recursion depths, and a queue of requests with tickets. Every operation
changes the state under a spin lock and wakes the requests that could go on after that.
-/

-- `grind` would try ring arithmetic on every `Bool`
attribute [-instance] instBooleanRingBool

namespace Ya2yOS.Fs

open Function Lib List Option
open Ya2yOS.Task (Waker)

inductive TaskRwLockMode where
  | read
  | write
deriving DecidableEq, Repr

structure TaskRwLockWaiter where
  ticket : ℕ
  tid : ℕ
  mode : TaskRwLockMode
  waker : Waker
deriving DecidableEq, Repr

structure TaskRwLockState where
  /-- The recursion depth of each task that holds the lock for reading. -/
  readers : OrdMap ℕ ℕ
  writer : Option ℕ
  writerDepth : ℕ
  nextTicket : ℕ
  waiters : List TaskRwLockWaiter

def depthMax : ℕ := 2 ^ 64 - 1

namespace TaskRwLockState

variable {s s' : TaskRwLockState} {t u : ℕ} {m k : TaskRwLockMode}

def new : TaskRwLockState := ⟨.empty, none, 0, 1, []⟩

/-- What the lock without a writer needs for a request: none but writers look at the readers. -/
def compatible (s : TaskRwLockState) : TaskRwLockMode → Bool
  | .read => true
  | .write => s.readers.entries.isEmpty

def canAcquire (s : TaskRwLockState) (tid : ℕ) (mode : TaskRwLockMode) (ticket : Option ℕ) : Bool :=
  match s.writer with
  | some owner => ticket.isNone && decide (owner = tid)
  | none =>
    match ticket with
    | none =>
      if mode = .read ∧ (s.readers.get? tid).getD 0 ≠ 0 then true
      else if s.waiters ≠ [] then false
      else s.compatible mode
    | some ticket =>
      match s.waiters with
      | [] => false
      | waiter :: _ => if waiter.ticket ≠ ticket ∨ waiter.mode ≠ mode then false else s.compatible mode

def wakeLoop (s : TaskRwLockState) : List TaskRwLockWaiter → List Waker
  | [] => []
  | waiter :: waiters =>
    match waiter.mode with
    | .read => waiter.waker :: s.wakeLoop waiters
    | .write => if s.readers.entries.isEmpty then [waiter.waker] else []

def wakeWaiters (s : TaskRwLockState) : List Waker :=
  if s.writer.isSome then [] else s.wakeLoop s.waiters

def acquire (s : TaskRwLockState) (tid : ℕ) : TaskRwLockMode → TaskRwLockState
  | .read =>
    match s.readers.get? tid with
    | some depth => { s with readers := s.readers.insert tid (min (depth + 1) depthMax) }
    | none => { s with readers := s.readers.insert tid 1 }
  | .write =>
    if s.writer = some tid then { s with writerDepth := min (s.writerDepth + 1) depthMax }
    else { s with writer := some tid, writerDepth := 1 }

def tryLock (s : TaskRwLockState) (tid : ℕ) (mode : TaskRwLockMode) (ticket : Option ℕ) :
    Option TaskRwLockState :=
  if s.canAcquire tid mode ticket then
    some ((if ticket.isSome then { s with waiters := s.waiters.tail } else s).acquire tid mode)
  else none

/-- `unlock`; nothing where the source panics. -/
def unlock (s : TaskRwLockState) (tid : ℕ) : TaskRwLockMode → Option TaskRwLockState
  | .read =>
    match s.readers.get? tid with
    | none => none
    | some depth =>
      if depth - 1 = 0 then some { s with readers := s.readers.erase tid }
      else some { s with readers := s.readers.insert tid (depth - 1) }
  | .write =>
    if s.writer = some tid then
      if s.writerDepth - 1 = 0 then some { s with writer := none, writerDepth := 0 }
      else some { s with writerDepth := s.writerDepth - 1 }
    else none

def cancelTicket (s : TaskRwLockState) (ticket : ℕ) : TaskRwLockState :=
  { s with waiters := s.waiters.eraseP (·.ticket = ticket) }

def cancelTid (s : TaskRwLockState) (tid : ℕ) : TaskRwLockState :=
  let s := { s with waiters := s.waiters.filter (·.tid ≠ tid), readers := s.readers.erase tid }
  if s.writer = some tid then { s with writer := none, writerDepth := 0 } else s

def setWaker (ticket : ℕ) (waker : Waker) : List TaskRwLockWaiter → List TaskRwLockWaiter
  | [] => []
  | waiter :: waiters =>
    if waiter.ticket = ticket then { waiter with waker } :: waiters else waiter :: setWaker ticket waker waiters

def enqueue (s : TaskRwLockState) (tid : ℕ) (mode : TaskRwLockMode) (waker : Waker) : TaskRwLockState :=
  { s with
    nextTicket := max ((s.nextTicket + 1) % 2 ^ 64) 1
    waiters := s.waiters ++ [⟨s.nextTicket, tid, mode, waker⟩] }

def depth (s : TaskRwLockState) (tid : ℕ) : TaskRwLockMode → ℕ
  | .read => (s.readers.get? tid).getD 0
  | .write => if s.writer = some tid then s.writerDepth else 0

/-- No holder has depth zero, and beside a writer nobody else reads. -/
structure Counted (s : TaskRwLockState) : Prop where
  readers : ∀ {t d}, s.readers.get? t = some d → 0 < d
  writer : ∀ {t}, s.writer = some t → 0 < s.writerDepth
  sole : ∀ {t u d}, s.writer = some t → s.readers.get? u = some d → u = t

/-- A change of the holders: the depths of one task become `g`. -/
structure Recounts (s s' : TaskRwLockState) (t : ℕ) (g : TaskRwLockMode → ℕ) : Prop where
  counted : s'.Counted
  depth : ∀ u m, s'.depth u m = if u = t then g m else s.depth u m
  nextTicket : s'.nextTicket = s.nextTicket

attribute [grind →] Counted.readers Counted.writer Counted.sole
attribute [grind =] OrdMap.get?_insert OrdMap.get?_erase

lemma get?_of_compatible (h : s.compatible m = true) (hm : m = .write) (u : ℕ) : s.readers.get? u = none := by
  subst hm
  rw [OrdMap.get?, isEmpty_iff.1 h, find?_nil, map_none]

variable {i : ℕ} {ticket : Option ℕ}

/-- Who can acquire the lock: its writer once more, without a ticket, or with no writer the first of the queue
or somebody who has no ticket; a writer beside no reader. -/
lemma canAcquire_spec (h : s.canAcquire t m ticket = true) :
    s.writer = some t ∧ ticket = none ∨ s.writer = none ∧ (m = .write → ∀ u, s.readers.get? u = none) ∧
      ∀ i ∈ ticket, ∃ w ∈ s.waiters.head?, w.ticket = i ∧ w.mode = m := by
  have hcompat := get?_of_compatible (s := s) (m := m)
  unfold canAcquire at h
  cases hw : s.writer with
  | some owner =>
    simp only [hw, Bool.and_eq_true, isNone_iff_eq_none, decide_eq_true_eq] at h
    exact .inl ⟨congrArg some h.2, h.1⟩
  | none =>
    refine .inr ⟨rfl, ?_⟩
    cases ticket <;> cases hq : s.waiters <;> grind

lemma acquire_recounts (hc : s.Counted)
    (h : s.writer = some t ∨ s.writer = none ∧ (m = .write → ∀ u, s.readers.get? u = none))
    (hmax : s.depth t m < depthMax) : s.Recounts (s.acquire t m) t (update (s.depth t) m (s.depth t m + 1)) := by
  have hg : ∀ k, update (s.depth t) m (s.depth t m + 1) k =
      if k = m then s.depth t m + 1 else s.depth t k := update_apply _ _ _
  refine ⟨?counted, ?depth, by cases m <;> grind [acquire]⟩
  case counted => cases m <;> constructor <;> grind [acquire]
  case depth =>
    intro u k
    cases m <;> cases k <;> grind [acquire, depth]

lemma tryLock_spec (hc : s.Counted) (h : s.tryLock t m ticket = some s') (hmax : s.depth t m < depthMax) :
    s.Recounts s' t (update (s.depth t) m (s.depth t m + 1)) ∧
      s'.waiters = (if ticket.isSome then s.waiters.tail else s.waiters) ∧
      ∀ i ∈ ticket, ∃ w ∈ s.waiters.head?, w.ticket = i ∧ w.mode = m := by
  unfold tryLock at h
  split_ifs at h with hacq htk
  all_goals
    injection h with h
    subst h
    have hspec := canAcquire_spec hacq
    have hwaiters : ∀ l : TaskRwLockState, (l.acquire t m).waiters = l.waiters := by
      intro l
      cases m <;> grind [acquire]
  · obtain ⟨i, rfl⟩ := isSome_iff_exists.1 htk
    obtain ⟨-, habs⟩ | ⟨hw, hr, hhead⟩ := hspec
    · cases habs
    have hrec := acquire_recounts (s := { s with waiters := s.waiters.tail })
      ⟨hc.readers, hc.writer, hc.sole⟩ (.inr ⟨hw, hr⟩) (by cases m <;> exact hmax)
    exact ⟨by cases m <;> exact ⟨hrec.counted, hrec.depth, hrec.nextTicket⟩, by simp [hwaiters], hhead⟩
  · exact ⟨acquire_recounts hc (by grind) hmax, by simp [hwaiters, htk], by grind⟩

lemma unlock_recounts (hc : s.Counted) (h : s.unlock t m = some s') :
    0 < s.depth t m ∧ s'.waiters = s.waiters ∧ s.Recounts s' t (update (s.depth t) m (s.depth t m - 1)) := by
  have hg : ∀ k, update (s.depth t) m (s.depth t m - 1) k =
      if k = m then s.depth t m - 1 else s.depth t k := update_apply _ _ _
  refine ⟨by cases m <;> grind [unlock, depth], by cases m <;> grind [unlock], ?counted, ?depth, ?nextTicket⟩
  case counted => cases m <;> constructor <;> grind [unlock]
  case depth =>
    intro u k
    cases m <;> cases k <;> grind [unlock, depth]
  case nextTicket => cases m <;> grind [unlock]

lemma cancelTid_recounts (hc : s.Counted) : s.Recounts (s.cancelTid t) t (fun _ => 0) := by
  refine ⟨?counted, ?depth, by grind [cancelTid]⟩
  case counted => constructor <;> grind [cancelTid]
  case depth =>
    intro u k
    cases k <;> grind [cancelTid, depth]

lemma cancelTid_waiters : (s.cancelTid t).waiters = s.waiters.filter (·.tid ≠ t) := by
  by_cases h : s.writer = some t <;> simp [cancelTid, h]

lemma Counted.recounts_waiters (hc : s.Counted) (ws : List TaskRwLockWaiter) :
    s.Recounts { s with waiters := ws } t (s.depth t) := by
  refine ⟨⟨hc.readers, hc.writer, hc.sole⟩, fun u k => ?_, rfl⟩
  have hsame : TaskRwLockState.depth { s with waiters := ws } u k = s.depth u k := by cases k <;> rfl
  grind

variable {w : TaskRwLockWaiter} {waker : Waker} {ws : List TaskRwLockWaiter}

lemma ticket_ne_of_mem_eraseP
    (hws : ws.Pairwise (·.ticket < ·.ticket)) (hw : w ∈ ws.eraseP (·.ticket = i)) : w.ticket ≠ i := by
  induction ws with
  | nil => cases hw
  | cons v vs ih =>
    have hlater := pairwise_cons.1 hws
    grind

lemma waker_mem_wakeWaiters (hw : w ∈ s.waiters.head?)
    (h : s.canAcquire w.tid w.mode (some w.ticket) = true) : w.waker ∈ s.wakeWaiters := by
  obtain ⟨ws, hq⟩ := head?_eq_some_iff.1 hw
  cases hm : w.mode <;> grind [canAcquire, wakeWaiters, wakeLoop, compatible]

/-- A request that joins an empty queue failed for a reason that also holds against the first of the queue. -/
lemma head?_enqueue (h : s.canAcquire t m none = false) (hw : w ∈ (s.enqueue t m waker).waiters.head?)
    (hyes : (s.enqueue t m waker).canAcquire w.tid w.mode (some w.ticket) = true) :
    w ∈ s.waiters.head? ∧ s.canAcquire w.tid w.mode (some w.ticket) = true := by
  have hcompat : ∀ k, (s.enqueue t m waker).compatible k = s.compatible k := by rintro (_ | _) <;> rfl
  cases hq : s.waiters with
  | nil => cases hwr : s.writer <;> grind [canAcquire, enqueue]
  | cons v vs => cases hwr : s.writer <;> simp_all [canAcquire, enqueue]

lemma setWaker_eq_self (h : ∀ w ∈ ws, w.ticket = i → w.waker = waker) : setWaker i waker ws = ws := by
  induction ws with
  | nil => rfl
  | cons w ws ih =>
    rw [setWaker, ih fun v hv => h v (mem_cons_of_mem w hv)]
    split_ifs with hw
    · rw [← h w mem_cons_self hw]
    · rfl

end TaskRwLockState

/-! ### Tasks at the lock -/

inductive LockPc where
  | idle
  | waiting (mode : TaskRwLockMode) (ticket : Option ℕ)
deriving DecidableEq, Repr

structure LockSystem where
  lock : TaskRwLockState
  pc : ℕ → LockPc
  call : ℕ → ℕ
  /-- The waker of the call was woken since the last poll returned `Pending`. -/
  woken : ℕ → Bool
  /-- The wakers that a task took under the spin lock and has still to wake. -/
  wakers : ℕ → List Waker
  guards : ℕ → TaskRwLockMode → ℕ
  granted : List ℕ

inductive LockEvent where
  | lock (t : ℕ) (mode : TaskRwLockMode)
  | poll (t : ℕ)
  | unlock (t : ℕ) (mode : TaskRwLockMode)
  | drop (t : ℕ)
  | cancelTid (t : ℕ)
  | wake (t : ℕ)
deriving DecidableEq, Repr

def LockEvent.task : LockEvent → ℕ
  | .lock t _ | .poll t | .unlock t _ | .drop t | .cancelTid t | .wake t => t

namespace LockSystem

open TaskRwLockState

variable {s s' : LockSystem} {t : ℕ} {lock : TaskRwLockState} {g : TaskRwLockMode → ℕ} {ks : List ℕ}

def initial : LockSystem :=
  ⟨.new, fun _ => .idle, fun _ => 0, fun _ => false, fun _ => [], fun _ _ => 0, []⟩

def finish (s : LockSystem) (t : ℕ) (lock : TaskRwLockState) (g : TaskRwLockMode → ℕ) (ks : List ℕ) : LockSystem :=
  { s with
    lock
    pc := update s.pc t .idle
    wakers := update s.wakers t lock.wakeWaiters
    guards := update s.guards t g
    granted := s.granted ++ ks }

def acquired (s : LockSystem) (t : ℕ) (mode : TaskRwLockMode) : TaskRwLockMode → ℕ :=
  update (s.guards t) mode (s.guards t mode + 1)

def waker (s : LockSystem) (t : ℕ) : Waker := ⟨t, s.call t⟩

def pending (s : LockSystem) (t : ℕ) (mode : TaskRwLockMode) : Option ℕ → LockSystem
  | some ticket =>
    { s with
      lock := { s.lock with waiters := setWaker ticket (s.waker t) s.lock.waiters }
      woken := update s.woken t false }
  | none =>
    { s with
      lock := s.lock.enqueue t mode (s.waker t)
      pc := update s.pc t (.waiting mode (some s.lock.nextTicket))
      woken := update s.woken t false }

def act (s : LockSystem) : LockEvent → Option LockSystem
  | .lock t mode =>
    if s.pc t = .idle then
      match s.lock.tryLock t mode none with
      | some lock => some (s.finish t lock (s.acquired t mode) [])
      | none =>
        some { s with pc := update s.pc t (.waiting mode none)
                      call := update s.call t (s.call t + 1) }
    else none
  | .poll t =>
    match s.pc t with
    | .idle => none
    | .waiting mode ticket =>
      match s.lock.tryLock t mode ticket with
      | some lock => some (s.finish t lock (s.acquired t mode) ticket.toList)
      | none => some (s.pending t mode ticket)
  | .unlock t mode =>
    if s.pc t = .idle then
      (s.lock.unlock t mode).map fun lock =>
        s.finish t lock (update (s.guards t) mode (s.guards t mode - 1)) []
    else none
  | .drop t =>
    match s.pc t with
    | .idle => none
    | .waiting _ none => some { s with pc := update s.pc t .idle }
    | .waiting _ (some ticket) =>
      if ∃ w ∈ s.lock.waiters, w.ticket = ticket then
        some (s.finish t (s.lock.cancelTicket ticket) (s.guards t) [])
      else some { s with pc := update s.pc t .idle }
  | .cancelTid t => some (s.finish t (s.lock.cancelTid t) (fun _ => 0) [])
  | .wake _ => none

def step (s : LockSystem) (e : LockEvent) : Option LockSystem :=
  match s.wakers e.task with
  | [] => s.act e
  | w :: ws =>
    if e = .wake e.task then
      some { s with wakers := update s.wakers e.task ws
                    woken := if s.call w.task = w.call then update s.woken w.task true else s.woken }
    else none

/-- The first request of the queue, where it could be granted. -/
def Grantable (s : LockSystem) (w : TaskRwLockWaiter) : Prop :=
  w ∈ s.lock.waiters.head? ∧ s.lock.canAcquire w.tid w.mode (some w.ticket) = true
deriving Decidable

/-- The task of a request has been woken since its last poll, or somebody is about to wake it. -/
def Alerted (s : LockSystem) (w : TaskRwLockWaiter) : Prop :=
  s.woken w.tid = true ∨ ∃ t, s.waker w.tid ∈ s.wakers t

structure Sound (s : LockSystem) : Prop where
  counted : s.lock.Counted
  held : ∀ t m, s.lock.depth t m = s.guards t m
  queue : s.lock.waiters.Pairwise (·.ticket < ·.ticket)
  issued : ∀ {t m k}, s.pc t = .waiting m (some k) → k < s.lock.nextTicket
  own : ∀ {t u m n k}, s.pc t = .waiting m (some k) → s.pc u = .waiting n (some k) → t = u
  waits : ∀ {w}, w ∈ s.lock.waiters → s.pc w.tid = .waiting w.mode (some w.ticket)
  waker : ∀ {w}, w ∈ s.lock.waiters → w.waker = s.waker w.tid
  order : s.granted.Pairwise (· < ·)
  passed : ∀ {k}, k ∈ s.granted → k < s.lock.nextTicket
  ahead : ∀ {k w}, k ∈ s.granted → w ∈ s.lock.waiters → k < w.ticket
  alert : ∀ {w}, s.Grantable w → s.Alerted w

attribute [grind →] Sound.counted Sound.issued Sound.own Sound.waits Sound.waker Sound.passed Sound.ahead Sound.alert
attribute [grind] finish Alerted Grantable LockSystem.waker

variable {m : TaskRwLockMode} {e : LockEvent} {w : TaskRwLockWaiter}

lemma finish_pc {u : ℕ} (h : (s.finish t lock g ks).pc u = .waiting m (some i)) : s.pc u = .waiting m (some i) := by
  have hpc : (s.finish t lock g ks).pc u = if u = t then .idle else s.pc u := update_apply _ _ _ _
  grind

/-- Every change of the holders or of the queue ends with the wakers of those who can go on. -/
lemma Sound.finish (h : s.Sound) (hr : s.lock.Recounts lock t g)
    (hsub : lock.waiters.Sublist s.lock.waiters) (hgone : ∀ w ∈ lock.waiters, w.tid ≠ t)
    (hks : (s.granted ++ ks).Pairwise (· < ·))
    (hahead : ∀ k ∈ ks, k < s.lock.nextTicket ∧ ∀ w ∈ lock.waiters, k < w.ticket) :
    (s.finish t lock g ks).Sound where
  counted := hr.counted
  held u m := by
    refine (hr.depth u m).trans ?_
    rw [h.held]
    by_cases hu : u = t
    · subst hu
      simp [LockSystem.finish]
    · simp [LockSystem.finish, hu]
  queue := h.queue.sublist hsub
  issued hu := hr.nextTicket ▸ h.issued (finish_pc hu)
  own ht hu := h.own (finish_pc ht) (finish_pc hu)
  waits hw := by
    rw [← h.waits (hsub.subset hw)]
    exact update_of_ne (hgone _ hw) _ _
  waker hw := h.waker (hsub.subset hw)
  order := hks
  passed hk := by
    have := hr.nextTicket
    rcases mem_append.1 hk with hk | hk <;> grind
  ahead hk hw := by
    have := hsub.subset hw
    rcases mem_append.1 hk with hk | hk <;> grind
  alert hw := by
    have hmem := waker_mem_wakeWaiters hw.1 hw.2
    refine .inr ⟨t, ?_⟩
    rw [show (s.finish t lock g ks).wakers t = lock.wakeWaiters from update_self _ _ _]
    rwa [h.waker (hsub.subset (mem_of_mem_head? hw.1))] at hmem

def Bounded (s : LockSystem) (_ : LockEvent) : Prop :=
  (∀ t m, s.lock.depth t m < depthMax) ∧ s.lock.nextTicket < depthMax

lemma Sound.tid_ne (h : s.Sound) (ht : ∀ m i, s.pc t ≠ .waiting m (some i)) (hw : w ∈ s.lock.waiters) : w.tid ≠ t := by
  rintro rfl
  exact ht _ _ (h.waits hw)

lemma Sound.alerted (h : s.Sound) (hw : s.Grantable w) (hwoken : s'.woken w.tid = s.woken w.tid)
    (hcall : s'.call w.tid = s.call w.tid) (hwakers : s'.wakers = s.wakers) : s'.Alerted w := by
  have hold := h.alert hw
  unfold Alerted LockSystem.waker at *
  rwa [hwoken, hcall, hwakers]

lemma Sound.grant (h : s.Sound) (hmax : s.lock.depth t m < depthMax)
    (hpc : s.pc t = .idle ∧ ticket = none ∨ s.pc t = .waiting m ticket)
    (hlock : s.lock.tryLock t m ticket = some lock) :
    (s.finish t lock (s.acquired t m) ticket.toList).Sound := by
  obtain ⟨hr, hwaiters, hhead⟩ := tryLock_spec h.counted hlock hmax
  have hg : update (s.lock.depth t) m (s.lock.depth t m + 1) = s.acquired t m := by
    rw [acquired, show s.guards t = s.lock.depth t from funext fun k => (h.held t k).symm]
  rw [hg] at hr
  cases ticket with
  | none =>
    rw [isSome_none, if_neg Bool.false_ne_true] at hwaiters
    refine h.finish hr (hwaiters ▸ .refl _) (fun w hw => h.tid_ne (by grind) (hwaiters ▸ hw)) ?_ (by simp)
    simpa using h.order
  | some k =>
    rw [isSome_some, if_pos rfl] at hwaiters
    obtain ⟨w, hw, rfl, -⟩ := hhead k rfl
    obtain ⟨ws, hq⟩ := head?_eq_some_iff.1 hw
    have hws : lock.waiters = ws := by rw [hwaiters, hq, tail_cons]
    have hlater : ∀ v ∈ ws, w.ticket < v.ticket := (pairwise_cons.1 (hq ▸ h.queue)).1
    have hmem : w ∈ s.lock.waiters := hq ▸ mem_cons_self
    refine h.finish hr (by rw [hws, hq]; exact sublist_cons_self _ _) ?_ ?_ ?_
    · intro v hv heq
      have := h.waits (hq ▸ mem_cons_of_mem w (hws ▸ hv))
      grind
    · exact pairwise_append.2 ⟨h.order, by simp, by simpa using fun j hj => h.ahead hj hmem⟩
    · simpa [hws] using ⟨h.issued (h.waits hmem), hlater⟩

lemma Sound.pending (h : s.Sound) (hnext : s.lock.nextTicket < depthMax)
    (hpc : s.pc t = .waiting m ticket) (hlock : s.lock.tryLock t m ticket = none) : (s.pending t m ticket).Sound := by
  have hno : s.lock.canAcquire t m ticket = false := by
    by_contra hyes
    rw [tryLock, if_pos (by simpa using hyes)] at hlock
    cases hlock
  cases ticket with
  | some k =>
    -- the waker in the queue is already the one of this call
    have hsame : setWaker k (s.waker t) s.lock.waiters = s.lock.waiters := by
      refine setWaker_eq_self fun w hw hk => ?_
      have hown : w.tid = t := h.own (hk ▸ h.waits hw) hpc
      rw [h.waker hw, hown]
    simp only [LockSystem.pending, hsame]
    refine ⟨h.counted, h.held, h.queue, h.issued, h.own, h.waits, h.waker, h.order, h.passed, h.ahead, ?_⟩
    intro w hw
    have hne : w.tid ≠ t := by
      rintro rfl
      have hold : s.Grantable w := ⟨hw.1, hw.2⟩
      have := h.waits (mem_of_mem_head? hw.1)
      grind
    exact h.alerted ⟨hw.1, hw.2⟩ (update_of_ne hne _ _) rfl rfl
  | none =>
    have hpc' : ∀ u, update s.pc t (.waiting m (some s.lock.nextTicket)) u =
        if u = t then .waiting m (some s.lock.nextTicket) else s.pc u := update_apply _ _ _
    have hne : ∀ w ∈ s.lock.waiters, w.tid ≠ t := fun w hw => h.tid_ne (by grind) hw
    have hsucc : max ((s.lock.nextTicket + 1) % 2 ^ 64) 1 = s.lock.nextTicket + 1 := by
      unfold depthMax at hnext
      omega
    have hmem : ∀ {w}, w ∈ (s.pending t m none).lock.waiters → w ∈ s.lock.waiters ∨
        w = ⟨s.lock.nextTicket, t, m, s.waker t⟩ := by
      intro w hw
      simpa [LockSystem.pending, enqueue] using hw
    have hnextTicket : (s.pending t m none).lock.nextTicket = s.lock.nextTicket + 1 := hsucc
    have hgranted : (s.pending t m none).granted = s.granted := rfl
    have hpcs : ∀ u, (s.pending t m none).pc u = _ := hpc'
    have hwaker : ∀ u, (s.pending t m none).waker u = s.waker u := fun u => rfl
    refine ⟨⟨h.counted.readers, h.counted.writer, h.counted.sole⟩,
      ?held, ?queue, ?_, ?_, ?_, ?_, h.order, ?_, ?_, ?alert⟩
    case held =>
      intro u k
      refine Eq.trans ?_ (h.held u k)
      cases k <;> rfl
    case queue =>
      refine pairwise_append.2 ⟨h.queue, by simp, fun w hw v hv => ?_⟩
      rw [mem_singleton.1 hv]
      exact h.issued (h.waits hw)
    case alert =>
      intro w hw
      have hold : s.Grantable w := head?_enqueue hno hw.1 hw.2
      exact h.alerted hold (update_of_ne (hne w (mem_of_mem_head? hold.1)) _ _) rfl rfl
    all_goals grind

lemma Sound.goto {pc : LockPc} {c : ℕ} (h : s.Sound) (ht : ∀ w ∈ s.lock.waiters, w.tid ≠ t)
    (hpc : ∀ m i, pc ≠ .waiting m (some i)) :
    Sound { s with pc := update s.pc t pc, call := update s.call t c } := by
  have hpcs : ∀ u, update s.pc t pc u = if u = t then pc else s.pc u := update_apply _ _ _
  have hcall : ∀ u, update s.call t c u = if u = t then c else s.call u := update_apply _ _ _
  refine ⟨h.counted, h.held, h.queue, ?_, ?_, ?_, ?_, h.order, h.passed, h.ahead, ?alert⟩
  case alert =>
    intro w hw
    exact h.alerted ⟨hw.1, hw.2⟩ rfl (update_of_ne (ht w (mem_of_mem_head? hw.1)) _ _) rfl
  all_goals grind

lemma Sound.act (h : s.Sound) (hb : s.Bounded e) (he : s.act e = some s') : s'.Sound := by
  cases e with
  | lock t m =>
    simp only [LockSystem.act] at he
    split_ifs at he with hpc
    split at he <;> injection he with he <;> subst he
    next hlock => exact h.grant (hb.1 t m) (.inl ⟨hpc, rfl⟩) hlock
    next => exact h.goto (fun w hw => h.tid_ne (by grind) hw) (by simp)
  | poll t =>
    simp only [LockSystem.act] at he
    split at he
    next => cases he
    next m ticket hpc =>
      split at he <;> injection he with he <;> subst he
      next hlock => exact h.grant (hb.1 t m) (.inr hpc) hlock
      next hlock => exact h.pending hb.2 hpc hlock
  | unlock t m =>
    simp only [LockSystem.act] at he
    split_ifs at he with hpc
    obtain ⟨lock, hlock, rfl⟩ := map_eq_some_iff.1 he
    obtain ⟨-, hwaiters, hr⟩ := unlock_recounts h.counted hlock
    rw [show s.lock.depth t = s.guards t from funext (h.held t)] at hr
    exact h.finish hr (hwaiters ▸ .refl _) (fun w hw => h.tid_ne (by grind) (hwaiters ▸ hw)) (by simpa using h.order)
      (by simp)
  | drop t =>
    simp only [LockSystem.act] at he
    split at he
    next => cases he
    next m hpc =>
      injection he with he
      subst he
      rw [← update_eq_self t s.call]
      exact h.goto (fun w hw => h.tid_ne (by grind) hw) (by simp)
    next m k hpc =>
      have hown : ∀ w ∈ s.lock.waiters, w.tid = t → w.ticket = k := by grind
      split_ifs at he with hmem <;> injection he with he <;> subst he
      · have hr := h.counted.recounts_waiters (t := t) (s.lock.waiters.eraseP (·.ticket = k))
        rw [show s.lock.depth t = s.guards t from funext (h.held t)] at hr
        refine h.finish hr eraseP_sublist (fun w hw heq => ?_) (by simpa using h.order) (by simp)
        exact ticket_ne_of_mem_eraseP h.queue hw (hown w (mem_of_mem_eraseP hw) heq)
      · rw [← update_eq_self t s.call]
        exact h.goto (fun w hw heq => hmem ⟨w, hw, hown w hw heq⟩) (by simp)
  | cancelTid t =>
    injection he with he
    subst he
    have hw := cancelTid_waiters (s := s.lock) (t := t)
    exact h.finish (cancelTid_recounts h.counted) (hw ▸ filter_sublist) (by grind) (by simpa using h.order) (by simp)
  | wake t => cases he

lemma Sound.step (h : s.Sound) (hb : s.Bounded e) (he : s.step e = some s') : s'.Sound := by
  unfold LockSystem.step at he
  split at he
  next => exact h.act hb he
  next w ws hws =>
    by_cases hev : e = .wake e.task
    · rw [if_pos hev] at he
      injection he with he
      subst he
      refine ⟨h.counted, h.held, h.queue, h.issued, h.own, h.waits, h.waker, h.order, h.passed, h.ahead, ?_⟩
      intro v hv
      have hwakers : ∀ u, update s.wakers e.task ws u = if u = e.task then ws else s.wakers u := update_apply _ _ _
      have hwoken : ∀ u, update s.woken w.task true u = if u = w.task then true else s.woken u := update_apply _ _ _
      have hold : s.woken v.tid = true ∨ ∃ u, s.waker v.tid ∈ s.wakers u := h.alert ⟨hv.1, hv.2⟩
      have hkept : (if s.call w.task = w.call then update s.woken w.task true else s.woken) v.tid = true ∨
          ∃ u, s.waker v.tid ∈ update s.wakers e.task ws u := by
        obtain hw | ⟨u, hu⟩ := hold
        · grind
        · by_cases hw : s.waker v.tid = w <;> grind
      exact hkept
    · rw [if_neg hev] at he
      cases he

lemma initial_sound : initial.Sound := by
  constructor
  case counted => exact ⟨nofun, nofun, nofun⟩
  case held => rintro t (_ | _) <;> rfl
  all_goals simp [initial, new, Grantable]

/-- As long as no depth and no ticket reaches the end of the range of `usize`: a task that holds the lock for
writing is the only holder; the depths are the numbers of guards that are held, and a task is in the tables exactly
while it has one; the tickets are granted in ascending order and before all that still wait; and when the first
request could be granted, its task has been woken since its last poll or a task is about to wake it. -/
theorem rwlock_correct (h : Reaches step Bounded initial s) :
    (∀ t u m, 0 < s.guards t .write → 0 < s.guards u m → u = t) ∧
    (∀ t m, s.lock.depth t m = s.guards t m) ∧
    (∀ t, s.lock.writer = some t ↔ 0 < s.guards t .write) ∧
    (∀ t, s.lock.readers.get? t ≠ none ↔ 0 < s.guards t .read) ∧
    (s.granted.Pairwise (· < ·) ∧ ∀ k ∈ s.granted, ∀ w ∈ s.lock.waiters, k < w.ticket) ∧
    ∀ w, s.Grantable w → s.Alerted w := by
  have hs : s.Sound := h.invariant (fun _ _ _ hs hb he => hs.step hb he) initial_sound
  have hwrite : ∀ t, s.lock.writer = some t ↔ 0 < s.guards t .write := by
    intro t
    rw [← hs.held, depth]
    grind
  have hread : ∀ t, s.lock.readers.get? t ≠ none ↔ 0 < s.guards t .read := by
    intro t
    rw [← hs.held, depth]
    cases hd : s.lock.readers.get? t with
    | none => simp
    | some d => simpa using hs.counted.readers hd
  refine ⟨fun t u m ht hu => ?_, hs.held, hwrite, hread, ⟨hs.order, fun k hk w hw => hs.ahead hk hw⟩,
    fun w hw => hs.alert hw⟩
  cases m with
  | read =>
    obtain ⟨d, hd⟩ := ne_none_iff_exists'.1 ((hread u).2 hu)
    exact hs.counted.sole ((hwrite t).2 ht) hd
  | write => exact some_inj.1 (((hwrite u).2 hu).symm.trans ((hwrite t).2 ht))

/-- The bounds as a check of the tables. -/
def Small (s : LockSystem) : Prop :=
  s.lock.writerDepth < depthMax ∧ (∀ e ∈ s.lock.readers.entries, e.2 < depthMax) ∧ s.lock.nextTicket < depthMax
deriving Decidable

lemma Small.bounded (h : s.Small) : s.Bounded e := by
  have hpos : 0 < depthMax := by decide
  refine ⟨fun t m => ?_, h.2.2⟩
  cases m with
  | read =>
    unfold depth
    cases hd : s.lock.readers.get? t with
    | none => exact hpos
    | some d => exact h.2.1 _ (OrdMap.get?_eq_some.1 hd)
  | write =>
    unfold depth
    split_ifs
    · exact h.1
    · exact hpos

/-- A writer locks twice, a reader and a second writer queue, and the reader gets the lock and gives it back. -/
def contended : List LockEvent :=
  [.lock 0 .write, .lock 0 .write, .lock 1 .read, .poll 1, .lock 2 .write, .poll 2, .unlock 0 .write, .unlock 0 .write,
    .wake 0, .poll 1, .unlock 1 .read]

/-- The second writer could be granted the lock; its task is not woken yet, but the reader is about to wake it. -/
theorem rwlock_correct_contended :
    let s := run step initial contended
    Reaches step Bounded initial s ∧ s.granted = [1] ∧ s.Grantable ⟨2, 2, .write, ⟨2, 1⟩⟩ ∧ s.woken 2 = false ∧
      s.Alerted ⟨2, 2, .write, ⟨2, 1⟩⟩ ∧ s.lock.readers.get? 1 = none := by
  have hsmall : Reaches step (fun s _ => s.Small) initial (run step initial contended) :=
    Reaches.run (by decide +kernel)
  have hreach : Reaches step Bounded initial (run step initial contended) :=
    Relation.ReflTransGen.mono (fun _ _ ⟨e, hg, he⟩ => ⟨e, hg.bounded, he⟩) _ _ hsmall
  obtain ⟨-, -, -, hread, -, halert⟩ := rwlock_correct hreach
  have hgrantable : (run step initial contended).Grantable ⟨2, 2, .write, ⟨2, 1⟩⟩ := by decide +kernel
  refine ⟨hreach, by decide +kernel, hgrantable, by decide +kernel, halert _ hgrantable, ?_⟩
  have hnone : ¬0 < (run step initial contended).guards 1 .read := by decide +kernel
  exact not_not.1 fun hne => hnone ((hread 1).1 hne)

def nested (d g : ℕ) : LockSystem :=
  { initial with
    lock := { new with writer := if d = 0 then none else some 0, writerDepth := d }
    guards := update (fun _ _ => 0) 0 (update (fun _ => 0) .write g) }

lemma step_lock_nested (d g : ℕ) :
    (nested d g).step (.lock 0 .write) = some (nested (min (d + 1) depthMax) (g + 1)) := by
  cases d <;> simp [step, act, finish, acquired, nested, initial, new, tryLock,
    canAcquire, compatible, acquire, wakeWaiters,
    OrdMap.empty, LockEvent.task, depthMax]

lemma step_unlock_nested (d g : ℕ) : (nested (d + 1) g).step (.unlock 0 .write) = some (nested d (g - 1)) := by
  cases d <;> simp [step, act, finish, nested, initial, new, unlock, wakeWaiters, wakeLoop, LockEvent.task]

/-- `2 ^ 64` nested locks of a writer are counted as `2 ^ 64 - 1`, and the lock is free one guard too early. -/
lemma reaches_nested (i : ℕ) (hi : i ≤ depthMax) :
    Reaches step (fun _ _ => True) initial (nested (depthMax - i) (depthMax + 1 - i)) := by
  have hlock : ∀ g, Reaches step (fun _ _ => True) initial (nested (min g depthMax) g) := by
    intro g
    induction g with
    | zero =>
      rw [show nested (min 0 depthMax) 0 = initial by simp [nested, initial, new]]
    | succ g ih =>
      refine ih.tail ⟨.lock 0 .write, trivial, (step_lock_nested _ _).trans ?_⟩
      rw [show min (min g depthMax + 1) depthMax = min (g + 1) depthMax by omega]
  induction i with
  | zero => simpa using hlock (depthMax + 1)
  | succ i ih =>
    refine (ih (by omega)).tail ⟨.unlock 0 .write, trivial, ?_⟩
    rw [show depthMax - i = depthMax - (i + 1) + 1 by omega, step_unlock_nested,
      show depthMax + 1 - i - 1 = depthMax + 1 - (i + 1) by omega]

/-- Task 0 writes, and task 1 has queued and given up `k` times. -/
def givenUp (k : ℕ) : LockSystem :=
  { initial with
    lock := { new with writer := some 0, writerDepth := 1, nextTicket := k + 1 }
    call := update (fun _ => 0) 1 k
    guards := update (fun _ _ => 0) 0 (update (fun _ => 0) .write 1) }

lemma reaches_givenUp (k : ℕ) (hk : k < depthMax) : Reaches step (fun _ _ => True) initial (givenUp k) := by
  induction k with
  | zero =>
    refine .single ⟨.lock 0 .write, trivial, ?_⟩
    simp [step, act, finish, acquired, givenUp, initial, new, tryLock, canAcquire, compatible, acquire, wakeWaiters,
      OrdMap.empty, LockEvent.task]
  | succ k ih =>
    refine (ih (by omega)).trans (.tail (.tail (.single ⟨.lock 1 .read, trivial, rfl⟩) ⟨.poll 1, trivial, rfl⟩)
      ⟨.drop 1, trivial, ?_⟩)
    simp [step, act, finish, pending, givenUp, initial, new, wakeWaiters, OrdMap.empty, LockEvent.task, enqueue,
      cancelTicket]
    -- the ticket counter has not come to its end
    unfold depthMax at hk
    omega

/-- Two readers queue with the last ticket and the first one, and get the lock. -/
def lastTickets : List LockEvent :=
  [.lock 2 .read, .poll 2, .lock 3 .read, .poll 3, .unlock 0 .write, .wake 0, .wake 0, .poll 2, .wake 2, .poll 3]

/-- The count of a writer ends before its guards do; the ticket after the last one is 1 again, so that a later request
is granted with a smaller ticket; and between the end of `unlock` under the spin lock and its wakes the first request
could be granted and its task has not been woken. -/
theorem rwlock_limits :
    (∃ s, Reaches step (fun _ _ => True) initial s ∧ s.lock.writer = none ∧ s.guards 0 .write = 1) ∧
    (∃ s, Reaches step (fun _ _ => True) initial s ∧ s.granted = [depthMax, 1]) ∧
    ∃ s w, Reaches step (fun _ _ => True) initial s ∧ s.Grantable w ∧ s.woken w.tid = false := by
  refine ⟨⟨nested 0 1, ?_, rfl, rfl⟩, ⟨run step (givenUp (depthMax - 1)) lastTickets, ?_, ?_⟩,
    run step initial [.lock 0 .write, .lock 1 .read, .poll 1, .unlock 0 .write],
    ⟨1, 1, .read, ⟨1, 1⟩⟩, Reaches.run (by decide), by decide, by decide⟩
  · simpa using reaches_nested depthMax le_rfl
  · exact (reaches_givenUp _ (by decide)).trans (Reaches.run (by decide +kernel))
  · decide +kernel

end LockSystem

end Ya2yOS.Fs
