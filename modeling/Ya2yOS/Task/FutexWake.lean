import Mathlib.Data.List.Basic
import Ya2yOS.Task.Futex

/-!
# No lost wakeup

A waiter compares the user word outside the queue lock. The version it loads afterwards and rechecks under the lock
shuts out the wakes in between, provided that none came before the load.
-/

namespace Ya2yOS.Task

open Lib List

def FutexEvent.isRead (t : ℕ) : FutexEvent → Bool
  | read u => u = t
  | _ => false

def FutexEvent.isWake : FutexEvent → Bool
  | wake _ _ _ _ => true
  | _ => false

def FutexEvent.isScan : FutexEvent → Bool
  | scan _ => true
  | _ => false

namespace FutexState

open FutexEvent

variable {s s' : FutexState} {e : FutexEvent} {t u : ℕ} {trace : List FutexEvent}

lemma version_step (h : FutexStep s e s') : s.version + (if e.isWake then 1 else 0) ≤ s'.version := by
  cases h with
  | wake => exact le_rfl
  | _ => first | exact le_rfl | exact Nat.le_succ _

def sinceRead (t : ℕ) (trace : List FutexEvent) : List FutexEvent := trace.takeWhile fun e => !e.isRead t

lemma sinceRead_cons (h : e.isRead t = false) : sinceRead t (e :: trace) = e :: sinceRead t trace := by
  simp [sinceRead, h]

lemma sinceRead_read (t : ℕ) (trace : List FutexEvent) : sinceRead t (.read t :: trace) = [] := by
  simp [sinceRead, isRead]

lemma sinceRead_append {mid : List FutexEvent} (pre : List FutexEvent) (h : ∀ e ∈ mid, e.isRead t = false) :
    sinceRead t (mid ++ .read t :: pre) = mid := by
  induction mid with
  | nil => exact sinceRead_read t pre
  | cons e mid ih =>
    rw [cons_append, sinceRead_cons (h e mem_cons_self), ih fun e' he' => h e' (mem_cons_of_mem e he')]

def wakes (trace : List FutexEvent) : ℕ := trace.countP isWake

lemma wakes_cons (e : FutexEvent) (trace : List FutexEvent) :
    wakes (e :: trace) = wakes trace + (if e.isWake then 1 else 0) := by
  simp only [wakes, countP_cons]

def Unscanned (trace : List FutexEvent) : Prop :=
  ∀ a b pa n bitset, ¬ [scan a, .wake b pa n bitset].Sublist trace

lemma Unscanned.cons (h : Unscanned trace) (he : e.isScan = false) : Unscanned (e :: trace) := by
  intro a b pa n bitset hsub
  rcases sublist_cons_iff.1 hsub with hsub | ⟨r, hr, -⟩
  · exact h a b pa n bitset hsub
  · rw [← (cons.inj hr).1] at he
    cases he

lemma unscanned_of_wakes (h : wakes trace = 0) : Unscanned trace := by
  intro a b pa n bitset hsub
  have hmem : wake b pa n bitset ∈ trace := hsub.subset (by simp)
  exact countP_eq_zero.1 h _ hmem rfl

/-! ### The invariant -/

/-- What a thread between its comparison and its sleep knows: until the recheck the version has grown
by every wake since the comparison; after it no wake has come to its scan. -/
def Compared (s : FutexState) (t : ℕ) : Prop :=
  match s.pc t with
  | .load _ _ seen => seen + wakes (sinceRead t s.trace) ≤ s.version
  | .lock _ _ v => v + wakes (sinceRead t s.trace) ≤ s.version
  | .recheck _ _ v => v + wakes (sinceRead t s.trace) ≤ s.version ∧ s.lock = some t
  | .enqueue _ _ => Unscanned (sinceRead t s.trace) ∧ s.lock = some t
  | _ => True

/-- No wake is bumped between a comparison and the load of the version, and the version does not
come round between the load and the recheck. -/
def Prompt (s : FutexState) : FutexEvent → Prop
  | .load t =>
    match s.pc t with
    | .load _ _ seen => s.version = seen
    | _ => True
  | .recheck t =>
    match s.pc t with
    | .recheck _ _ v => s.version < v + 2 ^ 64
    | _ => True
  | _ => True

lemma lock_of_not_thread (h : FutexStep s e s') (hall : ∀ t, s.Compared t) (hl : s.lock = some u)
    (hu : e.thread ≠ some u) : s'.lock = some u ∧ e.isScan = false := by
  have hother : ∀ {t : ℕ}, some t ≠ some u → s.lock ≠ some t := fun hne heq => hne (heq.symm.trans hl)
  have hfree : s.lock ≠ none := fun hnone => by simp [hnone] at hl
  cases h with
  | @retry t key v w hpc | @interrupted t key w hpc _ | @enqueue t key w hpc _ =>
    have hcmp := hall t
    simp only [Compared, hpc] at hcmp
    exact absurd hcmp.2 (hother hu)
  | lock _ hnone | unhook _ hnone | scan _ hnone | rescan _ hnone | handleTimer _ hnone | unlink _ hnone =>
    exact absurd hnone hfree
  | _ => exact ⟨hl, rfl⟩

lemma compared_other (hall : ∀ t, s.Compared t) (h : FutexStep s e s') (hu : e.thread ≠ some u) :
    Compared { s' with trace := e :: s.trace } u := by
  have hpc := pc_of_not_thread h hu
  have hv := version_step h
  have hread : e.isRead u = false := by
    cases e <;> simp_all [isRead, thread]
  have hcmp := hall u
  have hl : s.lock = some u → s'.lock = some u ∧ e.isScan = false := fun hl => lock_of_not_thread h hall hl hu
  simp only [Compared, hpc, sinceRead_cons hread, wakes_cons] at hcmp ⊢
  cases hold : s.pc u with
  | load w key seen | lock w key v =>
    simp only [hold] at hcmp ⊢
    omega
  | recheck w key v =>
    simp only [hold] at hcmp ⊢
    exact ⟨by omega, (hl hcmp.2).1⟩
  | enqueue w key =>
    simp only [hold] at hcmp ⊢
    exact ⟨hcmp.1.cons (hl hcmp.2).2, (hl hcmp.2).1⟩
  | _ => trivial

lemma wakes_eq_zero {n v : ℕ} (hv : v + n ≤ s.version) (hlt : s.version < v + 2 ^ 64)
    (heq : versionWord s.version = versionWord v) : n = 0 := by
  unfold versionWord at heq
  omega

lemma compared_self (hall : ∀ t, s.Compared t) (hp : s.Prompt e) (h : FutexStep s e s') (ht : e.thread = some t) :
    Compared { s' with trace := e :: s.trace } t := by
  have hcmp := hall t
  cases h with
  | read hpc hmem =>
    cases ht
    simp only [Compared, goto, Function.update_self, sinceRead_read]
    exact le_rfl
  | load hpc =>
    cases ht
    simp only [Prompt, hpc] at hp
    simp only [Compared, hpc] at hcmp
    simp only [Compared, goto, Function.update_self, sinceRead_cons (show isRead _ (.load _) = false from rfl),
      wakes_cons]
    change _ + (_ + 0) ≤ _
    omega
  | lock hpc hlock =>
    cases ht
    simp only [Compared, hpc] at hcmp
    simp only [Compared, goto, Function.update_self, sinceRead_cons (show isRead _ (.lock _) = false from rfl),
      wakes_cons]
    exact ⟨hcmp, trivial⟩
  | recheck hpc heq =>
    cases ht
    simp only [Prompt, hpc] at hp
    simp only [Compared, hpc] at hcmp
    simp only [Compared, goto, Function.update_self, sinceRead_cons (show isRead _ (.recheck _) = false from rfl)]
    exact ⟨(unscanned_of_wakes (wakes_eq_zero hcmp.1 hp heq)).cons rfl, hcmp.2⟩
  | store hidle =>
    cases ht
    simp only [Compared, pc_of_isIdle hidle]
  | _ =>
    first
    | (cases ht
       simp only [Compared, goto, finish, bump, setTask, Function.update_self])
    | cases ht

/-- Every waiter that was queued had seen no wake from its bump to its scan since it compared. -/
def Orderly (s : FutexState) : Prop :=
  (∀ t, s.Compared t) ∧ ∀ t post mid pre, s.trace = post ++ .enqueue t :: (mid ++ .read t :: pre) →
    (∀ e ∈ mid, e.isRead t = false) → Unscanned mid

lemma orderly_step (hs : s.Orderly) (hp : s.Prompt e) (h : s.step e = some s') : s'.Orderly := by
  obtain ⟨s₁, hact, rfl⟩ := Option.map_eq_some_iff.1 h
  have hstep := act_step hact
  refine ⟨fun t => ?_, fun t post mid pre htrace hmid => ?_⟩
  · by_cases ht : e.thread = some t
    · exact compared_self hs.1 hp hstep ht
    · exact compared_other hs.1 hstep ht
  cases post with
  | nil =>
    -- the step is the one that queues the waiter
    obtain ⟨rfl, htail⟩ := cons.inj htrace
    have hcmp := hs.1 t
    have hsince := sinceRead_append pre hmid
    rw [← htail] at hsince
    cases hstep with
    | interrupted hpc | enqueue hpc =>
      simp only [Compared, hpc, hsince] at hcmp
      exact hcmp.1
  | cons e' post =>
    exact hs.2 t post mid pre (cons.inj htrace).2 hmid

lemma orderly_of_reaches {mem : ℕ → Option ℤ} (h : Reaches step Prompt (initial mem) s) : s.Orderly := by
  refine Reaches.invariant (fun s e s' hs hp hstep => orderly_step hs hp hstep) ?_ h
  refine ⟨fun t => trivial, fun t post mid pre htrace => ?_⟩
  simp [initial] at htrace

/-- The waiter of `t` sleeps on a comparison that came before a store of another value to its word,
and it was queued after a wake that the storing thread then made on its queue and bitset. -/
def LostWake (s : FutexState) (t : ℕ) : Prop :=
  ∃ w key, s.pc t = .asleep w key ∧ (s.tasks t).sleepsOn key = true ∧
    ∃ post mid pre, s.trace = post ++ .enqueue t :: (mid ++ .read t :: pre) ∧
      (∀ e ∈ mid, e.isRead t = false) ∧
      ∃ a value maxNum bitset, value ≠ w.expected ∧ bitset &&& w.bitset ≠ 0 ∧
        [scan a, .wake a w.queueKey maxNum bitset, .store a w.word value].Sublist mid

/-- In every run in which no wake comes between a comparison and the load of the version, no wake is
lost. -/
theorem prompt_run_not_lostWake {mem : ℕ → Option ℤ} (h : Reaches step Prompt (initial mem) s) (t : ℕ) :
    ¬ s.LostWake t := by
  rintro ⟨w, key, -, -, post, mid, pre, htrace, hmid, a, value, maxNum, bitset, -, -, hsub⟩
  have hunscanned := (orderly_of_reaches h).2 t post mid pre htrace hmid
  exact hunscanned a a w.queueKey maxNum bitset
    (List.Sublist.trans (sublist_append_left [scan a, .wake a w.queueKey maxNum bitset] [.store a w.word value]) hsub)

def waitOnZero : WaitArgs := ⟨0x1000, 4, 0, BitVec.allOnes 32, false⟩

/-- Thread 1 goes to sleep, then thread 2 changes the word and wakes it. -/
def slept : FutexState :=
  run step (initial fun _ => some 0) [.wait 1 waitOnZero, .read 1, .load 1, .lock 1, .recheck 1, .enqueue 1, .arm 1,
    .store 2 4 1, .wake 2 0x1000 1 (BitVec.allOnes 32), .scan 2]

theorem prompt_run_not_lostWake_slept : slept.counted = [(1, 1)] ∧ ¬ slept.LostWake 1 := by
  have hrun : Reaches step Prompt (initial fun _ => some 0) slept := by
    refine Reaches.run ⟨trivial, rfl, trivial, rfl, rfl, rfl, trivial, rfl, ?_, rfl, trivial, rfl, trivial, rfl,
      trivial, rfl, trivial, rfl, trivial, rfl, trivial⟩
    exact Nat.two_pow_pos 64
  exact ⟨rfl, prompt_run_not_lostWake hrun 1⟩

/-- Thread 2 stores and wakes between the comparison of thread 1 and its load of the version. -/
def overtaken : FutexState :=
  run step (initial fun _ => some 0) [.wait 1 waitOnZero, .read 1, .store 2 4 1,
    .wake 2 0x1000 1 (BitVec.allOnes 32), .scan 2, .load 1, .lock 1, .recheck 1, .enqueue 1, .arm 1]

/-- The waiter is queued after the wake that was meant for it. -/
theorem overtaken_lostWake : Reaches step (fun _ _ => True) (initial fun _ => some 0) overtaken ∧
    overtaken.LostWake 1 ∧ overtaken.mem 4 = some 1 ∧ overtaken.counted = [] := by
  refine ⟨Reaches.run (by decide), ?_, rfl, rfl⟩
  refine ⟨waitOnZero, 1, rfl, rfl, [.arm 1], [.recheck 1, .lock 1, .load 1, .scan 2,
    .wake 2 0x1000 1 (BitVec.allOnes 32), .store 2 4 1], [.wait 1 waitOnZero], rfl, ?_, 2, 1, 1, BitVec.allOnes 32,
    by decide, by decide, ?_⟩
  · intro e he
    simp only [mem_cons, not_mem_nil, or_false] at he
    rcases he with rfl | rfl | rfl | rfl | rfl | rfl <;> rfl
  · exact (suffix_append [recheck 1, .lock 1, .load 1] _).sublist

end FutexState

end Ya2yOS.Task
