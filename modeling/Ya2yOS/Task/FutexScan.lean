import Mathlib.Data.List.Nodup
import Ya2yOS.Task.Futex

/-!
# What a scan does to the order of a queue

The scan of a wake rotates the waiters with other bits behind the queue and stops at its limit. The scan of a requeue
goes through the whole queue and cuts it into three.
-/

namespace Ya2yOS.Task

open Function List FutexWaiter

/-- The task of the waiter still sleeps in the wait that it was queued for. -/
def live (tasks : FutexTasks) (w : FutexWaiter) : Bool := !(tasks w.task).freed && (tasks w.task).sleepsOn w.futexKey

def SingleWaits (tasks : FutexTasks) (q : List FutexWaiter) : Prop :=
  q.Pairwise fun a b => live tasks a = true → live tasks b = true → a.task ≠ b.task
deriving Decidable

def SameFor (tasks tasks' : FutexTasks) (q : List FutexWaiter) : Prop :=
  ∀ w ∈ q, live tasks' w = live tasks w ∧ (tasks' w.task).freed = (tasks w.task).freed

variable {tasks tasks' : FutexTasks} {q rest moved : List FutexWaiter} {w : FutexWaiter} {newPa : ℕ} {α : Type*}

lemma wakeup_eq (h : (tasks w.task).freed = false) : wakeupFutexTask tasks w.task w.futexKey =
    (live tasks w, if live tasks w then
      update tasks w.task { tasks w.task with status := .ready, futexKey := 0, futexPa := 0 } else tasks) := by
  grind [wakeupFutexTask, live]

lemma SameFor.wakeup (hs : SingleWaits tasks (w :: q)) (h : SameFor tasks tasks' (w :: q)) :
    SameFor tasks (wakeupFutexTask tasks' w.task w.futexKey).2 q := by
  intro v hv
  have hw := h w mem_cons_self
  have hsame := h v (mem_cons_of_mem _ hv)
  have hne := (pairwise_cons.1 hs).1 v hv
  unfold wakeupFutexTask live at *
  split_ifs with hsleep
  · by_cases hvw : v.task = w.task
    · have hdead : FutexTask.sleepsOn { tasks' w.task with status := .ready, futexKey := 0, futexPa := 0 }
        v.futexKey = false := rfl
      grind
    · simpa only [update_of_ne hvw] using hsame
  · exact hsame

/-! ### Wakes -/

/-- The list up to the element that is the `k`-th with a property, and what is behind it. -/
def splitAfter {α : Type*} (p : α → Bool) : ℕ → List α → List α × List α
  | 0, l => ([], l)
  | _ + 1, [] => ([], [])
  | k + 1, a :: l => (a :: (splitAfter p (if p a then k else k + 1) l).1, (splitAfter p (if p a then k else k + 1) l).2)

lemma splitAfter_append (p : α → Bool) (k : ℕ) (l : List α) : (splitAfter p k l).1 ++ (splitAfter p k l).2 = l := by
  fun_induction splitAfter p k l <;> simp_all

lemma splitAfter_filter (p : α → Bool) (k : ℕ) (l : List α) : (splitAfter p k l).1.filter p = (l.filter p).take k := by
  fun_induction splitAfter p k l with
  | case1 => simp
  | case2 => simp
  | case3 k a l ih => by_cases ha : p a = true <;> simp_all

def wakes (tasks : FutexTasks) (bitset : BitVec 32) (w : FutexWaiter) : Bool :=
  live tasks w && bitset &&& w.bitset ≠ 0

def rotates (tasks : FutexTasks) (bitset : BitVec 32) (w : FutexWaiter) : Bool :=
  !(tasks w.task).freed && bitset &&& w.bitset = 0

/-- The scan wakes the waiters up to its limit, and leaves the others behind those it has not come to. -/
lemma wakeLoop_eq (maxNum : ℕ) (bitset : BitVec 32) (back : List FutexWaiter) {r : WakeScan}
    (hr : r.queue = q ++ back) (hs : SingleWaits tasks q) (h : SameFor tasks r.tasks q) :
    let cut := splitAfter (wakes tasks bitset) (maxNum - r.woken.length) q
    (wakeLoop maxNum bitset q.length r).woken = r.woken ++ cut.1.filter (wakes tasks bitset) ∧
      (wakeLoop maxNum bitset q.length r).queue = cut.2 ++ (back ++ cut.1.filter (rotates tasks bitset)) := by
  induction q generalizing back r with
  | nil => cases hk : maxNum - r.woken.length <;> simp [wakeLoop, splitAfter, hr]
  | cons w rest ih =>
    have hrest : SameFor tasks r.tasks rest := fun v hv => h v (mem_cons_of_mem _ hv)
    have htail := (pairwise_cons.1 hs).2
    obtain ⟨hlive, hfreed⟩ := h w mem_cons_self
    rw [length_cons, wakeLoop]
    split_ifs with hfull
    · rw [Nat.sub_eq_zero_of_le hfull]
      simp [splitAfter, hr]
    obtain ⟨k, hk⟩ : ∃ k, maxNum - r.woken.length = k + 1 := ⟨maxNum - r.woken.length - 1, by omega⟩
    simp only [hr, cons_append, hk, splitAfter]
    by_cases hfree : (tasks w.task).freed = true
    · have hno : wakes tasks bitset w = false ∧ rotates tasks bitset w = false := by simp [wakes, rotates, live, hfree]
      have := ih back (r := { r with queue := rest ++ back }) rfl htail hrest
      simp_all
    rcases hwakeup : wakeupFutexTask r.tasks w.task w.futexKey with ⟨ok, woken⟩
    have hok : ok = live tasks w :=
      (congrArg Prod.fst (hwakeup.symm.trans (wakeup_eq (by simpa [hfreed] using hfree)))).trans hlive
    have hnext : SameFor tasks woken rest := by
      have := h.wakeup hs
      rwa [hwakeup] at this
    by_cases hbits : bitset &&& w.bitset = 0
    · have hturn : wakes tasks bitset w = false ∧ rotates tasks bitset w = true := by simp_all [wakes, rotates]
      have := ih (back ++ [w]) (r := { r with queue := rest ++ back ++ [w] }) (append_assoc _ _ _) htail hrest
      simp_all
    have hstay : rotates tasks bitset w = false ∧ wakes tasks bitset w = live tasks w := by
      simp_all [wakes, rotates]
    have := ih back (r := ⟨woken, if ok then r.woken ++ [w] else r.woken, rest ++ back⟩) rfl htail hnext
    have hk' : maxNum - (r.woken.length + 1) = k := by omega
    cases ok <;> simp_all

lemma append_comm_iff {a b : List α} (h : a.Disjoint b) : b ++ a = a ++ b ↔ a = [] ∨ b = [] := by
  cases a with
  | nil => simp
  | cons x a =>
    cases b with
    | nil => simp
    | cons y b =>
      refine iff_of_false (fun heq => ?_) (by simp)
      have hxy : y = x := (cons.inj heq).1
      exact h mem_cons_self (by rw [hxy]; exact mem_cons_self)

def wakeScan (tasks : FutexTasks) (q : List FutexWaiter) (maxNum : ℤ) (bitset : BitVec 32) : WakeScan :=
  wakeLoop (if maxNum ≤ 0 then 1 else maxNum.toNat) bitset q.length ⟨tasks, [], q⟩

/-- Where a wake keeps the order: its limit is positive, or nothing is to be woken, and of the waiters that it comes to
and those that it does not come to, only one kind is left. -/
def KeepsOrder (tasks : FutexTasks) (q : List FutexWaiter) (maxNum : ℤ) (bitset : BitVec 32) : Prop :=
  let cut := splitAfter (wakes tasks bitset) (if maxNum ≤ 0 then 1 else maxNum.toNat) q
  (0 < maxNum ∨ ∀ w ∈ q, wakes tasks bitset w = false) ∧
    ((∀ w ∈ cut.1, live tasks w = true → wakes tasks bitset w = true) ∨ ∀ w ∈ cut.2, live tasks w = false)

instance (tasks : FutexTasks) (q : List FutexWaiter) (maxNum : ℤ) (bitset : BitVec 32) :
    Decidable (KeepsOrder tasks q maxNum bitset) := inferInstanceAs (Decidable (_ ∧ _))

/-- A wake takes the first waiters with a bit of the set, as many as its limit says, and leaves the other waiters in
their order, exactly where it keeps the order. -/
theorem futexWake_fifo_iff (hs : SingleWaits tasks q) (maxNum : ℤ) (bitset : BitVec 32) :
    ((wakeScan tasks q maxNum bitset).woken = (q.filter (wakes tasks bitset)).take maxNum.toNat ∧
      (wakeScan tasks q maxNum bitset).queue.filter (live tasks) =
        q.filter fun w => live tasks w && w ∉ (wakeScan tasks q maxNum bitset).woken) ↔
      KeepsOrder tasks q maxNum bitset := by
  have hscan := wakeLoop_eq (if maxNum ≤ 0 then 1 else maxNum.toNat) bitset [] (r := ⟨tasks, [], q⟩) (by simp) hs
    (fun v _ => ⟨rfl, rfl⟩)
  unfold wakeScan KeepsOrder
  simp only [length_nil, Nat.sub_zero, nil_append] at hscan
  have hq := splitAfter_append (wakes tasks bitset) (if maxNum ≤ 0 then 1 else maxNum.toNat) q
  have htake := splitAfter_filter (wakes tasks bitset) (if maxNum ≤ 0 then 1 else maxNum.toNat) q
  rw [hscan.1, hscan.2]
  generalize splitAfter (wakes tasks bitset) (if maxNum ≤ 0 then 1 else maxNum.toNat) q = cut at *
  refine and_congr ?_ ?_
  · rw [htake]
    split_ifs with hle
    · rw [Int.toNat_of_nonpos hle, take_zero, take_eq_nil_iff, or_iff_right (by decide),
        filter_eq_nil_iff, or_iff_right (not_lt.2 hle)]
      simp
    · exact iff_of_true rfl (.inl (not_le.1 hle))
  · have hdisj : ∀ w ∈ cut.1, live tasks w = true → w ∉ cut.2 := by
      intro w hw hl hw'
      rw [← hq] at hs
      exact (pairwise_append.1 hs).2.2 w hw w hw' hl hl rfl
    -- what is left of the waiters that the scan has come to
    have hleft : (cut.1.filter (rotates tasks bitset)).filter (live tasks) =
        cut.1.filter fun w => live tasks w && !wakes tasks bitset w := by
      rw [filter_filter]
      apply filter_congr
      intro w _
      simp only [wakes, rotates, live]
      grind
    have hfirst : (cut.1.filter fun w => live tasks w && w ∉ cut.1.filter (wakes tasks bitset)) =
        cut.1.filter fun w => live tasks w && !wakes tasks bitset w := by
      apply filter_congr
      intro w hw
      simp [hw]
    have hsecond : (cut.2.filter fun w => live tasks w && w ∉ cut.1.filter (wakes tasks bitset)) =
        cut.2.filter (live tasks) := by
      apply filter_congr
      intro w hw
      grind
    rw [← hq, filter_append, filter_append, hfirst, hsecond, hleft, append_comm_iff]
    · simp only [filter_eq_nil_iff]
      grind
    · intro w hw hw'
      grind

def sleepers (t : ℕ) : FutexTask := ⟨.blocked, t + 1, 64, false, false, false⟩

def threeWaiters : List FutexWaiter := [⟨0, 1, 1⟩, ⟨1, 2, 2⟩, ⟨2, 1, 3⟩]

theorem futexWake_fifo_two : SingleWaits sleepers threeWaiters ∧
    (wakeScan sleepers threeWaiters 2 2).woken = (threeWaiters.filter (wakes sleepers 2)).take (2 : ℤ).toNat ∧
      (wakeScan sleepers threeWaiters 2 2).queue.filter (live sleepers) =
        threeWaiters.filter fun w => live sleepers w && w ∉ (wakeScan sleepers threeWaiters 2 2).woken :=
  ⟨by decide, (futexWake_fifo_iff (by decide) 2 2).2 (by decide)⟩

/-- The second of three waiters is woken, and the third comes before the first. -/
theorem futexWake_reorders : (wakeScan sleepers threeWaiters 1 2).woken = [⟨1, 2, 2⟩] ∧
    (wakeScan sleepers threeWaiters 1 2).queue = [⟨2, 1, 3⟩, ⟨0, 1, 1⟩] := by
  decide

/-! ### Requeues -/

lemma requeue_eq (h : (tasks w.task).freed = false) (newPa : ℕ) : requeueFutexTask tasks w.task w.futexKey newPa =
    (live tasks w, if live tasks w then update tasks w.task { tasks w.task with futexPa := newPa } else tasks) := by
  grind [requeueFutexTask, live]

lemma SameFor.requeue (h : SameFor tasks tasks' (w :: q)) (newPa : ℕ) :
    SameFor tasks (requeueFutexTask tasks' w.task w.futexKey newPa).2 q := by
  intro v hv
  have hsame := h v (mem_cons_of_mem _ hv)
  unfold requeueFutexTask live at *
  split_ifs
  · by_cases hvw : v.task = w.task
    · simpa [hvw, FutexTask.sleepsOn] using hsame
    · simpa only [update_of_ne hvw] using hsame
  · exact hsame

/-- The tasks after some waiters have been woken and others moved. -/
def afterScan (newPa : ℕ) (tasks : FutexTasks) (woken moved : List FutexWaiter) : FutexTasks := fun t =>
  if t ∈ woken.map task then { tasks t with status := .ready, futexKey := 0, futexPa := 0 }
  else if t ∈ moved.map task then { tasks t with futexPa := newPa }
  else tasks t

/-- The scan of the waiters `q` from `r` to `r'` wakes the first `n` of the live ones `l`, moves the next `m`, and
keeps the others in their order. -/
structure Cuts (tasks : FutexTasks) (newPa n m : ℕ) (q l : List FutexWaiter) (r r' : RequeueScan) : Prop where
  woken : r'.woken = r.woken ++ l.take n
  moved : r'.moved = r.moved ++ (l.drop n).take m
  retained : ∃ kept, kept.Sublist q ∧ r'.retained = r.retained ++ kept ∧ kept.filter (live tasks) = l.drop (n + m)
  scanned : r'.tasks = afterScan newPa r.tasks (l.take n) ((l.drop n).take m)

lemma afterScan_wake {woken : List FutexWaiter} (hw : ∀ v ∈ woken ++ moved, w.task ≠ v.task) :
    afterScan newPa (update tasks w.task { tasks w.task with status := .ready, futexKey := 0, futexPa := 0 })
      woken moved =
      afterScan newPa tasks (w :: woken) moved := by
  funext t
  by_cases ht : t = w.task
  · grind [afterScan]
  · simp [afterScan, ht]

lemma afterScan_move :
    afterScan newPa (update tasks w.task { tasks w.task with futexPa := newPa }) [] moved =
      afterScan newPa tasks [] (w :: moved) := by
  funext t
  by_cases ht : t = w.task
  · grind [afterScan]
  · simp [afterScan, ht]

lemma requeueLoop_cuts (wakeLimit requeueLimit newPa : ℕ) {r : RequeueScan} (hs : SingleWaits tasks q)
    (h : SameFor tasks r.tasks q) :
    Cuts tasks newPa (wakeLimit - r.woken.length) (requeueLimit - r.moved.length) q (q.filter (live tasks)) r
      (requeueLoop wakeLimit requeueLimit newPa q r) := by
  induction q generalizing r with
  | nil => exact ⟨by simp [requeueLoop], by simp [requeueLoop], ⟨[], by simp [requeueLoop]⟩, by simp [requeueLoop]; rfl⟩
  | cons w rest ih =>
    have hrest : SameFor tasks r.tasks rest := fun v hv => h v (mem_cons_of_mem _ hv)
    obtain ⟨hne, htail⟩ := pairwise_cons.1 hs
    obtain ⟨hlive, hfreed⟩ := h w mem_cons_self
    have hlater : ∀ v ∈ rest.filter (live tasks), live tasks w = true → w.task ≠ v.task := fun v hv hl =>
      hne v (mem_filter.1 hv).1 hl (mem_filter.1 hv).2
    have hskip : ∀ {r' : RequeueScan} {n m : ℕ}, Cuts tasks newPa n m rest (rest.filter (live tasks)) r r' →
        live tasks w = false → Cuts tasks newPa n m (w :: rest) ((w :: rest).filter (live tasks)) r r' := by
      intro r' n m hc hdead
      obtain ⟨kept, hsub, hkept⟩ := hc.retained
      rw [filter_cons_of_neg (by simp [hdead])]
      exact ⟨hc.woken, hc.moved, ⟨kept, hsub.cons w, hkept⟩, hc.scanned⟩
    unfold requeueLoop
    split_ifs with hfree hwake hmove
    · exact hskip (ih htail hrest) (by simp [live, ← hfreed, hfree])
    · have hc := ih (r := ⟨(wakeupFutexTask r.tasks w.task w.futexKey).2, r.woken ++ [w], r.moved, r.retained⟩) htail
        (h.wakeup hs)
      rw [wakeup_eq (by simpa using hfree), hlive] at hc ⊢
      by_cases hl : live tasks w = true
      · obtain ⟨n, hn⟩ : ∃ n, wakeLimit - r.woken.length = n + 1 := ⟨wakeLimit - r.woken.length - 1, by omega⟩
        simp only [hl, if_true] at hc ⊢
        rw [length_append, ← Nat.sub_sub, hn] at hc
        obtain ⟨kept, hsub, hkept⟩ := hc.retained
        rw [hn, filter_cons_of_pos hl]
        refine ⟨?_, hc.moved, ⟨kept, hsub.cons w, ?_⟩, hc.scanned.trans (afterScan_wake fun v hv => hlater v ?_ hl)⟩
        · simpa using hc.woken
        · rwa [Nat.add_right_comm]
        · grind
      · simp only [hl]
        exact hskip (ih htail hrest) (by simpa using hl)
    · have hc := ih (r := ⟨(requeueFutexTask r.tasks w.task w.futexKey newPa).2, r.woken, r.moved ++ [w], r.retained⟩)
        htail (h.requeue newPa)
      rw [requeue_eq (by simpa using hfree), hlive] at hc ⊢
      by_cases hl : live tasks w = true
      · obtain ⟨m, hm⟩ : ∃ m, requeueLimit - r.moved.length = m + 1 := ⟨requeueLimit - r.moved.length - 1, by omega⟩
        simp only [hl, if_true] at hc ⊢
        rw [length_append, ← Nat.sub_sub, hm, Nat.sub_eq_zero_of_le (not_lt.1 hwake)] at hc
        obtain ⟨kept, hsub, hkept⟩ := hc.retained
        rw [hm, filter_cons_of_pos hl, Nat.sub_eq_zero_of_le (not_lt.1 hwake)]
        refine ⟨hc.woken, ?_, ⟨kept, hsub.cons w, ?_⟩, hc.scanned.trans afterScan_move⟩
        · simpa using hc.moved
        · simpa using hkept
      · simp only [hl]
        exact hskip (ih htail hrest) (by simpa using hl)
    · rw [Nat.sub_eq_zero_of_le (not_lt.1 hwake), Nat.sub_eq_zero_of_le (not_lt.1 hmove)]
      have hc := ih (r := { r with retained := r.retained ++ [w] }) htail hrest
      rw [Nat.sub_eq_zero_of_le (not_lt.1 hwake), Nat.sub_eq_zero_of_le (not_lt.1 hmove)] at hc
      obtain ⟨kept, hsub, hkept, hrest⟩ := hc.retained
      refine ⟨hc.woken, hc.moved, ⟨w :: kept, hsub.cons_cons w, ?_, ?_⟩, hc.scanned⟩
      · rw [hkept, append_assoc, singleton_append]
      · simp only [filter_cons, hrest, Nat.add_zero, drop_zero]

/-- The entry of the wait in which the task is. -/
def ownEntry (tasks : FutexTasks) (t : ℕ) (w : FutexWaiter) : Bool := w.task = t && w.futexKey = (tasks t).futexKey

def Filed (tasks : FutexTasks) (queues : FutexQueues) (t : ℕ) : Prop :=
  ∀ pa, ((queues pa).getD []).countP (ownEntry tasks t) = if pa = (tasks t).futexPa then 1 else 0

lemma ownEntry_of_live (h : live tasks w = true) : ownEntry tasks w.task w = true := by
  simp_all [live, ownEntry, FutexTask.sleepsOn]

lemma singleWaits_of_filed (h : ∀ w ∈ q, live tasks w = true → q.countP (ownEntry tasks w.task) ≤ 1) :
    SingleWaits tasks q := by
  induction q with
  | nil => exact .nil
  | cons w rest ih =>
    refine pairwise_cons.2 ⟨fun v hv hw hv' heq => ?_, ih fun v hv hl => ?_⟩
    · have hcount := h w mem_cons_self hw
      rw [countP_cons_of_pos (ownEntry_of_live hw)] at hcount
      have hpos : 0 < rest.countP (ownEntry tasks w.task) := countP_pos_iff.2 ⟨v, hv, heq ▸ ownEntry_of_live hv'⟩
      omega
    · exact ((sublist_cons_self w rest).countP_le).trans (h v (mem_cons_of_mem _ hv) hl)

/-- The scan `r` of the queue at `oldPa` has woken its first live waiters and moves the next ones to the end of the
queue at `newPa`; each task that goes on waiting has one entry, in the queue that its record names. -/
structure Partitions (tasks : FutexTasks) (queues : FutexQueues) (oldPa newPa wakeLimit requeueLimit : ℕ)
    (r : RequeueScan) : Prop where
  woken : r.woken = (((queues oldPa).getD []).filter (live tasks)).take wakeLimit
  moved : r.moved = ((((queues oldPa).getD []).filter (live tasks)).drop wakeLimit).take requeueLimit
  ordered : r.retained.Sublist ((queues oldPa).getD [])
  retained : r.retained.filter (live tasks) =
    (((queues oldPa).getD []).filter (live tasks)).drop (wakeLimit + requeueLimit)
  queued : ∀ p, ((queues.putBack oldPa newPa r) p).getD [] =
    (if p = oldPa then r.retained else (queues p).getD []) ++ if p = newPa then r.moved else []
  recorded : ∀ w ∈ r.moved, (r.tasks w.task).futexPa = newPa
  filed : ∀ t, (tasks t).status = .blocked → (tasks t).freed = false → Filed tasks queues t →
    (r.tasks t).status = .blocked → Filed r.tasks (queues.putBack oldPa newPa r) t

theorem requeue_partitions (queues : FutexQueues) (oldPa newPa : ℕ) (maxWakeup maxRequeue : ℤ)
    (hfiled : ∀ pa, ∀ w ∈ (queues pa).getD [], live tasks w = true → Filed tasks queues w.task) :
    Partitions tasks queues oldPa newPa maxWakeup.toNat maxRequeue.toNat (requeueLoop maxWakeup.toNat
      maxRequeue.toNat newPa ((queues oldPa).getD []) ⟨tasks, [], [], []⟩) := by
  set l := (queues oldPa).getD []
  set r := requeueLoop maxWakeup.toNat maxRequeue.toNat newPa l ⟨tasks, [], [], []⟩
  have hs : SingleWaits tasks l := by
    refine singleWaits_of_filed fun w hw hl => ?_
    rw [hfiled oldPa w hw hl oldPa]
    split_ifs <;> omega
  obtain ⟨hwoken, hmoved, ⟨kept, hsub, hkept, hrest⟩, htasks⟩ := requeueLoop_cuts maxWakeup.toNat maxRequeue.toNat newPa
    (r := ⟨tasks, [], [], []⟩) hs fun v _ => ⟨rfl, rfl⟩
  simp only [nil_append, length_nil, Nat.sub_zero] at hwoken hmoved hkept hrest htasks
  have hput := FutexQueues.hooks_putBack queues oldPa newPa r
  rw [← hwoken, ← hmoved] at htasks
  have hdistinct : ∀ w ∈ r.moved, w.task ∉ r.woken.map task := by
    have hl : (l.filter (live tasks)).Pairwise fun a b => a.task ≠ b.task :=
      (hs.filter _).imp_of_mem fun ha hb hab => hab (mem_filter.1 ha).2 (mem_filter.1 hb).2
    rw [← take_append_drop maxWakeup.toNat (l.filter (live tasks)), pairwise_append] at hl
    intro w hw hmem
    obtain ⟨v, hv, heq⟩ := mem_map.1 hmem
    exact hl.2.2 v (hwoken ▸ hv) w (mem_of_mem_take (hmoved ▸ hw)) heq
  refine ⟨hwoken, hmoved, hkept ▸ hsub, hkept ▸ hrest, hput, fun w hw => ?_, ?_⟩
  · rw [htasks, afterScan, if_neg (hdistinct w hw), if_pos (mem_map_of_mem hw)]
  intro t hblocked hfree hfile hstill
  have hlive : ∀ w, ownEntry tasks t w = true → live tasks w = true := by
    intro w hw
    simp only [ownEntry, Bool.and_eq_true, decide_eq_true_eq] at hw
    simp [live, FutexTask.sleepsOn, hw.1, hw.2, hfree, hblocked]
  have hfilter : ∀ k : List FutexWaiter, k.countP (ownEntry tasks t) =
      (k.filter (live tasks)).countP (ownEntry tasks t) := by
    intro k
    rw [countP_filter]
    exact countP_congr fun w _ => by grind
  -- the entries of the task are counted over the three parts
  have hsum : l.countP (ownEntry tasks t) = r.woken.countP (ownEntry tasks t) + r.moved.countP (ownEntry tasks t) +
      r.retained.countP (ownEntry tasks t) := by
    rw [hfilter l, hfilter r.retained, hkept, hrest, hwoken, hmoved, ← drop_drop, ← countP_append,
      ← countP_append, append_assoc, take_append_drop, take_append_drop]
  have hnone : ∀ k : List FutexWaiter, t ∉ k.map task → k.countP (ownEntry tasks t) = 0 := by
    intro k hk
    refine countP_eq_zero.2 fun w hw hown => hk ?_
    simp only [ownEntry, Bool.and_eq_true, decide_eq_true_eq] at hown
    exact mem_map.2 ⟨w, hw, hown.1⟩
  have hw : t ∉ r.woken.map task := by
    intro hmem
    rw [htasks, afterScan, if_pos hmem] at hstill
    cases hstill
  have hsame : ownEntry r.tasks t = ownEntry tasks t := by
    rw [htasks]
    funext w
    grind [ownEntry, afterScan]
  intro pa
  have hold := hfile oldPa
  have hpa := hfile pa
  have hw0 := hnone _ hw
  by_cases hm : t ∈ r.moved.map task
  · have hrec : (r.tasks t).futexPa = newPa := by rw [htasks, afterScan, if_neg hw, if_pos hm]
    have hone : 0 < r.moved.countP (ownEntry tasks t) := by
      obtain ⟨w, hwm, rfl⟩ := mem_map.1 hm
      refine countP_pos_iff.2 ⟨w, hwm, ownEntry_of_live ?_⟩
      rw [hmoved] at hwm
      exact (mem_filter.1 (mem_of_mem_drop (mem_of_mem_take hwm))).2
    grind
  · have hrec : (r.tasks t).futexPa = (tasks t).futexPa := by rw [htasks, afterScan, if_neg hw, if_neg hm]
    have hm0 := hnone _ hm
    grind

def threeQueue : FutexQueues := fun pa => if pa = 64 then some threeWaiters else none

theorem requeue_partitions_three : (∀ w ∈ threeWaiters, live sleepers w = true) ∧
    Partitions sleepers threeQueue 64 128 1 1 (requeueLoop 1 1 128 threeWaiters ⟨sleepers, [], [], []⟩) := by
  refine ⟨by decide, requeue_partitions threeQueue 64 128 1 1 fun pa w hw _ p => ?_⟩
  by_cases hpa : pa = 64
  · subst hpa
    by_cases hp : p = 64
    · subst hp
      have hcount : ∀ w ∈ threeWaiters, threeWaiters.countP (ownEntry sleepers w.task) = 1 := by decide
      exact hcount w hw
    · simp [threeQueue, hp, sleepers]
  · simp [threeQueue, hpa] at hw

end Ya2yOS.Task
