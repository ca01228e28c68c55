import Mathlib.Algebra.Ring.BooleanRing
import Mathlib.Data.List.Perm.Subperm
import Mathlib.Data.List.Nodup
import Ya2yOS.Task.Futex

/-!
# What becomes of a counted waiter

Each wait has a key of its own, which the ledger follows: while the thread sleeps its record holds the key or has been
cleared; after a failed wait no queue holds it; and a counted wait is on its way to success.
-/

-- `grind` would try ring arithmetic on every `Bool`
attribute [-instance] instBooleanRingBool

namespace Ya2yOS.Task

open Function List List.Sublist

def FutexPc.pending : FutexPc → Option ℕ
  | check _ key | load _ key _ | lock _ key _ | recheck _ key _ | enqueue _ key => some key
  | _ => none

def FutexPc.sleeping : FutexPc → Option ℕ
  | arm _ key | asleep _ key => some key
  | _ => none

def FutexPc.unhooking : FutexPc → Option (ℕ × ℕ)
  | unhookBump _ found pa _ | unhook _ found pa _ => some (found, pa)
  | _ => none

def FutexPc.phase (pc : FutexPc) : Option ℕ × Option ℕ × Option ℕ × Option (ℕ × ℕ) :=
  (pc.key, pc.pending, pc.sleeping, pc.unhooking)

variable {k : ℕ} {pc : FutexPc}

lemma FutexPc.key_cases (h : pc.key = some k) :
    pc.pending = some k ∨ pc.sleeping = some k ∨ pc.unhooking.isSome = true := by
  cases pc <;> simp_all [key, pending, sleeping, unhooking]

lemma FutexPc.key_of_sleeping (h : pc.sleeping = some k) : pc.key = some k := by
  cases pc <;> simp_all [key, sleeping]

lemma FutexPc.key_of_pending (h : pc.pending = some k) : pc.key = some k := by
  cases pc <;> simp_all [key, pending]

structure Ledger where
  tasks : FutexTasks
  hooks : ℕ → List FutexWaiter
  pc : ℕ → FutexPc
  keyCounter : ℕ
  counted : List (ℕ × ℕ)
  returns : List (ℕ × ℕ × SyscallRet)

def FutexState.ledger (s : FutexState) : Ledger :=
  ⟨s.tasks, fun pa => (s.queues pa).getD [], s.pc, s.keyCounter, s.counted, s.returns⟩

@[simp] lemma FutexState.ledger_tasks (s : FutexState) : s.ledger.tasks = s.tasks := rfl

@[simp] lemma FutexState.ledger_pc (s : FutexState) : s.ledger.pc = s.pc := rfl

namespace Ledger

open FutexPc

structure Returning (l : Ledger) (t k : ℕ) : Prop where
  sleeping : (l.pc t).sleeping = some k
  status : (l.tasks t).status = .ready ∨ (l.tasks t).status = .running ∧ ∃ w, l.pc t = .asleep w k
  cleared : (l.tasks t).futexKey = 0
  untimed : (l.tasks t).futexTimedout = false

structure Sound (l : Ledger) (owner : ℕ → ℕ) : Prop where
  pcKey : ∀ t k, (l.pc t).key = some k → 0 < k ∧ k ≤ l.keyCounter ∧ owner k = t
  hookKey : ∀ pa, ∀ w ∈ l.hooks pa, 0 < w.futexKey ∧ w.futexKey ≤ l.keyCounter ∧ owner w.futexKey = w.task
  taskKey : ∀ t, (l.tasks t).futexKey ≠ 0 → (l.tasks t).futexKey ≤ l.keyCounter ∧ owner (l.tasks t).futexKey = t
  countedKey : ∀ p ∈ l.counted, 0 < p.2 ∧ p.2 ≤ l.keyCounter
  nodup : ∀ pa, ((l.hooks pa).map FutexWaiter.futexKey).Nodup
  place : ∀ pa, ∀ w ∈ l.hooks pa, (l.tasks w.task).futexKey = w.futexKey → (l.tasks w.task).futexPa = pa
  fresh : ∀ t k, (l.pc t).pending = some k →
    (∀ pa, ∀ w ∈ l.hooks pa, w.futexKey ≠ k) ∧ (l.tasks t).futexKey ≠ k ∧ (t, k) ∉ l.counted
  sleeps : ∀ t k, (l.pc t).sleeping = some k →
    (l.tasks t).futexKey = 0 ∨ (l.tasks t).futexKey = k ∧ (l.tasks t).futexTimedout = false
  unhooks : ∀ t found pa, (l.pc t).unhooking = some (found, pa) →
    (l.tasks t).status = .running ∧ (l.tasks t).futexKey = found ∧ (l.tasks t).futexPa = pa
  ended : ∀ t, (l.tasks t).futexKey ≠ 0 → (l.pc t).key ≠ some (l.tasks t).futexKey →
    (t, (l.tasks t).futexKey, .ok 0) ∈ l.returns ∨
      ∀ pa, ∀ w ∈ l.hooks pa, w.futexKey ≠ (l.tasks t).futexKey
  settled : ∀ p ∈ l.counted, (l.tasks p.1).futexKey ≠ p.2 ∧
    ((p.1, p.2, .ok 0) ∈ l.returns ∨ l.Returning p.1 p.2)
  distinct : l.counted.Nodup

variable {l : Ledger} {owner : ℕ → ℕ} {t k : ℕ}

variable {hooks : ℕ → List FutexWaiter} {pa : ℕ} {r : WakeScan} {tasks : FutexTasks} {w : FutexWaiter}

lemma Sound.shrink (h : l.Sound owner) (hsub : ∀ pa, (hooks pa).Subperm (l.hooks pa)) :
    { l with hooks := hooks }.Sound owner where
  pcKey := h.pcKey
  hookKey pa w hw := h.hookKey pa w ((hsub pa).subset hw)
  taskKey := h.taskKey
  countedKey := h.countedKey
  nodup pa := by
    obtain ⟨l', hperm, hsublist⟩ := hsub pa
    exact (hperm.map _).nodup_iff.1 ((hsublist.map _).nodup (h.nodup pa))
  place pa w hw := h.place pa w ((hsub pa).subset hw)
  fresh t k hk := ⟨fun pa w hw => (h.fresh t k hk).1 pa w ((hsub pa).subset hw), (h.fresh t k hk).2⟩
  sleeps := h.sleeps
  unhooks := h.unhooks
  ended t h0 hk := (h.ended t h0 hk).imp_right fun hnone pa w hw => hnone pa w ((hsub pa).subset hw)
  settled p hp := ⟨(h.settled p hp).1, (h.settled p hp).2.imp_right fun hr => ⟨hr.1, hr.2, hr.3, hr.4⟩⟩
  distinct := h.distinct

attribute [grind →] Sound.pcKey Sound.hookKey Sound.taskKey Sound.countedKey Sound.place Sound.fresh Sound.sleeps
  Sound.unhooks Sound.ended

lemma Sound.setTask (h : l.Sound owner) (task : FutexTask)
    (hkey : task.futexKey = (l.tasks t).futexKey) (hpa : task.futexPa = (l.tasks t).futexPa)
    (htime : (l.tasks t).futexTimedout = false → task.futexTimedout = false)
    (hrun : (l.pc t).unhooking.isSome = true → (l.tasks t).status = .running → task.status = .running)
    (hret : ∀ k, l.Returning t k → task.status = .ready ∨ task.status = .running ∧ ∃ w, l.pc t = .asleep w k) :
    { l with tasks := update l.tasks t task }.Sound owner := by
  have htasks : ∀ u, update l.tasks t task u = if u = t then task else l.tasks u := update_apply _ _ _
  refine ⟨h.pcKey, h.hookKey, ?_, h.countedKey, h.nodup, ?_, ?_, ?_, ?_, ?_, ?_, h.distinct⟩
  case refine_7 =>
    intro p hp
    obtain ⟨hne, hset⟩ := h.settled p hp
    refine ⟨by grind, hset.imp_right fun hr => ⟨hr.sleeping, ?_, ?_, ?_⟩⟩
    · by_cases hpt : p.1 = t
      · simp only [hpt, update_self]
        exact hret _ (hpt ▸ hr)
      · simp only [update_of_ne hpt]
        exact hr.status
    · grind [hr.cleared]
    · grind [hr.untimed]
  all_goals grind

lemma Sound.clear (h : l.Sound owner) (task : FutexTask) (hb : (l.tasks t).status = .blocked)
    (hkey : task.futexKey = 0) : { l with tasks := update l.tasks t task }.Sound owner := by
  have htasks : ∀ u, update l.tasks t task u = if u = t then task else l.tasks u := update_apply _ _ _
  have hpos : ∀ u k, (l.pc u).pending = some k → 0 < k := fun u k hk => (h.pcKey u k (key_of_pending hk)).1
  have hret : ∀ k, ¬ l.Returning t k := by
    rintro k ⟨-, hs | ⟨hs, -⟩, -, -⟩ <;> · rw [hb] at hs; cases hs
  refine ⟨h.pcKey, h.hookKey, ?_, h.countedKey, h.nodup, ?_, ?_, ?_, ?_, ?_, ?_, h.distinct⟩
  case refine_7 =>
    intro p hp
    obtain ⟨hne, hset⟩ := h.settled p hp
    by_cases hpt : p.1 = t
    · exact ⟨by grind, hset.imp_right fun hr => absurd (hpt ▸ hr) (hret p.2)⟩
    · have hold : update l.tasks t task p.1 = l.tasks p.1 := update_of_ne hpt _ _
      exact ⟨by grind, hset.imp_right fun hr => ⟨hr.sleeping, by grind [hr.status], by grind [hr.cleared],
        by grind [hr.untimed]⟩⟩
  all_goals grind

/-- A scan finds the entry `w` of a wait that still sleeps: it is the wait of a thread that will
return success, or of one that already has. -/
lemma Sound.wake (h : l.Sound owner) (hw : w ∈ l.hooks pa)
    (hsleep : (l.tasks w.task).sleepsOn w.futexKey = true) :
    { l with
      tasks := (wakeupFutexTask l.tasks w.task w.futexKey).2
      counted := (w.task, w.futexKey) :: l.counted }.Sound owner := by
  obtain ⟨hb, hk⟩ : (l.tasks w.task).status = .blocked ∧ (l.tasks w.task).futexKey = w.futexKey := by
    simpa [FutexTask.sleepsOn] using hsleep
  simp only [wakeupFutexTask, if_pos hsleep]
  have hclear := h.clear { l.tasks w.task with status := .ready, futexKey := 0, futexPa := 0 } hb rfl
  have hnew : (w.task, w.futexKey) ∉ l.counted := fun hmem => (h.settled _ hmem).1 hk
  have h0 := (h.hookKey pa w hw).1
  refine ⟨hclear.pcKey, hclear.hookKey, hclear.taskKey, fun p hp => ?_, hclear.nodup, hclear.place, fun u k hu => ?_,
    hclear.sleeps, hclear.unhooks, hclear.ended, fun p hp => ?_, nodup_cons.2 ⟨hnew, h.distinct⟩⟩
  · rcases mem_cons.1 hp with rfl | hp
    · exact ⟨h0, (h.hookKey pa w hw).2.1⟩
    · exact h.countedKey p hp
  · refine ⟨(hclear.fresh u k hu).1, (hclear.fresh u k hu).2.1, fun hmem => ?_⟩
    rcases mem_cons.1 hmem with heq | hmem
    · exact (h.fresh u k hu).1 pa w hw (Prod.ext_iff.1 heq).2.symm
    · exact (h.fresh u k hu).2.2 hmem
  · rcases mem_cons.1 hp with rfl | hp
    · refine ⟨by simpa using h0.ne, ?_⟩
      by_cases hpc : (l.pc w.task).key = some w.futexKey
      · right
        rcases key_cases hpc with hp | hs | hu
        · exact absurd rfl ((h.fresh _ _ hp).1 pa w hw)
        · refine ⟨hs, .inl (by simp), by simp, ?_⟩
          rcases h.sleeps _ _ hs with h1 | ⟨-, htime⟩
          · exact absurd (hk ▸ h1) h0.ne'
          · simpa using htime
        · obtain ⟨⟨found, pa'⟩, hu⟩ := Option.isSome_iff_exists.1 hu
          have := (h.unhooks _ _ _ hu).1
          rw [hb] at this
          cases this
      · left
        rw [← hk] at hpc h0
        rcases h.ended _ h0.ne' hpc with hret | hnone
        · rwa [hk] at hret
        · exact absurd hk.symm (hnone pa w hw)
    · have hset := hclear.settled p hp
      exact ⟨hset.1, hset.2.imp_right fun hr => ⟨hr.1, hr.2, hr.3, hr.4⟩⟩

/-- A requeue takes the entry `w` of a wait that still sleeps from `oldPa` to `newPa`. -/
lemma Sound.move (h : l.Sound owner) {oldPa newPa : ℕ}
    (hw : w ∈ l.hooks oldPa) (hsleep : (l.tasks w.task).sleepsOn w.futexKey = true)
    (hmem : ∀ pa, ∀ x ∈ hooks pa, x ∈ l.hooks pa ∨ x = w)
    (hnew : ∀ pa, ∀ x ∈ hooks pa, x.futexKey = w.futexKey → pa = newPa)
    (hnodup : ∀ pa, ((hooks pa).map FutexWaiter.futexKey).Nodup) :
    { l with tasks := (requeueFutexTask l.tasks w.task w.futexKey newPa).2, hooks := hooks }.Sound owner := by
  obtain ⟨hb, hk⟩ : (l.tasks w.task).status = .blocked ∧ (l.tasks w.task).futexKey = w.futexKey := by
    simpa [FutexTask.sleepsOn] using hsleep
  simp only [requeueFutexTask, if_pos hsleep]
  have htasks : ∀ task u, update l.tasks w.task task u = if u = w.task then task else l.tasks u :=
    fun task => update_apply _ _ _
  have hkeep : ∀ k, (∀ pa, ∀ x ∈ l.hooks pa, x.futexKey ≠ k) → ∀ pa, ∀ x ∈ hooks pa, x.futexKey ≠ k := by grind
  refine ⟨h.pcKey, ?_, ?_, h.countedKey, hnodup, ?_, ?_, ?_, ?_, ?_, ?_, h.distinct⟩
  case refine_8 =>
    intro p hp
    obtain ⟨hne, hset⟩ := h.settled p hp
    exact ⟨by grind, hset.imp_right fun hr => ⟨hr.sleeping, by grind [hr.status], by grind [hr.cleared],
      by grind [hr.untimed]⟩⟩
  all_goals grind

/-- A thread goes on, and a wait may return. A wait that a scan has counted stays on its way to success. -/
lemma Sound.setPc (h : l.Sound owner) {returns : List (ℕ × ℕ × SyscallRet)}
    (hreturns : ∀ x ∈ l.returns, x ∈ returns) (hkey : ∀ k, pc.key = some k → (l.pc t).key = some k)
    (hpending : ∀ k, pc.pending = some k → (l.pc t).pending = some k)
    (hsleeping : ∀ k, pc.sleeping = some k → (l.pc t).sleeping = some k)
    (hunhooking : ∀ found pa, pc.unhooking = some (found, pa) →
      (l.tasks t).status = .running ∧ (l.tasks t).futexKey = found ∧ (l.tasks t).futexPa = pa)
    (hended : (l.tasks t).futexKey ≠ 0 → pc.key ≠ some (l.tasks t).futexKey →
      (t, (l.tasks t).futexKey, .ok 0) ∈ returns ∨ ∀ pa, ∀ w ∈ l.hooks pa, w.futexKey ≠ (l.tasks t).futexKey)
    (hsettled : ∀ k, (t, k) ∈ l.counted → l.Returning t k → (t, k, .ok 0) ∈ returns ∨ pc.sleeping = some k ∧
      ∃ w, pc = .asleep w k) :
    { l with pc := update l.pc t pc, returns := returns }.Sound owner := by
  have hpcs : ∀ u, update l.pc t pc u = if u = t then pc else l.pc u := update_apply _ _ _
  refine ⟨?_, h.hookKey, h.taskKey, h.countedKey, h.nodup, h.place, ?_, ?_, ?_, ?_, ?_, h.distinct⟩
  case refine_6 =>
    rintro ⟨u, k⟩ hp
    obtain ⟨hne, hset⟩ := h.settled _ hp
    refine ⟨hne, ?_⟩
    rcases hset with hret | hr
    · exact .inl (hreturns _ hret)
    by_cases hut : u = t
    · subst hut
      refine (hsettled k hp hr).imp_right fun hs => ⟨?_, ?_, hr.cleared, hr.untimed⟩
      · simp only [update_self]
        exact hs.1
      · simp only [update_self]
        exact hr.status.imp_right fun hrun => ⟨hrun.1, hs.2⟩
    · right
      refine ⟨?_, ?_, hr.cleared, hr.untimed⟩ <;> simp only [update_of_ne hut]
      exacts [hr.sleeping, hr.status]
  all_goals grind

lemma Sound.goto (h : l.Sound owner) (hphase : pc.phase = (l.pc t).phase)
    (hasleep : ∀ k, pc.sleeping = some k → ∃ w, pc = .asleep w k) :
    { l with pc := update l.pc t pc }.Sound owner := by
  obtain ⟨hkey, hpending, hsleeping, hunhooking⟩ : pc.key = (l.pc t).key ∧ pc.pending = (l.pc t).pending ∧
      pc.sleeping = (l.pc t).sleeping ∧ pc.unhooking = (l.pc t).unhooking := by
    simpa only [phase, Prod.mk.injEq] using hphase
  refine h.setPc (fun _ hx => hx) (by grind) (by grind) (by grind) (by grind) (by grind) fun k _ hr => .inr ?_
  have hs : pc.sleeping = some k := hsleeping.trans hr.sleeping
  exact ⟨hs, hasleep k hs⟩

lemma Sound.finish (h : l.Sound owner) {ret : SyscallRet} (hended : (l.tasks t).futexKey ≠ 0 →
      (t, (l.tasks t).futexKey, .ok 0) ∈ (t, k, ret) :: l.returns ∨
        ∀ pa, ∀ w ∈ l.hooks pa, w.futexKey ≠ (l.tasks t).futexKey)
    (hsettled : ∀ k', l.Returning t k' → (t, k', .ok 0) ∈ (t, k, ret) :: l.returns) :
    { l with pc := update l.pc t .idle, returns := (t, k, ret) :: l.returns }.Sound owner :=
  h.setPc (fun _ hx => mem_cons_of_mem _ hx) nofun nofun nofun nofun (fun h0 _ => hended h0)
    fun k' _ hr => .inl (hsettled k' hr)

lemma Sound.fail (h : l.Sound owner) {w : WaitArgs} (err : SysErrNo) (hpc : l.pc t = .asleep w k)
    (hrun : (l.tasks t).status = .running) (hret : (t, k) ∈ l.counted → ¬ l.Returning t k) :
    { l with
      pc := update l.pc t (.unhookBump k (l.tasks t).futexKey (l.tasks t).futexPa err) }.Sound owner := by
  have hkey : (l.pc t).key = some k := by
    rw [hpc]
    rfl
  refine h.setPc (fun _ hx => hx) (fun k' hk' => hkey.trans hk') nofun nofun ?_ (fun h0 hne => ?_) fun k' hc hr => ?_
  · rintro found pa ⟨⟩
    exact ⟨hrun, rfl, rfl⟩
  · exact h.ended t h0 (hkey ▸ hne)
  · have hs := hr.sleeping
    rw [hpc] at hs
    cases hs
    exact absurd hr (hret hc)

lemma Sound.enqueue (h : l.Sound owner) {w : WaitArgs} (hpc : l.pc t = .enqueue w k) (task : FutexTask)
    (hkey : task.futexKey = k) (hpa : task.futexPa = w.queueKey) (htime : task.futexTimedout = false) :
    { l with
      tasks := update l.tasks t task
      pc := update l.pc t (.arm w k)
      hooks := update l.hooks w.queueKey (l.hooks w.queueKey ++ [FutexWaiter.mk t w.bitset k]) }.Sound owner := by
  have hpend : (l.pc t).pending = some k := by
    rw [hpc]
    rfl
  obtain ⟨hnone, hrec, hcount⟩ := h.fresh t k hpend
  have hkpc := h.pcKey t k (key_of_pending hpend)
  have htasks : ∀ u, update l.tasks t task u = if u = t then task else l.tasks u := update_apply _ _ _
  have hpcs : ∀ u, update l.pc t (.arm w k) u = if u = t then .arm w k else l.pc u := update_apply _ _ _
  generalize hhooks : update l.hooks w.queueKey (l.hooks w.queueKey ++ [FutexWaiter.mk t w.bitset k]) = hooks
  have hmem : ∀ pa, ∀ x ∈ hooks pa, x ∈ l.hooks pa ∨ x = ⟨t, w.bitset, k⟩ ∧ pa = w.queueKey := by
    intro pa x hx
    rw [← hhooks, update_apply] at hx
    grind
  have hother : ∀ k', k' ≠ k → (∀ pa, ∀ x ∈ l.hooks pa, x.futexKey ≠ k') →
      ∀ pa, ∀ x ∈ hooks pa, x.futexKey ≠ k' := by grind
  -- the key belongs to this thread alone
  have howner : ∀ u k', (l.pc u).pending = some k' → u ≠ t → k' ≠ k := by
    intro u k' hu hne
    have := (h.pcKey u k' (key_of_pending hu)).2.2
    grind
  refine ⟨?_, ?_, ?_, h.countedKey, ?_, ?_, ?_, ?_, ?_, ?_, ?_, h.distinct⟩
  case refine_4 =>
    intro pa
    rw [← hhooks]
    by_cases hp : pa = w.queueKey
    · subst hp
      simp only [update_self, map_append, map_cons, map_nil]
      refine nodup_append.2 ⟨h.nodup _, nodup_singleton _, ?_⟩
      intro a ha b hb
      obtain ⟨x, hx, rfl⟩ := mem_map.1 ha
      rw [mem_singleton.1 hb]
      exact hnone _ x hx
    · simp only [update_of_ne hp]
      exact h.nodup pa
  case refine_10 =>
    rintro ⟨u, k'⟩ hp
    obtain ⟨hne, hset⟩ := h.settled _ hp
    by_cases hut : u = t
    · subst hut
      refine ⟨by grind, hset.imp_right fun hr => ?_⟩
      have := hr.sleeping
      rw [hpc] at this
      cases this
    · simp only [update_of_ne hut]
      refine ⟨hne, hset.imp_right fun hr => ?_⟩
      refine ⟨?_, ?_, ?_, ?_⟩ <;> simp only [update_of_ne hut]
      exacts [hr.1, hr.2, hr.3, hr.4]
  all_goals grind [key, pending, sleeping, unhooking]

lemma Sound.wait (h : l.Sound owner) {w : WaitArgs} (hpc : l.pc t = .idle) :
    { l with pc := update l.pc t (.check w (l.keyCounter + 1)), keyCounter := l.keyCounter + 1 }.Sound
      (update owner (l.keyCounter + 1) t) := by
  have howner : ∀ k, update owner (l.keyCounter + 1) t k = if k = l.keyCounter + 1 then t else owner k :=
    update_apply _ _ _
  have hpcs : ∀ u, update l.pc t (.check w (l.keyCounter + 1)) u =
      if u = t then .check w (l.keyCounter + 1) else l.pc u := update_apply _ _ _
  refine ⟨?_, ?_, ?_, ?_, h.nodup, h.place, ?_, ?_, ?_, ?_, ?_, h.distinct⟩
  case refine_9 =>
    intro p hp
    refine ⟨(h.settled p hp).1, (h.settled p hp).2.imp_right fun hr => ?_⟩
    have hpt : p.1 ≠ t := by
      intro hpt
      have := hr.sleeping
      rw [hpt, hpc] at this
      cases this
    refine ⟨?_, ?_, hr.3, hr.4⟩ <;> simp only [update_of_ne hpt]
    exacts [hr.1, hr.2]
  all_goals grind [key, pending, sleeping, unhooking]

/-! ### Scans -/

lemma Sound.recount (h : l.Sound owner) {counted : List (ℕ × ℕ)} (hperm : counted.Perm l.counted) :
    { l with counted := counted }.Sound owner :=
  ⟨h.pcKey, h.hookKey, h.taskKey, fun p hp => h.countedKey p (hperm.mem_iff.1 hp), h.nodup, h.place,
    fun t k hk => ⟨(h.fresh t k hk).1, (h.fresh t k hk).2.1, fun hmem => (h.fresh t k hk).2.2 (hperm.mem_iff.1 hmem)⟩,
    h.sleeps, h.unhooks, h.ended,
    fun p hp => ⟨(h.settled p (hperm.mem_iff.1 hp)).1, (h.settled p (hperm.mem_iff.1 hp)).2.imp_right fun hr =>
      ⟨hr.1, hr.2, hr.3, hr.4⟩⟩,
    hperm.nodup_iff.2 h.distinct⟩

def wait (w : FutexWaiter) : ℕ × ℕ := (w.task, w.futexKey)

lemma counted_append (woken : List FutexWaiter) (w : FutexWaiter) (counted : List (ℕ × ℕ)) :
    ((woken ++ [w]).map wait ++ counted).Perm (wait w :: (woken.map wait ++ counted)) := by
  simp only [map_append, map_cons, map_nil, append_assoc, singleton_append]
  exact perm_middle

def scanned (l : Ledger) (pa : ℕ) (r : WakeScan) : Ledger :=
  { l with
    tasks := r.tasks
    hooks := update l.hooks pa r.queue
    counted := r.woken.map wait ++ l.counted }

lemma subperm_update {q q' : List FutexWaiter} (h : q'.Subperm q) (p : ℕ) :
    (update hooks pa q' p).Subperm (update hooks pa q p) := by
  by_cases hp : p = pa
  · subst hp
    simpa only [update_self] using h
  · simp only [update_of_ne hp]
    exact List.Subperm.refl _

lemma wakeupFutexTask_of_sleepsOn (h : (tasks t).sleepsOn k = true) : (wakeupFutexTask tasks t k).1 = true := by
  rw [wakeupFutexTask, if_pos h]

lemma wakeupFutexTask_of_not_sleepsOn (h : (tasks t).sleepsOn k ≠ true) :
    wakeupFutexTask tasks t k = (false, tasks) := by
  rw [wakeupFutexTask, if_neg h]

lemma Sound.scanWake {rest : List FutexWaiter} (hq : r.queue = w :: rest) (h : (l.scanned pa r).Sound owner) :
    (l.scanned pa ⟨(wakeupFutexTask r.tasks w.task w.futexKey).2,
      if (wakeupFutexTask r.tasks w.task w.futexKey).1 then r.woken ++ [w] else r.woken, rest⟩).Sound owner := by
  have hsub : rest.Subperm r.queue := hq ▸ (sublist_cons_self w rest).subperm
  by_cases hsleep : (r.tasks w.task).sleepsOn w.futexKey = true
  · have hw : w ∈ (l.scanned pa r).hooks pa := by
      simp only [scanned, update_self, hq, mem_cons_self]
    rw [if_pos (wakeupFutexTask_of_sleepsOn hsleep)]
    exact ((h.wake hw hsleep).shrink (subperm_update hsub)).recount (counted_append r.woken w l.counted)
  · rw [wakeupFutexTask_of_not_sleepsOn hsleep]
    exact h.shrink (subperm_update hsub)

lemma Sound.wakeLoop (h : (l.scanned pa r).Sound owner) (maxNum : ℕ) (bitset : BitVec 32) (n : ℕ) :
    (l.scanned pa (wakeLoop maxNum bitset n r)).Sound owner := by
  induction n generalizing r with
  | zero => exact h
  | succ n ih =>
    unfold Task.wakeLoop
    split
    · exact h
    split
    · exact h
    next w rest hq =>
    split
    · refine ih (h.shrink (subperm_update ?_))
      rw [hq]
      exact (sublist_cons_self w rest).subperm
    split
    · exact ih (h.scanWake hq)
    · refine ih (h.shrink (subperm_update ?_))
      rw [hq]
      exact (perm_append_singleton w rest).subperm

def rescanned (l : Ledger) (oldPa newPa : ℕ) (rest : List FutexWaiter) (r : RequeueScan) : Ledger :=
  { l with
    tasks := r.tasks
    hooks := fun pa =>
      (if pa = oldPa then rest ++ r.retained else l.hooks pa) ++ (if pa = newPa then r.moved else [])
    counted := r.woken.map wait ++ l.counted }

variable {oldPa newPa : ℕ} {w : FutexWaiter} {rest : List FutexWaiter} {r : RequeueScan}

lemma mem_rescanned_hooks : w ∈ (l.rescanned oldPa newPa (w :: rest) r).hooks oldPa := by
  simp [rescanned]

lemma rescanned_sublist (pa : ℕ) :
    ((l.rescanned oldPa newPa rest r).hooks pa).Sublist ((l.rescanned oldPa newPa (w :: rest) r).hooks pa) := by
  simp only [rescanned]
  refine append ?_ (refl _)
  split
  · exact append (sublist_cons_self w rest) (refl _)
  · exact refl _

lemma rescanned_moved (pa : ℕ) : (l.rescanned oldPa newPa rest { r with moved := r.moved ++ [w] }).hooks pa =
    (l.rescanned oldPa newPa rest r).hooks pa ++ if pa = newPa then [w] else [] := by
  simp only [rescanned]
  by_cases hpa : pa = newPa <;> simp [hpa]

lemma Sound.drop (h : (l.rescanned oldPa newPa (w :: rest) r).Sound owner) :
    (l.rescanned oldPa newPa rest r).Sound owner :=
  h.shrink fun pa => (rescanned_sublist pa).subperm

lemma Sound.retain (h : (l.rescanned oldPa newPa (w :: rest) r).Sound owner) :
    (l.rescanned oldPa newPa rest { r with retained := r.retained ++ [w] }).Sound owner := by
  refine h.shrink fun pa => List.Perm.subperm ?_
  simp only [rescanned]
  refine List.Perm.append_right _ ?_
  split
  · rw [← append_assoc]
    exact perm_append_singleton w (rest ++ r.retained)
  · exact List.Perm.refl _

lemma Sound.rewake (h : (l.rescanned oldPa newPa (w :: rest) r).Sound owner) : (l.rescanned oldPa newPa rest { r with
      tasks := (wakeupFutexTask r.tasks w.task w.futexKey).2
      woken := if (wakeupFutexTask r.tasks w.task w.futexKey).1 then r.woken ++ [w] else r.woken }).Sound owner := by
  by_cases hsleep : (r.tasks w.task).sleepsOn w.futexKey = true
  · rw [if_pos (wakeupFutexTask_of_sleepsOn hsleep)]
    exact Sound.drop ((h.wake mem_rescanned_hooks hsleep).recount (counted_append r.woken w l.counted))
  · rw [wakeupFutexTask_of_not_sleepsOn hsleep]
    exact h.drop

lemma Sound.remove (h : (l.rescanned oldPa newPa (w :: rest) r).Sound owner) : (l.rescanned oldPa newPa rest { r with
      tasks := (requeueFutexTask r.tasks w.task w.futexKey newPa).2
      moved := if (requeueFutexTask r.tasks w.task w.futexKey newPa).1 then r.moved ++ [w] else r.moved
      }).Sound owner := by
  by_cases hsleep : (r.tasks w.task).sleepsOn w.futexKey = true
  · have hok : (requeueFutexTask r.tasks w.task w.futexKey newPa).1 = true := by
      rw [requeueFutexTask, if_pos hsleep]
    rw [if_pos hok]
    have hk : (r.tasks w.task).futexKey = w.futexKey := by
      simpa [FutexTask.sleepsOn] using (Bool.and_eq_true_iff.1 hsleep).2
    -- the wait still sleeps, so the entry that leaves is the only one with its key
    have hold : ∀ pa, ∀ x ∈ (l.rescanned oldPa newPa rest r).hooks pa, x.futexKey ≠ w.futexKey := by
      intro pa x hx hxk
      have hx' := (h.drop.hookKey pa x hx).2.2
      have hw' := (h.hookKey oldPa w mem_rescanned_hooks).2.2
      have htask : x.task = w.task := by rw [← hx', hxk, hw']
      have hpa : (r.tasks w.task).futexPa = pa := by
        have := h.drop.place pa x hx
        rw [htask, hxk] at this
        exact this hk
      have hpaOld := h.place oldPa w mem_rescanned_hooks hk
      obtain rfl : pa = oldPa := hpa.symm.trans hpaOld
      have hnodup := h.nodup pa
      simp only [rescanned, if_true, cons_append, map_cons, nodup_cons] at hnodup hx
      exact hnodup.1 (mem_map.2 ⟨x, hx, hxk⟩)
    have hmem : ∀ pa, ∀ x ∈ (l.rescanned oldPa newPa rest { r with moved := r.moved ++ [w] }).hooks pa,
        x ∈ (l.rescanned oldPa newPa rest r).hooks pa ∨ x = w ∧ pa = newPa := by
      intro pa x hx
      rw [rescanned_moved, mem_append] at hx
      refine hx.imp_right fun hx => ?_
      split at hx
      · exact ⟨mem_singleton.1 hx, ‹_›⟩
      · cases hx
    refine Sound.move h mem_rescanned_hooks hsleep (fun pa x hx => ?_) (fun pa x hx hxk => ?_) fun pa => ?_
    · exact (hmem pa x hx).imp ((rescanned_sublist pa).subset ·) And.left
    · rcases hmem pa x hx with hx | ⟨-, hpa⟩
      · exact absurd hxk (hold pa x hx)
      · exact hpa
    have heq : (l.rescanned oldPa newPa rest { r with moved := r.moved ++ [w] }).hooks pa = _ := rescanned_moved pa
    simp only [rescanned] at heq ⊢
    rw [heq, map_append]
    refine nodup_append.2 ⟨h.drop.nodup pa, ?_, ?_⟩
    · split <;> simp
    intro a ha b hb
    obtain ⟨x, hx, rfl⟩ := mem_map.1 ha
    split at hb
    · rw [mem_singleton.1 hb]
      exact hold pa x hx
    · cases hb
  · simp only [requeueFutexTask, if_neg hsleep, Bool.false_eq_true, if_false]
    exact h.drop

lemma Sound.requeueLoop (h : (l.rescanned oldPa newPa rest r).Sound owner) (wakeLimit requeueLimit : ℕ) :
    (l.rescanned oldPa newPa [] (requeueLoop wakeLimit requeueLimit newPa rest r)).Sound owner := by
  induction rest generalizing r with
  | nil => exact h
  | cons w rest ih =>
    unfold Task.requeueLoop
    split
    · exact ih h.drop
    split
    · exact ih h.rewake
    split
    · exact ih h.remove
    · exact ih h.retain

end Ledger

end Ya2yOS.Task
