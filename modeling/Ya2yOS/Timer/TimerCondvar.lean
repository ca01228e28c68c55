import Ya2yOS.Lib.Heap
import Ya2yOS.Utils.SysErrNo

/-!
# The timer heap

`timer/timer_condvar.rs` and the expiry time that `sys_futex` computes. The heap is ordered
by tick counts, while `check_futex_timer` compares times; words wrap.
-/

namespace Ya2yOS.Timer

open Lib Heap

def wordSize : ℕ := 2 ^ 64

def nsecPerSec : ℕ := 1_000_000_000

def nowTimeStamp : ℕ := 1_777_593_600

structure Timespec where
  tvSec : ℕ
  tvNsec : ℕ
deriving DecidableEq, Repr

namespace Timespec

def toPair (t : Timespec) : ℕ ×ₗ ℕ := toLex (t.tvSec, t.tvNsec)

lemma toPair_injective : Function.Injective toPair := by
  intro a b h
  obtain ⟨hs, hn⟩ := Prod.mk.inj (toLex.injective h)
  obtain ⟨s, n⟩ := a
  subst hs hn
  rfl

instance : LinearOrder Timespec := LinearOrder.lift' toPair toPair_injective

def add (a b : Timespec) : Timespec :=
  let tvNsec := (a.tvNsec + b.tvNsec) % wordSize
  { tvSec := (a.tvSec + b.tvSec + tvNsec / nsecPerSec) % wordSize
    tvNsec := tvNsec % nsecPerSec }

def toTick (freq : ℕ) (t : Timespec) : ℕ :=
  (t.tvSec * freq % wordSize + t.tvNsec * freq % wordSize / nsecPerSec) % wordSize

/-- The tick count of the time does not wrap. -/
def Unwrapped (freq : ℕ) (t : Timespec) : Prop :=
  t.tvNsec * freq < wordSize ∧ t.tvSec * freq + t.tvNsec * freq / nsecPerSec < wordSize
deriving Decidable

variable {freq : ℕ} {q : List TimerCondVar}

lemma toTick_eq {t : Timespec} (h : t.Unwrapped freq) :
    t.toTick freq = t.tvSec * freq + t.tvNsec * freq / nsecPerSec := by
  obtain ⟨hnsec, hsum⟩ := h
  have hsec : t.tvSec * freq < wordSize := lt_of_le_of_lt (Nat.le_add_right _ _) hsum
  unfold toTick
  rw [Nat.mod_eq_of_lt hnsec, Nat.mod_eq_of_lt hsec, Nat.mod_eq_of_lt hsum]

lemma toTick_mono {t u : Timespec} (hn : t.tvNsec < nsecPerSec) (ht : t.Unwrapped freq) (hu : u.Unwrapped freq)
    (h : t ≤ u) : t.toTick freq ≤ u.toTick freq := by
  have hle : t.tvSec < u.tvSec ∨ t.tvSec = u.tvSec ∧ t.tvNsec ≤ u.tvNsec := Prod.Lex.toLex_le_toLex.1 h
  rw [toTick_eq ht, toTick_eq hu]
  rcases hle with hlt | ⟨heq, hnsec⟩
  · have hdiv : t.tvNsec * freq / nsecPerSec ≤ freq :=
      Nat.div_le_of_le_mul (Nat.mul_le_mul_right freq hn.le)
    have hmul : (t.tvSec + 1) * freq ≤ u.tvSec * freq := Nat.mul_le_mul_right freq hlt
    rw [Nat.add_mul, Nat.one_mul] at hmul
    apply le_trans _ (Nat.le_add_right _ _)
    omega
  · rw [heq]
    exact Nat.add_le_add_left (Nat.div_le_div_right (Nat.mul_le_mul_right freq hnsec)) _

end Timespec

def futexExpire (realtime : Bool) (timeout now : Timespec) : Timespec :=
  if realtime then { timeout with tvSec := (timeout.tvSec + wordSize - nowTimeStamp) % wordSize }
  else timeout.add now

/-! ### The heap -/

inductive TimerType where
  | futex
  | stoppedTask
  | sigTimedWait
deriving DecidableEq, Repr

structure TimerCondVar where
  expire : Timespec
  task : ℕ
  kind : TimerType
  extraData : ℕ
deriving DecidableEq, Repr

namespace TimerCondVar

def tick (freq : ℕ) (t : TimerCondVar) : ℕ := t.expire.toTick freq

def ofFutex (expire : Timespec) (task futexKey : ℕ) : TimerCondVar := ⟨expire, task, .futex, futexKey⟩

end TimerCondVar

inductive Handler where
  | handleTimer (task futexKey : ℕ)
  | handleSigtimedwaitTimer (task : ℕ)
deriving DecidableEq, Repr

def handlerOf (live : ℕ → Bool) (t : TimerCondVar) : Option (List Handler) :=
  if !live t.task then some []
  else
    match t.kind with
    | .futex => some [.handleTimer t.task t.extraData]
    | .sigTimedWait => some [.handleSigtimedwaitTimer t.task]
    | .stoppedTask => none

structure Checked where
  removed : List TimerCondVar
  handled : List Handler
  heap : List TimerCondVar

section Check

variable {freq : ℕ} (H : Heap (TimerCondVar.tick freq)) (live : ℕ → Bool) (now : Timespec)

/-- The loop of `check_futex_timer`, with the number of rounds as fuel. -/
def checkLoop : ℕ → List TimerCondVar → Option Checked
  | 0, q => some ⟨[], [], q⟩
  | fuel + 1, q =>
    match H.pop q with
    | none => some ⟨[], [], q⟩
    | some (t, rest) =>
      if t.expire ≤ now then do
        let handled ← handlerOf live t
        let c ← checkLoop fuel rest
        return ⟨t :: c.removed, handled ++ c.handled, c.heap⟩
      else some ⟨[], [], q⟩

/-- `check_futex_timer`. Each round takes an entry, so the length of the heap is fuel enough. -/
def checkFutexTimer (q : List TimerCondVar) : Option Checked := checkLoop H live now q.length q

end Check

/-- Nothing that has expired stays, and nothing else goes. -/
structure Checked.Exact (now : Timespec) (q : List TimerCondVar) (c : Checked) : Prop where
  expired : ∀ t ∈ c.removed, t.expire ≤ now
  pending : ∀ t ∈ c.heap, now < t.expire
  all : q.Perm (c.removed ++ c.heap)

/-- `check_futex_timer` is exact at this time, however the heap orders entries of equal tick count. -/
def ExactAt (freq : ℕ) (now : Timespec) (q : List TimerCondVar) : Prop :=
  ∀ (H : Heap (TimerCondVar.tick freq)) (live : ℕ → Bool),
    ∃ c, checkFutexTimer H live now q = some c ∧ c.Exact now q

def TicksSeparate (freq : ℕ) (now : Timespec) (q : List TimerCondVar) : Prop :=
  ∀ t ∈ q, ∀ u ∈ q, t.expire ≤ now → now < u.expire → t.tick freq < u.tick freq
deriving Decidable

/-- The heap order by ticks agrees with the order of the expiry times. -/
def TicksMonotone (freq : ℕ) (q : List TimerCondVar) : Prop :=
  ∀ t ∈ q, ∀ u ∈ q, t.expire < u.expire → t.tick freq < u.tick freq

section Loop

variable {freq fuel : ℕ} {live : ℕ → Bool} {now : Timespec} {t : TimerCondVar}

lemma handlerOf_isSome (live : ℕ → Bool) (h : t.kind ≠ .stoppedTask) : ∃ l, handlerOf live t = some l := by
  unfold handlerOf
  split_ifs
  · exact ⟨_, rfl⟩
  · cases hk : t.kind with
    | futex | sigTimedWait => exact ⟨_, rfl⟩
    | stoppedTask => exact absurd hk h

lemma checkLoop_spec (H : Heap (TimerCondVar.tick freq)) (live : ℕ → Bool) (now : Timespec) (hf : q.length ≤ fuel)
    (hk : ∀ t ∈ q, t.kind ≠ .stoppedTask) :
    ∃ c, checkLoop H live now fuel q = some c ∧ (∀ t ∈ c.removed, t.expire ≤ now) ∧
      q.Perm (c.removed ++ c.heap) ∧ ∀ t rest, H.pop c.heap = some (t, rest) → now < t.expire := by
  induction fuel generalizing q with
  | zero =>
    obtain rfl := List.eq_nil_of_length_eq_zero (Nat.le_zero.1 hf)
    exact ⟨⟨[], [], []⟩, rfl, by simp, .refl _, by simp [H.pop_nil]⟩
  | succ fuel ih =>
    rw [checkLoop]
    cases hp : H.pop q with
    | none => exact ⟨_, rfl, by simp, .refl _, by simp [hp]⟩
    | some x =>
      obtain ⟨t, rest⟩ := x
      dsimp only
      split_ifs with ht
      · have hlen := length_of_pop hp
        obtain ⟨c, hc, hrem, hperm, htop⟩ := ih (Nat.le_of_succ_le_succ (le_of_eq_of_le hlen.symm hf))
          fun u hu => hk u (mem_of_pop hp hu)
        obtain ⟨l, hl⟩ := handlerOf_isSome live (hk t (pop_mem hp))
        refine ⟨⟨t :: c.removed, l ++ c.handled, c.heap⟩, by simp [hl, hc], ?_, ?_, htop⟩
        · intro u hu
          rcases List.mem_cons.1 hu with rfl | hu
          · exact ht
          · exact hrem u hu
        · exact (H.pop_perm hp).trans (hperm.cons t)
      · refine ⟨_, rfl, by simp, .refl _, ?_⟩
        intro u r hu
        obtain ⟨rfl, -⟩ := Prod.mk.inj (Option.some.inj (hp.symm.trans hu))
        exact not_le.1 ht

/-- A timer that has not expired and whose tick count is no larger keeps an expired one in the heap,
if it is the one the heap shows among equals. -/
lemma checkLoop_stuck {u : TimerCondVar} {c : Checked} (ht : t ∈ q) (hu : u ∈ q) (hexp : t.expire ≤ now)
    (hpend : now < u.expire) (hle : u.tick freq ≤ t.tick freq)
    (hc : checkLoop (favour (TimerCondVar.tick freq) fun x => decide (now < x.expire)) live now fuel q = some c) :
    t ∈ c.heap := by
  induction fuel generalizing q c with
  | zero =>
    cases hc
    exact ht
  | succ fuel ih =>
    rw [checkLoop] at hc
    split at hc
    · cases hc
      exact ht
    next x rest hp =>
    split_ifs at hc with hx
    · simp only [Option.bind_eq_bind, Option.bind_eq_some_iff] at hc
      obtain ⟨l, -, c', hc', heq⟩ := hc
      cases heq
      have hux : u ≠ x := fun h => absurd hx (not_le.2 (h ▸ hpend))
      -- an expired timer on top means that the pending one has a larger tick count
      have htx : t ≠ x := by
        rintro rfl
        have hall : ∀ z ∈ q, u.tick freq ≤ z.tick freq := fun z hz => hle.trans (pop_least hp hz)
        have hfav := favour_pop hp hu (by simpa using hpend) hall
        exact absurd hexp (not_le.2 (by simpa using hfav))
      have hmem {z : TimerCondVar} (hz : z ∈ q) (hne : z ≠ x) : z ∈ rest :=
        (List.mem_cons.1 (((favour _ _).pop_perm hp).mem_iff.1 hz)).resolve_left hne
      show t ∈ c'.heap
      exact ih (hmem ht htx) (hmem hu hux) hc'
    · cases hc
      exact ht

end Loop

lemma exactAt_iff (hk : ∀ t ∈ q, t.kind ≠ .stoppedTask)
    (now : Timespec) : ExactAt freq now q ↔ TicksSeparate freq now q := by
  constructor
  · intro h t ht u hu hexp hpend
    by_contra hlt
    obtain ⟨c, hc, hexact⟩ := h (favour _ fun x => decide (now < x.expire)) fun _ => false
    have hmem := checkLoop_stuck ht hu hexp hpend (not_lt.1 hlt) hc
    exact absurd hexp (not_le.2 (hexact.pending t hmem))
  · intro h H live
    obtain ⟨c, hc, hrem, hperm, htop⟩ := checkLoop_spec H live now (le_refl _) hk
    refine ⟨c, hc, hrem, ?_, hperm⟩
    intro t ht
    by_contra hexp
    cases hp : H.pop c.heap with
    | none =>
      rw [pop_eq_none.1 hp] at ht
      exact absurd ht List.not_mem_nil
    | some x =>
      obtain ⟨u, rest⟩ := x
      have hin {z : TimerCondVar} (hz : z ∈ c.heap) : z ∈ q := hperm.mem_iff.2 (List.mem_append_right _ hz)
      have hlt := h t (hin ht) u (hin (pop_mem hp)) (not_lt.1 hexp) (htop u rest hp)
      exact absurd (pop_least hp ht) (not_le.2 hlt)

/-- At every time, `check_futex_timer` removes exactly the expired timers if and only if the tick
counts separate them from the others; it does so at all times if and only if the heap order agrees
with the order of the expiry times. For normalised times whose tick counts do not wrap, it is enough
that different times have different tick counts (`ticksMonotone_of_ticks_ne`). -/
theorem checkFutexTimer_exact_iff (freq : ℕ) (q : List TimerCondVar)
    (hk : ∀ t ∈ q, t.kind ≠ .stoppedTask) :
    (∀ now, ExactAt freq now q ↔ TicksSeparate freq now q) ∧ ((∀ now, ExactAt freq now q) ↔ TicksMonotone freq q) := by
  refine ⟨exactAt_iff hk, ?_, ?_⟩
  · intro h t ht u hu hlt
    exact (exactAt_iff hk t.expire).1 (h t.expire) t ht u hu (le_refl _) hlt
  · intro h now
    apply (exactAt_iff hk now).2
    intro t ht u hu hexp hpend
    exact h t ht u hu (lt_of_le_of_lt hexp hpend)

/-- Where no tick count wraps, the order fails only between timers of one and the same tick. -/
theorem ticksMonotone_of_ticks_ne (hn : ∀ t ∈ q, t.expire.tvNsec < nsecPerSec)
    (hw : ∀ t ∈ q, t.expire.Unwrapped freq)
    (hne : ∀ t ∈ q, ∀ u ∈ q, t.expire ≠ u.expire → t.tick freq ≠ u.tick freq) : TicksMonotone freq q := by
  intro t ht u hu hlt
  have hle : t.tick freq ≤ u.tick freq := Timespec.toTick_mono (hn t ht) (hw t ht) (hw u hu) hlt.le
  exact lt_of_le_of_ne hle (hne t ht u hu hlt.ne)

/-- Two short timeouts, and one whose tick count is nearly `2 ^ 64`. -/
def shortTimers : List TimerCondVar :=
  [.ofFutex (futexExpire false ⟨1, 0⟩ ⟨5, 0⟩) 1 1, .ofFutex (futexExpire false ⟨2, 0⟩ ⟨5, 0⟩) 2 2,
    .ofFutex (futexExpire false ⟨1_844_674_407_365, 0⟩ ⟨5, 0⟩) 3 3]

theorem ticksMonotone_shortTimers : TicksMonotone 10_000_000 shortTimers :=
  ticksMonotone_of_ticks_ne (by decide) (by decide) (by decide)

theorem exactAt_shortTimers : ExactAt 10_000_000 ⟨6, 0⟩ shortTimers :=
  ((checkFutexTimer_exact_iff 10_000_000 shortTimers (by decide)).1 ⟨6, 0⟩).2 (by decide +kernel)

/-- The timers of a relative timeout of one second and of one so long that its tick count wraps. -/
def wrappedTimers : List TimerCondVar :=
  [.ofFutex (futexExpire false ⟨1, 0⟩ ⟨5, 0⟩) 1 1,
    .ofFutex (futexExpire false ⟨1_844_674_407_371, 0⟩ ⟨5, 0⟩) 2 2]

/-- The long timeout stands on top of the heap, and the one that has expired stays under it. -/
theorem expired_timer_stays : ¬ ∀ q now, (∀ t ∈ q, t.kind ≠ .stoppedTask) → ExactAt 10_000_000 now q := by
  intro h
  have hexact := h wrappedTimers ⟨6, 0⟩ (by decide)
  exact absurd ((exactAt_iff (by decide) ⟨6, 0⟩).1 hexact) (by decide +kernel)

end Ya2yOS.Timer
