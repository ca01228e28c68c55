import Mathlib.Algebra.Ring.BooleanRing
import Ya2yOS.Signal.InterruptWait

/-!
# Signals that are not lost

In a run in which every signal that must end a wait finds its task `Blocked`, no task stays `Blocked` with such a
signal. Otherwise a signal can fall between the last look of a task and its `Blocked`.
-/

-- `grind` would try ring arithmetic on every `Bool`
attribute [-instance] instBooleanRingBool

namespace Ya2yOS.Signal

open Function Lib
open Ya2yOS.Task (Waker Sleepers)

namespace SignalSystem

variable {s s' : SignalSystem} {t u n : ℕ} {e : SignalEvent} {pc : SignalPc} {w : Waker} {sleepers : Sleepers}

@[grind =]
lemma goto_pc (s : SignalSystem) (t : ℕ) (pc : SignalPc) (u : ℕ) :
    (s.goto t pc).pc u = if u = t then pc else s.pc u := update_apply ..

lemma pc_goto (s : SignalSystem) (t : ℕ) (pc : SignalPc) : (s.goto t pc).pc t = pc := update_self ..

@[grind =]
lemma task_goto (s : SignalSystem) (t : ℕ) (pc : SignalPc) (u : ℕ) : (s.goto t pc).task u = s.task u := rfl

@[grind =]
lemma sleepers_goto (s : SignalSystem) (t : ℕ) (pc : SignalPc) : (s.goto t pc).sleepers = s.sleepers := rfl

@[grind =]
lemma pc_modify (s : SignalSystem) (t : ℕ) (f : SignalTask → SignalTask) (u : ℕ) : (s.modify t f).pc u = s.pc u := rfl

@[grind =]
lemma task_modify (s : SignalSystem) (t : ℕ) (f : SignalTask → SignalTask) (u : ℕ) :
    (s.modify t f).task u = if u = t then f (s.task t) else s.task u := by
  unfold modify
  dsimp only
  rw [update_apply]

lemma interruptWait_eq (s : SignalSystem) (t n : ℕ) : s.interruptWait t n = !(s.actionOf t n).ignores n := by
  unfold interruptWait KSigAction.ignores KSigAction.isHandler KSigAction.isIgnored
  by_cases hn : n = SIGCHLD
  · rw [if_pos hn, hn]
    cases (s.actionOf t SIGCHLD).disposition <;> decide
  · rw [if_neg hn]
    cases (s.actionOf t n).disposition <;> simp

lemma interruptWait_of_effective (h : s.Effective t n) : s.interruptWait t n = true := by
  rw [interruptWait_eq]
  rcases h with rfl | ⟨-, h⟩
  · unfold actionOf
    rw [if_pos (.inl rfl)]
    rfl
  · rw [h]
    rfl

/-! ### Wakers and names -/

def Fits : SignalPc → Prop
  | .store target w => w.task = target
  | .send _ signo => 0 < signo
  | _ => True

/-- The wakers of a task are its own, the signals that are pending have names, and a task is `Blocked` only in the
loop of `block_on`. -/
structure Tidy (s : SignalSystem) : Prop where
  slot : ∀ t w, (s.task t).interruptWaker = some w → w.task = t
  fits : ∀ u, Fits (s.pc u)
  named : ∀ t n, SigSet.has (s.task t).pending n = true → n ≤ 33
  asleep : ∀ t, s.sleepers.blocked t = true → ∃ kind, s.pc t = .loop kind

attribute [grind =] SignalPc.waits Fits

attribute [grind →] Tidy.slot Tidy.named

section Tidy

variable (hs : s.Tidy)
include hs

lemma Tidy.move (htask : ∀ v, s'.task v = s.task v ∨
      (∀ w, (s'.task v).interruptWaker = some w → w.task = v) ∧ ∀ n, SigSet.has (s'.task v).pending n = true → n ≤ 33)
    (hpc : s'.pc = update s.pc u pc) (hfits : Fits pc)
    (hblocked : ∀ v ≠ u, s'.sleepers.blocked v = true → s.sleepers.blocked v = true)
    (hself : s'.sleepers.blocked u = true → ∃ kind, pc = .loop kind) : s'.Tidy := by
  have hpcs : ∀ v, s'.pc v = if v = u then pc else s.pc v := by
    rw [hpc]
    exact update_apply _ _ _
  refine ⟨by grind, fun v => ?_, by grind, fun v hv => ?_⟩
  · have := hs.fits v
    grind
  · have := hs.asleep v
    grind

lemma Tidy.goto (hfree : s.Free u) (hfits : Fits pc) : (s.goto u pc).Tidy := by
  refine hs.move (fun _ => .inl rfl) rfl hfits (fun _ _ h => h) fun h => ?_
  cases hfree.1.symm.trans h

lemma Tidy.modify {f : SignalTask → SignalTask} (hfree : s.Free u) (hfits : Fits pc)
    (hslot : ∀ w, (f (s.task t)).interruptWaker = some w → w.task = t)
    (hnamed : ∀ n, SigSet.has (f (s.task t)).pending n = true → n ≤ 33) : ((s.modify t f).goto u pc).Tidy := by
  refine hs.move (fun v => ?_) rfl hfits (fun _ _ h => h) fun h => ?_
  · grind
  · cases hfree.1.symm.trans h

lemma Tidy.setSleepers (h : ∀ v, sleepers.blocked v = true → s.sleepers.blocked v = true) :
    Tidy { s with sleepers := sleepers } :=
  ⟨hs.slot, hs.fits, hs.named, fun v hv => hs.asleep v (h v hv)⟩

lemma Tidy.advance (hfree : s.Free u) (h : s.advance u (s.pc u) = some s') : s'.Tidy := by
  have hown : ∀ (f : SignalTask → SignalTask) (pc : SignalPc), Fits pc →
      (∀ x w, (f x).interruptWaker = some w → x.interruptWaker = some w ∨ w.task = u) →
      (∀ x n, SigSet.has (f x).pending n = true → SigSet.has x.pending n = true) → ((s.modify u f).goto u pc).Tidy := by
    intro f pc hpc hslot hnamed
    exact hs.modify hfree hpc (by grind) (by grind)
  cases hpc : s.pc u <;> rw [hpc] at h <;> simp only [SignalSystem.advance] at h
  case register =>
    cases h
    refine hown _ _ trivial (fun x w hw => .inr ?_) fun _ _ h => h
    rw [← Option.some.inj hw]
    rfl
  case consume signo =>
    cases h
    refine hown _ _ trivial (fun _ _ h => .inl h) fun x n hn => ?_
    rw [SigSet.has_remove, Bool.and_eq_true] at hn
    exact hn.1
  case block kind =>
    cases h
    exact hs.move (fun _ => .inl rfl) rfl trivial
      (fun v hv h => (Sleepers.undisturbed_blockCurrentIfNotWoken hv).blocked h) fun _ => ⟨kind, rfl⟩
  case clear last =>
    cases h
    exact hown _ _ trivial (fun _ _ h => .inl h) fun _ _ h => h
  case drop last =>
    cases h
    exact hown _ _ trivial (fun _ _ h => by cases h) fun _ _ h => h
  case swap =>
    split_ifs at h <;> cases h
    · exact hown _ _ trivial (fun _ _ h => .inl h) fun _ _ h => h
    · exact hs.goto hfree trivial
  case send target signo =>
    cases h
    refine hs.modify hfree ?_ (hs.slot target) fun n hn => ?_
    · split_ifs <;> trivial
    rw [SigSet.has_or, Bool.or_eq_true] at hn
    rcases hn with hn | hn
    · exact hs.named target n hn
    · unfold SigSet.fromSig at hn
      rw [SigSet.has_fromBitsTruncate, Bool.and_eq_true] at hn
      exact of_decide_eq_true hn.2
  case notify target iw =>
    split at h
    · next w hw =>
      cases h
      exact hs.modify hfree (hs.slot target w hw) (fun _ h => by cases h) (hs.named target)
    · cases h
      exact hs.goto hfree trivial
  case store target w =>
    cases h
    refine hs.move (fun v => ?_) rfl trivial (fun _ _ h => h) fun h => ?_
    · grind
    · cases hfree.1.symm.trans h
  case ready target =>
    cases h
    refine hs.move (fun _ => .inl rfl) rfl trivial
      (fun v _ h => ((Sleepers.rouse_rouses s.sleepers target).undisturbed v).blocked h) fun h => ?_
    cases hfree.1.symm.trans (((Sleepers.rouse_rouses s.sleepers target).undisturbed u).blocked h)
  all_goals
    have hgo : ∀ pc, Fits pc → (s.goto u pc).Tidy := fun _ => hs.goto hfree
    grind

lemma Tidy.step (h : s.step e = some s') : s'.Tidy := by
  have hstill : ∀ t (f : SignalTask → SignalTask), s.Free t →
      (∀ w, (f (s.task t)).interruptWaker = some w → w.task = t) →
      (∀ n, SigSet.has (f (s.task t)).pending n = true → n ≤ 33) → (s.modify t f).Tidy := by
    intro t f hfree hslot hnamed
    refine hs.move (fun v => ?_) (update_eq_self t s.pc).symm (hs.fits t) (fun _ _ h => h) fun h => ?_
    · grind
    · cases hfree.1.symm.trans h
  cases e with
  | wait t kind =>
    obtain ⟨hb, rfl⟩ := of_guard h
    refine hs.move (fun _ => .inl rfl) rfl trivial (fun _ _ h => h) fun _ => ⟨kind, rfl⟩
  | send t target signo =>
    obtain ⟨hb, rfl⟩ := of_guard h
    exact hs.goto hb.1.2 hb.2.1
  | run t =>
    simp only [SignalSystem.step] at h
    split_ifs at h with hfree
    exact hs.advance hfree h
  | finish t =>
    simp only [SignalSystem.step] at h
    split at h
    · next kind _ =>
      obtain ⟨hfree, rfl⟩ := of_guard h
      apply hs.goto hfree
      cases kind <;> trivial
    · cases h
  | quit t =>
    simp only [SignalSystem.step] at h
    split at h
    · obtain ⟨hfree, rfl⟩ := of_guard h
      exact hs.goto hfree trivial
    · cases h
  | handle t signo =>
    obtain ⟨hb, rfl⟩ := of_guard h
    refine hstill t _ hb.2 (hs.slot t) fun n hn => hs.named t n ?_
    rw [SigSet.has_remove, Bool.and_eq_true] at hn
    exact hn.1
  | setMask t mask =>
    obtain ⟨hb, rfl⟩ := of_guard h
    exact hstill t _ hb.2 (hs.slot t) (hs.named t)
  | alert t =>
    cases h
    exact hs.setSleepers ((Sleepers.wake_rouses _ _).blocked)
  | rouse t =>
    cases h
    exact hs.setSleepers ((Sleepers.rouse_rouses _ _).blocked)
  | deliver t =>
    obtain ⟨sleepers, hd, rfl⟩ := Option.map_eq_some_iff.1 h
    exact hs.setSleepers (Sleepers.deliver_rouses hd).blocked

end Tidy

lemma tidy_initial (action : ℕ → ℕ → KSigAction) : (initial action).Tidy where
  slot _ _ h := by cases h
  fits _ := trivial
  named _ n h := by
    simp [initial, SigSet.has] at h
  asleep _ h := Bool.noConfusion h

/-! ### Waits that are cut -/

def Early (s : SignalSystem) (t : ℕ) : Prop :=
  match s.pc t with
  | .loop _ => s.sleepers.blocked t = false
  | .register | .swap => True
  | _ => False

def Cut (s : SignalSystem) (t : ℕ) : Prop :=
  (∃ u, s.pc u = .store t (s.sleepers.waker t)) ∨
    (s.task t).interrupted = true ∧ (s.sleepers.Alerted t ∨ s.Early t)

def Registered (s : SignalSystem) (t : ℕ) : Prop :=
  match s.pc t with
  | .loop .interruptible => s.sleepers.blocked t = true
  | .swap | .poll .interruptible | .block .interruptible => True
  | _ => False

def Roused (s : SignalSystem) (t : ℕ) : Prop :=
  ∃ u, (∃ iw, s.pc u = .notify t iw) ∨ s.pc u = .ready t ∨
    ∃ w : Waker, w.task = t ∧ (s.pc u = .store t w ∨ w ∈ s.sleepers.deliveries u)

structure Watched (s : SignalSystem) (t : ℕ) : Prop where
  hooked : (s.pc t).waits = some .interruptible → s.Registered t ∨ (∃ n, s.Calls t n) →
    (s.task t).interruptWaker = some (s.sleepers.waker t) ∨ s.Cut t
  heard : (s.pc t).waits = some .interruptible → ∀ n, s.Calls t n → (∃ u, s.pc u = .notify t true) ∨ s.Cut t
  alive : s.pc t = .poll .waitpid ∨ s.pc t = .check → SigSet.has (s.task t).pending SIGKILL = false
  chosen : ∀ n, s.pc t = .consume n → 0 < n ∧ ∀ m ≠ n, ¬s.Calls t m
  parked : s.pc t = .block .waitpid → ∀ n, ¬s.Calls t n
  asleep : s.pc t = .loop .waitpid → s.sleepers.blocked t = true → ∀ n, s.Calls t n → s.Roused t

lemma watched_of_not_waits (h : (s.pc t).waits = none) : s.Watched t := by
  constructor <;> grind

lemma Calls.congr (hpending : (s'.task t).pending = (s.task t).pending) (hmask : (s'.task t).mask = (s.task t).mask)
    (haction : s'.action = s.action) : s'.Calls t n ↔ s.Calls t n := by
  unfold Calls Effective actionOf
  rw [hpending, hmask, haction]

/-- What a step that neither moves nor aims at a task leaves of it. -/
structure Aside (s s' : SignalSystem) (t : ℕ) : Prop where
  pc : s'.pc t = s.pc t
  task : s'.task t = s.task t
  action : s'.action = s.action
  sleep : s.sleepers.Undisturbed s'.sleepers t
  senders : ∀ u, (∃ iw, s.pc u = .notify t iw) ∨ s.pc u = .ready t ∨ (∃ w, s.pc u = .store t w) → s'.pc u = s.pc u
  deliveries : ∀ u w, w.task = t → w ∈ s.sleepers.deliveries u →
    (∃ v, w ∈ s'.sleepers.deliveries v) ∨ s'.sleepers.blocked t = false

lemma Aside.early (h : Aside s s' t) (he : s.Early t) : s'.Early t := by
  have hpc := h.pc
  have hb := h.sleep.blocked
  unfold Early at *
  grind

lemma Aside.cut (h : Aside s s' t) (hc : s.Cut t) : s'.Cut t := by
  unfold Cut
  rw [h.task, h.sleep.waker]
  rcases hc with ⟨u, hu⟩ | ⟨hi, ha⟩
  · exact .inl ⟨u, (h.senders u (.inr (.inr ⟨_, hu⟩))).trans hu⟩
  · exact .inr ⟨hi, ha.imp h.sleep.alerted h.early⟩

lemma registered_congr (hpc : s'.pc t = s.pc t) (hb : s'.sleepers.blocked t = true → s.sleepers.blocked t = true)
    (hr : s'.Registered t) : s.Registered t := by
  unfold Registered at *
  grind

lemma Watched.pass (hw : s.Watched t) (hpc : s'.pc t = s.pc t) (hpending : (s'.task t).pending = (s.task t).pending)
    (hmask : (s'.task t).mask = (s.task t).mask) (haction : s'.action = s.action)
    (hblocked : s'.sleepers.blocked t = true → s.sleepers.blocked t = true)
    (hhook : (s.task t).interruptWaker = some (s.sleepers.waker t) ∨ s.Cut t →
      (s'.task t).interruptWaker = some (s'.sleepers.waker t) ∨ s'.Cut t)
    (hheard : (s.task t).interruptWaker = some (s.sleepers.waker t) ∨ s.Cut t →
      (∃ u, s.pc u = .notify t true) ∨ s.Cut t → (∃ u, s'.pc u = .notify t true) ∨ s'.Cut t)
    (hroused : s'.sleepers.blocked t = true → s.Roused t → s'.Roused t) : s'.Watched t := by
  have hcalls : ∀ n, s'.Calls t n ↔ s.Calls t n := fun n => Calls.congr hpending hmask haction
  constructor
  case hooked =>
    rw [hpc]
    intro hwaits hreg
    apply hhook
    apply hw.hooked hwaits
    rcases hreg with hreg | ⟨n, hn⟩
    · exact .inl (registered_congr hpc hblocked hreg)
    · exact .inr ⟨n, (hcalls n).1 hn⟩
  case heard =>
    rw [hpc]
    intro hwaits n hn
    have hn' := (hcalls n).1 hn
    exact hheard (hw.hooked hwaits (.inr ⟨n, hn'⟩)) (hw.heard hwaits n hn')
  case alive =>
    rw [hpc, hpending]
    exact hw.alive
  case chosen =>
    rw [hpc]
    intro n hn
    exact ⟨(hw.chosen n hn).1, fun m hm hc => (hw.chosen n hn).2 m hm ((hcalls m).1 hc)⟩
  case parked =>
    rw [hpc]
    exact fun hp n hn => hw.parked hp n ((hcalls n).1 hn)
  case asleep =>
    rw [hpc]
    exact fun hp hb n hn => hroused hb (hw.asleep hp (hblocked hb) n ((hcalls n).1 hn))

lemma Watched.aside (hw : s.Watched t) (h : Aside s s' t) : s'.Watched t := by
  refine hw.pass h.pc (by rw [h.task]) (by rw [h.task]) h.action h.sleep.blocked ?_ ?_ ?_
  · rw [h.task, h.sleep.waker]
    exact fun hh => hh.imp_right h.cut
  · rintro - (⟨u, hu⟩ | hc)
    · left
      refine ⟨u, ?_⟩
      rw [h.senders u (.inl ⟨_, hu⟩)]
      exact hu
    · exact .inr (h.cut hc)
  · rintro hb ⟨u, hu⟩
    rcases hu with ⟨iw, hu⟩ | hu | ⟨w, hwt, hu | hu⟩
    · refine ⟨u, .inl ⟨iw, ?_⟩⟩
      rw [h.senders u (.inl ⟨iw, hu⟩)]
      exact hu
    · refine ⟨u, .inr (.inl ?_)⟩
      rw [h.senders u (.inr (.inl hu))]
      exact hu
    · refine ⟨u, .inr (.inr ⟨w, hwt, .inl ?_⟩)⟩
      rw [h.senders u (.inr (.inr ⟨w, hu⟩))]
      exact hu
    · rcases h.deliveries u w hwt hu with ⟨v, hv⟩ | hno
      · exact ⟨v, .inr (.inr ⟨w, hwt, .inr hv⟩)⟩
      · rw [hno] at hb
        cases hb

/-- The steps of a task that is no sender, or of a sender with another target. -/
@[grind =]
def aims : SignalPc → Option ℕ
  | .notify target _ | .store target _ | .ready target => some target
  | _ => none

lemma aside_goto (ht : t ≠ u) (haims : aims (s.pc u) ≠ some t) (htask : s'.task t = s.task t)
    (hpc : s'.pc = update s.pc u pc) (haction : s'.action = s.action) (hsleep : s.sleepers.Undisturbed s'.sleepers t)
    (hdeliveries : ∀ v, ∀ w ∈ s.sleepers.deliveries v, w ∈ s'.sleepers.deliveries v) : Aside s s' t := by
  have hpcs : ∀ v, s'.pc v = if v = u then pc else s.pc v := by
    rw [hpc]
    exact update_apply _ _ _
  exact ⟨by grind, htask, haction, hsleep, by grind, fun v w _ hw => .inl ⟨v, hdeliveries v w hw⟩⟩

lemma aside_rouses (h : s.sleepers.Rouses sleepers)
    (hdeliveries : ∀ u w, w ∈ s.sleepers.deliveries u →
      (∃ v, w ∈ sleepers.deliveries v) ∨ sleepers.blocked w.task = false) :
    Aside s { s with sleepers := sleepers } t where
  pc := rfl
  task := rfl
  action := rfl
  sleep := h.undisturbed t
  senders _ _ := rfl
  deliveries u w hw hin := by
    rw [← hw]
    exact hdeliveries u w hin

/-! ### The steps of a sender -/

lemma Cut.mono (hc : s.Cut t) (hpc : s'.pc = update s.pc u pc) (ht : t ≠ u)
    (hu : s.pc u ≠ .store t (s.sleepers.waker t))
    (hflag : (s.task t).interrupted = true → (s'.task t).interrupted = true)
    (hsleep : s.sleepers.Undisturbed s'.sleepers t) : s'.Cut t := by
  have hpcs : ∀ v, s'.pc v = if v = u then pc else s.pc v := by
    rw [hpc]
    exact update_apply _ _ _
  have hearly : s.Early t → s'.Early t := by
    have hb := hsleep.blocked
    unfold Early
    grind
  unfold Cut
  rw [hsleep.waker]
  rcases hc with ⟨v, hv⟩ | ⟨hi, ha⟩
  · exact .inl ⟨v, by grind⟩
  · exact .inr ⟨hflag hi, ha.imp hsleep.alerted hearly⟩

section Sender

variable (hs : s.Tidy) (hw : s.Watched t) (ht : t ≠ u)
include hs hw ht

lemma Watched.send (hpc : s.pc u = .send t n) (hg : s.Timely (.run u)) :
    ((s.modify t fun x => { x with pending := x.pending ||| .fromSig n }).goto u
      (if s.sleepers.blocked t then .notify t (s.interruptWait t n) else .outside (.ok 0))).Watched t := by
  generalize hs' : (s.modify t fun x => { x with pending := x.pending ||| .fromSig n }).goto u
    (if s.sleepers.blocked t then .notify t (s.interruptWait t n) else .outside (.ok 0)) = s'
  have hn : 0 < n := by
    have := hs.fits u
    rwa [hpc] at this
  simp only [Timely, hpc] at hg
  have hpcs : ∀ v, s'.pc v = if v = u then
      (if s.sleepers.blocked t then .notify t (s.interruptWait t n) else .outside (.ok 0)) else s.pc v :=
    fun v => hs' ▸ goto_pc _ _ _ v
  have hpc' : s'.pc t = s.pc t := by grind
  have htask : s'.task t = { s.task t with pending := (s.task t).pending ||| .fromSig n } := by
    rw [← hs', task_goto, task_modify, if_pos rfl]
  have hsl : s'.sleepers = s.sleepers := hs' ▸ rfl
  have heffective : ∀ m, s'.Effective t m ↔ s.Effective t m := by
    intro m
    unfold Effective actionOf
    rw [htask, show s'.action = s.action from hs' ▸ rfl]
  -- a new signal that must end a wait finds the task asleep, and the sender goes on
  have hcalls : ∀ m, s'.Calls t m → s.Calls t m ∨ m = n ∧ s.Effective t n := by
    rintro m ⟨hm, he⟩
    rw [htask, SigSet.has_or, SigSet.has_fromSig hn] at hm
    rw [heffective] at he
    simp only [Bool.or_eq_true, Bool.and_eq_true, decide_eq_true_eq] at hm
    rcases hm with hm | ⟨rfl, -⟩
    · exact .inl ⟨hm, he⟩
    · exact .inr ⟨rfl, he⟩
  have hasleep : (s.pc t).waits ≠ none → s.Effective t n → s.sleepers.blocked t = true ∧ (∃ kind, s.pc t = .loop kind) ∧
      s'.pc u = .notify t true := by
    intro hwaits he
    have hb := hg hwaits he
    refine ⟨hb, hs.asleep t hb, ?_⟩
    rw [hpcs, if_pos rfl, if_pos hb, interruptWait_of_effective he]
  have hcut : s.Cut t → s'.Cut t := by
    intro hc
    refine hc.mono (by rw [← hs']; rfl) ht (by grind) (by grind) ?_
    rw [hsl]
    exact Sleepers.undisturbed_refl _ _
  constructor
  case hooked =>
    rw [hpc', htask, hsl]
    intro hwaits hreg
    refine (hw.hooked hwaits ?_).imp_right hcut
    unfold Registered at *
    grind
  case heard =>
    rw [hpc']
    intro hwaits m hm
    rcases hcalls m hm with hold | ⟨-, he⟩
    · rcases hw.heard hwaits m hold with ⟨v, hv⟩ | hc
      · exact .inl ⟨v, by grind⟩
      · exact .inr (hcut hc)
    · exact .inl ⟨u, (hasleep (by grind) he).2.2⟩
  case alive =>
    rw [hpc']
    intro hp
    rw [← Bool.not_eq_true]
    intro h9
    have := hw.alive hp
    rcases hcalls SIGKILL ⟨h9, .inl rfl⟩ with ⟨hold, -⟩ | ⟨-, he⟩ <;> grind
  case chosen =>
    have := hw.chosen
    grind
  case parked =>
    have := hw.parked
    grind
  case asleep =>
    rw [hpc', hsl]
    intro hp hb m hc
    rcases hcalls m hc with hold | ⟨-, he⟩
    · obtain ⟨v, hv⟩ := hw.asleep hp hb m hold
      refine ⟨v, ?_⟩
      rw [hsl]
      grind
    · exact ⟨u, .inl ⟨true, (hasleep (by grind) he).2.2⟩⟩

end Sender

section Sender

variable (hw : s.Watched t) (ht : t ≠ u) {iw : Bool}
include hw ht

lemma Watched.takeWaker (hpc : s.pc u = .notify t iw) (hslot : (s.task t).interruptWaker = some w)
    (hwt : w.task = t) :
    ((s.modify t fun x => { x with interruptWaker := none }).goto u (.store t w)).Watched t := by
  have hcut : (s.task t).interruptWaker = some (s.sleepers.waker t) ∨ s.Cut t →
      ((s.modify t fun x => { x with interruptWaker := none }).goto u (.store t w)).Cut t := by
    rintro (hh | hc)
    · exact .inl ⟨u, (pc_goto _ _ _).trans (by rw [Option.some.inj (hslot.symm.trans hh)]; rfl)⟩
    · exact hc.mono rfl ht (by grind) (by grind) (Sleepers.undisturbed_refl _ _)
  exact hw.pass (by grind) (by grind) (by grind) rfl id (fun hh => .inr (hcut hh)) (fun hh _ => .inr (hcut hh))
    fun _ _ => ⟨u, .inr (.inr ⟨w, hwt, .inl (pc_goto _ _ _)⟩)⟩

lemma Watched.passBy (hpc : s.pc u = .notify t iw)
    (hno : iw = true → (s.task t).interruptWaker = none) : (s.goto u (.ready t)).Watched t := by
  have hcut : s.Cut t → (s.goto u (.ready t)).Cut t := fun hc =>
    hc.mono rfl ht (by grind) id (Sleepers.undisturbed_refl _ _)
  refine hw.pass (by grind) rfl rfl rfl id (fun hh => hh.imp_right hcut) ?_ fun _ _ => ⟨u, .inr (.inl (pc_goto _ _ _))⟩
  rintro hh (⟨v, hv⟩ | hc)
  · by_cases hvu : v = u
    · -- the waker has been taken by another sender
      exact .inr (hcut (hh.resolve_left (by grind)))
    · exact .inl ⟨v, by grind⟩
  · exact .inr (hcut hc)

lemma Watched.setFlag (hpc : s.pc u = .store t w) (hwt : w.task = t) :
    (goto { s.modify t fun x => { x with interrupted := true } with sleepers := s.sleepers.take u [w] } u
      (.outside (.ok 0))).Watched t := by
  have hrouse := (Sleepers.take_rouses s.sleepers u [w]).undisturbed t
  have hin : w ∈ (s.sleepers.take u [w]).deliveries u := by
    unfold Sleepers.take
    dsimp only
    rw [update_self]
    exact List.mem_append_right _ (List.mem_singleton_self w)
  have hcut : s.Cut t → (goto { s.modify t fun x => { x with interrupted := true } with
      sleepers := s.sleepers.take u [w] } u (.outside (.ok 0))).Cut t := by
    intro hc
    by_cases hself : w = s.sleepers.waker t
    · exact .inr ⟨by grind, .inl (Sleepers.alerted_take (List.mem_singleton.2 hself.symm))⟩
    · exact hc.mono rfl ht (by grind) (by grind) hrouse
  refine hw.pass (by grind) (by grind) (by grind) rfl hrouse.blocked ?_ ?_
    fun _ _ => ⟨u, .inr (.inr ⟨w, hwt, .inr hin⟩)⟩
  · rintro (hh | hc)
    · exact .inl (by grind [hrouse.waker])
    · exact .inr (hcut hc)
  · rintro - (⟨v, hv⟩ | hc)
    · exact .inl ⟨v, by grind⟩
    · exact .inr (hcut hc)

lemma Watched.makeReady (hpc : s.pc u = .ready t) :
    (goto { s with sleepers := s.sleepers.rouse t } u (.outside (.ok 0))).Watched t := by
  have hrouse := (Sleepers.rouse_rouses s.sleepers t).undisturbed t
  have hawake : (s.sleepers.rouse t).blocked t = false := update_self _ _ _
  have hcut : s.Cut t → (goto { s with sleepers := s.sleepers.rouse t } u (.outside (.ok 0))).Cut t := fun hc =>
    hc.mono rfl ht (by grind) id hrouse
  refine hw.pass (by grind) rfl rfl rfl hrouse.blocked (fun hh => hh.imp_right hcut) ?_ fun hb _ => ?_
  · rintro - (⟨v, hv⟩ | hc)
    · exact .inl ⟨v, by grind⟩
    · exact .inr (hcut hc)
  · cases hawake.symm.trans hb

end Sender

/-! ### The steps of a task in its own wait -/

lemma watched_of_interruptible (h : (s.pc t).waits = some .interruptible)
    (hooked : s.Registered t ∨ (∃ n, s.Calls t n) → (s.task t).interruptWaker = some (s.sleepers.waker t) ∨ s.Cut t)
    (heard : ∀ n, s.Calls t n → (∃ u, s.pc u = .notify t true) ∨ s.Cut t) : s.Watched t := by
  constructor
  case hooked => exact fun _ => hooked
  case heard => exact fun _ => heard
  all_goals grind

lemma Watched.own (hw : s.Watched t) (hwaits : (s.pc t).waits = some .interruptible)
    (hwaits' : (s'.pc t).waits = some .interruptible) (hpc : ∀ v ≠ t, s'.pc v = s.pc v)
    (hpending : (s'.task t).pending = (s.task t).pending) (hmask : (s'.task t).mask = (s.task t).mask)
    (haction : s'.action = s.action) (hwaker : s'.sleepers.waker t = s.sleepers.waker t)
    (hslot : (s.task t).interruptWaker = some (s.sleepers.waker t) →
      (s'.task t).interruptWaker = some (s.sleepers.waker t))
    (hflag : (s.task t).interrupted = true → s.sleepers.Alerted t ∨ s.Early t →
      (s'.task t).interrupted = true ∧ (s'.sleepers.Alerted t ∨ s'.Early t))
    (hreg : s'.Registered t → s.Registered t ∨ (s'.task t).interruptWaker = some (s.sleepers.waker t)) :
    s'.Watched t := by
  have hcalls : ∀ n, s'.Calls t n ↔ s.Calls t n := fun n => Calls.congr hpending hmask haction
  have hcut : s.Cut t → s'.Cut t := by
    unfold Cut
    rw [hwaker]
    rintro (⟨v, hv⟩ | ⟨hi, ha⟩)
    · exact .inl ⟨v, by grind⟩
    · exact .inr (hflag hi ha)
  apply watched_of_interruptible hwaits'
  · rw [hwaker]
    rintro (hr | ⟨n, hn⟩)
    · rcases hreg hr with hr | hh
      · exact (hw.hooked hwaits (.inl hr)).imp hslot hcut
      · exact .inl hh
    · exact (hw.hooked hwaits (.inr ⟨n, (hcalls n).1 hn⟩)).imp hslot hcut
  · intro n hn
    rcases hw.heard hwaits n ((hcalls n).1 hn) with ⟨v, hv⟩ | hc
    · exact .inl ⟨v, by grind⟩
    · exact .inr (hcut hc)

lemma watched_of_waitpid (h : (s.pc t).waits = some .waitpid)
    (alive : s.pc t = .poll .waitpid ∨ s.pc t = .check → SigSet.has (s.task t).pending SIGKILL = false)
    (chosen : ∀ n, s.pc t = .consume n → 0 < n ∧ ∀ m ≠ n, ¬s.Calls t m)
    (parked : s.pc t = .block .waitpid → ∀ n, ¬s.Calls t n)
    (asleep : s.pc t = .loop .waitpid → s.sleepers.blocked t = true → ∀ n, s.Calls t n → s.Roused t) : s.Watched t :=
  ⟨fun hw => by grind, fun hw => by grind, alive, chosen, parked, asleep⟩

/-- No signal that must end a wait passes a look that finds nothing. -/
lemma not_calls_of_peekFront (h9 : SigSet.has (s.task t).pending SIGKILL = false)
    (h : (SigSet.remove (s.task t).pending (s.task t).mask).peekFront = none) (n : ℕ) : ¬s.Calls t n := by
  rintro ⟨hn, rfl | ⟨hmask, -⟩⟩
  · rw [h9] at hn
    cases hn
  · have hno := SigSet.not_has_of_peekFront h (n := n)
    rw [SigSet.has_remove, hn, hmask] at hno
    cases hno

lemma watched_self (hs : s.Tidy) (hw : s.Watched t) (hfree : s.Free t) (hg : s.Timely (.run t))
    (h : s.advance t (s.pc t) = some s') : s'.Watched t := by
  have hleave : ∀ {s : SignalSystem} {pc}, pc.waits = none → (s.goto t pc).Watched t := by
    intro s pc hpc
    apply watched_of_not_waits
    rw [pc_goto]
    exact hpc
  have hreg : (s.pc t = .swap ∨ s.pc t = .poll .interruptible ∨ s.pc t = .block .interruptible) → s.Registered t := by
    unfold Registered
    grind
  have hlate : (∃ k, s.pc t = .poll k) ∨ (∃ k, s.pc t = .block k) → ¬s.Early t := by
    unfold Early
    grind
  cases hpc : s.pc t <;> rw [hpc] at h <;> simp only [advance] at h
  case loop kind =>
    split_ifs at h with h9
    · cases h
      exact hleave rfl
    cases kind with
    | interruptible =>
      cases h
      refine hw.own (by grind) (by grind) (by grind) rfl rfl rfl rfl id (fun hi _ => ⟨hi, .inr ?_⟩) fun hr => ?_
      · unfold Early
        grind
      · unfold Registered at hr
        grind
    | waitpid =>
      cases h
      exact watched_of_waitpid (by grind) (fun _ => Bool.eq_false_iff.2 h9) (by grind) (by grind) (by grind)
  case register =>
    cases h
    refine hw.own (by grind) (by grind) (by grind) (by grind) (by grind) rfl rfl (by grind)
      (fun hi _ => ⟨by grind, .inr ?_⟩) fun _ => .inr (by grind)
    unfold Early
    grind
  case swap =>
    split_ifs at h with hi
    · cases h
      exact hleave rfl
    · cases h
      exact hw.own (by grind) (by grind) (by grind) rfl rfl rfl rfl id (fun hi' _ => absurd hi' hi)
        fun _ => .inl (hreg (.inl hpc))
  case poll kind =>
    cases kind with
    | interruptible =>
      cases h
      exact hw.own (by grind) (by grind) (by grind) rfl rfl rfl rfl id
        (fun hi ha => ⟨hi, .inl (ha.resolve_right (hlate (.inl ⟨_, hpc⟩)))⟩) fun _ => .inl (hreg (.inr (.inl hpc)))
    | waitpid =>
      cases h
      exact watched_of_waitpid (by grind) (fun _ => hw.alive (.inl hpc)) (by grind) (by grind) (by grind)
  case check =>
    have h9 := hw.alive (.inr hpc)
    simp only [Timely, hpc] at hg
    cases hfront : (SigSet.remove (s.task t).pending (s.task t).mask).peekFront with
    | none =>
      rw [hfront] at h
      cases h
      exact watched_of_waitpid (by grind) (by grind) (by grind) (fun _ => not_calls_of_peekFront h9 hfront) (by grind)
    | some n =>
      rw [hfront] at h
      dsimp only at h
      split_ifs at h with hignorable
      · cases h
        refine watched_of_waitpid (by grind) (by grind) ?_ (by grind) (by grind)
        intro m hm
        cases (pc_goto _ _ _).symm.trans hm
        exact ⟨SigSet.pos_of_has (SigSet.has_of_peekFront hfront), hg n hfront hignorable⟩
      · cases h
        exact hleave rfl
  case consume n =>
    obtain ⟨hpos, hothers⟩ := hw.chosen n hpc
    cases h
    refine watched_of_waitpid (by grind) (by grind) (by grind) ?_ (by grind)
    rintro - m ⟨hm, he⟩
    rw [task_goto, task_modify, if_pos rfl] at hm
    rw [SigSet.has_remove, SigSet.has_fromSig hpos, Bool.and_eq_true] at hm
    have hle := hs.named t m hm.1
    have hmn : m ≠ n := by
      rintro rfl
      simp [hle] at hm
    apply hothers m hmn
    refine ⟨hm.1, ?_⟩
    unfold Effective actionOf at *
    rw [task_goto, task_modify, if_pos rfl] at he
    exact he
  case block kind =>
    cases h
    cases kind with
    | interruptible =>
      refine hw.own (by grind) (by grind) (by grind) rfl rfl rfl (Sleepers.waker_blockCurrentIfNotWoken _ _ _) id
        (fun hi ha => ⟨hi, ?_⟩) fun _ => .inl (hreg (.inr (.inr hpc)))
      have hal := ha.resolve_right (hlate (.inr ⟨_, hpc⟩))
      by_cases hb : (s.sleepers.blockCurrentIfNotWoken t).blocked t = true
      · exact .inl (Sleepers.alerted_of_blocked hfree.1 hb hal)
      · right
        unfold Early
        rw [pc_goto]
        exact Bool.eq_false_iff.2 hb
    | waitpid =>
      exact watched_of_waitpid (by grind) (by grind) (by grind) (by grind) fun _ _ n hn => absurd hn (hw.parked hpc n)
  case send target signo =>
    cases h
    apply hleave
    split_ifs <;> rfl
  case notify target iw =>
    split at h <;> cases h <;> exact hleave rfl
  all_goals
    cases h
    try exact hleave rfl

lemma watched_other (hs : s.Tidy) (hw : s.Watched t) (ht : t ≠ u) (hg : s.Timely (.run u))
    (h : s.advance u (s.pc u) = some s') : s'.Watched t := by
  have hmove : ∀ pc, aims (s.pc u) ≠ some t → (s.goto u pc).Watched t := fun _ haims =>
    hw.aside (aside_goto ht haims rfl rfl rfl (Sleepers.undisturbed_refl _ _) fun _ _ h => h)
  have hchange : ∀ v f pc, t ≠ v → aims (s.pc u) ≠ some t → ((s.modify v f).goto u pc).Watched t := by
    intro v f pc hv haims
    refine hw.aside (aside_goto ht haims ?_ rfl rfl (Sleepers.undisturbed_refl _ _) fun _ _ h => h)
    rw [task_goto, task_modify, if_neg hv]
  cases hpc : s.pc u <;> rw [hpc] at h <;> simp only [advance] at h
  case block kind =>
    cases h
    refine hw.aside (aside_goto ht (by grind) rfl rfl rfl (Sleepers.undisturbed_blockCurrentIfNotWoken ht)
      fun v w hv => ?_)
    unfold Sleepers.blockCurrentIfNotWoken
    split_ifs <;> exact hv
  case send target n =>
    cases h
    by_cases htt : t = target
    · subst htt
      exact hw.send hs ht hpc hg
    · exact hchange _ _ _ htt (by grind)
  case notify target iw =>
    by_cases htt : t = target
    · subst htt
      split at h
      · next w hslot =>
        cases h
        exact hw.takeWaker ht hpc hslot (hs.slot t w hslot)
      next hno =>
      cases h
      refine hw.passBy ht hpc fun hiw => ?_
      cases hslot : (s.task t).interruptWaker with
      | none => rfl
      | some w => exact absurd hslot (hno w hiw)
    · split at h <;> cases h
      · exact hchange _ _ _ htt (by grind)
      · exact hmove _ (by grind)
  case store target w =>
    have hwt := hs.fits u
    rw [hpc] at hwt
    cases h
    by_cases htt : t = target
    · subst htt
      exact hw.setFlag ht hpc hwt
    refine hw.aside (aside_goto ht (by grind) (by grind) rfl rfl
      ((Sleepers.take_rouses s.sleepers u [w]).undisturbed t) fun v v' hv => ?_)
    change v' ∈ (s.sleepers.take u [w]).deliveries v
    unfold Sleepers.take
    dsimp only
    rw [update_apply]
    grind
  case ready target =>
    cases h
    by_cases htt : t = target
    · subst htt
      exact hw.makeReady ht hpc
    · exact hw.aside (aside_goto ht (by grind) rfl rfl rfl ((Sleepers.rouse_rouses s.sleepers target).undisturbed t)
        fun _ _ h => h)
  all_goals grind

lemma watched_step (hs : s.Tidy) (hw : ∀ t, s.Watched t) (hg : s.Timely e) (h : s.step e = some s') (t : ℕ) :
    s'.Watched t := by
  have hmove : ∀ {u pc}, aims (s.pc u) = none → pc.waits = none → (s.goto u pc).Watched t := by
    intro u pc haims hpc
    by_cases ht : t = u
    · exact watched_of_not_waits (by grind)
    · exact (hw t).aside (aside_goto ht (by grind) rfl rfl rfl (Sleepers.undisturbed_refl _ _) fun _ _ h => h)
  have hbegins : ∀ {u}, s.Begins u → aims (s.pc u) = none ∧ (s.pc u).waits = none := by
    intro u hb
    cases hpc : s.pc u with
    | outside last => exact ⟨rfl, rfl⟩
    | _ =>
      have := hb.1
      rw [hpc] at this
      cases this
  have hset : ∀ {u f}, s.Begins u → (s.modify u f).Watched t := by
    intro u f hb
    by_cases ht : t = u
    · subst ht
      exact watched_of_not_waits (hbegins hb).2
    · refine (hw t).aside ⟨rfl, ?_, rfl, Sleepers.undisturbed_refl _ _, fun _ _ => rfl, fun v w _ hv => .inl ⟨v, hv⟩⟩
      rw [task_modify, if_neg ht]
  cases e with
  | wait u kind =>
    obtain ⟨hb, rfl⟩ := of_guard h
    by_cases ht : t = u
    · subst ht
      have hawake : ¬s.sleepers.blocked t = true := Bool.eq_false_iff.1 hb.2.1
      cases kind with
      | interruptible =>
        have hno : ∀ n, ¬Calls (goto { s with sleepers := s.sleepers.blockOn t } t (.loop .interruptible)) t n := hg
        apply watched_of_interruptible (by grind)
        · rintro (hr | ⟨n, hn⟩)
          · unfold Registered at hr
            rw [pc_goto] at hr
            exact absurd hr hawake
          · exact absurd hn (hno n)
        · exact fun n hn => absurd hn (hno n)
      | waitpid =>
        exact watched_of_waitpid (by grind) (by grind) (by grind) (by grind) fun _ hb' => absurd hb' hawake
    · exact (hw t).aside (aside_goto ht (by grind) rfl rfl rfl (Sleepers.undisturbed_blockOn ht) fun _ _ h => h)
  | send u target signo =>
    obtain ⟨hb, rfl⟩ := of_guard h
    exact hmove (hbegins hb.1).1 rfl
  | run u =>
    simp only [step] at h
    split_ifs at h with hfree
    by_cases ht : t = u
    · subst ht
      exact watched_self hs (hw t) hfree hg h
    · exact watched_other hs (hw t) ht hg h
  | finish u =>
    simp only [step] at h
    split at h
    · next kind hpc =>
      obtain ⟨hfree, rfl⟩ := of_guard h
      apply hmove
      · rw [hpc]
        rfl
      · cases kind <;> rfl
    · cases h
  | quit u =>
    simp only [step] at h
    split at h
    · next kind hpc =>
      obtain ⟨hfree, rfl⟩ := of_guard h
      apply hmove
      · rw [hpc]
        rfl
      · rfl
    · cases h
  | handle u signo | setMask u mask =>
    obtain ⟨hb, rfl⟩ := of_guard h
    exact hset hb
  | alert u =>
    cases h
    exact (hw t).aside (aside_rouses (Sleepers.wake_rouses _ _) fun v w hv => .inl ⟨v, hv⟩)
  | rouse u =>
    cases h
    exact (hw t).aside (aside_rouses (Sleepers.rouse_rouses _ _) fun v w hv => .inl ⟨v, hv⟩)
  | deliver u =>
    obtain ⟨sleepers, hd, rfl⟩ := Option.map_eq_some_iff.1 h
    refine (hw t).aside (aside_rouses (Sleepers.deliver_rouses hd) fun v w hv => ?_)
    exact Sleepers.deliver_cases hd hv

/-- In a run in which every signal that must end a wait finds its task `Blocked`, no task stays `Blocked` in a wait
with such a signal pending. -/
theorem no_signal_slept_through {action : ℕ → ℕ → KSigAction} {kind : WaitKind}
    (h : Reaches SignalSystem.step Timely (initial action) s) (hquiet : s.Quiet) (hpc : s.pc t = .loop kind)
    (hblocked : s.sleepers.blocked t = true) : ∀ signo, ¬s.Calls t signo := by
  have hinv : s.Tidy ∧ ∀ t, s.Watched t := h.invariant (I := fun s => s.Tidy ∧ ∀ t, s.Watched t)
      (fun _ _ _ hs hg he => ⟨hs.1.step he, watched_step hs.1 hs.2 hg he⟩)
      ⟨tidy_initial action, fun _ => watched_of_not_waits rfl⟩
  have hidle : ∀ u, aims (s.pc u) = none := by
    intro u
    rcases (hquiet u).2 with hout | ⟨⟨k, hk⟩, -⟩
    · cases hp : s.pc u <;> rw [hp] at hout <;> first | rfl | cases hout
    · rw [hk]
      rfl
  have hnone : ∀ u, s.pc u = .store t (s.sleepers.waker t) ∨ (∃ iw, s.pc u = .notify t iw) ∨ s.pc u = .ready t ∨
      (∃ w, s.pc u = .store t w) → False := by
    intro u hu
    have := hidle u
    rcases hu with hu | ⟨iw, hu⟩ | hu | ⟨w, hu⟩ <;> rw [hu] at this <;> cases this
  intro n hn
  cases kind with
  | interruptible =>
    rcases (hinv.2 t).heard (by rw [hpc]; rfl) n hn with ⟨u, hu⟩ | ⟨u, hu⟩ | ⟨-, (hwoke | ⟨v, hv⟩) | he⟩
    · exact hnone u (.inr (.inl ⟨_, hu⟩))
    · exact hnone u (.inl hu)
    · rcases (hquiet t).2 with hout | ⟨-, -, hno⟩
      · rw [hpc] at hout
        cases hout
      · rw [hno] at hwoke
        cases hwoke
    · rw [(hquiet v).1] at hv
      exact List.not_mem_nil hv
    · unfold Early at he
      rw [hpc] at he
      cases hblocked.symm.trans he
  | waitpid =>
    obtain ⟨u, hu⟩ := (hinv.2 t).asleep hpc hblocked n hn
    rcases hu with ⟨iw, hu⟩ | hu | ⟨w, -, hu | hu⟩
    · exact hnone u (.inr (.inl ⟨iw, hu⟩))
    · exact hnone u (.inr (.inr (.inl hu)))
    · exact hnone u (.inr (.inr (.inr ⟨w, hu⟩)))
    · rw [(hquiet u).1] at hu
      exact List.not_mem_nil hu

def defaultActions (_ _ : ℕ) : KSigAction := .defaultAction

/-- An ignored signal finds a task asleep, which looks and sleeps again. -/
def ignoredSignal : List SignalEvent :=
  [.wait 1 .interruptible, .run 1, .run 1, .run 1, .run 1, .run 1, .send 2 1 SIGCHLD, .run 2, .run 2, .run 2,
    .run 1, .run 1, .run 1, .run 1, .run 1]

theorem no_signal_slept_through_ignored :
    ∃ s, Reaches SignalSystem.step Timely (initial defaultActions) s ∧ s.Quiet ∧ s.sleepers.blocked 1 = true ∧
      SigSet.has (s.task 1).pending SIGCHLD = true ∧ ∀ signo, ¬s.Calls 1 signo := by
  have hadmits : Admits SignalSystem.step Timely (initial defaultActions) ignoredSignal := by
    refine .of_guards (by decide +kernel) ⟨fun n hn => ?_, trivial, trivial, trivial, trivial, trivial, trivial,
      fun _ _ => by decide +kernel, trivial, trivial, trivial, trivial, trivial, trivial, trivial, trivial⟩
    have hbit : (0#64).getLsbD (n - 1) = true := (Bool.and_eq_true_iff.1 hn.1).2
    cases BitVec.getLsbD_zero.symm.trans hbit
  have hreach := Reaches.run hadmits
  have hquiet : (run SignalSystem.step (initial defaultActions) ignoredSignal).Quiet := by
    intro t
    match t with
    | 0 => exact ⟨rfl, .inl rfl⟩
    | 1 => exact ⟨by decide +kernel, .inr ⟨⟨.interruptible, by decide +kernel⟩, by decide +kernel, by decide +kernel⟩⟩
    | 2 => exact ⟨by decide +kernel, .inl (by decide +kernel)⟩
    | n + 3 => exact ⟨rfl, .inl rfl⟩
  have hpc : (run SignalSystem.step (initial defaultActions) ignoredSignal).pc 1 = .loop .interruptible := by
    decide +kernel
  exact ⟨_, hreach, hquiet, by decide +kernel, by decide +kernel,
    no_signal_slept_through hreach hquiet hpc (by decide +kernel)⟩

/-- The signal is sent between the poll of the future and the publication of `Blocked`. -/
def signalBeforeBlock : List SignalEvent :=
  [.wait 1 .interruptible, .run 1, .run 1, .run 1, .run 1, .send 2 1 SIGTERM, .run 2, .run 1]

/-- The task sleeps on with `SIGTERM` pending, neither masked nor ignored. -/
theorem signal_before_block_slept_through :
    ∃ s, Reaches SignalSystem.step (fun _ _ => True) (initial defaultActions) s ∧ s.Quiet ∧
      s.pc 1 = .loop .interruptible ∧ s.sleepers.blocked 1 = true ∧ s.Calls 1 SIGTERM := by
  refine ⟨run SignalSystem.step (initial defaultActions) signalBeforeBlock, Reaches.run (by decide +kernel), ?_,
    by decide +kernel, by decide +kernel, by decide +kernel, by decide +kernel⟩
  intro t
  match t with
  | 0 => exact ⟨rfl, .inl rfl⟩
  | 1 => exact ⟨by decide +kernel, .inr ⟨⟨.interruptible, by decide +kernel⟩, by decide +kernel, by decide +kernel⟩⟩
  | 2 => exact ⟨by decide +kernel, .inl (by decide +kernel)⟩
  | n + 3 => exact ⟨rfl, .inl rfl⟩

end SignalSystem

end Ya2yOS.Signal
