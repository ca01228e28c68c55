import Ya2yOS.Lib.Transition
import Ya2yOS.Task.BlockOn

/-!
# Waiting with `poll_io`

Tasks that wait by `block_on(poll_io(..))`: an attempt, the registration, a second attempt, and the sleep. If a request
becomes ready only by steps that go on to wake one of its sets, and a second attempt fails only where it is not ready,
then no task sleeps over a ready request for which no wakeup is on its way.
-/

namespace Ya2yOS.Task

open Function Sleepers

/-- Where a task stands: at a place of the user, before `block_on`, before its registration in the rest of the sets,
before it blocks, or before it wakes the rest of some sets and goes on. -/
inductive PollPc (Q ι K : Type) where
  | client (k : K)
  | enter (q : Q)
  | register (q : Q) (sets : List ι)
  | park (q : Q)
  | wake (sets : List ι) (k : K)
deriving DecidableEq

/-- A user of a resource: the sets of a request, the places where its attempts begin, the places that belong to a
second attempt, and the steps of a task. -/
structure PollClient (R Q ι K A : Type) where
  sets : Q → List ι
  polling : Q → K
  retrying : Q → K
  second : K → Option Q
  act : R → ℕ → K → A → Option (R × PollPc Q ι K)

structure PollState (R Q ι K : Type) where
  res : R
  waits : ι → List Waker
  sleepers : Sleepers
  pc : ℕ → PollPc Q ι K

inductive PollEvent (A : Type) where
  | act (t : ℕ) (a : A)
  | run (t : ℕ)
  | deliver (t : ℕ)
  | rouse (t : ℕ)

namespace PollState

variable {R Q ι K A : Type} {c : PollClient R Q ι K A} {s s' : PollState R Q ι K} {t u : ℕ}
  {pc : PollPc Q ι K}

def goto (s : PollState R Q ι K) (t : ℕ) (pc : PollPc Q ι K) : PollState R Q ι K :=
  { s with pc := update s.pc t pc }

def Free (s : PollState R Q ι K) (t : ℕ) : Prop := s.sleepers.blocked t = false ∧ s.sleepers.deliveries t = []
deriving Decidable

def advance [DecidableEq ι] (c : PollClient R Q ι K A) (s : PollState R Q ι K) (t : ℕ) :
    PollPc Q ι K → Option (PollState R Q ι K)
  | .client _ => none
  | .enter q => some (goto { s with sleepers := s.sleepers.blockOn t } t (.client (c.polling q)))
  | .register q [] => some (s.goto t (.client (c.retrying q)))
  | .register q (i :: sets) =>
    let out := Task.register (s.waits i) (s.sleepers.waker t)
    some (goto { s with
      waits := update s.waits i out.1
      sleepers := s.sleepers.take t out.2.toList } t (.register q sets))
  | .park q => some (goto { s with sleepers := s.sleepers.blockCurrentIfNotWoken t } t (.client (c.polling q)))
  | .wake [] k => some (s.goto t (.client k))
  | .wake (i :: sets) k =>
    some (goto { s with
      waits := update s.waits i []
      sleepers := s.sleepers.take t (s.waits i) } t (.wake sets k))

def step [DecidableEq ι] (c : PollClient R Q ι K A) (s : PollState R Q ι K) : PollEvent A → Option (PollState R Q ι K)
  | .act t a =>
    match s.pc t with
    | .client k => if s.Free t then (c.act s.res t k a).map fun x => goto { s with res := x.1 } t x.2 else none
    | _ => none
  | .run t => if s.Free t then s.advance c t (s.pc t) else none
  | .deliver t => (s.sleepers.deliver t).map fun sleepers => { s with sleepers := sleepers }
  | .rouse t => some { s with sleepers := s.sleepers.rouse t }

def Covered (s : PollState R Q ι K) (t : ℕ) (i : ι) : Prop :=
  s.sleepers.waker t ∈ s.waits i ∨ s.sleepers.Alerted t

def Obliged (s : PollState R Q ι K) (sets : List ι) : Prop :=
  ∃ u rest k, s.pc u = .wake rest k ∧ ∃ i ∈ rest, i ∈ sets

structure Expects (c : PollClient R Q ι K A) (ready : R → Q → Prop) (s : PollState R Q ι K) (t : ℕ) (q : Q) :
    Prop where
  covered : ∀ i ∈ c.sets q, s.Covered t i
  pending : ready s.res q → s.sleepers.Alerted t ∨ s.Obliged (c.sets q)

def Fits (c : PollClient R Q ι K A) (ready : R → Q → Prop) (s : PollState R Q ι K) (t : ℕ) : PollPc Q ι K → Prop
  | .client k => (∀ q, c.second k = some q → ∀ i ∈ c.sets q, s.Covered t i) ∧
      (s.sleepers.blocked t = true → ∃ q, k = c.polling q ∧ s.Expects c ready t q)
  | .enter _ => s.sleepers.blocked t = false
  | .register q rest => s.sleepers.blocked t = false ∧ ∀ i ∈ c.sets q, i ∈ rest ∨ s.Covered t i
  | .park q => s.sleepers.blocked t = false ∧ s.Expects c ready t q
  | .wake _ k => s.sleepers.blocked t = false ∧ c.second k = none

structure Sound (c : PollClient R Q ι K A) (ready : R → Q → Prop) (s : PollState R Q ι K) : Prop where
  fits : ∀ t, s.Fits c ready t (s.pc t)
  sleepers : s.sleepers.Sound

variable {ready : R → Q → Prop} {sl : Sleepers}

/-- What holds of a task stays, where its wakers stay covered and what it expects stays to be expected. -/
lemma Fits.mono (h : s.Fits c ready t pc) (hcov : ∀ i, s.Covered t i → s'.Covered t i)
    (hexp : ∀ q, s.Expects c ready t q → s'.Expects c ready t q)
    (hblocked : s'.sleepers.blocked t = true → s.sleepers.blocked t = true) : s'.Fits c ready t pc := by
  have hawake : s.sleepers.blocked t = false → s'.sleepers.blocked t = false := by grind
  cases pc with
  | client k =>
    refine ⟨fun q hq i hi => hcov i (h.1 q hq i hi), fun hb => ?_⟩
    obtain ⟨q, hk, hq⟩ := h.2 (hblocked hb)
    exact ⟨q, hk, hexp q hq⟩
  | enter q => exact hawake h
  | register q rest => exact ⟨hawake h.1, fun i hi => (h.2 i hi).imp_right (hcov i)⟩
  | park q => exact ⟨hawake h.1, hexp q h.2⟩
  | wake rest k => exact ⟨hawake h.1, h.2⟩

/-- A step of one task, as the others see it: their wakers stay in the sets or are taken, new readiness comes with a
wakeup, and a wakeup that is due stays due until it is given. -/
structure Passes (c : PollClient R Q ι K A) (ready : R → Q → Prop) (s s' : PollState R Q ι K) (u : ℕ) : Prop where
  pc : ∀ t ≠ u, s'.pc t = s.pc t
  undisturbed : ∀ t ≠ u, s.sleepers.Undisturbed s'.sleepers t
  covered : ∀ t ≠ u, ∀ i, s.sleepers.waker t ∈ s.waits i → s'.Covered t i
  ready : ∀ q, ready s'.res q → ready s.res q ∨ s'.Obliged (c.sets q)
  obliged : ∀ rest k, s.pc u = .wake rest k → ∀ i ∈ rest,
    (∃ rest' k', s'.pc u = .wake rest' k' ∧ i ∈ rest') ∨ ∀ t ≠ u, s.Covered t i → s'.sleepers.Alerted t

lemma Passes.covered_of (h : Passes c ready s s' u) (ht : t ≠ u) {i : ι} (hi : s.Covered t i) : s'.Covered t i :=
  hi.elim (h.covered t ht i) fun ha => .inr ((h.undisturbed t ht).alerted ha)

lemma Passes.expects (h : Passes c ready s s' u) (ht : t ≠ u) {q : Q} (hq : s.Expects c ready t q) :
    s'.Expects c ready t q := by
  refine ⟨fun i hi => h.covered_of ht (hq.covered i hi), fun hr => ?_⟩
  rcases h.ready q hr with hold | hnew
  · rcases hq.pending hold with ha | ⟨v, rest, k, hv, i, hi, hiq⟩
    · exact .inl ((h.undisturbed t ht).alerted ha)
    by_cases hvu : v = u
    · -- the wakeup that was due stays due, or has been given
      subst hvu
      rcases h.obliged rest k hv i hi with ⟨rest', k', hv', hi'⟩ | hgiven
      · exact .inr ⟨v, rest', k', hv', i, hi', hiq⟩
      · exact .inl (hgiven t ht (hq.covered i hiq))
    · exact .inr ⟨v, rest, k, (h.pc v hvu).trans hv, i, hi, hiq⟩
  · exact .inr hnew

lemma Sound.pass (hs : s.Sound c ready) (h : Passes c ready s s' u) (hself : s'.Fits c ready u (s'.pc u))
    (hsound : s'.sleepers.Sound) : s'.Sound c ready := by
  refine ⟨fun t => ?_, hsound⟩
  by_cases ht : t = u
  · exact ht ▸ hself
  · rw [h.pc t ht]
    exact (hs.fits t).mono (fun _ => h.covered_of ht) (fun _ => h.expects ht) (h.undisturbed t ht).blocked

/-- A step of the task `u` that leaves the resource alone. -/
lemma Sound.move (hs : s.Sound c ready) {waits : ι → List Waker}
    (hund : ∀ t ≠ u, s.sleepers.Undisturbed sl t)
    (hcov : ∀ t ≠ u, ∀ i, s.sleepers.waker t ∈ s.waits i → Covered { s with waits := waits, sleepers := sl } t i)
    (hobliged : ∀ rest k, s.pc u = .wake rest k → ∀ i ∈ rest,
      (∃ rest' k', pc = .wake rest' k' ∧ i ∈ rest') ∨ ∀ t ≠ u, s.Covered t i → sl.Alerted t)
    (hsound : sl.Sound) (hself : (goto { s with waits := waits, sleepers := sl } u pc).Fits c ready u pc) :
    (goto { s with waits := waits, sleepers := sl } u pc).Sound c ready := by
  have hpc : (goto { s with waits := waits, sleepers := sl } u pc).pc u = pc := update_self _ _ _
  exact hs.pass ⟨fun t ht => update_of_ne ht _ _, hund, hcov, fun _ h => .inl h, by rwa [hpc]⟩ (by rwa [hpc]) hsound

lemma Sound.rouse (hs : s.Sound c ready) (h : s.sleepers.Rouses sl) :
    Sound c ready { s with sleepers := sl } := by
  have hcov : ∀ t i, s.Covered t i → Covered { s with sleepers := sl } t i := by
    intro t i hi
    unfold Covered at hi ⊢
    rw [h.waker]
    exact hi.imp_right (h.alerted t)
  exact ⟨fun t => (hs.fits t).mono (hcov t) (fun q hq => ⟨fun i hi => hcov t i (hq.covered i hi),
    fun hr => (hq.pending hr).imp_left (h.alerted t)⟩) (h.blocked t), h.sound hs.sleepers⟩

structure Honest (c : PollClient R Q ι K A) (ready : R → Q → Prop) (r r' : R) (k : K) (pc : PollPc Q ι K) : Prop where
  /-- A request becomes ready only with a wakeup of one of its sets. -/
  woken : ∀ q, ready r' q → ready r q ∨ ∃ rest k', pc = .wake rest k' ∧ ∃ i ∈ rest, i ∈ c.sets q
  /-- Blocking follows a second attempt that has found the request not ready. -/
  refused : ∀ q, pc = .park q → c.second k = some q ∧ ¬ready r' q
  second : ∀ k' q, pc = .client k' → c.second k' = some q → c.second k = some q
  registers : ∀ q rest, pc = .register q rest → rest = c.sets q
  wakes : ∀ rest k', pc = .wake rest k' → c.second k' = none

lemma Sound.act (hs : s.Sound c ready) {k : K} {r : R} (hpc : s.pc u = .client k) (hfree : s.Free u)
    (h : Honest c ready s.res r k pc) : (goto { s with res := r } u pc).Sound c ready := by
  have hself : (goto { s with res := r } u pc).pc u = pc := update_self _ _ _
  have hfit := hs.fits u
  rw [hpc] at hfit
  refine hs.pass (u := u) ⟨?_, ?_, ?_, ?_, ?_⟩ ?_ hs.sleepers
  · exact fun t ht => update_of_ne ht _ _
  · exact fun t _ => undisturbed_refl _ t
  · exact fun _ _ _ h => .inl h
  · intro q hr
    refine (h.woken q hr).imp_right ?_
    rintro ⟨rest, k', rfl, hi⟩
    exact ⟨u, rest, k', hself, hi⟩
  · intro rest k' hw
    rw [hpc] at hw
    cases hw
  · rw [hself]
    cases pc with
    | client k' =>
      refine ⟨fun q hq => hfit.1 q (h.second k' q rfl hq), fun hb => ?_⟩
      cases hfree.1.symm.trans hb
    | enter q => exact hfree.1
    | wake rest k' => exact ⟨hfree.1, h.wakes rest k' rfl⟩
    | register q rest => exact ⟨hfree.1, fun i hi => .inl (h.registers q rest rfl ▸ hi)⟩
    | park q => exact ⟨hfree.1, hfit.1 q (h.refused q rfl).1, fun hr => absurd hr (h.refused q rfl).2⟩

lemma Sound.advance [DecidableEq ι] (hs : s.Sound c ready) (hfree : s.Free u)
    (hretry : ∀ q, c.second (c.retrying q) = some q)
    (hpoll : ∀ q, c.second (c.polling q) = none) (h : s.advance c u (s.pc u) = some s') : s'.Sound c ready := by
  have hfit := hs.fits u
  have hstill := fun t (_ : t ≠ u) => undisturbed_refl s.sleepers t
  generalize hpc : s.pc u = pc at h hfit
  cases pc with
  | client k => cases h
  | enter q =>
    cases h
    refine hs.move (fun t ht => undisturbed_blockOn ht) (fun t ht i hi => .inl ?_) (by simp [hpc])
      (sound_blockOn hs.sleepers) ⟨fun q' hq' => ?_, fun hb => ?_⟩
    · show (s.sleepers.blockOn u).waker t ∈ s.waits i
      rwa [waker_blockOn ht]
    · cases (hpoll q).symm.trans hq'
    · cases hfree.1.symm.trans hb
  | register q sets =>
    cases sets with
    | nil =>
      cases h
      refine hs.move hstill (fun _ _ _ => .inl) (by simp [hpc]) hs.sleepers ⟨fun q' hq' i hi => ?_, fun hb => ?_⟩
      · cases (hretry q).symm.trans hq'
        exact (hfit.2 i hi).resolve_left List.not_mem_nil
      · cases hfree.1.symm.trans hb
    | cons i sets =>
      cases h
      have hrouse := s.sleepers.take_rouses u (Task.register (s.waits i) (s.sleepers.waker u)).2.toList
      -- a waker leaves the set only by being taken
      have hkeep : ∀ t j, s.sleepers.waker t ∈ s.waits j → Covered { s with
          waits := update s.waits i (Task.register (s.waits i) (s.sleepers.waker u)).1
          sleepers := s.sleepers.take u (Task.register (s.waits i) (s.sleepers.waker u)).2.toList } t j := by
        intro t j hj
        unfold Covered
        dsimp only
        rw [hrouse.waker, update_apply]
        split_ifs with hji
        · subst hji
          refine (mem_register_of_mem _ hj).imp_right fun hout => ?_
          exact alerted_take (Option.mem_toList.2 hout)
        · exact .inl hj
      refine hs.move (fun t _ => hrouse.undisturbed t) (fun t _ => hkeep t) (by simp [hpc]) (hrouse.sound hs.sleepers)
        ⟨hfree.1, fun j hj => ?_⟩
      rcases hfit.2 j hj with hin | hcov | hal
      · rcases List.mem_cons.1 hin with rfl | hin
        · right
          left
          show (s.sleepers.take u _).waker u ∈ update s.waits j _ j
          rw [hrouse.waker, update_self]
          exact mem_register _ _
        · exact .inl hin
      · exact .inr (hkeep u j hcov)
      · exact .inr (.inr (hrouse.alerted u hal))
  | park q =>
    cases h
    have hwaker := fun t => waker_blockCurrentIfNotWoken s.sleepers t u
    refine hs.move (fun t ht => undisturbed_blockCurrentIfNotWoken ht) (fun t _ i hi => .inl (hwaker t ▸ hi))
      (by simp [hpc]) (sound_blockCurrentIfNotWoken hs.sleepers)
      ⟨fun q' hq' => ?_, fun hb => ⟨q, rfl, fun i hi => ?_, fun hr => ?_⟩⟩
    · cases (hpoll q).symm.trans hq'
    · exact (hfit.2.covered i hi).imp (fun hw => hwaker u ▸ hw) (alerted_of_blocked hfree.1 hb)
    · refine (hfit.2.pending hr).imp (alerted_of_blocked hfree.1 hb) ?_
      rintro ⟨v, rest, k, hv, hi⟩
      refine ⟨v, rest, k, (update_of_ne ?_ _ _).trans hv, hi⟩
      rintro rfl
      cases hpc.symm.trans hv
  | wake sets k =>
    cases sets with
    | nil =>
      cases h
      refine hs.move hstill (fun _ _ _ => .inl) (by simp [hpc]) hs.sleepers ⟨fun q hq => ?_, fun hb => ?_⟩
      · cases hfit.2.symm.trans hq
      · cases hfree.1.symm.trans hb
    | cons i sets =>
      cases h
      have hrouse := s.sleepers.take_rouses u (s.waits i)
      have hgiven : ∀ t, s.Covered t i → (s.sleepers.take u (s.waits i)).Alerted t :=
        fun t ht => ht.elim alerted_take (hrouse.alerted t)
      refine hs.move (fun t _ => hrouse.undisturbed t) ?_ ?_ (hrouse.sound hs.sleepers) hfit
      · intro t _ j hj
        by_cases hji : j = i
        · exact .inr (hgiven t (.inl (hji ▸ hj)))
        · left
          show (s.sleepers.take u _).waker t ∈ update s.waits i [] j
          rw [hrouse.waker, update_of_ne hji]
          exact hj
      · intro rest k' hw j hj
        cases hpc.symm.trans hw
        rcases List.mem_cons.1 hj with rfl | hj
        · exact .inr fun t _ => hgiven t
        · exact .inl ⟨sets, k, rfl, hj⟩

/-- A user whose steps are honest keeps every task that sleeps informed. -/
lemma Sound.step [DecidableEq ι] (hs : s.Sound c ready) {e : PollEvent A}
    (hretry : ∀ q, c.second (c.retrying q) = some q) (hpoll : ∀ q, c.second (c.polling q) = none)
    (hact : ∀ t k a r pc, e = .act t a → s.pc t = .client k → c.act s.res t k a = some (r, pc) →
      Honest c ready s.res r k pc)
    (h : s.step c e = some s') : s'.Sound c ready := by
  cases e with
  | act t a =>
    simp only [PollState.step] at h
    split at h
    · rename_i k hpc
      split_ifs at h with hfree
      obtain ⟨⟨r, pc⟩, hx, rfl⟩ := Option.map_eq_some_iff.1 h
      exact hs.act hpc hfree (hact t k a r pc rfl hpc hx)
    · cases h
  | run t =>
    simp only [PollState.step] at h
    split_ifs at h with hfree
    exact hs.advance hfree hretry hpoll h
  | deliver t =>
    obtain ⟨sl, hsl, rfl⟩ := Option.map_eq_some_iff.1 h
    exact hs.rouse (deliver_rouses hsl)
  | rouse t =>
    cases h
    exact hs.rouse (s.sleepers.rouse_rouses t)

lemma Sound.not_ready (hs : s.Sound c ready) (hwake : ∀ u rest k, s.pc u ≠ .wake rest k)
    (hdeliver : ∀ u, s.sleepers.deliveries u = []) (ht : s.sleepers.blocked t = true) :
    ∃ q, s.pc t = .client (c.polling q) ∧ ¬ready s.res q := by
  have hfit := hs.fits t
  generalize hpc : s.pc t = pc at hfit
  cases pc with
  | client k =>
    obtain ⟨q, rfl, hexp⟩ := hfit.2 ht
    refine ⟨q, rfl, fun hr => ?_⟩
    rcases hexp.pending hr with (hw | ⟨u, hu⟩) | ⟨u, rest, k, hu, -⟩
    · rw [hs.sleepers t ht] at hw
      cases hw
    · rw [hdeliver] at hu
      cases hu
    · exact hwake u rest k hu
  | enter q =>
    cases hfit.symm.trans ht
  | register q rest | park q | wake rest k =>
    cases hfit.1.symm.trans ht

end PollState

end Ya2yOS.Task
