import Mathlib.Algebra.Order.Ring.Nat

/-!
# Blocking on a future

`block_on` with its wakers. Each call has a waker with its own flag; a waker of an earlier call only makes its task
ready. Taking wakers out of a set and waking them are separate steps.
-/

namespace Ya2yOS.Task

open Function

structure Waker where
  task : ℕ
  call : ℕ
deriving DecidableEq, Repr

def pollSetCapacity : ℕ := 64

def register (entries : List Waker) (w : Waker) : List Waker × Option Waker :=
  if w ∈ entries then (entries, none)
  else if entries.length = pollSetCapacity then (entries.tail ++ [w], entries.head?)
  else (entries ++ [w], none)

lemma mem_register (entries : List Waker) (w : Waker) : w ∈ (register entries w).1 := by
  unfold register
  split_ifs with hw <;> simp [hw]

lemma mem_register_of_mem {entries : List Waker} {v : Waker} (w : Waker) (h : v ∈ entries) :
    v ∈ (register entries w).1 ∨ (register entries w).2 = some v := by
  unfold register
  split_ifs with hw hfull
  · exact .inl h
  · cases entries with
    | nil => cases h
    | cons a l =>
      rcases List.mem_cons.1 h with rfl | hl
      · exact .inr rfl
      · exact .inl (List.mem_append_left _ hl)
  · exact .inl (List.mem_append_left _ h)

/-! ### `block_on` -/

/-- The state of the tasks that the wakers act on: the number of the current call of `block_on`, the flag of its
waker, whether the task is `Blocked`, and the wakers it has taken and not yet woken. -/
structure Sleepers where
  call : ℕ → ℕ
  woke : ℕ → Bool
  blocked : ℕ → Bool
  deliveries : ℕ → List Waker

namespace Sleepers

def initial : Sleepers := ⟨fun _ => 0, fun _ => false, fun _ => false, fun _ => []⟩

def waker (s : Sleepers) (t : ℕ) : Waker := ⟨t, s.call t⟩

def blockOn (s : Sleepers) (t : ℕ) : Sleepers :=
  { s with call := update s.call t (s.call t + 1), woke := update s.woke t false }

def wake (s : Sleepers) (w : Waker) : Sleepers :=
  { s with
    woke := if w.call = s.call w.task then update s.woke w.task true else s.woke
    blocked := update s.blocked w.task false }

def blockCurrentIfNotWoken (s : Sleepers) (t : ℕ) : Sleepers :=
  if s.woke t then { s with woke := update s.woke t false }
  else { s with blocked := update s.blocked t true }

def take (s : Sleepers) (t : ℕ) (wakers : List Waker) : Sleepers :=
  { s with deliveries := update s.deliveries t (s.deliveries t ++ wakers) }

def deliver (s : Sleepers) (t : ℕ) : Option Sleepers :=
  match s.deliveries t with
  | [] => none
  | w :: wakers => some (wake { s with deliveries := update s.deliveries t wakers } w)

def rouse (s : Sleepers) (t : ℕ) : Sleepers := { s with blocked := update s.blocked t false }

/-- The waker of the task has been woken, or is about to be. -/
def Alerted (s : Sleepers) (t : ℕ) : Prop := s.woke t = true ∨ ∃ u, s.waker t ∈ s.deliveries u

def Sound (s : Sleepers) : Prop := ∀ t, s.blocked t = true → s.woke t = false

variable {s s' : Sleepers} {t u v : ℕ} {w : Waker}

/-- What the steps that wake do to a task: its calls stay, it stays alerted, and it does not fall asleep. -/
structure Rouses (s s' : Sleepers) : Prop where
  call : s'.call = s.call
  alerted : ∀ t, s.Alerted t → s'.Alerted t
  blocked : ∀ t, s'.blocked t = true → s.blocked t = true
  sound : s.Sound → s'.Sound

lemma Rouses.waker (h : s.Rouses s') (t : ℕ) : s'.waker t = s.waker t := by
  unfold Sleepers.waker
  rw [h.call]

lemma Rouses.refl (s : Sleepers) : s.Rouses s := ⟨rfl, fun _ h => h, fun _ h => h, id⟩

lemma blocked_of_update {t : ℕ} (h : update s.blocked t false v = true) : v ≠ t ∧ s.blocked v = true := by
  by_cases hv : v = t
  · rw [hv, update_self] at h
    cases h
  · rw [update_of_ne hv] at h
    exact ⟨hv, h⟩

lemma wake_rouses (s : Sleepers) (w : Waker) : s.Rouses (s.wake w) := by
  constructor
  · rfl
  · rintro t (hw | hd)
    · left
      unfold wake
      dsimp only
      split_ifs
      · by_cases ht : t = w.task
        · rw [ht, update_self]
        · rwa [update_of_ne ht]
      · exact hw
    · exact .inr hd
  · intro t h
    exact (blocked_of_update h).2
  · intro hs t h
    obtain ⟨ht, hb⟩ := blocked_of_update h
    unfold wake
    dsimp only
    split_ifs
    · rw [update_of_ne ht]
      exact hs t hb
    · exact hs t hb

lemma rouse_rouses (s : Sleepers) (t : ℕ) : s.Rouses (s.rouse t) := by
  constructor
  · rfl
  · exact fun _ h => h
  · intro v h
    exact (blocked_of_update h).2
  · intro hs v h
    exact hs v (blocked_of_update h).2

lemma take_rouses (s : Sleepers) (t : ℕ) (wakers : List Waker) : s.Rouses (s.take t wakers) := by
  constructor
  · rfl
  · rintro v (hw | ⟨u, hu⟩)
    · exact .inl hw
    right
    refine ⟨u, ?_⟩
    unfold take
    dsimp only
    by_cases hut : u = t
    · rw [hut, update_self]
      exact List.mem_append_left _ (hut ▸ hu)
    · rwa [update_of_ne hut]
  · exact fun _ h => h
  · exact id

lemma alerted_take {wakers : List Waker} (h : s.waker t ∈ wakers) : (s.take u wakers).Alerted t := by
  right
  refine ⟨u, ?_⟩
  unfold take
  dsimp only
  rw [update_self]
  exact List.mem_append_right _ h

lemma deliver_rouses (h : s.deliver u = some s') : s.Rouses s' := by
  unfold deliver at h
  cases hd : s.deliveries u with
  | nil =>
    rw [hd] at h
    cases h
  | cons w wakers =>
    rw [hd] at h
    cases h
    have hwake := wake_rouses { s with deliveries := update s.deliveries u wakers } w
    refine ⟨hwake.call, ?_, hwake.blocked, hwake.sound⟩
    rintro t (hw | ⟨v, hv⟩)
    · exact hwake.alerted t (.inl hw)
    by_cases hvu : v = u
    · -- the first of the wakers of `u` has been woken, the others are still there
      rw [hvu, hd] at hv
      rcases List.mem_cons.1 hv with hw | hrest
      · left
        subst hw
        exact (congrFun (if_pos rfl) t).trans (update_self _ _ _)
      · refine hwake.alerted t (.inr ⟨u, ?_⟩)
        dsimp only
        rwa [update_self]
    · refine hwake.alerted t (.inr ⟨v, ?_⟩)
      dsimp only
      rwa [update_of_ne hvu]

lemma deliver_cases (h : s.deliver u = some s') (hw : w ∈ s.deliveries v) :
    (∃ v', w ∈ s'.deliveries v') ∨ s'.blocked w.task = false := by
  unfold deliver at h
  cases hd : s.deliveries u with
  | nil =>
    rw [hd] at h
    cases h
  | cons w' wakers =>
    rw [hd] at h
    cases h
    by_cases hvu : v = u
    · rw [hvu, hd] at hw
      rcases List.mem_cons.1 hw with rfl | hrest
      · exact .inr (update_self _ _ _)
      · refine .inl ⟨u, ?_⟩
        unfold wake
        dsimp only
        rwa [update_self]
    · refine .inl ⟨v, ?_⟩
      unfold wake
      dsimp only
      rwa [update_of_ne hvu]

lemma alerted_blockOn (ht : t ≠ u) : (s.blockOn u).Alerted t ↔ s.Alerted t := by
  unfold Alerted blockOn waker
  dsimp only
  rw [update_of_ne ht, update_of_ne ht]

lemma waker_blockOn (ht : t ≠ u) : (s.blockOn u).waker t = s.waker t := by
  unfold blockOn waker
  dsimp only
  rw [update_of_ne ht]

lemma sound_blockOn (h : s.Sound) : (s.blockOn u).Sound := by
  intro t hb
  unfold blockOn
  dsimp only
  by_cases ht : t = u
  · rw [ht, update_self]
  · rw [update_of_ne ht]
    exact h t hb

lemma alerted_blockCurrentIfNotWoken (ht : t ≠ u) : (s.blockCurrentIfNotWoken u).Alerted t ↔ s.Alerted t := by
  unfold Alerted blockCurrentIfNotWoken waker
  split_ifs with hu
  · dsimp only
    rw [update_of_ne ht]
  · rfl

lemma waker_blockCurrentIfNotWoken (s : Sleepers) (t u : ℕ) : (s.blockCurrentIfNotWoken u).waker t = s.waker t := by
  unfold blockCurrentIfNotWoken waker
  split_ifs <;> rfl

lemma blocked_blockCurrentIfNotWoken (ht : t ≠ u) : (s.blockCurrentIfNotWoken u).blocked t = s.blocked t := by
  unfold blockCurrentIfNotWoken
  split_ifs with hu
  · rfl
  · exact update_of_ne ht _ _

lemma alerted_of_blocked (hb : s.blocked u = false) (h : (s.blockCurrentIfNotWoken u).blocked u = true)
    (ha : s.Alerted u) : (s.blockCurrentIfNotWoken u).Alerted u := by
  unfold blockCurrentIfNotWoken at *
  split_ifs at * with hu
  · rw [hb] at h
    cases h
  · exact ha

lemma sound_blockCurrentIfNotWoken (h : s.Sound) : (s.blockCurrentIfNotWoken u).Sound := by
  intro t
  unfold blockCurrentIfNotWoken
  split_ifs with hu
  · intro hb
    by_cases ht : t = u
    · rw [ht]
      exact update_self _ _ _
    · exact (update_of_ne ht _ _).trans (h t hb)
  · intro hb
    by_cases ht : t = u
    · rw [ht]
      simpa using hu
    · exact h t ((update_of_ne ht _ _).symm.trans hb)

structure Undisturbed (s s' : Sleepers) (t : ℕ) : Prop where
  blocked : s'.blocked t = true → s.blocked t = true
  alerted : s.Alerted t → s'.Alerted t
  waker : s'.waker t = s.waker t

lemma undisturbed_refl (s : Sleepers) (t : ℕ) : s.Undisturbed s t := ⟨id, id, rfl⟩

lemma Rouses.undisturbed (h : s.Rouses s') (t : ℕ) : s.Undisturbed s' t := ⟨h.blocked t, h.alerted t, h.waker t⟩

lemma undisturbed_blockOn (ht : t ≠ u) : s.Undisturbed (s.blockOn u) t := ⟨id, (alerted_blockOn ht).2, waker_blockOn ht⟩

lemma undisturbed_blockCurrentIfNotWoken (ht : t ≠ u) : s.Undisturbed (s.blockCurrentIfNotWoken u) t :=
  ⟨fun h => (blocked_blockCurrentIfNotWoken ht).symm.trans h, (alerted_blockCurrentIfNotWoken ht).2,
    waker_blockCurrentIfNotWoken _ _ _⟩

end Sleepers

end Ya2yOS.Task
