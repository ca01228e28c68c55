import Mathlib.Algebra.Order.Ring.Nat

/-!
# Runs of a partial step function

A system takes events one after another; an event without a result ends it. Runs are restricted to the steps whose
event meets a guard.
-/

namespace Lib

variable {σ ε : Type*} {step : σ → ε → Option σ} {guard : σ → ε → Prop}

lemma of_guard {α : Type*} {c : Prop} [Decidable c] {a b : α} (h : (if c then some a else none) = some b) :
    c ∧ a = b := by
  split_ifs at h with hc
  exact ⟨hc, Option.some.inj h⟩

def GuardedStep (step : σ → ε → Option σ) (guard : σ → ε → Prop) (s t : σ) : Prop :=
  ∃ e, guard s e ∧ step s e = some t

abbrev Reaches (step : σ → ε → Option σ) (guard : σ → ε → Prop) : σ → σ → Prop :=
  Relation.ReflTransGen (GuardedStep step guard)

lemma Reaches.invariant {I : σ → Prop}
    (hstep : ∀ s e t, I s → guard s e → step s e = some t → I t) {s t : σ} (h0 : I s)
    (h : Reaches step guard s t) : I t := by
  induction h with
  | refl => exact h0
  | tail _ ht ih =>
    obtain ⟨e, hg, he⟩ := ht
    exact hstep _ e _ ih hg he

def after (step : σ → ε → Option σ) (s : σ) (e : ε) : σ := (step s e).getD s

lemma step_eq_after {s : σ} {e : ε} (h : (step s e).isSome = true) : step s e = some (after step s e) := by
  obtain ⟨t, ht⟩ := Option.isSome_iff_exists.1 h
  rw [after, ht, Option.getD_some]

lemma Reaches.after {s t : σ} {e : ε} (hr : Reaches step guard s t) (hg : guard t e)
    (h : (step t e).isSome = true) : Reaches step guard s (after step t e) :=
  hr.tail ⟨e, hg, step_eq_after h⟩

def run (step : σ → ε → Option σ) : σ → List ε → σ
  | s, [] => s
  | s, e :: es => run step (after step s e) es

def Admits (step : σ → ε → Option σ) (guard : σ → ε → Prop) : σ → List ε → Prop
  | _, [] => True
  | s, e :: es => guard s e ∧ (step s e).isSome = true ∧ Admits step guard (after step s e) es

instance Admits.decidable [∀ s e, Decidable (guard s e)] : ∀ s es, Decidable (Admits step guard s es)
  | _, [] => isTrue trivial
  | s, e :: es =>
    have := Admits.decidable (after step s e) es
    inferInstanceAs (Decidable (guard s e ∧ (step s e).isSome = true ∧ Admits step guard (after step s e) es))

def Guards (step : σ → ε → Option σ) (guard : σ → ε → Prop) : σ → List ε → Prop
  | _, [] => True
  | s, e :: es => guard s e ∧ Guards step guard (after step s e) es

lemma Admits.of_guards {s : σ} {es : List ε} (h : Admits step (fun _ _ => True) s es) (hg : Guards step guard s es) :
    Admits step guard s es := by
  induction es generalizing s with
  | nil => trivial
  | cons e es ih => exact ⟨hg.1, h.2.1, ih h.2.2 hg.2⟩

lemma Reaches.run {s : σ} {es : List ε} (h : Admits step guard s es) : Reaches step guard s (run step s es) := by
  induction es generalizing s with
  | nil => exact .refl
  | cons e es ih => exact .head ⟨e, h.1, step_eq_after h.2.1⟩ (ih h.2.2)

def follow (step : σ → ε → Option σ) (last : ε) : σ → List ε → ℕ → σ
  | s, _, 0 => s
  | s, [], n + 1 => follow step last (after step s last) [] n
  | s, e :: es, n + 1 => follow step last (after step s e) es n

lemma follow_length {last : ε} (s : σ) (es : List ε) (n : ℕ) :
    follow step last s es (es.length + n) = follow step last (run step s es) [] n := by
  induction es generalizing s with
  | nil => rw [List.length_nil, Nat.zero_add, run]
  | cons e es ih =>
    rw [List.length_cons, Nat.add_right_comm]
    exact ih (Lib.after step s e)

lemma Admits.follow {last : ε} (hlast : ∀ s, guard s last ∧ (step s last).isSome = true) {s : σ} {es : List ε}
    (h : Admits step guard s es) (n : ℕ) : guard (follow step last s es n) (es.getD n last) ∧
      step (follow step last s es n) (es.getD n last) = some (Lib.follow step last s es (n + 1)) := by
  induction n generalizing s es with
  | zero =>
    cases es with
    | nil => exact ⟨(hlast s).1, step_eq_after (hlast s).2⟩
    | cons e es => exact ⟨h.1, step_eq_after h.2.1⟩
  | succ n ih =>
    cases es with
    | nil => exact ih (show Admits step guard _ [] from trivial)
    | cons e es => exact ih h.2.2

structure Execution (step : σ → ε → Option σ) (guard : σ → ε → Prop) (s : σ) where
  state : ℕ → σ
  event : ℕ → ε
  start : state 0 = s
  guarded : ∀ n, guard (state n) (event n)
  next : ∀ n, step (state n) (event n) = some (state (n + 1))

namespace Execution

variable {s : σ} (x : Execution step guard s)

def ofList (es : List ε) (last : ε) (hlast : ∀ s, guard s last ∧ (step s last).isSome = true)
    (h : Admits step guard s es) : Execution step guard s where
  state := follow step last s es
  event n := es.getD n last
  start := by cases es <;> rfl
  guarded n := (h.follow hlast n).1
  next n := (h.follow hlast n).2

lemma reaches (n : ℕ) : Reaches step guard s (x.state n) := by
  induction n with
  | zero => rw [x.start]
  | succ n ih => exact ih.tail ⟨x.event n, x.guarded n, x.next n⟩

/-- Weak fairness: if from some time on one of the events is always possible, one of them happens. -/
def Fair (own : ε → Prop) : Prop :=
  ∀ n, (∀ m ≥ n, ∃ e, own e ∧ (step (x.state m) e).isSome = true) → ∃ m ≥ n, own (x.event m)

/-- While the goal is not reached an own event is possible, it brings the goal nearer, and no event
takes it further away. -/
theorem eventually {own : ε → Prop} (hfair : x.Fair own) (goal : σ → Prop) (rank : σ → ℕ) (n : ℕ)
    (hpossible : ∀ m ≥ n, ¬ goal (x.state m) → ∃ e, own e ∧ (step (x.state m) e).isSome = true)
    (hle : ∀ m ≥ n, ¬ goal (x.state m) → ¬ goal (x.state (m + 1)) → rank (x.state (m + 1)) ≤ rank (x.state m))
    (hlt : ∀ m ≥ n, ¬ goal (x.state m) → ¬ goal (x.state (m + 1)) → own (x.event m) →
      rank (x.state (m + 1)) < rank (x.state m)) : ∃ m ≥ n, goal (x.state m) := by
  by_contra hnever
  have hnot : ∀ m ≥ n, ¬ goal (x.state m) := fun m hm hg => hnever ⟨m, hm, hg⟩
  have hdown : ∀ m ≥ n, ∀ d, rank (x.state (m + d)) ≤ rank (x.state m) := by
    intro m hm d
    induction d with
    | zero => exact le_rfl
    | succ d ih => exact (hle (m + d) (by omega) (hnot _ (by omega)) (hnot _ (by omega))).trans ih
  have hbelow : ∀ r, ∃ m ≥ n, rank (x.state m) + r ≤ rank (x.state n) := by
    intro r
    induction r with
    | zero => exact ⟨n, le_rfl, le_rfl⟩
    | succ r ih =>
      obtain ⟨m, hm, hr⟩ := ih
      obtain ⟨j, hj, hown⟩ := hfair m fun i hi => hpossible i (hm.trans hi) (hnot i (hm.trans hi))
      obtain ⟨d, rfl⟩ := Nat.exists_eq_add_of_le hj
      refine ⟨m + d + 1, by omega, ?_⟩
      have h1 := hlt (m + d) (by omega) (hnot _ (by omega)) (hnot _ (by omega)) hown
      have h2 := hdown m hm d
      omega
  obtain ⟨m, -, hm⟩ := hbelow (rank (x.state n) + 1)
  omega

end Execution

end Lib
