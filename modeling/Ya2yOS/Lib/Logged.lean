import Mathlib.Algebra.Order.Ring.Nat
import Mathlib.Data.List.Basic

/-!
# Computations that log what they ask

A computation that may fail and keeps a log of the questions it put. The log of one that fails ends with the question
that made it fail.
-/

namespace Lib

universe u v

structure Logged (β : Type u) (α : Type v) where
  log : List β
  result : Option α

namespace Logged

variable {β : Type u} {α γ : Type v}

protected def bind (x : Logged β α) (f : α → Logged β γ) : Logged β γ :=
  match x.result with
  | none => ⟨x.log, none⟩
  | some a => ⟨x.log ++ (f a).log, (f a).result⟩

instance : Monad (Logged β) where
  pure a := ⟨[], some a⟩
  bind := Logged.bind

def lift (o : Option α) : Logged β α := ⟨[], o⟩

def ask (b : β) (o : Option α) : Logged β α := ⟨[b], o⟩

@[simp] lemma result_pure (a : α) : (pure a : Logged β α).result = some a := rfl

@[simp] lemma result_lift (o : Option α) : (lift o : Logged β α).result = o := rfl

@[simp] lemma result_bind (x : Logged β α) (f : α → Logged β γ) :
    (x >>= f).result = x.result.bind fun a => (f a).result := by
  show (Logged.bind x f).result = _
  unfold Logged.bind
  cases x.result <;> rfl

@[simp] lemma result_ite (c : Prop) [Decidable c] (x y : Logged β α) :
    (if c then x else y).result = if c then x.result else y.result := apply_ite Logged.result c x y

/-- Every question of the log is one that `p` allows. -/
def Safe (p : β → Prop) (x : Logged β α) : Prop := ∀ b ∈ x.log, p b

variable {p : β → Prop}

@[simp] lemma safe_pure (a : α) : Safe p (pure a : Logged β α) := fun _ hb => by cases hb

@[simp] lemma safe_lift (o : Option α) : Safe p (lift o : Logged β α) := fun _ hb => by cases hb

@[simp] lemma safe_ask (b : β) (o : Option α) : Safe p (ask b o) ↔ p b := by
  simp [Safe, ask]

lemma safe_bind (x : Logged β α) (f : α → Logged β γ) :
    Safe p (x >>= f) ↔ Safe p x ∧ ∀ a, x.result = some a → Safe p (f a) := by
  show Safe p (Logged.bind x f) ↔ _
  unfold Logged.bind Safe
  cases x.result with
  | none => simp
  | some a =>
    simp only [List.mem_append, Option.some.injEq, forall_eq']
    constructor
    · exact fun h => ⟨fun b hb => h b (.inl hb), fun b hb => h b (.inr hb)⟩
    · rintro ⟨hx, hf⟩ b (hb | hb)
      · exact hx b hb
      · exact hf b hb

section AnyM

variable {β : Type u} {α : Type v} {p : β → Prop}

lemma result_anyM (q : α → Logged β Bool) (l : List α) : (l.anyM q).result = l.anyM fun a => (q a).result := by
  induction l with
  | nil => rfl
  | cons a l ih =>
    simp only [List.anyM, result_bind]
    cases (q a).result with
    | none => rfl
    | some b =>
      cases b
      · exact ih
      · rfl

lemma safe_anyM_cons (q : α → Logged β Bool) (a : α) (l : List α) :
    Safe p ((a :: l).anyM q) ↔ Safe p (q a) ∧ ((q a).result = some false → Safe p (l.anyM q)) := by
  simp only [List.anyM]
  rw [safe_bind]
  refine and_congr_right fun _ => ⟨fun h => h false, fun h b => ?_⟩
  cases b
  · exact h
  · exact fun _ => safe_pure true

end AnyM

end Logged

end Lib
