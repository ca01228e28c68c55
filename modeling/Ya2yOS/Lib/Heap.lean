import Mathlib.Algebra.Order.Ring.Nat
import Mathlib.Data.List.MinMax
import Mathlib.Data.List.Perm.Basic
import Mathlib.Data.Prod.Lex

/-!
# Binary heaps

A heap shows an entry with the least key. Which one among equal keys depends on the arrangement, so the operations are
a parameter and `Heap` says what each makes of the entries.
-/

namespace Lib

variable {α κ : Type*} [LinearOrder κ]

structure Heap (key : α → κ) where
  pop : List α → Option (α × List α)
  push : α → List α → List α
  pop_nil : pop [] = none
  pop_isSome {q : List α} : q ≠ [] → (pop q).isSome
  pop_perm {q r : List α} {x : α} : pop q = some (x, r) → q.Perm (x :: r)
  pop_le {q r : List α} {x : α} : pop q = some (x, r) → ∀ y ∈ r, key x ≤ key y
  push_perm {q : List α} {x : α} : (push x q).Perm (x :: q)

namespace Heap

variable {key : α → κ} {H : Heap key} {q r : List α} {x y : α}

lemma pop_eq_none : H.pop q = none ↔ q = [] := by
  constructor
  · intro h
    by_contra hq
    simpa [h] using H.pop_isSome hq
  · rintro rfl
    exact H.pop_nil

lemma pop_mem (h : H.pop q = some (x, r)) : x ∈ q := (H.pop_perm h).mem_iff.2 (by simp)

lemma mem_of_pop (h : H.pop q = some (x, r)) (hy : y ∈ r) : y ∈ q :=
  (H.pop_perm h).mem_iff.2 (List.mem_cons_of_mem x hy)

lemma length_of_pop (h : H.pop q = some (x, r)) : q.length = r.length + 1 := (H.pop_perm h).length_eq

lemma pop_least (h : H.pop q = some (x, r)) (hy : y ∈ q) : key x ≤ key y := by
  rcases List.mem_cons.1 ((H.pop_perm h).mem_iff.1 hy) with rfl | hr
  · exact le_refl _
  · exact H.pop_le h y hr

section Favour

variable [DecidableEq α] (key) (p : α → Bool)

def favourKey (x : α) : κ ×ₗ ℕ := toLex (key x, if p x then 0 else 1)

def favour : Heap key where
  pop q := (q.argmin (favourKey key p)).map fun x => (x, q.erase x)
  push x q := x :: q
  pop_nil := rfl
  pop_isSome {q} hq := by
    rw [Option.isSome_map, Option.isSome_iff_ne_none]
    exact fun h => hq (List.argmin_eq_none.1 h)
  pop_perm {q r x} h := by
    obtain ⟨y, hy, he⟩ := Option.map_eq_some_iff.1 h
    cases he
    exact List.perm_cons_erase (List.argmin_mem hy)
  pop_le {q r x} h y hy := by
    obtain ⟨z, hz, he⟩ := Option.map_eq_some_iff.1 h
    cases he
    have hle := List.le_of_mem_argmin (List.mem_of_mem_erase hy) hz
    exact (Prod.Lex.toLex_le_toLex.1 hle).elim le_of_lt fun h => le_of_eq h.1
  push_perm := .refl _

variable {key p}

/-- A favoured entry that is as small as any keeps all others from the top. -/
lemma favour_pop (h : (favour key p).pop q = some (x, r)) (hy : y ∈ q) (hp : p y = true)
    (hle : ∀ z ∈ q, key y ≤ key z) : p x = true := by
  obtain ⟨z, hz, he⟩ := Option.map_eq_some_iff.1 h
  obtain ⟨rfl, rfl⟩ := Prod.mk.inj he
  by_contra hx
  have hxy := Prod.Lex.toLex_le_toLex.1 (List.le_of_mem_argmin hy hz)
  have hyx := hle z (List.argmin_mem hz)
  rcases hxy with hlt | ⟨-, hlt⟩
  · exact absurd hlt (not_lt.2 hyx)
  · simp [hp, hx] at hlt

end Favour

end Heap

end Lib
