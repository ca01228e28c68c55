import Mathlib.Algebra.Order.Ring.Nat
import Mathlib.Data.List.Pairwise

/-!
# Ordered maps as sorted entry lists

A finite map as the list of its entries in increasing key order, with the operations of an ordered tree map.
-/

namespace Lib

open List

/-- A finite map, as its entries in strictly increasing key order. -/
structure OrdMap (κ β : Type*) [LinearOrder κ] where
  entries : List (κ × β)
  sorted : entries.Pairwise (fun a b => a.1 < b.1)

namespace OrdMap

variable {κ β : Type*} [LinearOrder κ]

instance [DecidableEq β] : DecidableEq (OrdMap κ β) := fun m n =>
  decidable_of_iff (m.entries = n.entries) (by cases m; cases n; simp)

instance : Membership (κ × β) (OrdMap κ β) where
  mem m e := e ∈ m.entries

variable {e : κ × β} {m : OrdMap κ β}

lemma mem_def : e ∈ m ↔ e ∈ m.entries := Iff.rfl

variable {k j : κ} {l : List (κ × β)} {v : β}

lemma mem_unique {w : β} (hv : (k, v) ∈ m) (hw : (k, w) ∈ m) : v = w := by
  obtain ⟨l, hs⟩ := m
  rw [mem_def] at hv hw
  induction l with
  | nil => simp at hv
  | cons e l ih =>
    have hlt := pairwise_cons.1 hs
    rcases mem_cons.1 hv with rfl | hv' <;> rcases mem_cons.1 hw with hw' | hw'
    · exact (Prod.mk.inj hw').2.symm
    · exact absurd (hlt.1 _ hw') (lt_irrefl _)
    · subst hw'
      exact absurd (hlt.1 _ hv') (lt_irrefl _)
    · exact ih hlt.2 hv' hw'

def empty : OrdMap κ β := ⟨[], List.Pairwise.nil⟩

def get? (m : OrdMap κ β) (k : κ) : Option β := (m.entries.find? (fun e => e.1 = k)).map Prod.snd

lemma get?_eq_some : m.get? k = some v ↔ (k, v) ∈ m := by
  constructor
  · intro h
    obtain ⟨e, he, rfl⟩ := Option.map_eq_some_iff.1 h
    have hk : e.1 = k := by simpa using find?_some he
    rw [← hk]
    exact mem_of_find?_eq_some he
  · intro h
    cases hf : m.entries.find? (fun e => e.1 = k) with
    | none => simpa using find?_eq_none.1 hf _ h
    | some e =>
      have hk : e.1 = k := by simpa using find?_some hf
      have he : (k, e.2) ∈ m := by
        rw [← hk]
        exact mem_of_find?_eq_some hf
      simp [get?, hf, mem_unique h he]

lemma get?_eq_none : m.get? k = none ↔ ∀ v, (k, v) ∉ m := by
  simp only [Option.eq_none_iff_forall_ne_some, Ne, get?_eq_some]

lemma get?_congr {m n : OrdMap κ β} (h : ∀ v, (k, v) ∈ m ↔ (k, v) ∈ n) : m.get? k = n.get? k := by
  ext v
  simp only [get?_eq_some, h]

def restrict (m : OrdMap κ β) (p : κ → Bool) : OrdMap κ β :=
  ⟨m.entries.filter (fun e => p e.1), m.sorted.filter _⟩

@[simp] lemma mem_restrict {p : κ → Bool}  : e ∈ m.restrict p ↔ e ∈ m ∧ p e.1 = true := mem_filter

lemma get?_restrict {p : κ → Bool} : (m.restrict p).get? k = if p k then m.get? k else none := by
  split_ifs with h
  · exact get?_congr (by simp [h])
  · exact get?_eq_none.2 (by simp [h])

def erase (m : OrdMap κ β) (k : κ) : OrdMap κ β := m.restrict (fun j => j ≠ k)

@[simp] lemma mem_erase : e ∈ m.erase k ↔ e ∈ m ∧ e.1 ≠ k := by
  simp [erase]

lemma get?_erase : (m.erase k).get? j = if j = k then none else m.get? j := by
  rw [erase, get?_restrict]
  by_cases h : j = k <;> simp

def insertEntry (k : κ) (v : β) : List (κ × β) → List (κ × β)
  | [] => [(k, v)]
  | e :: l =>
    if k < e.1 then (k, v) :: e :: l
    else if k = e.1 then (k, v) :: l
    else e :: insertEntry k v l

lemma mem_insertEntry (hl : l.Pairwise (fun a b => a.1 < b.1)) :
    e ∈ insertEntry k v l ↔ e = (k, v) ∨ (e ∈ l ∧ e.1 ≠ k) := by
  induction l with
  | nil => simp [insertEntry]
  | cons a l ih =>
    obtain ⟨ha, hl⟩ := pairwise_cons.1 hl
    have hkeep : ∀ b ∈ l, k ≤ a.1 → b.1 ≠ k := fun b hb hk => (lt_of_le_of_lt hk (ha b hb)).ne'
    unfold insertEntry
    split_ifs with h1 h2
    · have hak : a.1 ≠ k := h1.ne'
      grind
    · grind
    · grind

lemma insertEntry_sorted (hl : l.Pairwise (fun a b => a.1 < b.1)) :
    (insertEntry k v l).Pairwise (fun a b => a.1 < b.1) := by
  induction l with
  | nil => simp [insertEntry]
  | cons a l ih =>
    obtain ⟨ha, hl'⟩ := pairwise_cons.1 hl
    unfold insertEntry
    split_ifs with h1 h2
    · refine pairwise_cons.2 ⟨fun b hb => ?_, hl⟩
      rcases mem_cons.1 hb with rfl | hb
      · exact h1
      · exact h1.trans (ha b hb)
    · exact pairwise_cons.2 ⟨fun b hb => h2 ▸ ha b hb, hl'⟩
    · refine pairwise_cons.2 ⟨fun b hb => ?_, ih hl'⟩
      rcases (mem_insertEntry hl').1 hb with rfl | hb
      · exact lt_of_le_of_ne (not_lt.1 h1) (Ne.symm h2)
      · exact ha b hb.1

def insert (m : OrdMap κ β) (k : κ) (v : β) : OrdMap κ β :=
  ⟨insertEntry k v m.entries, insertEntry_sorted m.sorted⟩

@[simp] lemma mem_insert {v : β}  : e ∈ m.insert k v ↔ e = (k, v) ∨ (e ∈ m ∧ e.1 ≠ k) := mem_insertEntry m.sorted

lemma get?_insert : (m.insert k v).get? j = if j = k then some v else m.get? j := by
  split_ifs with h
  · exact get?_eq_some.2 (by simp [h])
  · exact get?_congr (by simp [h])

def union (m n : OrdMap κ β) : OrdMap κ β := n.entries.foldl (fun acc e => acc.insert e.1 e.2) m

def popFirst? (m : OrdMap κ β) : Option ((κ × β) × OrdMap κ β) :=
  match h : m.entries with
  | [] => none
  | e :: l => some (e, ⟨l, (pairwise_cons.1 (h ▸ m.sorted)).2⟩)

def popLast? (m : OrdMap κ β) : Option ((κ × β) × OrdMap κ β) :=
  match m.entries.getLast? with
  | none => none
  | some e => some (e, ⟨m.entries.dropLast, m.sorted.sublist (dropLast_sublist _)⟩)

lemma popFirst?_eq_none : m.popFirst? = none ↔ m.entries = [] := by
  unfold popFirst?
  split <;> simp_all

lemma popLast?_eq_none : m.popLast? = none ↔ m.entries = [] := by
  unfold popLast?
  rw [← getLast?_eq_none_iff]
  split <;> simp_all

lemma popFirst?_spec {m m' : OrdMap κ β} (h : m.popFirst? = some (e, m')) :
    m.entries = e :: m'.entries ∧ ∀ a ∈ m', e.1 < a.1 := by
  unfold popFirst? at h
  split at h
  · simp at h
  next a l hl =>
  obtain ⟨rfl, rfl⟩ := h
  have hs := m.sorted
  rw [hl] at hs
  exact ⟨hl, (pairwise_cons.1 hs).1⟩

lemma popLast?_spec {m m' : OrdMap κ β} (h : m.popLast? = some (e, m')) :
    m.entries = m'.entries ++ [e] ∧ ∀ a ∈ m', a.1 < e.1 := by
  unfold popLast? at h
  split at h
  · simp at h
  next a ha =>
  simp only [Option.some.injEq, Prod.mk.injEq] at h
  obtain ⟨rfl, rfl⟩ := h
  obtain ⟨l, hl⟩ := getLast?_eq_some_iff.1 ha
  have hl : m.entries = m.entries.dropLast ++ [a] := by simp [hl]
  have hs := m.sorted
  rw [hl, pairwise_append] at hs
  exact ⟨hl, fun b hb => hs.2.2 b hb a (mem_singleton_self a)⟩

def keys (m : OrdMap κ β) : List κ := m.entries.map Prod.fst

def values (m : OrdMap κ β) : List β := m.entries.map Prod.snd

@[simp] lemma mem_keys : k ∈ m.keys ↔ ∃ v, (k, v) ∈ m := by
  simp [keys, mem_def]

end OrdMap

end Lib
