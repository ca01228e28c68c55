import Mathlib.Algebra.Order.Ring.Nat
import Mathlib.Data.List.Basic

/-!
# The insertion index of a binary search

The index at which a vector ordered by a key takes a new element: `base` moves up to the middle whenever the key there
is not greater than the one looked for.
-/

namespace Lib

variable {α κ : Type*} [LinearOrder κ] {i : ℕ} {k : κ} {key : α → κ} {l : List α}

/-- One halving loop: `size` candidates from `base`, with the number of rounds as fuel. -/
def bisect (key : α → κ) (l : List α) (k : κ) : ℕ → ℕ → ℕ → ℕ
  | 0, base, _ => base
  | fuel + 1, base, size =>
    if size ≤ 1 then base
    else
      match l[base + size / 2]? with
      | none => base
      | some a =>
        if k < key a then bisect key l k fuel base (size - size / 2)
        else bisect key l k fuel (base + size / 2) (size - size / 2)

def searchIdx (key : α → κ) (l : List α) (k : κ) : ℕ :=
  let base := bisect key l k l.length 0 l.length
  match l[base]? with
  | none => base
  | some a => if key a < k then base + 1 else base

lemma bisect_lt (key : α → κ) (l : List α) (k : κ) (fuel base size : ℕ) (hb : base < l.length) :
    bisect key l k fuel base size < l.length := by
  induction fuel generalizing base size with
  | zero => exact hb
  | succ fuel ih =>
    unfold bisect
    split_ifs with hs
    · exact hb
    split
    · exact hb
    · next a ha =>
      split_ifs
      · exact ih _ _ hb
      · exact ih _ _ (List.getElem?_eq_some_iff.1 ha).1

lemma searchIdx_le (key : α → κ) (l : List α) (k : κ) : searchIdx key l k ≤ l.length := by
  unfold searchIdx
  rcases Nat.eq_zero_or_pos l.length with h | h
  · simp [List.eq_nil_of_length_eq_zero h, bisect]
  have hlt := bisect_lt key l k l.length 0 l.length h
  dsimp only
  split
  · exact Nat.le_of_lt hlt
  · split_ifs
    · exact hlt
    · exact Nat.le_of_lt hlt

lemma le_bisect (hlow : ∀ j ≤ i, ∀ a, l[j]? = some a → ¬ k < key a) (fuel : ℕ) {base size : ℕ} (hi : i < base + size)
    (hfuel : size ≤ fuel + 1) (hlen : base + size ≤ l.length) : i ≤ bisect key l k fuel base size := by
  induction fuel generalizing base size with
  | zero =>
    unfold bisect
    omega
  | succ fuel ih =>
    unfold bisect
    split_ifs with hs
    · omega
    split
    · next hnone =>
      rw [List.getElem?_eq_none_iff] at hnone
      omega
    next a ha =>
    split_ifs with hk
    · have hmid : i < base + size / 2 := by
        by_contra hle
        exact hlow _ (by omega) a ha hk
      exact ih (by omega) (by omega) (by omega)
    · exact ih (by omega) (by omega) (by omega)

lemma lt_searchIdx (hi : i < l.length) (hlow : ∀ j ≤ i, ∀ a, l[j]? = some a → key a < k) : i < searchIdx key l k := by
  have hle : i ≤ bisect key l k l.length 0 l.length :=
    le_bisect (fun j hj a ha => (hlow j hj a ha).asymm) _ (by omega) (by omega) (by omega)
  unfold searchIdx
  dsimp only
  split
  · next hnone =>
    have := bisect_lt key l k l.length 0 l.length (by omega)
    rw [List.getElem?_eq_none_iff] at hnone
    omega
  · next a ha =>
    split_ifs with hk
    · omega
    · refine Nat.lt_of_le_of_ne hle fun heq => hk ?_
      exact hlow i (Nat.le_refl i) a (by rw [heq]; exact ha)

lemma bisect_cases (key : α → κ) (l : List α) (k : κ) (fuel base size : ℕ) :
    bisect key l k fuel base size = base ∨ ∃ a, l[bisect key l k fuel base size]? = some a ∧ ¬ k < key a := by
  induction fuel generalizing base size with
  | zero => exact .inl rfl
  | succ fuel ih =>
    unfold bisect
    split_ifs with hs
    · exact .inl rfl
    split
    · exact .inl rfl
    next a ha =>
    split_ifs with hk
    · exact ih base _
    · right
      rcases ih (base + size / 2) (size - size / 2) with hbase | hfound
      · exact ⟨a, by rw [hbase]; exact ha, hk⟩
      · exact hfound

lemma searchIdx_splits (hl : l.Pairwise fun a b => key a ≤ key b) (hk : ∀ a ∈ l, key a ≠ k) :
    (∀ a ∈ l.take (searchIdx key l k), key a < k) ∧ ∀ a ∈ l.drop (searchIdx key l k), k < key a := by
  have hmono : ∀ {i j : ℕ} {a b : α}, i ≤ j → l[i]? = some a → l[j]? = some b → key a ≤ key b := by
    intro i j a b hij ha hb
    obtain ⟨hi, rfl⟩ := List.getElem?_eq_some_iff.1 ha
    obtain ⟨hj, rfl⟩ := List.getElem?_eq_some_iff.1 hb
    rcases Nat.lt_or_eq_of_le hij with hlt | rfl
    · exact List.pairwise_iff_getElem.1 hl i j hi hj hlt
    · exact le_rfl
  constructor
  · intro a ha
    obtain ⟨j, hj, rfl⟩ := List.mem_take_iff_getElem.1 ha
    have hlen : j < l.length := by omega
    by_contra hnot
    have hgt : k < key l[j] := lt_of_le_of_ne (not_lt.1 hnot) (hk _ (List.getElem_mem hlen)).symm
    have hB := bisect_lt key l k l.length 0 l.length (by omega)
    have hat := List.getElem?_eq_getElem hB
    unfold searchIdx at hj
    dsimp only at hj
    rw [hat] at hj
    dsimp only at hj
    have hle : j ≤ bisect key l k l.length 0 l.length := by split_ifs at hj <;> omega
    have hgtB : k < key l[bisect key l k l.length 0 l.length] :=
      hgt.trans_le (hmono hle (List.getElem?_eq_getElem hlen) hat)
    rw [if_neg hgtB.not_gt] at hj
    -- the search has not moved, so nothing stands before its index
    rcases bisect_cases key l k l.length 0 l.length with h0 | ⟨b, hb, hbk⟩
    · omega
    · rw [hat, Option.some.injEq] at hb
      exact hbk (hb ▸ hgtB)
  · intro a ha
    obtain ⟨j, hj, rfl⟩ := List.mem_drop_iff_getElem.1 ha
    rw [Nat.add_comm] at hj
    by_contra hnot
    have hlt : key l[searchIdx key l k + j] < k := lt_of_le_of_ne (not_lt.1 hnot) (hk _ (List.getElem_mem hj))
    have hidx : searchIdx key l k + j < searchIdx key l k := by
      apply lt_searchIdx hj
      intro i hi b hb
      exact (hmono hi hb (List.getElem?_eq_getElem hj)).trans_lt hlt
    omega

end Lib
