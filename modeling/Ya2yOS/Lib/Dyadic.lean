import Mathlib.Data.Nat.Bitwise
import Mathlib.Data.Nat.Factorization.Basic
import Mathlib.Tactic.Ring

/-!
# Blocks of a power of two

Blocks aligned to their own size, as a buddy system keeps them. A weight that the halves of a block share is conserved
by splitting and merging.
-/

namespace Lib

structure Block where
  start : ℕ
  order : ℕ
deriving DecidableEq, Repr

namespace Block

def size (b : Block) : ℕ := 2 ^ b.order

def Covers (b : Block) (a : ℕ) : Prop := b.start ≤ a ∧ a < b.start + 2 ^ b.order
deriving Decidable

def Aligned (b : Block) : Prop := 2 ^ b.order ∣ b.start
deriving Decidable

def Disjoint (b b' : Block) : Prop := ∀ a, b.Covers a → ¬b'.Covers a

def indicator (a : ℕ) (b : Block) : ℕ := if b.Covers a then 1 else 0

end Block

def Splits (w : Block → ℕ) : Prop :=
  ∀ p c, w ⟨p, c + 1⟩ = w ⟨p, c⟩ + w ⟨p + 2 ^ c, c⟩

lemma splits_size : Splits Block.size := by
  intro p c
  simp only [Block.size]
  omega

lemma splits_indicator (a : ℕ) : Splits (Block.indicator a) := by
  intro p c
  have hpow : 2 ^ (c + 1) = 2 ^ c + 2 ^ c := by omega
  unfold Block.indicator
  split_ifs <;> simp only [Block.Covers, hpow] at * <;> omega

lemma pairwise_disjoint_of_indicator {bs : List Block} (h : ∀ a, (bs.map (Block.indicator a)).sum ≤ 1) :
    bs.Pairwise Block.Disjoint := by
  induction bs with
  | nil => exact .nil
  | cons b bs ih =>
    constructor
    · intro b' hb' a hb hcov
      have hle := h a
      rw [List.map_cons, List.sum_cons, Block.indicator, if_pos hb] at hle
      have hmem : Block.indicator a b' ∈ bs.map (Block.indicator a) := List.mem_map_of_mem hb'
      have hone : Block.indicator a b' = 1 := if_pos hcov
      have := List.single_le_sum (fun _ _ => Nat.zero_le _) _ hmem
      omega
    · apply ih
      intro a
      have hle := h a
      rw [List.map_cons, List.sum_cons] at hle
      omega

variable {c m p : ℕ}

lemma xor_one_of_even (h : m % 2 = 0) : m ^^^ 1 = m + 1 := by
  have hdiv : (m ^^^ 1) / 2 = m / 2 := by simp [Nat.xor_div_two]
  have hmod : (m ^^^ 1) % 2 = (m + 1) % 2 := Nat.xor_mod_two_eq
  omega

lemma xor_one_of_odd (h : m % 2 = 1) : m ^^^ 1 = m - 1 := by
  have hdiv : (m ^^^ 1) / 2 = m / 2 := by simp [Nat.xor_div_two]
  have hmod : (m ^^^ 1) % 2 = (m + 1) % 2 := Nat.xor_mod_two_eq
  omega

lemma buddy_cases (h : 2 ^ c ∣ p) :
    2 ^ (c + 1) ∣ p ∧ p ^^^ 2 ^ c = p + 2 ^ c ∨ ∃ q, p = q + 2 ^ c ∧ 2 ^ (c + 1) ∣ q ∧ p ^^^ 2 ^ c = q := by
  obtain ⟨m, rfl⟩ := h
  have hxor : 2 ^ c * m ^^^ 2 ^ c = 2 ^ c * (m ^^^ 1) := by
    have hdist := @Nat.shiftLeft_xor_distrib c m 1
    simp only [Nat.shiftLeft_eq] at hdist
    rw [Nat.mul_comm (2 ^ c) (m ^^^ 1), hdist, one_mul, Nat.mul_comm]
  rcases Nat.mod_two_eq_zero_or_one m with hm | hm
  · left
    rw [hxor, xor_one_of_even hm]
    constructor
    · exact Nat.mul_dvd_mul_left _ (Nat.dvd_of_mod_eq_zero hm)
    · ring
  · right
    refine ⟨2 ^ c * (m - 1), ?_, ?_, ?_⟩
    · obtain ⟨k, rfl⟩ : ∃ k, m = k + 1 := ⟨m - 1, by omega⟩
      rw [Nat.add_sub_cancel]
      ring
    · exact Nat.mul_dvd_mul_left _ (by omega)
    · rw [hxor, xor_one_of_odd hm]

lemma buddy_ne (h : 2 ^ c ∣ p) : p ^^^ 2 ^ c ≠ p := by
  have hpos : 0 < 2 ^ c := Nat.two_pow_pos c
  rcases buddy_cases h with ⟨-, heq⟩ | ⟨q, hp, -, heq⟩
  · omega
  · omega

lemma Splits.merge {w : Block → ℕ} (hw : Splits w) (h : 2 ^ c ∣ p) :
    w ⟨min p (p ^^^ 2 ^ c), c + 1⟩ = w ⟨p, c⟩ + w ⟨p ^^^ 2 ^ c, c⟩ ∧ 2 ^ (c + 1) ∣ min p (p ^^^ 2 ^ c) := by
  rcases buddy_cases h with ⟨hdvd, heq⟩ | ⟨q, rfl, hdvd, heq⟩
  · rw [heq, Nat.min_eq_left (Nat.le_add_right _ _)]
    exact ⟨hw p c, hdvd⟩
  · rw [heq, Nat.min_eq_right (Nat.le_add_right _ _)]
    exact ⟨(hw q c).trans (Nat.add_comm _ _), hdvd⟩

/-- The lowest set bit of a word of `w` bits, as two's complement gives it. -/
def lowbit (w n : ℕ) : ℕ := n &&& (2 ^ w - n)

lemma lowbit_eq {w k : ℕ} (hm : m % 2 = 1) (hlt : 2 ^ k * m < 2 ^ w) : lowbit w (2 ^ k * m) = 2 ^ k := by
  have hkw : k < w := by
    by_contra hle
    have hpow : 2 ^ w ≤ 2 ^ k := Nat.pow_le_pow_right (by omega) (by omega)
    have hmul : 2 ^ k * 1 ≤ 2 ^ k * m := Nat.mul_le_mul_left _ (by omega)
    omega
  obtain ⟨d, rfl⟩ := Nat.exists_eq_add_of_le hkw.le
  obtain ⟨x, rfl⟩ : ∃ x, m = x + 1 := ⟨m - 1, by omega⟩
  have hx : x < 2 ^ d := by
    rw [pow_add] at hlt
    have := Nat.lt_of_mul_lt_mul_left hlt
    omega
  have hsub : 2 ^ (k + d) - 2 ^ k * (x + 1) = (2 ^ d - (x + 1)) * 2 ^ k := by
    rw [pow_add, ← Nat.mul_sub, Nat.mul_comm]
  -- above the lowest bit the two words have no bit in common
  have hand : (x + 1) &&& (2 ^ d - (x + 1)) = 1 := by
    apply Nat.eq_of_testBit_eq
    intro i
    rw [Nat.testBit_and, Nat.testBit_two_pow_sub_succ hx]
    cases i with
    | zero =>
      have hd : 0 < d := by omega
      have hx0 : x.testBit 0 = false := by
        rw [Nat.testBit_zero, decide_eq_false_iff_not]
        omega
      have hx1 : (x + 1).testBit 0 = true := by
        rw [Nat.testBit_zero, decide_eq_true_eq]
        omega
      rw [hx0, hx1]
      simp [hd]
    | succ i =>
      have hsame : (x + 1).testBit (i + 1) = x.testBit (i + 1) := by
        rw [Nat.testBit_succ, Nat.testBit_succ]
        congr 1
        omega
      rw [hsame, Nat.testBit_succ 1]
      cases x.testBit (i + 1) <;> simp
  have hleft : 2 ^ k * (x + 1) = (x + 1) * 2 ^ k := Nat.mul_comm _ _
  unfold lowbit
  rw [hsub, hleft]
  have hshift := @Nat.shiftLeft_and_distrib k (x + 1) (2 ^ d - (x + 1))
  simp only [Nat.shiftLeft_eq] at hshift
  rw [← hshift, hand, one_mul]

end Lib
