import Mathlib.Data.List.InsertIdx
import Ya2yOS.Lib.BinarySearch

/-!
# Lists of segments in ascending order

Elements that occupy half-open segments `[lo a, hi a)` of a linear order; a list is ascending when no segment is empty
and each ends where the next begins or before.
-/

namespace Lib

open List

variable {α κ : Type*} [LinearOrder κ] {a : α}

def Apart (lo hi : α → κ) (a b : α) : Prop := hi a ≤ lo b ∨ hi b ≤ lo a

lemma Apart.symm {lo hi : α → κ} {b : α} (h : Apart lo hi a b) : Apart lo hi b a := Or.symm h

structure Ascending (lo hi : α → κ) (l : List α) : Prop where
  proper : ∀ a ∈ l, lo a < hi a
  chain : l.Pairwise fun a b => hi a ≤ lo b

lemma exists_split {l : List α} {i : ℕ} (h : l[i]? = some a) : ∃ xs ys, l = xs ++ a :: ys ∧ xs.length = i := by
  obtain ⟨hi, rfl⟩ := List.getElem?_eq_some_iff.1 h
  refine ⟨l.take i, l.drop (i + 1), ?_, by simp; omega⟩
  rw [List.getElem_cons_drop, List.take_append_drop]

variable {lo hi : α → κ} {l xs ys : List α} {a b : α}

lemma ascending_cons : Ascending lo hi (a :: l) ↔ lo a < hi a ∧ (∀ b ∈ l, hi a ≤ lo b) ∧ Ascending lo hi l := by
  constructor
  · intro h
    obtain ⟨hchain, hrest⟩ := pairwise_cons.1 h.chain
    exact ⟨h.proper a mem_cons_self, hchain, fun b hb => h.proper b (mem_cons_of_mem _ hb), hrest⟩
  · intro ⟨ha, hchain, h⟩
    exact ⟨forall_mem_cons.2 ⟨ha, h.proper⟩, pairwise_cons.2 ⟨hchain, h.chain⟩⟩

lemma ascending_append : Ascending lo hi (xs ++ ys) ↔
    Ascending lo hi xs ∧ Ascending lo hi ys ∧ ∀ a ∈ xs, ∀ b ∈ ys, hi a ≤ lo b := by
  constructor
  · intro h
    obtain ⟨hx, hy, hxy⟩ := pairwise_append.1 h.chain
    exact ⟨⟨fun a ha => h.proper a (mem_append_left _ ha), hx⟩,
      ⟨fun a ha => h.proper a (mem_append_right _ ha), hy⟩, hxy⟩
  · intro ⟨hx, hy, hxy⟩
    exact ⟨fun a ha => (mem_append.1 ha).elim (hx.proper a) (hy.proper a), pairwise_append.2 ⟨hx.chain, hy.chain, hxy⟩⟩

namespace Ascending

variable {i : ℕ}

lemma sublist (h : Ascending lo hi l) (hs : xs.Sublist l) : Ascending lo hi xs :=
  ⟨fun a ha => h.proper a (hs.subset ha), h.chain.sublist hs⟩

lemma eraseIdx (h : Ascending lo hi l) (i : ℕ) : Ascending lo hi (l.eraseIdx i) := h.sublist (eraseIdx_sublist l i)

lemma sorted (h : Ascending lo hi l) : l.Pairwise fun a b => lo a ≤ lo b := by
  apply h.chain.imp_of_mem
  intro a b ha _ hab
  exact (h.proper a ha).le.trans hab

lemma apart (h : Ascending lo hi l) : l.Pairwise (Apart lo hi) := h.chain.imp Or.inl

lemma apart_eraseIdx (h : Ascending lo hi l) (hi' : l[i]? = some a) : ∀ b ∈ l.eraseIdx i, Apart lo hi b a := by
  obtain ⟨xs, ys, rfl, rfl⟩ := exists_split hi'
  obtain ⟨-, hy, hxy⟩ := ascending_append.1 h
  intro b hb
  rw [eraseIdx_append_of_length_le le_rfl, Nat.sub_self] at hb
  rcases mem_append.1 hb with hb | hb
  · exact .inl (hxy b hb a mem_cons_self)
  · exact .inr ((ascending_cons.1 hy).2.1 b hb)

lemma of_sorted (hp : ∀ a ∈ l, lo a < hi a) (hs : l.Pairwise fun a b => lo a ≤ lo b)
    (ha : l.Pairwise (Apart lo hi)) : Ascending lo hi l := by
  refine ⟨hp, (hs.and ha).imp_of_mem ?_⟩
  intro a b ha _ ⟨hle, hapart⟩
  rcases hapart with h | h
  · exact h
  · exact absurd ((hp b ‹_›).trans_le h) hle.not_gt

lemma set (h : Ascending lo hi l) (ha : l[i]? = some a) (hb : lo b < hi b) (hlo : lo b < hi a) (hhi : lo a < hi b)
    (hap : ∀ c ∈ l.eraseIdx i, Apart lo hi c b) : Ascending lo hi (l.set i b) := by
  obtain ⟨xs, ys, rfl, rfl⟩ := exists_split ha
  obtain ⟨hx, hy, hxy⟩ := ascending_append.1 h
  obtain ⟨hpa, hay, hy'⟩ := ascending_cons.1 hy
  rw [eraseIdx_append_of_length_le le_rfl, Nat.sub_self] at hap
  rw [set_append_right _ _ le_rfl, Nat.sub_self, set_cons_zero, ascending_append, ascending_cons]
  -- a segment before the old one cannot lie behind the new one, and the other way round
  have hbefore : ∀ c ∈ xs, hi c ≤ lo b := by
    intro c hc
    rcases hap c (mem_append_left _ hc) with hcb | hcb
    · exact hcb
    · have h1 := hxy c hc a mem_cons_self
      have h2 := hx.proper c hc
      exact absurd (hhi.trans_le (hcb.trans (h2.le.trans h1))) (lt_irrefl _)
  have hafter : ∀ c ∈ ys, hi b ≤ lo c := by
    intro c hc
    rcases hap c (mem_append_right _ hc) with hcb | hcb
    · have h1 := hay c hc
      have h2 := hy'.proper c hc
      exact absurd (hlo.trans_le (h1.trans (h2.le.trans hcb))) (lt_irrefl _)
    · exact hcb
  refine ⟨hx, ⟨hb, hafter, hy'⟩, ?_⟩
  intro c hc d hd
  rcases mem_cons.1 hd with rfl | hd
  · exact hbefore c hc
  · exact hxy c hc d (mem_cons_of_mem _ hd)

lemma narrow (h : Ascending lo hi l) (ha : l[i]? = some a) (hb : lo b < hi b) (hlo : lo a ≤ lo b)
    (hhi : hi b ≤ hi a) : Ascending lo hi (l.set i b) := by
  apply h.set ha hb (hb.trans_le hhi) (hlo.trans_lt hb)
  intro c hc
  rcases h.apart_eraseIdx ha c hc with hca | hca
  · exact .inl (hca.trans hlo)
  · exact .inr (hhi.trans hca)

lemma insertIdx {k : ℕ} (h : Ascending lo hi l) (hb : lo b < hi b) (hbefore : ∀ c ∈ l.take k, hi c ≤ lo b)
    (hafter : ∀ c ∈ l.drop k, hi b ≤ lo c) : Ascending lo hi (l.insertIdx k b) := by
  induction k generalizing l with
  | zero => exact ascending_cons.2 ⟨hb, hafter, h⟩
  | succ k ih =>
    cases l with
    | nil => exact h
    | cons a l =>
      obtain ⟨ha, hal, hl⟩ := ascending_cons.1 h
      rw [insertIdx_succ_cons, ascending_cons]
      refine ⟨ha, ?_, ih hl (fun c hc => hbefore c (mem_cons_of_mem _ hc)) hafter⟩
      intro c hc
      rcases eq_or_mem_of_mem_insertIdx hc with rfl | hc
      · exact hbefore a mem_cons_self
      · exact hal c hc

lemma insert (h : Ascending lo hi l) (hb : lo b < hi b) (hap : ∀ c ∈ l, Apart lo hi c b) :
    Ascending lo hi (l.insertIdx (searchIdx lo l (lo b)) b) := by
  have hne : ∀ c ∈ l, lo c ≠ lo b := by
    intro c hc heq
    rcases hap c hc with hcb | hcb
    · exact absurd (h.proper c hc) (by rw [heq]; exact hcb.not_gt)
    · exact absurd hb (by rw [← heq]; exact hcb.not_gt)
  obtain ⟨hlow, hhigh⟩ := searchIdx_splits h.sorted hne
  apply h.insertIdx hb
  · intro c hc
    rcases hap c (mem_of_mem_take hc) with hcb | hcb
    · exact hcb
    · exact absurd ((hlow c hc).trans hb) (hcb.not_gt)
  · intro c hc
    rcases hap c (mem_of_mem_drop hc) with hcb | hcb
    · exact absurd ((hhigh c hc).trans (h.proper c (mem_of_mem_drop hc))) hcb.not_gt
    · exact hcb

lemma merge {c : α} (h : Ascending lo hi l) (ha : l[i]? = some a) (hb : l[i + 1]? = some b) (hlo : lo c = lo a)
    (hhi : hi c = hi b) : Ascending lo hi ((l.eraseIdx (i + 1)).set i c) := by
  obtain ⟨xs, rest, rfl, rfl⟩ := exists_split ha
  obtain ⟨ys, rfl⟩ : ∃ ys, rest = b :: ys := by
    cases rest with
    | nil => simp at hb
    | cons d ys => exact ⟨ys, by simpa using hb⟩
  have hedit : ((xs ++ a :: b :: ys).eraseIdx (xs.length + 1)).set xs.length c = xs ++ c :: ys := by
    rw [eraseIdx_append_of_length_le (by omega)]
    simp
  rw [ascending_append, ascending_cons, ascending_cons] at h
  obtain ⟨hx, ⟨hpa, hay, hpb, hby, hy⟩, hxy⟩ := h
  rw [hedit, ascending_append, ascending_cons, hlo, hhi]
  refine ⟨hx, ⟨?_, hby, hy⟩, ?_⟩
  · exact hpa.trans_le ((hay b mem_cons_self).trans hpb.le)
  intro d hd e he
  rcases mem_cons.1 he with rfl | he
  · rw [hlo]
    exact hxy d hd a mem_cons_self
  · exact hxy d hd e (mem_cons_of_mem _ (mem_cons_of_mem _ he))

end Ascending

end Lib
