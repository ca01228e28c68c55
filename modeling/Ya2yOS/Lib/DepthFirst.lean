import Mathlib.Algebra.Order.Ring.Nat

/-!
# Depth-first search

A search along the successors of a graph that hands the visited nodes from one branch to the next. Its answer is right
where it begins with no visited nodes.
-/

namespace Lib

variable {α : Type*} [DecidableEq α]

def searchAny (f : α → List α → Option (Bool × List α)) : List α → List α → Option (Bool × List α)
  | [], visited => some (false, visited)
  | b :: rest, visited =>
    match f b visited with
    | none => none
    | some (true, visited) => some (true, visited)
    | some (false, visited) => searchAny f rest visited

/-- The search to a given depth; `none` where it goes deeper. -/
def search (succ : α → List α) (target : α) : ℕ → α → List α → Option (Bool × List α)
  | 0, _, _ => none
  | depth + 1, a, visited =>
    if a = target then some (true, visited)
    else if a ∈ visited then some (false, visited)
    else searchAny (search succ target depth) (succ a) (visited ++ [a])

variable {succ : α → List α} {target a : α} {depth : ℕ} {out visited : List α}

lemma reaches_of_search (h : search succ target depth a visited = some (true, out)) :
    Relation.ReflTransGen (fun x y => y ∈ succ x) a target := by
  induction depth generalizing a visited out with
  | zero => cases h
  | succ depth ih =>
    have hany : ∀ bs visited out, searchAny (search succ target depth) bs visited = some (true, out) →
        ∃ b ∈ bs, Relation.ReflTransGen (fun x y => y ∈ succ x) b target := by
      intro bs
      induction bs with
      | nil => exact fun _ _ hb => by cases hb
      | cons b bs ihb =>
        intro visited out hb
        unfold searchAny at hb
        split at hb
        · cases hb
        · next v hv => exact ⟨b, List.mem_cons_self, ih hv⟩
        · next v hv =>
          obtain ⟨c, hc, hreach⟩ := ihb _ _ hb
          exact ⟨c, List.mem_cons_of_mem b hc, hreach⟩
    unfold search at h
    split_ifs at h with ht hv
    · rw [ht]
    · cases h
    · obtain ⟨b, hb, hreach⟩ := hany _ _ _ h
      exact .head hb hreach

/-- What a search without result has seen: every node that it added is not the target and has its successors among
the nodes seen. -/
structure Exhausts (succ : α → List α) (target : α) (visited out : List α) : Prop where
  kept : visited ⊆ out
  closed : ∀ x ∈ out, x ∈ visited ∨ x ≠ target ∧ succ x ⊆ out

lemma exhausts_of_search
    (h : search succ target depth a visited = some (false, out)) : Exhausts succ target visited out ∧ a ∈ out := by
  induction depth generalizing a visited out with
  | zero => cases h
  | succ depth ih =>
    have hany : ∀ bs visited out, searchAny (search succ target depth) bs visited = some (false, out) →
        Exhausts succ target visited out ∧ bs ⊆ out := by
      intro bs
      induction bs with
      | nil =>
        intro visited out hb
        cases hb
        exact ⟨⟨List.Subset.refl _, fun x hx => .inl hx⟩, List.nil_subset _⟩
      | cons b bs ihb =>
        intro visited out hb
        unfold searchAny at hb
        split at hb
        · cases hb
        · cases hb
        next v hv =>
        obtain ⟨hfirst, hb'⟩ := ih hv
        obtain ⟨hrest, hbs⟩ := ihb _ _ hb
        refine ⟨⟨List.Subset.trans hfirst.kept hrest.kept, ?_⟩, List.cons_subset.2 ⟨hrest.kept hb', hbs⟩⟩
        intro x hx
        rcases hrest.closed x hx with hxv | hx
        · rcases hfirst.closed x hxv with hx | ⟨hne, hsub⟩
          · exact .inl hx
          · exact .inr ⟨hne, List.Subset.trans hsub hrest.kept⟩
        · exact .inr hx
    unfold search at h
    split_ifs at h with ht hv
    · cases h
    · cases h
      exact ⟨⟨List.Subset.refl _, fun x hx => .inl hx⟩, hv⟩
    obtain ⟨hex, hsub⟩ := hany _ _ _ h
    have ha : a ∈ out := hex.kept (List.mem_append_right _ (List.mem_singleton_self a))
    refine ⟨⟨List.Subset.trans (List.subset_append_left _ _) hex.kept, ?_⟩, ha⟩
    intro x hx
    rcases hex.closed x hx with hxv | hx
    · rcases List.mem_append.1 hxv with hxv | hxa
      · exact .inl hxv
      · rw [List.mem_singleton] at hxa
        subst hxa
        exact .inr ⟨ht, hsub⟩
    · exact .inr hx

lemma not_reaches_of_search (h : search succ target depth a [] = some (false, out)) :
    ¬Relation.ReflTransGen (fun x y => y ∈ succ x) a target := by
  obtain ⟨hex, ha⟩ := exhausts_of_search h
  have hclosed : ∀ x ∈ out, x ≠ target ∧ succ x ⊆ out := fun x hx => (hex.closed x hx).resolve_left List.not_mem_nil
  have hmem : ∀ x, Relation.ReflTransGen (fun x y => y ∈ succ x) a x → x ∈ out := by
    intro x hpath
    induction hpath with
    | refl => exact ha
    | tail _ hstep ih => exact (hclosed _ ih).2 hstep
  intro hpath
  exact (hclosed _ (hmem _ hpath)).1 rfl

/-- The search never goes deeper than there are nodes with successors. -/
lemma search_isSome (nodes : List α) (hnodes : ∀ a, a ∉ nodes → succ a = [])
    (hd : (nodes.filter (· ∉ visited)).length < depth) : (search succ target depth a visited).isSome = true := by
  induction depth generalizing a visited with
  | zero => omega
  | succ depth ih =>
    have hany : ∀ bs visited, (nodes.filter (· ∉ visited)).length < depth →
        (searchAny (search succ target depth) bs visited).isSome = true := by
      intro bs
      induction bs with
      | nil => exact fun _ _ => rfl
      | cons b bs ihb =>
        intro visited hlt
        unfold searchAny
        split
        · next hnone =>
          have := ih (a := b) hlt
          rw [hnone] at this
          cases this
        · rfl
        · next v hv =>
          apply ihb
          refine lt_of_le_of_lt ?_ hlt
          have hkept := (exhausts_of_search hv).1.kept
          rw [← List.countP_eq_length_filter, ← List.countP_eq_length_filter]
          apply List.countP_mono_left
          intro x _ hx
          simp only [decide_eq_true_eq] at hx ⊢
          exact fun hm => hx (hkept hm)
    unfold search
    split_ifs with ht hv
    · rfl
    · rfl
    by_cases ha : a ∈ nodes
    · apply hany
      -- the node itself is no longer among those left
      have hlt : (nodes.filter (· ∉ visited ++ [a])).length < (nodes.filter (· ∉ visited)).length := by
        have hfilter : nodes.filter (· ∉ visited ++ [a]) = (nodes.filter (· ∉ visited)).filter (· ≠ a) := by
          rw [List.filter_filter]
          apply List.filter_congr
          intro x _
          simp [and_comm]
        rw [hfilter]
        exact List.length_filter_lt_length_iff_exists.2 ⟨a, by simp [ha, hv], by simp⟩
      omega
    · rw [hnodes a ha]
      rfl

end Lib
