import Ya2yOS.Mm.Edit
import Ya2yOS.Mm.MmapOps

/-!
# munmap, mmap and madvise as edits
-/

namespace Ya2yOS.Mm

open Lib List Option Logged
open Conv (result_toVirtAddr_bind)

variable {l l' : List MapArea} {a a' : MapArea} {i b e s : ℕ} {gone : ℕ → Prop} {left right : Option MapArea}
  {pt pt' : PageTable}

lemma perm_of_getElem? (h : l[i]? = some a) : l.Perm (a :: l.eraseIdx i) := by
  obtain ⟨hi, rfl⟩ := List.getElem?_eq_some_iff.1 h
  exact (List.getElem_cons_eraseIdx_perm hi).symm

lemma set_perm (h : l[i]? = some a) (b : MapArea) : (l.set i b).Perm (b :: l.eraseIdx i) :=
  List.set_perm_cons_eraseIdx (List.getElem?_eq_some_iff.1 h).1 b

lemma selected {p : MapArea → Bool} (hf : l.findIdx? p = some i) (ha : l[i]? = some a) : p a = true := by
  obtain ⟨hi, hp, -⟩ := findIdx?_eq_some_iff_getElem.1 hf
  rw [getElem?_eq_getElem hi, some.injEq] at ha
  rwa [← ha]

namespace Trims

lemma relist (h : l.Perm l') : Trims ⟨pt, l⟩ ⟨pt, l'⟩ := .single (.relist pt h)

lemma at_index (ps : List MapArea) (h : l[i]? = some a) (he : Trims ⟨pt, a :: l.eraseIdx i⟩ ⟨pt', ps ++ l.eraseIdx i⟩) :
    Trims ⟨pt, l⟩ ⟨pt', ps ++ l.eraseIdx i⟩ :=
  (relist (perm_of_getElem? h)).trans he

lemma frame {L L' : Layout} (h : Trims L L') (x : List MapArea) :
    Trims ⟨L.pt, L.areas ++ x⟩ ⟨L'.pt, L'.areas ++ x⟩ := by
  refine h.lift (fun L => Layout.mk L.pt (L.areas ++ x)) fun L L' ht => ?_
  cases ht with
  | relist pt hp => exact .relist pt (hp.append_right x)
  | unmap pt a rest v hu hv => exact .unmap pt a (rest ++ x) v hu hv
  | carve pt a ps rest hu hp hd hc =>
    show Trim ⟨pt, a :: (rest ++ x)⟩ ⟨pt, (ps ++ rest) ++ x⟩
    rw [append_assoc]
    exact .carve pt a ps (rest ++ x) hu hp hd hc
  | merge pt a b rest hm => exact .merge pt a b (rest ++ x) hm

end Trims

lemma mergeAt_trims (h : mergeAt l i = some l') : Trims ⟨pt, l⟩ ⟨pt, l'⟩ := by
  unfold mergeAt at h
  split at h
  · next a b ha hb =>
    split_ifs at h with hm
    rw [some.injEq] at h
    subst h
    obtain ⟨hi, rfl⟩ := List.getElem?_eq_some_iff.1 ha
    have hae : (l.eraseIdx (i + 1))[i]? = some l[i] := by
      rw [List.getElem?_eraseIdx_of_lt (by omega), ha]
    refine (Trims.relist (perm_of_getElem? hb)).trans ?_
    refine (Trims.relist ((perm_of_getElem? hae).cons b)).trans ?_
    refine (Trims.relist (List.Perm.swap _ _ _)).trans ?_
    exact .tail (.single (.merge pt l[i] b _ hm)) (.relist pt (set_perm hae _).symm)
  · simp at h

/-- Neighbours become one, again and again. -/
abbrev Merges : List MapArea → List MapArea → Prop :=
  Relation.ReflTransGen fun l l' => ∃ i, mergeAt l i = some l'

lemma mergeAdjacentAreas_merges (fuel : ℕ) (l : List MapArea) (i : ℕ) : Merges l (mergeAdjacentAreas fuel l i) := by
  induction fuel generalizing l i with
  | zero => exact .refl
  | succ fuel ih =>
    unfold mergeAdjacentAreas
    split
    · next l' h =>
      split_ifs at h
      exact .head ⟨_, h⟩ (ih _ _)
    · split
      · next l' h => exact .head ⟨_, h⟩ (ih _ _)
      · exact .refl

lemma Merges.trims (pt : PageTable) (h : Merges l l') : Trims ⟨pt, l⟩ ⟨pt, l'⟩ := by
  induction h with
  | refl => exact .refl
  | tail _ h ih => exact ih.trans (mergeAt_trims h.choose_spec)

lemma insertAreaSortedUnmerged_perm (l : List MapArea) (a : MapArea) : (insertAreaSortedUnmerged l a).1.Perm (a :: l) :=
  perm_insertIdx _ _ (searchIdx_le _ _ _)

lemma insertAreaSorted_trims (pt : PageTable) (l : List MapArea) (a : MapArea) :
    Trims ⟨pt, a :: l⟩ ⟨pt, insertAreaSorted l a⟩ :=
  (Trims.relist (insertAreaSortedUnmerged_perm l a).symm).trans ((mergeAdjacentAreas_merges _ _ _).trims pt)

structure Unmapped (pt : PageTable) (a : MapArea) (gone : ℕ → Prop) (pt' : PageTable) (a' : MapArea) :
    Prop where
  area : a' = { a with dataFrames := a'.dataFrames }
  records : ∀ e, e ∈ a'.dataFrames ↔ e ∈ a.dataFrames ∧ ¬ gone e.1
  cleared : ∀ v, gone v → pt'.findPte v = none
  stays : ∀ v, pt.findPte v = none → pt'.findPte v = none

lemma Unmapped.range (h : Unmapped pt a gone pt' a') : a'.vpnRange = a.vpnRange := by
  rw [h.area]

lemma Unmapped.same (h : Unmapped pt a gone pt' a') : SameKind a' a := by
  rw [h.area]
  exact ⟨rfl, rfl, rfl, rfl, rfl⟩

lemma unmapList_trims (pt : PageTable) (a : MapArea) (rest : List MapArea) (vs : List ℕ)
    (hu : a.isUser = true) (hv : ∀ v ∈ vs, v ∈ a.vpnRange) :
    Trims ⟨pt, a :: rest⟩ ⟨(vs.foldl (fun s v => MapArea.unmapOne s.1 s.2 v) (pt, a)).1,
        (vs.foldl (fun s v => MapArea.unmapOne s.1 s.2 v) (pt, a)).2 :: rest⟩ := by
  induction vs generalizing pt a with
  | nil => exact .refl
  | cons v vs ih =>
    have h1 : Trim ⟨pt, a :: rest⟩ _ := .unmap pt a rest v hu (hv v mem_cons_self)
    exact .head h1 (ih _ _ hu fun w hw => hv w (mem_cons_of_mem _ hw))

lemma unmapList_spec (pt : PageTable) (a : MapArea) (vs : List ℕ) :
    Unmapped pt a (· ∈ vs) (vs.foldl (fun s v => MapArea.unmapOne s.1 s.2 v) (pt, a)).1
      (vs.foldl (fun s v => MapArea.unmapOne s.1 s.2 v) (pt, a)).2 := by
  induction vs generalizing pt a with
  | nil => exact ⟨rfl, by simp, by simp, fun _ h => h⟩
  | cons v vs ih =>
    obtain ⟨ha, hm, hc, hn⟩ := ih (a.unmapOne pt v).1 (a.unmapOne pt v).2
    refine ⟨ha, fun e => ?_, fun w hw => ?_, fun w hw => ?_⟩
    · refine (hm e).trans ?_
      simp only [MapArea.unmapOne, OrdMap.mem_erase, mem_cons, not_or, and_assoc]
    · rcases mem_cons.1 hw with rfl | hw
      · exact hn _ (PageTable.findPte_unmap_self _ _)
      · exact hc w hw
    · exact hn w (PageTable.findPte_unmap_of_none _ hw)

lemma unmapPages_trims (pt : PageTable) (a : MapArea) (rest : List MapArea) (l h : ℕ)
    (hu : a.isUser = true) (hv : ∀ v, l ≤ v → v < h → v ∈ a.vpnRange) :
    Trims ⟨pt, a :: rest⟩ ⟨(a.unmapPages pt l h).1, (a.unmapPages pt l h).2 :: rest⟩ :=
  unmapList_trims pt a rest _ hu fun v hm => hv v (mem_vpns.1 hm).1 (mem_vpns.1 hm).2

lemma unmapPages_spec (pt : PageTable) (a : MapArea) (l h : ℕ) :
    Unmapped pt a (fun v => l ≤ v ∧ v < h) (a.unmapPages pt l h).1 (a.unmapPages pt l h).2 := by
  have hs := unmapList_spec pt a (vpns l h)
  simp only [mem_vpns] at hs
  exact hs

lemma unmapAll_trims (pt : PageTable) (a : MapArea) (rest : List MapArea) (hu : a.isUser = true) :
    Trims ⟨pt, a :: rest⟩ ⟨(a.unmapAll pt).1, rest⟩ := by
  have hspec := unmapPages_spec pt a a.vpnRange.start a.vpnRange.stop
  refine (unmapPages_trims pt a rest a.vpnRange.start a.vpnRange.stop hu fun _ h1 h2 => ⟨h1, h2⟩).tail ?_
  refine .carve _ _ [] rest ?_ (by simp) .nil fun v hv => .inr (hspec.cleared v ?_)
  · rw [MapArea.isUser, hspec.same.type]
    exact hu
  · rw [hspec.range] at hv
    exact hv

/-! ### Removing a range of pages -/

/-- Where an end of the range `[s, e)` falls inside a huge area, it falls on a 2 MiB boundary. -/
def CutsAligned (s e : ℕ) (a : MapArea) : Prop :=
  a.isHuge = true → a.isMmapVma = true →
    (s ∈ a.vpnRange → s % hugePagePages = 0) ∧ (e - 1 ∈ a.vpnRange → e % hugePagePages = 0)

lemma punch_parts (m : Bool) (hse : s < e) (hov : a.overlaps s e)
    (hk : ∀ x ∈ a.dataFrames, ¬ (max a.vpnRange.start s ≤ x.1 ∧ x.1 < min a.vpnRange.stop e))
    (hal : CutsAligned s e a) (h : MemorySetInner.punch m a s e = (left, right)) :
    (∀ p ∈ left.toList ++ right.toList, Part p a) ∧ (left.toList ++ right.toList).Pairwise MapArea.Disjoint ∧
      ∀ v ∈ a.vpnRange, (∃ p ∈ left.toList ++ right.toList, v ∈ p.vpnRange) ∨ s ≤ v ∧ v < e := by
  obtain ⟨ho1, ho2⟩ := hov
  have hcut : a.isHuge = true → a.isMmapVma = true → (a.vpnRange.start < s → s % hugePagePages = 0) ∧
      (e < a.vpnRange.stop → e % hugePagePages = 0) := fun hh hm =>
    ⟨fun hs => (hal hh hm).1 ⟨Nat.le_of_lt hs, ho2⟩, fun he => (hal hh hm).2 ⟨by omega, by omega⟩⟩
  have hkey : a.KeysIn → ∀ x ∈ a.dataFrames, a.vpnRange.start ≤ x.1 ∧ x.1 < a.vpnRange.stop ∧ (x.1 < s ∨ e ≤ x.1) := by
    intro hin x hx
    have h1 := hin x hx
    have h2 := hk x hx
    rw [VPNRange.mem_iff] at h1
    omega
  have hsrc : (if m then a.mmapFile.advance (e - a.vpnRange.start) else a.mmapFile).source =
      a.mmapFile.source := by cases m <;> rfl
  unfold MemorySetInner.punch at h
  dsimp only at h
  generalize (if m then a.mmapFile.advance (e - a.vpnRange.start) else a.mmapFile) = file at h hsrc
  split_ifs at h with h1 h2 h3
  · cases h
    exact ⟨by simp, by simp, fun v hv => .inr ⟨h1.1.trans hv.1, lt_of_lt_of_le hv.2 h1.2⟩⟩
  · cases h
    simp only [toList_some, toList_none, append_nil, mem_singleton,
      forall_eq, pairwise_singleton, true_and, exists_eq_left]
    refine ⟨⟨⟨rfl, rfl, rfl, rfl, rfl⟩, le_rfl, Nat.le_of_lt ho2, fun _ h => h, fun _ _ => rfl,
      fun hin x hx => ?_, fun hh hm => ⟨.inl rfl, .inr ((hcut hh hm).1 h2.1)⟩⟩, fun v hv => ?_⟩
    · have := hkey hin x hx
      exact ⟨this.1, by dsimp only; omega⟩
    · rw [VPNRange.mem_iff] at hv ⊢
      dsimp only
      omega
  · cases h
    simp only [toList_some, toList_none, append_nil, mem_singleton,
      forall_eq, pairwise_singleton, true_and, exists_eq_left]
    refine ⟨⟨⟨rfl, rfl, rfl, rfl, hsrc⟩, Nat.le_of_lt ho1, le_rfl, fun _ h => h, fun _ _ => rfl,
      fun hin x hx => ?_, fun hh hm => ⟨.inr ((hcut hh hm).2 h3.2), .inl rfl⟩⟩, fun v hv => ?_⟩
    · have := hkey hin x hx
      exact ⟨by dsimp only; omega, this.2.1⟩
    · rw [VPNRange.mem_iff] at hv ⊢
      dsimp only
      omega
  · cases h
    have hs : a.vpnRange.start < s := by omega
    have he : e < a.vpnRange.stop := by omega
    simp only [toList_some, cons_append, nil_append, mem_cons,
      not_mem_nil, or_false, forall_eq_or_imp, forall_eq, pairwise_pair, exists_eq_or_imp,
      exists_eq_left]
    refine ⟨⟨⟨⟨rfl, rfl, rfl, rfl, rfl⟩, le_rfl, Nat.le_of_lt ho2, fun x hx => (OrdMap.mem_restrict.1 hx).1,
        fun v hv => ?_, fun hin x hx => ?_, fun hh hm => ⟨.inl rfl, .inr ((hcut hh hm).1 hs)⟩⟩,
      ⟨⟨rfl, rfl, rfl, rfl, hsrc⟩, Nat.le_of_lt ho1, le_rfl, fun x hx => (OrdMap.mem_restrict.1 hx).1,
        fun v hv => ?_, fun hin x hx => ?_, fun hh hm => ⟨.inr ((hcut hh hm).2 he), .inl rfl⟩⟩⟩,
      fun v hv hv' => ?_, fun v hv => ?_⟩
    · rw [OrdMap.get?_restrict, if_pos]
      exact decide_eq_true (lt_trans hv.2 hse)
    · obtain ⟨hx, hlt⟩ := OrdMap.mem_restrict.1 hx
      have := hkey hin x hx
      rw [decide_eq_true_eq] at hlt
      exact ⟨this.1, by dsimp only; omega⟩
    · rw [OrdMap.get?_restrict, if_pos]
      exact decide_eq_true hv.1
    · obtain ⟨hx, hlt⟩ := OrdMap.mem_restrict.1 hx
      rw [decide_eq_true_eq] at hlt
      exact ⟨hlt, (hkey hin x hx).2.1⟩
    · exact absurd (lt_trans hv.2 hse) (Nat.not_lt.2 hv'.1)
    · simp only [VPNRange.mem_iff] at hv ⊢
      omega

lemma punch_trims (m : Bool) (pt : PageTable) (hi : l[i]? = some a) (hu : a.isUser = true) (hse : s < e)
    (hov : a.overlaps s e) (hal : CutsAligned s e a)
    (hun : a.unmapPages pt (max a.vpnRange.start s) (min a.vpnRange.stop e) = (pt', a'))
    (hp : MemorySetInner.punch m a' s e = (left, right)) :
    Trims ⟨pt, l⟩ ⟨pt', left.toList ++ right.toList ++ l.eraseIdx i⟩ := by
  have hstep := unmapPages_trims pt a (l.eraseIdx i) (max a.vpnRange.start s) (min a.vpnRange.stop e) hu
    (fun v h1 h2 => ⟨(le_max_left _ _).trans h1, lt_of_lt_of_le h2 (min_le_left _ _)⟩)
  have hspec := unmapPages_spec pt a (max a.vpnRange.start s) (min a.vpnRange.stop e)
  rw [hun] at hstep hspec
  have hr : a'.vpnRange = a.vpnRange := hspec.range
  obtain ⟨hparts, hdisj, hcov⟩ := punch_parts m hse
    (by rw [MapArea.overlaps, hr]; exact hov)
    (fun x hx => by rw [hr]; exact ((hspec.records x).1 hx).2)
    (by
      unfold CutsAligned MapArea.isHuge MapArea.isMmapVma at hal ⊢
      rw [hr, hspec.same.flags, hspec.same.type]
      exact hal) hp
  refine Trims.at_index _ hi (hstep.tail (.carve _ _ _ _ ?_ hparts hdisj fun v hv => ?_))
  · rw [MapArea.isUser, hspec.same.type]
    exact hu
  refine (hcov v hv).imp_right fun hv' => hspec.cleared v ⟨max_le ?_ hv'.1, lt_min ?_ hv'.2⟩
  · rw [← hr]
    exact hv.1
  · rw [← hr]
    exact hv.2

lemma settle_spec {s s' : MemorySetInner} {g g' : Globals} {area : MapArea}
    (hi : s.areas[i]? = some a) (h : s.settle g i area left = some (s', g')) :
    s'.pageTable = s.pageTable ∧ s'.areas.Perm (left.toList ++ s.areas.eraseIdx i) := by
  cases left with
  | none =>
    simp only [MemorySetInner.settle, bind_eq_bind, bind_eq_some_iff, Option.pure_def,
      Option.some.injEq, Prod.mk.injEq] at h
    obtain ⟨_, _, rfl, _⟩ := h
    exact ⟨rfl, .refl _⟩
  | some b =>
    simp only [MemorySetInner.settle, Option.some.injEq, Prod.mk.injEq] at h
    obtain ⟨rfl, _⟩ := h
    exact ⟨rfl, set_perm hi b⟩

namespace MemorySetInner

variable {m : Bool} {b e : ℕ} {s s' : MemorySetInner} {g g' : Globals}

/-- What one round of a removal does. -/
inductive Round (m : Bool) (b e : ℕ) (s : MemorySetInner) (g : Globals) (s' : MemorySetInner) (g' : Globals) : Prop
  | intro {s₁ : MemorySetInner} {pt : PageTable} {i total : ℕ} {a a' : MapArea} {left right : Option MapArea}
      (hi : s.areas[i]? = some a) (hrem : removes m a = true) (hov : a.overlaps b e)
      (hun : a.unmapPages s.pageTable (max a.vpnRange.start b) (min a.vpnRange.stop e) = (pt, a'))
      (hp : punch m a' b e = (left, right))
      (hs : { s with pageTable := pt, totalMmapSize := total }.settle g i a' left = some (s₁, g'))
      (hpt : s'.pageTable = s₁.pageTable)
      (hareas : s'.areas = right.elim s₁.areas fun q =>
        if m then insertAreaSorted s₁.areas q else (insertAreaSortedUnmerged s₁.areas q).1)

/-- The rounds of a removal: the loop stops when no area of the range is left, or without fuel. -/
inductive Rounds (m : Bool) (b e : ℕ) : ℕ → MemorySetInner → Globals → MemorySetInner → Globals → Prop
  | out (s : MemorySetInner) (g : Globals) : Rounds m b e 0 s g s g
  | stop (n : ℕ) (s : MemorySetInner) (g : Globals)
      (h : ∀ a ∈ s.areas, removes m a = true → ¬ a.overlaps b e) : Rounds m b e (n + 1) s g s g
  | round {n : ℕ} {s s₁ s' : MemorySetInner} {g g₁ g' : Globals} (h : Round m b e s g s₁ g₁)
      (rest : Rounds m b e n s₁ g₁ s' g') : Rounds m b e (n + 1) s g s' g'

lemma removeStep_round (hi : s.areas[i]? = some a) (hrem : removes m a = true)
    (hov : a.overlaps b e) (h : s.removeStep m g i a b e = some (s', g')) : Round m b e s g s' g' := by
  unfold removeStep at h
  rcases hun : a.unmapPages s.pageTable (max a.vpnRange.start b) (min a.vpnRange.stop e) with ⟨pt', a'⟩
  rcases hp : punch m a' b e with ⟨left, right⟩
  simp only [hun, hp, bind_eq_bind, bind_eq_some_iff, Prod.exists] at h
  obtain ⟨s₁, g₁, hs, h⟩ := h
  cases right with
  | none | some right =>
    cases h
    exact .intro hi hrem hov hun hp hs rfl rfl

lemma removed_of_find (h : l.findIdx? (fun a => removes m a && a.overlaps b e) = some i) :
    ∃ a, l[i]? = some a ∧ removes m a = true ∧ a.overlaps b e := by
  obtain ⟨hi, hsel, -⟩ := findIdx?_eq_some_iff_getElem.1 h
  rw [Bool.and_eq_true, decide_eq_true_eq] at hsel
  exact ⟨l[i], getElem?_eq_getElem hi, hsel⟩

lemma kept_of_find (h : l.findIdx? (fun a => removes m a && a.overlaps b e) = none) :
    ∀ a ∈ l, removes m a = true → ¬ a.overlaps b e := by
  simpa [findIdx?_eq_none_iff] using h

lemma removeLoop_rounds (fuel : ℕ) (h : removeLoop m b e fuel s g = some (s', g')) : Rounds m b e fuel s g s' g' := by
  induction fuel generalizing s g with
  | zero =>
    cases h
    exact .out _ _
  | succ fuel ih =>
    unfold removeLoop at h
    split at h
    · next hnone =>
      cases h
      exact .stop _ _ _ (kept_of_find hnone)
    next i hfind =>
    obtain ⟨a, ha, hrem, hov⟩ := removed_of_find hfind
    simp only [ha, bind_eq_bind, bind_eq_some_iff, Prod.exists] at h
    obtain ⟨s₁, g₁, h1, h⟩ := h
    exact .round (removeStep_round ha hrem hov h1) (ih h)

end MemorySetInner

lemma CutsAligned.part {p : MapArea} (hp : Part p a) (h : CutsAligned b e a) : CutsAligned b e p := by
  intro hh hm
  obtain ⟨h1, h2⟩ := h (by rwa [MapArea.isHuge, ← hp.flags]) (by rwa [MapArea.isMmapVma, ← hp.flags, ← hp.type])
  exact ⟨fun hv => h1 ⟨hp.lower.trans hv.1, lt_of_lt_of_le hv.2 hp.upper⟩,
    fun hv => h2 ⟨hp.lower.trans hv.1, lt_of_lt_of_le hv.2 hp.upper⟩⟩

lemma CutsAligned.trims {L L' : Layout} (h : Trims L L')
    (hL : ∀ a ∈ L.areas, CutsAligned b e a) : ∀ a ∈ L'.areas, CutsAligned b e a := by
  refine h.forall_areas ⟨fun _ _ hp => CutsAligned.part hp, fun _ _ h => h, fun a c hm ha hc hh hv => ?_⟩ hL
  have hk := canMergeAreas_sameKind hm
  have h1 := ha hh hv
  have h2 := hc (by rwa [MapArea.isHuge, hk.flags]) (by rwa [MapArea.isMmapVma, hk.flags, hk.type])
  simp only [mem_mergeAreas]
  exact ⟨fun h => h.elim h1.1 h2.1, fun h => h.elim h1.2 h2.2⟩

lemma MapArea.isUser_of_isMmapVma (h : a.isMmapVma = true) : a.isUser = true := by
  simp only [isMmapVma, Bool.or_eq_true, Bool.and_eq_true, decide_eq_true_eq] at h
  simp only [isUser, ne_eq, decide_eq_true_eq]
  rcases h with h | ⟨h, -⟩ <;> simp [h]

namespace MemorySetInner

variable {m : Bool} {b e : ℕ} {s s' : MemorySetInner} {g g' : Globals} {addr len : ℕ} {r : SyscallRet}

lemma isUser_of_removes (h : removes m a = true) : a.isUser = true := by
  cases m with
  | true => exact MapArea.isUser_of_isMmapVma h
  | false => simp [MapArea.isUser, show a.areaType = .brk by simpa [removes] using h]

lemma Round.trims (hse : b < e) (hal : m = true → ∀ a ∈ s.areas, CutsAligned b e a) (h : Round m b e s g s' g') :
    Trims s.layout s'.layout := by
  obtain @⟨s₁, pt, i, _, a, a', left, right, hi, hrem, hov, hun, hp, hs, hpt, hareas⟩ := h
  have hcuts : CutsAligned b e a := by
    cases m with
    | true => exact hal rfl a (mem_of_getElem? hi)
    | false =>
      -- the heap is not a mapping, so no huge mapping is cut here
      intro _ hm
      simp [MapArea.isMmapVma, show a.areaType = .brk by simpa [removes] using hrem] at hm
  obtain ⟨hpt₁, hperm⟩ := settle_spec (by exact hi) hs
  have hcut : Trims s.layout ⟨s₁.pageTable, right.toList ++ s₁.areas⟩ := by
    rw [hpt₁]
    refine (punch_trims m s.pageTable hi (isUser_of_removes hrem) hse hov hcuts hun hp).trans (Trims.relist ?_)
    rw [append_assoc]
    exact (perm_append_comm_assoc _ _ _).trans (hperm.symm.append_left _)
  rw [layout, layout, hpt, hareas]
  cases right with
  | none => exact hcut
  | some q =>
    refine hcut.trans ?_
    cases m with
    | true => exact insertAreaSorted_trims _ _ _
    | false => exact Trims.relist (insertAreaSortedUnmerged_perm _ _).symm

lemma Rounds.trims {n : ℕ} (hse : b < e) (hal : m = true → ∀ a ∈ s.areas, CutsAligned b e a)
    (h : Rounds m b e n s g s' g') : Trims s.layout s'.layout := by
  induction h with
  | out | stop => exact .refl
  | round h _ ih =>
    have hstep := h.trims hse hal
    exact hstep.trans (ih fun hm => CutsAligned.trims hstep (hal hm))

lemma removeBrkRange_trims (h : s.removeBrkRange g b e = some (s', g')) : Trims s.layout s'.layout := by
  unfold removeBrkRange at h
  split_ifs at h with hle
  · cases h
    exact .refl
  · have hrounds := removeLoop_rounds _ h
    exact hrounds.trims (by omega) fun hm => by cases hm

lemma endInHuge_iff {addr endAddr len : ℕ} {t : Bool} (h : (Conv.endInHuge addr endAddr len a).result = some t) :
    t = true ↔ a.isHuge = true ∧ (floorVpn addr ∈ a.vpnRange ∨ len ≠ 0 ∧ floorVpn (endAddr - 1) ∈ a.vpnRange) := by
  unfold Conv.endInHuge at h
  by_cases hh : a.isHuge = true
  · rw [if_pos hh, result_toVirtAddr_bind] at h
    have h := h.2
    split_ifs at h with h1 h2
    · cases h
      simp [hh, h1]
    · cases (result_toVirtAddr_bind.1 h).2
      simp [hh, h1, h2]
    · cases h
      simp [h1, not_not.1 h2]
  · rw [if_neg hh] at h
    cases h
    simp [hh]

/-- The search for a cut huge area finds one that holds the first or the last page, if there is one. -/
lemma touchesHuge_iff {addr endAddr len : ℕ} {huge : Bool}
    (h : (l.anyM (Conv.endInHuge addr endAddr len)).result = some huge) :
    huge = true ↔ ∃ a ∈ l, a.isHuge = true ∧
      (floorVpn addr ∈ a.vpnRange ∨ len ≠ 0 ∧ floorVpn (endAddr - 1) ∈ a.vpnRange) := by
  rw [result_anyM] at h
  induction l with
  | nil =>
    cases h
    simp
  | cons b l ih =>
    rw [anyM_cons, bind_eq_bind, bind_eq_some_iff] at h
    obtain ⟨t, hb, h⟩ := h
    simp only [mem_cons, exists_eq_or_imp, ← endInHuge_iff hb]
    cases t with
    | true =>
      cases h
      simp
    | false => simpa using ih h

/-- The check at the head of `munmap`: a range that passes it cuts huge areas at 2 MiB only. -/
lemma cutsAligned_of_check {endAddr : ℕ} {huge : Bool} (hend : checkedAdd addr len = some endAddr)
    (hh : (s.areas.anyM (Conv.endInHuge addr endAddr len)).result = some huge)
    (hc : ¬ (huge = true ∧ (addr % hugePageSize ≠ 0 ∨ len % hugePageSize ≠ 0)))
    (hlt : floorVpn addr < ceilVpn endAddr) :
    ∀ a ∈ s.areas, CutsAligned (floorVpn addr) (ceilVpn endAddr) a := by
  obtain ⟨rfl, hw⟩ := checkedAdd_eq_some.1 hend
  have hceil : ceilVpn (addr + len) = (addr + len - 1 + pageSize) / pageSize ∧ 0 < addr + len := by
    unfold ceilVpn floorVpn at *
    unfold pageSize wordSize at *
    split_ifs at * with h0 <;> omega
  cases huge with
  | true =>
    have hal : addr % hugePageSize = 0 ∧ len % hugePageSize = 0 := by simpa using hc
    intro a _ _ _
    rw [hceil.1]
    unfold floorVpn pageSize hugePageSize hugePagePages at *
    exact ⟨fun _ => by omega, fun _ => by omega⟩
  | false =>
    intro a ha hhuge _
    have hout : ¬(floorVpn addr ∈ a.vpnRange ∨ len ≠ 0 ∧ floorVpn (addr + len - 1) ∈ a.vpnRange) :=
      fun h => Bool.false_ne_true ((touchesHuge_iff hh).2 ⟨a, ha, hhuge, h⟩)
    obtain ⟨h1, h2⟩ := not_or.1 hout
    refine ⟨fun h => absurd h h1, fun h => ?_⟩
    -- the last page is that of the last byte, or the first page if the range is empty
    by_cases hlen : len = 0
    · subst hlen
      have hlast : ceilVpn (addr + 0) - 1 = floorVpn addr := by
        rw [hceil.1] at hlt ⊢
        unfold floorVpn pageSize at *
        omega
      exact absurd (hlast ▸ h) h1
    · have hlast : ceilVpn (addr + len) - 1 = floorVpn (addr + len - 1) := by
        rw [hceil.1]
        unfold floorVpn pageSize
        omega
      exact absurd ⟨hlen, hlast ▸ h⟩ h2

lemma munmap_cases (h : s.munmap g addr len = some (r, s', g')) : (r = .error .EINVAL ∧ s' = s ∧ g' = g) ∨
      (r = .ok 0 ∧ floorVpn addr < ceilVpn (addr + len) ∧
        (∀ a ∈ s.areas, CutsAligned (floorVpn addr) (ceilVpn (addr + len)) a) ∧ ∃ s₁ hint,
          removeLoop true (floorVpn addr) (ceilVpn (addr + len))
            (s.removalFuel (floorVpn addr) (ceilVpn (addr + len))) s g = some (s₁, g') ∧
          s' = { s₁ with mmapHint := hint }) := by
  unfold munmap Conv.munmap at h
  split at h
  · cases h
    exact .inl ⟨rfl, rfl, rfl⟩
  next endAddr hend =>
  rw [result_bind, bind_eq_some_iff] at h
  obtain ⟨huge, hh, h⟩ := h
  split_ifs at h with hc
  · cases h
    exact .inl ⟨rfl, rfl, rfl⟩
  simp only [result_toVirtAddr_bind] at h
  obtain ⟨-, -, h⟩ := h
  split_ifs at h with hle
  · cases h
    exact .inl ⟨rfl, rfl, rfl⟩
  rw [result_bind, bind_eq_some_iff] at h
  obtain ⟨⟨s₁, g₁⟩, hloop, h⟩ := h
  have hlt : floorVpn addr < ceilVpn endAddr := by omega
  have hal := cutsAligned_of_check hend hh hc hlt
  obtain ⟨rfl, -⟩ := checkedAdd_eq_some.1 hend
  cases h
  refine .inr ⟨rfl, hlt, hal, s₁, if s₁.mmapHint < addr + len then min (addr + len) mmapTop else s₁.mmapHint,
    hloop, ?_⟩
  split_ifs <;> rfl

lemma munmap_trims (h : s.munmap g addr len = some (r, s', g')) : Trims s.layout s'.layout := by
  obtain ⟨-, rfl, -⟩ | ⟨-, hlt, hal, s₁, hint, hloop, rfl⟩ := munmap_cases h
  · exact .refl
  · have htrims := (removeLoop_rounds _ hloop).trims hlt fun _ => hal
    exact htrims

/-- The areas the loop has passed stand behind those it has still to visit. -/
lemma discardLoop_trims (b e : ℕ) (pt : PageTable) (l done : List MapArea) :
    Trims ⟨pt, l ++ done⟩ ⟨(discardLoop b e pt l).1, (discardLoop b e pt l).2 ++ done⟩ := by
  induction l generalizing pt done with
  | nil => exact .refl
  | cons a rest ih =>
    have hmove : ∀ (pt' : PageTable) (c : MapArea), Trims ⟨pt', c :: rest ++ done⟩
        ⟨(discardLoop b e pt' rest).1, c :: (discardLoop b e pt' rest).2 ++ done⟩ := by
      intro pt' c
      refine (Trims.relist perm_middle.symm).trans ((ih pt' (c :: done)).trans ?_)
      exact Trims.relist perm_middle
    unfold discardLoop
    dsimp only
    split_ifs with hc
    · exact hmove pt a
    simp only [not_or, Bool.not_eq_true', Bool.not_eq_false, Bool.or_eq_true, decide_eq_true_eq, Bool.not_eq_true] at hc
    have hu : a.isUser = true := by
      rcases hc.2.1 with ht | hm
      · simp [MapArea.isUser, ht]
      · exact MapArea.isUser_of_isMmapVma hm
    refine Relation.ReflTransGen.trans ?_ (hmove _ _)
    exact unmapPages_trims pt a (rest ++ done) _ _ hu
      (fun v h1 h2 => ⟨(le_max_left _ _).trans h1, lt_of_lt_of_le h2 (min_le_left _ _)⟩)

lemma discardMadvisePages_cases (h : s.discardMadvisePages addr len = some (r, s')) : s' = s ∨
    s'.layout = ⟨(discardLoop (floorVpn addr) (ceilVpn (addr + len)) s.pageTable s.areas).1,
      (discardLoop (floorVpn addr) (ceilVpn (addr + len)) s.pageTable s.areas).2⟩ := by
  unfold discardMadvisePages Conv.discardMadvisePages at h
  rw [result_bind, bind_eq_some_iff] at h
  obtain ⟨check, -, h⟩ := h
  cases check with
  | error e =>
    cases h
    exact .inl rfl
  | ok n =>
    split_ifs at h with hlen
    · cases h
      exact .inl rfl
    simp only [result_toVirtAddr_bind] at h
    obtain ⟨-, -, h⟩ := h
    split_ifs at h with hh
    · cases h
      exact .inl rfl
    · cases h
      exact .inr rfl

lemma discardMadvisePages_trims (h : s.discardMadvisePages addr len = some (r, s')) : Trims s.layout s'.layout := by
  rcases discardMadvisePages_cases h with rfl | hlay
  · exact .refl
  · rw [hlay]
    simpa [layout] using discardLoop_trims (floorVpn addr) (ceilVpn (addr + len)) s.pageTable s.areas []

end MemorySetInner

end Ya2yOS.Mm
