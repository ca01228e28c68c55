import Ya2yOS.Lib.Transition
import Ya2yOS.Mm.AreaEditFault

/-!
# The layout of the areas

`areas` has to stay sorted, without empty areas and without two areas on one page. Every edit keeps this, if the areas
an operation creates are put where nothing lies.
-/

namespace Ya2yOS.Mm

open Lib List

/-- The areas are sorted by their start, none is empty, and no two share a page. -/
structure LaidOut (l : List MapArea) : Prop where
  sorted : AreasSorted l
  nonempty : ∀ a ∈ l, ∃ v, v ∈ a.vpnRange
  disjoint : l.Pairwise fun a b => ∀ v, v ∈ a.vpnRange → v ∉ b.vpnRange

abbrev AreasAscending (l : List MapArea) : Prop :=
  Ascending (fun a : MapArea => a.vpnRange.start) (fun a : MapArea => a.vpnRange.stop) l

variable {a b : MapArea} {l : List MapArea}

lemma proper_iff : a.Proper ↔ ∃ v, v ∈ a.vpnRange :=
  ⟨fun h => ⟨a.vpnRange.start, le_rfl, h⟩, fun ⟨_, h1, h2⟩ => lt_of_le_of_lt h1 h2⟩

lemma apart_iff (ha : a.Proper) (hb : b.Proper) : a.Apart b ↔ ∀ v, v ∈ a.vpnRange → v ∉ b.vpnRange := by
  constructor
  · intro h v hva hvb
    have h1 := hva.1
    have h2 := hva.2
    have h3 := hvb.1
    have h4 := hvb.2
    simp only [MapArea.Apart, Apart] at h
    omega
  · intro h
    by_contra hn
    simp only [MapArea.Apart, Apart, not_or, not_le] at hn
    exact h (max a.vpnRange.start b.vpnRange.start) ⟨le_max_left _ _, max_lt ha hn.1⟩ ⟨le_max_right _ _, max_lt hn.2 hb⟩

lemma laidOut_iff : LaidOut l ↔ AreasAscending l := by
  constructor
  · intro h
    have hp : ∀ a ∈ l, a.Proper := fun a ha => proper_iff.2 (h.nonempty a ha)
    apply Ascending.of_sorted hp h.sorted
    apply h.disjoint.imp_of_mem
    intro a b ha hb hab
    exact (apart_iff (hp a ha) (hp b hb)).2 hab
  · intro h
    refine ⟨h.sorted, fun a ha => proper_iff.1 (h.proper a ha), ?_⟩
    apply h.apart.imp_of_mem
    intro a b ha hb hab
    exact (apart_iff (h.proper a ha) (h.proper b hb)).1 hab

instance (l : List MapArea) : Decidable (LaidOut l) :=
  decidable_of_iff ((∀ a ∈ l, a.vpnRange.start < a.vpnRange.stop) ∧
    l.Pairwise fun a b => a.vpnRange.stop ≤ b.vpnRange.start)
    ⟨fun h => laidOut_iff.2 ⟨h.1, h.2⟩, fun h => ⟨(laidOut_iff.1 h).proper, (laidOut_iff.1 h).chain⟩⟩

/-! ### Edits keep the order -/

/-- Nothing lies on the pages from `lo` up to `hi`, and there are some. -/
structure Vacant (l : List MapArea) (lo hi : ℕ) : Prop where
  lt : lo < hi
  clear : ∀ b ∈ l, b.vpnRange.stop ≤ lo ∨ hi ≤ b.vpnRange.start

def orderedCtx : AreaCtx := ⟨fun l a => Vacant l a.vpnRange.start a.vpnRange.stop, True⟩

/-- The areas are in order, and so are those held outside, wherever they may be put. -/
structure Ordered (T : AreaTable) : Prop where
  areas : AreasAscending T.areas
  proper : ∀ a ∈ T.loose, a.Proper
  loose : T.loose.Pairwise MapArea.Apart
  apart : ∀ a ∈ T.loose, ∀ b ∈ T.areas, b.Apart a

lemma MapArea.Apart.narrow {c : MapArea} (h : a.Apart b) (hl : b.vpnRange.start ≤ c.vpnRange.start)
    (hu : c.vpnRange.stop ≤ b.vpnRange.stop) : a.Apart c := by
  rcases h with h | h
  · exact .inl (h.trans hl)
  · exact .inr (hu.trans h)

namespace Ordered

variable {l u : List MapArea} {m m' : GroupManager} {i : ℕ} {a p : MapArea}

lemma split (h : Ordered ⟨l, u, m⟩) (hi : l[i]? = some a) {ps : List MapArea} (hs : ∀ q ∈ p :: ps, Slice q a)
    (hp : (p :: ps).Pairwise MapArea.Apart) : Ordered ⟨l.set i p, u ++ ps, m'⟩ := by
  have ha := mem_of_getElem? hi
  have hproper : a.Proper := h.areas.proper a ha
  have hslice := hs p mem_cons_self
  have hfar : ∀ x ∈ u, ∀ q ∈ p :: ps, q.Apart x := by
    intro x hx q hq
    exact (MapArea.Apart.narrow (h.apart x hx a ha).symm (hs q hq).lower (hs q hq).upper).symm
  refine ⟨h.areas.narrow hi (hslice.proper hproper) hslice.lower hslice.upper, ?_, ?_, ?_⟩
  · intro x hx
    rcases mem_append.1 hx with hx | hx
    · exact h.proper x hx
    · exact (hs x (mem_cons_of_mem _ hx)).proper hproper
  · rw [pairwise_append]
    refine ⟨h.loose, (pairwise_cons.1 hp).2, ?_⟩
    intro x hx q hq
    exact (hfar x hx q (mem_cons_of_mem _ hq)).symm
  · intro x hx c hc
    rcases mem_cons.1 ((set_perm hi p).mem_iff.1 hc) with rfl | hc
    · rcases mem_append.1 hx with hx | hx
      · exact hfar x hx c mem_cons_self
      · exact (pairwise_cons.1 hp).1 x hx
    · rcases mem_append.1 hx with hx | hx
      · exact h.apart x hx c (mem_of_mem_eraseIdx hc)
      · have hx' := hs x (mem_cons_of_mem _ hx)
        exact MapArea.Apart.narrow (h.areas.apart_eraseIdx hi c hc) hx'.lower hx'.upper

lemma hold (h : Ordered ⟨l, u, m⟩) (ha : Vacant (u ++ l) a.vpnRange.start a.vpnRange.stop) :
    Ordered ⟨l, u ++ [a], m'⟩ := by
  refine ⟨h.areas, ?_, ?_, ?_⟩
  · intro x hx
    rcases mem_append.1 hx with hx | hx
    · exact h.proper x hx
    · rw [mem_singleton.1 hx]
      exact ha.lt
  · rw [pairwise_append]
    refine ⟨h.loose, pairwise_singleton _ _, ?_⟩
    intro x hx y hy
    rw [mem_singleton.1 hy]
    exact ha.clear x (mem_append_left _ hx)
  · intro x hx c hc
    rcases mem_append.1 hx with hx | hx
    · exact h.apart x hx c hc
    · rw [mem_singleton.1 hx]
      exact ha.clear c (mem_append_right _ hc)

lemma place (h : Ordered ⟨l, a :: u, m⟩) : Ordered ⟨(insertAreaSortedUnmerged l a).1, u, m⟩ := by
  have hl := pairwise_cons.1 h.loose
  refine ⟨h.areas.insert (h.proper a mem_cons_self) (h.apart a mem_cons_self),
    fun x hx => h.proper x (mem_cons_of_mem _ hx), hl.2, ?_⟩
  intro x hx c hc
  rcases eq_or_mem_of_mem_insertIdx hc with rfl | hc
  · exact hl.1 x hx
  · exact h.apart x (mem_cons_of_mem _ hx) c hc

lemma merge {l' : List MapArea} (h : Ordered ⟨l, u, m⟩) (hm : mergeAt l i = some l') : Ordered ⟨l', u, m⟩ := by
  unfold mergeAt at hm
  split at hm
  · next left right hleft hright =>
    split_ifs at hm with hcan
    cases hm
    have hadj := canMergeAreas_adjacent hcan
    refine ⟨h.areas.merge hleft hright rfl rfl, h.proper, h.loose, ?_⟩
    intro x hx c hc
    rcases mem_or_eq_of_mem_set hc with hc | rfl
    · exact h.apart x hx c (mem_of_mem_eraseIdx hc)
    have h1 := h.apart x hx left (mem_of_getElem? hleft)
    have h2 := h.apart x hx right (mem_of_getElem? hright)
    have h3 := h.proper x hx
    unfold MapArea.Proper at h3
    simp only [MapArea.Apart, Apart, mergeAreas] at h1 h2 ⊢
    omega
  · cases hm

lemma widen (h : Ordered ⟨l, [], m⟩) (hi : l[i]? = some a) (r : VPNRange) (hl : r.start ≤ a.vpnRange.start)
    (hr : a.vpnRange.stop ≤ r.stop)
    (hfree : ∀ b ∈ l.eraseIdx i, (r.start < a.vpnRange.start → ¬ b.overlaps r.start a.vpnRange.start) ∧
      (a.vpnRange.stop < r.stop → ¬ b.overlaps a.vpnRange.stop r.stop)) :
    Ordered ⟨l.set i { a with vpnRange := r }, [], m⟩ := by
  have ha := h.areas.proper a (mem_of_getElem? hi)
  refine ⟨h.areas.set hi ?_ ?_ ?_ ?_, by simp, .nil, by simp⟩
  · exact lt_of_le_of_lt hl (lt_of_lt_of_le ha hr)
  · exact lt_of_le_of_lt hl ha
  · exact lt_of_lt_of_le ha hr
  intro c hc
  have hproper := h.areas.proper c (mem_of_mem_eraseIdx hc)
  have hapart := h.areas.apart_eraseIdx hi c hc
  obtain ⟨hlow, hhigh⟩ := hfree c hc
  simp only [MapArea.overlaps, VPNRange.overlaps] at hlow hhigh
  simp only [Apart] at hapart ⊢
  omega

lemma record (h : Ordered ⟨l, u, m⟩) (hi : l[i]? = some a) (f : OrdMap ℕ ℕ) :
    Ordered ⟨l.set i { a with dataFrames := f }, u, m⟩ := by
  have hself : Slice { a with dataFrames := f } a := ⟨⟨rfl, rfl, rfl, rfl⟩, le_rfl, le_rfl, id⟩
  have hsplit : Ordered ⟨l.set i { a with dataFrames := f }, u ++ [], m⟩ :=
    h.split hi (by simpa using hself) (pairwise_singleton _ _)
  rwa [append_nil] at hsplit

lemma fill (h : Ordered ⟨l, a :: u, m⟩) (f : OrdMap ℕ ℕ) : Ordered ⟨l, { a with dataFrames := f } :: u, m⟩ := by
  obtain ⟨hareas, hproper, hloose, hapart⟩ := h
  simp only [forall_mem_cons, pairwise_cons] at hproper hloose hapart
  exact ⟨hareas, forall_mem_cons.2 hproper, pairwise_cons.2 hloose, forall_mem_cons.2 hapart⟩

lemma step {T T' : AreaTable} (h : Ordered T) (he : AreaEdit orderedCtx T T') : Ordered T' := by
  cases he with
  | record hi f => exact h.record hi f
  | fill a f => exact h.fill f
  | publish hm => exact ⟨h.areas, h.proper, h.loose, h.apart⟩
  | carve hi p ps hs hp => exact h.split hi hs hp
  | tear hi p q hp hq hpq hg =>
    apply h.split hi
    · simpa using ⟨hp, hq⟩
    · simpa using hpq
  | lift hi =>
    refine ⟨h.areas.eraseIdx _, ?_, ?_, ?_⟩
    · exact forall_mem_cons.2 ⟨h.areas.proper _ (mem_of_getElem? hi), h.proper⟩
    · refine pairwise_cons.2 ⟨?_, h.loose⟩
      intro x hx
      exact h.apart x hx _ (mem_of_getElem? hi)
    · intro x hx c hc
      rcases mem_cons.1 hx with rfl | hx
      · exact h.areas.apart_eraseIdx hi c hc
      · exact h.apart x hx c (mem_of_mem_eraseIdx hc)
  | drop a hm =>
    exact ⟨h.areas, fun x hx => h.proper x (mem_cons_of_mem _ hx), (pairwise_cons.1 h.loose).2,
      fun x hx => h.apart x (mem_cons_of_mem _ hx)⟩
  | create a ha hg | adopt a b hb hk ha => exact h.hold ha
  | place a => exact h.place
  | merge hm => exact h.merge hm
  | widen hi r hl hr hfree => exact h.widen hi r hl hr hfree

lemma edits {T T' : AreaTable} (h : Ordered T) (he : AreaEdits orderedCtx T T') : Ordered T' := by
  induction he with
  | refl => exact h
  | tail _ he ih => exact ih.step he

end Ordered

lemma LaidOut.edits {s s' : MemorySetInner} {g g' : Globals} (h : LaidOut s.areas)
    (he : AreaEdits orderedCtx (s.table g) (s'.table g')) : LaidOut s'.areas := by
  have h₀ : Ordered (s.table g) :=
    ⟨laidOut_iff.1 h, by simp [MemorySetInner.table], .nil, by simp [MemorySetInner.table]⟩
  exact laidOut_iff.2 (h₀.edits he).areas

/-! ### Vacant ranges -/

lemma Vacant.mono {lo hi lo' hi' : ℕ} (h : Vacant l lo hi) (hl : lo ≤ lo') (hlt : lo' < hi')
    (hh : hi' ≤ hi) : Vacant l lo' hi' := by
  refine ⟨hlt, fun b hb => ?_⟩
  have hb := h.clear b hb
  omega

lemma vacant_of_not_overlaps {lo hi : ℕ} (hlt : lo < hi) (h : ∀ b ∈ l, ¬ b.overlaps lo hi) : Vacant l lo hi := by
  refine ⟨hlt, fun b hb => ?_⟩
  have hn := h b hb
  simp only [MapArea.overlaps, VPNRange.overlaps] at hn
  omega

lemma freeRanges_clear {n c : ℕ} (hl : AreasAscending l) (hc : c ≤ n) {q : ℕ × ℕ} (hq : q ∈ freeRanges n l c) :
    ∀ a ∈ l, a.areaType ≠ .brk → a.vpnRange.stop ≤ q.1 ∨ q.2 ≤ a.vpnRange.start := by
  induction l generalizing c with
  | nil => simp
  | cons a l ih =>
    obtain ⟨hpa, hal, hl'⟩ := ascending_cons.1 hl
    have hb := freeRanges_bounds hc hq
    rw [forall_mem_cons]
    unfold freeRanges at hq
    split_ifs at hq with hbrk hskip hgap
    · exact ⟨fun ht => absurd hbrk ht, ih hl' hc hq⟩
    · exact ⟨fun _ => by omega, ih hl' hc hq⟩
    · rw [singleton_append, mem_cons] at hq
      rcases hq with rfl | hq
      · refine ⟨fun _ => .inr (min_le_left _ _), fun b hb _ => .inr ?_⟩
        exact (min_le_left _ _).trans (hpa.le.trans (hal b hb))
      · have hb' := freeRanges_bounds (min_le_right _ _) hq
        exact ⟨fun _ => by omega, ih hl' (min_le_right _ _) hq⟩
    · have hb' := freeRanges_bounds (min_le_right _ _) hq
      exact ⟨fun _ => by omega, ih hl' (min_le_right _ _) hq⟩

lemma freeRanges_ascending {n c : ℕ} (hc : c ≤ n) : (freeRanges n l c).Pairwise fun q q' => q.2 ≤ q'.1 := by
  induction l generalizing c with
  | nil =>
    unfold freeRanges
    split_ifs
    · exact pairwise_singleton _ _
    · exact .nil
  | cons a l ih =>
    unfold freeRanges
    split_ifs with hbrk hskip hgap
    · exact ih hc
    · exact ih hc
    · rw [singleton_append, pairwise_cons]
      refine ⟨fun q hq => ?_, ih (min_le_right _ _)⟩
      have hb := freeRanges_bounds (min_le_right _ _) hq
      have hle := a.vpnRange.le
      omega
    · exact ih (min_le_right _ _)

end Ya2yOS.Mm
