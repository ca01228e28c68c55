import Ya2yOS.Mm.VmaLayout

/-!
# The search for a free range

`find_insert_addr` goes down from its bound and moves its candidate one page below every area that it meets, so no
range that keeps a page free below the areas lies higher than what it finds. The range it finds keeps that page free
only if no area begins at the bound, where the candidate is not moved, and none one page below the beginning of another
area.
-/

namespace Ya2yOS.Mm

open Lib List

/-- The pages from `v` on end at the bound or before, meet no area, and leave a page free below each area that begins
before the bound. -/
def Guarded (l : List MapArea) (bound pages v : ℕ) : Prop :=
  v + pages ≤ bound ∧
    ∀ a ∈ l, ¬ a.overlaps v (v + pages) ∧ (a.vpnRange.start < bound → v + pages ≠ a.vpnRange.start)
deriving Decidable

/-- No area begins at the bound or one page below the beginning of another one. -/
def Spaced (l : List MapArea) (bound : ℕ) : Prop :=
  ∀ a ∈ l, a.vpnRange.start ≠ bound ∧ ∀ b ∈ l, a.vpnRange.start + 1 ≠ b.vpnRange.start
deriving Decidable

def pagesOf (size : ℕ) : ℕ := (size + (pageSize - 1)) / pageSize

/-- The answer of a search below a bound: a vacant range that ends at the bound or one page below an area, as high as
any that is guarded, and with a page between it and the next area if the areas are spaced. It is zero if no range is
guarded but one at address zero. -/
structure Highest (l : List MapArea) (bound size addr : ℕ) : Prop where
  aligned : addr % pageSize = 0
  vacant : addr ≠ 0 → Vacant l (addr / pageSize) (addr / pageSize + pagesOf size)
  le : addr ≠ 0 → addr / pageSize + pagesOf size ≤ bound
  stop : addr ≠ 0 → addr / pageSize + pagesOf size = bound ∨
    ∃ a ∈ l, addr / pageSize + pagesOf size + 1 = a.vpnRange.start
  gap : addr ≠ 0 → Spaced l bound → ∀ a ∈ l, addr / pageSize + pagesOf size ≠ a.vpnRange.start
  highest : 0 < size → ∀ v, Guarded l bound (pagesOf size) v → v ≤ addr / pageSize

/-- No area has a page of the bytes from `addr` on. -/
def Free (l : List MapArea) (addr size : ℕ) : Prop :=
  ∀ v, floorVpn addr ≤ v → v < ceilVpn (addr + size) → ∀ a ∈ l, v ∉ a.vpnRange

variable {bound endVpn pages startVpn : ℕ} {l : List MapArea}

/-- No range that is guarded is passed by. -/
lemma searchDown_highest {v : ℕ} (hg : Guarded l bound pages v)
    (hend : startVpn + pages = endVpn) (hb : endVpn ≤ bound) (hv : v + pages ≤ endVpn) :
    ∃ w, MemorySetInner.searchDown pages l startVpn endVpn = some w ∧ v ≤ w := by
  induction l generalizing startVpn endVpn with
  | nil => exact ⟨startVpn, rfl, by omega⟩
  | cons a l ih =>
    have hrest : Guarded l bound pages v := ⟨hg.1, fun b hb => hg.2 b (mem_cons_of_mem _ hb)⟩
    obtain ⟨hfree, hgap⟩ := hg.2 a mem_cons_self
    simp only [MapArea.overlaps, VPNRange.overlaps] at hfree
    unfold MemorySetInner.searchDown
    split_ifs with h1 h2 h3 h4
    · exact ⟨startVpn, rfl, by omega⟩
    · exact ih hrest hend hb hv
    · omega
    · omega
    -- the area is met by the candidate, so that a range above it is too short
    have hbelow : v + pages < a.vpnRange.start := by
      have := hgap (by omega)
      omega
    exact ih hrest (by omega) (by omega) (by omega)

lemma searchDown_stop {w : ℕ} (hend : startVpn + pages = endVpn)
    (h : MemorySetInner.searchDown pages l startVpn endVpn = some w) :
    w + pages = endVpn ∨ ∃ a ∈ l, w + pages + 1 = a.vpnRange.start := by
  induction l generalizing startVpn endVpn with
  | nil =>
    cases h
    exact .inl hend
  | cons a l ih =>
    unfold MemorySetInner.searchDown at h
    split_ifs at h with h1 h2 h3 h4
    · cases h
      exact .inl hend
    · rcases ih hend h with heq | ⟨b, hb, heq⟩
      · exact .inl heq
      · exact .inr ⟨b, mem_cons_of_mem _ hb, heq⟩
    · rcases ih (by omega) h with heq | ⟨b, hb, heq⟩
      · exact .inr ⟨a, mem_cons_self, by omega⟩
      · exact .inr ⟨b, mem_cons_of_mem _ hb, heq⟩

namespace MemorySetInner

variable {s : MemorySetInner} {hint size align addr : ℕ}

/-- The search from the highest area down leaves the areas it has passed above the range, and stops
at the first that ends below it. -/
lemma searchDown_clear {pages : ℕ} {r : List MapArea} {startVpn endVpn v : ℕ} (hp : ∀ a ∈ r, a.Proper)
    (hr : r.Pairwise fun a b => b.vpnRange.stop ≤ a.vpnRange.start) (hs : startVpn + pages = endVpn)
    (h : searchDown pages r startVpn endVpn = some v) :
    ∀ a ∈ r, a.vpnRange.stop ≤ v ∨ v + pages ≤ a.vpnRange.start := by
  induction r generalizing startVpn endVpn with
  | nil => simp
  | cons a r ih =>
    obtain ⟨hbelow, hrest⟩ := pairwise_cons.1 hr
    obtain ⟨hpa, hpr⟩ := forall_mem_cons.1 hp
    unfold MapArea.Proper at hpa
    rw [forall_mem_cons]
    unfold searchDown at h
    split_ifs at h with h1 h2 h3 h4
    · cases h
      refine ⟨.inl h1, fun b hb => .inl ?_⟩
      have := hbelow b hb
      omega
    · have hle := searchDown_le endVpn hs.le le_rfl h
      exact ⟨.inr (by omega), ih hpr hrest hs h⟩
    · have hle := searchDown_le (a.vpnRange.start - 1) (by omega) le_rfl h
      exact ⟨.inr (by omega), ih hpr hrest (by omega) h⟩

lemma highest_zero (h : 0 < size → ∀ v, ¬ Guarded l bound (pagesOf size) v) : Highest l bound size 0 :=
  ⟨rfl, fun h0 => absurd rfl h0, fun h0 => absurd rfl h0, fun h0 => absurd rfl h0, fun h0 => absurd rfl h0,
    fun hsize v hv => absurd hv (h hsize v)⟩

lemma highest_zero_of_lt (h : bound < pagesOf size) : Highest l bound size 0 := by
  apply highest_zero
  intro _ v hv
  have := hv.1
  omega

lemma findInsertAddr_highest (hl : AreasAscending s.areas) (hhint : hint < wordSize) :
    Highest s.areas (floorVpn hint) size (s.findInsertAddr hint size) := by
  unfold findInsertAddr
  cases hsum : checkedAdd size (pageSize - 1) with
  | none =>
    apply highest_zero_of_lt
    have hover : ¬ size + (pageSize - 1) < wordSize := by
      intro hlt
      rw [checkedAdd_eq_some.2 ⟨rfl, hlt⟩] at hsum
      cases hsum
    unfold floorVpn pagesOf pageSize wordSize at *
    omega
  | some sum =>
    obtain ⟨rfl, -⟩ := checkedAdd_eq_some.1 hsum
    dsimp only
    rw [← pagesOf]
    split_ifs with hpos hlt
    · apply highest_zero
      intro hsize
      unfold pagesOf pageSize at hpos
      omega
    · exact highest_zero_of_lt hlt
    · have hend : floorVpn hint - pagesOf size + pagesOf size = floorVpn hint := by omega
      have hguarded : ∀ v, Guarded s.areas (floorVpn hint) (pagesOf size) v →
          Guarded s.areas.reverse (floorVpn hint) (pagesOf size) v := fun v hv =>
        ⟨hv.1, fun a ha => hv.2 a (mem_reverse.1 ha)⟩
      cases hw : searchDown (pagesOf size) s.areas.reverse (floorVpn hint - pagesOf size) (floorVpn hint) with
      | none =>
        apply highest_zero
        intro _ v hv
        obtain ⟨w, hw', -⟩ := searchDown_highest (hguarded v hv) hend le_rfl hv.1
        rw [hw] at hw'
        cases hw'
      | some w =>
        have hdiv : w * pageSize / pageSize = w := Nat.mul_div_cancel _ (by decide)
        have hclear := searchDown_clear (fun a ha => hl.proper a (mem_reverse.1 ha))
          (pairwise_reverse.2 hl.chain) hend hw
        have hstop : w + pagesOf size = floorVpn hint ∨ ∃ a ∈ s.areas, w + pagesOf size + 1 = a.vpnRange.start := by
          simpa only [mem_reverse] using searchDown_stop hend hw
        refine ⟨Nat.mul_mod_left _ _, fun _ => ?_, fun _ => ?_, fun _ => ?_, fun _ hspaced a ha => ?_,
          fun _ v hv => ?_⟩ <;> dsimp only <;> rw [hdiv]
        · exact ⟨by omega, fun b hb => hclear b (mem_reverse.2 hb)⟩
        · exact searchDown_le (floorVpn hint) (by omega) le_rfl hw
        · exact hstop
        · rintro heq
          obtain ⟨hbound, hnext⟩ := hspaced a ha
          rcases hstop with hstop | ⟨b, hb, hstop⟩
          · exact hbound (heq.symm.trans hstop)
          · exact hnext b hb (heq ▸ hstop)
        · obtain ⟨w', hw', hle⟩ := searchDown_highest (hguarded v hv) hend le_rfl hv.1
          rw [hw] at hw'
          cases hw'
          exact hle

lemma findInsertAddr_vacant (hl : AreasAscending s.areas) (hh : hint < 2 ^ 63) (h : s.findInsertAddr hint size ≠ 0) :
    Vacant s.areas (floorVpn (s.findInsertAddr hint size)) (ceilVpn (s.findInsertAddr hint size + size)) := by
  have hle := s.findInsertAddr_le hint size h
  have hhigh : Highest s.areas (floorVpn hint) size (s.findInsertAddr hint size) :=
    findInsertAddr_highest hl (hh.trans (by decide))
  have hvacant := hhigh.vacant h
  have hpage := hhigh.aligned
  have hceil : (s.findInsertAddr hint size + size + pageSize - 1) / pageSize =
      s.findInsertAddr hint size / pageSize + pagesOf size := by
    unfold pagesOf pageSize at *
    omega
  rw [ceilVpn_of_le (by omega), hceil]
  exact hvacant

lemma findMmapAddr_vacant (hl : AreasAscending s.areas) (h : (s.findMmapAddr size).1 ≠ 0) :
    Vacant s.areas (floorVpn (s.findMmapAddr size).1) (ceilVpn ((s.findMmapAddr size).1 + size)) := by
  unfold findMmapAddr at *
  dsimp only at h ⊢
  split_ifs at h ⊢ with h1
  · exact findInsertAddr_vacant hl (by decide) h
  · exact findInsertAddr_vacant hl (lt_of_le_of_lt (min_le_right _ _) (by decide)) h

lemma tryMmapHint_vacant {s' : MemorySetInner} (hsize : size ≠ 0) (h : s.tryMmapHint hint size = some (addr, s')) :
    Vacant s.areas (floorVpn addr) (ceilVpn (addr + size)) := by
  have hle := tryMmapHint_le h
  unfold tryMmapHint at h
  dsimp only at h
  split_ifs at h with hc
  cases h
  simp only [not_or] at hc
  refine vacant_of_not_overlaps ?_ fun b hb hov => hc.2.2.2 (any_eq_true.2 ⟨b, hb, decide_eq_true hov⟩)
  rw [ceilVpn_of_le (lt_of_le_of_lt hle (by decide))]
  unfold floorVpn pageSize
  omega

lemma alignedCandidate_vacant (hl : AreasAscending s.areas) (hsize : size ≠ 0)
    (halign : 0 < align) (hh : hint < 2 ^ 63) (h : s.alignedCandidate size align hint = some addr) :
    Vacant s.areas (floorVpn addr) (ceilVpn (addr + size)) := by
  have hle := (alignedCandidate_spec h).2
  unfold alignedCandidate at h
  dsimp only at h
  split_ifs at h with hc
  cases h
  simp only [not_or] at hc
  have hcand := findInsertAddr_le s hint (size + (align - 1)) hc.1
  have hvac := findInsertAddr_vacant hl hh hc.1
  generalize s.findInsertAddr hint (size + (align - 1)) = c at *
  -- rounding up moves the start by less than the alignment
  have h1 : c ≤ (c + (align - 1)) / align * align := by
    have hdiv := Nat.div_add_mod' (c + (align - 1)) align
    have hmod := Nat.mod_lt (c + (align - 1)) halign
    omega
  have h2 : (c + (align - 1)) / align * align ≤ c + (align - 1) := Nat.div_mul_le_self _ _
  generalize (c + (align - 1)) / align * align = x at *
  rw [ceilVpn_of_le (by omega)] at hvac
  rw [ceilVpn_of_le (lt_of_le_of_lt hle (by decide))]
  apply hvac.mono
  · exact Nat.div_le_div_right h1
  · unfold floorVpn pageSize
    omega
  · exact Nat.div_le_div_right (by omega)

lemma findMmapAddrAligned_vacant (hl : AreasAscending s.areas) (hsize : size ≠ 0)
    (halign : 0 < align) (h : (s.findMmapAddrAligned size align).1 ≠ 0) :
    Vacant s.areas (floorVpn (s.findMmapAddrAligned size align).1)
      (ceilVpn ((s.findMmapAddrAligned size align).1 + size)) := by
  obtain ⟨-, ha | ⟨-, ha⟩⟩ := findMmapAddrAligned_cases h
  · exact alignedCandidate_vacant hl hsize halign (lt_of_le_of_lt (min_le_right _ _) (by decide)) ha
  · exact alignedCandidate_vacant hl hsize halign (by decide) ha

lemma mmapPlace_vacant (hl : AreasAscending s.areas) {len : ℕ} {flags : MmapFlags}
    (hfix : flags.intersectsFixed = false) (hlen : len ≠ 0) (h : s.mmapPlace addr len flags ≠ 0) :
    Vacant s.areas (floorVpn (s.mmapPlace addr len flags)) (ceilVpn (s.mmapPlace addr len flags + len)) := by
  unfold mmapPlace at *
  simp only [hfix, Bool.false_eq_true, if_false] at h ⊢
  split_ifs at h ⊢ with hhuge
  · exact findMmapAddrAligned_vacant hl hlen (by decide) h
  cases hh : s.tryMmapHint addr len with
  | none =>
    rw [hh, Option.getD_none] at h
    exact findMmapAddr_vacant hl h
  | some q => exact tryMmapHint_vacant hlen hh

end MemorySetInner

end Ya2yOS.Mm
