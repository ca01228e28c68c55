import Ya2yOS.Mm.EditOps

/-!
# The removal loops clear their range

`munmap` and `remove_brk_range` look for an area of the range until none is left; the pages of the range that areas
still hold bound the rounds.
-/

namespace Ya2yOS.Mm

open Lib Option Logged
open Conv (result_toVirtAddr_bind)

def MapArea.weight (b e : ℕ) (a : MapArea) : ℕ :=
  (min a.vpnRange.stop e - max a.vpnRange.start b) + if a.vpnRange.start = a.vpnRange.stop then 1 else 0

def load (b e : ℕ) (l : List MapArea) : ℕ := (l.map (MapArea.weight b e)).sum

@[simp] lemma load_nil (b e : ℕ) : load b e [] = 0 := by simp [load]

@[simp] lemma load_cons (b e : ℕ) (a : MapArea) (l : List MapArea) :
    load b e (a :: l) = a.weight b e + load b e l := by simp [load]

@[simp] lemma load_append (b e : ℕ) (l l' : List MapArea) :
    load b e (l ++ l') = load b e l + load b e l' := by simp [load]

lemma load_perm {b e : ℕ} {l l' : List MapArea} (h : l.Perm l') : load b e l = load b e l' := (h.map _).sum_nat

variable {a : MapArea}

lemma MapArea.weight_pos {b e : ℕ} (hse : b < e) (h : a.overlaps b e) : 0 < a.weight b e := by
  obtain ⟨h1, h2⟩ := h
  have := a.vpnRange.le
  unfold weight
  split_ifs <;> omega

lemma weight_mergeAreas (b e : ℕ) (a c : MapArea) (h : a.vpnRange.stop = c.vpnRange.start) :
    (mergeAreas a c h).weight b e ≤ a.weight b e + c.weight b e := by
  have ha := a.vpnRange.le
  have hc := c.vpnRange.le
  have hpages : min c.vpnRange.stop e - max a.vpnRange.start b ≤ (min a.vpnRange.stop e - max a.vpnRange.start b) +
        (min c.vpnRange.stop e - max c.vpnRange.start b) := by omega
  have hempty : (if a.vpnRange.start = c.vpnRange.stop then 1 else 0) ≤
      (if a.vpnRange.start = a.vpnRange.stop then 1 else 0) +
        if c.vpnRange.start = c.vpnRange.stop then 1 else 0 := by split_ifs <;> omega
  refine (Nat.add_le_add hpages hempty).trans (le_of_eq ?_)
  unfold MapArea.weight
  omega

lemma load_mergeAt {b e : ℕ} {l l' : List MapArea} {i : ℕ} (h : mergeAt l i = some l') : load b e l' ≤ load b e l := by
  unfold mergeAt at h
  split at h
  · next a c ha hc =>
    split_ifs at h with hm
    rw [some.injEq] at h
    subst h
    have hae : (l.eraseIdx (i + 1))[i]? = some a := by
      rw [List.getElem?_eraseIdx_of_lt (by omega), ha]
    have h1 := load_perm (b := b) (e := e) (perm_of_getElem? hc)
    have h2 := load_perm (b := b) (e := e) (perm_of_getElem? hae)
    have h3 := load_perm (b := b) (e := e) (set_perm hae (mergeAreas a c (canMergeAreas_adjacent hm)))
    have h4 := weight_mergeAreas b e a c (canMergeAreas_adjacent hm)
    simp only [load_cons] at h1 h2 h3
    omega
  · simp at h

lemma Merges.load_le {b e : ℕ} {l l' : List MapArea} (h : Merges l l') : load b e l' ≤ load b e l := by
  induction h with
  | refl => exact le_rfl
  | tail _ h ih => exact (load_mergeAt h.choose_spec).trans ih

lemma load_insertAreaSorted (b e : ℕ) (l : List MapArea) (a : MapArea) :
    load b e (insertAreaSorted l a) ≤ a.weight b e + load b e l :=
  (mergeAdjacentAreas_merges _ _ _).load_le.trans_eq (load_perm (insertAreaSortedUnmerged_perm l a))

lemma punch_weight {m : Bool} {b e : ℕ} {left right : Option MapArea}
    (h : MemorySetInner.punch m a b e = (left, right)) (hov : a.overlaps b e) :
    load b e left.toList + load b e right.toList = 0 := by
  obtain ⟨ho1, ho2⟩ := hov
  unfold MemorySetInner.punch at h
  dsimp only at h
  generalize (if m then a.mmapFile.advance (e - a.vpnRange.start) else a.mmapFile) = file at h
  split_ifs at h with h1 h2 h3
  all_goals
    cases h
    simp only [toList_some, toList_none, load_cons, load_nil, MapArea.weight]
    try split_ifs
    all_goals omega

namespace MemorySetInner

variable {m : Bool} {b e n : ℕ} {s s' : MemorySetInner} {g g' : Globals} {addr len : ℕ}

lemma Round.load_lt (hse : b < e) (h : Round m b e s g s' g') : load b e s'.areas < load b e s.areas := by
  obtain @⟨s₁, pt, i, _, a, a', left, right, hi, -, hov, hun, hp, hs, -, hareas⟩ := h
  have hr := (unmapPages_spec s.pageTable a (max a.vpnRange.start b) (min a.vpnRange.stop e)).range
  rw [hun] at hr
  have hw := punch_weight hp (by rw [MapArea.overlaps, hr]; exact hov)
  have h1 := load_perm (b := b) (e := e) (settle_spec (by exact hi) hs).2
  have h2 := load_perm (b := b) (e := e) (perm_of_getElem? hi)
  have h3 := MapArea.weight_pos hse hov
  have hinsert : load b e s'.areas ≤ load b e right.toList + load b e s₁.areas := by
    rw [hareas]
    cases right with
    | none => simp
    | some q =>
      cases m with
      | true => exact load_insertAreaSorted _ _ _ _
      | false => exact (load_perm (insertAreaSortedUnmerged_perm _ _)).le
  simp only [load_append, load_cons] at h1 h2
  omega

lemma load_lt_removalFuel (s : MemorySetInner) (b e : ℕ) : load b e s.areas < s.removalFuel b e := by
  have : ∀ l : List MapArea, load b e l ≤
      l.length + (l.map fun a => min a.vpnRange.stop e - max a.vpnRange.start b).sum := by
    intro l
    induction l with
    | nil => simp
    | cons a l ih =>
      have hw : a.weight b e ≤ (min a.vpnRange.stop e - max a.vpnRange.start b) + 1 := by
        unfold MapArea.weight
        split_ifs <;> omega
      simp only [load_cons, List.length_cons, List.map_cons, List.sum_cons]
      omega
  exact Nat.lt_succ_of_le (this _)

lemma Rounds.clears (hse : b < e) (hf : load b e s.areas < n) (h : Rounds m b e n s g s' g') :
    ∀ a ∈ s'.areas, removes m a = true → ¬ a.overlaps b e := by
  induction h with
  | out => omega
  | stop _ _ _ h => exact h
  | round h _ ih =>
    have := h.load_lt hse
    exact ih (by omega)

lemma munmap_clears (h : s.munmap g addr len = some (.ok n, s', g')) :
    floorVpn addr < ceilVpn (addr + len) ∧ ∀ a ∈ s'.areas, a.isMmapVma = true →
      ¬ a.overlaps (floorVpn addr) (ceilVpn (addr + len)) := by
  obtain ⟨hr, -⟩ | ⟨-, hlt, -, s₁, hint, hloop, rfl⟩ := munmap_cases h
  · cases hr
  · exact ⟨hlt, (removeLoop_rounds _ hloop).clears hlt (load_lt_removalFuel _ _ _)⟩

/-- A range that cuts no huge area: it starts and ends on 2 MiB boundaries, or outside the area. -/
def SparesHuge (addr len : ℕ) (a : MapArea) : Prop :=
  a.isHuge = true → (addr % hugePageSize = 0 ∧ len % hugePageSize = 0) ∨
    (floorVpn addr ∉ a.vpnRange ∧ floorVpn (addr + len - 1) ∉ a.vpnRange)
deriving Decidable

lemma munmap_ok {r : SyscallRet} (hw : addr + len < wordSize) (hlt : floorVpn addr < ceilVpn (addr + len))
    (hno : ∀ a ∈ s.areas, SparesHuge addr len a) (h : s.munmap g addr len = some (r, s', g')) : r = .ok 0 := by
  unfold munmap Conv.munmap at h
  rw [checkedAdd_eq_some.2 ⟨rfl, hw⟩] at h
  dsimp only at h
  rw [result_bind, bind_eq_some_iff] at h
  obtain ⟨huge, hh, h⟩ := h
  have hpass : ¬ (huge = true ∧ (addr % hugePageSize ≠ 0 ∨ len % hugePageSize ≠ 0)) := by
    rintro ⟨rfl, hcut⟩
    obtain ⟨a, ha, hhuge, hin⟩ := (touchesHuge_iff hh).1 rfl
    obtain ⟨h1, h2⟩ := (hno a ha hhuge).resolve_left (by omega)
    rcases hin with hin | ⟨-, hin⟩
    · exact h1 hin
    · exact h2 hin
  rw [if_neg hpass] at h
  simp only [result_toVirtAddr_bind] at h
  obtain ⟨-, -, h⟩ := h
  rw [if_neg (by omega), result_bind, bind_eq_some_iff] at h
  obtain ⟨⟨s₁, g₁⟩, -, h⟩ := h
  cases h
  rfl

lemma removeBrkRange_clears (hse : b < e) (h : s.removeBrkRange g b e = some (s', g')) :
    ∀ a ∈ s'.areas, a.areaType = .brk → ¬ a.overlaps b e := by
  unfold removeBrkRange at h
  rw [if_neg (by omega)] at h
  simpa [removes] using (removeLoop_rounds _ h).clears hse (load_lt_removalFuel _ _ _)

end MemorySetInner

/-- Areas that avoid a range keep avoiding it when pages are only taken away. -/
lemma Trims.avoid {b e : ℕ} (hse : b < e) (q : MapAreaType → MmapFlags → Prop) {L L' : Layout}
    (h : Trims L L') (hL : ∀ a ∈ L.areas, q a.areaType a.mmapFlags → ¬ a.overlaps b e) :
    ∀ a ∈ L'.areas, q a.areaType a.mmapFlags → ¬ a.overlaps b e := by
  refine h.forall_areas ⟨?_, fun _ _ h => h, ?_⟩ hL
  · intro p a hp ha hq hov
    rw [hp.type, hp.flags] at hq
    exact ha hq ⟨lt_of_le_of_lt hp.lower hov.1, lt_of_lt_of_le hov.2 hp.upper⟩
  intro a c hm ha hc hq hov
  have h1 := ha hq
  have hk := canMergeAreas_sameKind hm
  have h2 := hc (by rw [hk.type, hk.flags]; exact hq)
  have hadj := canMergeAreas_adjacent hm
  simp only [MapArea.overlaps, VPNRange.overlaps, mergeAreas] at h1 h2 hov
  omega

end Ya2yOS.Mm
