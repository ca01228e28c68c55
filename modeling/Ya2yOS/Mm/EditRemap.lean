import Ya2yOS.Mm.EditMap

/-!
# mremap as edits

A move first cuts its source out of the area that holds it, with a binary search, so the areas have to be sorted.
-/

namespace Ya2yOS.Mm

open Lib List Option Logged
open Conv (result_toVirtAddr_bind)

variable {κ : EditCtx}

def AreasSorted (l : List MapArea) : Prop := l.Pairwise fun a b => a.vpnRange.start ≤ b.vpnRange.start
deriving Decidable

variable {l : List MapArea} {b : MapArea} {i k : ℕ}

lemma AreasSorted.le (h : AreasSorted l) {j : ℕ} {a : MapArea} (hij : i < j)
    (hi : l[i]? = some a) (hj : l[j]? = some b) : a.vpnRange.start ≤ b.vpnRange.start := by
  obtain ⟨hi', rfl⟩ := List.getElem?_eq_some_iff.1 hi
  obtain ⟨hj', rfl⟩ := List.getElem?_eq_some_iff.1 hj
  exact List.pairwise_iff_getElem.1 h i j hi' hj' hij

namespace MapArea

variable {a : MapArea} {c : ℕ} (hl : a.vpnRange.start ≤ c) (hh : c ≤ a.vpnRange.stop)

include hh in
lemma lowPart_part (hs : a.isHuge = false) : Part (a.lowPart c hl) a where
  perm := rfl
  type := rfl
  flags := rfl
  group := rfl
  source := rfl
  lower := le_rfl
  upper := hh
  records _ he := (OrdMap.mem_restrict.1 he).1
  keeps v hv := by
    rw [lowPart, OrdMap.get?_restrict]
    exact if_pos (decide_eq_true hv.2)
  keysIn hk e he := by
    obtain ⟨he, hlt⟩ := OrdMap.mem_restrict.1 he
    exact ⟨(hk e he).1, of_decide_eq_true hlt⟩
  aligned h := absurd h (by simp [hs])

include hl in
lemma highPart_part (hs : a.isHuge = false) : Part (a.highPart c hh) a where
  perm := rfl
  type := rfl
  flags := rfl
  group := rfl
  source := rfl
  lower := hl
  upper := le_rfl
  records _ he := (OrdMap.mem_restrict.1 he).1
  keeps v hv := by
    rw [highPart, OrdMap.get?_restrict]
    exact if_pos (decide_eq_true hv.1)
  keysIn hk e he := by
    obtain ⟨he, hlt⟩ := OrdMap.mem_restrict.1 he
    exact ⟨of_decide_eq_true hlt, (hk e he).2⟩
  aligned h := absurd h (by simp [hs])

lemma cut_trim (pt : PageTable) (rest : List MapArea) (hu : a.isUser = true) (hs : a.isHuge = false) :
    Trim ⟨pt, a :: rest⟩ ⟨pt, a.lowPart c hl :: a.highPart c hh :: rest⟩ := by
  refine .carve pt a [a.lowPart c hl, a.highPart c hh] rest hu ?_ ?_ fun v hv => .inl ?_
  · simp only [mem_cons, not_mem_nil, or_false, forall_eq_or_imp, forall_eq]
    exact ⟨lowPart_part hl hh hs, highPart_part hl hh hs⟩
  · rw [pairwise_pair]
    exact fun v h1 h2 => absurd h1.2 (Nat.not_lt.2 h2.1)
  · simp only [mem_cons, not_mem_nil, or_false, exists_eq_or_imp, exists_eq_left]
    rcases Nat.lt_or_ge v c with hc | hc
    · exact .inl ⟨hv.1, hc⟩
    · exact .inr ⟨hc, hv.2⟩

end MapArea

lemma getElem?_shift {a : MapArea} (hi : l[i]? = some a) : (l.insertIdx k b)[if k ≤ i then i + 1 else i]? = some a := by
  split_ifs with h
  · rw [getElem?_insertIdx_of_gt (by omega)]
    exact hi
  · rw [getElem?_insertIdx_of_lt (by omega)]
    exact hi

lemma forall_before_insertIdx {P : MapArea → Prop} (hl : ∀ j < i, ∀ d, l[j]? = some d → P d) (hb : P b) :
    ∀ j < (if k ≤ i then i + 1 else i), ∀ d, (l.insertIdx k b)[j]? = some d → P d := by
  intro j hj d hd
  rw [getElem?_insertIdx] at hd
  rcases Nat.lt_trichotomy j k with hjk | rfl | hjk
  · rw [if_pos hjk] at hd
    exact hl j (by split_ifs at hj <;> omega) d hd
  · rw [if_neg (Nat.lt_irrefl j), if_pos rfl] at hd
    split_ifs at hd
    exact some.inj hd ▸ hb
  · rw [if_neg (by omega), if_neg (by omega)] at hd
    exact hl (j - 1) (by split_ifs at hj <;> omega) d hd

namespace MemorySetInner

open MapArea

variable {a p : MapArea} {b c dest e newLen newTotal oldAddr oldEnd oldStart : ℕ} {s : MemorySetInner}

/-- An area is cut in two. One part takes its place and the other is inserted anew. -/
inductive Cut (x y : MemorySetInner × Globals) : Prop
  | intro {i c : ℕ} {a p q : MapArea} (hi : x.1.areas[i]? = some a) (hu : a.isUser = true) (hs : a.isHuge = false)
      (hl : a.vpnRange.start < c) (hh : c < a.vpnRange.stop)
      (hpq : p = a.highPart c hh.le ∧ q = a.lowPart c hl.le ∨ p = a.lowPart c hl.le ∧ q = a.highPart c hh.le)
      (hlay : y.1.layout = ⟨x.1.pageTable, (insertAreaSortedUnmerged (x.1.areas.set i p) q).1⟩)
      (hg : y.2 = x.2.addArea q.groupid)

abbrev Cuts : MemorySetInner × Globals → MemorySetInner × Globals → Prop := Relation.ReflTransGen Cut

lemma Cut.trims {x y : MemorySetInner × Globals} (h : Cut x y) : Trims x.1.layout y.1.layout := by
  obtain @⟨i, c, a, p, q, hi, hu, hs, hl, hh, hpq, hlay, -⟩ := h
  have hparts : [a.lowPart c hl.le, a.highPart c hh.le].Perm [q, p] := by
    rcases hpq with ⟨rfl, rfl⟩ | ⟨rfl, rfl⟩
    · exact .refl _
    · exact .swap _ _ _
  rw [hlay]
  refine (Trims.relist (perm_of_getElem? hi)).trans (.head (cut_trim hl.le hh.le _ _ hu hs) (Trims.relist ?_))
  refine (hparts.append_right _).trans ?_
  exact (((set_perm hi p).symm).cons q).trans (insertAreaSortedUnmerged_perm _ _).symm

lemma Cuts.spec {x y : MemorySetInner × Globals} (h : Cuts x y) : Trims x.1.layout y.1.layout ∧ x.2.Quiet y.2 := by
  induction h with
  | refl => exact ⟨.refl, .refl _⟩
  | tail _ h ih =>
    refine ⟨ih.1.trans h.trims, ih.2.trans ?_⟩
    obtain ⟨-, -, -, -, -, -, -, hg⟩ := h
    exact hg ▸ .addArea _ _

lemma splitFront_spec (g : Globals) (h : a.vpnRange.start < c ∧ c ≤ a.vpnRange.stop) (hi : s.areas[i]? = some a)
    (hu : a.isUser = true) (hs : a.isHuge = false) (hlt : c < a.vpnRange.stop) (hsort : AreasSorted s.areas) :
    Cut (s, g) ((s.splitFront g i a c h).1, (s.splitFront g i a c h).2.1) ∧
      (s.splitFront g i a c h).1.areas[(s.splitFront g i a c h).2.2]? = some (a.highPart c h.2) ∧
      ∀ j < (s.splitFront g i a c h).2.2, ∀ b, (s.splitFront g i a c h).1.areas[j]? = some b →
        b.vpnRange.start ≤ a.vpnRange.start := by
  have hlen := (List.getElem?_eq_some_iff.1 hi).1
  have hset : (s.areas.set i (a.highPart c h.2))[i]? = some (a.highPart c h.2) := by
    simp [hlen]
  refine ⟨.intro hi hu hs h.1 hlt (.inl ⟨rfl, rfl⟩) rfl rfl, getElem?_shift hset, ?_⟩
  refine forall_before_insertIdx (fun j hj d hd => hsort.le hj ?_ hi) le_rfl
  rwa [List.getElem?_set_ne (by omega)] at hd

lemma splitTail_spec (g : Globals) (h : a.vpnRange.start ≤ c ∧ c < a.vpnRange.stop) (hi : s.areas[i]? = some a)
    (hu : a.isUser = true) (hs : a.isHuge = false) (hlt : a.vpnRange.start < c)
    (hlow : ∀ j < i, ∀ b, s.areas[j]? = some b → b.vpnRange.start ≤ a.vpnRange.start) :
    Cut (s, g) (s.splitTail g i a c h) ∧ (s.splitTail g i a c h).1.areas[i]? = some (a.lowPart c h.1) := by
  have hlen := (List.getElem?_eq_some_iff.1 hi).1
  have hset : (s.areas.set i (a.lowPart c h.1))[i]? = some (a.lowPart c h.1) := by simp [hlen]
  refine ⟨.intro hi hu hs hlt h.2 (.inr ⟨rfl, rfl⟩) rfl rfl, ?_⟩
  -- everything up to the source starts below the tail, so the tail goes behind it
  have hidx : i < searchIdx (fun b : MapArea => b.vpnRange.start) (s.areas.set i (a.lowPart c h.1)) c := by
    refine lt_searchIdx (by simpa using hlen) fun j hj b hb => ?_
    rcases Nat.lt_or_eq_of_le hj with hj | rfl
    · rw [List.getElem?_set_ne (by omega)] at hb
      exact lt_of_le_of_lt (hlow j hj b hb) hlt
    · rw [hset, some.injEq] at hb
      rw [← hb]
      exact hlt
  exact (List.getElem?_insertIdx_of_lt hidx).trans hset

variable {s s' : MemorySetInner} {g g' : Globals}

/-- Cutting out the source range of a move: the index it is found at afterwards holds a part of
the area that is exactly the range. -/
lemma isolate_spec {i' : ℕ} (hi : s.areas[i]? = some a) (hu : a.isUser = true) (hs : a.isHuge = false)
    (hin : a.vpnRange.start ≤ b ∧ e ≤ a.vpnRange.stop) (hbe : b < e) (hsort : AreasSorted s.areas)
    (h : s.isolate g i b e = some (s', g', i')) : Cuts (s, g) (s', g') ∧
      ∃ p, s'.areas[i']? = some p ∧ SameKind p a ∧ p.vpnRange.start = b ∧ p.vpnRange.stop = e := by
  obtain ⟨s₁, g₁, i₁, a₁, hfront, ht, ha, hk, hst, hsp, hlow⟩ : ∃ s₁ g₁ i₁ a₁,
      (if h : a.vpnRange.start < b ∧ b ≤ a.vpnRange.stop then s.splitFront g i a b h else (s, g, i)) =
        (s₁, g₁, i₁) ∧ Cuts (s, g) (s₁, g₁) ∧ s₁.areas[i₁]? = some a₁ ∧ SameKind a₁ a ∧
        a₁.vpnRange.start = b ∧ a₁.vpnRange.stop = a.vpnRange.stop ∧
        ∀ j < i₁, ∀ d, s₁.areas[j]? = some d → d.vpnRange.start ≤ a₁.vpnRange.start := by
    split_ifs with hc
    · obtain ⟨h1, h2, h3⟩ := splitFront_spec g hc hi hu hs (by omega) hsort
      exact ⟨_, _, _, _, rfl, .single h1, h2, ⟨rfl, rfl, rfl, rfl, rfl⟩, rfl, rfl,
        fun j hj d hd => (h3 j hj d hd).trans hin.1⟩
    · exact ⟨s, g, i, a, rfl, .refl, hi, ⟨rfl, rfl, rfl, rfl, rfl⟩, by omega, rfl,
        fun j hj d hd => hsort.le hj hd hi⟩
  simp only [isolate, hi, bind_eq_bind, bind_some, hfront, ha] at h
  have hu₁ : a₁.isUser = true := by rwa [isUser, hk.type]
  have hs₁ : a₁.isHuge = false := by rwa [isHuge, hk.flags]
  split_ifs at h with hc
  · obtain ⟨rfl, rfl, rfl⟩ : (s₁.splitTail g₁ i₁ a₁ e hc).1 = s' ∧ (s₁.splitTail g₁ i₁ a₁ e hc).2 = g' ∧
      i₁ = i' := by simpa using h
    obtain ⟨h1, h2⟩ := splitTail_spec g₁ hc ha hu₁ hs₁ (by omega) hlow
    exact ⟨ht.tail h1, _, h2, ⟨hk.1, hk.2, hk.3, hk.4, hk.5⟩, hst, rfl⟩
  · cases h
    exact ⟨ht, a₁, ha, hk, hst, by omega⟩

lemma copyLoop_edits {source new new' : MapArea} {newStart : ℕ}
    {ks : List ℕ} {pt pt' : PageTable} {err : Option SysErrNo} (rest : List MapArea)
    (held : Set ℕ) (hu : new.isUser = true) (hk : ∀ k ∈ ks, newStart + k ∈ new.vpnRange)
    (h : s.copyLoop source oldStart newStart ks g pt new = some (err, g', pt', new')) :
    Edits κ ⟨⟨pt, new :: rest⟩, g.stock held⟩ ⟨⟨pt', new' :: rest⟩, g'.stock held⟩ ∧
      new' = { new with dataFrames := new'.dataFrames } ∧ g'.heldFrames = g.heldFrames ∧
      (err ≠ none → ∀ v ∈ new.vpnRange, pt'.findPte v = none) := by
  induction ks generalizing g pt new with
  | nil =>
    obtain ⟨rfl, rfl, rfl, rfl⟩ : none = err ∧ g = g' ∧ pt = pt' ∧ new = new' := by
      simpa [copyLoop] using h
    exact ⟨.refl, rfl, rfl, fun hn => absurd rfl hn⟩
  | cons k ks ih =>
    have hks : ∀ j ∈ ks, newStart + j ∈ new.vpnRange := fun j hj => hk j (mem_cons_of_mem _ hj)
    unfold copyLoop at h
    split at h
    · exact ih hu hks h
    split at h
    · simp only [Option.some.injEq, Prod.mk.injEq] at h
      obtain ⟨rfl, rfl, rfl, rfl⟩ := h
      have hspec := unmapPages_spec pt new new.vpnRange.start new.vpnRange.stop
      exact ⟨(unmapPages_trims pt new rest _ _ hu fun _ h1 h2 => ⟨h1, h2⟩).edits _, hspec.area, rfl,
        fun _ v hv => hspec.cleared v hv⟩
    · simp only [bind_eq_bind, bind_eq_some_iff, Prod.exists] at h
      obtain ⟨ppn, g₁, pt₁, new₁, hmap, h⟩ := h
      obtain ⟨he, hkind, hheld⟩ := mapOne_edits rest held hu (hk k mem_cons_self) hmap
      have hu₁ : new₁.isUser = true := by rw [hkind]; exact hu
      have hr₁ : new₁.vpnRange = new.vpnRange := by rw [hkind]
      cases ppn with
      | none =>
        simp only [Option.pure_def, Option.some.injEq, Prod.mk.injEq] at h
        obtain ⟨rfl, rfl, rfl, rfl⟩ := h
        have hspec := unmapPages_spec pt₁ new₁ new₁.vpnRange.start new₁.vpnRange.stop
        refine ⟨he.trans ((unmapPages_trims pt₁ new₁ rest _ _ hu₁ fun _ h1 h2 => ⟨h1, h2⟩).edits _),
          ?_, hheld, fun _ v hv => hspec.cleared v (hr₁ ▸ hv)⟩
        rw [unmapAll, hspec.area, hkind]
      | some dst =>
        obtain ⟨he', hkind', hheld', herr⟩ := ih hu₁ (fun j hj => hr₁ ▸ hks j hj) h
        refine ⟨he.trans he', ?_, hheld'.trans hheld, fun hn v hv => herr hn v (hr₁ ▸ hv)⟩
        rw [hkind', hkind]

def movedArea (source : MapArea) (r : VPNRange) : MapArea :=
  { source.fromAnother with
    vpnRange := r
    mmapFlags := { source.mmapFlags with fixed := false, fixedNoreplace := false } }

variable {ret : SyscallRet} {source : MapArea}

lemma moveTo_cases (hsrc : s.areas[i]? = some source)
    (h : s.moveTo g i oldStart oldEnd dest newLen newTotal = some (ret, s', g')) :
    (s' = s ∧ g' = g) ∨ ∃ r err g₂ pt new, r.start = floorVpn dest ∧ r.stop = ceilVpn (dest + newLen) ∧
      s.copyLoop source oldStart r.start (range (min (oldEnd - oldStart) (r.stop - r.start)))
        (g.addArea (movedArea source r).groupid) s.pageTable (movedArea source r) = some (err, g₂, pt, new) ∧
      ((err ≠ none ∧ s'.layout = ⟨pt, s.areas⟩ ∧ g₂.dropArea new.groupid = some g') ∨
        (err = none ∧ s'.layout = ⟨(source.unmapAll pt).1, insertAreaSorted (s.areas.eraseIdx i) new⟩ ∧
          g₂.dropArea (source.unmapAll pt).2.groupid = some g')) := by
  unfold moveTo Conv.moveTo at h
  split at h
  · cases h
    exact .inl ⟨rfl, rfl⟩
  next newEnd hend =>
  obtain ⟨rfl, -⟩ := checkedAdd_eq_some.1 hend
  simp only [result_toVirtAddr_bind, result_lift, bind_eq_bind, bind_eq_some_iff, hsrc, some.injEq, exists_eq_left',
    Prod.exists] at h
  obtain ⟨-, -, r, hr, err, g₂, pt, new, hcopy, h⟩ := h
  obtain ⟨hr1, hr2⟩ := VPNRange.new?_eq_some.1 hr
  refine .inr ⟨r, err, g₂, pt, new, hr1, hr2, hcopy, ?_⟩
  cases err with
  | some e =>
    simp only [bind_eq_some_iff] at h
    obtain ⟨g₃, hdrop, h⟩ := h
    cases h
    exact .inl ⟨by simp, rfl, hdrop⟩
  | none =>
    simp only [bind_eq_some_iff] at h
    obtain ⟨g₃, hdrop, h⟩ := h
    cases h
    exact .inr ⟨rfl, rfl, hdrop⟩

lemma moveTo_edits (held : Set ℕ) (hsrc : s.areas[i]? = some source)
    (hu : source.isUser = true) (hadm : ∀ r : VPNRange, r.start = floorVpn dest → r.stop = ceilVpn (dest + newLen) →
      κ.admits s.areas (movedArea source r))
    (h : s.moveTo g i oldStart oldEnd dest newLen newTotal = some (ret, s', g')) :
    Edits κ ⟨s.layout, g.stock held⟩ ⟨s'.layout, g'.stock held⟩ ∧ g'.heldFrames ⊆ g.heldFrames := by
  rcases moveTo_cases hsrc h with ⟨rfl, rfl⟩ | ⟨r, err, g₂, pt, new, hr1, hr2, hcopy, hend⟩
  · exact ⟨.refl, subset_rfl⟩
  have hq : g.Quiet (g.addArea (movedArea source r).groupid) := .addArea _ _
  have hins : Edits κ ⟨s.layout, g.stock held⟩ ⟨⟨s.pageTable, movedArea source r :: s.areas⟩,
      (g.addArea (movedArea source r).groupid).stock held⟩ := by
    rw [hq.stock held]
    exact .single (.insert _ _ _ _ (hadm r hr1 hr2) rfl)
  have hpages : ∀ k ∈ range (min (oldEnd - oldStart) (r.stop - r.start)),
      r.start + k ∈ (movedArea source r).vpnRange := by
    intro k hk
    have := mem_range.1 hk
    exact ⟨Nat.le_add_right _ _, by simp only [movedArea]; omega⟩
  have hum : (movedArea source r).isUser = true := hu
  obtain ⟨he, hkind, hheld, herr⟩ := copyLoop_edits (κ := κ) s.areas held hum hpages hcopy
  have hle : g₂.heldFrames ⊆ g.heldFrames := hheld ▸ hq.heldFrames
  rcases hend with ⟨hfail, hlay, hdrop⟩ | ⟨-, hlay, hdrop⟩
  · have hun : new.isUser = true := by rw [hkind]; exact hu
    have hqd := Globals.Quiet.dropArea hdrop
    rw [hqd.stock held, hlay]
    refine ⟨(hins.trans he).tail (.trim _ (.carve pt new [] s.areas hun (by simp) .nil fun v hv => ?_)),
      hqd.heldFrames.trans hle⟩
    rw [hkind] at hv
    exact .inr (herr hfail v hv)
  · have hqd := Globals.Quiet.dropArea hdrop
    rw [hqd.stock held, hlay]
    refine ⟨(hins.trans he).trans (Trims.edits ?_ _), hqd.heldFrames.trans hle⟩
    have hperm : (new :: s.areas).Perm (source :: new :: s.areas.eraseIdx i) :=
      ((perm_of_getElem? hsrc).cons new).trans (List.Perm.swap _ _ _)
    exact (Trims.relist hperm).trans ((unmapAll_trims pt source _ hu).trans (insertAreaSorted_trims _ _ _))

/-- The destination of a move, and what is known of the areas `l` it is inserted into. -/
structure Destination (s : MemorySetInner) (g : Globals) (oldStart oldEnd newLen newAddr : ℕ) (fixed : Bool)
    (l : List MapArea) (dest : ℕ) : Prop where
  nonzero : dest ≠ 0
  trimmed : ∃ pt, Trims s.layout ⟨pt, l⟩
  chosen : fixed = true → dest = newAddr ∧ newAddr + newLen ≤ userSpaceSize ∧
    ∀ b ∈ l, b.isMmapVma = true → ¬ b.overlaps (floorVpn newAddr) (ceilVpn (newAddr + newLen))
  found : fixed = false → dest + newLen ≤ mmapTop ∧ ∃ i c t g' j, s.mremapSource oldStart oldEnd = some i ∧
    s.areas[i]? = some c ∧ c.isHuge = false ∧ s.isolate g i oldStart oldEnd = some (t, g', j) ∧
      l = t.areas ∧ dest = (t.findMmapAddr newLen).1

/-- The area a move inserts: its source is a mapping or a shared segment that holds the range. -/
structure MovePlacement (s : MemorySetInner) (g : Globals) (oldStart oldEnd newLen newAddr : ℕ)
    (fixed : Bool) (l : List MapArea) (a : MapArea) : Prop where
  place : ∃ dest, Destination s g oldStart oldEnd newLen newAddr fixed l dest ∧
    a.vpnRange.start = floorVpn dest ∧ a.vpnRange.stop = ceilVpn (dest + newLen)
  source : ∃ b ∈ l, (b.isMmapVma = true ∨ b.areaType = .shm) ∧ b.vpnRange.start ≤ oldStart ∧
    oldEnd ≤ b.vpnRange.stop ∧ a = movedArea b a.vpnRange

lemma isUser_of_movable (h : a.isMmapVma = true ∨ a.areaType = .shm) : a.isUser = true := by
  rcases h with h | h
  · exact isUser_of_isMmapVma h
  · simp [isUser, h]

variable {fixed : Bool}

lemma mremapBudget_cases {newAddr : ℕ}
    (h : s.mremapBudget g i oldAddr oldStart oldEnd newLen newAddr fixed = some (ret, s', g')) :
    (s'.layout = s.layout ∧ g' = g) ∨ ∃ (t : MemorySetInner) (dest total : ℕ), t.layout = s.layout ∧ dest ≠ 0 ∧
      dest = (if fixed then newAddr else (s.findMmapAddr newLen).1) ∧
      t.moveTo g i oldStart oldEnd dest newLen total = some (ret, s', g') := by
  have hstay : ∀ {x : SyscallRet} {t : MemorySetInner}, t.layout = s.layout →
      some (x, t, g) = some (ret, s', g') → s'.layout = s.layout ∧ g' = g := by
    intro x t ht hx
    cases hx
    exact ⟨ht, rfl⟩
  unfold mremapBudget Conv.mremapBudget at h
  rw [result_bind, bind_eq_some_iff] at h
  obtain ⟨source, -, h⟩ := h
  dsimp only at h
  split at h
  · exact .inl (hstay rfl h)
  split at h
  · exact .inl (hstay rfl h)
  split at h
  · exact .inl (hstay rfl h)
  generalize (if (!source.mmapFlags.intersectsFixed) = true then
    s.totalMmapSize - (oldEnd - oldStart) * pageSize else s.totalMmapSize) + newLen = newTotal at h
  split at h
  · exact .inl (hstay rfl h)
  cases fixed with
  | true =>
    rw [if_pos rfl, result_bind, result_pure, bind_some] at h
    split at h
    · exact .inl (hstay rfl h)
    · next h0 => exact .inr ⟨s, newAddr, _, rfl, h0, rfl, h⟩
  | false =>
    rw [if_neg Bool.false_ne_true, result_bind, (Conv.findMmapAddr_yields s _).1, bind_some] at h
    split at h
    · exact .inl (hstay (s.findMmapAddr_layout newLen) h)
    · next h0 => exact .inr ⟨_, _, _, s.findMmapAddr_layout newLen, h0, by simp, h⟩

lemma mremapSource_spec (h : s.mremapSource b e = some i) (ha : s.areas[i]? = some a) :
    (a.isMmapVma = true ∨ a.areaType = .shm) ∧ a.vpnRange.start ≤ b ∧ e ≤ a.vpnRange.stop := by
  have hsel := selected h ha
  simpa only [Bool.and_eq_true, Bool.or_eq_true, decide_eq_true_eq, and_assoc] using hsel

lemma growInPlace_cases {oldLen : ℕ} (hp : s.areas[i]? = some p)
    (h : s.growInPlace g i oldAddr oldStart oldEnd oldLen newLen = some (ret, s', g')) :
    g' = g ∧ (s' = s ∨ ∃ r : VPNRange, r.start = oldStart ∧ r.stop = ceilVpn (oldAddr + newLen) ∧
      oldAddr + newLen ≤ userSpaceSize ∧ (∀ b ∈ s.areas.eraseIdx i, ¬ b.overlaps oldEnd r.stop) ∧
      s'.layout = ⟨s.pageTable, s.areas.set i { p with vpnRange := r }⟩) := by
  have hstay : ∀ {x : SyscallRet}, some (x, s, g) = some (ret, s', g') → g' = g ∧ s' = s := by
    intro x hx
    cases hx
    exact ⟨rfl, rfl⟩
  unfold growInPlace Conv.growInPlace at h
  split at h
  · exact (hstay h).imp_right .inl
  next newEndAddr hend =>
  obtain ⟨rfl, -⟩ := checkedAdd_eq_some.1 hend
  split at h
  · exact (hstay h).imp_right .inl
  next hbound =>
  simp only [not_or, not_lt] at hbound
  rw [result_toVirtAddr_bind, result_lift] at h
  replace h := h.2
  split at h
  · exact (hstay h).imp_right .inl
  next hfree =>
  simp only [bind_eq_bind, bind_eq_some_iff, hp, some.injEq, exists_eq_left'] at h
  generalize (if p.mmapFlags.intersectsFixed = true then s.totalMmapSize
    else s.totalMmapSize + (newLen - oldLen)) = newTotal at h
  split at h
  · exact (hstay h).imp_right .inl
  simp only [bind_eq_some_iff] at h
  obtain ⟨r, hr, h⟩ := h
  cases h
  obtain ⟨hr1, hr2⟩ := VPNRange.new?_eq_some.1 hr
  refine ⟨rfl, .inr ⟨r, hr1, hr2, hbound.1, fun b hb hov => hfree ?_, rfl⟩⟩
  exact any_eq_true.2 ⟨b, hb, decide_eq_true (hr2 ▸ hov)⟩

variable {oldAddr oldLen newLen : ℕ}

lemma le_ceilVpn_of_grow (hfloor : p.vpnRange.start = floorVpn oldAddr)
    (hlen : oldLen = (p.vpnRange.stop - p.vpnRange.start) * pageSize) (hgrow : oldLen ≤ newLen)
    (hbound : oldAddr + newLen ≤ userSpaceSize) : p.vpnRange.stop ≤ ceilVpn (oldAddr + newLen) := by
  have hpe := p.vpnRange.le
  rw [ceilVpn_of_le (lt_of_le_of_lt hbound (by decide))]
  unfold floorVpn pageSize at *
  omega

end MemorySetInner

end Ya2yOS.Mm
