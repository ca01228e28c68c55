import Ya2yOS.Mm.Removal
import Ya2yOS.Mm.Mremap

/-!
# mmap, mremap and page faults as edits

The operations that insert areas and map pages, as edits in which the new area comes first, whatever the order in which
the code updates the two.
-/

namespace Ya2yOS.Mm

open Lib MapArea Option Logged
open Conv (result_toVirtAddr_bind)
open OrdMap (get?_insert empty)

variable {κ : EditCtx} {a a' : MapArea} {addr id len v : ℕ} {ok : Bool} {ppn : Option ℕ} {s s' : MemorySetInner}

def GroupManager.frames (m : GroupManager) : Set ℕ :=
  { f | ∃ id grp vpn, m.groups.get? id = some grp ∧ grp.sharedFrames.get? vpn = some f }

def Globals.heldFrames (g : Globals) : Set ℕ :=
  { f | (∃ p ∈ g.fileCache, p.frame = f) ∨ f ∈ g.groups.frames ∨
    ∃ m i, (g.memfds m).sharedPage i = some f }

def Globals.stock (g : Globals) (held : Set ℕ) : Stock := ⟨g.pages, g.blocks, held⟩

namespace GroupManager

lemma frames_addArea (m : GroupManager) (id : ℕ) : (m.addArea id).frames ⊆ m.frames := by
  rintro f ⟨j, grp, vpn, hj, hf⟩
  unfold addArea at hj
  split_ifs at hj with h0
  · exact ⟨j, grp, vpn, hj, hf⟩
  split at hj
  · rw [get?_insert] at hj
    split_ifs at hj with hid
    · cases hj
      simp [OrdMap.get?_eq_some, empty, OrdMap.mem_def] at hf
    · exact ⟨j, grp, vpn, hj, hf⟩
  · next g hg =>
    rw [get?_insert] at hj
    split_ifs at hj with hid
    · cases hj
      exact ⟨id, g, vpn, hg, hf⟩
    · exact ⟨j, grp, vpn, hj, hf⟩

lemma frames_delArea {m m' : GroupManager} (h : m.delArea id = some m') : m'.frames ⊆ m.frames := by
  rintro f ⟨j, grp, vpn, hj, hf⟩
  unfold delArea at h
  split_ifs at h with h0
  · cases h
    exact ⟨j, grp, vpn, hj, hf⟩
  split at h
  · simp at h
  next g hg =>
  dsimp only at h
  generalize (if g.mapareaNum = 0 then wordSize - 1 else g.mapareaNum - 1) = num at h
  split_ifs at h with hn
  · cases h
    rw [OrdMap.get?_erase] at hj
    split_ifs at hj
    exact ⟨j, grp, vpn, hj, hf⟩
  · cases h
    rw [get?_insert] at hj
    split_ifs at hj with hid
    · cases hj
      exact ⟨id, g, vpn, hg, hf⟩
    · exact ⟨j, grp, vpn, hj, hf⟩

end GroupManager

/-- Nothing but group membership changed, and no frame entered a group. -/
structure Globals.Quiet (g g' : Globals) : Prop where
  pages : g'.pages = g.pages
  blocks : g'.blocks = g.blocks
  fileCache : g'.fileCache = g.fileCache
  memfds : g'.memfds = g.memfds
  kernel : g'.kernel = g.kernel
  groups : g'.groups.frames ⊆ g.groups.frames

namespace Globals.Quiet

lemma refl (g : Globals) : Quiet g g := ⟨rfl, rfl, rfl, rfl, rfl, subset_rfl⟩

lemma trans {g g' g'' : Globals} (h : Quiet g g') (h' : Quiet g' g'') : Quiet g g'' :=
  ⟨h'.pages.trans h.pages, h'.blocks.trans h.blocks, h'.fileCache.trans h.fileCache,
    h'.memfds.trans h.memfds, h'.kernel.trans h.kernel, h'.groups.trans h.groups⟩

lemma stock {g g' : Globals} (h : Quiet g g') (held : Set ℕ) : g'.stock held = g.stock held := by
  unfold Globals.stock
  rw [h.pages, h.blocks]

lemma heldFrames {g g' : Globals} (h : Quiet g g') : g'.heldFrames ⊆ g.heldFrames := by
  intro f hf
  unfold Globals.heldFrames at *
  rw [h.fileCache, h.memfds] at hf
  exact hf.imp_right (.imp_left (h.groups ·))

lemma addArea (g : Globals) (id : ℕ) : Quiet g (g.addArea id) :=
  ⟨rfl, rfl, rfl, rfl, rfl, GroupManager.frames_addArea _ _⟩

lemma dropArea {g g' : Globals} (h : g.dropArea id = some g') : Quiet g g' := by
  obtain ⟨m, hm, rfl⟩ := map_eq_some_iff.1 h
  exact ⟨rfl, rfl, rfl, rfl, rfl, GroupManager.frames_delArea hm⟩

end Globals.Quiet

namespace MemorySetInner

lemma settle_quiet {g g' : Globals} {i : ℕ}
    {left : Option MapArea} (h : s.settle g i a left = some (s', g')) : g.Quiet g' := by
  cases left with
  | none =>
    simp only [settle, bind_eq_bind, bind_eq_some_iff, pure_def, some.injEq, Prod.mk.injEq] at h
    obtain ⟨_, hd, _, rfl⟩ := h
    exact .dropArea hd
  | some b =>
    simp only [settle, some.injEq, Prod.mk.injEq] at h
    exact h.2 ▸ .refl g

variable {m : Bool} {b e n : ℕ} {s s' : MemorySetInner} {g g' : Globals}

lemma Round.quiet (h : Round m b e s g s' g') : g.Quiet g' := by
  cases h with
  | intro _ _ _ _ _ hs => exact settle_quiet hs

lemma Rounds.quiet (h : Rounds m b e n s g s' g') : g.Quiet g' := by
  induction h with
  | out | stop => exact .refl _
  | round h _ ih => exact h.quiet.trans ih

lemma removeBrkRange_quiet (h : s.removeBrkRange g b e = some (s', g')) : g.Quiet g' := by
  unfold removeBrkRange at h
  split_ifs at h
  · cases h
    exact .refl _
  · exact (removeLoop_rounds _ h).quiet

lemma munmap_quiet {r : SyscallRet} (h : s.munmap g addr len = some (r, s', g')) : g.Quiet g' := by
  obtain ⟨-, -, rfl⟩ | ⟨-, -, -, s₁, hint, hloop, -⟩ := munmap_cases h
  · exact .refl _
  · exact (removeLoop_rounds _ hloop).quiet

end MemorySetInner

variable {pt pt' : PageTable}

lemma PageTable.adds_mapByPteFlags {ppn : ℕ} {f : RVPTEFlags}
    (hv : f.valid = true) (h : pt.mapByPteFlags v ppn f = some pt') : pt.Adds pt' .page v ⟨ppn, f⟩ := by
  obtain ⟨hnone, hw⟩ := findPte_mapByPteFlags h
  have hf : { f with valid := true } = f := by rw [← hv]
  refine ⟨fun w hs => ?_, fun w => ?_⟩
  · rw [findPte_eq_none] at hnone ⊢
    exact fun l => (leaf_congr pt (sameEntry_page.1 hs) l).trans (hnone l)
  · rw [hw w, hf]
    simp only [sameEntry_page]

variable {g g' : Globals}

lemma Globals.alloc_eq_some {frame : ℕ} (h : g.alloc = some (frame, g')) :
    ∃ pages mem, g.pages = frame :: pages ∧ g' = { g with pages := pages, mem := mem } := by
  unfold Globals.alloc at h
  split at h <;> cases h
  next f pages hp => exact ⟨pages, _, hp, rfl⟩

lemma mapOne_cases (h : a.mapOne g pt v = some (ppn, g', pt', a')) :
    (ppn = none ∧ g' = g ∧ pt' = pt ∧ a' = a) ∨ ∃ frame pages mem, g.pages = frame :: pages ∧ ppn = some frame ∧
      g' = { g with pages := pages, mem := mem } ∧ pt.Adds pt' .page v ⟨frame, RVPTEFlags.ofPerm a.mapPerm⟩ ∧
      a' = a.insertFrame v frame := by
  unfold mapOne at h
  split at h
  · cases h
    exact .inl ⟨rfl, rfl, rfl, rfl⟩
  next frame g₁ hal =>
  obtain ⟨pages, mem, hp, rfl⟩ := Globals.alloc_eq_some hal
  simp only [bind_eq_bind, bind_eq_some_iff] at h
  obtain ⟨pt₁, hmap, h⟩ := h
  cases h
  exact .inr ⟨frame, pages, mem, hp, rfl, rfl, PageTable.adds_mapByPteFlags rfl hmap, rfl⟩

lemma mapOne_edits
    (rest : List MapArea) (held : Set ℕ) (hu : a.isUser = true) (hv : v ∈ a.vpnRange)
    (h : mapOne g pt a v = some (ppn, g', pt', a')) :
    Edits κ ⟨⟨pt, a :: rest⟩, g.stock held⟩ ⟨⟨pt', a' :: rest⟩, g'.stock held⟩ ∧
      a' = { a with dataFrames := a'.dataFrames } ∧ g'.heldFrames = g.heldFrames := by
  obtain ⟨-, rfl, rfl, rfl⟩ | ⟨frame, pages, mem, hp, -, rfl, hm, rfl⟩ := mapOne_cases h
  · exact ⟨.refl, rfl, rfl⟩
  · exact ⟨.single (.mapPage pt pt' a rest v frame _ (g.stock held) _ hu hv hm (.inl ⟨⟨pages, hp, rfl⟩, .inl rfl⟩)),
      rfl, rfl⟩

lemma mem_hugeChunks {r : VPNRange} (hs : r.start % hugePagePages = 0) (hv : v ∈ hugeChunks r) :
    r.start ≤ v ∧ v + hugePagePages ≤ r.stop ∧ v % hugePagePages = 0 := by
  obtain ⟨k, hk, rfl⟩ := List.mem_range'.1 hv
  unfold hugePagePages at *
  omega

lemma PageTable.adds_mapMegaPage {base : ℕ} {p : MapPermission}
    (h : pt.mapMegaPage v base (RVPTEFlags.ofPerm p) = some pt') : pt.Adds pt' .mega v ⟨base, RVPTEFlags.ofPerm p⟩ := by
  obtain ⟨⟨hv, hk⟩, hw⟩ := findPte_mapMegaPage h
  refine ⟨fun w hs => ?_, hw⟩
  have hsame : vpnIndex w = vpnIndex (v + vpnIndex w % hugePagePages) := by
    simp only [SameEntry, vpnIndex, Level.span, hugePagePages] at *
    omega
  have hnone := hk (vpnIndex w % hugePagePages) (Nat.mod_lt _ (by decide))
  rw [findPte_eq_none] at hnone ⊢
  exact fun l => (leaf_congr pt hsame l).trans (hnone l)

lemma mapHugeLoop_edits {vs : List ℕ}
    (rest : List MapArea) (held : Set ℕ) (ha : a.isHuge = true ∧ a.isMmapVma = true)
    (hv : ∀ v ∈ vs, a.vpnRange.start ≤ v ∧ v + hugePagePages ≤ a.vpnRange.stop ∧ v % hugePagePages = 0)
    (h : mapHugeLoop g pt a vs = some (ok, g', pt', a')) :
    Edits κ ⟨⟨pt, a :: rest⟩, g.stock held⟩ ⟨⟨pt', a' :: rest⟩, g'.stock held⟩ ∧
      a' = { a with dataFrames := a'.dataFrames } ∧ g'.heldFrames = g.heldFrames := by
  induction vs generalizing g pt a with
  | nil =>
    obtain ⟨-, rfl, rfl, rfl⟩ : _ ∧ g = g' ∧ pt = pt' ∧ a = a' := by simpa [mapHugeLoop] using h
    exact ⟨.refl, rfl, rfl⟩
  | cons v vs ih =>
    unfold mapHugeLoop at h
    split at h
    · have hun := (unmapPages_trims pt a rest a.vpnRange.start a.vpnRange.stop
        (isUser_of_isMmapVma ha.2) fun _ h1 h2 => ⟨h1, h2⟩).edits (κ := κ) (g.stock held)
      have hspec := unmapPages_spec pt a a.vpnRange.start a.vpnRange.stop
      cases h
      exact ⟨hun, hspec.area, rfl⟩
    · next base g₁ hal =>
      simp only [bind_eq_bind, bind_eq_some_iff] at h
      obtain ⟨pt₁, hmap, h⟩ := h
      obtain ⟨h1, h2, h3⟩ := hv v List.mem_cons_self
      unfold Globals.allocBlock at hal
      split at hal
      · simp at hal
      next b blocks hb =>
      obtain ⟨rfl, rfl⟩ := Prod.mk.inj (some.inj hal)
      have hstep : Edit κ ⟨⟨pt, a :: rest⟩, g.stock held⟩ _ :=
        .mapMega pt pt₁ a rest v b (g.stock held) blocks hb ha h1 h2 h3 (PageTable.adds_mapMegaPage hmap)
      obtain ⟨he, hk, hh⟩ := ih (by simpa using ha) (fun w hw => by simpa using hv w (List.mem_cons_of_mem _ hw)) h
      refine ⟨.head hstep he, ?_, hh⟩
      unfold insertBlock at hk
      exact hk

lemma mapHuge_edits
    (rest : List MapArea) (held : Set ℕ) (ha : a.isHuge = true ∧ a.isMmapVma = true)
    (h : mapHuge g pt a = some (ok, g', pt', a')) :
    Edits κ ⟨⟨pt, a :: rest⟩, g.stock held⟩ ⟨⟨pt', a' :: rest⟩, g'.stock held⟩ ∧
      a' = { a with dataFrames := a'.dataFrames } ∧ g'.heldFrames = g.heldFrames := by
  unfold mapHuge at h
  split_ifs at h with hc
  · cases h
    exact ⟨.refl, rfl, rfl⟩
  · simp only [not_or, Decidable.not_not] at hc
    exact mapHugeLoop_edits rest held ha (fun v hv => mem_hugeChunks hc.1 hv) h

namespace MemorySetInner

def mmapPlace (s : MemorySetInner) (addr len : ℕ) (flags : MmapFlags) : ℕ :=
  if flags.intersectsFixed then addr
  else if flags.hugetlb then (s.findMmapAddrAligned len hugePageSize).1
  else ((s.tryMmapHint addr len).getD (s.findMmapAddr len)).1

lemma searchDown_le (bound : ℕ) {pages : ℕ} {l : List MapArea} {startVpn endVpn : ℕ} (hs : startVpn + pages ≤ bound)
    (he : endVpn ≤ bound) (h : searchDown pages l startVpn endVpn = some v) : v + pages ≤ bound := by
  induction l generalizing startVpn endVpn with
  | nil =>
    cases h
    exact hs
  | cons a l ih =>
    unfold searchDown at h
    split_ifs at h with h1 h2 h3 h4
    · cases h
      exact hs
    · exact ih hs he h
    · exact ih (by omega) (by omega) h

lemma findInsertAddr_le (s : MemorySetInner) (hint size : ℕ) (h : s.findInsertAddr hint size ≠ 0) :
    s.findInsertAddr hint size + size ≤ hint := by
  unfold findInsertAddr at *
  split at h
  · exact absurd rfl h
  next sum hsum =>
  obtain ⟨rfl, -⟩ := checkedAdd_eq_some.1 hsum
  dsimp only at h ⊢
  split_ifs at h ⊢ with h1 h2
  · exact absurd rfl h
  · exact absurd rfl h
  split at h
  · exact absurd rfl h
  · next v hv =>
    have := searchDown_le (floorVpn hint) (by omega) le_rfl hv
    unfold floorVpn pageSize at *
    omega

lemma findMmapAddr_le (s : MemorySetInner) (size : ℕ) (h : (s.findMmapAddr size).1 ≠ 0) :
    (s.findMmapAddr size).1 + size ≤ mmapTop := by
  unfold findMmapAddr at *
  dsimp only at h ⊢
  split_ifs at h ⊢ with h1
  · exact s.findInsertAddr_le _ _ h
  · exact (s.findInsertAddr_le _ _ h).trans (min_le_right _ _)

lemma tryMmapHint_le {hint size : ℕ} (h : s.tryMmapHint hint size = some (addr, s')) : addr + size ≤ mmapTop := by
  unfold tryMmapHint at h
  dsimp only at h
  split_ifs at h with hc
  cases h
  simp only [not_or, not_lt] at hc
  exact hc.2.2.1

lemma alignedCandidate_spec {size align hint : ℕ}
    (h : s.alignedCandidate size align hint = some addr) : addr % align = 0 ∧ addr + size ≤ mmapTop := by
  unfold alignedCandidate at h
  dsimp only at h
  split_ifs at h with hc
  cases h
  simp only [not_or, not_lt] at hc
  exact ⟨Nat.mul_mod_left _ _, hc.2.2.2.2⟩

/-- The bound that `find_mmap_addr` tries first: the place of the last range that it found. -/
def cursor (s : MemorySetInner) : ℕ := min (max s.mmapHint pageSize) mmapTop

lemma findMmapAddrAligned_cases {size align : ℕ} (h : (s.findMmapAddrAligned size align).1 ≠ 0) :
    align.isPowerOfTwo ∧
      (s.alignedCandidate size align s.cursor = some (s.findMmapAddrAligned size align).1 ∨
        s.alignedCandidate size align s.cursor = none ∧
          s.alignedCandidate size align mmapTop = some (s.findMmapAddrAligned size align).1) := by
  unfold findMmapAddrAligned at *
  split_ifs at h ⊢ with hc
  · exact absurd rfl h
  simp only [not_or, not_not] at hc
  refine ⟨hc.1, ?_⟩
  dsimp only at h ⊢
  split at h
  · next addr ha => exact or_eq_some_iff.1 ha
  · exact absurd rfl h

lemma findMmapAddrAligned_spec (s : MemorySetInner) (size align : ℕ) (h : (s.findMmapAddrAligned size align).1 ≠ 0) :
    (s.findMmapAddrAligned size align).1 % align = 0 ∧ (s.findMmapAddrAligned size align).1 + size ≤ mmapTop := by
  obtain ⟨-, ha | ⟨-, ha⟩⟩ := findMmapAddrAligned_cases h
  · exact alignedCandidate_spec ha
  · exact alignedCandidate_spec ha

@[simp] lemma findMmapAddr_layout (s : MemorySetInner) (size : ℕ) : (s.findMmapAddr size).2.layout = s.layout := by
  unfold findMmapAddr
  dsimp only
  split_ifs <;> simp only [layout]

@[simp] lemma findMmapAddrAligned_layout (s : MemorySetInner) (size align : ℕ) :
    (s.findMmapAddrAligned size align).2.layout = s.layout := by
  unfold findMmapAddrAligned
  split_ifs
  · rfl
  · dsimp only
    split <;> rfl

lemma tryMmapHint_layout {hint size : ℕ} (h : s.tryMmapHint hint size = some (addr, s')) : s'.layout = s.layout := by
  unfold tryMmapHint at h
  dsimp only at h
  split_ifs at h
  cases h
  rfl

lemma foundPlace_spec (s : MemorySetInner) (addr len : ℕ) :
    ((s.tryMmapHint addr len).getD (s.findMmapAddr len)).2.layout = s.layout ∧
      (((s.tryMmapHint addr len).getD (s.findMmapAddr len)).1 ≠ 0 →
        ((s.tryMmapHint addr len).getD (s.findMmapAddr len)).1 + len ≤ mmapTop) := by
  cases hh : s.tryMmapHint addr len with
  | none => exact ⟨s.findMmapAddr_layout len, s.findMmapAddr_le len⟩
  | some p => exact ⟨tryMmapHint_layout hh, fun _ => tryMmapHint_le hh⟩

end MemorySetInner

/-! ### mmap -/

/-- The area a call of `mmap` inserts, and what is known of the areas `l` it is inserted into. -/
structure Placement (s : MemorySetInner) (addr len : ℕ) (perm : MapPermission) (flags : MmapFlags)
    (file : MmapFile) (l : List MapArea) (a : MapArea) : Prop where
  frames : a.dataFrames = empty
  start : a.vpnRange.start = floorVpn (s.mmapPlace addr len flags)
  stop : a.vpnRange.stop = ceilVpn (s.mmapPlace addr len flags + len)
  mapPerm : a.mapPerm = perm
  mmapFlags : a.mmapFlags = flags
  mmapFile : a.mmapFile = file
  isMmap : a.isMmapVma = true
  group : flags.shared = false → a.groupid = 0
  huge : flags.hugetlb = true →
    a.vpnRange.start % hugePagePages = 0 ∧ a.vpnRange.stop % hugePagePages = 0
  fits : s.mmapPlace addr len flags + len < wordSize
  found : flags.intersectsFixed = false → s.mmapPlace addr len flags ≠ 0
  below : flags.intersectsFixed = false → s.mmapPlace addr len flags + len ≤ mmapTop
  hugeBelow : flags.hugetlb = true → s.mmapPlace addr len flags + len ≤ userSpaceSize
  trimmed : ∃ pt, Trims s.layout ⟨pt, l⟩
  kept : flags.fixed = false → l = s.areas
  noreplace : flags.fixedNoreplace = true →
    ∀ b ∈ s.areas, ¬ b.overlaps a.vpnRange.start a.vpnRange.stop
  cleared : flags.fixed = true →
    (flags.hugetlb = false → ∀ b ∈ s.areas, MemorySetInner.SparesHuge addr len b) →
      ∀ b ∈ l, b.isMmapVma = true ∨ b.areaType = .brk →
      a.vpnRange.start < a.vpnRange.stop → ¬ b.overlaps a.vpnRange.start a.vpnRange.stop

lemma newMmap_spec {first last : ℕ} {perm : MapPermission} {type : MapAreaType} {flags : MmapFlags} {file : MmapFile}
    (h : newMmap g first last perm type flags file = some (a, g')) :
    a.vpnRange.start = floorVpn first ∧ a.vpnRange.stop = ceilVpn last ∧
      a.dataFrames = empty ∧ a.mapPerm = perm ∧ a.areaType = type ∧ a.mmapFlags = flags ∧
      a.mmapFile = file ∧ (flags.shared = false → a.groupid = 0) ∧ g.Quiet g' := by
  simp only [newMmap, bind_eq_bind, bind_eq_some_iff] at h
  obtain ⟨r, hr, h⟩ := h
  obtain ⟨h1, h2⟩ := VPNRange.new?_eq_some.1 hr
  split_ifs at h with hs
  · cases h
    refine ⟨h1, h2, rfl, rfl, rfl, rfl, rfl, by simp [hs], rfl, rfl, rfl, rfl, rfl, ?_⟩
    refine (GroupManager.frames_addArea _ _).trans ?_
    unfold GroupManager.allocId
    split <;> exact subset_rfl
  · cases h
    exact ⟨h1, h2, rfl, rfl, rfl, rfl, rfl, fun _ => rfl, .refl g⟩

namespace MemorySetInner

lemma SparesHuge.trims {L L' : Layout} (h : Trims L L')
    (hL : ∀ a ∈ L.areas, SparesHuge addr len a) : ∀ a ∈ L'.areas, SparesHuge addr len a := by
  refine h.forall_areas ⟨?_, fun _ _ h => h, ?_⟩ hL
  · intro p a hp ha hhuge
    rw [isHuge, hp.flags] at hhuge
    have hin : ∀ v, v ∈ p.vpnRange → v ∈ a.vpnRange := fun v hv =>
      ⟨hp.lower.trans hv.1, lt_of_lt_of_le hv.2 hp.upper⟩
    exact (ha hhuge).imp_right fun hout => ⟨fun hv => hout.1 (hin _ hv), fun hv => hout.2 (hin _ hv)⟩
  · intro a c hm ha hc hhuge
    have hk := canMergeAreas_sameKind hm
    have hadj := canMergeAreas_adjacent hm
    rcases ha hhuge with hal | hout
    · exact .inl hal
    rcases hc (by rw [isHuge, hk.flags]; exact hhuge) with hal | hout'
    · exact .inl hal
    have hjoin : ∀ v, v ∉ a.vpnRange → v ∉ c.vpnRange → v ∉ (mergeAreas a c hadj).vpnRange := by
      intro v hva hvc hv
      by_cases hlow : v < a.vpnRange.stop
      · exact hva ⟨hv.1, hlow⟩
      · exact hvc ⟨by omega, hv.2⟩
    exact .inr ⟨hjoin _ hout.1 hout'.1, hjoin _ hout.2 hout'.2⟩

variable {s s' : MemorySetInner} {g g' : Globals}

lemma clearFixed_spec (hw : addr + len < wordSize)
    (h : s.clearFixed g addr len (floorVpn addr) (ceilVpn (addr + len)) = some (s', g')) :
    Trims s.layout s'.layout ∧ g.Quiet g' ∧
      ((∀ b ∈ s.areas, SparesHuge addr len b) → ∀ b ∈ s'.areas, b.isMmapVma = true ∨ b.areaType = .brk →
          floorVpn addr < ceilVpn (addr + len) → ¬ b.overlaps (floorVpn addr) (ceilVpn (addr + len))) := by
  simp only [clearFixed, Conv.clearFixed, result_bind, bind_eq_some_iff, Prod.exists] at h
  obtain ⟨s₁, g₁, h1, r, s₂, g₂, h2, h⟩ := h
  cases h
  have t1 := removeBrkRange_trims h1
  have t2 := munmap_trims h2
  refine ⟨t1.trans t2, (removeBrkRange_quiet h1).trans (munmap_quiet h2), ?_⟩
  intro hno b hb hor hlt
  rcases hor with hm | hbrk
  · obtain rfl := munmap_ok hw hlt (SparesHuge.trims t1 hno) h2
    exact (munmap_clears h2).2 b hb hm
  · exact t2.avoid hlt (fun t _ => t = .brk) (removeBrkRange_clears hlt h1) b hb hbrk

lemma pushLazily_edits (s : MemorySetInner) (k : Stock) (ha : κ.admits s.areas a)
    (he : a.dataFrames = empty) : Edits κ ⟨s.layout, k⟩ ⟨(s.pushLazily a).layout, k⟩ :=
  .head (.insert s.pageTable a s.areas k ha he) ((insertAreaSorted_trims _ _ _).edits k)

variable {flags : MmapFlags}

lemma fixedRoom_spec (hw : addr + len < wordSize)
    (h : (if flags.fixed then s.clearFixed g addr len (floorVpn addr) (ceilVpn (addr + len))
      else some (s, g)) = some (s', g')) :
    Trims s.layout s'.layout ∧ g.Quiet g' ∧ (flags.fixed = false → s'.areas = s.areas) ∧
      (flags.fixed = true → (∀ b ∈ s.areas, SparesHuge addr len b) →
        ∀ b ∈ s'.areas, b.isMmapVma = true ∨ b.areaType = .brk →
          floorVpn addr < ceilVpn (addr + len) →
          ¬ b.overlaps (floorVpn addr) (ceilVpn (addr + len))) := by
  split_ifs at h with hfix
  · obtain ⟨ht, hq, hcl⟩ := clearFixed_spec hw h
    exact ⟨ht, hq, by simp [hfix], fun _ => hcl⟩
  · cases h
    exact ⟨.refl, .refl g, fun _ => rfl, fun hf => absurd hf hfix⟩

variable {perm : MapPermission} {addr len r : ℕ} {file : MmapFile}

lemma mmapFixed_cases (hfix : flags.intersectsFixed = true)
    (hsmall : flags.hugetlb = false) (h : s.mmapFixed g addr len perm flags file = some (r, s', g')) :
    (s' = s ∧ g' = g) ∨ ∃ s₁ g₁ a, addr + len < wordSize ∧
      (if flags.fixed then s.clearFixed g addr len (floorVpn addr) (ceilVpn (addr + len))
        else some (s, g)) = some (s₁, g₁) ∧
      newMmap g₁ addr (addr + len) perm .mmap flags file = some (a, g') ∧
      s' = s₁.pushLazily a ∧ Placement s addr len perm flags file s₁.areas a := by
  unfold mmapFixed Conv.mmapFixed at h
  split at h
  · cases h
    exact .inl ⟨rfl, rfl⟩
  next endAddr hend =>
  obtain ⟨rfl, hw⟩ := checkedAdd_eq_some.1 hend
  simp only [result_toVirtAddr_bind] at h
  obtain ⟨-, -, h⟩ := h
  by_cases hno : flags.fixedNoreplace = true ∧
      s.areas.any (fun a => a.overlaps (floorVpn addr) (ceilVpn (addr + len))) = true
  · rw [if_pos hno] at h
    cases h
    exact .inl ⟨rfl, rfl⟩
  rw [if_neg hno] at h
  obtain ⟨s₁, g₁, hroom, a, g₂, hnew, h⟩ : ∃ s₁ g₁, (if flags.fixed then
      s.clearFixed g addr len (floorVpn addr) (ceilVpn (addr + len)) else some (s, g)) = some (s₁, g₁) ∧
      ∃ a g₂, newMmap g₁ addr (addr + len) perm .mmap flags file = some (a, g₂) ∧
        some (addr, s₁.pushLazily a, g₂) = some (r, s', g') := by
    split_ifs at h ⊢
    all_goals
      rw [result_bind, bind_eq_some_iff] at h
      obtain ⟨⟨s₁, g₁⟩, hroom, h⟩ := h
      simp only [result_toVirtAddr_bind] at h
      obtain ⟨-, -, h⟩ := h
      rw [result_bind, bind_eq_some_iff] at h
      obtain ⟨⟨a, g₂⟩, hnew, h⟩ := h
      exact ⟨s₁, g₁, hroom, a, g₂, hnew, h⟩
  obtain ⟨-, rfl, rfl⟩ : _ ∧ s₁.pushLazily a = s' ∧ g₂ = g' := by simpa using h
  obtain ⟨ht, -, hkept, hcl⟩ := fixedRoom_spec hw hroom
  obtain ⟨h1, h2, h3, h4, h5, h6, h7, h8, -⟩ := newMmap_spec hnew
  have hplace : s.mmapPlace addr len flags = addr := if_pos hfix
  refine .inr ⟨s₁, g₁, a, hw, hroom, hnew, rfl, h3, by rw [hplace, h1], by rw [hplace, h2], h4, h6, h7,
      by simp [isMmapVma, h5], h8, by simp [hsmall], by rwa [hplace], by simp [hfix], by simp [hfix],
      by simp [hsmall], ⟨_, ht⟩, hkept, fun hnr b hb => ?_, ?_⟩
  · rw [h1, h2]
    intro hov
    exact hno ⟨hnr, List.any_eq_true.2 ⟨b, hb, decide_eq_true hov⟩⟩
  · rw [h1, h2]
    exact fun hf hno => hcl hf (hno hsmall)

/-- What `mmap_huge` knows of the place it found and of the areas then. -/
structure HugeRoom (s : MemorySetInner) (addr len : ℕ) (flags : MmapFlags) (start : ℕ)
    (l : List MapArea) : Prop where
  place : start = s.mmapPlace addr len flags
  aligned : start % hugePageSize = 0
  inUser : start + len ≤ userSpaceSize
  below : flags.intersectsFixed = false → start + len ≤ mmapTop
  kept : flags.fixed = false → l = s.areas
  noreplace : flags.fixedNoreplace = true →
    ∀ b ∈ s.areas, ¬ b.overlaps (floorVpn start) (ceilVpn (start + len))
  cleared : flags.fixed = true → ∀ b ∈ l, b.isMmapVma = true ∨ b.areaType = .brk →
    floorVpn start < ceilVpn (start + len) → ¬ b.overlaps (floorVpn start) (ceilVpn (start + len))

lemma mmapHugeStart_spec {s₁ : MemorySetInner} {g g₁ : Globals} {start : ℕ} (hhuge : flags.hugetlb = true)
    (h : s.mmapHugeStart g addr len flags = some (start, s₁, g₁)) :
    (s₁.layout = s.layout ∧ g₁ = g ∨ flags.fixed = true ∧ ∃ r, s.munmap g addr len = some (r, s₁, g₁)) ∧
      (start ≠ 0 → HugeRoom s addr len flags start s₁.areas) := by
  have hfail : some (0, s, g) = some (start, s₁, g₁) →
      (s₁.layout = s.layout ∧ g₁ = g ∨ flags.fixed = true ∧ ∃ r, s.munmap g addr len = some (r, s₁, g₁)) ∧
        (start ≠ 0 → HugeRoom s addr len flags start s₁.areas) := by
    intro hx
    cases hx
    exact ⟨.inl ⟨rfl, rfl⟩, fun h0 => absurd rfl h0⟩
  unfold mmapHugeStart Conv.mmapHugeStart at h
  by_cases hfix : flags.intersectsFixed = true
  · have hplace : addr = s.mmapPlace addr len flags := (if_pos hfix).symm
    rw [if_pos hfix] at h
    split at h
    · exact hfail h
    next endAddr hend =>
    obtain ⟨rfl, hw⟩ := checkedAdd_eq_some.1 hend
    split at h
    · exact hfail h
    next hc =>
    simp only [not_or, not_lt, Decidable.not_not] at hc
    simp only [result_toVirtAddr_bind] at h
    obtain ⟨-, -, h⟩ := h
    have hnr : ¬ (flags.fixedNoreplace = true ∧ s.areas.any (fun a =>
          a.overlaps (floorVpn addr) (ceilVpn (addr + len))) = true) →
        flags.fixedNoreplace = true → ∀ b ∈ s.areas, ¬ b.overlaps (floorVpn addr) (ceilVpn (addr + len)) :=
      fun hno hf b hb hov => hno ⟨hf, List.any_eq_true.2 ⟨b, hb, decide_eq_true hov⟩⟩
    split_ifs at h with hno hfixed hbrk
    · exact hfail h
    · exact hfail h
    · rw [result_bind, bind_eq_some_iff] at h
      obtain ⟨⟨r, s₂, g₂⟩, hun, h⟩ := h
      cases r with
      | error e =>
        cases h
        exact ⟨.inr ⟨hfixed, _, hun⟩, fun h0 => absurd rfl h0⟩
      | ok n =>
        cases h
        refine ⟨.inr ⟨hfixed, _, hun⟩, fun _ => ⟨hplace, hc.1, hc.2.1, by simp [hfix],
          by simp [hfixed], hnr hno, fun _ b hb hor hlt => ?_⟩⟩
        rcases hor with hm | ht
        · exact (munmap_clears hun).2 b hb hm
        · refine (munmap_trims hun).avoid hlt (fun t _ => t = .brk) (fun c hcs hct hov => hbrk ?_) b hb ht
          exact List.any_eq_true.2 ⟨c, hcs, by simp [hct, hov]⟩
    · cases h
      exact ⟨.inl ⟨rfl, rfl⟩, fun _ => ⟨hplace, hc.1, hc.2.1, by simp [hfix], fun _ => rfl, hnr hno,
        fun hf => absurd hf hfixed⟩⟩
  · split_ifs at h with hbudget
    · exact hfail h
    have hlay := s.findMmapAddrAligned_layout len hugePageSize
    have hspec := s.findMmapAddrAligned_spec len hugePageSize
    have hplace : s.mmapPlace addr len flags = (s.findMmapAddrAligned len hugePageSize).1 := by
      simp [mmapPlace, hfix, hhuge]
    rw [result_bind, (Conv.findMmapAddrAligned_yields s _ _).1] at h
    rcases hfa : s.findMmapAddrAligned len hugePageSize with ⟨x, s₂⟩
    rw [hfa] at hlay hspec hplace h
    cases h
    refine ⟨.inl ⟨hlay, rfl⟩, fun h0 => ?_⟩
    obtain ⟨hal, htop⟩ := hspec h0
    have hff : flags.fixed = false ∧ flags.fixedNoreplace = false := by
      simpa [MmapFlags.intersectsFixed] using hfix
    exact ⟨hplace.symm, hal, htop.trans (by decide), fun _ => htop,
      fun _ => congrArg Layout.areas hlay, by simp [hff], by simp [hff]⟩

lemma mmapHuge_cases (hhuge : flags.hugetlb = true) (h : s.mmapHuge g addr len perm flags file = some (r, s', g')) :
    (s' = s ∧ g' = g) ∨ s.mmapHugeStart g addr len flags = some (0, s', g') ∨
      ∃ start s₁ g₁ a g₂ ok g₃ pt a', start ≠ 0 ∧ s.mmapHugeStart g addr len flags = some (start, s₁, g₁) ∧
        newMmap g₁ start (start + len) perm .mmap flags file = some (a, g₂) ∧
        Placement s addr len perm flags file s₁.areas a ∧
        a.mapHuge g₂ s₁.pageTable = some (ok, g₃, pt, a') ∧
        ((ok = false ∧ s'.layout = ⟨(a'.unmapAll pt).1, s₁.areas⟩ ∧ g₃.dropArea (a'.unmapAll pt).2.groupid = some g') ∨
          (ok = true ∧ s'.layout = ⟨pt, insertAreaSorted s₁.areas a'⟩ ∧ g' = g₃)) := by
  unfold mmapHuge Conv.mmapHuge at h
  split at h
  · cases h
    exact .inl ⟨rfl, rfl⟩
  next hc =>
  simp only [not_or, Decidable.not_not] at hc
  rw [result_bind, bind_eq_some_iff] at h
  obtain ⟨⟨start, s₁, g₁⟩, hstart, h⟩ := h
  dsimp only at h
  obtain ⟨hmade, hroom⟩ := mmapHugeStart_spec hhuge hstart
  have ht : Trims s.layout s₁.layout := by
    rcases hmade with ⟨hlay, -⟩ | ⟨-, r, hun⟩
    · rw [hlay]
    · exact munmap_trims hun
  split at h
  · next h0 =>
    cases h
    exact .inr (.inl (h0 ▸ hstart))
  next h0 =>
  have hr := hroom h0
  simp only [result_toVirtAddr_bind, result_lift, bind_eq_bind, bind_eq_some_iff, Prod.exists] at h
  obtain ⟨-, -, a, g₂, hnew, ok, g₃, pt, a', hmap, h⟩ := h
  obtain ⟨h1, h2, h3, h4, h5, h6, h7, h8, -⟩ := newMmap_spec hnew
  have hsize : len % hugePageSize = 0 := hc.2.2.1
  have hplaced : Placement s addr len perm flags file s₁.areas a := by
    refine ⟨h3, by rw [← hr.place, h1], by rw [← hr.place, h2], h4, h6, h7,
      by simp [isMmapVma, h5], h8, fun _ => ?_, hr.place ▸ lt_of_le_of_lt hr.inUser (by decide),
      fun _ => hr.place ▸ h0, fun hf => hr.place ▸ hr.below hf,
      fun _ => hr.place ▸ hr.inUser, ⟨_, ht⟩, hr.kept, ?_, ?_⟩
    · have hal := hr.aligned
      have hin := hr.inUser
      rw [h2, ceilVpn_of_le (lt_of_le_of_lt hin (by decide))]
      unfold floorVpn pageSize hugePageSize hugePagePages at *
      omega
    · rw [h1, h2]
      exact hr.noreplace
    · rw [h1, h2]
      exact fun hf _ => hr.cleared hf
  refine .inr (.inr ⟨start, s₁, g₁, a, g₂, ok, g₃, pt, a', h0, hstart, hnew, hplaced, hmap, ?_⟩)
  split at h
  · next hbad =>
    simp only [bind_eq_some_iff] at h
    obtain ⟨g₄, hdrop, h⟩ := h
    cases h
    exact .inl ⟨by simpa using hbad, rfl, hdrop⟩
  · next hgood =>
    cases h
    exact .inr ⟨by simpa using hgood, rfl, rfl⟩

/-- What `mmap` does, by the kind of mapping: a plain one fails and leaves the areas as they are,
or is placed where the search found room. -/
lemma mmap_cases (h : s.mmap g addr len perm flags file = some (r, s', g')) :
    (flags.hugetlb = true ∧ s.mmapHuge g addr len perm flags file = some (r, s', g')) ∨
    (flags.hugetlb = false ∧ flags.intersectsFixed = true ∧ s.mmapFixed g addr len perm flags file = some (r, s', g')) ∨
    (flags.hugetlb = false ∧ flags.intersectsFixed = false ∧ ((s'.layout = s.layout ∧ g' = g) ∨ ∃ first last type a,
        newMmap g first last perm type flags file = some (a, g') ∧
        s'.layout = ⟨s.pageTable, insertAreaSorted s.areas a⟩ ∧
        Placement s addr len perm flags file s.areas a)) := by
  unfold mmap Conv.mmap at h
  by_cases hhuge : flags.hugetlb = true
  · rw [if_pos hhuge] at h
    exact .inl ⟨hhuge, h⟩
  rw [if_neg hhuge] at h
  by_cases hfix : flags.fixed = true ∨ flags.fixedNoreplace = true
  · rw [if_pos hfix] at h
    exact .inr (.inl ⟨by simpa using hhuge, by simpa [MmapFlags.intersectsFixed] using hfix, h⟩)
  rw [if_neg hfix] at h
  have hff : flags.fixed = false ∧ flags.fixedNoreplace = false := by simpa using hfix
  have hint : flags.intersectsFixed = false := by simpa [MmapFlags.intersectsFixed] using hff
  refine .inr (.inr ⟨by simpa using hhuge, hint, ?_⟩)
  split at h
  · cases h
    exact .inl ⟨rfl, rfl⟩
  have hplace : s.mmapPlace addr len flags = ((s.tryMmapHint addr len).getD (s.findMmapAddr len)).1 := by
    simp [mmapPlace, hint, hhuge]
  obtain ⟨hlay, htop⟩ := s.foundPlace_spec addr len
  rw [result_bind, (Conv.freePlace_yields s _ _).1] at h
  rcases hfa : (s.tryMmapHint addr len).getD (s.findMmapAddr len) with ⟨place, s₁⟩
  simp only [hfa, bind_some] at h hplace hlay htop
  split at h
  · cases h
    exact .inl ⟨hlay, rfl⟩
  next h0 =>
  simp only [result_toVirtAddr_bind] at h
  obtain ⟨-, -, h⟩ := h
  rw [result_bind, bind_eq_some_iff] at h
  obtain ⟨⟨a, g₁⟩, hnew, h⟩ := h
  obtain ⟨-, rfl, rfl⟩ : _ ∧ _ = s' ∧ g₁ = g' := by simpa using h
  obtain ⟨h1, h2, h3, h4, h5, h6, h7, h8, -⟩ := newMmap_spec hnew
  have hareas : s₁.areas = s.areas := congrArg Layout.areas hlay
  have htable : s₁.pageTable = s.pageTable := congrArg Layout.pt hlay
  refine .inr ⟨place, place + len, _, a, hnew, ?_, h3, by rw [hplace, h1], by rw [hplace, h2], h4, h6, h7, ?_,
    h8, by simp [hhuge], hplace ▸ lt_of_le_of_lt (htop h0) (by decide), fun _ => hplace ▸ h0,
    fun _ => hplace ▸ htop h0, by simp [hhuge], ⟨s.pageTable, .refl⟩, fun _ => rfl,
    by simp [hff], by simp [hff]⟩
  · rw [← hareas, ← htable]
    rfl
  · rw [isMmapVma, h5, h6]
    split_ifs with hst <;> simp [hst]

end MemorySetInner

end Ya2yOS.Mm
