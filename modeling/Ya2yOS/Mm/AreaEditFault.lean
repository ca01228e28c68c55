import Ya2yOS.Mm.AreaEditCalls

/-!
# Faults, discards, the heap and segments as edits of the vector of areas

A fault changes the records of one area or lets a `MAP_GROWSDOWN` area grow. The heap grows by areas of its own, and a
segment is attached and detached as one area.
-/

namespace Ya2yOS.Mm

open Lib Option Logged
open Conv (result_toVirtAddr_bind)

variable {κ : AreaCtx} {addr : ℕ} {l : List MapArea} {m : GroupManager} {pt : PageTable}

/-- A handler changes the records of its area and leaves the numbers of the groups alone. -/
structure Handled (g : Globals) (a : MapArea) (g' : Globals) (a' : MapArea) : Prop where
  area : a' = { a with dataFrames := a'.dataFrames }
  counts : g.groups.SameCounts g'.groups

lemma Handled.of_groups {g g' : Globals} {a a' : MapArea} (ha : a' = { a with dataFrames := a'.dataFrames })
    (hg : g'.groups = g.groups) : Handled g a g' a' :=
  ⟨ha, hg ▸ .refl _⟩

section

variable {g g' : Globals} {pt pt' : PageTable} {a a' : MapArea} {v frame : ℕ} {ok : Bool} {prepared : Option FilePage}

lemma alloc_groups (h : g.alloc = some (frame, g')) : g'.groups = g.groups := by
  obtain ⟨pages, mem, -, rfl⟩ := Globals.alloc_eq_some h
  rfl

lemma sharedPage_groups {b : MmapBacking} {index : ℕ} (h : sharedPage g b index = some (frame, g')) :
    g'.groups = g.groups := by
  unfold sharedPage at h
  split at h
  · cases h
  split at h
  · cases h
    rfl
  simp only [bind_eq_bind, bind_eq_some_iff, Prod.exists] at h
  obtain ⟨f, g₁, halloc, h⟩ := h
  cases h
  have hgroups : g₁.groups = g.groups := alloc_groups halloc
  exact hgroups

lemma addFrame_sameCounts {m' : GroupManager} {id : ℕ} (h : m.addFrame id v frame = some m') : m.SameCounts m' := by
  unfold GroupManager.addFrame at h
  split at h
  · cases h
  next grp hgrp =>
  cases h
  refine ⟨rfl, fun j => ?_⟩
  rw [OrdMap.get?_insert]
  split_ifs with hj
  · rw [hj, hgrp]
    rfl
  · rfl

lemma Repair.handled (h : Repair prepared v g pt a ok g' pt' a') : Handled g a g' a' := by
  refine ⟨h.area, ?_⟩
  induction h with
  | none | fresh => exact .refl _
  | shared hs hm =>
    rcases hs with ⟨rfl, -⟩ | ⟨b, index, hs⟩
    · exact .refl _
    · exact sharedPage_groups hs ▸ .refl _
  | publish h hz hf hadd ih => exact ih.trans (addFrame_sameCounts hadd)

end

namespace MemorySetInner

variable {s s' : MemorySetInner} {g g' : Globals} {v : ℕ} {cause : FaultCause} {prepared : Option FilePage} {ok : Bool}
  {ret : SyscallRet} {strongCount : ℕ → ℕ}

lemma putArea_areaEdits {i : ℕ} {a a' : MapArea} (hi : s.areas[i]? = some a)
    (h : Handled g a g' a') : AreaEdits κ (s.table g) ((s.putArea i pt a').table g') := by
  have hrec : AreaEdit κ (s.table g) ⟨s.areas.set i a', [], g.groups⟩ := by
    rw [h.area]
    exact .record hi _
  exact .head hrec (.single (.publish h.counts))

lemma handleNotPresentPageFault_areaEdits (h : s.handleNotPresentPageFault g v cause prepared = some (ok, s', g')) :
    AreaEdits κ (s.table g) (s'.table g') := by
  rcases handleNotPresentPageFault_cases h with ⟨-, rfl, rfl⟩ | ⟨i, a, a', pt', r, hi, -, -, hr, rfl, hrep⟩
  · exact .refl
  rcases hr with rfl | ⟨-, hlt, hstop, hfree, -⟩
  · exact putArea_areaEdits hi hrep.handled
  have hlen := (List.getElem?_eq_some_iff.1 hi).1
  have hwide := AreaEdit.widen (κ := κ) (m := g.groups) hi r hlt.le hstop.ge
    fun b hb => ⟨fun _ => hfree b hb, fun hlt => absurd hstop (by omega)⟩
  let t : MemorySetInner := { s with areas := s.areas.set i { a with vpnRange := r } }
  have hi' : t.areas[i]? = some { a with vpnRange := r } := by simp [t, hlen]
  have hput : AreaEdits κ (t.table g) ((t.putArea i pt' a').table g') := putArea_areaEdits hi' hrep.handled
  have hsame : (t.putArea i pt' a').table g' = (s.putArea i pt' a').table g' := by
    simp only [t, putArea, table, List.set_set]
  exact .head hwide (hsame ▸ hput)

lemma handleWriteProtectPageFault_areaEdits
    (h : s.handleWriteProtectPageFault strongCount g v cause = some (ok, s', g')) :
    AreaEdits κ (s.table g) (s'.table g') := by
  obtain ⟨-, ⟨rfl, hlay⟩ | ⟨i, a, a', pt', ha, hlay, harea, hgroups, -⟩⟩ := handleWriteProtectPageFault_cases h
  · rw [table_of_layout hlay]
  · have hareas : s'.areas = s.areas.set i a' := congrArg Layout.areas hlay
    rw [table, table, hareas, hgroups, harea]
    exact .single (.record ha _)

lemma handlePageFault_areaEdits (h : s.handlePageFault strongCount g v cause prepared = some (ok, s', g')) :
    AreaEdits κ (s.table g) (s'.table g') := by
  rcases handlePageFault_cases h with h1 | ⟨s₁, g₁, h1, h2⟩
  · exact handleNotPresentPageFault_areaEdits h1
  · exact (handleNotPresentPageFault_areaEdits h1).trans (handleWriteProtectPageFault_areaEdits h2)

lemma discardLoop_areaEdits (b e : ℕ) (m : GroupManager) (pt : PageTable) (l done : List MapArea) :
    AreaEdits κ ⟨done ++ l, [], m⟩ ⟨done ++ (discardLoop b e pt l).2, [], m⟩ := by
  induction l generalizing pt done with
  | nil => exact .refl
  | cons a rest ih =>
    have hnext : ∀ (pt : PageTable) (c : MapArea),
        AreaEdits κ ⟨done ++ c :: rest, [], m⟩ ⟨done ++ c :: (discardLoop b e pt rest).2, [], m⟩ := by
      intro pt c
      have := ih pt (done ++ [c])
      simpa only [List.append_assoc, List.cons_append, List.nil_append] using this
    unfold discardLoop
    dsimp only
    split_ifs with hc
    · exact hnext pt a
    have hi : (done ++ a :: rest)[done.length]? = some a := by simp
    have hrec := AreaEdit.record (κ := κ) (u := []) (m := m) hi
      (a.unmapPages pt (max a.vpnRange.start b) (min a.vpnRange.stop e)).2.dataFrames
    rw [← (unmapPages_spec pt a (max a.vpnRange.start b) (min a.vpnRange.stop e)).area,
      List.set_append_right _ _ le_rfl, Nat.sub_self, List.set_cons_zero] at hrec
    exact .head hrec (hnext _ _)

lemma discardMadvisePages_areaEdits {len : ℕ} (h : s.discardMadvisePages addr len = some (ret, s')) :
    AreaEdits κ (s.table g) (s'.table g) := by
  rcases discardMadvisePages_cases h with rfl | hlay
  · exact .refl
  · rw [table, table, show s'.areas = _ from congrArg Layout.areas hlay]
    exact discardLoop_areaEdits (floorVpn addr) (ceilVpn (addr + len)) g.groups s.pageTable s.areas []

end MemorySetInner

namespace MemCall

open MemorySetInner

variable {s s' : MemorySetInner} {g g' : Globals} {ret : SyscallRet} {c : MemCall}

/-- The removals inside a call leave no hole in an area of a group. -/
def HoleFree (s : MemorySetInner) (g : Globals) : MemCall → Prop
  | .mmap addr len _ raw _ _ _ => (MmapFlags.ofBits raw).fixed = true →
      Mm.HoleFree s.areas (floorVpn addr) (ceilVpn (addr + mmapLen (.ofBits raw) len))
  | .munmap addr len _ => Mm.HoleFree s.areas (floorVpn addr) (ceilVpn (addr + pageRoundUp len))
  | .mremap oldAddr oldSize newSize flags newAddr =>
      s.RemapHoleFree g oldAddr (mremapLen oldSize) (mremapLen newSize) newAddr (flags.testBit 1)
  | _ => True

lemma run_areaEdits (hsort : c.IsMremap → AreasSorted s.areas) (hadm : ∀ l a, c.Inserts s g l a → κ.admits l a)
    (hh : κ.silent ∨ c.HoleFree s g) (h : c.run s g = some (ret, s', g')) : AreaEdits κ (s.table g) (s'.table g') := by
  have hstay : s' = s ∧ g' = g → AreaEdits κ (s.table g) (s'.table g') := by
    rintro ⟨rfl, rfl⟩
    exact .refl
  cases c with
  | mmap addr len prot raw fd off desc =>
    rcases sysMmap_cases h with hs | ⟨file, rv, hfile, hlen, hmax, hm⟩
    · exact hstay hs
    · exact (mmap_steps (fun l a hp => hadm l a ⟨file, hfile, hlen, hmax, hp⟩)
        (fun hf => hh.imp_right fun h => h hf) hm).areaEdits
  | munmap addr len ioError =>
    rcases sysMunmap_cases h with hs | ⟨r, hm⟩
    · exact hstay hs
    · exact munmap_areaEdits hh hm
  | mprotect addr len prot =>
    rcases sysMprotect_cases h with hs | hm
    · exact hstay hs
    · exact mprotect_areaEdits hm
  | mremap oldAddr oldSize newSize flags newAddr =>
    rcases sysMremap_cases h with hs | ⟨hlt, hnew, hm | hm⟩
    · exact hstay hs
    · exact (mremapMaymove_steps (hsort trivial) hlt (fun l a hp => hadm l a ⟨hlt, hnew, hp⟩)
        (fun hf i t k j hi hiso => hh.imp_right fun h => (h i t k j hi hiso).1 hf) hm).areaEdits
    · exact (mremapInPlace_steps (hsort trivial) hlt
        (fun hs i t k j hi hiso => hh.imp_right fun h => (h i t k j hi hiso).2 hs) hm).areaEdits
  | madvise addr len advice =>
    obtain ⟨⟨r, t⟩, hm, heq⟩ := map_eq_some_iff.1 h
    obtain ⟨rfl, rfl, rfl⟩ : r = ret ∧ t = s' ∧ g = g' := by simpa using heq
    rcases sysMadvise_cases hm with rfl | hd
    · exact .refl
    · exact discardMadvisePages_areaEdits hd

end MemCall

/-! ### The heap -/

def heapArea (r : ℕ × ℕ) : MapArea :=
  { vpnRange := ⟨r.1, max r.1 r.2, le_max_left _ _⟩, dataFrames := OrdMap.empty, mapPerm := heapPerm,
    areaType := .brk, mmapFile := MmapFile.empty, mmapFlags := {}, groupid := 0 }

lemma freeRanges_bounds {n c : ℕ} (hc : c ≤ n) {r : ℕ × ℕ} (hr : r ∈ freeRanges n l c) :
    c ≤ r.1 ∧ r.1 < r.2 ∧ r.2 ≤ n := by
  induction l generalizing c with
  | nil =>
    unfold freeRanges at hr
    split_ifs at hr with h
    · rw [List.mem_singleton] at hr
      subst hr
      exact ⟨le_rfl, h, le_rfl⟩
    · cases hr
  | cons a rest ih =>
    unfold freeRanges at hr
    split_ifs at hr with hb hskip hgap
    · exact ih hc hr
    · exact ih hc hr
    · rw [List.singleton_append, List.mem_cons] at hr
      rcases hr with rfl | hr
      · exact ⟨le_rfl, by dsimp only; omega, min_le_right _ _⟩
      · have hrec := ih (min_le_right _ _) hr
        omega
    · have hrec := ih (min_le_right _ _) hr
      omega

namespace MemorySetInner

variable {s s' : MemorySetInner} {g g' : Globals} {t : TaskHeap} {n : ℤ} {r : Option ℕ}

lemma grow_cases (h : s.grow g n t = some (r, s', g')) :
    (s' = s ∧ g' = g) ∨ ∃ newVpn, newVpn = ceilVpn (t.heappoint + n).toNat ∧ ((ceilVpn t.heappoint < newVpn ∧ g' = g ∧
        (freeRanges newVpn s.areas (ceilVpn t.heappoint)).foldlM pushHeap s = some s') ∨
      s.removeBrkRange g newVpn (ceilVpn t.heappoint) = some (s', g')) := by
  unfold grow at h
  dsimp only at h
  split at h
  · cases h
    exact .inl ⟨rfl, rfl⟩
  simp only [bind_eq_bind, bind_eq_some_iff] at h
  obtain ⟨newAddr, hnew, oldAddr, hold, h⟩ := h
  obtain ⟨rfl, -⟩ := virtAddr_eq_some.1 hnew
  obtain ⟨rfl, -⟩ := virtAddr_eq_some.1 hold
  split at h
  · split at h
    · cases h
      exact .inl ⟨rfl, rfl⟩
    split at h
    · cases h
      exact .inl ⟨rfl, rfl⟩
    next hlt =>
    simp only [bind_eq_some_iff] at h
    obtain ⟨s₁, hfold, h⟩ := h
    cases h
    exact .inr ⟨_, rfl, .inl ⟨Nat.lt_of_not_le hlt, rfl, hfold⟩⟩
  split at h
  · split at h
    · cases h
      exact .inl ⟨rfl, rfl⟩
    · simp only [bind_eq_some_iff, Prod.exists] at h
      obtain ⟨s₁, g₁, hrem, h⟩ := h
      cases h
      exact .inr ⟨_, rfl, .inr hrem⟩
  · cases h
    exact .inl ⟨rfl, rfl⟩

variable {ret : SyscallRet} {flags : ℕ} {shmid : ℤ}

lemma sysBrk_cases {t' : TaskHeap} {brkAddr : ℕ} (h : s.sysBrk g t brkAddr = some (ret, s', g', t')) :
    (s' = s ∧ g' = g) ∨ ∃ r, s.grow g ((brkAddr : ℤ) - t.heappoint) t = some (r, s', g') := by
  unfold sysBrk at h
  split at h
  · cases h
    exact .inl ⟨rfl, rfl⟩
  split at h
  · cases h
    exact .inl ⟨rfl, rfl⟩
  split at h
  · cases h
    exact .inl ⟨rfl, rfl⟩
  split at h
  · cases h
    exact .inl ⟨rfl, rfl⟩
  simp only [bind_eq_bind, bind_eq_some_iff, Prod.exists] at h
  obtain ⟨r, s₁, g₁, t₁, hproc, h⟩ := h
  cases h
  unfold growproc at hproc
  split at hproc
  · cases hproc
    exact .inl ⟨rfl, rfl⟩
  · simp only [bind_eq_bind, bind_eq_some_iff, Prod.exists] at hproc
    obtain ⟨r₁, s₂, g₂, hgrow, hproc⟩ := hproc
    cases hproc
    exact .inr ⟨_, hgrow⟩

lemma ceilVpn_lt (x : ℕ) : ceilVpn x < 2 ^ 52 := by
  unfold ceilVpn pageSize wordSize
  split_ifs <;> omega

lemma pushHeap_eq {q : ℕ × ℕ} (hlt : q.1 < q.2) (hq : q.2 < 2 ^ 52) :
    s.pushHeap q = some (s.pushLazily (heapArea q)) := by
  have hf : floorVpn (q.1 * pageSize) = q.1 := by
    unfold floorVpn pageSize
    omega
  have hc : ceilVpn (q.2 * pageSize) = q.2 := by
    unfold ceilVpn pageSize wordSize
    split_ifs <;> omega
  obtain ⟨lo, hi⟩ := q
  simp only [pushHeap, hlt, if_true, MapArea.new, hf, hc, VPNRange.new?, hlt.le, dif_pos, heapArea,
    max_eq_right hlt.le, bind_eq_bind, bind_some, pure_def]

lemma foldlM_pushHeap {l : List (ℕ × ℕ)} (hl : ∀ q ∈ l, q.1 < q.2 ∧ q.2 < 2 ^ 52)
    (h : l.foldlM pushHeap s = some s') : s' = (l.map heapArea).foldl pushLazily s := by
  induction l generalizing s with
  | nil => exact (some.inj h).symm
  | cons q l ih =>
    obtain ⟨hlt, hq⟩ := hl q List.mem_cons_self
    rw [List.foldlM_cons, pushHeap_eq hlt hq] at h
    exact ih (fun q hq => hl q (List.mem_cons_of_mem _ hq)) h

/-- The parts of the heap are all made before the first is inserted: they do not depend on it. -/
lemma heapAreas_areaEdits (todo done : List (ℕ × ℕ))
    (hadm : ∀ pre q post, todo = pre ++ q :: post → κ.admits ((done ++ pre).map heapArea ++ l) (heapArea q)) :
    AreaEdits κ ⟨l, done.map heapArea, m⟩ ⟨l, (done ++ todo).map heapArea, m⟩ := by
  induction todo generalizing done with
  | nil =>
    rw [List.append_nil]
  | cons q todo ih =>
    have hone : AreaEdit κ ⟨l, done.map heapArea, m⟩ ⟨l, done.map heapArea ++ [heapArea q], m⟩ := by
      apply AreaEdit.create
      · have := hadm [] q todo rfl
        rwa [List.append_nil] at this
      · exact .inl ⟨rfl, rfl⟩
    have hrest := ih (done ++ [q]) (fun pre q' post heq => by
      have := hadm (q :: pre) q' post (by rw [heq, List.cons_append])
      rwa [List.append_assoc, List.singleton_append])
    rw [List.append_assoc, List.map_append] at hrest
    exact .head hone hrest

lemma grow_areaEdits (hadm : ∀ pre q post, ceilVpn t.heappoint < ceilVpn (t.heappoint + n).toNat →
      freeRanges (ceilVpn (t.heappoint + n).toNat) s.areas (ceilVpn t.heappoint) = pre ++ q :: post →
      κ.admits (pre.map heapArea ++ s.areas) (heapArea q))
    (hh : κ.silent ∨ HeapUngrouped s.areas)
    (h : s.grow g n t = some (r, s', g')) : AreaEdits κ (s.table g) (s'.table g') := by
  rcases grow_cases h with ⟨rfl, rfl⟩ | ⟨newVpn, rfl, ⟨hlt, rfl, hfold⟩ | hrem⟩
  · exact .refl
  · have hparts : ∀ q ∈ freeRanges (ceilVpn (t.heappoint + n).toNat) s.areas (ceilVpn t.heappoint),
        q.1 < q.2 ∧ q.2 < 2 ^ 52 := by
      intro q hq
      have hb := freeRanges_bounds hlt.le hq
      exact ⟨hb.2.1, lt_of_le_of_lt hb.2.2 (ceilVpn_lt _)⟩
    rw [foldlM_pushHeap hparts hfold]
    have hmake := heapAreas_areaEdits (m := g'.groups)
      (freeRanges (ceilVpn (t.heappoint + n).toNat) s.areas (ceilVpn t.heappoint)) []
      (fun pre q post heq => hadm pre q post hlt heq)
    exact hmake.trans (foldl_pushLazily_areaEdits _ s _)
  · exact removeBrkRange_areaEdits hh hrem

lemma mapGivenFrames_area {pt' : PageTable} {a a' : MapArea} {pairs : List (ℕ × ℕ)}
    (h : a.mapGivenFrames pt pairs = some (pt', a')) : a' = { a with dataFrames := a'.dataFrames } := by
  induction pairs generalizing pt a with
  | nil =>
    obtain ⟨-, rfl⟩ := Prod.mk.inj (some.inj h)
    rfl
  | cons q pairs ih =>
    simp only [MapArea.mapGivenFrames, bind_eq_bind, bind_eq_some_iff] at h
    obtain ⟨pt₁, -, h⟩ := h
    have hrest := ih h
    exact hrest

lemma sysShmat_cases {m : ShmManager}
    (h : s.sysShmat m shmid addr flags = some (ret, s')) :
    s' = s ∨ ∃ (frames : List ℕ) (va : ℕ) (a : MapArea) (f : OrdMap ℕ ℕ),
      m.map.get? shmid.toNat = some frames ∧ va = (s.findMmapAddr (frames.length * pageSize)).1 ∧
      a.vpnRange.start = floorVpn va ∧
      a.vpnRange.stop = ceilVpn ((va + frames.length * pageSize) % wordSize) ∧ a.groupid = 0 ∧
      s'.areas = insertAreaSorted s.areas { a with dataFrames := f } := by
  unfold sysShmat at h
  split at h
  · cases h
    exact .inl rfl
  split at h
  · cases h
    exact .inl rfl
  split at h
  · cases h
    exact .inl rfl
  next frames hframes =>
  simp only [bind_eq_bind, bind_eq_some_iff, Prod.exists] at h
  obtain ⟨va, s₁, hshm, h⟩ := h
  cases h
  unfold shm at hshm
  split_ifs at hshm
  rcases hfa : s.findMmapAddr (frames.length * pageSize) with ⟨x, s₂⟩
  have hlay := s.findMmapAddr_layout (frames.length * pageSize)
  rw [hfa] at hlay
  have hareas : s₂.areas = s.areas := congrArg Layout.areas hlay
  simp only [hfa, bind_eq_bind, bind_eq_some_iff, Prod.exists] at hshm
  obtain ⟨first, hfirst, last, hlast, a, hnew, pt, a', hmap, hshm⟩ := hshm
  obtain ⟨rfl, -⟩ := virtAddr_eq_some.1 hfirst
  obtain ⟨rfl, -⟩ := virtAddr_eq_some.1 hlast
  obtain ⟨-, rfl⟩ := Prod.mk.inj (some.inj hshm)
  simp only [MapArea.new, bind_eq_bind, bind_eq_some_iff] at hnew
  obtain ⟨r, hr, hnew⟩ := hnew
  have ha := (some.inj hnew).symm
  obtain ⟨h1, h2⟩ := VPNRange.new?_eq_some.1 hr
  refine .inr ⟨frames, first, a, a'.dataFrames, hframes, by rw [hfa], by rw [ha]; exact h1,
    by rw [ha]; exact h2, by rw [ha], ?_⟩
  rw [← mapGivenFrames_area hmap, ← hareas]
  rfl

lemma sysShmat_areaEdits {m : ShmManager}
    (hadm : ∀ (frames : List ℕ) (va : ℕ) (a : MapArea), m.map.get? shmid.toNat = some frames →
      va = (s.findMmapAddr (frames.length * pageSize)).1 → a.vpnRange.start = floorVpn va →
      a.vpnRange.stop = ceilVpn ((va + frames.length * pageSize) % wordSize) → κ.admits s.areas a)
    (h : s.sysShmat m shmid addr flags = some (ret, s')) : AreaEdits κ (s.table g) (s'.table g) := by
  rcases sysShmat_cases h with rfl | ⟨frames, va, a, f, hframes, hva, h1, h2, hzero, hareas⟩
  · exact .refl
  · rw [show s'.table g = ⟨insertAreaSorted s.areas { a with dataFrames := f }, [], g.groups⟩ by rw [table, hareas]]
    exact .head (.create a (hadm frames va a hframes hva h1 h2) (.inl ⟨hzero, rfl⟩))
      (.head (.fill a f) (insertAreaSorted_areaEdits s.areas [] g.groups _))

lemma shmDetach_areaEdits (h : s.shmDetach g addr = some (ret, s', g')) : AreaEdits κ (s.table g) (s'.table g') := by
  unfold shmDetach at h
  split at h
  · cases h
    exact .refl
  simp only [bind_eq_bind, bind_eq_some_iff] at h
  obtain ⟨first, -, h⟩ := h
  split at h
  · cases h
    exact .refl
  next i hfind =>
  simp only [bind_eq_some_iff] at h
  obtain ⟨a, ha, g₁, hdrop, h⟩ := h
  obtain ⟨groups, hdel, rfl⟩ := map_eq_some_iff.1 hdrop
  cases h
  rw [unmapAll_groupid] at hdel
  exact .head (.lift ha) (.single (.drop a hdel))

end MemorySetInner

end Ya2yOS.Mm
