import Ya2yOS.Mm.AreaEdit

/-!
# The memory calls and faults as edits of the vector of areas
-/

namespace Ya2yOS.Mm

open Lib List Option

variable {κ : AreaCtx}

/-! ### mmap -/

variable {g g' : Globals} {a a' : MapArea} {i : ℕ} {ok : Bool} {perm : MapPermission}

lemma newMmap_opens {first last : ℕ} {type : MapAreaType} {flags : MmapFlags} {file : MmapFile}
    (h : MapArea.newMmap g first last perm type flags file = some (a, g')) (hm : a.isMmapVma = true) :
    g.groups.Opens g'.groups a := by
  simp only [MapArea.newMmap, bind_eq_bind, bind_eq_some_iff] at h
  obtain ⟨r, -, h⟩ := h
  split_ifs at h with hs
  · cases h
    exact .inr ⟨hm, hs, rfl, rfl⟩
  · cases h
    exact .inl ⟨rfl, rfl⟩

lemma create_areaEdits {l : List MapArea} {m m' : GroupManager} (ha : κ.admits l a)
    (hg : m.Opens m' a) : AreaEdits κ ⟨l, [], m⟩ ⟨insertAreaSorted l a, [], m'⟩ :=
  .head (.create a ha hg) (insertAreaSorted_areaEdits l [] m' a)

lemma unmapAll_area (pt : PageTable) (a : MapArea) :
    (a.unmapAll pt).2 = { a with dataFrames := (a.unmapAll pt).2.dataFrames } :=
  (unmapPages_spec pt a a.vpnRange.start a.vpnRange.stop).area

lemma unmapAll_groupid (pt : PageTable) (a : MapArea) : (a.unmapAll pt).2.groupid = a.groupid := by
  rw [unmapAll_area]

variable {pt pt' : PageTable}

lemma mapHugeLoop_groups {vs : List ℕ}
    (h : a.mapHugeLoop g pt vs = some (ok, g', pt', a')) :
    a' = { a with dataFrames := a'.dataFrames } ∧ g'.groups = g.groups := by
  induction vs generalizing g pt a with
  | nil =>
    obtain ⟨-, rfl, -, rfl⟩ : _ ∧ g = g' ∧ _ ∧ a = a' := by simpa [MapArea.mapHugeLoop] using h
    exact ⟨rfl, rfl⟩
  | cons v vs ih =>
    unfold MapArea.mapHugeLoop at h
    split at h
    · obtain ⟨-, rfl, -, rfl⟩ := h
      exact ⟨unmapAll_area pt a, rfl⟩
    next base g₁ hb =>
    simp only [bind_eq_bind, bind_eq_some_iff] at h
    obtain ⟨pt₁, -, h⟩ := h
    obtain ⟨harea, hg⟩ := ih h
    unfold Globals.allocBlock at hb
    split at hb
    · simp at hb
    · cases hb
      unfold MapArea.insertBlock at harea
      exact ⟨harea, hg⟩

lemma mapHuge_groups (h : a.mapHuge g pt = some (ok, g', pt', a')) :
    a' = { a with dataFrames := a'.dataFrames } ∧ g'.groups = g.groups := by
  unfold MapArea.mapHuge at h
  split_ifs at h
  · cases h
    exact ⟨rfl, rfl⟩
  · exact mapHugeLoop_groups h

namespace MemorySetInner

variable {s s' : MemorySetInner} {g g' : Globals}

lemma table_of_layout {t : MemorySetInner} (h : t.layout = s.layout) : t.table g = s.table g := by
  rw [table, table, show t.areas = s.areas from congrArg Layout.areas h]

variable {perm : MapPermission} {flags : MmapFlags} {addr len r : ℕ}

end MemorySetInner

/-- The loop of `mprotect` over the areas: the parts are held until the loop is over. -/
lemma mprotectLoop_areaEdits {b e : ℕ} (hbe : b < e) (perm : MapPermission) (rest done u : List MapArea)
    (m : GroupManager) :
    AreaEdits κ ⟨done ++ rest, u, m⟩ ⟨done ++ (rest.map (mprotectArea b e perm)).map Prod.fst,
        u ++ (rest.map (mprotectArea b e perm)).flatMap Prod.snd,
        m.addAreas ((rest.map (mprotectArea b e perm)).flatMap Prod.snd)⟩ := by
  induction rest generalizing done u m with
  | nil =>
    simp only [map_nil, flatMap_nil, append_nil]
    exact .refl
  | cons a rest ih =>
    obtain ⟨hs, hp, -⟩ := mprotectArea_pieces hbe (rfl : mprotectArea b e perm a = (_, _))
    have hstep : AreaEdit κ ⟨done ++ a :: rest, u, m⟩
        ⟨done ++ (mprotectArea b e perm a).1 :: rest, u ++ (mprotectArea b e perm a).2,
          m.addAreas (mprotectArea b e perm a).2⟩ := by
      have hi : (done ++ a :: rest)[done.length]? = some a := by simp
      have := AreaEdit.carve (κ := κ) (u := u) (m := m) hi _ _ (fun q hq => (hs q hq).slice) hp
      rwa [set_append_right _ _ le_rfl, Nat.sub_self, set_cons_zero] at this
    have hnext := ih (done ++ [(mprotectArea b e perm a).1]) (u ++ (mprotectArea b e perm a).2)
      (m.addAreas (mprotectArea b e perm a).2)
    simp only [append_assoc, cons_append, nil_append] at hnext
    simp only [map_cons, flatMap_cons]
    rw [show m.addAreas ((mprotectArea b e perm a).2 ++ (rest.map (mprotectArea b e perm)).flatMap Prod.snd) =
      (m.addAreas (mprotectArea b e perm a).2).addAreas ((rest.map (mprotectArea b e perm)).flatMap Prod.snd) from
        foldl_append]
    exact .head hstep hnext

namespace MemorySetInner

variable {s s' : MemorySetInner} {g g' : Globals} {ret : SyscallRet} {c : ℕ}

lemma foldl_pushLazily_areaEdits (news : List MapArea) (s : MemorySetInner) (m : GroupManager) :
    AreaEdits κ ⟨s.areas, news, m⟩ ⟨(news.foldl pushLazily s).areas, [], m⟩ := by
  induction news generalizing s with
  | nil => exact .refl
  | cons a news ih => exact (insertAreaSorted_areaEdits s.areas news m a).trans (ih (s.pushLazily a))

lemma groups_foldl_addArea (l : List MapArea) (g : Globals) :
    (l.foldl (fun g a => g.addArea a.groupid) g).groups = g.groups.addAreas l := by
  induction l generalizing g with
  | nil => rfl
  | cons a l ih => exact ih (g.addArea a.groupid)

lemma mprotect_areaEdits {b e : ℕ} (h : s.mprotect g b e perm = (ret, s', g')) :
    AreaEdits κ (s.table g) (s'.table g') := by
  unfold mprotect at h
  split_ifs at h with hle hconf hseal
  · cases h
    exact .refl
  · cases h
    exact .refl
  · cases h
    exact .refl
  obtain ⟨-, hs⟩ := Prod.mk.inj h
  cases hs
  have hloop := mprotectLoop_areaEdits (κ := κ) (b := b) (e := e) (by omega) perm s.areas [] [] g.groups
  rw [table, table, groups_foldl_addArea]
  exact hloop.trans (foldl_pushLazily_areaEdits _
    { s with areas := (s.areas.map (mprotectArea b e perm)).map Prod.fst } _)

/-! ### mremap -/

lemma Cut.areaEdits {x y : MemorySetInner × Globals} (h : Cut x y) :
    AreaEdits κ (x.1.table x.2) (y.1.table y.2) := by
  obtain @⟨i, c, a, p, q, hi, -, -, hl, hh, hpq, hlay, hg⟩ := h
  have hlow : Slice (a.lowPart c hl.le) a := ⟨⟨rfl, rfl, rfl, rfl⟩, le_rfl, hh.le, fun _ => hl⟩
  have hhigh : Slice (a.highPart c hh.le) a := ⟨⟨rfl, rfl, rfl, rfl⟩, hl.le, le_rfl, fun _ => hh⟩
  have hparts : (∀ r ∈ [p, q], Slice r a) ∧ [p, q].Pairwise MapArea.Apart := by
    simp only [forall_mem_cons, not_mem_nil, false_imp_iff, implies_true, and_true, pairwise_pair]
    rcases hpq with ⟨rfl, rfl⟩ | ⟨rfl, rfl⟩
    · exact ⟨⟨hhigh, hlow⟩, .inr le_rfl⟩
    · exact ⟨⟨hlow, hhigh⟩, .inl le_rfl⟩
  rw [table, table, hg, show y.1.areas = _ from congrArg Layout.areas hlay]
  exact .head (.carve hi p [q] hparts.1 hparts.2) (.single (.place _))

end MemorySetInner

lemma mapOne_groups {v : ℕ} {ppn : Option ℕ} (h : a.mapOne g pt v = some (ppn, g', pt', a')) :
    a' = { a with dataFrames := a'.dataFrames } ∧ g'.groups = g.groups := by
  obtain ⟨-, rfl, -, rfl⟩ | ⟨frame, pages, mem, -, -, rfl, -, rfl⟩ := mapOne_cases h
  · exact ⟨rfl, rfl⟩
  · exact ⟨rfl, rfl⟩

namespace MemorySetInner

variable {s s' : MemorySetInner} {g g' : Globals} {ret : SyscallRet} {oldStart : ℕ} {source : MapArea}

lemma copyLoop_groups {new new' : MapArea} {newStart : ℕ} {ks : List ℕ} {pt pt' : PageTable}
    {err : Option SysErrNo} (h : s.copyLoop source oldStart newStart ks g pt new = some (err, g', pt', new')) :
    new' = { new with dataFrames := new'.dataFrames } ∧ g'.groups = g.groups := by
  induction ks generalizing g pt new with
  | nil =>
    obtain ⟨-, rfl, -, rfl⟩ : _ ∧ g = g' ∧ _ ∧ new = new' := by simpa [copyLoop] using h
    exact ⟨rfl, rfl⟩
  | cons k ks ih =>
    unfold copyLoop at h
    split at h
    · exact ih h
    split at h
    · obtain ⟨-, rfl, -, rfl⟩ := h
      exact ⟨unmapAll_area pt new, rfl⟩
    simp only [bind_eq_bind, bind_eq_some_iff, Prod.exists] at h
    obtain ⟨ppn, g₁, pt₁, new₁, hmap, h⟩ := h
    obtain ⟨harea, hgroups⟩ := mapOne_groups hmap
    cases ppn with
    | none =>
      obtain ⟨-, rfl, -, rfl⟩ := h
      refine ⟨?_, hgroups⟩
      rw [unmapAll_area, harea]
    | some dst =>
      obtain ⟨harea', hgroups'⟩ := ih h
      refine ⟨?_, hgroups'.trans hgroups⟩
      rw [harea', harea]

lemma moveTo_areaEdits {oldEnd dest newLen newTotal : ℕ}
    (hsrc : s.areas[i]? = some source)
    (hadm : ∀ r : VPNRange, r.start = floorVpn dest → r.stop = ceilVpn (dest + newLen) →
      κ.admits s.areas (movedArea source r))
    (h : s.moveTo g i oldStart oldEnd dest newLen newTotal = some (ret, s', g')) :
    AreaEdits κ (s.table g) (s'.table g') := by
  rcases moveTo_cases hsrc h with ⟨rfl, rfl⟩ | ⟨r, err, g₂, pt, new, hr1, hr2, hcopy, hend⟩
  · exact .refl
  obtain ⟨harea, hgroups⟩ := copyLoop_groups hcopy
  have hnew : AreaEdits κ (s.table g) ⟨s.areas, [new], g₂.groups⟩ := by
    rw [harea, hgroups]
    exact .head (.adopt (movedArea source r) source (mem_of_getElem? hsrc) ⟨rfl, rfl, rfl, rfl⟩
      (hadm r hr1 hr2)) (.single (.fill _ _))
  rcases hend with ⟨-, hlay, hdrop⟩ | ⟨-, hlay, hdrop⟩
  · obtain ⟨groups, hdel, rfl⟩ := map_eq_some_iff.1 hdrop
    have hareas : s'.areas = s.areas := congrArg Layout.areas hlay
    rw [show s'.table { g₂ with groups := groups } = ⟨s.areas, [], groups⟩ by rw [table, hareas]]
    exact hnew.tail (.drop new hdel)
  · obtain ⟨groups, hdel, rfl⟩ := map_eq_some_iff.1 hdrop
    have hareas : s'.areas = insertAreaSorted (s.areas.eraseIdx i) new := congrArg Layout.areas hlay
    rw [unmapAll_groupid] at hdel
    rw [show s'.table { g₂ with groups := groups } = ⟨insertAreaSorted (s.areas.eraseIdx i) new, [], groups⟩ by
      rw [table, hareas]]
    exact (hnew.tail (.lift hsrc)).tail (.drop source hdel) |>.trans (insertAreaSorted_areaEdits _ [] _ new)

/-- The removals inside a call of `mremap` leave no hole in an area of a group. -/
def RemapHoleFree (s : MemorySetInner) (g : Globals) (oldAddr oldLen newLen newAddr : ℕ) (fixed : Bool) : Prop :=
  ∀ i t k j, s.mremapSource (floorVpn oldAddr) (ceilVpn (oldAddr + oldLen)) = some i →
    s.isolate g i (floorVpn oldAddr) (ceilVpn (oldAddr + oldLen)) = some (t, k, j) →
    (fixed = true → HoleFree t.areas (floorVpn newAddr) (ceilVpn (newAddr + newLen))) ∧
    (newLen < (ceilVpn (oldAddr + oldLen) - floorVpn oldAddr) * pageSize →
      HoleFree t.areas (floorVpn (oldAddr + newLen)) (ceilVpn (oldAddr + newLen +
        ((ceilVpn (oldAddr + oldLen) - floorVpn oldAddr) * pageSize - newLen))))

end MemorySetInner

open MemorySetInner in
lemma CallStep.areaEdits {x y : MemorySetInner × Globals}
    (h : CallStep κ.admits (fun l addr len => κ.silent ∨ HoleFree l (floorVpn addr) (ceilVpn (addr + len))) x y) :
    AreaEdits κ (x.1.table x.2) (y.1.table y.2) := by
  obtain ⟨s, g⟩ := x
  obtain ⟨s', g'⟩ := y
  cases h with
  | keep h hg =>
    cases hg
    rw [table_of_layout h]
  | room hc hw h => exact clearFixed_areaEdits hc h
  | clear hc h => exact munmap_areaEdits hc h
  | cut h => exact h.areaEdits
  | @create _ _ _ _ _ _ a hnew hi hm h =>
    have hareas : s'.areas = insertAreaSorted s.areas a := congrArg Layout.areas h
    rw [table, table, hareas]
    exact create_areaEdits hi (newMmap_opens hnew hm)
  | @huge g₁ g₂ _ _ _ _ _ a a' ok pt hnew hi ha hmap hend =>
    obtain ⟨harea, hgroups⟩ := mapHuge_groups hmap
    have hbuilt : AreaEdits κ (s.table g) ⟨s.areas, [a'], g₂.groups⟩ := by
      rw [hgroups, harea]
      exact .head (.create a hi (newMmap_opens hnew ha.2)) (.single (.fill a _))
    rcases hend with ⟨-, hlay, hdrop⟩ | ⟨-, hlay, hg⟩
    · have hareas : s'.areas = s.areas := congrArg Layout.areas hlay
      obtain ⟨groups, hdel, rfl⟩ := map_eq_some_iff.1 hdrop
      rw [unmapAll_groupid] at hdel
      rw [table, table, hareas]
      exact hbuilt.tail (.drop a' hdel)
    · have hareas : s'.areas = insertAreaSorted s.areas a' := congrArg Layout.areas hlay
      cases hg
      rw [table, table, hareas]
      exact hbuilt.trans (insertAreaSorted_areaEdits _ [] _ a')
  | move hsrc hu hi h => exact moveTo_areaEdits hsrc hi h
  | @grow i p r hp hmov hstart hstop hb hfree h hg =>
    have hareas : s'.areas = s.areas.set i { p with vpnRange := r } := congrArg Layout.areas h
    cases hg
    rw [table, table, hareas]
    exact .single (.widen hp r hstart.le hstop fun b hb => ⟨fun hr => by omega, fun _ => hfree b hb⟩)

lemma CallSteps.areaEdits {x y : MemorySetInner × Globals}
    (h : CallSteps κ.admits (fun l addr len => κ.silent ∨ HoleFree l (floorVpn addr) (ceilVpn (addr + len))) x y) :
    AreaEdits κ (x.1.table x.2) (y.1.table y.2) := by
  induction h with
  | refl => exact .refl
  | tail _ h ih => exact ih.trans h.areaEdits

end Ya2yOS.Mm
