import Ya2yOS.Mm.EditMap

/-!
# Page faults as edits

A fault that is repaired maps one page, takes over a frame, or copies it; one that is not leaves
everything as it was.
-/

namespace Ya2yOS.Mm

open Lib PageTable Option RVPTEFlags

variable {κ : EditCtx} {a : MapArea} {b : MmapBacking} {frame i : ℕ} {l : List MapArea}

/-- What the handler of a page that is not present did: nothing; or the page maps a frame that
something holds, or the one that is next in the stock, which its group may hold from then on. -/
inductive Repair (prepared : Option FilePage) (v : ℕ) (g : Globals) (pt : PageTable) (a : MapArea) :
    Bool → Globals → PageTable → MapArea → Prop
  | none : Repair prepared v g pt a false g pt a
  | shared {g' : Globals} {pt' : PageTable} {frame : ℕ}
      (hs : g' = g ∧ (frame ∈ g.heldFrames ∨ ∃ q ∈ prepared, q.frame = frame) ∨
        ∃ b index, sharedPage g b index = some (frame, g'))
      (hm : pt.Adds pt' .page v ⟨frame, mmapFaultFlags a.mapPerm a.mmapFlags.shared⟩) :
      Repair prepared v g pt a true g' pt' (a.insertFrame v frame)
  | fresh {pt' : PageTable} {frame : ℕ} {pages : List ℕ} {mem : ℕ → ℕ → UInt8} {flags : RVPTEFlags}
      (hp : g.pages = frame :: pages) (hm : pt.Adds pt' .page v ⟨frame, flags⟩)
      (hf : flags = ofPerm a.mapPerm ∨
        flags = (mmapFaultFlags a.mapPerm a.mmapFlags.shared).union (ofPerm a.mapPerm)) :
      Repair prepared v g pt a true { g with pages := pages, mem := mem } pt' (a.insertFrame v frame)
  | publish {g' : Globals} {pt' : PageTable} {a' : MapArea} {frame : ℕ} {groups : GroupManager}
      (h : Repair prepared v g pt a true g' pt' a') (hz : a'.groupid ≠ 0) (hf : a'.dataFrames.get? v = some frame)
      (hadd : g'.groups.addFrame a'.groupid v frame = some groups) :
      Repair prepared v g pt a true { g' with groups := groups } pt' a'

lemma mmapFaultFlags_valid (p : MapPermission) (shared : Bool) : (mmapFaultFlags p shared).valid = true := by
  unfold mmapFaultFlags toCow
  cases shared <;> dsimp only <;> split_ifs <;> rfl

lemma adds_of_map_union {pt pt₁ pt' : PageTable} {v : ℕ} {p : MapPermission} {shared : Bool}
    (h1 : pt.Adds pt₁ .page v ⟨frame, ofPerm p⟩) (h2 : pt₁.handleMmapWritePageFault v p shared = some pt') :
    pt.Adds pt' .page v ⟨frame, (mmapFaultFlags p shared).union (ofPerm p)⟩ := by
  unfold handleMmapWritePageFault at h2
  split_ifs at h2
  cases h2
  refine ⟨h1.1, fun w => ?_⟩
  have hv : pt₁.findPte v = some (.page, ⟨frame, ofPerm p⟩) := by
    rw [h1.2 v, if_pos (PageTable.SameEntry.refl _ _)]
  by_cases hw : PageTable.SameEntry .page w v
  · rw [if_pos hw, findPte_updateFlags hv hw]
  · rw [if_neg hw, findPte_updateFlags_of_not, h1.2 w, if_neg hw]
    intro lvl q hq
    rw [hv, some.injEq, Prod.mk.injEq] at hq
    exact hq.1 ▸ hw

variable {a a' : MapArea} {g g' : Globals} {ok : Bool} {pt pt' : PageTable} {v : ℕ} {prepared : Option FilePage}

lemma Repair.of_eq (h : some (false, g, pt, a) = some (ok, g', pt', a')) : Repair prepared v g pt a ok g' pt' a' := by
  cases h
  exact .none

lemma Repair.failed (h : Repair prepared v g pt a false g' pt' a') : g' = g ∧ pt' = pt ∧ a' = a := by
  cases h
  exact ⟨rfl, rfl, rfl⟩

lemma installShared_repair {g₁ : Globals}
    (hs : g₁ = g ∧ (frame ∈ g.heldFrames ∨ ∃ q ∈ prepared, q.frame = frame) ∨
      ∃ b index, sharedPage g b index = some (frame, g₁))
    (h : installShared g₁ pt a v frame = some (ok, g', pt', a')) : Repair prepared v g pt a ok g' pt' a' := by
  simp only [installShared, bind_eq_bind, bind_eq_some_iff] at h
  obtain ⟨pt₁, hmap, h⟩ := h
  cases h
  exact .shared hs (adds_mapByPteFlags (mmapFaultFlags_valid _ _) hmap)

lemma mapFilePage_repair (h : mapFilePage g pt a v prepared = some (ok, g', pt', a')) :
    Repair prepared v g pt a ok g' pt' a' := by
  unfold mapFilePage at h
  split at h
  · exact .of_eq h
  next page hpage =>
  refine installShared_repair (.inl ⟨rfl, ?_⟩) h
  simp only [filePageForFault, bind_eq_bind, bind_eq_some_iff] at hpage
  obtain ⟨file, -, index, -, hpage⟩ := hpage
  split at hpage
  · next q hq =>
    cases hpage
    exact .inr ⟨page, (filter_eq_some_iff.1 hq).1, rfl⟩
  · exact .inl (.inl ⟨page, List.mem_of_find?_eq_some hpage, rfl⟩)

lemma mapSpecialSharedPage_repair
    (h : mapSpecialSharedPage g pt a b v = some (ok, g', pt', a')) : Repair prepared v g pt a ok g' pt' a' := by
  unfold mapSpecialSharedPage at h
  split at h
  · exact .of_eq h
  split at h
  · exact .of_eq h
  · next frame g₁ hs => exact installShared_repair (.inr ⟨_, _, hs⟩) h

lemma mapSpecialPrivatePage_repair
    (h : mapSpecialPrivatePage g pt a b v = some (ok, g', pt', a')) : Repair prepared v g pt a ok g' pt' a' := by
  unfold mapSpecialPrivatePage at h
  split at h
  · exact .of_eq h
  split at h
  · exact .of_eq h
  next frame g₁ hal =>
  obtain ⟨pages, mem, hp, rfl⟩ := Globals.alloc_eq_some hal
  simp only [bind_eq_bind, bind_eq_some_iff] at h
  obtain ⟨pt₁, hmap, pt₂, hw, h⟩ := h
  cases h
  exact .fresh hp (adds_of_map_union (adds_mapByPteFlags rfl hmap) hw) (.inr rfl)

lemma mapOwnPage_repair {page : Option FilePage} (h : mapOwnPage g pt a v page = some (ok, g', pt', a')) :
    Repair prepared v g pt a ok g' pt' a' := by
  simp only [mapOwnPage, bind_eq_bind, bind_eq_some_iff, Prod.exists] at h
  obtain ⟨ppn, g₁, pt₁, a₁, hone, h⟩ := h
  obtain ⟨rfl, rfl, rfl, rfl⟩ | ⟨frame, pages, mem, hp, rfl, rfl, hm, rfl⟩ := mapOne_cases hone
  · exact .of_eq h
  simp only [bind_eq_some_iff] at h
  obtain ⟨pt₂, hw, h⟩ := h
  cases h
  cases page with
  | none | some p => exact .fresh hp (adds_of_map_union hm hw) (.inr rfl)

lemma mmapWritePageFault_repair (h : mmapWritePageFault g pt a v prepared = some (ok, g', pt', a')) :
    Repair prepared v g pt a ok g' pt' a' := by
  unfold mmapWritePageFault at h
  split at h
  · split_ifs at h
    · exact mapSpecialSharedPage_repair h
    · exact mapSpecialPrivatePage_repair h
  · split at h
    · exact .of_eq h
    · split_ifs at h
      · exact mapFilePage_repair h
      · exact mapOwnPage_repair h
  · exact mapOwnPage_repair h

lemma lazyPageFault_repair (h : lazyPageFault g pt a v = some (ok, g', pt', a')) :
    Repair prepared v g pt a ok g' pt' a' := by
  simp only [lazyPageFault, bind_eq_bind, bind_eq_some_iff, Prod.exists] at h
  obtain ⟨ppn, g₁, pt₁, a₁, hone, h⟩ := h
  cases h
  obtain ⟨rfl, rfl, rfl, rfl⟩ | ⟨frame, pages, mem, hp, rfl, rfl, hm, rfl⟩ := mapOne_cases hone
  · exact .none
  · exact .fresh hp hm (.inl rfl)

lemma publishFrame_repair {r : FaultResult}
    (hr : ∀ {ok g' pt' a'}, r = some (ok, g', pt', a') → Repair prepared v g pt a ok g' pt' a')
    (h : publishFrame r v = some (ok, g', pt', a')) : Repair prepared v g pt a ok g' pt' a' := by
  simp only [publishFrame, bind_eq_bind, bind_eq_some_iff, Prod.exists] at h
  obtain ⟨ok₁, g₁, pt₁, a₁, h1, h⟩ := h
  split at h
  · cases h
    exact hr h1
  next hc =>
  simp only [not_or, Bool.not_eq_true', Bool.not_eq_false] at hc
  simp only [bind_eq_some_iff] at h
  obtain ⟨frame, hf, groups, hadd, h⟩ := h
  cases h
  exact .publish (hr (hc.1 ▸ h1)) hc.2 hf hadd

lemma mmapReadPageFault_repair (h : mmapReadPageFault g pt a v prepared = some (ok, g', pt', a')) :
    Repair prepared v g pt a ok g' pt' a' := by
  simp only [mmapReadPageFault, bind_eq_bind, bind_eq_some_iff] at h
  obtain ⟨found, hfind, h⟩ := h
  cases found with
  | some frame =>
    refine installShared_repair (.inl ⟨rfl, .inl (.inr (.inl ?_))⟩) h
    unfold GroupManager.find at hfind
    split_ifs at hfind
    · simp at hfind
    split at hfind
    · simp at hfind
    · next grp hgrp => exact ⟨_, grp, v, hgrp, some.inj hfind⟩
  | none =>
    dsimp only at h
    split at h
    · split_ifs at h
      · exact mapSpecialSharedPage_repair h
      · exact mapSpecialPrivatePage_repair h
    obtain ⟨⟨ok₁, g₁, pt₁, a₁⟩, hm, hr⟩ := bind_eq_some_iff.1 h
    have hfile := mapFilePage_repair hm
    dsimp only at hr
    split_ifs at hr with hok
    · cases hr
      exact hok ▸ hfile
    · -- no file page was there, so the write path runs on the state as it was
      rw [Bool.not_eq_true] at hok
      obtain ⟨rfl, rfl, rfl⟩ := (hok ▸ hfile).failed
      exact publishFrame_repair (fun hw => mmapWritePageFault_repair hw) hr

lemma mmapNotPresentFault_repair {cause : FaultCause}
    (h : mmapNotPresentFault g pt a v cause prepared = some (ok, g', pt', a')) :
    Repair prepared v g pt a ok g' pt' a' := by
  cases cause with
  | load | fetch =>
    simp only [mmapNotPresentFault] at h
    split_ifs at h
    · exact mmapReadPageFault_repair h
    · exact .of_eq h
  | privilege =>
    simp only [mmapNotPresentFault] at h
    split_ifs at h
    · exact mmapReadPageFault_repair h
    · exact mmapWritePageFault_repair h
    · exact .of_eq h
  | store =>
    simp only [mmapNotPresentFault] at h
    split_ifs at h
    · exact mmapWritePageFault_repair h
    · exact .of_eq h

namespace Repair

/-- A repair does not look at the range, so growing the area before the page is mapped comes to the
same as growing it after. -/
lemma withRange (r : VPNRange) (h : Repair prepared v g pt a ok g' pt' a') :
    Repair prepared v g pt { a with vpnRange := r } ok g' pt' { a' with vpnRange := r } := by
  induction h with
  | none => exact .none
  | shared hs hm => exact .shared hs hm
  | fresh hp hm hf => exact .fresh hp hm hf
  | publish h hz hf hadd ih => exact .publish ih hz hf hadd

lemma area (h : Repair prepared v g pt a ok g' pt' a') : a' = { a with dataFrames := a'.dataFrames } := by
  induction h with
  | none | shared | fresh => rfl
  | publish h hz hf hadd ih => exact ih

end Repair

variable {held : Set ℕ}

lemma sharedPage_edits {index : ℕ} (L : Layout)
    (hH : g.heldFrames ⊆ held) (h : sharedPage g b index = some (frame, g')) :
    ∃ held', held ⊆ held' ∧ g'.heldFrames ⊆ held' ∧ frame ∈ held' ∧ Edits κ ⟨L, g.stock held⟩ ⟨L, g'.stock held'⟩ := by
  unfold sharedPage at h
  split_ifs at h
  split at h
  · next f hf =>
    cases h
    exact ⟨held, subset_rfl, hH, hH (.inr (.inr ⟨_, _, hf⟩)), .refl⟩
  simp only [bind_eq_bind, bind_eq_some_iff, Prod.exists] at h
  obtain ⟨f, g₁, hal, h⟩ := h
  obtain ⟨pages, mem, hp, rfl⟩ := Globals.alloc_eq_some hal
  cases h
  refine ⟨insert frame held, Set.subset_insert _ _, ?_, Set.mem_insert _ _,
    .single (.take L (g.stock held) _ frame ⟨pages, hp, rfl⟩)⟩
  rintro x (hx | hx | ⟨m, i, hx⟩)
  · exact .inr (hH (.inl hx))
  · exact .inr (hH (.inr (.inl hx)))
  -- only the entry of this page is new
  simp only [Globals.loadPage, Function.update_apply] at hx
  split_ifs at hx with hm
  · simp only [Function.update_apply] at hx
    split_ifs at hx
    · exact .inl (some.inj hx).symm
    · exact .inr (hH (.inr (.inr ⟨_, _, hx⟩)))
  · exact .inr (hH (.inr (.inr ⟨_, _, hx⟩)))

lemma heldFrames_addFrame {groups : GroupManager} {id : ℕ} (hH : g.heldFrames ⊆ held)
    (h : g.groups.addFrame id v frame = some groups) :
    { g with groups := groups }.heldFrames ⊆ insert frame held := by
  unfold GroupManager.addFrame at h
  split at h
  · simp at h
  next grp hgrp =>
  cases h
  rintro x (hx | ⟨id, grp', w, hid, hx⟩ | hx)
  · exact .inr (hH (.inl hx))
  · rw [OrdMap.get?_insert] at hid
    split_ifs at hid with he
    · cases hid
      rw [OrdMap.get?_insert] at hx
      split_ifs at hx
      · exact .inl (some.inj hx).symm
      · exact .inr (hH (.inr (.inl ⟨_, _, _, hgrp, hx⟩)))
    · exact .inr (hH (.inr (.inl ⟨_, _, _, hid, hx⟩)))
  · exact .inr (hH (.inr (.inr hx)))

/-- The edits of a repair, with the frames `held` at the start. -/
lemma Repair.edits (h : Repair prepared v g pt a ok g' pt' a') (rest : List MapArea) (hH : g.heldFrames ⊆ held)
    (hp : ∀ q ∈ prepared, q.frame ∈ held) (hu : a.isUser = true) (hv : v ∈ a.vpnRange) :
    ∃ held', held ⊆ held' ∧ g'.heldFrames ⊆ held' ∧
      Edits κ ⟨⟨pt, a :: rest⟩, g.stock held⟩ ⟨⟨pt', a' :: rest⟩, g'.stock held'⟩ := by
  induction h with
  | none => exact ⟨held, subset_rfl, hH, .refl⟩
  | @shared g' pt' frame hs hm =>
    obtain ⟨held', hle, hH', hf, he⟩ : ∃ held', held ⊆ held' ∧ g'.heldFrames ⊆ held' ∧ frame ∈ held' ∧
        Edits κ ⟨⟨pt, a :: rest⟩, g.stock held⟩ ⟨⟨pt, a :: rest⟩, g'.stock held'⟩ := by
      rcases hs with ⟨rfl, hf⟩ | ⟨b, index, hs⟩
      · refine ⟨held, subset_rfl, hH, ?_, .refl⟩
        rcases hf with hf | ⟨q, hq, rfl⟩
        · exact hH hf
        · exact hp q hq
      · exact sharedPage_edits _ hH hs
    exact ⟨held', hle, hH', he.tail (.mapPage pt pt' a rest v frame _ _ _ hu hv hm (.inr ⟨hf, rfl, rfl⟩))⟩
  | @fresh pt' frame pages mem flags hpages hm hf =>
    exact ⟨held, subset_rfl, hH, .single (.mapPage pt pt' a rest v frame flags (g.stock held) _ hu hv hm
      (.inl ⟨⟨pages, hpages, rfl⟩, hf⟩))⟩
  | @publish g' pt' a' frame groups h hz hf hadd ih =>
    obtain ⟨held', hle, hH', he⟩ := ih
    exact ⟨insert frame held', hle.trans (Set.subset_insert _ _), heldFrames_addFrame hH' hadd,
      he.tail (.publish pt' a' rest v frame _ hz hf)⟩

/-! ### Faults of an address space -/

lemma Edits.at_set {b : MapArea} {k k' : Stock} (h : l[i]? = some a)
    (he : Edits κ ⟨⟨pt, a :: l.eraseIdx i⟩, k⟩ ⟨⟨pt', b :: l.eraseIdx i⟩, k'⟩) :
    Edits κ ⟨⟨pt, l⟩, k⟩ ⟨⟨pt', l.set i b⟩, k'⟩ :=
  .tail (.head (.trim k (.relist _ (perm_of_getElem? h))) he) (.trim k' (.relist _ (set_perm h b).symm))

lemma writeProtectPageFault_edit {strongCount : ℕ → ℕ} (rest : List MapArea) (held : Set ℕ)
    (hsole : ∀ f, strongCount f = 1 → κ.sole f) (hu : a.isUser = true) (hv : v ∈ a.vpnRange)
    (h : writeProtectPageFault strongCount g pt a v = (ok, g', pt', a')) : ((g' = g ∧ pt' = pt ∧ a' = a) ∨
      Edit κ ⟨⟨pt, a :: rest⟩, g.stock held⟩ ⟨⟨pt', a' :: rest⟩, g'.stock held⟩) ∧
      g'.heldFrames = g.heldFrames ∧ a' = { a with dataFrames := a'.dataFrames } ∧ g'.groups = g.groups := by
  unfold writeProtectPageFault at h
  split at h
  · cases h
    exact ⟨.inl ⟨rfl, rfl, rfl⟩, rfl, rfl, rfl⟩
  next lvl p hp =>
  split at h
  · split at h
    · next hw =>
      cases h
      exact ⟨.inr (.dirty pt a rest v lvl p _ hu hv hp hw), rfl, rfl, rfl⟩
    · cases h
      exact ⟨.inl ⟨rfl, rfl, rfl⟩, rfl, rfl, rfl⟩
  next hcow =>
  have hc : p.flags.cow = true := by simpa using hcow
  dsimp only at h
  split at h
  · next hone =>
    cases h
    cases ht : a.dataFrames.get? v with
    | none => simp [ht] at hone
    | some frame =>
      have hs : strongCount frame = 1 := by simpa [ht] using hone
      exact ⟨.inr (.own pt a rest v frame lvl p _ hu hv hp hc ht (hsole frame hs)), rfl, rfl, rfl⟩
  · split at h
    · cases h
      exact ⟨.inl ⟨rfl, rfl, rfl⟩, rfl, rfl, rfl⟩
    split at h
    · cases h
      exact ⟨.inl ⟨rfl, rfl, rfl⟩, rfl, rfl, rfl⟩
    next frame g₁ hal =>
    obtain ⟨pages, mem, hpages, rfl⟩ := Globals.alloc_eq_some hal
    cases h
    exact ⟨.inr (.copy pt _ a rest v frame lvl p _ _ hu hv hp hc ⟨pages, hpages, rfl⟩
      fun w => findPte_setPte hp), rfl, rfl, rfl⟩

lemma set_same (h : l[i]? = some a) : l.set i a = l := by
  obtain ⟨hi, rfl⟩ := List.getElem?_eq_some_iff.1 h
  exact List.set_getElem_self hi

namespace MemorySetInner

structure FaultSpec (κ : EditCtx) (held : Set ℕ) (s : MemorySetInner) (g : Globals) (ok : Bool)
    (s' : MemorySetInner) (g' : Globals) : Prop where
  edits : ∃ held', held ⊆ held' ∧ g'.heldFrames ⊆ held' ∧
    Edits κ ⟨s.layout, g.stock held⟩ ⟨s'.layout, g'.stock held'⟩
  failed : ok = false → g' = g ∧ s'.layout = s.layout

lemma FaultSpec.refl {held : Set ℕ} {g : Globals} (s : MemorySetInner) (hH : g.heldFrames ⊆ held) (ok : Bool) :
    FaultSpec κ held s g ok s g :=
  ⟨⟨held, subset_rfl, hH, .refl⟩, fun _ => ⟨rfl, rfl⟩⟩

lemma lowestArea_spec {p : MapArea → Bool} (h : lowestArea p l = some (i, a)) : l[i]? = some a ∧ p a = true := by
  induction l generalizing i a with
  | nil => simp [lowestArea] at h
  | cons b l ih =>
    unfold lowestArea at h
    split at h
    · split_ifs at h with hb
      cases h
      exact ⟨rfl, hb⟩
    next j c hj =>
    split_ifs at h with hb
    · cases h
      exact ⟨rfl, hb.1⟩
    · cases h
      exact ⟨(ih hj).1, (ih hj).2⟩

section

variable {s s' : MemorySetInner} {g g' : Globals} {v : ℕ} {cause : FaultCause}
  {prepared : Option FilePage} {ok : Bool} {held : Set ℕ}

lemma growdownFault_cases (h : s.growdownFault g v cause prepared = some (ok, s', g')) :
    (ok = false ∧ s' = s ∧ g' = g) ∨ ∃ i a a' pt' r, s.areas[i]? = some a ∧ a.isMmapVma = true ∧ r.start = v ∧
      v < a.vpnRange.start ∧ r.stop = a.vpnRange.stop ∧
      (∀ b ∈ s.areas.eraseIdx i, ¬ b.overlaps v a.vpnRange.start) ∧ s' = s.putArea i pt' a' ∧
      Repair prepared v g s.pageTable { a with vpnRange := r } ok g' pt' a' ∧ ok = true := by
  have hstay : some (false, s, g) = some (ok, s', g') → ok = false ∧ s' = s ∧ g' = g := by
    intro hs
    cases hs
    exact ⟨rfl, rfl, rfl⟩
  unfold growdownFault at h
  split at h
  · exact .inl (hstay h)
  split at h
  · exact .inl (hstay h)
  next i a hlow =>
  obtain ⟨hi, hgrow⟩ := lowestArea_spec hlow
  simp only [growsDownTo, Bool.and_eq_true, decide_eq_true_eq] at hgrow
  obtain ⟨⟨⟨⟨htype, -⟩, -⟩, -⟩, hbelow⟩ := hgrow
  dsimp only at h
  split at h
  · exact .inl (hstay h)
  next hfree =>
  split at h
  · exact .inl (hstay h)
  simp only [bind_eq_bind, bind_eq_some_iff, Prod.exists] at h
  obtain ⟨ok₁, g₁, pt₁, a₁, hfault, h⟩ := h
  have hrep := mmapNotPresentFault_repair hfault
  split at h
  · next hbad =>
    cases h
    rw [Bool.not_eq_true'] at hbad
    obtain ⟨rfl, rfl, rfl⟩ := (hbad ▸ hrep).failed
    exact .inl ⟨rfl, by simp only [putArea, set_same hi], rfl⟩
  · next hgood =>
    simp only [bind_eq_some_iff] at h
    obtain ⟨r, hr, h⟩ := h
    cases h
    obtain ⟨h1, h2⟩ := VPNRange.new?_eq_some.1 hr
    have hok : ok₁ = true := by simpa using hgood
    have hstop : a₁.vpnRange.stop = a.vpnRange.stop := by rw [hrep.area]
    refine .inr ⟨i, a, _, pt₁, r, hi, by simp [MapArea.isMmapVma, htype], h1, hbelow, h2.trans hstop,
      fun b hb hov => ?_, rfl,
      (hok ▸ hrep).withRange r, rfl⟩
    exact hfree (List.any_eq_true.2 ⟨b, hb, decide_eq_true hov⟩)

lemma handleNotPresentPageFault_cases (h : s.handleNotPresentPageFault g v cause prepared = some (ok, s', g')) :
    (ok = false ∧ s' = s ∧ g' = g) ∨ ∃ i a a' pt' r, s.areas[i]? = some a ∧ a.isUser = true ∧ v ∈ r ∧
      (r = a.vpnRange ∨ a.isMmapVma = true ∧ r.start < a.vpnRange.start ∧ r.stop = a.vpnRange.stop ∧
        (∀ b ∈ s.areas.eraseIdx i, ¬ b.overlaps r.start a.vpnRange.start) ∧ ok = true) ∧
      s' = s.putArea i pt' a' ∧ Repair prepared v g s.pageTable { a with vpnRange := r } ok g' pt' a' := by
  unfold handleNotPresentPageFault at h
  split at h
  · cases h
    exact .inl ⟨rfl, rfl, rfl⟩
  split at h
  · next i hfind =>
    simp only [bind_eq_bind, bind_eq_some_iff, Prod.exists] at h
    obtain ⟨a, ha, ok₁, g₁, pt₁, a₁, hfault, h⟩ := h
    cases h
    have hsel := selected hfind ha
    simp only [Bool.and_eq_true, decide_eq_true_eq] at hsel
    exact .inr ⟨i, a, a₁, pt₁, a.vpnRange, ha, by simp [MapArea.isUser, hsel.1], hsel.2, .inl rfl, rfl,
      mmapNotPresentFault_repair hfault⟩
  split at h
  · next i hfind =>
    simp only [bind_eq_bind, bind_eq_some_iff] at h
    obtain ⟨a, ha, h⟩ := h
    split at h
    · simp only [bind_eq_some_iff, Prod.exists] at h
      obtain ⟨ok₁, g₁, pt₁, a₁, hfault, h⟩ := h
      cases h
      have hsel := selected hfind ha
      simp only [Bool.and_eq_true, Bool.or_eq_true, decide_eq_true_eq] at hsel
      have hu : a.isUser = true := by
        rcases hsel.1 with (ht | ht) | ht <;> simp [MapArea.isUser, ht]
      exact .inr ⟨i, a, a₁, pt₁, a.vpnRange, ha, hu, hsel.2, .inl rfl, rfl, lazyPageFault_repair hfault⟩
    · cases h
      exact .inl ⟨rfl, rfl, rfl⟩
  · rcases growdownFault_cases h with hs | ⟨i, a, a', pt', r, hi, hmm, rfl, hlt, hstop, hfree, hput, hrep, hok⟩
    · exact .inl hs
    · have hle := a.vpnRange.le
      exact .inr ⟨i, a, a', pt', r, hi, MapArea.isUser_of_isMmapVma hmm, ⟨le_rfl, by omega⟩,
        .inr ⟨hmm, hlt, hstop, hfree, hok⟩, hput, hrep⟩

lemma handleNotPresentPageFault_edits (hH : g.heldFrames ⊆ held) (hp : ∀ q ∈ prepared, q.frame ∈ held)
    (h : s.handleNotPresentPageFault g v cause prepared = some (ok, s', g')) : FaultSpec κ held s g ok s' g' := by
  rcases handleNotPresentPageFault_cases h with ⟨rfl, rfl, rfl⟩ | ⟨i, a, a', pt', r, hi, hu, hv, hr, rfl, hrep⟩
  · exact .refl _ hH _
  obtain ⟨held', hle, hH', he⟩ := hrep.edits (s.areas.eraseIdx i) hH hp hu hv
  rcases hr with rfl | ⟨hmm, hlt, hstop, hfree, rfl⟩
  · refine ⟨⟨held', hle, hH', Edits.at_set hi he⟩, fun hok => ?_⟩
    obtain ⟨rfl, rfl, rfl⟩ := (hok ▸ hrep).failed
    exact ⟨rfl, by simp only [layout, putArea, set_same hi]⟩
  · refine ⟨⟨held', hle, hH', Edits.at_set hi (.head ?_ he)⟩, by simp⟩
    refine .grow s.pageTable a _ r _ (.inl hmm) hlt.le hstop.ge (by omega) fun b hb w hw hnw hwb => hfree b hb ?_
    refine VPNRange.overlaps_of_mem hwb hw.1 (Nat.lt_of_not_le fun hge => hnw ⟨hge, ?_⟩)
    exact hstop ▸ hw.2

variable {strongCount : ℕ → ℕ}

lemma handleWriteProtectPageFault_cases (h : s.handleWriteProtectPageFault strongCount g v cause = some (ok, s', g')) :
    g'.heldFrames = g.heldFrames ∧ ((g' = g ∧ s'.layout = s.layout) ∨ ∃ i a a' pt',
      s.areas[i]? = some a ∧ s'.layout = ⟨pt', s.areas.set i a'⟩ ∧ a' = { a with dataFrames := a'.dataFrames } ∧
      g'.groups = g.groups ∧
      ∀ κ : EditCtx, (∀ f, strongCount f = 1 → κ.sole f) → ∀ held : Set ℕ,
        Edit κ ⟨⟨s.pageTable, a :: s.areas.eraseIdx i⟩, g.stock held⟩
          ⟨⟨pt', a' :: s.areas.eraseIdx i⟩, g'.stock held⟩) := by
  unfold handleWriteProtectPageFault at h
  split at h
  · cases h
    exact ⟨rfl, .inl ⟨rfl, rfl⟩⟩
  split at h
  · cases h
    exact ⟨rfl, .inl ⟨rfl, rfl⟩⟩
  next i hfind =>
  simp only [bind_eq_bind, bind_eq_some_iff] at h
  obtain ⟨a, ha, h⟩ := h
  rcases hwp : writeProtectPageFault strongCount g s.pageTable a v with ⟨ok₁, g₁, pt₁, a₁⟩
  rw [hwp] at h
  cases h
  have hsel := selected hfind ha
  simp only [Bool.and_eq_true, Bool.or_eq_true, decide_eq_true_eq] at hsel
  have hu : a.isUser = true := by
    rcases hsel.1 with ((ht | ht) | ht) | ht <;> simp [MapArea.isUser, ht]
  have hedit := fun (κ : EditCtx) (hsole : ∀ f, strongCount f = 1 → κ.sole f) (held : Set ℕ) =>
    writeProtectPageFault_edit (s.areas.eraseIdx i) held hsole hu hsel.2 hwp
  obtain ⟨-, hheld, harea, hgroups⟩ := hedit ⟨fun _ _ => False, fun _ => True⟩ (fun _ _ => trivial) ∅
  refine ⟨hheld, ?_⟩
  by_cases hsame : g₁ = g ∧ pt₁ = s.pageTable ∧ a₁ = a
  · obtain ⟨rfl, rfl, rfl⟩ := hsame
    exact .inl ⟨rfl, by simp only [layout, putArea, set_same ha]⟩
  · exact .inr ⟨i, a, a₁, pt₁, ha, rfl, harea, hgroups, fun κ hsole held => (hedit κ hsole held).1.resolve_left hsame⟩

lemma handlePageFault_cases (h : s.handlePageFault strongCount g v cause prepared = some (ok, s', g')) :
    s.handleNotPresentPageFault g v cause prepared = some (true, s', g') ∨
      ∃ s₁ g₁, s.handleNotPresentPageFault g v cause prepared = some (false, s₁, g₁) ∧
        s₁.handleWriteProtectPageFault strongCount g₁ v cause = some (ok, s', g') := by
  simp only [handlePageFault, bind_eq_bind, bind_eq_some_iff, Prod.exists] at h
  obtain ⟨ok₁, s₁, g₁, h1, h⟩ := h
  split at h
  · next hok =>
    cases h
    exact .inl (hok ▸ h1)
  · next hok =>
    rw [Bool.not_eq_true] at hok
    exact .inr ⟨s₁, g₁, hok ▸ h1, h⟩

lemma handlePageFault_edits (hsole : ∀ f, strongCount f = 1 → κ.sole f) (hH : g.heldFrames ⊆ held)
    (hp : ∀ q ∈ prepared, q.frame ∈ held) (h : s.handlePageFault strongCount g v cause prepared = some (ok, s', g')) :
    ∃ held', held ⊆ held' ∧ g'.heldFrames ⊆ held' ∧ Edits κ ⟨s.layout, g.stock held⟩ ⟨s'.layout, g'.stock held'⟩ := by
  rcases handlePageFault_cases h with h1 | ⟨s₁, g₁, h1, h2⟩
  · exact (handleNotPresentPageFault_edits hH hp h1).edits
  obtain ⟨rfl, hlay⟩ := (handleNotPresentPageFault_edits (κ := κ) hH hp h1).failed rfl
  obtain ⟨hheld, ⟨rfl, hs⟩ | ⟨i, a, a', pt', ha, hs, -, -, hedit⟩⟩ := handleWriteProtectPageFault_cases h2
  · exact ⟨held, subset_rfl, hH, by rw [hs, hlay]⟩
  · refine ⟨held, subset_rfl, hheld ▸ hH, ?_⟩
    rw [hs, ← hlay]
    exact Edits.at_set ha (.single (hedit κ hsole held))

end

end MemorySetInner

end Ya2yOS.Mm
