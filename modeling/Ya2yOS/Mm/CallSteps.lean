import Ya2yOS.Mm.EditRemap

/-!
# The parts of a memory call

A call of `mmap` or `mremap` makes room, cuts its source out, inserts an area or lets one grow. `CallStep` says once
what each part does to the layout and to the vector of areas.
-/

namespace Ya2yOS.Mm

open Lib Option Logged
open Conv (result_toVirtAddr_bind)

/-- One part of a memory call: `I` are the areas it may insert into a list of areas, `C` the
ranges it may remove from one. -/
inductive CallStep (I : List MapArea → MapArea → Prop) (C : List MapArea → ℕ → ℕ → Prop)
    (x y : MemorySetInner × Globals) : Prop
  | keep (h : y.1.layout = x.1.layout) (hg : y.2 = x.2)
  | room {addr len : ℕ} (hc : C x.1.areas addr len) (hw : addr + len < wordSize)
      (h : x.1.clearFixed x.2 addr len (floorVpn addr) (ceilVpn (addr + len)) = some y)
  | clear {addr len : ℕ} {r : SyscallRet} (hc : C x.1.areas addr len) (h : x.1.munmap x.2 addr len = some (r, y))
  | create {first last : ℕ} {perm : MapPermission} {type : MapAreaType} {flags : MmapFlags} {file : MmapFile}
      {a : MapArea} (hnew : MapArea.newMmap x.2 first last perm type flags file = some (a, y.2))
      (hi : I x.1.areas a) (hm : a.isMmapVma = true)
      (h : y.1.layout = ⟨x.1.pageTable, insertAreaSorted x.1.areas a⟩)
  | huge {g₁ g₂ : Globals} {first last : ℕ} {perm : MapPermission} {flags : MmapFlags} {file : MmapFile}
      {a a' : MapArea} {ok : Bool} {pt : PageTable}
      (hnew : MapArea.newMmap x.2 first last perm .mmap flags file = some (a, g₁)) (hi : I x.1.areas a)
      (ha : a.isHuge = true ∧ a.isMmapVma = true) (hmap : a.mapHuge g₁ x.1.pageTable = some (ok, g₂, pt, a'))
      (hend : (ok = false ∧ y.1.layout = ⟨(a'.unmapAll pt).1, x.1.areas⟩ ∧
          g₂.dropArea (a'.unmapAll pt).2.groupid = some y.2) ∨
        (ok = true ∧ y.1.layout = ⟨pt, insertAreaSorted x.1.areas a'⟩ ∧ y.2 = g₂))
  | cut (h : MemorySetInner.Cut x y)
  | move {i oldStart oldEnd dest newLen total : ℕ} {source : MapArea} {ret : SyscallRet}
      (hsrc : x.1.areas[i]? = some source) (hu : source.isUser = true)
      (hi : ∀ r : VPNRange, r.start = floorVpn dest → r.stop = ceilVpn (dest + newLen) →
        I x.1.areas (MemorySetInner.movedArea source r))
      (h : x.1.moveTo x.2 i oldStart oldEnd dest newLen total = some (ret, y))
  | grow {i : ℕ} {p : MapArea} {r : VPNRange} (hp : x.1.areas[i]? = some p)
      (hmov : p.isMmapVma = true ∨ p.areaType = .shm) (hstart : r.start = p.vpnRange.start)
      (hstop : p.vpnRange.stop ≤ r.stop) (hb : r.stop ≤ userLimit)
      (hfree : ∀ b ∈ x.1.areas.eraseIdx i, ¬ b.overlaps p.vpnRange.stop r.stop)
      (h : y.1.layout = ⟨x.1.pageTable, x.1.areas.set i { p with vpnRange := r }⟩) (hg : y.2 = x.2)

abbrev CallSteps (I : List MapArea → MapArea → Prop) (C : List MapArea → ℕ → ℕ → Prop) :
    MemorySetInner × Globals → MemorySetInner × Globals → Prop := Relation.ReflTransGen (CallStep I C)

section Edits

variable {κ : EditCtx} {C : List MapArea → ℕ → ℕ → Prop} {x y : MemorySetInner × Globals}

open MemorySetInner

lemma CallStep.edits (held : Set ℕ) (h : CallStep κ.admits C x y) :
    Edits κ ⟨x.1.layout, x.2.stock held⟩ ⟨y.1.layout, y.2.stock held⟩ ∧ y.2.heldFrames ⊆ x.2.heldFrames := by
  have hquiet : ∀ {s s' : MemorySetInner} {g g' : Globals}, Trims s.layout s'.layout → g.Quiet g' →
      Edits κ ⟨s.layout, g.stock held⟩ ⟨s'.layout, g'.stock held⟩ ∧ g'.heldFrames ⊆ g.heldFrames :=
    fun ht hq => ⟨hq.stock held ▸ ht.edits _, hq.heldFrames⟩
  obtain ⟨s, g⟩ := x
  obtain ⟨s', g'⟩ := y
  cases h with
  | keep h hg => exact hquiet (by rw [h]) (hg ▸ .refl _)
  | room hc hw h =>
    obtain ⟨ht, hq, -⟩ := clearFixed_spec hw h
    exact hquiet ht hq
  | clear hc h => exact hquiet (munmap_trims h) (munmap_quiet h)
  | cut h =>
    obtain ⟨ht, hq⟩ := Cuts.spec (.single h)
    exact hquiet ht hq
  | create hnew hi hm h =>
    obtain ⟨-, -, hempty, -, -, -, -, -, hq⟩ := newMmap_spec hnew
    rw [hq.stock held, h]
    exact ⟨s.pushLazily_edits _ hi hempty, hq.heldFrames⟩
  | @huge g₁ g₂ _ _ _ _ _ a a' ok pt hnew hi ha hmap hend =>
    obtain ⟨-, -, hempty, -, -, -, -, -, hq⟩ := newMmap_spec hnew
    obtain ⟨hme, hkind, hheld⟩ := mapHuge_edits s.areas held ha hmap
    rw [hq.stock held] at hme
    have hbuilt := hme.head (.insert s.pageTable a s.areas _ hi hempty)
    have hle : g₂.heldFrames ⊆ g.heldFrames := hheld ▸ hq.heldFrames
    rcases hend with ⟨-, hlay, hdrop⟩ | ⟨-, hlay, rfl⟩
    · have hqd := Globals.Quiet.dropArea hdrop
      have hu : a'.isUser = true := by
        rw [hkind]
        exact MapArea.isUser_of_isMmapVma ha.2
      rw [hqd.stock held, hlay]
      exact ⟨hbuilt.trans ((unmapAll_trims pt a' s.areas hu).edits _), hqd.heldFrames.trans hle⟩
    · rw [hlay]
      exact ⟨hbuilt.trans ((insertAreaSorted_trims pt s.areas a').edits _), hle⟩
  | move hsrc hu hi h => exact moveTo_edits held hsrc hu hi h
  | @grow i p r hp hmov hstart hstop hb hfree h hg =>
    have hstep : Edit κ ⟨⟨s.pageTable, p :: s.areas.eraseIdx i⟩, g.stock held⟩
        ⟨⟨s.pageTable, { p with vpnRange := r } :: s.areas.eraseIdx i⟩, g.stock held⟩ := by
      refine .grow _ p _ r _ hmov hstart.le hstop (by omega) fun b hb v hv hnv hvb => hfree b hb ?_
      refine VPNRange.overlaps_of_mem hvb ?_ hv.2
      simp only [VPNRange.mem_iff] at hv hnv
      omega
    rw [h, hg]
    exact ⟨.tail (.tail (.single (.trim _ (.relist _ (perm_of_getElem? hp)))) hstep)
      (.trim _ (.relist _ (set_perm hp _).symm)), subset_rfl⟩

lemma CallSteps.edits (held : Set ℕ) (h : CallSteps κ.admits C x y) :
    Edits κ ⟨x.1.layout, x.2.stock held⟩ ⟨y.1.layout, y.2.stock held⟩ ∧ y.2.heldFrames ⊆ x.2.heldFrames := by
  induction h with
  | refl => exact ⟨.refl, subset_rfl⟩
  | tail _ h ih =>
    obtain ⟨he, hle⟩ := h.edits held
    exact ⟨ih.1.trans he, hle.trans ih.2⟩

end Edits

namespace MemorySetInner

variable {I : List MapArea → MapArea → Prop} {C : List MapArea → ℕ → ℕ → Prop} {s s' : MemorySetInner} {g g' : Globals}

section Mmap

variable {addr len r : ℕ} {perm : MapPermission} {flags : MmapFlags} {file : MmapFile}

lemma mmapHugeStart_steps {start : ℕ} (hhuge : flags.hugetlb = true) (hclr : flags.fixed = true → C s.areas addr len)
    (h : s.mmapHugeStart g addr len flags = some (start, s', g')) : CallSteps I C (s, g) (s', g') := by
  rcases (mmapHugeStart_spec hhuge h).1 with ⟨hlay, rfl⟩ | ⟨hf, r, hun⟩
  · exact .single (.keep hlay rfl)
  · exact .single (.clear (hclr hf) hun)

lemma mmap_steps (hins : ∀ l a, Placement s addr len perm flags file l a → I l a)
    (hclr : flags.fixed = true → C s.areas addr len)
    (h : s.mmap g addr len perm flags file = some (r, s', g')) : CallSteps I C (s, g) (s', g') := by
  rcases mmap_cases h with ⟨hhuge, h⟩ | ⟨hsmall, hfix, h⟩ |
    ⟨-, -, ⟨hlay, rfl⟩ | ⟨first, last, type, a, hnew, hlay, hplaced⟩⟩
  · rcases mmapHuge_cases hhuge h with ⟨rfl, rfl⟩ | hfail |
      ⟨start, s₁, g₁, a, g₂, ok, g₃, pt, a', -, hstart, hnew, hplaced, hmap, hend⟩
    · exact .refl
    · exact mmapHugeStart_steps hhuge hclr hfail
    · have ha : a.isHuge = true := by rwa [MapArea.isHuge, hplaced.mmapFlags]
      exact (mmapHugeStart_steps hhuge hclr hstart).tail (.huge hnew (hins _ _ hplaced) ⟨ha, hplaced.isMmap⟩ hmap hend)
  · rcases mmapFixed_cases hfix hsmall h with ⟨rfl, rfl⟩ | ⟨s₁, g₁, a, hw, hroom, hnew, rfl, hplaced⟩
    · exact .refl
    have hclear : CallSteps I C (s, g) (s₁, g₁) := by
      split_ifs at hroom with hf
      · exact .single (.room (hclr hf) hw hroom)
      · cases hroom
        exact .refl
    exact hclear.tail (.create hnew (hins _ _ hplaced) hplaced.isMmap rfl)
  · exact .single (.keep hlay rfl)
  · exact .single (.create hnew (hins _ _ hplaced) hplaced.isMmap hlay)

end Mmap

section Mremap

variable {oldAddr oldLen newLen newAddr : ℕ} {fixed : Bool} {ret : SyscallRet}

lemma mremapBudget_steps {s₀ : MemorySetInner} {g₀ : Globals} {i oldStart oldEnd : ℕ} {source : MapArea}
    (hins : ∀ l a, MovePlacement s₀ g₀ oldStart oldEnd newLen newAddr fixed l a → I l a)
    (hsrc : s.areas[i]? = some source) (hmov : source.isMmapVma = true ∨ source.areaType = .shm)
    (hin : source.vpnRange.start ≤ oldStart ∧ oldEnd ≤ source.vpnRange.stop)
    (hdest : ∀ dest, dest = (if fixed then newAddr else (s.findMmapAddr newLen).1) → dest ≠ 0 →
      Destination s₀ g₀ oldStart oldEnd newLen newAddr fixed s.areas dest)
    (h : s.mremapBudget g i oldAddr oldStart oldEnd newLen newAddr fixed = some (ret, s', g')) :
    CallSteps I C (s, g) (s', g') := by
  rcases mremapBudget_cases h with ⟨hlay, rfl⟩ | ⟨t, dest, total, hlay, h0, hd, hm⟩
  · exact .single (.keep hlay rfl)
  have hareas : t.areas = s.areas := congrArg Layout.areas hlay
  have hseek : CallStep I C (s, g) (t, g) := .keep hlay rfl
  refine .head hseek (.single (.move (hareas ▸ hsrc) (isUser_of_movable hmov) (fun r h1 h2 => ?_) hm))
  rw [hareas]
  exact hins _ _ ⟨⟨dest, hdest dest hd h0, h1, h2⟩, source, List.mem_of_getElem? hsrc, hmov, hin.1, hin.2, rfl⟩

variable (hsort : AreasSorted s.areas) (hlt : floorVpn oldAddr < ceilVpn (oldAddr + oldLen))

include hsort hlt

lemma withSource_steps
    {rest : ℕ → ℕ → ℕ → MemorySetInner × Globals × ℕ → Conv (SyscallRet × MemorySetInner × Globals)}
    (h : (Conv.withSource s g oldAddr oldLen rest).result = some (ret, s', g')) :
    (s' = s ∧ g' = g) ∨ ∃ i a t k j p,
      s.mremapSource (floorVpn oldAddr) (ceilVpn (oldAddr + oldLen)) = some i ∧ s.areas[i]? = some a ∧
      a.isHuge = false ∧ s.isolate g i (floorVpn oldAddr) (ceilVpn (oldAddr + oldLen)) = some (t, k, j) ∧
      CallSteps I C (s, g) (t, k) ∧ Trims s.layout t.layout ∧ t.areas[j]? = some p ∧
      (p.isMmapVma = true ∨ p.areaType = .shm) ∧ p.vpnRange.start = floorVpn oldAddr ∧
      p.vpnRange.stop = ceilVpn (oldAddr + oldLen) ∧
      (rest (oldAddr + oldLen) (floorVpn oldAddr) (ceilVpn (oldAddr + oldLen)) (t, k, j)).result =
        some (ret, s', g') := by
  unfold Conv.withSource at h
  split at h
  · cases h
    exact .inl ⟨rfl, rfl⟩
  next oldEndAddr hend =>
  obtain ⟨rfl, -⟩ := checkedAdd_eq_some.1 hend
  simp only [result_toVirtAddr_bind] at h
  obtain ⟨-, -, h⟩ := h
  split at h
  · cases h
    exact .inl ⟨rfl, rfl⟩
  next i hi =>
  rw [result_bind, bind_eq_some_iff] at h
  obtain ⟨a, ha, h⟩ := h
  split at h
  · cases h
    exact .inl ⟨rfl, rfl⟩
  next hbig =>
  have hsmall : a.isHuge = false := by simpa using hbig
  rw [result_bind, bind_eq_some_iff] at h
  obtain ⟨⟨t, k, j⟩, hiso, h⟩ := h
  obtain ⟨hmov, hin⟩ := mremapSource_spec hi ha
  have hu := isUser_of_movable hmov
  obtain ⟨hcuts, p, hp, hkind, hp1, hp2⟩ := isolate_spec ha hu hsmall hin hlt hsort hiso
  refine .inr ⟨i, a, t, k, j, p, hi, ha, hsmall, hiso, hcuts.lift id fun _ _ => .cut, (Cuts.spec hcuts).1, hp, ?_,
    hp1, hp2, h⟩
  rwa [MapArea.isMmapVma, hkind.type, hkind.flags]

lemma mremapMaymove_steps
    (hins : ∀ l a, MovePlacement s g (floorVpn oldAddr) (ceilVpn (oldAddr + oldLen)) newLen newAddr fixed l a → I l a)
    (hclr : fixed = true → ∀ i t k j, s.mremapSource (floorVpn oldAddr) (ceilVpn (oldAddr + oldLen)) = some i →
      s.isolate g i (floorVpn oldAddr) (ceilVpn (oldAddr + oldLen)) = some (t, k, j) → C t.areas newAddr newLen)
    (h : s.mremapMaymove g oldAddr oldLen newLen newAddr fixed = some (ret, s', g')) :
    CallSteps I C (s, g) (s', g') := by
  obtain ⟨rfl, rfl⟩ | ⟨i, a, t, k, j, p, hi, ha, hsmall, hiso, hcut, ht, hp, hmov, hp1, hp2, h⟩ :=
    withSource_steps (I := I) (C := C) hsort hlt h
  · exact .refl
  cases fixed with
  | false =>
    refine hcut.trans (mremapBudget_steps hins hp hmov ⟨hp1.le, hp2.ge⟩ (fun dest hd h0 => ?_) h)
    refine ⟨h0, ⟨_, ht⟩, by simp, fun _ => ⟨?_, i, a, t, k, j, hi, ha, hsmall, hiso, rfl, hd⟩⟩
    rw [hd] at h0 ⊢
    exact t.findMmapAddr_le newLen h0
  | true =>
    simp only [Bool.not_true, Bool.false_eq_true, if_false] at h
    split at h
    · cases h
      exact hcut
    next newEnd hnewEnd =>
    obtain ⟨rfl, -⟩ := checkedAdd_eq_some.1 hnewEnd
    split at h
    · cases h
      exact hcut
    next hbound =>
    simp only [not_or, not_lt] at hbound
    split at h
    · cases h
      exact hcut
    rw [result_bind, bind_eq_some_iff] at h
    obtain ⟨⟨r, s₂, g₂⟩, hun, h⟩ := h
    have hclear : CallSteps I C (s, g) (s₂, g₂) := hcut.tail (.clear (hclr rfl i t k j hi hiso) hun)
    cases r with
    | error e =>
      cases h
      exact hclear
    | ok n =>
      dsimp only at h
      split at h
      · cases h
        exact hclear
      next j hj =>
      have hsrc := List.getElem?_eq_getElem (List.findIdx?_eq_some_iff_getElem.1 hj).1
      obtain ⟨hmov₂, hin₂⟩ := mremapSource_spec hj hsrc
      exact hclear.trans (mremapBudget_steps hins hsrc hmov₂ hin₂ (fun dest hd h0 =>
        ⟨h0, ⟨_, ht.trans (munmap_trims hun)⟩, fun _ => ⟨hd, hbound.1, (munmap_clears hun).2⟩, by simp⟩) h)

lemma mremapInPlace_steps (hclr : newLen < (ceilVpn (oldAddr + oldLen) - floorVpn oldAddr) * pageSize →
      ∀ i t k j, s.mremapSource (floorVpn oldAddr) (ceilVpn (oldAddr + oldLen)) = some i →
        s.isolate g i (floorVpn oldAddr) (ceilVpn (oldAddr + oldLen)) = some (t, k, j) →
        C t.areas (oldAddr + newLen) ((ceilVpn (oldAddr + oldLen) - floorVpn oldAddr) * pageSize - newLen))
    (h : s.mremapInPlace g oldAddr oldLen newLen = some (ret, s', g')) : CallSteps I C (s, g) (s', g') := by
  obtain ⟨rfl, rfl⟩ | ⟨i, a, t, k, j, p, hi, -, -, hiso, hcut, -, hp, hmov, hp1, hp2, h⟩ :=
    withSource_steps (I := I) (C := C) hsort hlt h
  · exact .refl
  dsimp only at h
  split at h
  · cases h
    exact hcut
  split at h
  · next hshrink =>
    split at h
    · cases h
      exact hcut
    next trim htrim =>
    obtain ⟨rfl, -⟩ := checkedAdd_eq_some.1 htrim
    rw [result_bind, bind_eq_some_iff] at h
    obtain ⟨⟨r, s₂, g₂⟩, hun, h⟩ := h
    have hclear : CallSteps I C (s, g) (s₂, g₂) := hcut.tail (.clear (hclr hshrink i t k j hi hiso) hun)
    cases r with
    | error e | ok n =>
      cases h
      exact hclear
  · next hgrow =>
    obtain ⟨rfl, rfl | ⟨r, hr1, hr2, hbound, hfree, hlay⟩⟩ := growInPlace_cases hp h
    · exact hcut
    have hstop : p.vpnRange.stop ≤ r.stop := by
      rw [hr2]
      exact le_ceilVpn_of_grow hp1 (by rw [hp1, hp2]) (Nat.le_of_not_lt hgrow) hbound
    refine hcut.tail (.grow hp hmov (hr1.trans hp1.symm) hstop ?_ (hp2 ▸ hfree) hlay rfl)
    exact hr2 ▸ ceilVpn_le_userLimit hbound

end Mremap

end MemorySetInner

end Ya2yOS.Mm
