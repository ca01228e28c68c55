import Ya2yOS.Mm.EditFault
import Ya2yOS.Mm.EditRemap
import Ya2yOS.Mm.Syscall

/-!
# Confinement of the memory calls

An address space is confined when its areas lie in the user range, apart from the trap contexts of its threads, and
every valid entry below the kernel half belongs to an area.
-/

namespace Ya2yOS.Mm

open Lib List PageTable MapArea

variable {κ : EditCtx} {L L' : Layout} {a : MapArea} {lvl : Level} {p : PTE} {pt pt' : PageTable} {v w : ℕ}

def TrapPage (l : List MapArea) (v : ℕ) : Prop := ∃ b ∈ l, b.isUser = false ∧ v ∈ b.vpnRange

def UserPage (l : List MapArea) (v : ℕ) : Prop := ∃ b ∈ l, b.isUser = true ∧ v ∈ b.vpnRange

/-- The pages of a 2 MiB leaf belong to one huge mapping. -/
def HugeBlock (l : List MapArea) (v : ℕ) : Prop :=
  ∃ a ∈ l, a.isHuge = true ∧ a.isMmapVma = true ∧
    ∀ w < 2 ^ 27, PageTable.SameEntry .mega w v → w ∈ a.vpnRange

structure Confined (L : Layout) : Prop where
  inUser : ∀ a ∈ L.areas, a.vpnRange.stop ≤ userLimit
  apart : ∀ v, UserPage L.areas v → ¬ TrapPage L.areas v
  trapHigh : ∀ v, TrapPage L.areas v → mmapTop / pageSize ≤ v
  cover : ∀ v < 2 ^ 26, L.pt.findPte v ≠ none → UserPage L.areas v ∨ TrapPage L.areas v
  blocks : ∀ v < 2 ^ 26, ∀ lvl p, L.pt.findPte v = some (lvl, p) →
    lvl = .page ∨ lvl = .mega ∧ HugeBlock L.areas v

/-- The entries no user call may touch: trap contexts and the kernel half. -/
def Protected (l : List MapArea) (v : ℕ) : Prop := TrapPage l (vpnIndex v) ∨ 2 ^ 26 ≤ vpnIndex v

/-- What an edit, or a sequence of them, does to a confined address space. -/
structure ConfinedStep (L L' : Layout) : Prop where
  confined : Confined L'
  traps : ∀ v, TrapPage L'.areas v ↔ TrapPage L.areas v
  protects : ∀ v, Protected L.areas v → L'.pt.findPte v = L.pt.findPte v

lemma ConfinedStep.refl (h : Confined L) : ConfinedStep L L := ⟨h, fun _ => Iff.rfl, fun _ _ => rfl⟩

lemma ConfinedStep.trans {L'' : Layout} (h : ConfinedStep L L') (h' : ConfinedStep L' L'') : ConfinedStep L L'' := by
  refine ⟨h'.confined, fun v => (h'.traps v).trans (h.traps v), fun v hv => ?_⟩
  have hv' : Protected L'.areas v := hv.imp_left (h.traps _).2
  exact (h'.protects v hv').trans (h.protects v hv)

namespace Confined

lemma userPage_lt (h : Confined L) (hv : UserPage L.areas v) : v < userLimit := by
  obtain ⟨a, ha, -, hv⟩ := hv
  exact lt_of_lt_of_le hv.2 (h.inUser a ha)

lemma userPage_not_protected (h : Confined L) (hv : UserPage L.areas (vpnIndex v)) : ¬ Protected L.areas v := by
  rintro (ht | hk)
  · exact h.apart _ hv ht
  · have := h.userPage_lt hv
    rw [userLimit_eq] at this
    omega

lemma userPage_of_sameEntry (h : Confined L) (ha : a ∈ L.areas) (hu : a.isUser = true) (hv : v ∈ a.vpnRange)
    (hp : L.pt.findPte v = some (lvl, p)) (hw : PageTable.SameEntry lvl w v) : UserPage L.areas (vpnIndex w) := by
  have hlt : v < userLimit := lt_of_lt_of_le hv.2 (h.inUser a ha)
  have hidx : vpnIndex v = v := vpnIndex_of_lt_userLimit hlt
  rw [userLimit_eq] at hlt
  rcases h.blocks v (by omega) lvl p hp with rfl | ⟨rfl, b, hb, -, hm, hin⟩
  · rw [sameEntry_page, hidx] at hw
    exact ⟨a, ha, hu, hw ▸ hv⟩
  · refine ⟨b, hb, isUser_of_isMmapVma hm, hin _ (Nat.mod_lt _ (by decide)) ?_⟩
    simp only [PageTable.SameEntry, vpnIndex, Nat.mod_mod] at hw ⊢
    exact hw

lemma userPage_of_step (h : Confined L) (hstep : ConfinedStep L L')
    (hu : UserPage L.areas (vpnIndex w)) (hp : L'.pt.findPte w ≠ none) : UserPage L'.areas (vpnIndex w) := by
  have hlt := h.userPage_lt hu
  rw [userLimit_eq] at hlt
  rcases hstep.confined.cover (vpnIndex w) (by omega) (by rwa [findPte_vpnIndex]) with hu' | ht
  · exact hu'
  · exact absurd ((hstep.traps _).1 ht) (h.apart _ hu)

lemma relabel {l l' : List MapArea} (h : Confined ⟨pt, l⟩)
    (hin : ∀ a ∈ l', a.vpnRange.stop ≤ userLimit) (htrap : ∀ v, TrapPage l' v ↔ TrapPage l v)
    (hapart : ∀ v, UserPage l' v → ¬ TrapPage l v)
    (hcover : ∀ v < 2 ^ 26, pt.findPte v ≠ none → UserPage l v → UserPage l' v)
    (hblock : ∀ v < 2 ^ 26, ∀ p, pt.findPte v = some (.mega, p) → HugeBlock l v → HugeBlock l' v) :
    ConfinedStep ⟨pt, l⟩ ⟨pt, l'⟩ where
  confined := by
    refine ⟨hin, fun v hu ht => hapart v hu ((htrap v).1 ht), fun v hv => h.trapHigh v ((htrap v).1 hv),
      fun v hv hp => (h.cover v hv hp).imp (hcover v hv hp) (htrap v).2, fun v hv lvl p hp => ?_⟩
    rcases h.blocks v hv lvl p hp with rfl | ⟨rfl, hb⟩
    · exact .inl rfl
    · exact .inr ⟨rfl, hblock v hv p hp hb⟩
  traps := htrap
  protects _ _ := rfl

lemma rewrite {l : List MapArea} (h : Confined ⟨pt, l⟩)
    (hchange : ∀ w, pt'.findPte w ≠ pt.findPte w → UserPage l (vpnIndex w))
    (hleaf : ∀ w < 2 ^ 26, ∀ lvl p, pt'.findPte w = some (lvl, p) →
      (∃ q, pt.findPte w = some (lvl, q)) ∨ lvl = .page ∨ lvl = .mega ∧ HugeBlock l w) :
    ConfinedStep ⟨pt, l⟩ ⟨pt', l⟩ where
  confined := by
    refine ⟨h.inUser, h.apart, h.trapHigh, fun v hv hp => ?_, fun v hv lvl p hp => ?_⟩
    · by_cases hs : pt'.findPte v = pt.findPte v
      · exact h.cover v hv (hs ▸ hp)
      · have := hchange v hs
        rw [vpnIndex_of_lt (by omega)] at this
        exact .inl this
    · rcases hleaf v hv lvl p hp with ⟨q, hq⟩ | hl
      · exact h.blocks v hv lvl q hq
      · exact hl
  traps _ := Iff.rfl
  protects v hv := by
    by_contra hne
    exact h.userPage_not_protected (hchange v hne) hv

lemma page_append {P : MapArea → Prop} {xs ys : List MapArea} :
    (∃ b ∈ xs ++ ys, P b) ↔ (∃ b ∈ xs, P b) ∨ ∃ b ∈ ys, P b := by
  simp only [mem_append, or_and_right, exists_or]

lemma exchange (xs ys rest : List MapArea) (h : Confined ⟨pt, xs ++ rest⟩)
    (hin : ∀ a ∈ ys, a.vpnRange.stop ≤ userLimit) (htrap : ∀ v, TrapPage ys v ↔ TrapPage xs v)
    (hapart : ∀ v, UserPage ys v → ¬ TrapPage (xs ++ rest) v)
    (hcover : ∀ v < 2 ^ 26, pt.findPte v ≠ none → UserPage xs v → UserPage ys v)
    (hblock : ∀ v < 2 ^ 26, ∀ p, pt.findPte v = some (.mega, p) → HugeBlock xs v → HugeBlock ys v) :
    ConfinedStep ⟨pt, xs ++ rest⟩ ⟨pt, ys ++ rest⟩ := by
  refine h.relabel (forall_mem_append.2 ⟨hin, fun a ha => h.inUser a (mem_append_right _ ha)⟩)
    (fun v => ?_) (fun v hv => ?_) (fun v hv hp hu => ?_) fun v hv p hp hb => ?_
  · exact page_append.trans ((or_congr_left (htrap v)).trans page_append.symm)
  · rcases page_append.1 hv with hv | hv
    · exact hapart v hv
    · exact h.apart v (page_append.2 (.inr hv))
  · exact page_append.2 ((page_append.1 hu).imp_left (hcover v hv hp))
  · exact page_append.2 ((page_append.1 hb).imp_left (hblock v hv p hp))

lemma records {rest : List MapArea} (h : Confined ⟨pt, a :: rest⟩)
    (m : OrdMap ℕ ℕ) : ConfinedStep ⟨pt, a :: rest⟩ ⟨pt, { a with dataFrames := m } :: rest⟩ := by
  have hpages : ∀ (P : Bool → Prop) v, (∃ c ∈ [{ a with dataFrames := m }], P c.isUser ∧ v ∈ c.vpnRange) ↔
      ∃ c ∈ [a], P c.isUser ∧ v ∈ c.vpnRange := fun P v => by
    simp only [mem_singleton, exists_eq_left]
    rfl
  refine h.exchange [a] [{ a with dataFrames := m }] rest (fun b hb => ?_) (hpages (· = false)) (fun v hv => ?_)
    (fun v _ _ => (hpages (· = true) v).2) fun v _ p _ hb => ?_
  · rw [mem_singleton.1 hb]
    exact h.inUser a mem_cons_self
  · exact h.apart v (page_append.2 (.inl ((hpages (· = true) v).1 hv)))
  · simp only [HugeBlock, mem_singleton, exists_eq_left] at hb ⊢
    exact hb

end Confined

lemma Confined.trim (h : Confined L) (ht : Trim L L') : ConfinedStep L L' := by
  cases ht with
  | relist pt hp =>
    refine h.relabel (fun a ha => h.inUser a (hp.mem_iff.2 ha)) (fun v => ?_) (fun v hv => h.apart v ?_)
      (fun v _ _ hv => ?_) fun v _ p _ hb => ?_
    · simp only [TrapPage, hp.mem_iff]
    · simpa only [UserPage, hp.mem_iff] using hv
    · simpa only [UserPage, hp.mem_iff] using hv
    · simpa only [HugeBlock, hp.mem_iff] using hb
  | unmap pt a rest v hu hv =>
    have hrw : ConfinedStep ⟨pt, a :: rest⟩ ⟨pt.unmap v, a :: rest⟩ := by
      refine h.rewrite (fun w hne => ?_) fun w hw lvl p hp => .inl ⟨p, ?_⟩
      · rcases findPte_unmap pt v w with hs | ⟨-, lvl, p, hp, hs⟩
        · exact absurd hs hne
        · exact h.userPage_of_sameEntry mem_cons_self hu hv hp hs
      · rcases findPte_unmap pt v w with hs | ⟨hs, -⟩
        · rw [← hs, hp]
        · rw [hs] at hp
          simp at hp
    exact hrw.trans (hrw.confined.records _)
  | carve pt a ps rest hu hp hd hc =>
    have huser : ∀ p ∈ ps, p.isUser = true := fun p hps => by
      rw [isUser, (hp p hps).type]
      exact hu
    refine h.exchange [a] ps rest (fun b hb => ?_) (fun v => ?_) (fun v hv => ?_) (fun v hv hpte hvu => ?_)
      fun v hv p hpte hb => ?_
    · exact (hp b hb).upper.trans (h.inUser a mem_cons_self)
    · simp only [TrapPage, mem_singleton, exists_eq_left, hu]
      grind
    · obtain ⟨b, hb, -, hbv⟩ := hv
      exact h.apart v ⟨a, mem_cons_self, hu, (hp b hb).lower.trans hbv.1, lt_of_lt_of_le hbv.2 (hp b hb).upper⟩
    · simp only [UserPage, mem_singleton, exists_eq_left] at hvu
      obtain ⟨p, hps, hpv⟩ := (hc v hvu.2).resolve_right hpte
      exact ⟨p, hps, huser p hps, hpv⟩
    simp only [HugeBlock, mem_singleton, exists_eq_left] at hb
    obtain ⟨hh, hm, hin⟩ := hb
    -- the leaf is not cut, since the part that keeps its page ends at 2 MiB or where the area does
    obtain ⟨q, hq, hqv⟩ := (hc v (hin v (by omega) rfl)).resolve_right (by rw [hpte]; simp)
    have hpart := hp q hq
    obtain ⟨hl, hr⟩ := hpart.aligned hh hm
    refine ⟨q, hq, by rwa [isHuge, hpart.flags], by rwa [isMmapVma, hpart.flags, hpart.type], fun w hw hs => ?_⟩
    have hwb := hin w hw hs
    simp only [PageTable.SameEntry, vpnIndex, Level.span, hugePagePages, VPNRange.mem_iff] at *
    omega
  | merge pt a b rest hm =>
    have hk := canMergeAreas_sameKind hm
    have hadj := canMergeAreas_adjacent hm
    have hba : b.isUser = a.isUser := by rw [isUser, hk.type]; rfl
    have hpages : ∀ (P : Bool → Prop) v, (∃ c ∈ [mergeAreas a b hadj], P c.isUser ∧ v ∈ c.vpnRange) ↔
        ∃ c ∈ [a, b], P c.isUser ∧ v ∈ c.vpnRange := by
      intro P v
      have hmu : (mergeAreas a b hadj).isUser = a.isUser := rfl
      simp only [mem_cons, not_mem_nil, or_false, exists_eq_or_imp, exists_eq_left, hmu, mem_mergeAreas, hba]
      tauto
    refine h.exchange [a, b] [mergeAreas a b hadj] rest (fun c hc => ?_) (hpages (· = false)) (fun v hv => ?_)
      (fun v _ _ hv => (hpages (· = true) v).2 hv) fun v _ p _ hb => ?_
    · rw [mem_singleton.1 hc]
      exact h.inUser b (by simp)
    · exact h.apart v (page_append.2 (.inl ((hpages (· = true) v).1 hv)))
    obtain ⟨c, hc, hh, hmm, hin⟩ := hb
    simp only [mem_cons, not_mem_nil, or_false] at hc
    rcases hc with rfl | rfl
    · exact ⟨_, mem_cons_self, hh, hmm, fun w hw hs => (mem_mergeAreas hadj).2 (.inl (hin w hw hs))⟩
    · refine ⟨_, mem_cons_self, ?_, ?_, fun w hw hs => (mem_mergeAreas hadj).2 (.inr (hin w hw hs))⟩
      · rwa [isHuge, hk.flags] at hh
      · rwa [isMmapVma, hk.flags, hk.type] at hmm

def Admissible (l : List MapArea) (a : MapArea) : Prop :=
  a.isUser = true ∧ a.vpnRange.stop ≤ userLimit ∧ ∀ v ∈ a.vpnRange, ¬ TrapPage l v

def confinedCtx : EditCtx := ⟨Admissible, fun _ => True⟩

namespace Confined

variable {l : List MapArea}

lemma adds (h : Confined ⟨pt, l⟩) (hadd : pt.Adds pt' lvl v p) (hlvl : lvl = .page ∨ lvl = .mega ∧ HugeBlock l v)
    (huser : ∀ w, PageTable.SameEntry lvl w v → UserPage l (vpnIndex w)) : ConfinedStep ⟨pt, l⟩ ⟨pt', l⟩ := by
  refine h.rewrite (fun w hne => ?_) fun w hw lvl' q hq => ?_
  · by_cases hs : PageTable.SameEntry lvl w v
    · exact huser w hs
    · rw [hadd.2 w, if_neg hs] at hne
      exact absurd rfl hne
  · rw [hadd.2 w] at hq
    split_ifs at hq with hs
    · cases hq
      rcases hlvl with rfl | ⟨rfl, b, hb, hh, hm, hin⟩
      · exact .inr (.inl rfl)
      · exact .inr (.inr ⟨rfl, b, hb, hh, hm, fun x hx hxs => hin x hx (Eq.trans hxs hs)⟩)
    · exact .inl ⟨q, hq⟩

lemma replaces {q : PTE}
    (h : Confined ⟨pt, l⟩) (ha : a ∈ l) (hu : a.isUser = true) (hv : v ∈ a.vpnRange) (hp : pt.findPte v = some (lvl, p))
    (hset : ∀ w, pt'.findPte w = if PageTable.SameEntry lvl w v then some (lvl, q) else pt.findPte w) :
    ConfinedStep ⟨pt, l⟩ ⟨pt', l⟩ := by
  refine h.rewrite (fun w hne => ?_) fun w hw lvl' q' hq => ?_
  · by_cases hs : PageTable.SameEntry lvl w v
    · exact h.userPage_of_sameEntry ha hu hv hp hs
    · rw [hset w, if_neg hs] at hne
      exact absurd rfl hne
  · rw [hset w] at hq
    split_ifs at hq with hs
    · cases hq
      exact .inl ⟨p, findPte_of_sameEntry hp hs⟩
    · exact .inl ⟨q', hq⟩

lemma updateFlags (h : Confined ⟨pt, l⟩) (ha : a ∈ l) (hu : a.isUser = true) (hv : v ∈ a.vpnRange)
    (hp : pt.findPte v = some (lvl, p)) (f : RVPTEFlags → RVPTEFlags) :
    ConfinedStep ⟨pt, l⟩ ⟨pt.updateFlags v f, l⟩ := by
  refine h.replaces (q := { p with flags := f p.flags }) ha hu hv hp fun w => ?_
  split_ifs with hs
  · exact findPte_updateFlags hp hs
  · refine findPte_updateFlags_of_not fun lvl' q hq => ?_
    obtain ⟨rfl, rfl⟩ : lvl = lvl' ∧ p = q := by simpa using hp.symm.trans hq
    exact hs

lemma userPage_page (h : Confined ⟨pt, l⟩) (ha : a ∈ l) (hu : a.isUser = true) (hv : v ∈ a.vpnRange)
    (hw : PageTable.SameEntry .page w v) : UserPage l (vpnIndex w) := by
  have hlt : v < userLimit := lt_of_lt_of_le hv.2 (h.inUser a ha)
  rw [sameEntry_page, vpnIndex_of_lt_userLimit hlt] at hw
  exact ⟨a, ha, hu, hw ▸ hv⟩

lemma edit {V V' : View} (h : Confined V.layout) (he : Edit confinedCtx V V') : ConfinedStep V.layout V'.layout := by
  cases he with
  | trim k ht => exact h.trim ht
  | insert pt a l k ha hempty =>
    obtain ⟨hu, hin, hav⟩ := ha
    refine h.exchange [] [a] l (fun b hb => ?_) (fun v => ?_) (fun v hv => ?_) (fun v _ _ hv => ?_) fun v _ p _ hv => ?_
    · rw [mem_singleton.1 hb]
      exact hin
    · simp [TrapPage, hu]
    · obtain ⟨b, hb, -, hv⟩ := hv
      exact hav v (mem_singleton.1 hb ▸ hv)
    all_goals
      obtain ⟨b, hb, -⟩ := hv
      cases hb
  | mapPage pt pt' a rest v frame flags k k' hu hv hm hf =>
    have hstep := h.adds hm (.inl rfl) fun w hs => h.userPage_page mem_cons_self hu hv hs
    exact hstep.trans (hstep.confined.records _)
  | mapMega pt pt' a rest v base k blocks hb ha hl hh hv hm =>
    have hin : ∀ w, PageTable.SameEntry .mega w v → vpnIndex w ∈ a.vpnRange := by
      intro w hs
      have hlim := h.inUser a mem_cons_self
      rw [userLimit_eq] at hlim
      simp only [PageTable.SameEntry, vpnIndex, Level.span, hugePagePages, VPNRange.mem_iff] at *
      omega
    have hblock : HugeBlock (a :: rest) v := ⟨a, mem_cons_self, ha.1, ha.2, fun w hw hs => by
      have := hin w hs
      rwa [vpnIndex_of_lt hw] at this⟩
    have hstep := h.adds hm (.inr ⟨rfl, hblock⟩) fun w hs =>
      ⟨a, mem_cons_self, isUser_of_isMmapVma ha.2, hin w hs⟩
    exact hstep.trans (hstep.confined.records _)
  | grow pt a rest r k hu hl hr hb hd =>
    have hua : a.isUser = true := MemorySetInner.isUser_of_movable hu
    have hsub : ∀ v, v ∈ a.vpnRange → v ∈ r := fun v hv => ⟨hl.trans hv.1, lt_of_lt_of_le hv.2 hr⟩
    have hlim := h.inUser a mem_cons_self
    refine h.exchange [a] [{ a with vpnRange := r }] rest (fun c hc => ?_) (fun v => ?_) (fun v hv ht => ?_)
      (fun v _ _ hv => ?_) fun v _ p _ hv => ?_
    · rw [mem_singleton.1 hc]
      exact hb.trans (max_le le_rfl hlim)
    · have : ({ a with vpnRange := r } : MapArea).isUser = true := hua
      simp [TrapPage, this, hua]
    · simp only [UserPage, mem_singleton, exists_eq_left] at hv
      by_cases hva : v ∈ a.vpnRange
      · exact h.apart v ⟨a, mem_cons_self, hua, hva⟩ ht
      · obtain ⟨c, hc, hcu, hcv⟩ := ht
        rcases mem_cons.1 hc with rfl | hc
        · exact hva hcv
        · exact hd c hc v hv.2 hva hcv
    · simp only [UserPage, mem_singleton, exists_eq_left] at hv ⊢
      exact ⟨hv.1, hsub v hv.2⟩
    · simp only [HugeBlock, mem_singleton, exists_eq_left] at hv ⊢
      exact ⟨hv.1, hv.2.1, fun w hw hs => hsub w (hv.2.2 w hw hs)⟩
  | dirty pt a rest v lvl p k hu hv hp hw | own pt a rest v frame lvl p k hu hv hp hc ht hs =>
    exact h.updateFlags mem_cons_self hu hv hp _
  | copy pt pt' a rest v frame lvl p k k' hu hv hp hc hf hm =>
    have hstep := h.replaces mem_cons_self hu hv hp hm
    exact hstep.trans (hstep.confined.records _)
  | take L k k' frame ht | publish pt a rest v frame k ha ht => exact .refl h

lemma edits {V V' : View} (h : Confined V.layout) (he : Edits confinedCtx V V') : ConfinedStep V.layout V'.layout := by
  induction he with
  | refl => exact .refl h
  | tail _ he ih => exact ih.trans (ih.confined.edit he)

end Confined

end Ya2yOS.Mm
