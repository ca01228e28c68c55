import Ya2yOS.Mm.PageFault

/-!
# What the area operations do, one edit at a time

Every operation on an address space other than `mprotect` is a sequence of edits of its page table and its areas.
`Edit` says once what each of them does and what is known when it happens.
-/

namespace Ya2yOS.Mm

open Lib List

structure Layout where
  pt : PageTable
  areas : List MapArea

def MemorySetInner.layout (s : MemorySetInner) : Layout := ⟨s.pageTable, s.areas⟩

namespace MapArea

def Disjoint (a b : MapArea) : Prop := ∀ v, v ∈ a.vpnRange → v ∉ b.vpnRange

/-- The areas user code owns: all but the trap contexts. -/
def isUser (a : MapArea) : Bool := a.areaType ≠ .trap

def KeysIn (a : MapArea) : Prop := ∀ e ∈ a.dataFrames, e.1 ∈ a.vpnRange

end MapArea

/-- Two areas that differ in their range, file offset and records only. -/
structure SameKind (p a : MapArea) : Prop where
  perm : p.mapPerm = a.mapPerm
  type : p.areaType = a.areaType
  flags : p.mmapFlags = a.mmapFlags
  group : p.groupid = a.groupid
  source : p.mmapFile.source = a.mmapFile.source

lemma canMergeAreas_sameKind {a b : MapArea} (h : canMergeAreas a b = true) : SameKind b a := by
  simp only [canMergeAreas, MmapFile.isAnonymous, Bool.and_eq_true, decide_eq_true_eq] at h
  obtain ⟨⟨⟨⟨⟨⟨⟨⟨⟨-, hp⟩, ht⟩, hf⟩, hg⟩, hg'⟩, hs⟩, hs'⟩, -⟩, -⟩ := h
  exact ⟨hp.symm, ht.symm, hf.symm, hg'.trans hg.symm, hs'.trans hs.symm⟩

lemma mem_mergeAreas {a b : MapArea} (h : a.vpnRange.stop = b.vpnRange.start) {v : ℕ} :
    v ∈ (mergeAreas a b h).vpnRange ↔ v ∈ a.vpnRange ∨ v ∈ b.vpnRange := by
  have ha := a.vpnRange.le
  have hb := b.vpnRange.le
  simp only [mergeAreas, VPNRange.mem_iff]
  omega

/-- A part of an area: some of its pages with their records. Huge mappings are cut at 2 MiB. -/
structure Part (p a : MapArea) : Prop extends SameKind p a where
  lower : a.vpnRange.start ≤ p.vpnRange.start
  upper : p.vpnRange.stop ≤ a.vpnRange.stop
  records : ∀ e ∈ p.dataFrames, e ∈ a.dataFrames
  keeps : ∀ v ∈ p.vpnRange, p.dataFrames.get? v = a.dataFrames.get? v
  keysIn : a.KeysIn → p.KeysIn
  aligned : a.isHuge = true → a.isMmapVma = true →
    (p.vpnRange.start = a.vpnRange.start ∨ p.vpnRange.start % hugePagePages = 0) ∧
      (p.vpnRange.stop = a.vpnRange.stop ∨ p.vpnRange.stop % hugePagePages = 0)

namespace PageTable

def Adds (pt pt' : PageTable) (lvl : Level) (v : ℕ) (p : PTE) : Prop :=
  (∀ w, SameEntry lvl w v → pt.findPte w = none) ∧
    ∀ w, pt'.findPte w = if SameEntry lvl w v then some (lvl, p) else pt.findPte w

end PageTable

/-- The edits that only take away: areas are reordered, a page of a user area is unmapped, a user
area is carved into parts, two compatible neighbours become one. -/
inductive Trim : Layout → Layout → Prop
  | relist (pt : PageTable) {l l' : List MapArea} (hp : l.Perm l') : Trim ⟨pt, l⟩ ⟨pt, l'⟩
  | unmap (pt : PageTable) (a : MapArea) (rest : List MapArea) (v : ℕ) (hu : a.isUser = true)
      (hv : v ∈ a.vpnRange) :
      Trim ⟨pt, a :: rest⟩ ⟨(a.unmapOne pt v).1, (a.unmapOne pt v).2 :: rest⟩
  | carve (pt : PageTable) (a : MapArea) (ps rest : List MapArea) (hu : a.isUser = true)
      (hp : ∀ p ∈ ps, Part p a) (hd : ps.Pairwise MapArea.Disjoint)
      (hc : ∀ v ∈ a.vpnRange, (∃ p ∈ ps, v ∈ p.vpnRange) ∨ pt.findPte v = none) :
      Trim ⟨pt, a :: rest⟩ ⟨pt, ps ++ rest⟩
  | merge (pt : PageTable) (a b : MapArea) (rest : List MapArea) (h : canMergeAreas a b = true) :
      Trim ⟨pt, a :: b :: rest⟩ ⟨pt, mergeAreas a b (canMergeAreas_adjacent h) :: rest⟩

abbrev Trims : Layout → Layout → Prop := Relation.ReflTransGen Trim

/-- What an operation draws frames from: those the allocator hands out next, and those the page
cache, the shared groups and the memfds hold. -/
structure Stock where
  pages : List ℕ
  blocks : List ℕ
  held : Set ℕ

structure View where
  layout : Layout
  stock : Stock

/-- What an operation brings along: the areas it may insert into a list of areas, and the frames
it knows to have one reference. -/
structure EditCtx where
  admits : List MapArea → MapArea → Prop
  sole : ℕ → Prop

namespace Stock

def Takes (k k' : Stock) (frame : ℕ) : Prop :=
  ∃ rest, k.pages = frame :: rest ∧ k' = { k with pages := rest }

/-- The flags and the frame with which a page of an area is installed. A frame that something
else holds is never installed writable in a private area. -/
def Installs (k k' : Stock) (a : MapArea) (frame : ℕ) (flags : RVPTEFlags) : Prop :=
  (k.Takes k' frame ∧ (flags = RVPTEFlags.ofPerm a.mapPerm ∨
    flags = (PageTable.mmapFaultFlags a.mapPerm a.mmapFlags.shared).union (RVPTEFlags.ofPerm a.mapPerm))) ∨
  (frame ∈ k.held ∧ k' = k ∧ flags = PageTable.mmapFaultFlags a.mapPerm a.mmapFlags.shared)

end Stock

/-- One edit of an address space. -/
inductive Edit (κ : EditCtx) : View → View → Prop
  | trim {L L' : Layout} (k : Stock) (h : Trim L L') : Edit κ ⟨L, k⟩ ⟨L', k⟩
  | insert (pt : PageTable) (a : MapArea) (l : List MapArea) (k : Stock) (ha : κ.admits l a)
      (he : a.dataFrames = OrdMap.empty) : Edit κ ⟨⟨pt, l⟩, k⟩ ⟨⟨pt, a :: l⟩, k⟩
  | mapPage (pt pt' : PageTable) (a : MapArea) (rest : List MapArea) (v frame : ℕ) (flags : RVPTEFlags)
      (k k' : Stock) (hu : a.isUser = true) (hv : v ∈ a.vpnRange)
      (hm : pt.Adds pt' .page v ⟨frame, flags⟩) (hf : k.Installs k' a frame flags) :
      Edit κ ⟨⟨pt, a :: rest⟩, k⟩ ⟨⟨pt', a.insertFrame v frame :: rest⟩, k'⟩
  | mapMega (pt pt' : PageTable) (a : MapArea) (rest : List MapArea) (v base : ℕ) (k : Stock)
      (blocks : List ℕ) (hb : k.blocks = base :: blocks)
      (ha : a.isHuge = true ∧ a.isMmapVma = true) (hl : a.vpnRange.start ≤ v)
      (hh : v + hugePagePages ≤ a.vpnRange.stop) (hv : v % hugePagePages = 0)
      (hm : pt.Adds pt' .mega v ⟨base, RVPTEFlags.ofPerm a.mapPerm⟩) :
      Edit κ ⟨⟨pt, a :: rest⟩, k⟩ ⟨⟨pt', a.insertBlock v base :: rest⟩, { k with blocks := blocks }⟩
  | grow (pt : PageTable) (a : MapArea) (rest : List MapArea) (r : VPNRange) (k : Stock)
      (hu : a.isMmapVma = true ∨ a.areaType = .shm) (hl : r.start ≤ a.vpnRange.start)
      (hr : a.vpnRange.stop ≤ r.stop) (hb : r.stop ≤ max userLimit a.vpnRange.stop)
      (hd : ∀ b ∈ rest, ∀ v ∈ r, v ∉ a.vpnRange → v ∉ b.vpnRange) :
      Edit κ ⟨⟨pt, a :: rest⟩, k⟩ ⟨⟨pt, { a with vpnRange := r } :: rest⟩, k⟩
  | dirty (pt : PageTable) (a : MapArea) (rest : List MapArea) (v : ℕ) (lvl : Level) (p : PTE) (k : Stock)
      (hu : a.isUser = true) (hv : v ∈ a.vpnRange) (hp : pt.findPte v = some (lvl, p))
      (hw : p.flags.writeable = true) :
      Edit κ ⟨⟨pt, a :: rest⟩, k⟩ ⟨⟨pt.updateFlags v ({ · with dirty := true }), a :: rest⟩, k⟩
  | own (pt : PageTable) (a : MapArea) (rest : List MapArea) (v frame : ℕ) (lvl : Level) (p : PTE)
      (k : Stock) (hu : a.isUser = true) (hv : v ∈ a.vpnRange) (hp : pt.findPte v = some (lvl, p))
      (hc : p.flags.cow = true) (ht : a.dataFrames.get? v = some frame) (hs : κ.sole frame) :
      Edit κ ⟨⟨pt, a :: rest⟩, k⟩ ⟨⟨pt.updateFlags v ({ · with
        cow := false, writeable := true, readable := true, dirty := true }), a :: rest⟩, k⟩
  | copy (pt pt' : PageTable) (a : MapArea) (rest : List MapArea) (v frame : ℕ) (lvl : Level) (p : PTE)
      (k k' : Stock) (hu : a.isUser = true) (hv : v ∈ a.vpnRange) (hp : pt.findPte v = some (lvl, p))
      (hc : p.flags.cow = true) (hf : k.Takes k' frame)
      (hm : ∀ w, pt'.findPte w = if PageTable.SameEntry lvl w v then
        some (lvl, ⟨frame, { p.flags with cow := false, writeable := true, dirty := true }⟩)
        else pt.findPte w) :
      Edit κ ⟨⟨pt, a :: rest⟩, k⟩ ⟨⟨pt', a.insertFrame v frame :: rest⟩, k'⟩
  | take (L : Layout) (k k' : Stock) (frame : ℕ) (h : k.Takes k' frame) :
      Edit κ ⟨L, k⟩ ⟨L, { k' with held := insert frame k'.held }⟩
  | publish (pt : PageTable) (a : MapArea) (rest : List MapArea) (v frame : ℕ) (k : Stock)
      (ha : a.groupid ≠ 0) (ht : a.dataFrames.get? v = some frame) :
      Edit κ ⟨⟨pt, a :: rest⟩, k⟩ ⟨⟨pt, a :: rest⟩, { k with held := insert frame k.held }⟩

abbrev Edits (κ : EditCtx) : View → View → Prop := Relation.ReflTransGen (Edit κ)

lemma Trims.edits {κ : EditCtx} {L L' : Layout} (h : Trims L L') (k : Stock) : Edits κ ⟨L, k⟩ ⟨L', k⟩ :=
  h.lift (View.mk · k) fun _ _ => .trim k

variable {P : MapArea → Prop}

/-- A property of areas that parts and merged areas inherit, and that does not look at the
records. -/
structure Inherited (P : MapArea → Prop) : Prop where
  part : ∀ p a, Part p a → P a → P p
  erase : ∀ a v, P a → P { a with dataFrames := a.dataFrames.erase v }
  merge : ∀ a b (h : canMergeAreas a b = true), P a → P b → P (mergeAreas a b (canMergeAreas_adjacent h))

lemma Trim.forall_areas {L L' : Layout} (h : Trim L L') (hi : Inherited P) (hP : ∀ a ∈ L.areas, P a) :
    ∀ a ∈ L'.areas, P a := by
  cases h with
  | relist pt hp => exact fun a ha => hP a (hp.mem_iff.2 ha)
  | unmap pt a rest v hu hv =>
    rintro b (_ | ⟨_, hb⟩)
    · exact hi.erase a v (hP a mem_cons_self)
    · exact hP b (mem_cons_of_mem _ hb)
  | carve pt a ps rest hu hp hd hc =>
    intro b hb
    rcases mem_append.1 hb with hb | hb
    · exact hi.part b a (hp b hb) (hP a mem_cons_self)
    · exact hP b (mem_cons_of_mem _ hb)
  | merge pt a b rest h =>
    rintro c (_ | ⟨_, hc⟩)
    · exact hi.merge a b h (hP a mem_cons_self) (hP b (mem_cons_of_mem _ mem_cons_self))
    · exact hP c (mem_cons_of_mem _ (mem_cons_of_mem _ hc))

lemma Trims.forall_areas {L L' : Layout} (h : Trims L L') (hi : Inherited P) (hP : ∀ a ∈ L.areas, P a) :
    ∀ a ∈ L'.areas, P a := by
  induction h with
  | refl => exact hP
  | tail _ h ih => exact h.forall_areas hi ih

end Ya2yOS.Mm
