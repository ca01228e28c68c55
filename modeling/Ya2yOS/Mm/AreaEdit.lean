import Ya2yOS.Mm.Calls
import Ya2yOS.Mm.HeapShm

/-!
# What the operations do to the vector of areas

The order of the areas and the groups they belong to, one edit at a time. An invariant of the vector, the areas held
outside it and the groups is proved for the edits and holds across the operations.
-/

namespace Ya2yOS.Mm

open Lib Option Logged

/-- The areas of an address space, those the running operation holds, and the shared groups. -/
structure AreaTable where
  areas : List MapArea
  loose : List MapArea
  groups : GroupManager

def MemorySetInner.table (s : MemorySetInner) (g : Globals) : AreaTable := ⟨s.areas, [], g.groups⟩

/-- What an operation brings along: the areas it may create next to a list of areas, and whether
it may split a part off an area without adding the part to the area's group. -/
structure AreaCtx where
  admits : List MapArea → MapArea → Prop
  silent : Prop

/-- Areas of one origin: mapped in one call, or inherited from such an area. -/
structure Kin (p a : MapArea) : Prop where
  type : p.areaType = a.areaType
  group : p.groupid = a.groupid
  shared : p.mmapFlags.shared = a.mmapFlags.shared
  stack : p.mmapFlags.stack = a.mmapFlags.stack

lemma Kin.isMmapVma {p a : MapArea} (h : Kin p a) : p.isMmapVma = a.isMmapVma := by
  rw [MapArea.isMmapVma, MapArea.isMmapVma, h.type, h.stack]

/-- A part of an area, without its records: it has pages if the area has. -/
structure Slice (p a : MapArea) : Prop extends Kin p a where
  lower : a.vpnRange.start ≤ p.vpnRange.start
  upper : p.vpnRange.stop ≤ a.vpnRange.stop
  proper : a.Proper → p.Proper

lemma Piece.slice {b e : ℕ} {perm : MapPermission} {p a : MapArea} (h : Piece b e perm p a) : Slice p a :=
  ⟨⟨h.type, h.group, congrArg _ h.flags, congrArg _ h.flags⟩, h.lower, h.upper, h.proper⟩

namespace GroupManager

structure SameCounts (m m' : GroupManager) : Prop where
  unused : m'.unusedId = m.unusedId
  count : ∀ id, (m'.groups.get? id).map GroupInner.mapareaNum = (m.groups.get? id).map GroupInner.mapareaNum

lemma SameCounts.refl (m : GroupManager) : SameCounts m m := ⟨rfl, fun _ => rfl⟩

lemma SameCounts.trans {m₁ m₂ m₃ : GroupManager} (h : m₁.SameCounts m₂) (h' : m₂.SameCounts m₃) : m₁.SameCounts m₃ :=
  ⟨h'.unused.trans h.unused, fun id => (h'.count id).trans (h.count id)⟩

def addAreas (m : GroupManager) (l : List MapArea) : GroupManager :=
  l.foldl (fun m a => m.addArea a.groupid) m

/-- What a new mapping does to the groups: a shared one takes a free identifier and joins. -/
def Opens (m m' : GroupManager) (a : MapArea) : Prop :=
  (a.groupid = 0 ∧ m' = m) ∨
    (a.isMmapVma = true ∧ a.mmapFlags.shared = true ∧ a.groupid = m.allocId.1 ∧
      m' = m.allocId.2.addArea a.groupid)

end GroupManager

/-- One edit of the areas. -/
inductive AreaEdit (κ : AreaCtx) : AreaTable → AreaTable → Prop
  | record {l u : List MapArea} {m : GroupManager} {i : ℕ} {a : MapArea} (h : l[i]? = some a) (f : OrdMap ℕ ℕ) :
      AreaEdit κ ⟨l, u, m⟩ ⟨l.set i { a with dataFrames := f }, u, m⟩
  | fill {l u : List MapArea} {m : GroupManager} (a : MapArea) (f : OrdMap ℕ ℕ) :
      AreaEdit κ ⟨l, a :: u, m⟩ ⟨l, { a with dataFrames := f } :: u, m⟩
  | publish {l u : List MapArea} {m m' : GroupManager} (h : m.SameCounts m') : AreaEdit κ ⟨l, u, m⟩ ⟨l, u, m'⟩
  | carve {l u : List MapArea} {m : GroupManager} {i : ℕ} {a : MapArea} (h : l[i]? = some a) (p : MapArea)
      (ps : List MapArea) (hs : ∀ q ∈ p :: ps, Slice q a) (hp : (p :: ps).Pairwise MapArea.Apart) :
      AreaEdit κ ⟨l, u, m⟩ ⟨l.set i p, u ++ ps, m.addAreas ps⟩
  | tear {l u : List MapArea} {m : GroupManager} {i : ℕ} {a : MapArea} (h : l[i]? = some a) (p q : MapArea)
      (hp : Slice p a) (hq : Slice q a) (hpq : p.Apart q) (hg : a.groupid = 0 ∨ κ.silent) :
      AreaEdit κ ⟨l, u, m⟩ ⟨l.set i p, u ++ [q], m⟩
  | lift {l u : List MapArea} {m : GroupManager} {i : ℕ} {a : MapArea} (h : l[i]? = some a) :
      AreaEdit κ ⟨l, u, m⟩ ⟨l.eraseIdx i, a :: u, m⟩
  | drop {l u : List MapArea} {m m' : GroupManager} (a : MapArea) (h : m.delArea a.groupid = some m') :
      AreaEdit κ ⟨l, a :: u, m⟩ ⟨l, u, m'⟩
  | create {l u : List MapArea} {m m' : GroupManager} (a : MapArea) (ha : κ.admits (u ++ l) a)
      (hg : m.Opens m' a) : AreaEdit κ ⟨l, u, m⟩ ⟨l, u ++ [a], m'⟩
  | adopt {l u : List MapArea} {m : GroupManager} (a b : MapArea) (hb : b ∈ l) (hk : Kin a b)
      (ha : κ.admits (u ++ l) a) : AreaEdit κ ⟨l, u, m⟩ ⟨l, u ++ [a], m.addArea a.groupid⟩
  | place {l u : List MapArea} {m : GroupManager} (a : MapArea) :
      AreaEdit κ ⟨l, a :: u, m⟩ ⟨(insertAreaSortedUnmerged l a).1, u, m⟩
  | merge {l l' u : List MapArea} {m : GroupManager} {i : ℕ} (h : mergeAt l i = some l') :
      AreaEdit κ ⟨l, u, m⟩ ⟨l', u, m⟩
  | widen {l : List MapArea} {m : GroupManager} {i : ℕ} {a : MapArea} (h : l[i]? = some a) (r : VPNRange)
      (hl : r.start ≤ a.vpnRange.start) (hr : a.vpnRange.stop ≤ r.stop)
      (hfree : ∀ b ∈ l.eraseIdx i, (r.start < a.vpnRange.start → ¬ b.overlaps r.start a.vpnRange.start) ∧
        (a.vpnRange.stop < r.stop → ¬ b.overlaps a.vpnRange.stop r.stop)) :
      AreaEdit κ ⟨l, [], m⟩ ⟨l.set i { a with vpnRange := r }, [], m⟩

abbrev AreaEdits (κ : AreaCtx) : AreaTable → AreaTable → Prop := Relation.ReflTransGen (AreaEdit κ)

variable {κ : AreaCtx} {l : List MapArea} {m : Bool}

lemma insertAreaSorted_areaEdits (l u : List MapArea) (m : GroupManager) (a : MapArea) :
    AreaEdits κ ⟨l, a :: u, m⟩ ⟨insertAreaSorted l a, u, m⟩ :=
  .head (.place a) ((mergeAdjacentAreas_merges _ _ _).lift (AreaTable.mk · u m) fun _ _ h => .merge h.choose_spec)

/-! ### Removal -/

lemma punch_slices {a : MapArea} {b e : ℕ} {left right : Option MapArea} (hbe : b < e)
    (hov : a.overlaps b e) (h : MemorySetInner.punch m a b e = (left, right)) :
    (∀ p ∈ left, Slice p a) ∧ (∀ q ∈ right, Slice q a ∧ a.vpnRange.start < b ∧ e < a.vpnRange.stop ∧
      ∃ p ∈ left, p.Apart q) := by
  obtain ⟨hlow, hhigh⟩ := hov
  unfold MemorySetInner.punch at h
  dsimp only at h
  generalize (if m = true then a.mmapFile.advance (e - a.vpnRange.start) else a.mmapFile) = file at h
  split_ifs at h with h1 h2 h3
  · cases h
    simp
  · cases h
    simp only [mem_some, forall_eq', not_mem_none, false_imp_iff, implies_true, and_true]
    exact ⟨⟨rfl, rfl, rfl, rfl⟩, le_rfl, hhigh.le, fun _ => h2.1⟩
  · cases h
    simp only [mem_some, forall_eq', not_mem_none, false_imp_iff, implies_true, and_true]
    exact ⟨⟨rfl, rfl, rfl, rfl⟩, hlow.le, le_rfl, fun _ => h3.2⟩
  cases h
  have hleft : a.vpnRange.start < b := by omega
  have hright : e < a.vpnRange.stop := by omega
  simp only [mem_some, forall_eq', exists_eq_left']
  exact ⟨⟨⟨rfl, rfl, rfl, rfl⟩, le_rfl, hhigh.le, fun _ => hleft⟩,
    ⟨⟨rfl, rfl, rfl, rfl⟩, hlow.le, le_rfl, fun _ => hright⟩, hleft, hright, .inl hbe.le⟩

/-- No area of a group is torn by the removal of a range from its middle, and the heap has none. -/
def HoleFree (l : List MapArea) (b e : ℕ) : Prop :=
  ∀ a ∈ l, a.groupid ≠ 0 → a.areaType ≠ .brk ∧ ¬ (a.vpnRange.start < b ∧ e < a.vpnRange.stop)
deriving Decidable

lemma HoleFree.trims {b e : ℕ} {L L' : Layout} (h : Trims L L') (hL : HoleFree L.areas b e) :
    HoleFree L'.areas b e := by
  refine h.forall_areas ⟨?_, fun _ _ h => h, ?_⟩ hL
  · intro p a hp ha hg
    obtain ⟨ht, hn⟩ := ha (hp.group ▸ hg)
    refine ⟨hp.type ▸ ht, fun hin => hn ⟨?_, ?_⟩⟩
    · exact lt_of_le_of_lt hp.lower hin.1
    · exact lt_of_lt_of_le hin.2 hp.upper
  · intro a c hm _ _ hg
    simp only [canMergeAreas, Bool.and_eq_true, decide_eq_true_eq] at hm
    exact absurd hm.1.1.1.1.1.2 hg

def HeapUngrouped (l : List MapArea) : Prop := ∀ a ∈ l, a.areaType = .brk → a.groupid = 0

lemma HoleFree.heapUngrouped {b e : ℕ} (h : HoleFree l b e) : HeapUngrouped l := by
  intro a ha ht
  by_contra hne
  exact (h a ha hne).1 ht

lemma HeapUngrouped.trims {L L' : Layout} (h : Trims L L') (hL : HeapUngrouped L.areas) : HeapUngrouped L'.areas := by
  refine h.forall_areas ⟨?_, fun _ _ h => h, ?_⟩ hL
  · intro p a hp ha ht
    rw [hp.group]
    exact ha (hp.type ▸ ht)
  · intro a c _ ha _ ht
    exact ha ht

namespace MemorySetInner

lemma settle_areaEdits {s₀ s₁ : MemorySetInner} {g g₁ : Globals} {i : ℕ} {a a' : MapArea} {b e : ℕ}
    {left right : Option MapArea} (hi : l[i]? = some a) (ha : a' = { a with dataFrames := a'.dataFrames })
    (hbe : b < e) (hov : a.overlaps b e) (hp : punch m a' b e = (left, right))
    (hg : right = none ∨ a.groupid = 0 ∨ κ.silent) (hs : s₀.settle g i a' left = some (s₁, g₁)) (h₀ : s₀.areas = l) :
    AreaEdits κ ⟨l, [], g.groups⟩ ⟨s₁.areas, right.toList, g₁.groups⟩ := by
  have hov' : a'.overlaps b e := by rw [ha]; exact hov
  obtain ⟨hleft, hright⟩ := punch_slices hbe hov' hp
  have hlen := (List.getElem?_eq_some_iff.1 hi).1
  have hrec : AreaEdit κ ⟨l, [], g.groups⟩ ⟨l.set i a', [], g.groups⟩ := by
    rw [ha]
    exact .record hi _
  have hi' : (l.set i a')[i]? = some a' := by simp [hlen]
  cases left with
  | none =>
    cases right with
    | some q =>
      obtain ⟨-, -, -, p, hp, -⟩ := hright q rfl
      cases hp
    | none =>
      simp only [settle, bind_eq_bind, bind_eq_some_iff] at hs
      obtain ⟨g₂, hdrop, hs⟩ := hs
      cases hs
      obtain ⟨groups, hdel, rfl⟩ := map_eq_some_iff.1 hdrop
      have hlift : AreaEdit κ ⟨l.set i a', [], g.groups⟩ ⟨l.eraseIdx i, [a'], g.groups⟩ := by
        have := AreaEdit.lift (κ := κ) (u := []) (m := g.groups) hi'
        rwa [List.eraseIdx_set_eq] at this
      rw [h₀]
      exact .head hrec (.head hlift (.single (.drop a' hdel)))
  | some p =>
    obtain ⟨rfl, rfl⟩ := hs
    have hset : s₀.areas.set i p = (l.set i a').set i p := by rw [h₀, List.set_set]
    rw [hset]
    cases right with
    | none => exact .head hrec (.single (.carve hi' p [] (by simpa using hleft p rfl) (by simp)))
    | some q =>
      obtain ⟨hq, -, -, p', hp', hpq⟩ := hright q rfl
      cases hp'
      have hga : a'.groupid = 0 ∨ κ.silent := by
        rw [ha]
        exact hg.resolve_left (by simp)
      exact .head hrec (.single (.tear hi' p q (hleft p rfl) hq hpq hga))

lemma tears_of_holeFree {i : ℕ} {a a' : MapArea} {b e : ℕ} {left right : Option MapArea} (hi : l[i]? = some a)
    (ha : a' = { a with dataFrames := a'.dataFrames }) (hbe : b < e) (hov : a.overlaps b e)
    (hp : punch m a' b e = (left, right)) (hh : κ.silent ∨ HoleFree l b e) :
    right = none ∨ a.groupid = 0 ∨ κ.silent := by
  cases right with
  | none => exact .inl rfl
  | some q =>
    have hov' : a'.overlaps b e := by rw [ha]; exact hov
    obtain ⟨-, hlow, hhigh, -⟩ := (punch_slices hbe hov' hp).2 q rfl
    rw [ha] at hlow hhigh
    rcases hh with hsil | hfree
    · exact .inr (.inr hsil)
    · right
      left
      by_contra hne
      exact (hfree a (List.mem_of_getElem? hi) hne).2 ⟨hlow, hhigh⟩

variable {m : Bool} {b e : ℕ} {s s' : MemorySetInner} {g g' : Globals} {addr len : ℕ} {r : SyscallRet}

lemma Round.areaEdits (hbe : b < e) (hh : κ.silent ∨ if m then HoleFree s.areas b e else HeapUngrouped s.areas)
    (h : Round m b e s g s' g') : AreaEdits κ (s.table g) (s'.table g') := by
  obtain @⟨s₁, pt, i, _, a, a', left, right, hi, hrem, hov, hun, hp, hs, -, hareas⟩ := h
  have ha := (unmapPages_spec s.pageTable a (max a.vpnRange.start b) (min a.vpnRange.stop e)).area
  rw [hun] at ha
  have htears : right = none ∨ a.groupid = 0 ∨ κ.silent := by
    cases m with
    | true => exact tears_of_holeFree hi ha hbe hov hp hh
    | false => exact .inr (hh.symm.imp_left fun hz => hz a (List.mem_of_getElem? hi) (by simpa [removes] using hrem))
  have hcut := settle_areaEdits hi ha hbe hov hp htears hs rfl
  rw [table, table, hareas]
  cases right with
  | none => exact hcut
  | some q =>
    cases m with
    | true => exact hcut.trans (insertAreaSorted_areaEdits _ [] _ q)
    | false => exact hcut.tail (.place q)

lemma Rounds.areaEdits {n : ℕ} (hbe : b < e) (hal : m = true → ∀ a ∈ s.areas, CutsAligned b e a)
    (hh : κ.silent ∨ if m then HoleFree s.areas b e else HeapUngrouped s.areas) (h : Rounds m b e n s g s' g') :
    AreaEdits κ (s.table g) (s'.table g') := by
  induction h with
  | out | stop => exact .refl
  | round h _ ih =>
    have htrim := h.trims hbe hal
    refine (h.areaEdits hbe hh).trans (ih (fun hm => CutsAligned.trims htrim (hal hm)) (hh.imp_right fun hh => ?_))
    cases m with
    | true => exact HoleFree.trims htrim hh
    | false => exact HeapUngrouped.trims htrim hh

lemma removeBrkRange_areaEdits (hh : κ.silent ∨ HeapUngrouped s.areas)
    (h : s.removeBrkRange g b e = some (s', g')) : AreaEdits κ (s.table g) (s'.table g') := by
  unfold removeBrkRange at h
  split_ifs at h with hle
  · cases h
    exact .refl
  · have hrounds := removeLoop_rounds _ h
    exact hrounds.areaEdits (by omega) (fun hm => by cases hm) (by exact hh)

lemma munmap_areaEdits (hh : κ.silent ∨ HoleFree s.areas (floorVpn addr) (ceilVpn (addr + len)))
    (h : s.munmap g addr len = some (r, s', g')) : AreaEdits κ (s.table g) (s'.table g') := by
  obtain ⟨-, rfl, rfl⟩ | ⟨-, hlt, hal, s₁, hint, hloop, rfl⟩ := munmap_cases h
  · exact .refl
  · have hedits := (removeLoop_rounds _ hloop).areaEdits hlt (fun _ => hal) (by exact hh)
    exact hedits

lemma clearFixed_areaEdits (hh : κ.silent ∨ HoleFree s.areas (floorVpn addr) (ceilVpn (addr + len)))
    (h : s.clearFixed g addr len (floorVpn addr) (ceilVpn (addr + len)) = some (s', g')) :
    AreaEdits κ (s.table g) (s'.table g') := by
  simp only [clearFixed, Conv.clearFixed, result_bind, bind_eq_some_iff, Prod.exists] at h
  obtain ⟨s₁, g₁, h1, r, s₂, g₂, h2, h⟩ := h
  cases h
  have htrim := removeBrkRange_trims h1
  exact (removeBrkRange_areaEdits (hh.imp_right HoleFree.heapUngrouped) h1).trans
    (munmap_areaEdits (hh.imp_right (HoleFree.trims htrim)) h2)

end MemorySetInner

end Ya2yOS.Mm
