import Ya2yOS.Mm.AreaEditFault

/-!
# The groups of shared areas count their areas

A `MAP_SHARED` mapping belongs to a group, and so do its parts and copies; the last area to be dropped returns the
identifier. Every edit keeps the count right, as long as no part is split off silently.
-/

namespace Ya2yOS.Mm

open Lib List

def MapArea.tag (a : MapArea) : ℕ × Bool := (a.groupid, a.isMmapVma && a.mmapFlags.shared)

variable {a : MapArea} {i : ℕ} {l : List MapArea}

lemma Kin.tag {p : MapArea} (h : Kin p a) : p.tag = a.tag := by
  rw [MapArea.tag, MapArea.tag, h.isMmapVma, h.group, h.shared]

def members (id : ℕ) (l : List MapArea) : ℕ := l.countP (·.groupid = id)

lemma members_eq (id : ℕ) (l : List MapArea) : members id l = (l.map MapArea.tag).countP (·.1 = id) := by
  rw [members, countP_map]
  rfl

lemma members_cons (id : ℕ) (a : MapArea) (l : List MapArea) :
    members id (a :: l) = members id l + if a.groupid = id then 1 else 0 := by
  simp [members, countP_cons]

lemma members_pos (h : a ∈ l) : 0 < members a.groupid l :=
  countP_pos_iff.2 ⟨a, h, by simp⟩

/-- The groups count the areas of a list: each identifier in use has a group with the number of its
areas, a free one has none, and only shared mappings have one. -/
structure Counted (l : List MapArea) (m : GroupManager) : Prop where
  number : ∀ id, id ≠ 0 → (m.groups.get? id).map GroupInner.mapareaNum =
    if members id l = 0 then none else some (members id l)
  distinct : m.unusedId.Nodup
  nonzero : 0 ∉ m.unusedId
  free : ∀ id ∈ m.unusedId, m.groups.get? id = none
  shared : ∀ a ∈ l, a.groupid ≠ 0 → a.isMmapVma = true ∧ a.mmapFlags.shared = true

namespace Counted

variable {l l' : List MapArea} {m m' : GroupManager} {a : MapArea}

lemma of_tags (h : Counted l m) (hp : (l.map MapArea.tag).Perm (l'.map MapArea.tag)) : Counted l' m := by
  refine ⟨?_, h.distinct, h.nonzero, h.free, ?_⟩
  · intro id hid
    rw [members_eq, ← hp.countP_eq, ← members_eq]
    exact h.number id hid
  intro b hb hg
  have htag : b.tag ∈ l.map MapArea.tag := hp.mem_iff.2 (mem_map_of_mem hb)
  obtain ⟨c, hc, heq⟩ := mem_map.1 htag
  simp only [MapArea.tag, Prod.mk.injEq] at heq
  have hshared := h.shared c hc (by rw [heq.1]; exact hg)
  rw [hshared.1, hshared.2] at heq
  simpa using heq.2.symm

lemma perm (h : Counted l m) (hp : l.Perm l') : Counted l' m := h.of_tags (hp.map _)

lemma group_of_mem (h : Counted l m) (ha : a ∈ l) (hg : a.groupid ≠ 0) :
    ∃ grp, m.groups.get? a.groupid = some grp ∧ grp.mapareaNum = members a.groupid l := by
  have hn := h.number a.groupid hg
  rw [if_neg (members_pos ha).ne'] at hn
  obtain ⟨grp, hgrp, hnum⟩ := Option.map_eq_some_iff.1 hn
  exact ⟨grp, hgrp, hnum⟩

lemma not_free (h : Counted l m) (ha : a ∈ l) : a.groupid ∉ m.unusedId := by
  intro hu
  by_cases hg : a.groupid = 0
  · exact h.nonzero (hg ▸ hu)
  · obtain ⟨grp, hgrp, -⟩ := h.group_of_mem ha hg
    rw [h.free _ hu] at hgrp
    cases hgrp

lemma cons_ungrouped (ha : a.groupid = 0) : Counted (a :: l) m ↔ Counted l m := by
  have hsame : ∀ id, id ≠ 0 → members id (a :: l) = members id l := by
    intro id hid
    rw [members_cons, ha, if_neg hid.symm, Nat.add_zero]
  constructor
  · intro h
    refine ⟨fun id hid => ?_, h.distinct, h.nonzero, h.free, fun b hb => h.shared b (mem_cons_of_mem _ hb)⟩
    rw [← hsame id hid]
    exact h.number id hid
  · intro h
    refine ⟨fun id hid => ?_, h.distinct, h.nonzero, h.free, forall_mem_cons.2 ⟨fun hg => absurd ha hg, h.shared⟩⟩
    rw [hsame id hid]
    exact h.number id hid

lemma addArea (h : Counted l m) (hfree : a.groupid ∉ m.unusedId)
    (ha : a.groupid ≠ 0 → a.isMmapVma = true ∧ a.mmapFlags.shared = true) : Counted (a :: l) (m.addArea a.groupid) := by
  by_cases hg : a.groupid = 0
  · rw [cons_ungrouped hg, GroupManager.addArea, if_pos hg]
    exact h
  obtain ⟨grp, hm, hnum⟩ : ∃ grp : GroupInner, m.addArea a.groupid =
      { m with groups := m.groups.insert a.groupid grp } ∧ grp.mapareaNum = members a.groupid l + 1 := by
    have hn := h.number a.groupid hg
    rw [GroupManager.addArea, if_neg hg]
    cases hget : m.groups.get? a.groupid with
    | none =>
      rw [hget] at hn
      refine ⟨_, rfl, ?_⟩
      by_contra hne
      rw [if_neg (fun h0 => hne (by rw [h0]))] at hn
      cases hn
    | some grp =>
      refine ⟨_, rfl, ?_⟩
      rw [hget, Option.map_some] at hn
      split_ifs at hn
      rw [Option.some.inj hn]
  rw [hm]
  refine ⟨fun id hid => ?_, h.distinct, h.nonzero, fun id hid => ?_, forall_mem_cons.2 ⟨ha, h.shared⟩⟩
  · rw [members_cons, OrdMap.get?_insert]
    by_cases heq : id = a.groupid
    · rw [if_pos heq, if_pos heq.symm, if_neg (by omega), Option.map_some, hnum, heq]
    · have hne : ¬ a.groupid = id := fun heq' => heq heq'.symm
      rw [if_neg heq, if_neg hne, Nat.add_zero]
      exact h.number id hid
  · have hne : ¬ id = a.groupid := fun heq => hfree (heq ▸ hid)
    rw [OrdMap.get?_insert, if_neg hne]
    exact h.free id hid

lemma addAreas (ps : List MapArea) (h : Counted l m) (ha : a ∈ l) (hps : ∀ q ∈ ps, q.tag = a.tag) :
    Counted (ps ++ l) (m.addAreas ps) := by
  induction ps generalizing l m with
  | nil => exact h
  | cons q ps ih =>
    have htag := hps q mem_cons_self
    simp only [MapArea.tag, Prod.mk.injEq] at htag
    have hfree : q.groupid ∉ m.unusedId := by
      rw [htag.1]
      exact h.not_free ha
    have hshared : q.groupid ≠ 0 → q.isMmapVma = true ∧ q.mmapFlags.shared = true := by
      intro hg
      rw [htag.1] at hg
      obtain ⟨h1, h2⟩ := h.shared a ha hg
      rw [h1, h2] at htag
      simpa using htag.2
    have hrest := ih (h.addArea hfree hshared) (mem_cons_of_mem _ ha) (fun q' hq' => hps q' (mem_cons_of_mem _ hq'))
    exact hrest.perm perm_middle

lemma delArea_isSome (h : Counted l m) (ha : a ∈ l) : (m.delArea a.groupid).isSome = true := by
  unfold GroupManager.delArea
  split
  · rfl
  next hg =>
  obtain ⟨grp, hgrp, -⟩ := h.group_of_mem ha hg
  rw [hgrp]
  dsimp only
  generalize (if grp.mapareaNum = 0 then wordSize - 1 else grp.mapareaNum - 1) = num
  split
  · rfl
  · rfl

lemma delArea (h : Counted (a :: l) m) (hm : m.delArea a.groupid = some m') : Counted l m' := by
  by_cases hg : a.groupid = 0
  · rw [GroupManager.delArea, if_pos hg] at hm
    rw [← Option.some.inj hm]
    exact (cons_ungrouped hg).1 h
  obtain ⟨grp, hgrp, hnum⟩ := h.group_of_mem mem_cons_self hg
  have hone : members a.groupid (a :: l) = members a.groupid l + 1 := by rw [members_cons, if_pos rfl]
  rw [hone] at hnum
  have hother : ∀ id, id ≠ a.groupid → members id (a :: l) = members id l := by
    intro id hid
    rw [members_cons, if_neg hid.symm, Nat.add_zero]
  have hshared : ∀ b ∈ l, b.groupid ≠ 0 → b.isMmapVma = true ∧ b.mmapFlags.shared = true :=
    fun b hb => h.shared b (mem_cons_of_mem _ hb)
  simp only [GroupManager.delArea, if_neg hg, hgrp, hnum, Nat.add_one_ne_zero, if_false, Nat.add_sub_cancel] at hm
  split_ifs at hm with hlast
  · -- the last area: the group goes and its identifier is free again
    cases hm
    refine ⟨fun id hid => ?_, ?_, ?_, ?_, hshared⟩
    · rw [OrdMap.get?_erase]
      by_cases heq : id = a.groupid
      · rw [if_pos heq, heq, hlast, if_pos rfl, Option.map_none]
      · rw [if_neg heq, ← hother id heq]
        exact h.number id hid
    · exact nodup_cons.2 ⟨h.not_free mem_cons_self, h.distinct⟩
    · rw [mem_cons, not_or]
      exact ⟨fun h0 => hg h0.symm, h.nonzero⟩
    · intro id hid
      rw [OrdMap.get?_erase]
      rcases mem_cons.1 hid with rfl | hid
      · rw [if_pos rfl]
      · split_ifs
        · rfl
        · exact h.free id hid
  · cases hm
    refine ⟨fun id hid => ?_, h.distinct, h.nonzero, fun id hid => ?_, hshared⟩
    · rw [OrdMap.get?_insert]
      by_cases heq : id = a.groupid
      · rw [if_pos heq, Option.map_some, heq, if_neg hlast]
      · rw [if_neg heq, ← hother id heq]
        exact h.number id hid
    · rw [OrdMap.get?_insert, if_neg]
      · exact h.free id hid
      · rintro rfl
        exact h.not_free mem_cons_self hid

lemma sameCounts (h : Counted l m) (hs : m.SameCounts m') : Counted l m' := by
  refine ⟨fun id hid => ?_, ?_, ?_, fun id hid => ?_, h.shared⟩
  · rw [hs.count]
    exact h.number id hid
  · rw [hs.unused]
    exact h.distinct
  · rw [hs.unused]
    exact h.nonzero
  · rw [hs.unused] at hid
    have hc := hs.count id
    rw [h.free id hid] at hc
    simpa using hc

lemma opens (h : Counted l m) (ho : m.Opens m' a) : Counted (a :: l) m' := by
  rcases ho with ⟨hg, rfl⟩ | ⟨hm, hs, hid, rfl⟩
  · exact (cons_ungrouped hg).2 h
  unfold GroupManager.allocId at hid ⊢
  split at hid
  · rw [hid]
    exact (cons_ungrouped hid).2 h
  next id rest hu =>
  have hd := h.distinct
  rw [hu, nodup_cons] at hd
  have hrest : Counted l { m with unusedId := rest } :=
    ⟨h.number, hd.2, fun h0 => h.nonzero (hu ▸ mem_cons_of_mem _ h0),
      fun j hj => h.free j (hu ▸ mem_cons_of_mem _ hj), h.shared⟩
  have hid' : a.groupid = id := hid
  apply hrest.addArea
  · rw [hid']
    exact hd.1
  · exact fun _ => ⟨hm, hs⟩

end Counted

/-- Any area may be created, but no part is split off silently. -/
def countingCtx : AreaCtx := ⟨fun _ _ => True, False⟩

def AreaTable.live (T : AreaTable) (rest : List MapArea) : List MapArea := T.loose ++ (T.areas ++ rest)

lemma tags_of_getElem? (h : l[i]? = some a) : (l.map MapArea.tag).Perm (a.tag :: (l.eraseIdx i).map MapArea.tag) :=
  (perm_of_getElem? h).map MapArea.tag

lemma tags_set {p : MapArea} (h : l[i]? = some a) (hp : p.tag = a.tag) :
    (l.map MapArea.tag).Perm ((l.set i p).map MapArea.tag) := by
  refine (tags_of_getElem? h).trans ?_
  have hset := (set_perm h p).map MapArea.tag
  rw [map_cons, hp] at hset
  exact hset.symm

namespace Counted

variable {T T' : AreaTable} {rest : List MapArea}

lemma replace {u : List MapArea} {m : GroupManager} {p : MapArea} (h : Counted (AreaTable.live ⟨l, u, m⟩ rest) m)
    (hi : l[i]? = some a) (hp : p.tag = a.tag) : Counted (AreaTable.live ⟨l.set i p, u, m⟩ rest) m := by
  apply h.of_tags
  simp only [AreaTable.live, map_append]
  exact ((tags_set hi hp).append_right _).append_left _

lemma step (h : Counted (T.live rest) T.groups) (he : AreaEdit countingCtx T T') :
    Counted (T'.live rest) T'.groups := by
  cases he with
  | record hi f => exact h.replace hi rfl
  | fill a f => exact h.of_tags (.refl _)
  | publish hs => exact h.sameCounts hs
  | @carve l u m i a hi p ps hs hp =>
    have hset := h.replace hi (hs p mem_cons_self).tag
    have hmem : p ∈ AreaTable.live ⟨l.set i p, u, m⟩ rest := by
      have hlen := (List.getElem?_eq_some_iff.1 hi).1
      exact List.mem_append_right _ (List.mem_append_left _ (List.mem_of_getElem? (i := i) (by simp [hlen])))
    have hadd := hset.addAreas ps hmem fun q hq =>
      (hs q (mem_cons_of_mem _ hq)).tag.trans (hs p mem_cons_self).tag.symm
    apply hadd.perm
    simp only [AreaTable.live, ← append_assoc]
    exact (List.perm_append_comm.append_right _).append_right _
  | @tear l u m i a hi p q hp hq hpq hg =>
    have hset := h.replace hi hp.tag
    have hzero : q.groupid = 0 := by
      rcases hg with hg | hg
      · exact hq.group.trans hg
      · exact absurd hg id
    apply ((cons_ungrouped hzero).2 hset).perm
    simp only [AreaTable.live, append_assoc, List.singleton_append]
    exact perm_middle.symm
  | @lift l u m i a hi =>
    apply h.perm
    simp only [AreaTable.live, List.cons_append]
    refine (((perm_of_getElem? hi).append_right rest).append_left u).trans ?_
    exact perm_middle
  | drop a hm => exact Counted.delArea h hm
  | @create l u m m' a ha hg =>
    apply (h.opens hg).perm
    simp only [AreaTable.live, append_assoc, List.singleton_append]
    exact perm_middle.symm
  | @adopt l u m a b hb hk ha =>
    have hmem : b ∈ AreaTable.live ⟨l, u, m⟩ rest := List.mem_append_right _ (List.mem_append_left _ hb)
    apply (h.addAreas [a] hmem (by simpa using hk.tag)).perm
    simp only [AreaTable.live, append_assoc, List.singleton_append]
    exact perm_middle.symm
  | @place l u m a =>
    apply h.perm
    have hins : (a :: l).Perm (insertAreaSortedUnmerged l a).1 := (List.perm_insertIdx a l (searchIdx_le _ _ _)).symm
    exact perm_middle.symm.trans ((hins.append_right rest).append_left u)
  | @merge l l' u m i hm =>
    unfold mergeAt at hm
    split at hm
    · next left right hleft hright =>
      split_ifs at hm with hcan
      cases hm
      simp only [canMergeAreas, Bool.and_eq_true, decide_eq_true_eq] at hcan
      have hzero : right.groupid = 0 := hcan.1.1.1.1.2
      have hrest : Counted (right :: AreaTable.live ⟨l.eraseIdx (i + 1), u, m⟩ rest) m := by
        apply h.perm
        refine (((perm_of_getElem? hright).append_right rest).append_left u).trans ?_
        exact perm_middle
      have hleft' : (l.eraseIdx (i + 1))[i]? = some left := by
        rw [List.getElem?_eraseIdx_of_lt (by omega)]
        exact hleft
      exact ((cons_ungrouped hzero).1 hrest).replace hleft' rfl
    · cases hm
  | widen hi r hl hr hfree => exact h.replace hi rfl

lemma edits (h : Counted (T.live rest) T.groups) (he : AreaEdits countingCtx T T') :
    Counted (T'.live rest) T'.groups := by
  induction he with
  | refl => exact h
  | tail _ he ih => exact ih.step he

end Counted

end Ya2yOS.Mm
