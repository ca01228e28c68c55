import Ya2yOS.Fs.PageCache

/-!
# Fresh pages

A page in the cache was read by a load that began after every write that has changed it and has removed its pages, so
a read returns nothing older than the writes that were done when it began.
-/

namespace Ya2yOS.Fs

open Function Lib List Nat

lemma pageSize_pos : 0 < PAGE_SIZE := by decide

section Pages

variable {c : List Byte} {k i off size : ℕ} {data : List Byte}

variable {l : List Byte} {n : ℕ}

lemma getElem?_pageOf : (pageOf l k)[i]? = if i < PAGE_SIZE then l[k * PAGE_SIZE + i]? else none := by
  unfold pageOf
  rw [getElem?_take, getElem?_drop]

lemma length_pageOf : (pageOf c k).length = min PAGE_SIZE (c.length - k * PAGE_SIZE) := by
  unfold pageOf
  rw [length_take, length_drop]

lemma pageOf_eq_nil (h : c.length ≤ k * PAGE_SIZE) : pageOf c k = [] := by
  rw [← length_eq_zero_iff, length_pageOf]
  omega

lemma take_drop_readAt (hi : i < n) :
    ((readAt c (k * PAGE_SIZE) (n * PAGE_SIZE)).drop (i * PAGE_SIZE)).take PAGE_SIZE = pageOf c (k + i) := by
  apply ext_getElem?
  intro j
  unfold readAt
  rw [getElem?_pageOf, getElem?_take]
  split_ifs with hj
  · have hin : i * PAGE_SIZE + j < n * PAGE_SIZE := by
      have : (i + 1) * PAGE_SIZE ≤ n * PAGE_SIZE := mul_le_mul_right _ hi
      rw [add_mul] at this
      omega
    rw [getElem?_drop, getElem?_take_of_lt hin, getElem?_drop, add_mul, add_assoc]
  · rfl

lemma getElem?_writeAt (hdata : data ≠ []) (j : ℕ) : (writeAt l off data)[j]? =
      if j < off then (if j < l.length then l[j]? else some 0)
      else if j < off + data.length then data[j - off]? else l[j]? := by
  unfold writeAt
  rw [if_neg hdata]
  split_ifs with h1 h2 h3
  · rw [getElem?_append_left, getElem?_append_left, getElem?_append_left, getElem?_take_of_lt h1]
    all_goals simp only [length_append, length_take, length_replicate]; omega
  · rw [getElem?_append_left, getElem?_append_left, getElem?_append_right, getElem?_replicate, if_pos]
    all_goals simp only [length_append, length_take, length_replicate]; omega
  · rw [getElem?_append_left, getElem?_append_right]
    · congr 1
      simp only [length_append, length_take, length_replicate]
      omega
    all_goals simp only [length_append, length_take, length_replicate]; omega
  · rw [getElem?_append_right, getElem?_drop]
    · congr 1
      simp only [length_append, length_take, length_replicate]
      omega
    · simp only [length_append, length_take, length_replicate]
      omega

lemma pageOf_writeAt (hdata : data ≠ []) (hoff : off / PAGE_SIZE ≤ c.length / PAGE_SIZE)
    (hk : k < off / PAGE_SIZE ∨ (off + data.length + (PAGE_SIZE - 1)) / PAGE_SIZE ≤ k) :
    pageOf (writeAt c off data) k = pageOf c k := by
  apply ext_getElem?
  intro i
  rw [getElem?_pageOf, getElem?_pageOf]
  split_ifs with hi
  · rw [getElem?_writeAt hdata]
    rcases hk with hk | hk
    · have hlt : k * PAGE_SIZE + i < off / PAGE_SIZE * PAGE_SIZE := by
        have : (k + 1) * PAGE_SIZE ≤ off / PAGE_SIZE * PAGE_SIZE := mul_le_mul_right _ hk
        rw [add_mul] at this
        omega
      have hle : off / PAGE_SIZE * PAGE_SIZE ≤ off := div_mul_le_self _ _
      have hlen : off / PAGE_SIZE * PAGE_SIZE ≤ c.length := (mul_le_mul_right _ hoff).trans (div_mul_le_self _ _)
      rw [if_pos (by omega), if_pos (by omega)]
    · have hge : off + data.length ≤ k * PAGE_SIZE := by
        have hdiv := (div_le_iff_le_mul_add_pred pageSize_pos).1 hk
        rw [mul_comm] at hdiv
        omega
      rw [if_neg (by omega), if_neg (by omega)]
  · rfl

end Pages

def PagePc.seen : PagePc → List ℕ
  | .lookup seen _ | .size seen _ | .probe seen _ _ _ | .read seen _ _ _ _ | .again seen _ _ _ _
  | .publish seen _ _ _ _ | .retry seen _ _ _ | .readahead seen _ _ _ _ | .returned seen _ _ | .rangeSize seen _ _
  | .rangeLook seen _ _ | .rangeRun seen _ _ _ | .rangeRead seen _ _ _ | .rangeInsert seen _ _ _ _ _
  | .rangeDone seen _ => seen
  | _ => []

namespace PageSystem

variable {s s' : PageSystem} {t k w since i off : ℕ} {page data : List Byte} {pc : PagePc} {cache : ℕ → Option
  (List Byte)} {pieces : List (ℕ × List Byte)} {seen : List ℕ} {x : Byte}

def FreshPieces (s : PageSystem) (seen : List ℕ) (pieces : List (ℕ × List Byte)) : Prop :=
  ∀ p ∈ pieces, ∀ i x, p.2[i]? = some x → ∀ w ∈ seen, s.Changed w ((p.1 + i) / PAGE_SIZE) → s.FreshByte w (p.1 + i) x

def FreshPages (s : PageSystem) (since : ℕ) (rest : List (ℕ × List Byte)) : Prop :=
  ∀ p ∈ rest, s.FreshPage since p.1 p.2

def Holds (s : PageSystem) : PagePc → Prop
  | .probe _ _ since fileSize => fileSize = (s.history since).length
  | .read _ _ since fileSize wanted => fileSize = (s.history since).length ∧ 0 < wanted
  | .again _ k since page rest | .publish _ k since page rest | .readahead _ k since page rest =>
    s.FreshPage since k page ∧ s.FreshPages since rest
  | .retry _ k since page => s.FreshPage since k page
  | .returned seen k page => ∀ w ∈ seen, s.Changed w k → s.FreshPage w k page
  | .rangeLook seen since r | .rangeRun seen since r _ | .rangeRead seen since r _ =>
    r.fileSize = (s.history since).length ∧ s.FreshPieces seen r.pieces
  | .rangeInsert seen since r _ data rest =>
    r.fileSize = (s.history since).length ∧ s.FreshPieces seen r.pieces ∧ s.FreshPages since rest ∧
      ∀ i x, data[i]? = some x → s.FreshByte since (r.offset + r.cursor + i) x
  | .rangeDone seen pieces => s.FreshPieces seen pieces
  | .invalidate write first last => write ≤ s.version ∧ ∀ k, s.Changed write k → first ≤ k ∧ k < last
  | .invalidateAll write => write ≤ s.version
  | _ => True

/-- Every write that has removed its pages and has changed a page that is cached, or is being loaded, is older than
the load of that page. -/
structure Coherent (s : PageSystem) : Prop where
  bounded : ∀ w ∈ s.completed, w ≤ s.version
  cached : ∀ k page, s.cache k = some page →
    ∃ since, s.FreshPage since k page ∧ ∀ w ∈ s.completed, s.Changed w k → w ≤ since
  flight : ∀ t since, (s.pc t).since = some since → since ≤ s.version ∧ ∀ w ∈ s.completed, w ≤ since
  seen : ∀ t, ∀ w ∈ (s.pc t).seen, w ∈ s.completed
  holds : ∀ t, s.Holds (s.pc t)

lemma FreshPage.mono (h : s.FreshPage since k page) (hw : w ≤ since) : s.FreshPage w k page := by
  obtain ⟨a, b, ha, hab, hb, hpage⟩ := h
  exact ⟨a, b, hw.trans ha, hab, hb, hpage⟩

lemma FreshByte.mono (h : s.FreshByte since off x) (hw : w ≤ since) : s.FreshByte w off x := by
  obtain ⟨b, hle, hb, hx⟩ := h
  exact ⟨b, hw.trans hle, hb, hx⟩

lemma freshPage_content (h : since ≤ s.version) : s.FreshPage since k (pageOf s.content k) := by
  refine ⟨s.version, s.version, h, le_rfl, le_rfl, ?_⟩
  exact take_length.symm

lemma FreshPage.byte (h : s.FreshPage w k page) (hx : page[i]? = some x) :
    i < PAGE_SIZE ∧ s.FreshByte w (k * PAGE_SIZE + i) x := by
  obtain ⟨a, b, ha, hab, hb, rfl⟩ := h
  rw [getElem?_take] at hx
  split_ifs at hx
  rw [getElem?_pageOf] at hx
  split_ifs at hx with hi
  exact ⟨hi, b, ha.trans hab, hb, hx⟩

lemma Coherent.goto (hs : s.Coherent) (hseen : ∀ w ∈ pc.seen, w ∈ s.completed)
    (hsince : ∀ since, pc.since = some since → since ≤ s.version ∧ ∀ w ∈ s.completed, w ≤ since) (hpc : s.Holds pc) :
    (s.goto t pc).Coherent := by
  have hcases : ∀ u, (s.goto t pc).pc u = pc ∨ (s.goto t pc).pc u = s.pc u := by
    intro u
    by_cases hu : u = t
    · rw [hu]
      exact .inl (update_self _ _ _)
    · exact .inr (update_of_ne hu _ _)
  refine ⟨hs.bounded, hs.cached, fun u since hu => ?_, fun u => ?_, fun u => ?_⟩
  · rcases hcases u with h | h <;> rw [h] at hu
    · exact hsince since hu
    · exact hs.flight u since hu
  · rcases hcases u with h | h <;> rw [h]
    · exact hseen
    · exact hs.seen u
  · rcases hcases u with h | h <;> rw [h]
    · exact hpc
    · exact hs.holds u

/-- A page is published by a load that all removals have found finished or not yet begun. -/
lemma Coherent.publish (hs : s.Coherent) (hpage : s.FreshPage since k page) (hle : ∀ w ∈ s.completed, w ≤ since) :
    (s.publish k page).Coherent := by
  unfold PageSystem.publish
  split_ifs with hvacant
  · refine ⟨hs.bounded, fun j other hj => ?_, hs.flight, hs.seen, hs.holds⟩
    by_cases heq : j = k
    · subst heq
      have hother : update s.cache j (some page) j = some other := hj
      rw [update_self] at hother
      cases hother
      exact ⟨since, hpage, fun w hw _ => hle w hw⟩
    · have hother : update s.cache k (some page) j = some other := hj
      rw [update_of_ne heq] at hother
      exact hs.cached j other hother
  · exact hs

lemma Coherent.publish_goto (hs : s.Coherent) (hpage : s.FreshPage since k page)
    (hle : ∀ w ∈ s.completed, w ≤ since) (hseen : ∀ w ∈ pc.seen, w ∈ s.completed)
    (hsince : ∀ since, pc.since = some since → since ≤ s.version ∧ ∀ w ∈ s.completed, w ≤ since) (hpc : s.Holds pc) :
    ((s.publish k page).goto t pc).Coherent := by
  have hpublished := hs.publish hpage hle
  unfold PageSystem.publish at hpublished ⊢
  split_ifs at hpublished ⊢
  · apply hpublished.goto hseen hsince
    revert hpc
    cases pc <;> exact id
  · exact hs.goto hseen hsince hpc

lemma Coherent.shrink (hs : s.Coherent)
    (h : ∀ k page, cache k = some page → s.cache k = some page) : Coherent { s with cache := cache } :=
  ⟨hs.bounded, fun k page hk => hs.cached k page (h k page hk), hs.flight, hs.seen, hs.holds⟩

section Store

variable {c : List Byte}

lemma history_store (h : w ≤ s.version) : (s.store c).history w = s.history w := update_of_ne (by omega) _ _

lemma changed_store (h : w ≤ s.version) : (s.store c).Changed w k ↔ s.Changed w k := by
  unfold Changed
  rw [history_store h, history_store (by omega)]

lemma FreshPage.store (h : s.FreshPage w k page) : (s.store c).FreshPage w k page := by
  obtain ⟨a, b, ha, hab, hb, rfl⟩ := h
  refine ⟨a, b, ha, hab, hb.trans (le_succ _), ?_⟩
  rw [history_store hb, history_store (hab.trans hb)]

lemma FreshByte.store (h : s.FreshByte w off x) : (s.store c).FreshByte w off x := by
  obtain ⟨b, hle, hb, hx⟩ := h
  exact ⟨b, hle, hb.trans (le_succ _), by rwa [history_store hb]⟩

lemma FreshPieces.store (h : s.FreshPieces seen pieces)
    (hseen : ∀ w ∈ seen, w ≤ s.version) : (s.store c).FreshPieces seen pieces := by
  intro p hp i x hx w hw hchanged
  exact (h p hp i x hx w hw ((changed_store (hseen w hw)).1 hchanged)).store

lemma FreshPages.store {rest : List (ℕ × List Byte)} (h : s.FreshPages since rest) :
    (s.store c).FreshPages since rest := fun p hp => (h p hp).store

lemma Holds.store (h : s.Holds pc) (hseen : ∀ w ∈ pc.seen, w ≤ s.version)
    (hsince : ∀ since, pc.since = some since → since ≤ s.version) : (s.store c).Holds pc := by
  cases pc with
  | idle | lookup seen k | size seen k | rangeSize seen offset len => trivial
  | probe seen k since fileSize => exact Eq.trans h (congrArg length (history_store (hsince since rfl)).symm)
  | read seen k since fileSize wanted =>
    exact ⟨Eq.trans h.1 (congrArg length (history_store (hsince since rfl)).symm), h.2⟩
  | again seen k since page rest | publish seen k since page rest | readahead seen k since page rest =>
    exact ⟨h.1.store, h.2.store⟩
  | retry seen k since page => exact FreshPage.store h
  | returned seen k page =>
    intro w hw hchanged
    exact (h w hw ((changed_store (hseen w hw)).1 hchanged)).store
  | rangeLook seen since r | rangeRun seen since r runEnd | rangeRead seen since r runEnd =>
    exact ⟨Eq.trans h.1 (congrArg length (history_store (hsince since rfl)).symm), h.2.store hseen⟩
  | rangeInsert seen since r runEnd data rest =>
    obtain ⟨hsize, hpieces, hrest, hdata⟩ := h
    exact ⟨Eq.trans hsize (congrArg length (history_store (hsince since rfl)).symm), hpieces.store hseen,
      hrest.store, fun i x hx => (hdata i x hx).store⟩
  | rangeDone seen pieces => exact FreshPieces.store h hseen
  | invalidate write first last =>
    exact ⟨h.1.trans (le_succ _), fun k hk => h.2 k ((changed_store h.1).1 hk)⟩
  | invalidateAll write => exact le_succ_of_le h

lemma Coherent.store (hs : s.Coherent) : (s.store c).Coherent := by
  refine ⟨fun w hw => (hs.bounded w hw).trans (le_succ _), fun k page hk => ?_, fun t since ht => ?_, hs.seen,
    fun t => ?_⟩
  · obtain ⟨since, hpage, hle⟩ := hs.cached k page hk
    exact ⟨since, hpage.store, fun w hw hchanged => hle w hw ((changed_store (hs.bounded w hw)).1 hchanged)⟩
  · obtain ⟨hle, hall⟩ := hs.flight t since ht
    exact ⟨hle.trans (le_succ _), hall⟩
  · exact (hs.holds t).store (fun w hw => hs.bounded w (hs.seen t w hw)) fun since ht => (hs.flight t since ht).1

end Store

section Loads

variable {fileSize frames offset len : ℕ}

lemma wantedPages_pos {hasPrevious : Bool} : 0 < wantedPages k fileSize hasPrevious := by
  exact lt_min (lt_max_of_lt_right one_pos) (by decide)

/-- What a load reads is of now, if it is not cut by the size that the file had before. -/
lemma loadedPages_fresh (hsince : since ≤ s.version) (hsize : fileSize = (s.history since).length)
    (hframes : 0 < frames) :
    s.FreshPage since k (loadedPages s.content k fileSize frames).1 ∧
      s.FreshPages since (loadedPages s.content k fileSize frames).2 := by
  unfold loadedPages
  split_ifs with hend
  · constructor
    · refine ⟨since, since, le_rfl, le_rfl, hsince, ?_⟩
      rw [pageOf_eq_nil (hsize ▸ hend), take_nil]
    · intro p hp
      cases hp
  · constructor
    · have hfirst := take_drop_readAt (c := s.content) (k := k) hframes
      simp only [hfirst]
      exact freshPage_content hsince
    intro p hp
    obtain ⟨i, hi, rfl⟩ := mem_map.1 hp
    have hlt : i < frames := by
      have := mem_range'_1.1 ((takeWhile_sublist _).subset hi)
      omega
    simp only [take_drop_readAt hlt]
    exact freshPage_content hsince

lemma getElem?_readAt :
    (readAt l offset len)[i]? = if i < len then l[offset + i]? else none := by
  unfold readAt
  rw [getElem?_take, getElem?_drop]

/-- The pages that a range covers are cut by the size that the file had before. -/
lemma coveredPages_fresh (hsince : since ≤ s.version) (hsize : fileSize = (s.history since).length) :
    s.FreshPages since (coveredPages offset (readAt s.content offset len) fileSize) := by
  intro p hp
  unfold coveredPages at hp
  split_ifs at hp with hnone
  · cases hp
  obtain ⟨k, -, hk⟩ := mem_filterMap.1 hp
  simp only at hk
  split_ifs at hk with hskip
  cases hk
  have hread : (readAt s.content offset len).length ≤ len := length_take_le _ _
  refine ⟨since, s.version, le_rfl, hsince, le_rfl, ?_⟩
  rw [length_pageOf, ← hsize]
  apply ext_getElem?
  intro i
  rw [getElem?_take, getElem?_take]
  split_ifs with hi
  · have hplace : offset + (k * PAGE_SIZE - offset + i) = k * PAGE_SIZE + i := by omega
    rw [getElem?_drop, getElem?_readAt, getElem?_pageOf, if_pos (by omega), if_pos (by omega), hplace]
    rfl
  · rfl

lemma readAt_fresh (hsince : since ≤ s.version)
    (hx : (readAt s.content offset len)[i]? = some x) : s.FreshByte since (offset + i) x := by
  rw [getElem?_readAt] at hx
  split_ifs at hx
  exact ⟨s.version, hsince, le_rfl, hx⟩

lemma FreshPieces.append
    (h : s.FreshPieces seen pieces)
    (hdata : ∀ i x, data[i]? = some x → ∀ w ∈ seen, s.Changed w ((offset + i) / PAGE_SIZE) →
      s.FreshByte w (offset + i) x) : s.FreshPieces seen (pieces ++ [(offset, data)]) := by
  intro p hp
  rcases mem_append.1 hp with hold | hnew
  · exact h p hold
  · obtain rfl := mem_singleton.1 hnew
    exact hdata

end Loads

/-! ### A step of a task -/

lemma Coherent.hit (hs : s.Coherent) (hk : s.cache k = some page) (hw : w ∈ s.completed) (hchanged : s.Changed w k) :
    s.FreshPage w k page := by
  obtain ⟨since, hpage, hle⟩ := hs.cached k page hk
  exact hpage.mono (hle w hw hchanged)

lemma Coherent.hit_byte (hs : s.Coherent) (hk : s.cache (off / PAGE_SIZE) = some page)
    (hx : ((page.drop (off % PAGE_SIZE)).take n)[i]? = some x) (hw : w ∈ s.completed)
    (hchanged : s.Changed w ((off + i) / PAGE_SIZE)) : s.FreshByte w (off + i) x := by
  rw [getElem?_take] at hx
  split_ifs at hx
  rw [getElem?_drop] at hx
  have hdiv : off / PAGE_SIZE * PAGE_SIZE + off % PAGE_SIZE = off := Nat.div_add_mod' off PAGE_SIZE
  obtain ⟨since, hpage, hle⟩ := hs.cached _ page hk
  obtain ⟨hin, hbyte⟩ := hpage.byte hx
  have hsame : (off + i) / PAGE_SIZE = off / PAGE_SIZE := by
    rw [Nat.div_eq_iff pageSize_pos]
    omega
  rw [hsame] at hchanged
  rw [← Nat.add_assoc, hdiv] at hbyte
  exact hbyte.mono (hle w hw hchanged)

/-- A removal of pages ends a write: its pages are gone, and the loads in flight have begun after it. -/
lemma Coherent.remove (hs : s.Coherent) (hw : w ≤ s.version)
    (hcache : ∀ k page, cache k = some page → s.cache k = some page ∧ ¬ s.Changed w k)
    (hflight : ∀ u since, (s.pc u).since = some since → w ≤ since) :
    Coherent { s with cache := cache, completed := w :: s.completed } := by
  refine ⟨fun v hv => ?_, fun k page hk => ?_, fun u since hu => ?_, fun u v hv => ?_, fun u => ?_⟩
  · rcases mem_cons.1 hv with rfl | hold
    · exact hw
    · exact hs.bounded v hold
  · obtain ⟨hkept, hsame⟩ := hcache k page hk
    obtain ⟨since, hpage, hle⟩ := hs.cached k page hkept
    refine ⟨since, hpage, fun v hv hchanged => ?_⟩
    rcases mem_cons.1 hv with rfl | hold
    · exact absurd hchanged hsame
    · exact hle v hold hchanged
  · obtain ⟨hle, hall⟩ := hs.flight u since hu
    refine ⟨hle, fun v hv => ?_⟩
    rcases mem_cons.1 hv with rfl | hold
    · exact hflight u since hu
    · exact hall v hold
  · exact mem_cons_of_mem _ (hs.seen u v hv)
  · have hold := hs.holds u
    revert hold
    cases s.pc u <;> exact id

/-- The next step of a task. A removal needs that no load in flight began before its write. -/
lemma Coherent.advance {frames : ℕ} {room : Bool} (hs : s.Coherent) (hpc : s.pc t = pc)
    (hremove : ∀ write first last, pc = .invalidate write first last ∨ pc = .invalidateAll write →
      ∀ u since, (s.pc u).since = some since → write ≤ since)
    (h : s.advance t frames room pc = some s') : s'.Coherent := by
  have hseen : ∀ w ∈ pc.seen, w ∈ s.completed := hpc ▸ hs.seen t
  have hflight := hs.flight t
  rw [hpc] at hflight
  have hholds : s.Holds pc := hpc ▸ hs.holds t
  -- A page that the task has loaded itself is fresh for all that it has seen.
  have hown : ∀ {since k page}, pc.since = some since → s.FreshPage since k page →
      ∀ w ∈ pc.seen, s.Changed w k → s.FreshPage w k page :=
    fun hsince hpage w hw _ => hpage.mono ((hflight _ hsince).2 w (hseen w hw))
  cases pc with
  | idle | returned seen k page | rangeDone seen pieces => cases h
  | lookup seen k =>
    simp only [PageSystem.advance] at h
    split at h <;> cases h
    · next page hk => exact hs.goto hseen nofun fun w hw => hs.hit hk (hseen w hw)
    · exact hs.goto hseen nofun trivial
  | size seen k =>
    cases h
    refine hs.goto hseen (fun since hsince => ?_) rfl
    cases hsince
    exact ⟨le_rfl, hs.bounded⟩
  | probe seen k since fileSize =>
    cases h
    exact hs.goto hseen hflight ⟨hholds, wantedPages_pos⟩
  | read seen k since fileSize wanted =>
    cases h
    exact hs.goto hseen hflight (loadedPages_fresh (hflight since rfl).1 hholds.1 (by have := hholds.2; omega))
  | again seen k since page rest =>
    simp only [PageSystem.advance] at h
    split at h <;> cases h
    · next existing hk => exact hs.goto hseen nofun fun w hw => hs.hit hk (hseen w hw)
    · exact hs.goto hseen hflight hholds
  | publish seen k since page rest =>
    simp only [PageSystem.advance] at h
    split at h
    · cases h
      exact hs.goto hseen nofun (hown rfl hholds.1)
    · split at h <;> cases h
      · exact hs.publish_goto hholds.1 (hflight since rfl).2 hseen hflight hholds
      · exact hs.goto hseen hflight hholds.1
  | retry seen k since page =>
    cases h
    refine hs.goto hseen nofun ?_
    cases hk : s.cache k with
    | some existing => exact fun w hw => hs.hit hk (hseen w hw)
    | none => exact hown rfl hholds
  | readahead seen k since page rest =>
    cases rest with
    | nil =>
      cases h
      exact hs.goto hseen nofun (hown rfl hholds.1)
    | cons next rest =>
      have hrest : s.Holds (.readahead seen k since page rest) :=
        ⟨hholds.1, fun p hp => hholds.2 p (mem_cons_of_mem _ hp)⟩
      simp only [PageSystem.advance] at h
      split at h
      · cases h
        exact hs.goto hseen hflight hrest
      · split at h <;> cases h
        · exact hs.publish_goto (hholds.2 next mem_cons_self) (hflight since rfl).2 hseen hflight hrest
        · exact hs.goto hseen nofun (hown rfl hholds.1)
  | rangeSize seen offset len =>
    simp only [PageSystem.advance] at h
    split at h
    · cases h
      exact hs.goto hseen nofun nofun
    split at h <;> cases h
    · exact hs.goto hseen nofun trivial
    · refine hs.goto hseen (fun since hsince => ?_) ⟨rfl, nofun⟩
      cases hsince
      exact ⟨le_rfl, hs.bounded⟩
  | rangeLook seen since r =>
    simp only [PageSystem.advance] at h
    split at h
    · cases h
      exact hs.goto hseen nofun hholds.2
    split at h
    · next page hk =>
      split at h <;> cases h
      · exact hs.goto hseen nofun hholds.2
      · refine hs.goto hseen hflight ⟨hholds.1, hholds.2.append fun i x hx w hw => ?_⟩
        exact hs.hit_byte hk hx (hseen w hw)
    · cases h
      exact hs.goto hseen hflight hholds
  | rangeRun seen since r runEnd =>
    simp only [PageSystem.advance] at h
    split at h
    · cases h
      exact hs.goto hseen hflight hholds
    · split at h <;> cases h <;> exact hs.goto hseen hflight hholds
  | rangeRead seen since r runEnd =>
    simp only [PageSystem.advance] at h
    split at h <;> cases h
    · exact hs.goto hseen nofun hholds.2
    · have hnow := (hflight since rfl).1
      exact hs.goto hseen hflight
        ⟨hholds.1, hholds.2, coveredPages_fresh hnow hholds.1, fun i x hx => readAt_fresh hnow hx⟩
  | rangeInsert seen since r runEnd data rest =>
    obtain ⟨hsize, hpieces, hrest, hdata⟩ := hholds
    cases rest with
    | nil =>
      have happend : s.FreshPieces seen (r.pieces ++ [(r.offset + r.cursor, data)]) :=
        hpieces.append fun i x hx w hw _ => (hdata i x hx).mono ((hflight since rfl).2 w (hseen w hw))
      simp only [PageSystem.advance] at h
      split at h <;> cases h
      · exact hs.goto hseen nofun happend
      · exact hs.goto hseen hflight ⟨hsize, happend⟩
    | cons next rest =>
      have htail : s.Holds (.rangeInsert seen since r runEnd data rest) :=
        ⟨hsize, hpieces, fun p hp => hrest p (mem_cons_of_mem _ hp), hdata⟩
      cases h
      cases room with
      | false => exact hs.goto hseen hflight htail
      | true => exact hs.publish_goto (hrest next mem_cons_self) (hflight since rfl).2 hseen hflight htail
  | invalidate write first last =>
    cases h
    refine (hs.remove hholds.1 (fun k page hk => ?_) (hremove write first last (.inl rfl))).goto nofun nofun trivial
    split_ifs at hk with hout
    exact ⟨hk, fun hchanged => hout (hholds.2 k hchanged)⟩
  | invalidateAll write =>
    cases h
    refine (hs.remove hholds (fun k page hk => ?_) (hremove write 0 0 (.inr rfl))).goto nofun nofun trivial
    cases hk

lemma coherent_initial (content : List Byte) : (initial content).Coherent :=
  ⟨nofun, nofun, nofun, nofun, fun _ => trivial⟩

lemma changed_write (hdata : data ≠ []) (hoff : off / PAGE_SIZE ≤ s.content.length / PAGE_SIZE)
    (hchanged : (s.store (writeAt s.content off data)).Changed (s.version + 1) k) :
    off / PAGE_SIZE ≤ k ∧ k < (off + data.length + (PAGE_SIZE - 1)) / PAGE_SIZE := by
  by_contra hout
  apply hchanged
  rw [Nat.add_sub_cancel, history_store le_rfl]
  have hnew : (s.store (writeAt s.content off data)).history (s.version + 1) = writeAt s.content off data :=
    update_self _ _ _
  rw [hnew]
  exact pageOf_writeAt hdata hoff (by omega)

lemma Coherent.step {e : PageEvent} (hs : s.Coherent) (hguard : s.Orderly e) (h : s.step e = some s') :
    s'.Coherent := by
  cases e with
  | getOrLoad t k | readRange t offset len =>
    obtain ⟨-, rfl⟩ := of_guard h
    exact hs.goto (fun _ hw => hw) nofun trivial
  | write t off data =>
    obtain ⟨hfree, rfl⟩ := of_guard h
    exact hs.store.goto nofun nofun ⟨le_rfl, fun k hk => changed_write hfree.2 hguard hk⟩
  | truncate t size =>
    obtain ⟨-, rfl⟩ := of_guard h
    exact hs.store.goto nofun nofun (le_refl (s.version + 1))
  | run t frames room =>
    refine hs.advance rfl (fun write first last hpc => ?_) h
    simp only [Orderly] at hguard
    rcases hpc with hpc | hpc <;> rw [hpc] at hguard <;> exact hguard
  | evict k =>
    cases h
    refine hs.shrink fun j page hj => ?_
    by_cases heq : j = k
    · rw [heq, update_self] at hj
      cases hj
    · rwa [update_of_ne heq] at hj

lemma coherent_of_reaches {content : List Byte} (h : Reaches PageSystem.step Orderly (initial content) s) :
    s.Coherent :=
  h.invariant (fun _ _ _ hs hg he => hs.step hg he) (coherent_initial content)

/-- A page that is cached is not older than a write that has changed it and removed its pages, and neither is what a
read returns, of a page or of a range, older than a write that was done when the read began. -/
theorem reads_not_stale {content : List Byte} (h : Reaches PageSystem.step Orderly (initial content) s) :
    (∀ k page, s.cache k = some page → ∀ w ∈ s.completed, s.Changed w k → s.FreshPage w k page) ∧
    (∀ t seen k page, s.pc t = .returned seen k page → ∀ w ∈ seen, s.Changed w k → s.FreshPage w k page) ∧
    ∀ t seen pieces, s.pc t = .rangeDone seen pieces → ∀ p ∈ pieces, ∀ i x, p.2[i]? = some x →
      ∀ w ∈ seen, s.Changed w ((p.1 + i) / PAGE_SIZE) → s.FreshByte w (p.1 + i) x := by
  have hs := coherent_of_reaches h
  refine ⟨fun k page hk w hw => hs.hit hk hw, fun t seen k page hpc => ?_, fun t seen pieces hpc => ?_⟩
  · have hholds := hs.holds t
    rwa [hpc] at hholds
  · have hholds := hs.holds t
    rwa [hpc] at hholds

def loadZero (t : ℕ) : List PageEvent := .getOrLoad t 0 :: replicate 7 (.run t 1 true)

def loadWriteLoad : List PageEvent := loadZero 0 ++ ([.write 1 0 [2], .run 1 1 true] ++ loadZero 0)

theorem reads_not_stale_reloaded :
    ∃ s, Reaches PageSystem.step Orderly (initial [1]) s ∧ s.pc 0 = .returned [1] 0 [2] ∧ s.Changed 1 0 ∧
      s.FreshPage 1 0 [2] := by
  have hadmits : Admits PageSystem.step Orderly (initial [1]) loadWriteLoad := by
    refine .of_guards (by decide +kernel) ⟨trivial, trivial, trivial, trivial, trivial, trivial, trivial, trivial,
      zero_le _, fun u since hu => ?_, trivial, trivial, trivial, trivial, trivial, trivial, trivial, trivial, trivial⟩
    rcases u with _ | _ | u <;> cases hu
  have hreach := Reaches.run hadmits
  have hreturned : (run PageSystem.step (initial [1]) loadWriteLoad).pc 0 = .returned [1] 0 [2] := by decide +kernel
  have hchanged : (run PageSystem.step (initial [1]) loadWriteLoad).Changed 1 0 := by
    unfold Changed
    decide +kernel
  exact ⟨_, hreach, hreturned, hchanged, (reads_not_stale hreach).2.1 0 [1] 0 [2] hreturned 1 mem_cons_self hchanged⟩

/-- A load has read the file and not yet published when the file is written and its page removed; another task then
reads. -/
def writeDuringLoad : List PageEvent :=
  .getOrLoad 0 0 :: replicate 5 (.run 0 1 true) ++ [.write 1 0 [2], .run 1 1 true] ++
    [.run 0 1 true, .getOrLoad 2 0, .run 2 1 true]

/-- The read began after the removal and returns what the file held before the write. -/
theorem stale_page_published :
    ∃ s, Reaches PageSystem.step (fun _ _ => True) (initial [1]) s ∧ s.pc 2 = .returned [1] 0 [1] ∧ s.Changed 1 0 ∧
      ¬ s.FreshPage 1 0 [1] := by
  refine ⟨run PageSystem.step (initial [1]) writeDuringLoad, Reaches.run (by decide +kernel), by decide +kernel, ?_, ?_⟩
  · unfold Changed
    decide +kernel
  rintro ⟨a, b, ha, hab, hb, hpage⟩
  have hlast : (run PageSystem.step (initial [1]) writeDuringLoad).version = 1 := by decide +kernel
  obtain rfl : a = 1 := by omega
  obtain rfl : b = 1 := by omega
  revert hpage
  decide +kernel

end PageSystem

end Ya2yOS.Fs
