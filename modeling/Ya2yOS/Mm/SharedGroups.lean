import Ya2yOS.Mm.GroupCount
import Ya2yOS.Mm.Isolation

/-!
# Shared groups over all address spaces

The groups are global, so their numbers are about the areas of every address space. `munmap` does not add the right
part to its group where it cuts an area in the middle, and neither do the removals inside `MAP_FIXED` and `mremap`.
-/

namespace Ya2yOS.Mm

open Lib List Option

/-! ### Fork and drop -/

variable {a : MapArea} {frames : List ℕ}

lemma Handled.tag {g g' : Globals} {a' : MapArea} (h : Handled g a g' a') : a'.tag = a.tag := by
  rw [h.area]
  rfl

section

variable {prefetched : List FilePage} {g g' : Globals} {pt pt' : PageTable}

variable {a a' : MapArea} {ok : Bool} {vs : List ℕ}

lemma prefaultPage_handled {v : ℕ} (h : prefaultPage prefetched g pt a v = some (g', pt', a')) : Handled g a g' a' := by
  unfold prefaultPage at h
  split at h
  · cases h
    exact .of_groups rfl rfl
  split at h
  · obtain ⟨⟨ppn, x⟩, hm, rfl⟩ := map_eq_some_iff.1 h
    obtain ⟨harea, hgroups⟩ := mapOne_groups hm
    exact .of_groups harea hgroups
  · obtain ⟨⟨ok, x⟩, hm, rfl⟩ := map_eq_some_iff.1 h
    exact (mmapWritePageFault_repair hm).handled
  · obtain ⟨⟨ok, x⟩, hm, rfl⟩ := map_eq_some_iff.1 h
    exact (mmapWritePageFault_repair hm).handled

lemma prefaultPages_handled (h : prefaultPages prefetched vs g pt a = some (g', pt', a')) : Handled g a g' a' := by
  induction vs generalizing g pt a with
  | nil =>
    obtain ⟨rfl, -, rfl⟩ : g = g' ∧ _ ∧ a = a' := by simpa [prefaultPages] using h
    exact .of_groups rfl rfl
  | cons v vs ih =>
    simp only [prefaultPages, bind_eq_bind, bind_eq_some_iff, Prod.exists] at h
    obtain ⟨g₁, pt₁, a₁, h1, h⟩ := h
    have hone := prefaultPage_handled h1
    have hrest := ih h
    refine ⟨?_, hone.counts.trans hrest.counts⟩
    rw [hrest.area, hone.area]

lemma prefaultAreas_tags {l l' : List MapArea} (h : prefaultAreas prefetched l g pt = some (g', pt', l')) :
    l'.map MapArea.tag = l.map MapArea.tag ∧ g.groups.SameCounts g'.groups := by
  induction l generalizing g pt l' with
  | nil =>
    obtain ⟨rfl, -, rfl⟩ : g = g' ∧ _ ∧ [] = l' := by simpa [prefaultAreas] using h
    exact ⟨rfl, .refl _⟩
  | cons a l ih =>
    obtain ⟨g₁, pt₁, a₁, hone, h⟩ : ∃ g₁ pt₁ a₁, Handled g a g₁ a₁ ∧
        ((prefaultAreas prefetched l g₁ pt₁).bind fun x => some (x.1, x.2.1, a₁ :: x.2.2)) = some (g', pt', l') := by
      simp only [prefaultAreas, bind_eq_bind] at h
      split_ifs at h
      · obtain ⟨⟨g₁, pt₁, a₁⟩, h1, h⟩ := bind_eq_some_iff.1 h
        exact ⟨g₁, pt₁, a₁, prefaultPages_handled h1, h⟩
      · exact ⟨g, pt, a, .of_groups rfl rfl, h⟩
    obtain ⟨⟨g₂, pt₂, l₂⟩, h2, h⟩ := bind_eq_some_iff.1 h
    cases h
    obtain ⟨htags, hcounts⟩ := ih h2
    exact ⟨by rw [map_cons, map_cons, htags, hone.tag], hone.counts.trans hcounts⟩

lemma foldl_insertFrame_area (a : MapArea) (v : ℕ) (l : List (ℕ × ℕ)) :
    ∃ f, l.foldl (fun (a : MapArea) (p : ℕ × ℕ) => a.insertFrame (v + p.1) p.2) a = { a with dataFrames := f } := by
  induction l generalizing a with
  | nil => exact ⟨a.dataFrames, rfl⟩
  | cons p l ih => exact ih (a.insertFrame (v + p.1) p.2)

lemma mapHugeGivenLoop_area
    (h : a.mapHugeGivenLoop pt vs frames = some (ok, pt', a')) : a' = { a with dataFrames := a'.dataFrames } := by
  induction vs generalizing pt a frames with
  | nil =>
    obtain ⟨-, -, rfl⟩ : _ ∧ _ ∧ a = a' := by simpa [MapArea.mapHugeGivenLoop] using h
    rfl
  | cons v vs ih =>
    unfold MapArea.mapHugeGivenLoop at h
    split at h
    · cases h
    split at h
    · cases h
      rfl
    simp only [bind_eq_bind, bind_eq_some_iff] at h
    obtain ⟨pt₁, -, h⟩ := h
    have hrest := ih h
    obtain ⟨f, hf⟩ := foldl_insertFrame_area a v ((range hugePagePages).zip _)
    rw [hf] at hrest
    exact hrest

lemma mapHugeGivenFrames_area
    (h : a.mapHugeGivenFrames pt frames = some (ok, pt', a')) : a' = { a with dataFrames := a'.dataFrames } := by
  unfold MapArea.mapHugeGivenFrames at h
  split at h
  · cases h
    rfl
  · exact mapHugeGivenLoop_area h

lemma copyMapped_groups (pt child : PageTable) (l : List ℕ) (g : Globals) :
    (copyMapped g pt child l).groups = g.groups := by
  unfold copyMapped
  induction l generalizing g with
  | nil => rfl
  | cons v l ih =>
    rw [foldl_cons, ih]
    split
    · rfl
    · rfl

variable {base : List MapArea}

lemma Counted.push (child : MemorySetInner) {m : GroupManager} {b : MapArea}
    (h : Counted (a :: (child.areas ++ base)) m) (hb : b.tag = a.tag) :
    Counted ((child.pushLazily b).areas ++ base) m := by
  have h' : Counted (AreaTable.live ⟨child.areas, [b], m⟩ base) m := by
    apply h.of_tags
    simp only [AreaTable.live, singleton_append, map_cons, hb]
    exact .refl _
  exact h'.edits (insertAreaSorted_areaEdits child.areas [] m b)

variable {child child' : MemorySetInner}

lemma forkHuge_counted (h : Counted (a :: (child.areas ++ base)) g.groups)
    (hf : forkHuge g pt child a = some (g', child')) : Counted (child'.areas ++ base) g'.groups := by
  have hfail : ∀ {new : MapArea} {k k' : Globals}, new.tag = a.tag → k.groups = g.groups →
      k.dropArea new.groupid = some k' → Counted (child.areas ++ base) k'.groups := by
    intro new k k' htag hk hdrop
    obtain ⟨groups, hdel, rfl⟩ := map_eq_some_iff.1 hdrop
    rw [hk, show new.groupid = a.groupid from congrArg Prod.fst htag] at hdel
    exact h.delArea hdel
  unfold forkHuge at hf
  split at hf
  · simp only [bind_eq_bind, bind_eq_some_iff, Prod.exists] at hf
    obtain ⟨ok, childPt, new, hmap, hf⟩ := hf
    have htag : new.tag = a.tag := by
      rw [mapHugeGivenFrames_area hmap]
      rfl
    split at hf
    · cases hf
      exact Counted.push { child with pageTable := childPt } h htag
    · simp only [bind_eq_some_iff] at hf
      obtain ⟨g₁, hdrop, hf⟩ := hf
      cases hf
      exact hfail htag rfl hdrop
  · simp only [bind_eq_bind, bind_eq_some_iff, Prod.exists] at hf
    obtain ⟨ok, g₁, childPt, new, hmap, hf⟩ := hf
    obtain ⟨harea, hgroups⟩ := mapHuge_groups hmap
    have htag : new.tag = a.tag := by
      rw [harea]
      rfl
    split at hf
    · cases hf
      rw [copyMapped_groups, hgroups]
      exact Counted.push { child with pageTable := childPt } h htag
    · simp only [bind_eq_some_iff] at hf
      obtain ⟨g₂, hdrop, hf⟩ := hf
      cases hf
      exact hfail htag hgroups hdrop

lemma forkArea_counted (ha : a ∈ base) (h : Counted (child.areas ++ base) g.groups)
    (hf : forkArea g pt child a = some (g', pt', child')) : Counted (child'.areas ++ base) g'.groups := by
  have hmem : a ∈ child.areas ++ base := List.mem_append_right _ ha
  have hadd : Counted (a :: (child.areas ++ base))
      (if a.isMmapVma ∧ a.mmapFlags.shared then g.addArea a.groupid else g).groups := by
    split_ifs with hs
    · exact h.addAreas [a] hmem (by simp)
    · refine (Counted.cons_ungrouped ?_).2 h
      by_contra hg
      exact hs (h.shared a hmem hg)
  unfold forkArea at hf
  split at hf
  · cases hf
    exact h
  generalize (if a.isMmapVma ∧ a.mmapFlags.shared then g.addArea a.groupid else g) = g₁ at hadd hf
  split at hf
  · simp only [bind_eq_bind, bind_eq_some_iff, Prod.exists] at hf
    obtain ⟨g₂, child₂, hhuge, hf⟩ := hf
    cases hf
    exact forkHuge_counted hadd hhuge
  split at hf
  · simp only [bind_eq_bind, bind_eq_some_iff, Prod.exists] at hf
    obtain ⟨childPt, new, hmap, hf⟩ := hf
    cases hf
    have htag : new.tag = a.tag := by
      rw [MemorySetInner.mapGivenFrames_area hmap]
      rfl
    exact Counted.push { child with pageTable := childPt } hadd htag
  · simp only [bind_eq_bind, bind_eq_some_iff, Prod.exists] at hf
    obtain ⟨pt₁, childPt, -, hf⟩ := hf
    cases hf
    exact Counted.push { child with pageTable := childPt } hadd rfl

lemma forkAreas_counted {base todo : List MapArea} (hb : ∀ a ∈ todo, a ∈ base)
    (h : Counted (child.areas ++ base) g.groups) (hf : forkAreas todo g pt child = some (g', pt', child')) :
    Counted (child'.areas ++ base) g'.groups := by
  induction todo generalizing g pt child with
  | nil =>
    obtain ⟨rfl, -, rfl⟩ : g = g' ∧ _ ∧ child = child' := by simpa [forkAreas] using hf
    exact h
  | cons a todo ih =>
    simp only [forkAreas, bind_eq_bind, bind_eq_some_iff, Prod.exists] at hf
    obtain ⟨g₁, pt₁, child₁, h1, hf⟩ := hf
    exact ih (fun b hb' => hb b (List.mem_cons_of_mem _ hb')) (forkArea_counted (hb a List.mem_cons_self) h h1) hf

end

namespace MemorySetInner

variable {s : MemorySetInner} {g g' : Globals} {rest : List MapArea}

lemma fromExistedUser_counted {parent child : MemorySetInner} {prefetched : List FilePage}
    (h : Counted (s.areas ++ rest) g.groups) (hf : s.fromExistedUser g prefetched = some (parent, child, g')) :
    Counted (child.areas ++ (parent.areas ++ rest)) g'.groups := by
  simp only [fromExistedUser, bind_eq_bind, bind_eq_some_iff, Prod.exists] at hf
  obtain ⟨g₁, pt₁, areas, hpre, g₂, pt₂, child₂, hfork, hf⟩ := hf
  cases hf
  obtain ⟨htags, hcounts⟩ := prefaultAreas_tags hpre
  have hparent : Counted (areas ++ rest) g₁.groups := by
    apply (h.sameCounts hcounts).of_tags
    rw [List.map_append, List.map_append, htags]
  exact forkAreas_counted (fun a ha => List.mem_append_left _ ha) hparent hfork

lemma dropAreas_counted {l : List MapArea} (h : Counted (l ++ rest) g.groups)
    (hd : l.foldlM (fun g a => Globals.dropArea g a.groupid) g = some g') : Counted rest g'.groups := by
  induction l generalizing g with
  | nil =>
    rw [← some.inj hd]
    exact h
  | cons a l ih =>
    rw [foldlM_cons, bind_eq_bind, bind_eq_some_iff] at hd
    obtain ⟨g₁, hdrop, hd⟩ := hd
    obtain ⟨groups, hdel, rfl⟩ := map_eq_some_iff.1 hdrop
    exact ih (h.delArea hdel) hd

lemma recycleDataPages_isSome (h : Counted (s.areas ++ rest) g.groups) : (s.recycleDataPages g).isSome = true := by
  have hfold : ∀ (l : List MapArea) (g : Globals), Counted (l ++ rest) g.groups →
      ∃ g', l.foldlM (fun g a => Globals.dropArea g a.groupid) g = some g' := by
    intro l
    induction l with
    | nil => exact fun g _ => ⟨g, rfl⟩
    | cons a l ih =>
      intro g h
      obtain ⟨groups, hdel⟩ := isSome_iff_exists.1 (h.delArea_isSome mem_cons_self)
      obtain ⟨g', hg'⟩ := ih { g with groups := groups } (h.delArea hdel)
      refine ⟨g', ?_⟩
      rw [foldlM_cons, Globals.dropArea, hdel]
      exact hg'
  obtain ⟨g', hg'⟩ := hfold s.areas g h
  rw [recycleDataPages, hg']
  rfl

lemma recycleDataPages_counted {t : MemorySetInner} (h : Counted (s.areas ++ rest) g.groups)
    (hd : s.recycleDataPages g = some (t, g')) : Counted rest g'.groups := by
  simp only [recycleDataPages, bind_eq_bind, bind_eq_some_iff] at hd
  obtain ⟨g₁, hfold, hd⟩ := hd
  cases hd
  exact dropAreas_counted h hfold

end MemorySetInner

/-! ### All address spaces -/

namespace ShmManager

lemma allocFrames_groups {n : ℕ} {g g' : Globals} (h : allocFrames n g = some (frames, g')) : g'.groups = g.groups := by
  induction n generalizing g frames with
  | zero =>
    cases h
    rfl
  | succ n ih =>
    simp only [allocFrames, bind_eq_bind, bind_eq_some_iff, Prod.exists] at h
    obtain ⟨frame, g₁, halloc, frames₁, g₂, hrest, h⟩ := h
    cases h
    exact (ih hrest).trans (alloc_groups halloc)

lemma sysShmget_groups {m m' : ShmManager} {g g' : Globals} {key : ℤ} {size flags : ℕ} {ret : SyscallRet}
    (h : m.sysShmget g key size flags = some (ret, m', g')) : g'.groups = g.groups := by
  have hstay : ∀ {x : SyscallRet}, some (x, m, g) = some (ret, m', g') → g'.groups = g.groups := by
    intro x hx
    cases hx
    rfl
  have hnew : ((m.create g size).bind fun x => some (Except.ok x.1, x.2.1, x.2.2)) = some (ret, m', g') →
      g'.groups = g.groups := by
    intro hx
    simp only [create, bind_eq_bind, bind_eq_some_iff, Prod.exists] at hx
    obtain ⟨id, m₁, g₁, ⟨frames, g₂, halloc, hc⟩, hx⟩ := hx
    cases hx
    cases hc
    exact allocFrames_groups halloc
  unfold sysShmget at h
  dsimp only at h
  split at h
  · exact hstay h
  split at h
  · exact hnew h
  split at h
  · split at h
    · split at h
      · exact hstay h
      · exact hstay h
    · split at h
      · exact hnew h
      · exact hstay h
  · exact hstay h

end ShmManager

structure Machine where
  spaces : List MemorySetInner
  kernel : Globals
  shm : ShmManager

/-- What happens on a machine. A space is created by `new_from_kernel` or by a fork; `brk` comes
with the heap words of the calling task. -/
inductive MachineEvent where
  | create
  | call (i : ℕ) (c : MemCall)
  | fault (i : ℕ) (strongCount : ℕ → ℕ) (vpn : ℕ) (cause : FaultCause) (prepared : Option FilePage)
  | brk (i : ℕ) (t : TaskHeap) (brkAddr : ℕ)
  | shmget (key : ℤ) (size flags : ℕ)
  | shmat (i : ℕ) (shmid : ℤ) (addr flags : ℕ)
  | shmdt (i : ℕ) (addr : ℕ)
  | fork (i : ℕ) (prefetched : List FilePage)
  | drop (i : ℕ)

namespace Machine

open MemorySetInner

def live (m : Machine) : List MapArea := m.spaces.flatMap areas

def put (m : Machine) (i : ℕ) (s : MemorySetInner) (g : Globals) : Machine :=
  { m with spaces := m.spaces.set i s, kernel := g }

def step (m : Machine) : MachineEvent → Option Machine
  | .create => some { m with spaces := m.spaces ++ [newFromKernel m.kernel] }
  | .call i c => do
    let s ← m.spaces[i]?
    let (_, t, g) ← c.run s m.kernel
    return m.put i t g
  | .fault i strongCount vpn cause prepared => do
    let s ← m.spaces[i]?
    let (_, t, g) ← s.handlePageFault strongCount m.kernel vpn cause prepared
    return m.put i t g
  | .brk i heap brkAddr => do
    let s ← m.spaces[i]?
    let (_, t, g, _) ← s.sysBrk m.kernel heap brkAddr
    return m.put i t g
  | .shmget key size flags => do
    let (_, shm, g) ← m.shm.sysShmget m.kernel key size flags
    return { m with shm := shm, kernel := g }
  | .shmat i shmid addr flags => do
    let s ← m.spaces[i]?
    let (_, t) ← s.sysShmat m.shm shmid addr flags
    return m.put i t m.kernel
  | .shmdt i addr => do
    let s ← m.spaces[i]?
    let (_, t, g) ← s.shmDetach m.kernel addr
    return m.put i t g
  | .fork i prefetched => do
    let s ← m.spaces[i]?
    let (parent, child, g) ← s.fromExistedUser m.kernel prefetched
    return { m with spaces := m.spaces.set i parent ++ [child], kernel := g }
  | .drop i => do
    let s ← m.spaces[i]?
    let (_, g) ← s.recycleDataPages m.kernel
    return { m with spaces := m.spaces.eraseIdx i, kernel := g }

/-- No call tears a hole in an area of a group, and `mremap` finds its areas sorted. -/
def Untorn (m : Machine) : MachineEvent → Prop
  | .call i c => ∀ s ∈ m.spaces[i]?, c.HoleFree s m.kernel ∧ (c.IsMremap → AreasSorted s.areas)
  | _ => True

variable {m n : Machine} {i : ℕ} {s t : MemorySetInner} {g : Globals}

lemma live_perm (hi : m.spaces[i]? = some s) : m.live.Perm (s.areas ++ (m.spaces.eraseIdx i).flatMap areas) := by
  obtain ⟨xs, ys, hs, rfl⟩ := exists_split hi
  rw [live, hs, eraseIdx_append_of_length_le le_rfl, Nat.sub_self, eraseIdx_cons_zero]
  simp only [flatMap_append, flatMap_cons]
  rw [← append_assoc, ← append_assoc]
  exact perm_append_comm.append_right _

lemma live_put (hi : m.spaces[i]? = some s) :
    (m.put i t g).live.Perm (t.areas ++ (m.spaces.eraseIdx i).flatMap MemorySetInner.areas) := by
  have hlen := (List.getElem?_eq_some_iff.1 hi).1
  have hput : (m.put i t g).spaces[i]? = some t := by simp [put, hlen]
  have hperm := live_perm hput
  rwa [show (m.put i t g).spaces.eraseIdx i = m.spaces.eraseIdx i from List.eraseIdx_set_eq] at hperm

lemma counted_put (h : Counted m.live m.kernel.groups) (hi : m.spaces[i]? = some s)
    (he : AreaEdits countingCtx (s.table m.kernel) (t.table g)) :
    Counted (m.put i t g).live (m.put i t g).kernel.groups := by
  have hbefore : Counted ((s.table m.kernel).live ((m.spaces.eraseIdx i).flatMap areas))
      m.kernel.groups := h.perm (live_perm hi)
  exact (hbefore.edits he).perm (live_put hi).symm

lemma counted_step {e : MachineEvent} (h : Counted m.live m.kernel.groups) (hu : m.Untorn e)
    (hstep : m.step e = some n) : Counted n.live n.kernel.groups := by
  cases e with
  | create =>
    cases hstep
    simpa [live, MemorySetInner.newFromKernel] using h
  | call i c =>
    simp only [step, bind_eq_bind, bind_eq_some_iff, Prod.exists] at hstep
    obtain ⟨s, hs, ret, t, g, hc, hstep⟩ := hstep
    cases hstep
    obtain ⟨hole, hsort⟩ := hu s hs
    exact counted_put h hs (MemCall.run_areaEdits hsort (fun _ _ _ => trivial) (.inr hole) hc)
  | fault i strongCount vpn cause prepared =>
    simp only [step, bind_eq_bind, bind_eq_some_iff, Prod.exists] at hstep
    obtain ⟨s, hs, ok, t, g, hc, hstep⟩ := hstep
    cases hstep
    exact counted_put h hs (MemorySetInner.handlePageFault_areaEdits hc)
  | brk i heap brkAddr =>
    simp only [step, bind_eq_bind, bind_eq_some_iff, Prod.exists] at hstep
    obtain ⟨s, hs, ret, t, g, heap', hc, hstep⟩ := hstep
    cases hstep
    apply counted_put h hs
    rcases MemorySetInner.sysBrk_cases hc with ⟨rfl, rfl⟩ | ⟨r, hgrow⟩
    · exact .refl
    · refine MemorySetInner.grow_areaEdits (fun _ _ _ _ _ => trivial) (.inr fun a ha ht => ?_) hgrow
      by_contra hg
      have hm := (h.shared a ((live_perm hs).mem_iff.2 (List.mem_append_left _ ha)) hg).1
      simp [MapArea.isMmapVma, ht] at hm
  | shmget key size flags =>
    simp only [step, bind_eq_bind, bind_eq_some_iff, Prod.exists] at hstep
    obtain ⟨ret, shm, g, hc, hstep⟩ := hstep
    cases hstep
    have hgroups := ShmManager.sysShmget_groups hc
    rw [hgroups]
    exact h
  | shmat i shmid addr flags =>
    simp only [step, bind_eq_bind, bind_eq_some_iff, Prod.exists] at hstep
    obtain ⟨s, hs, ret, t, hc, hstep⟩ := hstep
    cases hstep
    exact counted_put h hs (MemorySetInner.sysShmat_areaEdits (fun _ _ _ _ _ _ _ => trivial) hc)
  | shmdt i addr =>
    simp only [step, bind_eq_bind, bind_eq_some_iff, Prod.exists] at hstep
    obtain ⟨s, hs, ret, t, g, hc, hstep⟩ := hstep
    cases hstep
    exact counted_put h hs (MemorySetInner.shmDetach_areaEdits hc)
  | fork i prefetched =>
    simp only [step, bind_eq_bind, bind_eq_some_iff, Prod.exists] at hstep
    obtain ⟨s, hs, parent, child, g, hc, hstep⟩ := hstep
    cases hstep
    have hfork := MemorySetInner.fromExistedUser_counted (h.perm (live_perm hs)) hc
    apply hfork.perm
    have hparent := live_put (t := parent) (g := g) hs
    simp only [live, put, List.flatMap_append, List.flatMap_cons, List.flatMap_nil, List.append_nil] at hparent ⊢
    exact List.perm_append_comm.trans (hparent.symm.append_right _)
  | drop i =>
    simp only [step, bind_eq_bind, bind_eq_some_iff, Prod.exists] at hstep
    obtain ⟨s, hs, t, g, hc, hstep⟩ := hstep
    cases hstep
    exact MemorySetInner.recycleDataPages_counted (h.perm (live_perm hs)) hc

/-- What right numbers are worth: the drop of any live area finds its group with a positive number,
the drop of any address space goes through, and no free identifier is that of a live area. -/
structure Sound (m : Machine) : Prop where
  counted : Counted m.live m.kernel.groups
  found : ∀ a ∈ m.live, a.groupid ≠ 0 → ∃ grp, m.kernel.groups.groups.get? a.groupid = some grp ∧ 0 < grp.mapareaNum
  droppable : ∀ i s, m.spaces[i]? = some s → (m.step (.drop i)).isSome = true
  recycled : ∀ a ∈ m.live, a.groupid ∉ m.kernel.groups.unusedId

lemma sound_of_counted (h : Counted m.live m.kernel.groups) : Sound m := by
  refine ⟨h, fun a ha hg => ?_, fun i s hi => ?_, fun a ha => h.not_free ha⟩
  · obtain ⟨grp, hgrp, hnum⟩ := h.group_of_mem ha hg
    exact ⟨grp, hgrp, hnum ▸ members_pos ha⟩
  · obtain ⟨x, hx⟩ := isSome_iff_exists.1 (recycleDataPages_isSome (h.perm (live_perm hi)))
    simp only [step, hi, bind_eq_bind, bind_some, hx]
    rfl

/-- In every state that a run without torn areas reaches, each group has the number of its live
areas, over all address spaces. -/
theorem groups_of_reaches {m₀ : Machine} (h₀ : Counted m₀.live m₀.kernel.groups)
    (hrun : Reaches step Untorn m₀ m) : Sound m :=
  sound_of_counted (Reaches.invariant (fun _ _ _ h hu hstep => counted_step h hu hstep) h₀ hrun)

def start : Machine :=
  ⟨[newFromKernel (Process.Globals.initial [])], Process.Globals.initial [], ShmManager.new⟩

lemma counted_start : Counted start.live start.kernel.groups := by
  refine ⟨?_, by decide, by decide, ?_, by decide⟩
  · intro id _
    rfl
  · intro id _
    rfl

def mapShared : MachineEvent := .call 0 (.mmap 0 0x3000 3 0x21 (2 ^ 64 - 1) 0 none)

/-- The pages are split in three, a child inherits them, and the parent unmaps its last one. -/
def untornEvents : List MachineEvent :=
  [mapShared, .call 0 (.mprotect 0x2A23445000 0x1000 1), .fork 0 [], .call 0 (.munmap 0x2A23446000 0x1000 none)]

theorem sound_untornEvents : members 1 (run step start untornEvents).live = 5 ∧
    Sound (run step start untornEvents) := by
  have hunmap : ∀ s ∈ (run step start (untornEvents.take 3)).spaces[0]?,
      HoleFree s.areas (floorVpn 0x2A23446000) (ceilVpn (0x2A23446000 + pageRoundUp 0x1000)) := by
    decide +kernel
  have hadmits : Admits step Untorn start untornEvents :=
    .of_guards (by decide +kernel) ⟨fun _ _ => ⟨fun h => absurd h (by decide), fun h => absurd h id⟩,
      fun _ _ => ⟨trivial, fun h => absurd h id⟩, trivial, fun s hs => ⟨hunmap s hs, fun h => absurd h id⟩, trivial⟩
  exact ⟨by decide +kernel, groups_of_reaches counted_start (Reaches.run hadmits)⟩

/-- The middle page is unmapped, then the first, then the last. -/
def tearingEvents : List MachineEvent :=
  [mapShared, .call 0 (.munmap 0x2A23445000 0x1000 none), .call 0 (.munmap 0x2A23444000 0x1000 none)]

/-- After the hole two areas share a group that counts one. The drop of the first frees the
identifier that the other still has, and the drop of that one misses its group. -/
theorem hole_miscounts :
    Reaches step (fun _ _ => True) start (run step start tearingEvents) ∧
    (members 1 (run step start (tearingEvents.take 2)).live = 2 ∧
      ((run step start (tearingEvents.take 2)).kernel.groups.groups.get? 1).map GroupInner.mapareaNum = some 1) ∧
    (members 1 (run step start tearingEvents).live = 1 ∧ 1 ∈ (run step start tearingEvents).kernel.groups.unusedId) ∧
    (run step start tearingEvents).step (.call 0 (.munmap 0x2A23446000 0x1000 none)) = none ∧
    (run step start tearingEvents).step (.drop 0) = none :=
  ⟨Reaches.run (.of_guards (by decide +kernel) ⟨trivial, trivial, trivial, trivial⟩),
    by decide +kernel, by decide +kernel, isNone_iff_eq_none.1 (by decide +kernel),
    isNone_iff_eq_none.1 (by decide +kernel)⟩

end Machine

end Ya2yOS.Mm
