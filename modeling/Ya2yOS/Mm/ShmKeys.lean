import Mathlib.Data.Finset.Card
import Ya2yOS.Mm.AreaEditFault
import Ya2yOS.Mm.Isolation

/-!
# Keys of shared memory segments

`shmget`, `shmat`, `shmdt` and the removal by `shmctl`. A segment is created under the next number and looked up by its
number, so a key finds its segment only where the two are the same. The frames of a segment come back to the allocator
with the last reference to them, from the manager or from an area. The frames of the interior page tables that an
attachment needs stay with the process.
-/

namespace Ya2yOS.Mm

open Function Lib List

/-! ### What the calls can do -/

namespace ShmManager

variable {m : ShmManager} {g : Globals} {key : ℤ} {size flags n : ℕ}

def pagesOf (size : ℕ) : ℕ := ((size + pageSize) % wordSize + wordSize - 1) % wordSize / pageSize

def Creates (m : ShmManager) (key : ℤ) (flags : ℕ) : Prop :=
  key = 0 ∨ 0 < key ∧ m.find key.toNat = false ∧ (flags / 2 ^ 9 * 2 ^ 9).testBit 9 = true

lemma allocFrames_of_le (h : n ≤ g.pages.length) : ∃ frames g', allocFrames n g = some (frames, g') := by
  induction n generalizing g with
  | zero => exact ⟨[], g, rfl⟩
  | succ n ih =>
    cases hpages : g.pages with
    | nil =>
      rw [hpages, length_nil] at h
      omega
    | cons f rest =>
      rw [hpages, length_cons] at h
      let g₁ : Globals := { g with pages := rest, mem := update g.mem f (fun _ => 0) }
      have halloc : g.alloc = some (f, g₁) := by
        unfold Globals.alloc
        rw [hpages]
      obtain ⟨frames, g', hrest⟩ := ih (g := g₁) (Nat.le_of_succ_le_succ h)
      exact ⟨f :: frames, g', by rw [allocFrames, halloc]; simp [hrest]⟩

lemma create_of_le (h : pagesOf size ≤ g.pages.length) :
    ∃ frames g', m.create g size = some (m.nextKey, ⟨m.nextKey + 1, m.map.insert m.nextKey frames⟩, g') := by
  obtain ⟨frames, g', halloc⟩ := allocFrames_of_le h
  unfold pagesOf at halloc
  exact ⟨frames, g', by simp [create, halloc]⟩

lemma sysShmget_cases (h : m.Creates key flags → pagesOf size ≤ g.pages.length) :
    (∃ e, m.sysShmget g key size flags = some (.error e, m, g)) ∨
    (0 < key ∧ m.find key.toNat = true ∧ m.sysShmget g key size flags = some (.ok key.toNat, m, g)) ∨
    (m.Creates key flags ∧ ∃ frames g', m.sysShmget g key size flags =
      some (.ok m.nextKey, ⟨m.nextKey + 1, m.map.insert m.nextKey frames⟩, g')) := by
  have hnew : m.Creates key flags → ∃ frames g', ((m.create g size).bind fun x => some (Except.ok x.1, x.2.1, x.2.2)) =
        some ((.ok m.nextKey : SyscallRet), ⟨m.nextKey + 1, m.map.insert m.nextKey frames⟩, g') := by
    intro hc
    obtain ⟨frames, g', hcreate⟩ := create_of_le (h hc)
    exact ⟨frames, g', by rw [hcreate]; rfl⟩
  unfold sysShmget
  dsimp only
  split
  · exact .inl ⟨_, rfl⟩
  split
  · next hzero => exact .inr (.inr ⟨.inl hzero, hnew (.inl hzero)⟩)
  split
  · next hpos =>
    split
    · next hfind =>
      split
      · exact .inl ⟨_, rfl⟩
      · exact .inr (.inl ⟨hpos, hfind, rfl⟩)
    · next hfind =>
      split
      · next hflag =>
        have hc : m.Creates key flags := .inr ⟨hpos, Bool.eq_false_iff.2 hfind, hflag⟩
        exact .inr (.inr ⟨hc, hnew hc⟩)
      · exact .inl ⟨_, rfl⟩
  · exact .inl ⟨_, rfl⟩

end ShmManager

namespace MemorySetInner

variable {s : MemorySetInner} {g : Globals} {addr i : ℕ} {l : List MapArea} {shmid : ℤ}

/-- The search for a range finds one, and its pages are not mapped. -/
def HasRoom (s : MemorySetInner) (frames : List ℕ) : Prop :=
  frames ≠ [] → (s.findMmapAddr (frames.length * pageSize)).1 ≠ 0 ∧
    ∀ k < frames.length, s.pageTable.findPte (floorVpn (s.findMmapAddr (frames.length * pageSize)).1 + k) = none

instance (frames : List ℕ) : Decidable (s.HasRoom frames) := by
  unfold HasRoom
  infer_instance

/-- Frames are mapped one by one; each page is found unmapped, since the ones before are others. -/
lemma mapGivenFrames_of_unmapped (pt : PageTable) (a : MapArea) (start n : ℕ) (frames : List ℕ)
    (hlow : start + n ≤ 2 ^ 27)
    (hfree : ∀ v, start ≤ v → v < start + n → v < start + frames.length → pt.findPte v = none) :
    ∃ pt' a', a.mapGivenFrames pt ((range' start n).zip frames) = some (pt', a') := by
  induction n generalizing pt a start frames with
  | zero => exact ⟨pt, a, by rw [range'_zero, zip_nil_left]; rfl⟩
  | succ n ih =>
    cases frames with
    | nil => exact ⟨pt, a, by rw [zip_nil_right]; rfl⟩
    | cons f frames =>
      rw [length_cons] at hfree
      have hfirst : pt.findPte start = none := hfree start le_rfl (by omega) (by omega)
      cases hmap : pt.mapByPteFlags start f (RVPTEFlags.ofPerm a.mapPerm) with
      | none =>
        unfold PageTable.mapByPteFlags at hmap
        rw [dif_pos hfirst] at hmap
        cases hmap
      | some pt₁ =>
        have hrest : ∀ v, start + 1 ≤ v → v < start + 1 + n → v < start + 1 + frames.length → pt₁.findPte v = none := by
          intro v hv hlt hlen
          rw [(PageTable.findPte_mapByPteFlags hmap).2 v, vpnIndex_of_lt (by omega), vpnIndex_of_lt (by omega),
            if_neg (by omega)]
          exact hfree v (by omega) (by omega) (by omega)
        obtain ⟨pt', a', h⟩ := ih pt₁ (a.insertFrame start f) (start + 1) frames (by omega) hrest
        refine ⟨pt', a', ?_⟩
        rw [range'_succ, zip_cons_cons, MapArea.mapGivenFrames, hmap]
        exact h

variable {flags : ℕ} {frames : List ℕ}

lemma shm_of_hasRoom (perm : MapPermission) (h : s.HasRoom frames) :
    ∃ s', s.shm 0 (frames.length * pageSize) perm frames =
      some ((s.findMmapAddr (frames.length * pageSize)).1, s') := by
  have hlayout := s.findMmapAddr_layout (frames.length * pageSize)
  have hle := s.findMmapAddr_le (frames.length * pageSize)
  unfold HasRoom at h
  unfold shm
  rw [if_pos rfl]
  rcases hfind : s.findMmapAddr (frames.length * pageSize) with ⟨va, s₁⟩
  rw [hfind] at h hlayout hle
  have htable : s₁.pageTable = s.pageTable := congrArg Layout.pt hlayout
  have hbound : va + frames.length * pageSize ≤ mmapTop := by
    by_cases hva : va = 0
    · have hframes : frames = [] := by
        by_contra hne
        exact (h hne).1 hva
      rw [hva, hframes]
      exact Nat.zero_le _
    · exact hle hva
  rw [mmapTop_eq] at hbound
  have hwrap : (va + frames.length * pageSize) % wordSize = va + frames.length * pageSize :=
    Nat.mod_eq_of_lt (lt_of_le_of_lt hbound (by decide))
  have hfirst : virtAddr va = some va := virtAddr_eq_some.2 ⟨rfl, canonical_of_lt (by omega)⟩
  have hlast : virtAddr (va + frames.length * pageSize) = some (va + frames.length * pageSize) :=
    virtAddr_eq_some.2 ⟨rfl, canonical_of_lt (by omega)⟩
  have hstop : ceilVpn (va + frames.length * pageSize) = (va + frames.length * pageSize + pageSize - 1) / pageSize :=
    ceilVpn_of_le (by omega)
  have horder : floorVpn va ≤ ceilVpn (va + frames.length * pageSize) := by
    rw [hstop, floorVpn]
    exact Nat.div_le_div_right (by unfold pageSize; omega)
  have hlow : ceilVpn (va + frames.length * pageSize) ≤ 2 ^ 27 := by
    rw [hstop]
    unfold pageSize at *
    omega
  let area : MapArea := ⟨⟨floorVpn va, ceilVpn (va + frames.length * pageSize), horder⟩, OrdMap.empty, perm, .shm,
    MmapFile.empty, {}, 0⟩
  have hnew : MapArea.new va (va + frames.length * pageSize) perm .shm = some area := by
    unfold MapArea.new VPNRange.new?
    rw [dif_pos horder]
    rfl
  have hfree : ∀ v, floorVpn va ≤ v →
      v < floorVpn va + (ceilVpn (va + frames.length * pageSize) - floorVpn va) → v < floorVpn va + frames.length →
      s₁.pageTable.findPte v = none := by
    intro v hv _ hlen
    obtain ⟨k, rfl⟩ := Nat.exists_eq_add_of_le hv
    have hk : k < frames.length := by omega
    rw [htable]
    exact (h (ne_nil_of_length_pos (by omega))).2 k hk
  obtain ⟨pt', a', hmap⟩ := mapGivenFrames_of_unmapped s₁.pageTable area _ _ frames (by omega) hfree
  refine ⟨{ s₁ with pageTable := pt' }.pushLazily a', ?_⟩
  simp [hwrap, hfirst, hlast, hnew, vpns, area, hmap]

lemma sysShmat_of_hasRoom {m : ShmManager} (flags : ℕ)
    (h : ∀ frames, m.map.get? shmid.toNat = some frames → s.HasRoom frames) :
    (∃ e s', s.sysShmat m shmid 0 flags = some (.error e, s')) ∨
      ∃ frames s', m.map.get? shmid.toNat = some frames ∧
        s.sysShmat m shmid 0 flags = some (.ok (s.findMmapAddr (frames.length * pageSize)).1, s') := by
  unfold sysShmat
  cases ShmManager.attachPerm flags with
  | none => exact .inl ⟨_, _, rfl⟩
  | some perm =>
    dsimp only
    split
    · exact .inl ⟨_, _, rfl⟩
    cases hframes : m.map.get? shmid.toNat with
    | none => exact .inl ⟨_, _, rfl⟩
    | some frames =>
      obtain ⟨s', hshm⟩ := shm_of_hasRoom perm (h frames hframes)
      exact .inr ⟨frames, s', rfl, by simp only [hshm, Option.bind_eq_bind, Option.bind_some, Option.pure_def]⟩

def Ungrouped (a : MapArea) : Prop := a.areaType = .shm → a.groupid = 0

lemma shmDetach_of_canonical (h : ∀ a ∈ s.areas, Ungrouped a) (hcanon : canonical addr = true) :
    ∃ ret s' g', s.shmDetach g addr = some (ret, s', g') ∧ ∀ a ∈ s'.areas, a ∈ s.areas := by
  unfold shmDetach
  split
  · exact ⟨_, _, _, rfl, fun _ ha => ha⟩
  have hfirst : virtAddr addr = some addr := virtAddr_eq_some.2 ⟨rfl, hcanon⟩
  simp only [hfirst, Option.bind_eq_bind, Option.bind_some]
  split
  · exact ⟨_, _, _, rfl, fun _ ha => ha⟩
  next i hi =>
  obtain ⟨hlt, hshm, -⟩ := findIdx?_eq_some_iff_getElem.1 hi
  simp only [Bool.and_eq_true, decide_eq_true_eq] at hshm
  have hgroup : (s.areas[i].unmapAll s.pageTable).2.groupid = 0 := by
    rw [unmapAll_groupid]
    exact h _ (getElem_mem hlt) hshm.1
  have hdrop : g.dropArea (s.areas[i].unmapAll s.pageTable).2.groupid = some g := by
    rw [hgroup]
    rfl
  simp only [getElem?_eq_getElem hlt, Option.bind_some, hdrop]
  exact ⟨_, _, _, rfl, fun _ ha => mem_of_mem_eraseIdx ha⟩

lemma ungrouped_sysShmat {m : ShmManager} {ret : SyscallRet} {s' : MemorySetInner} (h : ∀ a ∈ s.areas, Ungrouped a)
    (hcall : s.sysShmat m shmid addr flags = some (ret, s')) : ∀ a ∈ s'.areas, Ungrouped a := by
  rcases sysShmat_cases hcall with rfl | ⟨frames, va, a, f, -, -, -, -, hzero, hareas⟩
  · exact h
  rw [hareas]
  refine (insertAreaSorted_trims s.pageTable s.areas _).forall_areas ⟨?_, fun _ _ h => h, ?_⟩ ?_
  · intro p b hp hb ht
    rw [hp.group]
    exact hb (hp.type ▸ ht)
  · exact fun _ _ _ hb _ => hb
  · exact forall_mem_cons.2 ⟨fun _ => hzero, h⟩

end MemorySetInner

/-! ### Interior page tables -/

/-- The tables between the root and the entry of a page, by the level of the entry that points to them. -/
def interiorOf (vpn : ℕ) : List (Level × ℕ) :=
  [(.giga, vpnIndex vpn / Level.giga.span), (.mega, vpnIndex vpn / Level.mega.span)]

/-- The walks of `find_pte_create`: a table that is missing is allocated, and there is a panic if no frame is left. -/
def createTables : List (Level × ℕ) → List (Level × ℕ) → Globals → Option (List (Level × ℕ) × Globals)
  | [], tables, g => some (tables, g)
  | t :: rest, tables, g =>
    if t ∈ tables then createTables rest tables g
    else do
      let (_, g) ← g.alloc
      createTables rest (t :: tables) g

lemma createTables_of_card_le {wanted tables : List (Level × ℕ)} {g : Globals}
    (h : (wanted.toFinset \ tables.toFinset).card ≤ g.pages.length) :
    ∃ tables' g', createTables wanted tables g = some (tables', g') := by
  induction wanted generalizing tables g with
  | nil => exact ⟨tables, g, rfl⟩
  | cons t rest ih =>
    rw [toFinset_cons] at h
    unfold createTables
    split_ifs with hmem
    · rw [Finset.insert_sdiff_of_mem _ (mem_toFinset.2 hmem)] at h
      exact ih h
    · have hnot : t ∉ tables.toFinset := fun hin => hmem (mem_toFinset.1 hin)
      -- the new table is one of those that were missing
      have hcard : (insert t rest.toFinset \ tables.toFinset).card =
          (rest.toFinset \ (t :: tables).toFinset).card + 1 := by
        rw [toFinset_cons, ← Finset.card_insert_of_notMem (a := t) (by simp)]
        congr 1
        ext x
        by_cases hx : x = t
        · simp [hx, hnot]
        · simp [hx]
      rw [hcard] at h
      cases hpages : g.pages with
      | nil =>
        rw [hpages, length_nil] at h
        omega
      | cons f pages =>
        rw [hpages, length_cons] at h
        simp only [Globals.alloc, hpages, Option.bind_eq_bind, Option.bind_some]
        exact ih (Nat.le_of_succ_le_succ h)

/-! ### All processes -/

/-- The processes with their interior page tables, the kernel and the segments. Of the calls so far it is kept for
which key each segment was made, and which segment each key yielded last, unless it was removed since. -/
structure ShmSystem (n : ℕ) where
  spaces : Fin n → MemorySetInner
  tables : Fin n → List (Level × ℕ)
  kernel : Globals
  shm : ShmManager
  madeFor : ℕ → Option ℤ
  named : ℤ → Option ℕ

inductive ShmCall (n : ℕ) where
  | get (key : ℤ) (size flags : ℕ)
  | attach (i : Fin n) (shmid : ℤ) (addr flags : ℕ)
  | detach (i : Fin n) (addr : ℕ)
  | remove (shmid : ℤ)

namespace ShmSystem

open MemorySetInner

variable {n : ℕ}

def initial (spaces : Fin n → MemorySetInner) (tables : Fin n → List (Level × ℕ)) (kernel : Globals) : ShmSystem n :=
  ⟨spaces, tables, kernel, ShmManager.new, fun _ => none, fun _ => none⟩

def granted (s : ShmSystem n) (key : ℤ) (shm : ShmManager) (kernel : Globals) : SyscallRet → ShmSystem n
  | .ok id =>
    let madeFor := if s.shm.find id then s.madeFor else update s.madeFor id (some key)
    ⟨s.spaces, s.tables, kernel, shm, madeFor, update s.named key (some id)⟩
  | .error _ => { s with shm := shm, kernel := kernel }

/-- The frames to which the manager or an area has a reference. -/
def heldFrames (s : ShmSystem n) : List ℕ :=
  s.shm.map.values.flatten ++ (finRange n).flatMap fun i => (s.spaces i).areas.flatMap fun a => a.dataFrames.values

/-- Frames whose last reference goes return to the allocator. -/
def release (s s' : ShmSystem n) : ShmSystem n :=
  let freed := (s.heldFrames.filter fun f => f ∉ s'.heldFrames).dedup
  { s' with kernel := { s'.kernel with pages := freed ++ s'.kernel.pages } }

/-- The pages a `shmat` with this result has mapped. -/
def attachedPages (m : ShmManager) (shmid : ℤ) : SyscallRet → List ℕ
  | .ok va => range' (floorVpn va) ((m.map.get? shmid.toNat).getD []).length
  | .error _ => []

def call (s : ShmSystem n) : ShmCall n → Option (SyscallRet × ShmSystem n)
  | .get key size flags => do
    let (ret, shm, kernel) ← s.shm.sysShmget s.kernel key size flags
    return (ret, s.granted key shm kernel ret)
  | .attach i shmid addr flags => do
    let (ret, space) ← (s.spaces i).sysShmat s.shm shmid addr flags
    let (tables, kernel) ← createTables ((attachedPages s.shm shmid ret).flatMap interiorOf) (s.tables i) s.kernel
    return (ret, { s with spaces := update s.spaces i space, tables := update s.tables i tables, kernel := kernel })
  | .detach i addr => do
    let (ret, space, kernel) ← (s.spaces i).shmDetach s.kernel addr
    return (ret, s.release { s with spaces := update s.spaces i space, kernel := kernel })
  | .remove shmid =>
    -- a negative identifier becomes a large one
    let id := (shmid % wordSize).toNat
    let named := fun key => if s.named key = some id then none else s.named key
    some (.ok 0, s.release { s with shm := s.shm.drop id, named := named })

def step (s : ShmSystem n) (c : ShmCall n) : Option (ShmSystem n) := (s.call c).map Prod.snd

/-- There are frames for the interior page tables of a segment, at the address the search finds for it. -/
def HasTables (s : ShmSystem n) (i : Fin n) (frames : List ℕ) : Prop :=
  let first := floorVpn ((s.spaces i).findMmapAddr (frames.length * pageSize)).1
  let wanted := (range' first frames.length).flatMap interiorOf
  (wanted.toFinset \ (s.tables i).toFinset).card ≤ s.kernel.pages.length

instance (s : ShmSystem n) (i : Fin n) (frames : List ℕ) : Decidable (s.HasTables i frames) := by
  unfold HasTables
  infer_instance

/-- A key is used for a new segment only when it is the next number, and never when it is the number of a segment that
`IPC_PRIVATE` has made. There are frames for a new segment. A segment is attached at no given address, where there is
room for it and there are frames for the page tables, and detached from an address that converts. -/
def Orderly (s : ShmSystem n) : ShmCall n → Prop
  | .get key size flags =>
    (s.shm.Creates key flags → ShmManager.pagesOf size ≤ s.kernel.pages.length ∧ (key ≠ 0 → key = s.shm.nextKey)) ∧
      (0 < key → s.shm.find key.toNat = true → s.madeFor key.toNat ≠ some 0)
  | .attach i shmid addr _ =>
    addr = 0 ∧ ∀ frames, s.shm.map.get? shmid.toNat = some frames → (s.spaces i).HasRoom frames ∧ s.HasTables i frames
  | .detach _ addr => canonical addr = true
  | .remove _ => True

structure Keyed (s : ShmSystem n) : Prop where
  made : ∀ id, s.shm.find id = true → s.madeFor id ≠ none
  asked : ∀ id key, s.madeFor id = some key → key = 0 ∨ key = id
  given : ∀ id, s.madeFor id ≠ none → id < s.shm.nextKey
  own : ∀ key id, key ≠ 0 → s.named key = some id → id = key.toNat ∧ s.shm.find id = true
  ungrouped : ∀ i, ∀ a ∈ (s.spaces i).areas, MemorySetInner.Ungrouped a

def Names (s s' : ShmSystem n) (key : ℤ) (id : ℕ) : Prop :=
  (key ≠ 0 → ∀ old, s.named key = some old → id = old) ∧ s'.madeFor id = some key ∧
    (key = 0 → s.madeFor id = none)

variable {s s' : ShmSystem n}

lemma find_insert {m : ShmManager} {id j n : ℕ} :
    (ShmManager.mk n (m.map.insert id frames)).find j = true ↔ j = id ∨ m.find j = true := by
  unfold ShmManager.find
  rw [OrdMap.get?_insert]
  split_ifs with h
  · simp [h]
  · simp [h]

lemma find_drop {m : ShmManager} {id j : ℕ} : (m.drop id).find j = true ↔ j ≠ id ∧ m.find j = true := by
  unfold ShmManager.find ShmManager.drop
  rw [OrdMap.get?_erase]
  split_ifs with h
  · simp [h]
  · simp [h]

lemma Keyed.get {key : ℤ} {size : ℕ} (hs : s.Keyed) (hc : s.Orderly (.get key size flags)) :
    ∃ ret s', s.call (.get key size flags) = some (ret, s') ∧ s'.Keyed ∧ ∀ id, ret = .ok id → Names s s' key id := by
  obtain ⟨hnew, hold⟩ := hc
  rcases ShmManager.sysShmget_cases (fun h => (hnew h).1) with
    ⟨e, hget⟩ | ⟨hpos, hfind, hget⟩ | ⟨hcreates, frames, g', hget⟩
  · exact ⟨.error e, s.granted key s.shm s.kernel (.error e), by simp [call, hget],
      ⟨hs.made, hs.asked, hs.given, hs.own, hs.ungrouped⟩, fun id h => (by cases h)⟩
  · have hmade : s.madeFor key.toNat = some key := by
      obtain ⟨k, hk⟩ := Option.ne_none_iff_exists'.1 (hs.made _ hfind)
      rcases hs.asked _ k hk with rfl | rfl
      · exact absurd hk (hold hpos hfind)
      · rw [hk, Int.toNat_of_nonneg hpos.le]
    refine ⟨.ok key.toNat, s.granted key s.shm s.kernel (.ok key.toNat), by simp [call, hget], ?_, fun id hid => ?_⟩
    · simp only [granted, hfind, if_true]
      refine ⟨hs.made, hs.asked, hs.given, fun k id hk hnamed => ?_, hs.ungrouped⟩
      by_cases hkey : k = key
      · subst hkey
        dsimp only at hnamed
        rw [update_self] at hnamed
        cases hnamed
        exact ⟨rfl, hfind⟩
      · dsimp only at hnamed
        rw [update_of_ne hkey] at hnamed
        exact hs.own k id hk hnamed
    · cases hid
      refine ⟨fun hk old hnamed => (hs.own key old hk hnamed).1.symm, ?_, fun hzero => by omega⟩
      simp only [granted, hfind, if_true]
      exact hmade
  · have hvacant : s.shm.find s.shm.nextKey = false := by
      rw [Bool.eq_false_iff]
      exact fun h => absurd (hs.given _ (hs.made _ h)) (lt_irrefl _)
    have hkey : key ≠ 0 → s.shm.nextKey = key.toNat := by
      intro hk
      rw [(hnew hcreates).2 hk, Int.toNat_natCast]
    refine ⟨.ok s.shm.nextKey, s.granted key _ g' (.ok s.shm.nextKey), by simp only [call, hget]; rfl, ?_,
      fun id hid => ?_⟩
    · simp only [granted, hvacant, Bool.false_eq_true, if_false]
      refine ⟨fun id hfind => ?_, fun id k hmade => ?_, fun id hmade => ?_, fun k id hk hnamed => ?_, hs.ungrouped⟩
      · dsimp only at hfind ⊢
        by_cases hid : id = s.shm.nextKey
        · rw [hid, update_self]
          exact Option.some_ne_none key
        · rw [update_of_ne hid]
          exact hs.made id ((find_insert.1 hfind).resolve_left hid)
      · dsimp only at hmade
        by_cases hid : id = s.shm.nextKey
        · rw [hid, update_self] at hmade
          cases hmade
          rw [hid]
          exact or_iff_not_imp_left.2 (hnew hcreates).2
        · rw [update_of_ne hid] at hmade
          exact hs.asked id k hmade
      · dsimp only at hmade ⊢
        by_cases hid : id = s.shm.nextKey
        · rw [hid]
          exact Nat.lt_succ_self _
        · rw [update_of_ne hid] at hmade
          exact Nat.lt_succ_of_lt (hs.given id hmade)
      · dsimp only at hnamed
        by_cases heq : k = key
        · rw [heq, update_self] at hnamed
          cases hnamed
          exact ⟨by rw [heq]; exact hkey (heq ▸ hk), find_insert.2 (.inl rfl)⟩
        · rw [update_of_ne heq] at hnamed
          obtain ⟨hid, hfind⟩ := hs.own k id hk hnamed
          exact ⟨hid, find_insert.2 (.inr hfind)⟩
    · cases hid
      refine ⟨fun hk old hnamed => ?_, ?_, fun _ => ?_⟩
      · rw [(hs.own key old hk hnamed).1]
        exact hkey hk
      · simp only [granted, hvacant, Bool.false_eq_true, if_false]
        exact update_self _ _ _
      · by_contra hmade
        exact lt_irrefl _ (hs.given _ hmade)

lemma Keyed.call {c : ShmCall n} (hs : s.Keyed) (hc : s.Orderly c) : ∃ ret s', s.call c = some (ret, s') ∧ s'.Keyed ∧
      ∀ key size flags id, c = .get key size flags → ret = .ok id → Names s s' key id := by
  cases c with
  | get key size flags =>
    obtain ⟨ret, s', hcall, hkeyed, hnames⟩ := hs.get hc
    refine ⟨ret, s', hcall, hkeyed, fun key size flags id heq hret => ?_⟩
    cases heq
    exact hnames id hret
  | attach i shmid addr flags =>
    obtain ⟨rfl, hroom⟩ := hc
    have hat : ∃ ret space tables kernel, (s.spaces i).sysShmat s.shm shmid 0 flags = some (ret, space) ∧
        createTables ((attachedPages s.shm shmid ret).flatMap interiorOf) (s.tables i) s.kernel =
          some (tables, kernel) := by
      rcases sysShmat_of_hasRoom flags fun frames h => (hroom frames h).1 with
        ⟨e, space, h⟩ | ⟨frames, space, hframes, h⟩
      · exact ⟨.error e, space, s.tables i, s.kernel, h, rfl⟩
      · obtain ⟨tables, kernel, htables⟩ := createTables_of_card_le (hroom frames hframes).2
        refine ⟨_, space, tables, kernel, h, ?_⟩
        rw [attachedPages, hframes]
        exact htables
    obtain ⟨ret, space, tables, kernel, hat, htables⟩ := hat
    refine ⟨ret, { s with spaces := update s.spaces i space, tables := update s.tables i tables, kernel := kernel },
      by simp only [ShmSystem.call, hat, Option.bind_eq_bind, Option.bind_some, htables]; rfl,
      ⟨hs.made, hs.asked, hs.given, hs.own, fun j a ha => ?_⟩, nofun⟩
    dsimp only at ha
    by_cases hj : j = i
    · rw [hj, update_self] at ha
      exact ungrouped_sysShmat (hs.ungrouped i) hat a ha
    · rw [update_of_ne hj] at ha
      exact hs.ungrouped j a ha
  | detach i addr =>
    obtain ⟨ret, space, g', hdt, hsub⟩ := shmDetach_of_canonical (g := s.kernel) (hs.ungrouped i) hc
    refine ⟨ret, s.release { s with spaces := update s.spaces i space, kernel := g' },
      by simp only [ShmSystem.call, hdt]; rfl, ⟨hs.made, hs.asked, hs.given, hs.own, fun j a ha => ?_⟩, nofun⟩
    dsimp only [release] at ha
    by_cases hj : j = i
    · rw [hj, update_self] at ha
      exact hs.ungrouped i a (hsub a ha)
    · rw [update_of_ne hj] at ha
      exact hs.ungrouped j a ha
  | remove shmid =>
    refine ⟨_, _, rfl, ⟨fun id hfind => hs.made id (find_drop.1 hfind).2, hs.asked, hs.given,
      fun k id hk hnamed => ?_, hs.ungrouped⟩, nofun⟩
    dsimp only [release] at hnamed
    split_ifs at hnamed with hgone
    obtain ⟨hid, hfind⟩ := hs.own k id hk hnamed
    refine ⟨hid, find_drop.2 ⟨fun heq => ?_, hfind⟩⟩
    rw [heq] at hnamed
    exact hgone hnamed

lemma keyed_initial {spaces : Fin n → MemorySetInner} {tables : Fin n → List (Level × ℕ)} {kernel : Globals}
    (h : ∀ i, ∀ a ∈ (spaces i).areas, a.areaType ≠ .shm) : (initial spaces tables kernel).Keyed :=
  ⟨nofun, nofun, fun _ hmade => absurd rfl hmade, nofun, fun i a ha hshm => absurd hshm (h i a ha)⟩

/-- Every call returns. `shmget` with a key yields the segment that the key yielded before, unless it was removed; what
it yields was created for this key, and with `IPC_PRIVATE` it is new. -/
theorem shmget_names_segments {spaces : Fin n → MemorySetInner} {tables : Fin n → List (Level × ℕ)}
    {kernel : Globals} {c : ShmCall n} (hspaces : ∀ i, ∀ a ∈ (spaces i).areas, a.areaType ≠ .shm)
    (h : Reaches ShmSystem.step Orderly (initial spaces tables kernel) s) (hc : s.Orderly c) :
    ∃ ret s', s.call c = some (ret, s') ∧ ∀ key size flags id, c = .get key size flags → ret = .ok id →
        (key ≠ 0 → ∀ old, s.named key = some old → id = old) ∧ s'.madeFor id = some key ∧
          (key = 0 → s.madeFor id = none) := by
  have hs : s.Keyed := by
    refine h.invariant (fun s e s' hs hg he => ?_) (keyed_initial hspaces)
    obtain ⟨ret, t, hcall, hkeyed, -⟩ := hs.call hg
    rw [ShmSystem.step, hcall] at he
    cases he
    exact hkeyed
  obtain ⟨ret, s', hcall, -, hnames⟩ := hs.call hc
  exact ⟨ret, s', hcall, hnames⟩

/-- Two processes without interior page tables, and the frames from 20 on. -/
def fresh (frames : ℕ) : ShmSystem 2 :=
  initial (fun _ => newFromKernel (Process.Globals.initial [])) (fun _ => [])
    (Process.Globals.initial (range' 20 frames))

def ipcCreat : ℕ := 0x200

/-- A segment for the key 1 and one for no key. Process 0 attaches the first and detaches it, and process 1 attaches it
with the frame that the removal of the second has given back. -/
def oneShared : List (ShmCall 2) :=
  [.get 1 5000 ipcCreat, .get 0 1 0, .attach 0 1 0 0, .detach 0 0x2a23445000, .remove 2, .attach 1 1 0 0]

lemma orderly_attach {s : ShmSystem n} {i : Fin n} {shmid : ℤ} {flags : ℕ} (frames : List ℕ)
    (hframes : s.shm.map.get? shmid.toNat = some frames) (h : (s.spaces i).HasRoom frames ∧ s.HasTables i frames) :
    s.Orderly (.attach i shmid 0 flags) := by
  refine ⟨rfl, fun frames' hframes' => ?_⟩
  rw [hframes] at hframes'
  cases hframes'
  exact h

theorem shmget_names_segments_again :
    ∃ s, Reaches ShmSystem.step Orderly (fresh 6) s ∧ s.named 1 = some 1 ∧ s.kernel.pages = [] ∧
      ∃ ret s', s.call (.get 1 5000 ipcCreat) = some (ret, s') ∧ ret = .ok 1 ∧ s'.madeFor 1 = some 1 := by
  have hadmits : Admits ShmSystem.step Orderly (fresh 6) oneShared := by
    refine ⟨⟨fun _ => ⟨by decide, fun _ => rfl⟩, fun _ h => (by revert h; decide +kernel)⟩, by decide +kernel,
      ⟨fun _ => ⟨by decide +kernel, fun h => absurd rfl h⟩, fun h => absurd h (by decide)⟩, by decide +kernel,
      orderly_attach [20, 21] (by decide +kernel) (by decide +kernel), by decide +kernel,
      show canonical 0x2a23445000 = true by decide +kernel, by decide +kernel, trivial, by decide +kernel,
      orderly_attach [20, 21] (by decide +kernel) (by decide +kernel), by decide +kernel, trivial⟩
  have hreach := Reaches.run hadmits
  have hagain : (run ShmSystem.step (fresh 6) oneShared).Orderly (.get 1 5000 ipcCreat) :=
    ⟨fun h => absurd h (by unfold ShmManager.Creates; decide +kernel), fun _ _ => by decide +kernel⟩
  obtain ⟨ret, s', hcall, hnames⟩ := shmget_names_segments (fun _ _ ha => (by cases ha)) hreach hagain
  have hret : ret = .ok 1 := by
    have hfst : ((run ShmSystem.step (fresh 6) oneShared).call (.get 1 5000 ipcCreat)).map Prod.fst = some (.ok 1) :=
      by decide +kernel
    rw [hcall] at hfst
    exact Option.some.inj hfst
  exact ⟨_, hreach, by decide +kernel, by decide +kernel, ret, s', hcall, hret, (hnames 1 5000 ipcCreat 1 rfl hret).2.1⟩

/-- One key yields two segments, and another key yields the first of them. A size for which there are not enough frames
panics, and so does an attachment with no frames for its page tables. -/
theorem key_yields_two_segments :
    (∃ s, Reaches ShmSystem.step (fun _ _ => True) (fresh 3) s ∧ s.named 42 = some 1 ∧ s.madeFor 1 = some 42 ∧
      (s.call (.get 42 1 ipcCreat)).map Prod.fst = some (.ok 2) ∧ (s.call (.get 1 1 0)).map Prod.fst = some (.ok 1) ∧
      (s.call (.get 0 20000 0)).isNone = true) ∧
    ∃ s, Reaches ShmSystem.step (fun _ _ => True) (fresh 3) s ∧ s.named 1 = some 1 ∧
      (s.call (.attach 0 1 0 0)).isNone = true :=
  ⟨⟨run ShmSystem.step (fresh 3) [.get 42 1 ipcCreat], Reaches.run (by decide +kernel), by decide +kernel,
    by decide +kernel, rfl, rfl, by decide +kernel⟩,
    run ShmSystem.step (fresh 3) [.get 1 12288 ipcCreat], Reaches.run (by decide +kernel), by decide +kernel,
    by decide +kernel⟩

end ShmSystem

end Ya2yOS.Mm
