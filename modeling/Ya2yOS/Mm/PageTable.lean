import Ya2yOS.Mm.Address

/-!
# The Sv39 page table

`PageTable` keeps the valid leaf entries of the three levels. A walk reads the low 27 bits of a page number and stops
at the first leaf. Walking through a superpage leaf as if it were a table is a panic.
-/

namespace Ya2yOS.Mm

open Option

structure MapPermission where
  r : Bool := false
  w : Bool := false
  x : Bool := false
  u : Bool := false
deriving DecidableEq, Repr

namespace MapPermission

def isEmpty (p : MapPermission) : Bool := !(p.r || p.w || p.x || p.u)

def contains (p q : MapPermission) : Bool :=
  (!q.r || p.r) && (!q.w || p.w) && (!q.x || p.x) && (!q.u || p.u)

end MapPermission

structure RVPTEFlags where
  valid : Bool := false
  readable : Bool := false
  writeable : Bool := false
  executable : Bool := false
  user : Bool := false
  global : Bool := false
  accessed : Bool := false
  dirty : Bool := false
  cow : Bool := false
deriving DecidableEq, Repr

namespace RVPTEFlags

def union (a b : RVPTEFlags) : RVPTEFlags where
  valid := a.valid || b.valid
  readable := a.readable || b.readable
  writeable := a.writeable || b.writeable
  executable := a.executable || b.executable
  user := a.user || b.user
  global := a.global || b.global
  accessed := a.accessed || b.accessed
  dirty := a.dirty || b.dirty
  cow := a.cow || b.cow

def isLeaf (f : RVPTEFlags) : Bool := f.readable || f.writeable || f.executable

/-- `From<MapPermission>`: R=0, W=1 is reserved, so a writable leaf is also readable. -/
def ofPerm (p : MapPermission) : RVPTEFlags where
  valid := true
  accessed := true
  readable := p.r || p.w
  writeable := p.w
  executable := p.x
  user := p.u

def requested (p : MapPermission) : RVPTEFlags where
  readable := p.r || p.w
  writeable := p.w
  executable := p.x
  user := p.u

def toCow (f : RVPTEFlags) : RVPTEFlags :=
  if f.writeable then { f with writeable := false, dirty := false, cow := true } else f

end RVPTEFlags

structure PTE where
  ppn : ℕ
  flags : RVPTEFlags
deriving DecidableEq, Repr

inductive Level where
  | giga
  | mega
  | page
deriving DecidableEq, Repr

def Level.span : Level → ℕ
  | .giga => 2 ^ 18
  | .mega => 2 ^ 9
  | .page => 1

def vpnIndex (vpn : ℕ) : ℕ := vpn % 2 ^ 27

variable {v : ℕ}

lemma vpnIndex_of_lt (h : v < 2 ^ 27) : vpnIndex v = v := Nat.mod_eq_of_lt h

lemma vpnIndex_of_lt_userLimit (h : v < userLimit) : vpnIndex v = v := vpnIndex_of_lt (lt_trans h (by decide))

/-- The valid leaves, by level and by index at that level. A leaf ends the walk, so no page
has a leaf at two levels. -/
structure PageTable where
  entry : Level → ℕ → Option PTE
  unique : ∀ i l m, (entry l (i / l.span)).isSome → (entry m (i / m.span)).isSome → l = m

namespace PageTable

def empty : PageTable := ⟨fun _ _ => none, by simp⟩

lemma entry_empty (l : Level) (k : ℕ) : empty.entry l k = none := rfl

def leaf (pt : PageTable) (lvl : Level) (vpn : ℕ) : Option PTE :=
  pt.entry lvl (vpnIndex vpn / lvl.span)

def findPte (pt : PageTable) (vpn : ℕ) : Option (Level × PTE) :=
  match pt.leaf .giga vpn with
  | some p => some (.giga, p)
  | none =>
    match pt.leaf .mega vpn with
    | some p => some (.mega, p)
    | none => (pt.leaf .page vpn).map (Prod.mk .page)

lemma leaf_unique (pt : PageTable) {l m : Level} {p q : PTE} (hl : pt.leaf l v = some p)
    (hm : pt.leaf m v = some q) : l = m :=
  pt.unique (vpnIndex v) l m (by rw [← leaf, hl]; rfl) (by rw [← leaf, hm]; rfl)

variable {p : PTE} {pt : PageTable} {lvl : Level}

lemma findPte_eq_some : pt.findPte v = some (lvl, p) ↔ pt.leaf lvl v = some p := by
  have hu : ∀ {l m : Level} {q r : PTE}, pt.leaf l v = some q → pt.leaf m v = some r → l = m :=
    fun hl hm => pt.leaf_unique hl hm
  unfold findPte
  cases hg : pt.leaf .giga v with
  | some q =>
    constructor
    · simp only [some.injEq, Prod.mk.injEq]
      rintro ⟨rfl, rfl⟩
      exact hg
    · intro h
      obtain rfl := hu hg h
      simp_all
  | none =>
    cases hm : pt.leaf .mega v with
    | some q =>
      constructor
      · simp only [some.injEq, Prod.mk.injEq]
        rintro ⟨rfl, rfl⟩
        exact hm
      · intro h
        obtain rfl := hu hm h
        simp_all
    | none => cases lvl <;> simp_all [map_eq_some_iff]

lemma findPte_eq_none : pt.findPte v = none ↔ ∀ l, pt.leaf l v = none := by
  constructor
  · intro h l
    cases hl : pt.leaf l v with
    | none => rfl
    | some p => simp [findPte_eq_some.2 hl] at h
  · intro h
    simp [findPte, h]

lemma findPte_congr {pt pt' : PageTable} (h : ∀ l, pt'.leaf l v = pt.leaf l v) : pt'.findPte v = pt.findPte v := by
  simp only [findPte, h]

def SameEntry (lvl : Level) (v w : ℕ) : Prop := vpnIndex v / lvl.span = vpnIndex w / lvl.span
deriving Decidable

lemma SameEntry.refl (lvl : Level) (v : ℕ) : SameEntry lvl v v := rfl

variable {v w ppn : ℕ} {e : Option PTE} {f : RVPTEFlags} {h : (pt.leaf lvl v).isSome}

lemma sameEntry_page : SameEntry .page v w ↔ vpnIndex v = vpnIndex w := by
  simp [SameEntry, Level.span]

lemma leaf_of_sameEntry (pt : PageTable) (h : SameEntry lvl v w) : pt.leaf lvl v = pt.leaf lvl w := by
  unfold leaf
  rw [h]

lemma leaf_congr (pt : PageTable) (h : vpnIndex v = vpnIndex w) (l : Level) : pt.leaf l v = pt.leaf l w := by
  unfold leaf
  rw [h]

lemma findPte_of_sameEntry
    (hp : pt.findPte v = some (lvl, p)) (h : SameEntry lvl w v) : pt.findPte w = some (lvl, p) := by
  rw [findPte_eq_some] at hp ⊢
  rwa [leaf_of_sameEntry pt h]

lemma vpnIndex_vpnIndex (v : ℕ) : vpnIndex (vpnIndex v) = vpnIndex v := Nat.mod_mod _ _

lemma findPte_vpnIndex (pt : PageTable) (v : ℕ) : pt.findPte (vpnIndex v) = pt.findPte v := by
  simp only [findPte, leaf, vpnIndex_vpnIndex]

lemma sameEntry_vpnIndex : SameEntry lvl v (vpnIndex w) ↔ SameEntry lvl v w := by
  simp only [SameEntry, vpnIndex_vpnIndex]

def replace (pt : PageTable) (lvl : Level) (vpn : ℕ) (e : Option PTE)
    (h : (pt.leaf lvl vpn).isSome) : PageTable where
  entry l k := if l = lvl ∧ k = vpnIndex vpn / lvl.span then e else pt.entry l k
  unique i l m := by
    have hs : ∀ n, (if n = lvl ∧ i / n.span = vpnIndex vpn / lvl.span then e
        else pt.entry n (i / n.span)).isSome → (pt.entry n (i / n.span)).isSome := by
      intro n
      split_ifs with hn
      · obtain ⟨rfl, hi⟩ := hn
        rw [hi]
        exact fun _ => h
      · exact id
    exact fun hl hm => pt.unique i l m (hs l hl) (hs m hm)

lemma leaf_replace (pt : PageTable) (h : (pt.leaf lvl v).isSome) (l : Level) (w : ℕ) :
    (pt.replace lvl v e h).leaf l w = if l = lvl ∧ SameEntry lvl w v then e else pt.leaf l w := by
  unfold leaf replace SameEntry
  by_cases hl : l = lvl
  · subst hl
    simp
  · simp [hl]

lemma findPte_replace_of_not (hw : ¬ SameEntry lvl w v) : (pt.replace lvl v e h).findPte w = pt.findPte w :=
  findPte_congr fun l => by rw [leaf_replace, if_neg (fun hl => hw hl.2)]

lemma findPte_replace (hw : SameEntry lvl w v) : (pt.replace lvl v e h).findPte w = e.map (Prod.mk lvl) := by
  obtain ⟨p, hp⟩ := isSome_iff_exists.1 h
  cases e with
  | some q =>
    rw [map_some, findPte_eq_some, leaf_replace, if_pos ⟨rfl, hw⟩]
  | none =>
    rw [map_none, findPte_eq_none]
    intro l
    rw [leaf_replace]
    split_ifs with hl
    · rfl
    cases hq : pt.leaf l w with
    | none => rfl
    | some q =>
      rw [leaf_of_sameEntry pt hw.symm] at hp
      exact absurd ⟨pt.leaf_unique hq hp, hw⟩ hl

def install (pt : PageTable) (lvl : Level) (vpn : ℕ) (p : PTE)
    (h : ∀ i l, i / lvl.span = vpnIndex vpn / lvl.span → pt.entry l (i / l.span) = none) :
    PageTable where
  entry l k := if l = lvl ∧ k = vpnIndex vpn / lvl.span then some p else pt.entry l k
  unique i l m := by
    intro hl hm
    by_cases hi : i / lvl.span = vpnIndex vpn / lvl.span
    · have hs : ∀ n, (if n = lvl ∧ i / n.span = vpnIndex vpn / lvl.span then some p
          else pt.entry n (i / n.span)).isSome → n = lvl := by
        intro n hn
        by_contra hne
        rw [if_neg (fun hc => hne hc.1), h i n hi] at hn
        simp at hn
      rw [hs l hl, hs m hm]
    · have hs : ∀ n, (if n = lvl ∧ i / n.span = vpnIndex vpn / lvl.span then some p
          else pt.entry n (i / n.span)) = pt.entry n (i / n.span) := by
        intro n
        rw [if_neg]
        rintro ⟨rfl, hc⟩
        exact hi hc
      rw [hs] at hl hm
      exact pt.unique i l m hl hm

lemma leaf_install (pt : PageTable)
    (h : ∀ i l, i / lvl.span = vpnIndex v / lvl.span → pt.entry l (i / l.span) = none) (l : Level) (w : ℕ) :
    (pt.install lvl v p h).leaf l w = if l = lvl ∧ SameEntry lvl w v then some p else pt.leaf l w := by
  unfold leaf install SameEntry
  by_cases hl : l = lvl
  · subst hl
    simp
  · simp [hl]

lemma findPte_install {h : ∀ i l, i / lvl.span = vpnIndex v / lvl.span → pt.entry l (i / l.span) = none} :
    (pt.install lvl v p h).findPte w = if SameEntry lvl w v then some (lvl, p) else pt.findPte w := by
  split_ifs with hw
  · rw [findPte_eq_some, leaf_install, if_pos ⟨rfl, hw⟩]
  · exact findPte_congr fun l => by rw [leaf_install, if_neg (fun hl => hw hl.2)]

/-- `map_by_pte_flags`: asserts that the page is not mapped. -/
def mapByPteFlags (pt : PageTable) (vpn ppn : ℕ) (flags : RVPTEFlags) : Option PageTable :=
  if h : pt.findPte vpn = none then
    some (pt.install .page vpn ⟨ppn, { flags with valid := true }⟩ (by
      intro i l hi
      simp only [Level.span, Nat.div_one] at hi
      subst hi
      exact findPte_eq_none.1 h l))
  else none

/-- `map_mega_page`: asserts the alignment and that none of the 512 pages is mapped. An entry
without R, W, X would be read as a table. -/
def mapMegaPage (pt : PageTable) (vpn ppn : ℕ) (flags : RVPTEFlags) : Option PageTable :=
  if h : vpn % hugePagePages = 0 ∧ ppn % hugePagePages = 0 ∧ flags.isLeaf ∧
      ∀ k < hugePagePages, pt.findPte (vpn + k) = none then
    some (pt.install .mega vpn ⟨ppn, { flags with valid := true }⟩ (by
      obtain ⟨hv, -, -, hk⟩ := h
      intro i l hi
      have hi' : i = vpnIndex (vpn + i % hugePagePages) := by
        simp only [Level.span, vpnIndex, hugePagePages] at *
        omega
      have := findPte_eq_none.1 (hk (i % hugePagePages) (Nat.mod_lt _ (by decide))) l
      rwa [leaf, ← hi'] at this))
  else none

def unmap (pt : PageTable) (vpn : ℕ) : PageTable :=
  match h : pt.findPte vpn with
  | none => pt
  | some (lvl, _) => pt.replace lvl vpn none (by rw [findPte_eq_some.1 h]; rfl)

def updateFlags (pt : PageTable) (vpn : ℕ) (f : RVPTEFlags → RVPTEFlags) : PageTable :=
  match h : pt.findPte vpn with
  | none => pt
  | some (lvl, p) =>
    pt.replace lvl vpn (some { p with flags := f p.flags }) (by rw [findPte_eq_some.1 h]; rfl)

def setPte (pt : PageTable) (vpn : ℕ) (p : PTE) : PageTable :=
  match h : pt.findPte vpn with
  | none => pt
  | some (lvl, _) => pt.replace lvl vpn (some p) (by rw [findPte_eq_some.1 h]; rfl)

def translate (pt : PageTable) (vpn : ℕ) : Option ℕ :=
  match pt.findPte vpn with
  | some (lvl, p) => if p.flags.isLeaf then some (p.ppn + vpn % lvl.span) else none
  | none => none

def flagsAt (pt : PageTable) (vpn : ℕ) : Option RVPTEFlags := (pt.findPte vpn).map (·.2.flags)

def isCowPage (pt : PageTable) (vpn : ℕ) : Bool :=
  match pt.flagsAt vpn with
  | some f => f.cow
  | none => false

def handleMprotect (pt : PageTable) (vpn : ℕ) (addFlags : MapPermission) : PageTable :=
  pt.updateFlags vpn (RVPTEFlags.requested addFlags).union

def mmapFaultFlags (perm : MapPermission) (shared : Bool) : RVPTEFlags :=
  let f := RVPTEFlags.ofPerm perm
  if shared then (if f.writeable then { f with dirty := true } else f) else f.toCow

def handleMmapReadPageFault (pt : PageTable) (vpn ppn : ℕ) (perm : MapPermission) (shared : Bool) :
    Option PageTable :=
  pt.mapByPteFlags vpn ppn (mmapFaultFlags perm shared)

/-- `handle_mmap_write_page_fault`: adds the flags to an entry already there, and panics where
there is none. -/
def handleMmapWritePageFault (pt : PageTable) (vpn : ℕ) (perm : MapPermission) (shared : Bool) :
    Option PageTable :=
  if (pt.findPte vpn).isSome then some (pt.updateFlags vpn (mmapFaultFlags perm shared).union)
  else none

lemma findPte_mapByPteFlags {pt pt' : PageTable}
    (h : pt.mapByPteFlags v ppn f = some pt') :
    pt.findPte v = none ∧ ∀ w, pt'.findPte w =
      if vpnIndex w = vpnIndex v then some (.page, ⟨ppn, { f with valid := true }⟩)
      else pt.findPte w := by
  unfold mapByPteFlags at h
  split_ifs at h with hv
  rw [some.injEq] at h
  subst h
  refine ⟨hv, fun w => ?_⟩
  rw [findPte_install]
  simp only [sameEntry_page]

lemma findPte_mapMegaPage {pt pt' : PageTable}
    (h : pt.mapMegaPage v ppn f = some pt') :
    (v % hugePagePages = 0 ∧ ∀ k < hugePagePages, pt.findPte (v + k) = none) ∧ ∀ w, pt'.findPte w =
        if SameEntry .mega w v then some (.mega, ⟨ppn, { f with valid := true }⟩)
        else pt.findPte w := by
  unfold mapMegaPage at h
  split_ifs at h with hv
  rw [some.injEq] at h
  subst h
  exact ⟨⟨hv.1, hv.2.2.2⟩, fun w => findPte_install⟩

lemma findPte_unmap (pt : PageTable) (v w : ℕ) : (pt.unmap v).findPte w = pt.findPte w ∨ (pt.unmap v).findPte w = none ∧
      ∃ lvl p, pt.findPte v = some (lvl, p) ∧ SameEntry lvl w v := by
  unfold unmap
  split
  · exact .inl rfl
  · next lvl p h =>
    by_cases hw : SameEntry lvl w v
    · exact .inr ⟨findPte_replace hw, lvl, p, h, hw⟩
    · exact .inl (findPte_replace_of_not hw)

lemma findPte_unmap_self (pt : PageTable) (v : ℕ) : (pt.unmap v).findPte v = none := by
  unfold unmap
  split
  · assumption
  · exact findPte_replace (SameEntry.refl _ _)

lemma findPte_unmap_of_none (v : ℕ) (h : pt.findPte w = none) : (pt.unmap v).findPte w = none := by
  rcases findPte_unmap pt v w with hw | hw
  · rw [hw, h]
  · exact hw.1

lemma findPte_setPte {p q : PTE} (h : pt.findPte v = some (lvl, p)) :
    (pt.setPte v q).findPte w = if SameEntry lvl w v then some (lvl, q) else pt.findPte w := by
  unfold setPte
  split
  · simp_all
  next l r hr =>
  obtain ⟨rfl, rfl⟩ : lvl = l ∧ p = r := by simpa using h.symm.trans hr
  split_ifs with hw
  · exact findPte_replace hw
  · exact findPte_replace_of_not hw

lemma findPte_updateFlags_of_not {f : RVPTEFlags → RVPTEFlags}
    (h : ∀ lvl p, pt.findPte v = some (lvl, p) → ¬ SameEntry lvl w v) :
    (pt.updateFlags v f).findPte w = pt.findPte w := by
  unfold updateFlags
  split
  · rfl
  · next lvl p hp => exact findPte_replace_of_not (h lvl p hp)

lemma findPte_updateFlags {f : RVPTEFlags → RVPTEFlags} (h : pt.findPte v = some (lvl, p)) (hw : SameEntry lvl w v) :
    (pt.updateFlags v f).findPte w = some (lvl, { p with flags := f p.flags }) := by
  unfold updateFlags
  split
  · simp_all
  · next l q hq =>
    rw [h, some.injEq, Prod.mk.injEq] at hq
    obtain ⟨rfl, rfl⟩ := hq
    exact findPte_replace hw

lemma findPte_updateFlags_cases (pt : PageTable) (v w : ℕ) (f : RVPTEFlags → RVPTEFlags) :
    (pt.updateFlags v f).findPte w = pt.findPte w ∨
      ∃ lvl p, pt.findPte v = some (lvl, p) ∧ SameEntry lvl w v ∧ pt.findPte w = some (lvl, p) ∧
        (pt.updateFlags v f).findPte w = some (lvl, { p with flags := f p.flags }) := by
  by_cases h : ∃ lvl p, pt.findPte v = some (lvl, p) ∧ SameEntry lvl w v
  · obtain ⟨lvl, p, hp, hw⟩ := h
    exact .inr ⟨lvl, p, hp, hw, findPte_of_sameEntry hp hw, findPte_updateFlags hp hw⟩
  · exact .inl (findPte_updateFlags_of_not fun lvl p hp hw => h ⟨lvl, p, hp, hw⟩)

end PageTable

end Ya2yOS.Mm
