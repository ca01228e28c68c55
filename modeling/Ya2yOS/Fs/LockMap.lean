import Ya2yOS.Fs.PosixLock
import Ya2yOS.Lib.Transition

/-!
# Record locks as a map on bytes

The locks of a file stand for a map from owners and bytes to lock types. On it `setlk`, which trims the locks of the
owner, adds the new one and merges neighbours, sets the bytes of the range.
-/

namespace Ya2yOS.Fs

open Function Lib List

namespace PosixLock

def Covers (a : PosixLock) (b : ℤ) : Prop := a.start ≤ b ∧ b ≤ a.stop
deriving Decidable

/-- No byte is held by both where they have one owner or one of them writes. -/
def Compatible (a b : PosixLock) : Prop :=
  a.pid = b.pid ∨ a.kind = .write ∨ b.kind = .write → ∀ x, a.Covers x → ¬ b.Covers x

lemma Compatible.symm {a b : PosixLock} (h : a.Compatible b) : b.Compatible a := by
  intro hc x hb ha
  apply h _ x ha hb
  rcases hc with hc | hc | hc
  · exact .inl hc.symm
  · exact .inr (.inr hc)
  · exact .inr (.inl hc)

structure PartOf (p a : PosixLock) : Prop where
  kind : p.kind = a.kind
  pid : p.pid = a.pid
  covers : ∀ x, p.Covers x → a.Covers x

lemma PartOf.refl (a : PosixLock) : PartOf a a := ⟨rfl, rfl, fun _ h => h⟩

lemma Compatible.parts {a b p q : PosixLock} (h : a.Compatible b) (hp : PartOf p a) (hq : PartOf q b) :
    p.Compatible q := by
  intro hc x hpx hqx
  rw [hp.pid, hq.pid, hp.kind, hq.kind] at hc
  exact h hc x (hp.covers x hpx) (hq.covers x hqx)

end PosixLock

open PosixLock

def lockAt (l : List PosixLock) (owner b : ℤ) : Option LockKind :=
  (l.find? fun a => a.pid = owner ∧ a.Covers b).map PosixLock.kind

def Holds (l : List PosixLock) (owner b : ℤ) (k : LockKind) : Prop :=
  ∃ a ∈ l, a.pid = owner ∧ a.Covers b ∧ a.kind = k

/-- The locks of one owner are disjoint, and no writer shares a byte. -/
abbrev Disjoint (l : List PosixLock) : Prop := l.Pairwise Compatible

def Bounded (l : List PosixLock) : Prop := ∀ a ∈ l, i64Min ≤ a.stop ∧ a.stop ≤ i64Max

variable {k : LockKind} {l l' : List PosixLock} {b o off owner size start stop : ℤ} {fl : Flock}

lemma lockAt_eq_some (hl : Disjoint l) : lockAt l owner b = some k ↔ Holds l owner b k := by
  induction l with
  | nil => simp [lockAt, Holds]
  | cons a l ih =>
    obtain ⟨ha, hl⟩ := pairwise_cons.1 hl
    unfold lockAt Holds at *
    by_cases hc : a.pid = owner ∧ a.Covers b
    · rw [find?_cons_of_pos (by simpa using hc)]
      constructor
      · intro hk
        exact ⟨a, mem_cons_self, hc.1, hc.2, Option.some.inj hk⟩
      · rintro ⟨x, hx, hpid, hcov, rfl⟩
        rcases mem_cons.1 hx with rfl | hx
        · rfl
        · exact absurd hcov (ha x hx (.inl (hc.1.trans hpid.symm)) b hc.2)
    · rw [find?_cons_of_neg (by simpa using hc), ih hl]
      constructor
      · rintro ⟨x, hx, h⟩
        exact ⟨x, mem_cons_of_mem a hx, h⟩
      · rintro ⟨x, hx, hpid, hcov, hk⟩
        rcases mem_cons.1 hx with rfl | hx
        · exact absurd ⟨hpid, hcov⟩ hc
        · exact ⟨x, hx, hpid, hcov, hk⟩

lemma holds_append :
    Holds (l ++ l') owner b k ↔ Holds l owner b k ∨ Holds l' owner b k := by
  simp only [Holds, mem_append, or_and_right, exists_or]

lemma holds_perm (h : l.Perm l') : Holds l owner b k ↔ Holds l' owner b k := by
  simp only [Holds, h.mem_iff]

/-! ### Trimming -/

structure ClosedRange (start stop : ℤ) : Prop where
  start_nonneg : 0 ≤ start
  start_le : start ≤ i64Max
  le_stop : start ≤ stop + 1
  stop_le : stop ≤ i64Max

lemma absoluteStart_le (h : absoluteStart fl size off = .ok start) : start ≤ i64Max := by
  unfold absoluteStart at h
  split_ifs at h
  · exact (Except.ok.inj h) ▸ fl.lStart.2.2
  · exact (Except.ok.inj h) ▸ (satAdd_bounds _ _).2
  · exact (Except.ok.inj h) ▸ (satAdd_bounds _ _).2

lemma toAbsolute_closedRange (h : toAbsolute fl size off = .ok (start, stop)) : ClosedRange start stop := by
  unfold toAbsolute at h
  split at h
  · cases h
  next s hs =>
  have hbound := absoluteStart_le hs
  dsimp only at h
  split_ifs at h
  all_goals
    obtain ⟨rfl, rfl⟩ := Prod.mk.inj (Except.ok.inj h)
    constructor
  all_goals
    simp only [satAdd, satSub, i64Min, i64Max] at *
    omega

/-! ### The range of a request -/

namespace Flock

/-- The byte at which a request starts, for the three values of `l_whence`. -/
def first (fl : Flock) (fileSize currentOffset : ℤ) : ℤ :=
  (if fl.lWhence = 1 then currentOffset else if fl.lWhence = 2 then fileSize else 0) + fl.lStart

/-- The bytes that a request names: `l_len` bytes from its start on, all of them if that is zero, and for a negative
length the bytes in front of the start. -/
def InRange (fl : Flock) (fileSize currentOffset b : ℤ) : Prop :=
  let start := fl.first fileSize currentOffset
  if (fl.lLen : ℤ) = 0 then start ≤ b ∧ b ≤ i64Max
  else if (fl.lLen : ℤ) < 0 then start + fl.lLen ≤ b ∧ b < start
  else start ≤ b ∧ b < start + fl.lLen

instance (fl : Flock) (fileSize currentOffset b : ℤ) : Decidable (fl.InRange fileSize currentOffset b) :=
  inferInstanceAs (Decidable (ite _ _ _))

/-- Not before its start and, with its end, within the offsets. -/
def Regular (fl : Flock) (fileSize currentOffset : ℤ) : Prop :=
  0 ≤ (fl.lLen : ℤ) ∧ fl.first fileSize currentOffset + fl.lLen ≤ i64Max

end Flock

lemma toAbsolute_inRange {start stop b : ℤ} (hreg : fl.Regular size off)
    (h : toAbsolute fl size off = .ok (start, stop)) :
    fl.InRange size off b ↔ start ≤ b ∧ b ≤ stop := by
  obtain ⟨hlen, hend⟩ := hreg
  have hfirst : ∀ s, absoluteStart fl size off = .ok s → 0 ≤ s → s = fl.first size off := by
    intro s hs hnonneg
    unfold absoluteStart satAdd at hs
    unfold Flock.first at hend ⊢
    unfold i64Min i64Max at *
    split_ifs at hs <;> cases hs <;> simp_all <;> omega
  unfold toAbsolute at h
  split at h
  · cases h
  next s hs =>
  dsimp only at h
  unfold Flock.InRange
  dsimp only
  split_ifs at h ⊢ with h0 hzero
  · obtain ⟨rfl, rfl⟩ := Prod.mk.inj (Except.ok.inj h)
    rw [hfirst _ hs (by omega)]
  · omega
  · obtain ⟨rfl, rfl⟩ := Prod.mk.inj (Except.ok.inj h)
    rw [← hfirst _ hs (by omega)] at hend ⊢
    simp only [satAdd, satSub, i64Min, i64Max] at hend ⊢
    omega

section Split

variable {a p : PosixLock} {start stop : ℤ} (hr : ClosedRange start stop) (hov : a.overlaps start stop = true)
include hr hov

lemma splitOwned_partOf (hp : p ∈ a.splitOwned start stop) :
    PartOf p a ∧ (∀ x, p.Covers x → ¬ (start ≤ x ∧ x ≤ stop)) ∧ i64Min ≤ p.stop ∧ p.stop ≤ max a.stop i64Max := by
  obtain ⟨h0, hle, hse, hmax⟩ := hr
  simp only [overlaps, Bool.and_eq_true, decide_eq_true_eq] at hov
  simp only [splitOwned, mem_append] at hp
  rcases hp with hp | hp
  · split_ifs at hp with hlt
    · rw [mem_singleton] at hp
      subst hp
      refine ⟨⟨rfl, rfl, ?_⟩, ?_, (satSub_bounds _ _).1, ?_⟩
      all_goals
        simp only [Covers, satSub, i64Min, i64Max] at *
        omega
    · exact absurd hp not_mem_nil
  · split_ifs at hp with hlt
    · rw [mem_singleton] at hp
      subst hp
      refine ⟨⟨rfl, rfl, ?_⟩, ?_, ?_, le_max_left _ _⟩
      all_goals
        simp only [Covers, satAdd, i64Min, i64Max] at *
        omega
    · exact absurd hp not_mem_nil

end Split

variable {start stop : ℤ}

lemma exists_splitOwned {a : PosixLock} (hr : ClosedRange start stop) (hmax : a.stop ≤ i64Max) {x : ℤ}
    (hx : a.Covers x) (hout : ¬ (start ≤ x ∧ x ≤ stop)) : ∃ p ∈ a.splitOwned start stop, p.Covers x := by
  obtain ⟨h0, hle, hse, hstop⟩ := hr
  unfold Covers at *
  unfold splitOwned
  by_cases hlt : x < start
  · rw [if_pos (by omega)]
    refine ⟨{ a with stop := satSub start 1 }, by simp, hx.1, ?_⟩
    simp only [satSub, i64Min, i64Max] at *
    omega
  · rw [if_pos (show stop ≠ i64Max ∧ stop < a.stop by omega)]
    refine ⟨{ a with start := satAdd stop 1 }, by simp, ?_, hx.2⟩
    simp only [satAdd, i64Min, i64Max] at *
    omega

lemma splitOwned_disjoint {a : PosixLock} (hr : ClosedRange start stop) : Disjoint (a.splitOwned start stop) := by
  obtain ⟨h0, hle, hse, hstop⟩ := hr
  unfold splitOwned
  split_ifs with h1 h2
  · apply pairwise_pair.2
    intro _ x hx hx'
    simp only [Covers, satAdd, satSub, i64Min, i64Max] at *
    omega
  · exact pairwise_singleton ..
  · exact pairwise_singleton ..
  · exact .nil

section Carve

variable {l : List PosixLock} {start stop : ℤ} (hr : ClosedRange start stop) (owner : ℤ)
include hr

lemma mem_carve {p : PosixLock} (hp : p ∈ carve l start stop owner) :
    ∃ a ∈ l, PartOf p a ∧ (p.pid = owner → ∀ x, p.Covers x → ¬ (start ≤ x ∧ x ≤ stop)) := by
  obtain ⟨a, ha, hp⟩ := mem_flatMap.1 hp
  refine ⟨a, ha, ?_⟩
  split_ifs at hp with hc
  · obtain ⟨hpart, hout, -⟩ := splitOwned_partOf hr hc.2 hp
    exact ⟨hpart, fun _ => hout⟩
  rw [mem_singleton] at hp
  subst hp
  refine ⟨.refl p, ?_⟩
  intro hpid x hx hin
  apply hc
  simp only [overlaps, Bool.and_eq_true, decide_eq_true_eq]
  unfold Covers at hx
  omega

lemma bounded_carve (hb : Bounded l) : Bounded (carve l start stop owner) := by
  intro p hp
  obtain ⟨a, ha, hp⟩ := mem_flatMap.1 hp
  split_ifs at hp with hc
  · obtain ⟨-, -, hlo, hhi⟩ := splitOwned_partOf hr hc.2 hp
    exact ⟨hlo, hhi.trans (max_le (hb a ha).2 (le_refl _))⟩
  · rw [mem_singleton] at hp
    exact hp ▸ hb a ha

lemma holds_carve (hb : Bounded l) :
    Holds (carve l start stop owner) o b k ↔ Holds l o b k ∧ ¬ (o = owner ∧ start ≤ b ∧ b ≤ stop) := by
  constructor
  · rintro ⟨p, hp, rfl, hcov, rfl⟩
    obtain ⟨a, ha, hpart, hout⟩ := mem_carve hr owner hp
    exact ⟨⟨a, ha, hpart.pid.symm, hpart.covers b hcov, hpart.kind.symm⟩, fun h => hout h.1 b hcov h.2⟩
  rintro ⟨⟨a, ha, rfl, hcov, rfl⟩, hout⟩
  by_cases hc : a.pid = owner ∧ a.overlaps start stop
  · obtain ⟨p, hp, hpx⟩ := exists_splitOwned hr (hb a ha).2 hcov fun h => hout ⟨hc.1, h⟩
    obtain ⟨hpart, -⟩ := splitOwned_partOf hr hc.2 hp
    exact ⟨p, mem_flatMap.2 ⟨a, ha, by rwa [if_pos hc]⟩, hpart.pid, hpx, hpart.kind⟩
  · exact ⟨a, mem_flatMap.2 ⟨a, ha, by rw [if_neg hc]; exact mem_singleton_self a⟩, rfl, hcov, rfl⟩

lemma disjoint_carve (hl : Disjoint l) : Disjoint (carve l start stop owner) := by
  apply pairwise_flatMap.2
  constructor
  · intro a _
    split_ifs with hc
    · exact splitOwned_disjoint hr
    · exact pairwise_singleton ..
  · apply hl.imp
    intro a b hab p hp q hq
    have part {c r : PosixLock} (hr' : r ∈ if c.pid = owner ∧ c.overlaps start stop = true then
        c.splitOwned start stop else [c]) : PartOf r c := by
      split_ifs at hr' with hc
      · exact (splitOwned_partOf hr hc.2 hr').1
      · exact mem_singleton.1 hr' ▸ .refl c
    exact hab.parts (part hp) (part hq)

end Carve

section Merge

variable {last a : PosixLock} {rest l : List PosixLock}

lemma covers_of_joins (hj : last.joins a = true) (hle : last.start ≤ a.start) (hmin : i64Min ≤ last.stop)
    (x : ℤ) : { last with stop := max last.stop a.stop }.Covers x ↔ last.Covers x ∨ a.Covers x := by
  simp only [joins, Bool.and_eq_true, decide_eq_true_eq] at hj
  simp only [Covers, satAdd, i64Min, i64Max] at *
  omega

lemma joins_same (hj : last.joins a = true) : last.pid = a.pid ∧ last.kind = a.kind := by
  simp only [joins, Bool.and_eq_true, decide_eq_true_eq] at hj
  exact hj.1

/-- What merging needs of a list: the locks come in the order of their starts, with ends that are words. -/
structure Mergeable (l : List PosixLock) : Prop where
  sorted : l.Pairwise fun a b => a.start ≤ b.start
  bounded : Bounded l

lemma Mergeable.join (h : Mergeable (last :: a :: rest)) :
    Mergeable ({ last with stop := max last.stop a.stop } :: rest) := by
  obtain ⟨hlast, ha⟩ := pairwise_cons.1 h.sorted
  constructor
  · apply pairwise_cons.2
    exact ⟨fun b hb => hlast b (mem_cons_of_mem a hb), (pairwise_cons.1 ha).2⟩
  intro b hb
  rcases mem_cons.1 hb with rfl | hb
  · have h1 := h.bounded last (by simp)
    have h2 := h.bounded a (by simp)
    exact ⟨le_max_of_le_left h1.1, max_le h1.2 h2.2⟩
  · exact h.bounded b (by simp [hb])

lemma Mergeable.tail (h : Mergeable (last :: rest)) : Mergeable rest :=
  ⟨(pairwise_cons.1 h.sorted).2, fun a ha => h.bounded a (mem_cons_of_mem _ ha)⟩

lemma holds_cons :
    Holds (a :: l) o b k ↔ (a.pid = o ∧ a.Covers b ∧ a.kind = k) ∨ Holds l o b k := by
  simp [Holds]

lemma compatible_of_holds (hh : ∀ o b k, Holds l' o b k → Holds l o b k)
    (h : ∀ c ∈ l, a.Compatible c) : ∀ c ∈ l', a.Compatible c := by
  intro c hc hclash x hax hcx
  obtain ⟨d, hd, hpid, hdx, hkind⟩ := hh c.pid x c.kind ⟨c, hc, rfl, hcx, rfl⟩
  rw [← hpid, ← hkind] at hclash
  exact h d hd hclash x hax hdx

lemma mergeFrom_spec (h : Mergeable (last :: rest)) (hd : Disjoint (last :: rest)) :
    Disjoint (mergeFrom last rest) ∧ Bounded (mergeFrom last rest) ∧
      ∀ o b k, Holds (mergeFrom last rest) o b k ↔ Holds (last :: rest) o b k := by
  induction rest generalizing last with
  | nil => exact ⟨hd, h.bounded, fun _ _ _ => Iff.rfl⟩
  | cons a rest ih =>
    obtain ⟨hlast, hrest⟩ := pairwise_cons.1 hd
    rw [mergeFrom]
    split_ifs with hj
    · have hle : last.start ≤ a.start := (pairwise_cons.1 h.sorted).1 a (by simp)
      have hcov := covers_of_joins hj hle (h.bounded last (by simp)).1
      obtain ⟨hpid, hkind⟩ := joins_same hj
      have hnew : ∀ c ∈ rest, { last with stop := max last.stop a.stop }.Compatible c := by
        intro c hc hclash x hx
        rcases (hcov x).1 hx with hx | hx
        · exact hlast c (mem_cons_of_mem a hc) hclash x hx
        · rw [hpid, hkind] at hclash
          exact (pairwise_cons.1 hrest).1 c hc hclash x hx
      obtain ⟨hdis, hbd, hholds⟩ := ih h.join (pairwise_cons.2 ⟨hnew, (pairwise_cons.1 hrest).2⟩)
      refine ⟨hdis, hbd, ?_⟩
      intro o b k
      rw [hholds, holds_cons, holds_cons, holds_cons, hcov b, hpid, hkind]
      tauto
    · obtain ⟨hdis, hbd, hholds⟩ := ih h.tail hrest
      refine ⟨?_, ?_, ?_⟩
      · exact pairwise_cons.2 ⟨compatible_of_holds (fun o b k => (hholds o b k).1) hlast, hdis⟩
      · intro c hc
        rcases mem_cons.1 hc with rfl | hc
        · exact h.bounded c (by simp)
        · exact hbd c hc
      · intro o b k
        rw [holds_cons, hholds, holds_cons (a := last)]

instance : Std.Total sortLe := ⟨fun a b => le_total a.sortKey b.sortKey⟩

instance : IsTrans PosixLock sortLe := ⟨fun _ _ _ h h' => le_trans h h'⟩

lemma start_le_of_sortLe {a b : PosixLock} (h : sortLe a b) : a.start ≤ b.start :=
  (Prod.Lex.toLex_le_toLex.1 h).elim le_of_lt fun h => le_of_eq h.1

lemma normalizeLocks_spec (hb : Bounded l) (hd : Disjoint l) :
    Disjoint (normalizeLocks l) ∧ Bounded (normalizeLocks l) ∧
      ∀ o b k, Holds (normalizeLocks l) o b k ↔ Holds l o b k := by
  have hperm := perm_insertionSort sortLe l
  have hd' : Disjoint (l.insertionSort sortLe) := hperm.symm.pairwise hd Compatible.symm
  have hsorted : (l.insertionSort sortLe).Pairwise fun a b => a.start ≤ b.start :=
    (pairwise_insertionSort sortLe l).imp start_le_of_sortLe
  have hb' : Bounded (l.insertionSort sortLe) := fun a ha => hb a (hperm.mem_iff.1 ha)
  simp only [← holds_perm hperm]
  unfold normalizeLocks
  cases hs : l.insertionSort sortLe with
  | nil => exact ⟨.nil, nofun, fun _ _ _ => Iff.rfl⟩
  | cons a rest =>
    rw [hs] at hd' hsorted hb'
    exact mergeFrom_spec ⟨hsorted, hb'⟩ hd'

end Merge

structure EntrySound (l : List PosixLock) : Prop where
  disjoint : Disjoint l
  bounded : Bounded l

lemma EntrySound.nil : EntrySound [] := ⟨.nil, nofun⟩

lemma EntrySound.filter (h : EntrySound l) (p : PosixLock → Bool) : EntrySound (l.filter p) :=
  ⟨h.disjoint.filter p, fun a ha => h.bounded a (mem_of_mem_filter ha)⟩

lemma compatible_new (hr : ClosedRange start stop) (hfree : blocked l ⟨k, start, stop, owner⟩ = false) :
    ∀ p ∈ carve l start stop owner, p.Compatible ⟨k, start, stop, owner⟩ := by
  intro p hp hclash x hpx hx
  obtain ⟨a, ha, hpart, hout⟩ := mem_carve hr owner hp
  by_cases hpid : p.pid = owner
  · exact hout hpid x hpx hx
  have hax := hpart.covers x hpx
  have hkind : a.kind = .write ∨ k = .write := by
    rw [← hpart.kind]
    exact hclash.resolve_left hpid
  have hnot := any_eq_false.1 hfree a ha
  rw [hpart.pid] at hpid
  apply hnot
  unfold Covers at hax hx
  dsimp only at hx
  have hboth : ¬ a.kind = .read ∨ ¬ k = .read := by
    rcases hkind with h | h
    · exact .inl (by simp [h])
    · exact .inr (by simp [h])
  have hov : a.start ≤ stop ∧ start ≤ a.stop := by omega
  simp [conflicts, hpid, hboth, hov]

/-- On the map of bytes, the owner's bytes of the range get the type and no others change. -/
lemma EntrySound.update (h : EntrySound l) (hr : ClosedRange start stop) (owner : ℤ) (kind : Option LockKind)
    (hfree : ∀ k, kind = some k → blocked l ⟨k, start, stop, owner⟩ = false) :
    let l' := normalizeLocks (carve l start stop owner ++ (kind.map fun k => ⟨k, start, stop, owner⟩).toList)
    EntrySound l' ∧ ∀ o b, lockAt l' o b = if o = owner ∧ start ≤ b ∧ b ≤ stop then kind else lockAt l o b := by
  have hparts : Bounded (carve l start stop owner ++ (kind.map fun k => ⟨k, start, stop, owner⟩).toList) ∧
      Disjoint (carve l start stop owner ++ (kind.map fun k => ⟨k, start, stop, owner⟩).toList) := by
    have hb := bounded_carve hr owner h.bounded
    have hd := disjoint_carve hr owner h.disjoint
    cases kind with
    | none => simpa using And.intro hb hd
    | some k =>
      have hstop : i64Min ≤ stop := by
        have := hr.start_nonneg
        have := hr.le_stop
        simp only [i64Min]
        omega
      constructor
      · intro a ha
        rcases mem_append.1 ha with ha | ha
        · exact hb a ha
        · rw [Option.map_some, Option.toList_some, mem_singleton] at ha
          subst ha
          exact ⟨hstop, hr.stop_le⟩
      · apply pairwise_append.2
        refine ⟨hd, pairwise_singleton .., ?_⟩
        intro p hp c hc
        rw [Option.map_some, Option.toList_some, mem_singleton] at hc
        exact hc ▸ compatible_new hr (hfree k rfl) p hp
  obtain ⟨hd, hb, hholds⟩ := normalizeLocks_spec hparts.1 hparts.2
  refine ⟨⟨hd, hb⟩, ?_⟩
  intro o b
  ext k
  have hnew : Holds (kind.map fun k => ⟨k, start, stop, owner⟩).toList o b k ↔
      (o = owner ∧ start ≤ b ∧ b ≤ stop) ∧ kind = some k := by
    cases kind with
    | none => simp [Holds]
    | some k' => simp [Holds, Covers, and_assoc, eq_comm]
  rw [lockAt_eq_some hd, hholds, holds_append, holds_carve hr owner h.bounded, hnew]
  split_ifs with hin
  · simp [hin]
  · simp [hin, lockAt_eq_some h.disjoint]

namespace LockTable

def Sound (t : LockTable) : Prop := ∀ path, EntrySound (t.locks path)

lemma locks_update (t : LockTable) (path p : String) (l : List PosixLock) :
    LockTable.locks (update t path (some l)) p = if p = path then l else t.locks p := by
  unfold locks
  by_cases hp : p = path
  · subst hp
    simp
  · rw [update_of_ne hp, if_neg hp]

variable {t : LockTable}

lemma update_of_blocked {path : String} {new : PosixLock}
    (h : blocked (t.locks path) new = true) : update t path (some (t.locks path)) = t := by
  have hentry : t path = some (t.locks path) := by
    cases ht : t path with
    | none => simp [locks, ht, blocked] at h
    | some l => simp [locks, ht]
  rw [← hentry, update_eq_self]

lemma setRange_cases (h : t.Sound) (path : String) (kind : Option LockKind) (owner : ℤ) (hr : ClosedRange start stop) :
    (t.setRange path kind start stop owner = (.error .EAGAIN, t)) ∨
      ∃ t', t.setRange path kind start stop owner = (.ok 0, t') ∧ t'.Sound ∧ ∀ p o b, lockAt (t'.locks p) o b =
          if p = path ∧ o = owner ∧ start ≤ b ∧ b ≤ stop then kind else lockAt (t.locks p) o b := by
  unfold setRange
  dsimp only
  split_ifs with hbl
  · left
    obtain ⟨_, hnew⟩ := (Option.any_eq_true_iff_get _ _).1 hbl
    rw [update_of_blocked hnew]
  right
  have hfree : ∀ k, kind = some k → blocked (t.locks path) ⟨k, start, stop, owner⟩ = false := by
    rintro k rfl
    simpa using hbl
  obtain ⟨hsound, hmap⟩ := (h path).update hr owner kind hfree
  refine ⟨_, rfl, ?_, ?_⟩
  · intro p
    rw [update_idem, locks_update]
    split_ifs
    · exact hsound
    · exact h p
  · intro p o b
    rw [update_idem, locks_update]
    by_cases hp : p = path
    · subst hp
      simp only [if_true, true_and]
      exact hmap o b
    · simp [hp]

/-- What `setlk` does: it fails and changes nothing, or sets the bytes of the range. -/
lemma setlk_cases (h : t.Sound) (path : String) (fl : Flock) (size off owner : ℤ) :
    (∃ e, t.setlk path fl size off owner = (.error e, t)) ∨
      ∃ t' kind start stop, t.setlk path fl size off owner = (.ok 0, t') ∧ lockType fl.lType = some kind ∧
        toAbsolute fl size off = .ok (start, stop) ∧ t'.Sound ∧
        ∀ p o b, lockAt (t'.locks p) o b =
          if p = path ∧ o = owner ∧ start ≤ b ∧ b ≤ stop then kind else lockAt (t.locks p) o b := by
  unfold setlk
  cases hk : lockType fl.lType with
  | none => exact .inl ⟨_, rfl⟩
  | some kind =>
    cases ha : toAbsolute fl size off with
    | error e => exact .inl ⟨e, rfl⟩
    | ok r =>
      obtain ⟨start, stop⟩ := r
      rcases setRange_cases h path kind owner (toAbsolute_closedRange ha) with heq | ⟨t', heq, hs, hmap⟩
      · exact .inl ⟨_, heq⟩
      · exact .inr ⟨t', kind, start, stop, heq, rfl, rfl, hs, hmap⟩

inductive Event where
  | setlk (path : String) (fl : Flock) (size off owner : ℤ)
  | release (path : String) (owner : ℤ)
  | releaseByOwner (owner : ℤ)

def step (t : LockTable) : Event → Option LockTable
  | .setlk path fl size off owner => some (t.setlk path fl size off owner).2
  | .release path owner => some (t.releasePosixLocks path owner)
  | .releaseByOwner owner => some (t.releasePosixLocksByOwner owner)

lemma entrySound_released {l : Option (List PosixLock)} (owner : ℤ) (h : EntrySound (l.getD [])) :
    EntrySound ((l.bind (released owner)).getD []) := by
  cases l with
  | none => exact h
  | some l =>
    have hf := h.filter fun a => a.pid ≠ owner
    simp only [Option.bind_some, released]
    split_ifs with hnil
    · exact .nil
    · exact hf

lemma sound_step {t' : LockTable} {e : Event} (h : t.Sound) (hs : t.step e = some t') : t'.Sound := by
  cases e with
  | setlk path fl size off owner =>
    cases hs
    rcases setlk_cases h path fl size off owner with ⟨e, heq⟩ | ⟨t', kind, start, stop, heq, -, -, hsound, -⟩
    · rw [heq]
      exact h
    · rw [heq]
      exact hsound
  | release path owner =>
    cases hs
    intro p
    unfold releasePosixLocks locks
    by_cases hp : p = path
    · subst hp
      rw [update_self]
      exact entrySound_released owner (h p)
    · rw [update_of_ne hp]
      exact h p
  | releaseByOwner owner =>
    cases hs
    intro p
    exact entrySound_released owner (h p)

lemma sound_empty : empty.Sound := fun _ => .nil

/-- In every table that locking and unlocking can lead to, the locks of one owner are disjoint and a
write lock shares no byte with another owner's lock. There a request fails and changes nothing, or, if it is regular,
it sets the type of exactly the owner's bytes of its range. -/
theorem setlk_refines {t : LockTable} (h : Reaches step (fun _ _ => True) empty t) :
    (∀ path, (t.locks path).Pairwise Compatible) ∧ ∀ path fl size off owner,
        (∃ e, t.setlk path fl size off owner = (.error e, t)) ∨
        ∃ t' kind, t.setlk path fl size off owner = (.ok 0, t') ∧ lockType fl.lType = some kind ∧
          (fl.Regular size off → ∀ p o b,
            (p = path ∧ o = owner ∧ fl.InRange size off b → lockAt (t'.locks p) o b = kind) ∧
            (¬(p = path ∧ o = owner ∧ fl.InRange size off b) → lockAt (t'.locks p) o b = lockAt (t.locks p) o b)) := by
  have hs : t.Sound := Reaches.invariant (fun _ _ _ hi _ hstep => sound_step hi hstep) sound_empty h
  refine ⟨fun path => (hs path).disjoint, ?_⟩
  intro path fl size off owner
  rcases setlk_cases hs path fl size off owner with herr | ⟨t', kind, start, stop, heq, hk, ha, -, hmap⟩
  · exact .inl herr
  · refine .inr ⟨t', kind, heq, hk, fun hreg p o b => ?_⟩
    rw [toAbsolute_inRange hreg ha, hmap]
    exact ⟨fun hin => if_pos hin, fun hout => if_neg hout⟩

def threeRequests : List Event :=
  [.setlk "f" ⟨1, 0, ⟨0, by decide⟩, ⟨10, by decide⟩⟩ 0 0 1, .setlk "f" ⟨2, 0, ⟨3, by decide⟩, ⟨4, by decide⟩⟩ 0 0 1,
    .setlk "f" ⟨0, 0, ⟨4, by decide⟩, ⟨2, by decide⟩⟩ 0 0 2]

theorem setlk_refines_requests :
    (run step empty threeRequests).locks "f" = [⟨.write, 0, 2, 1⟩, ⟨.read, 4, 5, 2⟩, ⟨.write, 7, 9, 1⟩] ∧
      ∀ path, ((run step empty threeRequests).locks path).Pairwise Compatible := by
  have hadmits : Admits step (fun _ _ => True) empty threeRequests :=
    ⟨trivial, rfl, trivial, rfl, trivial, rfl, trivial⟩
  exact ⟨by decide +kernel, (setlk_refines (Reaches.run hadmits)).1⟩

/-- A write lock on the byte at the largest offset. -/
def lastByte : Flock := ⟨1, 0, ⟨i64Max, by decide⟩, ⟨1, by decide⟩⟩

/-- A write lock on the five bytes in front of byte 10. -/
def fiveBefore : Flock := ⟨1, 0, ⟨10, by decide⟩, ⟨-5, by decide⟩⟩

/-- Two owners are both told that they have locked the last byte, and none has; a lock of the bytes 5 to 9 goes to the
bytes 6 to 10. -/
theorem requests_miss_bytes :
    let one := empty.setlk "f" lastByte 0 0 1
    let before := empty.setlk "f" fiveBefore 0 0 1
    (one.1 = .ok 0 ∧ (one.2.setlk "f" lastByte 0 0 2).1 = .ok 0 ∧ lastByte.InRange 0 0 i64Max ∧
      lockAt (one.2.locks "f") 1 i64Max = none) ∧
    before.1 = .ok 0 ∧ fiveBefore.InRange 0 0 5 ∧ lockAt (before.2.locks "f") 1 5 = none ∧
      ¬ fiveBefore.InRange 0 0 10 ∧ lockAt (before.2.locks "f") 1 10 = some .write := by
  decide +kernel

end LockTable

end Ya2yOS.Fs
