import Ya2yOS.Lib.Segments
import Ya2yOS.Mm.EditOps
import Ya2yOS.Mm.Mprotect

/-!
# What mprotect does to the areas and to the table

Every area is replaced by pieces of itself; those inside the range have the new permission. Neighbours then merge. The
table is changed entry by entry.
-/

namespace Ya2yOS.Mm

open Lib List VPNRange
open OrdMap (mem_def mem_insert get?_eq_some get?_congr empty)

section

variable {bound : ℕ}

variable {area new rest out : OrdMap ℕ ℕ}

/-- One page is taken, the others are left, and if it stays so do they. -/
def Pops (pop : OrdMap ℕ ℕ → Option ((ℕ × ℕ) × OrdMap ℕ ℕ)) (stays : ℕ → Bool) : Prop :=
  ∀ m : OrdMap ℕ ℕ, (pop m).elim (m.entries = []) fun (page, left) =>
    left.entries.length < m.entries.length ∧ (∀ x, x ∈ m ↔ x = page ∨ x ∈ left) ∧
      ∀ y ∈ left, y.1 ≠ page.1 ∧ (stays page.1 = true → stays y.1 = true)

lemma pops_first (bound : ℕ) : Pops OrdMap.popFirst? (bound ≤ ·) := by
  intro m
  rcases hpop : m.popFirst? with _ | ⟨page, left⟩
  · exact OrdMap.popFirst?_eq_none.1 hpop
  obtain ⟨hent, hmin⟩ := OrdMap.popFirst?_spec hpop
  refine ⟨by simp [hent], fun x => by simp [mem_def, hent], fun y hy => ?_⟩
  have := hmin y hy
  simp only [decide_eq_true_eq]
  omega

lemma pops_last (bound : ℕ) : Pops OrdMap.popLast? (· < bound) := by
  intro m
  rcases hpop : m.popLast? with _ | ⟨page, left⟩
  · exact OrdMap.popLast?_eq_none.1 hpop
  obtain ⟨hent, hmax⟩ := OrdMap.popLast?_spec hpop
  refine ⟨by simp [hent], fun x => by simp [mem_def, hent, or_comm], fun y hy => ?_⟩
  have := hmax y hy
  simp only [decide_eq_true_eq]
  omega

lemma moveUntil_spec {pop : OrdMap ℕ ℕ → Option ((ℕ × ℕ) × OrdMap ℕ ℕ)} {stays : ℕ → Bool} (hpop : Pops pop stays)
    (fuel : ℕ) (hf : area.entries.length ≤ fuel) (hnew : ∀ x ∈ new, ∀ y ∈ area, x.1 ≠ y.1)
    (h : moveUntil pop stays fuel area new = (rest, out)) :
    (∀ x, x ∈ rest ↔ x ∈ area ∧ stays x.1 = true) ∧ ∀ x, x ∈ out ↔ x ∈ new ∨ x ∈ area ∧ stays x.1 = false := by
  induction fuel generalizing area new with
  | zero =>
    have hnil : area.entries = [] := eq_nil_of_length_eq_zero (Nat.le_zero.1 hf)
    cases h
    simp [mem_def, hnil]
  | succ fuel ih =>
    unfold moveUntil at h
    have hpage := hpop area
    split at h <;> simp only [*, Option.elim] at hpage
    · cases h
      simp [mem_def, hpage]
    · obtain ⟨hlen, hmem, hleft⟩ := hpage
      split_ifs at h with hb
      · cases h
        refine ⟨fun x => ?_, fun x => ?_⟩
        · rw [mem_insert, hmem]
          grind
        · rw [hmem]
          grind
      · obtain ⟨h1, h2⟩ := ih (by omega) (by simp only [mem_insert]; grind) h
        refine ⟨fun x => ?_, fun x => ?_⟩
        · rw [h1, hmem]
          grind
        · rw [h2, hmem, mem_insert]
          grind

lemma moveLastUntil_spec (fuel : ℕ) (hf : area.entries.length ≤ fuel)
    (hnew : ∀ x ∈ new, ∀ y ∈ area, x.1 ≠ y.1) (h : moveLastUntil bound fuel area new = (rest, out)) :
    (∀ x, x ∈ rest ↔ x ∈ area ∧ x.1 < bound ∧ (area.get? bound).isSome) ∧
      ∀ x, x ∈ out ↔ x ∈ new ∨ x ∈ area ∧ (bound ≤ x.1 ∨ (area.get? bound).isSome = false) := by
  induction fuel generalizing area new with
  | zero =>
    have hnil : area.entries = [] := eq_nil_of_length_eq_zero (Nat.le_zero.1 hf)
    cases h
    simp [mem_def, hnil]
  | succ fuel ih =>
    unfold moveLastUntil at h
    split at h
    · next hnone =>
      rw [OrdMap.popLast?_eq_none] at hnone
      cases h
      simp [mem_def, hnone]
    · next page left hpop =>
      obtain ⟨hent, hmax⟩ := OrdMap.popLast?_spec hpop
      have hmem : ∀ x, x ∈ area ↔ x = page ∨ x ∈ left := fun x => by
        simp [mem_def, hent, or_comm]
      split_ifs at h with hb
      · cases h
        have hsome : (area.get? bound).isSome = true := by
          rw [get?_eq_some.2 ((hmem (bound, page.2)).2 (.inl (by rw [← hb])))]
          rfl
        refine ⟨fun x => ?_, fun x => ?_⟩
        · rw [hmem, hsome]
          grind
        · rw [mem_insert, hmem, hsome]
          grind
      · have hlen : left.entries.length ≤ fuel := by
          rw [hent, length_append, length_singleton] at hf
          omega
        have hget : area.get? bound = left.get? bound := get?_congr fun v => by rw [hmem]; grind
        obtain ⟨h1, h2⟩ := ih hlen (by simp only [mem_insert]; grind) h
        have hpage : (area.get? bound).isSome = true → bound < page.1 := by
          intro hs
          obtain ⟨f, hf⟩ := Option.isSome_iff_exists.1 hs
          have := hmax _ (get?_eq_some.1 (hget ▸ hf))
          exact this
        refine ⟨fun x => ?_, fun x => ?_⟩
        · rw [h1, hmem, hget]
          grind
        · rw [h2, hmem, mem_insert, hget]
          grind

end

/-! ### The pieces of an area -/

/-- The records of an area whose end the range covers are told apart at the first page of the
range. -/
def SplitsWell (b e : ℕ) (a : MapArea) : Prop :=
  a.vpnRange.start < b → b < a.vpnRange.stop → a.vpnRange.stop ≤ e →
    (a.dataFrames.get? b).isSome = true ∨ ∀ x ∈ a.dataFrames, b ≤ x.1

abbrev MapArea.Apart (a b : MapArea) : Prop :=
  Lib.Apart (fun a : MapArea => a.vpnRange.start) (fun a : MapArea => a.vpnRange.stop) a b

def MapArea.Proper (a : MapArea) : Prop := a.vpnRange.start < a.vpnRange.stop

structure Piece (b e : ℕ) (perm : MapPermission) (c a : MapArea) : Prop where
  type : c.areaType = a.areaType
  flags : c.mmapFlags = a.mmapFlags
  group : c.groupid = a.groupid
  source : c.mmapFile.source = a.mmapFile.source
  lower : a.vpnRange.start ≤ c.vpnRange.start
  upper : c.vpnRange.stop ≤ a.vpnRange.stop
  proper : a.Proper → c.Proper
  side : (b ≤ c.vpnRange.start ∧ c.vpnRange.stop ≤ e ∧ c.mapPerm = perm) ∨
    ((c.vpnRange.stop ≤ b ∨ e ≤ c.vpnRange.start) ∧ c.mapPerm = a.mapPerm)
  records : ∀ x ∈ c.dataFrames, x ∈ a.dataFrames
  keeps : SplitsWell b e a → ∀ v ∈ c.vpnRange, c.dataFrames.get? v = a.dataFrames.get? v
  keysIn : SplitsWell b e a → a.KeysIn → c.KeysIn

variable {b e : ℕ} {perm : MapPermission} {a c : MapArea}

lemma Piece.of_records (q : ℕ → Prop)
    (hkind : c.areaType = a.areaType ∧ c.mmapFlags = a.mmapFlags ∧ c.groupid = a.groupid ∧
      c.mmapFile.source = a.mmapFile.source)
    (hrange : a.vpnRange.start ≤ c.vpnRange.start ∧ c.vpnRange.stop ≤ a.vpnRange.stop ∧ (a.Proper → c.Proper))
    (hside : (b ≤ c.vpnRange.start ∧ c.vpnRange.stop ≤ e ∧ c.mapPerm = perm) ∨
      ((c.vpnRange.stop ≤ b ∨ e ≤ c.vpnRange.start) ∧ c.mapPerm = a.mapPerm))
    (hrec : ∀ x, x ∈ c.dataFrames ↔ x ∈ a.dataFrames ∧ q x.1)
    (hq : SplitsWell b e a → ∀ x ∈ a.dataFrames, a.vpnRange.start ≤ x.1 → x.1 < a.vpnRange.stop →
      (q x.1 ↔ x.1 ∈ c.vpnRange)) : Piece b e perm c a where
  type := hkind.1
  flags := hkind.2.1
  group := hkind.2.2.1
  source := hkind.2.2.2
  lower := hrange.1
  upper := hrange.2.1
  proper := hrange.2.2
  side := hside
  records x hx := ((hrec x).1 hx).1
  keeps hs v hv := get?_congr fun f => by
    rw [hrec]
    refine ⟨And.left, fun hf => ⟨hf, (hq hs _ hf (hrange.1.trans hv.1) ?_).2 hv⟩⟩
    exact lt_of_lt_of_le hv.2 hrange.2.1
  keysIn hs hk x hx := by
    obtain ⟨hxa, hxq⟩ := (hrec x).1 hx
    have := hk x hxa
    exact (hq hs x hxa this.1 this.2).1 hxq

lemma mprotectArea_pieces (hbe : b < e) {cs : List MapArea} (h : mprotectArea b e perm a = (c, cs)) :
    (∀ d ∈ c :: cs, Piece b e perm d a) ∧ (c :: cs).Pairwise MapArea.Apart ∧
      ∀ v ∈ a.vpnRange, ∃ d ∈ c :: cs, v ∈ d.vpnRange := by
  have hempty : ∀ x ∈ (empty : OrdMap ℕ ℕ), ∀ y ∈ a.dataFrames, x.1 ≠ y.1 := by
    simp [mem_def, empty]
  have hnone : ∀ x : ℕ × ℕ, x ∉ (empty : OrdMap ℕ ℕ) := by simp [mem_def, empty]
  unfold mprotectArea at h
  dsimp only at h
  split_ifs at h with h1 h2 h3 h4
  · cases h
    simp only [mem_singleton, forall_eq, pairwise_singleton, true_and, exists_eq_left]
    exact ⟨.of_records (fun _ => True) ⟨rfl, rfl, rfl, rfl⟩ ⟨le_rfl, le_rfl, id⟩ (.inl ⟨h1.1, h1.2, rfl⟩)
      (by simp) (fun _ x _ hl hr => by simp [mem_iff, hl, hr]), fun v hv => hv⟩
  · rcases hm : moveLastUntil b a.dataFrames.entries.length a.dataFrames empty with ⟨left, right⟩
    rw [hm] at h
    cases h
    obtain ⟨hleft, hright⟩ := moveLastUntil_spec _ le_rfl hempty hm
    simp only [hnone, false_or] at hright
    simp only [mem_cons, not_mem_nil, or_false, forall_eq_or_imp, forall_eq, pairwise_pair,
      exists_eq_or_imp, exists_eq_left]
    refine ⟨⟨.of_records (fun k => k < b ∧ (a.dataFrames.get? b).isSome = true) ⟨rfl, rfl, rfl, rfl⟩
        ⟨le_rfl, h2.2.1.le, fun _ => h2.1⟩ (.inr ⟨.inl le_rfl, rfl⟩) hleft fun hs x hx hl hr => ?_,
      .of_records (fun k => b ≤ k ∨ (a.dataFrames.get? b).isSome = false) ⟨rfl, rfl, rfl, rfl⟩
        ⟨h2.1.le, le_rfl, fun _ => h2.2.1⟩ (.inl ⟨le_rfl, h2.2.2, rfl⟩) hright fun hs x hx hl hr => ?_⟩,
      .inl le_rfl, fun v hv => ?_⟩
    · rcases hs h2.1 h2.2.1 h2.2.2 with hres | hall
      · simp [hres, mem_iff, hl]
      · have := hall x hx
        simp only [mem_iff]
        omega
    · rcases hs h2.1 h2.2.1 h2.2.2 with hres | hall
      · simp [hres, mem_iff, hr]
      · simp [hall x hx, mem_iff, hr]
    · simp only [mem_iff] at hv ⊢
      omega
  · rcases hm : moveFirstBelow e a.dataFrames.entries.length a.dataFrames empty with ⟨right, left⟩
    rw [hm] at h
    cases h
    obtain ⟨hright, hleft⟩ := moveUntil_spec (pops_first _) _ le_rfl hempty hm
    simp only [hnone, false_or, decide_eq_true_eq, decide_eq_false_iff_not, Nat.not_le] at hright hleft
    simp only [mem_cons, not_mem_nil, or_false, forall_eq_or_imp, forall_eq, pairwise_pair,
      exists_eq_or_imp, exists_eq_left]
    refine ⟨⟨.of_records (e ≤ ·) ⟨rfl, rfl, rfl, rfl⟩ ⟨h3.2.1.le, le_rfl, fun _ => h3.2.2⟩
        (.inr ⟨.inr le_rfl, rfl⟩) hright fun _ x _ hl hr => ?_,
      .of_records (· < e) ⟨rfl, rfl, rfl, rfl⟩ ⟨le_rfl, h3.2.2.le, fun _ => h3.2.1⟩
        (.inl ⟨h3.1, le_rfl, rfl⟩) hleft fun _ x _ hl hr => ?_⟩, .inr le_rfl, fun v hv => ?_⟩
    · simp [mem_iff, hr]
    · simp [mem_iff, hl]
    · simp only [mem_iff] at hv ⊢
      omega
  · rcases hm : moveFirstBelow b a.dataFrames.entries.length a.dataFrames empty with ⟨rest, front⟩
    rcases hm' : moveLastFrom e rest.entries.length rest empty with ⟨middle, back⟩
    rw [hm] at h
    simp only [hm'] at h
    cases h
    obtain ⟨hrest, hfront⟩ := moveUntil_spec (pops_first _) _ le_rfl hempty hm
    obtain ⟨hmiddle, hback⟩ := moveUntil_spec (pops_last _) _ le_rfl (by simp [hnone]) hm'
    simp only [hnone, false_or, decide_eq_true_eq, decide_eq_false_iff_not, Nat.not_le,
      Nat.not_lt] at hrest hfront hmiddle hback
    simp only [hrest, and_assoc] at hmiddle hback
    simp only [mem_cons, not_mem_nil, or_false, forall_eq_or_imp, forall_eq, pairwise_cons,
      exists_eq_or_imp, exists_eq_left]
    refine ⟨⟨.of_records (fun k => b ≤ k ∧ k < e) ⟨rfl, rfl, rfl, rfl⟩
        ⟨h4.1.le, h4.2.1.le, fun _ => hbe⟩ (.inl ⟨le_rfl, le_rfl, rfl⟩) hmiddle
        fun _ x _ hl hr => Iff.rfl,
      .of_records (· < b) ⟨rfl, rfl, rfl, rfl⟩ ⟨le_rfl, by dsimp only; omega, fun _ => h4.1⟩
        (.inr ⟨.inl le_rfl, rfl⟩) hfront fun _ x _ hl hr => ?_,
      .of_records (fun k => b ≤ k ∧ e ≤ k) ⟨rfl, rfl, rfl, rfl⟩ ⟨by dsimp only; omega, le_rfl, fun _ => h4.2.1⟩
        (.inr ⟨.inr le_rfl, rfl⟩) hback fun _ x _ hl hr => ?_⟩,
      ⟨⟨.inr le_rfl, .inl le_rfl⟩, ⟨.inl hbe.le, by simp⟩⟩, fun v hv => ?_⟩
    · simp [mem_iff, hl]
    · simp only [mem_iff]
      omega
    · simp only [mem_iff] at hv ⊢
      omega
  · cases h
    simp only [mem_singleton, forall_eq, pairwise_singleton, true_and, exists_eq_left]
    exact ⟨.of_records (fun _ => True) ⟨rfl, rfl, rfl, rfl⟩ ⟨le_rfl, le_rfl, id⟩ (.inr ⟨by omega, rfl⟩)
      (by simp) (fun _ x _ hl hr => by simp [mem_iff, hl, hr]), fun v hv => hv⟩

def pieces (b e : ℕ) (perm : MapPermission) (l : List MapArea) : List MapArea :=
  l.flatMap fun a => (mprotectArea b e perm a).1 :: (mprotectArea b e perm a).2

variable {l : List MapArea}

lemma mem_pieces (hbe : b < e) (h : c ∈ pieces b e perm l) : ∃ a ∈ l, Piece b e perm c a := by
  obtain ⟨a, ha, hc⟩ := mem_flatMap.1 h
  exact ⟨a, ha, (mprotectArea_pieces hbe rfl).1 c hc⟩

lemma exists_piece (hbe : b < e) (perm : MapPermission) (ha : a ∈ l) {v : ℕ} (hv : v ∈ a.vpnRange) :
    ∃ c ∈ pieces b e perm l, v ∈ c.vpnRange ∧ Piece b e perm c a := by
  obtain ⟨hp, -, hc⟩ := mprotectArea_pieces hbe (rfl : mprotectArea b e perm a = (_, _))
  obtain ⟨c, hcm, hcv⟩ := hc v hv
  exact ⟨c, mem_flatMap.2 ⟨a, ha, hcm⟩, hcv, hp c hcm⟩

lemma whole_piece (perm : MapPermission) (ha : a ∈ l)
    (h : (b ≤ a.vpnRange.start ∧ a.vpnRange.stop ≤ e) ∨ ¬ a.overlaps b e) :
    ∃ c ∈ pieces b e perm l, c.vpnRange = a.vpnRange ∧ c.areaType = a.areaType ∧ c.mmapFlags = a.mmapFlags := by
  refine ⟨(mprotectArea b e perm a).1, mem_flatMap.2 ⟨a, ha, mem_cons_self⟩, ?_⟩
  have hle := a.vpnRange.le
  unfold MapArea.overlaps overlaps at h
  unfold mprotectArea
  dsimp only
  split_ifs with h1 h2 h3 h4
  · exact ⟨rfl, rfl, rfl⟩
  · omega
  · omega
  · omega
  · exact ⟨rfl, rfl, rfl⟩

lemma pieces_perm (b e : ℕ) (perm : MapPermission) (l : List MapArea) :
    (pieces b e perm l).Perm (((l.map (mprotectArea b e perm)).flatMap Prod.snd) ++
      (l.map (mprotectArea b e perm)).map Prod.fst) := by
  induction l with
  | nil => exact .refl _
  | cons a l ih =>
    simp only [pieces, flatMap_cons, map_cons, cons_append] at ih ⊢
    refine ((ih.append_left _).cons _).trans ?_
    rw [← append_assoc]
    exact perm_middle.symm

namespace MemorySetInner

lemma foldl_pushLazily (news : List MapArea) (s : MemorySetInner) : (news.foldl pushLazily s).pageTable = s.pageTable ∧
      Trims ⟨s.pageTable, news ++ s.areas⟩ ⟨s.pageTable, (news.foldl pushLazily s).areas⟩ := by
  induction news generalizing s with
  | nil => exact ⟨rfl, .refl⟩
  | cons a news ih =>
    obtain ⟨hpt, ht⟩ := ih (s.pushLazily a)
    have hswap : (a :: news ++ s.areas).Perm (a :: s.areas ++ news) := perm_append_comm.cons a
    have hstep := (insertAreaSorted_trims s.pageTable s.areas a).frame news
    exact ⟨hpt, (Trims.relist hswap).trans ((hstep.trans (Trims.relist perm_append_comm)).trans ht)⟩

lemma mprotect_cases {s s' : MemorySetInner} {g g' : Globals} {b e : ℕ} {perm : MapPermission}
    {ret : SyscallRet} (h : s.mprotect g b e perm = (ret, s', g')) :
    (s' = s ∧ g' = g ∧ ret ≠ .ok 0) ∨ (ret = .ok 0 ∧ b < e ∧
      s.mprotectHugeConflict b e perm = false ∧ (perm.w = true → s.mprotectSealed g b e = false) ∧
      s'.pageTable = protectEntries s.pageTable b e perm ∧
      Trims ⟨s.pageTable, pieces b e perm s.areas⟩ ⟨s.pageTable, s'.areas⟩) := by
  unfold mprotect at h
  split_ifs at h with hle hconf hseal
  · cases h
    exact .inl ⟨rfl, rfl, by simp⟩
  · cases h
    exact .inl ⟨rfl, rfl, by simp⟩
  · cases h
    exact .inl ⟨rfl, rfl, by simp⟩
  obtain ⟨hpt, ht⟩ := foldl_pushLazily ((s.areas.map (mprotectArea b e perm)).flatMap Prod.snd)
    { s with areas := (s.areas.map (mprotectArea b e perm)).map Prod.fst }
  obtain ⟨hret, hs⟩ := Prod.mk.inj h
  cases hs
  refine .inr ⟨hret.symm, by omega, by simpa using hconf, fun hw => by simpa [hw] using hseal, ?_, ?_⟩
  · simp only [hpt]
  · exact (Trims.relist (pieces_perm b e perm s.areas)).trans ht

end MemorySetInner

def PTE.protect (perm : MapPermission) (p : PTE) : PTE :=
  { p with flags := (RVPTEFlags.requested perm).union p.flags }

lemma PTE.protect_protect (perm : MapPermission) (p : PTE) : (p.protect perm).protect perm = p.protect perm := by
  simp [PTE.protect, RVPTEFlags.union]

namespace PageTable

lemma findPte_handleMprotect (pt : PageTable) (v w : ℕ) (perm : MapPermission) :
    (pt.handleMprotect v perm).findPte w = (pt.findPte w).map fun q =>
      (q.1, if SameEntry q.1 v w then q.2.protect perm else q.2) := by
  cases hw : pt.findPte w with
  | none =>
    rcases findPte_updateFlags_cases pt v w (RVPTEFlags.requested perm).union with h | ⟨_, _, -, -, hs, -⟩
    · rw [handleMprotect, h, hw, Option.map_none]
    · simp [hs] at hw
  | some q =>
    obtain ⟨lvl, p⟩ := q
    simp only [Option.map_some]
    split_ifs with hs
    · exact findPte_updateFlags (findPte_of_sameEntry hw hs) hs.symm
    · refine (findPte_updateFlags_of_not fun l r hr hs' => hs ?_).trans hw
      have := (findPte_of_sameEntry hr hs').symm.trans hw
      simp only [Option.some.injEq, Prod.mk.injEq] at this
      exact this.1 ▸ hs'.symm

lemma findPte_foldl_handleMprotect (l : List ℕ) (pt : PageTable) (w : ℕ) (perm : MapPermission) :
    (l.foldl (fun pt v => pt.handleMprotect v perm) pt).findPte w = (pt.findPte w).map fun q =>
      (q.1, if ∃ v ∈ l, SameEntry q.1 v w then q.2.protect perm else q.2) := by
  induction l generalizing pt with
  | nil => simp
  | cons v l ih =>
    rw [foldl_cons, ih, findPte_handleMprotect, Option.map_map]
    congr 1
    funext q
    simp only [Function.comp_apply, mem_cons, exists_eq_or_imp]
    by_cases h1 : SameEntry q.1 v w <;> by_cases h2 : ∃ x ∈ l, SameEntry q.1 x w <;>
      simp [h1, h2, PTE.protect_protect]

end PageTable

lemma findPte_protectEntries (pt : PageTable) (b e w : ℕ) (perm : MapPermission) :
    (MemorySetInner.protectEntries pt b e perm).findPte w = (pt.findPte w).map fun q =>
      (q.1, if ∃ v ∈ vpns b e, PageTable.SameEntry q.1 v w then q.2.protect perm else q.2) :=
  PageTable.findPte_foldl_handleMprotect _ pt w perm

end Ya2yOS.Mm
