import Ya2yOS.Lib.Transition
import Ya2yOS.Mm.Calls
import Ya2yOS.Mm.Confined

/-!
# Isolation of the memory calls

A process makes the five memory calls and takes page faults. Where the ranges that the kernel does not check are
ranges that user code owns, no call reaches an entry outside its user areas.
-/

namespace Ya2yOS.Mm

open Lib PageTable

section Protect

variable {b e : ℕ} {perm : MapPermission} {l : List MapArea} {s : MemorySetInner}

lemma pieces_page (hbe : b < e) (P : Bool → Prop) (v : ℕ) :
    (∃ c ∈ pieces b e perm l, P c.isUser ∧ v ∈ c.vpnRange) ↔ ∃ a ∈ l, P a.isUser ∧ v ∈ a.vpnRange := by
  have hsame : ∀ {c a : MapArea}, Piece b e perm c a → c.isUser = a.isUser := fun h => by
    rw [MapArea.isUser, h.type, MapArea.isUser]
  constructor
  · rintro ⟨c, hc, hP, hv⟩
    obtain ⟨a, ha, hp⟩ := mem_pieces hbe hc
    exact ⟨a, ha, hsame hp ▸ hP, hp.lower.trans hv.1, lt_of_lt_of_le hv.2 hp.upper⟩
  · rintro ⟨a, ha, hP, hv⟩
    obtain ⟨c, hc, hcv, hp⟩ := exists_piece hbe perm ha hv
    exact ⟨c, hc, (hsame hp).symm ▸ hP, hcv⟩

/-- Splitting the areas at the ends of the range keeps an address space confined: huge mappings
are not split. -/
lemma Confined.pieces (h : Confined s.layout) (hbe : b < e) (hconf : s.mprotectHugeConflict b e perm = false) :
    ConfinedStep s.layout ⟨s.pageTable, Mm.pieces b e perm s.areas⟩ := by
  refine Confined.relabel h (fun c hc => ?_) (pieces_page hbe (· = false))
    (fun v hv => h.apart v ((pieces_page hbe (· = true) v).1 hv))
    (fun v _ _ hv => (pieces_page hbe (· = true) v).2 hv) ?_
  · obtain ⟨a, ha, hp⟩ := mem_pieces hbe hc
    exact hp.upper.trans (h.inUser a ha)
  rintro v - p - ⟨a, ha, hh, hm, hin⟩
  have hwhole : (b ≤ a.vpnRange.start ∧ a.vpnRange.stop ≤ e) ∨ ¬ a.overlaps b e := by
    by_contra hcon
    rw [not_or, not_not] at hcon
    rw [MemorySetInner.mprotectHugeConflict, List.any_eq_false] at hconf
    have := hconf a ha
    simp only [hh, hcon.2, decide_true, Bool.and_self, Bool.true_and, Bool.or_eq_true, Bool.not_eq_true',
      not_or, Bool.not_eq_false, Bool.and_eq_true, decide_eq_true_eq] at this
    exact hcon.1 this.2
  obtain ⟨c, hc, hr, ht, hf⟩ := whole_piece perm ha hwhole
  refine ⟨c, hc, by rwa [MapArea.isHuge, hf], by rwa [MapArea.isMmapVma, ht, hf], fun w hw hs => ?_⟩
  rw [hr]
  exact hin w hw hs

lemma Confined.mprotect {s' : MemorySetInner} {g g' : Globals} {ret : SyscallRet} (h : Confined s.layout)
    (hown : ∀ v, b ≤ v → v < e → s.pageTable.findPte v ≠ none → UserPage s.areas (vpnIndex v))
    (hcall : s.mprotect g b e perm = (ret, s', g')) : ConfinedStep s.layout s'.layout := by
  rcases MemorySetInner.mprotect_cases hcall with ⟨rfl, -, -⟩ | ⟨-, hbe, hconf, -, hpt, ht⟩
  · exact .refl h
  have hareas : ConfinedStep s.layout ⟨s.pageTable, s'.areas⟩ := by
    have hpieces := h.pieces hbe hconf
    exact hpieces.trans (hpieces.confined.edits (Trims.edits ht ⟨[], [], ∅⟩))
  refine hareas.trans ?_
  show ConfinedStep _ ⟨s'.pageTable, s'.areas⟩
  rw [hpt]
  refine hareas.confined.rewrite (fun w hne => ?_) fun w _ lvl p hp => .inl ?_
  · rw [findPte_protectEntries] at hne
    cases hw : s.pageTable.findPte w with
    | none => simp [hw] at hne
    | some q =>
      obtain ⟨lvl, p⟩ := q
      simp only [hw, Option.map_some] at hne
      split_ifs at hne with hv
      · obtain ⟨v, hv, hs⟩ := hv
        rw [mem_vpns] at hv
        have hv' := findPte_of_sameEntry hw hs
        obtain ⟨a, ha, hu, hav⟩ := hown v hv.1 hv.2 (by simp [hv'])
        have hwalk := (findPte_vpnIndex _ _).trans hv'
        have huw := h.userPage_of_sameEntry ha hu hav hwalk (sameEntry_vpnIndex.2 hs.symm)
        exact h.userPage_of_step hareas huw (by simp [hw])
      · exact absurd rfl hne
  · rw [findPte_protectEntries] at hp
    obtain ⟨q, hq, heq⟩ := Option.map_eq_some_iff.1 hp
    exact ⟨q.2, by rw [hq, ← (Prod.mk.inj heq).1]⟩

end Protect

def MemorySetInner.trapFree (s : MemorySetInner) (l h : ℕ) : Prop :=
  ∀ b ∈ s.areas, b.isUser = false → ¬ b.overlaps l h
deriving Decidable

/-- The calls that name only what user code owns: a fixed mapping ends in the user range, a fixed
destination holds no trap context, `mprotect` meets entries of user areas only, and `mremap`
finds the areas in order. -/
def MemCall.Owned (s : MemorySetInner) : MemCall → Prop
  | .mmap addr len _ raw _ _ _ =>
    ((MmapFlags.ofBits raw).intersectsFixed = true → addr + mmapLen (.ofBits raw) len ≤ userSpaceSize) ∧
    ((MmapFlags.ofBits raw).fixed = true →
      s.trapFree (floorVpn addr) (ceilVpn (addr + mmapLen (.ofBits raw) len)))
  | .mprotect addr len _ => ∀ v, floorVpn addr ≤ v → v < ceilVpn (addr + len) →
      s.pageTable.findPte v ≠ none → UserPage s.areas (vpnIndex v)
  | .mremap _ _ newSize flags newAddr => AreasSorted s.areas ∧
      (flags.testBit 1 = true → s.trapFree (floorVpn newAddr) (ceilVpn (newAddr + mremapLen newSize)))
  | .munmap _ _ _ | .madvise _ _ _ => True

namespace Confined

open MemorySetInner

variable {s s' : MemorySetInner} {g g' : Globals} {ret : SyscallRet} {a : MapArea} {l : List MapArea}

lemma trims {L L' : Layout} (h : Confined L) (ht : Trims L L') : ConfinedStep L L' :=
  @edits ⟨L, [], [], ∅⟩ ⟨L', [], [], ∅⟩ h (ht.edits _)

variable {v : ℕ}

lemma not_trapPage (h : Confined s.layout) (hl : ∃ pt, Trims s.layout ⟨pt, l⟩) {b e : ℕ}
    (hfree : e ≤ mmapTop / pageSize ∨ s.trapFree b e) (hb : b ≤ v) (he : v < e) : ¬ TrapPage l v := by
  obtain ⟨pt, ht⟩ := hl
  intro hv
  have hv' : TrapPage s.areas v := ((h.trims ht).traps v).1 hv
  rcases hfree with hle | hfree
  · have := h.trapHigh v hv'
    omega
  · obtain ⟨c, hc, hu, hcv⟩ := hv'
    exact hfree c hc hu (VPNRange.overlaps_of_mem hcv hb he)

lemma ceilVpn_le_mmapTop (h : v ≤ mmapTop) : ceilVpn v ≤ mmapTop / pageSize := by
  rw [mmapTop_eq] at h ⊢
  rw [ceilVpn_of_le (by omega)]
  unfold pageSize
  omega

lemma mmap_admissible {addr len : ℕ} {perm : MapPermission} {flags : MmapFlags} {file : MmapFile}
    (h : Confined s.layout)
    (hin : flags.intersectsFixed = true → addr + len ≤ userSpaceSize)
    (hfree : flags.fixed = true → s.trapFree (floorVpn addr) (ceilVpn (addr + len)))
    (hp : Placement s addr len perm flags file l a) : Admissible l a := by
  have hfix : flags.intersectsFixed = true → s.mmapPlace addr len flags = addr := fun hf => by
    rw [mmapPlace, if_pos hf]
  refine ⟨MapArea.isUser_of_isMmapVma hp.isMmap, ?_, fun v hv => ?_⟩
  · rw [hp.stop]
    refine ceilVpn_le_userLimit ?_
    by_cases hf : flags.intersectsFixed = true
    · rw [hfix hf]
      exact hin hf
    · exact (hp.below (by simpa using hf)).trans (by decide)
  · refine h.not_trapPage hp.trimmed ?_ hv.1 hv.2
    by_cases hf : flags.intersectsFixed = true
    · refine .inr ?_
      by_cases hx : flags.fixed = true
      · rw [hp.start, hp.stop, hfix hf]
        exact hfree hx
      · intro b hb _
        refine hp.noreplace ?_ b hb
        simpa [MmapFlags.intersectsFixed, hx] using hf
    · rw [hp.stop]
      exact .inl (ceilVpn_le_mmapTop (hp.below (by simpa using hf)))

lemma mremap_admissible {oldStart oldEnd newLen newAddr : ℕ} {fixed : Bool} (h : Confined s.layout)
    (hfree : fixed = true → s.trapFree (floorVpn newAddr) (ceilVpn (newAddr + newLen)))
    (hp : s.MovePlacement g oldStart oldEnd newLen newAddr fixed l a) : Admissible l a := by
  obtain ⟨⟨dest, hd, hstart, hstop⟩, b, hb, hmov, -, -, hab⟩ := hp
  have hua : a.isUser = true := by
    rw [hab]
    exact isUser_of_movable hmov
  refine ⟨hua, ?_, fun v hv => h.not_trapPage hd.trimmed ?_ hv.1 hv.2⟩
  · rw [hstop]
    refine ceilVpn_le_userLimit ?_
    cases fixed with
    | true =>
      obtain ⟨rfl, hle, -⟩ := hd.chosen rfl
      exact hle
    | false => exact (hd.found rfl).1.trans (by decide)
  · cases fixed with
    | true =>
      obtain ⟨rfl, -, -⟩ := hd.chosen rfl
      rw [hstart, hstop]
      exact .inr (hfree rfl)
    | false =>
      rw [hstop]
      exact .inl (ceilVpn_le_mmapTop (hd.found rfl).1)

lemma call {c : MemCall} (h : Confined s.layout) (hown : c.Owned s)
    (hcall : c.run s g = some (ret, s', g')) : ConfinedStep s.layout s'.layout := by
  by_cases hprot : c.IsMprotect
  · cases c with
    | mprotect addr len prot =>
      rcases sysMprotect_cases hcall with ⟨rfl, -⟩ | hm
      · exact .refl h
      · exact h.mprotect hown hm
    | _ => exact absurd hprot id
  have hadm : ∀ l a, c.Inserts s g l a → confinedCtx.admits l a := by
    intro l a hi
    cases c with
    | mmap addr len prot raw fd off desc =>
      obtain ⟨file, -, -, -, hp⟩ := hi
      exact h.mmap_admissible hown.1 hown.2 hp
    | mremap oldAddr oldSize newSize flags newAddr => exact h.mremap_admissible hown.2 hi.2.2
    | _ => exact absurd hi id
  have hsort : c.IsMremap → AreasSorted s.areas := by
    cases c with
    | mremap oldAddr oldSize newSize flags newAddr => exact fun _ => hown.1
    | _ => exact fun hf => absurd hf id
  exact h.edits (MemCall.run_edits ∅ hprot hsort hadm hcall).1

lemma fault {strongCount : ℕ → ℕ} {cause : FaultCause} {prepared : Option FilePage} {ok : Bool}
    (h : Confined s.layout) (hcall : s.handlePageFault strongCount g v cause prepared = some (ok, s', g')) :
    ConfinedStep s.layout s'.layout := by
  obtain ⟨held', -, -, he⟩ := handlePageFault_edits (κ := confinedCtx)
    (fun _ _ => trivial) (Set.subset_univ _) (fun _ _ => Set.mem_univ _) hcall
  exact h.edits he

end Confined

structure Process where
  space : MemorySetInner
  kernel : Globals

/-- What happens to a process: a call, or a page fault, which finds the reference counts of the
frames and perhaps a file page loaded for it. -/
inductive MemEvent where
  | call (c : MemCall)
  | fault (strongCount : ℕ → ℕ) (vpn : ℕ) (cause : FaultCause) (prepared : Option FilePage)

namespace Process

def step (p : Process) : MemEvent → Option Process
  | .call c => (c.run p.space p.kernel).map fun (_, s, g) => ⟨s, g⟩
  | .fault strongCount vpn cause prepared =>
    (p.space.handlePageFault strongCount p.kernel vpn cause prepared).map fun (_, s, g) => ⟨s, g⟩

def Owned (p : Process) : MemEvent → Prop
  | .call c => c.Owned p.space
  | .fault _ _ _ _ => True

/-- What a step from one state of a process to the next must respect: entries outside the user
range, entries no user area covers, and the bound of the areas. -/
structure Isolated (p q : Process) : Prop where
  kernel : ∀ v, userLimit ≤ vpnIndex v → q.space.pageTable.findPte v = p.space.pageTable.findPte v
  covered : ∀ v, q.space.pageTable.findPte v ≠ p.space.pageTable.findPte v →
    UserPage p.space.areas (vpnIndex v) ∨ UserPage q.space.areas (vpnIndex v)
  bounded : ∀ a ∈ q.space.areas, a.vpnRange.stop ≤ userLimit

lemma confinedStep {p q : Process} {e : MemEvent} (h : Confined p.space.layout) (hown : p.Owned e)
    (hstep : p.step e = some q) : ConfinedStep p.space.layout q.space.layout := by
  cases e with
  | call c =>
    obtain ⟨⟨ret, s, g⟩, hc, rfl⟩ := Option.map_eq_some_iff.1 hstep
    exact h.call hown hc
  | fault strongCount vpn cause prepared =>
    obtain ⟨⟨ok, s, g⟩, hc, rfl⟩ := Option.map_eq_some_iff.1 hstep
    exact h.fault hc

lemma isolated_of_confinedStep {p q : Process} (h : Confined p.space.layout)
    (hs : ConfinedStep p.space.layout q.space.layout) : Isolated p q := by
  have hcov : ∀ v, q.space.pageTable.findPte v ≠ p.space.pageTable.findPte v →
      UserPage p.space.areas (vpnIndex v) ∨ UserPage q.space.areas (vpnIndex v) := by
    intro v hne
    have hprot : ¬ Protected p.space.areas v := fun hp => hne (hs.protects v hp)
    simp only [Protected, not_or, not_le] at hprot
    have hwalk := fun pt : PageTable => pt.findPte_vpnIndex v
    by_cases hp : p.space.pageTable.findPte v = none
    · refine .inr ((hs.confined.cover _ hprot.2 ?_).resolve_right fun ht => hprot.1 ((hs.traps _).1 ht))
      rw [hwalk]
      exact fun hq => hne (hq.trans hp.symm)
    · refine .inl ((h.cover _ hprot.2 ?_).resolve_right hprot.1)
      rwa [hwalk]
  refine ⟨fun v hv => ?_, hcov, hs.confined.inUser⟩
  by_contra hne
  rcases hcov v hne with hu | hu
  · exact absurd (h.userPage_lt hu) (not_lt.2 hv)
  · exact absurd (hs.confined.userPage_lt hu) (not_lt.2 hv)

lemma confined_of_reaches {p q : Process} (h : Confined p.space.layout) (hrun : Reaches step Owned p q) :
    Confined q.space.layout :=
  Reaches.invariant (fun _ _ _ h hown hstep => (confinedStep h hown hstep).confined) h hrun

/-- From a confined address space on, every owned call and every page fault stays inside the user
areas of the process, and no area ever leaves the user range. -/
theorem owned_run_isolated {p₀ p q : Process} {e : MemEvent} (h₀ : Confined p₀.space.layout)
    (hrun : Reaches step Owned p₀ p) (hown : p.Owned e) (hstep : p.step e = some q) : Isolated p q := by
  have hp := confined_of_reaches h₀ hrun
  exact isolated_of_confinedStep hp (confinedStep hp hown hstep)

instance (l : List MapArea) (v : ℕ) : Decidable (UserPage l v) :=
  inferInstanceAs (Decidable (∃ b ∈ l, b.isUser = true ∧ v ∈ b.vpnRange))

def trapArea (frame : ℕ) : MapArea where
  vpnRange := ⟨userLimit - 1, userLimit, by decide⟩
  dataFrames := OrdMap.empty.insert (userLimit - 1) frame
  mapPerm := { r := true, w := true }
  areaType := .trap
  mmapFile := MmapFile.empty
  mmapFlags := {}
  groupid := 0

def freshTable (text frame : ℕ) : PageTable :=
  (empty.install .page (2 ^ 26) ⟨text, RVPTEFlags.ofPerm { r := true, x := true }⟩
    (fun _ l _ => entry_empty l _)).install .page (userLimit - 1)
      ⟨frame, RVPTEFlags.ofPerm { r := true, w := true }⟩ (by
      intro i l hi
      simp only [install, empty, ite_eq_right_iff]
      rintro ⟨rfl, hl⟩
      exact absurd (hi.symm.trans hl) (by decide))

def Globals.initial (pages : List ℕ) : Globals where
  groups := ⟨[1, 2, 3], OrdMap.empty⟩
  pages := pages
  blocks := []
  mem := fun _ _ => 0
  fileCache := []
  memfds := fun _ => ⟨0, fun _ => 0, false, fun _ => none⟩
  kernel := ⟨empty, by simp [empty, findPte, leaf]⟩

def fresh : Process := ⟨⟨freshTable 10 11, [trapArea 11], 0, 0⟩, Globals.initial [12, 13]⟩

lemma findPte_freshTable {text frame : ℕ} {lvl : Level} {p : PTE} (hv : v < 2 ^ 26)
    (h : (freshTable text frame).findPte v = some (lvl, p)) : lvl = .page ∧ v = userLimit - 1 := by
  have hidx : vpnIndex v = v := vpnIndex_of_lt (by omega)
  rw [freshTable, findPte_install, findPte_install] at h
  simp only [sameEntry_page, hidx] at h
  split_ifs at h with h1 h2
  · exact ⟨(Prod.mk.inj (Option.some.inj h)).1.symm, h1.trans (by decide)⟩
  · exact absurd (h2.trans (by decide : vpnIndex (2 ^ 26) = 2 ^ 26)) (by omega)
  · exact absurd h (by simp [empty, findPte, leaf])

lemma confined_fresh : Confined fresh.space.layout where
  inUser := by decide
  apart := by
    rintro v ⟨b, hb, hu, -⟩
    rw [List.mem_singleton.1 hb] at hu
    exact absurd hu (by decide)
  trapHigh := by
    rintro v ⟨b, hb, -, hv⟩
    rw [List.mem_singleton.1 hb] at hv
    exact le_trans (by decide) hv.1
  cover := by
    intro v hv hp
    obtain ⟨⟨lvl, p⟩, hq⟩ := Option.ne_none_iff_exists'.1 hp
    obtain ⟨-, rfl⟩ := findPte_freshTable hv hq
    exact .inr ⟨trapArea 11, List.mem_singleton_self _, rfl, by decide⟩
  blocks := fun v hv lvl p hp => .inl (findPte_freshTable hv hp).1

def written : Process :=
  after step (after step fresh (.call (.mmap 0 0x1000 3 0x22 (2 ^ 64 - 1) 0 none)))
    (.fault (fun _ => 1) 0x2A23446 .store none)

lemma reaches_written : Reaches step Owned fresh written := by
  have hmap : fresh.Owned (.call (.mmap 0 0x1000 3 0x22 (2 ^ 64 - 1) 0 none)) :=
    ⟨fun h => absurd h (by decide), fun h => absurd h (by decide)⟩
  exact (Reaches.after .refl hmap (by decide +kernel)).after trivial (by decide +kernel)

/-- Then it makes the page read-only. -/
theorem owned_run_isolated_written : written.space.pageTable.findPte 0x2A23446 ≠ none ∧
    Isolated written (after step written (.call (.mprotect 0x2A23446000 0x1000 1))) := by
  have hown : written.Owned (.call (.mprotect 0x2A23446000 0x1000 1)) := by
    show ∀ v, _ ≤ v → v < _ → _ ≠ none → UserPage _ _
    decide +kernel
  exact ⟨by decide +kernel, owned_run_isolated confined_fresh reaches_written hown (step_eq_after (by decide +kernel))⟩

/-- `mprotect` adds the user bit to the trap context and to the kernel half, which addresses above
`2 ^ 38` alias, and a fixed mapping may be placed past the user range. -/
theorem unowned_calls_not_isolated : Confined fresh.space.layout ∧
    (∃ q, fresh.step (.call (.mprotect 0x2F_FFFF_F000 0x1000 3)) = some q ∧ ¬ Isolated fresh q) ∧
    (∃ q, fresh.step (.call (.mprotect 0x40_0000_0000 0x1000 3)) = some q ∧ ¬ Isolated fresh q) ∧
    ∃ q, fresh.step (.call (.mmap 0x30_0000_0000 0x1000 3 0x32 (2 ^ 64 - 1) 0 none)) = some q ∧ ¬ Isolated fresh q := by
  refine ⟨confined_fresh, ⟨_, step_eq_after (by decide +kernel), fun h => ?_⟩,
    ⟨_, step_eq_after (by decide +kernel), fun h => ?_⟩, ⟨_, step_eq_after (by decide +kernel), fun h => ?_⟩⟩
  · exact absurd (h.covered (userLimit - 1) (by decide +kernel)) (by decide +kernel)
  · exact absurd (h.kernel (2 ^ 26) (by decide)) (by decide +kernel)
  · exact absurd h.bounded (by decide +kernel)

end Process

end Ya2yOS.Mm
