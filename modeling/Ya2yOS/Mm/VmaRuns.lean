import Ya2yOS.Mm.Isolation
import Ya2yOS.Mm.HoleSearch

/-!
# Runs of an address space and the layout of its areas

The layout survives every step that finds room for the areas it creates. The code does not check the rest: a mapping at
a fixed address ignores that its removal may fail, a length close to the word size rounds up to zero, a segment may
have no pages or find no address, and each thread grows the heap from its own pointer.
-/

namespace Ya2yOS.Mm

open Lib MemorySetInner

structure Vm where
  space : MemorySetInner
  kernel : Globals
  shm : ShmManager
  heaps : ℕ → TaskHeap

inductive VmEvent where
  | call (c : MemCall)
  | fault (strongCount : ℕ → ℕ) (vpn : ℕ) (cause : FaultCause) (prepared : Option FilePage)
  | brk (task brkAddr : ℕ)
  | spawn (parent child : ℕ)
  | shmget (key : ℤ) (size flags : ℕ)
  | shmat (shmid : ℤ) (addr flags : ℕ)
  | shmdt (addr : ℕ)
  | shmrm (shmid : ℕ)

namespace Vm

def step (s : Vm) : VmEvent → Option Vm
  | .call c => (c.run s.space s.kernel).map fun (_, t, g) => { s with space := t, kernel := g }
  | .fault strongCount vpn cause prepared =>
    (s.space.handlePageFault strongCount s.kernel vpn cause prepared).map fun (_, t, g) =>
      { s with space := t, kernel := g }
  | .brk task brkAddr =>
    (s.space.sysBrk s.kernel (s.heaps task) brkAddr).map fun (_, t, g, heap) =>
      { s with space := t, kernel := g, heaps := Function.update s.heaps task heap }
  | .spawn parent child => some { s with heaps := Function.update s.heaps child (s.heaps parent) }
  | .shmget key size flags =>
    (s.shm.sysShmget s.kernel key size flags).map fun (_, m, g) => { s with shm := m, kernel := g }
  | .shmat shmid addr flags =>
    (s.space.sysShmat s.shm shmid addr flags).map fun (_, t) => { s with space := t }
  | .shmdt addr =>
    (s.space.shmDetach s.kernel addr).map fun (_, t, g) => { s with space := t, kernel := g }
  | .shmrm shmid => some { s with shm := s.shm.drop shmid }

def fresh (g : Globals) (heap : TaskHeap) : Vm :=
  ⟨newFromKernel g, g, ShmManager.new, fun _ => heap⟩

end Vm

/-- Only areas that a fixed mapping removes lie on its pages, and none of them is a huge area that
the removal would refuse to cut. -/
def FixedRoom (s : MemorySetInner) (addr len : ℕ) (flags : MmapFlags) : Prop :=
  (∀ b ∈ s.areas, b.overlaps (floorVpn addr) (ceilVpn (addr + len)) →
    b.isMmapVma = true ∨ b.areaType = .brk) ∧
  (flags.hugetlb = false → ∀ b ∈ s.areas, MemorySetInner.SparesHuge addr len b)
deriving Decidable

/-- A call finds room for the area it creates. -/
def MemCall.FindsRoom (s : MemorySetInner) : MemCall → Prop
  | .mmap addr len _ raw _ _ _ => (len ≠ 0 → mmapLen (.ofBits raw) len ≠ 0) ∧
      ((MmapFlags.ofBits raw).fixed = true → FixedRoom s addr (mmapLen (.ofBits raw) len) (.ofBits raw))
  | .mremap _ _ newSize flags newAddr => flags.testBit 1 = true → ∀ b ∈ s.areas,
      b.overlaps (floorVpn newAddr) (ceilVpn (newAddr + mremapLen newSize)) → b.isMmapVma = true
  | _ => True

instance (s : MemorySetInner) : (c : MemCall) → Decidable (c.FindsRoom s)
  | .mmap _ _ _ _ _ _ _ => inferInstanceAs (Decidable (_ ∧ _))
  | .mremap _ _ _ _ _ => inferInstanceAs (Decidable (_ → _))
  | .munmap _ _ _ => inferInstanceAs (Decidable True)
  | .mprotect _ _ _ => inferInstanceAs (Decidable True)
  | .madvise _ _ _ => inferInstanceAs (Decidable True)

def Vm.FindsRoom (s : Vm) : VmEvent → Prop
  | .call c => c.FindsRoom s.space
  | .brk task brkAddr => ∀ b ∈ s.space.areas, b.areaType = .brk →
      ¬ b.overlaps (ceilVpn (s.heaps task).heappoint) (ceilVpn brkAddr)
  | .shmat shmid _ _ => ∀ frames ∈ s.shm.map.get? shmid.toNat,
      frames ≠ [] ∧ (s.space.findMmapAddr (frames.length * pageSize)).1 ≠ 0
  | _ => True

instance (s : Vm) : (e : VmEvent) → Decidable (s.FindsRoom e)
  | .call c => inferInstanceAs (Decidable (c.FindsRoom s.space))
  | .brk task brkAddr => inferInstanceAs (Decidable (∀ b ∈ s.space.areas, b.areaType = .brk →
      ¬ b.overlaps (ceilVpn (s.heaps task).heappoint) (ceilVpn brkAddr)))
  | .shmat shmid _ _ => inferInstanceAs (Decidable (∀ frames ∈ s.shm.map.get? shmid.toNat,
      frames ≠ [] ∧ (s.space.findMmapAddr (frames.length * pageSize)).1 ≠ 0))
  | .fault _ _ _ _ => inferInstanceAs (Decidable True)
  | .spawn _ _ => inferInstanceAs (Decidable True)
  | .shmget _ _ _ => inferInstanceAs (Decidable True)
  | .shmdt _ => inferInstanceAs (Decidable True)
  | .shmrm _ => inferInstanceAs (Decidable True)

namespace LaidOut

variable {s s' : MemorySetInner} {g g' : Globals} {l : List MapArea} {a : MapArea} {ret : SyscallRet}

lemma mmap_admits {addr len : ℕ} {perm : MapPermission} {flags : MmapFlags} {file : MmapFile} (h : LaidOut s.areas)
    (hlen : len ≠ 0) (hmax : len ≤ maxMmapSize) (hroom : flags.fixed = true → FixedRoom s addr len flags)
    (hp : Placement s addr len perm flags file l a) : orderedCtx.admits l a := by
  by_cases hfix : flags.intersectsFixed = true
  · have hlt : a.vpnRange.start < a.vpnRange.stop := by
      have hfits := hp.fits
      have hle := a.vpnRange.le
      rw [hp.start, hp.stop] at hle ⊢
      unfold maxMmapSize at hmax
      unfold floorVpn ceilVpn pageSize wordSize at *
      split_ifs at * <;> omega
    apply vacant_of_not_overlaps hlt
    by_cases hf : flags.fixed = true
    · obtain ⟨htypes, hspare⟩ := hroom hf
      have hplace : s.mmapPlace addr len flags = addr := if_pos hfix
      obtain ⟨pt, htrim⟩ := hp.trimmed
      have hrest := htrim.avoid hlt
        (fun t f => ¬ ((t = .mmap ∨ (t = .stack ∧ f.stack = true)) ∨ t = .brk)) (fun b hb hn hov => hn ?_)
      · intro b hb
        by_cases hb' : b.isMmapVma = true ∨ b.areaType = .brk
        · exact hp.cleared hf hspare b hb hb' hlt
        · apply hrest b hb
          simpa [MapArea.isMmapVma] using hb'
      · rw [hp.start, hp.stop, hplace] at hov
        simpa [MapArea.isMmapVma] using htypes b hb hov
    · rw [Bool.not_eq_true] at hf
      have hno : flags.fixedNoreplace = true := by simpa [MmapFlags.intersectsFixed, hf] using hfix
      rw [hp.kept hf]
      exact hp.noreplace hno
  · rw [Bool.not_eq_true] at hfix
    have hf : flags.fixed = false := by
      simp only [MmapFlags.intersectsFixed, Bool.or_eq_false_iff] at hfix
      exact hfix.1
    have hvac := mmapPlace_vacant (laidOut_iff.1 h) hfix hlen (hp.found hfix)
    rw [← hp.start, ← hp.stop] at hvac
    rw [hp.kept hf]
    exact hvac

/-- The source of `mremap` may be cut out first; the areas stay in order. -/
lemma mremap_admits {oldStart oldEnd newLen newAddr : ℕ} {fixed : Bool} (h : LaidOut s.areas) (hlen : newLen ≠ 0)
    (hlt : oldStart < oldEnd)
    (hroom : fixed = true → ∀ b ∈ s.areas, b.overlaps (floorVpn newAddr) (ceilVpn (newAddr + newLen)) →
      b.isMmapVma = true)
    (hp : s.MovePlacement g oldStart oldEnd newLen newAddr fixed l a) : orderedCtx.admits l a := by
  obtain ⟨dest, hd, h1, h2⟩ := hp.place
  show Vacant l a.vpnRange.start a.vpnRange.stop
  rw [h1, h2]
  cases fixed with
  | true =>
    obtain ⟨rfl, hbound, hclear⟩ := hd.chosen rfl
    have hlt : floorVpn dest < ceilVpn (dest + newLen) := by
      unfold userSpaceSize at hbound
      rw [ceilVpn_of_le (by omega)]
      unfold floorVpn pageSize
      omega
    obtain ⟨pt, htrim⟩ := hd.trimmed
    have hrest := htrim.avoid hlt (fun t f => ¬ (t = .mmap ∨ (t = .stack ∧ f.stack = true)))
      (fun b hb hn hov => hn (by simpa [MapArea.isMmapVma] using hroom rfl b hb hov))
    refine vacant_of_not_overlaps hlt fun b hb => ?_
    by_cases hb' : b.isMmapVma = true
    · exact hclear b hb hb'
    · apply hrest b hb
      simpa [MapArea.isMmapVma] using hb'
  | false =>
    obtain ⟨-, i, c, t, k, j, hsrc, hc, hsmall, hiso, hl, hdest⟩ := hd.found rfl
    obtain ⟨hmov, hin⟩ := mremapSource_spec hsrc hc
    have hcuts := (isolate_spec hc (isUser_of_movable hmov) hsmall hin hlt h.sorted hiso).1
    have hcut : LaidOut t.areas := h.edits (CallSteps.areaEdits (hcuts.lift id fun _ _ => .cut))
    rw [hl, hdest]
    exact findMmapAddr_vacant (laidOut_iff.1 hcut) (hdest ▸ hd.nonzero)

lemma call {c : MemCall} (h : LaidOut s.areas) (hroom : c.FindsRoom s)
    (hcall : c.run s g = some (ret, s', g')) : LaidOut s'.areas := by
  have hadm : ∀ l a, c.Inserts s g l a → orderedCtx.admits l a := by
    intro l a hi
    cases c with
    | mmap addr len prot raw fd off desc =>
      obtain ⟨file, -, hlen, hmax, hp⟩ := hi
      exact h.mmap_admits (hroom.1 hlen) hmax hroom.2 hp
    | mremap oldAddr oldSize newSize flags newAddr =>
      obtain ⟨hlt, hnew, hp⟩ := hi
      exact h.mremap_admits hnew hlt hroom hp
    | _ => exact absurd hi id
  exact h.edits (MemCall.run_areaEdits (fun _ => h.sorted) hadm (.inl trivial) hcall)

lemma brk {t t' : TaskHeap} {brkAddr : ℕ} (h : LaidOut s.areas)
    (hroom : ∀ b ∈ s.areas, b.areaType = .brk → ¬ b.overlaps (ceilVpn t.heappoint) (ceilVpn brkAddr))
    (hcall : s.sysBrk g t brkAddr = some (ret, s', g', t')) : LaidOut s'.areas := by
  rcases sysBrk_cases hcall with ⟨rfl, -⟩ | ⟨r, hgrow⟩
  · exact h
  apply h.edits (grow_areaEdits ?_ (.inl trivial) hgrow)
  intro pre q post hlt heq
  rw [show ((t.heappoint : ℤ) + ((brkAddr : ℤ) - t.heappoint)).toNat = brkAddr by omega] at hlt heq
  have hq : q ∈ freeRanges (ceilVpn brkAddr) s.areas (ceilVpn t.heappoint) := by simp [heq]
  have hasc := freeRanges_ascending (l := s.areas) hlt.le
  have hbounds := freeRanges_bounds hlt.le hq
  rw [heq, List.pairwise_append] at hasc
  refine ⟨by simp only [heapArea]; omega, fun b hb => ?_⟩
  simp only [heapArea]
  rcases List.mem_append.1 hb with hb | hb
  · -- an earlier part
    obtain ⟨q', hq', rfl⟩ := List.mem_map.1 hb
    have hle := hasc.2.2 q' hq' q List.mem_cons_self
    have hb' := freeRanges_bounds (l := s.areas) hlt.le (r := q') (by simp [heq, hq'])
    left
    simp only [heapArea]
    omega
  · by_cases ht : b.areaType = .brk
    · have hno := hroom b hb ht
      simp only [MapArea.overlaps, VPNRange.overlaps] at hno
      omega
    · have hclear := freeRanges_clear (laidOut_iff.1 h) hlt.le hq b hb ht
      omega

lemma shmat {m : ShmManager} {shmid : ℤ} {addr flags : ℕ} (g : Globals) (h : LaidOut s.areas)
    (hroom : ∀ frames ∈ m.map.get? shmid.toNat, frames ≠ [] ∧ (s.findMmapAddr (frames.length * pageSize)).1 ≠ 0)
    (hcall : s.sysShmat m shmid addr flags = some (ret, s')) : LaidOut s'.areas := by
  apply h.edits (g := g) (sysShmat_areaEdits ?_ hcall)
  intro frames va a hframes hva h1 h2
  have hvac := findMmapAddr_vacant (laidOut_iff.1 h) (hroom frames hframes).2
  have hle := s.findMmapAddr_le _ (hroom frames hframes).2
  rw [← hva] at hvac hle
  show Vacant s.areas a.vpnRange.start a.vpnRange.stop
  rwa [h1, h2, Nat.mod_eq_of_lt (lt_of_le_of_lt hle (by decide))]

end LaidOut

namespace Vm

lemma laidOut_step {s t : Vm} {e : VmEvent} (h : LaidOut s.space.areas) (hroom : s.FindsRoom e)
    (hstep : s.step e = some t) : LaidOut t.space.areas := by
  cases e with
  | call c =>
    obtain ⟨⟨ret, space, g⟩, hc, rfl⟩ := Option.map_eq_some_iff.1 hstep
    exact h.call hroom hc
  | fault strongCount vpn cause prepared =>
    obtain ⟨⟨ok, space, g⟩, hc, rfl⟩ := Option.map_eq_some_iff.1 hstep
    exact h.edits (handlePageFault_areaEdits hc)
  | brk task brkAddr =>
    obtain ⟨⟨ret, space, g, heap⟩, hc, rfl⟩ := Option.map_eq_some_iff.1 hstep
    exact h.brk hroom hc
  | spawn parent child =>
    cases hstep
    exact h
  | shmget key size flags =>
    obtain ⟨⟨ret, m, g⟩, hc, rfl⟩ := Option.map_eq_some_iff.1 hstep
    exact h
  | shmat shmid addr flags =>
    obtain ⟨⟨ret, space⟩, hc, rfl⟩ := Option.map_eq_some_iff.1 hstep
    exact h.shmat s.kernel hroom hc
  | shmdt addr =>
    obtain ⟨⟨ret, space, g⟩, hc, rfl⟩ := Option.map_eq_some_iff.1 hstep
    exact h.edits (shmDetach_areaEdits hc)
  | shmrm shmid =>
    cases hstep
    exact h

/-- The layout holds in every state that a run reaches in which every step finds room. -/
theorem laidOut_of_reaches {s₀ s : Vm} (h₀ : LaidOut s₀.space.areas) (hrun : Reaches step FindsRoom s₀ s) :
    LaidOut s.space.areas :=
  Reaches.invariant (fun _ _ _ h hroom hstep => laidOut_step h hroom hstep) h₀ hrun

def start : Vm := fresh (Process.Globals.initial [20, 21, 22]) ⟨0x10000, 0x10000⟩

/-- A segment is attached, the heap grows, three pages are mapped, the middle one again at its
address, and then made read-only. -/
def roomyEvents : List VmEvent :=
  [.shmget 0 0x1000 0, .shmat 1 0 0, .brk 0 0x12000, .call (.mmap 0 0x3000 3 0x22 (2 ^ 64 - 1) 0 none),
    .call (.mmap 0x2A23444000 0x1000 3 0x32 (2 ^ 64 - 1) 0 none), .call (.mprotect 0x2A23444000 0x1000 1)]

theorem laidOut_roomyEvents : (run step start roomyEvents).space.areas.length = 5 ∧
    LaidOut (run step start roomyEvents).space.areas := by
  have hadmits : Admits step FindsRoom start roomyEvents :=
    .of_guards (by decide +kernel) ⟨trivial, by decide +kernel, by decide +kernel, by decide +kernel, by decide +kernel,
      trivial, trivial⟩
  exact ⟨by decide +kernel, laidOut_of_reaches (by decide +kernel) (Reaches.run hadmits)⟩

/-- A mapping at the address of an attached segment leaves the segment where it is. -/
theorem fixed_mapping_over_segment :
    Reaches step (fun _ _ => True) start (run step start
      [.shmget 0 0x1000 0, .shmat 1 0 0, .call (.mmap 0x2A23446000 0x1000 3 0x32 (2 ^ 64 - 1) 0 none)]) ∧
    ¬ LaidOut (run step start [.shmget 0 0x1000 0, .shmat 1 0 0,
        .call (.mmap 0x2A23446000 0x1000 3 0x32 (2 ^ 64 - 1) 0 none)]).space.areas :=
  ⟨Reaches.run (.of_guards (by decide +kernel) ⟨trivial, trivial, trivial, trivial⟩),
    by decide +kernel⟩

end Vm

end Ya2yOS.Mm
