import Ya2yOS.Mm.Isolation
import Ya2yOS.Mm.Uaccess

/-!
# Which arguments reach the canonical-address assertion

For each memory call, the arguments for which every word it converts is canonical.
-/

namespace Ya2yOS.Mm

open Lib MmapFlags

namespace Conv

section Arithmetic

variable {addr len v : ℕ} {α : Type}

lemma canonical_iff : canonical v = true ↔ v < 2 ^ 39 ∨ wordSize - 2 ^ 39 ≤ v ∧ v < wordSize := by
  simp only [canonical, Bool.or_eq_true, Bool.and_eq_true, decide_eq_true_eq]

lemma canonical_below {u : ℕ} (h : u ≤ userSpaceSize) (hv : v ≤ u) : canonical v = true :=
  canonical_of_le_userSpaceSize (hv.trans h)

lemma canonical_range_bind (a b : ℕ) (f : ℕ → ℕ → Conv α) :
    Canonical (toVirtAddr a >>= fun x => toVirtAddr b >>= f x) ↔
      canonical a = true ∧ canonical b = true ∧ Canonical (f a b) := by
  rw [canonical_toVirtAddr_bind, canonical_toVirtAddr_bind]

lemma canonical_bind_of {γ : Type} {x : Conv α} {f : α → Conv γ} (hx : Canonical x) (hf : ∀ a, Canonical (f a)) :
    Canonical (x >>= f) := by
  rw [canonical_bind]
  exact ⟨hx, fun a _ => hf a⟩

lemma canonical_guard {P : Prop} [Decidable P] {a : α} {x : Conv α} (h : ¬ P → Canonical x) :
    Canonical (if P then pure a else x) := by
  rw [canonical_check]
  exact or_iff_not_imp_left.2 h

lemma checkedAdd_eq_none {a b : ℕ} : checkedAdd a b = none ↔ wordSize ≤ a + b := by
  unfold checkedAdd
  split_ifs with h
  · simp [h]
  · simp only [true_iff]
    omega

end Arithmetic

section Munmap

variable {s : MemorySetInner} {g : Globals} {addr len endAddr : ℕ}

lemma endInHuge_canonical {a : MapArea} (haddr : canonical addr = true) : Canonical (endInHuge addr endAddr len a) ↔
      (a.isHuge = true → floorVpn addr ∉ a.vpnRange → len ≠ 0 → canonical (endAddr - 1) = true) := by
  simp [endInHuge, haddr]

/-- The search stops at the first huge area if that area holds the start of the range. -/
lemma touchesHuge_canonical (haddr : canonical addr = true) (l : List MapArea) :
    Canonical (l.anyM (endInHuge addr endAddr len)) ↔
      len = 0 ∨ canonical (endAddr - 1) = true ∨ ∀ a ∈ l.find? (·.isHuge), floorVpn addr ∈ a.vpnRange := by
  induction l with
  | nil => simp
  | cons a l ih =>
    have hcons : Canonical ((a :: l).anyM (endInHuge addr endAddr len)) ↔
        Canonical (endInHuge addr endAddr len a) ∧ ((endInHuge addr endAddr len a).result = some false →
          Canonical (l.anyM (endInHuge addr endAddr len))) := Logged.safe_anyM_cons _ a l
    rw [hcons, ih, endInHuge_canonical haddr]
    by_cases hl : len = 0
    · simp [hl]
    by_cases hend : canonical (endAddr - 1) = true
    · simp [hend]
    by_cases hh : a.isHuge = true
    · by_cases hf : floorVpn addr ∈ a.vpnRange
      · simp [endInHuge, hh, hf, virtAddr, haddr]
      · simp [hh, hf, hl, hend]
    · simp [endInHuge, hh]

lemma munmap_canonical_iff (haddr : canonical addr = true) (hadd : checkedAdd addr len = some endAddr)
    (hend : canonical endAddr = true) : Canonical (munmap s g addr len) ↔
      len = 0 ∨ canonical (endAddr - 1) = true ∨ ∀ a ∈ s.areas.find? (·.isHuge), floorVpn addr ∈ a.vpnRange := by
  unfold munmap
  simp only [hadd]
  rw [canonical_bind, touchesHuge_canonical haddr]
  exact and_iff_left fun huge _ => by simp [haddr, hend]

lemma munmap_canonical (h : addr + len < 2 ^ 39) : Canonical (munmap s g addr len) := by
  have hadd : checkedAdd addr len = some (addr + len) := checkedAdd_eq_some.2 ⟨rfl, lt_trans h (by decide)⟩
  rw [munmap_canonical_iff (canonical_of_lt (by omega)) hadd (canonical_of_lt h)]
  exact .inr (.inl (canonical_of_lt (by omega)))

/-- The arguments of `sys_munmap` that end before the first conversion, or whose ends are canonical.
The last byte is converted as well where the first huge area does not hold the start. -/
def MunmapBounded (s : MemorySetInner) (addr len : ℕ) (ioError : Option SysErrNo) : Prop :=
  addr % pageSize ≠ 0 ∨ wordSize ≤ addr + pageRoundUp len ∨
    canonical addr = true ∧ canonical (addr + pageRoundUp len) = true ∧
      (ceilVpn (addr + pageRoundUp len) ≤ floorVpn addr ∨ ioError.isSome = true ∨ pageRoundUp len = 0 ∨
        canonical (addr + pageRoundUp len - 1) = true ∨
          ∀ a ∈ s.areas.find? (·.isHuge), floorVpn addr ∈ a.vpnRange)

lemma sysMunmap_canonical_iff (ioError : Option SysErrNo) :
    Canonical (sysMunmap s g addr len ioError) ↔ MunmapBounded s addr len ioError := by
  unfold sysMunmap MunmapBounded
  rw [canonical_check, canonical_bind_pure]
  refine or_congr_right ?_
  generalize pageRoundUp len = n
  unfold munmapWriteback
  cases hadd : checkedAdd addr n with
  | none => simp [checkedAdd_eq_none.1 hadd]
  | some endAddr =>
    obtain ⟨rfl, hlt⟩ := checkedAdd_eq_some.1 hadd
    rw [canonical_range_bind, canonical_check, or_iff_right (a := wordSize ≤ addr + n) (by omega)]
    refine and_congr_right fun haddr => and_congr_right fun hend => or_congr_right ?_
    cases ioError with
    | some e => simp
    | none =>
      rw [or_iff_right (by decide)]
      exact munmap_canonical_iff haddr hadd hend

end Munmap

section Mprotect

variable {s : MemorySetInner} {g : Globals} {addr len : ℕ}

def MprotectBounded (addr len : ℕ) : Prop :=
  addr % pageSize ≠ 0 ∨ len % pageSize ≠ 0 ∨ wordSize ≤ addr + len ∨
    canonical addr = true ∧ canonical (addr + len) = true

lemma sysMprotect_canonical_iff (prot : ℕ) : Canonical (sysMprotect s g addr len prot) ↔ MprotectBounded addr len := by
  unfold sysMprotect MprotectBounded
  rw [canonical_check, or_assoc]
  refine or_congr_right (or_congr_right ?_)
  cases hadd : checkedAdd addr len with
  | none => simp [checkedAdd_eq_none.1 hadd]
  | some endAddr =>
    obtain ⟨rfl, hlt⟩ := checkedAdd_eq_some.1 hadd
    simp [hlt]

end Mprotect

section Madvise

variable {s : MemorySetInner} {addr len : ℕ}

lemma canonical_of_pred {v : ℕ} (hw : v < wordSize) (h : canonical (v - 1) = true) :
    canonical v = true ↔ v ≠ 2 ^ 39 := by
  rw [canonical_iff] at h ⊢
  unfold wordSize at *
  omega

lemma validateMadviseRange_canonical (h : canonical (addr + len) = true) :
    Canonical (validateMadviseRange s addr len) := by
  unfold validateMadviseRange
  cases hadd : checkedAdd addr len with
  | none => simp
  | some endAddr =>
    obtain ⟨rfl, -⟩ := checkedAdd_eq_some.1 hadd
    simp +contextual [h]

lemma discardMadvisePages_canonical (haddr : canonical addr = true) (h : canonical (addr + len) = true) :
    Canonical (discardMadvisePages s addr len) := by
  refine canonical_bind_of (validateMadviseRange_canonical h) fun r => ?_
  cases r <;> simp [haddr, h]

def MadviseBounded (addr len advice : ℕ) : Prop :=
  MemorySetInner.Advice.ofWord (advice % 2 ^ 32) = none ∨ addr % pageSize ≠ 0 ∨ len = 0 ∨ addr + len ≠ 2 ^ 39

lemma sysMadvise_canonical_iff (advice : ℕ) :
    Canonical (sysMadvise s addr len advice) ↔ MadviseBounded addr len advice := by
  unfold sysMadvise MadviseBounded
  cases MemorySetInner.Advice.ofWord (advice % 2 ^ 32) with
  | none => simp
  | some advice =>
    rw [or_iff_right (by simp), canonical_check, canonical_check]
    refine or_congr_right' fun hal => or_congr_right' fun hl => ?_
    cases hadd : checkedAdd addr len with
    | none =>
      have hover := checkedAdd_eq_none.1 hadd
      refine iff_of_true (canonical_pure _) fun h => ?_
      rw [h] at hover
      exact absurd hover (by decide)
    | some endAddr =>
      obtain ⟨rfl, hlt⟩ := checkedAdd_eq_some.1 hadd
      rw [canonical_check]
      by_cases hc : (!canonical addr) = true ∨ (!canonical (addr + len - 1)) = true
      · refine iff_of_true (.inl hc) fun h => ?_
        rw [canonical_of_lt (by omega), canonical_of_lt (by omega)] at hc
        exact absurd hc (by decide)
      obtain ⟨haddr, hlast⟩ : canonical addr = true ∧ canonical (addr + len - 1) = true := by simpa using hc
      rw [or_iff_right hc, ← canonical_of_pred hlt hlast]
      cases advice with
      | dontneed =>
        rw [canonical_range_bind]
        exact ⟨fun h => h.2.1, fun h => ⟨haddr, h, discardMadvisePages_canonical haddr h⟩⟩
      | hint =>
        rw [canonical_bind_pure]
        refine ⟨fun hv => ?_, validateMadviseRange_canonical⟩
        unfold validateMadviseRange at hv
        simp only [if_neg hal, hadd, if_neg hl, if_neg hc] at hv
        rw [canonical_range_bind] at hv
        exact hv.2.1

end Madvise

section Mincore

variable {s : MemorySetInner} {addr len : ℕ}

lemma residency_canonical_iff (l : List ℕ) :
    Canonical (residency s addr l) ↔ ∀ i ∈ l, canonical (addr + i * pageSize) = true := by
  induction l with
  | nil => simp [residency]
  | cons i l ih => simp [residency, ih]

/-- The pages of a range with canonical ends are canonical unless it goes through the hole between
the two halves. -/
lemma pages_canonical_iff (hal : addr % pageSize = 0) (hw : addr + len < wordSize)
    (hlast : canonical (addr + len - 1) = true) :
    (∀ i ∈ List.range ((len + pageSize - 1) / pageSize), canonical (addr + i * pageSize) = true) ↔
      addr + len ≤ 2 ^ 39 ∨ wordSize - 2 ^ 39 ≤ addr := by
  simp only [canonical_iff, pageSize, wordSize, List.mem_range] at *
  constructor
  · intro h
    by_contra hhole
    have hpage := h ((2 ^ 39 - addr) / 0x1000) (by omega)
    omega
  · intro h i hi
    omega

def Mapped (s : MemorySetInner) (addr len : ℕ) : Prop :=
  (checkUserRange s addr len { r := true }).result = some true

def MincoreBounded (s : MemorySetInner) (bad : Bool) (addr len vec : ℕ) : Prop :=
  (vec = 0 ∨ 2 ^ 63 ≤ vec ∨ bad = true) ∨ addr % pageSize ≠ 0 ∨ len = 0 ∨ wordSize ≤ addr + len ∨
    canonical addr = true ∧ canonical (addr + len - 1) = true ∧
      (Mapped s addr len → addr + len ≤ 2 ^ 39 ∨ wordSize - 2 ^ 39 ≤ addr)

lemma checkUserRange_canonical_iff (hl : len ≠ 0) (hadd : checkedAdd addr len = some (addr + len))
    (wanted : MapPermission) :
    Canonical (checkUserRange s addr len wanted) ↔ canonical addr = true ∧ canonical (addr + len - 1) = true := by
  simp [checkUserRange, hl, hadd]

lemma sysMincore_canonical_iff (env : FaultEnv) (active bad : Bool) (c : CopyState) (vec : ℕ) :
    Canonical (sysMincore env active bad c addr len vec) ↔ MincoreBounded c.space bad addr len vec := by
  unfold sysMincore MincoreBounded
  rw [canonical_check, canonical_check, canonical_check]
  refine or_congr_right (or_congr_right' fun hal => or_congr_right' fun hl => ?_)
  cases hadd : checkedAdd addr len with
  | none => simp [checkedAdd_eq_none.1 hadd]
  | some stop =>
    obtain ⟨rfl, hlt⟩ := checkedAdd_eq_some.1 hadd
    rw [if_neg (by simp), canonical_bind, checkUserRange_canonical_iff hl hadd, or_iff_right (by omega), and_assoc]
    refine and_congr_right fun haddr => and_congr_right fun hlast => ?_
    have hpages := pages_canonical_iff (not_not.1 hal) hlt hlast
    rw [← hpages]
    simp [canonical_bind, residency_canonical_iff, Mapped]

end Mincore

section Mmap

variable {s : MemorySetInner} {g : Globals} {addr len : ℕ} {perm : MapPermission} {flags : MmapFlags} {file : MmapFile}

lemma mmapHugeStart_canonical : Canonical (mmapHugeStart s g addr len flags) := by
  unfold mmapHugeStart
  by_cases hf : flags.intersectsFixed = true
  · rw [if_pos hf]
    cases hadd : checkedAdd addr len with
    | none => exact canonical_pure _
    | some endAddr =>
      obtain ⟨rfl, -⟩ := checkedAdd_eq_some.1 hadd
      refine canonical_guard fun hb => ?_
      have hle : addr + len ≤ userSpaceSize := Nat.le_of_not_lt (not_or.1 (not_or.1 hb).2).1
      have hlt : addr + len < 2 ^ 39 := lt_of_le_of_lt hle (by decide)
      rw [canonical_range_bind]
      refine ⟨canonical_below hle (by omega), canonical_of_lt hlt, ?_⟩
      refine canonical_guard fun _ => ?_
      split_ifs
      · exact canonical_pure _
      · refine canonical_bind_of (munmap_canonical hlt) fun r => ?_
        obtain ⟨r, s, g⟩ := r
        cases r <;> simp
      · exact canonical_pure _
  · simp [hf, (findMmapAddrAligned_yields s len hugePageSize).2]

lemma mmapHuge_canonical (hhuge : flags.hugetlb = true) : Canonical (mmapHuge s g addr len perm flags file) := by
  refine canonical_guard fun hbad => ?_
  rw [canonical_bind]
  refine ⟨mmapHugeStart_canonical, fun r hr => canonical_guard fun h0 => ?_⟩
  have hle := ((MemorySetInner.mmapHugeStart_spec hhuge hr).2 h0).inUser
  rw [canonical_range_bind]
  exact ⟨canonical_below hle (by omega), canonical_of_le_userSpaceSize hle, canonical_lift _⟩

lemma mmapFixed_canonical_iff (hl : len ≤ maxMmapSize) (hlt : addr + len < wordSize) :
    Canonical (mmapFixed s g addr len perm flags file) ↔ canonical addr = true ∧ canonical (addr + len) = true := by
  have hadd : checkedAdd addr len = some (addr + len) := checkedAdd_eq_some.2 ⟨rfl, hlt⟩
  unfold mmapFixed
  rw [hadd]
  dsimp only
  rw [canonical_range_bind]
  refine and_congr_right fun haddr => and_iff_left_of_imp fun hend => ?_
  -- a range of at most two gigabytes cannot reach from one half to the other
  have hlast : len = 0 ∨ canonical (addr + len - 1) = true := by
    rw [canonical_iff] at haddr hend ⊢
    unfold maxMmapSize at hl
    unfold wordSize at *
    omega
  have hclear : ∀ b e, Canonical (clearFixed s g addr len b e) := by
    intro b e
    refine canonical_bind_of (canonical_lift _) fun r => canonical_bind_of ?_ fun _ => canonical_pure _
    rw [munmap_canonical_iff haddr hadd hend]
    exact hlast.imp_right .inl
  refine canonical_guard fun _ => ?_
  split_ifs
  · exact canonical_bind_of (hclear _ _) fun _ => by simp [haddr, hend]
  · exact canonical_bind_of (canonical_pure _) fun _ => by simp [haddr, hend]

/-- A range that is not fixed, is bounded on the way, wraps, or has canonical ends. -/
def FixedBounded (flags : MmapFlags) (addr len : ℕ) : Prop :=
  flags.hugetlb = true ∨ flags.intersectsFixed = false ∨ wordSize ≤ addr + len ∨
    canonical addr = true ∧ canonical (addr + len) = true

lemma mmap_canonical_iff (hl : len ≤ maxMmapSize) :
    Canonical (mmap s g addr len perm flags file) ↔ FixedBounded flags addr len := by
  unfold mmap FixedBounded
  by_cases hhuge : flags.hugetlb = true
  · rw [if_pos hhuge]
    exact iff_of_true (mmapHuge_canonical hhuge) (.inl hhuge)
  rw [if_neg hhuge, or_iff_right hhuge]
  by_cases hf : flags.fixed = true ∨ flags.fixedNoreplace = true
  · have hfix : ¬ flags.intersectsFixed = false := by simpa [intersectsFixed, or_iff_not_imp_left] using hf
    rw [if_pos hf, or_iff_right hfix]
    by_cases hw : wordSize ≤ addr + len
    · refine iff_of_true ?_ (.inl hw)
      rw [mmapFixed, checkedAdd_eq_none.2 hw]
      exact canonical_pure _
    · rw [or_iff_right hw]
      exact mmapFixed_canonical_iff hl (by omega)
  · have hfix : flags.intersectsFixed = false := by simpa [intersectsFixed] using hf
    rw [if_neg hf]
    refine iff_of_true (canonical_guard fun hb => ?_) (.inl hfix)
    rw [canonical_bind]
    refine ⟨(freePlace_yields s addr len).2, fun r hr => canonical_guard fun h0 => ?_⟩
    rw [(freePlace_yields s _ _).1] at hr
    have hplace := (s.foundPlace_spec addr len).2
    rw [Option.some.inj hr] at hplace
    have hlt : r.1 + len < 2 ^ 39 := lt_of_le_of_lt (hplace h0) (by decide)
    simp [canonical_of_lt hlt, canonical_of_lt (lt_of_le_of_lt (Nat.le_add_right r.1 len) hlt)]

lemma mmapHandle_canonical_iff (hl : len ≤ maxMmapSize) :
    Canonical (mmapHandle s g addr len perm flags file) ↔ FixedBounded flags addr len := by
  unfold mmapHandle
  by_cases hf : (!flags.hugetlb) = true ∧ flags.fixed = true
  · have hhuge : ¬ flags.hugetlb = true := by simpa using hf.1
    have hfix : ¬ flags.intersectsFixed = false := by simp [intersectsFixed, hf.2]
    rw [if_pos hf]
    cases hadd : checkedAdd addr len with
    | none => exact iff_of_true (canonical_pure _) (.inr (.inr (.inl (checkedAdd_eq_none.1 hadd))))
    | some endAddr =>
      obtain ⟨rfl, hlt⟩ := checkedAdd_eq_some.1 hadd
      rw [canonical_range_bind, mmap_canonical_iff hl]
      unfold FixedBounded
      rw [or_iff_right hhuge, or_iff_right hfix, or_iff_right (by omega)]
      tauto
  · rw [if_neg hf]
    exact mmap_canonical_iff hl

/-- The arguments of `sys_mmap` that are rejected before the address is looked at, or bounded. -/
def MmapBounded (g : Globals) (addr len prot raw fd off : ℕ) (desc : Option Descriptor) : Prop :=
  (mmapCheck len prot raw fd off).isSome = true ∨ maxMmapSize < mmapLen (ofBits raw) len ∨
    (∃ e, mmapSourceOf g desc (ofBits raw) (MapPermission.ofProt prot) off = .error e) ∨
      FixedBounded (ofBits raw) addr (mmapLen (ofBits raw) len)

lemma sysMmap_canonical_iff (prot raw fd off : ℕ) (desc : Option Descriptor) :
    Canonical (sysMmap s g addr len prot raw fd off desc) ↔ MmapBounded g addr len prot raw fd off desc := by
  unfold sysMmap MmapBounded
  cases mmapCheck len prot raw fd off with
  | some e => simp
  | none =>
    dsimp only
    rw [or_iff_right (by simp), canonical_check]
    refine or_congr_right' fun hl => ?_
    cases mmapSourceOf g desc (ofBits raw) (MapPermission.ofProt prot) off with
    | error e => simp
    | ok file =>
      rw [or_iff_right (by simp), canonical_bind_pure]
      exact mmapHandle_canonical_iff (by omega)

end Mmap

section Mremap

variable {s : MemorySetInner} {g : Globals} {i oldAddr oldStart oldEnd oldLen newLen newAddr : ℕ} {fixed : Bool}

lemma moveTo_canonical {dest newTotal : ℕ} (h : dest + newLen < 2 ^ 39) :
    Canonical (moveTo s g i oldStart oldEnd dest newLen newTotal) := by
  unfold moveTo
  rw [checkedAdd_eq_some.2 ⟨rfl, lt_trans h (by decide)⟩]
  rw [canonical_range_bind]
  exact ⟨canonical_of_lt (by omega), canonical_of_lt h, canonical_lift _⟩

lemma mremapBudget_canonical (h : fixed = true → newAddr + newLen < 2 ^ 39) :
    Canonical (mremapBudget s g i oldAddr oldStart oldEnd newLen newAddr fixed) := by
  have hmove : ∀ (total : ℕ) (x : ℕ × MemorySetInner), (x.1 ≠ 0 → x.1 + newLen < 2 ^ 39) →
      Canonical (if x.1 = 0 then pure (.error .ENOMEM, x.2, g)
        else moveTo x.2 g i oldStart oldEnd x.1 newLen total) :=
    fun total x hx => canonical_guard fun h0 => moveTo_canonical (hx h0)
  refine canonical_bind_of (canonical_lift _) fun source => ?_
  dsimp only
  refine canonical_guard fun _ => canonical_guard fun _ => canonical_guard fun _ => canonical_guard fun _ => ?_
  by_cases hf : fixed = true
  · rw [if_pos hf, canonical_bind]
    refine ⟨canonical_pure _, fun x hx => hmove _ x fun _ => ?_⟩
    rw [← Option.some.inj hx]
    exact h hf
  · rw [if_neg hf, canonical_bind]
    refine ⟨(findMmapAddr_yields s newLen).2, fun x hx => hmove _ x fun h0 => ?_⟩
    rw [(findMmapAddr_yields s _).1] at hx
    rw [← Option.some.inj hx] at h0 ⊢
    exact lt_of_le_of_lt (s.findMmapAddr_le newLen h0) (by decide)

lemma withSource_canonical
    {rest : ℕ → ℕ → ℕ → MemorySetInner × Globals × ℕ → Conv (SyscallRet × MemorySetInner × Globals)}
    (hold : oldAddr + oldLen ≤ userSpaceSize)
    (hrest : ∀ r, Canonical (rest (oldAddr + oldLen) (floorVpn oldAddr) (ceilVpn (oldAddr + oldLen)) r)) :
    Canonical (withSource s g oldAddr oldLen rest) := by
  have hlt : oldAddr + oldLen < wordSize := lt_of_le_of_lt hold (by decide)
  unfold withSource
  rw [checkedAdd_eq_some.2 ⟨rfl, hlt⟩]
  dsimp only
  rw [canonical_range_bind]
  refine ⟨canonical_below hold (by omega), canonical_of_le_userSpaceSize hold, ?_⟩
  split
  · exact canonical_pure _
  refine canonical_bind_of (canonical_lift _) fun area => canonical_guard fun hh => ?_
  exact canonical_bind_of (canonical_lift _) hrest

lemma mremapMaymove_canonical (hold : oldAddr + oldLen ≤ userSpaceSize) :
    Canonical (mremapMaymove s g oldAddr oldLen newLen newAddr fixed) := by
  refine withSource_canonical hold fun r => ?_
  dsimp only
  by_cases hf : (!fixed) = true
  · rw [if_pos hf]
    exact mremapBudget_canonical fun h => by cases h
  rw [if_neg hf]
  cases hadd : checkedAdd newAddr newLen with
  | none => exact canonical_pure _
  | some newEnd =>
    obtain ⟨rfl, -⟩ := checkedAdd_eq_some.1 hadd
    refine canonical_guard fun hb => canonical_guard fun ho => ?_
    have hnew : newAddr + newLen < 2 ^ 39 := lt_of_le_of_lt (Nat.le_of_not_lt (not_or.1 hb).1) (by decide)
    refine canonical_bind_of (munmap_canonical hnew) fun r => ?_
    obtain ⟨r, s₂, g₂⟩ := r
    cases r with
    | error e => exact canonical_pure _
    | ok n =>
      cases s₂.mremapSource (floorVpn oldAddr) (ceilVpn (oldAddr + oldLen)) with
      | none => exact canonical_pure _
      | some k => exact mremapBudget_canonical fun _ => hnew

lemma growInPlace_canonical : Canonical (growInPlace s g i oldAddr oldStart oldEnd oldLen newLen) := by
  unfold growInPlace
  cases hadd : checkedAdd oldAddr newLen with
  | none => exact canonical_pure _
  | some newEnd =>
    refine canonical_guard fun hb => ?_
    rw [canonical_toVirtAddr_bind]
    exact ⟨canonical_of_le_userSpaceSize (Nat.le_of_not_lt (not_or.1 hb).1), canonical_lift _⟩

lemma mremapInPlace_canonical (hold : oldAddr + oldLen ≤ userSpaceSize) :
    Canonical (mremapInPlace s g oldAddr oldLen newLen) := by
  refine withSource_canonical hold fun r => canonical_guard fun heq => ?_
  split_ifs with hless
  · cases hadd : checkedAdd oldAddr newLen with
    | none => exact canonical_pure _
    | some trim =>
      obtain ⟨rfl, -⟩ := checkedAdd_eq_some.1 hadd
      refine canonical_bind_of (munmap_canonical ?_) fun r => ?_
      · -- the old range in whole pages ends below the limit of user pages
        have hceil := ceilVpn_le_userLimit hold
        rw [userLimit_eq] at hceil
        unfold userSpaceSize at hold
        unfold pageSize at *
        omega
      · obtain ⟨r, s₂, g₂⟩ := r
        cases r <;> exact canonical_pure _
  · exact growInPlace_canonical

def MremapRejected (oldAddr oldSize newSize flags newAddr : ℕ) : Prop :=
  8 ≤ flags ∨ flags.testBit 2 = true ∨ (flags.testBit 1 = true ∧ (!flags.testBit 0) = true) ∨
    (oldAddr % pageSize ≠ 0 ∨ oldSize = 0 ∨ newSize = 0) ∨
      (flags.testBit 1 = true ∧ newAddr % pageSize ≠ 0) ∨
        (wordSize ≤ oldSize + (pageSize - 1) ∨ wordSize ≤ newSize + (pageSize - 1)) ∨
          wordSize ≤ oldAddr + mremapLen oldSize ∨ userSpaceSize < oldAddr + mremapLen oldSize

/-- The arguments of `sys_mremap` that are rejected, name no destination, or one with canonical ends. -/
def MremapBounded (oldAddr oldSize newSize flags newAddr : ℕ) : Prop :=
  MremapRejected oldAddr oldSize newSize flags newAddr ∨ flags.testBit 1 = false ∨
    wordSize ≤ newAddr + mremapLen newSize ∨
      canonical newAddr = true ∧ canonical (newAddr + mremapLen newSize) = true

lemma sysMremap_canonical_iff (oldSize newSize flags : ℕ) :
    Canonical (sysMremap s g oldAddr oldSize newSize flags newAddr) ↔
      MremapBounded oldAddr oldSize newSize flags newAddr := by
  unfold sysMremap MremapBounded MremapRejected
  simp only [canonical_check, or_assoc]
  refine or_congr_right (or_congr_right (or_congr_right' fun hmove => ?_))
  refine or_congr_right (or_congr_right (or_congr_right (or_congr_right (or_congr_right (or_congr_right ?_)))))
  cases hadd : checkedAdd oldAddr (mremapLen oldSize) with
  | none => exact iff_of_true (canonical_pure _) (.inl (checkedAdd_eq_none.1 hadd))
  | some oldEnd =>
    obtain ⟨rfl, hlt⟩ := checkedAdd_eq_some.1 hadd
    rw [or_iff_right (by omega)]
    by_cases hold : userSpaceSize < oldAddr + mremapLen oldSize
    · rw [canonical_check]
      exact iff_of_true (.inl (.inl hold)) (.inl hold)
    have hle : oldAddr + mremapLen oldSize ≤ userSpaceSize := Nat.le_of_not_lt hold
    have hfirst : canonical oldAddr = true := canonical_below hle (by omega)
    have hlast : canonical (oldAddr + mremapLen oldSize - 1) = true := canonical_below hle (by omega)
    rw [canonical_check, or_iff_right (by simp [hold, hfirst, hlast]), or_iff_right hold, canonical_range_bind,
      and_iff_right hfirst, and_iff_right (canonical_of_le_userSpaceSize hle)]
    by_cases hfix : flags.testBit 1 = true
    · have hmay : flags.testBit 0 = true := by
        by_contra hno
        exact hmove ⟨hfix, by simpa using hno⟩
      rw [if_pos hmay, if_pos hfix, or_iff_right (by simp [hfix])]
      cases hnew : checkedAdd newAddr (mremapLen newSize) with
      | none => exact iff_of_true (canonical_pure _) (.inl (checkedAdd_eq_none.1 hnew))
      | some newEnd =>
        obtain ⟨rfl, hnlt⟩ := checkedAdd_eq_some.1 hnew
        rw [canonical_range_bind, or_iff_right (by omega)]
        exact and_congr_right fun _ => and_iff_left (mremapMaymove_canonical hle)
    · refine iff_of_true ?_ (.inl (by simpa using hfix))
      split_ifs
      · exact mremapMaymove_canonical hle
      · exact mremapInPlace_canonical hle

end Mremap

end Conv

inductive MmCall where
  | mmap (addr len prot raw fd off : ℕ) (desc : Option Descriptor)
  | munmap (addr len : ℕ) (ioError : Option SysErrNo)
  | mprotect (addr len prot : ℕ)
  | madvise (addr len advice : ℕ)
  | mincore (env : FaultEnv) (active bad : Bool) (addr len vec : ℕ)
  | mremap (oldAddr oldSize newSize flags newAddr : ℕ)

namespace MmCall

open Conv

def conversions (s : MemorySetInner) (g : Globals) : MmCall → List ℕ
  | .mmap addr len prot raw fd off desc => (sysMmap s g addr len prot raw fd off desc).log
  | .munmap addr len ioError => (sysMunmap s g addr len ioError).log
  | .mprotect addr len prot => (sysMprotect s g addr len prot).log
  | .madvise addr len advice => (sysMadvise s addr len advice).log
  | .mincore env active bad addr len vec => (sysMincore env active bad ⟨s, g, [], []⟩ addr len vec).log
  | .mremap oldAddr oldSize newSize flags newAddr =>
    (sysMremap s g oldAddr oldSize newSize flags newAddr).log

def Bounded (s : MemorySetInner) (g : Globals) : MmCall → Prop
  | .mmap addr len prot raw fd off desc => Conv.MmapBounded g addr len prot raw fd off desc
  | .munmap addr len ioError => Conv.MunmapBounded s addr len ioError
  | .mprotect addr len _ => Conv.MprotectBounded addr len
  | .madvise addr len advice => Conv.MadviseBounded addr len advice
  | .mincore _ _ bad addr len vec => Conv.MincoreBounded s bad addr len vec
  | .mremap oldAddr oldSize newSize flags newAddr => Conv.MremapBounded oldAddr oldSize newSize flags newAddr

/-- A call converts canonical words only, exactly if its arguments are bounded. -/
theorem conversions_canonical_iff (call : MmCall) (s : MemorySetInner) (g : Globals) :
    (∀ v ∈ call.conversions s g, canonical v = true) ↔ call.Bounded s g := by
  cases call with
  | mmap addr len prot raw fd off desc => exact sysMmap_canonical_iff prot raw fd off desc
  | munmap addr len ioError => exact sysMunmap_canonical_iff ioError
  | mprotect addr len prot => exact sysMprotect_canonical_iff prot
  | madvise addr len advice => exact sysMadvise_canonical_iff advice
  | mincore env active bad addr len vec => exact sysMincore_canonical_iff env active bad ⟨s, g, [], []⟩ vec
  | mremap oldAddr oldSize newSize flags newAddr => exact sysMremap_canonical_iff oldSize newSize flags

/-- `munmap` of one page at the end of the lower half. -/
theorem munmap_converts_hole : ¬ ∀ (call : MmCall) (s : MemorySetInner) (g : Globals),
    ∀ v ∈ call.conversions s g, canonical v = true := by
  intro hall
  have hsafe := hall (.munmap (2 ^ 39) 0x1000 none) Process.fresh.space Process.fresh.kernel
  have hbounded := (sysMunmap_canonical_iff none).1 hsafe
  rcases hbounded with hal | hover | ⟨haddr, -⟩
  · exact absurd hal (by decide)
  · exact absurd hover (by decide)
  · exact absurd haddr (by decide)

end MmCall

end Ya2yOS.Mm
