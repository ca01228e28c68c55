import Mathlib.Algebra.Order.Ring.Nat
import Mathlib.Data.List.Perm.Basic

/-!
# Addresses and page ranges

Virtual addresses are 64-bit words as natural numbers: checked additions fail at `2 ^ 64` and unchecked ones wrap. The
conversion to a `VirtAddr` asserts that the word is canonical, which is the `none` of `virtAddr`.
-/

namespace Ya2yOS.Mm

def wordSize : ℕ := 2 ^ 64
def pageSize : ℕ := 0x1000
def hugePagePages : ℕ := 512
def hugePageSize : ℕ := 0x20_0000
def userSpaceSize : ℕ := 0x30_0000_0000
def threadMaxNum : ℕ := 3000
def userStackSize : ℕ := 1024 * 1024 * 8
def userHeapSize : ℕ := 0x8000_0000
def maxMmapSize : ℕ := 0x8000_0000

/-- `MMAP_TOP`: the trap contexts, the fixed stacks and a guard page lie above it. -/
def mmapTop : ℕ := userSpaceSize - pageSize * threadMaxNum - userStackSize * threadMaxNum - pageSize

/-- The first page number outside the user range `[0, USER_SPACE_SIZE)`. -/
def userLimit : ℕ := userSpaceSize / pageSize

lemma userLimit_eq : userLimit = 0x300_0000 := rfl

lemma mmapTop_eq : mmapTop = 0x2A23447000 := rfl

def checkedAdd (a b : ℕ) : Option ℕ := if a + b < wordSize then some (a + b) else none

lemma checkedAdd_eq_some {a b c : ℕ} : checkedAdd a b = some c ↔ c = a + b ∧ a + b < wordSize := by
  unfold checkedAdd
  split_ifs with h
  · simp only [Option.some.injEq, h, and_true]
    exact eq_comm
  · simp [h]

/-- The Sv39 words: the sign extension of 39 bits, as the shift by `VA_WIDTH_SV39` tests it. -/
def canonical (v : ℕ) : Bool := v < 2 ^ 39 || (wordSize - 2 ^ 39 ≤ v && v < wordSize)

/-- `VirtAddr::from` and `VirtAddr::try_from`: the first panics where this is `none`. -/
def virtAddr (v : ℕ) : Option ℕ := if canonical v then some v else none

variable {v : ℕ}

lemma virtAddr_eq_some {w : ℕ} : virtAddr v = some w ↔ w = v ∧ canonical v = true := by
  unfold virtAddr
  split_ifs with h
  · simp only [Option.some.injEq, h, and_true]
    exact eq_comm
  · simp [h]

lemma canonical_of_lt (h : v < 2 ^ 39) : canonical v = true := by
  rw [canonical, decide_eq_true h, Bool.true_or]

def floorVpn (v : ℕ) : ℕ := v / pageSize

/-- `VirtAddr::ceil`; the addition wraps in a release build. -/
def ceilVpn (v : ℕ) : ℕ := if v = 0 then 0 else (v - 1 + pageSize) % wordSize / pageSize

/-- `page_round_up`; the addition wraps. -/
def pageRoundUp (v : ℕ) : ℕ :=
  if v % pageSize = 0 then v else (v - v % pageSize + pageSize) % wordSize

lemma ceilVpn_of_le (h : v < 2 ^ 63) : ceilVpn v = (v + pageSize - 1) / pageSize := by
  unfold ceilVpn pageSize wordSize
  split_ifs with h0
  · subst h0; rfl
  · rw [Nat.mod_eq_of_lt (by omega)]
    congr 1
    omega

lemma ceilVpn_le_userLimit (h : v ≤ userSpaceSize) : ceilVpn v ≤ userLimit := by
  have hv : v < 2 ^ 63 := lt_of_le_of_lt h (by decide)
  rw [ceilVpn_of_le hv]
  unfold userSpaceSize at h
  unfold pageSize
  rw [userLimit_eq]
  omega

/-- A half-open range of page numbers. `VPNRange::new` asserts the order of its ends. -/
structure VPNRange where
  start : ℕ
  stop : ℕ
  le : start ≤ stop
deriving DecidableEq

namespace VPNRange

def new? (l r : ℕ) : Option VPNRange := if h : l ≤ r then some ⟨l, r, h⟩ else none

lemma new?_eq_some {l r : ℕ} {a : VPNRange} : new? l r = some a ↔ a.start = l ∧ a.stop = r := by
  unfold new?
  split_ifs with h
  · rw [Option.some.injEq]
    constructor
    · rintro rfl
      exact ⟨rfl, rfl⟩
    · obtain ⟨s, e, hle⟩ := a
      rintro ⟨rfl, rfl⟩
      rfl
  · obtain ⟨s, e, hle⟩ := a
    constructor
    · simp
    · rintro ⟨rfl, rfl⟩
      exact absurd hle h

instance : Membership ℕ VPNRange where
  mem r v := r.start ≤ v ∧ v < r.stop

instance (r : VPNRange) (v : ℕ) : Decidable (v ∈ r) :=
  inferInstanceAs (Decidable (r.start ≤ v ∧ v < r.stop))

@[grind =] lemma mem_iff {r : VPNRange} {v : ℕ} : v ∈ r ↔ r.start ≤ v ∧ v < r.stop := Iff.rfl

def overlaps (r : VPNRange) (l h : ℕ) : Prop := r.start < h ∧ l < r.stop
deriving Decidable

lemma overlaps_of_mem {r : VPNRange} {l h : ℕ} (hr : v ∈ r) (hl : l ≤ v) (hv : v < h) :
    r.overlaps l h := ⟨lt_of_le_of_lt hr.1 hv, lt_of_le_of_lt hl hr.2⟩

end VPNRange

def vpns (l h : ℕ) : List ℕ := List.range' l (h - l)

@[simp] lemma mem_vpns {l h v : ℕ} : v ∈ vpns l h ↔ l ≤ v ∧ v < h := by
  simp only [vpns, List.mem_range'_1]
  omega

end Ya2yOS.Mm
