import Mathlib.Data.List.Basic
import Ya2yOS.Lib.Transition
import Ya2yOS.Utils.SysErrNo

/-!
# The descriptor table

`fs/fstruct.rs` and `sys_dup3`. An allocation reserves a slot; the descriptor is installed later, under another
acquisition of the lock.
-/

namespace Ya2yOS.Fs

open Lib List

/-- A table entry: the open file description it refers to, and its own close-on-exec flag. -/
structure FileDescriptor where
  description : ℕ
  cloexec : Bool
deriving DecidableEq, Repr

structure FdTable where
  softLimit : ℕ
  hardLimit : ℕ
  files : List (Option FileDescriptor)
  reserved : List Bool
deriving DecidableEq, Repr

def resizeList {α : Type*} (l : List α) (n : ℕ) (a : α) : List α := l.take n ++ replicate (n - l.length) a

namespace FdTable

def grow (t : FdTable) (n : ℕ) : FdTable :=
  { t with files := resizeList t.files n none, reserved := resizeList t.reserved n false }

/-- The search and the growth that `alloc_fd` and `alloc_fd_larger_than` share: the first vacant slot
from `arg` on, or else a new one. -/
def allocFrom (t : FdTable) (arg : ℕ) : Except SysErrNo (ℕ × FdTable) :=
  match ((t.files.zip t.reserved).drop arg).findIdx? fun p => p.1.isNone && !p.2 with
  | some i => .ok (i + arg, { t with reserved := t.reserved.set (i + arg) true })
  | none =>
    if t.softLimit ≤ t.files.length then .error .EMFILE
    else .ok (t.files.length, { t with files := t.files ++ [none], reserved := t.reserved ++ [true] })

def allocFd (t : FdTable) : Except SysErrNo (ℕ × FdTable) := t.allocFrom 0

/-- `alloc_fd_larger_than`; the table may grow although nothing is allocated. -/
def allocFdLargerThan (t : FdTable) (arg : ℕ) : Except SysErrNo ℕ × FdTable :=
  if t.softLimit ≤ arg then (.error .EINVAL, t)
  else
    let t := if t.files.length < arg then t.grow arg else t
    match t.allocFrom arg with
    | .error e => (.error e, t)
    | .ok (fd, t) => (.ok fd, t)

def resize (t : FdTable) (size : ℕ) : Except SysErrNo FdTable :=
  if t.softLimit < size then .error .EMFILE else .ok (t.grow size)

def tryGet (t : FdTable) (fd : ℕ) : Option FileDescriptor := (t.files[fd]?).join

def isReserved (t : FdTable) (fd : ℕ) : Bool := t.reserved.getD fd false

def set (t : FdTable) (fd : ℕ) (file : FileDescriptor) : Except SysErrNo FdTable :=
  if t.softLimit ≤ fd ∧ t.isReserved fd = false then .error .EMFILE
  else
    let t := if t.files.length ≤ fd then t.grow (fd + 1) else t
    .ok { t with files := t.files.set fd (some file), reserved := t.reserved.set fd false }

def take (t : FdTable) (fd : ℕ) : FdTable :=
  { t with files := t.files.set fd none, reserved := t.reserved.set fd false }

def close (t : FdTable) (fd : ℕ) : FdTable := { t with files := t.files.set fd none }

def Aligned (t : FdTable) : Prop := t.files.length = t.reserved.length

def Clear (t : FdTable) (n : ℕ) : Prop :=
  ∀ i < t.files.length, n ≤ i → t.tryGet i = none ∧ t.isReserved i = false

instance (t : FdTable) (n : ℕ) : Decidable (t.Clear n) := Nat.decidableBallLT _ _

/-! ### What the operations do to a slot -/

section Slots

variable {t t' u : FdTable} {fd i n : ℕ} {file : FileDescriptor} {α : Type*}

lemma length_resizeList (l : List α) (n : ℕ) (a : α) : (resizeList l n a).length = n := by
  simp only [resizeList, length_append, length_take, length_replicate]
  omega

lemma getElem?_resizeList (l : List α) (n : ℕ) (a : α) (i : ℕ) :
    (resizeList l n a)[i]? = if i < n then some (l[i]?.getD a) else none := by
  rw [resizeList, getElem?_append, length_take]
  split_ifs with h1 h2 h3
  · rw [getElem?_take_of_lt h2, getElem?_eq_getElem (by omega), Option.getD_some]
  · omega
  · rw [getElem?_replicate, if_pos (by omega), getElem?_eq_none (by omega), Option.getD_none]
  · rw [getElem?_replicate, if_neg (by omega)]

lemma aligned_grow (t : FdTable) (n : ℕ) : (t.grow n).Aligned := by
  unfold Aligned grow
  rw [length_resizeList, length_resizeList]

lemma tryGet_grow : (t.grow n).tryGet i = if i < n then t.tryGet i else none := by
  unfold tryGet grow
  rw [getElem?_resizeList]
  split_ifs
  · cases t.files[i]? <;> rfl
  · rfl

lemma isReserved_grow : (t.grow n).isReserved i = if i < n then t.isReserved i else false := by
  unfold isReserved grow
  rw [getD_eq_getElem?_getD, getElem?_resizeList]
  split_ifs <;> rfl

lemma tryGet_outside (h : t.files.length ≤ i) : t.tryGet i = none := by
  unfold tryGet
  rw [getElem?_eq_none h]
  rfl

lemma isReserved_outside (h : t.reserved.length ≤ i) : t.isReserved i = false := by
  unfold isReserved
  rw [getD_eq_getElem?_getD, getElem?_eq_none h]
  rfl

lemma Aligned.isReserved_outside (ha : t.Aligned) (h : t.files.length ≤ i) : t.isReserved i = false :=
  FdTable.isReserved_outside (ha ▸ h)

lemma Clear.outside (hc : t.Clear n) (ha : t.Aligned) (h : n ≤ i) : t.tryGet i = none ∧ t.isReserved i = false := by
  by_cases hi : i < t.files.length
  · exact hc i hi h
  · exact ⟨tryGet_outside (by omega), ha.isReserved_outside (by omega)⟩

lemma clear_length (t : FdTable) : t.Clear t.files.length := by
  intro i hi hn
  omega

lemma Clear.mono {m : ℕ} (hc : t.Clear m) (h : m ≤ n) : t.Clear n := fun i hi hn => hc i hi (h.trans hn)

lemma tryGet_set (h : fd < t.files.length) (x : Option FileDescriptor) (r : List Bool) :
    FdTable.tryGet { t with files := t.files.set fd x, reserved := r } i = if i = fd then x else t.tryGet i := by
  unfold FdTable.tryGet
  by_cases hi : i = fd
  · subst hi
    rw [getElem?_set_self h, if_pos rfl]
    rfl
  · rw [getElem?_set_ne (Ne.symm hi), if_neg hi]

lemma isReserved_set (h : fd < t.reserved.length) (f : List (Option FileDescriptor)) (b : Bool) :
    FdTable.isReserved { t with files := f, reserved := t.reserved.set fd b } i =
      if i = fd then b else t.isReserved i := by
  unfold FdTable.isReserved
  rw [getD_eq_getElem?_getD, getD_eq_getElem?_getD]
  by_cases hi : i = fd
  · subst hi
    rw [getElem?_set_self h, if_pos rfl]
    rfl
  · rw [getElem?_set_ne (Ne.symm hi), if_neg hi]

structure SameSlots (t t' : FdTable) : Prop where
  aligned : t'.Aligned
  tryGet : ∀ i, t'.tryGet i = t.tryGet i
  isReserved : ∀ i, t'.isReserved i = t.isReserved i

lemma SameSlots.refl (ha : t.Aligned) : SameSlots t t := ⟨ha, fun _ => rfl, fun _ => rfl⟩

lemma Clear.sameSlots_grow (hc : t.Clear n) (ha : t.Aligned) : SameSlots t (t.grow n) := by
  constructor
  · exact aligned_grow t n
  · intro i
    rw [tryGet_grow]
    split_ifs with hi
    · rfl
    · exact (hc.outside ha (by omega)).1.symm
  · intro i
    rw [isReserved_grow]
    split_ifs with hi
    · rfl
    · exact (hc.outside ha (by omega)).2.symm

structure Writes (t : FdTable) (fd : ℕ) (x : Option FileDescriptor) (b : Bool) (t' : FdTable) : Prop where
  aligned : t'.Aligned
  tryGet : ∀ i, t'.tryGet i = if i = fd then x else t.tryGet i
  isReserved : ∀ i, t'.isReserved i = if i = fd then b else t.isReserved i

lemma Writes.sameSlots (h : Writes t fd (t.tryGet fd) (t.isReserved fd) t') : SameSlots t t' := by
  refine ⟨h.aligned, fun i => ?_, fun i => ?_⟩
  · rw [h.tryGet]
    split_ifs with hi
    · rw [hi]
    · rfl
  · rw [h.isReserved]
    split_ifs with hi
    · rw [hi]
    · rfl

/-- What a table is after an allocation: one vacant slot is reserved, and no slot has changed. -/
structure Reserves (t : FdTable) (fd : ℕ) (t' : FdTable) : Prop where
  vacant : t.tryGet fd = none
  free : t.isReserved fd = false
  writes : Writes t fd none true t'

lemma SameSlots.writes {x : Option FileDescriptor} {b : Bool} (h : SameSlots t u)
    (hw : Writes u fd x b t') : Writes t fd x b t' := by
  constructor
  · exact hw.aligned
  · intro i
    rw [hw.tryGet, h.tryGet]
  · intro i
    rw [hw.isReserved, h.isReserved]

lemma SameSlots.reserves (h : SameSlots t u) (hr : Reserves u fd t') : Reserves t fd t' := by
  constructor
  · rw [← h.tryGet]
    exact hr.vacant
  · rw [← h.isReserved]
    exact hr.free
  · exact h.writes hr.writes

lemma writes_set (ha : t.Aligned) (h : fd < t.files.length) (x : Option FileDescriptor) (b : Bool) :
    Writes t fd x b { t with files := t.files.set fd x, reserved := t.reserved.set fd b } := by
  constructor
  · unfold Aligned
    rw [length_set, length_set]
    exact ha
  · exact fun i => tryGet_set h x _
  · exact fun i => isReserved_set (ha ▸ h) _ b

lemma reserves_inside (ha : t.Aligned) (h : fd < t.files.length) (hv : t.tryGet fd = none)
    (hf : t.isReserved fd = false) : Reserves t fd { t with reserved := t.reserved.set fd true } := by
  refine ⟨hv, hf, ?_, ?_, ?_⟩
  · unfold Aligned
    rw [length_set]
    exact ha
  · intro i
    split_ifs with hi
    · rw [hi]
      exact hv
    · rfl
  · exact fun i => isReserved_set (ha ▸ h) _ true

lemma reserves_push (ha : t.Aligned) : Reserves t t.files.length
    { t with files := t.files ++ [none], reserved := t.reserved ++ [true] } := by
  have ha' : t.files.length = t.reserved.length := ha
  refine ⟨tryGet_outside le_rfl, ha.isReserved_outside le_rfl, ?_, ?_, ?_⟩
  · simp [Aligned, ha']
  · intro i
    unfold FdTable.tryGet
    rw [getElem?_append]
    split_ifs with h1 h2 h3
    · omega
    · rfl
    · rw [h3, Nat.sub_self]
      rfl
    · rw [getElem?_eq_none (by simp; omega), getElem?_eq_none (by omega)]
  · intro i
    unfold FdTable.isReserved
    rw [getD_eq_getElem?_getD, getD_eq_getElem?_getD, getElem?_append, ← ha']
    split_ifs with h1 h2 h3
    · omega
    · rfl
    · rw [h3, Nat.sub_self]
      rfl
    · rw [getElem?_eq_none (by simp; omega), getElem?_eq_none (by omega)]

lemma allocFrom_reserves (ha : t.Aligned) {arg : ℕ} (h : t.allocFrom arg = .ok (fd, t')) : Reserves t fd t' := by
  unfold allocFrom at h
  split at h
  · next j hj =>
    obtain ⟨rfl, rfl⟩ := Prod.mk.inj (Except.ok.inj h)
    obtain ⟨hlt, hvac, -⟩ := findIdx?_eq_some_iff_getElem.1 hj
    have hfd : j + arg < t.files.length := by
      simp only [length_drop, length_zip] at hlt
      omega
    simp only [getElem_drop, getElem_zip, Bool.and_eq_true, Bool.not_eq_true',
      Option.isNone_iff_eq_none, Nat.add_comm arg j] at hvac
    apply reserves_inside ha hfd
    · unfold FdTable.tryGet
      rw [getElem?_eq_getElem hfd, hvac.1]
      rfl
    · unfold FdTable.isReserved
      rw [getD_eq_getElem?_getD, getElem?_eq_getElem (ha ▸ hfd)]
      exact hvac.2
  · split_ifs at h with hl
    obtain ⟨rfl, rfl⟩ := Prod.mk.inj (Except.ok.inj h)
    exact reserves_push ha

lemma allocFdLargerThan_cases (ha : t.Aligned) (arg : ℕ) :
    (∃ e, (t.allocFdLargerThan arg).1 = .error e ∧ SameSlots t (t.allocFdLargerThan arg).2) ∨
      ∃ fd, (t.allocFdLargerThan arg).1 = .ok fd ∧ Reserves t fd (t.allocFdLargerThan arg).2 := by
  unfold allocFdLargerThan
  split_ifs with hl hg
  · exact .inl ⟨_, rfl, .refl ha⟩
  · have hgrow := (t.clear_length.mono (n := arg) (by omega)).sameSlots_grow ha
    dsimp only
    split
    · next e he => exact .inl ⟨e, rfl, hgrow⟩
    · next fd t' he => exact .inr ⟨fd, rfl, hgrow.reserves (allocFrom_reserves hgrow.aligned he)⟩
  · dsimp only
    split
    · next e he => exact .inl ⟨e, rfl, .refl ha⟩
    · next fd t' he => exact .inr ⟨fd, rfl, allocFrom_reserves ha he⟩

lemma set_writes (ha : t.Aligned) (h : t.set fd file = .ok t') : Writes t fd (some file) false t' := by
  unfold set at h
  split_ifs at h with h1 h2
  · cases h
    have hgrow := (t.clear_length.mono (n := fd + 1) (by omega)).sameSlots_grow ha
    apply hgrow.writes
    apply writes_set hgrow.aligned
    unfold grow
    rw [length_resizeList]
    omega
  · cases h
    exact writes_set ha (by omega) _ _

lemma set_isReserved (h : t.isReserved fd = true) (file : FileDescriptor) : ∃ t', t.set fd file = .ok t' := by
  unfold set
  rw [if_neg (by simp [h])]
  exact ⟨_, rfl⟩

lemma take_writes (ha : t.Aligned) : Writes t fd none false (t.take fd) := by
  by_cases h : fd < t.files.length
  · exact writes_set ha h none false
  have ha' : t.files.length = t.reserved.length := ha
  have heq : t.take fd = t := by
    unfold take
    rw [set_eq_of_length_le (by omega), set_eq_of_length_le (by omega)]
  rw [heq]
  refine ⟨ha, fun i => ?_, fun i => ?_⟩
  · split_ifs with hi
    · exact tryGet_outside (by omega)
    · rfl
  · split_ifs with hi
    · exact ha.isReserved_outside (by omega)
    · rfl

lemma close_writes (ha : t.Aligned) : Writes t fd none (t.isReserved fd) (t.close fd) := by
  refine ⟨?_, fun i => ?_, fun i => ?_⟩
  · unfold Aligned close
    rw [length_set]
    exact ha
  · by_cases h : fd < t.files.length
    · exact tryGet_set h none _
    unfold close
    rw [set_eq_of_length_le (by omega)]
    split_ifs with hi
    · exact tryGet_outside (show t.files.length ≤ i by omega)
    · rfl
  · split_ifs with hi
    · rw [hi]
      rfl
    · rfl

end Slots

end FdTable

end Ya2yOS.Fs
