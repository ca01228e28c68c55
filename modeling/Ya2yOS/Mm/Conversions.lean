import Ya2yOS.Lib.Logged
import Ya2yOS.Mm.AreaOps

/-!
# The words that the memory calls convert to addresses

`VirtAddr::from` asserts that a word is canonical. The memory calls are written with a log of the words they convert,
and what they return is the result of that computation.
-/

namespace Ya2yOS.Mm

open Lib Option
open Logged (lift result_bind result_ite result_pure result_lift)

/-- A call with the log of the words it converts. -/
abbrev Conv (α : Type) := Logged ℕ α

/-- `VirtAddr::from`, which panics on a word that is not canonical. -/
def toVirtAddr (v : ℕ) : Conv ℕ := .ask v (virtAddr v)

namespace Conv

/-- No conversion fails. -/
abbrev Canonical {α : Type} (x : Conv α) : Prop := x.Safe (canonical · = true)

@[simp] lemma result_toVirtAddr (v : ℕ) : (toVirtAddr v).result = virtAddr v := rfl

variable {hint v : ℕ} {α : Type}

lemma result_toVirtAddr_bind {f : ℕ → Conv α} {a : α} :
    (toVirtAddr v >>= f).result = some a ↔ canonical v = true ∧ (f v).result = some a := by
  rw [result_bind, result_toVirtAddr, bind_eq_some_iff]
  simp [virtAddr_eq_some, and_assoc]

@[simp] lemma canonical_pure (a : α) : Canonical (pure a : Conv α) := Logged.safe_pure a

@[simp] lemma canonical_lift (o : Option α) : Canonical (lift o : Conv α) := Logged.safe_lift o

@[simp] lemma canonical_ite (c : Prop) [Decidable c] (x y : Conv α) :
    Canonical (if c then x else y) ↔ (c → Canonical x) ∧ (¬ c → Canonical y) := by
  split_ifs <;> simp [*]

lemma canonical_bind {γ : Type} (x : Conv α) (f : α → Conv γ) :
    Canonical (x >>= f) ↔ Canonical x ∧ ∀ a, x.result = some a → Canonical (f a) := Logged.safe_bind x f

lemma canonical_check (c : Prop) [Decidable c] (a : α) (x : Conv α) :
    Canonical (if c then pure a else x) ↔ c ∨ Canonical x := by
  simp [or_iff_not_imp_left]

@[simp] lemma canonical_toVirtAddr (v : ℕ) : Canonical (toVirtAddr v) ↔ canonical v = true := Logged.safe_ask v _

@[simp] lemma canonical_toVirtAddr_bind (v : ℕ) (f : ℕ → Conv α) :
    Canonical (toVirtAddr v >>= f) ↔ canonical v = true ∧ Canonical (f v) := by
  rw [canonical_bind, canonical_toVirtAddr]
  refine and_congr_right fun hv => ?_
  simp [virtAddr, hv]

@[simp] lemma canonical_bind_pure {γ : Type} (x : Conv α) (f : α → γ) :
    Canonical (x >>= fun a => pure (f a)) ↔ Canonical x := by
  simp [canonical_bind]

/-! ### The search for room -/

def findInsertAddr (s : MemorySetInner) (hint size : ℕ) : Conv ℕ :=
  match checkedAdd size (pageSize - 1) with
  | none => pure 0
  | some sum =>
    if sum / pageSize = 0 then pure 0
    else do
      let _ ← toVirtAddr hint
      return s.findInsertAddr hint size

def findMmapAddr (s : MemorySetInner) (size : ℕ) : Conv (ℕ × MemorySetInner) := do
  let hint := min (max s.mmapHint pageSize) mmapTop
  let addr ← findInsertAddr s hint size
  let addr ← if addr = 0 ∧ hint ≠ mmapTop then findInsertAddr s mmapTop size else pure addr
  return (addr, if addr = 0 then s else { s with mmapHint := addr })

def tryMmapHint (s : MemorySetInner) (hint size : ℕ) : Conv (Option (ℕ × MemorySetInner)) :=
  let start := hint / pageSize * pageSize
  if hint = 0 ∨ start = 0 ∨ mmapTop < start + size then pure none
  else do
    let first ← toVirtAddr start
    let last ← toVirtAddr (start + size)
    if s.areas.any (fun a => a.overlaps (floorVpn first) (ceilVpn last)) then return none
    else return some (start, { s with mmapHint := start })

def alignedCandidate (s : MemorySetInner) (size align searchHint : ℕ) : Conv (Option ℕ) := do
  let _ ← findInsertAddr s searchHint (size + (align - 1))
  return s.alignedCandidate size align searchHint

def findMmapAddrAligned (s : MemorySetInner) (size align : ℕ) : Conv (ℕ × MemorySetInner) :=
  if ¬ align.isPowerOfTwo ∨ wordSize ≤ size + (align - 1) then pure (0, s)
  else do
    match ← alignedCandidate s size align (min (max s.mmapHint pageSize) mmapTop) with
    | some addr => return (addr, { s with mmapHint := addr })
    | none =>
      match ← alignedCandidate s size align mmapTop with
      | some addr => return (addr, { s with mmapHint := addr })
      | none => return (0, s)

/-- The hint if it is free, or else a place that is found. -/
def freePlace (s : MemorySetInner) (addr len : ℕ) : Conv (ℕ × MemorySetInner) := do
  match ← tryMmapHint s addr len with
  | some r => return r
  | none => findMmapAddr s len

variable (s : MemorySetInner)

/-- The computation returns `a`, and no conversion on the way fails. -/
def Yields (x : Conv α) (a : α) : Prop := x.result = some a ∧ Canonical x

lemma Yields.bind {γ : Type} {x : Conv α} {f : α → Conv γ} {a : α} {c : γ} (hx : Yields x a) (hf : Yields (f a) c) :
    Yields (x >>= f) c := by
  refine ⟨?_, (canonical_bind x f).2 ⟨hx.2, fun b hb => ?_⟩⟩
  · rw [result_bind, hx.1]
    exact hf.1
  · cases hx.1.symm.trans hb
    exact hf.2

lemma yields_pure (a : α) : Yields (pure a) a := ⟨rfl, canonical_pure a⟩

lemma yields_toVirtAddr (h : canonical v = true) : Yields (toVirtAddr v) v :=
  ⟨virtAddr_eq_some.2 ⟨rfl, h⟩, (canonical_toVirtAddr v).2 h⟩

lemma findInsertAddr_yields (h : canonical hint = true) (size : ℕ) :
    Yields (findInsertAddr s hint size) (s.findInsertAddr hint size) := by
  unfold findInsertAddr
  cases hs : checkedAdd size (pageSize - 1) with
  | none =>
    have h0 : s.findInsertAddr hint size = 0 := by
      unfold MemorySetInner.findInsertAddr
      rw [hs]
    rw [h0]
    exact yields_pure 0
  | some sum =>
    dsimp only
    by_cases hp : sum / pageSize = 0
    · have h0 : s.findInsertAddr hint size = 0 := by
        unfold MemorySetInner.findInsertAddr
        rw [hs]
        exact if_pos hp
      rw [if_pos hp, h0]
      exact yields_pure 0
    · rw [if_neg hp]
      exact (yields_toVirtAddr h).bind (yields_pure _)

lemma canonical_of_le_userSpaceSize (h : v ≤ userSpaceSize) : canonical v = true :=
  canonical_of_lt (lt_of_le_of_lt h (by decide))

lemma canonical_hint : canonical (min (max s.mmapHint pageSize) mmapTop) = true :=
  canonical_of_lt (lt_of_le_of_lt (min_le_right _ _) (by decide))

lemma canonical_mmapTop : canonical mmapTop = true := by decide

lemma findMmapAddr_yields (size : ℕ) : Yields (findMmapAddr s size) (s.findMmapAddr size) := by
  unfold findMmapAddr MemorySetInner.findMmapAddr
  refine (findInsertAddr_yields s (canonical_hint s) size).bind ?_
  dsimp only
  generalize s.findInsertAddr (min (max s.mmapHint pageSize) mmapTop) size = addr
  by_cases hc : addr = 0 ∧ min (max s.mmapHint pageSize) mmapTop ≠ mmapTop
  · rw [if_pos hc, if_pos hc]
    exact (findInsertAddr_yields s canonical_mmapTop size).bind (yields_pure _)
  · rw [if_neg hc, if_neg hc]
    exact (yields_pure addr).bind (yields_pure _)

lemma tryMmapHint_yields (hint size : ℕ) : Yields (tryMmapHint s hint size) (s.tryMmapHint hint size) := by
  unfold tryMmapHint MemorySetInner.tryMmapHint
  dsimp only
  by_cases h : hint = 0 ∨ hint / pageSize * pageSize = 0 ∨ mmapTop < hint / pageSize * pageSize + size
  · rw [if_pos h, if_pos (by tauto)]
    exact yields_pure none
  have hle : hint / pageSize * pageSize + size ≤ mmapTop := by
    by_contra hlt
    exact h (.inr (.inr (by omega)))
  have htop : mmapTop < 2 ^ 39 := by decide
  rw [if_neg h]
  refine (yields_toVirtAddr (canonical_of_lt (by omega))).bind ?_
  refine (yields_toVirtAddr (canonical_of_lt (by omega))).bind ?_
  split_ifs with h1 h2 h2
  · exact yields_pure none
  · tauto
  · tauto
  · exact yields_pure _

lemma alignedCandidate_yields (size align : ℕ) (h : canonical hint = true) :
    Yields (alignedCandidate s size align hint) (s.alignedCandidate size align hint) :=
  (findInsertAddr_yields s h _).bind (yields_pure _)

lemma findMmapAddrAligned_yields (size align : ℕ) :
    Yields (findMmapAddrAligned s size align) (s.findMmapAddrAligned size align) := by
  unfold findMmapAddrAligned MemorySetInner.findMmapAddrAligned
  split_ifs
  · exact yields_pure _
  refine (alignedCandidate_yields s size align (canonical_hint s)).bind ?_
  dsimp only
  cases s.alignedCandidate size align (min (max s.mmapHint pageSize) mmapTop) with
  | some addr => exact yields_pure _
  | none =>
    refine (alignedCandidate_yields s size align canonical_mmapTop).bind ?_
    cases s.alignedCandidate size align mmapTop <;> exact yields_pure _

lemma freePlace_yields (addr len : ℕ) :
    Yields (freePlace s addr len) ((s.tryMmapHint addr len).getD (s.findMmapAddr len)) := by
  refine (tryMmapHint_yields s addr len).bind ?_
  cases s.tryMmapHint addr len with
  | none => exact findMmapAddr_yields s len
  | some r => exact yields_pure r

end Conv

end Ya2yOS.Mm
