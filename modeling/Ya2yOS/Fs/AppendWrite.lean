import Ya2yOS.Lib.Transition
import Ya2yOS.Fs.ScatterGather
import Mathlib.Algebra.BigOperators.Group.Finset.Piecewise

/-!
# Writes in append mode

`OSFile::write` locks the open file description, not the file, sets the offset to the size of the file and stores the
slices of the buffer one by one. Each byte is stamped with the call that stored it.
-/

namespace Ya2yOS.Fs

open Function List

/-- `none` for a byte that was there before. -/
abbrev Stamp := Option (ℕ × ℕ)

def stamps (op start n : ℕ) : List Stamp := (range' start n).map fun i => some (op, i)

def overwrite (content : List Stamp) (off : ℕ) (data : List Stamp) : List Stamp :=
  content.take off ++ data ++ content.drop (off + data.length)

/-- Where a task is in a system call `op` on description `d`; a buffer is the list of the lengths of its slices, and
`count` bytes were written by the buffers before. -/
inductive AppendPc where
  | idle
  | between (d op : ℕ) (todo : List (List ℕ)) (count : ℕ)
  | locked (d op : ℕ) (slices : List ℕ) (todo : List (List ℕ)) (count : ℕ)
  | storing (d op : ℕ) (slices : List ℕ) (part : ℕ) (todo : List (List ℕ)) (count : ℕ)

namespace AppendPc

def op : AppendPc → Option ℕ
  | idle => none
  | between _ op _ _ | locked _ op _ _ _ | storing _ op _ _ _ _ => some op

def bytes : AppendPc → ℕ
  | idle => 0
  | between _ _ _ count | locked _ _ _ _ count => count
  | storing _ _ _ part _ count => count + part

def part : AppendPc → ℕ
  | storing _ _ _ part _ _ => part
  | _ => 0

/-- The call has found the end of the file, and what it will store has to follow what it has stored. -/
def Midway : AppendPc → Prop
  | idle => False
  | between _ _ todo count => todo ≠ [] ∧ 0 < count
  | locked _ _ _ _ count => 0 < count
  | storing .. => True

instance decidableMidway : (pc : AppendPc) → Decidable pc.Midway
  | idle => inferInstanceAs (Decidable False)
  | between _ _ todo count => inferInstanceAs (Decidable (todo ≠ [] ∧ 0 < count))
  | locked _ _ _ _ count => inferInstanceAs (Decidable (0 < count))
  | storing .. => inferInstanceAs (Decidable True)

end AppendPc

structure AppendSystem where
  content : List Stamp
  offset : ℕ → ℕ
  holder : ℕ → Option ℕ
  pc : ℕ → AppendPc
  next : ℕ
  stored : ℕ → ℕ
  result : ℕ → Option SyscallRet

inductive AppendEvent where
  | begin (t d : ℕ) (buffers : List (List ℕ))
  | lock (t : ℕ)
  | size (t : ℕ)
  | store (t : ℕ)
  | release (t : ℕ)
  | fail (t : ℕ) (e : SysErrNo)
  | fault (t : ℕ) (e : SysErrNo)
  | finish (t : ℕ)

namespace AppendSystem

def goto (s : AppendSystem) (t : ℕ) (pc : AppendPc) : AppendSystem := { s with pc := update s.pc t pc }

def seek (s : AppendSystem) (t d : ℕ) (pc : AppendPc) : AppendSystem :=
  { s.goto t pc with offset := update s.offset d s.content.length }

def hold (s : AppendSystem) (d : ℕ) (owner : Option ℕ) : AppendSystem :=
  { s with holder := update s.holder d owner }

def close (s : AppendSystem) (t op : ℕ) (ret : SyscallRet) : AppendSystem :=
  { s with pc := update s.pc t .idle, result := update s.result op (some ret) }

def enter (s : AppendSystem) (t d : ℕ) (buffers : List (List ℕ)) : AppendSystem :=
  { s with pc := update s.pc t (.between d s.next buffers 0), next := s.next + 1 }

def putSlice (s : AppendSystem) (d op n bytes : ℕ) : AppendSystem :=
  { s with
    content := overwrite s.content (s.offset d) (stamps op bytes n)
    offset := update s.offset d (s.offset d + n)
    stored := update s.stored op (s.stored op + n) }

def step (s : AppendSystem) : AppendEvent → Option AppendSystem
  | .begin t d buffers =>
    match s.pc t with
    | .idle => some (s.enter t d buffers)
    | _ => none
  | .lock t =>
    match s.pc t with
    | .between d op (slices :: todo) count =>
      if s.holder d = none then some ((s.goto t (.locked d op slices todo count)).hold d (some t)) else none
    | _ => none
  | .size t =>
    match s.pc t with
    | .locked d op slices todo count =>
      some (s.seek t d (.storing d op slices 0 todo count))
    | _ => none
  | .store t =>
    match s.pc t with
    | .storing d op (n :: slices) part todo count =>
      some ((s.goto t (.storing d op slices (part + n) todo count)).putSlice d op n (count + part))
    | _ => none
  | .release t =>
    match s.pc t with
    | .storing d op [] part todo count => some ((s.goto t (.between d op todo (count + part))).hold d none)
    | _ => none
  | .fail t e =>
    match s.pc t with
    | .locked d op _ _ count => some ((s.close t op ((Ending.fault e).finish count)).hold d none)
    | .storing d op (_ :: _) _ _ count => some ((s.close t op ((Ending.fault e).finish count)).hold d none)
    | _ => none
  | .fault t e =>
    match s.pc t with
    | .between _ op (_ :: _) count => some (s.close t op ((Ending.fault e).finish count))
    | _ => none
  | .finish t =>
    match s.pc t with
    | .between _ op [] count => some (s.close t op (.ok count))
    | _ => none

def initial (n : ℕ) : AppendSystem where
  content := replicate n none
  offset _ := 0
  holder _ := none
  pc _ := .idle
  next := 0
  stored _ := 0
  result _ := none

def counted : SyscallRet → ℕ
  | .ok r => r
  | .error _ => 0

lemma counted_fault (count : ℕ) (e : SysErrNo) : counted ((Ending.fault e).finish count) = count := by
  rw [Ending.finish]
  split
  · rfl
  · next h => exact (Nat.eq_zero_of_not_pos h).symm

/-- A call looks for the end of the file only while no other call is midway, and the store of a slice fails only where
no slice of the same buffer is stored yet. -/
def Alone (s : AppendSystem) : AppendEvent → Prop
  | .size t => ∀ u, u ≠ t → ¬(s.pc u).Midway
  | .fail t _ => (s.pc t).part = 0
  | _ => True

/-- What appending promises about a file that had `n` bytes: they are as they were; what a call has stored is there as
one run of bytes, all that it has counted; and with no call in progress the file has grown by what the calls have
returned. -/
structure Appended (n : ℕ) (s : AppendSystem) : Prop where
  kept : replicate n none <+: s.content
  whole : ∀ op, ∃ pre post, s.content = pre ++ stamps op 0 (s.stored op) ++ post
  all : ∀ op ret, s.result op = some ret → s.stored op = counted ret
  size : (∀ t, s.pc t = .idle) →
    s.content.length = n + ∑ op ∈ Finset.range s.next, ((s.result op).map counted).getD 0

/-! ### The invariant -/

@[simp]
lemma length_stamps (op start n : ℕ) : (stamps op start n).length = n := by
  rw [stamps, length_map, length_range']

lemma stamps_add (op start n k : ℕ) : stamps op start (n + k) = stamps op start n ++ stamps op (start + n) k := by
  rw [stamps, stamps, stamps, ← map_append, range'_append_1]

lemma overwrite_end (content data : List Stamp) : overwrite content content.length data = content ++ data := by
  rw [overwrite, take_length, drop_eq_nil_of_le (Nat.le_add_right _ _), append_nil]

lemma sum_update_add {i : ℕ} {is : Finset ℕ} (f : ℕ → ℕ) (k : ℕ) (hi : i ∈ is) :
    ∑ j ∈ is, update f i (f i + k) j = ∑ j ∈ is, f j + k := by
  rw [Finset.sum_update_of_mem hi, Finset.sdiff_singleton_eq_erase, ← Finset.add_sum_erase is f hi]
  omega

/-- While a call is midway it is the only one, what it has stored ends the file, and it stores behind that. -/
structure Tail (n : ℕ) (s : AppendSystem) : Prop where
  kept : replicate n none <+: s.content
  whole : ∀ op, ∃ pre post, s.content = pre ++ stamps op 0 (s.stored op) ++ post
  all : ∀ op ret, s.result op = some ret → s.stored op = counted ret
  owned : ∀ t op, (s.pc t).op = some op → op < s.next ∧ s.result op = none ∧ s.stored op = (s.pc t).bytes
  same : ∀ t u op, (s.pc t).op = some op → (s.pc u).op = some op → t = u
  pending : ∀ op < s.next, s.result op = none → ∃ t, (s.pc t).op = some op
  fresh : ∀ op, s.next ≤ op → s.stored op = 0 ∧ s.result op = none
  alone : ∀ t u, (s.pc t).Midway → (s.pc u).Midway → t = u
  last : ∀ t op, (s.pc t).Midway → (s.pc t).op = some op → ∃ pre, s.content = pre ++ stamps op 0 (s.stored op)
  offset : ∀ t d op slices part todo count, s.pc t = .storing d op slices part todo count →
    s.offset d = s.content.length
  length : s.content.length = n + ∑ op ∈ Finset.range s.next, s.stored op

attribute [grind =] AppendPc.op AppendPc.bytes AppendPc.Midway
attribute [grind →] Tail.all Tail.owned Tail.same Tail.fresh Tail.alone Tail.last Tail.offset

namespace Tail

variable {n count : ℕ} {s : AppendSystem} {t d op : ℕ} {pc : AppendPc} {slices : List ℕ} {todo : List (List ℕ)}

lemma initial (n : ℕ) : Tail n (AppendSystem.initial n) where
  kept := prefix_rfl
  whole _ := ⟨_, [], (append_nil _).symm.trans (append_nil _).symm⟩
  all := nofun
  owned := nofun
  same := nofun
  pending := nofun
  fresh _ _ := ⟨rfl, rfl⟩
  alone _ _ h := h.elim
  last _ _ h := h.elim
  offset := nofun
  length := length_replicate

lemma hold (h : Tail n s) (d : ℕ) (owner : Option ℕ) : Tail n (s.hold d owner) :=
  ⟨h.kept, h.whole, h.all, h.owned, h.same, h.pending, h.fresh, h.alone, h.last, h.offset, h.length⟩

lemma goto (h : Tail n s) (hop : pc.op = (s.pc t).op) (hbytes : pc.bytes = (s.pc t).bytes)
    (hmid : pc.Midway → (s.pc t).Midway)
    (hpc : ∀ d op slices part todo count, pc ≠ .storing d op slices part todo count) : Tail n (s.goto t pc) := by
  have hpcs : ∀ u, (s.goto t pc).pc u = if u = t then pc else s.pc u := fun u => update_apply ..
  refine ⟨h.kept, h.whole, h.all, ?_, ?_, ?_, h.fresh, ?_, ?_, ?_, h.length⟩ <;> simp only [hpcs] <;>
    grind [AppendSystem.goto, h.pending]

lemma seek (h : Tail n s) (hpc : s.pc t = .locked d op slices todo count) (hg : ∀ u, u ≠ t → ¬(s.pc u).Midway) :
    Tail n (s.seek t d (.storing d op slices 0 todo count)) := by
  have hop : (s.pc t).op = some op := by rw [hpc]; rfl
  have hbytes : (s.pc t).bytes = count := by rw [hpc]; rfl
  have hpcs : ∀ u, (s.seek t d (.storing d op slices 0 todo count)).pc u =
      if u = t then .storing d op slices 0 todo count else s.pc u := fun u => update_apply ..
  refine ⟨h.kept, h.whole, h.all, ?_, ?_, ?_, h.fresh, ?_, ?_, ?_, h.length⟩ <;> simp only [hpcs]
  case refine_1 | refine_2 | refine_3 | refine_4 => grind [AppendSystem.seek, AppendSystem.goto, h.pending]
  · -- a call that becomes midway here has stored nothing
    intro u p hu hp
    by_cases hut : u = t
    · rw [if_pos hut, AppendPc.op, Option.some.injEq] at hp
      subst hp
      rcases Nat.eq_zero_or_pos count with hzero | hpos
      · refine ⟨s.content, (List.append_nil _).symm.trans (congrArg _ ?_)⟩
        show [] = stamps op 0 (s.stored op)
        rw [(h.owned t op hop).2.2, hbytes, hzero]
        rfl
      · exact h.last t op (by rw [hpc]; exact hpos) hop
    · rw [if_neg hut] at hu hp
      exact h.last u p hu hp
  · have hoff : (s.seek t d (.storing d op slices 0 todo count)).offset d = s.content.length := update_self ..
    grind [AppendSystem.seek, AppendSystem.goto]

lemma close (h : Tail n s) {ret : SyscallRet} (hop : (s.pc t).op = some op)
    (hret : (s.pc t).bytes = counted ret) : Tail n (s.close t op ret) := by
  have hpcs : ∀ u, (s.close t op ret).pc u = if u = t then .idle else s.pc u := fun u => update_apply ..
  have hres : ∀ p, (s.close t op ret).result p = if p = op then some ret else s.result p := fun p => update_apply ..
  refine ⟨h.kept, h.whole, ?_, ?_, ?_, ?_, ?_, ?_, ?_, ?_, h.length⟩ <;> simp only [hpcs, hres] <;>
    grind [AppendSystem.close, h.pending]

lemma enter (h : Tail n s) (hidle : s.pc t = .idle) (d : ℕ) (buffers : List (List ℕ)) :
    Tail n (s.enter t d buffers) := by
  have hpcs : ∀ u, (s.enter t d buffers).pc u = if u = t then .between d s.next buffers 0 else s.pc u :=
    fun u => update_apply ..
  obtain ⟨hzero, hnone⟩ := h.fresh s.next le_rfl
  have hsum : ∑ op ∈ Finset.range (s.next + 1), s.stored op = ∑ op ∈ Finset.range s.next, s.stored op := by
    rw [Finset.sum_range_succ, hzero, Nat.add_zero]
  refine ⟨h.kept, h.whole, h.all, ?_, ?_, ?_, fun p hp => h.fresh p (Nat.le_of_succ_le hp), ?_, ?_, ?_,
    h.length.trans (congrArg (n + ·) hsum.symm)⟩ <;> simp only [hpcs] <;> grind [AppendSystem.enter, h.pending]

/-- The offset is the end of the file, so a slice is appended. -/
lemma put (h : Tail n s) {k part : ℕ} (hpc : s.pc t = .storing d op (k :: slices) part todo count) :
    Tail n ((s.goto t (.storing d op slices (part + k) todo count)).putSlice d op k (count + part)) := by
  have hop : (s.pc t).op = some op := by rw [hpc]; rfl
  have hmid : (s.pc t).Midway := by rw [hpc]; trivial
  obtain ⟨hlt, hnone, hstored⟩ := h.owned t op hop
  obtain ⟨pre, hpre⟩ := h.last t op hmid hop
  have hbytes : s.stored op = count + part := by rw [hstored, hpc]; rfl
  set s' := (s.goto t (.storing d op slices (part + k) todo count)).putSlice d op k (count + part)
  have hcontent : s'.content = s.content ++ stamps op (s.stored op) k := by
    show overwrite s.content (s.offset d) (stamps op (count + part) k) = _
    rw [h.offset t _ _ _ _ _ _ hpc, overwrite_end, hbytes]
  have hblock : s'.content = pre ++ stamps op 0 (s.stored op + k) := by
    rw [hcontent, stamps_add, Nat.zero_add, ← append_assoc, ← hpre]
  have hpcs : ∀ u, s'.pc u = if u = t then .storing d op slices (part + k) todo count else s.pc u :=
    fun u => update_apply ..
  have hput : ∀ p, s'.stored p = if p = op then s.stored op + k else s.stored p := fun p => update_apply ..
  have hops : ∀ u, (s'.pc u).op = (s.pc u).op := by grind
  have halone : ∀ u, (s'.pc u).Midway → u = t := by grind
  constructor
  case kept =>
    rw [hcontent]
    exact h.kept.trans (prefix_append _ _)
  case whole =>
    intro p
    by_cases hp : p = op
    · exact ⟨pre, [], by rw [hput, if_pos hp, hp, hblock, append_nil]⟩
    · obtain ⟨a, b, hab⟩ := h.whole p
      exact ⟨a, b ++ stamps op (s.stored op) k, by rw [hcontent, hput, if_neg hp, hab]; simp only [append_assoc]⟩
  case all => exact fun p ret (hr : s.result p = some ret) => by grind
  case owned =>
    intro u p hu
    have hold := h.owned u p (hops u ▸ hu)
    exact ⟨hold.1, hold.2.1, by grind⟩
  case same => exact fun u w p hu hw => h.same u w p (hops u ▸ hu) (hops w ▸ hw)
  case pending => exact fun p hp hr => (h.pending p hp hr).imp fun u hu => (hops u).trans hu
  case fresh => exact fun p (hp : s.next ≤ p) => ⟨by grind, (h.fresh p hp).2⟩
  case alone => exact fun u w hu hw => (halone u hu).trans (halone w hw).symm
  case last => grind
  case offset =>
    intro u d' p slices' part' todo' count' hu
    have hoff : s'.offset d = s.offset d + k := update_self ..
    have hold := h.offset t _ _ _ _ _ _ hpc
    obtain rfl := halone u (by rw [hu]; trivial)
    grind [length_stamps]
  case length =>
    rw [hcontent, length_append, length_stamps, h.length, Nat.add_assoc]
    exact congrArg (n + ·) (sum_update_add s.stored k (Finset.mem_range.mpr hlt)).symm

lemma step (h : Tail n s) {e : AppendEvent} {s' : AppendSystem} (hg : s.Alone e) (hstep : s.step e = some s') :
    Tail n s' := by
  cases e with
  | begin t d buffers =>
    simp only [AppendSystem.step] at hstep
    split at hstep <;> cases hstep
    next hpc => exact h.enter hpc d buffers
  | lock t =>
    simp only [AppendSystem.step] at hstep
    split at hstep
    · next d op slices todo count hpc =>
      split_ifs at hstep
      cases hstep
      refine (h.goto (by rw [hpc]; rfl) (by rw [hpc]; rfl)
        (fun hm => ?_) (fun _ _ _ _ _ _ hs => by cases hs)).hold d (some t)
      rw [hpc]
      exact ⟨List.cons_ne_nil _ _, hm⟩
    · cases hstep
  | size t =>
    simp only [AppendSystem.step] at hstep
    split at hstep <;> cases hstep
    next d op slices todo count hpc => exact h.seek hpc hg
  | store t =>
    simp only [AppendSystem.step] at hstep
    split at hstep <;> cases hstep
    next d op k slices part todo count hpc => exact h.put hpc
  | release t =>
    simp only [AppendSystem.step] at hstep
    split at hstep <;> cases hstep
    next d op part todo count hpc =>
    refine (h.goto (by rw [hpc]; rfl) (by rw [hpc]; rfl) (fun _ => ?_) (fun _ _ _ _ _ _ hs => by cases hs)).hold d none
    rw [hpc]
    trivial
  | fail t e =>
    simp only [AppendSystem.step] at hstep
    split at hstep
    · next d op slices todo count hpc =>
      cases hstep
      exact (h.close (by rw [hpc]; rfl) (by rw [hpc, counted_fault]; rfl)).hold d none
    · next d op k slices part todo count hpc =>
      cases hstep
      have hpart : part = 0 := by
        have := hg
        rwa [Alone, hpc] at this
      exact (h.close (by rw [hpc]; rfl) (by rw [hpc, counted_fault, AppendPc.bytes, hpart, Nat.add_zero])).hold d none
    · cases hstep
  | fault t e =>
    simp only [AppendSystem.step] at hstep
    split at hstep <;> cases hstep
    next hpc => exact h.close (by rw [hpc]; rfl) (by rw [hpc, counted_fault]; rfl)
  | finish t =>
    simp only [AppendSystem.step] at hstep
    split at hstep <;> cases hstep
    next hpc => exact h.close (by rw [hpc]; rfl) (by rw [hpc]; rfl)

lemma appended (h : Tail n s) : s.Appended n where
  kept := h.kept
  whole := h.whole
  all := h.all
  size := by
    intro hidle
    rw [h.length]
    refine congrArg (n + ·) (Finset.sum_congr rfl fun op hop => ?_)
    cases hr : s.result op with
    | none =>
      obtain ⟨t, ht⟩ := h.pending op (Finset.mem_range.mp hop) hr
      rw [hidle t] at ht
      cases ht
    | some ret => exact h.all op ret hr

end Tail

/-- Appending keeps its promise along every run in which no call looks for the end of the file while another one is
midway. -/
theorem appends_atomic {n : ℕ} {s : AppendSystem} (h : Lib.Reaches step Alone (initial n) s) : s.Appended n :=
  (h.invariant (fun _ _ _ hs hg he => hs.step hg he) (Tail.initial n)).appended

/-- Two descriptions of a file of one byte: the second call waits with its look for the end. -/
def oneAfterTheOther : List AppendEvent :=
  [.begin 0 0 [[2], [1]], .begin 1 1 [[1]], .lock 0, .lock 1, .size 0, .store 0, .release 0, .lock 0, .size 0, .store 0,
    .release 0, .size 1, .store 1, .release 1, .finish 1, .finish 0]

theorem appends_atomic_two :
    (Lib.run step (initial 1) oneAfterTheOther).Appended 1 ∧ (Lib.run step (initial 1) oneAfterTheOther).content =
        [none, some (0, 0), some (0, 1), some (0, 2), some (1, 0)] := by
  refine ⟨appends_atomic (Lib.Reaches.run ?_), by decide +kernel⟩
  refine ⟨trivial, rfl, trivial, rfl, trivial, rfl, trivial, rfl, fun u hu => ?_, rfl, trivial, rfl, trivial, rfl,
    trivial, rfl, fun u hu => ?_, rfl, trivial, rfl, trivial, rfl, fun u hu => ?_, rfl, trivial, rfl, trivial, rfl,
    trivial, rfl, trivial, rfl, trivial⟩
  all_goals
    rcases u with _ | _ | u
    all_goals first | exact absurd rfl hu | exact id | decide

def bothAtOnce : List AppendEvent :=
  [.begin 0 0 [[1]], .begin 1 1 [[1]], .lock 0, .lock 1, .size 0, .size 1, .store 0, .store 1, .release 0, .release 1,
    .finish 0, .finish 1]

/-- Both calls find the end of the empty file at 0: the byte of the first one is overwritten, and the file has one byte
after two writes that have returned 1. -/
theorem appends_overwrite : ∃ s, Lib.Reaches step (fun _ _ => True) (initial 0) s ∧ (∀ t, s.pc t = .idle) ∧
    s.result 0 = some (.ok 1) ∧ s.result 1 = some (.ok 1) ∧ s.content = [some (1, 0)] ∧ ¬s.Appended 0 := by
  refine ⟨Lib.run step (initial 0) bothAtOnce, Lib.Reaches.run (by decide +kernel), ?_, rfl, rfl, by decide +kernel, ?_⟩
  · intro t
    rcases t with _ | _ | t
    all_goals rfl
  intro h
  -- the file would have 2 bytes
  have hsize := h.size fun t => by
    rcases t with _ | _ | t
    all_goals rfl
  exact absurd hsize (by decide +kernel)

end AppendSystem

end Ya2yOS.Fs
