import Mathlib.Data.List.Perm.Basic
import Ya2yOS.Lib.Transition

/-!
# The cache of single frames

`mm/frame_alloc/page_cache.rs`. The free list is a stack under a lock; an allocation that finds it empty keeps the
lock while it fetches a batch, page by page, and a release that fills it gives pages back after the lock. The
contiguous allocator is the list of the pages it has, in the order in which it would hand them out.
-/

namespace Ya2yOS.Mm

open Lib List

/-- A refill under way: the size of the batch, and how many pages it still lacks. -/
structure Refill where
  batch : ℕ
  missing : ℕ
deriving DecidableEq

structure FrameSystem where
  freeList : List ℕ
  count : ℕ
  refill : Option Refill
  allocated : List ℕ
  flushing : List ℕ
  backing : List ℕ
  /-- The pages of the other users of the contiguous allocator. -/
  others : List ℕ
  /-- An allocation has failed while a page was there. -/
  missed : Bool

/-- The calls read the configuration once, and `configure` never stores an empty batch. -/
inductive FrameEvent where
  | alloc (refillBatch : ℕ)
  | refill
  | dealloc (ppn highWatermark lowWatermark flushBatch : ℕ)
  | cmaDealloc (ppn : ℕ)
  | others (backing others : List ℕ)

namespace FrameSystem

def initial (pages : List ℕ) : FrameSystem := ⟨[], 0, none, [], [], pages, [], false⟩

def uncount (s : FrameSystem) (n : ℕ) : ℕ := (s.count + (2 ^ 64 - n)) % 2 ^ 64

def take (s : FrameSystem) (p : ℕ) (rest : List ℕ) : FrameSystem :=
  { s with freeList := rest, count := s.uncount 1, allocated := p :: s.allocated, refill := none }

/-- How many pages `dealloc` flushes, once the page is on the list. -/
def flushes (s : FrameSystem) (highWatermark lowWatermark flushBatch : ℕ) : ℕ :=
  if highWatermark ≤ s.count then min flushBatch (s.freeList.length - lowWatermark) else 0

def step (s : FrameSystem) : FrameEvent → Option FrameSystem
  | .alloc n =>
    if s.refill = none ∧ 0 < n then
      match s.freeList with
      | p :: rest => some (s.take p rest)
      | [] => some { s with refill := some ⟨n, n⟩ }
    else none
  | .refill =>
    match s.refill with
    | none => none
    | some ⟨n, k + 1⟩ =>
      match s.backing with
      | p :: rest => some { s with freeList := p :: s.freeList, backing := rest, refill := some ⟨n, k⟩ }
      | [] => some { s with refill := none, missed := s.missed || s.freeList != [] || s.backing != [] }
    | some ⟨n, 0⟩ =>
      match s.freeList with
      | p :: rest => some ({ s with count := (s.count + n) % 2 ^ 64 }.take p rest)
      | [] => some { s with count := (s.count + n) % 2 ^ 64, refill := some ⟨n, n⟩ }
  | .dealloc p high low flush =>
    if s.refill = none ∧ p ∈ s.allocated then
      let s := { s with freeList := p :: s.freeList, count := (s.count + 1) % 2 ^ 64, allocated := s.allocated.erase p }
      let n := s.flushes high low flush
      some { s with
        freeList := s.freeList.drop n
        count := s.uncount n
        flushing := s.freeList.take n ++ s.flushing }
    else none
  | .cmaDealloc p =>
    if p ∈ s.flushing then some { s with flushing := s.flushing.erase p, backing := p :: s.backing } else none
  | .others backing others =>
    if (backing ++ others).Perm (s.backing ++ s.others) then some { s with backing := backing, others := others }
    else none

/-- Every page of the system, where it is. -/
def pages (s : FrameSystem) : List ℕ := s.freeList ++ (s.allocated ++ (s.flushing ++ (s.backing ++ s.others)))

/-- A refill that gets no page has got none before. -/
def WholeBatch (s : FrameSystem) : FrameEvent → Prop
  | .refill => ∀ r ∈ s.refill, s.backing = [] → r.missing = 0 ∨ r.missing = r.batch
  | _ => True

instance (s : FrameSystem) : ∀ e, Decidable (s.WholeBatch e)
  | .refill => inferInstanceAs (Decidable (∀ r ∈ s.refill, s.backing = [] → r.missing = 0 ∨ r.missing = r.batch))
  | .alloc _ | .dealloc .. | .cmaDealloc _ | .others .. => isTrue trivial

variable {s t : FrameSystem} {e : FrameEvent}

/-- Pages move, and none is lost or doubled. -/
lemma pages_step (h : s.step e = some t) : t.pages.Perm s.pages := by
  rw [List.perm_iff_count]
  intro a
  cases e with
  | alloc _ | refill =>
    simp only [FrameSystem.step] at h
    repeat' split at h
    all_goals cases h
    all_goals simp only [pages, take, *, List.count_append, List.count_cons]
    all_goals omega
  | dealloc p high low flush =>
    obtain ⟨hfree, rfl⟩ := of_guard h
    have hp := (List.perm_cons_erase hfree.2).count_eq a
    rw [List.count_cons] at hp
    generalize flushes _ high low flush = n
    have hsplit := congrArg (List.count a) (List.take_append_drop n (p :: s.freeList))
    simp only [pages, List.count_append, List.count_cons] at hsplit ⊢
    omega
  | cmaDealloc p =>
    obtain ⟨hp, rfl⟩ := of_guard h
    have hp := (List.perm_cons_erase hp).count_eq a
    simp only [pages, List.count_append, List.count_cons] at hp ⊢
    omega
  | others backing others =>
    obtain ⟨hp, rfl⟩ := of_guard h
    have hp := hp.count_eq a
    simp only [pages, List.count_append] at hp ⊢
    omega

/-- The count lags behind the list by what the refill under way has fetched. -/
structure Sound (s : FrameSystem) : Prop where
  count : s.count + s.refill.elim 0 (fun r => r.batch - r.missing) = s.freeList.length
  refill : ∀ r ∈ s.refill, s.count = 0 ∧ r.missing ≤ r.batch ∧ 0 < r.batch
  missed : s.missed = false

lemma sound_take {rest : List ℕ} (p : ℕ) (hcount : s.count = rest.length + 1) (hlen : s.count < 2 ^ 64)
    (hm : s.missed = false) : (s.take p rest).Sound := by
  refine ⟨?_, nofun, hm⟩
  simp only [take, uncount, Option.elim_none]
  omega

lemma flushes_le (high low flush : ℕ) : s.flushes high low flush ≤ s.freeList.length := by
  unfold flushes
  split_ifs <;> omega

lemma Sound.step (hs : s.Sound) (hsmall : s.pages.length < 2 ^ 64) (hw : s.WholeBatch e) (h : s.step e = some t) :
    t.Sound := by
  obtain ⟨hcount, hrefill, hmissed⟩ := hs
  have hlen : s.freeList.length + s.allocated.length ≤ s.pages.length := by
    simp only [pages, length_append]
    omega
  cases e with
  | alloc n =>
    simp only [FrameSystem.step] at h
    split_ifs at h with hfree
    simp only [hfree.1, Option.elim_none, Nat.add_zero] at hcount
    split at h
    · next p rest hl =>
      cases h
      rw [hl, length_cons] at hcount
      exact sound_take p hcount (by rw [hl, length_cons] at hlen; omega) hmissed
    · next hl =>
      cases h
      rw [hl] at hcount
      exact ⟨by simpa [hl] using hcount, by simpa [hfree.2] using hcount, hmissed⟩
  | refill =>
    simp only [FrameSystem.step] at h
    cases hr : s.refill with
    | none => simp [hr] at h
    | some r =>
      obtain ⟨n, k⟩ := r
      obtain ⟨hzero, hle, hpos⟩ := hrefill _ hr
      simp only [hr, Option.elim_some, hzero, Nat.zero_add] at h hcount hle hpos
      cases k with
      | zero =>
        dsimp only at h
        split at h
        · next p rest hl =>
          cases h
          rw [hl, length_cons] at hcount hlen
          refine sound_take p ?_ (Nat.mod_lt _ (Nat.two_pow_pos 64)) hmissed
          exact (Nat.mod_eq_of_lt (by omega)).trans hcount
        · next hl =>
          rw [hl, length_nil] at hcount
          omega
      | succ k =>
        dsimp only at h
        split at h
        · cases h
          refine ⟨?_, ?_, hmissed⟩
          · simp only [length_cons, Option.elim_some]
            omega
          · simpa [hzero] using ⟨by omega, hpos⟩
        · next hb =>
          cases h
          have hwhole : k + 1 = n := (hw _ hr hb).resolve_left (by simp)
          have hl : s.freeList = [] := length_eq_zero_iff.1 (by omega)
          exact ⟨by simp [hl], nofun, by simp [hmissed, hl, hb]⟩
  | dealloc p high low flush =>
    obtain ⟨hfree, rfl⟩ := of_guard h
    simp only [hfree.1, Option.elim_none, Nat.add_zero] at hcount
    have hpos := length_pos_of_mem hfree.2
    refine ⟨?_, by simp [hfree.1], hmissed⟩
    have hn := flushes_le (s := { s with
      freeList := p :: s.freeList, count := (s.count + 1) % 2 ^ 64, allocated := s.allocated.erase p }) high low flush
    simp only [uncount, hfree.1, Option.elim_none, length_drop, length_cons] at hn ⊢
    omega
  | cmaDealloc _ | others _ _ =>
    obtain ⟨-, rfl⟩ := of_guard h
    exact ⟨hcount, hrefill, hmissed⟩

/-- The cache keeps its count, every page is in one place, and no allocation fails while a page is there, as long as
no refill stops in the middle of its batch. -/
theorem frameCache_sound {pages : List ℕ} (hn : pages.Nodup) (hl : pages.length < 2 ^ 64)
    (h : Reaches step WholeBatch (initial pages) s) :
    (s.refill = none → s.count = s.freeList.length) ∧ s.pages.Nodup ∧ s.missed = false := by
  have hinv : s.pages.Perm pages ∧ s.Sound := by
    refine h.invariant (I := fun s => s.pages.Perm pages ∧ s.Sound) (fun s e t hs hw he => ?_) ⟨?_, rfl, nofun, rfl⟩
    · exact ⟨(pages_step he).trans hs.1, hs.2.step (hs.1.length_eq ▸ hl) hw he⟩
    · simp [initial, FrameSystem.pages]
  refine ⟨fun hr => ?_, hinv.1.nodup_iff.2 hn, hinv.2.missed⟩
  simpa [hr] using hinv.2.count

def refillRun : List FrameEvent := [.alloc 2, .refill, .refill, .refill, .dealloc 2 2 1 1, .cmaDealloc 2]

theorem frameCache_sound_refill :
    (run step (initial [1, 2, 3]) refillRun).count = 1 ∧ (run step (initial [1, 2, 3]) refillRun).pages.Nodup :=
  have hrun : Admits step WholeBatch (initial [1, 2, 3]) refillRun := by decide
  have h := frameCache_sound (by decide) (by decide) (Reaches.run hrun)
  ⟨h.1 rfl, h.2.1⟩

/-- One page is left and the batch asks for sixteen: the allocation fails, and the page stays on a list that counts
none. -/
theorem frameCache_loses_batch :
    let s := run step (initial [1]) [.alloc 16, .refill, .refill]
    Admits step (fun _ _ => True) (initial [1]) [.alloc 16, .refill, .refill] ∧
      s.refill = none ∧ s.count = 0 ∧ s.freeList = [1] ∧ s.missed = true := by
  decide

/-- Every page stays in one place in every run, also where a refill stops in the middle of its batch: none is lost, and
none is handed out twice. -/
theorem frames_conserved {pages : List ℕ} (hn : pages.Nodup) (h : Reaches step (fun _ _ => True) (initial pages) s) :
    s.pages.Perm pages ∧ s.pages.Nodup := by
  have hperm : s.pages.Perm pages := by
    refine h.invariant (I := fun s => s.pages.Perm pages) (fun _ _ _ hs _ he => (pages_step he).trans hs) ?_
    simp [initial, FrameSystem.pages]
  exact ⟨hperm, hperm.nodup_iff.2 hn⟩

theorem frames_conserved_short :
    let s := run step (initial [1]) [.alloc 16, .refill, .refill]
    s.pages.Perm [1] ∧ s.pages.Nodup :=
  frames_conserved (by decide) (Reaches.run (by decide))

end FrameSystem

end Ya2yOS.Mm
