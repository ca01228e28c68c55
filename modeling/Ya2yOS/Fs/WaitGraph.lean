import Ya2yOS.Fs.PosixLock
import Ya2yOS.Lib.DepthFirst
import Ya2yOS.Lib.OrdMap

/-!
# The wait graph of record locks

`POSIX_LOCK_WAITS` records for each owner the owners it waits for. A blocking request looks for a path back to
itself first.
-/

namespace Ya2yOS.Fs

open Lib (OrdMap search reaches_of_search not_reaches_of_search search_isSome)

abbrev WaitGraph := OrdMap ℤ (List ℤ)

def conflictingOwnersLocked (entry : List PosixLock) (new : PosixLock) : List ℤ :=
  entry.foldl (fun owners a =>
    if a.pid ≠ new.pid ∧ a.conflicts new = true ∧ a.pid ∉ owners then owners ++ [a.pid] else owners) []

lemma mem_conflictingOwnersLocked {entry : List PosixLock} {new : PosixLock} {q : ℤ} :
    q ∈ conflictingOwnersLocked entry new ↔ ∃ a ∈ entry, a.pid = q ∧ a.pid ≠ new.pid ∧ a.conflicts new = true := by
  have hfold : ∀ owners : List ℤ, q ∈ entry.foldl (fun owners a =>
      if a.pid ≠ new.pid ∧ a.conflicts new = true ∧ a.pid ∉ owners then owners ++ [a.pid] else owners) owners ↔
      q ∈ owners ∨ ∃ a ∈ entry, a.pid = q ∧ a.pid ≠ new.pid ∧ a.conflicts new = true := by
    induction entry with
    | nil => simp
    | cons a entry ih =>
      intro owners
      rw [List.foldl_cons, ih, List.exists_mem_cons_iff]
      split_ifs with h
      · rw [List.mem_append, List.mem_singleton, or_assoc]
        constructor
        · rintro (hq | hq | hq)
          · exact .inl hq
          · exact .inr (.inl ⟨hq.symm, h.1, h.2.1⟩)
          · exact .inr (.inr hq)
        · rintro (hq | hq | hq)
          · exact .inl hq
          · exact .inr (.inl hq.1.symm)
          · exact .inr (.inr hq)
      · constructor
        · rintro (hq | hq)
          · exact .inl hq
          · exact .inr (.inr hq)
        rintro (hq | ⟨rfl, hne, hc⟩ | hq)
        · exact .inl hq
        · by_contra hno
          exact h ⟨hne, hc, fun hm => hno (.inl hm)⟩
        · exact .inr hq
  unfold conflictingOwnersLocked
  rw [hfold]
  simp

namespace WaitGraph

def next (g : WaitGraph) (p : ℤ) : List ℤ := (g.get? p).getD []

def waitPathReaches (g : WaitGraph) (current target : ℤ) : Option (Bool × List ℤ) :=
  search g.next target (g.entries.length + 1) current []

/-- `would_deadlock`; `none` where a search does not end. -/
def wouldDeadlock (g : WaitGraph) (owner : ℤ) : List ℤ → Option Bool
  | [] => some false
  | p :: rest =>
    match g.waitPathReaches p owner with
    | none => none
    | some (true, _) => some true
    | some (false, _) => g.wouldDeadlock owner rest

def recordWait (g : WaitGraph) (owner : ℤ) (waitingFor : List ℤ) : WaitGraph :=
  if waitingFor.isEmpty then g.erase owner else g.insert owner waitingFor

def clearWait (g : WaitGraph) (owner : ℤ) : WaitGraph := g.erase owner

def Edge (g : WaitGraph) (p q : ℤ) : Prop := q ∈ g.next p

lemma next_recordWait (g : WaitGraph) (owner : ℤ) (waitingFor : List ℤ) (p : ℤ) :
    (g.recordWait owner waitingFor).next p = if p = owner then waitingFor else g.next p := by
  unfold recordWait next
  split_ifs with hempty hp hp
  · rw [OrdMap.get?_erase, if_pos hp, List.isEmpty_iff.1 hempty]
    rfl
  · rw [OrdMap.get?_erase, if_neg hp]
  · rw [OrdMap.get?_insert, if_pos hp]
    rfl
  · rw [OrdMap.get?_insert, if_neg hp]

lemma next_clearWait (g : WaitGraph) (owner p : ℤ) :
    (g.clearWait owner).next p = if p = owner then [] else g.next p := by
  unfold clearWait next
  rw [OrdMap.get?_erase]
  split_ifs <;> rfl

/-- The search ends: it never goes deeper than there are owners with recorded waits. -/
lemma waitPathReaches_isSome (g : WaitGraph) (current target : ℤ) :
    (g.waitPathReaches current target).isSome = true := by
  apply search_isSome g.keys
  · intro a ha
    have hnone : g.get? a = none := by
      rw [OrdMap.get?_eq_none]
      intro v hv
      exact ha (OrdMap.mem_keys.2 ⟨v, hv⟩)
    unfold next
    rw [hnone]
    rfl
  · refine lt_of_le_of_lt (List.length_filter_le _ _) ?_
    unfold OrdMap.keys
    rw [List.length_map]
    exact Nat.lt_succ_self _

lemma wouldDeadlock_spec (g : WaitGraph) (owner : ℤ) (waitingFor : List ℤ) :
    ∃ b, g.wouldDeadlock owner waitingFor = some b ∧
      (b = true ↔ ∃ p ∈ waitingFor, Relation.ReflTransGen g.Edge p owner) := by
  induction waitingFor with
  | nil => exact ⟨false, rfl, by simp⟩
  | cons p rest ih =>
    obtain ⟨⟨found, visited⟩, hsearch⟩ := Option.isSome_iff_exists.1 (g.waitPathReaches_isSome p owner)
    unfold wouldDeadlock
    rw [hsearch]
    cases found with
    | true => exact ⟨true, rfl, by simpa using .inl (reaches_of_search hsearch)⟩
    | false =>
      obtain ⟨b, hb, hiff⟩ := ih
      refine ⟨b, hb, hiff.trans ?_⟩
      have hno : ¬Relation.ReflTransGen g.Edge p owner := not_reaches_of_search hsearch
      simp [hno]

/-- The test for a deadlock ends on every graph, and finds one exactly when the owner of the request is reached from
the owner of a lock in its way. -/
theorem wouldDeadlock_iff_reaches (g : WaitGraph) (t : LockTable) (path : String) (new : PosixLock) :
    ∃ b, g.wouldDeadlock new.pid (conflictingOwnersLocked (t.locks path) new) = some b ∧
      (b = true ↔ ∃ a ∈ t.locks path, (a.pid ≠ new.pid ∧ a.conflicts new = true) ∧
        Relation.ReflTransGen g.Edge a.pid new.pid) := by
  obtain ⟨b, hb, hiff⟩ := g.wouldDeadlock_spec new.pid (conflictingOwnersLocked (t.locks path) new)
  refine ⟨b, hb, hiff.trans ?_⟩
  constructor
  · rintro ⟨p, hp, hreach⟩
    obtain ⟨a, ha, rfl, hconflict⟩ := mem_conflictingOwnersLocked.1 hp
    exact ⟨a, ha, hconflict, hreach⟩
  · rintro ⟨a, ha, hconflict, hreach⟩
    exact ⟨a.pid, mem_conflictingOwnersLocked.2 ⟨a, ha, rfl, hconflict⟩, hreach⟩

def Acyclic (g : WaitGraph) : Prop := ∀ p, ¬Relation.TransGen g.Edge p p

lemma acyclic_empty : Acyclic OrdMap.empty := by
  intro p h
  obtain ⟨q, hq, -⟩ := Relation.TransGen.head'_iff.1 h
  exact List.not_mem_nil hq

variable {g : WaitGraph} {owner : ℤ} {waitingFor : List ℤ}

lemma Acyclic.mono {g' : WaitGraph} (h : g.Acyclic) (hle : ∀ p q, g'.Edge p q → g.Edge p q) : g'.Acyclic :=
  fun p hp => h p (Relation.TransGen.lift id hle _ _ hp)

lemma edge_of_clearWait {p q : ℤ} (h : (g.clearWait owner).Edge p q) : g.Edge p q := by
  unfold Edge at *
  rw [next_clearWait] at h
  split_ifs at h
  · exact absurd h List.not_mem_nil
  · exact h

/-- A path to the owner does not use the edges of the owner. -/
lemma reaches_owner {a : ℤ} (h : Relation.ReflTransGen (g.recordWait owner waitingFor).Edge a owner) :
    Relation.ReflTransGen g.Edge a owner := by
  induction h using Relation.ReflTransGen.head_induction_on with
  | refl => exact .refl
  | @head b c hstep _ ih =>
    by_cases hb : b = owner
    · rw [hb]
    · unfold Edge at hstep
      rw [next_recordWait, if_neg hb] at hstep
      exact .head hstep ih

/-- Recording edges to owners from which the new owner cannot be reached makes no cycle. -/
lemma Acyclic.recordWait (h : g.Acyclic)
    (hno : ∀ p ∈ waitingFor, ¬Relation.ReflTransGen g.Edge p owner) : (g.recordWait owner waitingFor).Acyclic := by
  -- a path in the new graph is one of the old graph, or goes through the owner and one of its edges
  have hsplit : ∀ x y, Relation.TransGen (g.recordWait owner waitingFor).Edge x y →
      Relation.TransGen g.Edge x y ∨ Relation.ReflTransGen (g.recordWait owner waitingFor).Edge x owner ∧
        ∃ p ∈ waitingFor, Relation.ReflTransGen (g.recordWait owner waitingFor).Edge p y := by
    intro x y hxy
    induction hxy with
    | @single b hstep =>
      by_cases hx : x = owner
      · subst hx
        unfold Edge at hstep
        rw [next_recordWait, if_pos rfl] at hstep
        exact .inr ⟨.refl, b, hstep, .refl⟩
      · unfold Edge at hstep
        rw [next_recordWait, if_neg hx] at hstep
        exact .inl (.single hstep)
    | @tail b c hpath hstep ih =>
      by_cases hb : b = owner
      · subst hb
        have hedge := hstep
        unfold Edge at hedge
        rw [next_recordWait, if_pos rfl] at hedge
        exact .inr ⟨hpath.to_reflTransGen, c, hedge, .refl⟩
      · rcases ih with hold | ⟨hreach, p, hp, hpb⟩
        · unfold Edge at hstep
          rw [next_recordWait, if_neg hb] at hstep
          exact .inl (hold.tail hstep)
        · exact .inr ⟨hreach, p, hp, hpb.tail hstep⟩
  intro x hx
  rcases hsplit x x hx with hold | ⟨hreach, p, hp, hpx⟩
  · exact h x hold
  · exact hno p hp (reaches_owner (hpx.trans hreach))

end WaitGraph

end Ya2yOS.Fs
