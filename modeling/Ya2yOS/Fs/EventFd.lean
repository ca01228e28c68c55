import Ya2yOS.Task.PollIo

/-!
# Event counters

`fs/files/events.rs`: reads and writes of one `eventfd` by any number of tasks, which wait with `poll_io`.
-/

namespace Ya2yOS.Fs

open Lib
open Ya2yOS.Task (PollClient PollState PollPc PollEvent)

def u64Max : ℕ := 2 ^ 64 - 1

inductive EventFdOp where
  | read
  | write (val : ℕ)
deriving DecidableEq, Repr

inductive EventFdSet where
  | pollRx
  | pollTx
deriving DecidableEq, Repr

/-- `written` and `returned` add up what the writes have added and what the reads have returned. -/
structure EventFd where
  counter : ℕ
  semaphore : Bool
  written : ℕ
  returned : ℕ

inductive EventFdPlace where
  | idle
  | poll (q : EventFdOp)
  | retry (q : EventFdOp)
deriving DecidableEq, Repr

inductive EventFdAction where
  | call (q : EventFdOp)
  | attempt (nonBlocking : Bool)
  | interrupt

def EventFdOp.register : EventFdOp → EventFdSet
  | read => .pollRx
  | write _ => .pollTx

def EventFdOp.wake : EventFdOp → EventFdSet
  | read => .pollTx
  | write _ => .pollRx

namespace EventFd

/-- A read returns the count that it has found, in both modes. -/
def attempt (f : EventFd) : EventFdOp → Option EventFd
  | .read =>
    if 0 < f.counter then
      let dec := if f.semaphore then 1 else f.counter
      some { f with counter := f.counter - dec, returned := f.returned + f.counter }
    else none
  | .write val =>
    if val < u64Max - f.counter then some { f with counter := f.counter + val, written := f.written + val } else none

def act (f : EventFd) : EventFdPlace → EventFdAction → Option (EventFd × PollPc EventFdOp EventFdSet EventFdPlace)
  | .idle, .call q => some (f, if q = .write u64Max then .client .idle else .enter q)
  | .poll q, .attempt nonBlocking =>
    match f.attempt q with
    | some f' => some (f', .wake [q.wake] .idle)
    | none => some (f, if nonBlocking then .client .idle else .register q [q.register])
  | .retry q, .attempt _ =>
    match f.attempt q with
    | some f' => some (f', .wake [q.wake] .idle)
    | none => some (f, .park q)
  | .poll _, .interrupt => some (f, .client .idle)
  | _, _ => none

def client : PollClient EventFd EventFdOp EventFdSet EventFdPlace EventFdAction where
  sets q := [q.register]
  polling := .poll
  retrying := .retry
  second
    | .retry q => some q
    | _ => none
  act f _ := f.act

def Ready (f : EventFd) : EventFdOp → Prop
  | .read => 0 < f.counter
  | .write val => val < u64Max - f.counter

abbrev System := PollState EventFd EventFdOp EventFdSet EventFdPlace

def step : System → PollEvent EventFdAction → Option System := PollState.step client

def initial (initval : ℕ) (semaphore : Bool) : System :=
  ⟨⟨initval, semaphore, 0, 0⟩, fun _ => [], .initial, fun _ => .client .idle⟩

/-- A read in semaphore mode finds no more than one. -/
def Single (s : System) : PollEvent EventFdAction → Prop
  | .act t (.attempt _) =>
    s.pc t = .client (.poll .read) ∨ s.pc t = .client (.retry .read) → s.res.semaphore = true → s.res.counter ≤ 1
  | _ => True

def Quiet (s : System) : Prop :=
  (∀ t rest k, s.pc t ≠ .wake rest k) ∧ ∀ t, s.sleepers.deliveries t = []

structure Kept (initval : ℕ) (f : EventFd) : Prop where
  sum : initval + f.written = f.counter + f.returned
  bound : f.counter < u64Max

variable {f f' : EventFd} {q q' : EventFdOp} {s s' : System} {e : PollEvent EventFdAction} {t initval : ℕ}
  {k : EventFdPlace} {a : EventFdAction} {pc : PollPc EventFdOp EventFdSet EventFdPlace}

lemma attempt_eq_none : f.attempt q = none ↔ ¬f.Ready q := by
  cases q <;> simp [attempt, Ready]

/-- Only the other side can become ready, and it is woken. -/
lemma ready_attempt (h : f.attempt q = some f') (hr : f'.Ready q') : f.Ready q' ∨ q.wake = q'.register := by
  cases q <;> simp only [attempt] at h <;> split_ifs at h <;> cases h <;> cases q' <;>
    simp only [Ready, EventFdOp.wake, EventFdOp.register] at hr ⊢ <;> grind

lemma honest_act (h : f.act k a = some (f', pc)) : PollState.Honest client Ready f f' k pc := by
  have hattempt : ∀ {q}, f.attempt q = some f' → PollState.Honest client Ready f f' k (.wake [q.wake] .idle) := by
    intro q hq
    refine ⟨fun q' hr => ?_, nofun, nofun, nofun, by rintro _ _ ⟨⟩; rfl⟩
    refine (ready_attempt hq hr).imp_right fun heq => ⟨_, _, rfl, q.wake, List.mem_singleton_self _, ?_⟩
    exact List.mem_singleton.2 heq
  have hidle : PollState.Honest client Ready f f k (.client .idle) :=
    ⟨fun _ => .inl, nofun, by rintro _ _ ⟨⟩ ⟨⟩, nofun, nofun⟩
  cases k with
  | idle =>
    cases a <;> cases h
    split_ifs
    · exact hidle
    · exact ⟨fun _ => .inl, nofun, nofun, nofun, nofun⟩
  | poll q =>
    cases a with
    | call q' => cases h
    | interrupt =>
      cases h
      exact hidle
    | attempt nonBlocking =>
      simp only [act] at h
      split at h <;> cases h
      · next hq => exact hattempt hq
      · split_ifs
        · exact hidle
        · exact ⟨fun _ => .inl, nofun, nofun, by rintro _ _ ⟨⟩; rfl, nofun⟩
  | retry q =>
    cases a with
    | call q' | interrupt => cases h
    | attempt nonBlocking =>
      simp only [act] at h
      split at h <;> cases h
      · next hq => exact hattempt hq
      · next hq =>
        refine ⟨fun _ => .inl, ?_, nofun, nofun, nofun⟩
        rintro _ ⟨⟩
        exact ⟨rfl, attempt_eq_none.1 hq⟩

lemma act_res (h : f.act k a = some (f', pc)) : f' = f ∨
    ∃ q nonBlocking, a = .attempt nonBlocking ∧ (k = .poll q ∨ k = .retry q) ∧ f.attempt q = some f' := by
  cases k <;> cases a <;> grind [act]

lemma Kept.attempt (h : f.Kept initval) (hs : q = .read → f.semaphore = true → f.counter ≤ 1)
    (hq : f.attempt q = some f') : f'.Kept initval := by
  obtain ⟨hsum, hbound⟩ := h
  cases q <;> simp only [EventFd.attempt] at hq <;> split_ifs at hq <;> cases hq <;> constructor <;> grind

lemma res_advance (h : s.advance client t pc = some s') : s'.res = s.res := by
  cases pc with
  | register q sets | wake sets k => cases sets <;> cases h <;> rfl
  | _ => cases h <;> rfl

lemma Kept.step (h : s.res.Kept initval) (hg : Single s e) (he : EventFd.step s e = some s') : s'.res.Kept initval := by
  cases e with
  | act t a =>
    simp only [EventFd.step, PollState.step] at he
    split at he
    · next k hpc =>
      split_ifs at he
      obtain ⟨⟨f, pc⟩, hact, rfl⟩ := Option.map_eq_some_iff.1 he
      rcases act_res hact with rfl | ⟨q, nonBlocking, rfl, hk, hq⟩
      · exact h
      · refine h.attempt (fun hread => hg ?_) hq
        rw [hpc, ← hread]
        exact hk.imp (congrArg _) (congrArg _)
    · cases he
  | run t =>
    simp only [EventFd.step, PollState.step] at he
    split_ifs at he
    rwa [res_advance he]
  | deliver t =>
    obtain ⟨sl, -, rfl⟩ := Option.map_eq_some_iff.1 he
    exact h
  | rouse t =>
    cases he
    exact h

/-- Where reads in semaphore mode find no more than one, the counter and what was read add up to what was written, the
counter stays below its limit, and while no step is in flight a parked task waits for what has not happened. -/
theorem eventfd_conserves {semaphore : Bool} (hinit : initval < u64Max)
    (h : Reaches step Single (initial initval semaphore) s) :
    initval + s.res.written = s.res.counter + s.res.returned ∧ s.res.counter ≤ 2 ^ 64 - 2 ∧
      (Quiet s → s.sleepers.blocked t = true → ∃ q, s.pc t = .client (.poll q) ∧ ¬s.res.Ready q) := by
  have hs := h.invariant (I := fun s => s.res.Kept initval ∧ s.Sound client Ready)
    (fun s e s' hs hg he => ⟨hs.1.step hg he, hs.2.step (fun _ => rfl) (fun _ => rfl)
      (fun t k a r pc _ _ hact => honest_act hact) he⟩)
    ⟨⟨rfl, hinit⟩, ⟨fun _ => ⟨nofun, nofun⟩, nofun⟩⟩
  refine ⟨hs.1.sum, ?_, fun hquiet ht => hs.2.not_ready hquiet.1 hquiet.2 ht⟩
  have := hs.1.bound
  unfold u64Max at this
  omega

def writesRead : List (PollEvent EventFdAction) :=
  [.act 0 (.call (.write 5)), .run 0, .act 0 (.attempt false), .act 1 (.call .read), .run 1, .act 1 (.attempt false)]

theorem eventfd_conserves_five : ∃ s, Reaches step Single (initial 0 false) s ∧ s.res.returned = 5 ∧
    0 + s.res.written = s.res.counter + s.res.returned := by
  have hreach : Reaches step Single (initial 0 false) (run step (initial 0 false) writesRead) :=
    Reaches.run (.of_guards (by decide +kernel)
      ⟨trivial, trivial, fun _ => nofun, trivial, trivial, fun _ => nofun, trivial⟩)
  exact ⟨_, hreach, by decide +kernel, (eventfd_conserves (t := 0) (by decide) hreach).1⟩

/-- A read in semaphore mode returns five and takes one. -/
theorem semaphore_read_returns_count : ∃ s, Reaches step (fun _ _ => True) (initial 0 true) s ∧ s.res.written = 5 ∧
    s.res.counter = 4 ∧ s.res.returned = 5 :=
  ⟨run step (initial 0 true) writesRead, Reaches.run (by decide +kernel), by decide +kernel, by decide +kernel,
    by decide +kernel⟩

end EventFd

end Ya2yOS.Fs
