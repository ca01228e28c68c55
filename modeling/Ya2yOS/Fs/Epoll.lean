import Ya2yOS.Lib.OrdMap
import Ya2yOS.Lib.Transition

/-!
# Edges of an epoll instance

`fs/files/epoll`: a wait asks the files one after the other. What an edge-triggered interest reports is told from what
the last look has found. The state remembers the events that each interest still owes.
-/

namespace Ya2yOS.Fs

open Function Lib BitVec

def EPOLLERR : BitVec 32 := 0x8
def EPOLLHUP : BitVec 32 := 0x10
def EPOLLONESHOT : BitVec 32 := 0x40000000
def EPOLLET : BitVec 32 := 0x80000000

structure EpollEntry where
  events : BitVec 32
  data : BitVec 64
  lastEvents : BitVec 32
deriving DecidableEq

structure EpollReady where
  events : BitVec 32
  data : BitVec 64

namespace EpollEntry

def isEt (e : EpollEntry) : Bool := e.events &&& EPOLLET ≠ 0

def fired (e : EpollEntry) (current : BitVec 32) : BitVec 32 :=
  if e.isEt then current &&& ~~~e.lastEvents else current

def toReport (e : EpollEntry) (current : BitVec 32) : BitVec 32 :=
  (e.fired current &&& e.events) ||| (e.fired current &&& (EPOLLERR ||| EPOLLHUP))

/-- The events that are reported if they fire. -/
def watched (e : EpollEntry) : BitVec 32 := e.events ||| (EPOLLERR ||| EPOLLHUP)

lemma toReport_bit (e : EpollEntry) (current : BitVec 32) (i : ℕ) : (e.toReport current).getLsbD i = true ↔
    current.getLsbD i = true ∧ e.watched.getLsbD i = true ∧ (e.isEt = true → e.lastEvents.getLsbD i = false) := by
  have hi : current.getLsbD i = true → i < 32 := lt_of_getLsbD
  simp only [toReport, fired, watched]
  split_ifs with het <;> simp <;> grind

end EpollEntry

/-- A file under a descriptor, as what `poll_mask` answers for the registered events. -/
abbrev EpollTarget := BitVec 32 → BitVec 32

inductive EpollPc where
  | outside
  | listed (maxevents : ℕ) (todo : List (ℕ × EpollEntry))
  | scanning (maxevents : ℕ) (todo : List (ℕ × EpollEntry)) (ready : List EpollReady) (toRemove : List ℕ)

structure EpollSystem where
  interests : OrdMap ℕ EpollEntry
  lock : Option ℕ
  target : ℕ → Option EpollTarget
  pc : ℕ → EpollPc
  /-- the events that came after the last report, or were there at the last `EPOLL_CTL_MOD`, and are still there -/
  owed : ℕ → BitVec 32
  /-- a one-shot interest was reported, and nothing has been registered since -/
  spent : ℕ → Bool
  /-- an event that was owed has been passed by -/
  lost : Bool
  /-- what has been put into the array of a wait: the wait, the descriptor and the events -/
  reports : List (ℕ × ℕ × BitVec 32)

inductive EpollEvent where
  | io (fd : ℕ) (target : Option EpollTarget)
  | ctlAdd (fd : ℕ) (events : BitVec 32) (data : BitVec 64)
  | ctlMod (fd : ℕ) (events : BitVec 32) (data : BitVec 64)
  | ctlDel (fd : ℕ)
  | snapshot (t maxevents : ℕ)
  | lock (t : ℕ)
  | scan (t : ℕ)
  /-- the loop is over, and the events are copied to the user or cannot be -/
  | finish (t : ℕ) (copied : Bool)

namespace EpollSystem

/-- What the file answers for the events of an interest; nothing where it is closed. -/
def current (target : Option EpollTarget) (e : EpollEntry) : BitVec 32 := target.elim 0 (· e.events)

def pollOne (s : EpollSystem) (t fd : ℕ) (e : EpollEntry) (maxevents : ℕ) (todo : List (ℕ × EpollEntry))
    (ready : List EpollReady) (toRemove : List ℕ) : EpollSystem :=
  match s.target fd with
  | none =>
    let closed := ((EPOLLERR ||| EPOLLHUP) &&& e.events) ||| ((EPOLLERR ||| EPOLLHUP) &&& EPOLLERR)
    { s with
      pc := update s.pc t (.scanning maxevents todo (ready ++ [⟨closed, e.data⟩]) (toRemove ++ [fd]))
      reports := s.reports ++ [(t, fd, closed)] }
  | some f =>
    let current := f e.events
    let report := e.toReport current
    let shot := report ≠ 0 ∧ e.events &&& EPOLLONESHOT ≠ 0
    { s with
      interests := (s.interests.get? fd).elim s.interests fun r =>
        s.interests.insert fd { r with lastEvents := current }
      pc := update s.pc t (.scanning maxevents todo
        (if report = 0 then ready else ready ++ [⟨report, e.data⟩]) (if shot then toRemove ++ [fd] else toRemove))
      owed := update s.owed fd 0
      spent := if shot then update s.spent fd true else s.spent
      lost := s.lost || ((s.interests.get? fd).isSome && (s.owed fd &&& ~~~report != 0))
      reports := if report = 0 then s.reports else s.reports ++ [(t, fd, report)] }

def step (s : EpollSystem) : EpollEvent → Option EpollSystem
  | .io fd target =>
    some { s with
      target := update s.target fd target
      owed := (s.interests.get? fd).elim s.owed fun e => update s.owed fd
        (current target e &&& e.watched &&& (s.owed fd ||| ~~~current (s.target fd) e)) }
  | .ctlAdd fd events data =>
    if s.lock.isSome then none
    else if (s.interests.get? fd).isSome then some s
    else
      let e : EpollEntry := ⟨events, data, 0⟩
      some { s with
        interests := s.interests.insert fd e
        owed := update s.owed fd (current (s.target fd) e &&& e.watched)
        spent := update s.spent fd false }
  | .ctlMod fd events data =>
    if s.lock.isSome then none
    else
      match s.interests.get? fd with
      | none => some { s with lost := s.lost || s.spent fd }
      | some r =>
        let e := { r with events := events, data := data }
        some { s with
          interests := s.interests.insert fd e
          owed := update s.owed fd (current (s.target fd) e &&& e.watched) }
  | .ctlDel fd => if s.lock.isSome then none else some { s with interests := s.interests.erase fd }
  | .snapshot t maxevents =>
    match s.pc t with
    | .outside =>
      if s.lock.isSome then none
      else some { s with pc := update s.pc t (.listed maxevents s.interests.entries) }
    | _ => none
  | .lock t =>
    match s.pc t with
    | .listed maxevents todo =>
      if s.lock.isSome then none
      else some { s with lock := some t, pc := update s.pc t (.scanning maxevents todo [] []) }
    | _ => none
  | .scan t =>
    match s.pc t with
    | .scanning maxevents ((fd, e) :: todo) ready toRemove =>
      if maxevents ≤ ready.length then none else some (s.pollOne t fd e maxevents todo ready toRemove)
    | _ => none
  | .finish t copied =>
    match s.pc t with
    | .scanning maxevents todo ready toRemove =>
      if todo ≠ [] ∧ ready.length < maxevents then none
      else some { s with
        lock := none
        interests := toRemove.foldl OrdMap.erase s.interests
        pc := update s.pc t .outside
        lost := s.lost || (!copied && ready ≠ []) }
    | _ => none

def initial : EpollSystem := ⟨.empty, none, fun _ => none, fun _ => .outside, fun _ => 0, fun _ => false, false, []⟩

/-- The condition on a step. A file becomes ready only after a look has found it not ready; `EPOLL_CTL_MOD` is not for a
one-shot interest that was reported, nor for a readiness that an edge-triggered one has already seen; nothing has
changed an interest between its copy and the look at its file; and the events reach the user. -/
def Careful (s : EpollSystem) : EpollEvent → Prop
  | .io fd target => ∀ e ∈ s.interests.get? fd, e.isEt = true →
      current target e &&& ~~~current (s.target fd) e &&& e.watched &&& e.lastEvents = 0
  | .ctlMod fd events data => (s.interests.get? fd = none → s.spent fd = false) ∧
      ∀ r ∈ s.interests.get? fd, let e := { r with events := events, data := data }
        e.isEt = true → current (s.target fd) e &&& e.watched &&& r.lastEvents = 0
  | .scan t =>
    match s.pc t with
    | .scanning _ ((fd, e) :: _) _ _ => ∀ r ∈ s.interests.get? fd, r = e
    | _ => True
  | .finish _ copied => copied = true
  | _ => True

instance (s : EpollSystem) (ev : EpollEvent) : Decidable (s.Careful ev) := by
  unfold Careful
  repeat' split
  all_goals infer_instance

/-- What is owed is there, is watched for, and has not been seen by an edge-triggered interest. -/
def Armed (s : EpollSystem) : Prop :=
  ∀ fd e, s.interests.get? fd = some e → ∀ i, (s.owed fd).getLsbD i = true →
    (current (s.target fd) e).getLsbD i = true ∧
    e.watched.getLsbD i = true ∧ (e.isEt = true → e.lastEvents.getLsbD i = false)

variable {s s' : EpollSystem} {ev : EpollEvent} {e : EpollEntry} {fd : ℕ}

attribute [local grind =] update_apply OrdMap.get?_insert OrdMap.get?_erase

lemma bit_of_and_eq_zero {a b : BitVec 32} {i : ℕ} (h : a &&& b = 0) (ha : a.getLsbD i = true) :
    b.getLsbD i = false := by
  simpa [ha] using congrArg (getLsbD · i) h

lemma get?_foldl_erase {l : List ℕ} {m : OrdMap ℕ EpollEntry}
    (h : (l.foldl OrdMap.erase m).get? fd = some e) : m.get? fd = some e := by
  induction l generalizing m with
  | nil => exact h
  | cons k l ih =>
    have := ih h
    grind

lemma get?_foldl_erase_of_notMem {l : List ℕ} {m : OrdMap ℕ EpollEntry} (h : fd ∉ l) :
    (l.foldl OrdMap.erase m).get? fd = m.get? fd := by
  induction l generalizing m with
  | nil => rfl
  | cons k l ih =>
    rw [List.foldl_cons, ih fun hmem => h (List.mem_cons_of_mem k hmem)]
    grind

lemma Armed.report (h : s.Armed) (he : s.interests.get? fd = some e) {f : EpollTarget}
    (hf : s.target fd = some f) : s.owed fd &&& ~~~e.toReport (f e.events) = 0 := by
  refine eq_of_getLsbD_eq fun i hi => ?_
  have hbit := e.toReport_bit (f e.events) i
  have harm := h fd e he i
  simp only [getLsbD_and, getLsbD_not, current, Option.elim] at harm ⊢
  grind

lemma Armed.step (h : s.Armed) (hg : s.Careful ev) (hs : s.step ev = some s') : s'.Armed := by
  intro fd e he i hi
  cases ev with
  | io fd' target =>
    cases hs
    have harm := h fd e he i
    by_cases hfd : fd' = fd
    · subst hfd
      have hnew : e.isEt = true → _ := fun het => bit_of_and_eq_zero (i := i) (hg e he het)
      simp only [he, Option.elim, update_self, getLsbD_and, getLsbD_or, getLsbD_not] at hi hnew ⊢
      grind
    · cases hr : s.interests.get? fd' <;> simp only [hr, Option.elim] at hi <;> grind
  | ctlAdd fd' events data =>
    simp only [EpollSystem.step] at hs
    split_ifs at hs
    · cases hs
      exact h fd e he i hi
    · cases hs
      have harm := h fd e
      have hzero : (0 : BitVec 32).getLsbD i = false := getLsbD_zero
      by_cases hfd : fd' = fd <;> simp_all [OrdMap.get?_insert, update_apply] <;> grind
  | ctlMod fd' events data =>
    simp only [EpollSystem.step] at hs
    split_ifs at hs
    split at hs
    · cases hs
      exact h fd e he i hi
    next r hr =>
    cases hs
    have harm := h fd e
    have hnew := fun het => bit_of_and_eq_zero (i := i) (hg.2 r hr het)
    by_cases hfd : fd' = fd <;> simp_all [OrdMap.get?_insert, update_apply] <;> grind
  | ctlDel fd' =>
    simp only [EpollSystem.step] at hs
    split_ifs at hs
    cases hs
    exact h fd e (by grind) i hi
  | snapshot | lock =>
    simp only [EpollSystem.step] at hs
    split at hs
    · split_ifs at hs
      cases hs
      exact h fd e he i hi
    · cases hs
  | scan t =>
    simp only [EpollSystem.step] at hs
    split at hs
    · next maxevents fd' r todo ready toRemove hpc =>
      split_ifs at hs
      cases hs
      cases hf : s.target fd' with
      | none =>
        simp only [pollOne, hf] at he hi ⊢
        exact h fd e he i hi
      | some f =>
        have harm := h fd e
        have hzero : (0 : BitVec 32).getLsbD i = false := getLsbD_zero
        simp only [pollOne, hf] at he hi ⊢
        cases hr : s.interests.get? fd' <;> simp only [hr, Option.elim] at he <;> grind
    · cases hs
  | finish t copied =>
    simp only [EpollSystem.step] at hs
    split at hs
    · split_ifs at hs
      cases hs
      exact h fd e (get?_foldl_erase he) i hi
    · cases hs

lemma lost_step (h : s.Armed) (hg : s.Careful ev) (hs : s.step ev = some s') (hl : s.lost = false) :
    s'.lost = false := by
  cases ev with
  | ctlMod fd events data =>
    simp only [EpollSystem.step] at hs
    split_ifs at hs
    split at hs
    · next hr =>
      cases hs
      simp [hl, hg.1 hr]
    · cases hs
      exact hl
  | scan t =>
    simp only [EpollSystem.step] at hs
    split at hs
    · next maxevents fd e todo ready toRemove hpc =>
      split_ifs at hs
      cases hs
      cases hf : s.target fd with
      | none => simpa only [pollOne, hf] using hl
      | some f =>
        cases hr : s.interests.get? fd with
        | none => simp [pollOne, hf, hr, hl]
        | some r =>
          simp only [Careful, hpc] at hg
          obtain rfl := hg r hr
          simp [pollOne, hf, hl, h.report hr hf]
    · cases hs
  | finish t copied =>
    simp only [EpollSystem.step] at hs
    split at hs
    · split_ifs at hs
      cases hs
      simp [hl, show copied = true from hg]
    · cases hs
  | _ =>
    simp only [EpollSystem.step] at hs
    grind

/-! ### Waits -/

/-- A wait that looks at the files has the lock of the interests. -/
def Locked (s : EpollSystem) : Prop :=
  ∀ u n todo ready toRemove, s.pc u = .scanning n todo ready toRemove → s.lock = some u

lemma Locked.step (h : s.Locked) (hs : s.step ev = some s') : s'.Locked := by
  intro u n todo ready toRemove hu
  have hold := h u
  cases ev with
  | io | ctlAdd | ctlMod | ctlDel =>
    simp only [EpollSystem.step] at hs
    grind
  | snapshot t m | lock t =>
    simp only [EpollSystem.step] at hs
    split at hs
    · split_ifs at hs with hfree
      cases hs
      by_cases hut : u = t <;> grind
    · cases hs
  | scan t =>
    simp only [EpollSystem.step] at hs
    split at hs
    · next m fd e rest r rem hpc =>
      split_ifs at hs
      cases hs
      have hlock := h t _ _ _ _ hpc
      cases hf : s.target fd <;> simp only [pollOne, hf] at hu ⊢ <;> by_cases hut : u = t <;> grind
    · cases hs
  | finish t copied =>
    simp only [EpollSystem.step] at hs
    split at hs
    · next m rest r rem hpc =>
      split_ifs at hs
      cases hs
      have hlock := h t _ _ _ _ hpc
      by_cases hut : u = t <;> grind
    · cases hs

def remaining (s : EpollSystem) (t : ℕ) : List (ℕ × EpollEntry) :=
  match s.pc t with
  | .outside => []
  | .listed _ todo | .scanning _ todo _ _ => todo

def ready (s : EpollSystem) (t : ℕ) : List EpollReady :=
  match s.pc t with
  | .scanning _ _ ready _ => ready
  | _ => []

/-- While a wait goes on, an event of an interest stays there and the interest is not changed. -/
def Steady (t fd i : ℕ) (s : EpollSystem) (ev : EpollEvent) : Prop :=
  s.Careful ev ∧ match ev with
    | .io fd' target => fd' = fd → ∀ e ∈ s.interests.get? fd, (current target e).getLsbD i = true
    | .ctlMod fd' _ _ | .ctlDel fd' => fd' ≠ fd
    | .finish t' _ => t' ≠ t
    | _ => True

/-- The event is owed, and the wait has still to look at the file. -/
structure Pending (s : EpollSystem) (t fd i : ℕ) (data : BitVec 64) : Prop where
  entry : ∃ e, s.interests.get? fd = some e ∧ e.data = data
  owed : (s.owed fd).getLsbD i = true
  todo : ∃ x ∈ s.remaining t, x.1 = fd
  kept : ∀ u n todo ready toRemove, s.pc u = .scanning n todo ready toRemove → fd ∉ toRemove

/-- The event is in the array of the wait, or another wait has reported it since. -/
def Reported (s : EpollSystem) (t fd i : ℕ) (data : BitVec 64) (old : ℕ) : Prop :=
  (∃ r ∈ s.ready t, r.data = data ∧ r.events.getLsbD i = true) ∨
    ∃ u ≠ t, ∃ events, (u, fd, events) ∈ s.reports.drop old ∧ events.getLsbD i = true

variable {t i old : ℕ} {data : BitVec 64}

lemma reports_step (hs : s.step ev = some s') : ∃ new, s'.reports = s.reports ++ new := by
  have hsame : s'.reports = s.reports → ∃ new, s'.reports = s.reports ++ new := fun h => ⟨[], by simp [h]⟩
  cases ev with
  | scan t =>
    simp only [EpollSystem.step] at hs
    split at hs
    · next m fd e rest r rem hpc =>
      split_ifs at hs
      cases hs
      cases hf : s.target fd with
      | none =>
        simp only [pollOne, hf]
        exact ⟨_, rfl⟩
      | some f =>
        simp only [pollOne, hf]
        split_ifs
        · exact ⟨[], by simp⟩
        · exact ⟨_, rfl⟩
    · cases hs
  | _ =>
    apply hsame
    simp only [EpollSystem.step] at hs
    grind

lemma ready_step (hs : s.step ev = some s') (hev : ∀ copied, ev ≠ .finish t copied) : s.ready t ⊆ s'.ready t := by
  cases ev with
  | snapshot u m | lock u =>
    simp only [EpollSystem.step] at hs
    split at hs
    · next hpc =>
      split_ifs at hs
      cases hs
      by_cases htu : t = u
      · subst htu
        simp only [ready, hpc]
        exact List.nil_subset _
      · simp only [ready, update_of_ne htu]
        exact List.Subset.refl _
    · cases hs
  | scan u =>
    simp only [EpollSystem.step] at hs
    split at hs
    · next m fd e rest r rem hpc =>
      split_ifs at hs
      cases hs
      by_cases htu : t = u
      · subst htu
        cases hf : s.target fd with
        | none => simp [pollOne, hf, ready, hpc]
        | some f =>
          simp only [pollOne, hf, ready, hpc, update_self]
          split_ifs <;> simp
      · cases hf : s.target fd <;> simp only [pollOne, hf, ready, update_of_ne htu] <;> exact List.Subset.refl _
    · cases hs
  | finish u copied =>
    simp only [EpollSystem.step] at hs
    split at hs
    · split_ifs at hs
      cases hs
      have htu : t ≠ u := fun h => hev copied (by rw [h])
      simp only [ready, update_of_ne htu]
      exact List.Subset.refl _
    · cases hs
  | _ =>
    have hpc : s'.pc = s.pc := by
      simp only [EpollSystem.step] at hs
      grind
    rw [ready, ready, hpc]
    exact List.Subset.refl _

lemma Reported.step (h : s.Reported t fd i data old) (hg : Steady t fd i s ev) (hs : s.step ev = some s') :
    s'.Reported t fd i data old := by
  rcases h with ⟨r, hr, hbit⟩ | ⟨u, hu, events, hmem, hbit⟩
  · refine .inl ⟨r, ready_step hs (fun copied hev => ?_) hr, hbit⟩
    subst hev
    exact hg.2 rfl
  · obtain ⟨new, hnew⟩ := reports_step hs
    refine .inr ⟨u, hu, events, ?_, hbit⟩
    rw [hnew, List.drop_append]
    exact List.mem_append_left _ hmem

/-- A look at the file of the interest puts what is owed into the array. -/
lemma Pending.look {u n : ℕ} {e : EpollEntry} {rest : List (ℕ × EpollEntry)} {r : List EpollReady} {rem : List ℕ}
    (h : s.Pending t fd i data) (harmed : s.Armed) (hold : old ≤ s.reports.length)
    (hsame : ∀ x ∈ s.interests.get? fd, x = e) : (s.pollOne u fd e n rest r rem).Reported t fd i data old := by
  obtain ⟨x, hx, rfl⟩ := h.entry
  obtain rfl := hsame x hx
  have hcurrent := (harmed fd x hx i h.owed).1
  have hnone : (0 : BitVec 32).getLsbD i = false := getLsbD_zero
  cases hf : s.target fd with
  | none =>
    rw [current, hf, Option.elim, hnone] at hcurrent
    cases hcurrent
  | some f =>
    have hbit : (x.toReport (f x.events)).getLsbD i = true := by
      have := bit_of_and_eq_zero (harmed.report hx hf) h.owed
      have hi : i < 32 := lt_of_getLsbD h.owed
      simpa [hi] using this
    have hne : x.toReport (f x.events) ≠ 0 := by
      intro hzero
      rw [hzero, hnone] at hbit
      cases hbit
    by_cases hut : u = t
    · subst hut
      refine .inl ⟨⟨x.toReport (f x.events), x.data⟩, ?_, rfl, hbit⟩
      simp only [pollOne, hf, ready, update_self, if_neg hne]
      exact List.mem_append_right _ List.mem_cons_self
    · refine .inr ⟨u, hut, x.toReport (f x.events), ?_, hbit⟩
      simp only [pollOne, hf, if_neg hne, List.drop_append_of_le_length hold]
      exact List.mem_append_right _ List.mem_cons_self

/-- A step that leaves the interest and what it owes alone. -/
lemma Pending.keep (h : s.Pending t fd i data) (hentry : s'.interests.get? fd = s.interests.get? fd)
    (howed : s'.owed fd = s.owed fd) (htodo : ∀ x ∈ s.remaining t, x.1 = fd → ∃ x ∈ s'.remaining t, x.1 = fd)
    (hkept : ∀ u n todo ready toRemove, s'.pc u = .scanning n todo ready toRemove → fd ∉ toRemove) :
    s'.Pending t fd i data := by
  obtain ⟨x, hx, hxfd⟩ := h.todo
  exact ⟨hentry ▸ h.entry, howed ▸ h.owed, htodo x hx hxfd, hkept⟩

lemma Pending.step (h : s.Pending t fd i data) (harmed : s.Armed) (hold : old ≤ s.reports.length)
    (hg : Steady t fd i s ev) (hs : s.step ev = some s') :
    s'.Pending t fd i data ∨ s'.Reported t fd i data old := by
  obtain ⟨e, he, hdata⟩ := h.entry
  have hstay : ∀ x ∈ s.remaining t, x.1 = fd → ∃ x ∈ s.remaining t, x.1 = fd := fun x hx hxfd => ⟨x, hx, hxfd⟩
  cases ev with
  | io fd' target =>
    cases hs
    left
    refine ⟨h.entry, ?_, h.todo, h.kept⟩
    by_cases hfd : fd' = fd
    · subst hfd
      have hbit := harmed fd' e he i h.owed
      have hon := hg.2 rfl e he
      simp [he, hon, hbit.2.1, h.owed]
    · have howed := h.owed
      cases hr : s.interests.get? fd' <;> simp only [Option.elim] <;> grind
  | ctlAdd fd' events data' =>
    simp only [EpollSystem.step] at hs
    left
    split_ifs at hs with _ hin <;> cases hs
    · exact h
    · have hfd : fd ≠ fd' := by
        rintro rfl
        exact hin (by rw [he]; rfl)
      exact h.keep (by grind) (update_of_ne hfd _ _) hstay h.kept
  | ctlMod fd' events data' =>
    have hfd : fd ≠ fd' := fun heq => hg.2 heq.symm
    simp only [EpollSystem.step] at hs
    left
    split_ifs at hs
    split at hs <;> cases hs
    · exact h.keep rfl rfl hstay h.kept
    · exact h.keep (by grind) (update_of_ne hfd _ _) hstay h.kept
  | ctlDel fd' =>
    have hfd : fd ≠ fd' := fun heq => hg.2 heq.symm
    simp only [EpollSystem.step] at hs
    left
    split_ifs at hs
    cases hs
    exact h.keep (by grind) rfl hstay h.kept
  | snapshot u m =>
    simp only [EpollSystem.step] at hs
    left
    split at hs
    · next hpc =>
      split_ifs at hs
      cases hs
      have htu : t ≠ u := by
        rintro rfl
        obtain ⟨x, hx, -⟩ := h.todo
        rw [remaining, hpc] at hx
        cases hx
      refine h.keep rfl rfl (fun x hx hxfd => ⟨x, ?_, hxfd⟩) fun v n todo ready toRemove hv => ?_
      · simp only [remaining, update_of_ne htu]
        exact hx
      · have hkept := h.kept v
        grind
    · cases hs
  | lock u =>
    simp only [EpollSystem.step] at hs
    left
    split at hs
    · next hpc =>
      split_ifs at hs
      cases hs
      refine h.keep rfl rfl (fun x hx hxfd => ⟨x, ?_, hxfd⟩) fun v n todo ready toRemove hv => ?_
      · unfold remaining at hx ⊢
        grind
      · have hkept := h.kept v
        grind
    · cases hs
  | scan u =>
    simp only [EpollSystem.step] at hs
    split at hs
    · next m fd' e' rest r rem hpc =>
      split_ifs at hs
      cases hs
      by_cases hfd : fd = fd'
      · subst hfd
        have hsame := hg.1
        simp only [Careful, hpc] at hsame
        exact .inr (h.look harmed hold hsame)
      · left
        have hkept := h.kept
        refine h.keep ?_ ?_ (fun x hx hxfd => ⟨x, ?_, hxfd⟩) fun v n todo ready toRemove hv => ?_
        · cases hf : s.target fd' <;> simp only [pollOne, hf]
          cases hr : s.interests.get? fd' <;> simp only [Option.elim]
          grind
        · cases hf : s.target fd' <;> simp only [pollOne, hf]
          grind
        · cases hf : s.target fd' <;> simp only [pollOne, hf, remaining] at hx ⊢ <;> grind
        · cases hf : s.target fd' <;> simp only [pollOne, hf] at hv <;> grind
    · cases hs
  | finish u copied =>
    have htu : t ≠ u := fun heq => hg.2 heq.symm
    simp only [EpollSystem.step] at hs
    left
    split at hs
    · next m rest r rem hpc =>
      split_ifs at hs
      cases hs
      have hrem := h.kept u _ _ _ _ hpc
      have hkept := h.kept
      refine h.keep ?_ rfl (fun x hx hxfd => ⟨x, ?_, hxfd⟩) fun v n todo ready toRemove hv => ?_
      · exact get?_foldl_erase_of_notMem hrem
      · simp only [remaining, update_of_ne htu]
        exact hx
      · grind
    · cases hs

/-- In careful runs no event that an interest owes is passed by, and a look at its file reports all that it owes. A wait
that comes to the end of the interests has every event in its array that was owed when it began and is there until then,
unless another wait has reported it in the meantime. -/
theorem epoll_events_reported (h : Reaches step Careful initial s) : s.lost = false ∧
    (∀ fd e f, s.interests.get? fd = some e → s.target fd = some f → s.owed fd &&& ~~~e.toReport (f e.events) = 0) ∧
    ∀ t n fd i e s₁ s₂ r toRemove, s.interests.get? fd = some e → (s.owed fd).getLsbD i = true →
      s.step (.snapshot t n) = some s₁ → Reaches step (Steady t fd i) s₁ s₂ → s₂.pc t = .scanning n [] r toRemove →
      (∃ x ∈ r, x.data = e.data ∧ x.events.getLsbD i = true) ∨
        ∃ u ≠ t, ∃ events, (u, fd, events) ∈ s₂.reports.drop s.reports.length ∧ events.getLsbD i = true := by
  have hi : s.Armed ∧ s.lost = false ∧ s.Locked := by
    refine h.invariant (I := fun s => s.Armed ∧ s.lost = false ∧ s.Locked) (fun _ _ _ hi hg he => ?_) ⟨?_, rfl, ?_⟩
    · exact ⟨hi.1.step hg he, lost_step hi.1 hg he hi.2.1, hi.2.2.step he⟩
    · intro fd e he
      cases he
    · intro u n todo ready toRemove hu
      cases hu
  refine ⟨hi.2.1, fun fd e f he hf => hi.1.report he hf, ?_⟩
  intro t n fd i e s₁ s₂ r toRemove he howed hsnap hrun hpc
  have hbegin : s₁.Armed ∧ s.reports.length ≤ s₁.reports.length ∧
      (s₁.Pending t fd i e.data ∨ s₁.Reported t fd i e.data s.reports.length) := by
    have harmed := hi.1.step (show s.Careful (.snapshot t n) from trivial) hsnap
    simp only [step] at hsnap
    split at hsnap
    · next hout =>
      split_ifs at hsnap with hfree
      cases hsnap
      refine ⟨harmed, le_rfl, .inl ⟨⟨e, he, rfl⟩, howed, ⟨(fd, e), ?_, rfl⟩, fun u m todo ready rem hu => ?_⟩⟩
      · simp only [remaining, update_self]
        exact OrdMap.get?_eq_some.1 he
      · -- nobody looks at the files, since the lock is free
        have hlocked := hi.2.2 u m todo ready rem
        grind
    · cases hsnap
  have hend := hrun.invariant (I := fun s' => s'.Armed ∧ s.reports.length ≤ s'.reports.length ∧
      (s'.Pending t fd i e.data ∨ s'.Reported t fd i e.data s.reports.length)) (fun a ev b ha hg hs => ?_) hbegin
  · rcases hend.2.2 with hpending | hreported
    · obtain ⟨x, hx, -⟩ := hpending.todo
      rw [remaining, hpc] at hx
      cases hx
    · rw [Reported, ready, hpc] at hreported
      exact hreported
  · obtain ⟨new, hnew⟩ := reports_step hs
    refine ⟨ha.1.step hg.1 hs, ?_, ?_⟩
    · rw [hnew, List.length_append]
      omega
    · rcases ha.2.2 with hpending | hreported
      · exact hpending.step ha.1 ha.2.1 hg hs
      · exact .inr (hreported.step hg hs)

def readable : Option EpollTarget := some fun registered => registered &&& 1

def wait (copied : Bool) : List EpollEvent := [.snapshot 0 8, .lock 0, .scan 0, .finish 0 copied]

def firstEdge : List EpollEvent := [.ctlAdd 5 (EPOLLET ||| 1) 7, .io 5 readable] ++ wait true

def drained : List EpollEvent := firstEdge ++ [.io 5 (some fun _ => 0)] ++ wait true ++ [.io 5 readable]

/-- The second edge of the file is in the array of the next wait. -/
theorem epoll_events_reported_drained :
    ∃ s s₂ r, Reaches step Careful initial s ∧ s.lost = false ∧ s.owed 5 = 1 ∧
      s₂ = run step s [.snapshot 1 8, .lock 1, .scan 1] ∧ s₂.pc 1 = .scanning 8 [] r [] ∧
      ∃ x ∈ r, x.data = 7 ∧ x.events.getLsbD 0 = true := by
  have hrun : Reaches step Careful initial (run step initial drained) := Reaches.run (by decide)
  obtain ⟨hlost, -, hwait⟩ := epoll_events_reported hrun
  have hsteady : Admits step (Steady 1 5 0) (after step (run step initial drained) (.snapshot 1 8))
      [.lock 1, .scan 1] :=
    ⟨⟨trivial, trivial⟩, rfl, ⟨by decide, trivial⟩, rfl, trivial⟩
  have hreported := hwait 1 8 5 0 ⟨EPOLLET ||| 1, 7, 0⟩ _ _ _ [] rfl rfl (step_eq_after rfl) (Reaches.run hsteady) rfl
  refine ⟨_, _, _, hrun, hlost, rfl, rfl, rfl, hreported.resolve_right ?_⟩
  rintro ⟨u, hu, events, hmem, -⟩
  exact hu (congrArg Prod.fst (List.mem_singleton.1 hmem))

def refilled : List EpollEvent := firstEdge ++ [.io 5 (some fun _ => 0), .io 5 readable] ++ wait true

/-- The interest is changed while the file is ready. -/
def rearmed : List EpollEvent := firstEdge ++ [.ctlMod 5 (EPOLLET ||| 1) 7] ++ wait true

def oneShot : List EpollEvent :=
  [.ctlAdd 5 (EPOLLONESHOT ||| 1) 0, .io 5 readable] ++ wait true ++ [.ctlMod 5 (EPOLLONESHOT ||| 1) 0]

theorem epoll_events_lost :
    (Admits step (fun _ _ => True) initial refilled ∧ (run step initial refilled).lost = true) ∧
      (Admits step (fun _ _ => True) initial rearmed ∧ (run step initial rearmed).lost = true) ∧
      Admits step (fun _ _ => True) initial oneShot ∧ (run step initial oneShot).lost = true := by
  decide

end EpollSystem

end Ya2yOS.Fs
