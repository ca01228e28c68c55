import Ya2yOS.Fs.Epoll

/-!
# Whose readiness an epoll instance reports

An instance keeps its interests by descriptor number, and each wait looks the numbers up in the table of the process
that waits. The lock of the interests is left out: without it there are only more runs.
-/

namespace Ya2yOS.Fs

open Function Lib

/-- A call of `epoll_ctl` that has found `file` under the number. -/
structure EpollCtl where
  process : ℕ
  fd : ℕ
  file : ℕ

structure EpollScan where
  process : ℕ
  file : ℕ → ℕ
  room : ℕ
  todo : List (ℕ × EpollEntry)
  toRemove : List ℕ

/-- One epoll instance and the tables of all processes. `file` is the open file description that the data under a number
was registered for; a report has it with it, behind the description that was asked. -/
structure EpollBinding where
  table : ℕ × ℕ → Option ℕ
  target : ℕ → EpollTarget
  interests : OrdMap ℕ EpollEntry
  file : ℕ → ℕ
  ctl : ℕ → Option EpollCtl
  scan : ℕ → Option EpollScan
  reports : List (EpollReady × Option ℕ × ℕ)

inductive BindingEvent where
  | io (file : ℕ) (target : EpollTarget)
  /-- The number is closed, or gets a description by `open`, `dup` or a message. -/
  | setFd (p fd : ℕ) (file : Option ℕ)
  | fork (p q : ℕ)
  | lookup (t p fd : ℕ)
  | ctlAdd (t : ℕ) (events : BitVec 32) (data : BitVec 64)
  | ctlMod (t : ℕ) (events : BitVec 32) (data : BitVec 64)
  | ctlDel (t : ℕ)
  | ctlFail (t : ℕ)
  | wait (t p maxevents : ℕ)
  | pollOne (t : ℕ)
  | finish (t : ℕ)

def touch (m : OrdMap ℕ EpollEntry) (fd : ℕ) (f : EpollEntry → EpollEntry) : OrdMap ℕ EpollEntry :=
  (m.get? fd).elim m fun r => m.insert fd (f r)

namespace EpollBinding

def initial (table : ℕ × ℕ → Option ℕ) (target : ℕ → EpollTarget) : EpollBinding :=
  ⟨table, target, .empty, fun _ => 0, fun _ => none, fun _ => none, []⟩

def report (s : EpollBinding) (t : ℕ) (x : EpollScan) (asked : Option ℕ) (fd : ℕ) (r : EpollReady) (remove : Bool) :
    EpollBinding :=
  { s with
    scan := update s.scan t (some { x with
      room := x.room - 1
      toRemove := if remove then x.toRemove ++ [fd] else x.toRemove })
    reports := (r, asked, x.file fd) :: s.reports }

def pollOne (s : EpollBinding) (t : ℕ) (x : EpollScan) (fd : ℕ) (e : EpollEntry) : EpollBinding :=
  match s.table (x.process, fd) with
  | none =>
    let closed := ((EPOLLERR ||| EPOLLHUP) &&& e.events) ||| ((EPOLLERR ||| EPOLLHUP) &&& EPOLLERR)
    s.report t x none fd ⟨closed, e.data⟩ true
  | some f =>
    let current := s.target f e.events
    let s := { s with interests := touch s.interests fd fun r => { r with lastEvents := current } }
    if e.toReport current = 0 then { s with scan := update s.scan t (some x) }
    else s.report t x (some f) fd ⟨e.toReport current, e.data⟩ (e.events &&& EPOLLONESHOT ≠ 0)

def step (s : EpollBinding) : BindingEvent → Option EpollBinding
  | .io file target => some { s with target := update s.target file target }
  | .setFd p fd file => some { s with table := update s.table (p, fd) file }
  | .fork p q => some { s with table := fun x => if x.1 = q then s.table (p, x.2) else s.table x }
  | .lookup t p fd => (s.table (p, fd)).map fun file => { s with ctl := update s.ctl t (some ⟨p, fd, file⟩) }
  | .ctlAdd t events data =>
    (s.ctl t).map fun c =>
      let s := { s with ctl := update s.ctl t none }
      if (s.interests.get? c.fd).isSome then s
      else { s with interests := s.interests.insert c.fd ⟨events, data, 0⟩, file := update s.file c.fd c.file }
  | .ctlMod t events data =>
    (s.ctl t).map fun c => { s with
      interests := touch s.interests c.fd fun r => { r with events := events, data := data }
      file := update s.file c.fd c.file
      ctl := update s.ctl t none }
  | .ctlDel t =>
    (s.ctl t).map fun c => { s with interests := s.interests.erase c.fd, ctl := update s.ctl t none }
  | .ctlFail t => some { s with ctl := update s.ctl t none }
  | .wait t p maxevents =>
    if (s.scan t).isSome then none
    else some { s with scan := update s.scan t (some ⟨p, s.file, maxevents, s.interests.entries, []⟩) }
  | .pollOne t =>
    match s.scan t with
    | some ⟨p, file, room + 1, (fd, e) :: todo, toRemove⟩ => some (s.pollOne t ⟨p, file, room + 1, todo, toRemove⟩ fd e)
    | _ => none
  | .finish t =>
    match s.scan t with
    | some x =>
      if x.todo ≠ [] ∧ x.room ≠ 0 then none
      else some { s with interests := x.toRemove.foldl OrdMap.erase s.interests, scan := update s.scan t none }
    | none => none

def Watched (s : EpollBinding) (fd : ℕ) : Prop :=
  (s.interests.get? fd).isSome = true ∨ (∃ t x, s.scan t = some x ∧ fd ∈ x.todo.map Prod.fst) ∨
    ∃ t c, s.ctl t = some c ∧ c.fd = fd

/-- One process only works with the instance, and it closes and reuses no number that the instance watches. -/
def Orderly (owner : ℕ) (s : EpollBinding) : BindingEvent → Prop
  | .setFd p fd _ => p = owner → ¬s.Watched fd
  | .fork _ q => q ≠ owner
  | .lookup _ p _ | .wait _ p _ => p = owner
  | _ => True

structure Bound (owner : ℕ) (s : EpollBinding) : Prop where
  interests : ∀ fd, (s.interests.get? fd).isSome = true → s.table (owner, fd) = some (s.file fd)
  ctl : ∀ t c, s.ctl t = some c → c.process = owner ∧ s.table (owner, c.fd) = some c.file
  scan : ∀ t x, s.scan t = some x → x.process = owner ∧
    ∀ fd ∈ x.todo.map Prod.fst, s.table (owner, fd) = some (x.file fd)
  reports : ∀ r ∈ s.reports, r.2.1 = some r.2.2

variable {s s' : EpollBinding} {ev : BindingEvent} {owner : ℕ}

attribute [local grind =] update_apply OrdMap.get?_insert OrdMap.get?_erase

@[local grind =]
lemma isSome_touch (m : OrdMap ℕ EpollEntry) (fd k : ℕ) (f : EpollEntry → EpollEntry) :
    ((touch m fd f).get? k).isSome = (m.get? k).isSome := by
  unfold touch
  cases h : m.get? fd <;> grind

lemma Bound.pollOne (h : s.Bound owner) {t fd room : ℕ} {x : EpollScan} {e : EpollEntry} {rem : List ℕ}
    (ht : s.scan t = some ⟨x.process, x.file, room, (fd, e) :: x.todo, rem⟩) : (s.pollOne t x fd e).Bound owner := by
  obtain ⟨hint, hctl, hscan, hreports⟩ := h
  obtain ⟨hp, htodo⟩ := hscan t _ ht
  have hfd : s.table (x.process, fd) = some (x.file fd) := hp ▸ htodo fd List.mem_cons_self
  simp only [EpollBinding.pollOne, report, hfd]
  split_ifs <;> refine ⟨?_, hctl, ?_, ?_⟩ <;> grind

lemma Bound.step (h : s.Bound owner) (hg : s.Orderly owner ev) (hs : s.step ev = some s') : s'.Bound owner := by
  obtain ⟨hint, hctl, hscan, hreports⟩ := h
  cases ev with
  | io file target =>
    cases hs
    exact ⟨hint, hctl, hscan, hreports⟩
  | setFd p fd file =>
    cases hs
    have hkeep : ∀ fd', s.Watched fd' → update s.table (p, fd) file (owner, fd') = s.table (owner, fd') := by
      intro fd' hw
      refine update_of_ne ?_ _ _
      rintro ⟨⟩
      exact hg rfl hw
    unfold Watched at hkeep
    refine ⟨?_, ?_, ?_, hreports⟩ <;> grind
  | fork p q =>
    cases hs
    have hne : owner ≠ q := Ne.symm hg
    refine ⟨?_, ?_, ?_, hreports⟩ <;> grind
  | lookup t p fd =>
    obtain rfl : p = owner := hg
    obtain ⟨file, hfile, rfl⟩ := Option.map_eq_some_iff.1 hs
    refine ⟨hint, ?_, hscan, hreports⟩
    grind
  | ctlAdd t events data =>
    obtain ⟨c, hc, rfl⟩ := Option.map_eq_some_iff.1 hs
    dsimp only
    split_ifs <;> refine ⟨?_, ?_, hscan, hreports⟩ <;> grind
  | ctlMod t events data | ctlDel t =>
    obtain ⟨c, hc, rfl⟩ := Option.map_eq_some_iff.1 hs
    refine ⟨?_, ?_, hscan, hreports⟩ <;> grind
  | ctlFail t =>
    cases hs
    refine ⟨hint, ?_, hscan, hreports⟩
    grind
  | wait t p maxevents =>
    obtain rfl : p = owner := hg
    simp only [EpollBinding.step] at hs
    split_ifs at hs
    cases hs
    have hentries : ∀ fd ∈ s.interests.entries.map Prod.fst, (s.interests.get? fd).isSome = true := by
      intro fd hfd
      obtain ⟨y, hy, rfl⟩ := List.mem_map.1 hfd
      rw [OrdMap.get?_eq_some.2 hy, Option.isSome_some]
    refine ⟨hint, hctl, ?_, hreports⟩
    grind
  | pollOne t =>
    simp only [EpollBinding.step] at hs
    split at hs <;> cases hs
    next hx => exact Bound.pollOne ⟨hint, hctl, hscan, hreports⟩ hx
  | finish t =>
    simp only [EpollBinding.step] at hs
    split at hs
    · split_ifs at hs
      cases hs
      refine ⟨fun fd hi => hint fd ?_, hctl, ?_, hreports⟩
      · obtain ⟨e, he⟩ := Option.isSome_iff_exists.1 hi
        rw [EpollSystem.get?_foldl_erase he, Option.isSome_some]
      · grind
    · cases hs

/-- In orderly runs every report comes from the description that its data was registered for. -/
theorem epoll_reports_bound {table : ℕ × ℕ → Option ℕ} {target : ℕ → EpollTarget}
    (h : Reaches step (Orderly owner) (initial table target) s) : ∀ r ∈ s.reports, r.2.1 = some r.2.2 := by
  have hinit : (initial table target).Bound owner := ⟨nofun, nofun, nofun, nofun⟩
  exact (h.invariant (fun _ _ _ hs hg he => hs.step hg he) hinit).reports

/-- Process 0 has the description 1, which can be read, under the number 3. -/
def openedOne (x : ℕ × ℕ) : Option ℕ := if x = (0, 3) then some 1 else none

def allReadable (_ : ℕ) : EpollTarget := fun registered => registered &&& 1

lemma not_watched {fd : ℕ} (hfd : (s.interests.get? fd).isSome = false) (hscan : ∀ t, s.scan t = none)
    (hctl : ∀ t, s.ctl t = none) : ¬s.Watched fd := by
  rintro (h | ⟨t, x, h, -⟩ | ⟨t, c, h, -⟩)
  · cases hfd.symm.trans h
  · cases (hscan t).symm.trans h
  · cases (hctl t).symm.trans h

/-- The description is duplicated, and a child closes its number; after the wait the interest is removed and the number
is used again. -/
def duplicated : List BindingEvent :=
  [.lookup 0 0 3, .ctlAdd 0 1 7, .setFd 0 4 (some 1), .fork 0 1, .setFd 1 3 none, .setFd 0 4 none, .wait 0 0 1,
    .pollOne 0, .finish 0, .lookup 0 0 3, .ctlDel 0, .setFd 0 3 (some 2)]

theorem epoll_reports_bound_once : ∃ s, Reaches step (Orderly 0) (initial openedOne allReadable) s ∧
    s.reports.map Prod.snd = [(some 1, 1)] ∧ ∀ r ∈ s.reports, r.2.1 = some r.2.2 := by
  have hadmits : Admits step (Orderly 0) (initial openedOne allReadable) duplicated := by
    refine .of_guards (by decide +kernel) ⟨rfl, trivial, fun _ => ?_, one_ne_zero, nofun, fun _ => ?_, rfl, trivial,
      trivial, rfl, trivial, fun _ => ?_, trivial⟩
    all_goals
      refine not_watched rfl (fun t => ?_) fun t => ?_ <;>
        match t with
        | 0 | n + 1 => rfl
  exact ⟨_, Reaches.run hadmits, by decide +kernel, epoll_reports_bound (Reaches.run hadmits)⟩

def reusedNumber : List BindingEvent :=
  [.lookup 5 0 3, .ctlAdd 5 1 7, .setFd 0 3 none, .setFd 0 3 (some 2), .wait 5 0 1, .pollOne 5]

/-- The data of the interest is reported for the description that got the number of the closed one. -/
theorem epoll_reports_another :
    let s := run step (initial openedOne allReadable) reusedNumber
    Reaches step (fun _ _ => True) (initial openedOne allReadable) s ∧
      s.reports.map (fun r => (r.1.data, r.2)) = [(7, some 2, 1)] :=
  ⟨Reaches.run (by decide +kernel), by decide +kernel⟩

end EpollBinding

end Ya2yOS.Fs
