import Ya2yOS.Lib.Transition

/-!
# Remote TLB shootdown

`mm/remote_tlb.rs` and the activation of address spaces. The sender numbers a request in the mailbox of every hart that
is active in its address space, and waits until the hart has acknowledged the number or has left. A hart serves its
mailbox in `poll`.
-/

namespace Ya2yOS.Mm

open Lib

/-- A `poll` that found a request: the flag is swapped, the TLB invalidated, the number loaded. -/
inductive TlbPoll where
  | swapped
  | invalidated
  | loaded (sequence : ℕ)
deriving DecidableEq, Repr

inductive HartMode where
  | kernel
  | returning (space : ℕ)
  | user (space : ℕ)
deriving DecidableEq, Repr

/-- A change of an address space by a hart that has cleared its own active bit for the time. -/
structure SpaceUpdate where
  space : ℕ
  wasActive : Bool
  passed : Bool
deriving DecidableEq, Repr

/-- `TlbMailbox` with the polls that serve it. Polls nest, since an interrupt can come in the middle of
one; the innermost is first. `invalidatedAt` and `postedAt` tell when the hart last invalidated its
TLB and when each request was numbered. -/
structure TlbMailbox where
  pending : Bool
  sequence : ℕ
  acknowledged : ℕ
  polls : List TlbPoll
  invalidatedAt : ℕ
  postedAt : ℕ → ℕ

structure Hart where
  box : TlbMailbox
  mode : HartMode
  update : Option SpaceUpdate

namespace TlbMailbox

def swap (b : TlbMailbox) : TlbMailbox :=
  if b.pending then { b with pending := false, polls := .swapped :: b.polls } else b

def invalidate (b : TlbMailbox) (now : ℕ) : TlbMailbox := { b with invalidatedAt := now }

def number (b : TlbMailbox) (now : ℕ) : TlbMailbox :=
  { b with sequence := b.sequence + 1, postedAt := Function.update b.postedAt (b.sequence + 1) now }

end TlbMailbox

def tlbWord (n : ℕ) : ℕ := n % 2 ^ 64

inductive SenderPhase where
  | update
  | flush
  | read
  | number (todo : List ℕ) (numbers : List (ℕ × ℕ))
  | notify (target : ℕ) (todo : List ℕ) (numbers : List (ℕ × ℕ))
  | wait (todo : List (ℕ × ℕ)) (resolved : List (ℕ × Bool))

structure Sender where
  source : ℕ
  space : ℕ
  updatedAt : ℕ
  mask : List ℕ
  phase : SenderPhase

structure Completed where
  hart : ℕ
  space : ℕ
  updatedAt : ℕ
  left : Bool
deriving DecidableEq, Repr

structure TlbState where
  hart : ℕ → Hart
  active : ℕ → ℕ → Bool
  sender : Option Sender
  clock : ℕ
  completed : List Completed

inductive TlbEvent where
  | trap (h : ℕ)
  | poll (h : ℕ)
  | invalidate (h : ℕ)
  | load (h : ℕ)
  | acknowledge (h : ℕ)
  | trapReturn (h space : ℕ)
  | activate (h : ℕ)
  | deactivate (h space : ℕ)
  | leave (h space : ℕ)
  | pass (h : ℕ)
  | republish (h : ℕ)
  | lockUpdates (h : ℕ)
  | update
  | flush
  | readMask
  | number
  | notify
  | wait
  | finish

namespace TlbState

def setHart (s : TlbState) (h : ℕ) (x : Hart) : TlbState := { s with hart := Function.update s.hart h x }

def setBox (s : TlbState) (h : ℕ) (b : TlbMailbox) : TlbState := s.setHart h { s.hart h with box := b }

def setActive (s : TlbState) (space h : ℕ) (b : Bool) : TlbState :=
  { s with active := Function.update s.active space (Function.update (s.active space) h b) }

def unlocked (s : TlbState) (space : ℕ) : Bool :=
  match s.sender with
  | none => true
  | some x => x.space ≠ space

def stepPoll (s : TlbState) (h : ℕ) : TlbEvent → Option TlbState
  | .invalidate _ =>
    let b := (s.hart h).box
    match b.polls with
    | .swapped :: rest => some (s.setBox h { b with polls := .invalidated :: rest, invalidatedAt := s.clock })
    | _ => none
  | .load _ =>
    let b := (s.hart h).box
    match b.polls with
    | .invalidated :: rest => some (s.setBox h { b with polls := .loaded b.sequence :: rest })
    | _ => none
  | .acknowledge _ =>
    let b := (s.hart h).box
    match b.polls with
    | .loaded n :: rest => some (s.setBox h { b with polls := rest, acknowledged := n })
    | _ => none
  | _ => none

def stepHart (s : TlbState) (h : ℕ) : TlbEvent → Option TlbState
  | .trap _ =>
    let x := s.hart h
    match x.mode with
    | .user _ => some (s.setHart h { x with mode := .kernel })
    | _ => none
  | .poll _ =>
    let x := s.hart h
    match x.mode with
    | .user _ => none
    | _ => some (s.setBox h x.box.swap)
  | .trapReturn _ space =>
    let x := s.hart h
    if x.mode = .kernel ∧ x.box.polls = [] ∧ x.update = none then
      some (s.setHart h { x with box := x.box.swap, mode := .returning space })
    else none
  | .activate _ =>
    let x := s.hart h
    match x.mode with
    | .returning space =>
      if x.box.polls = [] ∧ s.unlocked space then
        some ((s.setHart h { x with
          box := if s.active space h then x.box else x.box.invalidate s.clock
          mode := .user space }).setActive space h true)
      else none
    | _ => none
  | .deactivate _ space =>
    let x := s.hart h
    if x.mode = .kernel ∧ x.box.polls = [] ∧ x.update = none then
      some ((s.setHart h { x with update := some ⟨space, s.active space h, false⟩ }).setActive space h false)
    else none
  | .leave _ space => if (s.hart h).mode = .kernel then some (s.setActive space h false) else none
  | .pass _ =>
    let x := s.hart h
    match x.update with
    | some u =>
      if u.passed = false ∧ s.unlocked u.space then
        some (s.setHart h { x with update := some { u with passed := true } })
      else none
    | none => none
  | .republish _ =>
    let x := s.hart h
    match x.update with
    | some u =>
      if x.mode = .kernel ∧ u.passed then
        let s₁ := s.setHart h { x with update := none }
        some (if u.wasActive then s₁.setActive u.space h true else s₁)
      else none
    | none => none
  | .lockUpdates _ =>
    match (s.hart h).update, s.sender with
    | some u, none => if u.passed then none else some { s with sender := some ⟨h, u.space, 0, [], .update⟩ }
    | _, _ => none
  | _ => none

def stepSender (s : TlbState) (harts : ℕ) (x : Sender) : TlbEvent → Option TlbState
  | .update =>
    match x.phase with
    | .update => some { s with sender := some { x with updatedAt := s.clock, phase := .flush } }
    | _ => none
  | .flush =>
    match x.phase with
    | .flush =>
      some { s.setBox x.source ((s.hart x.source).box.invalidate s.clock) with
        sender := some { x with phase := .read } }
    | _ => none
  | .readMask =>
    match x.phase with
    | .read =>
      let mask := (List.range harts).filter (s.active x.space)
      some { s with sender := some { x with mask := mask, phase := .number (mask.filter (· ≠ x.source)) [] } }
    | _ => none
  | .number =>
    match x.phase with
    | .number (h :: todo) numbers =>
      some { s.setBox h ((s.hart h).box.number s.clock) with
        sender := some { x with phase := .notify h todo numbers } }
    | _ => none
  | .notify =>
    match x.phase with
    | .notify h todo numbers =>
      let b := (s.hart h).box
      some { s.setBox h { b with pending := true } with
        sender := some { x with phase := .number todo (numbers ++ [(h, b.sequence)]) } }
    | _ => none
  | .wait =>
    match x.phase with
    | .number [] numbers => some { s with sender := some { x with phase := .wait numbers [] } }
    | .wait ((h, n) :: todo) resolved =>
      if tlbWord (s.hart h).box.acknowledged = tlbWord n then
        some { s with sender := some { x with phase := .wait todo ((h, false) :: resolved) } }
      else if s.active x.space h = false then
        some { s with sender := some { x with phase := .wait todo ((h, true) :: resolved) } }
      else none
    | _ => none
  | .finish =>
    match x.phase with
    | .wait [] resolved =>
      let y := s.hart x.source
      some { s.setHart x.source { y with update := y.update.map ({ · with passed := true }) } with
        sender := none
        completed := (x.mask.map fun h => ⟨h, x.space, x.updatedAt, resolved.contains (h, true)⟩) ++ s.completed }
    | _ => none
  | _ => none

def act (s : TlbState) (harts : ℕ) : TlbEvent → Option TlbState
  | e@(.invalidate h) | e@(.load h) | e@(.acknowledge h) => s.stepPoll h e
  | e@(.trap h) | e@(.poll h) | e@(.trapReturn h _) | e@(.activate h) | e@(.deactivate h _) | e@(.leave h _)
  | e@(.pass h) | e@(.republish h) | e@(.lockUpdates h) => s.stepHart h e
  | e => s.sender.bind fun x => s.stepSender harts x e

def step (harts : ℕ) (s : TlbState) (e : TlbEvent) : Option TlbState :=
  (s.act harts e).map fun s' => { s' with clock := s.clock + 1 }

def initial : TlbState where
  hart _ := ⟨⟨false, 0, 0, [], 0, fun _ => 0⟩, .kernel, none⟩
  active _ _ := false
  sender := none
  clock := 1
  completed := []

end TlbState

/-! ### Every step -/

inductive TlbStep (harts : ℕ) (s : TlbState) : TlbEvent → TlbState → Prop
  | trap {h space : ℕ} : (s.hart h).mode = .user space →
      TlbStep harts s (.trap h) (s.setHart h { s.hart h with mode := .kernel })
  | poll {h : ℕ} : (∀ space, (s.hart h).mode ≠ .user space) →
      TlbStep harts s (.poll h) (s.setBox h (s.hart h).box.swap)
  | invalidate {h : ℕ} {rest : List TlbPoll} : (s.hart h).box.polls = .swapped :: rest →
      TlbStep harts s (.invalidate h)
        (s.setBox h { (s.hart h).box with polls := .invalidated :: rest, invalidatedAt := s.clock })
  | load {h : ℕ} {rest : List TlbPoll} : (s.hart h).box.polls = .invalidated :: rest →
      TlbStep harts s (.load h)
        (s.setBox h { (s.hart h).box with polls := .loaded (s.hart h).box.sequence :: rest })
  | acknowledge {h n : ℕ} {rest : List TlbPoll} : (s.hart h).box.polls = .loaded n :: rest →
      TlbStep harts s (.acknowledge h) (s.setBox h { (s.hart h).box with polls := rest, acknowledged := n })
  | trapReturn {h space : ℕ} : (s.hart h).mode = .kernel → (s.hart h).box.polls = [] →
      TlbStep harts s (.trapReturn h space)
        (s.setHart h { s.hart h with box := (s.hart h).box.swap, mode := .returning space })
  | activate {h space : ℕ} : (s.hart h).mode = .returning space → (s.hart h).box.polls = [] →
      TlbStep harts s (.activate h) ((s.setHart h { s.hart h with
        box := if s.active space h then (s.hart h).box else (s.hart h).box.invalidate s.clock
        mode := .user space }).setActive space h true)
  | deactivate {h space : ℕ} : (s.hart h).mode = .kernel →
      TlbStep harts s (.deactivate h space) ((s.setHart h { s.hart h with
        update := some ⟨space, s.active space h, false⟩ }).setActive space h false)
  | leave {h space : ℕ} : (s.hart h).mode = .kernel → TlbStep harts s (.leave h space) (s.setActive space h false)
  | pass {h : ℕ} {u : SpaceUpdate} :
      TlbStep harts s (.pass h) (s.setHart h { s.hart h with update := some { u with passed := true } })
  | republish {h : ℕ} {u : SpaceUpdate} : (s.hart h).mode = .kernel →
      TlbStep harts s (.republish h) ((s.setHart h { s.hart h with update := none }).setActive u.space h true)
  | resume {h : ℕ} : TlbStep harts s (.republish h) (s.setHart h { s.hart h with update := none })
  | lockUpdates {h : ℕ} {u : SpaceUpdate} : s.sender = none →
      TlbStep harts s (.lockUpdates h) { s with sender := some ⟨h, u.space, 0, [], .update⟩ }
  | update {x : Sender} : s.sender = some x → x.phase = .update →
      TlbStep harts s .update { s with sender := some { x with updatedAt := s.clock, phase := .flush } }
  | flush {x : Sender} : s.sender = some x → x.phase = .flush → TlbStep harts s .flush
      { s.setBox x.source ((s.hart x.source).box.invalidate s.clock) with
        sender := some { x with phase := .read } }
  | readMask {x : Sender} : s.sender = some x → x.phase = .read → TlbStep harts s .readMask
      { s with sender := some { x with
          mask := (List.range harts).filter (s.active x.space)
          phase := .number (((List.range harts).filter (s.active x.space)).filter (· ≠ x.source)) [] } }
  | number {x : Sender} {h : ℕ} {todo : List ℕ} {numbers : List (ℕ × ℕ)} : s.sender = some x →
      x.phase = .number (h :: todo) numbers → TlbStep harts s .number
      { s.setBox h ((s.hart h).box.number s.clock) with
        sender := some { x with phase := .notify h todo numbers } }
  | notify {x : Sender} {h : ℕ} {todo : List ℕ} {numbers : List (ℕ × ℕ)} : s.sender = some x →
      x.phase = .notify h todo numbers → TlbStep harts s .notify
      { s.setBox h { (s.hart h).box with pending := true } with
        sender := some { x with phase := .number todo (numbers ++ [(h, (s.hart h).box.sequence)]) } }
  | await {x : Sender} {numbers : List (ℕ × ℕ)} : s.sender = some x → x.phase = .number [] numbers →
      TlbStep harts s .wait { s with sender := some { x with phase := .wait numbers [] } }
  | acked {x : Sender} {h n : ℕ} {todo : List (ℕ × ℕ)} {resolved : List (ℕ × Bool)} : s.sender = some x →
      x.phase = .wait ((h, n) :: todo) resolved → tlbWord (s.hart h).box.acknowledged = tlbWord n →
      TlbStep harts s .wait { s with sender := some { x with phase := .wait todo ((h, false) :: resolved) } }
  | left {x : Sender} {h n : ℕ} {todo : List (ℕ × ℕ)} {resolved : List (ℕ × Bool)} : s.sender = some x →
      x.phase = .wait ((h, n) :: todo) resolved → s.active x.space h = false →
      TlbStep harts s .wait { s with sender := some { x with phase := .wait todo ((h, true) :: resolved) } }
  | finish {x : Sender} {resolved : List (ℕ × Bool)} : s.sender = some x → x.phase = .wait [] resolved →
      TlbStep harts s .finish
      { s.setHart x.source { s.hart x.source with
          update := (s.hart x.source).update.map ({ · with passed := true }) } with
        sender := none
        completed := (x.mask.map fun h => ⟨h, x.space, x.updatedAt, resolved.contains (h, true)⟩) ++ s.completed }

namespace TlbState

variable {harts h : ℕ} {s s' : TlbState} {e : TlbEvent}

lemma stepPoll_step (he : e = .invalidate h ∨ e = .load h ∨ e = .acknowledge h)
    (hs : s.stepPoll h e = some s') : TlbStep harts s e s' := by
  rcases he with rfl | rfl | rfl <;> simp only [stepPoll] at hs <;> split at hs
  · next hpolls =>
    cases hs
    exact .invalidate hpolls
  · cases hs
  · next hpolls =>
    cases hs
    exact .load hpolls
  · cases hs
  · next hpolls =>
    cases hs
    exact .acknowledge hpolls
  · cases hs

lemma step_republish (hs : s.stepHart h (.republish h) = some s') : TlbStep harts s (.republish h) s' := by
  simp only [stepHart] at hs
  split at hs
  · split at hs <;> cases hs
    next hmode =>
    split
    · exact .republish hmode.1
    · exact .resume
  · cases hs

lemma stepSender_step {x : Sender} (hx : s.sender = some x) (hs : s.stepSender harts x e = some s') :
    TlbStep harts s e s' := by
  cases e <;> simp only [stepSender] at hs <;> try cases hs
  case wait =>
    split at hs
    · next hphase =>
      cases hs
      exact .await hx hphase
    · next hphase =>
      split at hs
      · next hword =>
        cases hs
        exact .acked hx hphase hword
      obtain ⟨hleft, rfl⟩ := of_guard hs
      exact .left hx hphase hleft
    · cases hs
  case update =>
    split at hs <;> cases hs
    exact .update hx ‹_›
  case flush =>
    split at hs <;> cases hs
    exact .flush hx ‹_›
  case readMask =>
    split at hs <;> cases hs
    exact .readMask hx ‹_›
  case number =>
    split at hs <;> cases hs
    exact .number hx ‹_›
  case notify =>
    split at hs <;> cases hs
    exact .notify hx ‹_›
  case finish =>
    split at hs <;> cases hs
    exact .finish hx ‹_›

lemma act_step (hs : s.act harts e = some s') : TlbStep harts s e s' := by
  cases e with
  | invalidate h => exact stepPoll_step (.inl rfl) hs
  | load h => exact stepPoll_step (.inr (.inl rfl)) hs
  | acknowledge h => exact stepPoll_step (.inr (.inr rfl)) hs
  | republish h => exact step_republish hs
  | trap h =>
    simp only [act, stepHart] at hs
    split at hs <;> cases hs
    next hmode => exact .trap hmode
  | poll h =>
    simp only [act, stepHart] at hs
    split at hs <;> cases hs
    next hmode => exact .poll hmode
  | trapReturn h space =>
    obtain ⟨hmode, rfl⟩ := of_guard hs
    exact .trapReturn hmode.1 hmode.2.1
  | activate h =>
    simp only [act, stepHart] at hs
    split at hs
    · next hmode =>
      split at hs <;> cases hs
      next hpolls => exact .activate hmode hpolls.1
    · cases hs
  | deactivate h space =>
    obtain ⟨hmode, rfl⟩ := of_guard hs
    exact .deactivate hmode.1
  | leave h space =>
    obtain ⟨hmode, rfl⟩ := of_guard hs
    exact .leave hmode
  | pass h =>
    simp only [act, stepHart] at hs
    split at hs
    · obtain ⟨-, rfl⟩ := of_guard hs
      exact .pass
    · cases hs
  | lockUpdates h =>
    simp only [act, stepHart] at hs
    split at hs
    · next hnone =>
      split_ifs at hs
      cases hs
      exact .lockUpdates hnone
    · cases hs
  | update | flush | readMask | number | notify | wait | finish =>
    obtain ⟨x, hx, hs⟩ := Option.bind_eq_some_iff.1 hs
    exact stepSender_step hx hs

end TlbState

end Ya2yOS.Mm
