import Mathlib.Algebra.Ring.BooleanRing
import Mathlib.Data.List.Nodup
import Mathlib.Data.List.Perm.Basic
import Ya2yOS.Lib.Transition

/-!
# Incoming connections

`net/listen_table.rs`: a packet for a listening port makes a socket, which waits in the queue of the port. `accept`
takes a connection that was reset off the queue without removing its socket, and the address of a listener is not
compared with that of the packet.
-/

-- `grind` would try ring arithmetic on every `Bool`
attribute [-instance] instBooleanRingBool

namespace Ya2yOS.Net

open Function Lib

def LISTEN_QUEUE_SIZE : ℕ := 512

inductive SmolState where
  | closed | listen | synSent | synReceived | established | finWait1 | finWait2 | closeWait | closing | lastAck
  | timeWait
deriving DecidableEq, Repr

/-- `ListenTableEntryInner`; no address is the unspecified one. -/
structure ListenEntry where
  addr : Option ℕ
  synQueue : List ℕ

def swapRemoveFront (q : List ℕ) (i : ℕ) : Option (ℕ × List ℕ) :=
  q[i]?.map fun h => (h, (q.set i (q.headD h)).tail)

structure ListenSystem where
  tcp : ℕ → Option ListenEntry
  sockets : ℕ → Option SmolState
  /-- the socket in the slot was made by `incoming_tcp_packet` -/
  incoming : ℕ → Bool
  accepted : List ℕ
  /-- the address of the listener and of the packet, for every connection that was queued -/
  queued : List (Option ℕ × ℕ)

inductive ListenEvent where
  | listen (addr : Option ℕ) (port : ℕ)
  | unlisten (port : ℕ)
  | packet (addr port handle : ℕ)
  | accept (port : ℕ)
  | change (handle : ℕ) (state : SmolState)
  | close (handle : ℕ)
  | addOther (handle : ℕ)
  | removeOther (handle : ℕ)
deriving DecidableEq

namespace ListenSystem

def isConnected (s : ListenSystem) (h : ℕ) : Bool :=
  match s.sockets h with
  | none | some .listen | some .synReceived => false
  | some _ => true

def takeFirst (s : ListenSystem) (q : List ℕ) : Option (ℕ × List ℕ) :=
  (q.findIdx? s.isConnected).bind (swapRemoveFront q)

/-- One event; none where a handle is not in the socket set, or not free. -/
def step (s : ListenSystem) : ListenEvent → Option ListenSystem
  | .listen addr port =>
    if port = 0 then none
    else if (s.tcp port).isSome then some s
    else some { s with tcp := update s.tcp port (some ⟨addr, []⟩) }
  | .unlisten port =>
    match s.tcp port with
    | none => some s
    | some e =>
      some { s with
        tcp := update s.tcp port none
        sockets := fun h => if h ∈ e.synQueue then none else s.sockets h
        incoming := fun h => if h ∈ e.synQueue then false else s.incoming h }
  | .packet addr port h =>
    match s.tcp port with
    | none => some s
    | some e =>
      if LISTEN_QUEUE_SIZE ≤ e.synQueue.length then some s
      else if (s.sockets h).isSome then none
      else some { s with
        tcp := update s.tcp port (some { e with synQueue := e.synQueue ++ [h] })
        sockets := update s.sockets h (some .listen)
        incoming := update s.incoming h true
        queued := (e.addr, addr) :: s.queued }
  | .accept port =>
    match s.tcp port with
    | none => some s
    | some e =>
      match s.takeFirst e.synQueue with
      | none => some s
      | some (h, rest) =>
        let s := { s with tcp := update s.tcp port (some { e with synQueue := rest }) }
        -- `ECONNRESET`
        if s.sockets h = some .closed then some s else some { s with accepted := h :: s.accepted }
  | .change h state =>
    if (s.sockets h).isSome then some { s with sockets := update s.sockets h (some state) } else none
  | .close h =>
    if h ∈ s.accepted then
      some { s with
        accepted := s.accepted.erase h
        sockets := update s.sockets h none
        incoming := update s.incoming h false }
    else none
  | .addOther h =>
    if (s.sockets h).isSome then none else some { s with sockets := update s.sockets h (some .closed) }
  | .removeOther h =>
    if s.incoming h then none else some { s with sockets := update s.sockets h none }

def initial : ListenSystem := ⟨fun _ => none, fun _ => none, fun _ => false, [], []⟩

/-- The condition on a step: the first connection of the queue that is not waiting for its handshake was not reset, and
a packet is for the address of the listener of its port. -/
def Intact (s : ListenSystem) : ListenEvent → Prop
  | .accept port => ∀ e h rest, s.tcp port = some e → s.takeFirst e.synQueue = some (h, rest) →
    s.sockets h ≠ some .closed
  | .packet addr port _ => ∀ e, s.tcp port = some e → e.addr = none ∨ e.addr = some addr
  | _ => True

/-- Each socket of an incoming connection is in one queue or belongs to one accepted socket. -/
structure Owned (s : ListenSystem) : Prop where
  nodup : ∀ p e, s.tcp p = some e → e.synQueue.Nodup
  one : ∀ p q e f h, s.tcp p = some e → s.tcp q = some f → h ∈ e.synQueue → h ∈ f.synQueue → p = q
  accepted : s.accepted.Nodup
  apart : ∀ p e h, s.tcp p = some e → h ∈ e.synQueue → h ∉ s.accepted
  pending : ∀ p e h, s.tcp p = some e → h ∈ e.synQueue → s.incoming h = true
  handed : ∀ h ∈ s.accepted, s.incoming h = true
  inSet : ∀ h, s.incoming h = true → (s.sockets h).isSome
  placed : ∀ h, s.incoming h = true → h ∈ s.accepted ∨ ∃ p e, s.tcp p = some e ∧ h ∈ e.synQueue

lemma swapRemoveFront_perm {q rest : List ℕ} {i h : ℕ} (hq : swapRemoveFront q i = some (h, rest)) :
    q.Perm (h :: rest) := by
  obtain ⟨x, hx, heq⟩ := Option.map_eq_some_iff.1 hq
  cases heq
  obtain ⟨hi, rfl⟩ := List.getElem?_eq_some_iff.1 hx
  cases q with
  | nil => exact absurd hi (Nat.not_lt_zero _)
  | cons a q =>
    cases i with
    | zero => exact .refl _
    | succ i =>
      have hi : i < q.length := Nat.lt_of_succ_lt_succ hi
      have htake : (a :: q).Perm (a :: q[i] :: q.eraseIdx i) := (List.getElem_cons_eraseIdx_perm hi).symm.cons a
      exact (htake.trans (.swap _ _ _)).trans ((List.set_perm_cons_eraseIdx hi a).symm.cons _)

lemma takeFirst_perm {s : ListenSystem} {q rest : List ℕ} {h : ℕ} (hq : s.takeFirst q = some (h, rest)) :
    q.Perm (h :: rest) := by
  obtain ⟨i, -, hi⟩ := Option.bind_eq_some_iff.1 hq
  exact swapRemoveFront_perm hi

variable {s s' : ListenSystem} {e : ListenEvent}

attribute [local grind =] update_apply

lemma Owned.step (hs : s.Owned) (hg : s.Intact e) (h : s.step e = some s') : s'.Owned := by
  obtain ⟨h1, h2, h3, h4, h5, h6, h7, h8⟩ := id hs
  cases e with
  | listen addr port =>
    simp only [ListenSystem.step] at h
    split_ifs at h with h0 hsome
    · cases h
      exact hs
    cases h
    constructor
    case placed =>
      intro a ha
      refine (h8 a ha).imp_right ?_
      rintro ⟨p, x, hx, hmem⟩
      exact ⟨p, x, by grind, hmem⟩
    all_goals grind
  | unlisten port =>
    simp only [ListenSystem.step] at h
    split at h
    · cases h
      exact hs
    next x hx =>
    cases h
    constructor
    case placed =>
      intro a ha
      rcases h8 a (by grind) with hacc | ⟨p, y, hy, hmem⟩
      · exact .inl hacc
      · exact .inr ⟨p, y, by grind, hmem⟩
    all_goals grind
  | packet addr port handle =>
    simp only [ListenSystem.step] at h
    split at h
    · cases h
      exact hs
    next x hx =>
    split_ifs at h with hfull hfree
    · cases h
      exact hs
    cases h
    -- the slot is free, so nothing knows its handle
    have hnew : s.incoming handle = false := by
      have := h7 handle
      grind
    constructor
    case placed =>
      intro a ha
      by_cases hah : a = handle
      · exact .inr ⟨port, _, update_self .., by grind⟩
      rcases h8 a (by grind) with hacc | ⟨p, y, hy, hmem⟩
      · exact .inl hacc
      · by_cases hp : p = port
        · exact .inr ⟨port, _, update_self .., by grind⟩
        · exact .inr ⟨p, y, by grind, hmem⟩
    all_goals grind
  | accept port =>
    simp only [ListenSystem.step] at h
    split at h
    · cases h
      exact hs
    next x hx =>
    split at h
    · cases h
      exact hs
    next a rest htake =>
    have hperm := takeFirst_perm htake
    have hmem : ∀ b, b ∈ x.synQueue ↔ b = a ∨ b ∈ rest := fun b => by rw [hperm.mem_iff, List.mem_cons]
    have hnodup : a ∉ rest ∧ rest.Nodup := List.nodup_cons.1 (hperm.nodup_iff.1 (h1 port x hx))
    rw [if_neg (hg x a rest hx htake)] at h
    cases h
    constructor
    case placed =>
      intro b hb
      rcases h8 b hb with hacc | ⟨p, y, hy, hb⟩
      · exact .inl (List.mem_cons_of_mem _ hacc)
      by_cases hp : p = port
      · rcases (hmem b).1 (by grind) with rfl | hb
        · exact .inl List.mem_cons_self
        · exact .inr ⟨port, _, update_self .., hb⟩
      · exact .inr ⟨p, y, by grind, hb⟩
    all_goals grind
  | close handle =>
    obtain ⟨hacc, rfl⟩ := of_guard h
    have herase : ∀ b, b ∈ s.accepted.erase handle ↔ b ≠ handle ∧ b ∈ s.accepted := fun b => h3.mem_erase_iff
    constructor
    case accepted => exact h3.erase _
    case placed =>
      intro b hb
      rcases h8 b (by grind) with hb' | hb'
      · exact .inl ((herase b).2 ⟨by grind, hb'⟩)
      · exact .inr hb'
    all_goals grind
  | change handle state | addOther handle =>
    simp only [ListenSystem.step] at h
    split_ifs at h with hsome
    cases h
    exact ⟨h1, h2, h3, h4, h5, h6, by grind, h8⟩
  | removeOther handle =>
    simp only [ListenSystem.step] at h
    split_ifs at h with hin
    cases h
    exact ⟨h1, h2, h3, h4, h5, h6, by grind, h8⟩

lemma bounded_step (hb : ∀ p x, s.tcp p = some x → x.synQueue.length ≤ LISTEN_QUEUE_SIZE) (h : s.step e = some s') :
    ∀ p x, s'.tcp p = some x → x.synQueue.length ≤ LISTEN_QUEUE_SIZE := by
  have htake : ∀ q a rest, s.takeFirst q = some (a, rest) → rest.length ≤ q.length := fun q a rest hq => by
    rw [(takeFirst_perm hq).length_eq]
    exact Nat.le_succ _
  intro p x hx
  cases e <;> simp only [ListenSystem.step] at h <;> repeat' split at h
  all_goals first | cases h; grind | cases h

lemma queued_step (hq : ∀ d ∈ s.queued, d.1 = none ∨ d.1 = some d.2) (hg : s.Intact e) (h : s.step e = some s') :
    ∀ d ∈ s'.queued, d.1 = none ∨ d.1 = some d.2 := by
  cases e <;> simp only [ListenSystem.step, Intact] at h hg <;> repeat' split at h
  all_goals first | cases h; grind | cases h

/-- In every run the queues keep their limit. If moreover every connection that is accepted is found before it is reset,
and every packet is for the address of the listener, then each socket of an incoming connection that is in the socket
set is in one queue or belongs to one accepted socket, and connections are queued for their own address only. -/
theorem listeners_own_connections {t : ListenSystem} (hs : Reaches step (fun _ _ => True) initial s)
    (ht : Reaches step Intact initial t) :
    (∀ p x, s.tcp p = some x → x.synQueue.length ≤ LISTEN_QUEUE_SIZE) ∧ t.Owned ∧
      ∀ d ∈ t.queued, d.1 = none ∨ d.1 = some d.2 := by
  refine ⟨hs.invariant (fun _ _ _ hb _ he => bounded_step hb he) (fun _ _ h => by cases h), ?_⟩
  refine ht.invariant (I := fun t => t.Owned ∧ ∀ d ∈ t.queued, d.1 = none ∨ d.1 = some d.2)
    (fun _ _ _ hi hg he => ⟨hi.1.step hg he, queued_step hi.2 hg he⟩) ⟨?_, fun d hd => by cases hd⟩
  constructor <;> grind [initial]

/-- A connection is made, accepted and closed, and another one is made in its slot. -/
def acceptedRun : List ListenEvent :=
  [.listen none 80, .packet 7 80 0, .change 0 .established, .accept 80, .close 0, .packet 7 80 0]

theorem listeners_own_connections_accepted :
    ∃ s, Reaches step Intact initial s ∧ s.Owned ∧ s.incoming 0 = true := by
  have hrun : Reaches step Intact initial (run step initial acceptedRun) := by
    refine Reaches.run ⟨trivial, rfl, ?_, rfl, trivial, rfl, ?_, rfl, trivial, rfl, ?_, rfl, trivial⟩
    · rintro x hx
      cases hx
      exact .inl rfl
    · rintro x h rest hx htake
      cases hx
      cases htake
      exact fun h => by cases h
    · rintro x hx
      cases hx
      exact .inl rfl
  exact ⟨_, hrun, (listeners_own_connections .refl hrun).2.1, rfl⟩

/-- A connection that is reset before it is accepted stays in the socket set with no one to remove it, and a packet for
one address is queued for a listener at another. -/
theorem reset_connection_leaked :
    (∃ s, Reaches step (fun _ _ => True) initial s ∧ s.incoming 0 = true ∧ (s.sockets 0).isSome ∧ 0 ∉ s.accepted ∧
      ∀ p x, s.tcp p = some x → 0 ∉ x.synQueue) ∧
    ∃ s, Reaches step (fun _ _ => True) initial s ∧ (some 1, 2) ∈ s.queued := by
  refine ⟨⟨run step initial [.listen none 80, .packet 7 80 0, .change 0 .closed, .accept 80, .unlisten 80],
    Reaches.run (by decide), rfl, rfl, by decide, ?_⟩,
    ⟨run step initial [.listen (some 1) 80, .packet 2 80 0], Reaches.run (by decide), List.mem_cons_self⟩⟩
  intro p x hx
  have hnone : (run step initial [.listen none 80, .packet 7 80 0, .change 0 .closed, .accept 80, .unlisten 80]).tcp p =
      none := by
    by_cases hp : p = 80
    · subst hp
      rfl
    · have hother : ∀ (f : ℕ → Option ListenEntry) v, update f 80 v p = f p := fun f v =>
        update_of_ne hp v f
      exact (hother _ _).trans ((hother _ _).trans ((hother _ _).trans (hother _ _)))
  rw [hnone] at hx
  cases hx

end ListenSystem

end Ya2yOS.Net
