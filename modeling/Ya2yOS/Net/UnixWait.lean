import Mathlib.Data.Finset.Basic
import Ya2yOS.Net.UnixQueue
import Ya2yOS.Task.PollIo

/-!
# Waiting on a connected pair of Unix sockets

A receiver learns of the end of its peer from a weak reference that can no longer be upgraded; the socket wakes its
peer before it gives up its own reference, and a send holds another one.
-/

namespace Ya2yOS.Net

open Function

open Lib (Reaches Admits run)
open Ya2yOS.Task

inductive UnixHandle where
  | opened
  | dropping
  | gone
deriving DecidableEq

/-- Two connected sockets; the peer of the end `e` is `!e`. -/
structure UnixPair where
  kind : UnixSocketKind
  queue : Bool → UnixRecvQueue
  sendClosed : Bool → Bool
  handle : Bool → UnixHandle
  /-- The tasks that are in a call on the end, and the tasks that hold its inner socket as the target of a send. -/
  users : Bool → Finset ℕ
  targets : Bool → Finset ℕ

inductive UnixRequest where
  | receive (e : Bool) (room : ℕ) (flags : RecvFlags)
  | send (e : Bool) (src : List UInt8) (sender : UnixSocketAddr)
deriving DecidableEq

inductive UnixSet where
  | recvPoll (e : Bool)
  | writePoll (e : Bool)
deriving DecidableEq

inductive UnixPc where
  | idle
  | recv (e : Bool) (room : ℕ) (flags : RecvFlags) (again : Bool)
  | measure (e : Bool) (src : List UInt8) (sender : UnixSocketAddr) (again : Bool)
  | enqueue (e : Bool) (src : List UInt8) (sender : UnixSocketAddr) (n : ℕ) (again : Bool)
  | shutWrite (e : Bool)
  | leave (e : Bool)
  | release (e : Bool)
deriving DecidableEq

inductive UnixAction where
  | recv (e : Bool) (room : ℕ) (flags : RecvFlags)
  | send (e : Bool) (src : List UInt8) (sender : UnixSocketAddr)
  | shutdown (e read write : Bool)
  | drop (e : Bool)
  | go (nonblock : Bool)
  | interrupt

namespace UnixPair

def new (kind : UnixSocketKind) : UnixPair :=
  ⟨kind, fun _ => .new, fun _ => false, fun _ => .opened, fun _ => ∅, fun _ => ∅⟩

def Dead (r : UnixPair) (e : Bool) : Prop := r.handle e = .gone ∧ r.targets e = ∅
deriving Decidable

def setQueue (r : UnixPair) (e : Bool) (q : UnixRecvQueue) : UnixPair :=
  { r with queue := update r.queue e q }

def enterCall (r : UnixPair) (e : Bool) (t : ℕ) : UnixPair :=
  { r with users := update r.users e (insert t (r.users e)) }

def leaveCall (r : UnixPair) (e : Bool) (t : ℕ) : UnixPair :=
  { r with
    users := update r.users e ((r.users e).erase t)
    targets := update r.targets (!e) ((r.targets (!e)).erase t) }

/-- The sets that a request registers in. The set of `accept` is left out: a connected socket does not wake it. -/
def sets : UnixRequest → List UnixSet
  | .receive e _ _ => [.recvPoll e]
  | .send e _ _ => [.writePoll (!e)]

def polling (again : Bool) : UnixRequest → UnixPc
  | .receive e room flags => .recv e room flags again
  | .send e src sender => .measure e src sender again

def pending (q : UnixRequest) (again nonblock : Bool) (e : Bool) : PollPc UnixRequest UnixSet UnixPc :=
  if again then .park q else if nonblock then .client (.leave e) else .register q (sets q)

def act (r : UnixPair) (t : ℕ) : UnixPc → UnixAction → Option (UnixPair × PollPc UnixRequest UnixSet UnixPc)
  | .idle, .recv e room flags =>
    if r.handle e ≠ .opened then none
    else if (r.queue e).closed then some (r, .client .idle)
    else some (r.enterCall e t, .enter (.receive e room flags))
  | .idle, .send e src sender =>
    if r.handle e ≠ .opened then none
    else if r.sendClosed e ∨ r.Dead (!e) then some (r, .client .idle)
    else
      let r := r.enterCall e t
      some ({ r with targets := update r.targets (!e) (insert t (r.targets (!e))) },
        .enter (.send e src sender))
  | .idle, .shutdown e read write =>
    if r.handle e ≠ .opened then none
    else if read then
      some ((r.enterCall e t).setQueue e (r.queue e).closeRecv,
        .wake [.recvPoll e, .writePoll e] (if write then .shutWrite e else .leave e))
    else some (r.enterCall e t, .client (if write then .shutWrite e else .leave e))
  | .idle, .drop e =>
    if r.handle e ≠ .opened ∨ r.users e ≠ ∅ then none
    else
      some ({ r with handle := update r.handle e .dropping },
        .wake ((if r.Dead (!e) then [] else [.recvPoll (!e), .writePoll (!e)]) ++ [.recvPoll e, .writePoll e])
          (.release e))
  | .recv e room flags again, .go nonblock =>
    match (r.queue e).recv r.kind (r.Dead (!e)) room flags with
    | .ok (_, q) => some (r.setQueue e q, .wake [.writePoll e] (.leave e))
    | .error .EAGAIN => some (r, pending (.receive e room flags) again nonblock e)
    | .error _ => some (r, .client (.leave e))
  | .measure e src sender again, .go nonblock =>
    if r.sendClosed e then some (r, .client (.leave e))
    else
      match (r.queue (!e)).availableWriteBytes with
      | .error _ => some (r, .client (.leave e))
      | .ok available =>
        if src.length = 0 then some (r, .wake [.recvPoll (!e)] (.leave e))
        else
          match writeLen r.kind src.length available with
          | .ok n => some (r, .client (.enqueue e src sender n again))
          | .error .EAGAIN => some (r, pending (.send e src sender) again nonblock e)
          | .error _ => some (r, .client (.leave e))
  | .enqueue e src sender n again, .go nonblock =>
    match (r.queue (!e)).tryEnqueue ⟨src.take n, sender⟩ with
    | .ok q => some (r.setQueue (!e) q, .wake [.recvPoll (!e)] (.leave e))
    | .error .closed => some (r, .client (.leave e))
    | .error .full => some (r, pending (.send e src sender) again nonblock e)
  | .recv e _ _ false, .interrupt => some (r, .client (.leave e))
  | .measure e _ _ false, .interrupt => some (r, .client (.leave e))
  | .shutWrite e, .go _ =>
    some ({ r with sendClosed := update r.sendClosed e true },
      .wake (if r.Dead (!e) then [] else [.recvPoll (!e)]) (.leave e))
  | .leave e, .go _ => some (r.leaveCall e t, .client .idle)
  | .release e, .go _ => some ({ r with handle := update r.handle e .gone }, .client .idle)
  | _, _ => none

end UnixPair

def UnixPc.second : UnixPc → Option UnixRequest
  | .recv e room flags true => some (.receive e room flags)
  | .measure e src sender true => some (.send e src sender)
  | .enqueue e src sender _ true => some (.send e src sender)
  | _ => none

def unixClient : PollClient UnixPair UnixRequest UnixSet UnixPc UnixAction where
  sets := UnixPair.sets
  polling := UnixPair.polling false
  retrying := UnixPair.polling true
  second := UnixPc.second
  act := UnixPair.act

abbrev UnixState := PollState UnixPair UnixRequest UnixSet UnixPc

abbrev UnixEvent := PollEvent UnixAction

namespace UnixPair

def HasRoom (r : UnixPair) (e : Bool) (src : List UInt8) : Prop :=
  match r.kind with
  | .stream => (r.queue e).queuedBytes < unixBufSize
  | .dgram | .seqPacket => src.length ≤ unixBufSize - (r.queue e).queuedBytes

/-- What a call is not to sleep over: data, a hang-up of the peer, room; or that the own side is closed. -/
def Ready (r : UnixPair) : UnixRequest → Prop
  | .receive e _ _ => r.handle e ≠ .opened ∨ (r.queue e).messages ≠ [] ∨ (r.queue e).closed = true ∨
      r.handle (!e) ≠ .opened ∨ r.sendClosed (!e) = true
  | .send e src _ => r.handle e ≠ .opened ∨ (r.queue (!e)).closed = true ∨ r.handle (!e) ≠ .opened ∨ r.HasRoom (!e) src

/-- A second attempt of a receive that finds nothing finds the peer open for writing, or gone for good; a second
attempt of a send that finds no room finds the receiving end open; and no other send takes a part of the room that a
second attempt has found. -/
def Calm (r : UnixPair) : UnixPc → Prop
  | .recv e _ _ true => (r.queue e).messages = [] → r.sendClosed (!e) = false ∧
      (r.handle (!e) = .opened ∨ r.kind.isConnectionOriented = true ∧ r.Dead (!e))
  | .measure e src _ true => r.handle (!e) = .opened ∨ r.HasRoom (!e) src
  | .enqueue e src _ n true => n ≤ unixBufSize - (r.queue (!e)).queuedBytes ∨
      r.handle (!e) = .opened ∧ ¬r.HasRoom (!e) src
  | _ => True

end UnixPair

namespace UnixState

def initial (kind : UnixSocketKind) : UnixState := ⟨.new kind, fun _ => [], .initial, fun _ => .client .idle⟩

abbrev step (s : UnixState) (e : UnixEvent) : Option UnixState := PollState.step unixClient s e

def Calm (s : UnixState) : UnixEvent → Prop
  | .act t _ =>
    match s.pc t with
    | .client k => s.res.Calm k
    | _ => True
  | _ => True

def Quiet (s : UnixState) : Prop :=
  ∀ t, s.sleepers.deliveries t = [] ∧ (s.sleepers.blocked t = true ∨ s.pc t = .client .idle)

end UnixState

def UnixRequest.side : UnixRequest → Bool
  | .receive e _ _ | .send e _ _ => e

def UnixPc.side : UnixPc → Option Bool
  | .recv e _ _ _ | .measure e _ _ _ | .enqueue e _ _ _ _ | .shutWrite e | .leave e => some e
  | .idle | .release _ => none

def UnixPc.drops : UnixPc → Option Bool
  | .release e => some e
  | _ => none

namespace UnixState

open UnixPair

variable {s s' : UnixState} {t : ℕ} {e : UnixEvent} {kind : UnixSocketKind}

def inCall : PollPc UnixRequest UnixSet UnixPc → Option Bool
  | .client k | .wake _ k => k.side
  | .enter q | .register q _ | .park q => some q.side

def inDrop : PollPc UnixRequest UnixSet UnixPc → Option Bool
  | .client k | .wake _ k => k.drops
  | _ => none

structure Held (s : UnixState) : Prop where
  user : ∀ t d, inCall (s.pc t) = some d → t ∈ s.res.users d
  opened : ∀ d, s.res.users d ≠ ∅ → s.res.handle d = .opened
  dropper : ∀ t d, inDrop (s.pc t) = some d → s.res.handle d ≠ .opened

end UnixState

/-! ### The queues -/

namespace UnixRecvQueue

variable {q q' : UnixRecvQueue} {kind : UnixSocketKind} {dead : Bool} {room : ℕ} {flags : RecvFlags} {x : Received}
  {m : UnixMessage}

lemma recv_eagain (h : q.recv kind dead room flags = .error .EAGAIN) :
    q.closed = false ∧ q.messages = [] ∧ (kind.isConnectionOriented && dead) = false := by
  grind [recv]

lemma recv_ok (h : q.recv kind dead room flags = .ok (x, q')) :
    q'.closed = q.closed ∧ (q'.messages ≠ [] → q.messages ≠ []) := by
  grind [recv]

variable {n : ℕ}

lemma availableWriteBytes_ok (h : q.availableWriteBytes = .ok n) :
    q.closed = false ∧ n = unixBufSize - q.queuedBytes := by
  grind [availableWriteBytes]

lemma tryEnqueue_full (h : q.tryEnqueue m = .error .full) :
    q.closed = false ∧ unixBufSize - q.queuedBytes < m.data.length := by
  grind [tryEnqueue]

lemma tryEnqueue_ok (h : q.tryEnqueue m = .ok q') : q'.closed = q.closed ∧ q.queuedBytes ≤ q'.queuedBytes := by
  grind [tryEnqueue]

end UnixRecvQueue

namespace UnixPair

open UnixRecvQueue

variable {r r' : UnixPair} {t : ℕ} {k : UnixPc} {a : UnixAction} {pc : PollPc UnixRequest UnixSet UnixPc} {e : Bool}

attribute [grind =] Ready UnixPair.sets UnixPc.second UnixPc.side UnixPc.drops

@[grind =]
lemma setQueue_queue (r : UnixPair) (e : Bool) (q : UnixRecvQueue) (d : Bool) :
    (r.setQueue e q).queue d = if d = e then q else r.queue d :=
  update_apply _ _ _ _

@[grind =]
lemma setQueue_handle (r : UnixPair) (e : Bool) (q : UnixRecvQueue) : (r.setQueue e q).handle = r.handle := rfl

@[grind =]
lemma setQueue_sendClosed (r : UnixPair) (e : Bool) (q : UnixRecvQueue) :
    (r.setQueue e q).sendClosed = r.sendClosed := rfl

variable {src : List UInt8} {k' : UnixPc} {sender : UnixSocketAddr}

lemma HasRoom.mono (h : r'.HasRoom e src) (hkind : r'.kind = r.kind)
    (hle : (r.queue e).queuedBytes ≤ (r'.queue e).queuedBytes) : r.HasRoom e src := by
  unfold HasRoom at h ⊢
  rw [hkind] at h
  cases hk : r.kind <;> grind

lemma not_hasRoom_of_writeLen (hpos : src.length ≠ 0)
    (h : writeLen r.kind src.length (unixBufSize - (r.queue e).queuedBytes) = .error .EAGAIN) : ¬r.HasRoom e src := by
  cases hk : r.kind <;> grind [writeLen, HasRoom]

section Honest

variable (hready : ∀ q, r'.Ready q → r.Ready q)
include hready

lemma honest_client (hk : k'.second = none ∨ k'.second = k.second) :
    PollState.Honest unixClient Ready r r' k (.client k') := by
  refine ⟨fun q h => .inl (hready q h), nofun, ?_, nofun, nofun⟩
  rintro k'' q ⟨⟩ hq
  rcases hk with hk | hk
  · cases hk.symm.trans hq
  · exact hk.symm.trans hq

lemma honest_enter (q : UnixRequest) : PollState.Honest unixClient Ready r r' k (.enter q) :=
  ⟨fun q h => .inl (hready q h), nofun, nofun, nofun, nofun⟩

end Honest

lemma honest_wake {rest : List UnixSet} (h : ∀ q, r'.Ready q → r.Ready q ∨ ∃ i ∈ rest, i ∈ sets q)
    (hk : k'.second = none) : PollState.Honest unixClient Ready r r' k (.wake rest k') :=
  ⟨fun q hq => (h q hq).imp_right fun hi => ⟨rest, k', rfl, hi⟩, nofun, nofun, nofun, by rintro _ _ ⟨⟩; exact hk⟩

variable {again nonblock : Bool}

lemma honest_pending {q : UnixRequest} (h : again = true → k.second = some q ∧ ¬r.Ready q) :
    PollState.Honest unixClient Ready r r k (pending q again nonblock e) := by
  unfold pending
  split_ifs with ha hn
  · exact ⟨fun _ => .inl, by rintro q' ⟨⟩; exact h ha, nofun, nofun, nofun⟩
  · exact honest_client (fun _ => id) (.inl rfl)
  · exact ⟨fun _ => .inl, nofun, nofun, by rintro q' rest ⟨⟩; rfl, nofun⟩

lemma ready_frame (hkind : r'.kind = r.kind) (hqueue : r'.queue = r.queue) (hshut : r'.sendClosed = r.sendClosed)
    (hhandle : ∀ d, r'.handle d ≠ .opened → r.handle d ≠ .opened) (q : UnixRequest) (h : r'.Ready q) : r.Ready q := by
  have hroom : ∀ d src, r'.HasRoom d src → r.HasRoom d src := fun d src h => h.mono hkind (by rw [hqueue])
  cases q <;> grind

lemma ready_setQueue {q : UnixRecvQueue} {x : UnixRequest} (h : (r.setQueue e q).Ready x) :
    r.Ready x ∨ (∃ room flags, x = .receive e room flags ∧ (q.messages ≠ [] ∨ q.closed = true)) ∨
      ∃ src sender, x = .send (!e) src sender ∧ (q.closed = true ∨ (r.setQueue e q).HasRoom e src) := by
  have hroom : ∀ d src, d ≠ e → (r.setQueue e q).HasRoom d src → r.HasRoom d src :=
    fun d src hd h => h.mono rfl (by grind)
  cases x with
  | receive d room flags => by_cases hd : d = e <;> grind
  | send d src sender =>
    by_cases hd : (!d) = e
    · subst hd
      grind
    · grind

lemma honest_recv {room : ℕ} {flags : RecvFlags} (hside : r.handle e = .opened)
    (hcalm : r.Calm (.recv e room flags again))
    (h : r.act t (.recv e room flags again) (.go nonblock) = some (r', pc)) :
    PollState.Honest unixClient Ready r r' (.recv e room flags again) pc := by
  simp only [act] at h
  split at h
  · rename_i x q hq
    cases h
    obtain ⟨hclosed, hmessages⟩ := recv_ok hq
    refine honest_wake (fun x hx => ?_) rfl
    rcases ready_setQueue hx with hold | ⟨room, flags, rfl, hnew⟩ | ⟨src, sender, rfl, hnew⟩
    · exact .inl hold
    · exact .inl (by grind)
    · exact .inr ⟨_, List.mem_singleton_self _, by grind⟩
  · rename_i hq
    cases h
    obtain ⟨hclosed, hmessages, hdead⟩ := recv_eagain hq
    refine honest_pending fun hagain => ?_
    subst hagain
    have hcalm := hcalm hmessages
    exact ⟨rfl, by grind⟩
  · cases h
    exact honest_client (fun _ => id) (.inl rfl)

lemma honest_measure (hside : r.handle e = .opened) (hcalm : r.Calm (.measure e src sender again))
    (h : r.act t (.measure e src sender again) (.go nonblock) = some (r', pc)) :
    PollState.Honest unixClient Ready r r' (.measure e src sender again) pc := by
  simp only [act] at h
  by_cases hshut : r.sendClosed e = true
  · rw [if_pos hshut] at h
    cases h
    exact honest_client (fun _ => id) (.inl rfl)
  rw [if_neg hshut] at h
  split at h
  · cases h
    exact honest_client (fun _ => id) (.inl rfl)
  rename_i available havail
  split_ifs at h with hzero
  · cases h
    exact honest_wake (fun _ => .inl) rfl
  split at h
  · cases h
    exact honest_client (fun _ => id) (.inr (by cases again <;> rfl))
  · rename_i hlen
    cases h
    obtain ⟨hclosed, rfl⟩ := availableWriteBytes_ok havail
    have hroom := not_hasRoom_of_writeLen hzero hlen
    refine honest_pending fun hagain => ?_
    subst hagain
    have hopen := hcalm.resolve_right hroom
    exact ⟨rfl, by grind⟩
  · cases h
    exact honest_client (fun _ => id) (.inl rfl)

lemma honest_enqueue (hside : r.handle e = .opened) (hcalm : r.Calm (.enqueue e src sender n again))
    (h : r.act t (.enqueue e src sender n again) (.go nonblock) = some (r', pc)) :
    PollState.Honest unixClient Ready r r' (.enqueue e src sender n again) pc := by
  simp only [act] at h
  split at h
  · rename_i q hq
    cases h
    obtain ⟨hclosed, hbytes⟩ := tryEnqueue_ok hq
    refine honest_wake (fun x hx => ?_) rfl
    rcases ready_setQueue hx with hold | ⟨room, flags, rfl, hnew⟩ | ⟨src', sender', rfl, hnew⟩
    · exact .inl hold
    · exact .inr ⟨_, List.mem_singleton_self _, by grind⟩
    · -- less room than before
      have hroom : (r.setQueue (!e) q).HasRoom (!e) src' → r.HasRoom (!e) src' := fun h => h.mono rfl (by grind)
      exact .inl (by grind)
  · cases h
    exact honest_client (fun _ => id) (.inl rfl)
  · rename_i hq
    cases h
    obtain ⟨hclosed, hfull⟩ := tryEnqueue_full hq
    refine honest_pending fun hagain => ?_
    subst hagain
    rcases hcalm with hfit | ⟨hopen, hroom⟩
    · have hle : (src.take n).length ≤ n := List.length_take_le n src
      grind
    · exact ⟨rfl, by grind⟩

/-- A socket that is closed wakes those who wait on it and, if its peer is not gone, those who wait on its peer. -/
lemma honest_drop (h : r.act t .idle (.drop e) = some (r', pc)) : PollState.Honest unixClient Ready r r' .idle pc := by
  simp only [act] at h
  by_cases hopen : r.handle e ≠ .opened ∨ r.users e ≠ ∅
  · rw [if_pos hopen] at h
    cases h
  rw [if_neg hopen] at h
  cases h
  refine honest_wake (fun x _ => ?_) rfl
  rw [or_iff_not_imp_left]
  intro hready
  cases x with
  | receive d room flags =>
    have hd : d = e ∨ d = (!e) ∧ ¬r.Dead (!e) := by cases d <;> cases e <;> grind [Dead]
    exact ⟨.recvPoll d, by grind, by grind⟩
  | send d src sender =>
    have hd : (!d) = e ∨ (!d) = (!e) ∧ ¬r.Dead (!e) := by cases d <;> cases e <;> grind [Dead]
    exact ⟨.writePoll (!d), by grind, by grind⟩

lemma honest_act (hside : ∀ d, k.side = some d → r.handle d = .opened)
    (hdrop : ∀ d, k.drops = some d → r.handle d ≠ .opened) (hcalm : r.Calm k) (h : r.act t k a = some (r', pc)) :
    PollState.Honest unixClient Ready r r' k pc := by
  cases k with
  | idle =>
    cases a with
    | recv e room flags | send e src sender =>
      simp only [act] at h
      split_ifs at h <;> cases h
      · exact honest_client (fun _ => id) (.inl rfl)
      · refine honest_enter ?_ _
        exact ready_frame rfl rfl rfl fun _ => id
    | shutdown e read write =>
      simp only [act] at h
      by_cases hopen : r.handle e ≠ .opened
      · rw [if_pos hopen] at h
        cases h
      rw [if_neg hopen] at h
      split at h <;> cases h
      · refine honest_wake (fun x hx => ?_) (by split_ifs <;> rfl)
        rcases ready_setQueue hx with hold | ⟨room, flags, rfl, hnew⟩ | ⟨src, sender, rfl, hnew⟩
        · exact .inl (ready_frame rfl rfl rfl (fun _ => id) x hold)
        · exact .inr ⟨.recvPoll e, by grind, by grind⟩
        · exact .inr ⟨.writePoll e, by grind, by grind⟩
      · refine honest_client ?_ (.inl (by split_ifs <;> rfl))
        exact ready_frame rfl rfl rfl fun _ => id
    | drop e => exact honest_drop h
    | go nonblock => cases h
    | interrupt => cases h
  | recv e room flags again =>
    cases a with
    | go nonblock => exact honest_recv (hside e rfl) hcalm h
    | interrupt =>
      cases again <;> cases h
      exact honest_client (fun _ => id) (.inl rfl)
    | _ => cases h
  | measure e src sender again =>
    cases a with
    | go nonblock => exact honest_measure (hside e rfl) hcalm h
    | interrupt =>
      cases again <;> cases h
      exact honest_client (fun _ => id) (.inl rfl)
    | _ => cases h
  | enqueue e src sender n again =>
    cases a with
    | go nonblock => exact honest_enqueue (hside e rfl) hcalm h
    | _ => cases h
  | shutWrite e =>
    cases a with
    | go nonblock =>
      cases h
      refine honest_wake (fun x hx => ?_) rfl
      rw [or_iff_not_imp_left]
      intro hready
      cases x with
      | receive d room flags =>
        have hd : d = (!e) ∧ ¬r.Dead (!e) := by cases d <;> cases e <;> grind [Dead]
        exact ⟨.recvPoll d, by grind, by grind⟩
      | send d src sender =>
        have hroom : HasRoom { r with sendClosed := update r.sendClosed e true } (!d) src →
            r.HasRoom (!d) src := fun h => h.mono rfl le_rfl
        grind
    | _ => cases h
  | leave e =>
    cases a with
    | go nonblock =>
      cases h
      refine honest_client ?_ (.inl rfl)
      exact ready_frame rfl rfl rfl fun _ => id
    | _ => cases h
  | release e =>
    cases a with
    | go nonblock =>
      cases h
      have hgone := hdrop e rfl
      refine honest_client ?_ (.inl rfl)
      exact ready_frame rfl rfl rfl (by grind)
    | _ => cases h

end UnixPair

namespace UnixState

open UnixPair

variable {s s' : UnixState} {t : ℕ} {e : UnixEvent} {kind : UnixSocketKind}

attribute [grind =] inCall inDrop UnixRequest.side

lemma advance_spec (h : PollState.advance unixClient s t (s.pc t) = some s') :
    s'.res = s.res ∧ ∃ pc, s'.pc = update s.pc t pc ∧ inCall pc = inCall (s.pc t) ∧ inDrop pc = inDrop (s.pc t) := by
  have hside : ∀ q again, (polling again q).side = some q.side ∧ (polling again q).drops = none := by
    rintro (_ | _) again <;> exact ⟨rfl, rfl⟩
  generalize hpc : s.pc t = pc at h
  cases pc with
  | client k =>
    cases h
  | enter q | park q =>
    cases h
    exact ⟨rfl, _, rfl, (hside q false).1, (hside q false).2⟩
  | register q rest =>
    cases rest <;> cases h
    · exact ⟨rfl, _, rfl, (hside q true).1, (hside q true).2⟩
    · exact ⟨rfl, _, rfl, rfl, rfl⟩
  | wake rest k =>
    cases rest <;> cases h <;> exact ⟨rfl, _, rfl, rfl, rfl⟩

structure Holds (r r' : UnixPair) (t : ℕ) (pc : PollPc UnixRequest UnixSet UnixPc) : Prop where
  user : ∀ d, inCall pc = some d → t ∈ r'.users d
  others : ∀ d u, u ≠ t → u ∈ r.users d → u ∈ r'.users d
  opened : ∀ d, r'.users d ≠ ∅ → r'.handle d = .opened
  dropper : ∀ d, inDrop pc = some d → r'.handle d ≠ .opened
  gone : ∀ d, r.handle d ≠ .opened → r'.handle d ≠ .opened

section Holds

variable {r r' : UnixPair} {k : UnixPc} {a : UnixAction} {pc : PollPc UnixRequest UnixSet UnixPc} {e : Bool}
  (hopened : ∀ d, r.users d ≠ ∅ → r.handle d = .opened)
include hopened

lemma holds_of_same (huser : ∀ d, inCall pc = some d → t ∈ r.users d) (hdrop : inDrop pc = none)
    (husers : r'.users = r.users) (hhandle : r'.handle = r.handle) : Holds r r' t pc := by
  refine ⟨?_, ?_, ?_, ?_, ?_⟩ <;> simp only [husers, hhandle] <;> grind

lemma holds_enter (hopen : r.handle e = .opened) (hcall : inCall pc = some e) (hdrop : inDrop pc = none)
    (husers : r'.users = (r.enterCall e t).users) (hhandle : r'.handle = r.handle) : Holds r r' t pc := by
  have hu : ∀ d, r'.users d = if d = e then insert t (r.users e) else r.users d := by
    rw [husers]
    exact update_apply _ _ _
  refine ⟨?_, ?_, ?_, ?_, ?_⟩ <;> grind

lemma holds_pending {q : UnixRequest} {again nonblock : Bool} (huser : t ∈ r.users e) (hq : q.side = e) :
    Holds r r t (pending q again nonblock e) := by
  refine holds_of_same hopened ?_ ?_ rfl rfl <;> unfold pending <;> split_ifs <;> grind

lemma holds_act (huser : ∀ d, k.side = some d → t ∈ r.users d) (hdrop : ∀ d, k.drops = some d → r.handle d ≠ .opened)
    (h : r.act t k a = some (r', pc)) : Holds r r' t pc := by
  cases k with
  | idle =>
    cases a with
    | recv e room flags | send e src sender =>
      simp only [act] at h
      split_ifs at h with hopen hclosed <;> cases h
      · exact holds_of_same hopened nofun rfl rfl rfl
      · exact holds_enter hopened (not_not.1 hopen) rfl rfl rfl rfl
    | shutdown e read write =>
      simp only [act] at h
      split_ifs at h with hopen <;> cases h <;> exact holds_enter hopened (not_not.1 hopen) rfl rfl rfl rfl
    | drop e =>
      simp only [act] at h
      by_cases hopen : r.handle e ≠ .opened ∨ r.users e ≠ ∅
      · rw [if_pos hopen] at h
        cases h
      rw [if_neg hopen] at h
      cases h
      have hhandle : ∀ d, update r.handle e .dropping d = if d = e then .dropping else r.handle d := update_apply _ _ _
      refine ⟨nofun, ?_, ?_, ?_, ?_⟩ <;> grind
    | go nonblock | interrupt => cases h
  | recv e room flags again =>
    have hin := huser e rfl
    cases a with
    | go nonblock =>
      simp only [act] at h
      split at h <;> cases h
      · exact holds_of_same hopened (by grind) rfl rfl rfl
      · exact holds_pending hopened hin rfl
      · exact holds_of_same hopened (by grind) rfl rfl rfl
    | interrupt =>
      cases again <;> cases h
      exact holds_of_same hopened (by grind) rfl rfl rfl
    | _ => cases h
  | measure e src sender again =>
    have hin := huser e rfl
    cases a with
    | go nonblock =>
      simp only [act] at h
      split at h
      · cases h
        exact holds_of_same hopened (by grind) rfl rfl rfl
      split at h
      · cases h
        exact holds_of_same hopened (by grind) rfl rfl rfl
      split at h
      · cases h
        exact holds_of_same hopened (by grind) rfl rfl rfl
      · split at h <;> cases h
        · exact holds_of_same hopened (by grind) rfl rfl rfl
        · exact holds_pending hopened hin rfl
        · exact holds_of_same hopened (by grind) rfl rfl rfl
    | interrupt =>
      cases again <;> cases h
      exact holds_of_same hopened (by grind) rfl rfl rfl
    | _ => cases h
  | enqueue e src sender n again =>
    have hin := huser e rfl
    cases a with
    | go nonblock =>
      simp only [act] at h
      split at h <;> cases h
      · exact holds_of_same hopened (by grind) rfl rfl rfl
      · exact holds_of_same hopened (by grind) rfl rfl rfl
      · exact holds_pending hopened hin rfl
    | _ => cases h
  | shutWrite e =>
    have hin := huser e rfl
    cases a with
    | go nonblock =>
      cases h
      exact holds_of_same hopened (by grind) rfl rfl rfl
    | _ => cases h
  | leave e =>
    cases a with
    | go nonblock =>
      cases h
      have hu : ∀ d, (r.leaveCall e t).users d = if d = e then (r.users e).erase t else r.users d := update_apply _ _ _
      have hhandle : (r.leaveCall e t).handle = r.handle := rfl
      refine ⟨nofun, ?_, ?_, nofun, ?_⟩ <;> grind
    | _ => cases h
  | release e =>
    cases a with
    | go nonblock =>
      cases h
      have hgone := hdrop e rfl
      have hhandle : ∀ d, update r.handle e .gone d = if d = e then .gone else r.handle d := update_apply _ _ _
      refine ⟨nofun, ?_, ?_, nofun, ?_⟩ <;> grind
    | _ => cases h

end Holds

lemma Held.step (hs : s.Held) (h : s.step e = some s') : s'.Held := by
  cases e with
  | act t a =>
    simp only [UnixState.step, PollState.step] at h
    split at h
    · rename_i k hpc
      split_ifs at h
      obtain ⟨⟨r, pc⟩, hx, rfl⟩ := Option.map_eq_some_iff.1 h
      have hk := holds_act hs.opened (fun d hd => hs.user t d (by rw [hpc]; exact hd))
        (fun d hd => hs.dropper t d (by rw [hpc]; exact hd)) hx
      have hpcs : ∀ u, (PollState.goto { s with res := r } t pc).pc u = if u = t then pc else s.pc u :=
        update_apply _ _ _
      refine ⟨fun u d hu => ?_, hk.opened, fun u d hu => ?_⟩
      · rw [hpcs] at hu
        split_ifs at hu with hut
        · exact hut ▸ hk.user d hu
        · exact hk.others d u hut (hs.user u d hu)
      · rw [hpcs] at hu
        split_ifs at hu
        · exact hk.dropper d hu
        · exact hk.gone d (hs.dropper u d hu)
    · cases h
  | run t =>
    simp only [UnixState.step, PollState.step] at h
    split_ifs at h
    obtain ⟨hres, pc, hpc, hcall, hdrop⟩ := advance_spec h
    have hpcs : ∀ u, inCall (s'.pc u) = inCall (s.pc u) ∧ inDrop (s'.pc u) = inDrop (s.pc u) := by
      intro u
      rw [hpc, update_apply]
      split_ifs with hut
      · exact hut ▸ ⟨hcall, hdrop⟩
      · exact ⟨rfl, rfl⟩
    refine ⟨fun u d hu => ?_, hres ▸ hs.opened, fun u d hu => ?_⟩
    · rw [hres]
      exact hs.user u d ((hpcs u).1 ▸ hu)
    · rw [hres]
      exact hs.dropper u d ((hpcs u).2 ▸ hu)
  | deliver t =>
    obtain ⟨sl, -, rfl⟩ := Option.map_eq_some_iff.1 h
    exact ⟨hs.user, hs.opened, hs.dropper⟩
  | rouse t =>
    cases h
    exact ⟨hs.user, hs.opened, hs.dropper⟩

lemma held_initial (kind : UnixSocketKind) : (initial kind).Held := ⟨nofun, fun _ h => absurd rfl h, nofun⟩

lemma sound_step (hs : s.Sound unixClient Ready) (hheld : s.Held) (hcalm : s.Calm e) (h : s.step e = some s') :
    s'.Sound unixClient Ready := by
  refine hs.step ?_ ?_ ?_ h
  · rintro (_ | _) <;> rfl
  · rintro (_ | _) <;> rfl
  · rintro t k a r pc rfl hpc hx
    simp only [Calm, hpc] at hcalm
    refine honest_act (fun d hd => ?_) (fun d hd => hheld.dropper t d (by rw [hpc]; exact hd)) hcalm hx
    exact hheld.opened d (Finset.ne_empty_of_mem (hheld.user t d (by rw [hpc]; exact hd)))

lemma sound_initial (kind : UnixSocketKind) : (initial kind).Sound unixClient Ready := ⟨fun _ => ⟨nofun, nofun⟩, nofun⟩

/-- In every calm run, a task that is parked while no step is in flight waits for something that has not happened: a
receiver for data or a hang-up, a sender for room or a hang-up. -/
theorem unix_parked_not_ready (h : Reaches UnixState.step Calm (initial kind) s) (hquiet : s.Quiet)
    (ht : s.sleepers.blocked t = true) : ∃ q, s.pc t = .client (polling false q) ∧ ¬s.res.Ready q := by
  have hs := h.invariant (I := fun s => s.Held ∧ s.Sound unixClient Ready)
    (fun _ _ _ hs hg he => ⟨hs.1.step he, sound_step hs.2 hs.1 hg he⟩) ⟨held_initial kind, sound_initial kind⟩
  refine hs.2.not_ready (fun u rest k hu => ?_) (fun u => (hquiet u).1) ht
  have hfit := hs.2.fits u
  rw [hu] at hfit
  rcases (hquiet u).2 with hb | hidle
  · cases hfit.1.symm.trans hb
  · cases hidle.symm.trans hu

def parks (t : ℕ) : List UnixEvent := [.act t (.go false), .run t, .run t, .act t (.go false), .run t]

def receives (t : ℕ) : List UnixEvent := [.act t (.recv false 1 ⟨false, false⟩), .run t] ++ parks t

lemma quiet_of_pair (hd : ∀ t, s.sleepers.deliveries (t + 2) = []) (hp : ∀ t, s.pc (t + 2) = .client .idle)
    (h0 : s.sleepers.deliveries 0 = [] ∧ s.sleepers.blocked 0 = true)
    (h1 : s.sleepers.deliveries 1 = [] ∧ s.pc 1 = .client .idle) : s.Quiet
  | 0 => ⟨h0.1, .inl h0.2⟩
  | 1 => ⟨h1.1, .inr h1.2⟩
  | t + 2 => ⟨hd t, .inr (hp t)⟩

/-- The receiver parks, is woken by a send, takes the byte and parks again. -/
def serves : List UnixEvent :=
  receives 0 ++ [.act 1 (.send true [7] .unnamed), .run 1, .act 1 (.go false), .act 1 (.go false), .run 1, .deliver 1,
    .run 1, .act 1 (.go false), .act 0 (.go false), .run 0, .run 0, .act 0 (.go false)] ++ receives 0

theorem unix_parked_not_ready_empty : ∃ s, Reaches UnixState.step Calm (initial .stream) s ∧ s.Quiet ∧
    s.sleepers.blocked 0 = true ∧ ∃ q, s.pc 0 = .client (polling false q) ∧ ¬s.res.Ready q := by
  have hadmits : Admits UnixState.step Calm (initial .stream) serves :=
    .of_guards (by decide) ⟨trivial, trivial, trivial, trivial, trivial, fun _ => ⟨rfl, .inl rfl⟩, trivial, trivial,
      trivial, trivial, trivial, trivial, trivial, trivial, trivial, trivial, trivial, trivial, trivial, trivial,
      trivial, trivial, trivial, trivial, fun _ => ⟨rfl, .inl rfl⟩, trivial, trivial⟩
  have hreach := Reaches.run hadmits
  have hquiet : Quiet (run UnixState.step (initial .stream) serves) :=
    quiet_of_pair (fun _ => rfl) (fun _ => rfl) ⟨rfl, rfl⟩ ⟨rfl, rfl⟩
  exact ⟨_, hreach, hquiet, rfl, unix_parked_not_ready hreach hquiet rfl⟩

def shutsWrite : List UnixEvent :=
  receives 0 ++
    [.act 1 (.shutdown true false true), .act 1 (.go false), .run 1, .deliver 1, .run 1, .act 1 (.go false)] ++
    parks 0 ++ parks 0

/-- The peer is dropped, and the receiver tries again before the peer gives up its reference. -/
def dropsSlowly : List UnixEvent :=
  receives 0 ++ [.act 1 (.drop true), .run 1, .deliver 1] ++ parks 0 ++ parks 0 ++
    [.run 1, .run 1, .run 1, .run 1, .act 1 (.go false)]

/-- A receiver stays parked after its peer has shut down writing, and after its peer has gone. -/
theorem unix_receiver_parked_after_hangup :
    (∃ s, Reaches UnixState.step (fun _ _ => True) (initial .stream) s ∧ s.Quiet ∧ s.sleepers.blocked 0 = true ∧
      s.pc 0 = .client (.recv false 1 ⟨false, false⟩ false) ∧ s.res.sendClosed true = true) ∧
    ∃ s, Reaches UnixState.step (fun _ _ => True) (initial .stream) s ∧ s.Quiet ∧ s.sleepers.blocked 0 = true ∧
      s.pc 0 = .client (.recv false 1 ⟨false, false⟩ false) ∧ s.res.handle true = .gone := by
  constructor
  · exact ⟨run UnixState.step (initial .stream) shutsWrite, Reaches.run (by decide),
      quiet_of_pair (fun _ => rfl) (fun _ => rfl) ⟨rfl, rfl⟩ ⟨rfl, rfl⟩, rfl, rfl, rfl⟩
  · exact ⟨run UnixState.step (initial .stream) dropsSlowly, Reaches.run (by decide),
      quiet_of_pair (fun _ => rfl) (fun _ => rfl) ⟨rfl, rfl⟩ ⟨rfl, rfl⟩, rfl, rfl, rfl⟩

end UnixState

end Ya2yOS.Net
