import Mathlib.Algebra.BigOperators.Group.List.Basic
import Mathlib.Data.List.Infix
import Ya2yOS.Lib.Transition
import Ya2yOS.Utils.SysErrNo

/-!
# The receive queue of a Unix socket

Sends and receives on one `AF_UNIX` socket. A send looks at the room of the queue and enters its message under two
locks.
-/

namespace Ya2yOS.Net

open List

open Lib (Reaches Admits run)

def unixBufSize : ℕ := 64 * 1024

inductive UnixSocketKind where
  | stream
  | dgram
  | seqPacket
deriving DecidableEq

def UnixSocketKind.isConnectionOriented : UnixSocketKind → Bool
  | .stream | .seqPacket => true
  | .dgram => false

inductive UnixSocketAddr where
  | unnamed
  | abstractName (name : List UInt8)
  | path (name : String)
deriving DecidableEq

structure UnixMessage where
  data : List UInt8
  sender : UnixSocketAddr
deriving DecidableEq

structure UnixRecvQueue where
  messages : List UnixMessage
  queuedBytes : ℕ
  closed : Bool
deriving DecidableEq

inductive QueuePushError where
  | closed
  | full

structure RecvFlags where
  peek : Bool
  truncate : Bool
deriving DecidableEq

structure Received where
  count : ℕ
  bytes : List UInt8
  source : Option UnixSocketAddr
deriving DecidableEq

namespace UnixRecvQueue

def new : UnixRecvQueue := ⟨[], 0, false⟩

def tryEnqueue (q : UnixRecvQueue) (m : UnixMessage) : Except QueuePushError UnixRecvQueue :=
  if q.closed then .error .closed
  else if unixBufSize - q.queuedBytes < m.data.length then .error .full
  else .ok { q with queuedBytes := q.queuedBytes + m.data.length, messages := q.messages ++ [m] }

def availableWriteBytes (q : UnixRecvQueue) : Except QueuePushError ℕ :=
  if q.closed then .error .closed else .ok (unixBufSize - q.queuedBytes)

def closeRecv (_ : UnixRecvQueue) : UnixRecvQueue := ⟨[], 0, true⟩

def recv (q : UnixRecvQueue) (kind : UnixSocketKind) (peerClosed : Bool) (room : ℕ) (flags : RecvFlags) :
    Except SysErrNo (Received × UnixRecvQueue) :=
  if q.closed then .ok (⟨0, [], none⟩, q)
  else
    match q.messages with
    | [] => if kind.isConnectionOriented && peerClosed then .ok (⟨0, [], none⟩, q) else .error .EAGAIN
    | m :: rest =>
      let len := m.data.length
      let written := min room len
      if kind = .stream ∧ written < len then
        let m' := { m with data := m.data.drop written }
        .ok (⟨written, m.data.take written, none⟩,
          { q with queuedBytes := q.queuedBytes - (len - m'.data.length), messages := m' :: rest })
      else if flags.truncate then
        .ok (⟨len, m.data.take written, some m.sender⟩, { q with queuedBytes := q.queuedBytes - len, messages := rest })
      else
        .ok (⟨written, m.data.take written, some m.sender⟩,
          { q with queuedBytes := q.queuedBytes - len, messages := rest })

end UnixRecvQueue

def writeLen (kind : UnixSocketKind) (len available : ℕ) : Except SysErrNo ℕ :=
  match kind with
  | .stream => if min len available = 0 then .error .EAGAIN else .ok (min len available)
  | .dgram | .seqPacket =>
    if unixBufSize < len then .error .EMSGSIZE else if available < len then .error .EAGAIN else .ok len

def sentMessage (kind : UnixSocketKind) (src : List UInt8) (n : ℕ) (sender : UnixSocketAddr) : UnixMessage :=
  ⟨match kind with
    | .stream => src.take n
    | .dgram | .seqPacket => src, sender⟩

/-- Where a sender stands: before it looks at the room, and before it enters a part of its bytes. -/
inductive UnixSendPc where
  | idle
  | sending (src : List UInt8) (sender : UnixSocketAddr)
  | measured (src : List UInt8) (sender : UnixSocketAddr) (n : ℕ)

structure Receipt where
  room : ℕ
  flags : RecvFlags
  result : Received

structure UnixQueueSystem where
  kind : UnixSocketKind
  queue : UnixRecvQueue
  pc : ℕ → UnixSendPc
  sent : List UnixMessage
  receipts : List Receipt

inductive UnixQueueEvent where
  | send (t : ℕ) (src : List UInt8) (sender : UnixSocketAddr)
  | measure (t : ℕ)
  | enqueue (t : ℕ)
  | giveUp (t : ℕ)
  | recv (peerClosed : Bool) (room : ℕ) (flags : RecvFlags)
  | closeRecv

namespace UnixQueueSystem

def initial (kind : UnixSocketKind) : UnixQueueSystem := ⟨kind, .new, fun _ => .idle, [], []⟩

def goto (s : UnixQueueSystem) (t : ℕ) (pc : UnixSendPc) : UnixQueueSystem :=
  { s with pc := Function.update s.pc t pc }

def step (s : UnixQueueSystem) : UnixQueueEvent → Option UnixQueueSystem
  | .send t src sender =>
    match s.pc t with
    | .idle => some (s.goto t (.sending src sender))
    | _ => none
  | .measure t =>
    match s.pc t with
    | .sending src sender =>
      match s.queue.availableWriteBytes with
      | .error _ => some (s.goto t .idle)
      | .ok available =>
        if src.length = 0 then some (goto { s with sent := s.sent ++ [⟨[], sender⟩] } t .idle)
        else
          match writeLen s.kind src.length available with
          | .ok n => some (s.goto t (.measured src sender n))
          | .error .EAGAIN => some s
          | .error _ => some (s.goto t .idle)
    | _ => none
  | .enqueue t =>
    match s.pc t with
    | .measured src sender n =>
      match s.queue.tryEnqueue ⟨src.take n, sender⟩ with
      | .ok q => some (goto { s with queue := q, sent := s.sent ++ [sentMessage s.kind src n sender] } t .idle)
      | .error .closed => some (s.goto t .idle)
      | .error .full => some (s.goto t (.sending src sender))
    | _ => none
  | .giveUp t =>
    match s.pc t with
    | .sending _ _ => some (s.goto t .idle)
    | _ => none
  | .recv peerClosed room flags =>
    match s.queue.recv s.kind peerClosed room flags with
    | .error _ => some s
    | .ok (result, q) =>
      some { s with
        queue := q
        receipts := if s.queue.messages = [] then s.receipts else s.receipts ++ [⟨room, flags, result⟩] }
  | .closeRecv => some { s with queue := s.queue.closeRecv }

end UnixQueueSystem

/-! ### The abstract queues -/

def UnixMessage.bytes (ms : List UnixMessage) : List UInt8 := ms.flatMap (·.data)

namespace Receipt

def takeBytes (bytes : List UInt8) (r : Receipt) : Option (List UInt8) :=
  if r.result.bytes.length ≤ r.room ∧ r.result.count = r.result.bytes.length ∧ r.result.bytes <+: bytes then
    some (if r.flags.peek then bytes else bytes.drop r.result.bytes.length)
  else none

def takeMessage (ms : List UnixMessage) (r : Receipt) : Option (List UnixMessage) :=
  match ms with
  | [] => none
  | m :: rest =>
    if r.result = ⟨if r.flags.truncate then m.data.length else min r.room m.data.length, m.data.take r.room,
        some m.sender⟩ then
      some (if r.flags.peek then m :: rest else rest)
    else none

variable {r : Receipt}

lemma takeBytes_append {bytes rest : List UInt8} (h : r.takeBytes bytes = some rest)
    (more : List UInt8) : r.takeBytes (bytes ++ more) = some (rest ++ more) := by
  unfold takeBytes at h ⊢
  split_ifs at h with hr hp
  · cases h
    rw [if_pos ⟨hr.1, hr.2.1, hr.2.2.trans (prefix_append _ _)⟩, if_pos hp]
  · cases h
    rw [if_pos ⟨hr.1, hr.2.1, hr.2.2.trans (prefix_append _ _)⟩, if_neg hp, drop_append_of_le_length hr.2.2.length_le]

lemma takeMessage_append {ms rest : List UnixMessage} (h : r.takeMessage ms = some rest)
    (more : List UnixMessage) : r.takeMessage (ms ++ more) = some (rest ++ more) := by
  cases ms with
  | nil => cases h
  | cons m ms =>
    simp only [takeMessage, cons_append] at h ⊢
    split_ifs at h ⊢ <;> grind

end Receipt

lemma foldlM_append_right {α β : Type*} {f : List α → β → Option (List α)}
    (hf : ∀ {l l' b}, f l b = some l' → ∀ more, f (l ++ more) b = some (l' ++ more)) {bs : List β} {l l' : List α}
    (h : bs.foldlM f l = some l') (more : List α) : bs.foldlM f (l ++ more) = some (l' ++ more) := by
  induction bs generalizing l with
  | nil => exact congrArg (fun l => some (l ++ more)) (Option.some.inj h)
  | cons b bs ih =>
    rw [foldlM_cons] at h ⊢
    obtain ⟨mid, hb, hrest⟩ := Option.bind_eq_some_iff.1 h
    rw [hf hb more]
    exact ih hrest

lemma foldlM_concat {α β : Type*} {f : α → β → Option α} {bs : List β} {a a' a'' : α} {b : β}
    (h : bs.foldlM f a = some a') (hb : f a' b = some a'') : (bs ++ [b]).foldlM f a = some a'' := by
  rw [foldlM_append, h]
  show f a' b >>= pure = some a''
  rw [hb]
  rfl

namespace UnixQueueSystem

/-- What the receives have taken, replayed on what has been sent, leaves what is queued. -/
def Delivers (s : UnixQueueSystem) : Prop :=
  match s.kind with
  | .stream => s.receipts.foldlM Receipt.takeBytes (UnixMessage.bytes s.sent) =
      some (UnixMessage.bytes s.queue.messages)
  | .dgram | .seqPacket => s.receipts.foldlM Receipt.takeMessage s.sent = some s.queue.messages

instance (s : UnixQueueSystem) : Decidable s.Delivers := by
  unfold Delivers
  split <;> infer_instance

structure Accounted (q : UnixRecvQueue) : Prop where
  sum : q.queuedBytes = (UnixMessage.bytes q.messages).length
  bounded : q.queuedBytes ≤ unixBufSize

/-- No receive peeks, and no empty message is sent where messages count. -/
def Plain (s : UnixQueueSystem) : UnixQueueEvent → Prop
  | .send _ src _ => s.kind = .stream ∨ src ≠ []
  | .recv _ _ flags => flags.peek = false
  | _ => True

instance (s : UnixQueueSystem) (e : UnixQueueEvent) : Decidable (s.Plain e) := by
  cases e <;> unfold Plain <;> infer_instance

end UnixQueueSystem

lemma UnixMessage.bytes_append (ms more : List UnixMessage) : bytes (ms ++ more) = bytes ms ++ bytes more :=
  flatMap_append

lemma UnixMessage.bytes_cons (m : UnixMessage) (ms : List UnixMessage) : bytes (m :: ms) = m.data ++ bytes ms :=
  flatMap_cons

namespace UnixRecvQueue

variable {q q' : UnixRecvQueue} {m : UnixMessage} {kind : UnixSocketKind} {peerClosed : Bool} {room : ℕ}
  {flags : RecvFlags} {result : Received}

lemma tryEnqueue_eq_ok (h : q.tryEnqueue m = .ok q') : q.closed = false ∧ m.data.length ≤ unixBufSize - q.queuedBytes ∧
      q' = { q with queuedBytes := q.queuedBytes + m.data.length, messages := q.messages ++ [m] } := by
  unfold tryEnqueue at h
  split_ifs at h with hc hf
  exact ⟨by simpa using hc, not_lt.1 hf, (Except.ok.inj h).symm⟩

lemma recv_eq_ok (h : q.recv kind peerClosed room flags = .ok (result, q')) (hc : q.closed = false) :
    q.messages = [] ∧ q' = q ∨ ∃ m rest, q.messages = m :: rest ∧
      (kind = .stream ∧ room < m.data.length ∧ result = ⟨room, m.data.take room, none⟩ ∧
          q' = ⟨⟨m.data.drop room, m.sender⟩ :: rest, q.queuedBytes - room, false⟩ ∨
        ¬(kind = .stream ∧ room < m.data.length) ∧
          result = ⟨if flags.truncate then m.data.length else min room m.data.length, m.data.take room, some m.sender⟩ ∧
          q' = ⟨rest, q.queuedBytes - m.data.length, false⟩) := by
  unfold recv at h
  rw [if_neg (by rw [hc]; exact Bool.false_ne_true)] at h
  cases hq : q.messages with
  | nil =>
    rw [hq] at h
    dsimp only at h
    split_ifs at h
    · exact .inl ⟨rfl, (congrArg Prod.snd (Except.ok.inj h)).symm⟩
  | cons m rest =>
    refine .inr ⟨m, rest, rfl, ?_⟩
    rw [hq] at h
    dsimp only at h
    have htake : m.data.take (min room m.data.length) = m.data.take room := by
      rw [take_eq_take_iff]
      omega
    rw [htake, hc] at h
    split_ifs at h with hs ht
    · have hroom : min room m.data.length = room := by omega
      rw [hroom, length_drop] at h
      cases h
      refine .inl ⟨hs.1, by omega, rfl, ?_⟩
      have : m.data.length - (m.data.length - room) = room := by omega
      rw [this]
    all_goals
      cases h
      refine .inr ⟨fun h => hs ⟨h.1, by omega⟩, ?_, rfl⟩
      simp [ht]

end UnixRecvQueue

namespace UnixQueueSystem

open UnixMessage UnixRecvQueue

variable {s s' : UnixQueueSystem} {e : UnixQueueEvent} {flags : RecvFlags} {kind : UnixSocketKind} {peerClosed : Bool}
  {q : UnixRecvQueue} {result : Received} {room : ℕ}

lemma accounted_recv {q' : UnixRecvQueue} (hq : Accounted q)
    (h : q.recv kind peerClosed room flags = .ok (result, q')) :
    Accounted q' := by
  cases hc : q.closed with
  | true =>
    rw [recv, if_pos hc] at h
    cases h
    exact hq
  | false =>
    obtain ⟨hsum, hle⟩ := hq
    rcases recv_eq_ok h hc with ⟨-, rfl⟩ | ⟨m, rest, hm, ⟨-, hroom, -, rfl⟩ | ⟨-, -, rfl⟩⟩
    · exact ⟨hsum, hle⟩
    all_goals
      rw [hm, bytes_cons, length_append] at hsum
      constructor
      · simp only [bytes_cons, length_append, length_drop]
        omega
      · dsimp only
        omega

lemma Accounted.step (hs : Accounted s.queue) (h : s.step e = some s') : Accounted s'.queue := by
  cases e with
  | enqueue t =>
    simp only [UnixQueueSystem.step] at h
    split at h <;> try cases h
    split at h
    · rename_i q hq
      cases h
      obtain ⟨-, hroom, rfl⟩ := tryEnqueue_eq_ok hq
      constructor
      · simp only [UnixQueueSystem.goto, bytes_append, length_append, hs.sum]
        simp [bytes]
      · have := hs.bounded
        dsimp only [UnixQueueSystem.goto] at hroom ⊢
        omega
    all_goals
      cases h
      exact hs
  | recv peerClosed room flags =>
    simp only [UnixQueueSystem.step] at h
    split at h
    · cases h
      exact hs
    · rename_i hq
      cases h
      exact accounted_recv hs hq
  | closeRecv =>
    cases h
    exact ⟨rfl, Nat.zero_le _⟩
  | _ =>
    simp only [UnixQueueSystem.step] at h
    grind [UnixQueueSystem.goto]

def Whole (kind : UnixSocketKind) : UnixSendPc → Prop
  | .idle => True
  | .sending src _ => kind = .stream ∨ src ≠ []
  | .measured src _ n => kind = .stream ∨ src ≠ [] ∧ n = src.length

lemma Delivers.enqueue (h : s.Delivers) (m : UnixMessage) (hk : s'.kind = s.kind) (hr : s'.receipts = s.receipts)
    (hsent : s'.sent = s.sent ++ [m]) (hq : s'.queue.messages = s.queue.messages ++ [m]) : s'.Delivers := by
  unfold Delivers at h ⊢
  rw [hk, hr, hsent, hq]
  cases hkind : s.kind with
  | stream =>
    rw [hkind] at h
    simp only [bytes_append]
    exact foldlM_append_right Receipt.takeBytes_append h _
  | dgram | seqPacket =>
    rw [hkind] at h
    exact foldlM_append_right Receipt.takeMessage_append h _

lemma Delivers.recv
    (h : s.Delivers) (hc : s.queue.closed = false) (hpeek : flags.peek = false)
    (hrecv : s.queue.recv s.kind peerClosed room flags = .ok (result, q)) :
    Delivers { s with
      queue := q
      receipts := if s.queue.messages = [] then s.receipts else s.receipts ++ [⟨room, flags, result⟩] } := by
  rcases recv_eq_ok hrecv hc with ⟨hm, rfl⟩ | ⟨m, rest, hm, hcase⟩
  · rw [if_pos hm]
    exact h
  rw [if_neg (by rw [hm]; exact cons_ne_nil _ _)]
  unfold Delivers at h ⊢
  cases hkind : s.kind with
  | stream =>
    rw [hkind, hm, bytes_cons] at h
    refine foldlM_concat h ?_
    rcases hcase with ⟨-, hroom, rfl, rfl⟩ | ⟨hall, rfl, rfl⟩
    · have hlen : (m.data.take room).length = room := by
        rw [length_take]
        omega
      rw [Receipt.takeBytes, if_pos ⟨hlen.le, hlen.symm, ( take_prefix _ _).trans (prefix_append _ _)⟩]
      simp only [hpeek, hlen, bytes_cons]
      rw [drop_append_of_le_length hroom.le]
      rfl
    · have hroom : m.data.length ≤ room := by
        by_contra hlt
        exact hall ⟨hkind, by omega⟩
      have htake : m.data.take room = m.data := take_of_length_le hroom
      have hcount : (if flags.truncate then m.data.length else min room m.data.length) = m.data.length := by
        split_ifs <;> omega
      simp only [Receipt.takeBytes, htake, hcount, hpeek, hroom, prefix_append, true_and, if_true, drop_left]
      rfl
  | dgram | seqPacket =>
    rw [hkind, hm] at h
    refine foldlM_concat h ?_
    rcases hcase with ⟨hstream, -⟩ | ⟨-, rfl, rfl⟩
    · rw [hkind] at hstream
      cases hstream
    · simp only [Receipt.takeMessage, hpeek, if_true]
      rfl

structure Sound (s : UnixQueueSystem) : Prop where
  whole : ∀ t, Whole s.kind (s.pc t)
  delivers : s.queue.closed = false → s.Delivers

lemma Sound.goto (hs : s.Sound) {t : ℕ} {pc : UnixSendPc} (hpc : Whole s.kind pc) : (s.goto t pc).Sound := by
  refine ⟨fun u => ?_, hs.delivers⟩
  simp only [UnixQueueSystem.goto, Function.update_apply]
  split_ifs
  · exact hpc
  · exact hs.whole u

lemma writeLen_eq_ok {len available n : ℕ} (h : writeLen kind len available = .ok n) : kind = .stream ∨ n = len := by
  cases kind <;> simp only [writeLen] at h <;> split_ifs at h <;> cases h <;> simp

lemma Sound.step (hs : s.Sound) (hg : s.Plain e) (h : s.step e = some s') : s'.Sound := by
  cases e with
  | send t src sender =>
    simp only [UnixQueueSystem.step] at h
    split at h <;> cases h
    exact hs.goto hg
  | measure t =>
    simp only [UnixQueueSystem.step] at h
    split at h <;> try cases h
    rename_i src sender hpc
    have hwhole := hs.whole t
    rw [hpc] at hwhole
    split at h
    · cases h
      exact hs.goto trivial
    split_ifs at h with hlen
    · -- an empty send enters nothing
      cases h
      have hstream := hwhole.resolve_right fun hne => hne (length_eq_zero_iff.1 hlen)
      have hmid : Sound { s with sent := s.sent ++ [⟨[], sender⟩] } := by
        refine ⟨hs.whole, fun hc => ?_⟩
        have hd := hs.delivers hc
        unfold Delivers at hd ⊢
        simp only [hstream] at hd ⊢
        rw [bytes_append, ← hd]
        simp [bytes]
      exact hmid.goto trivial
    · split at h <;> cases h
      · rename_i hn
        exact hs.goto ((writeLen_eq_ok hn).imp_right fun h => ⟨fun hnil => hlen (by rw [hnil]; rfl), h⟩)
      · exact hs
      · exact hs.goto trivial
  | enqueue t =>
    simp only [UnixQueueSystem.step] at h
    split at h <;> try cases h
    rename_i src sender n hpc
    have hwhole := hs.whole t
    rw [hpc] at hwhole
    split at h
    · rename_i q hq
      cases h
      obtain ⟨hc, -, rfl⟩ := tryEnqueue_eq_ok hq
      have hsame : sentMessage s.kind src n sender = ⟨src.take n, sender⟩ := by
        rcases hwhole with hk | ⟨-, rfl⟩
        · rw [hk]
          rfl
        · rw [take_length]
          cases s.kind with
          | stream => rw [sentMessage, take_length]
          | _ => rfl
      rw [hsame]
      have hmid : Sound { s with
          queue := { s.queue with
            queuedBytes := s.queue.queuedBytes + (src.take n).length
            messages := s.queue.messages ++ [⟨src.take n, sender⟩] }
          sent := s.sent ++ [⟨src.take n, sender⟩] } :=
        ⟨hs.whole, fun _ => (hs.delivers hc).enqueue ⟨src.take n, sender⟩ rfl rfl rfl rfl⟩
      exact hmid.goto trivial
    · cases h
      exact hs.goto trivial
    · cases h
      exact hs.goto (hwhole.imp_right And.left)
  | giveUp t =>
    simp only [UnixQueueSystem.step] at h
    split at h <;> cases h
    exact hs.goto trivial
  | recv peerClosed room flags =>
    simp only [UnixQueueSystem.step] at h
    split at h
    · cases h
      exact hs
    rename_i hq
    cases h
    refine ⟨hs.whole, fun hclosed => ?_⟩
    cases hc : s.queue.closed with
    | false => exact (hs.delivers hc).recv hc hg hq
    | true =>
      rw [recv, if_pos hc] at hq
      cases hq
      rw [hc] at hclosed
      cases hclosed
  | closeRecv =>
    cases h
    refine ⟨hs.whole, fun hc => ?_⟩
    cases hc

lemma sound_initial (kind : UnixSocketKind) : (initial kind).Sound := ⟨fun _ => trivial, fun _ => by cases kind <;> rfl⟩

/-- The counter is the number of queued bytes and within the limit in every run. As long as no receive peeks and no
empty message is sent on a socket with messages, the receives get, from the front and once each, the bytes or the
whole messages of the sends, up to the close of the receiving side. -/
theorem unix_queue_fifo (kind : UnixSocketKind) :
    (∀ s, Reaches step (fun _ _ => True) (initial kind) s →
      s.queue.queuedBytes = (bytes s.queue.messages).length ∧ s.queue.queuedBytes ≤ unixBufSize) ∧
    ∀ s, Reaches step Plain (initial kind) s → s.queue.closed = false → s.Delivers := by
  constructor
  · intro s h
    obtain ⟨hsum, hle⟩ := h.invariant (I := fun s => Accounted s.queue) (fun _ _ _ hs _ he => hs.step he)
      ⟨rfl, Nat.zero_le _⟩
    exact ⟨hsum, hle⟩
  · intro s h
    exact (h.invariant (fun _ _ _ hs hg he => hs.step hg he) (sound_initial kind)).delivers

def partialRun : List UnixQueueEvent :=
  [.send 1 [7, 8, 9] .unnamed, .measure 1, .enqueue 1, .recv false 2 ⟨false, false⟩, .recv false 2 ⟨false, false⟩]

theorem unix_queue_fifo_partial :
    ∃ s, Reaches step Plain (initial .stream) s ∧ s.Delivers ∧ s.receipts.length = 2 ∧ s.queue.queuedBytes = 0 := by
  have hreach : Reaches step Plain (initial .stream) (run step (initial .stream) partialRun) := Reaches.run (by decide)
  exact ⟨_, hreach, (unix_queue_fifo .stream).2 _ hreach (by decide), by decide, by decide⟩

def peekRun : List UnixQueueEvent :=
  [.send 1 [7, 8] .unnamed, .measure 1, .enqueue 1, .recv false 2 ⟨true, false⟩]

/-- A receive that only peeks takes the bytes and the message away, and an empty message is not delivered. -/
theorem unix_peek_consumes :
    (∀ kind, ∃ s, Reaches step (fun _ _ => True) (initial kind) s ∧ s.queue = .new ∧ ¬s.Delivers) ∧
    ∃ s, Reaches step (fun _ _ => True) (initial .dgram) s ∧ s.sent = [⟨[], .unnamed⟩] ∧ s.queue = .new ∧
      s.receipts.length = 0 ∧ ¬s.Delivers := by
  constructor
  · intro kind
    refine ⟨run step (initial kind) peekRun, Reaches.run ?_, ?_⟩ <;> cases kind <;> decide
  · exact ⟨run step (initial .dgram) [.send 1 [] .unnamed, .measure 1], Reaches.run (by decide), by decide⟩

end UnixQueueSystem

end Ya2yOS.Net
