import Mathlib.Algebra.Ring.BooleanRing
import Ya2yOS.Ipc.MsgWait

/-!
# Wakeups of a message queue

A waiting task stays in the set of its side until its waker is taken out to be woken. As long as every change that
could let it go on is announced to that set, no task sleeps over its request.
-/

-- `grind` would try ring arithmetic on every `Bool`
attribute [-instance] instBooleanRingBool

namespace Ya2yOS.Ipc

open Function

open Ya2yOS.Task (Waker Sleepers register mem_register mem_register_of_mem)
open Lib (Reaches run Admits)

def Request.Stuck (q : QueueState) : Request → Prop
  | .send m => q.trySend m = .ok none
  | .receive sel => q.tryReceive sel = .ok none

namespace Request.Stuck

variable {q q' : QueueState} {m m' : Message} {sel sel' : Selector} {r : SetRequest}

lemma of_trySend (hq : q.trySend m' = .ok (some q')) (h : (Request.send m).Stuck q) : (Request.send m).Stuck q' := by
  obtain ⟨hr, -, rfl⟩ := QueueState.trySend_eq_some hq
  obtain ⟨-, hfit⟩ := QueueState.trySend_eq_none.1 h
  apply QueueState.trySend_eq_none.2
  refine ⟨hr, ?_⟩
  unfold QueueState.Fits at *
  simp only [List.length_append, List.length_singleton]
  omega

lemma of_tryReceive (hq : q.tryReceive sel' = .ok (some (m, q'))) (hc : sel.copy = false)
    (h : (Request.receive sel).Stuck q) : (Request.receive sel).Stuck q' := by
  obtain ⟨hr, index, -, -, ⟨-, rfl⟩ | ⟨-, rfl⟩⟩ := QueueState.tryReceive_eq_some hq
  · exact h
  obtain ⟨-, hnone⟩ := (QueueState.tryReceive_eq_none hc).1 h
  apply (QueueState.tryReceive_eq_none hc).2
  refine ⟨hr, ?_⟩
  intro n hn
  exact hnone n (List.mem_of_mem_eraseIdx hn)

lemma of_setQueue_receive (hc : sel.copy = false) (h : (Request.receive sel).Stuck q) :
    (Request.receive sel).Stuck (MsgSystem.setQueue q r) := by
  apply (QueueState.tryReceive_eq_none hc).2
  exact (QueueState.tryReceive_eq_none (q := q) hc).1 h

lemma of_setQueue_send (hle : r.qbytes ≤ q.qbytes) (h : (Request.send m).Stuck q) :
    (Request.send m).Stuck (MsgSystem.setQueue q r) := by
  obtain ⟨hr, hfit⟩ := QueueState.trySend_eq_none.1 h
  apply QueueState.trySend_eq_none.2
  refine ⟨hr, ?_⟩
  unfold QueueState.Fits at *
  simp only [MsgSystem.setQueue]
  omega

end Request.Stuck

def MsgPc.request : MsgPc → Option Request
  | .entered (.msgrcv _ _ sel false) => some (.receive sel)
  | .poll r => some r
  | .register r => some r
  | .retry r => some r
  | .park r => some r
  | _ => none

/-- The task is going to wake the waiters of the side, if it does not fail to write out what it received. -/
def MsgPc.Obliged : MsgPc → Side → Prop
  | .wake sides _, side => side ∈ sides
  | .copyOut _ sel, .send => sel.copy = false
  | _, _ => False

namespace MsgSystem

def waitingFor (s : MsgSystem) (t : ℕ) : Option Request :=
  match s.pc t with
  | .park r => some r
  | .poll r => if s.sleepers.blocked t then some r else none
  | _ => none

def Listening (s : MsgSystem) (side : Side) : Prop :=
  ∃ w ∈ s.waits side, w = s.sleepers.waker w.task ∧ (s.waitingFor w.task).map Request.side = some side
deriving Decidable

/-- The waits with what a step of the task does to the queue. Three steps change the queue in favour of a side
without waking it: a message sent by a poll, a received message that cannot be written out, and a higher limit of
a queue that is not full in the sense of `IPC_SET`. They are heeded where no waiter of that side listens. -/
def Heeded (s : MsgSystem) : MsgEvent → Prop
  | .run t =>
    match s.pc t with
    | .poll (.send m) => s.queue.removed = false → s.queue.Fits m → ¬s.Listening .receive
    | .retry (.send m) => s.queue.removed = false → s.queue.Fits m → ¬s.Listening .receive
    | .entered (.ipcSet uid (some r)) =>
      setAllowed s.queue uid r → !queueWasFull s.queue → s.queue.qbytes < r.qbytes → ¬s.Listening .send
    | _ => True
  | .fault t =>
    match s.pc t with
    | .copyOut _ sel => sel.copy = false → ¬s.Listening .send
    | _ => True
  | _ => True

instance (s : MsgSystem) (e : MsgEvent) : Decidable (s.Heeded e) := by
  cases e <;> simp only [Heeded] <;> try infer_instance
  all_goals split <;> infer_instance

/-- Either the waker of the task is on its way, or it is in the set and its request is stuck or going to be
announced. -/
def Heard (s : MsgSystem) (t : ℕ) (r : Request) : Prop :=
  s.sleepers.Alerted t ∨
    s.sleepers.waker t ∈ s.waits r.side ∧ (r.Stuck s.queue ∨ ∃ v, (s.pc v).Obliged r.side)

structure Watched (s : MsgSystem) (t : ℕ) : Prop where
  asleep : s.sleepers.blocked t = true → ∃ r, s.pc t = .poll r
  takes : ∀ sel, (s.pc t).request = some (.receive sel) → sel.copy = false
  registered : ∀ r, s.pc t = .retry r → s.sleepers.Alerted t ∨ s.sleepers.waker t ∈ s.waits r.side
  heard : ∀ r, s.waitingFor t = some r → s.Heard t r

structure Safe (s : MsgSystem) : Prop where
  sound : s.sleepers.Sound
  watched : ∀ t, s.Watched t

section Frame

variable {s s' : MsgSystem} {t u : ℕ} {p : MsgPc}

attribute [grind =] MsgPc.request waitingFor

attribute [grind →] Watched.asleep Watched.takes

@[grind =]
lemma pc_goto (s : MsgSystem) (u t : ℕ) (p : MsgPc) : (s.goto u p).pc t = if t = u then p else s.pc t :=
  update_apply _ _ _ _

variable {r : Request} {side : Side}

lemma waitingFor_mono (hpc : s'.pc t = s.pc t) (hblocked : s'.sleepers.blocked t = true → s.sleepers.blocked t = true)
    (h : s'.waitingFor t = some r) : s.waitingFor t = some r := by
  grind

lemma Watched.frame (h : s.Watched t) (hpc : s'.pc t = s.pc t)
    (hblocked : s'.sleepers.blocked t = true → s.sleepers.blocked t = true)
    (halert : s.sleepers.Alerted t → s'.sleepers.Alerted t)
    (hset : ∀ side, s.sleepers.waker t ∈ s.waits side → s'.sleepers.Alerted t ∨ s'.sleepers.waker t ∈ s'.waits side)
    (hready : ∀ r, s.waitingFor t = some r → s.sleepers.waker t ∈ s.waits r.side →
      (r.Stuck s.queue ∨ ∃ v, (s.pc v).Obliged r.side) →
      s'.sleepers.Alerted t ∨ r.Stuck s'.queue ∨ ∃ v, (s'.pc v).Obliged r.side) :
    s'.Watched t := by
  constructor
  · intro hb
    rw [hpc]
    exact h.asleep (hblocked hb)
  · rw [hpc]
    exact h.takes
  · intro r hr
    rw [hpc] at hr
    rcases h.registered r hr with ha | hw
    · exact .inl (halert ha)
    · exact hset r.side hw
  · intro r hr
    have hr' := waitingFor_mono hpc hblocked hr
    rcases h.heard r hr' with ha | ⟨hw, hor⟩
    · exact .inl (halert ha)
    rcases hset r.side hw with ha | hw'
    · exact .inl ha
    · rcases hready r hr' hw hor with ha | hor'
      · exact .inl ha
      · exact .inr ⟨hw', hor'⟩

lemma Watched.of_request_eq_none (hb : s.sleepers.blocked t = false) (hp : (s.pc t).request = none) : s.Watched t :=
  ⟨by grind, by grind, by grind, by grind⟩

lemma Watched.awake (h : s.Watched t) (hpc : ∀ r, s.pc t ≠ .poll r) : s.sleepers.blocked t = false := by
  by_contra hb
  obtain ⟨r, hr⟩ := h.asleep (by simpa using hb)
  exact hpc r hr

lemma obliged_update (hobl : (s.pc u).Obliged side → p.Obliged side)
    (h : ∃ v, (s.pc v).Obliged side) : ∃ v, (update s.pc u p v).Obliged side := by
  obtain ⟨v, hv⟩ := h
  by_cases hvu : v = u
  · subst hvu
    exact ⟨v, by rw [update_self]; exact hobl hv⟩
  · exact ⟨v, by rw [update_of_ne hvu]; exact hv⟩

lemma Listening.of_mem (hr : s.waitingFor t = some r) (hw : s.sleepers.waker t ∈ s.waits r.side) : s.Listening r.side :=
  ⟨s.sleepers.waker t, hw, rfl, by rw [show (s.sleepers.waker t).task = t from rfl, hr]; rfl⟩

/-- A step that changes the queue and the place of its own task. Whoever it may let go on is no listener, or is
going to be woken. -/
lemma Safe.put (h : s.Safe) (q : QueueState) (l : Bool)
    (hp : (goto { s with queue := q, listed := l } u p).Watched u)
    (hobl : ∀ side, (s.pc u).Obliged side → s.Listening side → p.Obliged side)
    (hstuck : ∀ t r, s.waitingFor t = some r → s.Listening r.side → r.Stuck s.queue → r.Stuck q ∨ p.Obliged r.side) :
    (goto { s with queue := q, listed := l } u p).Safe := by
  refine ⟨h.sound, ?_⟩
  intro t
  by_cases htu : t = u
  · rw [htu]
    exact hp
  refine (h.watched t).frame (update_of_ne htu _ _) id id (fun side hw => .inr hw) ?_
  intro r hr hw hor
  right
  have hlisten := Listening.of_mem hr hw
  rcases hor with hs | hv
  · rcases hstuck t r hr hlisten hs with hq | hpr
    · exact .inl hq
    · exact .inr ⟨u, by rw [show (goto { s with queue := q, listed := l } u p).pc u = p from
        update_self _ _ _]; exact hpr⟩
  · exact .inr (obliged_update (fun ho => hobl r.side ho hlisten) hv)

lemma request_of_waitingFor (h : s.waitingFor t = some r) : (s.pc t).request = some r := by
  grind

lemma Safe.goto (h : s.Safe) (hu : s.sleepers.blocked u = false) (hp : p.request = none)
    (hobl : ∀ side, (s.pc u).Obliged side → s.Listening side → p.Obliged side) : (s.goto u p).Safe :=
  h.put s.queue s.listed (.of_request_eq_none hu (by grind)) hobl fun _ _ _ _ hs => .inl hs

lemma Safe.ret (h : s.Safe) (hu : s.sleepers.blocked u = false)
    (hobl : ∀ side, (s.pc u).Obliged side → ¬s.Listening side) (result : SyscallRet) : (s.ret u result).Safe :=
  h.goto hu rfl fun side ho hl => (hobl side ho hl).elim

/-- A received message: what it leaves room for is announced after it has been written out. -/
lemma Safe.received (h : s.Safe) (hu : s.sleepers.blocked u = false) {sel : Selector} {m : Message}
    {q : QueueState} (hq : s.queue.tryReceive sel = .ok (some (m, q)))
    (hno : ∀ side, ¬(s.pc u).Obliged side) : ({ s with queue := q }.goto u (.copyOut m sel)).Safe := by
  refine h.put q s.listed (.of_request_eq_none hu (by grind)) (fun side ho => (hno side ho).elim) ?_
  intro t r hr _ hs
  cases r with
  | send m' =>
    obtain ⟨-, -, -, -, ⟨-, rfl⟩ | ⟨hc, -⟩⟩ := QueueState.tryReceive_eq_some hq
    · exact .inl hs
    · exact .inr hc
  | receive sel' => exact .inl (hs.of_tryReceive hq ((h.watched t).takes sel' (request_of_waitingFor hr)))

lemma Safe.wait (h : s.Safe) (hu : s.sleepers.blocked u = false) (hc : ∀ sel, r = .receive sel → sel.copy = false)
    (hno : ∀ side, ¬(s.pc u).Obliged side) : (s.wait u r).Safe := by
  refine ⟨Sleepers.sound_blockOn h.sound, ?_⟩
  intro t
  by_cases htu : t = u
  · rw [htu]
    have hpc : (s.wait u r).pc u = .poll r := update_self _ _ _
    have hblocked : (s.wait u r).sleepers.blocked u = false := hu
    exact ⟨fun _ => ⟨r, hpc⟩, by grind, by grind, by grind⟩
  · refine (h.watched t).frame (update_of_ne htu _ _) id (Sleepers.alerted_blockOn htu).2 ?_ ?_
    · intro side hw
      right
      exact (Sleepers.waker_blockOn htu).symm ▸ hw
    intro r' _ _ hor
    right
    rcases hor with hs | hv
    · exact .inl hs
    · exact .inr (obliged_update (fun ho => (hno _ ho).elim) hv)

lemma Safe.register (h : s.Safe) (hu : s.sleepers.blocked u = false) (hpc : s.pc u = .register r) :
    (MsgSystem.goto { s with
      waits := update s.waits r.side (Task.register (s.waits r.side) (s.sleepers.waker u)).1
      sleepers := s.sleepers.take u (Task.register (s.waits r.side) (s.sleepers.waker u)).2.toList } u
        (.retry r)).Safe := by
  have hrouse := Sleepers.take_rouses s.sleepers u (Task.register (s.waits r.side) (s.sleepers.waker u)).2.toList
  refine ⟨hrouse.sound h.sound, ?_⟩
  intro t
  by_cases htu : t = u
  · rw [htu]
    have hwatched := h.watched u
    refine ⟨fun hb => absurd (hrouse.blocked u hb) (by simp [hu]), by grind, fun r' hr' => ?_, by grind⟩
    obtain rfl : r = r' := by grind
    right
    change s.sleepers.waker u ∈ update s.waits r.side _ r.side
    rw [update_self]
    exact mem_register _ _
  · refine (h.watched t).frame (update_of_ne htu _ _) (hrouse.blocked t) (hrouse.alerted t) ?_ ?_
    · intro side hw
      change _ ∨ s.sleepers.waker t ∈ update s.waits r.side _ side
      by_cases hside : side = r.side
      · subst hside
        rw [update_self]
        rcases mem_register_of_mem (s.sleepers.waker u) hw with hin | hout
        · exact .inr hin
        · left
          apply Sleepers.alerted_take
          rw [hout]
          exact List.mem_singleton_self _
      · rw [update_of_ne hside]
        exact .inr hw
    · intro r' _ _ hor
      right
      rcases hor with hs | hv
      · exact .inl hs
      · refine .inr (obliged_update ?_ hv)
        rw [hpc]
        exact False.elim

lemma Safe.wake (h : s.Safe) (hu : s.sleepers.blocked u = false) {sides : List Side}
    {result : SyscallRet} (hpc : s.pc u = .wake (side :: sides) result) :
    (MsgSystem.goto { s with
      waits := update s.waits side []
      sleepers := s.sleepers.take u (s.waits side) } u (.wake sides result)).Safe := by
  have hrouse := Sleepers.take_rouses s.sleepers u (s.waits side)
  refine ⟨hrouse.sound h.sound, ?_⟩
  intro t
  by_cases htu : t = u
  · rw [htu]
    exact .of_request_eq_none hu (by grind)
  refine (h.watched t).frame (update_of_ne htu _ _) (hrouse.blocked t) (hrouse.alerted t) ?_ ?_
  · intro side' hw
    change _ ∨ s.sleepers.waker t ∈ update s.waits side _ side'
    by_cases hside : side' = side
    · subst hside
      exact .inl (Sleepers.alerted_take hw)
    · rw [update_of_ne hside]
      exact .inr hw
  · intro r _ hw hor
    by_cases hside : r.side = side
    · left
      exact Sleepers.alerted_take (hside ▸ hw)
    right
    rcases hor with hs | hv
    · exact .inl hs
    · refine .inr (obliged_update ?_ hv)
      rw [hpc]
      intro ho
      exact (List.mem_cons.1 ho).resolve_left hside

lemma Safe.rouses (h : s.Safe) {sleepers : Sleepers} (hr : s.sleepers.Rouses sleepers) :
    ({ s with sleepers := sleepers } : MsgSystem).Safe := by
  refine ⟨hr.sound h.sound, ?_⟩
  intro t
  refine (h.watched t).frame rfl (hr.blocked t) (hr.alerted t) ?_ fun _ _ _ hor => .inr hor
  intro side hw
  right
  exact (hr.waker t).symm ▸ hw

lemma Safe.park (h : s.Safe) (hu : s.sleepers.blocked u = false) (hpc : s.pc u = .park r) :
    (MsgSystem.goto { s with sleepers := s.sleepers.blockCurrentIfNotWoken u } u (.poll r)).Safe := by
  have hobl : ∀ side, (∃ v, (s.pc v).Obliged side) → ∃ v, (update s.pc u (.poll r) v).Obliged side := by
    intro side
    apply obliged_update
    rw [hpc]
    exact False.elim
  refine ⟨Sleepers.sound_blockCurrentIfNotWoken h.sound, ?_⟩
  intro t
  by_cases htu : t = u
  · rw [htu]
    have hwatched := h.watched u
    refine ⟨fun _ => ⟨r, by grind⟩, by grind, by grind, fun r' hr' => ?_⟩
    obtain ⟨rfl, hb⟩ : r = r' ∧ (s.sleepers.blockCurrentIfNotWoken u).blocked u = true := by
      grind [MsgSystem.goto]
    rcases (h.watched u).heard r (by grind) with ha | ⟨hw, hor⟩
    · exact .inl (Sleepers.alerted_of_blocked hu hb ha)
    · right
      refine ⟨(Sleepers.waker_blockCurrentIfNotWoken s.sleepers u u).symm ▸ hw, ?_⟩
      exact hor.imp_right (hobl r.side)
  · refine (h.watched t).frame (update_of_ne htu _ _)
      (fun hb => (Sleepers.blocked_blockCurrentIfNotWoken htu).symm.trans hb)
      (Sleepers.alerted_blockCurrentIfNotWoken htu).2 ?_ ?_
    · intro side hw
      right
      exact (Sleepers.waker_blockCurrentIfNotWoken s.sleepers t u).symm ▸ hw
    intro r' _ _ hor
    right
    rcases hor with hs | hv
    · exact .inl hs
    · exact .inr (hobl r'.side hv)

variable {call : MsgCall}

lemma Watched.entered (hu : s.sleepers.blocked u = false) (hcall : ¬call.Malformed) :
    (s.goto u (.entered call)).Watched u := by
  have hb : (s.goto u (.entered call)).sleepers.blocked u = false := hu
  refine ⟨by grind, fun sel hsel => ?_, by grind, by grind⟩
  cases call with
  | msgrcv uid gid sel' nowait =>
    by_contra hc
    obtain ⟨rfl, rfl⟩ : sel' = sel ∧ nowait = false := by cases nowait <;> grind
    exact hcall (.inr (.inl ⟨by simpa using hc, rfl⟩))
  | msgsnd _ _ _ _ _ _ | ipcSet _ _ | ipcRmid _ => grind

lemma Watched.register (h : s.Watched u) (hu : s.sleepers.blocked u = false)
    (hreq : (s.pc u).request = some r) : (s.goto u (.register r)).Watched u := by
  have hb : (s.goto u (.register r)).sleepers.blocked u = false := hu
  exact ⟨by grind, by grind, by grind, by grind⟩

lemma Watched.park (h : s.Watched u) (hu : s.sleepers.blocked u = false) (hpc : s.pc u = .retry r)
    (hs : r.Stuck s.queue) : (s.goto u (.park r)).Watched u := by
  have hb : (s.goto u (.park r)).sleepers.blocked u = false := hu
  refine ⟨by grind, by grind, by grind, fun r' hr' => ?_⟩
  obtain rfl : r = r' := by grind
  exact (h.registered r hpc).imp_right fun hw => ⟨hw, .inl hs⟩

/-- An attempt of a poll. The message it may send is not announced, so no receiver may listen. -/
lemma Safe.attempt (h : s.Safe) (hu : s.sleepers.blocked u = false) (hreq : (s.pc u).request = some r)
    (hno : ∀ side, ¬(s.pc u).Obliged side)
    (hheed : ∀ m, r = .send m → s.queue.removed = false → s.queue.Fits m → ¬s.Listening .receive)
    (hp : r.Stuck s.queue → (s.goto u p).Watched u) : (s.attempt u p r).Safe := by
  have hret := h.ret hu fun side ho => (hno side ho).elim
  have hstay : r.Stuck s.queue → (s.goto u p).Safe := fun hs =>
    h.put s.queue s.listed (hp hs) (fun side ho => (hno side ho).elim) fun _ _ _ _ hs => .inl hs
  cases r with
  | send m =>
    simp only [MsgSystem.attempt]
    cases hsend : s.queue.trySend m with
    | error e => exact hret _
    | ok out =>
      cases out with
      | none => exact hstay hsend
      | some q =>
        refine h.put q s.listed (.of_request_eq_none hu (by grind)) (fun side ho => (hno side ho).elim) ?_
        intro t r' _ hl hs
        cases r' with
        | send m' => exact .inl (hs.of_trySend hsend)
        | receive sel =>
          obtain ⟨hr, hfit, -⟩ := QueueState.trySend_eq_some hsend
          exact absurd hl (hheed m rfl hr hfit)
  | receive sel =>
    simp only [MsgSystem.attempt]
    cases hrecv : s.queue.tryReceive sel with
    | error e => exact hret _
    | ok out =>
      cases out with
      | none => exact hstay hrecv
      | some out => exact h.received hu hrecv hno

end Frame

section Steps

variable {s s' : MsgSystem} {u : ℕ}

lemma Safe.execute (h : s.Safe) (hu : s.sleepers.blocked u = false) (hpc : s.pc u = .entered call)
    (hheed : s.Heeded (.run u)) : (s.execute u call).Safe := by
  have hno : ∀ side, ¬(s.pc u).Obliged side := by
    intro side
    rw [hpc]
    exact id
  have hret := h.ret hu fun side ho => (hno side ho).elim
  cases call with
  | msgsnd uid gid kind text textFault nowait =>
    simp only [MsgSystem.execute]
    cases kind with
    | none =>
      dsimp only
      split_ifs
      · exact hret _
      · exact hret _
    | some kind =>
      dsimp only
      split_ifs
      · exact hret _
      · exact hret _
      · exact hret _
      · exact h.goto hu rfl fun side ho => (hno side ho).elim
  | msgrcv uid gid sel nowait =>
    simp only [MsgSystem.execute]
    split_ifs with hallowed hnow
    · exact hret _
    · exact h.goto hu rfl fun side ho => (hno side ho).elim
    refine h.wait hu ?_ hno
    intro sel' hsel
    cases hsel
    apply (h.watched u).takes sel
    rw [hpc]
    have hfalse : nowait = false := by simpa using hnow
    rw [hfalse]
    rfl
  | ipcSet uid requested =>
    cases requested with
    | none => exact hret _
    | some r =>
      simp only [MsgSystem.execute]
      by_cases hallowed : (!setAllowed s.queue uid r) = true
      · rw [if_pos hallowed]
        exact hret _
      rw [if_neg hallowed]
      refine h.put _ s.listed (.of_request_eq_none hu (by grind)) (fun side ho => (hno side ho).elim) ?_
      intro t r' hr' hl hs
      cases r' with
      | receive sel =>
        exact .inl (hs.of_setQueue_receive ((h.watched t).takes sel (request_of_waitingFor hr')))
      | send m =>
        by_cases hfull : queueWasFull s.queue = true
        · right
          rw [if_pos hfull]
          exact List.mem_singleton_self _
        left
        apply hs.of_setQueue_send
        by_contra hle
        simp only [Heeded, hpc] at hheed
        exact hheed (by simpa using hallowed) (by simpa using hfull) (by omega) hl
  | ipcRmid uid =>
    simp only [MsgSystem.execute]
    split_ifs
    · exact hret _
    · exact h.goto hu rfl fun side ho => (hno side ho).elim

lemma Safe.advance (h : s.Safe) (hu : s.sleepers.blocked u = false) (hheed : s.Heeded (.run u))
    (hstep : s.advance u (s.pc u) = some s') : s'.Safe := by
  generalize hpc : s.pc u = pc at hstep
  cases pc with
  | outside last =>
    cases hstep
  | entered call =>
    cases hstep
    exact h.execute hu hpc hheed
  | first m nowait =>
    have hno : ∀ side, ¬(s.pc u).Obliged side := fun side => hpc ▸ id
    have hret := h.ret hu fun side ho => (hno side ho).elim
    simp only [MsgSystem.advance] at hstep
    cases hsend : s.queue.trySend m with
    | error e =>
      rw [hsend] at hstep
      cases hstep
      exact hret _
    | ok out =>
      rw [hsend] at hstep
      cases out with
      | none =>
        cases hstep
        split_ifs
        · exact hret _
        · exact h.wait hu nofun hno
      | some q =>
        cases hstep
        refine h.put q s.listed (.of_request_eq_none hu (by grind)) (fun side ho => (hno side ho).elim) ?_
        intro t r _ _ hs
        cases r with
        | send m' => exact .inl (hs.of_trySend hsend)
        | receive sel => exact .inr (List.mem_singleton_self _)
  | once sel =>
    have hno : ∀ side, ¬(s.pc u).Obliged side := fun side => hpc ▸ id
    have hret := h.ret hu fun side ho => (hno side ho).elim
    simp only [MsgSystem.advance] at hstep
    cases hrecv : s.queue.tryReceive sel with
    | error e =>
      rw [hrecv] at hstep
      cases hstep
      exact hret _
    | ok out =>
      rw [hrecv] at hstep
      cases out with
      | none =>
        cases hstep
        exact hret _
      | some out =>
        cases hstep
        exact h.received hu hrecv hno
  | poll r =>
    cases hstep
    refine h.attempt hu (by rw [hpc]; rfl) (fun side => hpc ▸ id) ?_ ?_
    · rintro m rfl
      simpa only [Heeded, hpc] using hheed
    · exact fun _ => (h.watched u).register hu (by rw [hpc]; rfl)
  | register r =>
    cases hstep
    exact h.register hu hpc
  | retry r =>
    cases hstep
    refine h.attempt hu (by rw [hpc]; rfl) (fun side => hpc ▸ id) ?_ ?_
    · rintro m rfl
      simpa only [Heeded, hpc] using hheed
    · exact fun hs => (h.watched u).park hu hpc hs
  | park r =>
    cases hstep
    exact h.park hu hpc
  | copyOut m sel =>
    cases hstep
    apply h.goto hu rfl
    intro side ho _
    rw [hpc] at ho
    cases side with
    | receive => exact ho.elim
    | send =>
      have hc : sel.copy = false := ho
      rw [hc]
      exact List.mem_singleton_self _
  | remove =>
    have hno : ∀ side, ¬(s.pc u).Obliged side := fun side => hpc ▸ id
    simp only [MsgSystem.advance] at hstep
    split_ifs at hstep
    · cases hstep
      exact h.ret hu (fun side ho => (hno side ho).elim) _
    cases hstep
    refine h.put _ false (.of_request_eq_none hu (by grind)) (fun side ho => (hno side ho).elim) ?_
    intro t r _ _ _
    right
    cases r with
    | send m => exact List.mem_cons_of_mem _ (List.mem_singleton_self _)
    | receive sel => exact List.mem_cons_self
  | wake sides result =>
    cases sides with
    | nil =>
      cases hstep
      refine h.ret hu ?_ _
      intro side ho
      rw [hpc] at ho
      cases ho
    | cons side sides =>
      cases hstep
      exact h.wake hu hpc

lemma Safe.step (h : s.Safe) {e : MsgEvent} (hheed : s.Heeded e) (hstep : s.step e = some s') : s'.Safe := by
  cases e with
  | enter t call =>
    simp only [MsgSystem.step] at hstep
    cases hpc : s.pc t with
    | outside last =>
      rw [hpc] at hstep
      have hu := (h.watched t).awake (by simp [hpc])
      have hno : ∀ side, ¬(s.pc t).Obliged side := fun side => hpc ▸ id
      split_ifs at hstep with hbad
      · cases hstep
        exact h.ret hu (fun side ho => (hno side ho).elim) _
      · cases hstep
        refine h.put s.queue s.listed (.entered hu ?_) (fun side ho => (hno side ho).elim) fun _ _ _ _ hs => .inl hs
        exact fun hm => hbad (.inl hm)
    | entered _ | first _ _ | once _ | poll _ | register _ | retry _ | park _ | copyOut _ _ | remove | wake _ _ =>
      rw [hpc] at hstep
      cases hstep
  | run t =>
    simp only [MsgSystem.step] at hstep
    split_ifs at hstep with hfree
    exact h.advance hfree.1 hheed hstep
  | deliver t =>
    simp only [MsgSystem.step, Option.map_eq_some_iff] at hstep
    obtain ⟨sleepers, hd, rfl⟩ := hstep
    exact h.rouses (Sleepers.deliver_rouses hd)
  | fault t =>
    simp only [MsgSystem.step] at hstep
    cases hpc : s.pc t with
    | copyOut m sel =>
      rw [hpc] at hstep
      cases hstep
      refine h.ret ((h.watched t).awake (by simp [hpc])) ?_ _
      intro side ho
      rw [hpc] at ho
      simp only [Heeded, hpc] at hheed
      cases side with
      | receive => exact ho.elim
      | send => exact hheed ho
    | outside _ | entered _ | first _ _ | once _ | poll _ | register _ | retry _ | park _ | remove | wake _ _ =>
      rw [hpc] at hstep
      cases hstep
  | interrupt t =>
    simp only [MsgSystem.step] at hstep
    cases hpc : s.pc t with
    | poll r =>
      rw [hpc] at hstep
      split_ifs at hstep with hfree
      cases hstep
      exact h.ret hfree.1 (fun side ho => by rw [hpc] at ho; exact ho.elim) _
    | outside _ | entered _ | first _ _ | once _ | register _ | retry _ | park _ | copyOut _ _ | remove | wake _ _ =>
      rw [hpc] at hstep
      cases hstep
  | rouse t =>
    cases hstep
    exact h.rouses (Sleepers.rouse_rouses _ t)

lemma safe_initial (key : ℤ) (uid gid mode : ℕ) : (initial key uid gid mode).Safe :=
  ⟨fun _ hb => (Bool.false_ne_true hb).elim, fun _ => .of_request_eq_none rfl rfl⟩

end Steps

def Parked (s : MsgSystem) (t : ℕ) (r : Request) : Prop := s.pc t = .poll r ∧ s.sleepers.blocked t = true

def Quiet (s : MsgSystem) : Prop :=
  ∀ t, s.sleepers.deliveries t = [] ∧ ((∃ last, s.pc t = .outside last) ∨ s.sleepers.blocked t = true)

lemma Safe.stuck_of_parked {s : MsgSystem} (h : s.Safe) (hq : s.Quiet) {t : ℕ} {r : Request} (hp : s.Parked t r) :
    r.Stuck s.queue := by
  have hwait : s.waitingFor t = some r := by
    unfold waitingFor
    rw [hp.1]
    exact if_pos hp.2
  rcases (h.watched t).heard r hwait with ha | ⟨-, hs | ⟨v, hv⟩⟩
  · rcases ha with hw | ⟨u, hu⟩
    · rw [h.sound t hp.2] at hw
      cases hw
    · rw [(hq u).1] at hu
      cases hu
  · exact hs
  · rcases (hq v).2 with ⟨last, hlast⟩ | hb
    · rw [hlast] at hv
      exact hv.elim
    · obtain ⟨r', hr'⟩ := (h.watched v).asleep hb
      rw [hr'] at hv
      exact hv.elim

/-- In every run in which the three silent steps are heeded, whenever no step is in flight no receiver sleeps over
a message that its selector finds, and no sender over room for its message. -/
theorem no_lost_wakeup_of_heeded (key : ℤ) (uid gid mode : ℕ) {s : MsgSystem}
    (h : Reaches step Heeded (initial key uid gid mode) s) (hq : s.Quiet) (t : ℕ) :
    (∀ sel, s.Parked t (.receive sel) → s.queue.findMessage sel = none) ∧
      ∀ m, s.Parked t (.send m) → ¬s.queue.Fits m := by
  have hs : s.Safe := h.invariant (fun _ _ _ hs hg he => hs.step hg he) (safe_initial key uid gid mode)
  constructor
  · intro sel hp
    have hc : sel.copy = false := (hs.watched t).takes sel (by rw [hp.1]; rfl)
    exact (QueueState.findMessage_eq_none hc).2 ((QueueState.tryReceive_eq_none hc).1 (hs.stuck_of_parked hq hp)).2
  · intro m hp
    exact (QueueState.trySend_eq_none.1 (hs.stuck_of_parked hq hp)).2

/-- The queue takes one byte and holds a message of type 1; task 0 waits for a message of type 5. -/
def waitingReceiver : List MsgEvent :=
  [.enter 0 (.ipcSet 0 (some ⟨0, 0, 0o600, 1⟩)), .run 0, .run 0,
    .enter 1 (.msgsnd 0 0 (some 1) [0] false false), .run 1, .run 1, .run 1, .run 1,
    .enter 0 (.msgrcv 0 0 ⟨5, 1, false, false, false⟩ false), .run 0, .run 0, .run 0, .run 0, .run 0]

theorem no_lost_wakeup_of_heeded_receiver :
    ∃ s, Reaches step Heeded (initial 0 0 0 0o600) s ∧ s.Quiet ∧ s.Parked 0 (.receive ⟨5, 1, false, false, false⟩) ∧
      s.queue.findMessage ⟨5, 1, false, false, false⟩ = none := by
  have hreach : Reaches step Heeded (initial 0 0 0 0o600) (run step (initial 0 0 0 0o600) waitingReceiver) :=
    Reaches.run (by decide +kernel)
  have hquiet : (run step (initial 0 0 0 0o600) waitingReceiver).Quiet := by
    intro t
    match t with
    | 0 => exact ⟨by decide +kernel, .inr (by decide +kernel)⟩
    | 1 => exact ⟨by decide +kernel, .inl ⟨.ok 0, by decide +kernel⟩⟩
    | n + 2 => exact ⟨rfl, .inl ⟨.ok 0, rfl⟩⟩
  have hparked : (run step (initial 0 0 0 0o600) waitingReceiver).Parked 0
      (.receive ⟨5, 1, false, false, false⟩) := ⟨by decide +kernel, by decide +kernel⟩
  exact ⟨_, hreach, hquiet, hparked, (no_lost_wakeup_of_heeded 0 0 0 0o600 hreach hquiet 0).1 _ hparked⟩

/-- A sender of type 5 waits for room; task 3 receives the message of type 1 and wakes the sender, which puts its
message into the queue and returns. -/
def silentSend : List MsgEvent :=
  [.enter 2 (.msgsnd 0 0 (some 5) [0] false false), .run 2, .run 2, .run 2, .run 2, .run 2, .run 2,
    .enter 3 (.msgrcv 0 0 ⟨1, 1, false, false, false⟩ true), .run 3, .run 3, .run 3, .run 3, .deliver 3, .run 3,
    .run 2]

set_option maxRecDepth 2000 in
/-- The receiver sleeps on while the message it waits for is in the queue. -/
theorem receiver_sleeps_over_message :
    ∃ s, Reaches step (fun _ _ => True) (initial 0 0 0 0o600) s ∧ s.Quiet ∧
      s.Parked 0 (.receive ⟨5, 1, false, false, false⟩) ∧
      s.queue.findMessage ⟨5, 1, false, false, false⟩ = some 0 := by
  refine ⟨run step (initial 0 0 0 0o600) (waitingReceiver ++ silentSend), Reaches.run (by decide +kernel), ?_,
    ⟨by decide +kernel, by decide +kernel⟩, by decide +kernel⟩
  intro t
  match t with
  | 0 => exact ⟨by decide +kernel, .inr (by decide +kernel)⟩
  | 1 | 2 => exact ⟨by decide +kernel, .inl ⟨.ok 0, by decide +kernel⟩⟩
  | 3 => exact ⟨by decide +kernel, .inl ⟨.ok 1, by decide +kernel⟩⟩
  | n + 4 => exact ⟨rfl, .inl ⟨.ok 0, rfl⟩⟩

end MsgSystem

end Ya2yOS.Ipc
