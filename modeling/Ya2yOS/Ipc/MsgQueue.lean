import Mathlib.Algebra.Order.Ring.Int
import Mathlib.Data.Prod.Lex
import Ya2yOS.Utils.SysErrNo

/-!
# System V message queues

The state of one queue with the two attempts on it, `try_send` and `try_receive`. Times and process numbers are
left out: only the status calls read them.
-/

namespace Ya2yOS.Ipc

/-- The greatest length of a message. -/
def msgMax : ℕ := 8192

/-- The limit of a new queue. -/
def msgMnb : ℕ := 16384

structure IpcPerm where
  key : ℤ
  uid : ℕ
  gid : ℕ
  cuid : ℕ
  mode : ℕ
deriving DecidableEq, Repr

structure Message where
  kind : ℤ
  text : List UInt8
deriving DecidableEq, Repr

structure QueueState where
  perm : IpcPerm
  messages : List Message
  bytes : ℕ
  qbytes : ℕ
  removed : Bool
deriving DecidableEq, Repr

/-- What `msgrcv` asks for: the type with its flags, and the room it has. -/
structure Selector where
  msgtyp : ℤ
  msgsz : ℕ
  noerror : Bool
  except : Bool
  copy : Bool
deriving DecidableEq, Repr

def hasCapOrRoot (uid : ℕ) : Bool := uid == 0

/-- The bits of the class of the caller: owner, group or others. -/
def accessAllowed (perm : IpcPerm) (uid gid : ℕ) (read write : Bool) : Bool :=
  if hasCapOrRoot uid then true
  else
    let bits :=
      if uid = perm.uid then (perm.mode >>> 6) &&& 7
      else if gid = perm.gid then (perm.mode >>> 3) &&& 7
      else perm.mode &&& 7
    (!read || bits &&& 4 != 0) && (!write || bits &&& 2 != 0)

/-- The owner and the creator may change or remove a queue. -/
def ownerAllowed (perm : IpcPerm) (uid : ℕ) : Bool := hasCapOrRoot uid || uid == perm.uid || uid == perm.cuid

def createQueue (key : ℤ) (uid gid mode : ℕ) : QueueState :=
  ⟨⟨key, uid, gid, uid, mode &&& 0o777⟩, [], 0, msgMnb, false⟩

/-- The negation of `i64`, which has no value for the least one. -/
def saturatingNeg (x : ℤ) : ℤ := min (-x) (2 ^ 63 - 1)

namespace Selector

/-- The messages that a selector without MSG_COPY takes. -/
def Accepts (sel : Selector) (m : Message) : Prop :=
  if sel.msgtyp = 0 then True
  else if 0 < sel.msgtyp then (if sel.except then m.kind ≠ sel.msgtyp else m.kind = sel.msgtyp)
  else m.kind ≤ saturatingNeg sel.msgtyp

instance (sel : Selector) (m : Message) : Decidable (sel.Accepts m) := by
  unfold Accepts
  infer_instance

end Selector

namespace QueueState

/-- The place of the message to take: by index for MSG_COPY, the first of a type, or the first of the least
type. -/
def findMessage (q : QueueState) (sel : Selector) : Option ℕ :=
  if sel.copy then
    if sel.msgtyp < 0 then none
    else if sel.msgtyp.toNat < q.messages.length then some sel.msgtyp.toNat else none
  else if sel.msgtyp = 0 then
    if q.messages.isEmpty then none else some 0
  else if 0 < sel.msgtyp then
    q.messages.findIdx? fun m => if sel.except then m.kind != sel.msgtyp else m.kind == sel.msgtyp
  else
    let limit := saturatingNeg sel.msgtyp
    ((q.messages.zipIdx.filter fun p => decide (p.1.kind ≤ limit)).minOn? fun p => toLex (p.1.kind, p.2)).map Prod.snd

/-- There is room for the bytes, and for one message more than there are. -/
def Fits (q : QueueState) (m : Message) : Prop :=
  ¬(q.qbytes - q.bytes < m.text.length ∨ q.qbytes ≤ q.messages.length)
deriving Decidable

/-- `none` if the sender has to wait. -/
def trySend (q : QueueState) (m : Message) : Except SysErrNo (Option QueueState) :=
  if q.removed then .error .EIDRM
  else if q.Fits m then
    .ok (some { q with bytes := q.bytes + m.text.length, messages := q.messages ++ [m] })
  else .ok none

/-- `none` if the receiver has to wait. A message that is too long stays, unless MSG_NOERROR cuts it. -/
def tryReceive (q : QueueState) (sel : Selector) : Except SysErrNo (Option (Message × QueueState)) :=
  if q.removed then .error .EIDRM
  else
    match q.findMessage sel with
    | none => .ok none
    | some index =>
      match q.messages[index]? with
      | none => .error .EIDRM
      | some m =>
        if !sel.copy ∧ sel.msgsz < m.text.length ∧ !sel.noerror then .error .E2BIG
        else if sel.copy then .ok (some (m, q))
        else .ok (some (m, { q with messages := q.messages.eraseIdx index, bytes := q.bytes - m.text.length }))

variable {q q' : QueueState} {sel : Selector} {m : Message}

lemma findMessage_eq_none (hc : sel.copy = false) : q.findMessage sel = none ↔ ∀ m ∈ q.messages, ¬sel.Accepts m := by
  unfold findMessage Selector.Accepts
  rw [hc]
  simp only [Bool.false_eq_true, if_false]
  split_ifs with h0 h1 hexcept
  · simpa [List.eq_nil_iff_forall_not_mem] using h1
  · simpa [List.eq_nil_iff_forall_not_mem] using h1
  · simp
  · simp
  rw [Option.map_eq_none_iff, ← Option.not_isSome_iff_eq_none, List.isSome_minOn?_iff, not_not, List.filter_eq_nil_iff]
  constructor
  · intro h m hm
    obtain ⟨i, hi⟩ := List.mem_iff_getElem?.1 hm
    simpa using h (m, i) (List.mk_mem_zipIdx_iff_getElem?.2 hi)
  · intro h p hp
    simpa using h p.1 (List.fst_mem_of_mem_zipIdx hp)

lemma trySend_eq_none : q.trySend m = .ok none ↔ q.removed = false ∧ ¬q.Fits m := by
  unfold trySend
  cases q.removed <;> by_cases hf : q.Fits m <;> simp

lemma trySend_eq_some (h : q.trySend m = .ok (some q')) : q.removed = false ∧ q.Fits m ∧
      q' = { q with bytes := q.bytes + m.text.length, messages := q.messages ++ [m] } := by
  unfold trySend at h
  split_ifs at h with hr hf
  · cases h
    exact ⟨by simpa using hr, hf, rfl⟩
  · cases h

lemma tryReceive_eq_none (hc : sel.copy = false) :
    q.tryReceive sel = .ok none ↔ q.removed = false ∧ ∀ m ∈ q.messages, ¬sel.Accepts m := by
  rw [← findMessage_eq_none hc]
  unfold tryReceive
  cases q.removed with
  | true => simp
  | false =>
    cases q.findMessage sel with
    | none => simp
    | some index =>
      cases hm : q.messages[index]? with
      | none => simp [hm]
      | some m => by_cases hbig : sel.msgsz < m.text.length ∧ sel.noerror = false <;> simp [hm, hc, hbig]

lemma tryReceive_eq_some (h : q.tryReceive sel = .ok (some (m, q'))) :
    q.removed = false ∧ ∃ index, q.findMessage sel = some index ∧ q.messages[index]? = some m ∧
      (sel.copy = true ∧ q' = q ∨ sel.copy = false ∧
        q' = { q with messages := q.messages.eraseIdx index, bytes := q.bytes - m.text.length }) := by
  unfold tryReceive at h
  by_cases hr : q.removed = true
  · rw [if_pos hr] at h
    cases h
  rw [if_neg hr] at h
  refine ⟨by simpa using hr, ?_⟩
  cases hi : q.findMessage sel with
  | none =>
    rw [hi] at h
    cases h
  | some index =>
    rw [hi] at h
    dsimp only at h
    cases hm : q.messages[index]? with
    | none =>
      rw [hm] at h
      cases h
    | some n =>
      rw [hm] at h
      dsimp only at h
      split_ifs at h with hbig hcopy
      · cases h
        exact ⟨index, rfl, hm, .inl ⟨hcopy, rfl⟩⟩
      · cases h
        exact ⟨index, rfl, hm, .inr ⟨by simpa using hcopy, rfl⟩⟩

end QueueState

end Ya2yOS.Ipc
