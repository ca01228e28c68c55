import Ya2yOS.Net.UnixQueue

/-!
# The lengths of socket messages

`syscall/net/io.rs` and `cmsg.rs`, and the route of a UDP message. Sums wrap in a release build; an allocation that
does not fit, a slice out of its bounds and a destination without a route panic. What the user memory answers to each
copy is arbitrary.
-/

namespace Ya2yOS.Net

open Nat

def wordSize : ℕ := 2 ^ 64

/-- A call that may end with an error; none is a panic. -/
abbrev SocketRet (α : Type) := ExceptT SysErrNo Option α

namespace SocketRet

variable {α β : Type}

def panicked : SocketRet α := (none : Option (Except SysErrNo α))

def Safe (x : SocketRet α) : Prop := x.run ≠ none

@[simp] lemma safe_pure (a : α) : Safe (pure a : SocketRet α) := fun h => by cases h

@[simp] lemma safe_bind (x : SocketRet α) (f : α → SocketRet β) :
    Safe (x >>= f) ↔ Safe x ∧ ∀ a, x = pure a → Safe (f a) := by
  rcases x with _ | e | a
  · exact iff_of_false (fun h => h rfl) fun h => h.1 rfl
  · exact iff_of_true (fun h => by cases h) ⟨fun h => (by cases h), fun a h => (by cases h)⟩
  · refine ⟨fun h => ⟨fun h' => (by cases h'), fun b hb => ?_⟩, fun h => h.2 a rfl⟩
    cases hb
    exact h

end SocketRet

open SocketRet

def slice (start stop len : ℕ) : SocketRet Unit := if start ≤ stop ∧ stop ≤ len then pure () else panicked

def userCopy (ok : Bool) : SocketRet Unit := if ok then pure () else throw .EFAULT

def answer {α : Type} (x : Except SysErrNo α) : SocketRet α := ExceptT.mk (some x)

section

variable {α : Type} {n room start stop len : ℕ} {ok : Bool} {u : Unit}

end

def sizeofCmsghdr : ℕ := 16

def cmsgAlign (len : ℕ) : ℕ := (len + 7) % wordSize / 8 * 8

def leNat (bytes : List UInt8) : ℕ := bytes.foldr (fun b n => b.toNat + 256 * n) 0

def cmsgLen (control : List UInt8) (offset : ℕ) : ℕ := leNat ((control.drop offset).take 8) % wordSize

/-- `CMsg::parse`, with the descriptors that are open. -/
def parse (isOpen : ℕ → Bool) (level type : ℕ) (data : List UInt8) : Except SysErrNo Unit :=
  if level = 1 ∧ type = 1 then
    if data.length % 4 ≠ 0 then .error .EINVAL
    else (data.toChunks 4).forM fun chunk =>
      if 2 ^ 31 ≤ leNat chunk then .error .EBADFD else if isOpen (leNat chunk) then .ok () else .error .EBADF
  else .error .EINVAL

/-- `parse` of the message whose header is at `offset`. -/
def parseAt (isOpen : ℕ → Bool) (control : List UInt8) (offset : ℕ) : Except SysErrNo Unit :=
  parse isOpen (leNat ((control.drop (offset + 8)).take 4)) (leNat ((control.drop (offset + 12)).take 4))
    ((control.drop (offset + sizeofCmsghdr)).take (cmsgLen control offset - sizeofCmsghdr))

/-- The loop of `parse_control_messages`, with the ranges of bytes that were parsed; without fuel it panics. -/
def parseLoop (isOpen : ℕ → Bool) (control : List UInt8) : ℕ → ℕ → SocketRet (List (ℕ × ℕ))
  | 0, _ => panicked
  | fuel + 1, offset =>
    if offset + sizeofCmsghdr ≤ control.length then
      let len := cmsgLen control offset
      let stop := (offset + len) % wordSize
      if len < sizeofCmsghdr ∨ control.length < stop then throw .EINVAL
      else do
        slice (offset + sizeofCmsghdr) stop control.length
        answer (parseAt isOpen control offset)
        let next := (offset + cmsgAlign len) % wordSize
        if next ≤ offset then throw .EINVAL
        else
          let rest ← parseLoop isOpen control fuel next
          return (offset + sizeofCmsghdr, stop) :: rest
    else pure []

def parseControlMessages (isOpen : ℕ → Bool) (control : List UInt8) : SocketRet (List (ℕ × ℕ)) :=
  if control = [] then pure []
  else if control.length < sizeofCmsghdr then throw .EINVAL
  else parseLoop isOpen control (control.length + 8) 0

/-- The walk over the headers goes on from one offset to the other. -/
def NextHeader (isOpen : ℕ → Bool) (control : List UInt8) (o o' : ℕ) : Prop :=
  sizeofCmsghdr ≤ cmsgLen control o ∧ o + cmsgLen control o ≤ control.length ∧
    parseAt isOpen control o = .ok () ∧ o' = o + cmsgAlign (cmsgLen control o)

/-- No header that the walk comes to has a length that goes round the address space. -/
def ControlBounded (isOpen : ℕ → Bool) (control : List UInt8) : Prop :=
  ∀ o, Relation.ReflTransGen (NextHeader isOpen control) 0 o → o + sizeofCmsghdr ≤ control.length →
    o + cmsgLen control o < wordSize

section

variable {isOpen : ℕ → Bool} {control : List UInt8} {o : ℕ}

end

/-! ### The calls -/

/-- An iovec, and whether the user memory that it names can be copied. -/
structure MsgIovec where
  base : ℕ
  len : BitVec 64
  copied : Bool

/-- `msghdr`, with what its pointers lead to and whether it can be copied. There is no control buffer where its pointer
is null or its length zero. -/
structure MsgHdr where
  copied : Bool
  iovNull : Bool
  iovCopied : Bool
  iovs : List MsgIovec
  control : Option (List UInt8)
  controlCopied : Bool

def totalLen (iovs : List MsgIovec) : ℕ := (iovs.map (·.len.toNat)).sum % wordSize

def readIovecs (msg : MsgHdr) : Except SysErrNo (List MsgIovec) :=
  if msg.iovs = [] then .ok []
  else if msg.iovNull then .error .EFAULT
  else if 1024 < msg.iovs.length then .error .EINVAL
  else if msg.iovCopied then .ok msg.iovs
  else .error .EFAULT

/-- The loop of `iovecs_to_buf_and_ub`, from a byte of the buffer on. -/
def gather (total : ℕ) : ℕ → List MsgIovec → SocketRet Unit
  | _, [] => pure ()
  | offset, v :: rest =>
    if v.len = 0 then gather total offset rest
    else if v.base = 0 then throw .EFAULT
    else do
      slice offset ((offset + v.len.toNat) % wordSize) total
      userCopy v.copied
      gather total ((offset + v.len.toNat) % wordSize) rest

inductive RecvSocket where
  | unix (kind : UnixSocketKind) (recvClosed peerClosed : Bool) (queue : UnixRecvQueue)
  /-- the bytes in the buffer -/
  | tcp (buffered : Except SysErrNo ℕ)
  /-- the length of the next message -/
  | udp (message : Except SysErrNo ℕ)

/-- What `recv` returns for a buffer of `len` bytes. -/
def RecvSocket.recv (len : ℕ) (flags : RecvFlags) : RecvSocket → Except SysErrNo ℕ
  | .unix kind recvClosed peerClosed queue =>
    if recvClosed then .ok 0 else (queue.recv kind peerClosed len flags).map (·.1.count)
  | .tcp buffered => buffered.map (min len)
  | .udp message => message.map fun n => if flags.truncate then n else min len n

/-- With `MSG_TRUNC`, the next message is longer than the buffer. -/
def RecvSocket.Overlong (len : ℕ) (flags : RecvFlags) : RecvSocket → Prop
  | .unix kind recvClosed _ queue => flags.truncate = true ∧ kind ≠ .stream ∧ recvClosed = false ∧
      queue.closed = false ∧ ∃ m ∈ queue.messages.head?, len < m.data.length
  | .tcp _ => False
  | .udp message => flags.truncate = true ∧ ∃ n, message = .ok n ∧ len < n

inductive IpAddress where
  | v4 (addr : BitVec 32)
  | v6 (addr : BitVec 128)
deriving DecidableEq

structure IpCidr where
  address : IpAddress
  prefixLen : ℕ

def IpCidr.containsAddr (c : IpCidr) (addr : IpAddress) : Bool :=
  match c.address, addr with
  | .v4 a, .v4 b => a >>> (32 - c.prefixLen) = b >>> (32 - c.prefixLen)
  | .v6 a, .v6 b => a >>> (128 - c.prefixLen) = b >>> (128 - c.prefixLen)
  | _, _ => false

structure IpEndpoint where
  addr : IpAddress
  port : BitVec 16

inductive SocketAddrEx where
  | ip (endpoint : IpEndpoint)
  | unix (addr : UnixSocketAddr)

def getSourceAddress (routes : List IpCidr) (addr : IpAddress) : SocketRet Unit :=
  if routes.any (·.containsAddr addr) then pure () else panicked

/-- A socket to send from, with what its queue answers, and for UDP with the peer of a connected socket. -/
inductive SendSocket where
  | unix (sent : Except SysErrNo ℕ)
  | tcp (sent : Except SysErrNo ℕ)
  | udp (remote : Except SysErrNo IpEndpoint) (sent : Except SysErrNo ℕ)

/-- The destination in `UdpSocket::send`: a given one is looked up in the routes. -/
def udpRemote (routes : List IpCidr) (remote : Except SysErrNo IpEndpoint) : Option SocketAddrEx → SocketRet IpEndpoint
  | none => answer remote
  | some (.unix _) => throw .EAFNOSUPPORT
  | some (.ip endpoint) => do
    getSourceAddress routes endpoint.addr
    return endpoint

def SendSocket.send (routes : List IpCidr) (dest : Option SocketAddrEx) : SendSocket → SocketRet ℕ
  | .unix sent | .tcp sent => answer sent
  | .udp remote sent => do
    let remote ← udpRemote routes remote dest
    if remote.port = 0 ∨ remote.addr = .v4 0 ∨ remote.addr = .v6 0 then throw .EINVAL else answer sent

/-- There is a route to the destination of a UDP message. -/
def Routed (routes : List IpCidr) (dest : Except SysErrNo (Option SocketAddrEx)) (socket : Except SysErrNo SendSocket) :
    Prop :=
  ∀ endpoint, dest = .ok (some (.ip endpoint)) → ∀ remote sent, socket = .ok (.udp remote sent) →
    ∃ c ∈ routes, c.containsAddr endpoint.addr = true

/-- The socket calls. `socket` is what the descriptor gives and `dest` what reading the address gives; the flags tell
which of the copies of the data, the address and its length succeed. -/
inductive SocketCall where
  | sendto (len : BitVec 64) (copied : Bool) (dest : Except SysErrNo (Option SocketAddrEx))
      (socket : Except SysErrNo SendSocket)
  | sendmsg (msg : MsgHdr) (isOpen : ℕ → Bool) (dest : Except SysErrNo (Option SocketAddrEx))
      (socket : Except SysErrNo SendSocket)
  | recvfrom (len : BitVec 64) (flags : RecvFlags) (socket : Except SysErrNo RecvSocket) (nameLen name back : Bool)
  | recvmsg (msg : MsgHdr) (flags : RecvFlags) (socket : Except SysErrNo RecvSocket) (name back : Bool)

/-- What a call finds: the bytes the heap has for the data and, beside them, for the control buffer, and the routes. -/
structure SendEnv where
  room : Fin (2 ^ 63)
  controlRoom : Fin (2 ^ 63)
  routes : List IpCidr

namespace SocketCall

/-- The bytes of the iovecs up to the first one that cannot be copied. -/
def reachedLen : List MsgIovec → ℕ
  | [] => 0
  | v :: rest =>
    if v.len = 0 then reachedLen rest
    else if v.base = 0 then 0
    else v.len.toNat + if v.copied then reachedLen rest else 0

/-- All iovecs can be copied. -/
def Gathered (iovs : List MsgIovec) : Prop := ∀ v ∈ iovs, v.len = 0 ∨ v.base ≠ 0 ∧ v.copied = true

/-- The control messages are copied and parsed without an error. -/
def Parsed (isOpen : ℕ → Bool) (msg : MsgHdr) : Prop :=
  ∀ control ∈ msg.control, msg.controlCopied = true ∧ ∃ ws, parseControlMessages isOpen control = pure ws

/-- The condition on a call: what it allocates is there, the lengths of the iovecs do not go round before one of them
fails, nor does the length of a control message that is looked at, a UDP message that gets as far has a route, and no
message is longer than the buffer in which its whole length is asked for. -/
def Bounded (env : SendEnv) : SocketCall → Prop
  | sendto len copied dest socket => len.toNat ≤ env.room ∧ (copied = true → Routed env.routes dest socket)
  | sendmsg msg isOpen dest socket => msg.copied = true → ∀ iovs, readIovecs msg = .ok iovs →
      totalLen iovs ≤ env.room ∧ reachedLen iovs ≤ totalLen iovs ∧ (Gathered iovs →
        (∀ control ∈ msg.control, control.length ≤ env.controlRoom ∧
          (msg.controlCopied = true → ControlBounded isOpen control)) ∧
        (Parsed isOpen msg → Routed env.routes dest socket))
  | recvfrom len flags socket nameLen name _ => len.toNat ≤ env.room ∧
      (nameLen = true → name = true → ∀ s, socket = .ok s → ¬ s.Overlong len.toNat flags)
  | recvmsg msg flags socket name _ => msg.copied = true → ∀ iovs, readIovecs msg = .ok iovs →
      (∀ v ∈ iovs, v.len = 0 ∨ v.base ≠ 0) → totalLen iovs ≤ env.room ∧
        (name = true → ∀ s, socket = .ok s → ¬ s.Overlong (totalLen iovs) flags)

end SocketCall

open SocketCall

end Ya2yOS.Net
