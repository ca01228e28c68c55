import Ya2yOS.Fs.PipeBuffer
import Ya2yOS.Utils.SysErrNo

/-!
# The ring buffer of a pipe

`PipeRingBuffer` with the critical sections of the operations on pipes, and what each of them does to the bytes
in the queue.
-/

namespace Ya2yOS.Fs

open PipeBuf List

open Mm (pageSize pageRoundUp)

structure PipeRingBuffer where
  bufs : List PipeBuf
  bytes : ℕ
  capacity : ℕ
  writeEndCount : ℕ
  readEndCount : ℕ

inductive PipeRet where
  | done (n : ℕ)
  | data (bytes : List UInt8)
  | error (e : SysErrNo)
  | block
deriving DecidableEq, Repr

namespace PipeRingBuffer

def withCapacity (capacity : ℕ) : PipeRingBuffer := ⟨[], 0, capacity, 0, 0⟩

def availableRead (r : PipeRingBuffer) : ℕ := r.bytes

def availableWrite (r : PipeRingBuffer) : ℕ := r.capacity - r.bytes

def writeBytes (r : PipeRingBuffer) (bytes : List UInt8) (len : ℕ) : Option PipeRingBuffer :=
  if r.availableWrite < len then none
  else
    let len := min len bytes.length
    if len = 0 then some r
    else some { r with bufs := r.bufs ++ [new (bytes.take len)], bytes := r.bytes + len }

def writeByte (r : PipeRingBuffer) (byte : UInt8) : Option PipeRingBuffer := r.writeBytes [byte] 1

def writeOwnedBytes (r : PipeRingBuffer) (bytes : List UInt8) : Option (ℕ × PipeRingBuffer) :=
  if r.availableWrite < bytes.length then none
  else if bytes.length = 0 then some (0, r)
  else some (bytes.length, { r with bufs := r.bufs ++ [new bytes], bytes := r.bytes + bytes.length })

def popBufs (r : PipeRingBuffer) (len : ℕ) : Option (List PipeBuf × PipeRingBuffer) := do
  let (head, rest) ← popLoop r.bufs (min len r.availableRead)
  return (head, { r with bufs := rest, bytes := r.bytes - lens head })

def readBytes (r : PipeRingBuffer) (len : ℕ) : Option (List UInt8 × PipeRingBuffer) := do
  let (bufs, r) ← r.popBufs (min len r.availableRead)
  let slices ← bufs.mapM asSlice
  return (slices.flatten, r)

def readByte (r : PipeRingBuffer) : Option (UInt8 × PipeRingBuffer) := do
  let (bytes, r) ← r.readBytes 1
  let byte ← bytes[0]?
  return (byte, r)

def readInto (r : PipeRingBuffer) (places : List ℕ) (len : ℕ) : Option (List UInt8 × PipeRingBuffer) :=
  let len := min len r.availableRead
  if len = 0 then some ([], r)
  else do
    let (bufs, r) ← r.popBufs len
    let slices ← bufs.mapM asSlice
    return (writeFromSlices slices places (min places.sum len), r)

def pushBufs (r : PipeRingBuffer) (bufs : List PipeBuf) : Option PipeRingBuffer :=
  if r.availableWrite < lens bufs then none
  else some { r with bufs := r.bufs ++ bufs.filter (0 < ·.len), bytes := r.bytes + lens bufs }

def cloneBufs (r : PipeRingBuffer) (len : ℕ) : List PipeBuf := cloneLoop r.bufs (min len r.availableRead)

def readLoop : ℕ → ℕ → PipeRingBuffer → Option (List UInt8 × PipeRingBuffer)
  | available + 1, places + 1, r => do
    let (byte, r) ← r.readByte
    let (bytes, r) ← readLoop available places r
    return (byte :: bytes, r)
  | _, _, r => some ([], r)

def read (r : PipeRingBuffer) (places : List ℕ) (nonblock : Bool) : Option (PipeRet × PipeRingBuffer) :=
  let requested := places.sum
  let loopRead := r.availableRead
  if loopRead = 0 then
    if r.writeEndCount = 0 then some (.data [], r)
    else if nonblock then some (.error .EAGAIN, r)
    else some (.block, r)
  else if requested ≤ 10 then do
    let (bytes, r) ← readLoop loopRead requested r
    return (.data bytes, r)
  else do
    let (bytes, r) ← r.readInto places (min loopRead requested)
    return (.data bytes, r)

def writeLoop : ℕ → List UInt8 → PipeRingBuffer → Option (ℕ × PipeRingBuffer)
  | room + 1, byte :: bytes, r => do
    let r ← r.writeByte byte
    let (n, r) ← writeLoop room bytes r
    return (n + 1, r)
  | _, _, r => some (0, r)

def write (r : PipeRingBuffer) (pages : List (List UInt8)) (nonblock : Bool) : Option (PipeRet × PipeRingBuffer) :=
  let requested := pages.flatten.length
  let loopWrite := r.availableWrite
  if r.readEndCount = 0 then some (.error .EPIPE, r)
  else if loopWrite = 0 then some (if nonblock then .error .EAGAIN else .block, r)
  else if requested ≤ 10 then do
    let (n, r) ← writeLoop loopWrite pages.flatten r
    return (.done n, r)
  else do
    let (n, r) ← r.writeOwnedBytes (readTo pages (min loopWrite requested))
    return (.done n, r)

def writeKernelBytes (r : PipeRingBuffer) (buf : List UInt8) : Option (PipeRet × PipeRingBuffer) :=
  if r.readEndCount = 0 then some (.error .EPIPE, r)
  else if r.availableWrite < buf.length then some (.error .ENOBUFS, r)
  else do
    let r ← r.writeBytes buf buf.length
    return (.done buf.length, r)

def pushFilePage (r : PipeRingBuffer) (page : FilePage) (pageOffset len : ℕ) :
    Option (PipeRet × PipeRingBuffer) :=
  if len = 0 then some (.done 0, r)
  else if r.readEndCount = 0 then some (.error .EPIPE, r)
  else
    let len := min len r.availableWrite
    if len = 0 then some (.done 0, r)
    else do
      let r ← r.pushBufs [fromFilePage page pageOffset len]
      return (.done len, r)

/-- One round of `splice_file_to_pipe_cached`, with the page that the cache holds for the offset. -/
def spliceFilePage (r : PipeRingBuffer) (page : FilePage) (fileOffset remaining : ℕ) :
    Option (PipeRet × PipeRingBuffer) :=
  let pageOffset := fileOffset % pageSize
  let validLen := page.validLen - pageOffset
  if validLen = 0 then some (.done 0, r)
  else r.pushFilePage page pageOffset (min (min remaining validLen) (pageSize - pageOffset))

def pipeMaxSize : ℕ := 65536

/-- `set_capacity`; the caller may have `CAP_SYS_RESOURCE`, and the limit of the others is `maxSize`. -/
def setCapacity (r : PipeRingBuffer) (requested : ℕ) (privileged : Bool) (maxSize : ℕ) : PipeRet × PipeRingBuffer :=
  let capacity := if requested = 0 then pageSize else pageRoundUp requested
  if pipeMaxSize < capacity ∨ (!privileged ∧ maxSize < capacity) then (.error .EPERM, r)
  else if capacity < r.availableRead then (.error .EBUSY, r)
  else (.done capacity, { r with capacity := capacity })

def openEnd (r : PipeRingBuffer) (readable writable : Bool) : PipeRingBuffer :=
  { r with
    readEndCount := if readable then r.readEndCount + 1 else r.readEndCount
    writeEndCount := if writable then r.writeEndCount + 1 else r.writeEndCount }

def closeEnd (r : PipeRingBuffer) (readable writable : Bool) : PipeRingBuffer :=
  { r with
    readEndCount := if readable then r.readEndCount - 1 else r.readEndCount
    writeEndCount := if writable then r.writeEndCount - 1 else r.writeEndCount }

def spliceToPipe (input output : PipeRingBuffer) (len : ℕ) : Option (PipeRet × PipeRingBuffer × PipeRingBuffer) :=
  if output.readEndCount = 0 then some (.error .EPIPE, input, output)
  else
    let len := min (min len input.availableRead) output.availableWrite
    if len = 0 then some (.done 0, input, output)
    else do
      let (bufs, input) ← input.popBufs len
      let output ← output.pushBufs bufs
      return (.done len, input, output)

def teeToPipe (input output : PipeRingBuffer) (len : ℕ) : Option (PipeRet × PipeRingBuffer) :=
  if output.readEndCount = 0 then some (.error .EPIPE, output)
  else
    let len := min (min len input.availableRead) output.availableWrite
    if len = 0 then some (.done 0, output)
    else do
      let output ← output.pushBufs (input.cloneBufs len)
      return (.done len, output)

/-! ### The invariant of the queue -/

/-- The counter is the sum of the lengths, it keeps to the capacity, and no window is empty. -/
structure Sound (r : PipeRingBuffer) : Prop where
  counted : r.bytes = lens r.bufs
  bounded : r.bytes ≤ r.capacity
  valid : ∀ b ∈ r.bufs, b.Valid

def content (r : PipeRingBuffer) : List UInt8 := windows r.bufs

structure Updates (r : PipeRingBuffer) (c : List UInt8) (r' : PipeRingBuffer) : Prop where
  sound : r'.Sound
  content : r'.content = c
  capacity : r'.capacity = r.capacity
  writeEndCount : r'.writeEndCount = r.writeEndCount
  readEndCount : r'.readEndCount = r.readEndCount

lemma sound_withCapacity (capacity : ℕ) : (withCapacity capacity).Sound := by
  constructor
  · rfl
  · exact Nat.zero_le _
  · simp [withCapacity]

section Operations

variable {r r' : PipeRingBuffer} {n : ℕ} {c : List UInt8} {nonblock : Bool} {places : List ℕ} {ret : PipeRet}

lemma Updates.refl (h : r.Sound) : r.Updates r.content r := ⟨h, rfl, rfl, rfl, rfl⟩

lemma Updates.trans {d : List UInt8} {r'' : PipeRingBuffer} (h : r.Updates c r') (h' : r'.Updates d r'') :
    r.Updates d r'' := by
  constructor
  · exact h'.sound
  · exact h'.content
  · exact h'.capacity.trans h.capacity
  · exact h'.writeEndCount.trans h.writeEndCount
  · exact h'.readEndCount.trans h.readEndCount

lemma Sound.length_content (h : r.Sound) : r.content.length = r.bytes := by
  rw [h.counted]
  exact length_windows h.valid

lemma Sound.append (h : r.Sound) (bufs : List PipeBuf) (hv : ∀ b ∈ bufs, b.Valid)
    (hl : lens bufs ≤ r.availableWrite) :
    r.Updates (r.content ++ windows bufs) { r with bufs := r.bufs ++ bufs, bytes := r.bytes + lens bufs } := by
  have hb := h.bounded
  unfold availableWrite at hl
  refine ⟨⟨?_, ?_, ?_⟩, ?_, rfl, rfl, rfl⟩
  · rw [lens_append, h.counted]
  · dsimp only
    omega
  · intro b hb
    rcases mem_append.1 hb with hb | hb
    · exact h.valid b hb
    · exact hv b hb
  · exact windows_append _ _

lemma valid_new {bytes : List UInt8} (h : bytes ≠ []) : (new bytes).Valid :=
  ⟨by simp [new, PipeBufStorage.contents], length_pos_iff.2 h⟩

lemma windows_new (bytes : List UInt8) : windows [new bytes] = bytes := by
  simp [new, window, PipeBufStorage.contents]

lemma writeBytes_spec (h : r.Sound) (bytes : List UInt8) (hl : bytes.length ≤ r.availableWrite) :
    ∃ r', r.writeBytes bytes bytes.length = some r' ∧ r.Updates (r.content ++ bytes) r' := by
  unfold writeBytes
  rw [if_neg (by omega)]
  dsimp only
  rw [min_self, take_length]
  split_ifs with h0
  · rw [length_eq_zero_iff.1 h0, append_nil]
    exact ⟨r, rfl, .refl h⟩
  · refine ⟨_, rfl, ?_⟩
    have hnew := h.append [new bytes] (by simpa using valid_new (by simpa using h0)) (by simpa [new] using hl)
    rwa [windows_new] at hnew

lemma writeOwnedBytes_spec (h : r.Sound) (bytes : List UInt8) (hl : bytes.length ≤ r.availableWrite) :
    ∃ r', r.writeOwnedBytes bytes = some (bytes.length, r') ∧ r.Updates (r.content ++ bytes) r' := by
  unfold writeOwnedBytes
  rw [if_neg (by omega)]
  split_ifs with h0
  · rw [length_eq_zero_iff.1 h0, append_nil]
    exact ⟨r, rfl, .refl h⟩
  · refine ⟨_, rfl, ?_⟩
    have hnew := h.append [new bytes] (by simpa using valid_new (by simpa using h0)) (by simpa [new] using hl)
    rwa [windows_new] at hnew

lemma pushBufs_spec (h : r.Sound) {bufs : List PipeBuf} (hv : ∀ b ∈ bufs, b.Valid) (hl : lens bufs ≤ r.availableWrite) :
    ∃ r', r.pushBufs bufs = some r' ∧ r.Updates (r.content ++ windows bufs) r' := by
  have hfilter : bufs.filter (0 < ·.len) = bufs := filter_eq_self.2 fun b hb => by
    simpa using (hv b hb).nonempty
  unfold pushBufs
  rw [if_neg (by omega), hfilter]
  exact ⟨_, rfl, h.append bufs hv hl⟩

lemma popBufs_spec (h : r.Sound) (hn : n ≤ r.bytes) :
    ∃ head r', r.popBufs n = some (head, r') ∧ r.Updates (r.content.drop n) r' ∧
      windows head = r.content.take n ∧ lens head = n ∧ ∀ b ∈ head, b.Valid := by
  obtain ⟨head, rest, hpop, hcut⟩ := popLoop_cuts h.valid (h.counted ▸ hn)
  refine ⟨head, { r with bufs := rest, bytes := r.bytes - lens head }, ?_, ⟨⟨?_, ?_, hcut.rest_valid⟩,
    hcut.rest_windows, rfl, rfl, rfl⟩, hcut.head_windows, hcut.head_lens, hcut.head_valid⟩
  · unfold popBufs availableRead
    rw [min_eq_left hn, hpop]
    rfl
  · rw [hcut.rest_lens, hcut.head_lens, h.counted]
  · have hb := h.bounded
    dsimp only
    omega

lemma readBytes_spec (h : r.Sound) (hn : n ≤ r.bytes) :
    ∃ r', r.readBytes n = some (r.content.take n, r') ∧ r.Updates (r.content.drop n) r' := by
  obtain ⟨head, r', hpop, hup, hw, -, hv⟩ := popBufs_spec h hn
  refine ⟨r', ?_, hup⟩
  unfold readBytes availableRead
  rw [min_eq_left hn, hpop]
  simp only [Option.bind_eq_bind, Option.bind_some, mapM_asSlice hv, Option.pure_def]
  exact congrArg (fun x => some (x, r')) hw

lemma readByte_spec (h : r.Sound) {byte : UInt8} {rest : List UInt8} (hc : r.content = byte :: rest) :
    ∃ r', r.readByte = some (byte, r') ∧ r.Updates rest r' := by
  have hlen := h.length_content
  rw [hc, length_cons] at hlen
  obtain ⟨r', hread, hup⟩ := readBytes_spec (n := 1) h (by omega)
  rw [hc] at hread hup
  exact ⟨r', by simp [readByte, hread], by simpa using hup⟩

lemma readInto_spec (h : r.Sound) (hn : n ≤ r.bytes) (hp : n ≤ places.sum) :
    ∃ r', r.readInto places n = some (r.content.take n, r') ∧ r.Updates (r.content.drop n) r' := by
  unfold readInto availableRead
  dsimp only
  rw [min_eq_left hn]
  split_ifs with h0
  · subst h0
    exact ⟨r, by simp, by simpa using Updates.refl h⟩
  obtain ⟨head, r', hpop, hup, hw, hl, hv⟩ := popBufs_spec h hn
  refine ⟨r', ?_, hup⟩
  have hlen : (windows head).length = n := by rw [length_windows hv, hl]
  simp only [hpop, Option.bind_eq_bind, Option.bind_some, mapM_asSlice hv, Option.pure_def, min_eq_right hp,
    writeFromSlices_eq _ _ _ hp]
  change some ((windows head).take n, r') = _
  rw [take_of_length_le (by omega), hw]

lemma readLoop_spec (available places : ℕ) (h : r.Sound) (ha : available ≤ r.bytes) :
    ∃ r', readLoop available places r = some (r.content.take (min available places), r') ∧
      r.Updates (r.content.drop (min available places)) r' := by
  induction available generalizing places r with
  | zero => exact ⟨r, by simp [readLoop], by simpa using Updates.refl h⟩
  | succ available ih =>
    cases places with
    | zero => exact ⟨r, by simp [readLoop], by simpa using Updates.refl h⟩
    | succ places =>
      have hlen := h.length_content
      cases hc : r.content with
      | nil =>
        rw [hc, length_nil] at hlen
        omega
      | cons byte rest =>
        obtain ⟨r₁, hbyte, hup⟩ := readByte_spec h hc
        have hlen' := hup.sound.length_content
        rw [hup.content] at hlen'
        rw [hc, length_cons] at hlen
        obtain ⟨r₂, hloop, hup₂⟩ := ih places hup.sound (by omega)
        rw [hup.content] at hloop hup₂
        refine ⟨r₂, ?_, ?_⟩
        · simp [readLoop, hbyte, hloop]
        · rw [Nat.succ_min_succ]
          exact hup.trans hup₂

lemma writeLoop_spec (room : ℕ) (bytes : List UInt8) (h : r.Sound) (hr : room ≤ r.availableWrite) :
    ∃ r', writeLoop room bytes r = some (min room bytes.length, r') ∧ r.Updates (r.content ++ bytes.take room) r' := by
  induction room generalizing bytes r with
  | zero => exact ⟨r, by simp [writeLoop], by simpa using Updates.refl h⟩
  | succ room ih =>
    cases bytes with
    | nil => exact ⟨r, by simp [writeLoop], by simpa using Updates.refl h⟩
    | cons byte bytes =>
      obtain ⟨r₁, hbyte, hup⟩ := writeBytes_spec h [byte] (by simp; omega)
      have hlen := h.length_content
      have hlen₁ := hup.sound.length_content
      rw [hup.content, length_append, length_singleton] at hlen₁
      obtain ⟨r₂, hloop, hup₂⟩ := ih bytes hup.sound (by
        unfold availableWrite at *
        rw [hup.capacity]
        omega)
      rw [hup.content] at hup₂
      refine ⟨r₂, ?_, ?_⟩
      · have hb : r.writeByte byte = some r₁ := hbyte
        simp [writeLoop, hb, hloop]
      · have htrans := hup.trans hup₂
        rwa [append_assoc, singleton_append] at htrans

lemma read_spec (h : r.Sound) (ha : r.availableRead ≠ 0)
    (hr : r.read places nonblock = some (ret, r')) : (∃ bytes, ret = .data bytes) ∧ ∃ c, r.Updates c r' := by
  unfold read at hr
  rw [if_neg ha] at hr
  split_ifs at hr with hsmall
  · obtain ⟨r₁, hloop, hup⟩ := readLoop_spec r.availableRead places.sum h le_rfl
    rw [hloop] at hr
    cases hr
    exact ⟨⟨_, rfl⟩, _, hup⟩
  · obtain ⟨r₁, hread, hup⟩ := readInto_spec (n := min r.availableRead places.sum) h (min_le_left _ _)
      (min_le_right _ _)
    rw [hread] at hr
    cases hr
    exact ⟨⟨_, rfl⟩, _, hup⟩

lemma write_cases (h : r.Sound) {pages : List (List UInt8)} (hw : r.write pages nonblock = some (ret, r')) :
    (r.readEndCount = 0 ∧ ret = .error .EPIPE) ∨ (r.availableWrite = 0 ∧ (ret = .block ∨ ret = .error .EAGAIN)) ∨
      r.readEndCount ≠ 0 ∧ r.availableWrite ≠ 0 ∧ (∃ n, ret = .done n) ∧ ∃ c, r.Updates c r' := by
  unfold write at hw
  by_cases hread : r.readEndCount = 0
  · rw [if_pos hread] at hw
    cases hw
    exact .inl ⟨hread, rfl⟩
  rw [if_neg hread] at hw
  by_cases hroom : r.availableWrite = 0
  · rw [if_pos hroom] at hw
    cases hw
    cases nonblock
    · exact .inr (.inl ⟨hroom, .inl rfl⟩)
    · exact .inr (.inl ⟨hroom, .inr rfl⟩)
  refine .inr (.inr ⟨hread, hroom, ?_⟩)
  split_ifs at hw with hsmall
  · obtain ⟨r₁, hloop, hup⟩ := writeLoop_spec r.availableWrite pages.flatten h le_rfl
    rw [hloop] at hw
    cases hw
    exact ⟨⟨_, rfl⟩, _, hup⟩
  · have hlen : (readTo pages (min r.availableWrite pages.flatten.length)).length ≤ r.availableWrite := by
      rw [readTo_eq, length_take]
      omega
    obtain ⟨r₁, hwrite, hup⟩ := writeOwnedBytes_spec h _ hlen
    rw [hwrite] at hw
    cases hw
    exact ⟨⟨_, rfl⟩, _, hup⟩

lemma writeKernelBytes_cases (h : r.Sound) {buf : List UInt8} (hw : r.writeKernelBytes buf = some (ret, r')) :
    (∃ e, ret = .error e) ∨ (∃ n, ret = .done n) ∧ r.Updates (r.content ++ buf) r' := by
  unfold writeKernelBytes at hw
  by_cases hread : r.readEndCount = 0
  · rw [if_pos hread] at hw
    cases hw
    exact .inl ⟨_, rfl⟩
  rw [if_neg hread] at hw
  by_cases hroom : r.availableWrite < buf.length
  · rw [if_pos hroom] at hw
    cases hw
    exact .inl ⟨_, rfl⟩
  rw [if_neg hroom] at hw
  obtain ⟨r₁, hwrite, hup⟩ := writeBytes_spec h buf (by omega)
  rw [hwrite] at hw
  cases hw
  exact .inr ⟨⟨_, rfl⟩, hup⟩

lemma setCapacity_cases (r : PipeRingBuffer) (requested : ℕ) (privileged : Bool) (maxSize : ℕ) :
    (∃ e, r.setCapacity requested privileged maxSize = (.error e, r)) ∨
      ∃ n, r.bytes ≤ n ∧ r.setCapacity requested privileged maxSize = (.done n, { r with capacity := n }) := by
  unfold setCapacity
  dsimp only
  generalize (if requested = 0 then pageSize else pageRoundUp requested) = capacity
  split_ifs with hperm hbusy
  · exact .inl ⟨_, rfl⟩
  · exact .inl ⟨_, rfl⟩
  · exact .inr ⟨capacity, by unfold availableRead at hbusy; omega, rfl⟩

lemma Updates.availableWrite_le (h : r.Sound) (hup : r.Updates (r.content ++ c) r') :
    r'.availableWrite ≤ r.availableWrite := by
  have hlen := hup.sound.length_content
  rw [hup.content, length_append, h.length_content] at hlen
  unfold availableWrite
  rw [hup.capacity]
  omega

end Operations

end PipeRingBuffer

end Ya2yOS.Fs
