import Ya2yOS.Fs.PipeRing

/-!
# Pipes as byte queues

The queue that a pipe implements is a log of the bytes that went in, with the place up to which it has been
read. Every operation on any number of pipes answers as the queues do.
-/

namespace Ya2yOS.Fs

open Function PipeRingBuffer Option

open Mm (pageSize pageRoundUp)

/-- A bounded byte queue: all the bytes that went in, in order, and how many of them came out again. -/
structure Fifo where
  accepted : List UInt8
  position : ℕ
  capacity : ℕ
  writers : ℕ
  readers : ℕ

namespace Fifo

def empty (capacity : ℕ) : Fifo := ⟨[], 0, capacity, 0, 0⟩

def content (f : Fifo) : List UInt8 := f.accepted.drop f.position

def room (f : Fifo) : ℕ := f.capacity - f.content.length

def put (f : Fifo) (bytes : List UInt8) : Fifo := { f with accepted := f.accepted ++ bytes }

def advance (f : Fifo) (n : ℕ) : Fifo := { f with position := f.position + n }

def read (f : Fifo) (n : ℕ) (nonblock : Bool) : PipeRet × Fifo :=
  if f.content = [] then
    (if f.writers = 0 then .data [] else if nonblock then .error .EAGAIN else .block, f)
  else (.data (f.content.take n), f.advance (min n f.content.length))

def write (f : Fifo) (bytes : List UInt8) (nonblock : Bool) : PipeRet × Fifo :=
  if f.readers = 0 then (.error .EPIPE, f)
  else if f.room = 0 then (if nonblock then .error .EAGAIN else .block, f)
  else (.done (min f.room bytes.length), f.put (bytes.take f.room))

def writeKernelBytes (f : Fifo) (bytes : List UInt8) : PipeRet × Fifo :=
  if f.readers = 0 then (.error .EPIPE, f)
  else if f.room < bytes.length then (.error .ENOBUFS, f)
  else (.done bytes.length, f.put bytes)

def push (f : Fifo) (bytes : List UInt8) : PipeRet × Fifo :=
  if f.readers = 0 then (.error .EPIPE, f)
  else (.done (min f.room bytes.length), f.put (bytes.take f.room))

def ofPage (page : FilePage) (fileOffset remaining : ℕ) : List UInt8 :=
  ((page.content.take page.validLen).drop (fileOffset % pageSize)).take remaining

def spliceFilePage (f : Fifo) (page : FilePage) (fileOffset remaining : ℕ) : PipeRet × Fifo :=
  if ofPage page fileOffset remaining = [] then (.done 0, f) else f.push (ofPage page fileOffset remaining)

def spliceToPipe (input output : Fifo) (len : ℕ) : PipeRet × Fifo × Fifo :=
  if output.readers = 0 then (.error .EPIPE, input, output)
  else
    let n := min (min len input.content.length) output.room
    (.done n, input.advance n, output.put (input.content.take n))

def teeToPipe (input output : Fifo) (len : ℕ) : PipeRet × Fifo :=
  if output.readers = 0 then (.error .EPIPE, output)
  else
    let n := min (min len input.content.length) output.room
    (.done n, output.put (input.content.take n))

def setCapacity (f : Fifo) (requested : ℕ) (privileged : Bool) (maxSize : ℕ) : PipeRet × Fifo :=
  let capacity := if requested = 0 then pageSize else pageRoundUp requested
  if pipeMaxSize < capacity ∨ (!privileged ∧ maxSize < capacity) then (.error .EPERM, f)
  else if capacity < f.content.length then (.error .EBUSY, f)
  else (.done capacity, { f with capacity := capacity })

def openEnd (f : Fifo) (readable writable : Bool) : Fifo :=
  { f with
    readers := if readable then f.readers + 1 else f.readers
    writers := if writable then f.writers + 1 else f.writers }

def closeEnd (f : Fifo) (readable writable : Bool) : Fifo :=
  { f with
    readers := if readable then f.readers - 1 else f.readers
    writers := if writable then f.writers - 1 else f.writers }

end Fifo

/-- The ring buffer holds exactly what the queue has not given out yet. -/
structure Refines (r : PipeRingBuffer) (f : Fifo) : Prop where
  sound : r.Sound
  content : r.content = f.content
  position_le : f.position ≤ f.accepted.length
  capacity : r.capacity = f.capacity
  writers : r.writeEndCount = f.writers
  readers : r.readEndCount = f.readers

namespace Refines

variable {r r' : PipeRingBuffer} {f : Fifo}

lemma withCapacity (capacity : ℕ) : Refines (.withCapacity capacity) (.empty capacity) :=
  ⟨sound_withCapacity capacity, rfl, le_rfl, rfl, rfl, rfl⟩

lemma availableRead (h : Refines r f) : r.availableRead = f.content.length := by
  rw [← h.content, h.sound.length_content]
  rfl

lemma availableWrite (h : Refines r f) : r.availableWrite = f.room := by
  unfold PipeRingBuffer.availableWrite Fifo.room
  rw [h.capacity, ← h.content, h.sound.length_content]

lemma put (h : Refines r f) {bytes : List UInt8} (hup : r.Updates (r.content ++ bytes) r') :
    Refines r' (f.put bytes) := by
  refine ⟨hup.sound, ?_, ?_, hup.capacity.trans h.capacity, hup.writeEndCount.trans h.writers,
    hup.readEndCount.trans h.readers⟩
  · rw [hup.content, h.content]
    exact (List.drop_append_of_le_length h.position_le).symm
  · have hle := h.position_le
    simp only [Fifo.put, List.length_append]
    omega

lemma advance (h : Refines r f) {n : ℕ} (hn : n ≤ f.content.length) (hup : r.Updates (r.content.drop n) r') :
    Refines r' (f.advance n) := by
  refine ⟨hup.sound, ?_, ?_, hup.capacity.trans h.capacity, hup.writeEndCount.trans h.writers,
    hup.readEndCount.trans h.readers⟩
  · rw [hup.content, h.content]
    exact List.drop_drop
  · have hle := h.position_le
    have hlen : f.content.length = f.accepted.length - f.position := List.length_drop
    simp only [Fifo.advance]
    omega

end Refines

/-- An operation of the ring buffer that gives the answer of the queue and keeps to it. -/
def Answers (out : Option (PipeRet × PipeRingBuffer)) (spec : PipeRet × Fifo) : Prop :=
  ∃ r', out = some (spec.1, r') ∧ Refines r' spec.2

section Simulation

variable {r : PipeRingBuffer} {f : Fifo}

lemma read_answers (h : Refines r f) (places : List ℕ) (nonblock : Bool) :
    Answers (r.read places nonblock) (f.read places.sum nonblock) := by
  have hlen : f.content.length = r.bytes := h.availableRead.symm
  unfold PipeRingBuffer.read Fifo.read
  rw [h.availableRead, h.writers]
  by_cases h0 : f.content = []
  · rw [if_pos (List.length_eq_zero_iff.2 h0)]
    split_ifs <;> exact ⟨r, rfl, h⟩
  rw [if_neg (by simpa using h0)]
  have htake : r.content.take (min f.content.length places.sum) = f.content.take places.sum := by
    rw [h.content, min_comm, ← List.take_eq_take_min]
  split_ifs with hsmall
  · obtain ⟨r', hloop, hup⟩ := PipeRingBuffer.readLoop_spec f.content.length places.sum h.sound hlen.le
    refine ⟨r', ?_, ?_⟩
    · rw [hloop, htake]
      rfl
    · rw [min_comm] at hup
      exact h.advance (min_le_right _ _) hup
  · obtain ⟨r', hread, hup⟩ := PipeRingBuffer.readInto_spec h.sound
      ((min_le_left _ _).trans hlen.le) (min_le_right f.content.length places.sum)
    refine ⟨r', ?_, ?_⟩
    · rw [hread, htake]
      rfl
    · rw [min_comm] at hup
      exact h.advance (min_le_right _ _) hup

lemma write_answers (h : Refines r f) (pages : List (List UInt8)) (nonblock : Bool) :
    Answers (r.write pages nonblock) (f.write pages.flatten nonblock) := by
  unfold write Fifo.write
  dsimp only
  rw [h.availableWrite, h.readers]
  split_ifs with hr h0 hn hsmall
  · exact ⟨r, rfl, h⟩
  · exact ⟨r, rfl, h⟩
  · exact ⟨r, rfl, h⟩
  · obtain ⟨r', hloop, hup⟩ := writeLoop_spec f.room pages.flatten h.sound h.availableWrite.ge
    refine ⟨r', ?_, h.put hup⟩
    rw [hloop]
    rfl
  · have hbytes : readTo pages (min f.room pages.flatten.length) = pages.flatten.take f.room := by
      rw [readTo_eq, ← List.take_eq_take_min]
    obtain ⟨r', hwrite, hup⟩ := writeOwnedBytes_spec h.sound (pages.flatten.take f.room) (by
      rw [h.availableWrite, List.length_take]
      exact min_le_left _ _)
    refine ⟨r', ?_, h.put hup⟩
    rw [hbytes, hwrite, List.length_take]
    rfl

lemma writeKernelBytes_answers (h : Refines r f) (buf : List UInt8) :
    Answers (r.writeKernelBytes buf) (f.writeKernelBytes buf) := by
  unfold writeKernelBytes Fifo.writeKernelBytes
  rw [h.availableWrite, h.readers]
  split_ifs with hr hroom
  · exact ⟨r, rfl, h⟩
  · exact ⟨r, rfl, h⟩
  obtain ⟨r', hwrite, hup⟩ := writeBytes_spec h.sound buf (by
    rw [h.availableWrite]
    omega)
  refine ⟨r', ?_, h.put hup⟩
  rw [hwrite]
  rfl

lemma pushBufs_answers (h : Refines r f) (bufs : List PipeBuf) (hv : ∀ b ∈ bufs, b.Valid) (hl : lens bufs ≤ f.room) :
    ∃ r', r.pushBufs bufs = some r' ∧ Refines r' (f.put (windows bufs)) := by
  obtain ⟨r', hpush, hup⟩ := pushBufs_spec h.sound hv (h.availableWrite ▸ hl)
  exact ⟨r', hpush, h.put hup⟩

lemma windows_fromFilePage (page : FilePage) (pageOffset n : ℕ) :
    windows [PipeBuf.fromFilePage page pageOffset n] = (page.content.drop pageOffset).take n := by
  simp [PipeBuf.fromFilePage, PipeBuf.window, PipeBufStorage.contents]

lemma length_ofPage (page : FilePage) (fileOffset remaining : ℕ) : (Fifo.ofPage page fileOffset remaining).length =
      min (min remaining (page.validLen - fileOffset % pageSize)) (pageSize - fileOffset % pageSize) := by
  unfold Fifo.ofPage
  rw [List.length_take, List.length_drop, List.length_take, page.full]
  omega

lemma ofPage_eq (page : FilePage) (fileOffset remaining : ℕ) : Fifo.ofPage page fileOffset remaining =
      (page.content.drop (fileOffset % pageSize)).take (Fifo.ofPage page fileOffset remaining).length := by
  rw [length_ofPage]
  unfold Fifo.ofPage
  rw [List.drop_take, List.take_take]
  conv_lhs => rw [List.take_eq_take_min, List.length_drop, page.full]

lemma push_nil (h : Refines r f) : Refines r (f.put []) := h.put (by simpa using PipeRingBuffer.Updates.refl h.sound)

lemma spliceFilePage_answers (h : Refines r f) (page : FilePage) (fileOffset remaining : ℕ) :
    Answers (r.spliceFilePage page fileOffset remaining) (f.spliceFilePage page fileOffset remaining) := by
  have hlen := length_ofPage page fileOffset remaining
  have hpage := ofPage_eq page fileOffset remaining
  unfold spliceFilePage pushFilePage Fifo.spliceFilePage Fifo.push
  dsimp only
  rw [← hlen, h.availableWrite, h.readers]
  generalize Fifo.ofPage page fileOffset remaining = bytes at *
  by_cases hbytes : bytes = []
  · rw [if_pos hbytes, if_pos (List.length_eq_zero_iff.2 hbytes), ite_self]
    exact ⟨r, rfl, h⟩
  have hpos := List.length_pos_iff.2 hbytes
  rw [if_neg (by omega), if_neg (by omega)]
  split_ifs with hr h0
  · exact ⟨r, rfl, h⟩
  · have hroom : f.room = 0 := by omega
    rw [hroom]
    exact ⟨r, rfl, push_nil h⟩
  have hwindow : windows [PipeBuf.fromFilePage page (fileOffset % pageSize) (min bytes.length f.room)] =
      bytes.take f.room := by
    rw [windows_fromFilePage, hpage, List.take_take, ← hpage, min_comm]
  obtain ⟨r', hpush, href⟩ := pushBufs_answers h
    [PipeBuf.fromFilePage page (fileOffset % pageSize) (min bytes.length f.room)]
    (by
      rw [List.forall_mem_singleton]
      refine ⟨?_, Nat.pos_of_ne_zero h0⟩
      simp only [PipeBuf.fromFilePage, PipeBufStorage.contents, page.full]
      omega)
    (by
      simp only [lens_cons, lens_nil, PipeBuf.fromFilePage]
      omega)
  refine ⟨r', ?_, ?_⟩
  · rw [hpush, min_comm]
    rfl
  · rwa [hwindow] at href

lemma setCapacity_answers (h : Refines r f) (requested : ℕ) (privileged : Bool) (maxSize : ℕ) :
    Answers (some (r.setCapacity requested privileged maxSize)) (f.setCapacity requested privileged maxSize) := by
  unfold setCapacity Fifo.setCapacity
  dsimp only
  generalize (if requested = 0 then pageSize else pageRoundUp requested) = capacity
  rw [h.availableRead]
  split_ifs with hperm hbusy
  · exact ⟨r, rfl, h⟩
  · exact ⟨r, rfl, h⟩
  · refine ⟨_, rfl, ⟨h.sound.counted, ?_, h.sound.valid⟩, h.content, h.position_le, rfl, h.writers, h.readers⟩
    have hread : r.bytes = f.content.length := h.availableRead
    dsimp only
    omega

lemma openEnd_refines (h : Refines r f) (readable writable : Bool) :
    Refines (r.openEnd readable writable) (f.openEnd readable writable) := by
  refine ⟨⟨h.sound.counted, h.sound.bounded, h.sound.valid⟩, h.content, h.position_le, h.capacity, ?_, ?_⟩
  · simp only [openEnd, Fifo.openEnd, h.writers]
  · simp only [openEnd, Fifo.openEnd, h.readers]

lemma closeEnd_refines (h : Refines r f) (readable writable : Bool) :
    Refines (r.closeEnd readable writable) (f.closeEnd readable writable) := by
  refine ⟨⟨h.sound.counted, h.sound.bounded, h.sound.valid⟩, h.content, h.position_le, h.capacity, ?_, ?_⟩
  · simp only [closeEnd, Fifo.closeEnd, h.writers]
  · simp only [closeEnd, Fifo.closeEnd, h.readers]

variable {r₁ r₂ : PipeRingBuffer} {f₁ f₂ : Fifo}

lemma spliceToPipe_answers (h₁ : Refines r₁ f₁) (h₂ : Refines r₂ f₂) (len : ℕ) :
    ∃ r₁' r₂', r₁.spliceToPipe r₂ len = some ((f₁.spliceToPipe f₂ len).1, r₁', r₂') ∧
      Refines r₁' (f₁.spliceToPipe f₂ len).2.1 ∧ Refines r₂' (f₁.spliceToPipe f₂ len).2.2 := by
  unfold PipeRingBuffer.spliceToPipe Fifo.spliceToPipe
  dsimp only
  rw [h₁.availableRead, h₂.availableWrite, h₂.readers]
  generalize hn : min (min len f₁.content.length) f₂.room = n
  have hle : n ≤ f₁.content.length := by omega
  split_ifs with hr h0
  · exact ⟨r₁, r₂, rfl, h₁, h₂⟩
  · subst h0
    exact ⟨r₁, r₂, rfl, h₁.advance (Nat.zero_le _) (PipeRingBuffer.Updates.refl h₁.sound), push_nil h₂⟩
  obtain ⟨head, r₁', hpop, hup, hw, hl, hv⟩ := PipeRingBuffer.popBufs_spec h₁.sound (hle.trans h₁.availableRead.ge)
  obtain ⟨r₂', hpush, href⟩ := pushBufs_answers h₂ _ hv (by omega)
  refine ⟨r₁', r₂', ?_, h₁.advance hle hup, ?_⟩
  · simp only [hpop, bind_eq_bind, bind_some, hpush, pure_def]
  · rwa [hw, h₁.content] at href

lemma teeToPipe_answers (h₁ : Refines r₁ f₁) (h₂ : Refines r₂ f₂) (len : ℕ) :
    Answers (r₁.teeToPipe r₂ len) (f₁.teeToPipe f₂ len) := by
  unfold teeToPipe Fifo.teeToPipe cloneBufs
  dsimp only
  rw [h₁.availableRead, h₂.availableWrite, h₂.readers]
  generalize hn : min (min len f₁.content.length) f₂.room = n
  have hle : n ≤ f₁.content.length := by omega
  split_ifs with hr h0
  · exact ⟨r₂, rfl, h₂⟩
  · subst h0
    exact ⟨r₂, rfl, push_nil h₂⟩
  rw [min_eq_left hle]
  obtain ⟨hw, hl, hv⟩ := cloneLoop_spec (n := n) h₁.sound.valid (by
    rw [← h₁.sound.counted]
    exact hle.trans h₁.availableRead.ge)
  obtain ⟨r₂', hpush, href⟩ := pushBufs_answers h₂ _ hv (by omega)
  refine ⟨r₂', ?_, ?_⟩
  · rw [hpush]
    rfl
  · have hcontent : windows r₁.bufs = f₁.content := h₁.content
    rwa [hw, hcontent] at href

end Simulation

/-! ### Any number of pipes -/

inductive PipeEvent where
  | read (i : ℕ) (places : List ℕ) (nonblock : Bool)
  | write (i : ℕ) (pages : List (List UInt8)) (nonblock : Bool)
  | writeKernelBytes (i : ℕ) (buf : List UInt8)
  | spliceFilePage (i : ℕ) (page : FilePage) (fileOffset remaining : ℕ)
  | spliceToPipe (i j : ℕ) (len : ℕ)
  | teeToPipe (i j : ℕ) (len : ℕ)
  | setCapacity (i requested : ℕ) (privileged : Bool) (maxSize : ℕ)
  | openEnd (i : ℕ) (readable writable : Bool)
  | closeEnd (i : ℕ) (readable writable : Bool)

abbrev Pipes := ℕ → PipeRingBuffer

abbrev Fifos := ℕ → Fifo

namespace Pipes

def onPipe (s : Pipes) (i : ℕ) (out : Option (PipeRet × PipeRingBuffer)) : Option (PipeRet × Pipes) := do
  let (ret, r) ← out
  return (ret, update s i r)

def step (s : Pipes) : PipeEvent → Option (PipeRet × Pipes)
  | .read i places nonblock => s.onPipe i ((s i).read places nonblock)
  | .write i pages nonblock => s.onPipe i ((s i).write pages nonblock)
  | .writeKernelBytes i buf => s.onPipe i ((s i).writeKernelBytes buf)
  | .spliceFilePage i page fileOffset remaining => s.onPipe i ((s i).spliceFilePage page fileOffset remaining)
  | .spliceToPipe i j len =>
    if i = j then some (.error .EINVAL, s)
    else do
      let (ret, input, output) ← (s i).spliceToPipe (s j) len
      return (ret, update (update s i input) j output)
  | .teeToPipe i j len =>
    if i = j then some (.error .EINVAL, s) else s.onPipe j ((s i).teeToPipe (s j) len)
  | .setCapacity i requested privileged maxSize => s.onPipe i (some ((s i).setCapacity requested privileged maxSize))
  | .openEnd i readable writable => s.onPipe i (some (.done 0, (s i).openEnd readable writable))
  | .closeEnd i readable writable => s.onPipe i (some (.done 0, (s i).closeEnd readable writable))

def run (s : Pipes) : List PipeEvent → Option (List PipeRet × Pipes)
  | [] => some ([], s)
  | e :: events => do
    let (ret, s) ← s.step e
    let (rets, s) ← run s events
    return (ret :: rets, s)

end Pipes

namespace Fifos

def onPipe (q : Fifos) (i : ℕ) (out : PipeRet × Fifo) : PipeRet × Fifos := (out.1, update q i out.2)

def step (q : Fifos) : PipeEvent → PipeRet × Fifos
  | .read i places nonblock => q.onPipe i ((q i).read places.sum nonblock)
  | .write i pages nonblock => q.onPipe i ((q i).write pages.flatten nonblock)
  | .writeKernelBytes i buf => q.onPipe i ((q i).writeKernelBytes buf)
  | .spliceFilePage i page fileOffset remaining => q.onPipe i ((q i).spliceFilePage page fileOffset remaining)
  | .spliceToPipe i j len =>
    if i = j then (.error .EINVAL, q)
    else
      let out := (q i).spliceToPipe (q j) len
      (out.1, update (update q i out.2.1) j out.2.2)
  | .teeToPipe i j len =>
    if i = j then (.error .EINVAL, q) else q.onPipe j ((q i).teeToPipe (q j) len)
  | .setCapacity i requested privileged maxSize => q.onPipe i ((q i).setCapacity requested privileged maxSize)
  | .openEnd i readable writable => q.onPipe i (.done 0, (q i).openEnd readable writable)
  | .closeEnd i readable writable => q.onPipe i (.done 0, (q i).closeEnd readable writable)

def run (q : Fifos) : List PipeEvent → List PipeRet × Fifos
  | [] => ([], q)
  | e :: events => ((q.step e).1 :: (run (q.step e).2 events).1, (run (q.step e).2 events).2)

end Fifos

namespace Pipes

variable {s : Pipes} {q : Fifos}

lemma update_refines (h : ∀ i, Refines (s i) (q i)) {r : PipeRingBuffer} {f : Fifo} (hr : Refines r f) (i j : ℕ) :
    Refines (update s i r j) (update q i f j) := by
  by_cases hj : j = i
  · subst hj
    rwa [update_self, update_self]
  · rw [update_of_ne hj, update_of_ne hj]
    exact h j

lemma onPipe_refines (h : ∀ i, Refines (s i) (q i)) {i : ℕ} {out : Option (PipeRet × PipeRingBuffer)}
    {spec : PipeRet × Fifo} (ho : Answers out spec) :
    ∃ s', s.onPipe i out = some ((q.onPipe i spec).1, s') ∧ ∀ j, Refines (s' j) ((q.onPipe i spec).2 j) := by
  obtain ⟨r', rfl, href⟩ := ho
  exact ⟨update s i r', rfl, update_refines h href i⟩

/-- One operation answers as the queues do and leaves the pipes in step with them. -/
lemma step_refines (h : ∀ i, Refines (s i) (q i)) (e : PipeEvent) :
    ∃ s', s.step e = some ((q.step e).1, s') ∧ ∀ i, Refines (s' i) ((q.step e).2 i) := by
  cases e with
  | read i places nonblock => exact onPipe_refines h (read_answers (h i) places nonblock)
  | write i pages nonblock => exact onPipe_refines h (write_answers (h i) pages nonblock)
  | writeKernelBytes i buf => exact onPipe_refines h (writeKernelBytes_answers (h i) buf)
  | spliceFilePage i page fileOffset remaining =>
    exact onPipe_refines h (spliceFilePage_answers (h i) page fileOffset remaining)
  | spliceToPipe i j len =>
    by_cases hij : i = j
    · exact ⟨s, by simp only [step, Fifos.step, if_pos hij], by simpa only [Fifos.step, if_pos hij] using h⟩
    obtain ⟨r₁, r₂, hsplice, href₁, href₂⟩ := spliceToPipe_answers (h i) (h j) len
    refine ⟨update (update s i r₁) j r₂, ?_, ?_⟩
    · simp only [step, Fifos.step, if_neg hij, hsplice, bind_eq_bind, bind_some, pure_def]
    · simp only [Fifos.step, if_neg hij]
      exact update_refines (update_refines h href₁ i) href₂ j
  | teeToPipe i j len =>
    by_cases hij : i = j
    · exact ⟨s, by simp only [step, Fifos.step, if_pos hij], by simpa only [Fifos.step, if_pos hij] using h⟩
    · simp only [step, Fifos.step, if_neg hij]
      exact onPipe_refines h (teeToPipe_answers (h i) (h j) len)
  | setCapacity i requested privileged maxSize =>
    exact onPipe_refines h (setCapacity_answers (h i) requested privileged maxSize)
  | openEnd i readable writable =>
    exact onPipe_refines h ⟨_, rfl, openEnd_refines (h i) readable writable⟩
  | closeEnd i readable writable =>
    exact onPipe_refines h ⟨_, rfl, closeEnd_refines (h i) readable writable⟩

lemma run_refines (h : ∀ i, Refines (s i) (q i)) (events : List PipeEvent) :
    ∃ s', s.run events = some ((q.run events).1, s') ∧ ∀ i, Refines (s' i) ((q.run events).2 i) := by
  induction events generalizing s q with
  | nil => exact ⟨s, rfl, h⟩
  | cons e events ih =>
    obtain ⟨s₁, hstep, h₁⟩ := step_refines h e
    obtain ⟨s₂, hrun, h₂⟩ := ih h₁
    refine ⟨s₂, ?_, h₂⟩
    simp only [run, Fifos.run, hstep, hrun, bind_eq_bind, bind_some, pure_def]

/-- The pipes are bounded byte queues. Whatever capacities they start with and whatever operations follow, no
assertion and no unwrap fails, every operation gives back what the queue gives back, and at the end the counter
of every pipe is the sum of the lengths of its windows and within the capacity, no window is empty, and the
windows show, in order, the bytes that were accepted and not yet read. -/
theorem run_refines_fifo (capacity : ℕ → ℕ) (events : List PipeEvent) :
    ∃ s : Pipes, run (fun i => .withCapacity (capacity i)) events =
        some ((Fifos.run (fun i => .empty (capacity i)) events).1, s) ∧
      ∀ i, (s i).bytes = ((s i).bufs.map PipeBuf.len).sum ∧ (s i).bytes ≤ (s i).capacity ∧
        (∀ b ∈ (s i).bufs, 0 < b.len ∧ b.asSlice = some b.window) ∧
        let f := (Fifos.run (fun i => .empty (capacity i)) events).2 i
        (s i).content = f.accepted.drop f.position ∧ f.position ≤ f.accepted.length ∧
          (s i).capacity = f.capacity ∧ (s i).writeEndCount = f.writers ∧ (s i).readEndCount = f.readers := by
  obtain ⟨s, hrun, h⟩ := run_refines (fun i => Refines.withCapacity (capacity i)) events
  refine ⟨s, hrun, ?_⟩
  intro i
  have hi := h i
  refine ⟨hi.sound.counted, hi.sound.bounded, ?_, hi.content, hi.position_le, hi.capacity, hi.writers, hi.readers⟩
  intro b hb
  exact ⟨(hi.sound.valid b hb).nonempty, (hi.sound.valid b hb).asSlice⟩

end Pipes

end Ya2yOS.Fs
