import Mathlib.Data.List.Basic
import Ya2yOS.Lib.Transition

/-!
# The page cache

The loads, reads, writes and truncations of one file. A load publishes its pages later, where a page is vacant; a
writer removes pages later. The state keeps what the file held after each write and which writes have removed their
pages. A page may go at any time and a publication may find no room; pages written through a mapping are left out.
-/

namespace Ya2yOS.Fs

open Lib

abbrev Byte := BitVec 8

def PAGE_SIZE : ℕ := 4096

def pageOf (content : List Byte) (k : ℕ) : List Byte := (content.drop (k * PAGE_SIZE)).take PAGE_SIZE

def readAt (content : List Byte) (off len : ℕ) : List Byte := (content.drop off).take len

/-- A write beyond the end leaves a hole of zeros. -/
def writeAt (content : List Byte) (off : ℕ) (data : List Byte) : List Byte :=
  if data = [] then content
  else content.take off ++ List.replicate (off - content.length) 0 ++ data ++ content.drop (off + data.length)

def truncateTo (content : List Byte) (size : ℕ) : List Byte :=
  content.take size ++ List.replicate (size - content.length) 0

/-! ### Tasks -/

/-- `try_page_cached_read` of a large range: what it has read so far, as pieces with their file offsets. -/
structure RangeRead where
  offset : ℕ
  fileSize : ℕ
  available : ℕ
  cursor : ℕ
  pieces : List (ℕ × List Byte)
deriving DecidableEq

/-- A task. A read keeps the writes that were done when it began (`seen`), and a load the number of the last write
when it read the size of the file (`since`). -/
inductive PagePc where
  | idle
  /-- `get_or_load`: the first lookup, the size, the look at the page before, the read of the file, the second lookup,
  the publication, the lookup after a lost publication, and the pages read ahead. -/
  | lookup (seen : List ℕ) (k : ℕ)
  | size (seen : List ℕ) (k : ℕ)
  | probe (seen : List ℕ) (k since fileSize : ℕ)
  | read (seen : List ℕ) (k since fileSize wanted : ℕ)
  | again (seen : List ℕ) (k since : ℕ) (page : List Byte) (rest : List (ℕ × List Byte))
  | publish (seen : List ℕ) (k since : ℕ) (page : List Byte) (rest : List (ℕ × List Byte))
  | retry (seen : List ℕ) (k since : ℕ) (page : List Byte)
  | readahead (seen : List ℕ) (k since : ℕ) (page : List Byte) (rest : List (ℕ × List Byte))
  | returned (seen : List ℕ) (k : ℕ) (page : List Byte)
  /-- A read of a range: the size, the lookup of a page, the end of a run of absent pages, the read of the run and the
  publication of its pages. -/
  | rangeSize (seen : List ℕ) (offset len : ℕ)
  | rangeLook (seen : List ℕ) (since : ℕ) (r : RangeRead)
  | rangeRun (seen : List ℕ) (since : ℕ) (r : RangeRead) (runEnd : ℕ)
  | rangeRead (seen : List ℕ) (since : ℕ) (r : RangeRead) (runEnd : ℕ)
  | rangeInsert (seen : List ℕ) (since : ℕ) (r : RangeRead) (runEnd : ℕ) (data : List Byte)
      (rest : List (ℕ × List Byte))
  | rangeDone (seen : List ℕ) (pieces : List (ℕ × List Byte))
  | invalidate (write first last : ℕ)
  | invalidateAll (write : ℕ)
deriving DecidableEq

def PagePc.since : PagePc → Option ℕ
  | .probe _ _ since _ | .read _ _ since _ _ | .again _ _ since _ _ | .publish _ _ since _ _ | .retry _ _ since _
  | .readahead _ _ since _ _ | .rangeLook _ since _ | .rangeRun _ since _ _ | .rangeRead _ since _ _
  | .rangeInsert _ since _ _ _ _ => some since
  | _ => none

structure PageSystem where
  history : ℕ → List Byte
  version : ℕ
  cache : ℕ → Option (List Byte)
  completed : List ℕ
  pc : ℕ → PagePc

inductive PageEvent where
  | getOrLoad (t k : ℕ)
  | readRange (t offset len : ℕ)
  | write (t off : ℕ) (data : List Byte)
  | truncate (t size : ℕ)
  | run (t frames : ℕ) (room : Bool)
  | evict (k : ℕ)

namespace PageSystem

def initial (content : List Byte) : PageSystem where
  history _ := content
  version := 0
  cache _ := none
  completed := []
  pc _ := .idle

def content (s : PageSystem) : List Byte := s.history s.version

def goto (s : PageSystem) (t : ℕ) (pc : PagePc) : PageSystem := { s with pc := Function.update s.pc t pc }

def publish (s : PageSystem) (k : ℕ) (page : List Byte) : PageSystem :=
  if s.cache k = none then { s with cache := Function.update s.cache k (some page) } else s

def store (s : PageSystem) (content : List Byte) : PageSystem :=
  { s with history := Function.update s.history (s.version + 1) content, version := s.version + 1 }

def SEQUENTIAL_READAHEAD_MAX_PAGES : ℕ := 4

def wantedPages (k fileSize : ℕ) (hasPrevious : Bool) : ℕ :=
  let fileOffset := k * PAGE_SIZE
  let wanted := if hasPrevious && decide (fileOffset + PAGE_SIZE < fileSize) then
    (fileSize - fileOffset + (PAGE_SIZE - 1)) / PAGE_SIZE else 1
  min (max wanted 1) SEQUENTIAL_READAHEAD_MAX_PAGES

/-- The pages that a load has read: the first one, also if it is empty, and the ones behind it up to the end. -/
def loadedPages (content : List Byte) (k fileSize frames : ℕ) : List Byte × List (ℕ × List Byte) :=
  if fileSize ≤ k * PAGE_SIZE then ([], [])
  else
    let data := readAt content (k * PAGE_SIZE) (frames * PAGE_SIZE)
    let page := fun i => (data.drop (i * PAGE_SIZE)).take PAGE_SIZE
    (page 0, ((List.range' 1 (frames - 1)).takeWhile fun i => page i ≠ []).map fun i => (k + i, page i))

/-- `insert_read_range`: the pages that the data covers up to the end of the file. -/
def coveredPages (offset : ℕ) (data : List Byte) (fileSize : ℕ) : List (ℕ × List Byte) :=
  if data = [] ∨ fileSize ≤ offset then []
  else
    let first := offset / PAGE_SIZE
    let last := (min (offset + data.length) fileSize - 1) / PAGE_SIZE
    (List.range' first (last + 1 - first)).filterMap fun k =>
      let start := k * PAGE_SIZE
      let validLen := min PAGE_SIZE (fileSize - start)
      if validLen = 0 ∨ start < offset ∨ data.length < start - offset + validLen then none
      else some (k, (data.drop (start - offset)).take validLen)

def pageEnd (r : RangeRead) (k : ℕ) : ℕ := min ((k + 1) * PAGE_SIZE - r.offset) r.available

def advance (s : PageSystem) (t frames : ℕ) (room : Bool) : PagePc → Option PageSystem
  | .lookup seen k =>
    match s.cache k with
    | some page => some (s.goto t (.returned seen k page))
    | none => some (s.goto t (.size seen k))
  | .size seen k => some (s.goto t (.probe seen k s.version s.content.length))
  | .probe seen k since fileSize =>
    some (s.goto t (.read seen k since fileSize (wantedPages k fileSize (k ≠ 0 && (s.cache (k - 1)).isSome))))
  | .read seen k since fileSize wanted =>
    -- Fewer frames shorten what is read ahead.
    let (page, rest) := loadedPages s.content k fileSize (min (max frames 1) wanted)
    some (s.goto t (.again seen k since page rest))
  | .again seen k since page rest =>
    match s.cache k with
    | some existing => some (s.goto t (.returned seen k existing))
    | none => some (s.goto t (.publish seen k since page rest))
  | .publish seen k since page rest =>
    if !room then some (s.goto t (.returned seen k page))
    else if s.cache k = none then some ((s.publish k page).goto t (.readahead seen k since page rest))
    else some (s.goto t (.retry seen k since page))
  | .retry seen k _ page => some (s.goto t (.returned seen k ((s.cache k).getD page)))
  | .readahead seen k _ page [] => some (s.goto t (.returned seen k page))
  | .readahead seen k since page ((j, next) :: rest) =>
    if (s.cache j).isSome then some (s.goto t (.readahead seen k since page rest))
    else if room then some ((s.publish j next).goto t (.readahead seen k since page rest))
    else some (s.goto t (.returned seen k page))
  | .rangeSize seen offset len =>
    let fileSize := s.content.length
    if fileSize ≤ offset then some (s.goto t (.rangeDone seen []))
    else if len ≤ PAGE_SIZE then some (s.goto t (.lookup seen (offset / PAGE_SIZE)))
    else some (s.goto t (.rangeLook seen s.version ⟨offset, fileSize, min len (fileSize - offset), 0, []⟩))
  | .rangeLook seen since r =>
    if r.available ≤ r.cursor then some (s.goto t (.rangeDone seen r.pieces))
    else
      let fileOffset := r.offset + r.cursor
      match s.cache (fileOffset / PAGE_SIZE) with
      | some page =>
        let piece := (page.drop (fileOffset % PAGE_SIZE)).take (r.available - r.cursor)
        if piece = [] then some (s.goto t (.rangeDone seen r.pieces))
        else
          let pieces := r.pieces ++ [(fileOffset, piece)]
          some (s.goto t (.rangeLook seen since { r with cursor := r.cursor + piece.length, pieces := pieces }))
      | none =>
        let runEnd := max (pageEnd r (fileOffset / PAGE_SIZE)) (r.cursor + 1)
        some (s.goto t (.rangeRun seen since r runEnd))
  | .rangeRun seen since r runEnd =>
    if r.available ≤ runEnd then some (s.goto t (.rangeRead seen since r runEnd))
    else
      let next := (r.offset + runEnd) / PAGE_SIZE
      if (s.cache next).isSome ∨ pageEnd r next ≤ runEnd then some (s.goto t (.rangeRead seen since r runEnd))
      else some (s.goto t (.rangeRun seen since r (pageEnd r next)))
  | .rangeRead seen since r runEnd =>
    let data := readAt s.content (r.offset + r.cursor) (runEnd - r.cursor)
    if data = [] then some (s.goto t (.rangeDone seen r.pieces))
    else
      let rest := coveredPages (r.offset + r.cursor) data r.fileSize
      some (s.goto t (.rangeInsert seen since r runEnd data rest))
  | .rangeInsert seen since r runEnd data [] =>
    let pieces := r.pieces ++ [(r.offset + r.cursor, data)]
    if data.length < runEnd - r.cursor then some (s.goto t (.rangeDone seen pieces))
    else some (s.goto t (.rangeLook seen since { r with cursor := r.cursor + data.length, pieces := pieces }))
  | .rangeInsert seen since r runEnd data ((j, page) :: rest) =>
    let s := if room then s.publish j page else s
    some (s.goto t (.rangeInsert seen since r runEnd data rest))
  | .invalidate write first last =>
    let cache := fun k => if first ≤ k ∧ k < last then none else s.cache k
    some (goto { s with cache := cache, completed := write :: s.completed } t .idle)
  | .invalidateAll write =>
    some (goto { s with cache := fun _ => none, completed := write :: s.completed } t .idle)
  | .idle | .returned .. | .rangeDone .. => none

def isFree : PagePc → Bool
  | .idle | .returned .. | .rangeDone .. => true
  | _ => false

def step (s : PageSystem) : PageEvent → Option PageSystem
  | .getOrLoad t k => if isFree (s.pc t) then some (s.goto t (.lookup s.completed k)) else none
  | .readRange t offset len => if isFree (s.pc t) then some (s.goto t (.rangeSize s.completed offset len)) else none
  | .write t off data =>
    if isFree (s.pc t) ∧ data ≠ [] then
      let last := (off + data.length + (PAGE_SIZE - 1)) / PAGE_SIZE
      some ((s.store (writeAt s.content off data)).goto t (.invalidate (s.version + 1) (off / PAGE_SIZE) last))
    else none
  | .truncate t size =>
    if isFree (s.pc t) then
      some ((s.store (truncateTo s.content size)).goto t (.invalidateAll (s.version + 1)))
    else none
  | .run t frames room => s.advance t frames room (s.pc t)
  | .evict k => some { s with cache := Function.update s.cache k none }

/-- The write has changed what a page holds, or how much. -/
def Changed (s : PageSystem) (write k : ℕ) : Prop := pageOf (s.history write) k ≠ pageOf (s.history (write - 1)) k

/-- The bytes of a page, and their number, are of a time since the write. -/
def FreshPage (s : PageSystem) (write k : ℕ) (page : List Byte) : Prop :=
  ∃ a b, write ≤ a ∧ a ≤ b ∧ b ≤ s.version ∧
    page = (pageOf (s.history b) k).take (pageOf (s.history a) k).length

/-- A byte is of a time since the write. -/
def FreshByte (s : PageSystem) (write off : ℕ) (x : Byte) : Prop :=
  ∃ b, write ≤ b ∧ b ≤ s.version ∧ (s.history b)[off]? = some x

/-- When a write removes its pages, no load is in flight that began before it; and a write begins in or before the page
in which the file ends. -/
def Orderly (s : PageSystem) : PageEvent → Prop
  | .write _ off _ => off / PAGE_SIZE ≤ s.content.length / PAGE_SIZE
  | .run t _ _ =>
    match s.pc t with
    | .invalidate write .. | .invalidateAll write => ∀ u since, (s.pc u).since = some since → write ≤ since
    | _ => True
  | _ => True

end PageSystem

end Ya2yOS.Fs
