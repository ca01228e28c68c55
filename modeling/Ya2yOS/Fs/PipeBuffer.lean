import Mathlib.Algebra.BigOperators.Group.List.Basic
import Ya2yOS.Mm.Address

/-!
# The queue of a pipe

`fs/files/pipe/buffer.rs` and `ring_buffer.rs` without the wait queues. A failed assertion, an `unwrap` of nothing and
a slice out of its bounds have no result.
-/

namespace Ya2yOS.Fs

open List
open Mm (pageSize)

/-- A page of the page cache that a pipe refers to. -/
structure FilePage where
  content : List UInt8
  full : content.length = pageSize
  validLen : ℕ

/-- Bytes of its own, or a page of a file. -/
inductive PipeBufStorage where
  | bytes (data : List UInt8)
  | filePage (page : FilePage)

def PipeBufStorage.contents : PipeBufStorage → List UInt8
  | .bytes data => data
  | .filePage page => page.content

/-- A window on a storage. -/
structure PipeBuf where
  storage : PipeBufStorage
  offset : ℕ
  len : ℕ

namespace PipeBuf

def new (bytes : List UInt8) : PipeBuf := ⟨.bytes bytes, 0, bytes.length⟩

def fromFilePage (page : FilePage) (offset len : ℕ) : PipeBuf := ⟨.filePage page, offset, len⟩

/-- The front and the rest share the storage. -/
def splitTo (b : PipeBuf) (len : ℕ) : PipeBuf × PipeBuf :=
  let len := min len b.len
  ({ b with len := len }, { b with offset := b.offset + len, len := b.len - len })

/-- The bytes of a buffer. -/
def window (b : PipeBuf) : List UInt8 := (b.storage.contents.drop b.offset).take b.len

/-- Indexing panics if the window leaves the storage. -/
def asSlice (b : PipeBuf) : Option (List UInt8) :=
  if b.offset + b.len ≤ b.storage.contents.length then some b.window else none

structure Valid (b : PipeBuf) : Prop where
  inside : b.offset + b.len ≤ b.storage.contents.length
  nonempty : 0 < b.len

variable {b : PipeBuf} {n : ℕ}

lemma Valid.asSlice (h : b.Valid) : b.asSlice = some b.window := if_pos h.inside

lemma Valid.length_window (h : b.Valid) : b.window.length = b.len := by
  have hin := h.inside
  simp only [window, length_take, length_drop]
  omega

lemma window_take (b : PipeBuf) (h : n ≤ b.len) : window { b with len := n } = b.window.take n := by
  simp only [window, take_take, min_eq_left h]

lemma window_splitTo (h : n ≤ b.len) :
    (b.splitTo n).1.window = b.window.take n ∧ (b.splitTo n).2.window = b.window.drop n := by
  unfold splitTo
  rw [min_eq_left h]
  refine ⟨b.window_take h, ?_⟩
  simp only [window, drop_take, drop_drop]

lemma Valid.splitTo (hb : b.Valid) (h0 : 0 < n) (h : n < b.len) : (b.splitTo n).1.Valid ∧ (b.splitTo n).2.Valid := by
  have hin := hb.inside
  unfold PipeBuf.splitTo
  rw [min_eq_left (le_of_lt h)]
  refine ⟨⟨?_, h0⟩, ⟨?_, ?_⟩⟩
  all_goals
    dsimp only
    omega

end PipeBuf

def windows (bufs : List PipeBuf) : List UInt8 := bufs.flatMap PipeBuf.window

def lens (bufs : List PipeBuf) : ℕ := (bufs.map PipeBuf.len).sum

section Queue

variable {bufs : List PipeBuf} {n : ℕ} {b : PipeBuf}

@[simp] lemma windows_nil : windows [] = [] := rfl

@[simp] lemma windows_cons (b : PipeBuf) (bufs : List PipeBuf) : windows (b :: bufs) = b.window ++ windows bufs := by
  simp [windows]

@[simp] lemma windows_append (l m : List PipeBuf) : windows (l ++ m) = windows l ++ windows m := by
  simp [windows]

@[simp] lemma lens_nil : lens [] = 0 := rfl

@[simp] lemma lens_cons (b : PipeBuf) (bufs : List PipeBuf) : lens (b :: bufs) = b.len + lens bufs := by
  simp [lens]

@[simp] lemma lens_append (l m : List PipeBuf) : lens (l ++ m) = lens l + lens m := by
  simp [lens]

lemma length_windows (h : ∀ b ∈ bufs, b.Valid) : (windows bufs).length = lens bufs := by
  induction bufs with
  | nil => rfl
  | cons b bufs ih =>
    rw [forall_mem_cons] at h
    rw [windows_cons, length_append, lens_cons, h.1.length_window, ih h.2]

/-- Buffers are taken from the front, and the last one is split. -/
def popLoop : List PipeBuf → ℕ → Option (List PipeBuf × List PipeBuf)
  | bufs, 0 => some ([], bufs)
  | [], _ + 1 => none
  | front :: rest, remaining + 1 =>
    if front.len ≤ remaining + 1 then do
      let (head, rest) ← popLoop rest (remaining + 1 - front.len)
      return (front :: head, rest)
    else
      let (head, front) := front.splitTo (remaining + 1)
      some ([head], front :: rest)

/-- `tee`: the front buffers are copied, and the last copy is cut. -/
def cloneLoop : List PipeBuf → ℕ → List PipeBuf
  | [], _ => []
  | _, 0 => []
  | b :: rest, remaining + 1 =>
    { b with len := min (remaining + 1) b.len } :: cloneLoop rest (remaining + 1 - min (remaining + 1) b.len)

/-- A queue is cut behind its first `n` bytes. -/
structure Cuts (bufs : List PipeBuf) (n : ℕ) (head rest : List PipeBuf) : Prop where
  head_windows : windows head = (windows bufs).take n
  rest_windows : windows rest = (windows bufs).drop n
  head_lens : lens head = n
  rest_lens : lens rest = lens bufs - n
  head_valid : ∀ b ∈ head, b.Valid
  rest_valid : ∀ b ∈ rest, b.Valid

lemma Cuts.zero (h : ∀ b ∈ bufs, b.Valid) : Cuts bufs 0 [] bufs := by
  constructor
  · simp
  · simp
  · rfl
  · simp
  · simp
  · exact h

lemma Cuts.cons {m : ℕ} {head rest : List PipeBuf} (hb : b.Valid) (h : Cuts bufs m head rest) :
    Cuts (b :: bufs) (b.len + m) (b :: head) rest := by
  have hlen := hb.length_window
  constructor
  · rw [windows_cons, windows_cons, h.head_windows, take_append, hlen, Nat.add_sub_cancel_left,
      take_of_length_le (l := b.window) (by omega)]
  · rw [windows_cons, h.rest_windows, drop_append, hlen, Nat.add_sub_cancel_left,
      drop_of_length_le (l := b.window) (by omega), nil_append]
  · rw [lens_cons, h.head_lens]
  · rw [lens_cons, h.rest_lens]
    omega
  · exact forall_mem_cons.2 ⟨hb, h.head_valid⟩
  · exact h.rest_valid

lemma Cuts.split (hb : b.Valid) (h : ∀ c ∈ bufs, c.Valid) (h0 : 0 < n) (hn : n < b.len) :
    Cuts (b :: bufs) n [(b.splitTo n).1] ((b.splitTo n).2 :: bufs) := by
  have hlen := hb.length_window
  obtain ⟨hw1, hw2⟩ := PipeBuf.window_splitTo (le_of_lt hn)
  have hv := hb.splitTo h0 hn
  have hl : (b.splitTo n).1.len = n ∧ (b.splitTo n).2.len = b.len - n := by
    simp [PipeBuf.splitTo, min_eq_left (le_of_lt hn)]
  constructor
  · rw [windows_cons, windows_cons, windows_nil, append_nil, hw1, take_append_of_le_length (by omega)]
  · rw [windows_cons, windows_cons, hw2, drop_append_of_le_length (by omega)]
  · rw [lens_cons, lens_nil]
    omega
  · rw [lens_cons, lens_cons]
    omega
  · simpa using hv.1
  · exact forall_mem_cons.2 ⟨hv.2, h⟩

lemma popLoop_cuts (h : ∀ b ∈ bufs, b.Valid) (hn : n ≤ lens bufs) :
    ∃ head rest, popLoop bufs n = some (head, rest) ∧ Cuts bufs n head rest := by
  induction bufs generalizing n with
  | nil =>
    obtain rfl : n = 0 := by simpa using hn
    exact ⟨[], [], rfl, .zero h⟩
  | cons b bufs ih =>
    rw [forall_mem_cons] at h
    rw [lens_cons] at hn
    cases n with
    | zero => exact ⟨[], b :: bufs, rfl, .zero (forall_mem_cons.2 h)⟩
    | succ n =>
      unfold popLoop
      by_cases hle : b.len ≤ n + 1
      · obtain ⟨head, rest, hpop, hcut⟩ := ih (n := n + 1 - b.len) h.2 (by omega)
        refine ⟨b :: head, rest, by simp [hle, hpop], ?_⟩
        have hcons := Cuts.cons h.1 hcut
        rwa [Nat.add_sub_cancel' hle] at hcons
      · rw [if_neg hle]
        exact ⟨_, _, rfl, Cuts.split h.1 h.2 (by omega) (by omega)⟩

lemma cloneLoop_spec (h : ∀ b ∈ bufs, b.Valid) (hn : n ≤ lens bufs) :
    windows (cloneLoop bufs n) = (windows bufs).take n ∧ lens (cloneLoop bufs n) = n ∧
      ∀ b ∈ cloneLoop bufs n, b.Valid := by
  induction bufs generalizing n with
  | nil =>
    obtain rfl : n = 0 := by simpa using hn
    simp [cloneLoop]
  | cons b bufs ih =>
    rw [forall_mem_cons] at h
    rw [lens_cons] at hn
    cases n with
    | zero => simp [cloneLoop]
    | succ n =>
      have hlen := h.1.length_window
      obtain ⟨hw, hl, hv⟩ := ih (n := n + 1 - min (n + 1) b.len) h.2 (by omega)
      unfold cloneLoop
      refine ⟨?_, ?_, ?_⟩
      · rw [windows_cons, windows_cons, hw, b.window_take (min_le_right _ _), take_append]
        congr 1
        · rcases le_total (n + 1) b.len with hle | hle
          · rw [min_eq_left hle]
          · rw [take_of_length_le (by omega), take_of_length_le (by omega)]
        · congr 1
          omega
      · rw [lens_cons]
        dsimp only
        omega
      · refine forall_mem_cons.2 ⟨⟨?_, ?_⟩, hv⟩
        · have hin := h.1.inside
          dsimp only
          omega
        · have hpos := h.1.nonempty
          dsimp only
          omega

lemma mapM_asSlice (h : ∀ b ∈ bufs, b.Valid) : bufs.mapM PipeBuf.asSlice = some (bufs.map PipeBuf.window) := by
  induction bufs with
  | nil => rfl
  | cons b bufs ih =>
    rw [forall_mem_cons] at h
    simp [h.1.asSlice, ih h.2]

end Queue

def readTo : List (List UInt8) → ℕ → List UInt8
  | [], _ => []
  | page :: pages, len =>
    let part := if len < page.length then page.take len else page
    if part.length = len then part else part ++ readTo pages (len - part.length)

lemma readTo_eq (pages : List (List UInt8)) (len : ℕ) : readTo pages len = pages.flatten.take len := by
  induction pages generalizing len with
  | nil => simp [readTo]
  | cons page pages ih =>
    unfold readTo
    rw [flatten_cons, take_append]
    dsimp only
    split_ifs with h1 h2 h2
    · rw [Nat.sub_eq_zero_of_le (le_of_lt h1), take_zero, append_nil]
    · rw [length_take] at h2
      omega
    · rw [take_of_length_le (by omega), Nat.sub_eq_zero_of_le (by omega), take_zero, append_nil]
    · rw [take_of_length_le (by omega), ih]

/-- The inner loop of `UserBuffer::write_from_slices`: one source slice goes to the places left in the
pages, whose sizes are given. The source shrinks in every round. -/
def copySlice : ℕ → List UInt8 → List ℕ → ℕ → List UInt8 × List ℕ
  | 0, _, places, _ => ([], places)
  | fuel + 1, source, places, limit =>
    if source = [] ∨ limit = 0 then ([], places)
    else
      match places.dropWhile (· = 0) with
      | [] => ([], [])
      | p :: rest =>
        let n := min (min limit source.length) p
        let (out, places) := copySlice fuel (source.drop n) ((p - n) :: rest) (limit - n)
        (source.take n ++ out, places)

/-- `UserBuffer::write_from_slices`: what arrives in the pages. -/
def writeFromSlices : List (List UInt8) → List ℕ → ℕ → List UInt8
  | [], _, _ => []
  | source :: sources, places, limit =>
    let (out, places) := copySlice source.length source places limit
    if out.length = limit then out else out ++ writeFromSlices sources places (limit - out.length)

lemma sum_dropWhile_zero (l : List ℕ) : (l.dropWhile (· = 0)).sum = l.sum := by
  induction l with
  | nil => rfl
  | cons a l ih =>
    by_cases ha : a = 0
    · simp [ha, ih]
    · simp [ha]

lemma copySlice_spec (fuel : ℕ) (source : List UInt8) (places : List ℕ) (limit : ℕ) (hf : source.length ≤ fuel)
    (hp : limit ≤ places.sum) :
    (copySlice fuel source places limit).1 = source.take limit ∧
      (copySlice fuel source places limit).2.sum = places.sum - min limit source.length := by
  induction fuel generalizing source places limit with
  | zero =>
    obtain rfl : source = [] := length_eq_zero_iff.1 (by omega)
    simp [copySlice]
  | succ fuel ih =>
    unfold copySlice
    split_ifs with h
    · rcases h with rfl | rfl <;> simp
    obtain ⟨hs, hl⟩ := not_or.1 h
    have hslen : 0 < source.length := length_pos_iff.2 hs
    have hsum := sum_dropWhile_zero places
    cases hd : places.dropWhile (· = 0) with
    | nil =>
      rw [hd, sum_nil] at hsum
      omega
    | cons p rest =>
      rw [hd, sum_cons] at hsum
      have hp0 : p ≠ 0 := by
        have hhead := head_dropWhile_not (fun x => decide (x = 0)) (by rw [hd]; simp)
        simpa [hd] using hhead
      dsimp only
      set n := min (min limit source.length) p with hn
      obtain ⟨hout, hleft⟩ := ih (source.drop n) ((p - n) :: rest) (limit - n)
        (by rw [length_drop]; omega) (by rw [sum_cons]; omega)
      rw [hout, hleft]
      refine ⟨?_, ?_⟩
      · rw [← take_add, Nat.add_sub_cancel' (by omega)]
      · rw [sum_cons, length_drop]
        omega

lemma writeFromSlices_eq (sources : List (List UInt8)) (places : List ℕ) (limit : ℕ) (hp : limit ≤ places.sum) :
    writeFromSlices sources places limit = sources.flatten.take limit := by
  induction sources generalizing places limit with
  | nil => simp [writeFromSlices]
  | cons source sources ih =>
    obtain ⟨hout, hleft⟩ := copySlice_spec source.length source places limit le_rfl hp
    unfold writeFromSlices
    dsimp only
    rw [hout, flatten_cons, take_append, length_take]
    split_ifs with h
    · rw [Nat.sub_eq_zero_of_le (by omega), take_zero, append_nil]
    · rw [ih _ _ (by rw [hleft]; omega)]
      congr 2
      omega

end Ya2yOS.Fs
