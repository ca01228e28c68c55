import Ya2yOS.Lib.BinarySearch
import Ya2yOS.Mm.MapArea
import Ya2yOS.Utils.SysErrNo

/-!
# Address spaces and their areas

`MemorySetInner` with the operations of `mm/memory_set/area_ops.rs`: the search for a free range, the ordered insertion
that merges neighbours, and the removal of heap areas.
-/

namespace Ya2yOS.Mm

open Lib

structure MemorySetInner where
  pageTable : PageTable
  areas : List MapArea
  totalMmapSize : ℕ
  mmapHint : ℕ

def canMergeAreas (left right : MapArea) : Bool :=
  left.vpnRange.stop = right.vpnRange.start && left.mapPerm = right.mapPerm &&
    left.areaType = right.areaType && left.mmapFlags = right.mmapFlags &&
    left.groupid = 0 && right.groupid = 0 &&
    left.mmapFile.isAnonymous && right.mmapFile.isAnonymous &&
    left.mmapFlags.priv && left.mmapFlags.anonymous

def mergeAreas (left right : MapArea) (h : left.vpnRange.stop = right.vpnRange.start) : MapArea :=
  { left with
    vpnRange := ⟨left.vpnRange.start, right.vpnRange.stop,
      left.vpnRange.le.trans (h ▸ right.vpnRange.le)⟩
    dataFrames := left.dataFrames.union right.dataFrames }

lemma canMergeAreas_adjacent {left right : MapArea} (h : canMergeAreas left right = true) :
    left.vpnRange.stop = right.vpnRange.start := by
  simp only [canMergeAreas, Bool.and_eq_true, decide_eq_true_eq] at h
  exact h.1.1.1.1.1.1.1.1.1

def mergeAt (areas : List MapArea) (i : ℕ) : Option (List MapArea) :=
  match areas[i]?, areas[i + 1]? with
  | some left, some right =>
    if h : canMergeAreas left right = true then
      some ((areas.eraseIdx (i + 1)).set i (mergeAreas left right (canMergeAreas_adjacent h)))
    else none
  | _, _ => none

/-- `merge_adjacent_areas`: to the left as long as possible, then to the right. A round removes
an area, so their number bounds the rounds. -/
def mergeAdjacentAreas : ℕ → List MapArea → ℕ → List MapArea
  | 0, areas, _ => areas
  | fuel + 1, areas, index =>
    match (if 0 < index then mergeAt areas (index - 1) else none) with
    | some areas => mergeAdjacentAreas fuel areas (index - 1)
    | none =>
      match mergeAt areas index with
      | some areas => mergeAdjacentAreas fuel areas index
      | none => areas

def insertAreaSortedUnmerged (areas : List MapArea) (a : MapArea) : List MapArea × ℕ :=
  let index := searchIdx (fun b : MapArea => b.vpnRange.start) areas a.vpnRange.start
  (areas.insertIdx index a, index)

def insertAreaSorted (areas : List MapArea) (a : MapArea) : List MapArea :=
  let (areas, index) := insertAreaSortedUnmerged areas a
  mergeAdjacentAreas areas.length areas index

namespace MemorySetInner

def pushLazily (s : MemorySetInner) (a : MapArea) : MemorySetInner :=
  { s with areas := insertAreaSorted s.areas a }

/-- The loop of `find_insert_addr` over the areas from the highest down; `none` where it
returns zero. -/
def searchDown (pages : ℕ) : List MapArea → ℕ → ℕ → Option ℕ
  | [], startVpn, _ => some startVpn
  | a :: rest, startVpn, endVpn =>
    if a.vpnRange.stop ≤ startVpn then some startVpn
    else if endVpn ≤ a.vpnRange.start then searchDown pages rest startVpn endVpn
    else if a.vpnRange.start = 0 then none
    -- one page below an occupied area stays free
    else if a.vpnRange.start - 1 < pages then none
    else searchDown pages rest (a.vpnRange.start - 1 - pages) (a.vpnRange.start - 1)

def findInsertAddr (s : MemorySetInner) (hint size : ℕ) : ℕ :=
  match checkedAdd size (pageSize - 1) with
  | none => 0
  | some sum =>
    let pages := sum / pageSize
    if pages = 0 then 0
    else if floorVpn hint < pages then 0
    else
      match searchDown pages s.areas.reverse (floorVpn hint - pages) (floorVpn hint) with
      | none => 0
      | some startVpn => startVpn * pageSize

def findMmapAddr (s : MemorySetInner) (size : ℕ) : ℕ × MemorySetInner :=
  let hint := min (max s.mmapHint pageSize) mmapTop
  let addr := s.findInsertAddr hint size
  let addr := if addr = 0 ∧ hint ≠ mmapTop then s.findInsertAddr mmapTop size else addr
  (addr, if addr = 0 then s else { s with mmapHint := addr })

def tryMmapHint (s : MemorySetInner) (hint size : ℕ) : Option (ℕ × MemorySetInner) :=
  let start := hint / pageSize * pageSize
  if hint = 0 ∨ start = 0 ∨ mmapTop < start + size ∨
      s.areas.any (fun a => a.overlaps (floorVpn start) (ceilVpn (start + size))) then none
  else some (start, { s with mmapHint := start })

def alignedCandidate (s : MemorySetInner) (size align searchHint : ℕ) : Option ℕ :=
  let candidate := s.findInsertAddr searchHint (size + (align - 1))
  let addr := (candidate + (align - 1)) / align * align
  if candidate = 0 ∨ wordSize ≤ candidate + (align - 1) ∨ wordSize ≤ addr + size ∨
      searchHint < addr + size ∨ mmapTop < addr + size then none
  else some addr

def findMmapAddrAligned (s : MemorySetInner) (size align : ℕ) : ℕ × MemorySetInner :=
  if ¬ align.isPowerOfTwo ∨ wordSize ≤ size + (align - 1) then (0, s)
  else
    let hint := min (max s.mmapHint pageSize) mmapTop
    match (s.alignedCandidate size align hint).or (s.alignedCandidate size align mmapTop) with
    | some addr => (addr, { s with mmapHint := addr })
    | none => (0, s)

/-- What the four cases of a removal leave of an area whose pages in `[startVpn, endVpn)` are
already unmapped: the area that stays in its place, and a right part that is inserted anew.
Only `munmap` moves the file offset of a part that starts later. -/
def punch (moveOffset : Bool) (area : MapArea) (startVpn endVpn : ℕ) :
    Option MapArea × Option MapArea :=
  let areaStart := area.vpnRange.start
  let areaEnd := area.vpnRange.stop
  let rightFile := if moveOffset then area.mmapFile.advance (endVpn - areaStart) else area.mmapFile
  if _h1 : startVpn ≤ areaStart ∧ areaEnd ≤ endVpn then (none, none)
  else if h2 : areaStart < startVpn ∧ areaEnd ≤ endVpn then
    (some { area with vpnRange := ⟨areaStart, startVpn, Nat.le_of_lt h2.1⟩ }, none)
  else if h3 : startVpn ≤ areaStart ∧ endVpn < areaEnd then
    (some { area with vpnRange := ⟨endVpn, areaEnd, Nat.le_of_lt h3.2⟩, mmapFile := rightFile }, none)
  else
    (some { area with
        vpnRange := ⟨areaStart, startVpn, by omega⟩
        dataFrames := area.dataFrames.restrict (· < endVpn) },
      some { area.fromAnother with
        vpnRange := ⟨endVpn, areaEnd, by omega⟩
        mmapFile := rightFile
        dataFrames := area.dataFrames.restrict (endVpn ≤ ·) })

def settle (s : MemorySetInner) (g : Globals) (i : ℕ) (area : MapArea) :
    Option MapArea → Option (MemorySetInner × Globals)
  | none => do
    let g ← g.dropArea area.groupid
    return ({ s with areas := s.areas.eraseIdx i }, g)
  | some left => some ({ s with areas := s.areas.set i left }, g)

/-- What a removal looks for: `munmap` takes the mappings, `brk` the heap. -/
def removes (m : Bool) (a : MapArea) : Bool := if m then a.isMmapVma else a.areaType = .brk

/-- One round of a removal. Only `munmap` gives the size back and merges the right part with its neighbours. -/
def removeStep (m : Bool) (s : MemorySetInner) (g : Globals) (i : ℕ) (area : MapArea) (startVpn endVpn : ℕ) :
    Option (MemorySetInner × Globals) := do
  let unmapStart := max area.vpnRange.start startVpn
  let unmapEnd := min area.vpnRange.stop endVpn
  let (pt, area) := area.unmapPages s.pageTable unmapStart unmapEnd
  let total := if !m || area.mmapFlags.intersectsFixed then s.totalMmapSize
    else s.totalMmapSize - (unmapEnd - unmapStart) * pageSize
  let (left, right) := punch m area startVpn endVpn
  let (s, g) ← settle { s with pageTable := pt, totalMmapSize := total } g i area left
  match right with
  | none => return (s, g)
  | some right =>
    return ({ s with areas :=
      if m then insertAreaSorted s.areas right else (insertAreaSortedUnmerged s.areas right).1 }, g)

/-- A bound on the rounds of the removal loops: a round removes an area or pages of the range
from the areas, and merging neighbours moves pages only. -/
def removalFuel (s : MemorySetInner) (startVpn endVpn : ℕ) : ℕ :=
  s.areas.length +
    (s.areas.map fun a => min a.vpnRange.stop endVpn - max a.vpnRange.start startVpn).sum + 1

def removeLoop (m : Bool) (startVpn endVpn : ℕ) :
    ℕ → MemorySetInner → Globals → Option (MemorySetInner × Globals)
  | 0, s, g => some (s, g)
  | fuel + 1, s, g =>
    match s.areas.findIdx? (fun a => removes m a && a.overlaps startVpn endVpn) with
    | none => some (s, g)
    | some i =>
      match s.areas[i]? with
      | none => some (s, g)
      | some area => do
        let (s, g) ← removeStep m s g i area startVpn endVpn
        removeLoop m startVpn endVpn fuel s g

def removeBrkRange (s : MemorySetInner) (g : Globals) (startVpn endVpn : ℕ) :
    Option (MemorySetInner × Globals) :=
  if endVpn ≤ startVpn then some (s, g)
  else removeLoop false startVpn endVpn (s.removalFuel startVpn endVpn) s g

end MemorySetInner

end Ya2yOS.Mm
