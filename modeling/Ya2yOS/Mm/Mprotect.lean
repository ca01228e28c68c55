import Ya2yOS.Mm.MmapOps

/-!
# mprotect

`mprotect` splits the areas at the ends of the range, gives the parts inside the new permission, and adds the
permission to every valid entry of the range.
-/

namespace Ya2yOS.Mm

open Lib

/-- Case 2: entries move to the right part from the greatest page down, until the first page of
the range has moved. -/
def moveLastUntil (startVpn : ℕ) : ℕ → OrdMap ℕ ℕ → OrdMap ℕ ℕ → OrdMap ℕ ℕ × OrdMap ℕ ℕ
  | 0, area, new => (area, new)
  | fuel + 1, area, new =>
    match area.popLast? with
    | none => (area, new)
    | some (page, area) =>
      if page.1 = startVpn then (area, new.insert page.1 page.2)
      else moveLastUntil startVpn fuel area (new.insert page.1 page.2)

/-- Entries move, in the order in which `pop` takes them, until one that stays. -/
def moveUntil (pop : OrdMap ℕ ℕ → Option ((ℕ × ℕ) × OrdMap ℕ ℕ)) (stays : ℕ → Bool) :
    ℕ → OrdMap ℕ ℕ → OrdMap ℕ ℕ → OrdMap ℕ ℕ × OrdMap ℕ ℕ
  | 0, area, new => (area, new)
  | fuel + 1, area, new =>
    match pop area with
    | none => (area, new)
    | some (page, rest) =>
      if stays page.1 then (rest.insert page.1 page.2, new)
      else moveUntil pop stays fuel rest (new.insert page.1 page.2)

/-- Cases 3 and 4: entries move from the least page up, until one at or above the bound. -/
def moveFirstBelow (bound : ℕ) := moveUntil OrdMap.popFirst? (bound ≤ ·)

/-- Case 4: entries move from the greatest page down, until one below the bound. -/
def moveLastFrom (bound : ℕ) := moveUntil OrdMap.popLast? (· < bound)

def mprotectArea (startVpn endVpn : ℕ) (mapPerm : MapPermission) (area : MapArea) :
    MapArea × List MapArea :=
  let start := area.vpnRange.start
  let stop := area.vpnRange.stop
  let pages := area.dataFrames.entries.length
  if startVpn ≤ start ∧ stop ≤ endVpn then ({ area with mapPerm := mapPerm }, [])
  else if h2 : start < startVpn ∧ startVpn < stop ∧ stop ≤ endVpn then
    let (left, right) := moveLastUntil startVpn pages area.dataFrames OrdMap.empty
    ({ area with vpnRange := ⟨start, startVpn, Nat.le_of_lt h2.1⟩, dataFrames := left },
      [{ area with
        mapPerm := mapPerm
        vpnRange := ⟨startVpn, stop, Nat.le_of_lt h2.2.1⟩
        mmapFile := area.mmapFile.advance (startVpn - start)
        dataFrames := right }])
  else if h3 : startVpn ≤ start ∧ start < endVpn ∧ endVpn < stop then
    let (right, left) := moveFirstBelow endVpn pages area.dataFrames OrdMap.empty
    ({ area with
        vpnRange := ⟨endVpn, stop, Nat.le_of_lt h3.2.2⟩
        mmapFile := area.mmapFile.advance (endVpn - start)
        dataFrames := right },
      [{ area with
        mapPerm := mapPerm
        vpnRange := ⟨start, endVpn, Nat.le_of_lt h3.2.1⟩
        dataFrames := left }])
  else if h4 : start < startVpn ∧ endVpn < stop ∧ startVpn ≤ endVpn then
    let (rest, front) := moveFirstBelow startVpn pages area.dataFrames OrdMap.empty
    let (middle, back) := moveLastFrom endVpn rest.entries.length rest OrdMap.empty
    ({ area with
        mapPerm := mapPerm
        vpnRange := ⟨startVpn, endVpn, h4.2.2⟩
        mmapFile := area.mmapFile.advance (startVpn - start)
        dataFrames := middle },
      [{ area with vpnRange := ⟨start, startVpn, Nat.le_of_lt h4.1⟩, dataFrames := front },
        { area with
          vpnRange := ⟨endVpn, stop, Nat.le_of_lt h4.2.1⟩
          mmapFile := area.mmapFile.advance (endVpn - start)
          dataFrames := back }])
  else (area, [])

namespace MemorySetInner

def mprotectHugeConflict (s : MemorySetInner) (startVpn endVpn : ℕ) (mapPerm : MapPermission) : Bool :=
  s.areas.any fun a => a.isHuge && a.overlaps startVpn endVpn &&
    (mapPerm.isEmpty || !(startVpn ≤ a.vpnRange.start && a.vpnRange.stop ≤ endVpn))

def mprotectSealed (s : MemorySetInner) (g : Globals) (startVpn endVpn : ℕ) : Bool :=
  s.areas.any fun a => a.overlaps startVpn endVpn &&
    match a.mmapFile.specialBacking with
    | some b => !g.allowsWrite b
    | none => false

def protectEntries (pt : PageTable) (startVpn endVpn : ℕ) (mapPerm : MapPermission) : PageTable :=
  (vpns startVpn endVpn).foldl (fun pt vpn => pt.handleMprotect vpn mapPerm) pt

def mprotect (s : MemorySetInner) (g : Globals) (startVpn endVpn : ℕ) (mapPerm : MapPermission) :
    SyscallRet × MemorySetInner × Globals :=
  if endVpn ≤ startVpn then (.error .EINVAL, s, g)
  else if s.mprotectHugeConflict startVpn endVpn mapPerm then (.error .EOPNOTSUPP, s, g)
  else if mapPerm.w && s.mprotectSealed g startVpn endVpn then (.error .EPERM, s, g)
  else
    let split := s.areas.map (mprotectArea startVpn endVpn mapPerm)
    let newAreas := split.flatMap Prod.snd
    let g := newAreas.foldl (fun g a => g.addArea a.groupid) g
    let s := newAreas.foldl pushLazily { s with areas := split.map Prod.fst }
    (.ok 0, { s with pageTable := protectEntries s.pageTable startVpn endVpn mapPerm }, g)

end MemorySetInner

end Ya2yOS.Mm
