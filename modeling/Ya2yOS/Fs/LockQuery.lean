import Ya2yOS.Fs.PosixLock

/-!
# The query of record locks

`getlk` reports the first lock that stands in the way of a request. It agrees with `setlk` on which requests are free,
and the request it writes back describes the lock it found.
-/

namespace Ya2yOS.Fs

def I64.wrap (x : ℤ) : I64 := ⟨(x + 2 ^ 63) % 2 ^ 64 - 2 ^ 63, by unfold i64Min i64Max; omega⟩

lemma I64.wrap_of_bounds {x : ℤ} (hmin : i64Min ≤ x) (hmax : x ≤ i64Max) : (I64.wrap x : ℤ) = x := by
  unfold i64Min at hmin
  unfold i64Max at hmax
  change (x + 2 ^ 63) % 2 ^ 64 - 2 ^ 63 = x
  omega

structure FlockQuery extends Flock where
  lPid : ℤ

def PosixLock.report (a : PosixLock) : FlockQuery where
  lType := a.kind.word
  lPid := a.pid
  lStart := .wrap a.start
  lLen := .wrap (if a.stop = i64Max then 0 else a.stop - a.start + 1)
  lWhence := 0

namespace LockTable

/-- The locks of other owners that a request meets. -/
def obstacles (t : LockTable) (path : String) (probe : PosixLock) (owner : ℤ) : List PosixLock :=
  (t.locks path).filter fun a => a.pid ≠ owner && a.conflicts probe

def getlk (t : LockTable) (path : String) (fl : FlockQuery) (fileSize currentOffset owner : ℤ) :
    Except SysErrNo FlockQuery :=
  match lockType fl.lType with
  | some (some kind) =>
    match toAbsolute fl.toFlock fileSize currentOffset with
    | .error e => .error e
    | .ok (start, stop) =>
      match (t.obstacles path ⟨kind, start, stop, 0⟩ owner).minOn? fun a => toLex (a.start, a.stop) with
      | some a => .ok a.report
      | none => .ok { fl with lType := 2 }
  | _ => .error .EINVAL

end LockTable

lemma toAbsolute_report {a : PosixLock} (hstart : 0 ≤ a.start) (hle : a.start ≤ a.stop) (hstop : a.stop ≤ i64Max)
    (size off : ℤ) : toAbsolute a.report.toFlock size off = .ok (a.start, a.stop) := by
  have hs : (a.report.lStart : ℤ) = a.start := I64.wrap_of_bounds (by unfold i64Min; omega) (hle.trans hstop)
  unfold toAbsolute absoluteStart
  rw [if_pos (show a.report.lWhence = 0 from rfl), hs]
  dsimp only
  rw [if_neg (by omega)]
  by_cases hmax : a.stop = i64Max
  · have hl : (a.report.lLen : ℤ) = 0 := by
      simp only [PosixLock.report, if_pos hmax]
      rfl
    rw [if_pos hl, hmax]
  · have hl : (a.report.lLen : ℤ) = a.stop - a.start + 1 := by
      simp only [PosixLock.report, if_neg hmax]
      exact I64.wrap_of_bounds (by unfold i64Min; omega) (by omega)
    have hend : satSub (satAdd a.start (a.stop - a.start + 1)) 1 = a.stop := by
      unfold satSub satAdd i64Min
      omega
    rw [hl, if_neg (by omega), if_neg (by omega), hend]

namespace LockTable

variable {t : LockTable} {path : String} {fl : FlockQuery} {size off owner start stop : ℤ} {kind : LockKind}

/-- The probe of a query has no owner, and the request that meets the table has. -/
lemma setlk_eq_ok (hkind : lockType fl.lType = some (some kind))
    (hrange : toAbsolute fl.toFlock size off = .ok (start, stop)) :
    (t.setlk path fl.toFlock size off owner).1 = .ok 0 ↔ t.obstacles path ⟨kind, start, stop, 0⟩ owner = [] := by
  have hblocked : blocked (t.locks path) ⟨kind, start, stop, owner⟩ = false ↔
      t.obstacles path ⟨kind, start, stop, 0⟩ owner = [] := by
    simp [blocked, obstacles, PosixLock.conflicts]
  rw [← hblocked]
  simp only [setlk, hkind, hrange, setRange, Option.map_some, Option.any_some]
  split_ifs with h
  · simp [h]
  · simpa using h

/-- The query reports a free range where the request would succeed, and otherwise the least lock in its way. -/
theorem getlk_agrees (t : LockTable) (path : String) (fl : FlockQuery) (size off owner : ℤ) (kind : LockKind)
    (hkind : lockType fl.lType = some (some kind)) :
    match toAbsolute fl.toFlock size off with
    | .error e => t.getlk path fl size off owner = .error e ∧ t.setlk path fl.toFlock size off owner = (.error e, t)
    | .ok (start, stop) =>
      (t.getlk path fl size off owner = .ok { fl with lType := 2 } ↔
        (t.setlk path fl.toFlock size off owner).1 = .ok 0) ∧
      ((t.setlk path fl.toFlock size off owner).1 ≠ .ok 0 →
        ∃ a ∈ t.locks path, a.pid ≠ owner ∧ a.conflicts ⟨kind, start, stop, owner⟩ = true ∧
          (∀ b ∈ t.locks path, b.pid ≠ owner → b.conflicts ⟨kind, start, stop, owner⟩ = true →
            toLex (a.start, a.stop) ≤ toLex (b.start, b.stop)) ∧
          ∃ r, t.getlk path fl size off owner = .ok r ∧ r.lType = a.kind.word ∧ r.lPid = a.pid ∧
            (0 ≤ a.start → a.start ≤ a.stop → a.stop ≤ i64Max →
              toAbsolute r.toFlock size off = .ok (a.start, a.stop))) := by
  cases hrange : toAbsolute fl.toFlock size off with
  | error e => simp only [getlk, setlk, hkind, hrange, and_self]
  | ok range =>
    obtain ⟨start, stop⟩ := range
    have hmem : ∀ b, b ∈ t.obstacles path ⟨kind, start, stop, 0⟩ owner ↔
        b ∈ t.locks path ∧ b.pid ≠ owner ∧ b.conflicts ⟨kind, start, stop, owner⟩ = true := by
      simp [obstacles, PosixLock.conflicts]
    simp only [getlk, hkind, hrange, ne_eq, setlk_eq_ok hkind hrange]
    cases hmin : (t.obstacles path ⟨kind, start, stop, 0⟩ owner).minOn? fun a => toLex (a.start, a.stop) with
    | none =>
      have hnil : t.obstacles path ⟨kind, start, stop, 0⟩ owner = [] := by
        rw [← Option.not_isSome_iff_eq_none, List.isSome_minOn?_iff, not_not] at hmin
        exact hmin
      simp [hnil]
    | some a =>
      have ha := List.minOn?_mem hmin
      have hunlocked : a.report ≠ { fl with lType := 2 } := by
        intro h
        have hword : a.kind.word = 2 := congrArg (fun r => r.lType) h
        cases hk : a.kind <;> rw [hk] at hword <;> cases hword
      refine ⟨iff_of_false (fun h => hunlocked (Except.ok.inj h)) (List.ne_nil_of_mem ha), fun _ => ?_⟩
      obtain ⟨hin, hpid, hconf⟩ := (hmem a).1 ha
      refine ⟨a, hin, hpid, hconf, fun b hb hbp hbc => ?_, _, rfl, rfl, rfl, ?_⟩
      · have hob := (hmem b).2 ⟨hb, hbp, hbc⟩
        have hle := List.apply_get_minOn?_le_of_mem (f := fun a : PosixLock => toLex (a.start, a.stop)) hob
        simpa [hmin] using hle
      · intro hstart hle hstop
        exact toAbsolute_report hstart hle hstop size off

/-- A request for the first `n` bytes of a file. -/
def firstBytes (word : ℤ) (n : ℕ) : FlockQuery := ⟨⟨word, 0, .byte 0, .byte n⟩, 0⟩

/-- Process 1 writes the first two bytes, and process 2 asks to read three. -/
theorem getlk_agrees_firstBytes :
    ∃ r, getlk (fun _ => some [⟨.write, 0, 1, 1⟩]) "f" (firstBytes 0 3) 0 0 2 = .ok r ∧
      r.lType = LockKind.write.word ∧ toAbsolute r.toFlock 0 0 = .ok (0, 1) := by
  obtain ⟨a, ha, -, -, -, r, hr, htype, -, hback⟩ :=
    (getlk_agrees (fun _ => some [⟨.write, 0, 1, 1⟩]) "f" (firstBytes 0 3) 0 0 2 .read rfl).2 (by decide)
  cases List.mem_singleton.1 ha
  exact ⟨r, hr, htype, hback (by decide) (by decide) (by decide)⟩

/-- A range can be unlocked, and no query asks for that. -/
theorem getlk_refuses_unlock :
    (empty.setlk "f" (firstBytes 2 1).toFlock 0 0 1).1 = .ok 0 ∧
      empty.getlk "f" (firstBytes 2 1) 0 0 1 = .error .EINVAL :=
  ⟨rfl, rfl⟩

end LockTable

end Ya2yOS.Fs
