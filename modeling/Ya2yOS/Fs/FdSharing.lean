import Ya2yOS.Fs.FdTable

/-!
# Threads that share a descriptor table

Each call takes the table's lock once, except `sys_dup3`, which takes it at every line. The state records which thread
a reserved number was handed to.
-/

namespace Ya2yOS.Fs

open Function Lib FdTable Option

/-- The points of `sys_dup3` between two acquisitions of the lock. -/
inductive DupPoint
  | oldLength
  | newLimit
  | oldLengthAgain
  | newLimitAgain
  | probe
  | lengthCheck
  | resize
  | get
  | set (file : FileDescriptor)
deriving DecidableEq, Repr

structure Dup3 where
  old : ℕ
  new : ℕ
  flags : BitVec 32
  point : DupPoint
deriving DecidableEq, Repr

def oCloexec : BitVec 32 := 0o2000000

namespace Dup3

def enter (old new : ℕ) (flags : BitVec 32) : Except SysErrNo Dup3 :=
  if old = new then .error .EINVAL else .ok ⟨old, new, flags, .oldLength⟩

def step (d : Dup3) (t : FdTable) : FdTable × (Dup3 ⊕ Except SysErrNo ℕ) :=
  match d.point with
  | .oldLength =>
    if t.files.length ≤ d.old then (t, .inr (.error .EMFILE)) else (t, .inl { d with point := .newLimit })
  | .newLimit =>
    if t.softLimit ≤ d.new then (t, .inr (.error .EMFILE)) else (t, .inl { d with point := .oldLengthAgain })
  | .oldLengthAgain =>
    if t.files.length ≤ d.old ∨ 2 ^ 63 ≤ d.old ∨ 2 ^ 63 ≤ d.new then (t, .inr (.error .EBADF))
    else (t, .inl { d with point := .newLimitAgain })
  | .newLimitAgain =>
    if t.softLimit ≤ d.new then (t, .inr (.error .EBADF)) else (t, .inl { d with point := .probe })
  | .probe =>
    if (t.tryGet d.old).isNone then (t, .inr (.error .EINVAL)) else (t, .inl { d with point := .lengthCheck })
  | .lengthCheck =>
    if t.files.length ≤ d.new then (t, .inl { d with point := .resize })
    else (t, .inl { d with point := .get })
  | .resize =>
    match t.resize (d.new + 1) with
    | .error e => (t, .inr (.error e))
    | .ok t => (t, .inl { d with point := .get })
  | .get =>
    match t.tryGet d.old with
    | none => (t, .inr (.error .EBADF))
    | some file =>
      if d.flags &&& ~~~ oCloexec ≠ 0 then (t, .inr (.error .EINVAL))
      else (t, .inl { d with point := .set { file with cloexec := d.flags &&& oCloexec != 0 } })
  | .set file =>
    -- the result of `set` is dropped
    match t.set d.new file with
    | .error _ => (t, .inr (.ok d.new))
    | .ok t => (t, .inr (.ok d.new))

lemma step_cases (d : Dup3) (t : FdTable) : (d.step t).1 = t ∨
      (d.point = .resize ∧ ¬ t.softLimit < d.new + 1 ∧ (d.step t).1 = t.grow (d.new + 1)) ∨
        ∃ file, d.point = .set file ∧ t.set d.new file = .ok (d.step t).1 := by
  unfold step
  cases hp : d.point with
  | oldLength | newLimit | oldLengthAgain | newLimitAgain | probe | lengthCheck =>
    left
    split_ifs <;> rfl
  | resize =>
    dsimp only [resize]
    by_cases hl : t.softLimit < d.new + 1
    · rw [if_pos hl]
      exact .inl rfl
    · rw [if_neg hl]
      exact .inr (.inl ⟨rfl, hl, rfl⟩)
  | get =>
    left
    dsimp only
    split
    · rfl
    · split_ifs <;> rfl
  | set file =>
    dsimp only
    cases hs : t.set d.new file with
    | error e => exact .inl rfl
    | ok t' => exact .inr (.inr ⟨file, rfl, hs⟩)

/-- The critical section keeps to the slot the call was made for: a resize cuts off nothing, and a
slot that is written is not reserved. -/
def keeps (d : Dup3) (t : FdTable) : Bool :=
  match d.point with
  | .resize => decide (t.softLimit < d.new + 1) || decide (t.Clear (d.new + 1))
  | .set _ => !t.isReserved d.new
  | _ => true

end Dup3

/-- A shared table: the thread each reserved number was handed to, and the calls of `sys_dup3` under way. -/
structure FdState where
  table : FdTable
  owner : ℕ → Option ℕ
  dup : ℕ → Option Dup3

inductive FdEvent
  | allocFd (thread : ℕ)
  | allocFdLargerThan (thread arg : ℕ)
  | set (thread fd : ℕ) (file : FileDescriptor)
  | take (thread fd : ℕ)
  | close (thread fd : ℕ)
  | setLimit (soft hard : ℕ)
  | dup3 (thread old new : ℕ) (flags : BitVec 32)
  | run (thread : ℕ)
deriving DecidableEq, Repr

namespace FdState

def initial (soft hard : ℕ) (files : List (Option FileDescriptor)) : FdState :=
  ⟨⟨soft, hard, files, List.replicate files.length false⟩, fun _ => none, fun _ => none⟩

def handedOut (s : FdState) : FdEvent → Option ℕ
  | .allocFd _ =>
    match s.table.allocFd with
    | .error _ => none
    | .ok (fd, _) => some fd
  | .allocFdLargerThan _ arg =>
    match (s.table.allocFdLargerThan arg).1 with
    | .error _ => none
    | .ok fd => some fd
  | _ => none

def step (s : FdState) : FdEvent → Option FdState
  | .allocFd th =>
    if (s.dup th).isSome then none
    else match s.table.allocFd with
      | .error _ => some s
      | .ok (fd, t) => some { s with table := t, owner := update s.owner fd (some th) }
  | .allocFdLargerThan th arg =>
    if (s.dup th).isSome then none
    else match s.table.allocFdLargerThan arg with
      | (.error _, t) => some { s with table := t }
      | (.ok fd, t) => some { s with table := t, owner := update s.owner fd (some th) }
  | .set th fd file =>
    if (s.dup th).isSome ∨ s.owner fd ≠ some th then none
    else match s.table.set fd file with
      | .error _ => some s
      | .ok t => some { s with table := t, owner := update s.owner fd none }
  | .take th fd =>
    if (s.dup th).isSome ∨ s.owner fd ≠ some th then none
    else some { s with table := s.table.take fd, owner := update s.owner fd none }
  | .close th fd => if (s.dup th).isSome then none else some { s with table := s.table.close fd }
  | .setLimit soft hard => some { s with table := { s.table with softLimit := soft, hardLimit := hard } }
  | .dup3 th old new flags =>
    if (s.dup th).isSome then none
    else match Dup3.enter old new flags with
      | .error _ => some s
      | .ok d => some { s with dup := update s.dup th (some d) }
  | .run th =>
    match s.dup th with
    | none => none
    | some d => some { s with
        table := (d.step s.table).1
        dup := update s.dup th (d.step s.table).2.getLeft? }

inductive Effect (s : FdState) : FdEvent → FdState → Prop
  | same {e t} (hout : s.handedOut e = none) (hsame : s.table.SameSlots t.table)
      (howner : t.owner = s.owner) : Effect s e t
  | handOut {e t} (th fd : ℕ) (hout : s.handedOut e = some fd) (hres : s.table.Reserves fd t.table)
      (howner : t.owner = update s.owner fd (some th)) : Effect s e t
  | set {t} (th fd : ℕ) (file : FileDescriptor) (hown : s.owner fd = some th)
      (hw : s.table.Writes fd (some file) false t.table)
      (howner : t.owner = update s.owner fd none) : Effect s (.set th fd file) t
  | take {t} (th fd : ℕ) (hown : s.owner fd = some th) (hw : s.table.Writes fd none false t.table)
      (howner : t.owner = update s.owner fd none) : Effect s (.take th fd) t
  | close {t} (th fd : ℕ) (hw : s.table.Writes fd none (s.table.isReserved fd) t.table)
      (howner : t.owner = s.owner) : Effect s (.close th fd) t
  | resize {t} (th : ℕ) (d : Dup3) (hdup : s.dup th = some d) (hp : d.point = .resize)
      (hl : ¬ s.table.softLimit < d.new + 1) (ht : t.table = s.table.grow (d.new + 1))
      (howner : t.owner = s.owner) : Effect s (.run th) t
  | dupSet {t} (th : ℕ) (d : Dup3) (file : FileDescriptor) (hdup : s.dup th = some d) (hp : d.point = .set file)
      (hset : s.table.set d.new file = .ok t.table) (howner : t.owner = s.owner) : Effect s (.run th) t

lemma step_effect {s t : FdState} {e : FdEvent} (ha : s.table.Aligned) (h : s.step e = some t) : s.Effect e t := by
  cases e with
  | allocFd th =>
    simp only [step] at h
    split_ifs at h with hd
    cases halloc : s.table.allocFd with
    | error e =>
      rw [halloc] at h
      cases h
      exact .same (by simp only [handedOut, halloc]) (.refl ha) rfl
    | ok r =>
      rw [halloc] at h
      cases h
      exact .handOut th r.1 (by simp only [handedOut, halloc]) (allocFrom_reserves ha halloc) rfl
  | allocFdLargerThan th arg =>
    simp only [step] at h
    split_ifs at h with hd
    rcases allocFdLargerThan_cases ha arg with ⟨e, he, hsame⟩ | ⟨fd, he, hres⟩
    · split at h
      · next e' t' halloc =>
        cases h
        exact .same (by simp only [handedOut, he]) (by rw [halloc] at hsame; exact hsame) rfl
      · next fd t' halloc =>
        rw [halloc] at he
        cases he
    · split at h
      · next e' t' halloc =>
        rw [halloc] at he
        cases he
      next fd' t' halloc =>
      cases h
      have hfd : fd' = fd := by
        rw [halloc] at he
        exact Except.ok.inj he
      subst hfd
      exact .handOut th fd' (by simp only [handedOut, he]) (by rw [halloc] at hres; exact hres) rfl
  | set th fd file =>
    simp only [step] at h
    split_ifs at h with hd
    have hown : s.owner fd = some th := not_not.1 (not_or.1 hd).2
    cases hset : s.table.set fd file with
    | error e =>
      rw [hset] at h
      cases h
      exact .same rfl (.refl ha) rfl
    | ok t' =>
      rw [hset] at h
      cases h
      exact .set th fd file hown (set_writes ha hset) rfl
  | take th fd =>
    simp only [step] at h
    split_ifs at h with hd
    cases h
    have hown : s.owner fd = some th := not_not.1 (not_or.1 hd).2
    exact .take th fd hown (take_writes ha) rfl
  | close th fd =>
    simp only [step] at h
    split_ifs at h with hd
    cases h
    exact .close th fd (close_writes ha) rfl
  | setLimit soft hard =>
    cases h
    exact .same rfl ⟨ha, fun _ => rfl, fun _ => rfl⟩ rfl
  | dup3 th old new flags =>
    simp only [step] at h
    split_ifs at h with hd
    split at h
    all_goals
      cases h
      exact .same rfl (.refl ha) rfl
  | run th =>
    simp only [step] at h
    split at h
    · cases h
    next d hdup =>
    cases h
    rcases d.step_cases s.table with hsame | ⟨hp, hl, ht⟩ | ⟨file, hp, hset⟩
    · refine .same rfl ?_ rfl
      rw [hsame]
      exact .refl ha
    · exact .resize th d hdup hp hl ht rfl
    · exact .dupSet th d file hdup hp hset rfl

/-- Every step is one that keeps to its slot; only those of `sys_dup3` may fail to. -/
def Keeps (s : FdState) : FdEvent → Prop
  | .run th => ∀ d ∈ s.dup th, d.keeps s.table = true
  | _ => True

/-- A slot is reserved exactly while its number is handed out, and it is vacant then. -/
structure Sound (s : FdState) : Prop where
  aligned : s.table.Aligned
  reserved : ∀ fd, s.table.isReserved fd = (s.owner fd).isSome
  vacant : ∀ fd th, s.owner fd = some th → s.table.tryGet fd = none

lemma sound_initial (soft hard : ℕ) (files : List (Option FileDescriptor)) : (initial soft hard files).Sound := by
  constructor
  · simp [FdTable.Aligned, initial]
  · intro fd
    simp [isReserved, initial, List.getElem?_replicate]
    split_ifs <;> rfl
  · intro fd th h
    cases h

section Step

variable {s t : FdState} {e : FdEvent} {d : Dup3} {fd th : ℕ} {o : Option ℕ} {x : Option FileDescriptor}

lemma Keeps.clear (hk : s.Keeps (.run th)) (hdup : s.dup th = some d)
    (hp : d.point = .resize) (hl : ¬ s.table.softLimit < d.new + 1) : s.table.Clear (d.new + 1) := by
  have hkeeps := hk d hdup
  simpa only [Dup3.keeps, hp, hl, decide_false, Bool.false_or, decide_eq_true_eq] using hkeeps

lemma Keeps.free {file : FileDescriptor} (hk : s.Keeps (.run th)) (hdup : s.dup th = some d)
    (hp : d.point = .set file) : s.table.isReserved d.new = false := by
  have hkeeps := hk d hdup
  simpa only [Dup3.keeps, hp, Bool.not_eq_true'] using hkeeps

lemma Sound.owner_of_isReserved (h : s.Sound) (hr : s.table.isReserved fd = true) : ∃ th, s.owner fd = some th := by
  rw [h.reserved] at hr
  exact isSome_iff_exists.1 hr

lemma Sound.owner_of_free (h : s.Sound) (hr : s.table.isReserved fd = false) : s.owner fd = none := by
  rw [h.reserved] at hr
  exact isSome_eq_false_iff.1 hr |> isNone_iff_eq_none.1

lemma Sound.sameSlots (h : s.Sound) (hsame : s.table.SameSlots t.table) (howner : t.owner = s.owner) : t.Sound := by
  constructor
  · exact hsame.aligned
  · intro fd
    rw [hsame.isReserved, howner]
    exact h.reserved fd
  · intro fd th
    rw [hsame.tryGet, howner]
    exact h.vacant fd th

lemma Sound.writes (h : s.Sound) (hw : s.table.Writes fd x o.isSome t.table) (hx : o.isSome = true → x = none)
    (howner : t.owner = update s.owner fd o) : t.Sound := by
  constructor
  · exact hw.aligned
  · intro i
    rw [hw.isReserved, howner]
    by_cases hi : i = fd
    · rw [if_pos hi, hi, update_self]
    · rw [if_neg hi, update_of_ne hi]
      exact h.reserved i
  · intro i th
    rw [hw.tryGet, howner]
    by_cases hi : i = fd
    · rw [if_pos hi, hi, update_self]
      intro ho
      exact hx (by rw [ho]; rfl)
    · rw [if_neg hi, update_of_ne hi]
      exact h.vacant i th

lemma Sound.writes_same (h : s.Sound) (hw : s.table.Writes fd x (s.table.isReserved fd) t.table)
    (hx : s.table.isReserved fd = true → x = none) (howner : t.owner = s.owner) : t.Sound := by
  rw [h.reserved] at hw hx
  exact h.writes hw hx (by rw [howner, update_eq_self])

lemma Sound.step (h : s.Sound) (hk : s.Keeps e) (he : s.step e = some t) : t.Sound := by
  cases step_effect h.aligned he with
  | same hout hsame howner => exact h.sameSlots hsame howner
  | handOut th fd hout hres howner => exact h.writes hres.writes (fun _ => rfl) howner
  | set th fd file hown hw howner | take th fd hown hw howner => exact h.writes hw (fun hn => by cases hn) howner
  | close th fd hw howner => exact h.writes_same hw (fun _ => rfl) howner
  | resize th d hdup hp hl ht howner =>
    have hclear := hk.clear hdup hp hl
    exact h.sameSlots (ht ▸ hclear.sameSlots_grow h.aligned) howner
  | dupSet th d file hdup hp hset howner =>
    have hfree := hk.free hdup hp
    have hw := set_writes h.aligned hset
    rw [← hfree] at hw
    exact h.writes_same hw (fun hr => by rw [hfree] at hr; cases hr) howner

/-- The events through which the descriptor in a slot may go: `close`, `take`, and a `sys_dup3` with
that slot as its target. -/
def Removes (s : FdState) (fd : ℕ) : FdEvent → Prop
  | .close _ i => i = fd
  | .take _ i => i = fd
  | .run th => ∃ d file, s.dup th = some d ∧ d.point = .set file ∧ d.new = fd
  | _ => False

/-- What an event may do: a number handed out was not handed out before; the slot of a number that
is handed out changes only when the thread it was handed to sets it or takes it back; the two vectors
keep one length; an open descriptor goes only through the events of `Removes`. -/
structure Exclusive (s : FdState) (e : FdEvent) (t : FdState) : Prop where
  fresh : ∀ fd, s.handedOut e = some fd → s.owner fd = none
  untouched : ∀ fd th, s.owner fd = some th → (∀ file, e ≠ .set th fd file) → e ≠ .take th fd →
    t.owner fd = some th ∧ t.table.tryGet fd = s.table.tryGet fd ∧
      t.table.isReserved fd = s.table.isReserved fd
  aligned : t.table.Aligned
  kept : ∀ fd file, s.table.tryGet fd = some file → t.table.tryGet fd ≠ some file → s.Removes fd e

lemma Exclusive.sameSlots (hout : s.handedOut e = none) (hsame : s.table.SameSlots t.table)
    (howner : t.owner = s.owner) : s.Exclusive e t := by
  constructor
  · intro fd h
    rw [hout] at h
    cases h
  · intro fd th hown _ _
    exact ⟨howner ▸ hown, hsame.tryGet fd, hsame.isReserved fd⟩
  · exact hsame.aligned
  · intro fd file hopen hgone
    rw [hsame.tryGet] at hgone
    exact absurd hopen hgone

lemma Exclusive.writes {b : Bool} (hout : ∀ i, s.handedOut e = some i → s.owner i = none)
    (hw : s.table.Writes fd x b t.table) (howner : t.owner = update s.owner fd o)
    (hown : ∀ th, s.owner fd = some th → (∃ file, e = .set th fd file) ∨ e = .take th fd)
    (hkept : ∀ file, s.table.tryGet fd = some file → s.Removes fd e) : s.Exclusive e t := by
  constructor
  · exact hout
  · intro i th hi hset htake
    have hne : i ≠ fd := by
      rintro rfl
      rcases hown th hi with ⟨file, hfile⟩ | ht
      · exact hset file hfile
      · exact htake ht
    rw [howner, update_of_ne hne, hw.tryGet, if_neg hne, hw.isReserved, if_neg hne]
    exact ⟨hi, rfl, rfl⟩
  · exact hw.aligned
  · intro i file hopen hgone
    rw [hw.tryGet] at hgone
    split_ifs at hgone with hi
    · subst hi
      exact hkept file hopen
    · exact absurd hopen hgone

lemma Sound.exclusive (h : s.Sound) (hk : s.Keeps e) (he : s.step e = some t) : s.Exclusive e t := by
  cases step_effect h.aligned he with
  | same hout hsame howner => exact .sameSlots hout hsame howner
  | handOut th fd hout hres howner =>
    have hfree := h.owner_of_free hres.free
    apply Exclusive.writes ?_ hres.writes howner
    · intro th' hown
      rw [hfree] at hown
      cases hown
    · intro file hopen
      rw [hres.vacant] at hopen
      cases hopen
    · intro i hi
      rw [hout] at hi
      exact some.inj hi ▸ hfree
  | set th fd file hown hw howner =>
    apply Exclusive.writes (fun i hi => by cases hi) hw howner
    · intro th' hown'
      rw [hown] at hown'
      exact .inl ⟨file, by rw [some.inj hown']⟩
    · intro file' hopen
      rw [h.vacant fd th hown] at hopen
      cases hopen
  | take th fd hown hw howner =>
    apply Exclusive.writes (fun i hi => by cases hi) hw howner
    · intro th' hown'
      rw [hown] at hown'
      exact .inr (by rw [some.inj hown'])
    · exact fun _ _ => rfl
  | close th fd hw howner =>
    cases hown : s.owner fd with
    | none =>
      apply Exclusive.writes (o := none) (fun i hi => by cases hi) hw
      · rw [howner, ← hown, update_eq_self]
      · intro th' hown'
        rw [hown] at hown'
        cases hown'
      · exact fun _ _ => rfl
    | some th' =>
      -- another thread may close a number that is only reserved: nothing is there
      rw [← h.vacant fd th' hown] at hw
      exact .sameSlots rfl hw.sameSlots howner
  | resize th d hdup hp hl ht howner =>
    have hclear := hk.clear hdup hp hl
    exact .sameSlots rfl (ht ▸ hclear.sameSlots_grow h.aligned) howner
  | dupSet th d file hdup hp hset howner =>
    have hfree := h.owner_of_free (hk.free hdup hp)
    apply Exclusive.writes (fun i hi => by cases hi) (set_writes h.aligned hset)
    · rw [howner, update_eq_self]
    · intro th' hown
      rw [hfree] at hown
      cases hown
    · exact fun _ _ => ⟨d, file, hdup, hp, rfl⟩

lemma Sound.keeps (h : s.Sound) (hx : s.Exclusive e t) (he : s.step e = some t) : s.Keeps e := by
  cases e with
  | run th =>
    intro d hdup
    have hdup' : s.dup th = some d := hdup
    have htable : (d.step s.table).1 = t.table := by
      simp only [FdState.step, hdup'] at he
      rw [← some.inj he]
    have huntouched : ∀ fd, s.table.isReserved fd = true → t.table.tryGet fd = none ∧ t.table.isReserved fd = true := by
      intro fd hr
      obtain ⟨th', hown⟩ := h.owner_of_isReserved hr
      have hkept := hx.untouched fd th' hown (fun _ hc => by cases hc) (fun hc => by cases hc)
      rw [hkept.2.1, hkept.2.2]
      exact ⟨h.vacant fd th' hown, hr⟩
    unfold Dup3.keeps
    split
    · next hp =>
      rw [Bool.or_eq_true, decide_eq_true_eq, decide_eq_true_eq]
      by_contra hcut
      have hcut' := not_or.1 hcut
      have hgrow : t.table = s.table.grow (d.new + 1) := by
        rw [← htable]
        simp only [Dup3.step, hp, resize, if_neg hcut'.1]
      apply hcut'.2
      intro i _ hi
      constructor
      · by_contra hopen
        obtain ⟨file, hfile⟩ := ne_none_iff_exists'.1 hopen
        have hgone : t.table.tryGet i ≠ some file := by
          rw [hgrow, tryGet_grow, if_neg (by omega)]
          simp
        obtain ⟨d', file', hd', hp', -⟩ := hx.kept i file hfile hgone
        rw [hdup'] at hd'
        rw [← some.inj hd', hp] at hp'
        cases hp'
      · by_contra hres
        have hkept := (huntouched i (Bool.eq_true_of_not_eq_false hres)).2
        rw [hgrow, isReserved_grow, if_neg (by omega)] at hkept
        cases hkept
    · next file hp =>
      rw [Bool.not_eq_true']
      by_contra hres
      have hres' := Bool.eq_true_of_not_eq_false hres
      obtain ⟨t', hset⟩ := set_isReserved hres' file
      have hkept := (huntouched d.new hres').1
      rw [← htable] at hkept
      simp only [Dup3.step, hp, hset] at hkept
      rw [(set_writes h.aligned hset).tryGet, if_pos rfl] at hkept
      cases hkept
    · rfl
  | _ => trivial

end Step

lemma sound_of_reaches {soft hard : ℕ} {files : List (Option FileDescriptor)} {s : FdState}
    (h : Reaches step Keeps (initial soft hard files) s) : s.Sound :=
  h.invariant (fun _ _ _ hs hk he => hs.step hk he) (sound_initial soft hard files)

/-- In a run whose steps of `sys_dup3` all keep to their slot, reservations are exclusive and no open
descriptor is lost; and the next step goes wrong exactly if it does not keep to its slot. -/
theorem exclusive_iff_keeps (soft hard : ℕ) (files : List (Option FileDescriptor)) {s t : FdState} {e : FdEvent}
    (h : Reaches step Keeps (initial soft hard files) s) (he : s.step e = some t) :
    s.Sound ∧ (s.Exclusive e t ↔ s.Keeps e) := by
  have hs := sound_of_reaches h
  exact ⟨hs, fun hx => hs.keeps hx he, fun hk => hs.exclusive hk he⟩

instance (s : FdState) (e : FdEvent) : Decidable (s.Keeps e) :=
  match e with
  | .run th => inferInstanceAs (Decidable (∀ d ∈ s.dup th, d.keeps s.table = true))
  | .allocFd _ | .allocFdLargerThan _ _ | .set _ _ _ | .take _ _ | .close _ _ | .setLimit _ _ | .dup3 _ _ _ _ =>
    isTrue trivial

/-- Thread 1 is in `sys_dup3(0, 3)`, past its check of the table's length, while thread 2 opens a file. -/
def growEvents : List FdEvent :=
  [.dup3 1 0 3 0, .run 1, .run 1, .run 1, .run 1, .run 1, .run 1, .allocFd 2, .set 2 1 ⟨8, false⟩]

/-- The resize that follows finds the table still short of its target. -/
theorem exclusive_iff_keeps_dup3 :
    let s := run step (initial 1024 1024 [some ⟨7, false⟩]) growEvents
    s.Sound ∧ s.Exclusive (.run 1) (after step s (.run 1)) := by
  have hrun : Reaches step Keeps (initial 1024 1024 [some ⟨7, false⟩]) (run step _ growEvents) :=
    Reaches.run (by decide +kernel)
  have h := exclusive_iff_keeps 1024 1024 [some ⟨7, false⟩] hrun (e := .run 1) rfl
  exact ⟨h.1, h.2.2 (by decide +kernel)⟩

/-- Thread 2 opens two files while thread 1 is in `sys_dup3(0, 1)`. -/
def cutEvents : List FdEvent :=
  [.dup3 1 0 1 0, .run 1, .run 1, .run 1, .run 1, .run 1, .run 1, .allocFd 2, .set 2 1 ⟨8, false⟩, .allocFd 2,
    .set 2 2 ⟨9, false⟩]

/-- The resize cuts off the second one. -/
theorem resize_loses_descriptor : ¬ ∀ (s t : FdState) (e : FdEvent),
    Reaches step (fun _ _ => True) (initial 1024 1024 [some ⟨7, false⟩]) s → s.step e = some t → s.Exclusive e t := by
  intro hall
  have hrun : Reaches step (fun _ _ => True) (initial 1024 1024 [some ⟨7, false⟩]) (run step _ cutEvents) :=
    Reaches.run (by decide +kernel)
  have h := hall _ _ (.run 1) hrun rfl
  obtain ⟨d, file, hd, hp, -⟩ := h.kept 2 ⟨9, false⟩ (by decide +kernel) (by decide +kernel)
  cases hd
  cases hp

end FdState

end Ya2yOS.Fs
