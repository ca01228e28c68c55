import Ya2yOS.Fs.NumberedObjects

/-!
# Calls that reach the object of their descriptor

When a number in the table of the kernel stands for one timer only, and for no longer than a descriptor does, a call
operates on the timer of its descriptor.
-/

namespace Ya2yOS.Fs

open Function Lib
open List (any_eq_true mem_of_getElem? getElem?_modify)
open Option (map_eq_some_iff bind_eq_some_iff map_eq_map map_some bind_some some_ne_none)

/-! ### Slots, entries and lifetimes -/

section Relation

variable {slot : ℕ → ℕ → Option ℕ} {timer timer' : ℕ → Prop} {registered : ℕ → Option ℕ} {next fd i x : ℕ}

def Alive (slot : ℕ → ℕ → Option ℕ) (x : ℕ) : Prop := ∃ i fd, slot i fd = some x

/-- Every descriptor for a timer is entered under its number, and every entry that can be followed is of a descriptor
with that number. -/
structure Entered (slot : ℕ → ℕ → Option ℕ) (timer : ℕ → Prop) (registered : ℕ → Option ℕ) (next : ℕ) : Prop where
  known : ∀ x, Alive slot x → x < next
  known_registered : ∀ fd x, registered fd = some x → x < next
  proper : ∀ fd x, registered fd = some x → timer x
  entered : ∀ i fd x, slot i fd = some x → timer x → registered fd = some x
  held : ∀ fd x, registered fd = some x → Alive slot x → ∃ i, slot i fd = some x

/-- Slot `fd` of table `i` is written. -/
def put (slot : ℕ → ℕ → Option ℕ) (i fd : ℕ) (y : Option ℕ) : ℕ → ℕ → Option ℕ :=
  fun j d => if j = i ∧ d = fd then y else slot j d

/-- The number of table `i` can be given up: another table has the timer under the same number, or nothing else refers
to it. -/
def Releases (slot : ℕ → ℕ → Option ℕ) (timer : ℕ → Prop) (i fd : ℕ) : Prop :=
  ∀ x, slot i fd = some x → timer x →
    (∃ j, j ≠ i ∧ slot j fd = some x) ∨ ∀ j d, slot j d = some x → j = i ∧ d = fd

@[grind =]
lemma put_apply (slot : ℕ → ℕ → Option ℕ) (i fd : ℕ) (y : Option ℕ) (j d : ℕ) :
    put slot i fd y j d = if j = i ∧ d = fd then y else slot j d := rfl

lemma alive_put {y : Option ℕ} (h : Alive (put slot i fd y) x) : Alive slot x ∨ y = some x := by
  obtain ⟨j, d, hx⟩ := h
  by_cases heq : j = i ∧ d = fd
  · exact .inr (by grind)
  · exact .inl ⟨j, d, by grind⟩

lemma Entered.assign {y : Option ℕ} (h : Entered slot timer registered next)
    (hy : ∀ x, y = some x → x < next ∧ ¬timer x) (hrel : Releases slot timer i fd) :
    Entered (put slot i fd y) timer registered next := by
  obtain ⟨hknown, hlt, hproper, hentered, hheld⟩ := h
  refine ⟨fun x hx => ?_, hlt, hproper, by grind, fun d x hreg halive => ?_⟩
  · rcases alive_put hx with hold | hnew
    · exact hknown x hold
    · exact (hy x hnew).1
  have hnew : y ≠ some x := by grind
  obtain ⟨j, hj⟩ := hheld d x hreg ((alive_put halive).resolve_right hnew)
  by_cases heq : j = i ∧ d = fd
  · obtain ⟨rfl, rfl⟩ := heq
    rcases hrel x hj (by grind) with ⟨j', hne, hj'⟩ | honly
    · exact ⟨j', by grind⟩
    · -- The timer was only referred to from here, so that it is gone now.
      obtain ⟨j', d', hjd⟩ := halive
      grind
  · exact ⟨j, by grind⟩

/-- A vacant slot is taken by a new timer, and the number is entered; no other table has a timer under this number. -/
lemma Entered.enter (h : Entered slot timer registered next) (hx : x < next) (hk : timer x)
    (hfresh : ∀ d, registered d ≠ some x)
    (hunshared : ∀ j z, j ≠ i → slot j fd = some z → ¬timer z) :
    Entered (put slot i fd (some x)) timer (update registered fd (some x)) next := by
  obtain ⟨hknown, hlt, hproper, hentered, hheld⟩ := h
  refine ⟨fun z hz => ?_, by grind, by grind, by grind, fun d z hz halive => ?_⟩
  · rcases alive_put hz with hold | hnew
    · exact hknown z hold
    · exact Option.some.inj hnew ▸ hx
  rw [update_apply] at hz
  split_ifs at hz with heq
  · exact ⟨i, by grind⟩
  have hold : Alive slot z := by
    have := alive_put halive
    grind
  obtain ⟨j, hj⟩ := hheld d z hz hold
  exact ⟨j, by grind⟩

lemma Entered.create (h : Entered slot timer registered next) (htimer : ∀ x < next, timer' x ↔ timer x) :
    Entered slot timer' registered (next + 1) := by
  have hslot : ∀ i fd x, slot i fd = some x → Alive slot x := fun i fd x hx => ⟨i, fd, hx⟩
  obtain ⟨hknown, hlt, hproper, hentered, hheld⟩ := h
  constructor <;> grind

lemma Entered.copy {n : ℕ} (h : Entered slot timer registered next) (hn : ∀ fd, slot n fd = none) :
    Entered (update slot n (slot i)) timer registered next := by
  have hsame : ∀ j fd, update slot n (slot i) j fd = if j = n then slot i fd else slot j fd := by
    intro j fd
    rw [update_apply]
    split_ifs <;> rfl
  have hold : ∀ x, Alive (update slot n (slot i)) x → Alive slot x := by
    rintro x ⟨j, fd, hx⟩
    exact ⟨if j = n then i else j, fd, by grind⟩
  refine ⟨fun x hx => h.known x (hold x hx), h.known_registered, h.proper, by grind [h.entered],
    fun fd x hx halive => ?_⟩
  obtain ⟨j, hj⟩ := h.held fd x hx (hold x halive)
  exact ⟨j, by grind⟩

/-- All numbers of a table can be given up at once. -/
def Vacates (slot : ℕ → ℕ → Option ℕ) (timer : ℕ → Prop) (i : ℕ) : Prop :=
  ∀ fd x, slot i fd = some x → timer x → (∃ j, j ≠ i ∧ slot j fd = some x) ∨ ∀ j d, slot j d = some x → j = i

lemma Entered.clear (h : Entered slot timer registered next) (hvac : Vacates slot timer i) :
    Entered (update slot i fun _ => none) timer registered next := by
  have hsame : ∀ j fd, update slot i (fun _ => none) j fd = if j = i then none else slot j fd := by
    intro j fd
    rw [update_apply]
    split_ifs <;> rfl
  have hold : ∀ x, Alive (update slot i fun _ => none) x → Alive slot x := by
    rintro x ⟨j, fd, hx⟩
    exact ⟨j, fd, by grind⟩
  refine ⟨fun x hx => h.known x (hold x hx), h.known_registered, h.proper, by grind [h.entered],
    fun fd x hx halive => ?_⟩
  obtain ⟨j, hj⟩ := h.held fd x hx (hold x halive)
  by_cases hji : j = i
  · subst hji
    rcases hvac fd x hj (h.proper fd x hx) with ⟨j', hne, hj'⟩ | honly
    · exact ⟨j', by grind⟩
    · obtain ⟨j', d, hx'⟩ := halive
      grind
  · exact ⟨j, by grind⟩

lemma Entered.remove (h : Entered slot timer registered next) (hgone : ∀ x, registered fd = some x → ¬Alive slot x) :
    Entered slot timer (update registered fd none) next := by
  have hslot : ∀ i fd x, slot i fd = some x → Alive slot x := fun i fd x hx => ⟨i, fd, hx⟩
  obtain ⟨hknown, hlt, hproper, hentered, hheld⟩ := h
  constructor <;> grind

end Relation

/-! ### What the operations on a table do -/

namespace FdTable

variable {t t' : FdTable} {file : FileDescriptor} {fd : ℕ}

lemma install_spec (ha : t.Aligned) (h : t.install file = .ok (fd, t')) :
    (∃ t₁, t.allocFd = .ok (fd, t₁)) ∧ t.tryGet fd = none ∧ ∃ b, Writes t fd (some file) b t' := by
  unfold install at h
  cases halloc : t.allocFd with
  | error e =>
    rw [halloc] at h
    cases h
  | ok r =>
    obtain ⟨fd', t₁⟩ := r
    rw [halloc] at h
    have hres := allocFrom_reserves ha halloc
    have hset : (t₁.set fd' file >>= fun t₂ => .ok (fd', t₂)) = .ok (fd, t') := h
    cases hs : t₁.set fd' file with
    | error e =>
      rw [hs] at hset
      cases hset
    | ok t₂ =>
      rw [hs] at hset
      cases hset
      have hw := set_writes hres.writes.aligned hs
      refine ⟨⟨t₁, rfl⟩, hres.vacant, false, hw.aligned, fun d => ?_, fun d => ?_⟩
      · rw [hw.tryGet, hres.writes.tryGet]
        split_ifs <;> rfl
      · rw [hw.isReserved, hres.writes.isReserved]
        split_ifs <;> rfl

lemma aligned_copy (t : FdTable) : t.copy.Aligned := by
  unfold Aligned copy
  rw [List.length_replicate]

end FdTable

namespace Dup3

variable {d : Dup3} {t : FdTable}

/-- `dup3` changes no slot, or the new one comes to stand for the description of the old one. -/
def Duplicates (d : Dup3) (t t' : FdTable) : Prop :=
  t.SameSlots t' ∨ ∃ old file b, t.tryGet d.old = some old ∧ file.description = old.description ∧
    t.Writes d.new (some file) b t'

/-- What the steps before have found of the table. -/
def Ready (d : Dup3) (t : FdTable) : Prop :=
  match d.point with
  | .set file => (t.tryGet d.old).map FileDescriptor.description = some file.description
  | .resize => t.files.length ≤ d.new
  | _ => True

lemma complete_duplicates (fuel : ℕ) (ha : t.Aligned) (hd : d.Ready t) : d.Duplicates t (d.complete fuel t) := by
  induction fuel generalizing d t with
  | zero => exact .inl (.refl ha)
  | succ fuel ih =>
    obtain ⟨old, new, flags, point⟩ := d
    cases point with
    | oldLength | newLimit | oldLengthAgain | newLimitAgain | probe =>
      simp only [complete, step]
      split_ifs
      · exact .inl (.refl ha)
      · exact ih (d := ⟨old, new, flags, _⟩) ha trivial
    | lengthCheck =>
      simp only [complete, step]
      split_ifs with h
      · exact ih (d := ⟨old, new, flags, .resize⟩) ha h
      · exact ih (d := ⟨old, new, flags, .get⟩) ha trivial
    | resize =>
      have hlen : t.files.length ≤ new := hd
      simp only [complete, step, FdTable.resize]
      split_ifs
      · exact .inl (.refl ha)
      -- the table only grows, since it was too short
      have hgrow := (t.clear_length.mono (n := new + 1) (by omega)).sameSlots_grow ha
      rcases ih (d := ⟨old, new, flags, .get⟩) hgrow.aligned trivial with hsame | ⟨f, file, b, hf, hdesc, hw⟩
      · refine .inl ⟨hsame.aligned, fun i => ?_, fun i => ?_⟩
        · rw [hsame.tryGet, hgrow.tryGet]
        · rw [hsame.isReserved, hgrow.isReserved]
      · refine .inr ⟨f, file, b, ?_, hdesc, hgrow.writes hw⟩
        rw [← hgrow.tryGet]
        exact hf
    | get =>
      simp only [complete, step]
      cases hget : t.tryGet old with
      | none => exact .inl (.refl ha)
      | some file =>
        dsimp only
        split_ifs
        · exact .inl (.refl ha)
        · refine ih (d := ⟨old, new, flags, .set { file with cloexec := flags &&& oCloexec != 0 }⟩) ha ?_
          exact congrArg _ hget
    | set file =>
      obtain ⟨f, hf, hdesc⟩ := map_eq_some_iff.1 hd
      simp only [complete, step]
      cases hs : t.set new file with
      | error e => exact .inl (.refl ha)
      | ok t' => exact .inr ⟨f, file, false, hf, hdesc.symm, FdTable.set_writes ha hs⟩

end Dup3

namespace ObjectSystem

variable {s s' : ObjectSystem} {i p fd x : ℕ} {e : ObjectEvent}

def IsTimer (s : ObjectSystem) (x : ℕ) : Prop := (s.timer x).isSome = true

variable {t : OwnedTable}

lemma slot_eq (ht : s.tables[i]? = some t) : s.slot i fd = (t.table.tryGet fd).map FileDescriptor.description := by
  unfold slot
  rw [ht]
  rfl

lemma live_iff : s.live x = true ↔ Alive s.slot x := by
  unfold live Alive
  rw [any_eq_true]
  constructor
  · rintro ⟨t, ht, hany⟩
    obtain ⟨i, hi, rfl⟩ := List.getElem_of_mem ht
    obtain ⟨f, hf, hx⟩ := any_eq_true.1 hany
    obtain ⟨fd, hfd, rfl⟩ := List.getElem_of_mem hf
    refine ⟨i, fd, ?_⟩
    rw [slot_eq (List.getElem?_eq_getElem hi)]
    unfold FdTable.tryGet
    rw [List.getElem?_eq_getElem hfd]
    cases hd : (s.tables[i].table.files[fd]) with
    | none =>
      rw [hd] at hx
      cases hx
    | some d =>
      rw [hd] at hx
      exact congrArg some (of_decide_eq_true hx)
  · rintro ⟨i, fd, hx⟩
    obtain ⟨t, ht, hx⟩ := bind_eq_some_iff.1 hx
    obtain ⟨d, hd, rfl⟩ := map_eq_some_iff.1 hx
    refine ⟨t, mem_of_getElem? ht, any_eq_true.2 ⟨some d, ?_, decide_eq_true rfl⟩⟩
    exact mem_of_getElem? (Option.join_eq_some_iff.1 hd)

structure Sound (s : ObjectSystem) : Prop where
  aligned : ∀ t ∈ s.tables, t.table.Aligned
  entered : Entered s.slot s.IsTimer s.registered s.nextObject

lemma Sound.aligned_of_getElem? (hs : s.Sound) (ht : s.tables[i]? = some t) : t.table.Aligned :=
  hs.aligned t (mem_of_getElem? ht)

variable {table : FdTable} {c : ObjectCall} {f : OwnedTable → OwnedTable} {old : ℕ} {y : Option FileDescriptor}

lemma aligned_modify (hs : ∀ t ∈ s.tables, t.table.Aligned) (hf : ∀ o, o.table.Aligned → (f o).table.Aligned) :
    ∀ t ∈ s.tables.modify i f, t.table.Aligned := by
  intro t ht
  obtain ⟨j, hj⟩ := List.mem_iff_getElem?.1 ht
  rw [getElem?_modify] at hj
  obtain ⟨o, hold, rfl⟩ := map_eq_some_iff.1 hj
  have ho := hs o (mem_of_getElem? hold)
  split_ifs
  · exact hf o ho
  · exact ho

/-- The slots after one table is changed. -/
lemma slot_modify (s : ObjectSystem) (tableOf : ℕ → Option ℕ) (i j fd : ℕ) (f : OwnedTable → OwnedTable) :
    slot { s with tableOf := tableOf, tables := s.tables.modify i f } j fd =
      if j = i then (s.tables[i]?).bind fun t => ((f t).table.tryGet fd).map FileDescriptor.description
      else s.slot j fd := by
  unfold slot
  rw [getElem?_modify]
  by_cases hj : j = i
  · subst hj
    cases s.tables[j]? <;> simp
  · simp [hj, Ne.symm hj]

lemma slot_setTable (ht : s.tables[i]? = some t) (h : ∀ d, table.tryGet d = if d = fd then y else t.table.tryGet d) :
    (s.setTable i table).slot = put s.slot i fd (y.map FileDescriptor.description) := by
  funext j d
  have hslot : s.slot i d = _ := slot_eq ht
  have := slot_modify s s.tableOf i j d fun o => { o with table := table }
  rw [setTable, this, put_apply, ht, bind_some, h d]
  grind

lemma slot_setTable_same (ht : s.tables[i]? = some t)
    (h : ∀ d, table.tryGet d = t.table.tryGet d) : (s.setTable i table).slot = s.slot := by
  funext j d
  have hslot : s.slot i d = _ := slot_eq ht
  have := slot_modify s s.tableOf i j d fun o => { o with table := table }
  rw [setTable, this, ht, bind_some, h d]
  grind

/-! ### Steps -/

def TimerAt (s : ObjectSystem) (i fd : ℕ) : Prop := ∃ x, s.slot i fd = some x ∧ s.IsTimer x

instance (s : ObjectSystem) (i fd : ℕ) : Decidable (s.TimerAt i fd) :=
  decidable_of_iff (((s.slot i fd).bind s.timer).isSome = true) (by
    unfold TimerAt IsTimer
    cases s.slot i fd <;> simp)

/-- No other table has a timer under the number that table `i` would give out next. -/
def Unshared (s : ObjectSystem) (i : ℕ) : Prop :=
  ∀ t fd table, s.tables[i]? = some t → t.table.allocFd = .ok (fd, table) → ∀ j, j ≠ i → ¬s.TimerAt j fd

/-- A new number for a timer has no such meaning in another table; timers are not duplicated; their numbers are given
up only together with the timer, or when another table keeps the timer under the same number; and a number that stands
for a timer elsewhere is used for the calls on timers only where it does so, too. -/
def Separate (s : ObjectSystem) : ObjectEvent → Prop
  | .timerfdCreate p _ _ => ∀ i, s.tableOf p = some i → s.Unshared i
  | .dup p old => ∀ i, s.tableOf p = some i → ¬s.TimerAt i old
  | .dup3 p old new _ => ∀ i, s.tableOf p = some i → ¬s.TimerAt i old ∧ Releases s.slot s.IsTimer i new
  | .close p fd => ∀ i, s.tableOf p = some i → Releases s.slot s.IsTimer i fd
  | .exit p => ∀ i t, s.tableOf p = some i → s.tables[i]? = some t → t.owners = 1 → Vacates s.slot s.IsTimer i
  | .call p c => c.forTimer = true → ∀ i, s.tableOf p = some i → ∀ j, s.TimerAt j c.fd → s.TimerAt i c.fd
  | _ => True

lemma Sound.assign {b : Bool} (hs : s.Sound) (ht : s.tables[i]? = some t) (hw : t.table.Writes fd y b table)
    (hy : ∀ f, y = some f → f.description < s.nextObject ∧ ¬s.IsTimer f.description)
    (hrel : Releases s.slot s.IsTimer i fd) : (s.setTable i table).Sound := by
  refine ⟨aligned_modify hs.aligned fun _ _ => hw.aligned, ?_⟩
  rw [slot_setTable ht hw.tryGet]
  refine hs.entered.assign (fun x hx => ?_) hrel
  obtain ⟨f, hf, rfl⟩ := map_eq_some_iff.1 hx
  exact hy f hf

/-- A descriptor is made for the description of another one, which is no timer. -/
lemma Sound.duplicate {b : Bool} {file : FileDescriptor} (hs : s.Sound) (ht : s.tables[i]? = some t)
    (hw : t.table.Writes fd (some file) b table) (hold : ¬s.TimerAt i old)
    (hfile : s.slot i old = some file.description) (hrel : Releases s.slot s.IsTimer i fd) :
    (s.setTable i table).Sound := by
  refine hs.assign ht hw (fun g hg => ?_) hrel
  cases hg
  exact ⟨hs.entered.known _ ⟨i, old, hfile⟩, fun htimer => hold ⟨_, hfile, htimer⟩⟩

lemma Sound.recolor {timer : ℕ → Option TimerFdState} (hs : s.Sound)
    (htimer : ∀ x, (timer x).isSome = (s.timer x).isSome) : Sound { s with timer := timer } := by
  have heq : IsTimer { s with timer := timer } = s.IsTimer := by
    funext x
    unfold IsTimer
    rw [htimer]
  refine ⟨hs.aligned, ?_⟩
  rw [heq]
  exact hs.entered

lemma vacant_releases (h : s.slot i fd = none) : Releases s.slot s.IsTimer i fd := by
  intro x hx
  cases h.symm.trans hx

/-- The state in which the next number stands for a new description. -/
lemma Sound.created (hs : s.Sound) (t : Option TimerFdState) :
    Sound { s with timer := update s.timer s.nextObject t, nextObject := s.nextObject + 1 } := by
  refine ⟨hs.aligned, hs.entered.create fun x hx => ?_⟩
  unfold IsTimer
  dsimp only
  rw [update_of_ne hx.ne]

lemma Sound.installNew {cloexec : Bool} {new : Option TimerFdState} (hs : s.Sound)
    (hunshared : new.isSome = true → s.Unshared i) (h : s.installNew i new cloexec = some s') : s'.Sound := by
  obtain ⟨t, ht, h⟩ := bind_eq_some_iff.1 h
  cases hinstall : t.table.install ⟨s.nextObject, cloexec⟩ with
  | error e =>
    rw [hinstall] at h
    exact Option.some.inj h ▸ hs
  | ok r =>
    obtain ⟨fd, table⟩ := r
    rw [hinstall] at h
    dsimp only at h
    obtain ⟨⟨t₁, halloc⟩, hvacant, b, hw⟩ := FdTable.install_spec (hs.aligned_of_getElem? ht) hinstall
    have hslot : s.slot i fd = none := by
      rw [slot_eq ht, hvacant]
      rfl
    have hs₁ := hs.created new
    cases new with
    | none =>
      cases h
      refine hs₁.assign ht hw (fun f hf => ?_) (vacant_releases hslot)
      cases hf
      refine ⟨Nat.lt_succ_self _, fun htimer => ?_⟩
      unfold IsTimer at htimer
      dsimp only at htimer
      rw [update_self] at htimer
      cases htimer
    | some new =>
      cases h
      refine ⟨aligned_modify hs.aligned fun _ _ => hw.aligned, ?_⟩
      change Entered (s.setTable i table).slot _ _ _
      rw [slot_setTable ht hw.tryGet]
      refine hs₁.entered.enter (Nat.lt_succ_self _) ?_ (fun d hreg => ?_) (fun j z hj hz htimer => ?_)
      · unfold IsTimer
        dsimp only
        rw [update_self]
        rfl
      · exact absurd (hs.entered.known_registered d _ hreg) (lt_irrefl _)
      · have hlt : z < s.nextObject := hs.entered.known z ⟨j, fd, hz⟩
        unfold IsTimer at htimer
        dsimp only at htimer
        rw [update_of_ne hlt.ne] at htimer
        exact hunshared rfl t fd t₁ ht halloc j hj ⟨z, hz, htimer⟩

lemma Sound.mqOpen (hs : s.Sound) (name : List Char) (create : Bool) : (s.mqOpen name create).2.Sound := by
  unfold ObjectSystem.mqOpen
  split_ifs
  · exact hs
  · exact hs
  · exact ⟨hs.aligned, hs.entered⟩
  · exact hs

lemma Sound.dup (hs : s.Sound) (hold : ¬s.TimerAt i old) (h : s.dup i old = some s') : s'.Sound := by
  obtain ⟨t, ht, h⟩ := bind_eq_some_iff.1 h
  split at h
  next => exact Option.some.inj h ▸ hs
  next file hfile =>
    split at h
    next => exact Option.some.inj h ▸ hs
    next fd table hinstall =>
      obtain ⟨-, hvacant, b, hw⟩ := FdTable.install_spec (hs.aligned_of_getElem? ht) hinstall
      cases h
      refine hs.duplicate ht hw hold ?_ (vacant_releases ?_)
      · rw [slot_eq ht, hfile]
        rfl
      · rw [slot_eq ht, hvacant]
        rfl

lemma Sound.dup3 {new : ℕ} {flags : BitVec 32} (hs : s.Sound) (hold : ¬s.TimerAt i old)
    (hrel : Releases s.slot s.IsTimer i new) (h : s.dup3 i old new flags = some s') : s'.Sound := by
  obtain ⟨t, ht, h⟩ := bind_eq_some_iff.1 h
  split at h
  next => exact Option.some.inj h ▸ hs
  next d hd =>
    cases h
    unfold Dup3.enter at hd
    split_ifs at hd
    cases hd
    have ha := hs.aligned_of_getElem? ht
    rcases Dup3.complete_duplicates (d := ⟨old, new, flags, .oldLength⟩) 10 ha trivial with
      hsame | ⟨f, file, b, hf, hdesc, hw⟩
    · refine ⟨aligned_modify hs.aligned fun _ _ => hsame.aligned, ?_⟩
      rw [slot_setTable_same ht hsame.tryGet]
      exact hs.entered
    · refine hs.duplicate ht hw hold ?_ hrel
      rw [slot_eq ht, hf, hdesc]
      rfl

lemma Sound.fork {child : ℕ} {shareFiles : Bool} (hs : s.Sound) (h : s.fork i child shareFiles = some s') :
    s'.Sound := by
  obtain ⟨t, ht, h⟩ := bind_eq_some_iff.1 h
  split_ifs at h
  · cases h
    refine ⟨aligned_modify hs.aligned fun o ho => ho, ?_⟩
    have hslot : slot { s with
        tableOf := update s.tableOf child (some i)
        tables := s.tables.modify i fun o => { o with owners := o.owners + 1 } } = s.slot := by
      funext j fd
      rw [slot_modify]
      split_ifs with hj
      · rw [hj]
        rfl
      · rfl
    exact hslot ▸ hs.entered
  · cases h
    refine ⟨fun t' ht' => ?_, ?_⟩
    · rcases List.mem_append.1 ht' with hold | hnew
      · exact hs.aligned t' hold
      · rw [List.mem_singleton.1 hnew]
        exact t.table.aligned_copy
    · have hslot : slot { s with
          tableOf := update s.tableOf child (some s.tables.length)
          tables := s.tables ++ [⟨t.table.copy, 1⟩] } = update s.slot s.tables.length (s.slot i) := by
        funext j fd
        by_cases hj : j = s.tables.length
        · rw [hj, update_self, slot_eq ht]
          unfold slot
          rw [List.getElem?_append_right le_rfl, Nat.sub_self]
          rfl
        · rw [update_of_ne hj]
          unfold slot
          rw [List.getElem?_append]
          grind
      refine hslot ▸ hs.entered.copy fun fd => ?_
      unfold slot
      rw [List.getElem?_eq_none le_rfl]
      rfl

lemma Sound.exit (hs : s.Sound) (hvac : ∀ t, s.tables[i]? = some t → t.owners = 1 → Vacates s.slot s.IsTimer i) :
    (s.exit p i).Sound := by
  refine ⟨aligned_modify hs.aligned fun o ho => ?_, ?_⟩
  · split_ifs
    · rfl
    · exact ho
  have hslot := fun j fd => slot_modify s (update s.tableOf p none) i j fd fun o =>
    ⟨if o.owners = 1 then o.table.clear else o.table, o.owners - 1⟩
  by_cases howner : ∃ t, s.tables[i]? = some t ∧ t.owners = 1
  · obtain ⟨t, ht, hone⟩ := howner
    have hcleared : (s.exit p i).slot = update s.slot i fun _ => none := by
      funext j fd
      rw [ObjectSystem.exit, hslot, update_apply, ht, bind_some, if_pos hone]
      split_ifs <;> rfl
    exact hcleared ▸ hs.entered.clear (hvac t ht hone)
  · have hkept : (s.exit p i).slot = s.slot := by
      funext j fd
      rw [ObjectSystem.exit, hslot]
      unfold slot
      cases ht : s.tables[i]? <;> grind
    exact hkept ▸ hs.entered

lemma Sound.callOn {y : Option ℕ} (hs : s.Sound) : (s.callOn y c).2.Sound := by
  unfold ObjectSystem.callOn
  split
  · exact hs
  · exact hs
  next x t _ hx =>
  obtain ⟨z, -, hz⟩ := bind_eq_some_iff.1 hx
  obtain ⟨t', ht', heq⟩ := map_eq_some_iff.1 hz
  cases heq
  refine hs.recolor fun w => ?_
  by_cases hw : w = x
  · rw [hw, update_self, ht']
    rfl
  · rw [update_of_ne hw]

lemma Sound.forget (hs : s.Sound) (c : ObjectCall) : (s.forget c).Sound := by
  unfold ObjectSystem.forget
  split
  next hgone =>
    refine ⟨hs.aligned, hs.entered.remove fun x hx halive => ?_⟩
    have hlookup := hgone.2.2
    unfold lookup at hlookup
    rw [if_pos hgone.1, hx, Option.filter_some, if_pos (live_iff.2 halive)] at hlookup
    cases hlookup
  next => exact hs

lemma Sound.step (hs : s.Sound) (hg : s.Separate e) (h : s.step e = some s') : s'.Sound := by
  cases e with
  | mqOpen p name create =>
    obtain ⟨i, -, rfl⟩ := map_eq_some_iff.1 h
    exact hs.mqOpen name create
  | timerfdCreate p clockid flags =>
    obtain ⟨i, hi, h⟩ := bind_eq_some_iff.1 h
    unfold ObjectSystem.timerfdCreate at h
    split_ifs at h
    · exact Option.some.inj h ▸ hs
    · exact hs.installNew (fun _ => hg i hi) h
  | openOther p =>
    obtain ⟨i, hi, h⟩ := bind_eq_some_iff.1 h
    exact hs.installNew (fun hnew => by cases hnew) h
  | dup p old =>
    obtain ⟨i, hi, h⟩ := bind_eq_some_iff.1 h
    exact hs.dup (hg i hi) h
  | dup3 p old new flags =>
    obtain ⟨i, hi, h⟩ := bind_eq_some_iff.1 h
    exact hs.dup3 (hg i hi).1 (hg i hi).2 h
  | close p fd =>
    obtain ⟨i, hi, h⟩ := bind_eq_some_iff.1 h
    obtain ⟨t, ht, rfl⟩ := map_eq_some_iff.1 h
    exact hs.assign ht (FdTable.close_writes (hs.aligned_of_getElem? ht)) (fun f hf => by cases hf) (hg i hi)
  | fork p child shareFiles =>
    rw [ObjectSystem.step] at h
    split_ifs at h
    obtain ⟨i, hi, h⟩ := bind_eq_some_iff.1 h
    exact hs.fork h
  | exit p =>
    obtain ⟨i, hi, rfl⟩ := map_eq_some_iff.1 h
    exact hs.exit fun t ht => hg i t hi ht
  | call p c =>
    obtain ⟨i, hi, rfl⟩ := map_eq_some_iff.1 h
    exact (hs.forget c).callOn

lemma sound_initial (soft hard : ℕ) : (initial soft hard).Sound := by
  have hslot : ∀ i fd, (initial soft hard).slot i fd = none := by
    intro i fd
    cases i <;> rfl
  have halive : ∀ x, ¬Alive (initial soft hard).slot x := by
    rintro x ⟨i, fd, hx⟩
    cases (hslot i fd).symm.trans hx
  refine ⟨fun t ht => ?_, fun x hx => absurd hx (halive x), nofun, nofun, fun i fd x hx => ?_, nofun⟩
  · rw [List.mem_singleton.1 ht]
    rfl
  · cases (hslot i fd).symm.trans hx

lemma Sound.lookup_eq (hs : s.Sound) (hi : s.tableOf p = some i) (hg : s.Separate (.call p c)) :
    s.lookup c = s.refersTo p c := by
  unfold lookup refersTo
  by_cases htimer : c.forTimer = true
  case neg => rw [if_neg htimer, if_neg htimer]
  rw [if_pos htimer, if_pos htimer, hi, bind_some]
  ext x
  rw [Option.filter_eq_some_iff, Option.filter_eq_some_iff, live_iff]
  constructor
  · rintro ⟨hreg, halive⟩
    obtain ⟨j, hj⟩ := hs.entered.held c.fd x hreg halive
    obtain ⟨z, hz, hkz⟩ := hg htimer i hi j ⟨x, hj, hs.entered.proper c.fd x hreg⟩
    cases hreg.symm.trans (hs.entered.entered i c.fd z hz hkz)
    exact ⟨hz, hkz⟩
  · rintro ⟨hx, hkind⟩
    exact ⟨hs.entered.entered i c.fd x hx hkind, i, c.fd, hx⟩

lemma timer_forget (s : ObjectSystem) (c : ObjectCall) : (s.forget c).timer = s.timer := by
  unfold forget
  split <;> rfl

/-- In a run in which numbers of timers keep apart, a call does to the timers what it does to the timer of its
descriptor, and fails if there is none. -/
theorem call_reaches_own_object {soft hard : ℕ} {c : ObjectCall}
    (h : Reaches ObjectSystem.step Separate (initial soft hard) s) (hp : s.tableOf p = some i)
    (hg : s.Separate (.call p c)) :
    (s.call c).1 = (s.callOn (s.refersTo p c) c).1 ∧ (s.call c).2.timer = (s.callOn (s.refersTo p c) c).2.timer := by
  have hs : s.Sound := h.invariant (fun _ _ _ hs hg he => hs.step hg he) (sound_initial soft hard)
  unfold call
  rw [hs.lookup_eq hp hg]
  unfold callOn
  rw [timer_forget]
  split
  · exact ⟨rfl, timer_forget s c⟩
  · exact ⟨rfl, timer_forget s c⟩
  · exact ⟨rfl, rfl⟩

/-- `timerfd_settime` of descriptor 0 to one second from now. -/
def armOne : ObjectCall := .settime 0 0 1 0 (some ⟨⟨0, 0⟩, ⟨1, 0⟩⟩) true ⟨10, ⟨5, 0⟩⟩

def forkedTimer : List ObjectEvent :=
  [.openOther 0, .timerfdCreate 0 1 0, .fork 0 1 false, .close 1 1, .openOther 1]

def armTimer : ObjectCall := .settime 1 0 1 0 (some ⟨⟨0, 0⟩, ⟨1, 0⟩⟩) true ⟨10, ⟨5, 0⟩⟩

/-- The child has closed its copy of the descriptor and uses the number for another file. -/
theorem call_reaches_own_object_forked :
    ∃ s, Reaches ObjectSystem.step Separate (initial 8 8) s ∧ s.refersTo 0 armTimer = some 1 ∧ s.slot 1 1 = some 2 ∧
      (s.call armTimer).1 = (s.callOn (s.refersTo 0 armTimer) armTimer).1 ∧
      (s.call armTimer).2.timer = (s.callOn (s.refersTo 0 armTimer) armTimer).2.timer := by
  have hadmits : Admits ObjectSystem.step Separate (initial 8 8) forkedTimer := by
    refine ⟨trivial, by decide +kernel, fun i hi t fd table ht halloc j hj => ?_, by decide +kernel, trivial,
      by decide +kernel, fun i hi x hx _ => .inl ⟨0, ?_⟩, by decide +kernel, trivial, by decide +kernel, trivial⟩
    · cases hi
      rintro ⟨x, hx, -⟩
      cases j with
      | zero => exact hj rfl
      | succ j => cases hx
    · cases hi
      cases hx
      decide +kernel
  have hreach := Reaches.run hadmits
  have htable : (run ObjectSystem.step (initial 8 8) forkedTimer).tableOf 0 = some 0 := by decide +kernel
  refine ⟨_, hreach, by decide +kernel, by decide +kernel, call_reaches_own_object hreach htable fun _ i hi j _ => ?_⟩
  cases htable.symm.trans hi
  decide +kernel

def forkCreate : List ObjectEvent := [.fork 0 1 false, .timerfdCreate 0 1 0]

/-- The child, which has no descriptors, arms the timer of its parent. No queue can stand in for the timer: the call
that would make the first one does not return. -/
theorem closed_descriptor_reaches_timer :
    (∃ s, Reaches ObjectSystem.step (fun _ _ => True) (initial 8 8) s ∧ s.tableOf 1 = some 1 ∧ s.slot 1 0 = none ∧
      (s.call armOne).1.ret = .ok 0 ∧ (s.callOn (s.refersTo 1 armOne) armOne).1.ret = .error .EINVAL) ∧
    ((initial 8 8).mqOpen ['/', 'a'] true).1 = none :=
  ⟨⟨run ObjectSystem.step (initial 8 8) forkCreate, Reaches.run (by decide +kernel), by decide +kernel,
    by decide +kernel, by decide +kernel, by decide +kernel⟩, rfl⟩

end ObjectSystem

end Ya2yOS.Fs
