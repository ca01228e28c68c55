import Mathlib.Algebra.Ring.BooleanRing
import Ya2yOS.Fs.PipeWait

/-!
# Wakeups of a pipe

A transfer wakes one task of the other side, which is answerable for the rest: as long as no task that leaves bytes or
room behind leaves a sleeper of its side behind, no task sleeps over a pipe that is ready for it.
-/

-- `grind` would try ring arithmetic on every `Bool`
attribute [-instance] instBooleanRingBool

namespace Ya2yOS.Fs

open Function PipeRingBuffer Option

open Lib (Reaches run Admits)

/-! ### The queue of a side -/

lemma wakeOne_eq (q : List ℕ) (blocked : ℕ → Bool) :
    (∀ t ∈ q, (wakeOne q blocked).2 t = true → t ∈ (wakeOne q blocked).1) ∧
      (wakeOne q blocked).2 = match q.find? blocked with
        | some v => update blocked v false
        | none => blocked := by
  induction q with
  | nil => exact ⟨nofun, rfl⟩
  | cons a q ih =>
    unfold wakeOne
    by_cases ha : blocked a = true
    · rw [if_pos ha, List.find?_cons_of_pos ha]
      exact ⟨by grind, rfl⟩
    rw [if_neg ha, List.find?_cons_of_neg ha]
    refine ⟨fun t ht hb => ?_, ih.2⟩
    rcases List.mem_cons.1 ht with rfl | ht
    · rw [ih.2] at hb
      split at hb <;> grind
    · exact ih.1 t ht hb

namespace PipeSystem

def Sleeps (s : PipeSystem) (side : PipeSide) (t : ℕ) : Prop :=
  s.blocked t = true ∧ ∃ op : PipeOp, s.pc t = .parked op ∧ op.side = side

def Answerable (s : PipeSystem) (side : PipeSide) (t : ℕ) : Prop :=
  match s.pc t with
  | .looking op => op.side = side
  | .published op => op.side = side
  | .parked op => op.side = side ∧ s.blocked t = false
  | .granted op => op.side = side ∧ s.blocked t = false
  | _ => False

/-- The first task of the queue that is blocked waits for this side of the pipe, not for something else. -/
def Genuine (s : PipeSystem) (side : PipeSide) : Prop :=
  ∀ v ∈ (s.queue side).find? s.blocked, ∃ op : PipeOp, (s.pc v = .parked op ∨ s.pc v = .published op) ∧ op.side = side

/-- The task may leave the pipe as it is: nothing is there for its side, no one of its side sleeps, or another
task of its side is answerable. -/
def Passed (s : PipeSystem) (ring : PipeRingBuffer) (side : PipeSide) (u : ℕ) : Prop :=
  ring.Avail side → (∃ t, s.Sleeps side t) → ∃ v, v ≠ u ∧ s.Answerable side v

structure Safe (s : PipeSystem) : Prop where
  ring : s.ring.Sound
  queued : ∀ side t, s.Sleeps side t → t ∈ s.queue side
  opened : ∀ side, s.ring.Closed side → ∀ t, ¬s.Sleeps side t
  passed : ∀ side, s.ring.Avail side → (∃ t, s.Sleeps side t) → ∃ v, s.Answerable side v

section Frame

variable {s s' : PipeSystem} {side : PipeSide} {t u : ℕ} {p : PipePc}

/-- Fewer tasks are blocked, and the places of all but one are kept. -/
structure Readies (s s' : PipeSystem) (u : ℕ) : Prop where
  pc : ∀ t, t ≠ u → s'.pc t = s.pc t
  blocked : ∀ t, t ≠ u → s'.blocked t = true → s.blocked t = true

attribute [grind =] Sleeps

@[grind =]
lemma goto_pc (s : PipeSystem) (u : ℕ) (p : PipePc) (t : ℕ) : (s.goto u p).pc t = if t = u then p else s.pc t :=
  update_apply _ _ _ _

@[grind =]
lemma goto_blocked (s : PipeSystem) (u : ℕ) (p : PipePc) (t : ℕ) : (s.goto u p).blocked t = s.blocked t := rfl

@[grind =]
lemma setBlocked_pc (s : PipeSystem) (u : ℕ) (b : Bool) (t : ℕ) : (s.setBlocked u b).pc t = s.pc t := rfl

@[grind =]
lemma setBlocked_blocked (s : PipeSystem) (u : ℕ) (b : Bool) (t : ℕ) :
    (s.setBlocked u b).blocked t = if t = u then b else s.blocked t :=
  update_apply _ _ _ _

lemma Readies.sleeps (h : Readies s s' u) (ht : t ≠ u) (hs : s'.Sleeps side t) : s.Sleeps side t := by
  have hpc := h.pc t ht
  have hblocked := h.blocked t ht
  grind

@[grind =]
lemma answerable_iff : s.Answerable side t ↔ ∃ op : PipeOp, op.side = side ∧ (s.pc t = .looking op ∨
    s.pc t = .published op ∨ (s.pc t = .parked op ∨ s.pc t = .granted op) ∧ s.blocked t = false) := by
  unfold Answerable
  cases s.pc t <;> simp

lemma Answerable.mono (h : s.Answerable side t) (hpc : s'.pc t = s.pc t)
    (hblocked : s'.blocked t = true → s.blocked t = true) : s'.Answerable side t := by
  grind

lemma Readies.answerable (h : Readies s s' u) (ht : t ≠ u) (hs : s.Answerable side t) : s'.Answerable side t :=
  hs.mono (h.pc t ht) (h.blocked t ht)

lemma Safe.of_sleeps (h : s.Safe) (hsound : s'.ring.Sound) (hsleep : ∀ side t, s'.Sleeps side t → s.Sleeps side t)
    (hqueue : ∀ side t, s'.blocked t = true → t ∈ s.queue side → t ∈ s'.queue side)
    (hclosed : ∀ side, s'.ring.Closed side → s.ring.Closed side ∨ ∀ t, ¬s'.Sleeps side t)
    (hpassed : ∀ side, s'.ring.Avail side → (∃ t, s'.Sleeps side t) → ∃ v, s'.Answerable side v) : s'.Safe := by
  refine ⟨hsound, ?_, ?_, hpassed⟩
  · intro side t hs
    exact hqueue side t hs.1 (h.queued side t (hsleep side t hs))
  · intro side hc t hs
    rcases hclosed side hc with hc | hc
    · exact h.opened side hc t (hsleep side t hs)
    · exact hc t hs

lemma Readies.sleeps_of_not (h : Readies s s' u) (hu : ∀ side, ¬s'.Sleeps side u) (side : PipeSide) (t : ℕ)
    (hs : s'.Sleeps side t) : s.Sleeps side t := by
  refine h.sleeps ?_ hs
  rintro rfl
  exact hu side hs

/-- The move of a task to a place where it does not sleep. If it was answerable, either it still is, or it may
leave the pipe as it is. -/
lemma Safe.move (h : s.Safe) {b : Bool} (hp : ∀ op, p ≠ .parked op)
    (hans : ∀ side, s.ring.Avail side → s.Answerable side u →
      ((s.setBlocked u b).goto u p).Answerable side u ∨ s.Passed s.ring side u) :
    ((s.setBlocked u b).goto u p).Safe := by
  have hr : Readies s ((s.setBlocked u b).goto u p) u := ⟨by grind, by grind⟩
  have hu : ∀ side, ¬((s.setBlocked u b).goto u p).Sleeps side u := by grind
  have hsleep := hr.sleeps_of_not hu
  refine h.of_sleeps h.ring hsleep (fun _ _ _ hq => hq) (fun _ hc => .inl hc) ?_
  intro side ha hs
  obtain ⟨t, ht⟩ := hs
  obtain ⟨v, hv⟩ := h.passed side ha ⟨t, hsleep side t ht⟩
  by_cases hvu : v = u
  · subst hvu
    rcases hans side ha hv with hv' | hpass
    · exact ⟨v, hv'⟩
    · obtain ⟨w, hw, hans'⟩ := hpass ha ⟨t, hsleep side t ht⟩
      exact ⟨w, hr.answerable hw hans'⟩
  · exact ⟨v, hr.answerable hvu hv⟩

lemma Safe.transfer (h : s.Safe) (side : PipeSide) {ring : PipeRingBuffer} {ret : PipeRet}
    (hpc : ∀ op, s.pc u ≠ .parked op ∧ s.pc u ≠ .published op) (hsound : ring.Sound)
    (hends : ring.writeEndCount = s.ring.writeEndCount ∧ ring.readEndCount = s.ring.readEndCount)
    (hgen : s.Genuine side.other) (hpass : s.Passed ring side u) :
    (wake (goto { s with ring := ring } u (.outside ret)) side.other).Safe := by
  obtain ⟨hkeep, hblocked⟩ := wakeOne_eq (s.queue side.other) s.blocked
  have hmono : ∀ t, (wakeOne (s.queue side.other) s.blocked).2 t = true → s.blocked t = true := by
    intro t hb
    rw [hblocked] at hb
    split at hb <;> grind
  have hpcs : ∀ t, (wake (goto { s with ring := ring } u (.outside ret)) side.other).pc t =
      if t = u then .outside ret else s.pc t := update_apply _ _ _
  have hr : Readies s (wake (goto { s with ring := ring } u (.outside ret)) side.other) u :=
    ⟨by grind, fun t _ => hmono t⟩
  have hu : ∀ side', ¬(wake (goto { s with ring := ring } u (.outside ret)) side.other).Sleeps side' u := by grind
  have hsleep := hr.sleeps_of_not hu
  refine h.of_sleeps hsound hsleep ?_ ?_ ?_
  · intro side' t hb hq
    change t ∈ update s.queue side.other _ side'
    by_cases hside : side' = side.other
    · subst hside
      rw [update_self]
      exact hkeep t hq hb
    · rwa [update_of_ne hside]
  · intro side' hc
    left
    cases side' with
    | read => exact hends.1.symm.trans hc
    | write => exact hends.2.symm.trans hc
  · intro side' ha hs
    obtain ⟨t, ht⟩ := hs
    have hts := hsleep side' t ht
    by_cases hside : side' = side
    · subst hside
      obtain ⟨v, hvu, hv⟩ := hpass ha ⟨t, hts⟩
      exact ⟨v, hr.answerable hvu hv⟩
    -- a sleeper of the other side is in its queue, so the first one has been made ready
    have hother : side' = side.other := by cases side <;> cases side' <;> simp_all [PipeSide.other]
    subst hother
    have hq := h.queued _ t hts
    have hsome : ((s.queue side.other).find? s.blocked).isSome = true := by
      rw [List.find?_isSome]
      exact ⟨t, hq, hts.1⟩
    obtain ⟨v, hv⟩ := isSome_iff_exists.1 hsome
    obtain ⟨op, hop, hops⟩ := hgen v hv
    have hvu : v ≠ u := by grind
    have hvb : (wake (goto { s with ring := ring } u (.outside ret)) side.other).blocked v = false := by
      show (wakeOne (s.queue side.other) s.blocked).2 v = false
      rw [hblocked, hv]
      exact update_self _ _ _
    exact ⟨v, by grind⟩

lemma Safe.wakeAll (h : s.Safe) (side : PipeSide) {ring : PipeRingBuffer} (hsound : ring.Sound)
    (hclosed : ring.Closed side.other → s.ring.Closed side.other)
    (havail : ring.Avail side.other → s.ring.Avail side.other) :
    (PipeSystem.wakeAll { s with ring := ring } side).Safe := by
  have hb : ∀ t, (PipeSystem.wakeAll { s with ring := ring } side).blocked t = true →
      s.blocked t = true ∧ t ∉ s.queue side := by
    intro t ht
    simpa [PipeSystem.wakeAll] using ht
  have hsleep : ∀ side' t, (PipeSystem.wakeAll { s with ring := ring } side).Sleeps side' t → s.Sleeps side' t := by
    rintro side' t ⟨ht, hop⟩
    exact ⟨(hb t ht).1, hop⟩
  have hnone : ∀ t, ¬(PipeSystem.wakeAll { s with ring := ring } side).Sleeps side t := by
    intro t ht
    exact (hb t ht.1).2 (h.queued side t (hsleep side t ht))
  have hside : ∀ side', side' = side ∨ side' = side.other := by
    intro side'
    cases side <;> cases side' <;> simp [PipeSide.other]
  refine h.of_sleeps hsound hsleep ?_ ?_ ?_
  · intro side' t ht hq
    change t ∈ update s.queue side _ side'
    by_cases hs : side' = side
    · subst hs
      exact absurd hq (hb t ht).2
    · rwa [update_of_ne hs]
  · intro side' hc
    rcases hside side' with rfl | rfl
    · exact .inr hnone
    · exact .inl (hclosed hc)
  · rintro side' ha ⟨t, ht⟩
    rcases hside side' with rfl | rfl
    · exact absurd ht (hnone t)
    · obtain ⟨v, hv⟩ := h.passed _ (havail ha) ⟨t, hsleep _ t ht⟩
      exact ⟨v, hv.mono rfl fun ht => (hb v ht).1⟩

lemma Safe.passed_of_closed (h : s.Safe) (hc : s.ring.Closed side) (ring : PipeRingBuffer) (u : ℕ) :
    s.Passed ring side u := by
  rintro - ⟨t, ht⟩
  exact absurd ht (h.opened side hc t)

lemma setBlocked_self (s : PipeSystem) (u : ℕ) : s.setBlocked u (s.blocked u) = s := by
  unfold setBlocked
  rw [update_eq_self]

lemma Safe.goto (h : s.Safe) (hp : ∀ op, p ≠ .parked op)
    (hans : ∀ side, s.ring.Avail side → s.Answerable side u → (s.goto u p).Answerable side u ∨ s.Passed s.ring side u) :
    (s.goto u p).Safe := by
  have hmove := h.move (u := u) (b := s.blocked u) hp
  rw [setBlocked_self] at hmove
  exact hmove hans

end Frame

/-- The steps after which the waits stay right. A transfer wakes a task that waits for it, and whoever takes less
than there is, or leaves without a transfer, leaves no sleeper of its side to itself. -/
def Careful (s : PipeSystem) : PipeWaitEvent → Prop
  | .look t nonblock =>
    match s.pc t with
    | .looking (.read places) => ∀ ret ring, s.ring.read places nonblock = some (ret, ring) →
        s.ring.availableRead ≠ 0 → s.Genuine .write ∧ s.Passed ring .read t
    | .looking (.write pages) => ∀ ret ring, s.ring.write pages nonblock = some (ret, ring) →
        s.ring.readEndCount ≠ 0 → s.ring.availableWrite ≠ 0 → s.Genuine .read ∧ s.Passed ring .write t
    | _ => True
  | .take t n => ∀ bufs ring, s.ring.popBufs n = some (bufs, ring) → s.Genuine .write ∧ s.Passed ring .read t
  | .put t bufs => ∀ ring, s.ring.pushBufs bufs = some ring → s.Genuine .read ∧ s.Passed ring .write t
  | .writeKernelBytes _ _ => s.Genuine .read
  | .leave t _ =>
    match s.pc t with
    | .granted op => s.Passed s.ring op.side t
    | _ => True
  | .blockElsewhere t =>
    match s.pc t with
    | .granted op => s.Passed s.ring op.side t
    | _ => True
  | _ => True

section Steps

variable {s s' : PipeSystem} {t : ℕ} {op : PipeOp}

lemma Safe.pass (h : s.Safe) {nonblock : Bool} (hpc : s.pc t = .looking op) (hb : s.blocked t = false)
    (hcare : s.Careful (.look t nonblock)) (hstep : s.pass t nonblock op = some s') : s'.Safe := by
  have hloop : ∀ op, s.pc t ≠ .parked op ∧ s.pc t ≠ .published op := by grind
  have hside : ∀ side, s.Answerable side t → op.side = side := by grind
  simp only [Careful, hpc] at hcare
  -- the task leaves the loop or goes on to wait, with nothing there for its side
  have hleave : ∀ p, (∀ op, p ≠ .parked op) → ¬s.ring.Avail op.side → (s.goto t p).Safe := by
    intro p hp hna
    refine h.goto hp ?_
    intro side ha hans
    exact absurd ((hside side hans) ▸ ha) hna
  have hbroken : ∀ p, (∀ op, p ≠ .parked op) → s.ring.Closed op.side → (s.goto t p).Safe := by
    intro p hp hclosed
    refine h.goto hp ?_
    intro side _ hans
    exact .inr (h.passed_of_closed ((hside side hans) ▸ hclosed) s.ring t)
  have hgrant : (s.goto t (.granted op)).Safe := h.goto nofun fun side _ hans => .inl (by grind)
  cases op with
  | read places =>
    simp only [PipeSystem.pass, bind_eq_bind, bind_eq_some_iff] at hstep
    obtain ⟨⟨ret, ring⟩, hread, hstep⟩ := hstep
    by_cases ha : s.ring.availableRead = 0
    · have hna : ¬s.ring.Avail (PipeOp.read places).side := by
        change ¬0 < s.ring.availableRead
        omega
      cases ret with
      | block =>
        cases hstep
        exact hleave _ nofun hna
      | done n | data bytes | error e =>
        dsimp only at hstep
        rw [if_pos ha] at hstep
        cases hstep
        exact hleave _ nofun hna
    · obtain ⟨⟨bytes, rfl⟩, c, hup⟩ := read_spec h.ring ha hread
      dsimp only at hstep
      rw [if_neg ha] at hstep
      cases hstep
      obtain ⟨hgen, hpass⟩ := hcare _ _ hread ha
      exact h.transfer .read hloop hup.sound ⟨hup.writeEndCount, hup.readEndCount⟩ hgen hpass
  | write pages =>
    simp only [PipeSystem.pass, bind_eq_bind, bind_eq_some_iff] at hstep
    obtain ⟨⟨ret, ring⟩, hwrite, hstep⟩ := hstep
    rcases write_cases h.ring hwrite with ⟨hclosed, rfl⟩ | ⟨hroom, hret⟩ | ⟨hreaders, hroom, ⟨n, rfl⟩, c, hup⟩
    · cases hstep
      exact hbroken _ nofun hclosed
    · have hna : ¬s.ring.Avail (PipeOp.write pages).side := by
        change ¬0 < s.ring.availableWrite
        omega
      rcases hret with rfl | rfl
      · cases hstep
        exact hleave _ nofun hna
      · cases hstep
        exact hleave _ nofun hna
    · cases hstep
      obtain ⟨hgen, hpass⟩ := hcare _ _ hwrite hreaders hroom
      exact h.transfer .write hloop hup.sound ⟨hup.writeEndCount, hup.readEndCount⟩ hgen hpass
  | spliceOut =>
    simp only [PipeSystem.pass] at hstep
    split_ifs at hstep with hready
    · cases hstep
      exact hgrant
    · cases hstep
      exact hleave _ nofun fun ha => hready (.inl ha)
    · cases hstep
      exact hleave _ nofun fun ha => hready (.inl ha)
  | spliceIn =>
    simp only [PipeSystem.pass] at hstep
    split_ifs at hstep with hclosed hready
    · cases hstep
      exact hbroken _ nofun hclosed
    · cases hstep
      exact hgrant
    · cases hstep
      exact hleave _ nofun hready
    · cases hstep
      exact hleave _ nofun hready

lemma Safe.park (h : s.Safe) (hpc : s.pc t = .published op) (ha : ¬s.ring.Avail op.side)
    (hc : ¬s.ring.Closed op.side) : ((s.push op.side t).goto t (.parked op)).Safe := by
  have hqueue : ∀ side, s.queue side ⊆ (s.push op.side t).queue side := by
    intro side v hv
    unfold push
    split_ifs
    · exact hv
    · grind
  have hin : t ∈ (s.push op.side t).queue op.side := by
    unfold push
    split_ifs
    · assumption
    · grind
  have hrest : (s.push op.side t).ring = s.ring ∧ (∀ v, (s.push op.side t).pc v = s.pc v) ∧
      ∀ v, (s.push op.side t).blocked v = s.blocked v := by
    unfold push
    split_ifs <;> exact ⟨rfl, fun _ => rfl, fun _ => rfl⟩
  have hring : ((s.push op.side t).goto t (.parked op)).ring = s.ring := hrest.1
  have hr : Readies s ((s.push op.side t).goto t (.parked op)) t := ⟨by grind, by grind⟩
  have hside : ∀ side, ((s.push op.side t).goto t (.parked op)).Sleeps side t → side = op.side := by grind
  refine ⟨hring ▸ h.ring, ?_, ?_, ?_⟩
  · intro side v hv
    by_cases hvt : v = t
    · subst hvt
      rw [hside side hv]
      exact hin
    · exact hqueue side (h.queued side v (hr.sleeps hvt hv))
  · intro side hclosed v hv
    rw [hring] at hclosed
    by_cases hvt : v = t
    · subst hvt
      exact hc (hside side hv ▸ hclosed)
    · exact h.opened side hclosed v (hr.sleeps hvt hv)
  · rintro side havail ⟨v, hv⟩
    rw [hring] at havail
    have hvt : v ≠ t := by
      rintro rfl
      exact ha (hside side hv ▸ havail)
    obtain ⟨w, hw⟩ := h.passed side havail ⟨v, hr.sleeps hvt hv⟩
    exact ⟨w, hr.answerable (by grind) hw⟩

lemma Safe.recheck (h : s.Safe) (hpc : s.pc t = .published op) : (s.recheck t op).Safe := by
  unfold PipeSystem.recheck
  split_ifs with hbroken hready
  · refine h.move nofun ?_
    intro side _ hans
    right
    have hside : op.side = side := by grind
    exact h.passed_of_closed (by rw [← hside, hbroken.1]; exact hbroken.2) s.ring t
  · exact h.move nofun fun side _ hans => .inl (by grind)
  · exact h.park hpc (fun ha => hready (.inl ha)) fun hc => hready (.inr hc)

lemma Safe.ready (h : s.Safe) (t : ℕ) : (s.setBlocked t false).Safe := by
  have hb : ∀ v, (s.setBlocked t false).blocked v = true → s.blocked v = true := by grind
  have hsleep : ∀ side v, (s.setBlocked t false).Sleeps side v → s.Sleeps side v := fun side v hv => ⟨hb v hv.1, hv.2⟩
  refine h.of_sleeps h.ring hsleep (fun _ _ _ hq => hq) (fun _ hc => .inl hc) ?_
  rintro side ha ⟨v, hv⟩
  obtain ⟨w, hw⟩ := h.passed side ha ⟨v, hsleep side v hv⟩
  exact ⟨w, hw.mono rfl (hb w)⟩

lemma Safe.ring_le (h : s.Safe) {ring : PipeRingBuffer} (hsound : ring.Sound)
    (hclosed : ∀ side, ring.Closed side → s.ring.Closed side) (havail : ∀ side, ring.Avail side → s.ring.Avail side) :
    ({ s with ring := ring } : PipeSystem).Safe :=
  h.of_sleeps hsound (fun _ _ hs => hs) (fun _ _ _ hq => hq) (fun side hc => .inl (hclosed side hc))
    fun side ha hs => h.passed side (havail side ha) hs

lemma Safe.closeEnd (h : s.Safe) (readable writable : Bool) {s' : PipeSystem}
    (hstep : s.step (.closeEnd readable writable) = some s') : s'.Safe := by
  have hsound : ∀ {r : PipeRingBuffer} (a b : Bool), r.Sound → (r.closeEnd a b).Sound :=
    fun _ _ hr => ⟨hr.counted, hr.bounded, hr.valid⟩
  -- closing a read end wakes the writers, closing a write end the readers
  have hread : ∀ {s : PipeSystem}, s.Safe →
      (PipeSystem.wakeAll { s with ring := s.ring.closeEnd true false } .write).Safe :=
    fun h => h.wakeAll .write (hsound true false h.ring) id id
  have hwrite : ∀ {s : PipeSystem}, s.Safe →
      (PipeSystem.wakeAll { s with ring := s.ring.closeEnd false true } .read).Safe :=
    fun h => h.wakeAll .read (hsound false true h.ring) id id
  cases hstep
  cases readable with
  | false =>
    cases writable with
    | false =>
      exact h.ring_le (hsound _ _ h.ring) (fun _ hc => by simpa [PipeRingBuffer.closeEnd] using hc) fun _ ha => ha
    | true => exact hwrite h
  | true =>
    cases writable with
    | false => exact hread h
    | true => exact hwrite (hread h)

lemma Safe.step (h : s.Safe) {e : PipeWaitEvent} (hcare : s.Careful e) (hstep : s.step e = some s') : s'.Safe := by
  cases e with
  | start t op | ignore t | interrupt t =>
    simp only [PipeSystem.step] at hstep
    repeat' split at hstep
    all_goals cases hstep
    exact h.goto (by simp) (by grind)
  | look t nonblock =>
    simp only [PipeSystem.step] at hstep
    split at hstep
    · next op hpc =>
      split_ifs at hstep with hb
      exact h.pass hpc (by simpa using hb) hcare hstep
    · cases hstep
  | publish t =>
    simp only [PipeSystem.step] at hstep
    split at hstep <;> cases hstep
    exact h.move (by simp) (by grind)
  | recheck t =>
    simp only [PipeSystem.step] at hstep
    split at hstep <;> cases hstep
    exact h.recheck ‹_›
  | resume t =>
    simp only [PipeSystem.step] at hstep
    repeat' split at hstep
    all_goals cases hstep
    exact h.goto (by simp) fun side _ hans => .inl (by grind)
  | ready t =>
    cases hstep
    exact h.ready t
  | blockElsewhere t =>
    have hmove := h.move (u := t) (p := s.pc t) (b := true)
    have hself : (s.setBlocked t true).goto t (s.pc t) = s.setBlocked t true := by
      unfold PipeSystem.goto
      rw [show (s.setBlocked t true).pc = s.pc from rfl, update_eq_self]
      rfl
    rw [hself] at hmove
    simp only [PipeSystem.step, Careful] at hstep hcare
    split at hstep <;> cases hstep
    all_goals
      next hpc =>
        exact hmove (by simp [hpc]) (by grind)
  | take t n =>
    simp only [PipeSystem.step] at hstep
    split at hstep
    case h_1 hpc =>
      split_ifs at hstep with hbad
      simp only [bind_eq_bind, bind_eq_some_iff] at hstep
      obtain ⟨⟨bufs, ring⟩, hpop, hstep⟩ := hstep
      cases hstep
      obtain ⟨hgen, hpass⟩ := hcare bufs ring hpop
      have hle : n ≤ s.ring.bytes := by
        unfold availableRead at hbad
        omega
      obtain ⟨head, ring', hpop', hup, -⟩ := popBufs_spec h.ring hle
      rw [hpop] at hpop'
      cases hpop'
      exact h.transfer .read (by grind) hup.sound ⟨hup.writeEndCount, hup.readEndCount⟩ hgen hpass
    case h_2 => cases hstep
  | put t bufs =>
    simp only [PipeSystem.step] at hstep
    split at hstep
    case h_1 hpc =>
      split_ifs at hstep with hbad
      simp only [bind_eq_bind, bind_eq_some_iff] at hstep
      obtain ⟨ring, hpush, hstep⟩ := hstep
      cases hstep
      obtain ⟨hgen, hpass⟩ := hcare ring hpush
      simp only [not_or, not_not, not_lt] at hbad
      obtain ⟨ring', hpush', hup⟩ := pushBufs_spec h.ring hbad.2.2.1 hbad.2.2.2
      rw [hpush] at hpush'
      cases hpush'
      exact h.transfer .write (by grind) hup.sound ⟨hup.writeEndCount, hup.readEndCount⟩ hgen hpass
    case h_2 => cases hstep
  | leave t last =>
    simp only [PipeSystem.step, Careful] at hstep hcare
    split at hstep
    · next hpc =>
      split_ifs at hstep
      cases hstep
      exact h.goto (by simp) (by grind)
    · cases hstep
  | writeKernelBytes t buf =>
    simp only [PipeSystem.step] at hstep
    split at hstep
    · next last hpc =>
      simp only [bind_eq_bind, bind_eq_some_iff] at hstep
      obtain ⟨⟨ret, ring⟩, hwrite, hstep⟩ := hstep
      rcases writeKernelBytes_cases h.ring hwrite with ⟨e, rfl⟩ | ⟨⟨n, rfl⟩, hup⟩
      · cases hstep
        exact h.goto (by simp) (by grind)
      cases hstep
      refine h.transfer .write (by simp [hpc]) hup.sound ⟨hup.writeEndCount, hup.readEndCount⟩ hcare ?_
      intro ha hs
      obtain ⟨v, hv⟩ := h.passed .write (lt_of_lt_of_le ha (hup.availableWrite_le h.ring)) hs
      exact ⟨v, by grind, hv⟩
    · cases hstep
  | setCapacity requested privileged maxSize =>
    simp only [PipeSystem.step] at hstep
    rcases s.ring.setCapacity_cases requested privileged maxSize with ⟨e, heq⟩ | ⟨n, hle, heq⟩
    · rw [heq] at hstep
      cases hstep
      exact h
    · rw [heq] at hstep
      cases hstep
      exact h.wakeAll .write ⟨h.ring.counted, hle, h.ring.valid⟩ id id
  | openEnd readable writable =>
    cases hstep
    refine h.ring_le ⟨h.ring.counted, h.ring.bounded, h.ring.valid⟩ ?_ ?_
    · intro side hc
      cases side with
      | read => cases writable <;> simp_all [PipeRingBuffer.Closed, openEnd]
      | write => cases readable <;> simp_all [PipeRingBuffer.Closed, openEnd]
    · intro side ha
      cases side with
      | read => exact ha
      | write => exact ha
  | closeEnd readable writable => exact h.closeEnd readable writable hstep

lemma safe_initial (capacity : ℕ) : (initial capacity).Safe := by
  have hnone : ∀ side t, ¬(initial capacity).Sleeps side t := by
    rintro side t ⟨hb, -⟩
    exact Bool.false_ne_true hb
  exact ⟨sound_withCapacity capacity, fun side t hs => (hnone side t hs).elim,
    fun side _ t => hnone side t, fun side _ ⟨t, ht⟩ => (hnone side t ht).elim⟩

end Steps

def Still (s : PipeSystem) (t : ℕ) : Prop :=
  match s.pc t with
  | .outside _ => True
  | .parked _ => s.blocked t = true
  | .granted _ => s.blocked t = true
  | _ => False

instance (s : PipeSystem) (t : ℕ) : Decidable (s.Still t) := by
  unfold Still
  split <;> infer_instance

def Quiet (s : PipeSystem) : Prop := ∀ t, s.Still t

lemma Quiet.not_answerable {s : PipeSystem} (h : s.Quiet) (side : PipeSide) (t : ℕ) : ¬s.Answerable side t := by
  have ht := h t
  unfold Still at ht
  cases hpc : s.pc t <;> grind

/-- In every run of careful steps, whenever no step is in flight no reader is parked at a pipe with bytes or
without writers, and no writer at a pipe with room or without readers. -/
theorem no_lost_wakeup_of_careful (capacity : ℕ) {s : PipeSystem} (h : Reaches step Careful (initial capacity) s)
    (hq : s.Quiet) (t : ℕ) (op : PipeOp) (hpc : s.pc t = .parked op) :
    (op.side = .read → s.ring.availableRead = 0 ∧ s.ring.writeEndCount ≠ 0) ∧
      (op.side = .write → s.ring.availableWrite = 0 ∧ s.ring.readEndCount ≠ 0) := by
  have hs : s.Safe := h.invariant (fun _ _ _ hs hg he => hs.step hg he) (safe_initial capacity)
  have hb : s.blocked t = true := by
    have ht := hq t
    unfold Still at ht
    rwa [hpc] at ht
  have hsleep : s.Sleeps op.side t := ⟨hb, op, hpc, rfl⟩
  have hidle : ¬s.ring.Avail op.side := by
    intro ha
    obtain ⟨v, hv⟩ := hs.passed op.side ha ⟨t, hsleep⟩
    exact hq.not_answerable op.side v hv
  have hopen : ¬s.ring.Closed op.side := fun hc => hs.opened op.side hc t hsleep
  constructor
  · intro hside
    rw [hside] at hidle hopen
    exact ⟨Nat.eq_zero_of_not_pos hidle, hopen⟩
  · intro hside
    rw [hside] at hidle hopen
    exact ⟨Nat.eq_zero_of_not_pos hidle, hopen⟩

def parkedReader : List PipeWaitEvent :=
  [.openEnd true true, .start 0 (.read [5]), .look 0 false, .publish 0, .recheck 0]

/-- A reader parks, is woken by a write, takes what was written and parks again. -/
def servedReader : List PipeWaitEvent :=
  parkedReader ++ [.start 2 (.write [List.replicate 5 0]), .look 2 false, .resume 0, .look 0 false] ++
    parkedReader.tail

lemma not_sleeps_write (t : ℕ) :
    ¬(run step (initial 16) (parkedReader ++ [.start 2 (.write [List.replicate 5 0])])).Sleeps .write t := by
  rintro ⟨-, op, hpc, hside⟩
  match t with
  | 0 =>
    cases hpc
    cases hside
  | 1 | 2 | n + 3 => cases hpc

theorem no_lost_wakeup_of_careful_reader :
    ∃ s, Reaches step Careful (initial 16) s ∧ s.Quiet ∧ s.pc 0 = .parked (.read [5]) ∧
      s.ring.availableRead = 0 ∧ s.ring.writeEndCount ≠ 0 := by
  have hadmits : Admits step Careful (initial 16) servedReader := by
    refine .of_guards (by decide +kernel) ⟨trivial, trivial, fun _ _ _ hne => absurd rfl hne, trivial, trivial, trivial,
      fun ret ring hw _ _ => ⟨fun v hv => ?_, fun _ hsleep => ?_⟩, trivial,
      fun ret ring hr _ => ⟨nofun, fun havail => ?_⟩, trivial, fun _ _ _ hne => absurd rfl hne, trivial, trivial,
      trivial⟩
    · cases hv
      exact ⟨.read [5], .inl rfl, rfl⟩
    · obtain ⟨t, ht⟩ := hsleep
      exact absurd ht (not_sleeps_write t)
    · cases hr
      exact absurd havail (by decide +kernel)
  have hreach := Reaches.run hadmits
  have hquiet : (run step (initial 16) servedReader).Quiet := by
    intro t
    match t with
    | 0 | 1 | 2 => decide +kernel
    | n + 3 => trivial
  have hpc : (run step (initial 16) servedReader).pc 0 = .parked (.read [5]) := by decide +kernel
  exact ⟨_, hreach, hquiet, hpc, (no_lost_wakeup_of_careful 16 hreach hquiet 0 _ hpc).1 rfl⟩

/-- Another reader parks; a write of twelve bytes wakes the first, which takes five of them. -/
def partialRead : List PipeWaitEvent :=
  [.start 1 (.read [5]), .look 1 false, .publish 1, .recheck 1,
    .start 2 (.write [List.replicate 12 0]), .look 2 false, .resume 0, .look 0 false]

/-- The second reader stays parked at a pipe with bytes. -/
theorem reader_sleeps_over_bytes :
    ∃ s, Reaches step (fun _ _ => True) (initial 16) s ∧ s.Quiet ∧ s.pc 1 = .parked (.read [5]) ∧
      s.ring.availableRead = 7 := by
  refine ⟨run step (initial 16) (parkedReader ++ partialRead), Reaches.run (by decide +kernel), ?_,
    by decide +kernel, by decide +kernel⟩
  intro t
  match t with
  | 0 | 1 | 2 => decide +kernel
  | n + 3 => trivial

end PipeSystem

end Ya2yOS.Fs
