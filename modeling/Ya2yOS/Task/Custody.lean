import Ya2yOS.Task.Scheduler

/-!
# Custody of one task

What the agents of the scheduler do, seen from a single task: an agent attends to it, has an entry of it in hand, or
owns it.
-/

namespace Ya2yOS.Task

inductive Role where
  | away
  /-- The agent is going to read the status of the task. -/
  | attends
  /-- The agent has read under the queue lock that the task is ready. -/
  | seen
  /-- The agent has read after this that the task is off-CPU. -/
  | claims
  /-- An entry of the task is about to be pushed, or was popped. -/
  | hand
  | reserved
  | onCpu
  /-- The task is a zombie whose kernel stack is left. -/
  | abandons
deriving DecidableEq, Repr

namespace Role

def owns : Role → Bool
  | .reserved | .onCpu | .abandons => true
  | _ => false

def locks : Role → Bool
  | .seen | .claims | .hand => true
  | _ => false

def handles : Role → Bool
  | .attends | .seen | .claims | .hand => true
  | _ => false

def bars : Role → Role → Bool
  | .seen, .reserved => true
  | .claims, r | .hand, r => r.owns
  | _, _ => false

def compat (r r' : Role) : Bool :=
  !(r.owns && r'.owns) && !(r.locks && r'.locks) && !r.bars r' && !r'.bars r

lemma compat_comm (r r' : Role) : r.compat r' = r'.compat r := by
  cases r <;> cases r' <;> rfl

lemma away_compat (r : Role) : away.compat r = true := by
  cases r <;> rfl

lemma attends_compat (r : Role) : attends.compat r = true := by
  cases r <;> rfl

variable {r : Role}

lemma compat_hand (h : r.locks = true) : r.compat .hand = false := by
  cases r <;> first | rfl | cases h

end Role

structure Custody (α : Type*) where
  status : TaskStatus
  onCpu : Bool
  onRq : Bool
  inTable : Bool
  life : TaskLife
  entries : ℕ
  role : α → Role

namespace Custody

variable {α : Type*} {c c' d : Custody α} {a : α} {r' r₁ : Role}

section

variable [DecidableEq α]

def setRole (c : Custody α) (a : α) (r : Role) : Custody α := { c with role := Function.update c.role a r }

inductive Step (c : Custody α) : Custody α → Prop
  | create (a : α) (hlife : c.life = .unborn) :
      Step c (setRole { c with status := .ready, onCpu := false, onRq := false, inTable := true, life := .live } a
        .attends)
  | wake {a : α} (hrole : c.role a = .away) (hlife : c.life = .live)
      (hstatus : c.status = .blocked ∨ c.status = .stopped ∨ c.status = .vforkBlocked) :
      Step c ({ c with status := .ready }.setRole a .attends)
  | dismiss {a : α} (hrole : c.role a = .attends)
      (hidle : c.inTable = false ∨ c.status ≠ .ready) : Step c (c.setRole a .away)
  | see {a : α} (hrole : c.role a = .attends) (hstatus : c.status = .ready)
      (hlock : ∀ b, b ≠ a → (c.role b).locks = false) : Step c (c.setRole a .seen)
  | busy {a : α} (hrole : c.role a = .seen) (hcpu : c.onCpu = true) : Step c (c.setRole a .away)
  | claim {a : α} (hrole : c.role a = .seen) (hcpu : c.onCpu = false) : Step c (c.setRole a .claims)
  | merge {a : α} (hrole : c.role a = .claims) (hrq : c.onRq = true) : Step c (c.setRole a .away)
  | mark {a : α} (hrole : c.role a = .claims) (hrq : c.onRq = false) : Step c ({ c with onRq := true }.setRole a .hand)
  | push {a : α} (hrole : c.role a = .hand) : Step c ({ c with entries := c.entries + 1 }.setRole a .away)
  | pop {a : α} (hrole : c.role a = .away) (hlock : ∀ b, b ≠ a → (c.role b).locks = false) {n : ℕ}
      (hentries : c.entries = n + 1) : Step c ({ c with entries := n }.setRole a .hand)
  | dead {a : α} (hrole : c.role a = .hand) (hlife : c.life = .dropped) : Step c (c.setRole a .away)
  | stale {a : α} (hrole : c.role a = .hand) (hstatus : c.status ≠ .ready) :
      Step c ({ c with onRq := false }.setRole a .away)
  | reserve {a : α} (hrole : c.role a = .hand) (hstatus : c.status = .ready) :
      Step c ({ c with status := .running, onRq := false }.setRole a .reserved)
  | publish {a : α} (hrole : c.role a = .reserved) : Step c ({ c with status := .running }.setRole a .reserved)
  | unmark {a : α} (hrole : c.role a = .reserved) : Step c ({ c with onRq := false }.setRole a .reserved)
  | giveBack {a : α} (hrole : c.role a = .reserved) : Step c ({ c with status := .ready }.setRole a .attends)
  | enter {a : α} (hrole : c.role a = .reserved) : Step c ({ c with onCpu := true }.setRole a .onCpu)
  | change {a : α} (hrole : c.role a = .onCpu) (status : TaskStatus) :
      Step c ({ c with status := status }.setRole a .onCpu)
  | leave {a : α} (hrole : c.role a = .onCpu) : Step c ({ c with onCpu := false }.setRole a .attends)
  | exit {a : α} (hrole : c.role a = .onCpu) : Step c ({ c with status := .zombie }.setRole a .abandons)
  | abandon {a : α} (hrole : c.role a = .abandons) : Step c ({ c with inTable := false }.setRole a .away)
  | drop (hlife : c.life = .live) (hstatus : c.status = .zombie) (htable : c.inTable = false) :
      Step c { c with life := .dropped }

end

def Fits (c : Custody α) : Role → Prop
  | .away => True
  | .attends | .seen => c.life ≠ .unborn
  | .claims => c.life ≠ .unborn ∧ c.onCpu = false
  | .hand => c.life ≠ .unborn ∧ c.entries = 0 ∧ c.onCpu = false ∧ c.onRq = true
  | .reserved => c.life ≠ .unborn ∧ c.entries = 0 ∧ c.status = .running ∧ c.onCpu = false
  | .onCpu => c.life ≠ .unborn ∧ c.entries = 0 ∧ c.onCpu = true ∧ c.inTable = true
  | .abandons => c.life ≠ .unborn ∧ c.entries = 0 ∧ c.onCpu = true ∧ c.status = .zombie

structure Core (c : Custody α) : Prop where
  single : c.entries ≤ 1
  offCpu : c.entries ≠ 0 → c.onCpu = false
  marked : c.entries ≠ 0 → c.onRq = true
  unborn : c.life = .unborn → c.status = .zombie ∧ c.entries = 0
  left : c.life ≠ .unborn → c.inTable = false → c.status = .zombie
  dropped : c.life = .dropped → c.inTable = false

structure Sound (c : Custody α) : Prop where
  core : c.Core
  fits : ∀ a, c.Fits (c.role a)
  compat : ∀ a b, a ≠ b → (c.role a).compat (c.role b) = true
  /-- A marked task has its entry in the queue or in somebody's hand. -/
  entered : c.life = .live → c.onRq = true → c.entries = 1 ∨ ∃ a, c.role a = .hand
  /-- A ready task that no hart runs is queued, or an agent is about to queue it. -/
  attended : c.status = .ready → c.onCpu = false → c.entries = 1 ∨ ∃ a, (c.role a).handles = true

lemma Sound.not_unborn (h : c.Sound) (hrole : c.role a ≠ .away) : c.life ≠ .unborn := by
  have hfits := h.fits a
  cases hr : c.role a <;> simp_all [Fits]

lemma Sound.live_of_ready (h : c.Sound) (hready : c.status = .ready) : c.life = .live := by
  cases hl : c.life with
  | unborn => exact absurd (hready.symm.trans (h.core.unborn hl).1) (by decide)
  | live => rfl
  | dropped =>
    have htable := h.core.dropped hl
    exact absurd (hready.symm.trans (h.core.left (by rw [hl]; decide) htable)) (by decide)

lemma Sound.not_hand {b : α} (h : c.Sound) (ha : (c.role a).locks = true) (hne : a ≠ b) : c.role b ≠ .hand := by
  intro hb
  have hcompat := h.compat a b hne
  rw [hb, Role.compat_hand ha] at hcompat
  cases hcompat

/-- The roles through which an agent goes that has the entry or the task for itself. -/
inductive Leads : Role → Role → Prop
  | mark : Leads .claims .hand
  | push : Leads .hand .away
  | reserve : Leads .hand .reserved
  | unmark : Leads .reserved .reserved
  | giveBack : Leads .reserved .attends
  | enter : Leads .reserved .onCpu
  | change : Leads .onCpu .onCpu
  | leave : Leads .onCpu .attends
  | exit : Leads .onCpu .abandons
  | abandon : Leads .abandons .away

/-- Such an agent leaves to others nothing but to attend to the task. -/
lemma Leads.beside (h : Leads r₁ r) (hlife : d.life = c.life)
    (hcompat : r₁.compat r' = true) (hfits : c.Fits r') : r.compat r' = true ∧ d.Fits r' := by
  cases h <;> cases r' <;>
    first | cases hcompat; done | exact ⟨rfl, trivial⟩ | exact ⟨rfl, fun hu => hfits (hlife.symm.trans hu)⟩

variable [DecidableEq α]

lemma fits_setRole : (c.setRole a r).Fits r' ↔ c.Fits r' := by
  cases r' <;> rfl

lemma setRole_self : c.setRole a (c.role a) = c := by
  rw [setRole, Function.update_eq_self]

lemma Sound.setRole (h : c.Sound) (hrole : d.role = c.role)
    (hcore : d.Core) (hself : d.Fits r)
    (hother : ∀ b, b ≠ a → (c.role a).compat (c.role b) = true → c.Fits (c.role b) →
      r.compat (c.role b) = true ∧ d.Fits (c.role b))
    (hentered : d.life = .live → d.onRq = true → d.entries = 1 ∨ r = .hand ∨
      c.life = .live ∧ c.onRq = true ∧ (c.entries = 1 → d.entries = 1) ∧ c.role a ≠ .hand)
    (hattended : d.status = .ready → d.onCpu = false → d.entries = 1 ∨ r.handles = true ∨
      c.status = .ready ∧ c.onCpu = false ∧ (c.entries = 1 → d.entries = 1) ∧ (c.role a).handles = false) :
    (d.setRole a r).Sound := by
  have hself_role : (d.setRole a r).role a = r := Function.update_self ..
  have hother_role : ∀ b, b ≠ a → (d.setRole a r).role b = c.role b := fun b hb =>
    (Function.update_of_ne hb ..).trans (congrFun hrole b)
  have hnew : ∀ b, b ≠ a → r.compat (c.role b) = true ∧ d.Fits (c.role b) := fun b hb =>
    hother b hb (h.compat a b hb.symm) (h.fits b)
  refine ⟨⟨hcore.1, hcore.2, hcore.3, hcore.4, hcore.5, hcore.6⟩, fun b => ?_, fun b b' hne => ?_, fun hlife hrq => ?_,
    fun hstatus hcpu => ?_⟩
  · by_cases hb : b = a
    · rw [hb, hself_role]
      exact fits_setRole.2 hself
    · rw [hother_role b hb]
      exact fits_setRole.2 (hnew b hb).2
  · by_cases hb : b = a
    · rw [hb, hself_role, hother_role b' (hb ▸ hne.symm)]
      exact (hnew b' (hb ▸ hne.symm)).1
    rw [hother_role b hb]
    by_cases hb' : b' = a
    · rw [hb', hself_role, Role.compat_comm]
      exact (hnew b hb).1
    · rw [hother_role b' hb']
      exact h.compat b b' hne
  · rcases hentered hlife hrq with he | hr | ⟨hl, hq, hn, ha⟩
    · exact .inl he
    · exact .inr ⟨a, hself_role.trans hr⟩
    · refine (h.entered hl hq).imp hn fun ⟨b, hb⟩ => ?_
      have hba : b ≠ a := fun hba => ha (hba ▸ hb)
      exact ⟨b, (hother_role b hba).trans hb⟩
  · rcases hattended hstatus hcpu with he | hr | ⟨hs, ho, hn, ha⟩
    · exact .inl he
    · exact .inr ⟨a, by rw [hself_role, hr]⟩
    refine (h.attended hs ho).imp hn fun ⟨b, hb⟩ => ?_
    have hba : b ≠ a := by
      rintro rfl
      rw [hb] at ha
      cases ha
    exact ⟨b, by rw [hother_role b hba, hb]⟩

lemma Sound.withdraw (h : c.Sound) (hhand : c.role a = .hand → c.life ≠ .live)
    (hready : c.status = .ready → c.onCpu = false → c.entries = 1) : (c.setRole a .away).Sound := by
  refine h.setRole rfl h.core trivial (fun b _ _ hfits => ⟨Role.away_compat _, hfits⟩)
    (fun hl hrq => ?_) fun hs ho => ?_
  · by_cases hr : c.role a = .hand
    · exact absurd hl (hhand hr)
    · exact .inr (.inr ⟨hl, hrq, id, hr⟩)
  · exact .inl (hready hs ho)

/-- An agent that attends to the task or has it under the queue lock comes a step nearer to queueing it. -/
lemma Sound.proceed (h : c.Sound) (hr : r.handles = true) (hfits : c.Fits r) (hhand : c.role a ≠ .hand)
    (hother : ∀ b, b ≠ a → (c.role a).compat (c.role b) = true → r.compat (c.role b) = true) : (c.setRole a r).Sound :=
  h.setRole rfl h.core hfits (fun b hb hcompat hfits => ⟨hother b hb hcompat, hfits⟩)
    (fun hl hrq => .inr (.inr ⟨hl, hrq, id, hhand⟩)) fun _ _ => .inr (.inl hr)

/-- What an agent leaves behind that has the entry or the task for itself. -/
structure Passes (c d : Custody α) (r₁ r : Role) : Prop where
  core : d.Core
  fits : d.Fits r
  entered : d.life = .live → d.onRq = true → d.entries = 1 ∨ r = .hand ∨
    c.onRq = true ∧ (c.entries = 1 → d.entries = 1) ∧ r₁ ≠ .hand
  attended : d.status = .ready → d.onCpu = false → d.entries = 1 ∨ r.handles = true

lemma Sound.lead (h : c.Sound) (hrole : c.role a = r₁) (hlead : Leads r₁ r) (hd : d.role = c.role)
    (hlife : d.life = c.life) (hpass : c.Core → c.Fits r₁ → Passes c d r₁ r) : (d.setRole a r).Sound := by
  obtain ⟨hcore, hfits, hentered, hattended⟩ := hpass h.core (hrole ▸ h.fits a)
  refine h.setRole hd hcore hfits (fun b _ hcompat => hlead.beside hlife (hrole ▸ hcompat)) (fun hl hrq => ?_)
    fun hs ho => (hattended hs ho).imp_right .inl
  rcases hentered hl hrq with he | hr | ⟨hq, hn, hr⟩
  · exact .inl he
  · exact .inr (.inl hr)
  · exact .inr (.inr ⟨hlife ▸ hl, hq, hn, hrole ▸ hr⟩)

lemma Sound.merge (h : c.Sound) (hrole : c.role a = .claims) (hrq : c.onRq = true) : (c.setRole a .away).Sound := by
  refine h.withdraw (fun hr => ?_) fun hready _ => ?_
  · rw [hrole] at hr
    cases hr
  refine (h.entered (h.live_of_ready hready) hrq).resolve_right fun ⟨b, hb⟩ => ?_
  by_cases hab : a = b
  · rw [← hab, hrole] at hb
    cases hb
  · exact h.not_hand (by rw [hrole]; rfl) hab hb

lemma Sound.step (h : c.Sound) (hs : Step c c') : c'.Sound := by
  obtain ⟨hsingle, hoff, hmarked, hunborn, hleft, hdropped⟩ := h.core
  cases hs with
  | create a hlife =>
    have haway : ∀ b, c.role b = .away := fun b => by_contra fun hb => h.not_unborn hb hlife
    have hentries := (hunborn hlife).2
    refine h.setRole rfl ⟨hsingle, fun _ => rfl, fun hne => absurd hentries hne, nofun, nofun, nofun⟩ nofun ?_ nofun ?_
    · intro b _ _ _
      rw [haway b]
      exact ⟨rfl, trivial⟩
    · exact fun _ _ => .inr (.inl rfl)
  | @wake a hrole hlife hstatus =>
    have hzombie : c.status ≠ .zombie := by rcases hstatus with hs | hs | hs <;> simp [hs]
    refine h.setRole rfl ⟨hsingle, hoff, hmarked, ?_, fun hl ht => absurd (hleft hl ht) hzombie, hdropped⟩ ?_
      (fun b hb hcompat hfits => ⟨Role.attends_compat _, ?_⟩)
      (fun hl hrq => .inr (.inr ⟨hl, hrq, id, by simp [hrole]⟩)) fun _ _ => .inr (.inl rfl)
    · simp [hlife]
    · simp [Fits, hlife]
    · -- the woken task is neither reserved nor exiting
      cases hr : c.role b <;> simp_all [Fits]
  | @dismiss a hrole hidle =>
    refine h.withdraw (by simp [hrole]) fun hready _ => ?_
    rcases hidle with ht | hs
    · exact absurd (hready.symm.trans (hleft (h.not_unborn (a := a) (by simp [hrole])) ht)) (by decide)
    · exact absurd hready hs
  | @see a hrole hstatus hlock =>
    refine h.proceed rfl (h.not_unborn (a := a) (by simp [hrole])) (by simp [hrole]) fun b hb _ => ?_
    have hfits := h.fits b
    have hfree := hlock b hb
    cases hr : c.role b <;> rw [hr] at hfree hfits <;> first | rfl | cases hfree
    -- a reserved task is not ready
    exact absurd (hstatus.symm.trans hfits.2.2.1) (by decide)
  | busy hrole hcpu => exact h.withdraw (by simp [hrole]) (by simp [hcpu])
  | @claim a hrole hcpu =>
    refine h.proceed rfl ⟨h.not_unborn (a := a) (by simp [hrole]), hcpu⟩ (by simp [hrole]) fun b hb hcompat => ?_
    have hfits := h.fits b
    rw [hrole] at hcompat
    cases hr : c.role b <;> rw [hr] at hcompat hfits <;> first | rfl | cases hcompat
    all_goals exact absurd (hcpu.symm.trans hfits.2.2.1) (by decide)
  | merge hrole hrq => exact h.merge hrole hrq
  | @pop a hrole hlock n hentries =>
    obtain rfl : n = 0 := by omega
    have hne : c.entries ≠ 0 := by omega
    have hborn : c.life ≠ .unborn := fun hl => hne (hunborn hl).2
    refine h.setRole rfl ⟨Nat.zero_le 1, nofun, nofun, fun hl => absurd hl hborn, hleft, hdropped⟩
      ⟨hborn, rfl, hoff hne, hmarked hne⟩ (fun b hb _ hfits => ?_)
      (fun _ _ => .inr (.inl rfl)) fun _ _ => .inr (.inl rfl)
    have hfree := hlock b hb
    cases hr : c.role b <;> rw [hr] at hfree hfits <;> first | cases hfree
    -- no agent owns a task that has an entry
    exacts [⟨rfl, trivial⟩, ⟨rfl, hfits⟩, absurd hfits.2.1 hne, absurd hfits.2.1 hne, absurd hfits.2.1 hne]
  | dead hrole hlife =>
    refine h.withdraw (fun _ => by simp [hlife]) fun hready _ => ?_
    rw [h.live_of_ready hready] at hlife
    cases hlife
  | @publish a hrole =>
    have hfit := h.fits a
    rw [hrole] at hfit
    have hsame : { c with status := .running } = c := by rw [← hfit.2.2.1]
    rw [hsame, ← hrole, setRole_self]
    exact h
  | mark hrole _ | push hrole | stale hrole _ | reserve hrole _ | unmark hrole | giveBack hrole | enter hrole
  | change hrole _ | leave hrole | exit hrole | abandon hrole =>
    refine h.lead hrole (by constructor) rfl rfl fun _ hfit => ⟨⟨?_, ?_, ?_, ?_, ?_, ?_⟩, ?_, ?_, ?_⟩ <;>
      simp_all [Fits, Role.handles]
  | drop hlife hstatus htable =>
    refine ⟨⟨hsingle, hoff, hmarked, nofun, fun _ _ => hstatus, fun _ => htable⟩, fun b => ?_,
      h.compat, nofun, fun hs => ?_⟩
    · have hfits := h.fits b
      cases hr : c.role b <;> simp_all [Fits]
    · exact absurd (hs.symm.trans hstatus) (by decide)

end Custody

end Ya2yOS.Task
