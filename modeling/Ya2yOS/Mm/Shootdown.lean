import Mathlib.Data.List.Nodup
import Mathlib.Data.List.Range
import Ya2yOS.Mm.RemoteTlb

/-!
# When a shootdown returns

A hart invalidates its TLB before it acknowledges the number of a request. The number is loaded after the
invalidation, so this holds if no request is numbered between the two.
-/

namespace Ya2yOS.Mm

open Lib List Nat

/-! ### One mailbox -/

/-- The times in a mailbox fit: each number that is acknowledged, or about to be, was given before the
TLB was last invalidated. -/
structure TlbMailbox.Ordered (b : TlbMailbox) (now : ℕ) : Prop where
  invalidatedAt : b.invalidatedAt < now
  postedAt : ∀ n, n ≤ b.sequence → b.postedAt n < now
  invalidated : .invalidated ∈ b.polls → b.postedAt b.sequence < b.invalidatedAt
  loaded : ∀ n, .loaded n ∈ b.polls → n ≤ b.sequence ∧ b.postedAt n < b.invalidatedAt
  acknowledged : b.acknowledged ≤ b.sequence ∧ (0 < b.acknowledged → b.postedAt b.acknowledged < b.invalidatedAt)
  bound : b.sequence < 2 ^ 64

/-- What a step can do to a mailbox, other than number a request. -/
inductive BoxStep (now : ℕ) (b : TlbMailbox) : TlbMailbox → Prop
  | keep : BoxStep now b b
  | swap : b.pending = true → BoxStep now b { b with pending := false, polls := .swapped :: b.polls }
  | invalidate {rest : List TlbPoll} : b.polls = .swapped :: rest →
      BoxStep now b { b with polls := .invalidated :: rest, invalidatedAt := now }
  | load {rest : List TlbPoll} : b.polls = .invalidated :: rest →
      BoxStep now b { b with polls := .loaded b.sequence :: rest }
  | acknowledge {n : ℕ} {rest : List TlbPoll} : b.polls = .loaded n :: rest →
      BoxStep now b { b with polls := rest, acknowledged := n }
  | flush : BoxStep now b (b.invalidate now)
  | notify : BoxStep now b { b with pending := true }

namespace TlbMailbox

variable {b b' : TlbMailbox} {now : ℕ}

lemma swap_step (b : TlbMailbox) (now : ℕ) : BoxStep now b b.swap := by
  unfold swap
  split
  · exact .swap ‹_›
  · exact .keep

lemma swapped_step (h : .swapped ∈ b.polls) (hs : BoxStep now b b') : .swapped ∈ b'.polls ∨ b'.invalidatedAt = now := by
  cases hs <;> grind [invalidate]

lemma pending_step (h : b.pending = true) (hs : BoxStep now b b') : b'.pending = true ∨ .swapped ∈ b'.polls := by
  cases hs <;> grind [invalidate]

lemma invalidatedAt_step (hs : BoxStep now b b') : b'.invalidatedAt = b.invalidatedAt ∨ b'.invalidatedAt = now := by
  cases hs <;> grind [invalidate]

lemma sequence_step (hs : BoxStep now b b') : b'.sequence = b.sequence ∧ b'.postedAt = b.postedAt := by
  cases hs <;> exact ⟨rfl, rfl⟩

lemma Ordered.step (h : b.Ordered now) (hs : BoxStep now b b') : b'.Ordered (now + 1) := by
  obtain ⟨hinv, hposted, hinvalidated, hloaded, hacknowledged, hbound⟩ := h
  -- what is about to be acknowledged was given before now, when an invalidation happens
  cases hs with
  | load hpolls =>
    have hlast : b.postedAt b.sequence < b.invalidatedAt := hinvalidated (by grind)
    constructor <;> grind
  | acknowledge hpolls =>
    have hn := hloaded _ (hpolls ▸ mem_cons_self)
    constructor <;> grind
  | _ => constructor <;> grind [invalidate]

/-- A request is numbered while no `poll` is between its invalidation and its load. -/
lemma Ordered.number (h : b.Ordered now) (hinv : .invalidated ∉ b.polls) (hbound : b.sequence + 1 < 2 ^ 64) :
    (b.number now).Ordered (now + 1) := by
  have hold : ∀ n, n ≤ b.sequence → (b.number now).postedAt n = b.postedAt n := fun n hn =>
    Function.update_of_ne (by omega) _ _
  refine ⟨h.invalidatedAt.trans (lt_succ_self _), fun n hn => ?_, fun hmem => absurd hmem hinv, fun n hmem => ?_,
    ?_, hbound⟩
  · by_cases heq : n = b.sequence + 1
    · subst heq
      simp [TlbMailbox.number]
    · have hn' : n ≤ b.sequence := le_of_lt_succ (lt_of_le_of_ne hn heq)
      rw [hold n hn']
      exact (h.postedAt n hn').trans (lt_succ_self _)
  · obtain ⟨hn, hlt⟩ := h.loaded n hmem
    rw [hold n hn]
    exact ⟨hn.trans (le_succ _), hlt⟩
  · obtain ⟨hn, hlt⟩ := h.acknowledged
    refine ⟨hn.trans (le_succ _), fun h0 => ?_⟩
    rw [show (b.number now).acknowledged = b.acknowledged from rfl, hold _ hn]
    exact hlt h0

end TlbMailbox

namespace TlbState

open TlbMailbox

variable {harts i n since space : ℕ} {s s' : TlbState} {e : TlbEvent}

/-- The condition on a step: when a request is numbered, no `poll` of the target is between its
invalidation and its load of the number, and the counter does not wrap. -/
def Timely (s : TlbState) : TlbEvent → Prop
  | .number =>
    match s.sender.map Sender.phase with
    | some (.number (h :: _) _) =>
      .invalidated ∉ (s.hart h).box.polls ∧ (s.hart h).box.sequence + 1 < 2 ^ 64
    | _ => True
  | _ => True

def Numbers (s : TlbState) (e : TlbEvent) (i : ℕ) : Prop :=
  e = .number ∧ ∃ x todo numbers, s.sender = some x ∧ x.phase = .number (i :: todo) numbers

@[grind =]
lemma hart_setHart (s : TlbState) (h i : ℕ) (x : Hart) : (s.setHart h x).hart i = if i = h then x else s.hart i :=
  Function.update_apply ..

@[grind =]
lemma hart_setBox (s : TlbState) (h i : ℕ) (b : TlbMailbox) :
    (s.setBox h b).hart i = if i = h then { s.hart h with box := b } else s.hart i :=
  Function.update_apply ..

@[grind =]
lemma hart_setActive (s : TlbState) (space h i : ℕ) (b : Bool) : (s.setActive space h b).hart i = s.hart i := rfl

@[grind =]
lemma active_setHart (s : TlbState) (h : ℕ) (x : Hart) (space i : ℕ) :
    (s.setHart h x).active space i = s.active space i := rfl

@[grind =]
lemma active_setBox (s : TlbState) (h : ℕ) (b : TlbMailbox) (space i : ℕ) :
    (s.setBox h b).active space i = s.active space i := rfl

@[grind =]
lemma active_setActive (s : TlbState) (space h space' i : ℕ) (b : Bool) :
    (s.setActive space h b).active space' i = if space' = space ∧ i = h then b else s.active space' i := by
  simp only [setActive, Function.update_apply]
  grind

lemma box_step (h : TlbStep harts s e s') (i : ℕ) : BoxStep s.clock (s.hart i).box (s'.hart i).box ∨
    Numbers s e i ∧ (s'.hart i).box = (s.hart i).box.number s.clock := by
  have hset : ∀ (h : ℕ) {b : TlbMailbox}, BoxStep s.clock (s.hart h).box b →
      (s'.hart i).box = (if i = h then b else (s.hart i).box) → BoxStep s.clock (s.hart i).box (s'.hart i).box := by
    intro h b hb heq
    rw [heq]
    split
    · next hi => exact hi ▸ hb
    · exact .keep
  cases h with
  | @number x h todo numbers hx hphase =>
    by_cases hi : i = h
    · subst hi
      exact .inr ⟨⟨rfl, x, todo, numbers, hx, hphase⟩, by grind⟩
    · exact .inl (hset i .keep (by grind))
  | @poll h | @trapReturn h => exact .inl (hset h (swap_step _ _) (by grind))
  | invalidate hpolls => exact .inl (hset _ (.invalidate hpolls) (by grind))
  | load hpolls => exact .inl (hset _ (.load hpolls) (by grind))
  | acknowledge hpolls => exact .inl (hset _ (.acknowledge hpolls) (by grind))
  | @activate h space =>
    by_cases hactive : s.active space h = true
    · exact .inl (hset h .keep (by grind))
    · exact .inl (hset h .flush (by grind))
  | @flush x => exact .inl (hset x.source .flush (by grind))
  | @notify x h => exact .inl (hset h .notify (by grind))
  | _ => exact .inl (hset i .keep (by grind))

lemma ordered_step (hs : ∀ i, (s.hart i).box.Ordered s.clock) (hg : s.Timely e) (h : TlbStep harts s e s') (i : ℕ) :
    (s'.hart i).box.Ordered (s.clock + 1) := by
  rcases box_step h i with hstep | ⟨⟨rfl, x, todo, numbers, hx, hphase⟩, heq⟩
  · exact (hs i).step hstep
  · simp only [Timely, hx, Option.map_some, hphase] at hg
    rw [heq]
    exact (hs i).number hg.1 hg.2

lemma invalidated_step (hclock : since < s.clock) (h : TlbStep harts s e s')
    (hs : since < (s.hart i).box.invalidatedAt) : since < (s'.hart i).box.invalidatedAt := by
  rcases box_step h i with hbox | ⟨-, hbox⟩
  · rcases invalidatedAt_step hbox with heq | heq <;> rw [heq]
    exacts [hs, hclock]
  · rw [hbox]
    exact hs

def Published (s : TlbState) : Prop := ∀ i space, (s.hart i).mode = .user space → s.active space i = true

/-- The hart does not run user code of the address space, and will invalidate before it does: it is in
a `poll` that found the request, or the next `poll` will find it, or it has still to be activated. -/
def Owes (s : TlbState) (i space : ℕ) : Prop :=
  (s.hart i).mode ≠ .user space ∧
    (.swapped ∈ (s.hart i).box.polls ∨
      (s.hart i).box.pending = true ∧ (∀ space', (s.hart i).mode = .returning space' → s.active space i = false))

/-- The hart has invalidated its TLB since the time `since`, or owes it. -/
def Settled (s : TlbState) (i space since : ℕ) : Prop :=
  since < (s.hart i).box.invalidatedAt ∨ s.Owes i space

/-- The parts of a step that concern one hart: its mode, its mailbox and its active bits. -/
inductive LocalStep (s s' : TlbState) (i : ℕ) : Prop
  /-- The mode stays. Outside of the kernel the active bits stay too. -/
  | stay : (s'.hart i).mode = (s.hart i).mode →
      ((s.hart i).mode = .kernel ∨ ∀ space, s'.active space i = s.active space i) → LocalStep s s' i
  | trap : (s'.hart i).mode = .kernel → (∀ space, s'.active space i = s.active space i) → LocalStep s s' i
  | trapReturn (space : ℕ) : (s.hart i).box.polls = [] → (s'.hart i).mode = .returning space →
      (s'.hart i).box = (s.hart i).box.swap → LocalStep s s' i
  | activate (space : ℕ) : (s.hart i).box.polls = [] → (s.hart i).mode = .returning space →
      (s'.hart i).mode = .user space →
      (s'.hart i).box = (if s.active space i then (s.hart i).box else (s.hart i).box.invalidate s.clock) →
      s'.active space i = true → LocalStep s s' i

lemma local_step (h : TlbStep harts s e s') (i : ℕ) : LocalStep s s' i := by
  cases h with
  | @trap h =>
    by_cases hi : i = h
    · exact .trap (by grind) (by grind)
    · exact .stay (by grind) (.inr (by grind))
  | @trapReturn h space hmode hpolls =>
    by_cases hi : i = h
    · exact .trapReturn space (by grind) (by grind) (by grind)
    · exact .stay (by grind) (.inr (by grind))
  | @activate h space hmode hpolls =>
    by_cases hi : i = h
    · exact .activate space (by grind) (by grind) (by grind) (by grind) (by grind)
    · exact .stay (by grind) (.inr (by grind))
  | _ => exact .stay (by grind) (by grind)

lemma published_step (hs : s.Published) (h : TlbStep harts s e s') : s'.Published := by
  intro i space hmode
  have hold := hs i space
  cases local_step h i <;> grind

lemma Owes.keep (howes : s.Owes i space) (hclock : since < s.clock) (h : TlbStep harts s e s')
    (hmode : (s'.hart i).mode ≠ .user space)
    (hreturning : ∀ space', (s'.hart i).mode = .returning space' →
      (s.hart i).mode = .returning space' ∧ s'.active space i = s.active space i) : s'.Settled i space since := by
  obtain ⟨-, hswapped | ⟨hpending, hactive⟩⟩ := howes
  · rcases box_step h i with hbox | ⟨-, hbox⟩
    · rcases swapped_step hswapped hbox with hsw | heq
      · exact .inr ⟨hmode, .inl hsw⟩
      · exact .inl (heq ▸ hclock)
    · refine .inr ⟨hmode, .inl ?_⟩
      rw [hbox]
      exact hswapped
  · have hactive' : ∀ space', (s'.hart i).mode = .returning space' → s'.active space i = false := by
      intro space' hret
      rw [(hreturning space' hret).2]
      exact hactive space' (hreturning space' hret).1
    rcases box_step h i with hbox | ⟨-, hbox⟩
    · rcases pending_step hpending hbox with hp | hsw
      · exact .inr ⟨hmode, .inr ⟨hp, hactive'⟩⟩
      · exact .inr ⟨hmode, .inl hsw⟩
    · refine .inr ⟨hmode, .inr ⟨?_, hactive'⟩⟩
      rw [hbox]
      exact hpending

/-- Whatever the harts do, a hart that owes an invalidation pays before it runs in the address space. -/
lemma settled_step (hclock : since < s.clock) (h : TlbStep harts s e s')
    (hs : s.Settled i space since) : s'.Settled i space since := by
  rcases hs with hinv | howes
  · exact .inl (invalidated_step hclock h hinv)
  cases local_step h i with
  | stay hmode hactive =>
    refine howes.keep hclock h (by rw [hmode]; exact howes.1) fun space' hret => ?_
    rw [hmode] at hret
    refine ⟨hret, hactive.resolve_left ?_ space⟩
    rw [hret]
    nofun
  | trap hmode =>
    refine howes.keep hclock h (by rw [hmode]; nofun) fun space' hret => ?_
    rw [hmode] at hret
    cases hret
  | trapReturn space' hpolls hmode hbox =>
    -- no `poll` is going on, so the flag is still set and this one finds it
    obtain ⟨-, hswapped | ⟨hpending, -⟩⟩ := howes
    · rw [hpolls] at hswapped
      cases hswapped
    · refine .inr ⟨by rw [hmode]; nofun, .inl ?_⟩
      rw [hbox, TlbMailbox.swap, if_pos hpending]
      exact List.mem_cons_self
  | activate space' hpolls hmode hmode' hbox hactive' =>
    obtain ⟨-, hswapped | ⟨hpending, hactive⟩⟩ := howes
    · rw [hpolls] at hswapped
      cases hswapped
    by_cases hspace : space' = space
    · subst hspace
      left
      rw [hbox, if_neg (by rw [hactive space' hmode]; decide)]
      exact hclock
    · by_cases hact : s.active space' i = true
      · refine .inr ⟨by rw [hmode']; simpa using hspace, .inr ⟨?_, by rw [hmode']; nofun⟩⟩
        rw [hbox, if_pos hact]
        exact hpending
      · left
        rw [hbox, if_neg hact]
        exact hclock

/-! ### The sender -/

/-- The request `n` stands in the mailbox since the update, and has not been lost. -/
structure Posted (s : TlbState) (since i n : ℕ) : Prop where
  sequence : (s.hart i).box.sequence = n
  positive : 0 < n
  after : since < (s.hart i).box.postedAt n
  alert : (s.hart i).box.postedAt n < (s.hart i).box.invalidatedAt ∨ .swapped ∈ (s.hart i).box.polls ∨
    (s.hart i).box.pending = true

lemma Posted.step (hp : s.Posted since i n) (hordered : (s.hart i).box.Ordered s.clock)
    (h : TlbStep harts s e s') (hne : ¬ s.Numbers e i) : s'.Posted since i n := by
  obtain hbox | ⟨hnum, -⟩ := box_step h i
  swap
  · exact absurd hnum hne
  obtain ⟨hseq, hpost⟩ := sequence_step hbox
  have hn : (s.hart i).box.postedAt n < s.clock := hordered.postedAt n hp.sequence.ge
  refine ⟨hseq.trans hp.sequence, hp.positive, by rw [hpost]; exact hp.after, ?_⟩
  rw [hpost]
  rcases hp.alert with hlt | hswapped | hpending
  · left
    rcases invalidatedAt_step hbox with heq | heq <;> rw [heq]
    exacts [hlt, hn]
  · rcases swapped_step hswapped hbox with hsw | heq
    · exact .inr (.inl hsw)
    · exact .inl (heq ▸ hn)
  · rcases pending_step hpending hbox with hp | hsw
    · exact .inr (.inr hp)
    · exact .inr (.inl hsw)

/-- Once the sender sees that the hart has left, the hart owes an invalidation or has paid it. -/
lemma Posted.settled (hp : s.Posted since i n) (hpub : s.Published)
    (hactive : s.active space i = false) : s.Settled i space since := by
  rcases hp.alert with hlt | halert
  · exact .inl (hp.after.trans hlt)
  · right
    refine ⟨fun hmode => ?_, halert.imp_right fun hpending => ⟨hpending, fun _ _ => hactive⟩⟩
    rw [hpub i space hmode] at hactive
    cases hactive

lemma Posted.acknowledged (hp : s.Posted since i n) (hordered : (s.hart i).box.Ordered s.clock)
    (hword : tlbWord (s.hart i).box.acknowledged = tlbWord n) : since < (s.hart i).box.invalidatedAt := by
  obtain ⟨hle, hlt⟩ := hordered.acknowledged
  have hn : n < 2 ^ 64 := hp.sequence ▸ hordered.bound
  rw [tlbWord, tlbWord, mod_eq_of_lt (hle.trans_lt hordered.bound), mod_eq_of_lt hn] at hword
  rw [hword] at hlt
  exact hp.after.trans (hlt hp.positive)

structure Progress (s : TlbState) (x : Sender) (todo : List ℕ) (numbers : List (ℕ × ℕ)) (resolved : List (ℕ × Bool)) :
    Prop where
  flushed : x.updatedAt < (s.hart x.source).box.invalidatedAt
  nodup : (todo ++ numbers.map Prod.fst).Nodup
  cover : ∀ i ∈ x.mask, i = x.source ∨ i ∈ todo ∨ i ∈ numbers.map Prod.fst ∨ i ∈ resolved.map Prod.fst
  posted : ∀ p ∈ numbers, s.Posted x.updatedAt p.1 p.2
  resolved : ∀ p ∈ resolved, s.Settled p.1 x.space x.updatedAt ∧
    (p.2 = false → x.updatedAt < (s.hart p.1).box.invalidatedAt)

def SenderOk (s : TlbState) (x : Sender) : Prop :=
  match x.phase with
  | .update => True
  | .flush => x.updatedAt < s.clock
  | .read => x.updatedAt < s.clock ∧ x.updatedAt < (s.hart x.source).box.invalidatedAt
  | .number todo numbers => x.updatedAt < s.clock ∧ s.Progress x todo numbers []
  | .notify i todo numbers => x.updatedAt < s.clock ∧ s.Progress x (i :: todo) numbers [] ∧
      0 < (s.hart i).box.sequence ∧ x.updatedAt < (s.hart i).box.postedAt (s.hart i).box.sequence
  | .wait numbers resolved => x.updatedAt < s.clock ∧ s.Progress x [] numbers resolved

variable {x : Sender} {todo : List ℕ} {numbers : List (ℕ × ℕ)} {resolved : List (ℕ × Bool)}

lemma Progress.step (hp : s.Progress x todo numbers resolved) (hclock : x.updatedAt < s.clock)
    (hordered : ∀ i, (s.hart i).box.Ordered s.clock) (h : TlbStep harts s e s')
    (hnumbers : ∀ p ∈ numbers, ¬ s.Numbers e p.1) : s'.Progress x todo numbers resolved where
  flushed := invalidated_step hclock h hp.flushed
  nodup := hp.nodup
  cover := hp.cover
  posted p hmem := (hp.posted p hmem).step (hordered p.1) h (hnumbers p hmem)
  resolved p hmem := ⟨settled_step hclock h (hp.resolved p hmem).1,
    fun hleft => invalidated_step hclock h ((hp.resolved p hmem).2 hleft)⟩

lemma Progress.resolve {b : Bool} (hp : s.Progress x [] ((i, n) :: numbers) resolved)
    (hsettled : s.Settled i x.space x.updatedAt) (hleft : b = false → x.updatedAt < (s.hart i).box.invalidatedAt) :
    s.Progress x [] numbers ((i, b) :: resolved) where
  flushed := hp.flushed
  nodup := by simpa using hp.nodup.of_cons
  cover j hj := by
    have hcover := hp.cover j hj
    simp only [map_cons, mem_cons] at hcover ⊢
    tauto
  posted p hmem := hp.posted p (mem_cons_of_mem _ hmem)
  resolved p hmem := by
    rcases mem_cons.1 hmem with rfl | hmem
    · exact ⟨hsettled, hleft⟩
    · exact hp.resolved p hmem

lemma senderOk_keep (hs : s.SenderOk x) (hordered : ∀ i, (s.hart i).box.Ordered s.clock) (h : TlbStep harts s e s')
    (hne : e ≠ .number) : { s' with clock := s.clock + 1 }.SenderOk x := by
  have hnumbers : ∀ i, ¬ s.Numbers e i := fun i hi => hne hi.1
  have hlift : ∀ {todo numbers resolved}, s'.Progress x todo numbers resolved →
      { s' with clock := s.clock + 1 }.Progress x todo numbers resolved := fun hp =>
    ⟨hp.flushed, hp.nodup, hp.cover, fun p hm => ⟨(hp.posted p hm).1, (hp.posted p hm).2, (hp.posted p hm).3,
      (hp.posted p hm).4⟩, hp.resolved⟩
  unfold SenderOk at hs ⊢
  cases hphase : x.phase with
  | update => trivial
  | flush =>
    simp only [hphase] at hs ⊢
    exact hs.trans (lt_succ_self _)
  | read =>
    simp only [hphase] at hs ⊢
    exact ⟨hs.1.trans (lt_succ_self _), invalidated_step hs.1 h hs.2⟩
  | number todo numbers =>
    simp only [hphase] at hs ⊢
    exact ⟨hs.1.trans (lt_succ_self _), hlift (hs.2.step hs.1 hordered h fun p _ => hnumbers p.1)⟩
  | notify i todo numbers =>
    simp only [hphase] at hs ⊢
    refine ⟨hs.1.trans (lt_succ_self _), hlift (hs.2.1.step hs.1 hordered h fun p _ => hnumbers p.1), ?_⟩
    obtain hbox | ⟨hnum, -⟩ := box_step h i
    · rw [(sequence_step hbox).1, (sequence_step hbox).2]
      exact hs.2.2
    · exact absurd hnum (hnumbers i)
  | wait numbers resolved =>
    simp only [hphase] at hs ⊢
    exact ⟨hs.1.trans (lt_succ_self _), hlift (hs.2.step hs.1 hordered h fun p _ => hnumbers p.1)⟩

lemma Progress.start (harts : ℕ) (active : ℕ → Bool) (hflushed : x.updatedAt < (s.hart x.source).box.invalidatedAt) :
    s.Progress { x with
      mask := (range harts).filter active
      phase := .number (((range harts).filter active).filter (· ≠ x.source)) [] }
      (((range harts).filter active).filter (· ≠ x.source)) [] [] where
  flushed := hflushed
  nodup := by
    rw [map_nil, append_nil]
    exact (nodup_range.filter _).filter _
  cover i hi := by
    by_cases hsource : i = x.source
    · exact .inl hsource
    · exact .inr (.inl (mem_filter.2 ⟨hi, by simpa using hsource⟩))
  posted := nofun
  resolved := nofun

lemma Progress.notify (hp : s.Progress x (i :: todo) numbers []) (hposted : s.Posted x.updatedAt i n) :
    s.Progress x todo (numbers ++ [(i, n)]) [] where
  flushed := hp.flushed
  nodup := by
    have hperm : (todo ++ (numbers ++ [(i, n)]).map Prod.fst).Perm (i :: todo ++ numbers.map Prod.fst) := by
      rw [map_append, ← append_assoc]
      exact perm_append_singleton i _
    exact hperm.nodup_iff.2 hp.nodup
  cover j hj := by
    have hcover := hp.cover j hj
    simp only [mem_cons, map_append, mem_append, map_cons, map_nil, not_mem_nil, or_false] at hcover ⊢
    tauto
  posted p hmem := by
    rcases mem_append.1 hmem with hmem | hmem
    · exact hp.posted p hmem
    · rw [mem_singleton.1 hmem]
      exact hposted
  resolved := nofun

lemma Progress.tick (hp : s.Progress x todo numbers resolved) (sender : Option Sender) (completed : List Completed)
    (clock : ℕ) (phase : SenderPhase) :
    { s with sender := sender, completed := completed, clock := clock }.Progress { x with phase := phase } todo
      numbers resolved :=
  ⟨hp.flushed, hp.nodup, hp.cover,
    fun p hm => ⟨(hp.posted p hm).1, (hp.posted p hm).2, (hp.posted p hm).3, (hp.posted p hm).4⟩, hp.resolved⟩

lemma senderOk_step (hs : ∀ x, s.sender = some x → s.SenderOk x) (hordered : ∀ i, (s.hart i).box.Ordered s.clock)
    (hpub : s.Published) (h : TlbStep harts s e s') (x' : Sender) (hx' : s'.sender = some x') :
    { s' with clock := s.clock + 1 }.SenderOk x' := by
  have hstep := h
  cases h with
  | lockUpdates =>
    cases hx'
    trivial
  | @update x hx hphase =>
    cases hx'
    exact lt_succ_self _
  | @flush x hx hphase =>
    cases hx'
    have hok := hs x hx
    simp only [SenderOk, hphase] at hok
    refine ⟨hok.trans (lt_succ_self _), ?_⟩
    grind [invalidate]
  | @readMask x hx hphase =>
    cases hx'
    have hok := hs x hx
    simp only [SenderOk, hphase] at hok
    exact ⟨hok.1.trans (lt_succ_self _), (Progress.start harts (s.active x.space) hok.2).tick _ _ _ _⟩
  | @number x i todo numbers hx hphase =>
    cases hx'
    have hok := hs x hx
    simp only [SenderOk, hphase] at hok
    have hnodup := hok.2.nodup
    have hnew : ∀ p ∈ numbers, ¬ s.Numbers .number p.1 := by
      rintro p hp ⟨-, y, todo', numbers', hy, hphase'⟩
      obtain rfl : x = y := Option.some.inj (hx.symm.trans hy)
      rw [hphase] at hphase'
      cases hphase'
      rw [cons_append, nodup_cons] at hnodup
      exact hnodup.1 (mem_append_right _ (mem_map_of_mem hp))
    refine ⟨hok.1.trans (lt_succ_self _), (hok.2.step hok.1 hordered hstep hnew).tick _ _ _ _, ?_⟩
    have hbox : ((s.setBox i ((s.hart i).box.number s.clock)).hart i).box = (s.hart i).box.number s.clock := by grind
    have hposted : ((s.hart i).box.number s.clock).postedAt ((s.hart i).box.sequence + 1) = s.clock :=
      Function.update_self ..
    grind [number]
  | @notify x i todo numbers hx hphase =>
    cases hx'
    have hok := hs x hx
    simp only [SenderOk, hphase] at hok
    have hp := hok.2.1.step hok.1 hordered hstep fun p _ => by rintro ⟨⟨⟩, -⟩
    refine ⟨hok.1.trans (lt_succ_self _), Progress.tick (hp.notify ?_) _ _ _ _⟩
    exact ⟨by grind, hok.2.2.1, by grind, .inr (.inr (by grind))⟩
  | @await x numbers hx hphase =>
    cases hx'
    have hok := hs x hx
    simp only [SenderOk, hphase] at hok
    exact ⟨hok.1.trans (lt_succ_self _), hok.2.tick _ _ _ _⟩
  | @acked x i n todo resolved hx hphase hword =>
    cases hx'
    have hok := hs x hx
    simp only [SenderOk, hphase] at hok
    have hinv := (hok.2.posted (i, n) mem_cons_self).acknowledged (hordered i) hword
    exact ⟨hok.1.trans (lt_succ_self _), (hok.2.resolve (.inl hinv) fun _ => hinv).tick _ _ _ _⟩
  | @left x i n todo resolved hx hphase hactive =>
    cases hx'
    have hok := hs x hx
    simp only [SenderOk, hphase] at hok
    have hsettled := (hok.2.posted (i, n) mem_cons_self).settled hpub hactive
    exact ⟨hok.1.trans (lt_succ_self _), (hok.2.resolve (b := true) hsettled nofun).tick _ _ _ _⟩
  | finish => cases hx'
  | _ => exact senderOk_keep (hs x' hx') hordered hstep nofun

/-- What a shootdown that has returned has achieved for one hart of its mask. -/
def CompletedOk (s : TlbState) (c : Completed) : Prop :=
  c.updatedAt < s.clock ∧ s.Settled c.hart c.space c.updatedAt ∧
    (c.left = false → c.updatedAt < (s.hart c.hart).box.invalidatedAt)

lemma completedOk_step (hs : ∀ c ∈ s.completed, s.CompletedOk c) (hsender : ∀ x, s.sender = some x → s.SenderOk x)
    (h : TlbStep harts s e s') (c : Completed) (hc : c ∈ s'.completed) :
    { s' with clock := s.clock + 1 }.CompletedOk c := by
  suffices hold : s.CompletedOk c by
    obtain ⟨hclock, hsettled, hleft⟩ := hold
    have hsettled' := settled_step hclock h hsettled
    have hleft' := fun hl => invalidated_step hclock h (hleft hl)
    exact ⟨hclock.trans (lt_succ_self _), hsettled', hleft'⟩
  cases h with
  | @finish x resolved hx hphase =>
    rcases mem_append.1 hc with hc | hc
    · obtain ⟨i, hi, rfl⟩ := mem_map.1 hc
      have hok := hsender x hx
      simp only [SenderOk, hphase] at hok
      obtain ⟨hclock, hp⟩ := hok
      rcases hp.cover i hi with rfl | hi' | hi' | hi'
      · exact ⟨hclock, .inl hp.flushed, fun _ => hp.flushed⟩
      · cases hi'
      · cases hi'
      obtain ⟨⟨j, b⟩, hmem, rfl⟩ := mem_map.1 hi'
      obtain ⟨hsettled, hinv⟩ := hp.resolved (j, b) hmem
      refine ⟨hclock, hsettled, fun hleft => hinv ?_⟩
      cases b with
      | false => rfl
      | true => exact absurd (contains_iff_mem.2 hmem) (by simpa using hleft)
    · exact hs c hc
  | _ => exact hs c hc

structure Sound (s : TlbState) : Prop where
  ordered : ∀ i, (s.hart i).box.Ordered s.clock
  published : s.Published
  sender : ∀ x, s.sender = some x → s.SenderOk x
  completed : ∀ c ∈ s.completed, s.CompletedOk c

lemma sound_step (hs : s.Sound) (hg : s.Timely e) (h : step harts s e = some s') : s'.Sound := by
  obtain ⟨s₁, hact, rfl⟩ := Option.map_eq_some_iff.1 h
  have hstep := act_step hact
  have hordered := ordered_step hs.ordered hg hstep
  have hpublished := published_step hs.published hstep
  have hsender := senderOk_step hs.sender hs.ordered hs.published hstep
  have hcompleted := completedOk_step hs.completed hs.sender hstep
  exact ⟨hordered, hpublished, hsender, hcompleted⟩

lemma sound_initial : initial.Sound :=
  ⟨fun _ => ⟨Nat.one_pos, fun _ _ => Nat.one_pos, nofun, nofun, ⟨le_rfl, fun h => absurd h (lt_irrefl 0)⟩,
    Nat.two_pow_pos 64⟩, nofun, nofun, nofun⟩

/-- In every run in which no request is numbered between the invalidation and the load of a `poll` of
its target: each hart of the mask of a shootdown that has returned has invalidated its TLB after the
update unless it had left, and has in any case done so if it runs in the address space again; and a
hart that has acknowledged a number has invalidated after that number was given. -/
theorem timely_run_shootdown (h : Reaches (step harts) Timely initial s) :
    (∀ c ∈ s.completed, (c.left = false → c.updatedAt < (s.hart c.hart).box.invalidatedAt) ∧
      ((s.hart c.hart).mode = .user c.space → c.updatedAt < (s.hart c.hart).box.invalidatedAt)) ∧
    ∀ i, 0 < (s.hart i).box.acknowledged →
      (s.hart i).box.postedAt (s.hart i).box.acknowledged < (s.hart i).box.invalidatedAt := by
  have hs : s.Sound := h.invariant (fun _ _ _ hs hg hstep => sound_step hs hg hstep) sound_initial
  refine ⟨fun c hc => ?_, fun i hi => (hs.ordered i).acknowledged.2 hi⟩
  obtain ⟨-, hsettled, hleft⟩ := hs.completed c hc
  exact ⟨hleft, fun hmode => hsettled.resolve_right fun howes => howes.1 hmode⟩

/-- Hart 0 changes an address space in which hart 1 runs; hart 1 traps, polls and goes on. -/
def served : TlbState :=
  run (step 2) initial [.trapReturn 1 0, .activate 1, .deactivate 0 0, .lockUpdates 0, .update, .flush, .readMask,
    .number, .notify, .trap 1, .poll 1, .invalidate 1, .load 1, .acknowledge 1, .wait, .wait, .finish,
    .trapReturn 1 0, .activate 1]

theorem timely_run_shootdown_served : served.completed = [⟨1, 0, 5, false⟩] ∧ (served.hart 1).mode = .user 0 ∧
    5 < (served.hart 1).box.invalidatedAt := by
  have hrun : Reaches (step 2) Timely initial served := by
    refine Reaches.run ?_
    iterate 7 refine ⟨trivial, rfl, ?_⟩
    refine ⟨⟨nofun, Nat.one_lt_two_pow (by decide)⟩, rfl, ?_⟩
    iterate 11 refine ⟨trivial, rfl, ?_⟩
    trivial
  exact ⟨rfl, rfl, ((timely_run_shootdown hrun).1 ⟨1, 0, 5, false⟩ (mem_singleton.2 rfl)).2 rfl⟩

/-- Hart 1 leaves before it serves the first request and publishes itself again; its next `poll` finds
the old flag, and the second request is numbered between the invalidation and the load. -/
def outrun : TlbState :=
  run (step 2) initial [.trapReturn 1 0, .activate 1, .trap 1, .deactivate 0 0, .lockUpdates 0, .update, .flush,
    .readMask, .number, .notify, .deactivate 1 0, .wait, .wait, .finish, .republish 0, .pass 1, .republish 1,
    .trapReturn 1 0, .invalidate 1, .deactivate 0 0, .lockUpdates 0, .update, .flush, .readMask, .number, .notify,
    .load 1, .acknowledge 1, .wait, .wait, .finish, .activate 1]

/-- The second shootdown has returned on the acknowledgement of its number, and hart 1 runs in the
address space with translations from before the update. -/
theorem outrun_stale : Reaches (step 2) (fun _ _ => True) initial outrun ∧
    ⟨1, 0, 22, false⟩ ∈ outrun.completed ∧ (outrun.hart 1).mode = .user 0 ∧
    (outrun.hart 1).box.invalidatedAt = 19 ∧ (outrun.hart 1).box.acknowledged = 2 ∧
    (outrun.hart 1).box.postedAt 2 = 25 := by
  refine ⟨Reaches.run ⟨trivial, rfl, trivial, rfl, trivial, rfl, trivial, rfl, trivial, rfl, trivial, rfl, trivial,
    rfl, trivial, rfl, trivial, rfl, trivial, rfl, trivial, rfl, trivial, rfl, trivial, rfl, trivial, rfl, trivial,
    rfl, trivial, rfl, trivial, rfl, trivial, rfl, trivial, rfl, trivial, rfl, trivial, rfl, trivial, rfl, trivial,
    rfl, trivial, rfl, trivial, rfl, trivial, rfl, trivial, rfl, trivial, rfl, trivial, rfl, trivial, rfl, trivial,
    rfl, trivial, rfl, trivial⟩, ?_, rfl, rfl, rfl, rfl⟩
  exact mem_cons_self

end TlbState

end Ya2yOS.Mm
