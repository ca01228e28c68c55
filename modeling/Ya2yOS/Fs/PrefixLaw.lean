import Ya2yOS.Fs.ScatterGather

/-!
# The prefix law of scatter and gather

A call that returns `r` has moved the first `r` bytes of its buffers to (or from) consecutive offsets, and the position
of the file, if it moved, stands right behind them. `sys_writev` takes only one chunk of each buffer, so it keeps the
law exactly if what it leaves out is at the end.
-/

namespace Ya2yOS.Fs

open List

open Signal (UserMemory)
open Except (ok)

/-- Of the places `ps`, `total` were moved since `s₀`, to or from the offsets that begin at `org`. -/
structure Moved (org : ℕ) (ps : List Place) (total : ℕ) (s₀ s : IoState) : Prop where
  le : total ≤ ps.length
  moved : s.moved = s₀.moved ++ (range' org total).zip (ps.take total)
  pos : s.pos = org + total ∨ total = 0 ∧ s.pos = s₀.pos

lemma zip_range'_take_add (org total n : ℕ) (ps : List Place) (h : total ≤ ps.length) :
    (range' org total).zip (ps.take total) ++ (range' (org + total) n).zip ((ps.drop total).take n) =
      (range' org (total + n)).zip (ps.take (total + n)) := by
  rw [← range'_append_1, take_add, zip_append]
  rw [length_range', length_take, min_eq_left h]

lemma zip_range'_take (org n : ℕ) (ps : List Place) : (range' org n).zip ps = (range' org n).zip (ps.take n) := by
  induction n generalizing org ps with
  | zero => rfl
  | succ n ih =>
    cases ps with
    | nil => rfl
    | cons p ps =>
      simp only [range'_succ, zip_cons_cons, take_succ_cons]
      rw [ih]

namespace Moved

variable {org total n : ℕ} {ps done chunk rest : List Place} {s₀ s s' : IoState}

lemma refl (org : ℕ) (ps : List Place) (s : IoState) : Moved org ps 0 s s where
  le := Nat.zero_le _
  moved := by simp
  pos := .inr ⟨rfl, rfl⟩

lemma add (h : Moved org ps total s₀ s) (hps : ps = done ++ chunk ++ rest) (hdone : done.length = total)
    (hn : n ≤ chunk.length) (hmoved : s'.moved = s.moved ++ (range' (org + total) n).zip chunk)
    (hpos : s'.pos = org + total + n) : Moved org ps (total + n) s₀ s' where
  le := by
    rw [hps, length_append, length_append]
    omega
  moved := by
    have hdrop : (ps.drop total).take n = chunk.take n := by
      rw [hps, append_assoc, ← hdone, drop_left, take_append_of_le_length hn]
    rw [hmoved, h.moved, append_assoc, zip_range'_take _ _ chunk, ← hdrop, zip_range'_take_add _ _ _ _ h.le]
  pos := .inl (by rw [hpos, Nat.add_assoc])

/-- A call that moves nothing may still set the position to where it would have begun. -/
lemma fail (h : Moved org ps total s₀ s) (hmoved : s'.moved = s.moved)
    (hpos : s'.pos = org + total ∨ s'.pos = s.pos) : Moved org ps total s₀ s' where
  le := h.le
  moved := hmoved.trans h.moved
  pos := by
    rcases hpos with hpos | hpos
    · exact .inl hpos
    · rw [hpos]
      exact h.pos

end Moved

/-! ### One buffer -/

/-- `next` is where a transfer that begins in the state would begin in the file. -/
structure Carried (next : IoState → ℕ) (org : ℕ) (ps : List Place) (total : ℕ) (s₀ s : IoState) : Prop
    extends Moved org ps total s₀ s where
  next : next s = org + total

/-- What a loop over the next places of `ps`, `chunk`, may come to. -/
def Outcome (next : IoState → ℕ) (org : ℕ) (ps chunk : List Place) (total : ℕ) (s₀ : IoState) :
    Ending × ℕ × IoState → Prop
  | (.done, total', s') => total' = total + chunk.length ∧ Carried next org ps total' s₀ s'
  | (.short, total', s') => Moved org ps total' s₀ s'
  | (.fault _, total', s') => Moved org ps total' s₀ s'

variable {chunk : List Place} {i iov len r : ℕ} {loop : List Iovec → IoState → Ending × ℕ × IoState}
  {next : IoState → ℕ} {vs : List Iovec}

lemma Outcome.of_rest {org total n : ℕ} {ps later : List Place} {s₀ : IoState}
    {r : Ending × ℕ × IoState} (h : Outcome next org ps later (total + n) s₀ r)
    (hlen : chunk.length = n + later.length) :
    Outcome next org ps chunk total s₀ r := by
  obtain ⟨ending, total', s'⟩ := r
  cases ending with
  | done => exact ⟨by rw [h.1, hlen, Nat.add_assoc], h.2⟩
  | short => exact h
  | fault e => exact h

section Buffer

variable {t : Target} {behave : Behaviour} {m : UserMemory} {org total n copied : ℕ} {ps done chunk rest : List Place}
  {s₀ s s' : IoState} {v : Iovec}

lemma Carried.write_ok (h : Carried t.writeStart org ps total s₀ s) (hps : ps = done ++ chunk ++ rest)
    (hdone : done.length = total) (hw : t.write behave chunk s = (.ok n, s')) :
    n ≤ chunk.length ∧ Carried t.writeStart org ps (total + n) s₀ s' := by
  rw [Target.write] at hw
  cases hb : behave s.calls with
  | error e =>
    rw [hb] at hw
    cases hw
  | ok k =>
    rw [hb] at hw
    obtain ⟨rfl, rfl⟩ := hw
    have hn : min k chunk.length ≤ chunk.length := Nat.min_le_right _ _
    refine ⟨hn, ⟨h.toMoved.add hps hdone hn (by rw [h.next]) (by rw [h.next]), ?_⟩⟩
    have hnext := h.next
    simp only [Target.writeStart] at hnext ⊢
    split
    · next ha =>
      rw [if_pos ha] at hnext
      split <;> omega
    · next ha =>
      rw [if_neg ha] at hnext
      omega

lemma Carried.write_error {e : SysErrNo} (h : Carried t.writeStart org ps total s₀ s)
    (hw : t.write behave chunk s = (.error e, s')) : Moved org ps total s₀ s' := by
  rw [Target.write] at hw
  cases hb : behave s.calls with
  | error e =>
    rw [hb] at hw
    obtain ⟨-, rfl⟩ := hw
    exact h.toMoved.fail rfl (.inl h.next)
  | ok k =>
    rw [hb] at hw
    cases hw

lemma copyFromUser_ok {start : ℕ} {buf : List Place} (h : copyFromUser m v i start n = .ok buf) :
    buf = span i start n := by
  rw [copyFromUser] at h
  split_ifs at h
  exact (ok.inj h).symm

lemma span_chunk (i : ℕ) (h : copied < len) :
    0 < min IO_CHUNK_SIZE (len - copied) ∧ min IO_CHUNK_SIZE (len - copied) ≤ len - copied ∧
      span i copied (len - copied) = span i copied (min IO_CHUNK_SIZE (len - copied)) ++
        span i (copied + min IO_CHUNK_SIZE (len - copied)) (len - (copied + min IO_CHUNK_SIZE (len - copied))) := by
  have hpos : 0 < IO_CHUNK_SIZE := by decide
  refine ⟨by omega, by omega, ?_⟩
  rw [← span_add]
  congr 1
  omega

lemma writeBuffer_outcome (fuel : ℕ) : ∀ {copied total : ℕ} {done : List Place} {s : IoState},
    v.len ≤ copied + fuel → ps = done ++ span i copied (v.len - copied) ++ rest → done.length = total →
    Carried t.writeStart org ps total s₀ s →
    Outcome t.writeStart org ps (span i copied (v.len - copied)) total s₀
      (writeBuffer t behave m v i fuel copied total s) := by
  induction fuel with
  | zero =>
    intro copied total done s hfuel hps hdone h
    have hlen : v.len - copied = 0 := by omega
    rw [hlen]
    exact ⟨rfl, h⟩
  | succ fuel ih =>
    intro copied total done s hfuel hps hdone h
    rw [writeBuffer]
    by_cases hmore : copied < v.len
    · obtain ⟨hpos, hle, hsplit⟩ := span_chunk i hmore
      rw [if_pos hmore]
      generalize min IO_CHUNK_SIZE (v.len - copied) = c at hpos hle hsplit
      dsimp only
      cases hcopy : copyFromUser m v i copied c with
      | error e => exact h.toMoved
      | ok buf =>
        obtain rfl := copyFromUser_ok hcopy
        have hps' : ps = done ++ span i copied c ++ (span i (copied + c) (v.len - (copied + c)) ++ rest) := by
          rw [hps, hsplit]
          simp only [append_assoc]
        dsimp only
        rcases hw : t.write behave (span i copied c) s with ⟨ret, s'⟩
        cases ret with
        | error e => exact h.write_error hw
        | ok n =>
          obtain ⟨hn, hcar⟩ := h.write_ok hps' hdone hw
          rw [length_span] at hn
          dsimp only
          by_cases hshort : n < c
          · rw [if_pos hshort]
            exact hcar.toMoved
          rw [if_neg hshort]
          obtain rfl : n = c := by omega
          have hout := ih (by omega) (hps'.trans (append_assoc _ _ _).symm)
            (by rw [length_append, length_span, hdone]) hcar
          exact hout.of_rest (by rw [hsplit, length_append, length_span])
    · have hlen : v.len - copied = 0 := by omega
      rw [if_neg hmore, hlen]
      exact ⟨rfl, h⟩

lemma canWrite_mono {a k : ℕ} (h : m.canWrite a n = true) (hk : k ≤ n) : m.canWrite a k = true := by
  simp only [UserMemory.canWrite, all_eq_true, mem_range] at h ⊢
  intro i hi
  exact h i (by omega)

lemma Carried.read_ok {data : List ℕ} (h : Carried IoState.pos org ps total s₀ s)
    (hps : ps = done ++ span i copied n ++ rest) (hdone : done.length = total)
    (hr : Target.read behave n s = (.ok data, s')) (hm : m.canWrite (v.base + copied) n = true) :
    data.length ≤ n ∧ ∃ s'', copyToUser m v i copied data s' = .ok s'' ∧
      Carried IoState.pos org ps (total + data.length) s₀ s'' := by
  rw [Target.read] at hr
  cases hb : behave s.calls with
  | error e =>
    rw [hb] at hr
    cases hr
  | ok k =>
    rw [hb] at hr
    obtain ⟨rfl, rfl⟩ := hr
    have hn : min k n ≤ n := Nat.min_le_right _ _
    rw [length_range']
    refine ⟨hn, ⟨s.pos + min k n, s.size, s.calls + 1,
      s.moved ++ (range' s.pos (min k n)).zip (span i copied (min k n))⟩, ?_, ?_⟩
    · rw [copyToUser, length_range', if_pos (canWrite_mono hm hn)]
    have hsplit : span i copied n = span i copied (min k n) ++ span i (copied + min k n) (n - min k n) := by
      rw [← span_add, Nat.add_sub_cancel' hn]
    have hps' : ps = done ++ span i copied (min k n) ++ (span i (copied + min k n) (n - min k n) ++ rest) := by
      rw [hps, hsplit]
      simp only [append_assoc]
    refine ⟨h.toMoved.add hps' hdone (by rw [length_span]) ?_ ?_, ?_⟩
    · rw [h.next]
    · rw [h.next]
    · rw [h.next, Nat.add_assoc]

lemma Moved.read (h : Moved org ps total s₀ s) {ret : Except SysErrNo (List ℕ)}
    (hr : Target.read behave n s = (ret, s')) (hret : ∀ data, ret = .ok data → data.length = 0) :
    Moved org ps total s₀ s' := by
  rw [Target.read] at hr
  cases hb : behave s.calls with
  | error e =>
    rw [hb] at hr
    cases hr
    exact h.fail rfl (.inr rfl)
  | ok k =>
    rw [hb] at hr
    cases hr
    have hzero := hret _ rfl
    rw [length_range'] at hzero
    refine h.fail rfl (.inr ?_)
    rw [hzero, Nat.add_zero]

lemma readBuffer_outcome (fuel : ℕ) : ∀ {copied total : ℕ} {done : List Place} {s : IoState},
    v.len ≤ copied + fuel → ps = done ++ span i copied (v.len - copied) ++ rest → done.length = total →
    Carried IoState.pos org ps total s₀ s →
    Outcome IoState.pos org ps (span i copied (v.len - copied)) total s₀
      (readBuffer behave m v i fuel copied total s) := by
  induction fuel with
  | zero =>
    intro copied total done s hfuel hps hdone h
    have hlen : v.len - copied = 0 := by omega
    rw [hlen]
    exact ⟨rfl, h⟩
  | succ fuel ih =>
    intro copied total done s hfuel hps hdone h
    rw [readBuffer]
    by_cases hmore : copied < v.len
    · obtain ⟨hpos, hle, hsplit⟩ := span_chunk i hmore
      rw [if_pos hmore]
      generalize min IO_CHUNK_SIZE (v.len - copied) = c at hpos hle hsplit
      by_cases hm : m.canWrite (v.base + copied) c = true
      · rw [if_pos hm]
        have hps' : ps = done ++ span i copied c ++ (span i (copied + c) (v.len - (copied + c)) ++ rest) := by
          rw [hps, hsplit]
          simp only [append_assoc]
        rcases hr : Target.read behave c s with ⟨ret, s'⟩
        cases ret with
        | error e => exact h.toMoved.read hr nofun
        | ok data =>
          dsimp only
          by_cases hzero : data.length = 0
          · rw [if_pos hzero]
            exact h.toMoved.read hr fun _ heq => ok.inj heq ▸ hzero
          obtain ⟨hn, s'', hcopy, hcar⟩ := h.read_ok hps' hdone hr hm
          rw [if_neg hzero, hcopy]
          dsimp only
          by_cases hshort : data.length < c
          · rw [if_pos hshort]
            exact hcar.toMoved
          rw [if_neg hshort]
          obtain rfl : data.length = c := by omega
          have hout := ih (by omega) (hps'.trans (append_assoc _ _ _).symm)
            (by rw [length_append, length_span, hdone]) hcar
          exact hout.of_rest (by rw [hsplit, length_append, length_span])
      · rw [if_neg hm]
        exact h.toMoved
    · have hlen : v.len - copied = 0 := by omega
      rw [if_neg hmore, hlen]
      exact ⟨rfl, h⟩

end Buffer

section Buffers

variable {next : IoState → ℕ} {org : ℕ} {ps : List Place} {s₀ : IoState}
  {body : Iovec → ℕ → ℕ → IoState → Ending × ℕ × IoState}

lemma eachBuffer_outcome (hbody : ∀ v i total done rest s, ps = done ++ span i 0 v.len ++ rest → done.length = total →
      Carried next org ps total s₀ s → Outcome next org ps (span i 0 v.len) total s₀ (body v i total s))
    (vs : List Iovec) : ∀ {i total : ℕ} {done : List Place} {s : IoState},
    ps = done ++ places i vs → done.length = total → Carried next org ps total s₀ s →
    Outcome next org ps (places i vs) total s₀ (eachBuffer body i vs total s) := by
  induction vs with
  | nil =>
    intro i total done s hps hdone h
    exact ⟨rfl, h⟩
  | cons v vs ih =>
    intro i total done s hps hdone h
    rw [places, ← append_assoc] at hps
    have hout := hbody v i total done _ s hps hdone h
    rw [eachBuffer]
    revert hout
    rcases body v i total s with ⟨ending, total', s'⟩
    cases ending with
    | done =>
      rintro ⟨rfl, hcar⟩
      have hlater := ih hps (by rw [length_append, hdone]) hcar
      exact hlater.of_rest (by rw [places, length_append])
    | short => exact id
    | fault e => exact id

lemma Outcome.finish {out : Ending × ℕ × IoState}
    (h : Outcome next org ps chunk 0 s₀ out) (hret : out.1.finish out.2.1 = .ok r) : Moved org ps r s₀ out.2.2 := by
  obtain ⟨ending, total, s'⟩ := out
  cases ending with
  | done =>
    cases hret
    exact h.2.toMoved
  | short =>
    cases hret
    exact h
  | fault e =>
    rw [Ending.finish] at hret
    split_ifs at hret
    cases hret
    exact h

end Buffers

section Calls

variable {t : Target} {behave : Behaviour} {m : UserMemory} {s : IoState}

lemma Carried.start (next : IoState → ℕ) (ps : List Place) (s : IoState) : Carried next (next s) ps 0 s s :=
  ⟨.refl _ _ _, rfl⟩

lemma writeBuffers_outcome (behave : Behaviour) (vs : List Iovec) (s : IoState) :
    Outcome t.writeStart (t.writeStart s) (places 0 vs) (places 0 vs) 0 s (writeBuffers t behave m vs s) := by
  refine eachBuffer_outcome ?_ vs (nil_append _).symm rfl (.start _ _ _)
  intro v i total done rest s' hps hdone h
  exact writeBuffer_outcome v.len (Nat.le_add_left _ _) hps hdone h

lemma writeBuffers_singleton (v : Iovec) : writeBuffers t behave m [v] s = writeBuffer t behave m v 0 v.len 0 0 s := by
  simp only [writeBuffers, eachBuffer]
  rcases writeBuffer t behave m v 0 v.len 0 0 s with ⟨ending, total, s'⟩
  cases ending <;> rfl

lemma readBuffers_outcome (vs : List Iovec) (s : IoState) :
    Outcome IoState.pos s.pos (places 0 vs) (places 0 vs) 0 s (readBuffers behave m vs s) := by
  refine eachBuffer_outcome ?_ vs (nil_append _).symm rfl (.start _ _ _)
  intro v i total done rest s' hps hdone h
  exact readBuffer_outcome v.len (Nat.le_add_left _ _) hps hdone h

lemma readIovecs_ok (n : ℕ) : ∀ {i total : ℕ} {vs : List Iovec},
    readIovecs m iov i total n = .ok vs → vs = iovecs m iov i n := by
  induction n with
  | zero =>
    intro i total vs h
    exact (ok.inj h).symm
  | succ n ih =>
    intro i total vs h
    obtain ⟨v, hv, h⟩ := bind_eq_ok.mp h
    obtain ⟨-, -, h⟩ := bind_eq_ok.mp h
    obtain ⟨-, -, h⟩ := bind_eq_ok.mp h
    obtain ⟨ws, hws, h⟩ := bind_eq_ok.mp h
    cases h
    rw [iovecs, hv, ih hws]
    rfl

lemma overIovecs_moved {n : ℕ}
    {s' : IoState} (hloop : ∀ vs s, Outcome next (next s) (places 0 vs) (places 0 vs) 0 s (loop vs s))
    (h : overIovecs m iov n loop s = (.ok r, s')) : Moved (next s) (places 0 (iovecs m iov 0 n)) r s s' := by
  rw [overIovecs] at h
  cases hvs : readIovecs m iov 0 0 n with
  | error e =>
    rw [hvs] at h
    cases h
  | ok vs =>
    rw [hvs] at h
    obtain ⟨hret, rfl⟩ := Prod.mk.inj h
    rw [← readIovecs_ok n hvs]
    exact (hloop vs s).finish hret

end Calls

namespace IoCall

/-- The call has moved the first `r` bytes of its buffers, to or from consecutive offsets of the file; a call at an
offset leaves the position as it was, another one leaves it behind the bytes if it moves it at all. -/
structure Lawful (t : Target) (m : UserMemory) (c : IoCall) (r : ℕ) (s s' : IoState) : Prop where
  le : r ≤ (places 0 (c.buffers m)).length
  moved : s'.moved = s.moved ++ (range' (c.start t s) r).zip ((places 0 (c.buffers m)).take r)
  pos : s'.pos = s.pos ∧ (r = 0 ∨ c.offset.isSome) ∨ c.offset = none ∧ s'.pos = c.start t s + r

variable {t : Target} {behave : Behaviour} {m : UserMemory} {limit : Option ℕ} {c : IoCall} {r : ℕ} {s s' : IoState}

lemma Lawful.of_moved (hoff : c.offset = none) (h : Moved (c.start t s) (places 0 (c.buffers m)) r s s') :
    c.Lawful t m r s s' where
  le := h.le
  moved := h.moved
  pos := by
    rcases h.pos with hp | ⟨hr, hp⟩
    · exact .inr ⟨hoff, hp⟩
    · exact .inl ⟨hp, .inl hr⟩

lemma Lawful.none (t : Target) (m : UserMemory) (c : IoCall) (s : IoState) : c.Lawful t m 0 s s where
  le := Nat.zero_le _
  moved := by simp
  pos := .inl ⟨rfl, .inl rfl⟩

lemma lawful_write {buf : ℕ} (h : (write buf len).run t behave m limit s = (.ok r, s')) :
    (write buf len).Lawful t m r s s' := by
  simp only [run, sysWrite] at h
  split at h
  · obtain ⟨hret, rfl⟩ := Prod.mk.inj h
    cases hret
    exact .none _ _ _ _
  split at h
  · cases h
  split at h
  · cases h
  · obtain ⟨hret, rfl⟩ := Prod.mk.inj h
    have hout := writeBuffers_outcome (t := t) (m := m) behave [⟨buf, len⟩] s
    rw [writeBuffers_singleton] at hout
    exact .of_moved rfl (hout.finish hret)

variable {iov n : ℕ}

lemma lawful_readv (h : (readv iov n).run t behave m limit s = (.ok r, s')) : (readv iov n).Lawful t m r s s' := by
  simp only [run, sysReadv] at h
  cases hvs : readvTarget t m iov n with
  | error e =>
    rw [hvs] at h
    cases h
  | ok vs =>
    rw [hvs] at h
    have hbuf : vs = iovecs m iov 0 n := by
      obtain ⟨-, -, hrest⟩ := bind_eq_ok.mp hvs
      by_cases hn : n = 0
      · subst hn
        exact (ok.inj hrest).symm
      · rw [if_neg hn] at hrest
        obtain ⟨-, -, hrest⟩ := bind_eq_ok.mp hrest
        obtain ⟨-, -, hrest⟩ := bind_eq_ok.mp hrest
        exact readIovecs_ok n hrest
    obtain ⟨hret, rfl⟩ := Prod.mk.inj h
    exact .of_moved rfl (hbuf ▸ (readBuffers_outcome vs s).finish hret)

variable {flags : BitVec 32} {low high : BitVec 64}

lemma lawful_positioned (next : IoState → ℕ) {allowed : Except SysErrNo Unit} (hbuf : c.buffers m = iovecs m iov 0 n)
    (hoff : c.offset = (validatePreadv2Offset low high).toOption.join)
    (hstart : ∀ s, c.start t s = next { s with pos := c.offset.getD s.pos })
    (hloop : ∀ vs s, Outcome next (next s) (places 0 vs) (places 0 vs) 0 s (loop vs s))
    (h : positioned t m iov n low high flags allowed loop s = (.ok r, s')) : c.Lawful t m r s s' := by
  rw [positioned] at h
  split at h
  · cases h
  split at h
  · obtain ⟨hret, rfl⟩ := Prod.mk.inj h
    cases hret
    exact .none _ _ _ _
  cases hcheck : checkPositioned t low high flags allowed s with
  | error e =>
    rw [hcheck] at h
    cases h
  | ok offset =>
    rw [hcheck] at h
    have hoffset : c.offset = offset := by
      obtain ⟨-, -, hcheck⟩ := bind_eq_ok.mp hcheck
      obtain ⟨o, ho, hcheck⟩ := bind_eq_ok.mp hcheck
      obtain ⟨-, -, hcheck⟩ := bind_eq_ok.mp hcheck
      obtain ⟨-, -, hcheck⟩ := bind_eq_ok.mp hcheck
      rw [hoff, ho, ← ok.inj hcheck]
      rfl
    have hst := hstart s
    rw [hoffset] at hst
    cases offset with
    | none =>
      refine .of_moved hoffset ?_
      rw [hst, hbuf]
      exact overIovecs_moved hloop h
    | some o =>
      obtain ⟨hret, rfl⟩ := Prod.mk.inj h
      have hm : Moved _ _ r { s with pos := o } (overIovecs m iov n loop { s with pos := o }).2 :=
        overIovecs_moved hloop (Prod.ext hret rfl)
      rw [← hbuf] at hm
      refine ⟨hm.le, ?_, .inl ⟨rfl, .inr (by rw [hoffset]; rfl)⟩⟩
      rw [hst]
      exact hm.moved

lemma lawful_pwritev2 (h : (pwritev2 iov n low high flags).run t behave m limit s = (.ok r, s')) :
    (pwritev2 iov n low high flags).Lawful t m r s s' :=
  lawful_positioned t.writeStart rfl rfl
    (fun _ => by cases ha : t.append <;> simp [start, writes, Target.writeStart]) (writeBuffers_outcome behave) h

lemma lawful_preadv2 (h : (preadv2 iov n low high flags).run t behave m limit s = (.ok r, s')) :
    (preadv2 iov n low high flags).Lawful t m r s s' :=
  lawful_positioned IoState.pos rfl rfl (fun _ => rfl) readBuffers_outcome h

end IoCall

/-! ### The joined buffer of `sys_writev` -/

def heads : ℕ → List Iovec → List Place
  | _, [] => []
  | i, v :: vs => span i 0 (min IO_CHUNK_SIZE v.len) ++ heads (i + 1) vs

/-- Behind an iovec of more than one chunk there are only empty ones. -/
def Fits : List Iovec → Prop
  | [] => True
  | v :: vs => (v.len ≤ IO_CHUNK_SIZE ∨ ∀ w ∈ vs, w.len = 0) ∧ Fits vs

instance decidableFits : (vs : List Iovec) → Decidable (Fits vs)
  | [] => inferInstanceAs (Decidable True)
  | _ :: vs => @instDecidableAnd _ _ inferInstance (decidableFits vs)

lemma gather_ok {m : UserMemory} (n : ℕ) : ∀ {i : ℕ} {buf : List Place},
    gather m iov i n = .ok buf → buf = heads i (iovecs m iov i n) := by
  induction n with
  | zero =>
    intro i buf h
    exact (ok.inj h).symm
  | succ n ih =>
    intro i buf h
    obtain ⟨v, hv, h⟩ := bind_eq_ok.mp h
    obtain ⟨-, -, h⟩ := bind_eq_ok.mp h
    obtain ⟨here, hhere, h⟩ := bind_eq_ok.mp h
    obtain ⟨rest, hrest, h⟩ := bind_eq_ok.mp h
    cases h
    have hspan : here = span i 0 (min IO_CHUNK_SIZE v.len) := by
      rw [copyHead] at hhere
      split at hhere
      · next hzero =>
        rw [hzero]
        exact (ok.inj hhere).symm
      · exact copyFromUser_ok hhere
    rw [iovecs, hv, hspan, ih hrest]
    rfl

lemma heads_eq_nil (h : ∀ w ∈ vs, w.len = 0) : heads i vs = [] := by
  induction vs generalizing i with
  | nil => rfl
  | cons v vs ih =>
    rw [heads, h v mem_cons_self, ih fun w hw => h w (mem_cons_of_mem _ hw)]
    rfl

lemma heads_head (i : ℕ) (vs : List Iovec) : (∀ w ∈ vs, w.len = 0) ∨ ∃ j rest, i ≤ j ∧ heads i vs = ⟨j, 0⟩ :: rest := by
  induction vs generalizing i with
  | nil => exact .inl nofun
  | cons v vs ih =>
    by_cases hv : v.len = 0
    · rcases ih (i + 1) with hz | ⟨j, rest, hj, hrest⟩
      · refine .inl fun w hw => ?_
        rcases mem_cons.mp hw with rfl | hw
        · exact hv
        · exact hz w hw
      · refine .inr ⟨j, rest, by omega, ?_⟩
        rw [heads, hv, hrest]
        rfl
    · have hpos : 0 < min IO_CHUNK_SIZE v.len := by
        have : 0 < IO_CHUNK_SIZE := by decide
        omega
      obtain ⟨k, hk⟩ := Nat.exists_eq_succ_of_ne_zero hpos.ne'
      exact .inr ⟨i, _, le_rfl, by rw [heads, hk]; rfl⟩

lemma heads_prefix_iff : heads i vs <+: places i vs ↔ Fits vs := by
  induction vs generalizing i with
  | nil => exact ⟨fun _ => trivial, fun _ => prefix_rfl⟩
  | cons v vs ih =>
    rw [heads, places]
    by_cases hv : v.len ≤ IO_CHUNK_SIZE
    · rw [Nat.min_eq_right hv, prefix_append_right_inj, ih]
      exact ⟨fun h => ⟨.inl hv, h⟩, fun h => h.2⟩
    have hsplit : span i 0 v.len = span i 0 IO_CHUNK_SIZE ++ span i IO_CHUNK_SIZE (v.len - IO_CHUNK_SIZE) := by
      have := span_add i 0 IO_CHUNK_SIZE (v.len - IO_CHUNK_SIZE)
      rwa [Nat.add_sub_cancel' (by omega), Nat.zero_add] at this
    rw [Nat.min_eq_left (by omega), hsplit, append_assoc, prefix_append_right_inj]
    constructor
    · intro h
      -- a byte of a later buffer would have to be the first one that was left out of this buffer
      have hz : ∀ w ∈ vs, w.len = 0 := by
        rcases heads_head (i + 1) vs with hz | ⟨j, rest, hj, hrest⟩
        · exact hz
        obtain ⟨k, hk⟩ := Nat.exists_eq_succ_of_ne_zero (show v.len - IO_CHUNK_SIZE ≠ 0 by omega)
        rw [hrest, hk, span, range'_succ, map_cons, cons_append, cons_prefix_cons] at h
        have := congrArg Place.index h.1
        dsimp only at this
        omega
      refine ⟨.inr hz, ih (i := i + 1) |>.mp ?_⟩
      rw [heads_eq_nil hz]
      exact nil_prefix
    · rintro ⟨hz | hz, -⟩
      · exact absurd hz hv
      · rw [heads_eq_nil hz]
        exact nil_prefix

namespace IoCall

variable {t : Target} {behave : Behaviour} {m : UserMemory} {limit : Option ℕ} {r iov n : ℕ} {s s' : IoState}

variable {buf : List Place}

lemma writevSource_ok (h : writevSource t m limit iov n s = .ok buf) : buf = heads 0 (iovecs m iov 0 n) := by
  obtain ⟨-, -, h⟩ := bind_eq_ok.mp h
  obtain ⟨-, -, h⟩ := bind_eq_ok.mp h
  by_cases hn : n = 0
  · subst hn
    exact (ok.inj h).symm
  · rw [if_neg hn] at h
    obtain ⟨-, -, h⟩ := bind_eq_ok.mp h
    exact gather_ok n h

lemma lawful_writev (hfits : ∀ buf, writevSource t m limit iov n s = .ok buf → Fits (iovecs m iov 0 n))
    (h : (writev iov n).run t behave m limit s = (.ok r, s')) : (writev iov n).Lawful t m r s s' := by
  simp only [run, sysWritev] at h
  cases hbuf : writevSource t m limit iov n s with
  | error e =>
    rw [hbuf] at h
    cases h
  | ok buf =>
    rw [hbuf] at h
    dsimp only at h
    split at h
    · obtain ⟨hret, rfl⟩ := Prod.mk.inj h
      cases hret
      exact .none _ _ _ _
    obtain ⟨rest, hrest⟩ := heads_prefix_iff.mpr (hfits buf hbuf)
    have hps : places 0 (iovecs m iov 0 n) = [] ++ buf ++ rest := by
      rw [writevSource_ok hbuf]
      exact hrest.symm
    obtain ⟨-, hcar⟩ := (Carried.start t.writeStart (places 0 (iovecs m iov 0 n)) s).write_ok hps rfl h
    rw [Nat.zero_add] at hcar
    exact .of_moved rfl hcar.toMoved

/-- A file that takes all it is given shows what the joined buffer leaves out. -/
lemma exists_run_writev (hbuf : writevSource t m limit iov n s = .ok buf) (hlen : buf.length ≠ 0) :
    ∃ s', (writev iov n).run t (fun _ => .ok buf.length) m limit s = (.ok buf.length, s') ∧
      ((writev iov n).Lawful t m buf.length s s' → Fits (iovecs m iov 0 n)) := by
  simp only [run, sysWritev, hbuf, if_neg hlen, Target.write, Nat.min_self]
  refine ⟨_, rfl, fun hlaw => heads_prefix_iff (i := 0).mp ?_⟩
  have hsnd := congrArg (map Prod.snd) (append_cancel_left hlaw.moved)
  rw [map_snd_zip (by rw [length_range']),
    map_snd_zip (by rw [length_range', length_take]; exact Nat.min_le_left _ _)] at hsnd
  rw [← writevSource_ok hbuf, hsnd]
  exact take_prefix _ _

lemma fits_of_lawful (hbuf : writevSource t m limit iov n s = .ok buf)
    (h : ∀ behave r s', (writev iov n).run t behave m limit s = (.ok r, s') → (writev iov n).Lawful t m r s s') :
    Fits (iovecs m iov 0 n) := by
  by_cases hlen : buf.length = 0
  · apply heads_prefix_iff.mp
    rw [← writevSource_ok hbuf, length_eq_zero_iff.mp hlen]
    exact nil_prefix
  · obtain ⟨s', hrun, hfits⟩ := exists_run_writev hbuf hlen
    exact hfits (h _ _ s' hrun)

/-- A call keeps the prefix law, whatever the file does at each step, exactly if it is not a `writev` that gets as far
as its write with an iovec of more than one chunk before a non-empty one. -/
theorem lawful_iff_fits (t : Target) (m : UserMemory) (limit : Option ℕ) (c : IoCall) :
    (∀ behave s r s', c.run t behave m limit s = (.ok r, s') → c.Lawful t m r s s') ↔
      ∀ iov n s buf, c = writev iov n → writevSource t m limit iov n s = .ok buf → Fits (iovecs m iov 0 n) := by
  constructor
  · rintro h iov n s buf rfl hbuf
    exact fits_of_lawful hbuf fun behave r s' => h behave s r s'
  intro h behave s r s' hrun
  cases c with
  | write buf len => exact lawful_write hrun
  | writev iov n => exact lawful_writev (fun buf => h iov n s buf rfl) hrun
  | readv iov n => exact lawful_readv hrun
  | pwritev2 iov n low high flags => exact lawful_pwritev2 hrun
  | preadv2 iov n low high flags => exact lawful_preadv2 hrun

lemma copyHead_of_readable (hm : ∀ a, (m.byte a).isSome) (v : Iovec) (i : ℕ) :
    copyHead m v i = .ok (span i 0 (min IO_CHUNK_SIZE v.len)) := by
  rw [copyHead]
  split
  · next h =>
    rw [h]
    rfl
  · rw [copyFromUser, if_pos]
    exact all_eq_true.mpr fun j _ => hm _

/-- An array of two iovecs at address 0, of 70000 bytes and of one byte. -/
def longThenShort : UserMemory where
  byte a := some ([0, 0x10, 0, 0, 0, 0, 0, 0, 0x70, 0x11, 1, 0, 0, 0, 0, 0,
    0, 0, 2, 0, 0, 0, 0, 0, 1, 0, 0, 0, 0, 0, 0, 0].getD a 0)
  writable _ := true

def regularFile : Target where
  readable := true
  writable := true
  allowsWrite := true
  pathOnly := false
  isDir := false
  seekable := true
  append := false

lemma writevSource_longThenShort (s : IoState) :
    writevSource regularFile longThenShort none 0 2 s = .ok (heads 0 [⟨0x1000, 70000⟩, ⟨0x20000, 1⟩]) := by
  have hcopy := copyHead_of_readable (m := longThenShort) fun _ => rfl
  have h0 : readIovec longThenShort 0 0 = .ok ⟨0x1000, 70000⟩ := by rfl
  have h1 : readIovec longThenShort 0 1 = .ok ⟨0x20000, 1⟩ := by rfl
  have hsecond : gather longThenShort 0 1 1 = .ok (heads 1 [⟨0x20000, 1⟩]) :=
    bind_eq_ok.mpr ⟨_, h1, bind_eq_ok.mpr ⟨(), rfl, bind_eq_ok.mpr ⟨_, hcopy _ _, rfl⟩⟩⟩
  have hgather : gather longThenShort 0 0 2 = .ok (heads 0 [⟨0x1000, 70000⟩, ⟨0x20000, 1⟩]) :=
    bind_eq_ok.mpr ⟨_, h0, bind_eq_ok.mpr ⟨(), rfl, bind_eq_ok.mpr ⟨_, hcopy _ _, bind_eq_ok.mpr ⟨_, hsecond, rfl⟩⟩⟩⟩
  refine bind_eq_ok.mpr ⟨(), rfl, bind_eq_ok.mpr ⟨(), rfl, ?_⟩⟩
  exact bind_eq_ok.mpr ⟨(), rfl, hgather⟩

/-- The file takes the 65537 bytes it is given, the last of which stands 4464 bytes further on in the buffers. -/
theorem writev_skips_bytes : ∃ s',
    (writev 0 2).run regularFile (fun _ => .ok 65537) longThenShort none ⟨0, 0, 0, []⟩ = (.ok 65537, s') ∧
      ¬(writev 0 2).Lawful regularFile longThenShort 65537 ⟨0, 0, 0, []⟩ s' := by
  have hbuf := writevSource_longThenShort ⟨0, 0, 0, []⟩
  have hlen : (heads 0 [⟨0x1000, 70000⟩, ⟨0x20000, 1⟩]).length = 65537 := by
    simp only [heads, length_append, length_span, length_nil]
    decide
  obtain ⟨s', hrun, hfits⟩ := exists_run_writev hbuf (by rw [hlen]; decide)
  rw [hlen] at hrun hfits
  refine ⟨s', hrun, fun hlaw => absurd (hfits hlaw) ?_⟩
  decide

end IoCall

end Ya2yOS.Fs
