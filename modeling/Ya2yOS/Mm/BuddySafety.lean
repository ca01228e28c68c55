import Ya2yOS.Mm.BuddyHeap

/-!
# Safety of the buddy heap

Counting for each address the blocks that cover it shows that blocks stay disjoint; adding up their sizes gives the
bytes of the heap.
-/

namespace Ya2yOS.Mm.Buddy

open Function Lib List
open List (map_cons sum_cons mem_cons map_map mem_map mem_cons_self mem_cons_of_mem)
open Option (map_eq_some_iff map_some toList_some)

variable {k n start stop : ℕ} {l : List ℕ}

lemma lowbit_two_pow (h : k < usizeBits) : lowbit usizeBits (2 ^ k) = 2 ^ k := by
  have heq := lowbit_eq rfl (by rw [mul_one]; exact Nat.pow_lt_pow_right (by omega) h)
  rwa [mul_one] at heq

lemma trailingZeros_two_pow (h : k < usizeBits) : trailingZeros (2 ^ k) = k := by
  unfold trailingZeros
  rw [lowbit_two_pow h, Nat.log2_two_pow]

lemma nextPowerOfTwo_eq (h : n ≤ 2 ^ 63) : ∃ k, nextPowerOfTwo n = 2 ^ k ∧ k ≤ 63 := by
  unfold nextPowerOfTwo
  split_ifs with hn
  · exact ⟨0, rfl, by omega⟩
  · refine ⟨_, rfl, ?_⟩
    have hlt : (n - 1).log2 < 63 := (Nat.log2_lt (by omega)).2 (by omega)
    omega

lemma Layout.blockSize_eq (l : Layout) :
    l.blockSize = 2 ^ l.sizeClass ∧ 3 ≤ l.sizeClass ∧ l.align ∣ 2 ^ l.sizeClass := by
  have hle := l.size_le
  obtain ⟨k, hk, hk63⟩ := nextPowerOfTwo_eq (n := l.size) (by omega)
  have halign : l.align.log2 ≤ 63 := by
    have hpos : 0 < l.align := by
      rw [l.align_pow]
      exact Nat.two_pow_pos _
    have : l.align.log2 < 64 := (Nat.log2_lt hpos.ne').2 (by omega)
    omega
  have hsize : l.blockSize = 2 ^ max k (max l.align.log2 3) := by
    unfold blockSize wordSize
    have hmono : Monotone fun k => 2 ^ k := pow_right_mono₀ one_le_two
    rw [hk, show (8 : ℕ) = 2 ^ 3 from rfl, hmono.map_max, hmono.map_max, ← l.align_pow]
  have hclass : l.sizeClass = max k (max l.align.log2 3) := by
    unfold sizeClass
    rw [hsize]
    apply trailingZeros_two_pow
    unfold usizeBits
    omega
  refine ⟨by rw [hclass]; exact hsize, by omega, ?_⟩
  rw [hclass, l.align_pow]
  exact Nat.pow_dvd_pow 2 (by rw [← l.align_pow]; omega)

lemma sum_map_update {α : Type*} (f : ℕ → α) (g : ℕ → α → ℕ) (c : ℕ) (x : α) (hl : l.Nodup) (hc : c ∈ l) :
    (l.map fun i => g i (update f c x i)).sum + g c (f c) = (l.map fun i => g i (f i)).sum + g c x := by
  induction l with
  | nil => cases hc
  | cons i l ih =>
    obtain ⟨hi, hl⟩ := nodup_cons.1 hl
    simp only [map_cons, sum_cons]
    by_cases hic : i = c
    · subst hic
      have hsame : (l.map fun j => g j (update f i x j)) = l.map fun j => g j (f j) := by
        apply map_congr_left
        intro j hj
        rw [update_of_ne]
        rintro rfl
        exact hi hj
      rw [hsame, update_self]
      omega
    · have hmem : c ∈ l := by
        rcases mem_cons.1 hc with h | h
        · exact absurd h.symm hic
        · exact h
      have := ih hl hmem
      rw [update_of_ne hic]
      omega

def listWeight (w : Block → ℕ) (c : ℕ) (l : List ℕ) : ℕ := (l.map fun p => w ⟨p, c⟩).sum

namespace FreeLists

def blocks (fl : FreeLists) : List Block := (range maxOrder).flatMap fun c => (fl c).map fun p => ⟨p, c⟩

def weight (w : Block → ℕ) (fl : FreeLists) : ℕ := ((range maxOrder).map fun c => listWeight w c (fl c)).sum

variable {fl fl' : FreeLists} {w : Block → ℕ} {c p buddy ptr : ℕ} {rest : List ℕ}

lemma sum_blocks (w : Block → ℕ) (fl : FreeLists) : (fl.blocks.map w).sum = fl.weight w := by
  unfold blocks weight
  induction range maxOrder with
  | nil => rfl
  | cons c l ih =>
    rw [flatMap_cons, map_append, sum_append, ih, map_map]
    rfl

lemma weight_empty (w : Block → ℕ) : weight w (fun _ => []) = 0 := by
  unfold weight
  rw [sum_eq_zero_iff]
  intro n hn
  obtain ⟨c, -, rfl⟩ := mem_map.1 hn
  rfl

lemma weight_update (w : Block → ℕ) (fl : FreeLists) (hc : c < maxOrder) (l : List ℕ) :
    weight w (update fl c l) + listWeight w c (fl c) = fl.weight w + listWeight w c l :=
  sum_map_update fl (listWeight w) c l nodup_range (mem_range.2 hc)

lemma weight_push (hc : c < maxOrder) (p : ℕ) : (fl.push c p).weight w = fl.weight w + w ⟨p, c⟩ := by
  have h := weight_update w fl hc (p :: fl c)
  unfold push
  simp only [listWeight, map_cons, sum_cons] at h
  omega

structure Fits (p c : ℕ) : Prop where
  word : 3 ≤ c
  order : c < maxOrder
  aligned : 2 ^ c ∣ p
  pos : 0 < p
  inside : p + 2 ^ c ≤ 2 ^ usizeBits

def Good (fl : FreeLists) : Prop := ∀ c, ∀ p ∈ fl c, Fits p c

lemma Good.update (h : fl.Good) (hl : ∀ p ∈ l, Fits p c) : Good (update fl c l) := by
  intro c' p hp
  by_cases hc : c' = c
  · subst hc
    rw [update_self] at hp
    exact hl p hp
  · rw [update_of_ne hc] at hp
    exact h c' p hp

lemma Good.push (h : fl.Good) (hp : Fits p c) : (fl.push c p).Good := by
  apply h.update
  intro q hq
  rcases mem_cons.1 hq with rfl | hq
  · exact hp
  · exact h c q hq

lemma Good.cons (h : fl.Good) (hfl : fl c = p :: l) : Fits p c ∧ ∀ q ∈ l, Fits q c :=
  forall_mem_cons.1 (hfl ▸ h c)

/-- What an operation leaves of the free lists: good blocks of the same weights. -/
structure Conserves (fl fl' : FreeLists) : Prop where
  good : fl'.Good
  weight : ∀ w, Splits w → fl'.weight w = fl.weight w

lemma Conserves.trans {fl'' : FreeLists} (h : Conserves fl fl') (h' : Conserves fl' fl'') : Conserves fl fl'' :=
  ⟨h'.good, fun w hw => (h'.weight w hw).trans (h.weight w hw)⟩

lemma Fits.halves (h : Fits p (c + 1)) (hc : 3 ≤ c) : Fits p c ∧ Fits (p + 2 ^ c) c := by
  have hpow : 2 ^ (c + 1) = 2 ^ c + 2 ^ c := by omega
  have horder := h.order
  have hpos := h.pos
  have hinside := h.inside
  have hdvd : 2 ^ c ∣ p := (Nat.pow_dvd_pow 2 (Nat.le_succ c)).trans h.aligned
  constructor
  · exact ⟨hc, by omega, hdvd, hpos, by omega⟩
  · exact ⟨hc, by omega, (Nat.dvd_add_right hdvd).2 (Nat.dvd_refl _), by omega, by omega⟩

lemma conserves_halve (h : fl.Good) (hc : 3 ≤ c) {block : ℕ} (hfl : fl (c + 1) = block :: rest) :
    Conserves fl ((push (update fl (c + 1) rest) c (block + 2 ^ c)).push c block) := by
  obtain ⟨hfits, hrest⟩ := h.cons hfl
  have horder : c + 1 < maxOrder := hfits.order
  obtain ⟨hleft, hright⟩ := hfits.halves hc
  constructor
  · apply Good.push _ hleft
    exact (h.update hrest).push hright
  · intro w hw
    have hupdate := weight_update w fl horder rest
    rw [hfl] at hupdate
    simp only [listWeight, map_cons, sum_cons] at hupdate
    rw [weight_push (by omega), weight_push (by omega)]
    have := hw block c
    omega

lemma split_spec {d : ℕ} (h : fl.Good) (hc : 3 ≤ c) (hne : fl (c + d) ≠ []) :
    ∃ fl', split c d fl = .ok fl' ∧ Conserves fl fl' ∧ fl' c ≠ [] := by
  induction d generalizing fl with
  | zero => exact ⟨fl, rfl, ⟨h, fun _ _ => rfl⟩, hne⟩
  | succ d ih =>
    cases hfl : fl (c + d + 1) with
    | nil => exact absurd hfl hne
    | cons block rest =>
      have hstep := conserves_halve h (by omega : 3 ≤ c + d) hfl
      obtain ⟨fl', hsplit, hcons, hne'⟩ := ih hstep.good (by
        unfold push
        rw [update_self]
        exact cons_ne_nil _ _)
      refine ⟨fl', ?_, hstep.trans hcons, hne'⟩
      rw [split, hfl]
      exact hsplit

lemma unlink_spec (h : unlink buddy l = some rest) : l.Perm (buddy :: rest) := by
  induction l generalizing rest with
  | nil => cases h
  | cons block l ih =>
    unfold unlink at h
    split_ifs at h with hb
    · cases h
      rw [hb]
    · obtain ⟨rest', hrest, rfl⟩ := map_eq_some_iff.1 h
      exact ((ih hrest).cons block).trans (.swap _ _ _)

lemma unlink_cons {p : ℕ} (hp : p ≠ buddy) (h : unlink buddy (p :: l) = some rest) :
    ∃ rest', rest = p :: rest' ∧ l.Perm (buddy :: rest') := by
  unfold unlink at h
  rw [if_neg hp] at h
  obtain ⟨rest', hrest, rfl⟩ := map_eq_some_iff.1 h
  exact ⟨rest', rfl, unlink_spec hrest⟩

lemma unlink_of_unlinkWithin {budget : ℕ} (h : (unlinkWithin buddy budget l).1 = some rest) :
    unlink buddy l = some rest := by
  induction l generalizing budget rest with
  | nil =>
    unfold unlinkWithin at h
    cases h
  | cons block l ih =>
    cases budget with
    | zero => cases h
    | succ budget =>
      unfold unlinkWithin at h
      unfold unlink
      split_ifs at h ⊢ with hb
      · exact h
      · obtain ⟨rest', hrest, rfl⟩ := map_eq_some_iff.1 h
        rw [ih hrest]
        rfl

/-- One round of the loop takes the block at the head and its buddy, and puts the block of both one class up. -/
lemma conserves_join (h : fl.Good) {rest' : List ℕ} (hc : c + 1 < maxOrder) (hfl : fl c = p :: rest)
    (hperm : rest.Perm ((p ^^^ 2 ^ c) :: rest')) :
    Conserves fl (push (update fl c rest') (c + 1) (min p (p ^^^ 2 ^ c))) := by
  obtain ⟨hfits, hrest⟩ := h.cons hfl
  obtain ⟨hbuddy, hrest'⟩ := forall_mem_cons.1 fun q hq => hrest q (hperm.symm.subset hq)
  constructor
  · apply Good.push (h.update hrest')
    refine ⟨by have := hfits.word; omega, hc, (splits_size.merge hfits.aligned).2, ?_, ?_⟩
    · have := hfits.pos
      have := hbuddy.pos
      omega
    -- the upper one of the two ends where the block of both ends
    have hpow : 2 ^ (c + 1) = 2 ^ c + 2 ^ c := by omega
    have h1 := hfits.inside
    have h2 := hbuddy.inside
    rcases buddy_cases hfits.aligned with ⟨-, heq⟩ | ⟨q, hp, -, heq⟩
    · omega
    · omega
  · intro w hw
    have hupdate := weight_update w fl (by omega : c < maxOrder) rest'
    have hsum := (hperm.map fun p => w ⟨p, c⟩).sum_eq
    rw [hfl] at hupdate
    simp only [listWeight, map_cons, sum_cons] at hupdate hsum
    rw [weight_push hc, (hw.merge hfits.aligned).1]
    omega

lemma push_head (fl : FreeLists) (c p : ℕ) : fl.push c p c = p :: fl c := update_self _ _ _

lemma merge_spec (h : fl.Good) (hc : c + n < maxOrder) (hfl : fl c = ptr :: rest) :
    Conserves fl (merge n fl ptr c) := by
  induction n generalizing fl ptr c rest with
  | zero => exact ⟨h, fun _ _ => rfl⟩
  | succ n ih =>
    unfold merge
    cases hunlink : unlink (ptr ^^^ 2 ^ c) (fl c) with
    | none => exact ⟨h, fun _ _ => rfl⟩
    | some rest' =>
      rw [hfl] at hunlink
      obtain ⟨rest'', rfl, hperm⟩ := unlink_cons (buddy_ne (h.cons hfl).1.aligned).symm hunlink
      have hstep := conserves_join h (by omega) hfl hperm
      exact hstep.trans (ih hstep.good (by omega) (push_head _ _ _))

lemma mergeWithin_spec (remaining : ℕ) (h : fl.Good) (hc : c + n < maxOrder)
    (hfl : fl c = ptr :: rest) : ∃ fl', mergeWithin n fl ptr c remaining = some fl' ∧ Conserves fl fl' := by
  induction n generalizing fl ptr c rest remaining with
  | zero => exact ⟨fl, rfl, h, fun _ _ => rfl⟩
  | succ n ih =>
    unfold mergeWithin
    split_ifs
    · exact ⟨fl, rfl, h, fun _ _ => rfl⟩
    rcases hunlink : unlinkWithin (ptr ^^^ 2 ^ c) remaining (fl c) with ⟨found, left⟩
    cases found with
    | none => exact ⟨fl, rfl, h, fun _ _ => rfl⟩
    | some rest' =>
      have hfound := unlink_of_unlinkWithin (congrArg Prod.fst hunlink)
      rw [hfl] at hfound
      -- the released block still heads its list
      obtain ⟨rest'', rfl, hperm⟩ := unlink_cons (buddy_ne (h.cons hfl).1.aligned).symm hfound
      have hstep := conserves_join h (by omega) hfl hperm
      obtain ⟨fl', hmerge, hcons⟩ := ih left hstep.good (by omega) (push_head _ _ _)
      exact ⟨fl', hmerge, hstep.trans hcons⟩

/-- The next block of a region: as large as its alignment and the rest of the region allow. -/
lemma addBlocks_block (hpos : 0 < start) (hword : wordSize ∣ start) (hle : start + wordSize ≤ stop)
    (hstop : stop < 2 ^ usizeBits) :
    ∃ c, min (lowbit usizeBits start) (prevPowerOfTwo (stop - start)) = 2 ^ c ∧ trailingZeros (2 ^ c) = c ∧
      3 ≤ c ∧ 2 ^ c ∣ start ∧ start + 2 ^ c ≤ stop := by
  unfold wordSize at *
  have hlog : 2 ^ (stop - start).log2 ≤ stop - start := Nat.log2_self_le (by omega)
  have hlog3 : 3 ≤ (stop - start).log2 := (Nat.le_log2 (by omega)).2 (by omega)
  obtain ⟨k, m, hm, hstart⟩ := Nat.exists_eq_two_pow_mul_odd hpos.ne'
  have hlow : lowbit usizeBits start = 2 ^ k := by
    have hlt : 2 ^ k * m < 2 ^ usizeBits := by
      omega
    rw [hstart]
    exact lowbit_eq (Nat.odd_iff.1 hm) hlt
  have hk3 : 3 ≤ k := by
    -- an odd factor leaves all the twos of a word to the power
    have hcop : Nat.Coprime (2 ^ 3) m := Nat.Coprime.pow_left 3 (Nat.coprime_two_left.2 hm)
    have hdvd : 2 ^ 3 ∣ 2 ^ k := hcop.dvd_of_dvd_mul_right (hstart ▸ hword)
    exact (Nat.pow_dvd_pow_iff_le_right (by omega)).1 hdvd
  have hk : k < usizeBits := by
    have hdvd : 2 ^ k ∣ start := hstart ▸ Nat.dvd_mul_right _ _
    have hkle := Nat.le_of_dvd hpos hdvd
    exact (Nat.pow_lt_pow_iff_right (by omega : 1 < 2)).1 (by omega)
  refine ⟨min k (stop - start).log2, ?_, ?_, by omega, ?_, ?_⟩
  · unfold prevPowerOfTwo
    rw [hlow]
    exact (Monotone.map_min (pow_right_mono₀ one_le_two)).symm
  · apply trailingZeros_two_pow
    omega
  · refine (Nat.pow_dvd_pow 2 (Nat.min_le_left _ _)).trans ?_
    rw [hstart]
    exact Nat.dvd_mul_right _ _
  · have := Nat.pow_le_pow_right (by omega : 0 < 2) (Nat.min_le_right k (stop - start).log2)
    omega

lemma indicator_add_le (a : ℕ) (h : start + 2 ^ c ≤ stop) :
    Block.indicator a ⟨start, c⟩ + (if start + 2 ^ c ≤ a ∧ a < stop then 1 else 0) ≤
      if start ≤ a ∧ a < stop then 1 else 0 := by
  have hpos := Nat.two_pow_pos c
  unfold Block.indicator
  split_ifs <;> simp only [Block.Covers] at * <;> omega

/-- The blocks of a region cover its addresses at most once, and their sizes are what the loop adds up. -/
lemma addBlocks_spec {fuel total total' : ℕ} (h : fl.Good) (hpos : 0 < start) (hword : wordSize ∣ start)
    (hstop : stop < 2 ^ usizeBits) (hadd : addBlocks stop fuel fl start total = some (fl', total')) :
    fl'.Good ∧ fl'.weight Block.size + total = fl.weight Block.size + total' ∧
      ∀ a, fl'.weight (Block.indicator a) ≤ fl.weight (Block.indicator a) + if start ≤ a ∧ a < stop then 1 else 0 := by
  induction fuel generalizing fl start total with
  | zero => cases hadd
  | succ fuel ih =>
    simp only [addBlocks] at hadd
    split_ifs at hadd with hover hle horder
    · obtain ⟨c, hsize, hzeros, hc, hdvd, hend⟩ := addBlocks_block hpos hword hle hstop
      rw [hsize] at hadd horder
      rw [hzeros] at hadd horder
      have hfits : Fits start c := ⟨hc, horder, hdvd, hpos, by omega⟩
      have hnext : wordSize ∣ start + 2 ^ c := (Nat.dvd_add_right hword).2 (Nat.pow_dvd_pow 2 hc)
      obtain ⟨hgood, hbytes, hcover⟩ := ih (h.push hfits) (by omega) hnext hadd
      rw [weight_push horder] at hbytes
      refine ⟨hgood, ?_, ?_⟩
      · simp only [Block.size] at hbytes ⊢
        omega
      intro a
      have := hcover a
      rw [weight_push horder] at this
      have := indicator_add_le a hend
      omega
    · cases hadd
      exact ⟨h, rfl, fun a => Nat.le_add_right _ _⟩

end FreeLists

/-! ### Runs -/

structure HeapState where
  heap : Heap
  live : List (ℕ × Layout)

inductive HeapEvent where
  | addRegion (start stop : ℕ)
  | alloc (l : Layout)
  | dealloc (ptr : ℕ) (l : Layout)
  | deallocWithBoundedMerge (ptr : ℕ) (l : Layout) (maxBuddyScan : ℕ)

namespace HeapState

open FreeLists

def initial : HeapState := ⟨.empty, []⟩

def liveBlock (a : ℕ × Layout) : Block := ⟨a.1, a.2.sizeClass⟩

def blocks (s : HeapState) : List Block := s.heap.freeList.blocks ++ s.live.map liveBlock

def step (s : HeapState) : HeapEvent → Option HeapState
  | .addRegion start stop => (s.heap.addToHeap start stop).map fun heap => { s with heap := heap }
  | .alloc l => (s.heap.alloc l).map fun (result, heap) => ⟨heap, (result.map (·, l)).toList ++ s.live⟩
  | .dealloc ptr l =>
    if (ptr, l) ∈ s.live then (s.heap.dealloc ptr l).map fun heap => ⟨heap, s.live.erase (ptr, l)⟩ else none
  | .deallocWithBoundedMerge ptr l maxBuddyScan =>
    if (ptr, l) ∈ s.live then
      (s.heap.deallocWithBoundedMerge ptr l maxBuddyScan).map fun heap => ⟨heap, s.live.erase (ptr, l)⟩
    else none

/-- A region that is added is memory that the heap does not have yet, and does not start at the null address. -/
def Honest (s : HeapState) : HeapEvent → Prop
  | .addRegion start stop =>
    0 < start ∧ stop < 2 ^ usizeBits ∧ ∀ b ∈ s.blocks, b.start + b.size ≤ start ∨ stop ≤ b.start
  | _ => True

instance (s : HeapState) (e : HeapEvent) : Decidable (s.Honest e) := by
  cases e
  · exact inferInstanceAs (Decidable (_ ∧ _ ∧ _))
  all_goals exact instDecidableTrue

def weight (w : Block → ℕ) (s : HeapState) : ℕ := s.heap.freeList.weight w + (s.live.map fun a => w (liveBlock a)).sum

structure Sound (s : HeapState) : Prop where
  free : s.heap.freeList.Good
  live : ∀ a ∈ s.live, Fits a.1 a.2.sizeClass
  cover : ∀ a, s.weight (Block.indicator a) ≤ 1
  bytes : s.weight Block.size = s.heap.total
  allocated : s.heap.allocated = (s.live.map fun a => a.2.blockSize).sum
  user : s.heap.user = (s.live.map fun a => a.2.size).sum

variable {s s' : HeapState} {e : HeapEvent} {l : Layout} {ptr alignPages pages : ℕ} {fl : FreeLists} {heap : Heap}

lemma sum_blocks (w : Block → ℕ) (s : HeapState) : (s.blocks.map w).sum = s.weight w := by
  unfold blocks weight
  rw [map_append, sum_append, FreeLists.sum_blocks, map_map]
  rfl

lemma alloc_spec (h : s.heap.freeList.Good) (l : Layout) : s.heap.alloc l = some (none, s.heap) ∨
      ∃ ptr fl, s.heap.alloc l = some (some ptr, { s.heap with
            freeList := fl, user := s.heap.user + l.size, allocated := s.heap.allocated + l.blockSize }) ∧
        fl.Good ∧ Fits ptr l.sizeClass ∧
        ∀ w, Splits w → fl.weight w + w ⟨ptr, l.sizeClass⟩ = s.heap.freeList.weight w := by
  have hc := l.blockSize_eq.2.1
  simp only [Heap.alloc]
  cases hfind : (List.range' l.sizeClass (maxOrder - l.sizeClass)).find? fun i => ¬(s.heap.freeList i).isEmpty with
  | none => exact .inl rfl
  | some i =>
    right
    have hmem := List.mem_of_find?_eq_some hfind
    have hsome := List.find?_some hfind
    rw [List.mem_range'_1] at hmem
    obtain ⟨d, rfl⟩ := Nat.exists_eq_add_of_le hmem.1
    have hne : s.heap.freeList (l.sizeClass + d) ≠ [] := by simpa using hsome
    obtain ⟨fl, hsplit, hcons, hne'⟩ := split_spec h hc hne
    dsimp only
    rw [Nat.add_sub_cancel_left, hsplit]
    cases hfl : fl l.sizeClass with
    | nil => exact absurd hfl hne'
    | cons block rest =>
      obtain ⟨hfits, hrest⟩ := hcons.good.cons hfl
      dsimp only
      rw [hfl]
      dsimp only
      rw [if_neg hfits.pos.ne']
      refine ⟨block, _, rfl, hcons.good.update hrest, hfits, ?_⟩
      intro w hw
      have hupdate := weight_update w fl hfits.order rest
      rw [hfl] at hupdate
      simp only [listWeight, map_cons, sum_cons] at hupdate
      have := hcons.weight w hw
      omega

lemma Sound.exchange (hs : s.Sound) {live : List (ℕ × Layout)} {user allocated : ℕ} (hgood : fl.Good)
    (hlive : ∀ a ∈ live, Fits a.1 a.2.sizeClass)
    (hsame : ∀ w, Splits w → fl.weight w + (live.map fun a => w (liveBlock a)).sum = s.weight w)
    (hallocated : allocated = (live.map fun a => a.2.blockSize).sum) (huser : user = (live.map fun a => a.2.size).sum) :
    Sound ⟨{ s.heap with freeList := fl, user := user, allocated := allocated }, live⟩ where
  free := hgood
  live := hlive
  cover a := (hsame _ (splits_indicator a)).trans_le (hs.cover a)
  bytes := (hsame _ splits_size).trans hs.bytes
  allocated := hallocated
  user := huser

lemma Sound.alloc (hs : s.Sound) {result : Option ℕ} (h : s.heap.alloc l = some (result, heap)) :
    Sound ⟨heap, (result.map (·, l)).toList ++ s.live⟩ := by
  rcases alloc_spec hs.free l with hnone | ⟨ptr, fl, hsome, hgood, hfits, hweight⟩
  · rw [hnone] at h
    cases h
    exact hs
  rw [hsome] at h
  cases h
  apply hs.exchange hgood
  · exact forall_mem_cons.2 ⟨hfits, hs.live⟩
  · intro w hw
    have := hweight w hw
    simp only [weight, map_some, toList_some, singleton_append, map_cons, sum_cons, liveBlock] at *
    omega
  · rw [hs.allocated, Nat.add_comm]
    rfl
  · rw [hs.user, Nat.add_comm]
    rfl

lemma Sound.settle (hs : s.Sound) (hmem : (ptr, l) ∈ s.live)
    (hcons : Conserves (s.heap.freeList.push l.sizeClass ptr) fl) :
    ∃ heap, s.heap.settle l fl = some heap ∧ Sound ⟨heap, s.live.erase (ptr, l)⟩ := by
  have hsum : ∀ g : ℕ × Layout → ℕ, (s.live.map g).sum = g (ptr, l) + ((s.live.erase (ptr, l)).map g).sum := by
    intro g
    have := ((perm_cons_erase hmem).map g).sum_eq
    rwa [map_cons, sum_cons] at this
  have hallocated := hs.allocated.trans (hsum _)
  have huser := hs.user.trans (hsum _)
  dsimp only at hallocated huser
  refine ⟨_, if_pos ⟨by omega, by omega⟩, hs.exchange hcons.good ?_ ?_ (by omega) (by omega)⟩
  · exact fun a ha => hs.live a (mem_of_mem_erase ha)
  · intro w hw
    have h1 := hcons.weight w hw
    have h2 := hsum fun a => w (liveBlock a)
    rw [weight_push (hs.live _ hmem).order] at h1
    simp only [weight, liveBlock] at *
    omega

lemma Sound.dealloc (hs : s.Sound) (hmem : (ptr, l) ∈ s.live) :
    ∃ heap, s.heap.dealloc ptr l = some heap ∧ Sound ⟨heap, s.live.erase (ptr, l)⟩ := by
  have hfits : Fits ptr l.sizeClass := hs.live _ hmem
  have horder := hfits.order
  simp only [Heap.dealloc]
  rw [if_pos horder]
  exact hs.settle hmem (merge_spec (hs.free.push hfits) (by omega) (push_head _ _ _))

lemma Sound.deallocWithBoundedMerge (hs : s.Sound) (hmem : (ptr, l) ∈ s.live) (maxBuddyScan : ℕ) :
    ∃ heap, s.heap.deallocWithBoundedMerge ptr l maxBuddyScan = some heap ∧ Sound ⟨heap, s.live.erase (ptr, l)⟩ := by
  have hfits : Fits ptr l.sizeClass := hs.live _ hmem
  have horder := hfits.order
  obtain ⟨fl, hmerge, hcons⟩ := mergeWithin_spec maxBuddyScan (hs.free.push hfits)
    (by omega : l.sizeClass + (maxOrder - 1 - l.sizeClass) < maxOrder) (push_head _ _ _)
  simp only [Heap.deallocWithBoundedMerge]
  rw [if_pos horder, hmerge]
  exact hs.settle hmem hcons

lemma Sound.addRegion (hs : s.Sound) (hg : s.Honest (.addRegion start stop))
    (h : s.heap.addToHeap start stop = some heap) : Sound { s with heap := heap } := by
  obtain ⟨hpos, hstop, hfresh⟩ := hg
  simp only [Heap.addToHeap] at h
  split_ifs at h with hle
  obtain ⟨⟨fl, total⟩, hadd, rfl⟩ := map_eq_some_iff.1 h
  have hstart : start ≤ (start + wordSize - 1) / wordSize * wordSize := by
    unfold wordSize
    omega
  have hend : stop / wordSize * wordSize ≤ stop := Nat.div_mul_le_self _ _
  obtain ⟨hgood, hbytes, hcover⟩ := addBlocks_spec hs.free (by omega) (Nat.dvd_mul_left _ _) (by omega) hadd
  constructor
  · exact hgood
  · exact hs.live
  · intro a
    have h1 := hcover a
    have h2 := hs.cover a
    simp only [weight] at *
    split_ifs at h1 with ha
    · -- no block of the heap covers an address of the region
      have hzero : s.weight (Block.indicator a) = 0 := by
        rw [← sum_blocks, sum_eq_zero_iff]
        intro n hn
        obtain ⟨b, hb, rfl⟩ := mem_map.1 hn
        apply if_neg
        rintro ⟨hle, hlt⟩
        have := hfresh b hb
        simp only [Block.size] at this
        omega
      simp only [weight] at hzero
      omega
    · omega
  · have := hs.bytes
    simp only [weight] at *
    omega
  · exact hs.allocated
  · exact hs.user

lemma Sound.step (hs : s.Sound) (hg : s.Honest e) (h : s.step e = some s') : s'.Sound := by
  cases e with
  | addRegion start stop =>
    obtain ⟨heap, hadd, rfl⟩ := map_eq_some_iff.1 h
    exact hs.addRegion hg hadd
  | alloc l =>
    obtain ⟨⟨result, heap⟩, halloc, rfl⟩ := map_eq_some_iff.1 h
    exact hs.alloc halloc
  | dealloc ptr l =>
    simp only [HeapState.step] at h
    split_ifs at h with hmem
    obtain ⟨heap, hdealloc, hs'⟩ := hs.dealloc hmem
    rw [hdealloc] at h
    cases h
    exact hs'
  | deallocWithBoundedMerge ptr l maxBuddyScan =>
    simp only [HeapState.step] at h
    split_ifs at h with hmem
    obtain ⟨heap, hdealloc, hs'⟩ := hs.deallocWithBoundedMerge hmem maxBuddyScan
    rw [hdealloc] at h
    cases h
    exact hs'

lemma sound_initial : initial.Sound := by
  have hzero : ∀ w, initial.weight w = 0 := by
    intro w
    unfold weight
    rw [initial, Heap.empty, weight_empty]
    rfl
  constructor
  · intro c p hp
    cases hp
  · intro a ha
    cases ha
  · intro a
    rw [hzero]
    exact Nat.zero_le 1
  · exact hzero _
  · rfl
  · rfl

lemma sound_of_reaches (h : Reaches HeapState.step Honest initial s) : s.Sound :=
  h.invariant (fun _ _ _ hs hg he => hs.step hg he) sound_initial

lemma Sound.pairwise (hs : s.Sound) : s.blocks.Pairwise Block.Disjoint := by
  apply pairwise_disjoint_of_indicator
  intro a
  rw [sum_blocks]
  exact hs.cover a

lemma Sound.aligned (hs : s.Sound) {b : Block} (hb : b ∈ s.blocks) : b.Aligned := by
  rcases mem_append.1 hb with hfree | hlive
  · obtain ⟨c, -, hc⟩ := mem_flatMap.1 hfree
    obtain ⟨p, hp, rfl⟩ := mem_map.1 hc
    exact (hs.free c p hp).aligned
  · obtain ⟨a, ha, rfl⟩ := mem_map.1 hlive
    exact (hs.live a ha).aligned

def freeBytes (s : HeapState) : ℕ := (s.heap.freeList.blocks.map Block.size).sum

lemma Sound.freeBytes_add (hs : s.Sound) : s.freeBytes + s.heap.allocated = s.heap.total := by
  have hlive : (s.live.map fun a => Block.size (liveBlock a)) = s.live.map fun a => a.2.blockSize := by
    apply map_congr_left
    intro a _
    exact a.2.blockSize_eq.1.symm
  rw [← hs.bytes, freeBytes, FreeLists.sum_blocks, weight, hs.allocated, hlive]

lemma cmaLayout_eq (h : cmaLayout pages alignPages = some l) :
    l.size = pages * cmaPageSize ∧ l.align = alignPages * cmaPageSize := by
  unfold cmaLayout Layout.fromSizeAlign at h
  split_ifs at h
  cases h
  exact ⟨rfl, rfl⟩

lemma cmaAlignments_dvd_offset (board : Board) : ∀ n ∈ cmaAlignments, n * cmaPageSize ∣ board.kernelAddrOffset := by
  cases board <;> decide

lemma cmaPageSize_dvd_offset (board : Board) : cmaPageSize ∣ board.kernelAddrOffset := by
  have := cmaAlignments_dvd_offset board 1 (by decide)
  rwa [one_mul] at this

lemma cmaAllocAligned_cases {offset pa : ℕ}
    (h : cmaAllocAligned offset s.heap pages alignPages = some (some pa, heap)) :
    ∃ l : Layout, l.align = alignPages * cmaPageSize ∧ s.heap.alloc l = some (some (pa + offset), heap) := by
  unfold cmaAllocAligned at h
  cases hl : cmaLayout pages alignPages with
  | none =>
    rw [hl] at h
    cases h
  | some l =>
    rw [hl] at h
    dsimp only at h
    refine ⟨l, (cmaLayout_eq hl).2, ?_⟩
    rcases halloc : s.heap.alloc l with _ | ⟨_ | ptr, heap'⟩
    · rw [halloc] at h
      cases h
    · rw [halloc] at h
      cases h
    rw [halloc] at h
    dsimp only at h
    split_ifs at h with hptr
    cases h
    rw [Nat.sub_add_cancel hptr.2]

/-- In every run the blocks are aligned and disjoint and their bytes add up, no operation stops with a panic, and a
contiguous allocation is apart from all other blocks; its physical address has the requested alignment exactly if the
start of the direct map has it, which on every board is so for the alignments that are asked for. -/
theorem buddy_heap_safe (board : Board) (h : Reaches HeapState.step Honest initial s) :
    (∀ b ∈ s.blocks, b.Aligned) ∧ s.blocks.Pairwise Block.Disjoint ∧ s.freeBytes + s.heap.allocated = s.heap.total ∧
      (∀ l, (s.heap.alloc l).isSome = true) ∧
      (∀ ptr l, (ptr, l) ∈ s.live → (s.heap.dealloc ptr l).isSome = true ∧
        ∀ maxBuddyScan, (s.heap.deallocWithBoundedMerge ptr l maxBuddyScan).isSome = true) ∧
      (∀ pages alignPages pa l, cmaLayout pages alignPages = some l → (pa + board.kernelAddrOffset, l) ∈ s.live →
        (cmaDeallocAligned board.kernelAddrOffset s.heap pa pages alignPages).isSome = true) ∧
      ∀ pages alignPages pa heap,
        cmaAllocAligned board.kernelAddrOffset s.heap pages alignPages = some (some pa, heap) →
        (alignPages ∈ cmaAlignments → alignPages * cmaPageSize ∣ pa) ∧
        (alignPages * cmaPageSize ∣ pa ↔ alignPages * cmaPageSize ∣ board.kernelAddrOffset) ∧
        ∃ l : Layout, l.align = alignPages * cmaPageSize ∧ l.align ∣ pa + board.kernelAddrOffset ∧
          (blocks ⟨heap, (pa + board.kernelAddrOffset, l) :: s.live⟩).Pairwise Block.Disjoint := by
  have hs := sound_of_reaches h
  have halloc (l : Layout) : (s.heap.alloc l).isSome = true := by
    rcases alloc_spec hs.free l with hnone | ⟨ptr, fl, hsome, -⟩
    · rw [hnone]
      rfl
    · rw [hsome]
      rfl
  have hdealloc (ptr : ℕ) (l : Layout) (hmem : (ptr, l) ∈ s.live) : (s.heap.dealloc ptr l).isSome = true ∧
      ∀ maxBuddyScan, (s.heap.deallocWithBoundedMerge ptr l maxBuddyScan).isSome = true := by
    constructor
    · obtain ⟨heap, heq, -⟩ := hs.dealloc hmem
      rw [heq]
      rfl
    · intro maxBuddyScan
      obtain ⟨heap, heq, -⟩ := hs.deallocWithBoundedMerge hmem maxBuddyScan
      rw [heq]
      rfl
  refine ⟨fun b hb => hs.aligned hb, hs.pairwise, hs.freeBytes_add, halloc, hdealloc, ?_, ?_⟩
  · intro pages alignPages pa l hl hmem
    have hdvd : l.align ∣ pa + board.kernelAddrOffset := l.blockSize_eq.2.2.trans (hs.live _ hmem).aligned
    rw [(cmaLayout_eq hl).2] at hdvd
    have hpage : cmaPageSize ∣ pa :=
      (Nat.dvd_add_left (cmaPageSize_dvd_offset board)).1 ((Nat.dvd_mul_left _ _).trans hdvd)
    unfold cmaDeallocAligned
    rw [if_neg (not_not.2 (Nat.mod_eq_zero_of_dvd hpage)), hl]
    dsimp only
    split_ifs
    · exact (hdealloc _ l hmem).2 _
    · exact (hdealloc _ l hmem).1
  · intro pages alignPages pa heap hcma
    obtain ⟨l, halign, halloc⟩ := cmaAllocAligned_cases hcma
    have hs' := hs.alloc halloc
    have hfits : Fits (pa + board.kernelAddrOffset) l.sizeClass := hs'.live _ mem_cons_self
    have hdvd : l.align ∣ pa + board.kernelAddrOffset := l.blockSize_eq.2.2.trans hfits.aligned
    have hiff : l.align ∣ pa ↔ l.align ∣ board.kernelAddrOffset :=
      ⟨fun hpa => (Nat.dvd_add_right hpa).1 hdvd, fun hoffset => (Nat.dvd_add_left hoffset).1 hdvd⟩
    rw [← halign]
    refine ⟨fun hmem => hiff.2 ?_, hiff, l, rfl, hdvd, hs'.pairwise⟩
    rw [halign]
    exact cmaAlignments_dvd_offset board alignPages hmem

/-- The upper part of the memory of a board. -/
def upperMemory : List HeapEvent := [.addRegion 0xffffffc0c0000000 0xffffffc180000000]

theorem buddy_heap_safe_upperMemory :
    (run HeapState.step initial upperMemory).freeBytes = 0xc0000000 ∧
      ∃ pa heap, cmaAllocAligned Board.visionfive2.kernelAddrOffset (run HeapState.step initial upperMemory).heap
        512 512 = some (some pa, heap) ∧ 512 * cmaPageSize ∣ pa := by
  have hreach : Reaches HeapState.step Honest initial (run HeapState.step initial upperMemory) :=
    Reaches.run (by decide +kernel)
  obtain ⟨-, -, hbytes, -, -, -, hcma⟩ := buddy_heap_safe .visionfive2 hreach
  constructor
  · exact hbytes
  · have hfst : (cmaAllocAligned Board.visionfive2.kernelAddrOffset (run HeapState.step initial upperMemory).heap
        512 512).map Prod.fst = some (some 0x80000000) := by decide +kernel
    obtain ⟨⟨result, heap⟩, hcall, rfl⟩ := map_eq_some_iff.1 hfst
    exact ⟨_, heap, hcall, (hcma 512 512 _ heap hcall).1 (by decide)⟩

end HeapState

end Ya2yOS.Mm.Buddy
