import Ya2yOS.Mm.CallSteps
import Ya2yOS.Mm.EditFault
import Ya2yOS.Mm.EditProtect
import Ya2yOS.Mm.Syscall

/-!
# The memory calls as edits

`mprotect` splits areas and adds bits to entries; every other call is a sequence of edits that inserts at most the
areas described here.
-/

namespace Ya2yOS.Mm

open Lib Option Logged
open Conv (result_toVirtAddr_bind)

/-- The memory calls with the words user code passes. What the descriptor table and the disk
answer comes along. -/
inductive MemCall where
  | mmap (addr len prot flags fd off : ℕ) (desc : Option Descriptor)
  | munmap (addr len : ℕ) (ioError : Option SysErrNo)
  | mprotect (addr len prot : ℕ)
  | mremap (oldAddr oldSize newSize flags newAddr : ℕ)
  | madvise (addr len advice : ℕ)

def MemCall.run (s : MemorySetInner) (g : Globals) : MemCall → Option (SyscallRet × MemorySetInner × Globals)
  | .mmap addr len prot flags fd off desc => s.sysMmap g addr len prot flags fd off desc
  | .munmap addr len ioError => s.sysMunmap g addr len ioError
  | .mprotect addr len prot => s.sysMprotect g addr len prot
  | .mremap oldAddr oldSize newSize flags newAddr => s.sysMremap g oldAddr oldSize newSize flags newAddr
  | .madvise addr len advice => (s.sysMadvise addr len advice).map fun (r, s) => (r, s, g)

namespace MemCall

def Inserts (s : MemorySetInner) (g : Globals) (l : List MapArea) (a : MapArea) : MemCall → Prop
  | .mmap addr len prot raw _ off desc => ∃ file,
      mmapSourceOf g desc (.ofBits raw) (.ofProt prot) off = .ok file ∧
      len ≠ 0 ∧ mmapLen (.ofBits raw) len ≤ maxMmapSize ∧
      Placement s addr (mmapLen (.ofBits raw) len) (.ofProt prot) (.ofBits raw) file l a
  | .mremap oldAddr oldSize newSize flags newAddr =>
      floorVpn oldAddr < ceilVpn (oldAddr + mremapLen oldSize) ∧ mremapLen newSize ≠ 0 ∧
      MemorySetInner.MovePlacement s g (floorVpn oldAddr) (ceilVpn (oldAddr + mremapLen oldSize))
        (mremapLen newSize) newAddr (flags.testBit 1) l a
  | _ => False

def IsMprotect : MemCall → Prop
  | .mprotect _ _ _ => True
  | _ => False

def IsMremap : MemCall → Prop
  | .mremap _ _ _ _ _ => True
  | _ => False

end MemCall

namespace MemorySetInner

variable {κ : EditCtx} {s s' : MemorySetInner} {g g' : Globals} {ret : SyscallRet} {addr len prot : ℕ}

private lemma unchanged {x : SyscallRet} (h : some (x, s, g) = some (ret, s', g')) : s' = s ∧ g' = g := by
  cases h
  exact ⟨rfl, rfl⟩

/-- A check that ends the call, or is passed. -/
private lemma passed {c : Prop} [Decidable c] {x : SyscallRet} {y : Conv (SyscallRet × MemorySetInner × Globals)}
    (h : (if c then pure (x, s, g) else y).result = some (ret, s', g')) :
    (s' = s ∧ g' = g) ∨ ¬ c ∧ y.result = some (ret, s', g') :=
  (ite_eq_iff.1 ((result_ite c _ _).symm.trans h)).imp_left fun hc => unchanged hc.2

lemma sysMmap_cases {raw fd off : ℕ} {desc : Option Descriptor}
    (h : s.sysMmap g addr len prot raw fd off desc = some (ret, s', g')) :
    (s' = s ∧ g' = g) ∨ ∃ file rv, mmapSourceOf g desc (.ofBits raw) (.ofProt prot) off = .ok file ∧
      len ≠ 0 ∧ mmapLen (.ofBits raw) len ≤ maxMmapSize ∧
      s.mmap g addr (mmapLen (.ofBits raw) len) (.ofProt prot) (.ofBits raw) file = some (rv, s', g') := by
  unfold sysMmap Conv.sysMmap at h
  dsimp only at h
  split at h
  · exact .inl (unchanged h)
  next hcheck =>
  have hlen : len ≠ 0 := by
    rintro rfl
    unfold mmapCheck at hcheck
    dsimp only at hcheck
    split_ifs at hcheck <;> contradiction
  split at h
  · exact .inl (unchanged h)
  next hmax =>
  split at h
  · exact .inl (unchanged h)
  next file hfile =>
  rw [result_bind, bind_eq_some_iff] at h
  obtain ⟨⟨rv, t, k⟩, hm, h⟩ := h
  cases h
  unfold Conv.mmapHandle at hm
  split at hm
  · split at hm
    · cases hm
      exact .inl ⟨rfl, rfl⟩
    · simp only [result_toVirtAddr_bind] at hm
      exact .inr ⟨file, rv, hfile, hlen, Nat.le_of_not_lt hmax, hm.2.2⟩
  · exact .inr ⟨file, rv, hfile, hlen, Nat.le_of_not_lt hmax, hm⟩

lemma sysMunmap_cases {ioError : Option SysErrNo} (h : s.sysMunmap g addr len ioError = some (ret, s', g')) :
    (s' = s ∧ g' = g) ∨ ∃ r, s.munmap g addr (pageRoundUp len) = some (r, s', g') := by
  unfold sysMunmap Conv.sysMunmap at h
  split at h
  · exact .inl (unchanged h)
  rw [result_bind, bind_eq_some_iff] at h
  obtain ⟨⟨r, t, k⟩, hm, h⟩ := h
  cases h
  unfold Conv.munmapWriteback at hm
  split at hm
  · exact .inl (unchanged hm)
  simp only [result_toVirtAddr_bind] at hm
  obtain ⟨-, -, hm⟩ := hm
  split at hm
  · exact .inl (unchanged hm)
  split at hm
  · exact .inl (unchanged hm)
  · exact .inr ⟨r, hm⟩

lemma sysMprotect_cases (h : s.sysMprotect g addr len prot = some (ret, s', g')) :
    (s' = s ∧ g' = g) ∨ s.mprotect g (floorVpn addr) (ceilVpn (addr + len)) (.ofProt prot) = (ret, s', g') := by
  unfold sysMprotect Conv.sysMprotect at h
  split at h
  · exact .inl (unchanged h)
  split at h
  · exact .inl (unchanged h)
  next endAddr hend =>
  obtain ⟨rfl, -⟩ := checkedAdd_eq_some.1 hend
  simp only [result_toVirtAddr_bind] at h
  exact .inr (some.inj h.2.2)

lemma sysMadvise_cases {advice : ℕ} (h : s.sysMadvise addr len advice = some (ret, s')) :
    s' = s ∨ s.discardMadvisePages addr len = some (ret, s') := by
  unfold sysMadvise Conv.sysMadvise at h
  split at h
  · cases h
    exact .inl rfl
  split at h
  · cases h
    exact .inl rfl
  split at h
  · cases h
    exact .inl rfl
  split at h
  · cases h
    exact .inl rfl
  split at h
  · cases h
    exact .inl rfl
  split at h
  · simp only [result_toVirtAddr_bind] at h
    exact .inr h.2.2
  · rw [result_bind, bind_eq_some_iff] at h
    obtain ⟨r, -, h⟩ := h
    cases h
    exact .inl rfl

lemma sysMremap_cases {oldAddr oldSize newSize flags newAddr : ℕ}
    (h : s.sysMremap g oldAddr oldSize newSize flags newAddr = some (ret, s', g')) :
    (s' = s ∧ g' = g) ∨ floorVpn oldAddr < ceilVpn (oldAddr + mremapLen oldSize) ∧ mremapLen newSize ≠ 0 ∧
      (s.mremapMaymove g oldAddr (mremapLen oldSize) (mremapLen newSize) newAddr (flags.testBit 1) =
          some (ret, s', g') ∨
        s.mremapInPlace g oldAddr (mremapLen oldSize) (mremapLen newSize) = some (ret, s', g')) := by
  rcases passed h with hs | ⟨-, h⟩
  · exact .inl hs
  rcases passed h with hs | ⟨-, h⟩
  · exact .inl hs
  rcases passed h with hs | ⟨-, h⟩
  · exact .inl hs
  rcases passed h with hs | ⟨hsize, h⟩
  · exact .inl hs
  rcases passed h with hs | ⟨-, h⟩
  · exact .inl hs
  rcases passed h with hs | ⟨-, h⟩
  · exact .inl hs
  dsimp only at h
  cases hend : checkedAdd oldAddr (mremapLen oldSize) with
  | none =>
    rw [hend] at h
    exact .inl (unchanged h)
  | some oldEnd =>
  rw [hend] at h
  obtain ⟨rfl, -⟩ := checkedAdd_eq_some.1 hend
  rcases passed h with hs | ⟨hlim, h⟩
  · exact .inl hs
  have hlt : floorVpn oldAddr < ceilVpn (oldAddr + mremapLen oldSize) := by
    simp only [not_or, not_lt] at hlim hsize
    have hle := hlim.1
    unfold userSpaceSize at hle
    rw [ceilVpn_of_le (by omega)]
    unfold floorVpn mremapLen pageSize at *
    omega
  have hnew : mremapLen newSize ≠ 0 := by
    unfold mremapLen pageSize
    omega
  simp only [result_toVirtAddr_bind] at h
  replace h := h.2.2
  split_ifs at h with hmove hfixed
  · split at h
    · exact .inl (unchanged h)
    · simp only [result_toVirtAddr_bind] at h
      exact .inr ⟨hlt, hnew, .inl (by rw [hfixed]; exact h.2.2)⟩
  · rw [Bool.not_eq_true] at hfixed
    exact .inr ⟨hlt, hnew, .inl (by rw [hfixed]; exact h)⟩
  · exact .inr ⟨hlt, hnew, .inr h⟩

end MemorySetInner

namespace MemCall

open MemorySetInner

variable {κ : EditCtx} {s s' : MemorySetInner} {g g' : Globals} {ret : SyscallRet} {c : MemCall}

lemma run_edits (held : Set ℕ) (hnot : ¬ c.IsMprotect) (hsort : c.IsMremap → AreasSorted s.areas)
    (hadm : ∀ l a, c.Inserts s g l a → κ.admits l a) (h : c.run s g = some (ret, s', g')) :
    Edits κ ⟨s.layout, g.stock held⟩ ⟨s'.layout, g'.stock held⟩ ∧ g'.heldFrames ⊆ g.heldFrames := by
  have hstay : s' = s ∧ g' = g → Edits κ ⟨s.layout, g.stock held⟩ ⟨s'.layout, g'.stock held⟩ ∧
      g'.heldFrames ⊆ g.heldFrames := by
    rintro ⟨rfl, rfl⟩
    exact ⟨.refl, subset_rfl⟩
  cases c with
  | mmap addr len prot raw fd off desc =>
    rcases sysMmap_cases h with hs | ⟨file, rv, hfile, hlen, hmax, hm⟩
    · exact hstay hs
    · exact (mmap_steps (C := fun _ _ _ => True)
        (fun l a hp => hadm l a ⟨file, hfile, hlen, hmax, hp⟩) (fun _ => trivial) hm).edits held
  | munmap addr len ioError =>
    rcases sysMunmap_cases h with hs | ⟨r, hm⟩
    · exact hstay hs
    · have hq := munmap_quiet hm
      rw [hq.stock held]
      exact ⟨(munmap_trims hm).edits _, hq.heldFrames⟩
  | mprotect addr len prot => exact absurd trivial hnot
  | mremap oldAddr oldSize newSize flags newAddr =>
    rcases sysMremap_cases h with hs | ⟨hlt, hnew, hm | hm⟩
    · exact hstay hs
    · exact (mremapMaymove_steps (C := fun _ _ _ => True) (hsort trivial) hlt
        (fun l a hp => hadm l a ⟨hlt, hnew, hp⟩) (fun _ _ _ _ _ _ _ => trivial) hm).edits held
    · exact (mremapInPlace_steps (C := fun _ _ _ => True) (hsort trivial) hlt
        (fun _ _ _ _ _ _ _ => trivial) hm).edits held
  | madvise addr len advice =>
    obtain ⟨⟨r, t⟩, hm, heq⟩ := map_eq_some_iff.1 h
    cases heq
    rcases sysMadvise_cases hm with rfl | hd
    · exact hstay ⟨rfl, rfl⟩
    · exact ⟨(discardMadvisePages_trims hd).edits _, subset_rfl⟩

end MemCall

end Ya2yOS.Mm
