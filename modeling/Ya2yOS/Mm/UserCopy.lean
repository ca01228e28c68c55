import Ya2yOS.Mm.Isolation
import Ya2yOS.Mm.Uaccess

/-!
# What user copies touch

A copy touches a page through a leaf that the supervisor may use, or after the permission check over the areas. Neither
asks for the user bit.
-/

namespace Ya2yOS.Mm

open Lib Option PageTable

def MemorySetInner.Grants (s : MemorySetInner) (wanted : MapPermission) (v : ℕ) : Prop :=
  ∃ a ∈ s.areas, v ∈ a.vpnRange ∧ a.mapPerm.u = true ∧ a.mapPerm.contains wanted = true
deriving Decidable

inductive UserCopy where
  | read (active : Bool) (src len : ℕ)
  | write (active : Bool) (dst : ℕ) (bytes : List UInt8)
  | probe (dst len : ℕ)

namespace UserCopy

def start : UserCopy → ℕ
  | .read _ src _ => src
  | .write _ dst _ => dst
  | .probe dst _ => dst

def len : UserCopy → ℕ
  | .read _ _ len => len
  | .write _ _ bytes => bytes.length
  | .probe _ len => len

def wanted : UserCopy → MapPermission
  | .read _ _ _ => { r := true }
  | .write _ _ _ | .probe _ _ => { w := true }

def run (env : FaultEnv) (c : CopyState) : UserCopy → Option (SyscallRet × CopyState)
  | .read active src len => copyFromUser env active src len c
  | .write active dst bytes => copyToUser env active dst bytes c
  | .probe dst len => probeUserWrite env dst len c

def Within (lo hi : ℕ) (c : UserCopy) : Prop :=
  lo ≤ floorVpn c.start ∧ (c.len ≠ 0 → floorVpn (c.start + c.len - 1) < hi)

def active : UserCopy → Bool
  | .read active _ _ | .write active _ _ => active
  | .probe _ _ => false

def allowed : UserCopy → PageTable → ℕ → Bool
  | .read _ _ _ => supervisorReads
  | .write _ _ _ | .probe _ _ => supervisorWrites

def page (env : FaultEnv) : UserCopy → CopyState → ℕ → Option (Option ℕ × CopyState)
  | .read _ _ _ => CopyState.translatedUserPage env
  | .write _ _ _ | .probe _ _ => CopyState.translatedUserPageForWrite env

def act : UserCopy → CopyState → ℕ → ℕ → ℕ → ℕ → CopyState
  | .read _ src _ => CopyState.readAct src
  | .write _ dst bytes => CopyState.writeAct dst bytes
  | .probe _ _ => CopyState.probeAct

def restart (copy : UserCopy) (c : CopyState) : CopyState :=
  match copy with
  | .read _ _ _ => { c with buffer := [] }
  | .write _ _ _ | .probe _ _ => c

/-- Through the leaves of the active table, a byte at a time. -/
def direct (copy : UserCopy) (stop : ℕ) (c : CopyState) : Bool × CopyState :=
  if CopyState.currentUserCopyFastLimit < copy.len ∨ userSpaceSize ≤ copy.start ∨ userSpaceSize < stop then (false, c)
  else if copy.active then CopyState.rawLoop copy.allowed copy.act copy.start copy.len copy.start c
  else (false, c)

/-- After the check, a page at a time. -/
def paged (env : FaultEnv) (copy : UserCopy) (stop : ℕ) (c : CopyState) : Option (SyscallRet × CopyState) :=
  if !userRangeHasPerm c.space copy.start copy.len copy.wanted then some (.error .EFAULT, c)
  else (CopyState.pageLoop (copy.page env) copy.act copy.start stop copy.len copy.start (copy.restart c)).map
    (CopyState.finish copy.len)

lemma run_eq (env : FaultEnv) (copy : UserCopy) (c : CopyState) :
    copy.run env c = if copy.len = 0 then some (.ok 0, c) else
      match checkedUserRange copy.start copy.len with
      | .error e => some (.error e, c)
      | .ok stop =>
        if (copy.direct stop c).1 then some (.ok copy.len, (copy.direct stop c).2)
        else copy.paged env stop (copy.direct stop c).2 := by
  cases copy with
  | read active src len => rfl
  | write active dst bytes => rfl
  | probe dst len =>
    simp only [direct, active, Bool.false_eq_true, if_false, ite_self]
    rfl

end UserCopy

variable {wanted : MapPermission} {len start stop v : ℕ} {s : MemorySetInner}

/-- A range that passes the check is tiled by areas with the wanted permission, each the first that
holds the page where it takes over. -/
lemma permLoop_covers {areas : List MapArea} {endVpn fuel current : ℕ}
    (h : permLoop areas wanted false endVpn fuel current = true) (hv : current ≤ v)
    (hle : v ≤ endVpn) : ∃ a ∈ areas, ∃ w, current ≤ w ∧ w ≤ v ∧
      areas.find? (fun a => w ∈ a.vpnRange) = some a ∧ v ∈ a.vpnRange ∧ a.mapPerm.contains wanted = true := by
  induction fuel generalizing current with
  | zero =>
    simp only [permLoop, decide_eq_true_eq] at h
    omega
  | succ fuel ih =>
    unfold permLoop at h
    split at h
    · omega
    split at h
    · simp at h
    next area hfind =>
    split at h
    · simp at h
    next hperm =>
    have hmem : current ∈ area.vpnRange := by simpa using List.find?_some hfind
    by_cases hin : v < area.vpnRange.stop
    · refine ⟨area, List.mem_of_find?_eq_some hfind, current, le_rfl, hv, hfind, ?_, ?_⟩
      · exact ⟨hmem.1.trans hv, hin⟩
      · simpa using hperm
    · obtain ⟨a, ha, w, hw, hrest⟩ := ih h (by omega)
      exact ⟨a, ha, w, hmem.2.le.trans hw, hrest⟩

lemma userRangeHasPermIn_of_find {a : MapArea}
    (hstart : canonical start = true) (hstop : canonical (stop - 1) = true) (hle : floorVpn start ≤ floorVpn (stop - 1))
    (hfind : s.areas.find? (fun a => floorVpn start ∈ a.vpnRange) = some a)
    (hin : floorVpn (stop - 1) < a.vpnRange.stop) (hperm : a.mapPerm.contains wanted = true) :
    userRangeHasPermIn s start stop wanted false = true := by
  have hfuel : floorVpn (stop - 1) + 1 - floorVpn start = floorVpn (stop - 1) - floorVpn start + 1 := by omega
  have htail : ∀ fuel, permLoop s.areas wanted false (floorVpn (stop - 1)) fuel a.vpnRange.stop = true := by
    intro fuel
    cases fuel with
    | zero | succ fuel => simp [permLoop, hin]
  simp only [userRangeHasPermIn, hstart, hstop, Bool.true_and, hfuel, permLoop, hfind, hperm, htail]
  simp

/-! ### The pages the loops touch -/

namespace CopyState

def Logs (act : CopyState → ℕ → ℕ → ℕ → ℕ → CopyState) : Prop :=
  ∀ c v ppn done n, (act c v ppn done n).space = c.space ∧ (act c v ppn done n).log = v :: c.log

lemma logs_readAct (src : ℕ) : Logs (readAct src) := fun _ _ _ _ _ => ⟨rfl, rfl⟩

lemma logs_writeAct (dst : ℕ) (bytes : List UInt8) : Logs (writeAct dst bytes) := fun _ _ _ _ _ => ⟨rfl, rfl⟩

lemma logs_probeAct : Logs probeAct := fun _ _ _ _ _ => ⟨rfl, rfl⟩

variable {act : CopyState → ℕ → ℕ → ℕ → ℕ → CopyState}

variable {c c' : CopyState} {cur : ℕ} {ok : Bool} {page : CopyState → ℕ → Option (Option ℕ × CopyState)}

/-- The direct path touches pages of the range whose leaf the hardware lets the supervisor use. -/
lemma rawLoop_log {allowed : PageTable → ℕ → Bool} (hact : Logs act)
    (h : rawLoop allowed act start len cur c = (ok, c')) :
    c'.space = c.space ∧ ∀ v ∈ c'.log, v ∈ c.log ∨
      floorVpn cur ≤ v ∧ v ≤ floorVpn (cur + len - 1) ∧ allowed c.space.pageTable v = true := by
  induction len generalizing cur c with
  | zero =>
    cases h
    exact ⟨rfl, fun v hv => .inl hv⟩
  | succ len ih =>
    unfold rawLoop at h
    split at h
    · next hallow =>
      split at h
      · cases h
        exact ⟨rfl, fun v hv => .inl hv⟩
      next ppn htr =>
      obtain ⟨hspace, hlog⟩ := hact c (floorVpn cur) ppn (cur - start) 1
      obtain ⟨hs, hl⟩ := ih h
      rw [hspace] at hs hl
      refine ⟨hs, fun v hv => ?_⟩
      have hmono : ∀ {x y : ℕ}, x ≤ y → floorVpn x ≤ floorVpn y := fun h => Nat.div_le_div_right h
      rcases hl v hv with hv | ⟨h1, h2, h3⟩
      · rw [hlog, List.mem_cons] at hv
        rcases hv with rfl | hv
        · exact .inr ⟨le_rfl, hmono (by omega), hallow⟩
        · exact .inl hv
      · refine .inr ⟨(hmono (Nat.le_succ cur)).trans h1, h2.trans (hmono (by omega)), h3⟩
    · cases h
      exact ⟨rfl, fun v hv => .inl hv⟩

def KeepsLog (page : CopyState → ℕ → Option (Option ℕ × CopyState)) : Prop :=
  ∀ c v ppn c', page c v = some (ppn, c') → c'.log = c.log

lemma fault_log {env : FaultEnv} {cause : FaultCause} (h : c.fault env v cause = some (ok, c')) : c'.log = c.log := by
  simp only [fault, bind_eq_bind, bind_eq_some_iff, Prod.exists] at h
  obtain ⟨_, _, _, -, h⟩ := h
  cases h
  rfl

lemma keepsLog_translatedUserPage (env : FaultEnv) : KeepsLog (translatedUserPage env) := by
  intro c v ppn c' h
  unfold translatedUserPage at h
  split at h
  · cases h
    rfl
  · simp only [bind_eq_bind, bind_eq_some_iff, Prod.exists] at h
    obtain ⟨_, c₁, hf, h⟩ := h
    cases h
    exact fault_log hf

lemma keepsLog_resolveCow (env : FaultEnv) : KeepsLog (resolveCow env) := by
  intro c v ppn c' h
  unfold resolveCow at h
  split at h
  · simp only [bind_eq_bind, bind_eq_some_iff, Prod.exists] at h
    obtain ⟨_, c₁, hf, h⟩ := h
    cases h
    exact fault_log hf
  · cases h
    rfl

lemma keepsLog_translatedUserPageForWrite (env : FaultEnv) : KeepsLog (translatedUserPageForWrite env) := by
  intro c v ppn c' h
  unfold translatedUserPageForWrite at h
  split at h
  · exact keepsLog_resolveCow env c v ppn c' h
  simp only [bind_eq_bind, bind_eq_some_iff, Prod.exists] at h
  obtain ⟨ok, c₁, hf, h⟩ := h
  split at h
  · exact (keepsLog_resolveCow env c₁ v ppn c' h).trans (fault_log hf)
  · cases h
    exact fault_log hf

lemma pageLoop_log (hpage : KeepsLog page) (hact : Logs act) {fuel : ℕ} {r : Except SysErrNo Unit}
    (h : pageLoop page act start stop fuel cur c = some (r, c')) :
    ∀ v ∈ c'.log, v ∈ c.log ∨ floorVpn cur ≤ v ∧ v ≤ floorVpn (stop - 1) := by
  induction fuel generalizing cur c with
  | zero =>
    cases h
    exact fun v hv => .inl hv
  | succ fuel ih =>
    unfold pageLoop at h
    split at h
    · cases h
      exact fun v hv => .inl hv
    next hlt =>
    split at h
    · cases h
      exact fun v hv => .inl hv
    simp only [bind_eq_bind, bind_eq_some_iff, Prod.exists] at h
    obtain ⟨ppn, c₁, hp, h⟩ := h
    have hlog₁ := hpage c _ ppn c₁ hp
    intro v hv
    cases ppn with
    | none =>
      cases h
      exact .inl (hlog₁ ▸ hv)
    | some ppn =>
      have hmono : ∀ {x y : ℕ}, x ≤ y → floorVpn x ≤ floorVpn y := fun h => Nat.div_le_div_right h
      rcases ih h v hv with hv | ⟨h1, h2⟩
      · rw [(hact _ _ _ _ _).2, hlog₁, List.mem_cons] at hv
        rcases hv with rfl | hv
        · exact .inr ⟨le_rfl, hmono (by omega)⟩
        · exact .inl hv
      · exact .inr ⟨(hmono (Nat.le_add_right _ _)).trans h1, h2⟩

lemma pageLoop_visits (hact : Logs act) (start : ℕ) {lo : ℕ} (hstop : stop ≤ 2 ^ 39)
    (hpage : ∀ c v, c.space = s → lo ≤ v → v ≤ floorVpn (stop - 1) → ∃ ppn, page c v = some (some ppn, c))
    (fuel cur : ℕ) (c : CopyState) (hs : c.space = s) (hlo : lo ≤ floorVpn cur) (hfuel : stop - cur ≤ fuel) :
    ∃ c', pageLoop page act start stop fuel cur c = some (.ok (), c') ∧ (∀ v ∈ c.log, v ∈ c'.log) ∧
      ∀ v, cur < stop → floorVpn cur ≤ v → v ≤ floorVpn (stop - 1) → v ∈ c'.log := by
  induction fuel generalizing cur c with
  | zero => exact ⟨c, rfl, fun _ hv => hv, fun v hlt => by omega⟩
  | succ fuel ih =>
    unfold pageLoop
    by_cases hle : stop ≤ cur
    · exact ⟨c, by rw [if_pos hle], fun _ hv => hv, fun v hlt => absurd hlt (not_lt.2 hle)⟩
    have hcan : canonical cur = true := canonical_of_lt (by omega)
    have hlast : floorVpn cur ≤ floorVpn (stop - 1) := Nat.div_le_div_right (by omega)
    obtain ⟨ppn, hp⟩ := hpage c (floorVpn cur) hs hlo hlast
    rw [if_neg hle, hcan]
    simp only [Bool.not_true, Bool.false_eq_true, if_false, hp, bind_eq_bind, bind_some]
    obtain ⟨hspace, hlog⟩ := hact c (floorVpn cur) ppn (cur - start)
      (min (stop - cur) ((floorVpn cur + 1) * pageSize - cur))
    have hnext : cur < (floorVpn cur + 1) * pageSize := by
      simp only [floorVpn, pageSize]
      omega
    obtain ⟨c', hrun, hkeep, hall⟩ := ih (cur + min (stop - cur) ((floorVpn cur + 1) * pageSize - cur))
      (act c (floorVpn cur) ppn (cur - start) (min (stop - cur) ((floorVpn cur + 1) * pageSize - cur)))
      (hspace.trans hs) (hlo.trans (Nat.div_le_div_right (Nat.le_add_right _ _))) (by omega)
    rw [hlog] at hkeep
    refine ⟨c', hrun, fun v hv => hkeep v (List.mem_cons_of_mem _ hv), fun v _ h1 h2 => ?_⟩
    rcases Nat.eq_or_lt_of_le h1 with rfl | hgt
    · exact hkeep _ List.mem_cons_self
    · refine hall v ?_ ?_ h2 <;> simp only [floorVpn, pageSize] at * <;> omega

end CopyState

/-! ### Stretches of user memory -/

/-- Nothing but user mappings in `[lo, hi)`: neither a leaf the supervisor may use nor a range that
passes the permission check belongs to anything else. -/
structure MemorySetInner.UserOnly (s : MemorySetInner) (lo hi : ℕ) : Prop where
  readable : ∀ v, lo ≤ v → v < hi → v < userLimit → s.pageTable.supervisorReads v = true →
    s.Grants { r := true } v
  writable : ∀ v, lo ≤ v → v < hi → v < userLimit → s.pageTable.supervisorWrites v = true →
    s.Grants { w := true } v
  checked : ∀ wanted : MapPermission, wanted = { r := true } ∨ wanted = { w := true } →
    ∀ start stop, lo ≤ floorVpn start → floorVpn (stop - 1) < hi →
      userRangeHasPermIn s start stop wanted false = true →
      ∀ v, floorVpn start ≤ v → v ≤ floorVpn (stop - 1) → s.Grants wanted v

/-- The areas without the user bit are trap contexts: in the user range and resident. -/
def MemorySetInner.SupervisorResident (s : MemorySetInner) : Prop :=
  ∀ a ∈ s.areas, a.mapPerm.u = false → a.vpnRange.stop ≤ userLimit ∧ ∀ v ∈ a.vpnRange,
    (s.pageTable.translate v).isSome = true ∧ s.pageTable.isCowPage v = false

lemma checkedUserRange_ok (hlen : len ≠ 0) (h : checkedUserRange start len = .ok stop) :
    stop = start + len ∧ start + len < wordSize := by
  unfold checkedUserRange at h
  rw [if_neg hlen] at h
  split at h
  · simp at h
  split at h
  · next e he =>
    obtain rfl : e = stop := by simpa using h
    exact checkedAdd_eq_some.1 he
  · simp at h

lemma userRangeHasPerm_eq (hlen : len ≠ 0) (hw : start + len < wordSize) :
    userRangeHasPerm s start len wanted = userRangeHasPermIn s start (start + len) wanted false := by
  rw [userRangeHasPerm, if_neg hlen, checkedAdd, if_pos hw]

section Sound

variable {s : MemorySetInner} {lo hi : ℕ}

variable {g : Globals} {env : FaultEnv} {ret : SyscallRet} {c c' : CopyState} {copy : UserCopy}

lemma UserCopy.logs_act (copy : UserCopy) : CopyState.Logs copy.act := by
  cases copy with
  | read active src len => exact CopyState.logs_readAct src
  | write active dst bytes => exact CopyState.logs_writeAct dst bytes
  | probe dst len => exact CopyState.logs_probeAct

lemma UserCopy.keepsLog_page (env : FaultEnv) (copy : UserCopy) : CopyState.KeepsLog (copy.page env) := by
  cases copy with
  | read active src len => exact CopyState.keepsLog_translatedUserPage env
  | write active dst bytes | probe dst len => exact CopyState.keepsLog_translatedUserPageForWrite env

lemma UserCopy.grants_of_allowed (huser : s.UserOnly lo hi) (hlo : lo ≤ v) (hhi : v < hi) (hv : v < userLimit)
    (h : copy.allowed s.pageTable v = true) : s.Grants copy.wanted v := by
  cases copy with
  | read active src len => exact huser.readable v hlo hhi hv h
  | write active dst bytes | probe dst len => exact huser.writable v hlo hhi hv h

lemma UserCopy.direct_granted (huser : s.UserOnly lo hi) (hlo : lo ≤ floorVpn copy.start)
    (hhi : floorVpn (copy.start + copy.len - 1) < hi) :
    (copy.direct (copy.start + copy.len) ⟨s, g, [], []⟩).2.space = s ∧
      ∀ v ∈ (copy.direct (copy.start + copy.len) ⟨s, g, [], []⟩).2.log, s.Grants copy.wanted v := by
  unfold direct
  split_ifs with hlim hactive
  · simp
  · obtain ⟨hs, hl⟩ := CopyState.rawLoop_log copy.logs_act (rfl : CopyState.rawLoop copy.allowed copy.act
      copy.start copy.len copy.start ⟨s, g, [], []⟩ = (_, _))
    refine ⟨hs, fun v hv => ?_⟩
    obtain ⟨h1, h2, h3⟩ := (hl v hv).resolve_left List.not_mem_nil
    refine grants_of_allowed huser (hlo.trans h1) (lt_of_le_of_lt h2 hhi) (lt_of_le_of_lt h2 ?_) h3
    simp only [floorVpn, pageSize, userSpaceSize, userLimit_eq] at hlim ⊢
    omega
  · simp

lemma UserCopy.paged_granted (huser : s.UserOnly lo hi) (hlo : lo ≤ floorVpn copy.start)
    (hhi : floorVpn (copy.start + copy.len - 1) < hi) (hlen : copy.len ≠ 0) (hword : copy.start + copy.len < wordSize)
    (hs : c.space = s) (hlog : ∀ v ∈ c.log, s.Grants copy.wanted v)
    (h : copy.paged env (copy.start + copy.len) c = some (ret, c')) : ∀ v ∈ c'.log, s.Grants copy.wanted v := by
  unfold paged at h
  rw [hs, userRangeHasPerm_eq hlen hword] at h
  split_ifs at h with hcheck
  · cases h
    exact hlog
  rw [Bool.not_eq_true, Bool.not_eq_false'] at hcheck
  obtain ⟨⟨r, c₂⟩, hloop, heq⟩ := map_eq_some_iff.1 h
  cases heq
  intro v hv
  rcases CopyState.pageLoop_log (copy.keepsLog_page env) copy.logs_act hloop v hv with hv | ⟨h1, h2⟩
  · exact hlog v (by cases copy <;> exact hv)
  · exact huser.checked _ (by cases copy <;> simp [wanted]) _ _ hlo hhi hcheck v h1 h2

lemma UserCopy.granted_of_userOnly (huser : s.UserOnly lo hi) (hin : copy.Within lo hi)
    (h : copy.run env ⟨s, g, [], []⟩ = some (ret, c)) : ∀ v ∈ c.log, s.Grants copy.wanted v := by
  rw [run_eq] at h
  split at h
  · cases h
    simp
  next hlen =>
  split at h
  · cases h
    simp
  next stop hstop =>
  obtain ⟨rfl, hword⟩ := checkedUserRange_ok hlen hstop
  obtain ⟨hs, hlog⟩ := direct_granted (g := g) huser hin.1 (hin.2 hlen)
  split at h
  · cases h
    exact hlog
  · exact paged_granted huser hin.1 (hin.2 hlen) hlen hword hs hlog h

end Sound

/-! ### Nothing less will do -/

section Exact

variable {s : MemorySetInner} (g : Globals) (env : FaultEnv)

lemma checkedUserRange_of_lt (h0 : start ≠ 0) (hlen : len ≠ 0) (hlt : start + len ≤ userSpaceSize) :
    checkedUserRange start len = .ok (start + len) := by
  unfold userSpaceSize at hlt
  have hcan : canonical start = true := canonical_of_lt (by omega)
  have hadd : checkedAdd start len = some (start + len) := by
    rw [checkedAdd, if_pos (by unfold wordSize; omega)]
  simp [checkedUserRange, hlen, h0, hcan, hadd]

variable {v : ℕ} {copy : UserCopy} {pt : PageTable}

lemma translate_of_flags {f : RVPTEFlags} (hf : pt.flagsAt v = some f)
    (hl : f.isLeaf = true) : ∃ ppn, pt.translate v = some ppn := by
  obtain ⟨⟨lvl, p⟩, hp, rfl⟩ := map_eq_some_iff.1 hf
  exact ⟨_, by rw [PageTable.translate, hp]; exact if_pos hl⟩

lemma translate_of_supervisorReads (h : pt.supervisorReads v = true) : ∃ ppn, pt.translate v = some ppn := by
  unfold supervisorReads at h
  split at h
  · next f hf => exact translate_of_flags hf (by simp [RVPTEFlags.isLeaf, h])
  · simp at h

lemma translate_of_supervisorWrites (h : pt.supervisorWrites v = true) : ∃ ppn, pt.translate v = some ppn := by
  unfold supervisorWrites at h
  split at h
  · next f hf => exact translate_of_flags hf (by simp [RVPTEFlags.isLeaf, h])
  · simp at h

lemma UserCopy.run_direct (hactive : copy.active = true) (hstart : copy.start = v * pageSize + 1)
    (hlen : copy.len = 1) (hv : v < userLimit) (h : copy.allowed s.pageTable v = true) :
    ∃ ret c, copy.run env ⟨s, g, [], []⟩ = some (ret, c) ∧ v ∈ c.log := by
  have hppn : ∃ ppn, s.pageTable.translate v = some ppn := by
    cases copy <;> first | exact translate_of_supervisorReads h | exact translate_of_supervisorWrites h
  obtain ⟨ppn, hppn⟩ := hppn
  rw [userLimit_eq] at hv
  have hlim : v * pageSize + 1 + 1 ≤ userSpaceSize := by unfold pageSize userSpaceSize; omega
  have hfloor : floorVpn (v * pageSize + 1) = v := by unfold floorVpn pageSize; omega
  have hfast : ¬ (CopyState.currentUserCopyFastLimit < 1 ∨ userSpaceSize ≤ v * pageSize + 1 ∨
      userSpaceSize < v * pageSize + 1 + 1) := by unfold CopyState.currentUserCopyFastLimit; omega
  have hdirect : copy.direct (v * pageSize + 1 + 1) ⟨s, g, [], []⟩ = (true, copy.act ⟨s, g, [], []⟩ v ppn 0 1) := by
    rw [direct, hlen, hstart, if_neg hfast, if_pos hactive]
    simp [CopyState.rawLoop, hfloor, h, hppn]
  refine ⟨.ok 1, copy.act ⟨s, g, [], []⟩ v ppn 0 1, ?_, ?_⟩
  · simp [run_eq, hlen, hstart, checkedUserRange_of_lt (Nat.succ_ne_zero _) one_ne_zero hlim, hdirect]
  · rw [(copy.logs_act _ _ _ _ _).2]
    exact List.mem_singleton_self v

def firstByte (v : ℕ) : ℕ := max 1 (v * pageSize)

lemma floorVpn_firstByte (v : ℕ) : floorVpn (firstByte v) = v := by
  unfold floorVpn firstByte pageSize
  omega

section Resident

variable {a : MapArea} {v w : ℕ} {wanted : MapPermission}

lemma resident_range (hfind : s.areas.find? (fun a => w ∈ a.vpnRange) = some a) (hwv : w ≤ v)
    (hv : v ∈ a.vpnRange) (hperm : a.mapPerm.contains wanted = true) (hlim : a.vpnRange.stop ≤ userLimit) :
    ∃ len, len ≠ 0 ∧ floorVpn (firstByte w + len - 1) = v ∧ firstByte w + len ≤ userSpaceSize ∧
      userRangeHasPermIn s (firstByte w) (firstByte w + len) wanted false = true := by
  have hvl := lt_of_lt_of_le hv.2 hlim
  have hw0 : firstByte w ≤ v * pageSize + 1 := by
    unfold firstByte pageSize
    omega
  have hsum : firstByte w + (v * pageSize + 2 - firstByte w) = v * pageSize + 2 := by omega
  have hlast : floorVpn (v * pageSize + 2 - 1) = v := by
    unfold floorVpn pageSize
    omega
  refine ⟨v * pageSize + 2 - firstByte w, by omega, ?_, ?_, ?_⟩
  · rw [hsum, hlast]
  · rw [hsum]
    rw [userLimit_eq] at hvl
    unfold pageSize userSpaceSize
    omega
  · rw [hsum]
    rw [userLimit_eq] at hvl
    refine userRangeHasPermIn_of_find ?_ ?_ ?_ ?_ ?_ hperm
    · exact canonical_of_lt (by unfold pageSize at hw0; omega)
    · exact canonical_of_lt (by unfold pageSize; omega)
    · rwa [floorVpn_firstByte, hlast]
    · rwa [floorVpn_firstByte]
    · rw [hlast]
      exact hv.2

/-- A copy over such a range touches its last page, if the pages of the area are resident. -/
lemma UserCopy.run_paged (hactive : copy.active = false) (hstart : copy.start = firstByte w) (hlen : copy.len ≠ 0)
    (hlast : floorVpn (firstByte w + copy.len - 1) = v) (hsum : firstByte w + copy.len ≤ userSpaceSize)
    (hcheck : userRangeHasPermIn s (firstByte w) (firstByte w + copy.len) copy.wanted false = true)
    (hmem : w ∈ a.vpnRange) (hv : v ∈ a.vpnRange) (hwv : w ≤ v)
    (hres : ∀ x ∈ a.vpnRange, (s.pageTable.translate x).isSome = true ∧ s.pageTable.isCowPage x = false) :
    ∃ ret c, copy.run env ⟨s, g, [], []⟩ = some (ret, c) ∧ v ∈ c.log := by
  have hpage : ∀ c x, c.space = s → w ≤ x → x ≤ floorVpn (firstByte w + copy.len - 1) →
      ∃ ppn, copy.page env c x = some (some ppn, c) := by
    intro c x hc h1 h2
    have hx := hres x ⟨hmem.1.trans h1, lt_of_le_of_lt (hlast ▸ h2) hv.2⟩
    obtain ⟨ppn, hppn⟩ := isSome_iff_exists.1 hx.1
    refine ⟨ppn, ?_⟩
    cases copy <;> simp [page, CopyState.translatedUserPage, CopyState.translatedUserPageForWrite,
      CopyState.resolveCow, hc, hppn, hx.2]
  have hword : firstByte w + copy.len < wordSize := lt_of_le_of_lt hsum (by decide)
  have hrestart : copy.restart ⟨s, g, [], []⟩ = ⟨s, g, [], []⟩ := by cases copy <;> rfl
  obtain ⟨c, hrun, -, hall⟩ := CopyState.pageLoop_visits copy.logs_act (firstByte w) (hsum.trans (by decide)) hpage
    copy.len (firstByte w) ⟨s, g, [], []⟩ rfl (floorVpn_firstByte w).ge (by omega)
  refine ⟨.ok copy.len, c, ?_, hall v (by omega) (by rwa [floorVpn_firstByte]) hlast.ge⟩
  rw [run_eq, if_neg hlen, hstart, checkedUserRange_of_lt (by unfold firstByte; omega) hlen hsum]
  simp [direct, hactive, paged, hstart, userRangeHasPerm_eq hlen hword, hcheck, hrestart,
    hrun, CopyState.finish, Except.map]

end Resident

end Exact

/-- The copies within a stretch of the address space touch only pages of areas that grant user code
the access exactly when the stretch holds nothing but user mappings. -/
theorem copies_within_granted_iff {s : MemorySetInner} (g : Globals) (env : FaultEnv) (lo hi : ℕ)
    (hsup : s.SupervisorResident) :
    (∀ copy : UserCopy, copy.Within lo hi → ∀ ret c, copy.run env ⟨s, g, [], []⟩ = some (ret, c) →
      ∀ v ∈ c.log, s.Grants copy.wanted v) ↔ s.UserOnly lo hi := by
  have hpage : ∀ v, floorVpn (v * pageSize + 1) = v := fun v => by
    unfold floorVpn pageSize
    omega
  constructor
  · intro h
    have hdirect : ∀ (copy : UserCopy) {v : ℕ}, copy.active = true → copy.start = v * pageSize + 1 → copy.len = 1 →
        lo ≤ v → v < hi → v < userLimit → copy.allowed s.pageTable v = true → s.Grants copy.wanted v := by
      intro copy v hactive hstart hlen hlo hhi hlim hallow
      obtain ⟨ret, c, hrun, hv⟩ := UserCopy.run_direct g env hactive hstart hlen hlim hallow
      refine h copy ⟨?_, fun _ => ?_⟩ ret c hrun v hv
      · rwa [hstart, hpage]
      · rwa [hstart, hlen, Nat.add_sub_cancel, hpage]
    refine ⟨fun v hlo hhi hlim hread => ?_, fun v hlo hhi hlim hwrite => ?_, fun wanted hwant start stop hlo hhi
      hcheck v h1 h2 => ?_⟩
    · exact hdirect (.read true (v * pageSize + 1) 1) rfl rfl rfl hlo hhi hlim hread
    · exact hdirect (.write true (v * pageSize + 1) [0]) rfl rfl rfl hlo hhi hlim hwrite
    simp only [userRangeHasPermIn, Bool.and_eq_true] at hcheck
    obtain ⟨a, ha, w, hw1, hw2, hfind, hva, hperm⟩ := permLoop_covers hcheck.2 h1 h2
    by_cases hu : a.mapPerm.u = true
    · exact ⟨a, ha, hva, hu, hperm⟩
    obtain ⟨hlim, hres⟩ := hsup a ha (by simpa using hu)
    have hlow : lo ≤ floorVpn (firstByte w) := by
      rw [floorVpn_firstByte]
      exact hlo.trans hw1
    obtain ⟨len, hlen, hlast, hsum, hrange⟩ := resident_range hfind hw2 hva hperm hlim
    have hreach : ∀ copy : UserCopy, copy.active = false → copy.start = firstByte w → copy.len = len →
        copy.wanted = wanted → s.Grants wanted v := by
      rintro copy hactive hstart rfl rfl
      obtain ⟨ret, c, hrun, hvlog⟩ := UserCopy.run_paged g env hactive hstart hlen hlast hsum hrange
        (by simpa using List.find?_some hfind) hva hw2 hres
      refine h copy ⟨hstart ▸ hlow, fun _ => ?_⟩ ret c hrun v hvlog
      rw [hstart, hlast]
      exact lt_of_le_of_lt h2 hhi
    rcases hwant with rfl | rfl
    · exact hreach (.read false (firstByte w) len) rfl rfl rfl rfl
    · exact hreach (.probe (firstByte w) len) rfl rfl rfl rfl
  · exact fun huser copy hin ret c hrun => UserCopy.granted_of_userOnly huser hin hrun

def plainFaults : FaultEnv := ⟨fun _ => 1, fun _ => none⟩

namespace Process

lemma userOnly_written : written.space.UserOnly 0 (userLimit - 1) := by
  have hgrant : ∀ b ∈ written.space.areas, b.vpnRange.start < userLimit - 1 →
      b.mapPerm.u = true ∧ b.mapPerm.contains { r := true } = true ∧ b.mapPerm.contains { w := true } = true := by
    decide +kernel
  have hin : ∀ v, v < userLimit - 1 → written.space.pageTable.findPte v ≠ none →
      written.space.Grants { r := true } v ∧ written.space.Grants { w := true } v := by
    intro v hv hp
    have hlt : v < 2 ^ 26 := lt_trans hv (by decide)
    have hpage : ∃ b ∈ written.space.areas, v ∈ b.vpnRange := by
      rcases (confined_of_reaches confined_fresh reaches_written).cover v hlt hp with
        ⟨b, hb, -, hbv⟩ | ⟨b, hb, -, hbv⟩ <;> exact ⟨b, hb, hbv⟩
    obtain ⟨b, hb, hbv⟩ := hpage
    obtain ⟨hu, hr, hw⟩ := hgrant b hb (lt_of_le_of_lt hbv.1 hv)
    exact ⟨⟨b, hb, hbv, hu, hr⟩, ⟨b, hb, hbv, hu, hw⟩⟩
  refine ⟨fun v _ hv _ h => ?_, fun v _ hv _ h => ?_, fun wanted _ start stop _ hhi h v h1 h2 => ?_⟩
  · obtain ⟨ppn, hppn⟩ := translate_of_supervisorReads h
    exact (hin v hv (fun hn => by simp [PageTable.translate, hn] at hppn)).1
  · obtain ⟨ppn, hppn⟩ := translate_of_supervisorWrites h
    exact (hin v hv (fun hn => by simp [PageTable.translate, hn] at hppn)).2
  · simp only [userRangeHasPermIn, Bool.and_eq_true] at h
    obtain ⟨a, ha, w, -, -, -, hva, hperm⟩ := permLoop_covers h.2 h1 h2
    exact ⟨a, ha, hva, (hgrant a ha (by have := hva.1; omega)).1, hperm⟩

lemma supervisorResident_written : written.space.SupervisorResident := by
  have htrap : ∀ a ∈ written.space.areas, a.mapPerm.u = false →
      a.vpnRange.start = userLimit - 1 ∧ a.vpnRange.stop = userLimit := by decide +kernel
  intro a ha hu
  obtain ⟨hstart, hstop⟩ := htrap a ha hu
  refine ⟨hstop.le, fun v hv => ?_⟩
  obtain rfl : v = userLimit - 1 := by
    have := hv.1
    have := hv.2
    omega
  decide +kernel

theorem copies_within_granted_written : written.space.SupervisorResident ∧
    ∀ copy : UserCopy, copy.Within 0 (userLimit - 1) → ∀ ret c,
      copy.run plainFaults ⟨written.space, written.kernel, [], []⟩ = some (ret, c) →
        ∀ v ∈ c.log, written.space.Grants copy.wanted v :=
  ⟨supervisorResident_written,
    (copies_within_granted_iff written.kernel plainFaults 0 (userLimit - 1) supervisorResident_written).2
      userOnly_written⟩

/-- A pointer to the trap context of the thread is accepted by both paths: the saved registers are
overwritten and read back, although no area grants user code the page. -/
theorem copies_reach_trap_context :
    let c : CopyState := ⟨fresh.space, fresh.kernel, [], []⟩
    let seen (r : SyscallRet × CopyState) := (r.1, r.2.log, r.2.kernel.mem 11 0)
    (copyToUser plainFaults true 0x2F_FFFF_F000 [0x41] c).map seen = some (.ok 1, [userLimit - 1], 0x41) ∧
    (copyToUser plainFaults false 0x2F_FFFF_F000 [0x41] c).map seen = some (.ok 1, [userLimit - 1], 0x41) ∧
    (copyFromUser plainFaults true 0x2F_FFFF_F000 1 c).map seen = some (.ok 1, [userLimit - 1], 0) ∧
    (copyFromUser plainFaults false 0x2F_FFFF_F000 1 c).map seen = some (.ok 1, [userLimit - 1], 0) ∧
    ¬ fresh.space.Grants { r := true } (userLimit - 1) ∧ ¬ fresh.space.Grants { w := true } (userLimit - 1) := by
  decide +kernel

end Process

end Ya2yOS.Mm
