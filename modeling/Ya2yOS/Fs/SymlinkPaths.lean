import Mathlib.Data.List.DropRight
import Ya2yOS.Utils.Paths
import Ya2yOS.Utils.SysErrNo

/-!
# Symbolic links inside a path

`join_path` and the expansion of the first link before the last component of a path. What lwext4 says of the links
is a parameter: which paths are links, and the text that `read_link` leaves in its buffer.
-/

namespace Ya2yOS.Fs

open List Ya2yOS.Utils

/-- A round of the second loop of `join_path`. -/
def joinPart (comps : List Path) (part : Path) : List Path :=
  if part = [] ∨ part = ['.'] then comps else if part = ['.', '.'] then comps.dropLast else comps ++ [part]

def joinPath (base rel : Path) : Path :=
  '/' :: ['/'].intercalate ((rel.splitOn '/').foldl joinPart (path2vec base).dropLast)

/-- The loop of `first_intermediate_symlink`, which has found no link up to `start`. -/
def symlinkFrom (isSymlink : Path → Bool) (start : Path) : List Path → Option Path
  | [] => none
  | c :: cs =>
    let next := start ++ '/' :: c
    if isSymlink next then some next else symlinkFrom isSymlink next cs

def firstIntermediateSymlink (isSymlink : Path → Bool) (path : Path) : Option Path :=
  let components := path2vec path
  if components.length < 2 then none else symlinkFrom isSymlink [] components.dropLast

def resolveIntermediateSymlink (isSymlink : Path → Bool) (readLink : Path → Except SysErrNo Path) (path : Path) :
    Except SysErrNo (Option Path) :=
  match firstIntermediateSymlink isSymlink path with
  | none => .ok none
  | some link => do
    let target ← readLink link
    let resolved := if isAbsPath target then joinPath ['/'] target else joinPath link target
    if link <+: path then .ok (some (resolved.rdropWhile (· = '/') ++ path.drop link.length)) else .error .ENOENT

def slashed (v : List Path) : Path := v.flatMap ('/' :: ·)

variable {v dir rest : List Path} {p : Path} {isSymlink : Path → Bool}

@[simp] lemma slashed_append (v w : List Path) : slashed (v ++ w) = slashed v ++ slashed w := flatMap_append

lemma slashed_eq (hv : v ≠ []) : slashed v = '/' :: ['/'].intercalate v := by
  induction v with
  | nil => exact absurd rfl hv
  | cons c v ih =>
    cases v with
    | nil => simp [slashed]
    | cons d v => simpa [slashed] using ih (cons_ne_nil d v)

/-- `join_path` drops the last component of its base and goes on as `path2abs`. -/
lemma joinPath_eq (base rel : Path) : joinPath base rel = path2abs (path2vec base).dropLast (path2vec rel) := by
  have hpart : joinPart = fun comps part => if !part.isEmpty then pushElement comps part else comps := by
    funext comps part
    cases part <;> simp [joinPart, pushElement]
  rw [joinPath, path2abs, path2vec.eq_1 rel, foldl_filter, hpart]

lemma path2vec_slashed (hv : Proper v) : path2vec (slashed v) = v := by
  cases v with
  | nil => rfl
  | cons => rw [slashed_eq (cons_ne_nil _ _), path2vec_intercalate hv]

/-- Without a slash at its end a canonical path is the text of its components. -/
lemma rdropWhile_slash (h : Canonical p) : p.rdropWhile (· = '/') = slashed (path2vec p) := by
  obtain ⟨v, hv, rfl⟩ := h
  rw [path2vec_intercalate hv]
  rcases eq_nil_or_concat v with rfl | ⟨w, c, rfl⟩
  · rfl
  · obtain ⟨⟨hne, hslash⟩, -⟩ := hv c (by simp)
    rw [← slashed_eq (by simp), rdropWhile_eq_self_iff]
    intro hl
    have hlast : (slashed (w.concat c)).getLast hl = c.getLast hne := by
      simp [slashed, getLast_append_of_ne_nil, getLast_cons hne]
    rw [hlast, decide_eq_true_iff]
    exact fun h => hslash (h ▸ getLast_mem hne)

/-- The search passes over the components that are no links. -/
lemma symlinkFrom_append (start : Path) (cs : List Path)
    (h : ∀ d ≠ [], d <+: dir → isSymlink (start ++ slashed d) = false) :
    symlinkFrom isSymlink start (dir ++ cs) = symlinkFrom isSymlink (start ++ slashed dir) cs := by
  induction dir generalizing start with
  | nil => simp [slashed]
  | cons c dir ih =>
    have hc : isSymlink (start ++ '/' :: c) = false := by
      simpa [slashed] using h [c] (cons_ne_nil c []) (by simp)
    rw [cons_append, symlinkFrom]
    simp only [hc, Bool.false_eq_true, if_false]
    rw [ih _ fun d _ hp => by simpa [slashed] using h (c :: d) (cons_ne_nil c d) (by simpa using hp)]
    simp [slashed]

/-- The target of a link is resolved against the directory of the link. -/
lemma joinPath_link {link target : Path} (hv : Proper (dir ++ [link])) :
    (if isAbsPath target then joinPath ['/'] target else joinPath (slashed (dir ++ [link])) target) =
      getAbsPath ('/' :: ['/'].intercalate dir) target := by
  have hdir : Proper dir := fun c hc => hv c (mem_append_left _ hc)
  rw [getAbsPath_eq]
  split_ifs
  · rw [joinPath_eq]
    rfl
  · rw [joinPath_eq, path2vec_slashed hv, dropLast_concat, path2vec_intercalate hdir]

lemma firstIntermediateSymlink_slashed {link : Path} (hv : Proper (dir ++ link :: rest)) (hrest : rest ≠ [])
    (hlink : isSymlink (slashed (dir ++ [link])) = true) (hnone : ∀ d ≠ [], d <+: dir → isSymlink (slashed d) = false) :
    firstIntermediateSymlink isSymlink (slashed (dir ++ link :: rest)) = some (slashed (dir ++ [link])) := by
  have hlast : (dir ++ link :: rest).dropLast = dir ++ link :: rest.dropLast := by
    rw [dropLast_append_cons, dropLast_cons_of_ne_nil hrest]
  have hlen : ¬(dir ++ link :: rest).length < 2 := by grind
  have hstart : slashed dir ++ '/' :: link = slashed (dir ++ [link]) := by simp [slashed]
  simp only [firstIntermediateSymlink, path2vec_slashed hv, if_neg hlen, hlast]
  rw [symlinkFrom_append [] _ hnone, symlinkFrom, nil_append, hstart]
  exact if_pos hlink

/-- A path without links before its last component is left alone. Otherwise the components up to the first link are
replaced by those of its target, resolved against the directory of the link, and what follows them stays; they are
again those of a canonical path. -/
theorem intermediate_symlink_expanded (isSymlink : Path → Bool) (readLink : Path → Except SysErrNo Path) :
    (∀ v, Proper v → (∀ d ≠ [], d <+: v.dropLast → isSymlink (slashed d) = false) →
      resolveIntermediateSymlink isSymlink readLink (slashed v) = .ok none) ∧
    ∀ dir link rest, Proper (dir ++ link :: rest) → rest ≠ [] → isSymlink (slashed (dir ++ [link])) = true →
      (∀ d ≠ [], d <+: dir → isSymlink (slashed d) = false) →
      (∀ target, Proper (path2vec (getAbsPath ('/' :: ['/'].intercalate dir) target) ++ rest)) ∧
      resolveIntermediateSymlink isSymlink readLink (slashed (dir ++ link :: rest)) =
        (readLink (slashed (dir ++ [link]))).map fun target =>
          some (slashed (path2vec (getAbsPath ('/' :: ['/'].intercalate dir) target) ++ rest)) := by
  constructor
  · intro v hv hnone
    have hfirst : firstIntermediateSymlink isSymlink (slashed v) = none := by
      simp only [firstIntermediateSymlink, path2vec_slashed hv]
      split_ifs
      · rfl
      · rw [← append_nil v.dropLast, symlinkFrom_append [] _ hnone, symlinkFrom]
    rw [resolveIntermediateSymlink, hfirst]
  · intro dir link rest hv hrest hlink hnone
    have hdir : Canonical ('/' :: ['/'].intercalate dir) := ⟨dir, fun c hc => hv c (mem_append_left _ hc), rfl⟩
    have hres : ∀ target, Canonical (getAbsPath ('/' :: ['/'].intercalate dir) target) := fun target =>
      ⟨_, hdir.resolved target, getAbsPath_eq ..⟩
    refine ⟨fun target c hc => ?_, ?_⟩
    · rcases mem_append.1 hc with hc | hc
      · exact (hres target).proper c hc
      · exact hv c (by simp [hc])
    have hsplit : slashed (dir ++ link :: rest) = slashed (dir ++ [link]) ++ slashed rest := by
      rw [← slashed_append, append_assoc, singleton_append]
    unfold resolveIntermediateSymlink
    simp only [firstIntermediateSymlink_slashed hv hrest hlink hnone]
    cases readLink (slashed (dir ++ [link])) with
    | error e => rfl
    | ok target =>
      change (if _ then _ else _) = Except.ok (some (slashed _))
      rw [joinPath_link fun c hc => hv c (by grind), if_pos ⟨_, hsplit.symm⟩, hsplit, drop_left, slashed_append,
        rdropWhile_slash (hres target)]

theorem intermediate_symlink_expanded_lib :
    resolveIntermediateSymlink (· = "/lib".toList) (fun _ => .ok "usr/lib".toList) "/lib/x".toList =
      .ok (some "/usr/lib/x".toList) :=
  ((intermediate_symlink_expanded _ _).2 [] "lib".toList ["x".toList] (by simp [Proper, Name]) (by simp) rfl
    fun d hd hp => absurd (prefix_nil.1 hp) hd).2

end Ya2yOS.Fs
