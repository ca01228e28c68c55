import Mathlib.Data.List.Basic

/-!
# Path names

`path2abs` and `get_abs_path` fold a path into the components of a base.
-/

namespace Ya2yOS.Utils

open List

abbrev Path := List Char

/-- A round of the loop of `path2abs`. -/
def pushElement (cwdv : List Path) (element : Path) : List Path :=
  if element = ['.'] then cwdv else if element = ['.', '.'] then cwdv.dropLast else cwdv ++ [element]

def path2abs (cwdv pathv : List Path) : Path := '/' :: ['/'].intercalate (pathv.foldl pushElement cwdv)

def path2vec (path : Path) : List Path := (path.splitOn '/').filter fun s => !s.isEmpty

def isAbsPath (path : Path) : Bool := path.head? == some '/'

def getAbsPath (base path : Path) : Path :=
  if isAbsPath path then path2abs [] (path2vec path)
  else path2abs (if base = ['/'] then [] else path2vec base) (path2vec path)

/-- What `path2vec` gives as a component. -/
def Name (c : Path) : Prop := c ≠ [] ∧ '/' ∉ c

def Proper (v : List Path) : Prop := ∀ c ∈ v, Name c ∧ c ≠ ['.'] ∧ c ≠ ['.', '.']

/-- An absolute path without empty, dot and dot-dot components. -/
def Canonical (path : Path) : Prop := ∃ v, Proper v ∧ path = '/' :: ['/'].intercalate v

variable {v w : List Path} {base p : Path}

lemma path2vec_append_slash (p q : Path) : path2vec (p ++ '/' :: q) = path2vec p ++ path2vec q := by
  simp [path2vec, splitOn_append_cons_self]

lemma path2vec_intercalate (hv : Proper v) : path2vec ('/' :: ['/'].intercalate v) = v := by
  change path2vec ([] ++ _) = v
  rw [path2vec_append_slash]
  by_cases hnil : v = []
  · subst hnil
    rfl
  · change path2vec (['/'].intercalate v) = v
    rw [path2vec, splitOn_intercalate _ (fun c hc => (hv c hc).1.2) hnil]
    exact filter_eq_self.2 fun c hc => by simpa using (hv c hc).1.1

lemma not_mem_of_mem_splitOn {c : Path} (h : c ∈ p.splitOn '/') : '/' ∉ c := by
  induction p generalizing c with
  | nil =>
    rw [splitOn_nil, mem_singleton] at h
    simp [h]
  | cons x p ih =>
    obtain ⟨d, ds, hd⟩ := exists_cons_of_ne_nil (splitOn_ne_nil '/' p)
    rw [splitOn_cons_eq_if_modifyHead, hd, modifyHead_cons] at h
    rw [hd] at ih
    grind

lemma name_of_mem_path2vec {c : Path} (h : c ∈ path2vec p) : Name c := by
  obtain ⟨hc, hne⟩ := mem_filter.1 h
  exact ⟨by simpa using hne, not_mem_of_mem_splitOn hc⟩

lemma Proper.foldl (hv : Proper v) (hw : ∀ c ∈ w, Name c) : Proper (w.foldl pushElement v) := by
  induction w generalizing v with
  | nil => exact hv
  | cons e w ih =>
    refine ih (fun c hc => ?_) fun c hc => hw c (mem_cons_of_mem _ hc)
    unfold pushElement at hc
    split_ifs at hc with h1 h2
    · exact hv c hc
    · exact hv c (dropLast_subset _ hc)
    · rcases mem_append.1 hc with hc | hc
      · exact hv c hc
      · rw [mem_singleton.1 hc]
        exact ⟨hw e mem_cons_self, h1, h2⟩

/-- On the components of a canonical path the loop of `path2abs` only appends. -/
lemma Proper.foldl_eq_append (hv : Proper v) (w : List Path) : v.foldl pushElement w = w ++ v := by
  induction v generalizing w with
  | nil => simp
  | cons c v ih =>
    obtain ⟨-, h1, h2⟩ := hv c mem_cons_self
    rw [foldl_cons, ih fun c hc => hv c (mem_cons_of_mem _ hc)]
    simp [pushElement, h1, h2]

/-- `get_abs_path` resolves an absolute path against the root. -/
lemma getAbsPath_eq (base path : Path) :
    getAbsPath base path = path2abs (path2vec (if isAbsPath path then ['/'] else base)) (path2vec path) := by
  unfold getAbsPath
  split_ifs with h hb
  · rfl
  · rw [hb]
    rfl
  · rfl

lemma Canonical.proper (hb : Canonical base) : Proper (path2vec base) := by
  obtain ⟨v, hv, rfl⟩ := hb
  rwa [path2vec_intercalate hv]

lemma Canonical.start (hb : Canonical base) (p : Path) : Proper (path2vec (if isAbsPath p then ['/'] else base)) := by
  split_ifs
  · exact fun _ h => absurd h not_mem_nil
  · exact hb.proper

lemma Canonical.resolved (hb : Canonical base) (p : Path) :
    Proper ((path2vec p).foldl pushElement (path2vec (if isAbsPath p then ['/'] else base))) :=
  (hb.start p).foldl fun _ => name_of_mem_path2vec

lemma Canonical.getAbsPath_self (h : Canonical p) (base : Path) : getAbsPath base p = p := by
  obtain ⟨v, hv, rfl⟩ := h
  rw [getAbsPath_eq, path2abs, path2vec_intercalate hv, hv.foldl_eq_append]
  rfl

theorem get_abs_path_laws (base : Path) (hb : Canonical base) :
    (∀ p, Canonical (getAbsPath base p)) ∧ (∀ base' p, getAbsPath base' (getAbsPath base p) = getAbsPath base p) ∧
      ∀ p q, p ≠ [] → isAbsPath q = false → getAbsPath (getAbsPath base p) q = getAbsPath base (p ++ '/' :: q) := by
  have hcanonical : ∀ p, Canonical (getAbsPath base p) := fun p => ⟨_, hb.resolved p, getAbsPath_eq base p⟩
  refine ⟨hcanonical, fun base' p => (hcanonical p).getAbsPath_self base', ?_⟩
  intro p q hp hq
  have habs : isAbsPath (p ++ '/' :: q) = isAbsPath p := by
    cases p with
    | nil => exact absurd rfl hp
    | cons c p => rfl
  rw [getAbsPath_eq _ q, hq, if_neg Bool.false_ne_true, getAbsPath_eq base p, path2abs, path2abs,
    path2vec_intercalate (hb.resolved p), getAbsPath_eq, habs, path2abs, path2vec_append_slash, foldl_append]

theorem get_abs_path_laws_usr :
    let base := "/usr".toList
    getAbsPath (getAbsPath base "../x".toList) "lib".toList = getAbsPath base "../x/lib".toList ∧
      getAbsPath base "../x/lib".toList = "/x/lib".toList :=
  ⟨(get_abs_path_laws _ ⟨["usr".toList], by simp [Proper, Name], rfl⟩).2.2 "../x".toList _ (by decide) rfl, by decide⟩

end Ya2yOS.Utils
