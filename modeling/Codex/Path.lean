import Codex.Foundation.Text

/-!
# Absolute paths

An absolute path is its list of components, and it is normalised: no component
is empty, `.` or `..`, and none contains a separator. `resolvePathAgainstBase`
expands a leading `~`, puts a relative path behind its base and removes the dots
without looking at the file system; at the root a `..` stays at the root. The
platform is one with `/` as separator and no path prefixes.
-/

namespace Codex

open Foundation List

def isAbsolute (path : Text) : Bool := path.head? = some '/'

/-- `..` and ordinary names; `.` and empty pieces do not count. -/
def components (path : Text) : List Text :=
  (path.splitOn '/').filter fun c => c ≠ [] ∧ c ≠ ['.']

def joinPath (base path : Text) : Text :=
  if isAbsolute path then path
  else if base = [] ∨ base.getLast? = some '/' then base ++ path
  else base ++ '/' :: path

def IsComponent (c : Text) : Prop := c ≠ [] ∧ c ≠ ['.'] ∧ c ≠ ['.', '.'] ∧ '/' ∉ c

instance (c : Text) : Decidable (IsComponent c) := inferInstanceAs (Decidable (_ ∧ _ ∧ _ ∧ _))

theorem mem_components {path c : Text} (h : c ∈ components path) (hp : c ≠ ['.', '.']) :
    IsComponent c := by
  obtain ⟨hm, hc⟩ := mem_filter.mp h
  have hc' : c ≠ [] ∧ c ≠ ['.'] := by simpa using hc
  exact ⟨hc'.1, hc'.2, hp, not_mem_of_mem_splitOn hm⟩

structure AbsolutePathBuf where
  comps : List Text
  wf : ∀ c ∈ comps, IsComponent c

theorem AbsolutePathBuf.ext {p q : AbsolutePathBuf} (h : p.comps = q.comps) : p = q := by
  cases p
  cases q
  subst h
  rfl

instance : DecidableEq AbsolutePathBuf := fun p q =>
  decidable_of_iff (p.comps = q.comps) ⟨AbsolutePathBuf.ext, fun h => h ▸ rfl⟩

namespace AbsolutePathBuf

def root : AbsolutePathBuf := ⟨[], by simp⟩

def parent (p : AbsolutePathBuf) : Option AbsolutePathBuf :=
  if p.comps = [] then none
  else some ⟨p.comps.dropLast, fun c hc => p.wf c (dropLast_subset _ hc)⟩

def ancestors (p : AbsolutePathBuf) : List AbsolutePathBuf :=
  (List.range (p.comps.length + 1)).map fun n =>
    ⟨p.comps.take n, fun c hc => p.wf c (mem_of_mem_take hc)⟩

def display (p : AbsolutePathBuf) : Text :=
  if p.comps = [] then ['/'] else p.comps.flatMap fun c => '/' :: c

end AbsolutePathBuf

/-! ## Normalisation -/

/-- One component pushed on a normalised path: `..` removes the last one. -/
def pushComponent (acc : List Text) (c : Text) : List Text :=
  if c = ['.', '.'] then acc.dropLast else acc ++ [c]

def normalizePath (base cs : List Text) : List Text := cs.foldl pushComponent base

theorem normalizePath_wf (cs base : List Text) (hb : ∀ c ∈ base, IsComponent c)
    (hcs : ∀ c ∈ cs, c ≠ ['.', '.'] → IsComponent c) :
    ∀ c ∈ normalizePath base cs, IsComponent c := by
  induction cs generalizing base with
  | nil => exact hb
  | cons d cs ih =>
    refine ih (pushComponent base d) ?_ fun c hc => hcs c (mem_cons_of_mem _ hc)
    intro c hc
    unfold pushComponent at hc
    split at hc
    · exact hb c (dropLast_subset _ hc)
    · rename_i hd
      rcases mem_append.mp hc with hc | hc
      · exact hb c hc
      · obtain rfl := mem_singleton.mp hc
        exact hcs c (by simp) hd

section
variable (homeDir : Option Text)

def maybeExpandHomeDirectory (path : Text) : Text :=
  match homeDir, path with
  | some home, ['~'] => home
  | some home, '~' :: '/' :: rest => joinPath home (rest.dropWhile (· = '/'))
  | _, path => path

def resolvePathAgainstBase (path : Text) (basePath : AbsolutePathBuf) : AbsolutePathBuf :=
  let expanded := maybeExpandHomeDirectory homeDir path
  if isAbsolute expanded then
    ⟨normalizePath [] (components expanded),
      normalizePath_wf _ _ (by simp) fun _ hc hp => mem_components hc hp⟩
  else
    ⟨normalizePath basePath.comps (components expanded),
      normalizePath_wf _ _ basePath.wf fun _ hc hp => mem_components hc hp⟩

def AbsolutePathBuf.join (base : AbsolutePathBuf) (path : Text) : AbsolutePathBuf :=
  resolvePathAgainstBase homeDir path base

end

/-! ## Texts of absolute paths -/

theorem intercalate_cons (sep x : Text) (cs : List Text) :
    List.intercalate sep (x :: cs) = x ++ cs.flatMap fun c => sep ++ c := by
  induction cs generalizing x with
  | nil => simp [List.intercalate]
  | cons c cs ih =>
    have hstep : List.intercalate sep (x :: c :: cs) = x ++ (sep ++ List.intercalate sep (c :: cs)) := by
      simp [List.intercalate, List.intersperse]
    rw [hstep, ih c]
    simp

@[simp] theorem isAbsolute_display (p : AbsolutePathBuf) : isAbsolute p.display = true := by
  unfold isAbsolute AbsolutePathBuf.display
  cases p.comps with
  | nil | cons c cs => rfl

theorem filter_components {cs : List Text} (hcs : ∀ c ∈ cs, IsComponent c) :
    (cs.filter fun c => c ≠ [] ∧ c ≠ ['.']) = cs := by
  refine filter_eq_self.mpr fun c hc => ?_
  exact decide_eq_true ⟨(hcs c hc).1, (hcs c hc).2.1⟩

@[simp] theorem components_display (p : AbsolutePathBuf) : components p.display = p.comps := by
  have hsplit : ∀ cs : List Text, (∀ c ∈ cs, IsComponent c) →
      (cs.flatMap fun c => '/' :: c).splitOn '/' = [] :: cs := by
    intro cs hcs
    have hjoin := intercalate_cons ['/'] [] cs
    rw [nil_append] at hjoin
    have hpieces : ∀ c ∈ [] :: cs, '/' ∉ c := by
      intro c hc
      rcases mem_cons.mp hc with rfl | hc
      · exact not_mem_nil
      · exact (hcs c hc).2.2.2
    have hback := splitOn_intercalate ('/' : Char) hpieces (cons_ne_nil _ _)
    rw [hjoin] at hback
    exact hback
  unfold components AbsolutePathBuf.display
  split
  · rename_i hnil
    rw [hnil]
    decide
  · rw [hsplit p.comps p.wf, filter_cons_of_neg (by simp)]
    exact filter_components p.wf

theorem normalizePath_of_normal (cs base : List Text) (hcs : ∀ c ∈ cs, IsComponent c) :
    normalizePath base cs = base ++ cs := by
  induction cs generalizing base with
  | nil => exact (append_nil base).symm
  | cons c cs ih =>
    have hc : pushComponent base c = base ++ [c] := if_neg (hcs c (by simp)).2.2.1
    have hrest := ih (base ++ [c]) fun d hd => hcs d (mem_cons_of_mem _ hd)
    rw [List.append_assoc] at hrest
    unfold normalizePath at hrest ⊢
    rw [foldl_cons, hc]
    exact hrest

/-! ## Paths of the process -/

/-- What turns a path text into an absolute path: the home and the working directory. -/
structure ProcessPaths where
  homeDir : Option Text
  currentDir : Option AbsolutePathBuf

/-- `AbsolutePathBuf::from_absolute_path`: it fails where the working directory is needed and
cannot be read. -/
def ProcessPaths.absolutePath (paths : ProcessPaths) (path : Text) : Option AbsolutePathBuf :=
  if isAbsolute (maybeExpandHomeDirectory paths.homeDir path) then
    some (resolvePathAgainstBase paths.homeDir path .root)
  else paths.currentDir.map (resolvePathAgainstBase paths.homeDir path)

theorem maybeExpandHomeDirectory_of_not_tilde (homeDir : Option Text) {path : Text}
    (h : path.head? ≠ some '~') : maybeExpandHomeDirectory homeDir path = path := by
  unfold maybeExpandHomeDirectory
  split
  · exact absurd rfl h
  · exact absurd rfl h
  · rfl

@[simp] theorem ProcessPaths.absolutePath_display (paths : ProcessPaths) (p : AbsolutePathBuf) :
    paths.absolutePath p.display = some p := by
  have hexpand : maybeExpandHomeDirectory paths.homeDir p.display = p.display := by
    refine maybeExpandHomeDirectory_of_not_tilde _ ?_
    have habs := isAbsolute_display p
    rw [of_decide_eq_true habs]
    decide
  unfold ProcessPaths.absolutePath resolvePathAgainstBase
  simp only [hexpand, isAbsolute_display, if_true]
  refine congrArg some (AbsolutePathBuf.ext ?_)
  simp only [components_display]
  rw [normalizePath_of_normal _ _ p.wf, nil_append]

theorem AbsolutePathBuf.join_comps (homeDir : Option Text) (p : AbsolutePathBuf) {name : Text}
    (hname : IsComponent name) (htilde : name.head? ≠ some '~') :
    (p.join homeDir name).comps = p.comps ++ [name] := by
  have habs : isAbsolute name = false := by
    refine decide_eq_false fun h => hname.2.2.2 ?_
    exact mem_of_mem_head? h
  have hcomps : components name = [name] := by
    have hsplit : name.splitOn '/' = [name] := by
      have hpiece : ∀ c ∈ [name], '/' ∉ c := by simpa using hname.2.2.2
      have hback := splitOn_intercalate '/' hpiece (cons_ne_nil _ _)
      rwa [intercalate_cons, flatMap_nil, append_nil] at hback
    unfold components
    rw [hsplit]
    exact filter_components (by simpa using hname)
  unfold AbsolutePathBuf.join resolvePathAgainstBase
  simp only [maybeExpandHomeDirectory_of_not_tilde homeDir htilde, habs, hcomps]
  exact normalizePath_of_normal _ _ (by simpa using hname)

def fileName (path : Text) : Option Text :=
  match (components path).getLast? with
  | some c => if c = ['.', '.'] then none else some c
  | none => none

/-- `Path::parent`: the path without its last component, which may be `..`. -/
def parentText (path : Text) : Option Text :=
  if components path = [] then none
  else some ((if isAbsolute path then ['/'] else []) ++
    List.intercalate ['/'] (components path).dropLast)

/-- A file name without its extension: a leading dot does not start one. -/
def fileStem (path : Text) : Option Text :=
  (fileName path).map fun name =>
    let back := name.reverse
    let stem := (back.dropWhile (· ≠ '.')).drop 1
    if stem = [] then name else stem.reverse

end Codex
