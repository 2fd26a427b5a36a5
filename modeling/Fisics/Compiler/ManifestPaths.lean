import Mathlib.Data.List.Nodup

/-!
# Object files of a build manifest

The object of a unit stands under the build directory with the base of the source as its
name, less a ".c" at its end. Two sources share an object exactly when these names are the
same: the directories are left out, and "x" and "x.c" both give "x.o".
-/

namespace Fisics.Manifest

abbrev Path := List Char

structure TranslationUnit where
  source : Path
  object : Option Path
  resolvedSource : Path
  resolvedObject : Path
  deriving DecidableEq

structure BuildManifest where
  root : Option Path
  buildDir : Option Path
  translationUnits : List TranslationUnit
  linkOutput : Option Path
  resolvedRoot : Path
  resolvedOutput : Option Path
  deriving DecidableEq

/-- What is left from the last `c` on. -/
def strrchr (c : Char) : List Char → Option (List Char)
  | [] => none
  | x :: rest => (strrchr c rest).or (if x = c then some (x :: rest) else none)

def pathDirname (path : Path) : Path :=
  match strrchr '/' path with
  | none => ['.']
  | some slash => if slash = path then ['/'] else path.take (path.length - slash.length)

def pathIsAbsolute (path : Path) : Bool := path.head? == some '/'

def pathJoin2 (a b : Path) : Path :=
  if pathIsAbsolute b then b
  else if b = ['.'] then if a = [] then ['.'] else a
  else
    let b := if ['.', '/'].isPrefixOf b then b.drop 2 else b
    if a = [] ∨ a = ['.'] then b
    else if a.getLast? ≠ some '/' then a ++ '/' :: b
    else a ++ b

def sourceBase (source : Path) : Path :=
  match strrchr '/' source with
  | some slash => slash.drop 1
  | none => source

def stem (base : Path) : Path :=
  match strrchr '.' base with
  | some dot => if dot = ['.', 'c'] then base.take (base.length - dot.length) else base
  | none => base

def defaultBuildDir : Path := ['b', 'u', 'i', 'l', 'd', '/', 'f', 'i', 's', 'i', 'c', 's']

def objectDir (buildDir : Path) : Path :=
  let dir := if buildDir = [] then defaultBuildDir else buildDir
  if dir.getLast? ≠ some '/' then dir ++ ['/'] else dir

def deriveManifestObjectPath (buildDir source : Path) : Option Path :=
  if sourceBase source = [] then none
  else some (objectDir buildDir ++ (stem (sourceBase source) ++ ['.', 'o']))

section
variable (fileExists : Path → Bool) (root buildDir : Path)

def resolveUnit (tu : TranslationUnit) : Except String TranslationUnit :=
  let resolvedSource := pathJoin2 root tu.source
  if fileExists resolvedSource = false then
    .error ("translation unit source does not exist: " ++ String.ofList tu.source)
  else
    match tu.object.or (deriveManifestObjectPath buildDir tu.source) with
    | none => .error "out of memory while deriving object path"
    | some object => .ok ⟨tu.source, object, resolvedSource, pathJoin2 root object⟩

end

/-- Memory is never short here. -/
def resolveManifestPaths (fileExists : Path → Bool) (manifestPath : Path) (m : BuildManifest) :
    Except String BuildManifest := do
  let root := m.root.getD ['.']
  let buildDir := m.buildDir.getD defaultBuildDir
  let resolvedRoot := pathJoin2 (pathDirname manifestPath) root
  let units ← m.translationUnits.mapM (resolveUnit fileExists resolvedRoot buildDir)
  .ok ⟨root, buildDir, units, m.linkOutput, resolvedRoot,
    (m.linkOutput.filter (· ≠ [])).map (pathJoin2 resolvedRoot)⟩

-- Objects

theorem objectDir_getLast? (buildDir : Path) : (objectDir buildDir).getLast? = some '/' := by
  unfold objectDir
  extract_lets dir
  split
  · exact List.getLast?_concat
  · exact not_not.mp ‹_›

/-- A name behind a slash has no part in how a path is joined. -/
theorem pathJoin2_append (hd : d.getLast? = some '/') : pathJoin2 a (d ++ name) = pathJoin2 a d ++ name := by
  match d with
  | [] => cases hd
  | [c] =>
    obtain rfl : c = '/' := Option.some.inj hd
    rfl
  | c :: c' :: rest =>
    simp only [pathJoin2, pathIsAbsolute, List.cons_append, List.head?_cons, List.isPrefixOf,
      List.cons.injEq, reduceCtorEq, and_false, if_false]
    by_cases hdot : ('.' == c && ('/' == c' && true)) = true <;> simp only [hdot, if_true]
    all_goals repeat' split
    all_goals simp

theorem resolveUnit_object (h : resolveUnit fileExists root buildDir tu = .ok tu')
    (hno : tu.object = none) : tu'.resolvedObject =
      pathJoin2 root (objectDir buildDir) ++ (stem (sourceBase tu.source) ++ ['.', 'o']) := by
  simp only [resolveUnit, hno, Option.none_or, deriveManifestObjectPath] at h
  split at h
  · cases h
  split at h
  · cases h
  rename_i hobject
  cases h
  split at hobject
  · cases hobject
  · cases hobject
    exact pathJoin2_append (objectDir_getLast? buildDir)

theorem resolvedObjects_eq {units out : List TranslationUnit}
    (h : units.mapM (resolveUnit fileExists root buildDir) = .ok out)
    (hno : ∀ tu ∈ units, tu.object = none) :
    out.map (·.resolvedObject) = (units.map fun tu => stem (sourceBase tu.source)).map fun name =>
      pathJoin2 root (objectDir buildDir) ++ (name ++ ['.', 'o']) := by
  induction units generalizing out with
  | nil =>
    cases h
    rfl
  | cons tu units ih =>
    rw [List.mapM_cons] at h
    cases htu : resolveUnit fileExists root buildDir tu with
    | error => simp [htu, bind, Except.bind] at h
    | ok tu' => ?_
    cases hrest : units.mapM (resolveUnit fileExists root buildDir) with
    | error => simp [htu, hrest, bind, Except.bind] at h
    | ok rest => ?_
    rw [htu, hrest] at h
    cases h
    have hno := List.forall_mem_cons.mp hno
    simp only [List.map_cons, ih hrest hno.2, resolveUnit_object htu hno.1]

/-- Accepted, with no object named and no source given twice. -/
def Plans (fileExists : Path → Bool) (manifestPath : Path) (m out : BuildManifest) : Prop :=
  resolveManifestPaths fileExists manifestPath m = .ok out ∧
    (∀ tu ∈ m.translationUnits, tu.object = none) ∧
    (out.translationUnits.map (·.resolvedSource)).Nodup

theorem resolvedObjects_distinct_iff (fileExists : Path → Bool) (manifestPath : Path) (m out : BuildManifest) :
    Plans fileExists manifestPath m out ∧ (out.translationUnits.map (·.resolvedObject)).Nodup ↔
      Plans fileExists manifestPath m out ∧
        (m.translationUnits.map fun tu => stem (sourceBase tu.source)).Nodup := by
  refine and_congr_right fun ⟨h, hno, _⟩ => ?_
  rw [resolveManifestPaths] at h
  cases hunits : m.translationUnits.mapM (resolveUnit fileExists
      (pathJoin2 (pathDirname manifestPath) (m.root.getD ['.'])) (m.buildDir.getD defaultBuildDir)) with
  | error => simp [hunits, bind, Except.bind] at h
  | ok units => ?_
  rw [hunits] at h
  cases h
  rw [resolvedObjects_eq hunits hno]
  exact List.nodup_map_iff fun a b hab => List.append_cancel_right (List.append_cancel_left hab)

def sameName : BuildManifest :=
  let unit (source : Path) : TranslationUnit := ⟨source, none, [], []⟩
  ⟨none, none, [unit ['a', '/', 'x', '.', 'c'], unit ['b', '/', 'x', '.', 'c']], none, [], none⟩

theorem sameName_shares : ∃ out, Plans (fun _ => true) ['m'] sameName out ∧
    ¬(out.translationUnits.map (·.resolvedObject)).Nodup :=
  ⟨_, ⟨rfl, by decide, by decide⟩, by decide⟩

end Fisics.Manifest
