import Mathlib

/-! Paths of Windows as the standard library of Rust reads them: an optional volume (a drive, a network share, a
device or one of their verbatim forms), an optional root, and steps. Joining replaces the base by a path that has a
volume, keeps only the volume of the base before a path that has a root, and appends the steps otherwise. -/

/-- What can stand at the very start of a path. -/
inductive PathVolume where
  | verbatim (name : List Char)
  | verbatimUnc (server share : List Char)
  | verbatimDisk (drive : Char)
  | deviceNamespace (name : List Char)
  | unc (server share : List Char)
  | disk (drive : Char)
  deriving DecidableEq

namespace PathVolume

/-- Only a plain drive leaves open where on it a path starts. -/
def hasImplicitRoot : PathVolume → Bool
  | .disk _ => false
  | _ => true

def isVerbatim : PathVolume → Bool
  | .verbatim _ | .verbatimUnc _ _ | .verbatimDisk _ => true
  | _ => false

/-- The number of characters that spell the volume. -/
def length : PathVolume → Nat
  | .verbatim name => 4 + name.length
  | .verbatimUnc server share => 8 + server.length + if share.isEmpty then 0 else 1 + share.length
  | .verbatimDisk _ => 6
  | .deviceNamespace name => 4 + name.length
  | .unc server share => 2 + server.length + if share.isEmpty then 0 else 1 + share.length
  | .disk _ => 2

def isSeparator (c : Char) : Bool := c == '\\' || c == '/'

/-- In verbatim paths a slash is an ordinary character. -/
def separates (verbatim : Bool) (c : Char) : Bool := if verbatim then c == '\\' else isSeparator c

def nextComponent (verbatim : Bool) (path : List Char) : List Char × List Char :=
  (path.takeWhile fun c => !separates verbatim c, (path.dropWhile fun c => !separates verbatim c).tail)

def driveOf : List Char → Option Char
  | drive :: ':' :: _ => if drive.isAlpha then some drive.toUpper else none
  | _ => none

def driveOfExactly (path : List Char) : Option Char :=
  if (path.drop 2).head?.all isSeparator then driveOf path else none

/-- The rest of a path behind a start, both kinds of separators being the same. -/
def stripStart (start path : List Char) : Option (List Char) :=
  if start <+: path.map fun c => if c = '/' then '\\' else c then some (path.drop start.length) else none

def parseVerbatim (path : List Char) : PathVolume :=
  match stripStart ['U', 'N', 'C', '\\'] path with
  | some rest =>
      let (server, rest) := nextComponent true rest
      .verbatimUnc server (nextComponent true rest).1
  | none =>
      match driveOfExactly path with
      | some drive => .verbatimDisk drive
      | none => .verbatim (nextComponent true path).1

def parseUnc (path : List Char) : Option PathVolume :=
  let (server, rest) := nextComponent false path
  let share := (nextComponent false rest).1
  if server ≠ [] ∧ share ≠ [] then some (.unc server share) else none

def parse (path : List Char) : Option PathVolume :=
  match stripStart ['\\', '\\'] path with
  | none => (driveOf path).map .disk
  | some rest =>
      match stripStart ['?', '\\'] rest, stripStart ['.', '\\'] rest with
      | some verbatimRest, _ => if '/' ∈ path.take 4 then parseUnc rest else some (parseVerbatim verbatimRest)
      | none, some deviceRest => some (.deviceNamespace (nextComponent false deviceRest).1)
      | none, none => parseUnc rest

end PathVolume

/-- A step of a path. -/
inductive PathStep where
  | curDir
  | parentDir
  | normal (name : List Char)
  deriving DecidableEq

/-- The components of a path. -/
inductive PathComponent where
  | volume (value : PathVolume)
  | rootDir
  | curDir
  | parentDir
  | normal (name : List Char)
  deriving DecidableEq

structure WindowsPath where
  volume : Option PathVolume
  physicalRoot : Bool
  body : List PathStep
  deriving DecidableEq

namespace WindowsPath

open PathVolume

/-- Empty parts are nothing; a single dot is nothing outside of verbatim paths. -/
def stepOf (verbatim : Bool) (part : List Char) : Option PathStep :=
  if part = [] then none
  else if part = ['.'] then if verbatim then some .curDir else none
  else if part = ['.', '.'] then some .parentDir
  else some (.normal part)

def parse (text : List Char) : WindowsPath :=
  let volume := PathVolume.parse text
  let verbatim := volume.any isVerbatim
  let rest := text.drop (volume.elim 0 PathVolume.length)
  let rooted := rest.head?.any isSeparator
  let parts := (if rooted then rest.tail else rest).splitOnP (separates verbatim)
  -- A dot at the very start of a path without volume and root is kept.
  let start := if volume.isNone ∧ ¬rooted ∧ parts.head? = some ['.'] then [.curDir] else []
  ⟨volume, rooted, start ++ parts.filterMap (stepOf verbatim)⟩

def hasRoot (path : WindowsPath) : Bool := path.physicalRoot || path.volume.any hasImplicitRoot

def isAbsolute (path : WindowsPath) : Bool := path.hasRoot && path.volume.isSome

def componentOf : PathStep → PathComponent
  | .curDir => .curDir
  | .parentDir => .parentDir
  | .normal name => .normal name

/-- The root counts as a component if it is written, or if the volume implies it and is not verbatim. -/
def components (path : WindowsPath) : List PathComponent :=
  (path.volume.toList.map .volume) ++
    (if path.physicalRoot ||
        path.volume.any (fun volume => volume.hasImplicitRoot && !volume.isVerbatim) then [.rootDir]
      else []) ++
    path.body.map componentOf

/-- Verbatim paths have no dots, so that steps into them are carried out. -/
def absorb (body : List PathStep) : PathStep → List PathStep
  | .curDir => body
  | .parentDir =>
      match body.getLast? with
      | some (.normal _) => body.dropLast
      | _ => body
  | .normal name => body ++ [.normal name]

def join (base path : WindowsPath) : WindowsPath :=
  if path.isAbsolute || path.volume.isSome then path
  else if path.hasRoot then { base with physicalRoot := true, body := path.body }
  else if base.volume.any isVerbatim then { base with body := path.body.foldl absorb base.body }
  else { base with body := base.body ++ path.body.filter (· ≠ .curDir) }

/-- The path leads from the directory downwards by names alone. -/
def IsUnder (path directory : WindowsPath) : Prop :=
  path.volume = directory.volume ∧ path.physicalRoot = directory.physicalRoot ∧
    ∃ names : List (List Char), path.body = directory.body ++ names.map .normal

example : parse "linux/manifest.sha256".toList =
    ⟨none, false, [.normal "linux".toList, .normal "manifest.sha256".toList]⟩ := by
  decide +kernel

example : parse "\\\\?\\C:\\a\\..\\b/c".toList =
    ⟨some (.verbatimDisk 'C'), true, [.normal ['a'], .parentDir, .normal ['b', '/', 'c']]⟩ := by decide +kernel

example : parse "c:a".toList = ⟨some (.disk 'C'), false, [.normal ['a']]⟩ := by decide +kernel

/-- Without steps to the parent only the names of a body count. -/
theorem exists_names {body : List PathStep} (h : .parentDir ∉ body) :
    ∃ names : List (List Char), body.filter (· ≠ .curDir) = names.map .normal ∧
      ∀ base : List PathStep, body.foldl absorb base = base ++ names.map .normal := by
  induction body with
  | nil => exact ⟨[], rfl, fun base => (List.append_nil base).symm⟩
  | cons step body ih =>
      obtain ⟨names, hfilter, hfold⟩ := ih fun hmem => h (List.mem_cons_of_mem _ hmem)
      cases step with
      | curDir => exact ⟨names, hfilter, hfold⟩
      | parentDir => exact absurd List.mem_cons_self h
      | normal name =>
          refine ⟨name :: names, ?_, fun base => ?_⟩
          · rw [List.map_cons, ← hfilter]
            rfl
          · rw [List.foldl_cons, hfold, absorb, List.append_assoc, List.singleton_append, List.map_cons]

theorem join_isUnder {base path : WindowsPath} (hvolume : path.volume = none) (hroot : path.physicalRoot = false)
    (hparent : .parentDir ∉ path.body) : (base.join path).IsUnder base := by
  obtain ⟨names, hfilter, hfold⟩ := exists_names hparent
  have hrelative : path.hasRoot = false := by rw [hasRoot, hroot, hvolume]; rfl
  rw [join, isAbsolute, hrelative, hvolume]
  simp only [Bool.false_and, Option.isSome_none, Bool.or_self, Bool.false_eq_true, if_false]
  split
  · exact ⟨rfl, rfl, names, hfold base.body⟩
  · exact ⟨rfl, rfl, names, by rw [hfilter]⟩

theorem join_of_volume {base path : WindowsPath} (hvolume : path.volume.isSome) : base.join path = path := by
  rw [join, hvolume, Bool.or_true, if_pos rfl]

theorem parentDir_mem_map_componentOf (body : List PathStep) :
    .parentDir ∈ body.map componentOf ↔ .parentDir ∈ body := by
  refine ⟨fun hmem => ?_, fun hmem => List.mem_map.mpr ⟨_, hmem, rfl⟩⟩
  obtain ⟨step, hstep, heq⟩ := List.mem_map.mp hmem
  cases step <;> cases heq
  exact hstep

theorem rootDir_notMem_map_componentOf (body : List PathStep) : .rootDir ∉ body.map componentOf := by
  intro hmem
  obtain ⟨step, -, heq⟩ := List.mem_map.mp hmem
  cases step <;> cases heq

/-- A path that is not absolute and has neither a root nor steps to the parent among its components has at most a
drive before its steps. -/
theorem relative_iff (path : WindowsPath) :
    (path.isAbsolute = false ∧ .parentDir ∉ path.components ∧ .rootDir ∉ path.components) ↔
      path.physicalRoot = false ∧ .parentDir ∉ path.body ∧ ∀ volume ∈ path.volume, ∃ drive, volume = .disk drive := by
  obtain ⟨volume, root, body⟩ := path
  have hparent := parentDir_mem_map_componentOf body
  have hrootDir := rootDir_notMem_map_componentOf body
  cases volume with
  | none => cases root <;> simp [isAbsolute, components, hparent, hrootDir]
  | some volume =>
      cases volume with
      | disk drive => cases root <;> simp [isAbsolute, hasRoot, components, hasImplicitRoot, hparent, hrootDir]
      | _ => simp [isAbsolute, hasRoot, hasImplicitRoot]

end WindowsPath
