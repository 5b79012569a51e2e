import WincredLibsecret.EffectAction
import WincredLibsecret.DistributionKey
import WincredLibsecret.CliVersion
import WincredLibsecret.CliPayload
import WincredLibsecret.ReleaseSelection
import WincredLibsecret.ProtocolMessage

/-! The commands that manage the installation: the registration of the plugin with the machine, and the
provisioning and the flags of the distributions of a user. A command is a program over the registry and over all
that it finds outside of it: the programs it runs and the files it looks at, whose answers are not foreseen and
may change from one call to the next. Every call may fail, and the tool may be killed before it. -/

namespace WincredLibsecret

/-! ### The registry -/

/-- Removes one value of a key. -/
def Registry.deleteValue (registry : Registry) (path name : String) : Registry := fun key =>
  if key = path then (registry key).map fun values => Function.update values name none else registry key

theorem Registry.isSome_deleteValue (registry : Registry) (path name key : String) :
    ((registry.deleteValue path name) key).isSome = (registry key).isSome := by
  rw [Registry.deleteValue]
  split_ifs
  · exact Option.isSome_map
  · rfl

theorem Registry.isSome_setValue (registry : Registry) (path name : String) (value : RegistryValue) (key : String) :
    ((registry.setValue path name value) key).isSome = (registry key).isSome := by
  rw [Registry.setValue]
  split_ifs
  · exact Option.isSome_map
  · rfl

theorem Registry.IsBelow.trans {path middle ancestor : String} (h : Registry.IsBelow path middle)
    (hmiddle : Registry.IsBelow middle ancestor) : Registry.IsBelow path ancestor :=
  List.IsPrefix.trans hmiddle ((List.prefix_append _ _).trans h)

namespace Cli

open Effect TextCodec TextScan

/-- A registry together with a list of all of its keys. A key is there with all the keys above it. -/
structure Hive where
  registry : Registry
  paths : List String
  covers : ∀ path, (registry path).isSome → path ∈ paths
  closed : ∀ path key, Registry.IsBelow key path → (registry key).isSome → (registry path).isSome

namespace Hive

/-- The name of a key that lies directly below a path. -/
def childName (path key : String) : Option String :=
  let name := key.toList.drop (path.toList.length + 1)
  if path.toList ++ ['\\'] <+: key.toList ∧ name ≠ [] ∧ '\\' ∉ name then some (String.ofList name) else none

def subkeys (hive : Hive) (path : String) : List String :=
  (hive.paths.filterMap fun key => if (hive.registry key).isSome then childName path key else none).dedup

/-- The path with the paths above it. -/
def lineOf (path : String) : List String :=
  (path.toList.inits.filter fun above => above = path.toList ∨ above ++ ['\\'] <+: path.toList).map String.ofList

theorem mem_lineOf {path key : String} (h : key = path ∨ Registry.IsBelow path key) : key ∈ lineOf path := by
  refine List.mem_map.mpr ⟨key.toList, List.mem_filter.mpr ⟨(List.mem_inits _ _).mpr ?_, ?_⟩, String.ofList_toList⟩
  · rcases h with rfl | hbelow
    · exact List.prefix_refl _
    · exact (List.prefix_append _ _).trans hbelow
  · exact decide_eq_true (h.imp (congrArg String.toList) fun hbelow => hbelow)

theorem covers_createSubkey (hive : Hive) (path key : String)
    (h : ((hive.registry.createSubkey path) key).isSome) : key ∈ lineOf path ++ hive.paths := by
  rw [Registry.createSubkey] at h
  split_ifs at h with hnew
  · exact List.mem_append_left _ (mem_lineOf hnew)
  · exact List.mem_append_right _ (hive.covers key h)

theorem covers_setValue (hive : Hive) (path name : String) (value : RegistryValue) (key : String)
    (h : ((hive.registry.setValue path name value) key).isSome) : key ∈ hive.paths := by
  refine hive.covers key ?_
  rwa [Registry.isSome_setValue] at h

theorem covers_deleteValue (hive : Hive) (path name key : String)
    (h : ((hive.registry.deleteValue path name) key).isSome) : key ∈ hive.paths := by
  refine hive.covers key ?_
  rwa [Registry.isSome_deleteValue] at h

theorem covers_deleteSubkeyAll (hive : Hive) (path key : String)
    (h : ((hive.registry.deleteSubkeyAll path) key).isSome) : key ∈ hive.paths := by
  refine hive.covers key ?_
  rw [Registry.deleteSubkeyAll] at h
  split_ifs at h
  · cases h
  · exact h

theorem closed_createSubkey (hive : Hive) (path parent key : String) (hbelow : Registry.IsBelow key parent)
    (h : ((hive.registry.createSubkey path) key).isSome) : ((hive.registry.createSubkey path) parent).isSome := by
  rw [Registry.createSubkey] at h ⊢
  split_ifs at h with hnew
  · have habove : Registry.IsBelow path parent := by
      rcases hnew with rfl | hkey
      · exact hbelow
      · exact Registry.IsBelow.trans hkey hbelow
    rw [if_pos (.inr habove)]
    rfl
  · split_ifs
    · rfl
    · exact hive.closed parent key hbelow h

theorem closed_setValue (hive : Hive) (path name : String) (value : RegistryValue) (parent key : String)
    (hbelow : Registry.IsBelow key parent) (h : ((hive.registry.setValue path name value) key).isSome) :
    ((hive.registry.setValue path name value) parent).isSome := by
  rw [Registry.isSome_setValue] at h ⊢
  exact hive.closed parent key hbelow h

theorem closed_deleteValue (hive : Hive) (path name parent key : String) (hbelow : Registry.IsBelow key parent)
    (h : ((hive.registry.deleteValue path name) key).isSome) :
    ((hive.registry.deleteValue path name) parent).isSome := by
  rw [Registry.isSome_deleteValue] at h ⊢
  exact hive.closed parent key hbelow h

theorem closed_deleteSubkeyAll (hive : Hive) (path parent key : String) (hbelow : Registry.IsBelow key parent)
    (h : ((hive.registry.deleteSubkeyAll path) key).isSome) :
    ((hive.registry.deleteSubkeyAll path) parent).isSome := by
  rw [Registry.deleteSubkeyAll] at h ⊢
  split_ifs at h with hdeleted
  · cases h
  · have hkept : ¬ (parent = path ∨ Registry.IsBelow parent path) := by
      rintro (rfl | habove)
      · exact hdeleted (.inr hbelow)
      · exact hdeleted (.inr (Registry.IsBelow.trans hbelow habove))
    rw [if_neg hkept]
    exact hive.closed parent key hbelow h

def createSubkey (hive : Hive) (path : String) : Hive where
  registry := hive.registry.createSubkey path
  paths := lineOf path ++ hive.paths
  covers := hive.covers_createSubkey path
  closed := hive.closed_createSubkey path

def setValue (hive : Hive) (path name : String) (value : RegistryValue) : Hive where
  registry := hive.registry.setValue path name value
  paths := hive.paths
  covers := hive.covers_setValue path name value
  closed := hive.closed_setValue path name value

def deleteValue (hive : Hive) (path name : String) : Hive where
  registry := hive.registry.deleteValue path name
  paths := hive.paths
  covers := hive.covers_deleteValue path name
  closed := hive.closed_deleteValue path name

def deleteSubkeyAll (hive : Hive) (path : String) : Hive where
  registry := hive.registry.deleteSubkeyAll path
  paths := hive.paths
  covers := hive.covers_deleteSubkeyAll path
  closed := hive.closed_deleteSubkeyAll path

/-- The value of a key, if there are both. -/
def value (hive : Hive) (path name : String) : Option RegistryValue :=
  (hive.registry path).bind fun values => values name

end Hive

/-! ### The calls -/

inductive Root where
  | currentUser
  | localMachine
  deriving DecidableEq

/-- What a program that was run has left, its output decoded. -/
structure ProcessResult where
  success : Bool
  stdout : String
  stderr : String
  deriving DecidableEq

inductive FileKind where
  | file
  | directory
  deriving DecidableEq

def FileKind.text : FileKind → String
  | .file => "file"
  | .directory => "directory"

/-- Where the question for the published releases can come to grief. -/
inductive ReleaseFault where
  | client
  | contact
  | status
  | response
  deriving DecidableEq

def ReleaseFault.text : ReleaseFault → String
  | .client => "could not initialize the GitHub Releases client"
  | .contact => "could not contact GitHub"
  | .status => "GitHub Releases API returned an error"
  | .response => "GitHub Releases API returned an invalid response"

/-- What the tool asks the world outside of the registry. The path above another one is asked for as well. -/
inductive Question where
  | output (program : String) (arguments : List String)
  | spawn (program : String) (arguments : List String)
  | releases (url : String)
  | currentExe
  | parent (path : String)
  | canonicalize (path : String)
  | isThere (kind : FileKind) (path : String)
  | files
  | winVerifyTrust (path : String)
  deriving DecidableEq

def Answer : Question → Type
  | .output _ _ => ProcessResult
  | .spawn _ _ => Unit
  | .releases _ => Except (ReleaseFault × String) (List ReleaseCandidate)
  | .currentExe => String
  | .parent _ => Option String
  | .canonicalize _ => String
  | .isThere _ _ => Bool
  | .files => FileStore WindowsPath
  | .winVerifyTrust _ => Int32

inductive CliCall where
  | openKey (root : Root) (path : String)
  | enumKeys (root : Root) (path : String)
  | keyName (root : Root) (path name : String)
  | getValue (root : Root) (path name : String)
  | createSubkey (root : Root) (path : String)
  | setValue (root : Root) (path name : String) (value : RegistryValue)
  | deleteValue (root : Root) (path name : String)
  | deleteSubkeyAll (root : Root) (path : String)
  | ask (question : Question)
  deriving DecidableEq

/-- A key that is missing is not a failure of the call. -/
def CliReply : CliCall → Type
  | .openKey _ _ => Bool
  | .enumKeys _ _ => List String
  | .keyName _ _ _ => Unit
  | .getValue _ _ _ => Option RegistryValue
  | .createSubkey _ _ => Unit
  | .setValue _ _ _ _ => Unit
  | .deleteValue _ _ _ => Unit
  | .deleteSubkeyAll _ _ => Unit
  | .ask question => Answer question

/-- A call that was served, with its reply. -/
abbrev Served := (request : CliCall) × CliReply request

/-- The two registries, what the world outside answers to the next call, and the calls so far. -/
structure Machine where
  user : Hive
  machine : Hive
  outside : Nat → (question : Question) → Answer question
  log : List Served

namespace Machine

def hive (machine : Machine) : Root → Hive
  | .currentUser => machine.user
  | .localMachine => machine.machine

def setHive (machine : Machine) (hive : Hive) : Root → Machine
  | .currentUser => { machine with user := hive }
  | .localMachine => { machine with machine := hive }

def reply (machine : Machine) : (request : CliCall) → CliReply request
  | .openKey root path => ((machine.hive root).registry path).isSome
  | .enumKeys root path => (machine.hive root).subkeys path
  | .keyName _ _ _ => ()
  | .getValue root path name => (machine.hive root).value path name
  | .createSubkey _ _ => ()
  | .setValue _ _ _ _ => ()
  | .deleteValue _ _ _ => ()
  | .deleteSubkeyAll _ _ => ()
  | .ask question => machine.outside machine.log.length question

def change (machine : Machine) : CliCall → Machine
  | .createSubkey root path => machine.setHive ((machine.hive root).createSubkey path) root
  | .setValue root path name value => machine.setHive ((machine.hive root).setValue path name value) root
  | .deleteValue root path name => machine.setHive ((machine.hive root).deleteValue path name) root
  | .deleteSubkeyAll root path => machine.setHive ((machine.hive root).deleteSubkeyAll path) root
  | .openKey _ _ | .enumKeys _ _ | .keyName _ _ _ | .getValue _ _ _ | .ask _ => machine

def serve (request : CliCall) (machine : Machine) : CliReply request × Machine :=
  let reply := machine.reply request
  (reply, { machine.change request with log := machine.log ++ [⟨request, reply⟩] })

end Machine

/-- An error with the contexts it was given, the outermost first. -/
inductive CliError where
  | chain (messages : List String)
  | payload (error : PayloadError)
  deriving DecidableEq

def CliError.context (message : String) : CliError → CliError
  | .chain messages => .chain (message :: messages)
  | .payload error => .payload error

/-- The error of a failed call is its text. -/
abbrev CliAction := Action CliCall CliReply String CliError

def call (request : CliCall) : CliAction (CliReply request) := Action.perform (fun error => .chain [error]) request

def openKey (root : Root) (path : String) : CliAction Bool := call (.openKey root path)

def enumKeys (root : Root) (path : String) : CliAction (List String) := call (.enumKeys root path)

def keyName (root : Root) (path name : String) : CliAction Unit := call (.keyName root path name)

def getValue (root : Root) (path name : String) : CliAction (Option RegistryValue) := call (.getValue root path name)

def createSubkey (root : Root) (path : String) : CliAction Unit := call (.createSubkey root path)

def setValue (root : Root) (path name : String) (value : RegistryValue) : CliAction Unit :=
  call (.setValue root path name value)

def deleteValue (root : Root) (path name : String) : CliAction Unit := call (.deleteValue root path name)

def deleteSubkeyAll (root : Root) (path : String) : CliAction Unit := call (.deleteSubkeyAll root path)

def output (program : String) (arguments : List String) : CliAction ProcessResult :=
  call (.ask (.output program arguments))

def spawn (program : String) (arguments : List String) : CliAction Unit := call (.ask (.spawn program arguments))

def releases (url : String) : CliAction (Except (ReleaseFault × String) (List ReleaseCandidate)) :=
  call (.ask (.releases url))

def currentExe : CliAction String := call (.ask .currentExe)

def parent (path : String) : CliAction (Option String) := call (.ask (.parent path))

def canonicalize (path : String) : CliAction String := call (.ask (.canonicalize path))

def isThere (kind : FileKind) (path : String) : CliAction Bool := call (.ask (.isThere kind path))

def files : CliAction (FileStore WindowsPath) := call (.ask .files)

def winVerifyTrust (path : String) : CliAction Int32 := call (.ask (.winVerifyTrust path))

def context {α : Type} (message : String) (action : CliAction α) : CliAction α :=
  Action.mapError (CliError.context message) action

def bail {α : Type} (message : String) : CliAction α := throw (.chain [message])

def ensure (condition : Bool) (message : String) : CliAction Unit := if condition then pure () else bail message

/-- The value of an action that may fail. -/
def optional {α : Type} (action : CliAction α) : CliAction (Option α) := do
  let result ← action.attempt
  pure result.toOption

def eqIgnoreAsciiCase (left right : String) : Bool := caseFolded left = caseFolded right

def trimText (text : String) : String := String.ofList (trim text.toList)

def isAbsolute (path : String) : Bool := (WindowsPath.parse path.toList).isAbsolute

/-- The last component of a path, if it is a name. -/
def fileName (path : String) : Option String :=
  match (WindowsPath.parse path.toList).body.getLast? with
  | some (.normal name) => some (String.ofList name)
  | _ => none

def hasFileName (path name : String) : Bool := (fileName path).any fun found => eqIgnoreAsciiCase found name

/-- Appends the name of a file to the path of a directory. -/
def joinName (directory name : String) : String :=
  if directory.toList.getLast?.any PathVolume.isSeparator then directory ++ name else directory ++ "\\" ++ name

def normalizeWindowsPath (path : String) : String :=
  let text := path.toList
  if "\\\\?\\UNC\\".toList <+: text then "\\\\" ++ String.ofList (text.drop 8)
  else if "\\\\?\\".toList <+: text then String.ofList (text.drop 4)
  else path

def windowsPathsEqual (left right : String) : Bool :=
  eqIgnoreAsciiCase (normalizeWindowsPath left) (normalizeWindowsPath right)

/-- Removes braces from both ends. -/
def trimBraces (text : String) : String :=
  let isBrace (c : Char) := c == '\x7b' || c == '\x7d'
  String.ofList ((text.toList.dropWhile isBrace).rdropWhile isBrace)

def wslpathArgument (path : String) : String :=
  String.ofList (path.toList.map fun c => if c = '\\' then '/' else c)

/-- Removes one line end. -/
def stripLineEnd (text : String) : String :=
  let chars := text.toList
  if ['\r', '\n'] <:+ chars then String.ofList (chars.dropLast.dropLast)
  else if ['\n'] <:+ chars then String.ofList chars.dropLast
  else text

def ProcessResult.displayError (result : ProcessResult) : String :=
  let text := if trimText result.stderr = "" then trimText result.stdout else trimText result.stderr
  if text = "" then "command returned a non-zero exit status" else text

def WslVersion.display (version : WslVersion) : String :=
  s!"{version.major.toNat}.{version.minor.toNat}.{version.patch.toNat}"

/-- A 32-bit number of the registry. -/
def readDword (value : RegistryValue) : Option UInt32 :=
  match value.data with
  | [a, b, c, d] =>
      if value.type = regDword then
        some (a.toUInt32 ||| b.toUInt32 <<< 8 ||| c.toUInt32 <<< 16 ||| d.toUInt32 <<< 24)
      else none
  | _ => none

/-- What the tool takes from its libraries: the digest, the texts of the registry, the quoted form of a text, the
versions of releases, what is said of a value that is no text, of a text that is no identifier and of a missing key,
the order in which a set of identifiers is gone through, and the number of the process. -/
structure Tool where
  sha256 : Blob → Vector UInt8 32
  readString : RegistryValue → Option String
  writeString : String → RegistryValue
  debug : String → String
  crate : SemverCrate
  stringError : RegistryValue → String
  uuidError : String → String
  notFound : String
  processId : UInt32
  hashOrder : List Uuid → List Uuid
  hashOrder_perm : ∀ ids, (hashOrder ids).Perm ids

/-! ### Programs and files -/

def runProcess (program : String) (arguments : List String) : CliAction ProcessResult :=
  context s!"could not launch {program}" (output program arguments)

/-- The arguments of `wsl.exe` for a command run as root. -/
def rootArguments (distribution : String) (arguments : List String) : List String :=
  ["-d", distribution, "-u", "root", "--"] ++ arguments

def runWslRoot (distribution : String) (arguments : List String) : CliAction ProcessResult :=
  context "could not launch wsl.exe" (output "wsl.exe" (rootArguments distribution arguments))

def ensureWslSuccess (distribution : String) (arguments : List String) (operation : String) : CliAction Unit := do
  let result ← runWslRoot distribution arguments
  ensure result.success s!"{operation} failed: {result.displayError}"

def wslPath (distribution path : String) : CliAction String := do
  let result ← context "could not invoke wslpath" (output "wsl.exe"
    ["-d", distribution, "--", "wslpath", "-a", wslpathArgument path])
  ensure (result.success && trimText result.stdout ≠ "")
    s!"could not translate '{path}' for WSL: {result.displayError}"
  pure (stripLineEnd result.stdout)

def isAdministratorScript : String :=
  "$principal = [Security.Principal.WindowsPrincipal] " ++
    "[Security.Principal.WindowsIdentity]::GetCurrent(); " ++
    "$principal.IsInRole([Security.Principal.WindowsBuiltInRole]::Administrator)"

def isAdministrator : CliAction Bool := do
  let result ← context "could not determine whether the process is elevated" (runProcess "powershell.exe"
    ["-NoLogo", "-NoProfile", "-NonInteractive", "-Command", isAdministratorScript])
  ensure result.success "could not determine whether the process is elevated"
  pure (eqIgnoreAsciiCase (trimText result.stdout) "true")

def requireAdministrator : CliAction Unit := do
  let elevated ← isAdministrator
  ensure elevated "administrator privileges are required. Start an elevated terminal and retry."

def requireNonAdministrator (command : String) : CliAction Unit := do
  let elevated ← isAdministrator
  ensure (!elevated) (s!"run `wincred-libsecret {command}` from a non-elevated terminal; " ++
    "it performs WSL work before requesting elevation when needed")

/-- An absolute path to something that is there, resolved. -/
def absoluteExisting (kind : FileKind) (path description : String) : CliAction String := do
  ensure (isAbsolute path) s!"{description} path must be absolute: {path}"
  let resolved ← context s!"{description} does not exist: {path}" (canonicalize path)
  let canonical := normalizeWindowsPath resolved
  let found ← optional (isThere kind canonical)
  ensure (found = some true) s!"{description} is not a {kind.text}: {canonical}"
  pure canonical

def absoluteExistingFile (path description : String) : CliAction String := absoluteExisting .file path description

def absoluteExistingDirectory (path description : String) : CliAction String :=
  absoluteExisting .directory path description

def pluginDllName : String := "wincred-libsecret-wsl-plugin.dll"

def brokerName : String := "wincred-libsecret-broker.exe"

def validatePluginDll (path : String) : CliAction String := do
  let canonical ← absoluteExistingFile path "plugin DLL"
  ensure (hasFileName canonical pluginDllName) s!"plugin DLL must be named {pluginDllName}"
  pure canonical

def validateBroker (path : String) : CliAction String := do
  let canonical ← absoluteExistingFile path "broker executable"
  ensure (hasFileName canonical brokerName) s!"broker executable must be named {brokerName}"
  pure canonical

def parentOf (path : String) : CliAction (Option String) := do
  let found ← optional (parent path)
  pure (found.bind id)

/-- A file beside the tool, or where the installer puts it if the place of the tool is unknown. -/
def besideTool (name : String) : CliAction String := do
  let executable ← optional currentExe
  match executable with
  | none => pure (joinName "C:\\Program Files\\WinCredLibsecret" name)
  | some path => do
      let directory ← parentOf path
      match directory with
      | some directory => pure (joinName directory name)
      | none => pure (joinName "C:\\Program Files\\WinCredLibsecret" name)

def defaultPayloadRoot : CliAction String := besideTool "linux"

def defaultBrokerPath : CliAction String := besideTool brokerName

inductive SignatureStatus where
  | valid
  | notValid
  deriving DecidableEq

def SignatureStatus.display : SignatureStatus → String
  | .valid => "Valid"
  | .notValid => "not valid"

def signatureStatusFromWinVerifyTrust (result : Int32) : SignatureStatus := if result = 0 then .valid else .notValid

/-- A check that is not carried out counts as failed. -/
def signatureStatus (path : String) : CliAction SignatureStatus := do
  let result ← optional (winVerifyTrust path)
  pure (result.elim .notValid signatureStatusFromWinVerifyTrust)

def checkWslVersion : CliAction WslVersion := do
  let result ← context "could not run wsl.exe --version; install WSL first" (runProcess "wsl.exe" ["--version"])
  ensure result.success s!"wsl.exe --version failed: {result.displayError}"
  match parseWslVersion result.stdout with
  | .error _ =>
      throw (.chain ["could not parse `wsl.exe --version` output", "WSL version output did not contain a version"])
  | .ok version =>
      ensure (compareVersions version minimumWslVersion ≠ .lt)
        s!"WSL {version.display} is too old; version {minimumWslVersion.display} or newer is required"
      pure version

section Tool

variable (tool : Tool)

def checkPayload (root : String) : CliAction Unit := do
  let store ← files
  match (verifyPayload tool.sha256 store (WindowsPath.parse root.toList)).2 with
  | .ok () => pure ()
  | .error error => throw (.payload error)

/-- A text of the registry. A value of another type is an error, a missing one is not. -/
def registryString (root : Root) (path name : String) : CliAction (Option String) := do
  let found ← context "registry value is not a readable string" (getValue root path name)
  match found with
  | none => pure none
  | some value =>
      match tool.readString value with
      | some text => pure (some text)
      | none => throw (.chain ["registry value is not a readable string", tool.stringError value])

/-! ### Distributions -/

structure Distribution where
  id : Uuid
  name : String
  version : Option UInt32
  deriving DecidableEq

def lxssPath : String := "Software\\Microsoft\\Windows\\CurrentVersion\\Lxss"

/-- The distribution a key stands for. Keys that cannot be read or make no sense are passed over. -/
def distributionOf (key : String) : CliAction (Option Distribution) := do
  let reached ← optional (keyName .currentUser lxssPath key)
  match reached, Uuid.parseStr (trimBraces key) with
  | some (), some id => do
      let path := lxssPath ++ "\\" ++ key
      let opened ← optional (openKey .currentUser path)
      if opened = some true then do
        let found ← optional (getValue .currentUser path "DistributionName")
        match (found.bind (·)).bind tool.readString with
        | none => pure none
        | some name => do
            let version ← optional (getValue .currentUser path "Version")
            pure (some ⟨id, name, (version.bind (·)).bind readDword⟩)
      else pure none
  | _, _ => pure none

def distributionsOf : List String → CliAction (List Distribution)
  | [] => pure []
  | key :: keys => do
      let found ← distributionOf tool key
      let others ← distributionsOf keys
      pure (found.toList ++ others)

/-- The listing of `wsl.exe` is asked for and makes no difference. -/
def enumerateDistributions : CliAction (List Distribution) := do
  let opened ← context "could not enumerate WSL distribution registry" (openKey .currentUser lxssPath)
  if opened then do
    let _listed ← optional (runProcess "wsl.exe" ["--list", "--quiet"])
    let keys ← optional (enumKeys .currentUser lxssPath)
    let distributions ← distributionsOf tool (keys.getD [])
    pure (distributions.insertionSort fun left right => left.name ≤ right.name)
  else pure []

def findDistribution (name : String) : CliAction Distribution := do
  let distributions ← enumerateDistributions tool
  match distributions.filter fun distribution => eqIgnoreAsciiCase distribution.name name with
  | [distribution] => pure distribution
  | [] => bail s!"WSL distribution '{name}' was not found for this Windows user"
  | _ => bail s!"multiple WSL distributions match '{name}'; use its exact registered name"

def distributionEnabled (id : Uuid) : CliAction Bool := do
  let path := distributionRegistryPath id
  let opened ← context "could not read distribution enablement" (openKey .currentUser path)
  if opened then do
    let found ← optional (getValue .currentUser path distributionEnablementValue)
    pure (((found.bind (·)).bind readDword).any (· ≠ 0))
  else pure false

def setEnabled (id : Uuid) (enabled : Bool) : CliAction Unit := do
  let path := distributionRegistryPath id
  if enabled then do
    context "could not create distribution enablement key" (createSubkey .currentUser path)
    context "could not enable the distribution callback" (setValue .currentUser path
      distributionEnablementValue ⟨regDword, [1, 0, 0, 0]⟩)
  else context "could not remove distribution enablement" (deleteSubkeyAll .currentUser path)

/-! ### Provisioning -/

def packageVersion : String := "0.2.0"

def linuxStatusHelper : String := "/usr/libexec/wincred-libsecret/wincred-libsecret-refresh"

structure DistroEnableArguments where
  name : String
  payloadRoot : Option String
  broker : Option String
  replaceConflicts : Bool

def versionText : Option UInt32 → String
  | some version => toString version.toNat
  | none => " with unknown version"

/-- The arguments that the check and the installation share. -/
def bootstrapArguments (source broker : String) (replaceConflicts : Bool) : List String :=
  [s!"{source}/{linuxBootstrap}", "--source", source, "--broker", broker, "--protocol",
    toString protocolVersion.toNat, "--version", packageVersion] ++
      if replaceConflicts then ["--replace-conflicts"] else []

def orDefault (value : Option String) (default : CliAction String) : CliAction String :=
  match value with
  | some value => pure value
  | none => default

def provisionDistribution (distribution : Distribution) (arguments : DistroEnableArguments) : CliAction Unit := do
  let _version ← checkWslVersion
  ensure (distribution.version = some 2)
    s!"'{distribution.name}' is WSL{versionText distribution.version}; WinCred requires a WSL 2 distribution"
  let payloadArgument ← orDefault arguments.payloadRoot defaultPayloadRoot
  let payloadRoot ← absoluteExistingDirectory payloadArgument "Linux payload root"
  checkPayload tool payloadRoot
  let brokerArgument ← orDefault arguments.broker defaultBrokerPath
  let broker ← validateBroker brokerArgument
  let source ← wslPath distribution.name payloadRoot
  let brokerWsl ← wslPath distribution.name broker
  let common := bootstrapArguments source brokerWsl arguments.replaceConflicts
  ensureWslSuccess distribution.name (common ++ ["--check"]) "distribution prerequisite/conflict check"
  ensureWslSuccess distribution.name (common ++ ["--install"]) "atomic provider installation"

def distroEnable (arguments : DistroEnableArguments) : CliAction Unit := do
  let distribution ← findDistribution tool arguments.name
  provisionDistribution tool distribution arguments
  setEnabled distribution.id true

def disableDistroWithPayload (distribution : Distribution) (root : String) : CliAction Unit := do
  let payloadRoot ← absoluteExistingDirectory root "Linux payload root"
  checkPayload tool payloadRoot
  let source ← wslPath distribution.name payloadRoot
  let result ← runWslRoot distribution.name [s!"{source}/{linuxBootstrap}", "--disable"]
  ensure result.success
    s!"could not remove project-owned files from '{distribution.name}': {result.displayError}"

def disableDistroWithInstalledHelper (distribution : Distribution) : CliAction Unit := do
  let check ← runWslRoot distribution.name ["/usr/bin/test", "-x", linuxStatusHelper]
  if check.success then do
    let result ← runWslRoot distribution.name [linuxStatusHelper, "--disable"]
    ensure result.success
      s!"could not remove project-owned files from '{distribution.name}': {result.displayError}"
  else
    -- A test that fails without a word says that there is no helper.
    ensure (trimText check.stdout = "" && trimText check.stderr = "")
      s!"could not inspect project files in '{distribution.name}': {check.displayError}"

def distroDisable (name : String) : CliAction Unit := do
  let distribution ← findDistribution tool name
  let payloadRoot ← defaultPayloadRoot
  let hasPayload ← optional (isThere .directory payloadRoot)
  if hasPayload = some true then disableDistroWithPayload tool distribution payloadRoot
  else disableDistroWithInstalledHelper distribution
  setEnabled distribution.id false

structure DoctorFinding where
  check : String
  ok : Bool
  warning : Bool
  detail : String
  remedy : Option String
  deriving DecidableEq

def DoctorFinding.okay (check detail : String) : DoctorFinding := ⟨check, true, false, detail, none⟩

def DoctorFinding.fail (check detail remedy : String) : DoctorFinding := ⟨check, false, false, detail, some remedy⟩

def distroEnableCommand (distribution : String) : String :=
  s!"`wincred-libsecret distro enable {tool.debug distribution}`"

def distroEnableRemedy (distribution : String) : String := s!"Run {distroEnableCommand tool distribution}."

def trimStarts (pattern : List Char) : Nat → List Char → List Char
  | 0, text => text
  | n + 1, text => if pattern <+: text then trimStarts pattern n (text.drop pattern.length) else text

/-- Removes a text from the start as often as it stands there. -/
def trimStartMatches (pattern text : List Char) : List Char := trimStarts pattern text.length text

def checkPrefix : List Char := "CHECK ".toList

/-- The finding for one line of the diagnostics: a name, and a detail behind the next blank. -/
def runtimeFinding (distribution : Distribution) (line : List Char) : DoctorFinding :=
  let (check, detail) := splitMark ' ' (line.drop checkPrefix.length)
  let detail := detail.getD []
  let check := String.ofList check
  if "ok ".toList <+: detail then
    .okay "distro-runtime" (s!"{check}: " ++ String.ofList (trimStartMatches "ok ".toList detail))
  else
    .fail "distro-runtime" s!"{check}: {String.ofList detail}"
      s!"Run {distroEnableCommand tool distribution.name} after resolving the reported prerequisite."

def diagnosticLines (output : String) : List (List Char) :=
  (lines output.toList).filter fun line => checkPrefix.isPrefixOf line

def runtimeFindings (distribution : Distribution) : Except String ProcessResult → List DoctorFinding
  | .ok result =>
      if result.success then
        match diagnosticLines result.stdout with
        | [] => [.fail "distro-runtime" "the installed refresh helper returned no diagnostics"
            s!"Re-run {distroEnableCommand tool distribution.name} to repair the installation."]
        | found => found.map (runtimeFinding tool distribution)
      else [.fail "distro-runtime" result.displayError (distroEnableRemedy tool distribution.name)]
  | .error error => [.fail "distro-runtime" error
      s!"Start the distribution with `wsl -d {tool.debug distribution.name}` and retry."]

def remoteDoctor (distribution : String) : CliAction ProcessResult :=
  runWslRoot distribution [linuxStatusHelper, "--doctor"]

def validateRefreshedDistribution (distribution : Distribution) : CliAction Unit := do
  let result ← context s!"could not validate '{distribution.name}'" (remoteDoctor distribution.name)
  ensure result.success s!"post-refresh diagnostics failed for '{distribution.name}': {result.displayError}"
  let failures := ((runtimeFindings tool distribution (.ok result)).filter fun finding => !finding.ok).map (·.detail)
  ensure failures.isEmpty
    (s!"post-refresh diagnostics failed for '{distribution.name}': " ++ String.intercalate "; " failures)

inductive RefreshTarget where
  | all
  | named (name : String)

structure DistroRefreshArguments where
  target : RefreshTarget
  payloadRoot : Option String
  broker : Option String

def enabledAmong : List Distribution → CliAction (List Distribution)
  | [] => pure []
  | distribution :: rest => do
      let enabled ← distributionEnabled distribution.id
      let others ← enabledAmong rest
      pure (if enabled then distribution :: others else others)

def enabledDistributions : CliAction (List Distribution) := do
  let distributions ← enumerateDistributions tool
  enabledAmong distributions

def refreshTargets (arguments : DistroRefreshArguments) : CliAction (List Distribution) :=
  match arguments.target with
  | .all => enabledDistributions tool
  | .named name => do
      let distribution ← findDistribution tool name
      let enabled ← distributionEnabled distribution.id
      ensure enabled (s!"'{distribution.name}' is not enabled; run `wincred-libsecret distro enable " ++
        s!"{tool.debug distribution.name}` first")
      pure [distribution]

def refreshDistribution (arguments : DistroRefreshArguments) (distribution : Distribution) : CliAction Unit := do
  provisionDistribution tool distribution ⟨distribution.name, arguments.payloadRoot, arguments.broker, false⟩
  validateRefreshedDistribution tool distribution

def distroRefresh (arguments : DistroRefreshArguments) : CliAction Unit := do
  let distributions ← refreshTargets tool arguments
  distributions.forM (refreshDistribution tool arguments)

/-! ### Removal -/

/-- The key above the flags. -/
def distributionsPath : String := String.ofList (distributionEnablementPrefix.toList.rdropWhile (· == '\\'))

def idOfKey (key : String) : CliAction Uuid := do
  context "could not read a project distro enablement key" (keyName .currentUser distributionsPath key)
  match Uuid.parseStr (trimBraces key) with
  | some id => pure id
  | none => throw (.chain [s!"project distro enablement key has an invalid GUID: {key}",
      tool.uuidError (trimBraces key)])

def idsOfKeys : List String → CliAction (List Uuid)
  | [] => pure []
  | key :: keys => do
      let id ← idOfKey tool key
      let others ← idsOfKeys keys
      pure (id :: others)

/-- The identifiers under which there are flags, each once. -/
def projectDistributionIds : CliAction (List Uuid) := do
  let opened ← context "could not enumerate project distro enablement" (openKey .currentUser distributionsPath)
  if opened then do
    let keys ← context "could not read a project distro enablement key" (enumKeys .currentUser distributionsPath)
    let ids ← idsOfKeys tool keys
    pure (tool.hashOrder ids.dedup)
  else pure []

def disableTracked (payloadRoot : String) (distribution : Distribution) : CliAction Unit := do
  disableDistroWithPayload tool distribution payloadRoot
  setEnabled distribution.id false

def cleanDistroProvisioning : CliAction Unit := do
  let registered ← projectDistributionIds tool
  if registered.isEmpty then pure ()
  else do
    let distributions ← enumerateDistributions tool
    let tracked := distributions.filter fun distribution => distribution.id ∈ registered
    if tracked.isEmpty then pure ()
    else do
      let root ← defaultPayloadRoot
      let payloadRoot ← absoluteExistingDirectory root "Linux payload root"
      checkPayload tool payloadRoot
      tracked.forM (disableTracked tool payloadRoot)
    registered.forM fun id => setEnabled id false

def uninstallRegistryPath : String := "SOFTWARE\\Microsoft\\Windows\\CurrentVersion\\Uninstall"

def productDisplayName : String := "WinCred Libsecret WSL Plugin"

def productPublisher : String := "Bharat Middha"

def legacyProductPublisher : String := "wincred-libsecret-wsl-plugin contributors"

def installDirectoryName : String := "WinCredLibsecret"

def releaseInstallerRelativePath : String := "installer\\install.ps1"

def cliName : String := "wincred-libsecret.exe"

def productPublisherMatches (publisher : Option String) : Bool :=
  publisher.any fun publisher => publisher = productPublisher || publisher = legacyProductPublisher

/-- The code of the product a key stands for, if it is ours. -/
def productOf (key : String) : CliAction (Option String) := do
  context "could not read an installed-product key" (keyName .localMachine uninstallRegistryPath key)
  match Uuid.parseStr (trimBraces key) with
  | none => pure none
  | some id => do
      let path := uninstallRegistryPath ++ "\\" ++ key
      let opened ← optional (openKey .localMachine path)
      if opened = some true then do
        let publisher ← registryString tool .localMachine path "Publisher"
        let displayName ← registryString tool .localMachine path "DisplayName"
        if displayName = some productDisplayName ∧ productPublisherMatches publisher = true then
          pure (some ("\x7b" ++ id.toString ++ "\x7d"))
        else pure none
      else pure none

def productsOf : List String → CliAction (List String)
  | [] => pure []
  | key :: keys => do
      let found ← productOf tool key
      let others ← productsOf keys
      pure (found.toList ++ others)

def installedProductCode : CliAction (Option String) := do
  let opened ← context "could not inspect installed products" (openKey .localMachine uninstallRegistryPath)
  if opened then do
    let keys ← context "could not read an installed-product key" (enumKeys .localMachine uninstallRegistryPath)
    let found ← productsOf tool keys
    match found with
    | [] => pure none
    | [code] => pure (some code)
    | _ => bail (s!"multiple installed MSI products are named '{productDisplayName}'; remove them through " ++
        "Windows Installed Apps")
  else pure none

def currentVersionPath : String := "SOFTWARE\\Microsoft\\Windows\\CurrentVersion"

def isAbsoluteDirectory (path : String) : CliAction Bool :=
  if isAbsolute path then do
    let there ← optional (isThere .directory path)
    pure (there = some true)
  else pure false

def programFilesDirectory : CliAction String := do
  let opened ← context "could not inspect the Windows Program Files directory"
    (openKey .localMachine currentVersionPath)
  if opened then do
    let found ← registryString tool .localMachine currentVersionPath "ProgramFilesDir"
    match found with
    | none => bail "Windows did not provide the Program Files directory"
    | some directory => do
        let there ← isAbsoluteDirectory directory
        ensure there s!"Windows Program Files directory is not an existing absolute path: {directory}"
        pure (normalizeWindowsPath directory)
  else throw (.chain ["could not inspect the Windows Program Files directory", tool.notFound])

def installedCliDirectory : CliAction String := do
  let executable ← context "could not locate the installed CLI" currentExe
  let executable ← absoluteExistingFile executable "installed CLI"
  ensure (hasFileName executable cliName) "self-service lifecycle commands must be run from wincred-libsecret.exe"
  let directory ← parentOf executable
  match directory with
  | none => bail "the installed CLI does not have a parent directory"
  | some directory => do
      let programFiles ← programFilesDirectory tool
      let expected := joinName programFiles installDirectoryName
      ensure (windowsPathsEqual directory expected) ("self-service lifecycle commands must be run from the " ++
        s!"installed CLI at {joinName expected cliName}")
      pure directory

/-- Starts the installed script, which waits for the tool to end. -/
def startInstaller (arguments : List String) (message : String) : CliAction Unit := do
  let directory ← installedCliDirectory tool
  let installer ← absoluteExistingFile (joinName directory releaseInstallerRelativePath) "release installer"
  context message (spawn "powershell.exe"
    (["-NoLogo", "-NoProfile", "-ExecutionPolicy", "Bypass", "-File", installer] ++
    arguments ++ ["-WaitForProcessId", toString tool.processId.toNat]))

/-- The second half of the removal. A subsystem that cannot be shut down does not stop it. -/
def removeProduct : CliAction Unit := do
  let _shutdown ← runProcess "wsl.exe" ["--shutdown"]
  let productCode ← installedProductCode tool
  match productCode with
  | none => pure ()
  | some code => startInstaller tool ["-UninstallProductCode", code] "could not start the installed uninstaller"

def uninstall (keepDistroProvisioning : Bool) : CliAction Unit := do
  requireNonAdministrator "uninstall"
  if keepDistroProvisioning then pure () else cleanDistroProvisioning tool
  removeProduct tool

/-! ### Upgrades -/

def gitHubApiBase : String := "https://api.github.com"

def gitHubRepository : String := "bmiddha/wincred-libsecret-wsl-plugin"

inductive ReleaseUpdate (crate : SemverCrate) where
  | current
  | available (release : AvailableRelease crate)
  | noSuitableRelease

/-- The version of the tool itself is one that is read. -/
def compareReleaseUpdate : Option (AvailableRelease tool.crate) → ReleaseUpdate tool.crate
  | some release =>
      if (tool.crate.parse packageVersion.toList).any fun installed =>
          tool.crate.cmp release.version installed = .gt then
        .available release
      else .current
  | none => .noSuitableRelease

def releasesUrl (includePrerelease : Bool) : String :=
  s!"{gitHubApiBase}/repos/{gitHubRepository}/releases" ++ if includePrerelease then "?per_page=100" else "/latest"

def findReleaseUpdate (includePrerelease : Bool) : CliAction (ReleaseUpdate tool.crate) := do
  let found ← releases (releasesUrl includePrerelease)
  match found with
  | .error (fault, error) => throw (.chain [fault.text, error])
  | .ok releases => pure (compareReleaseUpdate tool (newestPublicRelease tool.crate releases includePrerelease))

def upgrade (includePrerelease : Bool) : CliAction Unit := do
  let update ← findReleaseUpdate tool includePrerelease
  match update with
  | .current => pure ()
  | .noSuitableRelease => bail "no suitable public GitHub Release is available for upgrade"
  | .available release => do
      requireNonAdministrator "upgrade"
      startInstaller tool ["-Version", release.tagName] "could not start the installed release-upgrade script"

def pluginRegistryPath : String := "SOFTWARE\\Microsoft\\Windows\\CurrentVersion\\Lxss\\Plugins"

def pluginValueName : String := "wincred-libsecret-wsl-plugin"

structure PluginInstallArguments where
  dll : String
  allowUnsigned : Bool
  restartWslservice : Bool

structure PluginUninstallArguments where
  dll : Option String
  restartWslservice : Bool

def restartOrInstruct (restartWslservice : Bool) : CliAction Unit :=
  if restartWslservice then do
    let stop ← runProcess "sc.exe" ["stop", "wslservice"]
    ensure (stop.success || "1062".toList <:+: stop.stdout.toList) s!"could not stop wslservice: {stop.displayError}"
    let start ← runProcess "sc.exe" ["start", "wslservice"]
    ensure (start.success || "1056".toList <:+: start.stdout.toList)
      s!"could not start wslservice: {start.displayError}"
  else pure ()

def registerPlugin (dll : String) : Option String → CliAction Unit
  | some existing =>
      if windowsPathsEqual existing dll then
        if existing = dll then pure ()
        else context "could not normalize the WSL plugin DLL value"
          (setValue .localMachine pluginRegistryPath pluginValueName (tool.writeString dll))
      else bail (s!"refusing to overwrite {pluginValueName} at {existing}. Remove or inspect the " ++
        "existing project value first.")
  | none => context "could not write the WSL plugin DLL value"
      (setValue .localMachine pluginRegistryPath pluginValueName (tool.writeString dll))

def pluginInstall (arguments : PluginInstallArguments) : CliAction Unit := do
  requireAdministrator
  let dll ← validatePluginDll arguments.dll
  let signature ← signatureStatus dll
  ensure (signature = .valid || arguments.allowUnsigned)
    (s!"DLL signature is {signature.display}; refuse to register it. Use a signed release or " ++
      "pass --allow-unsigned only for a local development build.")
  context "could not open the WSL plugin registry key" (createSubkey .localMachine pluginRegistryPath)
  let existing ← registryString tool .localMachine pluginRegistryPath pluginValueName
  registerPlugin tool dll existing
  restartOrInstruct arguments.restartWslservice

/-- A registration that no longer names the library that is given stays. -/
def unregisterPlugin (expected : Option String) : Option String → CliAction Unit
  | some value =>
      if expected.all fun dll => windowsPathsEqual value dll then
        context "could not remove the project plugin value"
          (deleteValue .localMachine pluginRegistryPath pluginValueName)
      else pure ()
  | none => pure ()

def pluginUninstall (arguments : PluginUninstallArguments) : CliAction Unit := do
  requireAdministrator
  let opened ← context "could not open the WSL plugin registry key" (openKey .localMachine pluginRegistryPath)
  if opened then do
    let existing ← registryString tool .localMachine pluginRegistryPath pluginValueName
    unregisterPlugin arguments.dll existing
  else pure ()
  restartOrInstruct arguments.restartWslservice

/-! ### Commands -/

inductive Command where
  | pluginInstall (arguments : PluginInstallArguments)
  | pluginUninstall (arguments : PluginUninstallArguments)
  | distroEnable (arguments : DistroEnableArguments)
  | distroDisable (name : String)
  | distroRefresh (arguments : DistroRefreshArguments)
  | uninstall (keepDistroProvisioning : Bool)
  | upgrade (includePrerelease : Bool)

def Command.action : Command → CliAction Unit
  | .pluginInstall arguments => Cli.pluginInstall tool arguments
  | .pluginUninstall arguments => Cli.pluginUninstall tool arguments
  | .distroEnable arguments => Cli.distroEnable tool arguments
  | .distroDisable name => Cli.distroDisable tool name
  | .distroRefresh arguments => Cli.distroRefresh tool arguments
  | .uninstall keepDistroProvisioning => Cli.uninstall tool keepDistroProvisioning
  | .upgrade includePrerelease => Cli.upgrade tool includePrerelease

end Tool

end Cli

end WincredLibsecret
