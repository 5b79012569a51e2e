import WincredLibsecret.BootstrapModel

/-! The functions of the provisioning script in the order of the source. Tests read the file system; every
external command is one step that takes effect or stops the script. The exit trap of an installation undoes it
from two flags: whether the files of the project were being installed, and whether its directory was there before. -/

namespace WincredLibsecret

namespace Bootstrap

open Effect Shell

/-! ### Checks -/

def checkSafeField (value name : String) : Except String Unit :=
  if value.toList.any fun c => c = '\n' || c = '\r' || c = '\t' then .error ("unsafe character in " ++ name)
  else .ok ()

/-- What `read` puts into its last variable: the rest of the line, without a separator that ends it as its only one. -/
def lastField (rest : List Char) : List Char :=
  if rest.dropWhile (· ≠ '=') = ['='] then rest.takeWhile (· ≠ '=') else rest

/-- One line of the configuration. -/
def readConfigLine (options : Options) (line : String) : Except String Options :=
  let key := String.ofList (line.toList.takeWhile (· ≠ '='))
  let value := String.ofList (lastField (line.toList.dropWhile (· ≠ '=')).tail)
  if key = "payload_root" then .ok { options with sourceRoot := value }
  else if key = "broker_path" then .ok { options with brokerPath := value }
  else if key = "protocol_version" then .ok { options with protocolVersion := value }
  else if key = "payload_version" then .ok { options with payloadVersion := value }
  else if key = "project_marker" then
    if value = marker then .ok options else .error "configuration ownership marker is invalid"
  else if key = "" then .ok options
  else .error "unrecognized configuration key"

/-- The options an earlier installation recorded; a last line without its end is not read. -/
def readConfig (fs : FileSystem) (replaceConflicts : Bool) : Except String Options := do
  let some config := fs.files .config | .error "provider configuration is absent"
  let lines := ((config.content.toList.splitOn '\n').dropLast).map String.ofList
  let options ← lines.foldlM readConfigLine ⟨"", "", "", "", replaceConflicts⟩
  if options.sourceRoot = "" ∨ options.brokerPath = "" ∨ options.protocolVersion = "" ∨ options.payloadVersion = "" then
    .error "provider configuration is incomplete"
  else .ok options

def validateArguments (fs : FileSystem) (options : Options) : Except String Unit := do
  if ¬ fs.directories (.source options.sourceRoot) then .error "payload source is not a directory"
  if (fs.files (.source options.sourceRoot .manifest)).isNone then .error "payload manifest is missing"
  if (fs.files (.source options.sourceRoot .provider)).isNone then .error "provider payload is missing"
  if (fs.files (.source options.sourceRoot .bootstrap)).isNone then .error "bootstrap payload is missing"
  if (fs.files (.broker options.brokerPath)).isNone then
    .error "Windows broker executable is not reachable from this distribution"
  if options.protocolVersion = "" ∨ ¬ options.protocolVersion.toList.all Char.isDigit then
    .error "protocol version must be numeric"
  if options.payloadVersion = "" ∨
      ¬ options.payloadVersion.toList.all (fun c => c.isAlphanum || c = '.' || c = '_' || c = '-') then
    .error "payload version contains unsupported characters"
  checkSafeField options.sourceRoot "payload source"
  checkSafeField options.brokerPath "broker path"

/-- What a file named in a manifest contains. -/
def Host.listedContent (host : Host) (files : PayloadFile → Option File) : ListedFile → Option String
  | .inside file => (files file).map File.content
  | .outside path => host.outside path

/-- The manifest lists some file, and every file it lists has the listed checksum. -/
def payloadHashesValid (host : Host) (files : PayloadFile → Option File) : Bool :=
  (files .manifest).any fun manifest =>
    let listed := host.checksums manifest.content
    listed ≠ [] ∧ listed.all fun (digest, file) => (host.listedContent files file).map host.sha256 = some digest

/-- Gives up if the checksums are wrong, and also if they cannot be checked. -/
def verifyPayload (host : Host) (directory : Directory) (files : PayloadFile → Option File) : BootstrapScript Unit := do
  let checked ← Action.attempt (run (.checkSums directory))
  orDie (if checked.isOk && payloadHashesValid host files then .ok () else .error "payload hash verification failed")

def checkRuntime (host : Host) (fs : FileSystem) : Except String Unit := do
  if host.architecture ≠ "x86_64" then .error "only x86_64 WSL distributions are supported"
  if ¬ fs.directories .systemdRuntime then
    .error "systemd is not active; enable it in /etc/wsl.conf and restart WSL"
  if ¬ host.hasSystemctl then .error "systemctl is unavailable"
  if ¬ host.hasDbusDaemon ∧ ¬ host.hasDbusBroker then .error "a D-Bus user service implementation is required"
  if ¬ fs.directories .services then .error "D-Bus activation directory is unavailable"
  if ¬ host.runsCommandLine ∧ ¬ host.runsInit then .error "Windows interop is not usable"

/-! ### Conflicts and their backups -/

/-- The candidates that hold a definition of another provider. -/
def FileSystem.conflicts (fs : FileSystem) : List DefinitionPath :=
  fs.candidates.filter fun path => decide (fs.HoldsForeign path)

def collectConflicts (fs : FileSystem) : Except String (List DefinitionPath) := do
  fs.conflicts.forM fun path => checkSafeField path.text "conflicting service path"
  return fs.conflicts

def requireConflictResolution (fs : FileSystem) (options : Options) : Except String (List DefinitionPath) := do
  let conflicts ← collectConflicts fs
  if conflicts ≠ [] ∧ ¬ options.replaceConflicts then
    .error ("refusing to replace another Secret Service provider; " ++
      "retry with --replace-conflicts to create reversible backups")
  else return conflicts

/-- A field of a file as `stat` prints it. -/
def statField (format : String) (field : File → Nat) (path : Path) : BootstrapScript Nat := do
  let fs ← run (.stat format path)
  pure ((fs.files path).elim 0 field)

def backupFiles (stamp : Stamp) : Nat → List DefinitionPath → BootstrapScript Unit
  | _, [] => pure ()
  | index, target :: rest => do
      let uid ← statField "%u" File.uid (.definition target)
      let gid ← statField "%g" File.gid (.definition target)
      let mode ← statField "%a" File.mode (.definition target)
      let _ ← run (.copy (.definition target) (.backup stamp index))
      let _ ← run (.changeOwner (.backup stamp index) 0 0)
      let _ ← run (.changeMode (.backup stamp index) 0o600)
      let _ ← run (.appendManifest ⟨stamp, index, target, uid, gid, mode⟩)
      backupFiles stamp (index + 1) rest

def removeDefinitions : List DefinitionPath → BootstrapScript Unit
  | [] => pure ()
  | target :: rest => do
      let _ ← run (.remove (.definition target))
      removeDefinitions rest

def backupConflicts (stamp : Stamp) (conflicts : List DefinitionPath) : BootstrapScript Unit :=
  if conflicts = [] then pure ()
  else do
    let _ ← run (.makeDirectory .backups)
    let _ ← run (.makeDirectory (.backup stamp))
    let _ ← run .touchManifest
    let _ ← run (.changeManifestMode 0o600)
    let _ ← run (.changeManifestOwner 0 0)
    backupFiles stamp 0 conflicts
    removeDefinitions conflicts

def verifyLine (fs : FileSystem) : ManifestLine → Except String Unit
  | .malformed => .error "backup manifest is malformed"
  | .entry entry =>
      if fs.HoldsForeign entry.target then
        .error ("cannot restore backup because a new provider owns " ++ entry.target.text)
      else .ok ()

def verifyBackupsCanRestore (fs : FileSystem) : Except String Unit := forM fs.lines (verifyLine fs)

/-- Restores the lines of the manifest one after the other, from the given state on. -/
def restoreLines : List ManifestLine → FileSystem → BootstrapScript FileSystem
  | [], fs => pure fs
  | .malformed :: _, _ => orDie (.error "backup payload is missing for ")
  | .entry entry :: rest, fs => do
      if (fs.files (.backup entry.stamp entry.index)).isNone then
        orDie (.error ("backup payload is missing for " ++ entry.target.text))
      else do
        let _ ← run (.install (.backup entry.stamp entry.index) (.definition entry.target) entry.mode)
        let fs ← run (.changeOwner (.definition entry.target) entry.uid entry.gid)
        restoreLines rest fs

def dropBackups : List ManifestLine → BootstrapScript Unit
  | [] => pure ()
  | .malformed :: rest => dropBackups rest
  | .entry entry :: rest => do
      let _ ← run (.remove (.backup entry.stamp entry.index))
      let _ ← Action.attempt (run (.removeBackupDirectory entry.stamp))
      dropBackups rest

def restoreBackups (fs : FileSystem) : BootstrapScript Unit :=
  match fs.manifest with
  | none => pure ()
  | some manifest => do
      orDie (verifyBackupsCanRestore fs)
      let _ ← restoreLines manifest.lines fs
      dropBackups manifest.lines
      let _ ← run .removeManifest

/-! ### Installation -/

/-- The name of the release the payload of the given root is installed as. A line of `sha256sum` starts with a backslash
if there is one in the name of the file. -/
def releaseName (host : Host) (options : Options) (fs : FileSystem) : String :=
  let escape := if '\\' ∈ options.sourceRoot.toList then "\\" else ""
  let digest := escape ++ host.sha256 ((fs.files (.source options.sourceRoot .manifest)).elim "" File.content)
  options.payloadVersion ++ "-" ++ String.ofList (digest.toList.take 16)

/-- Copies the payload and checks the copy, unless the release is there already. -/
def stageRelease (host : Host) (options : Options) (release : String) (fs : FileSystem) : BootstrapScript Unit :=
  if fs.directories (.release release) then pure ()
  else do
    let pid := host.stamp.pid
    let _ ← run (.removeTemporary release pid)
    let _ ← run (.makeDirectory (.releaseTemporary release pid))
    payloadFiles.forM fun file => do
      let _ ← run (.install (.source options.sourceRoot file) (.releaseTemporary release pid file) 0o644)
    let _ ← run (.changeMode (.releaseTemporary release pid .provider) 0o755)
    let fs ← run (.changeMode (.releaseTemporary release pid .bootstrap) 0o755)
    verifyPayload host (.releaseTemporary release pid) fun file => fs.files (.releaseTemporary release pid file)
    let _ ← run (.moveTemporary release pid)

def installRelease (host : Host) (options : Options) : BootstrapScript Unit := do
  let fs ← run (.digest options.sourceRoot)
  let release := releaseName host options fs
  let fs ← run (.makeDirectory .releases)
  stageRelease host options release fs
  let _ ← run (.link release)
  let _ ← run .moveLink

def configurationText (options : Options) : String :=
  "project_marker=" ++ marker ++ "\n" ++ "payload_root=" ++ options.sourceRoot ++ "\n" ++
    "broker_path=" ++ options.brokerPath ++ "\n" ++ "protocol_version=" ++ options.protocolVersion ++ "\n" ++
    "payload_version=" ++ options.payloadVersion ++ "\n"

def writeConfiguration (host : Host) (options : Options) : BootstrapScript Unit := do
  let temporary := Path.configTemporary host.stamp.pid
  let _ ← run (.makeDirectory .configuration)
  let _ ← run (.write temporary (configurationText options))
  let _ ← run (.changeOwner temporary 0 0)
  let _ ← run (.changeMode temporary 0o644)
  let _ ← run (.move temporary .config)

/-- The helper that starts the provider of the release in use. -/
def providerHelperText : String :=
  "#!/usr/bin/env bash\nset -euo pipefail\nIFS=$'\\n\\t'\nreadonly ROOT=\"/usr/libexec/wincred-libsecret\"\n" ++
    "readonly CONFIG=\"/etc/wincred-libsecret/config\"\nbroker_path=\"\"\nwhile IFS='=' read -r key value; do\n" ++
    "    case \"$key\" in\n        broker_path) broker_path=\"$value\" ;;\n        \"\") ;;\n    esac\n" ++
    "done < \"$CONFIG\"\n" ++
    "[[ -n \"$broker_path\" ]] || \x7b echo \"wincred-libsecret: missing broker path\" >&2; exit 1; \x7d\n" ++
    "exec \"$ROOT/current/wincred-libsecret-provider\" --broker \"$broker_path\"\n"

/-- The helpers, up to the definition of the service. -/
def writeHelpers : BootstrapScript Unit := do
  let _ ← run (.makeDirectory .root)
  let _ ← run (.installCurrent .bootstrap .refreshHelper 0o755)
  let _ ← run (.write .providerHelper providerHelperText)
  let _ ← run (.changeOwner .providerHelper 0 0)
  let _ ← run (.changeMode .providerHelper 0o755)
  let _ ← run (.makeDirectory .services)

def writeServices : BootstrapScript Unit := do
  let _ ← run (.installCurrent .userService .userUnit 0o644)
  let _ ← run (.installCurrent .refreshService .refreshUnit 0o644)
  let _ ← run (.installCurrent .interopService .interopUnit 0o644)

def writeHelpersAndServices : BootstrapScript Unit := do
  writeHelpers
  let _ ← run (.installCurrent .definition (.definition .global) 0o644)
  writeServices

def reloadSystemd : BootstrapScript Unit := do
  let _ ← run (.systemctl ["daemon-reload"])
  let _ ← run (.systemctl ["enable", "--now", "wincred-libsecret-interop.service"])
  let _ ← run (.systemctl ["enable", "wincred-libsecret-refresh.service"])

/-- Why an installation stopped, with the flags its trap reads. -/
structure Abort where
  exit : Exit Command
  installStarted : Bool
  previousProjectInstall : Bool
  deriving DecidableEq

abbrev Installation := Action Command (fun _ => Option FileSystem) Unit Abort

/-- The part of an installation before its files are written. -/
def prepare (host : Host) (options : Options) (fs : FileSystem) : BootstrapScript Unit := do
  orDie (validateArguments fs options)
  verifyPayload host (.source options.sourceRoot) fun file => fs.files (.source options.sourceRoot file)
  orDie (checkRuntime host fs)
  let conflicts ← orDie (requireConflictResolution fs options)
  backupConflicts host.stamp conflicts

/-- The part of an installation that its trap undoes. -/
def installFiles (host : Host) (options : Options) : BootstrapScript Unit := do
  installRelease host options
  writeConfiguration host options
  writeHelpersAndServices
  reloadSystemd

/-- The last message of an installation, which its trap no longer undoes. -/
def announce : BootstrapScript Unit := do
  let _ ← run (.print "WinCred Secret Service payload installed")

def installPayload (host : Host) (options : Options) (fs : FileSystem) : Installation Unit := do
  let previousProjectInstall := fs.directories .root
  Action.mapError (⟨·, false, previousProjectInstall⟩) (prepare host options fs)
  Action.mapError (⟨·, true, previousProjectInstall⟩) (installFiles host options)
  Action.mapError (⟨·, false, previousProjectInstall⟩) announce

/-- The two ways to provision: with the options of the command line, or with those of the last installation. -/
inductive Invocation where
  | install (options : Options)
  | refresh (replaceConflicts : Bool)
  deriving DecidableEq

def Invocation.options (fs : FileSystem) : Invocation → Except String Options
  | .install options => .ok options
  | .refresh replaceConflicts => readConfig fs replaceConflicts

def provision (host : Host) (invocation : Invocation) (fs : FileSystem) : Installation Unit := do
  let options ← Action.mapError (⟨·, false, false⟩) (orDie (invocation.options fs) : BootstrapScript Options)
  installPayload host options fs

/-! ### Removal -/

def removeProjectFile (path : Path) (fs : FileSystem) : BootstrapScript FileSystem :=
  if fs.IsProjectOwned path then run (.remove path) else pure fs

/-- The definition and the units, as far as they are the project's. -/
def removeProjectServices (fs : FileSystem) : BootstrapScript FileSystem := do
  let fs ← removeProjectFile (.definition .global) fs
  let fs ← removeProjectFile .userUnit fs
  let fs ← removeProjectFile .refreshUnit fs
  removeProjectFile .interopUnit fs

def disablePayload (fs : FileSystem) : BootstrapScript Unit := do
  orDie (verifyBackupsCanRestore fs)
  let _ ← Action.attempt (run (.systemctl ["disable", "--now", "wincred-libsecret-refresh.service"]))
  let _ ← Action.attempt (run (.systemctl ["disable", "--now", "wincred-libsecret-interop.service"]))
  let fs ← removeProjectServices fs
  let _ ← removeProjectFile .config fs
  let fs ← run .removeRoot
  restoreBackups fs
  let _ ← run (.systemctl ["daemon-reload"])
  let _ ← run (.print "WinCred project-owned files removed; the credential vault was not modified")

/-- The exit trap of an installation. -/
def cleanupAfterFailure (abort : Abort) (fs : FileSystem) : BootstrapScript Unit :=
  if abort.installStarted then do
    let fs ← if abort.previousProjectInstall then pure fs else removeProjectServices fs
    restoreBackups fs
    let _ ← Action.attempt (run (.systemctl ["daemon-reload"]))
  else pure ()

/-! ### Runs -/

def runProvision (host : Host) (invocation : Invocation) (fates : Fates Unit) (fs : FileSystem) :
    Ending Unit FileSystem (Except Abort Unit) :=
  Action.execute (serve FileSystem.effect) (provision host invocation fs) fates fs

/-- A run of the exit trap in which nothing fails. -/
def runCleanup (abort : Abort) (fs : FileSystem) : Except (Exit Command) Unit × FileSystem :=
  Action.answer (serve FileSystem.effect) (cleanupAfterFailure abort fs) fs

/-- A run that removes the project in which nothing fails. -/
def runDisable (fs : FileSystem) : Except (Exit Command) Unit × FileSystem :=
  Action.answer (serve FileSystem.effect) (disablePayload fs) fs

end Bootstrap

end WincredLibsecret
