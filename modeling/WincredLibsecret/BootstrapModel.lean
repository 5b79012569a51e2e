import Mathlib
import WincredLibsecret.ShellScript

/-! The script that provisions a Linux distribution, over a model of the file system. A file has a content, an
owner, a group and a mode. The places the script works with are an enumeration: the definitions of a Secret
Service it looks for, the units and helpers it installs, its releases, its configuration, and the backups of
the definitions it displaces. The manifest of the active backups is kept as its lines. -/

namespace WincredLibsecret

namespace Bootstrap

open Effect Shell

structure File where
  content : String
  uid : Nat
  gid : Nat
  mode : Nat
  deriving DecidableEq

/-- The mode that a change of the owner leaves a file with. It takes the set-user-ID bit away, and the set-group-ID bit
where the group may run the file. -/
def chownMode (mode : Nat) : Nat :=
  mode - (if mode.testBit 11 then 0o4000 else 0) - if mode.testBit 10 && mode.testBit 3 then 0o2000 else 0

/-- Where a definition of `org.freedesktop.secrets` is looked for. -/
inductive DefinitionPath where
  | global
  | xdg
  | localShare
  | home (directory : String)
  deriving DecidableEq

def dbusService : String := "org.freedesktop.secrets.service"

def DefinitionPath.text : DefinitionPath → String
  | .global => "/usr/share/dbus-1/services/" ++ dbusService
  | .xdg => "/etc/xdg/dbus-1/services/" ++ dbusService
  | .localShare => "/usr/local/share/dbus-1/services/" ++ dbusService
  | .home directory => directory ++ "/.local/share/dbus-1/services/" ++ dbusService

/-- The files in the directory of a payload: those of the project, and any others. -/
inductive PayloadFile where
  | manifest
  | provider
  | bootstrap
  | definition
  | userService
  | refreshService
  | interopService
  | other (name : String)
  deriving DecidableEq

/-- The files a release is made of, in the order they are installed in. -/
def payloadFiles : List PayloadFile :=
  [.manifest, .provider, .bootstrap, .definition, .userService, .refreshService, .interopService]

/-- The second and the process that name the directory of the backups of a run. -/
structure Stamp where
  seconds : Nat
  pid : Nat
  deriving DecidableEq

inductive Path where
  | definition (path : DefinitionPath)
  | userUnit
  | refreshUnit
  | interopUnit
  | config
  | configTemporary (pid : Nat)
  | refreshHelper
  | providerHelper
  | source (root : String) (file : PayloadFile)
  | broker (path : String)
  | release (release : String) (file : PayloadFile)
  | releaseTemporary (release : String) (pid : Nat) (file : PayloadFile)
  | backup (stamp : Stamp) (index : Nat)
  deriving DecidableEq

inductive Directory where
  | root
  | releases
  | release (release : String)
  | releaseTemporary (release : String) (pid : Nat)
  | configuration
  | backups
  | backup (stamp : Stamp)
  | services
  | source (root : String)
  | systemdRuntime
  deriving DecidableEq

/-- A displaced definition: its backup, the place it was taken from, and its owner, group and mode there. -/
structure BackupEntry where
  stamp : Stamp
  index : Nat
  target : DefinitionPath
  uid : Nat
  gid : Nat
  mode : Nat
  deriving DecidableEq

/-- A line of the manifest; one with an empty field is malformed. -/
inductive ManifestLine where
  | entry (entry : BackupEntry)
  | malformed
  deriving DecidableEq

structure Manifest where
  lines : List ManifestLine
  uid : Nat
  gid : Nat
  mode : Nat
  deriving DecidableEq

/-- The state the script works on. `current` and `nextCurrent` are the releases the two links name, `homes` the
home directories in the order the script lists them in. -/
structure FileSystem where
  files : Path → Option File
  directories : Directory → Bool
  manifest : Option Manifest
  current : Option String
  nextCurrent : Option String
  homes : List String
  homes_nodup : homes.Nodup

def marker : String := "X-WinCred-Libsecret=1"

/-- A file belongs to the project if it has the marker in it. -/
def File.IsProjectOwned (file : File) : Prop := marker.toList <:+: file.content.toList

instance (file : File) : Decidable file.IsProjectOwned := inferInstanceAs (Decidable (_ <:+: _))

namespace FileSystem

def definition (fs : FileSystem) (path : DefinitionPath) : Option File := fs.files (.definition path)

def IsProjectOwned (fs : FileSystem) (path : Path) : Prop := ∃ file ∈ fs.files path, file.IsProjectOwned

instance (fs : FileSystem) (path : Path) : Decidable (fs.IsProjectOwned path) :=
  inferInstanceAs (Decidable (∃ file ∈ fs.files path, _))

/-- There is a definition at the path and it is not the project's. -/
def HoldsForeign (fs : FileSystem) (path : DefinitionPath) : Prop :=
  ∃ file ∈ fs.definition path, ¬ file.IsProjectOwned

instance (fs : FileSystem) (path : DefinitionPath) : Decidable (fs.HoldsForeign path) :=
  inferInstanceAs (Decidable (∃ file ∈ fs.definition path, _))

def candidates (fs : FileSystem) : List DefinitionPath :=
  .global :: .xdg :: .localShare :: fs.homes.map .home

def lines (fs : FileSystem) : List ManifestLine := fs.manifest.elim [] Manifest.lines

def put (fs : FileSystem) (path : Path) (file : Option File) : FileSystem :=
  { fs with files := Function.update fs.files path file }

def mark (fs : FileSystem) (directories : List Directory) (present : Bool) : FileSystem :=
  { fs with directories := fun directory => if directory ∈ directories then present else fs.directories directory }

end FileSystem

inductive Command where
  | makeDirectory (directory : Directory)
  | install (source target : Path) (mode : Nat)
  | installCurrent (file : PayloadFile) (target : Path) (mode : Nat)
  | copy (source target : Path)
  | changeOwner (path : Path) (uid gid : Nat)
  | changeMode (path : Path) (mode : Nat)
  | stat (format : String) (path : Path)
  | write (path : Path) (content : String)
  | move (source target : Path)
  | remove (path : Path)
  | removeRoot
  | removeTemporary (release : String) (pid : Nat)
  | moveTemporary (release : String) (pid : Nat)
  | link (release : String)
  | moveLink
  | digest (root : String)
  | touchManifest
  | changeManifestMode (mode : Nat)
  | changeManifestOwner (uid gid : Nat)
  | appendManifest (entry : BackupEntry)
  | removeManifest
  | removeBackupDirectory (stamp : Stamp)
  | systemctl (arguments : List String)
  | checkSums (directory : Directory)
  | print (text : String)
  deriving DecidableEq

/-- A directory with those above it that are created along with it. -/
def Directory.withParents : Directory → List Directory
  | .root => [.root]
  | .releases => [.releases, .root]
  | .release name => [.release name, .releases, .root]
  | .releaseTemporary name pid => [.releaseTemporary name pid, .releases, .root]
  | .backup stamp => [.backup stamp, .backups]
  | directory => [directory]

/-- What lies below the directory of the project. -/
def Path.IsBelowRoot : Path → Bool
  | .refreshHelper | .providerHelper | .release _ _ | .releaseTemporary _ _ _ => true
  | _ => false

def Directory.IsBelowRoot : Directory → Bool
  | .root | .releases | .release _ | .releaseTemporary _ _ => true
  | _ => false

namespace FileSystem

/-- A file of the release in use. -/
def currentFile (fs : FileSystem) (file : PayloadFile) : Option File :=
  fs.current.bind fun release => fs.files (.release release file)

/-- The effect of a command, unless the command has to fail. -/
def effect : Command → FileSystem → Option FileSystem
  | .makeDirectory directory, fs => some (fs.mark directory.withParents true)
  | .install source target mode, fs =>
      (fs.files source).map fun file => fs.put target (some ⟨file.content, 0, 0, mode⟩)
  | .installCurrent file target mode, fs =>
      (fs.currentFile file).map fun file => fs.put target (some ⟨file.content, 0, 0, mode⟩)
  -- a copy over an existing file leaves that one's owner
  | .copy source target, fs =>
      (fs.files source).map fun file =>
        fs.put target (some ⟨file.content, (fs.files target).elim 0 File.uid, (fs.files target).elim 0 File.gid,
          file.mode⟩)
  | .changeOwner path uid gid, fs =>
      (fs.files path).map fun file => fs.put path (some ⟨file.content, uid, gid, chownMode file.mode⟩)
  | .changeMode path mode, fs => (fs.files path).map fun file => fs.put path (some { file with mode := mode })
  | .stat _ path, fs => (fs.files path).map fun _ => fs
  | .write path content, fs =>
      some (fs.put path (some ((fs.files path).elim ⟨content, 0, 0, 0o644⟩ fun file =>
        { file with content := content })))
  | .move source target, fs =>
      (fs.files source).map fun file => (fs.put target (some file)).put source none
  | .remove path, fs => some (fs.put path none)
  | .removeRoot, fs =>
      some { fs with
        files := fun path => if path.IsBelowRoot then none else fs.files path
        directories := fun directory => !directory.IsBelowRoot && fs.directories directory
        current := none
        nextCurrent := none }
  | .removeTemporary release pid, fs =>
      some { (fs.mark [.releaseTemporary release pid] false) with
        files := fun path => match path with
          | .releaseTemporary other process _ => if other = release ∧ process = pid then none else fs.files path
          | _ => fs.files path }
  | .moveTemporary release pid, fs =>
      some { ((fs.mark [.releaseTemporary release pid] false).mark [.release release] true) with
        files := fun path => match path with
          | .releaseTemporary other process _ => if other = release ∧ process = pid then none else fs.files path
          | .release other file =>
            if other = release then fs.files (.releaseTemporary release pid file) else fs.files path
          | _ => fs.files path }
  | .link release, fs => some { fs with nextCurrent := some release }
  | .moveLink, fs => fs.nextCurrent.map fun release => { fs with current := some release, nextCurrent := none }
  | .digest root, fs => (fs.files (.source root .manifest)).map fun _ => fs
  | .touchManifest, fs => some { fs with manifest := some (fs.manifest.getD ⟨[], 0, 0, 0o644⟩) }
  | .changeManifestMode mode, fs =>
      fs.manifest.map fun manifest => { fs with manifest := some { manifest with mode := mode } }
  | .changeManifestOwner uid gid, fs =>
      fs.manifest.map fun manifest =>
        { fs with manifest := some ⟨manifest.lines, uid, gid, chownMode manifest.mode⟩ }
  | .appendManifest entry, fs =>
      let manifest := fs.manifest.getD ⟨[], 0, 0, 0o644⟩
      some { fs with manifest := some { manifest with lines := manifest.lines ++ [.entry entry] } }
  | .removeManifest, fs => some { fs with manifest := none }
  | .removeBackupDirectory stamp, fs => some (fs.mark [.backup stamp] false)
  | .systemctl _, fs | .checkSums _, fs | .print _, fs => some fs

end FileSystem

/-- A file named in a manifest of checksums: one in the directory that is checked, or one elsewhere. -/
inductive ListedFile where
  | inside (file : PayloadFile)
  | outside (path : String)
  deriving DecidableEq

/-- What the script reads of its host: the machine, the tools it finds, the clock and its process, and the
checksums. `checksums` is how `sha256sum --check` reads a manifest, `outside` what it finds in files that are
not in the directory it checks. -/
structure Host where
  architecture : String
  hasSystemctl : Bool
  hasDbusDaemon : Bool
  hasDbusBroker : Bool
  runsCommandLine : Bool
  runsInit : Bool
  stamp : Stamp
  sha256 : String → String
  checksums : String → List (String × ListedFile)
  outside : String → Option String

structure Options where
  sourceRoot : String
  brokerPath : String
  protocolVersion : String
  payloadVersion : String
  replaceConflicts : Bool
  deriving DecidableEq

/-- A script over the file system. -/
abbrev BootstrapScript := Script Command FileSystem

end Bootstrap

end WincredLibsecret
