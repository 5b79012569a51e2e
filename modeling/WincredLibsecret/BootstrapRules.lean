import WincredLibsecret.BootstrapScript

/-! What the parts of the provisioning script do to the file system: one lemma for each part, for every place it
can stop at. The backup of the conflicts is the state function `displace`, and the installation of the files
changes no definition but the global one and no backup. -/

namespace WincredLibsecret

namespace Bootstrap

open Effect Effect.Action Shell

namespace FileSystem

@[simp] theorem files_put (fs : FileSystem) (path : Path) (file : Option File) :
    (fs.put path file).files = Function.update fs.files path file := rfl

@[simp] theorem manifest_put (fs : FileSystem) (path : Path) (file : Option File) :
    (fs.put path file).manifest = fs.manifest := rfl

@[simp] theorem files_mark (fs : FileSystem) (directories : List Directory) (present : Bool) :
    (fs.mark directories present).files = fs.files := rfl

@[simp] theorem manifest_mark (fs : FileSystem) (directories : List Directory) (present : Bool) :
    (fs.mark directories present).manifest = fs.manifest := rfl

@[simp] theorem put_put (fs : FileSystem) (path : Path) (first second : Option File) :
    (fs.put path first).put path second = fs.put path second := by
  simp only [put, Function.update_idem]

theorem definition_put_of_ne {fs : FileSystem} {path : Path} {file : Option File} {target : DefinitionPath}
    (h : path ≠ .definition target) : (fs.put path file).definition target = fs.definition target := by
  rw [definition, files_put, Function.update_of_ne h.symm, definition]

/-! ### Backups of the conflicts -/

/-- Copies a definition into the directory of the backups and records it. -/
def backUp (stamp : Stamp) (index : Nat) (target : DefinitionPath) (fs : FileSystem) : FileSystem :=
  match fs.definition target with
  | none => fs
  | some file =>
      { fs.put (.backup stamp index) (some ⟨file.content, 0, 0, 0o600⟩) with
        manifest := fs.manifest.map fun manifest =>
          { manifest with
            lines := manifest.lines ++ [.entry ⟨stamp, index, target, file.uid, file.gid, file.mode⟩] } }

def backUpAll (stamp : Stamp) : Nat → List DefinitionPath → FileSystem → FileSystem
  | _, [], fs => fs
  | index, target :: rest, fs => backUpAll stamp (index + 1) rest (fs.backUp stamp index target)

/-- The directories and the manifest a backup needs. -/
def openManifest (stamp : Stamp) (fs : FileSystem) : FileSystem :=
  { (fs.mark [.backups] true).mark [.backup stamp, .backups] true with
    manifest := some ⟨(fs.manifest.getD ⟨[], 0, 0, 0o644⟩).lines, 0, 0, 0o600⟩ }

/-- The manifest has its mode before it gets its owner. -/
theorem openManifest_eq (fs : FileSystem) (stamp : Stamp) :
    fs.openManifest stamp = { (fs.mark [.backups] true).mark [.backup stamp, .backups] true with
      manifest := some ⟨(fs.manifest.getD ⟨[], 0, 0, 0o644⟩).lines, 0, 0, chownMode 0o600⟩ } := by
  have hmode : chownMode 0o600 = 0o600 := by decide
  rw [hmode, openManifest]

def removeAll (targets : List DefinitionPath) (fs : FileSystem) : FileSystem :=
  targets.foldl (fun fs target => fs.put (.definition target) none) fs

/-- The state a backup of the given conflicts leaves. -/
def displace (stamp : Stamp) (conflicts : List DefinitionPath) (fs : FileSystem) : FileSystem :=
  if conflicts = [] then fs else removeAll conflicts (backUpAll stamp 0 conflicts (fs.openManifest stamp))

theorem files_backUp_of_ne {fs : FileSystem} {stamp : Stamp} {index : Nat} {target : DefinitionPath} {path : Path}
    (h : path ≠ .backup stamp index) : (fs.backUp stamp index target).files path = fs.files path := by
  unfold backUp
  split
  · rfl
  · exact Function.update_of_ne h _ _

@[simp] theorem definition_backUp (fs : FileSystem) (stamp : Stamp) (index : Nat) (target : DefinitionPath) :
    (fs.backUp stamp index target).definition = fs.definition :=
  funext fun _ => files_backUp_of_ne nofun

@[simp] theorem definition_backUpAll (fs : FileSystem) (stamp : Stamp) (index : Nat) (targets : List DefinitionPath) :
    (fs.backUpAll stamp index targets).definition = fs.definition := by
  induction targets generalizing index fs with
  | nil => rfl
  | cons target rest ih => rw [backUpAll, ih, definition_backUp]

theorem definition_removeAll (targets : List DefinitionPath) (fs : FileSystem) (path : DefinitionPath) :
    (removeAll targets fs).definition path = if path ∈ targets then none else fs.definition path := by
  induction targets generalizing fs with
  | nil => simp [removeAll]
  | cons target rest ih =>
      rw [removeAll, List.foldl_cons, ← removeAll, ih, definition, files_put, Function.update_apply]
      by_cases hpath : path = target <;> simp [hpath, definition]

theorem definition_displace (stamp : Stamp) (conflicts : List DefinitionPath) (fs : FileSystem)
    (path : DefinitionPath) :
    (fs.displace stamp conflicts).definition path = if path ∈ conflicts then none else fs.definition path := by
  unfold displace
  by_cases hnil : conflicts = []
  · rw [if_pos hnil, hnil, if_neg List.not_mem_nil]
  · rw [if_neg hnil, definition_removeAll, definition_backUpAll]
    rfl

end FileSystem

/-- The file has bits in its mode that a change of its owner takes away. -/
def File.HasSetId (file : File) : Prop := file.mode.testBit 11 ∨ file.mode.testBit 10 ∧ file.mode.testBit 3

instance (file : File) : Decidable file.HasSetId := inferInstanceAs (Decidable (_ ∨ _))

/-- A file as it comes back from its backup: the last step of a restore changes the owner. -/
def File.givenBack (file : File) : File := { file with mode := chownMode file.mode }

theorem chownMode_eq_self_iff (mode : Nat) :
    chownMode mode = mode ↔ ¬ (mode.testBit 11 ∨ mode.testBit 10 ∧ mode.testBit 3) := by
  have huser : mode.testBit 11 → 2 ^ 11 ≤ mode := Nat.ge_two_pow_of_testBit
  have hgroup : mode.testBit 10 → 2 ^ 10 ≤ mode := Nat.ge_two_pow_of_testBit
  unfold chownMode
  cases huserBit : mode.testBit 11 <;> cases hgroupBit : mode.testBit 10 <;> cases mode.testBit 3 <;>
    simp [huserBit, hgroupBit] at huser hgroup ⊢ <;> omega

theorem File.givenBack_eq_self_iff (file : File) : file.givenBack = file ↔ ¬ file.HasSetId := by
  rw [givenBack, HasSetId, ← chownMode_eq_self_iff]
  cases file
  simp

@[simp] theorem File.isProjectOwned_givenBack (file : File) : file.givenBack.IsProjectOwned ↔ file.IsProjectOwned :=
  Iff.rfl

namespace FileSystem

/-- The file that an entry and its backup record. -/
def recorded (fs : FileSystem) (entry : BackupEntry) : Option File :=
  (fs.files (.backup entry.stamp entry.index)).map fun file => ⟨file.content, entry.uid, entry.gid, entry.mode⟩

/-- The file that an entry restores. -/
def restored (fs : FileSystem) (entry : BackupEntry) : Option File := (fs.recorded entry).map File.givenBack

theorem restored_congr {fs other : FileSystem} (h : fs.recorded = other.recorded) : fs.restored = other.restored := by
  funext entry
  rw [restored, h, restored]

end FileSystem

/-- The last entry for a path. -/
def lastEntry (path : DefinitionPath) : List ManifestLine → Option BackupEntry
  | [] => none
  | .malformed :: rest => lastEntry path rest
  | .entry entry :: rest => (lastEntry path rest).or (if entry.target = path then some entry else none)

theorem lastEntry_append (path : DefinitionPath) (lines more : List ManifestLine) :
    lastEntry path (lines ++ more) = (lastEntry path more).or (lastEntry path lines) := by
  induction lines with
  | nil => simp [lastEntry]
  | cons line rest ih => cases line <;> simp [lastEntry, ih, Option.or_assoc]

namespace FileSystem

variable {fs : FileSystem} {stamp : Stamp} {index : Nat} {target : DefinitionPath} {targets : List DefinitionPath}

theorem manifest_backUp {file : File} {manifest : Manifest} (hfile : fs.definition target = some file)
    (hmanifest : fs.manifest = some manifest) :
    (fs.backUp stamp index target).manifest = some { manifest with
      lines := manifest.lines ++ [.entry ⟨stamp, index, target, file.uid, file.gid, file.mode⟩] } := by
  simp [backUp, hfile, hmanifest]

theorem files_backUpAll_of_ne {path : Path} (h : ∀ later, index ≤ later → path ≠ .backup stamp later) :
    (fs.backUpAll stamp index targets).files path = fs.files path := by
  induction targets generalizing index fs with
  | nil => rfl
  | cons target rest ih =>
      rw [backUpAll, ih fun later hle => h later (by omega), files_backUp_of_ne (h index le_rfl)]

/-- A backup changes neither the entries of other paths nor where they point to. -/
theorem lastEntry_backUpAll_of_notMem {manifest : Manifest} (hmanifest : fs.manifest = some manifest)
    (htargets : ∀ target ∈ targets, fs.definition target ≠ none) {path : DefinitionPath} (hpath : path ∉ targets) :
    lastEntry path (fs.backUpAll stamp index targets).lines = lastEntry path manifest.lines := by
  induction targets generalizing index fs manifest with
  | nil => rw [backUpAll, lines, hmanifest, Option.elim_some]
  | cons target rest ih =>
      obtain ⟨hne, hrest⟩ := List.ne_and_not_mem_of_not_mem_cons hpath
      obtain ⟨file, hfile⟩ := Option.ne_none_iff_exists'.mp (htargets target List.mem_cons_self)
      have hlater : ∀ other ∈ rest, (fs.backUp stamp index target).definition other ≠ none := fun other hother => by
        rw [definition_backUp]
        exact htargets other (List.mem_cons_of_mem _ hother)
      rw [backUpAll, ih (manifest_backUp hfile hmanifest) hlater hrest, lastEntry_append]
      simp [lastEntry, hne.symm]

/-- The last entry of a path that was backed up records the definition that was there. -/
theorem recorded_backUpAll_of_mem {manifest : Manifest} (hmanifest : fs.manifest = some manifest)
    (htargets : ∀ target ∈ targets, fs.definition target ≠ none) {path : DefinitionPath} (hpath : path ∈ targets) :
    ∃ entry, lastEntry path (fs.backUpAll stamp index targets).lines = some entry ∧
      (fs.backUpAll stamp index targets).recorded entry = fs.definition path := by
  induction targets generalizing index fs manifest with
  | nil => cases hpath
  | cons target rest ih =>
      obtain ⟨file, hfile⟩ := Option.ne_none_iff_exists'.mp (htargets target List.mem_cons_self)
      have hlater : ∀ other ∈ rest, (fs.backUp stamp index target).definition other ≠ none := fun other hother => by
        rw [definition_backUp]
        exact htargets other (List.mem_cons_of_mem _ hother)
      have hbacked : (fs.backUp stamp index target).manifest = _ := manifest_backUp hfile hmanifest
      rw [backUpAll]
      by_cases hrest : path ∈ rest
      · refine (ih hbacked hlater hrest).imp fun entry hentry => ⟨hentry.1, ?_⟩
        rw [hentry.2, definition_backUp]
      · -- the entry of this round is the last one of its path, and no later round touches its backup
        obtain rfl : path = target := (List.mem_cons.mp hpath).resolve_right hrest
        refine ⟨⟨stamp, index, path, file.uid, file.gid, file.mode⟩, ?_, ?_⟩
        · rw [lastEntry_backUpAll_of_notMem hbacked hlater hrest, lastEntry_append]
          simp [lastEntry]
        · have hkept : (backUpAll stamp (index + 1) rest (fs.backUp stamp index path)).files (.backup stamp index) =
              (fs.backUp stamp index path).files (.backup stamp index) :=
            files_backUpAll_of_ne fun later hle h => by
              cases h
              omega
          rw [recorded, hkept, hfile]
          simp [backUp, hfile]

theorem manifest_removeAll (targets : List DefinitionPath) (fs : FileSystem) :
    (removeAll targets fs).manifest = fs.manifest := by
  induction targets generalizing fs with
  | nil => rfl
  | cons target rest ih => exact ih (fs.put (.definition target) none)

theorem files_removeAll_of_ne {path : Path} (h : ∀ target, path ≠ .definition target) :
    (removeAll targets fs).files path = fs.files path := by
  induction targets generalizing fs with
  | nil => rfl
  | cons target rest ih =>
      have hrest : (removeAll rest (fs.put (.definition target) none)).files path = _ := ih
      exact hrest.trans (Function.update_of_ne (h target) _ _)

theorem lines_openManifest (fs : FileSystem) (stamp : Stamp) : (fs.openManifest stamp).lines = fs.lines := by
  unfold openManifest lines
  cases fs.manifest <;> rfl

theorem files_displace_of_elsewhere {path : Path} {conflicts : List DefinitionPath}
    (hdefinition : ∀ target, path ≠ .definition target) (hbackup : ∀ stamp index, path ≠ .backup stamp index) :
    (fs.displace stamp conflicts).files path = fs.files path := by
  unfold displace
  split_ifs
  · rfl
  · have hbacked : ((fs.openManifest stamp).backUpAll stamp 0 conflicts).files path = _ :=
      files_backUpAll_of_ne fun later _ => hbackup stamp later
    rw [files_removeAll_of_ne hdefinition, hbacked]
    rfl

theorem directories_displace_of_ne {directory : Directory} {conflicts : List DefinitionPath}
    (hbackups : directory ≠ .backups) (hbackup : directory ≠ .backup stamp) :
    (fs.displace stamp conflicts).directories directory = fs.directories directory := by
  have hremoved : ∀ (targets : List DefinitionPath) (world : FileSystem),
      (removeAll targets world).directories = world.directories := by
    intro targets
    induction targets with
    | nil => exact fun _ => rfl
    | cons target rest ih => exact fun world => ih (world.put (.definition target) none)
  have hbacked : ∀ (targets : List DefinitionPath) (index : Nat) (world : FileSystem),
      (backUpAll stamp index targets world).directories = world.directories := by
    intro targets
    induction targets with
    | nil => exact fun _ _ => rfl
    | cons target rest ih =>
        intro index world
        rw [backUpAll, ih, backUp]
        split <;> rfl
  unfold displace
  split_ifs
  · rfl
  · rw [hremoved, hbacked]
    simp [openManifest, mark, hbackups, hbackup]

variable {conflicts : List DefinitionPath} {path : DefinitionPath}

/-- The entries of the other paths stay what they were. -/
theorem lastEntry_displace_of_notMem (hconflicts : ∀ target ∈ conflicts, fs.definition target ≠ none)
    (hpath : path ∉ conflicts) : lastEntry path (fs.displace stamp conflicts).lines = lastEntry path fs.lines := by
  unfold displace
  split_ifs
  · rfl
  · have hlines : ∀ world : FileSystem, (world.removeAll conflicts).lines = world.lines := fun world => by
      rw [lines, manifest_removeAll, lines]
    have hopened : ∀ target ∈ conflicts, (fs.openManifest stamp).definition target ≠ none := hconflicts
    rw [hlines, lastEntry_backUpAll_of_notMem rfl hopened hpath, ← lines_openManifest fs stamp]
    rfl

/-- The last entry of a displaced definition records it. -/
theorem recorded_displace_of_mem (hconflicts : ∀ target ∈ conflicts, fs.definition target ≠ none)
    (hpath : path ∈ conflicts) : ∃ entry, lastEntry path (fs.displace stamp conflicts).lines = some entry ∧
      (fs.displace stamp conflicts).recorded entry = fs.definition path := by
  have hnil : conflicts ≠ [] := List.ne_nil_of_mem hpath
  have hopened : ∀ target ∈ conflicts, (fs.openManifest stamp).definition target ≠ none := hconflicts
  have hbacked : ∃ entry, lastEntry path ((fs.openManifest stamp).backUpAll stamp 0 conflicts).lines = some entry ∧
      ((fs.openManifest stamp).backUpAll stamp 0 conflicts).recorded entry = (fs.openManifest stamp).definition path :=
    recorded_backUpAll_of_mem rfl hopened hpath
  obtain ⟨entry, hentry, hrecorded⟩ := hbacked
  refine ⟨entry, ?_, ?_⟩
  · rw [displace, if_neg hnil, lines, manifest_removeAll]
    exact hentry
  · have hkept : ∀ world : FileSystem, (world.removeAll conflicts).recorded entry = world.recorded entry := by
      intro world
      have hfiles : (world.removeAll conflicts).files (.backup entry.stamp entry.index) = _ :=
        files_removeAll_of_ne nofun
      rw [recorded, hfiles, recorded]
    rw [displace, if_neg hnil, hkept]
    exact hrecorded

end FileSystem

section Backups

variable {faults : Unit → Prop} {err : Exit Command → FileSystem → Prop} {crash : FileSystem → Prop}
  {fs : FileSystem}

theorem wp_statField {format : String} {field : File → Nat} {path : Path} {file : File} {ok : Nat → FileSystem → Prop}
    (hfile : fs.files path = some file) (hcrash : crash fs) (herr : err (.failed (.stat format path)) fs)
    (hok : ok (field file) fs) :
    wp (serve FileSystem.effect) faults (statField format field path) ok err crash fs := by
  rw [statField, wp_bind]
  have heffect : FileSystem.effect (.stat format path) fs = some fs := by simp [FileSystem.effect, hfile]
  refine wp_run_of_effect heffect hcrash herr hcrash ?_
  rw [wp_pure, hfile]
  exact ⟨hcrash, hok⟩

/-- The script stopped where it was to remove the definition at the path. -/
abbrev AtRemoval (path : DefinitionPath) (exit : Exit Command) : Prop := exit = .failed (.remove (.definition path))

/-- The script stopped where it was to print its last message. -/
abbrev AtAnnouncement (exit : Exit Command) : Prop :=
  exit = .failed (.print "WinCred Secret Service payload installed")

/-- The script stopped before the first definition was removed. -/
abbrev AtPreparation (exit : Exit Command) : Prop := (∀ path, ¬ AtRemoval path exit) ∧ ¬ AtAnnouncement exit

/-- Commands that are neither the removal of a definition nor a message. -/
def Command.prepares : Command → Bool
  | .remove (.definition _) | .print _ => false
  | _ => true

theorem atPreparation_failed {command : Command} (h : command.prepares) : AtPreparation (.failed command) := by
  refine ⟨fun path hexit => ?_, fun hexit => ?_⟩ <;> cases hexit <;> cases h

theorem atPreparation_died (message : String) : AtPreparation (.died message) := by
  simp [AtPreparation]

variable {ok : Unit → FileSystem → Prop}

/-- The copies change no definition, wherever they stop. -/
theorem wp_backupFiles {stamp : Stamp} {index : Nat} {targets : List DefinitionPath} {manifest : Manifest}
    (hmanifest : fs.manifest = some manifest) (htargets : ∀ target ∈ targets, fs.definition target ≠ none)
    (hcrash : ∀ world : FileSystem, world.definition = fs.definition → crash world)
    (herr : ∀ exit (world : FileSystem), AtPreparation exit → world.definition = fs.definition → err exit world)
    (hok : ok () (fs.backUpAll stamp index targets)) :
    wp (serve FileSystem.effect) faults (backupFiles stamp index targets) ok err crash fs := by
  induction targets generalizing index fs manifest with
  | nil => exact ⟨hcrash fs rfl, hok⟩
  | cons target rest ih =>
      obtain ⟨file, hfile⟩ := Option.ne_none_iff_exists'.mp (htargets target List.mem_cons_self)
      have hsame : ∀ file, (fs.put (.backup stamp index) file).definition = fs.definition := fun file =>
        funext fun path => FileSystem.definition_put_of_ne (by simp)
      have hstays : crash fs := hcrash fs rfl
      simp only [backupFiles, wp_bind]
      refine wp_statField hfile hstays (herr _ _ (atPreparation_failed rfl) rfl)
        (wp_statField hfile hstays (herr _ _ (atPreparation_failed rfl) rfl)
        (wp_statField hfile hstays (herr _ _ (atPreparation_failed rfl) rfl) ?_))
      have hcopy : FileSystem.effect (.copy (.definition target) (.backup stamp index)) fs =
          some (fs.put (.backup stamp index)
          (some ⟨file.content, (fs.files (.backup stamp index)).elim 0 File.uid,
            (fs.files (.backup stamp index)).elim 0 File.gid, file.mode⟩)) := by
        rw [FileSystem.effect, show fs.files (.definition target) = some file from hfile]
        rfl
      have howner : ∀ uid gid, FileSystem.effect (.changeOwner (.backup stamp index) 0 0)
          (fs.put (.backup stamp index) (some ⟨file.content, uid, gid, file.mode⟩)) =
            some (fs.put (.backup stamp index) (some ⟨file.content, 0, 0, chownMode file.mode⟩)) := by
        intro uid gid
        simp [FileSystem.effect]
      have hmode : FileSystem.effect (.changeMode (.backup stamp index) 0o600)
          (fs.put (.backup stamp index) (some ⟨file.content, 0, 0, chownMode file.mode⟩)) =
            some (fs.put (.backup stamp index) (some ⟨file.content, 0, 0, 0o600⟩)) := by
        simp [FileSystem.effect]
      have happend : FileSystem.effect (.appendManifest ⟨stamp, index, target, file.uid, file.gid, file.mode⟩)
          (fs.put (.backup stamp index) (some ⟨file.content, 0, 0, 0o600⟩)) = some (fs.backUp stamp index target) := by
        simp [FileSystem.effect, FileSystem.backUp, hfile, hmanifest]
      refine wp_run_of_effect hcopy hstays (herr _ _ (atPreparation_failed rfl) rfl) (hcrash _ (hsame _)) ?_
      refine wp_run_of_effect (howner _ _) (hcrash _ (hsame _)) (herr _ _ (atPreparation_failed rfl) (hsame _))
        (hcrash _ (hsame _)) ?_
      refine wp_run_of_effect hmode (hcrash _ (hsame _)) (herr _ _ (atPreparation_failed rfl) (hsame _))
        (hcrash _ (hsame _)) ?_
      refine wp_run_of_effect happend (hcrash _ (hsame _)) (herr _ _ (atPreparation_failed rfl) (hsame _))
        (hcrash _ (FileSystem.definition_backUp ..)) ?_
      refine ih (FileSystem.manifest_backUp hfile hmanifest) ?_ ?_ ?_ hok
      · intro other hother
        rw [FileSystem.definition_backUp]
        exact htargets other (List.mem_cons_of_mem _ hother)
      · intro world hworld
        exact hcrash world (hworld.trans (FileSystem.definition_backUp ..))
      · intro exit world hexit hworld
        exact herr exit world hexit (hworld.trans (FileSystem.definition_backUp ..))

theorem wp_removeDefinitions {targets : List DefinitionPath}
    (hcrash : ∀ done rest, targets = done ++ rest → crash (fs.removeAll done))
    (herr : ∀ done target rest, targets = done ++ target :: rest →
      err (.failed (.remove (.definition target))) (fs.removeAll done)) (hok : ok () (fs.removeAll targets)) :
    wp (serve FileSystem.effect) faults (removeDefinitions targets) ok err crash fs := by
  induction targets generalizing fs with
  | nil => exact ⟨hcrash [] [] rfl, hok⟩
  | cons target rest ih =>
      rw [removeDefinitions, wp_bind]
      refine wp_run_of_effect rfl (hcrash [] _ rfl) (herr [] target rest rfl) (hcrash [target] rest rfl) ?_
      refine ih (fun done later hrest => ?_) (fun done other later hrest => ?_) hok
      · exact hcrash (target :: done) later (by rw [hrest, List.cons_append])
      · exact herr (target :: done) other later (by rw [hrest, List.cons_append])

/-- The backup of the conflicts changes no definition before all of them are copied. -/
theorem wp_backupConflicts {stamp : Stamp} {conflicts : List DefinitionPath}
    (hconflicts : ∀ target ∈ conflicts, fs.definition target ≠ none)
    (hcrash : ∀ world : FileSystem, world.definition = fs.definition → crash world)
    (hcrash' : ∀ done rest, conflicts = done ++ rest →
      crash (((fs.openManifest stamp).backUpAll stamp 0 conflicts).removeAll done))
    (herr : ∀ exit (world : FileSystem), AtPreparation exit → world.definition = fs.definition → err exit world)
    (herr' : ∀ done target rest, conflicts = done ++ target :: rest → err (.failed (.remove (.definition target)))
      (((fs.openManifest stamp).backUpAll stamp 0 conflicts).removeAll done))
    (hok : ok () (fs.displace stamp conflicts)) :
    wp (serve FileSystem.effect) faults (backupConflicts stamp conflicts) ok err crash fs := by
  unfold backupConflicts
  by_cases hnil : conflicts = []
  · rw [FileSystem.displace, if_pos hnil] at hok
    rw [if_pos hnil]
    exact ⟨hcrash fs rfl, hok⟩
  · rw [FileSystem.displace, if_neg hnil] at hok
    rw [if_neg hnil]
    simp only [wp_bind]
    refine wp_run_of_effect rfl (hcrash _ rfl) (herr _ _ (atPreparation_failed rfl) rfl) (hcrash _ rfl) ?_
    refine wp_run_of_effect rfl (hcrash _ rfl) (herr _ _ (atPreparation_failed rfl) rfl) (hcrash _ rfl) ?_
    refine wp_run_of_effect rfl (hcrash _ rfl) (herr _ _ (atPreparation_failed rfl) rfl) (hcrash _ rfl) ?_
    refine wp_run_of_effect rfl (hcrash _ rfl) (herr _ _ (atPreparation_failed rfl) rfl) (hcrash _ rfl) ?_
    refine wp_run_of_effect (congrArg some (fs.openManifest_eq stamp).symm) (hcrash _ rfl)
      (herr _ _ (atPreparation_failed rfl) rfl) (hcrash _ rfl) ?_
    refine wp_backupFiles rfl hconflicts hcrash herr ?_
    exact wp_removeDefinitions hcrash' herr' hok

end Backups

/-! ### Installing the files -/

/-- Paths that are neither definitions nor backups. -/
def Path.IsElsewhere : Path → Prop
  | .definition _ | .backup _ _ => False
  | _ => True

/-- Commands that leave the definitions, the backups and the manifest alone. -/
def Command.IsElsewhere : Command → Prop
  | .install _ target _ | .installCurrent _ target _ | .copy _ target | .changeOwner target _ _
  | .changeMode target _ | .write target _ | .remove target => target.IsElsewhere
  | .move source target => source.IsElsewhere ∧ target.IsElsewhere
  | .touchManifest | .changeManifestMode _ | .changeManifestOwner _ _ | .appendManifest _ | .removeManifest => False
  | _ => True

/-- The commands behind the one that installs the global definition. -/
def Command.FollowsDefinition : Command → Prop
  | .installCurrent _ .userUnit _ | .installCurrent _ .refreshUnit _ | .installCurrent _ .interopUnit _
  | .systemctl _ => True
  | _ => False

/-- The script stopped behind the command that installs the global definition. -/
def FollowsDefinition : Exit Command → Prop
  | .failed command => command.FollowsDefinition
  | .died _ => False

/-- The definitions, the backups and the manifest are the same. -/
structure FileSystem.Spares (fs next : FileSystem) : Prop where
  definition : next.definition = fs.definition
  backup : ∀ stamp index, next.files (.backup stamp index) = fs.files (.backup stamp index)
  manifest : next.manifest = fs.manifest

namespace FileSystem

variable {fs next final : FileSystem}

theorem Spares.refl (fs : FileSystem) : fs.Spares fs := ⟨rfl, fun _ _ => rfl, rfl⟩

theorem Spares.trans (h : fs.Spares next) (h' : next.Spares final) : fs.Spares final :=
  ⟨h'.definition.trans h.definition, fun stamp index => (h'.backup stamp index).trans (h.backup stamp index),
    h'.manifest.trans h.manifest⟩

theorem Spares.recorded (h : fs.Spares next) : next.recorded = fs.recorded := by
  funext entry
  rw [FileSystem.recorded, h.backup, FileSystem.recorded]

theorem spares_put {path : Path} (hpath : path.IsElsewhere) (file : Option File) : fs.Spares (fs.put path file) where
  definition := by
    funext target
    refine definition_put_of_ne fun h => ?_
    rw [h] at hpath
    exact hpath
  backup := by
    intro stamp index
    refine Function.update_of_ne (fun h => ?_) _ _
    rw [← h] at hpath
    exact hpath
  manifest := rfl

theorem spares_effect {command : Command} (heffect : effect command fs = some next) (hcommand : command.IsElsewhere) :
    fs.Spares next := by
  cases command <;> simp only [effect, Option.map_eq_some_iff, Option.some.injEq] at heffect
  case install | installCurrent | copy | changeOwner | changeMode =>
    obtain ⟨file, -, rfl⟩ := heffect
    exact spares_put hcommand _
  case move source target =>
    obtain ⟨file, -, rfl⟩ := heffect
    exact (spares_put hcommand.2 _).trans (spares_put hcommand.1 _)
  case write | remove =>
    subst heffect
    exact spares_put hcommand _
  case stat | digest | moveLink =>
    obtain ⟨_, -, rfl⟩ := heffect
    exact ⟨rfl, fun _ _ => rfl, rfl⟩
  case touchManifest | changeManifestMode | changeManifestOwner | appendManifest | removeManifest =>
    exact hcommand.elim
  all_goals
    subst heffect
    exact ⟨rfl, fun _ _ => rfl, rfl⟩

end FileSystem

/-- The definition in the release that a run with the given options uses. -/
def payloadDefinition (host : Host) (options : Options) (fs : FileSystem) : Option File :=
  let release := releaseName host options fs
  if fs.directories (.release release) then fs.files (.release release .definition)
  else fs.files (.source options.sourceRoot .definition)

namespace FileSystem

variable {host : Host} {options : Options} {fs : FileSystem} {stamp : Stamp} {conflicts : List DefinitionPath}

theorem source_displace (root : String) (file : PayloadFile) :
    (fs.displace stamp conflicts).files (.source root file) = fs.files (.source root file) :=
  files_displace_of_elsewhere nofun nofun

theorem release_displace (release : String) (file : PayloadFile) :
    (fs.displace stamp conflicts).files (.release release file) = fs.files (.release release file) :=
  files_displace_of_elsewhere nofun nofun

theorem hasRelease_displace (release : String) :
    (fs.displace stamp conflicts).directories (.release release) = fs.directories (.release release) :=
  directories_displace_of_ne nofun nofun

theorem releaseName_displace :
    releaseName host options (fs.displace stamp conflicts) = releaseName host options fs := by
  rw [releaseName, source_displace, releaseName]

end FileSystem

variable {fs : FileSystem} {err : Exit Command → FileSystem → Prop} {crash : FileSystem → Prop}
  {ok : Unit → FileSystem → Prop}

theorem payloadDefinition_displace {host : Host} {options : Options} {stamp : Stamp} {conflicts : List DefinitionPath} :
    payloadDefinition host options (fs.displace stamp conflicts) = payloadDefinition host options fs := by
  simp only [payloadDefinition, FileSystem.releaseName_displace, FileSystem.source_displace,
    FileSystem.release_displace, FileSystem.hasRelease_displace]

theorem wp_verifyPayload {faults : Unit → Prop} {host : Host} {directory : Directory}
    {files : PayloadFile → Option File} (hcrash : crash fs) (herr : err (.died "payload hash verification failed") fs)
    (hok : payloadHashesValid host files = true → ok () fs) :
    wp (serve FileSystem.effect) faults (verifyPayload host directory files) ok err crash fs := by
  -- the script gives up in the same way if the checksums are wrong and if they cannot be read
  have hgives : ∀ checked : Except (Exit Command) FileSystem,
      wp (serve FileSystem.effect) faults
        (orDie (if checked.isOk && payloadHashesValid host files then .ok ()
          else .error "payload hash verification failed") : BootstrapScript Unit) ok err crash fs := by
    intro checked
    split_ifs with hvalid
    · exact ⟨hcrash, hok (Bool.and_eq_true_iff.mp hvalid).2⟩
    · exact ⟨hcrash, herr⟩
  simp only [verifyPayload, wp_bind, wp_attempt]
  exact wp_run_of_effect rfl hcrash (hgives _) hcrash (hgives _)

theorem wp_announce {faults : Unit → Prop} (hcrash : crash fs)
    (herr : err (.failed (.print "WinCred Secret Service payload installed")) fs) (hok : ok () fs) :
    wp (serve FileSystem.effect) faults announce ok err crash fs := by
  rw [announce, wp_bind]
  exact wp_run_of_effect rfl hcrash herr hcrash ⟨hcrash, hok⟩

section Install

variable {faults : Unit → Prop} {fs : FileSystem} {host : Host} {options : Options} {release : String}

/-- Where an installation can stop before it writes the definition. -/
abbrev Early (fs : FileSystem) (exit : Exit Command) (world : FileSystem) : Prop :=
  ¬ FollowsDefinition exit ∧ fs.Spares world

/-- What a fresh copy of the payload contains. -/
def stagedContent (fs : FileSystem) (root : String) (file : PayloadFile) : Option String :=
  if file ∈ payloadFiles then (fs.files (.source root file)).map File.content else none

/-- The payload is copied up to the given files. -/
structure Staged (fs : FileSystem) (root release : String) (pid : Nat) (rest : List PayloadFile)
    (world : FileSystem) : Prop where
  spares : fs.Spares world
  source : ∀ file, world.files (.source root file) = fs.files (.source root file)
  copied : ∀ file ∉ rest,
    (world.files (.releaseTemporary release pid file)).map File.content = stagedContent fs root file

variable {world next : FileSystem} {command : Command}

/-- One more file in the temporary directory. -/
theorem Staged.put {root : String} {pid : Nat} {rest more : List PayloadFile} {file : PayloadFile}
    {staged : Option File} (h : Staged fs root release pid rest world)
    (hfile : staged.map File.content = stagedContent fs root file)
    (hrest : ∀ other ≠ file, other ∉ more → other ∉ rest) :
    Staged fs root release pid more (world.put (.releaseTemporary release pid file) staged) := by
  have helsewhere : (Path.releaseTemporary release pid file).IsElsewhere := trivial
  refine ⟨h.spares.trans (FileSystem.spares_put helsewhere staged), fun other => ?_, fun other hmore => ?_⟩
  · have hsource : Path.source root other ≠ .releaseTemporary release pid file := nofun
    rw [FileSystem.files_put, Function.update_of_ne hsource, h.source]
  · rw [FileSystem.files_put]
    by_cases hother : other = file
    · rw [hother, Function.update_self, hfile]
    · have hne : Path.releaseTemporary release pid other ≠ .releaseTemporary release pid file := fun heq =>
        hother (Path.releaseTemporary.inj heq).2.2
      rw [Function.update_of_ne hne, h.copied other (hrest other hother hmore)]

theorem wp_stageFiles {root : String} {pid : Nat} {ok : Unit → FileSystem → Prop}
    (hworld : Staged fs root release pid payloadFiles world)
    (hok : ∀ world, Staged fs root release pid [] world → ok () world) :
    wp (serve FileSystem.effect) faults
      (payloadFiles.forM fun file => do
        let _ ← run (.install (.source root file) (.releaseTemporary release pid file) 0o644)
        pure () : BootstrapScript Unit) ok (Early fs) fs.Spares world := by
  refine wp_forM (Staged fs root release pid) ?_ (fun world hend => ⟨hend.spares, hok world hend⟩) hworld
  intro file hmem rest world hinv
  simp only [wp_bind, wp_run, wp_pure]
  refine ⟨hinv.spares, fun _ => ⟨id, hinv.spares⟩, fun next hnext => ?_⟩
  simp only [FileSystem.effect, Option.map_eq_some_iff] at hnext
  obtain ⟨original, horiginal, rfl⟩ := hnext
  rw [hinv.source] at horiginal
  have hstaged : Staged fs root release pid rest
      (world.put (.releaseTemporary release pid file) (some ⟨original.content, 0, 0, 0o644⟩)) := by
    refine hinv.put ?_ fun other hother hrest hmore => (List.mem_cons.mp hmore).elim hother hrest
    rw [stagedContent, if_pos hmem, horiginal]
    rfl
  exact ⟨hstaged.spares, hstaged.spares, hstaged⟩

/-- A change of the mode of a copied file. -/
theorem Staged.changeMode {root : String} {pid mode : Nat} {file : PayloadFile}
    (h : Staged fs root release pid [] world)
    (heffect : FileSystem.effect (.changeMode (.releaseTemporary release pid file) mode) world = some next) :
    Staged fs root release pid [] next := by
  simp only [FileSystem.effect, Option.map_eq_some_iff] at heffect
  obtain ⟨original, horiginal, rfl⟩ := heffect
  refine h.put ?_ fun _ _ hmem => hmem
  rw [← h.copied file List.not_mem_nil, horiginal]
  rfl

/-- What the release of the given name contains once it is installed. -/
def releaseContent (fs : FileSystem) (root release : String) (file : PayloadFile) : Option String :=
  if fs.directories (.release release) then (fs.files (.release release file)).map File.content
  else stagedContent fs root file

theorem wp_stageRelease (fs : FileSystem) :
    wp (serve FileSystem.effect) faults (stageRelease host options release fs)
      (fun _ world => fs.Spares world ∧
        (∀ file, (world.files (.release release file)).map File.content =
          releaseContent fs options.sourceRoot release file) ∧
        (fs.directories (.release release) = false →
          payloadHashesValid host fun file => world.files (.release release file)))
      (Early fs) fs.Spares fs := by
  unfold stageRelease
  by_cases hpresent : fs.directories (.release release)
  · rw [if_pos hpresent]
    refine ⟨.refl fs, .refl fs, fun file => ?_, fun habsent => absurd (hpresent.symm.trans habsent) nofun⟩
    rw [releaseContent, if_pos hpresent]
  · rw [if_neg hpresent]
    simp only [wp_bind]
    refine wp_run_of_effect rfl (.refl fs) ⟨id, .refl fs⟩ ⟨rfl, fun _ _ => rfl, rfl⟩ ?_
    refine wp_run_of_effect rfl ⟨rfl, fun _ _ => rfl, rfl⟩ ⟨id, rfl, fun _ _ => rfl, rfl⟩ ⟨rfl, fun _ _ => rfl, rfl⟩ ?_
    refine wp_stageFiles ⟨⟨rfl, fun _ _ => rfl, rfl⟩, fun _ => rfl, fun file hfile => ?_⟩ fun world hstaged => ?_
    · rw [stagedContent, if_neg hfile]
      exact congrArg (Option.map File.content) (if_pos ⟨rfl, rfl⟩)
    simp only [wp_run]
    refine ⟨hstaged.spares, fun _ => ⟨id, hstaged.spares⟩, fun provided hprovided => ?_⟩
    have hprovider := hstaged.changeMode hprovided
    refine ⟨hprovider.spares, hprovider.spares, fun _ => ⟨id, hprovider.spares⟩, fun booted hbooted => ?_⟩
    have hbootstrap := hprovider.changeMode hbooted
    refine ⟨hbootstrap.spares, wp_verifyPayload hbootstrap.spares ⟨id, hbootstrap.spares⟩ fun hvalid => ?_⟩
    refine ⟨hbootstrap.spares, fun _ => ⟨id, hbootstrap.spares⟩, fun moved hmoved => ?_⟩
    have hspares : fs.Spares moved := hbootstrap.spares.trans (FileSystem.spares_effect hmoved trivial)
    cases hmoved
    have hreleased : ∀ file, (if release = release then booted.files (.releaseTemporary release host.stamp.pid file)
        else booted.files (.release release file)) = booted.files (.releaseTemporary release host.stamp.pid file) :=
      fun file => if_pos rfl
    refine ⟨hspares, hspares, hspares, fun file => ?_, fun _ => ?_⟩
    · rw [releaseContent, if_neg hpresent, ← hbootstrap.copied file List.not_mem_nil]
      exact congrArg (Option.map File.content) (hreleased file)
    · exact (congrArg (fun files => payloadHashesValid host files = true) (funext hreleased)).mpr hvalid

/-- The release a run with the given options uses is in use, and it is checked if it is a new one. -/
structure Released (host : Host) (options : Options) (fs world : FileSystem) : Prop where
  spares : fs.Spares world
  content : ∀ file, (world.currentFile file).map File.content =
    releaseContent fs options.sourceRoot (releaseName host options fs) file
  valid : fs.directories (.release (releaseName host options fs)) = false → payloadHashesValid host world.currentFile

theorem Released.definition_content (h : Released host options fs world) :
    (world.currentFile .definition).map File.content = (payloadDefinition host options fs).map File.content := by
  have hmem : PayloadFile.definition ∈ payloadFiles := by decide
  rw [h.content, releaseContent, payloadDefinition, stagedContent, if_pos hmem]
  exact (apply_ite (Option.map File.content) _ _ _).symm

theorem wp_installRelease (fs : FileSystem) :
    wp (serve FileSystem.effect) faults (installRelease host options)
      (fun _ => Released host options fs) (Early fs) fs.Spares fs := by
  simp only [installRelease, wp_bind, wp_run]
  refine ⟨.refl fs, fun _ => ⟨id, .refl fs⟩, fun next hnext => ?_⟩
  simp only [FileSystem.effect, Option.map_eq_some_iff] at hnext
  obtain ⟨manifest, -, rfl⟩ := hnext
  refine ⟨.refl fs, .refl fs, fun _ => ⟨id, .refl fs⟩, fun next hnext => ?_⟩
  have hopened : fs.Spares next := FileSystem.spares_effect hnext trivial
  have hsame : ∀ release, next.directories (.release release) = fs.directories (.release release) := fun release => by
    cases hnext
    simp [FileSystem.mark, Directory.withParents]
  have hcontents : releaseContent next = releaseContent fs := by
    funext root release file
    rw [releaseContent, hsame, releaseContent]
    cases hnext
    rfl
  refine ⟨hopened, wp_mono ?_ ?_ ?_ (wp_stageRelease _)⟩
  · rintro - world ⟨hspares, hcontent, hvalid⟩
    rw [hsame] at hvalid
    rw [hcontents] at hcontent
    have hworld := hopened.trans hspares
    refine ⟨hworld, fun _ => ⟨id, hworld⟩, fun linked hlinked => ?_⟩
    cases hlinked
    have hlinked : fs.Spares { world with nextCurrent := some (releaseName host options fs) } :=
      hworld.trans ⟨rfl, fun _ _ => rfl, rfl⟩
    refine ⟨hlinked, hlinked, fun _ => ⟨id, hlinked⟩, fun moved hmoved => ?_⟩
    have hspares : fs.Spares moved := hlinked.trans (FileSystem.spares_effect hmoved trivial)
    cases hmoved
    exact ⟨hspares, hspares, hspares, hcontent, hvalid⟩
  · rintro exit world ⟨hexit, hspares⟩
    exact ⟨hexit, hopened.trans hspares⟩
  · exact fun world hspares => hopened.trans hspares

/-- The paths written between the release and the definition. -/
def Path.IsHelper : Path → Prop
  | .config | .configTemporary _ | .refreshHelper | .providerHelper => True
  | _ => False

def Command.IsHelper : Command → Prop
  | .makeDirectory _ => True
  | .installCurrent _ target _ | .changeOwner target _ _ | .changeMode target _ | .write target _ => target.IsHelper
  | .move source target => source.IsHelper ∧ target.IsHelper
  | _ => False

/-- Paths outside of the releases. -/
def Path.IsUnreleased : Path → Prop
  | .release _ _ => False
  | _ => True

/-- Commands that leave the release in use alone. -/
def Command.KeepsRelease : Command → Prop
  | .install _ target _ | .installCurrent _ target _ | .copy _ target | .changeOwner target _ _
  | .changeMode target _ | .write target _ | .remove target => target.IsUnreleased
  | .move source target => source.IsUnreleased ∧ target.IsUnreleased
  | .removeRoot | .removeTemporary _ _ | .moveTemporary _ _ | .moveLink => False
  | _ => True

theorem currentFile_put {path : Path} (hpath : path.IsUnreleased) (file : Option File) :
    (fs.put path file).currentFile = fs.currentFile := by
  have hfiles : ∀ release payload, (fs.put path file).files (.release release payload) =
      fs.files (.release release payload) := fun release payload => Function.update_of_ne (fun heq => by
    rw [← heq] at hpath
    exact hpath) _ _
  funext payload
  exact congrArg (Option.bind fs.current) (funext fun release => hfiles release payload)

theorem currentFile_effect (hcommand : command.KeepsRelease) (heffect : FileSystem.effect command fs = some next) :
    next.currentFile = fs.currentFile := by
  cases command <;> simp only [FileSystem.effect, Option.map_eq_some_iff, Option.some.injEq] at heffect
  case install | installCurrent | copy | changeOwner | changeMode =>
    obtain ⟨file, -, rfl⟩ := heffect
    exact currentFile_put hcommand _
  case move source target =>
    obtain ⟨file, -, rfl⟩ := heffect
    exact (currentFile_put hcommand.1 _).trans (currentFile_put hcommand.2 _)
  case write | remove =>
    subst heffect
    exact currentFile_put hcommand _
  case removeRoot | removeTemporary | moveTemporary | moveLink => exact hcommand.elim
  case stat | digest | changeManifestMode | changeManifestOwner =>
    obtain ⟨_, -, rfl⟩ := heffect
    rfl
  all_goals
    subst heffect
    rfl

/-- The release in use stays as well. -/
def KeepsRelease (fs world : FileSystem) : Prop := fs.Spares world ∧ world.currentFile = fs.currentFile

theorem Path.IsHelper.isElsewhere {path : Path} (h : path.IsHelper) : path.IsElsewhere := by cases path <;> trivial

theorem Path.IsHelper.isUnreleased {path : Path} (h : path.IsHelper) : path.IsUnreleased := by cases path <;> trivial

theorem Command.IsHelper.isElsewhere (h : command.IsHelper) : command.IsElsewhere := by
  cases command <;> first
    | exact h.elim
    | exact Path.IsHelper.isElsewhere h
    | exact ⟨h.1.isElsewhere, h.2.isElsewhere⟩
    | trivial

theorem Command.IsHelper.keepsRelease (h : command.IsHelper) : command.KeepsRelease := by
  cases command <;> first
    | exact h.elim
    | exact Path.IsHelper.isUnreleased h
    | exact ⟨h.1.isUnreleased, h.2.isUnreleased⟩
    | trivial

theorem keepsRelease_effect (hcommand : command.IsHelper) (heffect : FileSystem.effect command world = some next)
    (h : KeepsRelease fs world) : KeepsRelease fs next :=
  ⟨h.1.trans (FileSystem.spares_effect heffect hcommand.isElsewhere),
    (currentFile_effect hcommand.keepsRelease heffect).trans h.2⟩

theorem Command.IsHelper.not_follows (h : command.IsHelper) : ¬ command.FollowsDefinition := by
  intro hfollows
  unfold Command.FollowsDefinition at hfollows
  split at hfollows <;> first | exact h | exact hfollows

theorem wp_of_helpers {script : BootstrapScript Unit} (hscript : Makes Command.IsHelper script) (fs : FileSystem) :
    wp (serve FileSystem.effect) faults script (fun _ => KeepsRelease fs) (Early fs) fs.Spares fs := by
  refine wp_mono (fun _ _ h => h) ?_ (fun _ h => h.1)
    (wp_of_makes (fun command world next => keepsRelease_effect) hscript ⟨.refl fs, rfl⟩)
  rintro exit world ⟨hexit, hworld⟩
  refine ⟨?_, hworld.1⟩
  cases exit with
  | failed command => exact hexit.not_follows
  | died message => exact id

theorem makes_writeConfiguration : Makes Command.IsHelper (writeConfiguration host options) :=
  makes_bind (makes_run trivial) fun _ => makes_bind (makes_run trivial) fun _ =>
    makes_bind (makes_run trivial) fun _ =>
    makes_bind (makes_run trivial) fun _ => makes_bind (makes_run ⟨trivial, trivial⟩) fun _ => makes_pure ()

theorem makes_writeHelpers : Makes Command.IsHelper writeHelpers :=
  makes_bind (makes_run trivial) fun _ => makes_bind (makes_run trivial) fun _ =>
    makes_bind (makes_run trivial) fun _ =>
    makes_bind (makes_run trivial) fun _ => makes_bind (makes_run trivial) fun _ =>
      makes_bind (makes_run trivial) fun _ => makes_pure ()

/-- The global definition is the one of the release, and everything else that counts is the same. -/
structure Installs (host : Host) (options : Options) (fs world : FileSystem) : Prop where
  installed : ∃ file ∈ payloadDefinition host options fs, world.definition .global = some ⟨file.content, 0, 0, 0o644⟩
  definition : ∀ path ≠ .global, world.definition path = fs.definition path
  backup : ∀ stamp index, world.files (.backup stamp index) = fs.files (.backup stamp index)
  manifest : world.manifest = fs.manifest

theorem Installs.spares (h : Installs host options fs world) (hnext : world.Spares next) :
    Installs host options fs next where
  installed := by
    rw [hnext.definition]
    exact h.installed
  definition := by
    rw [hnext.definition]
    exact h.definition
  backup := fun stamp index => (hnext.backup stamp index).trans (h.backup stamp index)
  manifest := hnext.manifest.trans h.manifest

theorem installs_effect (hspares : fs.Spares world)
    (hcontent : (world.currentFile .definition).map File.content = (payloadDefinition host options fs).map File.content)
    (heffect : FileSystem.effect (.installCurrent .definition (.definition .global) 0o644) world = some next) :
    Installs host options fs next := by
  simp only [FileSystem.effect, Option.map_eq_some_iff] at heffect
  obtain ⟨file, hfile, rfl⟩ := heffect
  rw [hfile, Option.map_some] at hcontent
  obtain ⟨payload, hpayload, hsame⟩ := Option.map_eq_some_iff.mp hcontent.symm
  refine ⟨⟨payload, hpayload, ?_⟩, fun path hpath => ?_, fun stamp index => ?_, hspares.manifest⟩
  · rw [FileSystem.definition, FileSystem.files_put, Function.update_self, hsame]
  · rw [FileSystem.definition_put_of_ne fun h => hpath (Path.definition.inj h).symm, hspares.definition]
  · have hne : Path.backup stamp index ≠ .definition .global := nofun
    rw [← hspares.backup, FileSystem.files_put, Function.update_of_ne hne]

/-- What holds behind the command that installs the global definition. -/
theorem wp_run_behind {ok : FileSystem → FileSystem → Prop} (hcommand : command.IsElsewhere)
    (hfollows : command.FollowsDefinition) (hworld : Installs host options fs world)
    (hok : ∀ next, Installs host options fs next → ok next next) :
    wp (serve FileSystem.effect) faults (run command) ok
      (fun exit world => Early fs exit world ∨ FollowsDefinition exit ∧ Installs host options fs world)
      (fun world => fs.Spares world ∨ Installs host options fs world) world := by
  refine wp_run.mpr ⟨.inr hworld, fun _ => .inr ⟨hfollows, hworld⟩, fun next hnext => ?_⟩
  have hinstalled := hworld.spares (FileSystem.spares_effect hnext hcommand)
  exact ⟨.inr hinstalled, hok next hinstalled⟩

/-- An installation stops before it writes the global definition, or behind it. -/
theorem wp_installFiles (fs : FileSystem) :
    wp (serve FileSystem.effect) faults (installFiles host options)
      (fun _ => Installs host options fs)
      (fun exit world => Early fs exit world ∨ FollowsDefinition exit ∧ Installs host options fs world)
      (fun world => fs.Spares world ∨ Installs host options fs world) fs := by
  have hearly : ∀ {next : FileSystem}, fs.Spares next → ∀ exit world, Early next exit world →
      Early fs exit world ∨ FollowsDefinition exit ∧ Installs host options fs world :=
    fun hnext exit world h => .inl ⟨h.1, hnext.trans h.2⟩
  simp only [installFiles, writeHelpersAndServices, wp_bind]
  refine wp_mono ?_ (hearly (.refl fs)) (fun _ h => .inl h) (wp_installRelease fs)
  rintro - released hrelease
  have hreleased := hrelease.spares
  have hcontent := hrelease.definition_content
  refine wp_mono ?_ (hearly hreleased) (fun _ h => .inl (hreleased.trans h))
    (wp_of_helpers makes_writeConfiguration released)
  rintro - configured ⟨hconfigured, hkept⟩
  replace hconfigured := hreleased.trans hconfigured
  refine wp_mono ?_ (hearly hconfigured) (fun _ h => .inl (hconfigured.trans h))
    (wp_of_helpers makes_writeHelpers configured)
  rintro - helped ⟨hhelped, hkept'⟩
  replace hhelped := hconfigured.trans hhelped
  rw [← hkept, ← hkept'] at hcontent
  refine wp_run.mpr ⟨.inl hhelped, fun _ => .inl ⟨id, hhelped⟩, fun defined hdefined => ?_⟩
  have hinstalled := installs_effect hhelped hcontent hdefined
  refine ⟨.inr hinstalled, ?_⟩
  simp only [writeServices, reloadSystemd, wp_bind, wp_pure]
  refine wp_run_behind trivial trivial hinstalled fun user huser => ?_
  refine wp_run_behind trivial trivial huser fun refreshed hrefreshed => ?_
  refine wp_run_behind trivial trivial hrefreshed fun interop hinterop => ?_
  refine ⟨.inr hinterop, wp_run_behind trivial trivial hinterop fun reloaded hreloaded => ?_⟩
  refine wp_run_behind trivial trivial hreloaded fun enabled henabled => ?_
  exact wp_run_behind trivial trivial henabled fun final hfinal => ⟨.inr hfinal, hfinal⟩

end Install

theorem nodup_candidates (fs : FileSystem) : fs.candidates.Nodup := by
  have hhomes : (fs.homes.map DefinitionPath.home).Nodup :=
    fs.homes_nodup.map fun left right h => DefinitionPath.home.inj h
  simp [FileSystem.candidates, hhomes]

theorem nodup_conflicts (fs : FileSystem) : fs.conflicts.Nodup := (nodup_candidates fs).filter _

theorem mem_conflicts {path : DefinitionPath} : path ∈ fs.conflicts ↔ path ∈ fs.candidates ∧ fs.HoldsForeign path := by
  simp [FileSystem.conflicts]

theorem definition_ne_none_of_conflict {path : DefinitionPath} (h : path ∈ fs.conflicts) :
    fs.definition path ≠ none := by
  obtain ⟨-, file, hfile, -⟩ := mem_conflicts.mp h
  rw [Option.mem_def.mp hfile]
  exact nofun

theorem requireConflictResolution_eq {options : Options} {conflicts : List DefinitionPath}
    (h : requireConflictResolution fs options = .ok conflicts) : conflicts = fs.conflicts := by
  unfold requireConflictResolution collectConflicts at h
  cases hsafe : fs.conflicts.forM fun path => checkSafeField path.text "conflicting service path" with
  | error message => simp [hsafe, bind, Except.bind] at h
  | ok =>
      simp only [hsafe, bind, Except.bind, pure, Except.pure] at h
      split_ifs at h
      exact (Except.ok.inj h).symm

theorem wp_prepare {faults : Unit → Prop} {host : Host} {options : Options}
    (hcrash : ∀ world : FileSystem, world.definition = fs.definition → crash world)
    (hcrash' : ∀ done rest, fs.conflicts = done ++ rest →
      crash (((fs.openManifest host.stamp).backUpAll host.stamp 0 fs.conflicts).removeAll done))
    (herr : ∀ exit (world : FileSystem), AtPreparation exit → world.definition = fs.definition → err exit world)
    (herr' : ∀ done target rest, fs.conflicts = done ++ target :: rest → err (.failed (.remove (.definition target)))
      (((fs.openManifest host.stamp).backUpAll host.stamp 0 fs.conflicts).removeAll done))
    (hok : ok () (fs.displace host.stamp fs.conflicts)) :
    wp (serve FileSystem.effect) faults (prepare host options fs) ok err crash fs := by
  have hdied : ∀ message, err (.died message) fs := fun message => herr _ _ (atPreparation_died message) rfl
  have hstays := hcrash fs rfl
  simp only [prepare, wp_bind, wp_orDie]
  refine ⟨hstays, fun _ _ => wp_verifyPayload hstays (hdied _) fun _ => ⟨hstays, fun _ _ => ⟨hstays,
    fun conflicts hconflicts => ?_, fun message _ => hdied message⟩, fun message _ => hdied message⟩,
    fun message _ => hdied message⟩
  cases requireConflictResolution_eq hconflicts
  exact wp_backupConflicts (fun _ => definition_ne_none_of_conflict) hcrash hcrash' herr herr' hok

end Bootstrap

end WincredLibsecret
