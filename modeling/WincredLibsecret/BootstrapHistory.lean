import WincredLibsecret.BootstrapRollback

/-! Histories of successful runs, with definitions of other providers appearing between them. What a history has
displaced is a ledger, which names the last displaced file of every path. The manifest and its backups refine the
ledger as long as no run gets the stamp of a line of the manifest, and the removal of the project then restores the
ledger. -/

namespace WincredLibsecret

namespace Bootstrap

open Effect Shell

/-- The file that was displaced last from each path. -/
abbrev Ledger := DefinitionPath → Option File

/-- A successful run displaces the conflicts it finds. -/
def Ledger.displace (ledger : Ledger) (fs : FileSystem) : Ledger := fun path =>
  if path ∈ fs.conflicts then fs.definition path else ledger path

/-- The files that the last lines of the manifest record. -/
def FileSystem.backedUp (fs : FileSystem) : Ledger := fun path => (lastEntry path fs.lines).bind fs.recorded

/-- The states and ledgers that successful runs lead to, each in a state that the condition allows it in, and
definitions of other providers that appear between them. -/
inductive History (allowed : Host → FileSystem → Prop) (start : FileSystem) : FileSystem → Ledger → Prop
  | start : History allowed start start start.backedUp
  | provision {fs : FileSystem} {ledger : Ledger} (before : History allowed start fs ledger) (host : Host)
      (invocation : Invocation) (fates : Fates Unit) (hallowed : allowed host fs)
      (hsuccess : (runProvision host invocation fates fs).outcome = .returned (.ok ())) :
      History allowed start (runProvision host invocation fates fs).state (ledger.displace fs)
  | appear {fs : FileSystem} {ledger : Ledger} (before : History allowed start fs ledger) (path : DefinitionPath)
      (file : File) (hpath : path ∈ fs.candidates) (hforeign : ¬ file.IsProjectOwned) :
      History allowed start (fs.put (.definition path) (some file)) ledger

/-- No line of the manifest has the stamp of the run. -/
def StampUnused (host : Host) (fs : FileSystem) : Prop := ∀ entry, .entry entry ∈ fs.lines → entry.stamp ≠ host.stamp

/-- The manifest and the backups hold the files of the ledger, which are other providers', and the project has no
definition but the global one. -/
structure Refines (fs : FileSystem) (ledger : Ledger) : Prop where
  complete : Complete fs fs.lines
  backedUp : fs.backedUp = ledger
  foreign : ∀ path, ∀ file ∈ ledger path, ¬ file.IsProjectOwned
  owned : ∀ path ∈ fs.candidates, path ≠ .global → ¬ fs.IsProjectOwned (.definition path)

namespace FileSystem

variable {fs : FileSystem} {stamp : Stamp} {index : Nat} {targets : List DefinitionPath} {path : DefinitionPath}

/-- The backups of the lines are not the ones a run with the stamp has still to make. -/
def Older (stamp : Stamp) (index : Nat) (lines : List ManifestLine) : Prop :=
  ∀ entry, .entry entry ∈ lines → entry.stamp = stamp → entry.index < index

theorem recorded_backUp {target : DefinitionPath} {entry : BackupEntry}
    (h : entry.stamp = stamp → entry.index < index) :
    (fs.backUp stamp index target).recorded entry = fs.recorded entry := by
  have hne : Path.backup entry.stamp entry.index ≠ .backup stamp index := fun heq => by
    obtain ⟨hstamp, hindex⟩ := Path.backup.inj heq
    exact absurd hindex (h hstamp).ne
  rw [recorded, files_backUp_of_ne hne, recorded]

theorem recorded_backUpAll {entry : BackupEntry} (h : entry.stamp = stamp → entry.index < index) :
    (fs.backUpAll stamp index targets).recorded entry = fs.recorded entry := by
  induction targets generalizing fs index with
  | nil => rfl
  | cons target rest ih => rw [backUpAll, ih fun hstamp => (h hstamp).trans (Nat.lt_succ_self index), recorded_backUp h]

/-- The lines stay complete when more definitions are backed up. -/
theorem complete_backUpAll {manifest : Manifest} (hmanifest : fs.manifest = some manifest)
    (htargets : ∀ target ∈ targets, fs.definition target ≠ none) (holder : Older stamp index fs.lines)
    (hcomplete : Complete fs fs.lines) :
    Complete (fs.backUpAll stamp index targets) (fs.backUpAll stamp index targets).lines := by
  induction targets generalizing fs index manifest with
  | nil => exact hcomplete
  | cons target rest ih =>
      obtain ⟨file, hfile⟩ := Option.ne_none_iff_exists'.mp (htargets target List.mem_cons_self)
      have hbacked : (fs.backUp stamp index target).manifest = _ := manifest_backUp hfile hmanifest
      have hlines : (fs.backUp stamp index target).lines =
          fs.lines ++ [.entry ⟨stamp, index, target, file.uid, file.gid, file.mode⟩] := by
        rw [lines, hbacked, lines, hmanifest]
        rfl
      refine ih hbacked (fun other hother => ?_) (fun entry hentry hstamp => ?_) fun line hline => ?_
      · rw [definition_backUp]
        exact htargets other (List.mem_cons_of_mem _ hother)
      · rw [hlines, List.mem_append, List.mem_singleton] at hentry
        rcases hentry with hold | hnew
        · exact (holder entry hold hstamp).trans (Nat.lt_succ_self index)
        · cases hnew
          exact Nat.lt_succ_self index
      · rw [hlines, List.mem_append, List.mem_singleton] at hline
        rcases hline with hold | rfl
        · obtain ⟨entry, rfl, hrecorded⟩ := hcomplete line hold
          exact ⟨entry, rfl, by rwa [recorded_backUp (holder entry hold)]⟩
        · refine ⟨_, rfl, ?_⟩
          simp [recorded, backUp, hfile]

theorem recorded_removeAll (targets : List DefinitionPath) (fs : FileSystem) :
    (fs.removeAll targets).recorded = fs.recorded := by
  funext entry
  have hfiles : (fs.removeAll targets).files (.backup entry.stamp entry.index) = _ := files_removeAll_of_ne nofun
  rw [recorded, hfiles, recorded]

theorem backedUp_removeAll (targets : List DefinitionPath) (fs : FileSystem) :
    (fs.removeAll targets).backedUp = fs.backedUp := by
  funext path
  rw [backedUp, lines, manifest_removeAll, ← lines, recorded_removeAll, backedUp]

variable {conflicts : List DefinitionPath}

/-- Once all conflicts are backed up each is recorded, however many of them are removed. -/
theorem backedUp_removing (hconflicts : ∀ target ∈ conflicts, fs.definition target ≠ none) (hpath : path ∈ conflicts)
    (removed : List DefinitionPath) :
    (((fs.openManifest stamp).backUpAll stamp 0 conflicts).removeAll removed).backedUp path = fs.definition path := by
  have hopened : ∀ target ∈ conflicts, (fs.openManifest stamp).definition target ≠ none := hconflicts
  obtain ⟨entry, hentry, hrecorded⟩ : ∃ entry,
      lastEntry path ((fs.openManifest stamp).backUpAll stamp 0 conflicts).lines = some entry ∧
        ((fs.openManifest stamp).backUpAll stamp 0 conflicts).recorded entry =
          (fs.openManifest stamp).definition path :=
    recorded_backUpAll_of_mem rfl hopened hpath
  rw [backedUp_removeAll, backedUp, hentry, Option.bind_some, hrecorded]
  rfl

theorem mem_of_lastEntry {lines : List ManifestLine} {entry : BackupEntry} (h : lastEntry path lines = some entry) :
    .entry entry ∈ lines ∧ entry.target = path := by
  induction lines with
  | nil => cases h
  | cons line rest ih =>
      cases line with
      | malformed => exact (ih h).imp_left (List.mem_cons_of_mem _)
      | entry first =>
          rw [lastEntry] at h
          cases hrest : lastEntry path rest with
          | some last =>
              rw [hrest, Option.some_or] at h
              exact (ih (hrest.trans h)).imp_left (List.mem_cons_of_mem _)
          | none =>
              rw [hrest, Option.none_or] at h
              split_ifs at h with htarget
              cases h
              exact ⟨List.mem_cons_self, htarget⟩

theorem recorded_displace {entry : BackupEntry} (h : entry.stamp ≠ stamp) :
    (fs.displace stamp conflicts).recorded entry = fs.recorded entry := by
  unfold displace
  split_ifs
  · rfl
  · rw [recorded_removeAll, recorded_backUpAll fun hstamp => absurd hstamp h]
    rfl

theorem complete_displace (hconflicts : ∀ target ∈ conflicts, fs.definition target ≠ none)
    (hunused : ∀ entry, .entry entry ∈ fs.lines → entry.stamp ≠ stamp) (hcomplete : Complete fs fs.lines) :
    Complete (fs.displace stamp conflicts) (fs.displace stamp conflicts).lines := by
  unfold displace
  split_ifs
  · exact hcomplete
  · have hopened : Complete (fs.openManifest stamp) (fs.openManifest stamp).lines := by
      rw [lines_openManifest]
      exact hcomplete
    have holder : Older stamp 0 (fs.openManifest stamp).lines := by
      rw [lines_openManifest]
      exact fun entry hentry hstamp => absurd hstamp (hunused entry hentry)
    have htargets : ∀ target ∈ conflicts, (fs.openManifest stamp).definition target ≠ none := hconflicts
    have hbacked := complete_backUpAll rfl htargets holder hopened
    rw [lines, manifest_removeAll, ← lines]
    exact fun line hline => (hbacked line hline).imp fun entry h => ⟨h.1, by rw [recorded_removeAll]; exact h.2⟩

/-- A displaced definition takes the place of what was backed up for its path. -/
theorem backedUp_displace (hconflicts : ∀ target ∈ conflicts, fs.definition target ≠ none)
    (hunused : ∀ entry, .entry entry ∈ fs.lines → entry.stamp ≠ stamp) :
    (fs.displace stamp conflicts).backedUp =
      fun path => if path ∈ conflicts then fs.definition path else fs.backedUp path := by
  funext path
  by_cases hpath : path ∈ conflicts
  · obtain ⟨entry, hentry, hrecorded⟩ := recorded_displace_of_mem hconflicts hpath
    rw [if_pos hpath, backedUp, hentry, Option.bind_some, hrecorded]
  · rw [if_neg hpath, backedUp, lastEntry_displace_of_notMem hconflicts hpath, backedUp]
    cases hentry : lastEntry path fs.lines with
    | none => rfl
    | some entry => exact recorded_displace (hunused entry (mem_of_lastEntry hentry).1)

end FileSystem

section Run

variable {host : Host} {invocation : Invocation} {options : Options} {fs world next : FileSystem} {fates : Fates Unit}
  {ledger : Ledger}

theorem FileSystem.homes_effect {command : Command} (h : FileSystem.effect command fs = some next) :
    next.homes = fs.homes := by
  cases command <;> simp only [FileSystem.effect, Option.map_eq_some_iff, Option.some.injEq] at h
  case install | installCurrent | copy | changeOwner | changeMode | stat | move | moveLink | digest |
      changeManifestMode | changeManifestOwner =>
    obtain ⟨_, -, rfl⟩ := h
    rfl
  all_goals
    subst h
    rfl

theorem candidates_runProvision : (runProvision host invocation fates fs).state.candidates = fs.candidates := by
  have hkeeps : ∀ command (world : FileSystem), world.homes = fs.homes →
      (serve FileSystem.effect command world).2.homes = fs.homes := by
    intro command world hworld
    cases heffect : FileSystem.effect command world with
    | none => simpa [serve, heffect] using hworld
    | some next => simpa [serve, heffect] using (FileSystem.homes_effect heffect).trans hworld
  have hhomes : (runProvision host invocation fates fs).state.homes = fs.homes :=
    Action.execute_state_of_serve hkeeps _ fates rfl
  rw [FileSystem.candidates, hhomes, FileSystem.candidates]

theorem FileSystem.Spares.backedUp_eq (h : fs.Spares world) : world.backedUp = fs.backedUp := by
  funext path
  rw [FileSystem.backedUp, FileSystem.lines, h.manifest, ← FileSystem.lines, h.recorded, FileSystem.backedUp]

theorem Installs.recorded (h : Installs host options fs world) : world.recorded = fs.recorded := by
  funext entry
  rw [FileSystem.recorded, h.backup, FileSystem.recorded]

theorem Installs.lines (h : Installs host options fs world) : world.lines = fs.lines := by
  rw [FileSystem.lines, h.manifest, FileSystem.lines]

theorem Installs.backedUp (h : Installs host options fs world) : world.backedUp = fs.backedUp := by
  funext path
  rw [FileSystem.backedUp, h.lines, h.recorded, FileSystem.backedUp]

/-- At every point of a run a definition of another provider is still there, or it is backed up. -/
theorem wp_provision_backs_up {faults : Unit → Prop} :
    Action.wp (serve FileSystem.effect) faults (provision host invocation fs)
      (fun _ world => ∃ options, Installs host options (fs.displace host.stamp fs.conflicts) world) (fun _ _ => True)
      (fun world => ∀ path ∈ fs.conflicts, world.definition path = fs.definition path ∨
        world.backedUp path = fs.definition path) fs := by
  have hconflicts : ∀ target ∈ fs.conflicts, fs.definition target ≠ none := fun _ => definition_ne_none_of_conflict
  have hdisplaced : ∀ path ∈ fs.conflicts,
      (fs.displace host.stamp fs.conflicts).backedUp path = fs.definition path := by
    intro path hpath
    obtain ⟨entry, hentry, hrecorded⟩ := FileSystem.recorded_displace_of_mem hconflicts hpath
    rw [FileSystem.backedUp, hentry, Option.bind_some, hrecorded]
  simp only [provision, installPayload, Action.wp_bind, Action.wp_mapError, wp_orDie]
  refine ⟨fun _ _ => .inl trivial, fun options _ => ?_, fun _ _ => trivial⟩
  refine wp_prepare (fun world hworld path _ => .inl (congrFun hworld path))
    (fun done rest _ path hpath => .inr (FileSystem.backedUp_removing hconflicts hpath done))
    (fun _ _ _ _ => trivial) (fun _ _ _ _ => trivial) ?_
  have hinstalled : ∀ world, Installs host options (fs.displace host.stamp fs.conflicts) world → ∀ path ∈ fs.conflicts,
      world.definition path = fs.definition path ∨ world.backedUp path = fs.definition path :=
    fun world hworld path hpath => .inr ((congrFun hworld.backedUp path).trans (hdisplaced path hpath))
  refine Action.wp_mono (fun _ world hworld => ?_) (fun _ _ _ => trivial) (fun world hworld path hpath => ?_)
    (wp_installFiles _)
  · exact wp_announce (hinstalled world hworld) trivial ⟨options, hworld⟩
  · rcases hworld with hspares | hworld
    · exact .inr ((congrFun hspares.backedUp_eq path).trans (hdisplaced path hpath))
    · exact hinstalled world hworld path hpath

/-- A successful run with an unused stamp keeps the refinement. -/
theorem Refines.provision (h : Refines fs ledger) (hunused : StampUnused host fs)
    (hsuccess : (runProvision host invocation fates fs).outcome = .returned (.ok ())) :
    Refines (runProvision host invocation fates fs).state (ledger.displace fs) := by
  obtain ⟨options, hinstalled⟩ : ∃ options, Installs host options (fs.displace host.stamp fs.conflicts)
      (runProvision host invocation fates fs).state :=
    Action.execute_of_wp wp_provision_backs_up (within_any fates) hsuccess
  have hconflicts : ∀ target ∈ fs.conflicts, fs.definition target ≠ none := fun _ => definition_ne_none_of_conflict
  refine ⟨?_, ?_, fun path file hfile => ?_, fun path hpath hglobal => ?_⟩
  · rw [hinstalled.lines]
    refine fun line hline => (FileSystem.complete_displace hconflicts hunused h.complete line hline).imp
      fun entry hentry => ?_
    rwa [hinstalled.recorded]
  · rw [hinstalled.backedUp, FileSystem.backedUp_displace hconflicts hunused, h.backedUp]
    rfl
  · unfold Ledger.displace at hfile
    split_ifs at hfile with hconflict
    · obtain ⟨-, other, hother, hforeign⟩ := mem_conflicts.mp hconflict
      cases hother.symm.trans hfile
      exact hforeign
    · exact h.foreign path file hfile
  · rw [candidates_runProvision] at hpath
    rintro ⟨file, hfile, howned⟩
    have hkept : (fs.displace host.stamp fs.conflicts).definition path = some file :=
      (hinstalled.definition path hglobal).symm.trans hfile
    rw [FileSystem.definition_displace] at hkept
    split_ifs at hkept
    exact h.owned path hpath hglobal ⟨file, hkept, howned⟩

theorem Refines.appear (h : Refines fs ledger) {path : DefinitionPath} {file : File}
    (hforeign : ¬ file.IsProjectOwned) :
    Refines (fs.put (.definition path) (some file)) ledger where
  complete := fun line hline => (h.complete line hline).imp fun entry hentry =>
    ⟨hentry.1, by rw [recorded_put_definition]; exact hentry.2⟩
  backedUp := by
    rw [← h.backedUp]
    funext other
    rw [FileSystem.backedUp, recorded_put_definition]
    rfl
  foreign := h.foreign
  owned := by
    rintro other hother hglobal ⟨found, hfound, howned⟩
    by_cases hpath : other = path
    · rw [hpath, FileSystem.files_put, Function.update_self] at hfound
      cases hfound
      exact hforeign howned
    · have hne : Path.definition other ≠ .definition path := fun heq => hpath (Path.definition.inj heq)
      rw [FileSystem.files_put, Function.update_of_ne hne] at hfound
      exact h.owned other hother hglobal ⟨found, hfound, howned⟩

theorem History.refines {start : FileSystem} (h : History StampUnused start fs ledger)
    (hstart : Refines start start.backedUp) : Refines fs ledger := by
  induction h with
  | start => exact hstart
  | provision before host invocation fates hunused hsuccess ih => exact ih.provision hunused hsuccess
  | appear before path file hpath hforeign ih => exact ih.appear hforeign

end Run

section Disable

variable {fs final : FileSystem} {ledger : Ledger}

/-- What the removal leaves that is not given up. -/
structure Disabled (fs final : FileSystem) : Prop where
  definition : ∀ path, final.definition path =
    (lastEntry path fs.lines).elim (fs.withoutServices.definition path) fs.restored
  manifest : final.manifest = none

/-- The state in which the removal restores the backups. -/
structure Stripped (fs world : FileSystem) : Prop where
  definition : world.definition = fs.withoutServices.definition
  recorded : world.recorded = fs.recorded
  lines : world.lines = fs.lines

theorem not_holdsForeign_withoutServices {path : DefinitionPath} (h : ¬ fs.HoldsForeign path) :
    ¬ fs.withoutServices.HoldsForeign path := by
  rintro ⟨file, hfile, hforeign⟩
  rw [Option.mem_def, definition_withoutServices] at hfile
  split_ifs at hfile with hpath
  · subst hpath
    rw [foreignOnly_of_not_foreign h] at hfile
    cases hfile
  · exact h ⟨file, hfile, hforeign⟩

theorem Stripped.restorable {world : FileSystem} (h : Stripped fs world) (hcomplete : Complete fs fs.lines)
    (hverified : verifyBackupsCanRestore fs = .ok ()) : Restorable world := by
  rw [Restorable, h.lines]
  refine ⟨fun line hline => (hcomplete line hline).imp fun entry hentry => by rwa [h.recorded], fun entry hentry => ?_⟩
  obtain ⟨other, hother, hforeign⟩ := verifyBackupsCanRestore_eq_ok.mp hverified _ hentry
  cases hother
  rintro ⟨file, hfile, howned⟩
  rw [h.definition] at hfile
  exact not_holdsForeign_withoutServices hforeign ⟨file, hfile, howned⟩

/-- The state behind the removal of everything but the backups. -/
def FileSystem.withoutProject (fs : FileSystem) : FileSystem :=
  { fs.withoutServices.put .config (foreignOnly (fs.withoutServices.files .config)) with
    files := fun path => if path.IsBelowRoot then none
      else (fs.withoutServices.put .config (foreignOnly (fs.withoutServices.files .config))).files path
    directories := fun directory => !directory.IsBelowRoot && fs.directories directory
    current := none
    nextCurrent := none }

theorem stripped_withoutProject (fs : FileSystem) : Stripped fs fs.withoutProject := by
  have hdefinition : ∀ target,
      fs.withoutProject.files (.definition target) = fs.withoutServices.files (.definition target) :=
    fun target => by simp [FileSystem.withoutProject, Path.IsBelowRoot]
  have hbackup : ∀ stamp index, fs.withoutProject.files (.backup stamp index) =
      fs.withoutServices.files (.backup stamp index) := fun stamp index => by
    simp [FileSystem.withoutProject, Path.IsBelowRoot]
  refine ⟨funext hdefinition, funext fun entry => ?_, rfl⟩
  rw [FileSystem.recorded, hbackup, ← FileSystem.recorded, recorded_withoutServices]

/-- The removal gives up at once or restores everything, if no backup is missing. -/
theorem wp_disable (hcomplete : Complete fs fs.lines) :
    Action.wp (serve FileSystem.effect) (fun _ => False) (disablePayload fs)
      (fun _ final => verifyBackupsCanRestore fs = .ok () ∧ Disabled fs final)
      (fun _ final => verifyBackupsCanRestore fs ≠ .ok () ∧ final = fs) (fun _ => True) fs := by
  simp only [disablePayload, Action.wp_bind, wp_orDie, Action.wp_attempt]
  refine ⟨trivial, fun _ hverified => ?_, fun message hrefused => ⟨by simp [hrefused], trivial⟩⟩
  refine wp_run_undisturbed rfl trivial trivial (wp_run_undisturbed rfl trivial trivial ?_)
  refine wp_removeProjectServices (wp_removeProjectFile (wp_run_undisturbed rfl trivial trivial ?_))
  have hstripped := stripped_withoutProject fs
  refine Action.wp_mono (fun _ world hworld => ?_) (fun _ _ hmissing => ?_) (fun _ h => h) 
    (wp_restoreBackups : Action.wp _ _ (restoreBackups fs.withoutProject) _ _ _ fs.withoutProject)
  · refine wp_run_undisturbed rfl trivial trivial (wp_run_undisturbed rfl trivial trivial
      ⟨trivial, hverified, fun path => ?_, hworld.manifest⟩)
    have hrestored := FileSystem.restored_congr hstripped.recorded
    exact (hworld.definition path).trans (by rw [hstripped.lines, hstripped.definition, hrestored])
  · exact absurd (hstripped.restorable hcomplete hverified) hmissing

/-- The removal refuses and changes nothing if a displaced path holds a definition of another provider. Otherwise it
restores what was displaced and removes the project's definitions. -/
structure Reverses (fs : FileSystem) (ledger : Ledger) (result : Except (Exit Command) Unit × FileSystem) : Prop where
  refuses_iff : (∃ exit, result.1 = .error exit) ↔ ∃ path, ledger path ≠ none ∧ fs.HoldsForeign path
  unchanged : ∀ exit, result.1 = .error exit → result.2 = fs
  restores : result.1 = .ok () → ∀ path, ∀ file ∈ ledger path, result.2.definition path = some file
  removes : result.1 = .ok () → ∀ path ∈ fs.candidates, ¬ result.2.IsProjectOwned (.definition path)
  spares : result.1 = .ok () → ∀ path, fs.HoldsForeign path → result.2.definition path = fs.definition path
  manifest : result.1 = .ok () → result.2.manifest = none

theorem lastEntry_ne_none_of_mem {lines : List ManifestLine} {entry : BackupEntry} (h : .entry entry ∈ lines) :
    lastEntry entry.target lines ≠ none := by
  induction lines with
  | nil => cases h
  | cons line rest ih =>
      rcases List.mem_cons.mp h with rfl | hrest
      · simp [lastEntry]
      · cases line <;> simp [lastEntry, ih hrest]

/-- The displaced paths are those with a line. -/
theorem Refines.displaced_iff (h : Refines fs ledger) {path : DefinitionPath} :
    ledger path ≠ none ↔ lastEntry path fs.lines ≠ none := by
  rw [← h.backedUp, FileSystem.backedUp]
  cases hentry : lastEntry path fs.lines with
  | none => simp
  | some entry =>
      obtain ⟨other, hother, hrecorded⟩ := h.complete _ (FileSystem.mem_of_lastEntry hentry).1
      cases hother
      simpa using hrecorded

theorem Refines.verifies_iff (h : Refines fs ledger) :
    verifyBackupsCanRestore fs = .ok () ↔ ¬ ∃ path, ledger path ≠ none ∧ fs.HoldsForeign path := by
  rw [verifyBackupsCanRestore_eq_ok]
  constructor
  · rintro hverified ⟨path, hdisplaced, hforeign⟩
    obtain ⟨entry, hentry⟩ := Option.ne_none_iff_exists'.mp (h.displaced_iff.mp hdisplaced)
    obtain ⟨hmem, htarget⟩ := FileSystem.mem_of_lastEntry hentry
    obtain ⟨other, hother, hnot⟩ := hverified _ hmem
    cases hother
    rw [htarget] at hnot
    exact hnot hforeign
  · intro hnone line hline
    obtain ⟨entry, rfl, -⟩ := h.complete line hline
    exact ⟨entry, rfl, fun hforeign =>
      hnone ⟨entry.target, h.displaced_iff.mpr (lastEntry_ne_none_of_mem hline), hforeign⟩⟩

/-- What the removal leaves at a path: the displaced file, as far as a restore gives it back. -/
theorem Refines.definition_of_disabled (h : Refines fs ledger) (hdisabled : Disabled fs final) (path : DefinitionPath) :
    final.definition path = ((ledger path).map File.givenBack).or (fs.withoutServices.definition path) := by
  rw [hdisabled.definition, ← h.backedUp, FileSystem.backedUp]
  cases hentry : lastEntry path fs.lines with
  | none => rfl
  | some entry =>
      obtain ⟨other, hother, hrecorded⟩ := h.complete _ (FileSystem.mem_of_lastEntry hentry).1
      cases hother
      obtain ⟨file, hfile⟩ := Option.ne_none_iff_exists'.mp hrecorded
      simp [FileSystem.restored, hfile]

theorem Refines.reverses (h : Refines fs ledger) (hmodes : ∀ path, ∀ file ∈ ledger path, ¬ file.HasSetId) :
    Reverses fs ledger (runDisable fs) := by
  have hend := Action.answer_of_wp (wp_disable h.complete)
  rw [← runDisable] at hend
  have hok : (runDisable fs).1 = .ok () → verifyBackupsCanRestore fs = .ok () ∧ Disabled fs (runDisable fs).2 :=
    fun hresult => by rwa [hresult] at hend
  have herror : ∀ exit, (runDisable fs).1 = .error exit →
      verifyBackupsCanRestore fs ≠ .ok () ∧ (runDisable fs).2 = fs :=
    fun exit hresult => by rwa [hresult] at hend
  refine ⟨⟨?_, fun hforeign => ?_⟩, fun exit hresult => (herror exit hresult).2, fun hresult path file hfile => ?_,
    fun hresult path hpath => ?_, fun hresult path hforeign => ?_, fun hresult => (hok hresult).2.manifest⟩
  · rintro ⟨exit, hresult⟩
    exact by_contra fun hnone => (herror exit hresult).1 (h.verifies_iff.mpr hnone)
  · cases hresult : (runDisable fs).1 with
    | ok _ => exact absurd hforeign (h.verifies_iff.mp (hok hresult).1)
    | error exit => exact ⟨exit, rfl⟩
  · rw [h.definition_of_disabled (hok hresult).2, Option.mem_def.mp hfile, Option.map_some, Option.some_or,
      file.givenBack_eq_self_iff.mpr (hmodes path file hfile)]
  · rintro ⟨file, hfile, howned⟩
    have hleft := (h.definition_of_disabled (hok hresult).2 path).symm.trans hfile
    cases hledger : ledger path with
    | some displaced =>
        rw [hledger, Option.map_some, Option.some_or] at hleft
        cases hleft
        exact h.foreign path _ hledger (displaced.isProjectOwned_givenBack.mp howned)
    | none =>
        rw [hledger, Option.map_none, Option.none_or, definition_withoutServices] at hleft
        split_ifs at hleft with hglobal
        · exact absurd howned (of_decide_eq_true (Option.filter_eq_some_iff.mp hleft).2)
        · exact h.owned path hpath hglobal ⟨file, hleft, howned⟩
  · have hnone : ledger path = none := by_contra fun hdisplaced =>
      h.verifies_iff.mp (hok hresult).1 ⟨path, hdisplaced, hforeign⟩
    rw [h.definition_of_disabled (hok hresult).2, hnone, Option.map_none, Option.none_or,
      definition_withoutServices]
    split_ifs with hglobal
    · subst hglobal
      obtain ⟨file, hfile, hnot⟩ := hforeign
      simp [Option.mem_def.mp hfile, foreignOnly, hnot]
    · rfl

/-- After every history the removal of the project reverses it, if a restore can give the displaced files back as they
were, and no run loses a definition of another provider. -/
theorem disable_reverses_history (start fs : FileSystem) (ledger : Ledger) (hstart : Refines start start.backedUp)
    (hhistory : History StampUnused start fs ledger) (hmodes : ∀ path, ∀ file ∈ ledger path, ¬ file.HasSetId) :
    Reverses fs ledger (runDisable fs) ∧
      ∀ host invocation fates, ∀ world ∈ Action.visited (serve FileSystem.effect)
        (provision host invocation fs) fates fs,
        ∀ path ∈ fs.candidates, fs.HoldsForeign path →
          world.definition path = fs.definition path ∨ world.backedUp path = fs.definition path :=
  ⟨(hhistory.refines hstart).reverses hmodes, fun _ _ fates world hworld path hpath hforeign =>
    Action.visited_of_wp wp_provision_backs_up (within_any fates) world hworld path
      (mem_conflicts.mpr ⟨hpath, hforeign⟩)⟩

theorem refines_foreignAtXdg : Refines foreignAtXdg foreignAtXdg.backedUp where
  complete := fun _ h => absurd h List.not_mem_nil
  backedUp := rfl
  foreign := fun _ _ h => absurd h nofun
  owned := by decide +kernel

/-- The history of one installation in the place of another provider. -/
theorem disable_reverses_replacement :
    ∃ fs ledger, History StampUnused foreignAtXdg fs ledger ∧ ledger .xdg = some ⟨"other", 0, 0, 0o644⟩ ∧
      Reverses fs ledger (runDisable fs) := by
  have hinstalled : (runProvision sampleHost (.install { sampleOptions with replaceConflicts := true }) undisturbed
      foreignAtXdg).outcome = .returned (.ok ()) := by decide +kernel
  have hunused : StampUnused sampleHost foreignAtXdg := fun _ h => absurd h List.not_mem_nil
  have hhistory := History.provision .start _ _ _ hunused hinstalled
  have hmodes : ∀ path, ∀ file ∈ foreignAtXdg.backedUp.displace foreignAtXdg path, ¬ file.HasSetId := by
    intro path file hfile
    unfold Ledger.displace at hfile
    split_ifs at hfile
    · change file ∈ (if path = .xdg then some _ else none) at hfile
      split_ifs at hfile <;> cases hfile
      decide
    · cases hfile
  exact ⟨_, _, hhistory, by decide +kernel,
    (disable_reverses_history foreignAtXdg _ _ refines_foreignAtXdg hhistory hmodes).1⟩

/-- A distribution whose manifest names a backup that is not there. -/
def lostBackup : FileSystem :=
  { projectAtGlobal with
    files := fun path => match path with
      | .backup _ _ => none
      | path => projectAtGlobal.files path }

/-- The removal fails behind the removal of the project's definition, though no other provider has a definition. -/
theorem disable_fails_without_backup :
    History (fun _ _ => True) lostBackup lostBackup lostBackup.backedUp ∧
      (∀ path, ¬ lostBackup.HoldsForeign path) ∧
      (runDisable lostBackup).1 = .error (.died
        "backup payload is missing for /usr/share/dbus-1/services/org.freedesktop.secrets.service") ∧
      (runDisable lostBackup).2.definition .global ≠ lostBackup.definition .global := by
  refine ⟨.start, ?_, by decide +kernel, by decide +kernel⟩
  rintro path ⟨file, hfile, hforeign⟩
  change (if path = .global then some _ else none) = some file at hfile
  split_ifs at hfile
  cases hfile
  exact hforeign (List.infix_refl _)

end Disable

end Bootstrap

end WincredLibsecret
