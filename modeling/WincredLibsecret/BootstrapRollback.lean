import WincredLibsecret.BootstrapRelease
import WincredLibsecret.BootstrapRestore

/-! The exit trap of an installation. It starts in the state in which a command failed, and is to leave every
definition as it was before the run. It does not where the script failed between two removals of conflicts, since
it only acts on an installation that has started. Later it restores every entry of the manifest, also those of
earlier runs, whose definitions the project has replaced since. -/

namespace WincredLibsecret

namespace Bootstrap

open Effect Shell

variable {host : Host} {invocation : Invocation} {before failed final : FileSystem} {abort : Abort}

/-- The definition that the run installs is the one that is there. -/
def PayloadAlike (host : Host) (invocation : Invocation) (before : FileSystem) : Prop :=
  ∀ options, invocation.options before = .ok options →
    (payloadDefinition host options before).map (fun file => ⟨file.content, 0, 0, 0o644⟩) = before.definition .global

/-- The global definition is not touched, or is replaced by an equal file, or is removed again. -/
def GlobalKept (host : Host) (invocation : Invocation) (before : FileSystem) (abort : Abort) : Prop :=
  if before.directories .root then FollowsDefinition abort.exit → PayloadAlike host invocation before
  else before.definition .global = none ∧
    (FollowsDefinition abort.exit → ∀ options, invocation.options before = .ok options →
      ∀ file ∈ payloadDefinition host options before, file.IsProjectOwned)

/-- What the state before the run and the place of the failure have to be for the trap to undo the run. -/
def Undone (host : Host) (invocation : Invocation) (before : FileSystem) (abort : Abort) : Prop :=
  if abort.installStarted then
    (∀ path ∈ before.conflicts, ∀ file ∈ before.definition path, ¬ file.HasSetId) ∧
    (∀ path ∈ before.candidates, ¬ before.HoldsForeign path → ∀ entry, lastEntry path before.lines = some entry →
      (before.displace host.stamp before.conflicts).restored entry = before.definition path) ∧
    (¬ before.HoldsForeign .global → lastEntry .global before.lines = none → GlobalKept host invocation before abort)
  else if AtAnnouncement abort.exit then
    (∀ path ∈ before.conflicts, path = .global) ∧ PayloadAlike host invocation before
  else ∀ path ∈ before.conflicts.tail, ¬ AtRemoval path abort.exit

/-- Where an installation can stop: before a conflict is removed, between two removals, before the global
definition is written, behind it, or with everything installed at its last message. -/
inductive Stops (host : Host) (invocation : Invocation) (before : FileSystem) (abort : Abort) : FileSystem → Prop
  | unprepared {failed : FileSystem} (hstarted : abort.installStarted = false) (hexit : AtPreparation abort.exit)
      (hsame : failed.definition = before.definition) : Stops host invocation before abort failed
  | removing {failed : FileSystem} {done rest : List DefinitionPath} {target : DefinitionPath}
      (hstarted : abort.installStarted = false) (hexit : AtRemoval target abort.exit)
      (hconflicts : before.conflicts = done ++ target :: rest)
      (hremoved : ∀ path, failed.definition path = if path ∈ done then none else before.definition path) :
      Stops host invocation before abort failed
  | early {failed : FileSystem} (hstarted : abort.installStarted = true)
      (hprevious : abort.previousProjectInstall = before.directories .root)
      (hfailed : Early (before.displace host.stamp before.conflicts) abort.exit failed) :
      Stops host invocation before abort failed
  | late {failed : FileSystem} {options : Options} (hoptions : invocation.options before = .ok options)
      (hstarted : abort.installStarted = true) (hprevious : abort.previousProjectInstall = before.directories .root)
      (hexit : FollowsDefinition abort.exit)
      (hfailed : Installs host options (before.displace host.stamp before.conflicts) failed) :
      Stops host invocation before abort failed
  | announcing {failed : FileSystem} {options : Options} (hoptions : invocation.options before = .ok options)
      (hstarted : abort.installStarted = false) (hexit : AtAnnouncement abort.exit)
      (hfailed : Installs host options (before.displace host.stamp before.conflicts) failed) :
      Stops host invocation before abort failed

theorem wp_provision {faults : Unit → Prop} :
    Action.wp (serve FileSystem.effect) faults (provision host invocation before) (fun _ _ => True)
      (fun abort => Stops host invocation before abort) (fun _ => True) before := by
  simp only [provision, installPayload, Action.wp_bind, Action.wp_mapError, wp_orDie]
  refine ⟨trivial, fun options hoptions => ?_, fun message _ => .unprepared rfl (atPreparation_died message) rfl⟩
  refine wp_prepare (fun _ _ => trivial) (fun _ _ _ => trivial) (fun exit world hexit hworld => ?_)
    (fun done target rest hconflicts => ?_) ?_
  · exact .unprepared rfl hexit hworld
  · refine .removing rfl rfl hconflicts fun path => ?_
    rw [FileSystem.definition_removeAll, FileSystem.definition_backUpAll]
    rfl
  · refine Action.wp_mono (fun _ world hinstalled => ?_) (fun exit world hfailed => ?_) (fun _ _ => trivial)
      (wp_installFiles (before.displace host.stamp before.conflicts))
    · exact wp_announce trivial (.announcing hoptions rfl rfl hinstalled) trivial
    · rcases hfailed with hearly | ⟨hexit, hinstalled⟩
      · exact .early rfl rfl hearly
      · exact .late hoptions rfl rfl hexit hinstalled

theorem recorded_withoutServices (fs : FileSystem) : fs.withoutServices.recorded = fs.recorded := by
  have hfiles : ∀ stamp index, fs.withoutServices.files (.backup stamp index) = fs.files (.backup stamp index) :=
    fun stamp index => by simp [FileSystem.withoutServices]
  funext entry
  rw [FileSystem.recorded, hfiles, FileSystem.recorded]

theorem definition_withoutServices (fs : FileSystem) (path : DefinitionPath) :
    fs.withoutServices.definition path =
      if path = .global then foreignOnly (fs.definition .global) else fs.definition path := by
  by_cases hpath : path = .global <;> simp [FileSystem.withoutServices, FileSystem.definition, hpath]

/-- The state in which the trap restores the backups. -/
def FileSystem.cleared (fs : FileSystem) (abort : Abort) : FileSystem :=
  if abort.previousProjectInstall then fs else fs.withoutServices

/-- What the trap leaves at each path. -/
theorem wp_cleanup (hstarted : abort.installStarted = true) :
    Action.wp (serve FileSystem.effect) (fun _ => False) (cleanupAfterFailure abort failed)
      (fun _ final => ∀ path, final.definition path =
        (lastEntry path failed.lines).elim ((failed.cleared abort).definition path) failed.restored)
      (fun _ _ => True) (fun _ => True) failed := by
  have hlines : (failed.cleared abort).lines = failed.lines := by
    unfold FileSystem.cleared
    split_ifs <;> rfl
  have hrestored : (failed.cleared abort).restored = failed.restored := by
    unfold FileSystem.cleared
    split_ifs
    · rfl
    · exact FileSystem.restored_congr (recorded_withoutServices failed)
  have hrest : Action.wp (serve FileSystem.effect) (fun _ => False)
      (do restoreBackups (failed.cleared abort)
          let _ ← Action.attempt (run (.systemctl ["daemon-reload"])) : BootstrapScript Unit)
      (fun _ final => ∀ path, final.definition path =
        (lastEntry path failed.lines).elim ((failed.cleared abort).definition path) failed.restored)
      (fun _ _ => True) (fun _ => True) (failed.cleared abort) := by
    simp only [Action.wp_bind, Action.wp_attempt]
    refine Action.wp_mono (fun _ world hworld => ?_) (fun _ _ _ => trivial) (fun _ h => h) wp_restoreBackups
    refine wp_run_undisturbed rfl trivial trivial ⟨trivial, fun path => ?_⟩
    rw [hworld.definition, hlines, hrestored]
  unfold cleanupAfterFailure
  rw [if_pos hstarted]
  unfold FileSystem.cleared at hrest ⊢
  cases hprevious : abort.previousProjectInstall with
  | true =>
      rw [hprevious, if_pos rfl] at hrest
      exact hrest
  | false =>
      rw [hprevious, if_neg Bool.false_ne_true] at hrest
      rw [if_neg Bool.false_ne_true, if_neg Bool.false_ne_true, Action.wp_bind]
      exact wp_removeProjectServices hrest

variable {path : DefinitionPath}

theorem definition_cleared_of_ne (hpath : path ≠ .global) :
    (failed.cleared abort).definition path = failed.definition path := by
  unfold FileSystem.cleared
  split_ifs
  · rfl
  · rw [definition_withoutServices, if_neg hpath]

/-- What an installation that has started leaves of the backups, wherever it stops. -/
structure Displaced (host : Host) (before failed : FileSystem) : Prop where
  lines : failed.lines = (before.displace host.stamp before.conflicts).lines
  recorded : failed.recorded = (before.displace host.stamp before.conflicts).recorded
  definition : ∀ path ≠ .global, failed.definition path = (before.displace host.stamp before.conflicts).definition path

theorem Stops.displaced (h : Stops host invocation before abort failed) (hstarted : abort.installStarted = true) :
    Displaced host before failed := by
  cases h with
  | unprepared hnot => cases hstarted.symm.trans hnot
  | removing hnot => cases hstarted.symm.trans hnot
  | early _ _ hfailed =>
      refine ⟨?_, hfailed.2.recorded, fun path _ => congrFun hfailed.2.definition path⟩
      rw [FileSystem.lines, hfailed.2.manifest, FileSystem.lines]
  | late _ _ _ _ hfailed =>
      refine ⟨?_, funext fun entry => ?_, hfailed.definition⟩
      · rw [FileSystem.lines, hfailed.manifest, FileSystem.lines]
      · rw [FileSystem.recorded, hfailed.backup, FileSystem.recorded]
  | announcing _ hnot => cases hstarted.symm.trans hnot

theorem definition_displace_of_not_foreign (h : ¬ before.HoldsForeign path) :
    (before.displace host.stamp before.conflicts).definition path = before.definition path := by
  rw [FileSystem.definition_displace, if_neg fun hmem => h (mem_conflicts.mp hmem).2]

theorem foreignOnly_of_not_foreign (h : ¬ before.HoldsForeign path) : foreignOnly (before.definition path) = none := by
  cases hfile : before.definition path with
  | none => rfl
  | some file =>
      have howned : file.IsProjectOwned := by_contra fun hnot => h ⟨file, hfile, hnot⟩
      simp [foreignOnly, howned]

/-- A file of the project put in the place of a definition that is not another provider's. -/
theorem foreignOnly_some_eq_iff (h : ¬ before.HoldsForeign path) {file : File} :
    foreignOnly (some file) = before.definition path ↔ before.definition path = none ∧ file.IsProjectOwned := by
  by_cases howned : file.IsProjectOwned
  · have hnone : foreignOnly (some file) = none := by simp [foreignOnly, howned]
    rw [hnone, eq_comm]
    exact (and_iff_left howned).symm
  · simp only [foreignOnly, howned, not_false_eq_true, decide_true, Option.filter_some, if_true, and_false, iff_false]
    exact fun heq => h ⟨file, heq.symm, howned⟩

/-- The global definition, where no line of the manifest is about it. -/
theorem Stops.global_iff (h : Stops host invocation before abort failed) (hstarted : abort.installStarted = true)
    (hforeign : ¬ before.HoldsForeign .global) :
    (failed.cleared abort).definition .global = before.definition .global ↔
      GlobalKept host invocation before abort := by
  cases h with
  | unprepared hnot => cases hstarted.symm.trans hnot
  | removing hnot => cases hstarted.symm.trans hnot
  | early _ hprevious hfailed =>
      have hsame : failed.definition .global = before.definition .global := by
        rw [hfailed.2.definition, definition_displace_of_not_foreign hforeign]
      unfold FileSystem.cleared GlobalKept
      rw [hprevious]
      split_ifs
      · simp [hsame, hfailed.1]
      · rw [definition_withoutServices, if_pos rfl, hsame, foreignOnly_of_not_foreign hforeign]
        simp [hfailed.1, eq_comm]
  | late hoptions _ hprevious hexit hfailed =>
      obtain ⟨file, hfile, hinstalled⟩ := hfailed.installed
      rw [payloadDefinition_displace, Option.mem_def] at hfile
      unfold FileSystem.cleared GlobalKept
      rw [hprevious]
      split_ifs
      · simp [PayloadAlike, hinstalled, hoptions, hexit, hfile]
      · rw [definition_withoutServices, if_pos rfl, hinstalled, foreignOnly_some_eq_iff hforeign]
        simp [hoptions, hexit, hfile, File.IsProjectOwned]
  | announcing _ hnot => cases hstarted.symm.trans hnot

/-- The trap of an installation that has started undoes it exactly under the given conditions. -/
theorem Stops.undone_iff (h : Stops host invocation before abort failed) (hstarted : abort.installStarted = true)
    (hfinal : ∀ path, final.definition path =
      (lastEntry path failed.lines).elim ((failed.cleared abort).definition path) failed.restored) :
    (∀ path ∈ before.candidates, final.definition path = before.definition path) ↔
      Undone host invocation before abort := by
  have hdisplaced := h.displaced hstarted
  have hconflicts : ∀ target ∈ before.conflicts, before.definition target ≠ none :=
    fun _ => definition_ne_none_of_conflict
  have hlast : ∀ path, ¬ before.HoldsForeign path → lastEntry path failed.lines = lastEntry path before.lines := by
    intro path hforeign
    rw [hdisplaced.lines,
      FileSystem.lastEntry_displace_of_notMem hconflicts fun hmem => hforeign (mem_conflicts.mp hmem).2]
  have hrestored := FileSystem.restored_congr hdisplaced.recorded
  -- what comes back at the path of a conflict is what was displaced there, up to the bits the restore takes away
  have hforeign : ∀ path ∈ before.conflicts, final.definition path = (before.definition path).map File.givenBack := by
    intro path hpath
    obtain ⟨entry, hentry, hrecorded⟩ := FileSystem.recorded_displace_of_mem hconflicts hpath
    rw [hfinal, hdisplaced.lines, hentry, hrestored, Option.elim_some, FileSystem.restored, hrecorded]
  rw [Undone, if_pos hstarted]
  constructor
  · intro hkept
    refine ⟨fun path hpath file hfile => ?_, fun path hpath hown entry hentry => ?_, fun hown hnone => ?_⟩
    · have hsame := (hforeign path hpath).symm.trans (hkept path (mem_conflicts.mp hpath).1)
      rw [Option.mem_def.mp hfile, Option.map_some] at hsame
      exact file.givenBack_eq_self_iff.mp (Option.some.inj hsame)
    · rw [← hkept path hpath, hfinal, hlast path hown, hentry, hrestored, Option.elim_some]
    · refine (h.global_iff hstarted hown).mp ?_
      rw [← hkept .global List.mem_cons_self, hfinal, hlast .global hown, hnone, Option.elim_none]
  · rintro ⟨hmodes, hentries, hglobal⟩ path hpath
    by_cases hholds : before.HoldsForeign path
    · have hconflict := mem_conflicts.mpr ⟨hpath, hholds⟩
      obtain ⟨file, hfile, -⟩ := hholds
      rw [hforeign path hconflict, Option.mem_def.mp hfile, Option.map_some,
        file.givenBack_eq_self_iff.mpr (hmodes path hconflict file hfile)]
    · rw [hfinal, hlast path hholds]
      cases hentry : lastEntry path before.lines with
      | some entry => rw [Option.elim_some, hrestored, hentries path hpath hholds entry hentry]
      | none =>
          rw [Option.elim_none]
          by_cases hpath : path = .global
          · subst hpath
            exact (h.global_iff hstarted hholds).mpr (hglobal hholds hentry)
          · rw [definition_cleared_of_ne hpath, hdisplaced.definition path hpath,
              definition_displace_of_not_foreign hholds]

/-- With everything installed the definitions are those from before if nothing but an equal global definition was
displaced. -/
theorem Installs.alike_iff {options : Options} (hoptions : invocation.options before = .ok options)
    (h : Installs host options (before.displace host.stamp before.conflicts) failed) :
    (∀ path ∈ before.candidates, failed.definition path = before.definition path) ↔
      (∀ path ∈ before.conflicts, path = .global) ∧ PayloadAlike host invocation before := by
  obtain ⟨file, hfile, hinstalled⟩ := h.installed
  rw [payloadDefinition_displace, Option.mem_def] at hfile
  have hglobal : failed.definition .global = before.definition .global ↔ PayloadAlike host invocation before := by
    simp [PayloadAlike, hoptions, hfile, hinstalled]
  constructor
  · intro hkept
    refine ⟨fun path hpath => by_contra fun hne => ?_, hglobal.mp (hkept .global List.mem_cons_self)⟩
    refine definition_ne_none_of_conflict hpath ?_
    rw [← hkept path (mem_conflicts.mp hpath).1, h.definition path hne, FileSystem.definition_displace, if_pos hpath]
  · rintro ⟨honly, halike⟩ path hpath
    by_cases hpath : path = .global
    · subst hpath
      exact hglobal.mpr halike
    · rw [h.definition path hpath, FileSystem.definition_displace, if_neg fun hmem => hpath (honly path hmem)]

/-- The trap does nothing before the installation has started, so that no conflict may be removed by then, and it does
nothing behind it. -/
theorem Stops.unstarted_iff (h : Stops host invocation before abort failed) (hstarted : abort.installStarted = false) :
    (∀ path ∈ before.candidates, failed.definition path = before.definition path) ↔
      Undone host invocation before abort := by
  rw [Undone, if_neg (by simp [hstarted])]
  cases h with
  | unprepared _ hexit hsame =>
      rw [if_neg hexit.2]
      simp [hsame, hexit.1]
  | early hnot => cases hstarted.symm.trans hnot
  | late _ hnot => cases hstarted.symm.trans hnot
  | announcing hoptions _ hexit hfailed =>
      rw [if_pos hexit]
      exact hfailed.alike_iff hoptions
  | @removing done rest target _ hexit hconflicts hremoved =>
      have hnot : ¬ AtAnnouncement abort.exit := fun hat => nomatch hexit.symm.trans hat
      have hnodup := nodup_conflicts before
      rw [if_neg hnot]
      rw [hconflicts] at hnodup ⊢
      cases done with
      | nil =>
          have hrest : target ∉ rest := (List.nodup_cons.mp hnodup).1
          refine iff_of_true (fun path _ => by rw [hremoved, if_neg List.not_mem_nil]) fun path hpath hat => ?_
          obtain rfl : target = path := by
            have heq := hexit.symm.trans hat
            simpa using heq
          exact hrest hpath
      | cons first done =>
          refine iff_of_false (fun hkept => ?_) fun hnone => hnone target (by simp) hexit
          have hfirst : first ∈ before.conflicts := by
            rw [hconflicts]
            exact List.mem_cons_self
          refine definition_ne_none_of_conflict hfirst ?_
          rw [← hkept first (mem_conflicts.mp hfirst).1, hremoved, if_pos List.mem_cons_self]

/-- After a failed run and its trap the definitions are those from before the run exactly under the given
conditions. -/
theorem trap_undoes_run_iff (host : Host) (invocation : Invocation) (before failed final : FileSystem)
    (abort : Abort) (fates rest : Fates Unit)
    (hfailed : runProvision host invocation fates before = ⟨.returned (.error abort), failed, rest⟩)
    (hfinal : runCleanup abort failed = (.ok (), final)) :
    (∀ path ∈ before.candidates, final.definition path = before.definition path) ↔
      Undone host invocation before abort := by
  have hstops : Stops host invocation before abort failed := by
    have hend := Action.execute_of_wp wp_provision (within_any fates) (congrArg Ending.outcome hfailed)
    rwa [← runProvision, hfailed] at hend
  cases hstarted : abort.installStarted with
  | false =>
      have hsame : final = failed := by
        simp only [runCleanup, cleanupAfterFailure, hstarted] at hfinal
        exact (congrArg Prod.snd hfinal).symm
      rw [hsame]
      exact hstops.unstarted_iff hstarted
  | true =>
      have hend := Action.answer_of_wp (wp_cleanup hstarted :
          Action.wp _ _ (cleanupAfterFailure abort failed) _ _ _ failed)
      rw [← runCleanup, hfinal] at hend
      exact hstops.undone_iff hstarted hend

/-- A distribution with the given definitions and, where an earlier run displaced one, its backup. -/
def displacedSystem (definitions : DefinitionPath → Option File) (lines : List BackupEntry) : FileSystem :=
  { sampleSystem none with
    files := fun path => match path with
      | .definition target => definitions target
      | .backup _ _ => if lines = [] then none else some ⟨"other", 0, 0, 0o600⟩
      | path => (sampleSystem none).files path
    manifest := if lines = [] then none else some ⟨lines.map .entry, 0, 0, 0o600⟩ }

/-- The command with the given number fails. -/
def failsAt (number : Nat) : Fates Unit := fun n => if n = number then .fail () else .serve

theorem exists_trap {fates : Fates Unit}
    (hfails : (runProvision host invocation fates before).outcome = .returned (.error abort))
    (hcleans : (runCleanup abort (runProvision host invocation fates before).state).1 = .ok ()) :
    ∃ failed rest final, runProvision host invocation fates before = ⟨.returned (.error abort), failed, rest⟩ ∧
      runCleanup abort failed = (.ok (), final) ∧
      final = (runCleanup abort (runProvision host invocation fates before).state).2 := by
  refine ⟨_, (runProvision host invocation fates before).rest, _, ?_, Prod.ext hcleans rfl, rfl⟩
  rw [← hfails]

/-- A definition of another provider that has to be displaced. -/
def foreignAtXdg : FileSystem :=
  displacedSystem (fun path => if path = .xdg then some ⟨"other", 0, 0, 0o644⟩ else none) []

/-- The trap restores a definition that the failed run has displaced. -/
theorem trap_restores_displaced_definition :
    ∃ abort failed rest final,
      runProvision sampleHost (.install { sampleOptions with replaceConflicts := true }) (failsAt 14) foreignAtXdg =
        ⟨.returned (.error abort), failed, rest⟩ ∧ runCleanup abort failed = (.ok (), final) ∧
      ∀ path ∈ foreignAtXdg.candidates, final.definition path = foreignAtXdg.definition path := by
  obtain ⟨failed, rest, final, hfailed, hfinal, -⟩ : ∃ failed rest final,
      runProvision sampleHost (.install { sampleOptions with replaceConflicts := true }) (failsAt 14) foreignAtXdg =
        ⟨.returned (.error ⟨.failed (.digest "/payload"), true, true⟩), failed, rest⟩ ∧
      runCleanup ⟨.failed (.digest "/payload"), true, true⟩ failed = (.ok (), final) ∧ _ :=
    exists_trap (by decide +kernel) (by decide +kernel)
  refine ⟨_, failed, rest, final, hfailed, hfinal, ?_⟩
  have hmodes : ∀ path ∈ foreignAtXdg.conflicts, ∀ file ∈ foreignAtXdg.definition path, ¬ file.HasSetId := by
    decide +kernel
  refine (trap_undoes_run_iff _ _ _ _ _ _ _ _ hfailed hfinal).mpr ⟨hmodes, fun path _ _ entry hentry => ?_,
    fun _ _ => ?_⟩
  · cases hentry
  · exact fun hfollows => hfollows.elim

/-- A distribution on which the project has taken the place of another provider in an earlier run. -/
def projectAtGlobal : FileSystem :=
  displacedSystem (fun path => if path = .global then some ⟨marker, 0, 0, 0o644⟩ else none)
    [⟨⟨1, 1⟩, 0, .global, 0, 0, 0o644⟩]

/-- The trap of a failed run restores what an earlier run has displaced, over the definition of the project. -/
theorem trap_replaces_project_definition :
    ∃ abort failed rest final,
      runProvision sampleHost (.install sampleOptions) (failsAt 1) projectAtGlobal =
        ⟨.returned (.error abort), failed, rest⟩ ∧ runCleanup abort failed = (.ok (), final) ∧
      ¬ ∀ path ∈ projectAtGlobal.candidates, final.definition path = projectAtGlobal.definition path := by
  obtain ⟨failed, rest, final, hfailed, hfinal, hstate⟩ : ∃ failed rest final,
      runProvision sampleHost (.install sampleOptions) (failsAt 1) projectAtGlobal =
        ⟨.returned (.error ⟨.failed (.digest "/payload"), true, true⟩), failed, rest⟩ ∧
      runCleanup ⟨.failed (.digest "/payload"), true, true⟩ failed = (.ok (), final) ∧
      final = (runCleanup ⟨.failed (.digest "/payload"), true, true⟩
        (runProvision sampleHost (.install sampleOptions) (failsAt 1) projectAtGlobal).state).2 :=
    exists_trap (by decide +kernel) (by decide +kernel)
  refine ⟨_, failed, rest, final, hfailed, hfinal, fun hkept => ?_⟩
  have hglobal := hkept .global List.mem_cons_self
  rw [hstate] at hglobal
  revert hglobal
  decide +kernel

end Bootstrap

end WincredLibsecret
