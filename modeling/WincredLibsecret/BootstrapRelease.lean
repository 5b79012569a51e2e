import WincredLibsecret.BootstrapRules

/-! The checksums of the release in use after a successful run. A new release is copied into a temporary directory
and checked there. A release whose directory is already there is taken as it is. -/

namespace WincredLibsecret

namespace Bootstrap

open Effect Shell

variable {faults : Unit → Prop} {host : Host} {options : Options} {invocation : Invocation}
  {fs world before : FileSystem} {files others : PayloadFile → Option File} {manifest : String}

/-- The manifest of the payload that a run with the given options installs. -/
def sourceManifest (options : Options) (fs : FileSystem) : String :=
  (fs.files (.source options.sourceRoot .manifest)).elim "" File.content

/-- Every file of the directory that the manifest lists has the checksum listed there. -/
def HasListedSums (host : Host) (manifest : String) (files : PayloadFile → Option File) : Prop :=
  ∀ digest file, (digest, .inside file) ∈ host.checksums manifest →
    ((files file).map File.content).map host.sha256 = some digest

theorem hasListedSums_congr (h : ∀ file, (files file).map File.content = (others file).map File.content) :
    HasListedSums host manifest files ↔ HasListedSums host manifest others := by
  unfold HasListedSums
  simp only [h]

theorem hasListedSums_of_valid (hvalid : payloadHashesValid host files = true)
    (hmanifest : (files .manifest).map File.content = some manifest) : HasListedSums host manifest files := by
  obtain ⟨file, hfile, rfl⟩ := Option.map_eq_some_iff.mp hmanifest
  rw [payloadHashesValid, hfile, Option.any_some] at hvalid
  intro digest listed hlisted
  exact of_decide_eq_true (List.all_eq_true.mp (of_decide_eq_true hvalid).2 _ hlisted)

/-- The manifest of a new release is the one of its source. -/
theorem Released.manifest_content (h : Released host options fs world)
    (hnew : fs.directories (.release (releaseName host options fs)) = false) :
    (world.currentFile .manifest).map File.content = some (sourceManifest options fs) := by
  have hcontent := h.content .manifest
  have hmem : PayloadFile.manifest ∈ payloadFiles := by decide
  rw [releaseContent, hnew, if_neg Bool.false_ne_true, stagedContent, if_pos hmem] at hcontent
  have hvalid := h.valid hnew
  cases hfile : fs.files (.source options.sourceRoot .manifest) with
  | some file => rw [hcontent, sourceManifest, hfile]; rfl
  | none =>
      rw [hfile, Option.map_none, Option.map_eq_none_iff] at hcontent
      rw [payloadHashesValid, hcontent, Option.any_none] at hvalid
      cases hvalid

theorem Released.hasListedSums_iff (h : Released host options fs world) :
    HasListedSums host (sourceManifest options fs) world.currentFile ↔
      (fs.directories (.release (releaseName host options fs)) = true →
        HasListedSums host (sourceManifest options fs) fun file =>
          fs.files (.release (releaseName host options fs) file)) := by
  cases hpresent : fs.directories (.release (releaseName host options fs)) with
  | true =>
      rw [hasListedSums_congr fun file => (h.content file).trans (by rw [releaseContent, if_pos hpresent])]
      simp
  | false => simpa using hasListedSums_of_valid (h.valid hpresent) (h.manifest_content hpresent)

theorem makes_writeHelpersAndServices : Makes Command.KeepsRelease writeHelpersAndServices :=
  makes_bind (makes_writeHelpers.imp fun _ => Command.IsHelper.keepsRelease) fun _ => makes_bind (makes_run trivial)
    fun _ => makes_bind (makes_run trivial) fun _ => makes_bind (makes_run trivial) fun _ =>
      makes_bind (makes_run trivial) fun _ => makes_pure ()

theorem makes_reloadSystemd : Makes Command.KeepsRelease reloadSystemd :=
  makes_bind (makes_run trivial) fun _ => makes_bind (makes_run trivial) fun _ => makes_bind (makes_run trivial)
    fun _ => makes_pure ()

/-- Nothing behind the installation of the release changes it. -/
theorem wp_installFiles_released (fs : FileSystem) :
    Action.wp (serve FileSystem.effect) faults (installFiles host options)
      (fun _ world => ∃ released, Released host options fs released ∧ world.currentFile = released.currentFile)
      (fun _ _ => True) (fun _ => True) fs := by
  unfold installFiles
  rw [Action.wp_bind]
  refine Action.wp_mono (fun _ released hreleased => ?_) (fun _ _ _ => trivial) (fun _ _ => trivial)
    (wp_installRelease fs)
  have hmakes : Makes Command.KeepsRelease (writeConfiguration host options >>= fun _ =>
      writeHelpersAndServices >>= fun _ => reloadSystemd) :=
    makes_bind (makes_writeConfiguration.imp fun _ => Command.IsHelper.keepsRelease) fun _ =>
      makes_bind makes_writeHelpersAndServices fun _ => makes_reloadSystemd
  refine Action.wp_mono (fun _ world hworld => ⟨released, hreleased, hworld⟩) (fun _ _ _ => trivial)
    (fun _ _ => trivial)
    (wp_of_makes (fun command world next hcommand heffect hworld =>
      (currentFile_effect hcommand heffect).trans hworld) hmakes rfl)

variable (faults) in
theorem wp_provision_released (hoptions : invocation.options before = .ok options) :
    Action.wp (serve FileSystem.effect) faults (provision host invocation before)
      (fun _ world => ∃ released, Released host options (before.displace host.stamp before.conflicts) released ∧
        world.currentFile = released.currentFile) (fun _ _ => True) (fun _ => True) before := by
  simp only [provision, installPayload, Action.wp_bind, Action.wp_mapError, wp_orDie, hoptions]
  refine ⟨trivial, fun _ h => ?_, fun _ _ => trivial⟩
  cases h
  refine wp_prepare (fun _ _ => trivial) (fun _ _ _ => trivial) (fun _ _ _ _ => trivial) (fun _ _ _ _ => trivial) ?_
  exact Action.wp_mono (fun _ _ hreleased => wp_announce trivial trivial hreleased) (fun _ _ _ => trivial)
    (fun _ _ => trivial) (wp_installFiles_released _)

/-- After a successful run the files listed in the manifest have the listed checksums exactly if there was no directory
for the release before the run, or they had them there. -/
theorem installed_release_has_listed_sums_iff (host : Host) (invocation : Invocation) (before : FileSystem)
    (options : Options) (fates : Fates Unit) (hoptions : invocation.options before = .ok options)
    (hsuccess : (runProvision host invocation fates before).outcome = .returned (.ok ())) :
    HasListedSums host (sourceManifest options before) (runProvision host invocation fates before).state.currentFile ↔
      (before.directories (.release (releaseName host options before)) = true →
        HasListedSums host (sourceManifest options before)
          fun file => before.files (.release (releaseName host options before) file)) := by
  obtain ⟨released, hreleased, hcurrent⟩ :=
    Action.execute_of_wp (wp_provision_released (fun _ => True) hoptions) (within_any fates) hsuccess
  have hsums := hreleased.hasListedSums_iff
  simp only [sourceManifest, FileSystem.source_displace, FileSystem.releaseName_displace,
    FileSystem.hasRelease_displace, FileSystem.release_displace] at hsums
  rw [runProvision, hcurrent]
  exact hsums

/-- A host on which the manifest of every payload lists the provider. -/
def sampleHost : Host where
  architecture := "x86_64"
  hasSystemctl := true
  hasDbusDaemon := true
  hasDbusBroker := false
  runsCommandLine := true
  runsInit := false
  stamp := ⟨5, 7⟩
  sha256 content := if content = "provider" then "aa" else "bb"
  checksums _ := [("aa", .inside .provider)]
  outside _ := none

def sampleOptions : Options := ⟨"/payload", "/broker.exe", "1", "0.1", false⟩

/-- A distribution with a payload, and a directory of its release whose provider has the given content. -/
def sampleSystem (provider : Option String) : FileSystem where
  files
    | .source _ .provider => some ⟨"provider", 0, 0, 0o644⟩
    | .source _ (.other _) => none
    | .source _ _ | .broker _ => some ⟨"", 0, 0, 0o644⟩
    | .release _ .provider => provider.map fun content => ⟨content, 0, 0, 0o755⟩
    | .release _ _ => provider.map fun _ => ⟨"", 0, 0, 0o644⟩
    | _ => none
  directories
    | .release _ => provider.isSome
    | _ => true
  manifest := none
  current := none
  nextCurrent := none
  homes := []
  homes_nodup := List.nodup_nil

theorem sampleSystem_installs (provider : Option String) (hprovider : provider = none ∨ provider = some "damaged") :
    (runProvision sampleHost (.install sampleOptions) undisturbed (sampleSystem provider)).outcome =
      .returned (.ok ()) := by
  rcases hprovider with rfl | rfl <;> decide +kernel

/-- A new release is checked. -/
theorem new_release_has_listed_sums :
    HasListedSums sampleHost (sourceManifest sampleOptions (sampleSystem none))
      (runProvision sampleHost (.install sampleOptions) undisturbed (sampleSystem none)).state.currentFile :=
  (installed_release_has_listed_sums_iff sampleHost (.install sampleOptions)
    (sampleSystem none) sampleOptions undisturbed
    rfl (sampleSystem_installs none (.inl rfl))).mpr fun h => absurd h nofun

/-- A damaged release is put in use by a run that succeeds. -/
theorem damaged_release_is_put_in_use :
    (runProvision sampleHost (.install sampleOptions) undisturbed (sampleSystem (some "damaged"))).outcome =
      .returned (.ok ()) ∧
    ¬ HasListedSums sampleHost (sourceManifest sampleOptions (sampleSystem (some "damaged")))
      (runProvision sampleHost (.install sampleOptions) undisturbed
        (sampleSystem (some "damaged"))).state.currentFile := by
  refine ⟨sampleSystem_installs _ (.inr rfl), fun hsums => ?_⟩
  have hprovider := hsums "aa" .provider (List.mem_singleton_self _)
  revert hprovider
  decide +kernel

end Bootstrap

end WincredLibsecret
