import WincredLibsecret.CliCommands
import WincredLibsecret.EffectTriple

/-! What the commands of the tool can do to the machine, call by call: most of them only look, and the few that write
do so in one place. Every call that is served is remembered, so that what was once learned stays on record. -/

namespace WincredLibsecret.Cli

open Effect Effect.Action

namespace Hive

variable (hive : Hive) (path name key other : String)

@[simp] theorem value_createSubkey : (hive.createSubkey path).value key name = hive.value key name := by
  simp only [value, createSubkey, Registry.createSubkey]
  split_ifs
  · cases hive.registry key <;> rfl
  · rfl

theorem value_setValue (value : RegistryValue) :
    (hive.setValue path name value).value key other =
      if key = path ∧ other = name ∧ (hive.registry path).isSome then some value else hive.value key other := by
  simp only [Hive.value, setValue, Registry.setValue]
  by_cases hkey : key = path
  · subst hkey
    cases hregistry : hive.registry key with
    | none => simp
    | some values => by_cases hname : other = name <;> simp [hname]
  · simp [hkey]

theorem value_deleteValue :
    (hive.deleteValue path name).value key other =
      if key = path ∧ other = name then none else hive.value key other := by
  simp only [value, deleteValue, Registry.deleteValue]
  by_cases hkey : key = path
  · subst hkey
    cases hregistry : hive.registry key with
    | none => simp
    | some values => by_cases hname : other = name <;> simp [hname]
  · simp [hkey]

theorem value_deleteSubkeyAll :
    (hive.deleteSubkeyAll path).value key name =
      if key = path ∨ Registry.IsBelow key path then none else hive.value key name := by
  simp only [value, deleteSubkeyAll, Registry.deleteSubkeyAll]
  split_ifs
  · rfl
  · rfl

/-- A value that is set in a key that was made for it. -/
theorem value_setValue_createSubkey (value : RegistryValue) :
    ((hive.createSubkey path).setValue path name value).value path name = some value := by
  have hkey : ((hive.createSubkey path).registry path).isSome := by
    simp [createSubkey, Registry.createSubkey]
  rw [value_setValue, if_pos ⟨rfl, rfl, hkey⟩]

end Hive

/-- The call only looks. To start a program that goes on by itself is more. -/
def CliCall.IsReading : CliCall → Prop
  | .openKey _ _ | .enumKeys _ _ | .keyName _ _ _ | .getValue _ _ _ => True
  | .ask (.spawn _ _) => False
  | .ask _ => True
  | .createSubkey _ _ | .setValue _ _ _ _ | .deleteValue _ _ _ | .deleteSubkeyAll _ _ => False

/-- The call only looks and does not ask for the name of a distribution. -/
def CliCall.IsQuiet : CliCall → Prop
  | .openKey _ _ | .enumKeys _ _ | .keyName _ _ _ => True
  | .getValue _ _ name => name ≠ "DistributionName"
  | .ask (.spawn _ _) => False
  | .ask _ => True
  | .createSubkey _ _ | .setValue _ _ _ _ | .deleteValue _ _ _ | .deleteSubkeyAll _ _ => False

theorem CliCall.IsQuiet.isReading {request : CliCall} (h : request.IsQuiet) : request.IsReading := by
  cases request with
  | openKey | enumKeys | keyName | getValue => trivial
  | ask question => cases question <;> exact h
  | createSubkey | setValue | deleteValue | deleteSubkeyAll => exact h

/-- An action that only looks. -/
def Reading {α : Type} (action : CliAction α) : Prop := Calls CliCall.IsReading action

def Quiet {α : Type} (action : CliAction α) : Prop := Calls CliCall.IsQuiet action

variable {α β : Type}

variable {action : CliAction α}

theorem Quiet.reading (h : Quiet action) : Reading action :=
  calls_mono (fun _ hrequest => hrequest.isReading) h

theorem Reading.bind {next : α → CliAction β} (h : Reading action) (hnext : ∀ value, Reading (next value)) :
    Reading (action >>= next) := calls_bind h hnext

theorem quiet_call {request : CliCall} (h : request.IsQuiet) : Quiet (call request) := calls_perform h

theorem quiet_openKey (root : Root) (path : String) : Quiet (openKey root path) := quiet_call trivial

theorem quiet_enumKeys (root : Root) (path : String) : Quiet (enumKeys root path) := quiet_call trivial

theorem quiet_keyName (root : Root) (path name : String) : Quiet (keyName root path name) := quiet_call trivial

theorem quiet_getValue (root : Root) (path : String) {name : String} (h : name ≠ "DistributionName") :
    Quiet (getValue root path name) := quiet_call h

theorem quiet_output (program : String) (arguments : List String) : Quiet (output program arguments) :=
  quiet_call trivial

theorem quiet_releases (url : String) : Quiet (releases url) := quiet_call trivial

theorem quiet_currentExe : Quiet currentExe := quiet_call trivial

theorem quiet_parent (path : String) : Quiet (parent path) := quiet_call trivial

theorem quiet_canonicalize (path : String) : Quiet (canonicalize path) := quiet_call trivial

theorem quiet_isThere (kind : FileKind) (path : String) : Quiet (isThere kind path) := quiet_call trivial

theorem quiet_files : Quiet files := quiet_call trivial

theorem quiet_winVerifyTrust (path : String) : Quiet (winVerifyTrust path) := quiet_call trivial

theorem quiet_pure (value : α) : Quiet (pure value : CliAction α) := calls_pure value

theorem quiet_throw (error : CliError) : Quiet (throw error : CliAction α) := calls_throw error

theorem Quiet.bind {next : α → CliAction β} (h : Quiet action) (hnext : ∀ value, Quiet (next value)) :
    Quiet (action >>= next) := calls_bind h hnext

theorem Quiet.context (h : Quiet action) (message : String) : Quiet (context message action) := calls_mapError h

theorem Quiet.optional (h : Quiet action) : Quiet (optional action) :=
  Quiet.bind (calls_attempt h) fun _ => quiet_pure _

theorem quiet_ensure (condition : Bool) (message : String) : Quiet (ensure condition message) := by
  cases condition with
  | true => exact quiet_pure ()
  | false => exact quiet_throw _

theorem quiet_runProcess (program : String) (arguments : List String) : Quiet (runProcess program arguments) :=
  (quiet_output _ _).context _

theorem quiet_runWslRoot (distribution : String) (arguments : List String) :
    Quiet (runWslRoot distribution arguments) :=
  (quiet_output _ _).context _

theorem quiet_ensureWslSuccess (distribution : String) (arguments : List String) (operation : String) :
    Quiet (ensureWslSuccess distribution arguments operation) :=
  (quiet_runWslRoot distribution arguments).bind fun _ => quiet_ensure _ _

theorem quiet_wslPath (distribution path : String) : Quiet (wslPath distribution path) :=
  Quiet.bind ((quiet_output _ _).context _) fun _ => (quiet_ensure _ _).bind fun _ => quiet_pure _

theorem quiet_isAdministrator : Quiet isAdministrator :=
  Quiet.bind ((quiet_runProcess _ _).context _) fun _ => (quiet_ensure _ _).bind fun _ => quiet_pure _

theorem quiet_requireAdministrator : Quiet requireAdministrator :=
  quiet_isAdministrator.bind fun _ => quiet_ensure _ _

theorem quiet_requireNonAdministrator (command : String) : Quiet (requireNonAdministrator command) :=
  quiet_isAdministrator.bind fun _ => quiet_ensure _ _

theorem quiet_absoluteExisting (kind : FileKind) (path description : String) :
    Quiet (absoluteExisting kind path description) :=
  (quiet_ensure _ _).bind fun _ => Quiet.bind ((quiet_canonicalize _).context _) fun _ =>
    Quiet.bind (quiet_isThere _ _).optional fun _ => (quiet_ensure _ _).bind fun _ => quiet_pure _

theorem quiet_validatePluginDll (path : String) : Quiet (validatePluginDll path) :=
  Quiet.bind (quiet_absoluteExisting _ _ _) fun _ => (quiet_ensure _ _).bind fun _ => quiet_pure _

theorem quiet_validateBroker (path : String) : Quiet (validateBroker path) :=
  Quiet.bind (quiet_absoluteExisting _ _ _) fun _ => (quiet_ensure _ _).bind fun _ => quiet_pure _

theorem quiet_parentOf (path : String) : Quiet (parentOf path) :=
  Quiet.bind (quiet_parent path).optional fun _ => quiet_pure _

theorem quiet_besideTool (name : String) : Quiet (besideTool name) := by
  refine Quiet.bind quiet_currentExe.optional fun executable => ?_
  split
  · exact quiet_pure _
  · refine (quiet_parentOf _).bind fun directory => ?_
    split
    · exact quiet_pure _
    · exact quiet_pure _

theorem quiet_signatureStatus (path : String) : Quiet (signatureStatus path) :=
  Quiet.bind (quiet_winVerifyTrust _).optional fun _ => quiet_pure _

theorem quiet_checkWslVersion : Quiet checkWslVersion := by
  refine Quiet.bind ((quiet_runProcess _ _).context _) fun result => (quiet_ensure _ _).bind fun _ => ?_
  split
  · exact quiet_throw _
  · exact (quiet_ensure _ _).bind fun _ => quiet_pure _

theorem quiet_orDefault {value : Option String} {default : CliAction String} (h : Quiet default) :
    Quiet (orDefault value default) := by
  cases value with
  | none => exact h
  | some value => exact quiet_pure value

variable (tool : Tool)

theorem quiet_checkPayload (root : String) : Quiet (checkPayload tool root) := by
  refine Quiet.bind quiet_files fun store => ?_
  split
  · exact quiet_pure ()
  · exact quiet_throw _

theorem quiet_registryString (root : Root) (path : String) {name : String} (h : name ≠ "DistributionName") :
    Quiet (registryString tool root path name) := by
  refine Quiet.bind ((quiet_getValue _ _ h).context _) fun found => ?_
  split
  · exact quiet_pure none
  · split
    · exact quiet_pure _
    · exact quiet_throw _

theorem reading_distributionOf (key : String) : Reading (distributionOf tool key) := by
  refine (quiet_keyName _ _ _).optional.reading.bind fun reached => ?_
  split
  · refine (quiet_openKey _ _).optional.reading.bind fun opened => ?_
    split
    · refine Reading.bind (calls_bind (calls_attempt (calls_perform trivial)) fun _ =>
        (quiet_pure _).reading) fun found => ?_
      split
      · exact (quiet_pure none).reading
      · exact Reading.bind (quiet_getValue _ _ (by decide)).optional.reading fun _ => (quiet_pure _).reading
    · exact (quiet_pure none).reading
  · exact (quiet_pure none).reading

theorem reading_distributionsOf (keys : List String) : Reading (distributionsOf tool keys) := by
  induction keys with
  | nil => exact (quiet_pure []).reading
  | cons key keys ih =>
      exact (reading_distributionOf tool key).bind fun _ => ih.bind fun _ => (quiet_pure _).reading

theorem reading_enumerateDistributions : Reading (enumerateDistributions tool) := by
  refine Reading.bind ((quiet_openKey _ _).context _).reading fun opened => ?_
  split
  · exact (quiet_runProcess _ _).optional.reading.bind fun _ => (quiet_enumKeys _ _).optional.reading.bind fun _ =>
      (reading_distributionsOf tool _).bind fun _ => (quiet_pure _).reading
  · exact (quiet_pure []).reading

theorem reading_findDistribution (name : String) : Reading (findDistribution tool name) := by
  refine (reading_enumerateDistributions tool).bind fun distributions => ?_
  split
  · exact (quiet_pure _).reading
  · exact (quiet_throw _).reading
  · exact (quiet_throw _).reading

theorem quiet_distributionEnabled (id : Uuid) : Quiet (distributionEnabled id) := by
  refine Quiet.bind ((quiet_openKey _ _).context _) fun opened => ?_
  split
  · exact Quiet.bind (quiet_getValue _ _ (by decide)).optional fun _ => quiet_pure _
  · exact quiet_pure false

theorem quiet_provisionDistribution (distribution : Distribution) (arguments : DistroEnableArguments) :
    Quiet (provisionDistribution tool distribution arguments) :=
  quiet_checkWslVersion.bind fun _ => (quiet_ensure _ _).bind fun _ =>
    (quiet_orDefault (quiet_besideTool _)).bind fun _ =>
      Quiet.bind (quiet_absoluteExisting _ _ _) fun _ => (quiet_checkPayload tool _).bind fun _ =>
        (quiet_orDefault (quiet_besideTool _)).bind fun _ => (quiet_validateBroker _).bind fun _ =>
          (quiet_wslPath _ _).bind fun _ => (quiet_wslPath _ _).bind fun _ =>
            (quiet_ensureWslSuccess _ _ _).bind fun _ => quiet_ensureWslSuccess _ _ _

theorem quiet_disableDistroWithPayload (distribution : Distribution) (root : String) :
    Quiet (disableDistroWithPayload tool distribution root) :=
  Quiet.bind (quiet_absoluteExisting _ _ _) fun _ => (quiet_checkPayload tool _).bind fun _ =>
    (quiet_wslPath _ _).bind fun _ => (quiet_runWslRoot _ _).bind fun _ => quiet_ensure _ _

theorem quiet_disableDistroWithInstalledHelper (distribution : Distribution) :
    Quiet (disableDistroWithInstalledHelper distribution) := by
  refine (quiet_runWslRoot _ _).bind fun check => ?_
  split
  · exact (quiet_runWslRoot _ _).bind fun _ => quiet_ensure _ _
  · exact quiet_ensure _ _

theorem quiet_validateRefreshedDistribution (distribution : Distribution) :
    Quiet (validateRefreshedDistribution tool distribution) :=
  Quiet.bind (Quiet.context (quiet_runWslRoot _ _) _) fun _ => (quiet_ensure _ _).bind fun _ =>
    quiet_ensure _ _

theorem quiet_enabledAmong (distributions : List Distribution) : Quiet (enabledAmong distributions) := by
  induction distributions with
  | nil => exact quiet_pure []
  | cons distribution rest ih =>
      exact (quiet_distributionEnabled _).bind fun _ => ih.bind fun _ => quiet_pure _

theorem reading_refreshTargets (arguments : DistroRefreshArguments) : Reading (refreshTargets tool arguments) := by
  unfold refreshTargets
  split
  · exact (reading_enumerateDistributions tool).bind fun _ => (quiet_enabledAmong _).reading
  · exact (reading_findDistribution tool _).bind fun _ => Quiet.reading ((quiet_distributionEnabled _).bind fun _ =>
      (quiet_ensure _ _).bind fun _ => quiet_pure _)

theorem quiet_refreshDistribution (arguments : DistroRefreshArguments) (distribution : Distribution) :
    Quiet (refreshDistribution tool arguments distribution) :=
  (quiet_provisionDistribution tool distribution _).bind fun _ => quiet_validateRefreshedDistribution tool distribution

/-- A refresh changes neither of the registries. -/
theorem reading_distroRefresh (arguments : DistroRefreshArguments) : Reading (distroRefresh tool arguments) :=
  (reading_refreshTargets tool arguments).bind fun _ => calls_forM fun _ _ =>
    (quiet_refreshDistribution tool arguments _).reading

theorem quiet_idsOfKeys (keys : List String) : Quiet (idsOfKeys tool keys) := by
  induction keys with
  | nil => exact quiet_pure []
  | cons key keys ih =>
      refine Quiet.bind (Quiet.bind ((quiet_keyName _ _ _).context _) fun _ => ?_) fun _ =>
        ih.bind fun _ => quiet_pure _
      split
      · exact quiet_pure _
      · exact quiet_throw _

theorem quiet_projectDistributionIds : Quiet (projectDistributionIds tool) := by
  refine Quiet.bind ((quiet_openKey _ _).context _) fun opened => ?_
  split
  · exact Quiet.bind ((quiet_enumKeys _ _).context _) fun _ =>
      (quiet_idsOfKeys tool _).bind fun _ => quiet_pure _
  · exact quiet_pure []

theorem quiet_productOf (key : String) : Quiet (productOf tool key) := by
  refine Quiet.bind ((quiet_keyName _ _ _).context _) fun _ => ?_
  split
  · exact quiet_pure _
  · refine Quiet.bind (quiet_openKey _ _).optional fun opened => ?_
    split_ifs
    · refine (quiet_registryString tool _ _ (by decide)).bind fun publisher => ?_
      refine (quiet_registryString tool _ _ (by decide)).bind fun displayName => ?_
      split_ifs
      · exact quiet_pure _
      · exact quiet_pure _
    · exact quiet_pure _

theorem quiet_productsOf (keys : List String) : Quiet (productsOf tool keys) := by
  induction keys with
  | nil => exact quiet_pure []
  | cons key keys ih => exact (quiet_productOf tool key).bind fun _ => ih.bind fun _ => quiet_pure _

theorem quiet_installedProductCode : Quiet (installedProductCode tool) := by
  refine Quiet.bind ((quiet_openKey _ _).context _) fun opened => ?_
  split_ifs
  · refine Quiet.bind ((quiet_enumKeys _ _).context _) fun keys => ?_
    refine (quiet_productsOf tool keys).bind fun found => ?_
    split
    · exact quiet_pure _
    · exact quiet_pure _
    · exact quiet_throw _
  · exact quiet_pure _

theorem quiet_isAbsoluteDirectory (path : String) : Quiet (isAbsoluteDirectory path) := by
  unfold isAbsoluteDirectory
  split_ifs
  · exact Quiet.bind (quiet_isThere _ _).optional fun _ => quiet_pure _
  · exact quiet_pure _

theorem quiet_programFilesDirectory : Quiet (programFilesDirectory tool) := by
  refine Quiet.bind ((quiet_openKey _ _).context _) fun opened => ?_
  split_ifs
  · refine (quiet_registryString tool _ _ (by decide)).bind fun found => ?_
    split
    · exact quiet_throw _
    · exact (quiet_isAbsoluteDirectory _).bind fun _ => (quiet_ensure _ _).bind fun _ => quiet_pure _
  · exact quiet_throw _

theorem quiet_installedCliDirectory : Quiet (installedCliDirectory tool) := by
  refine Quiet.bind (quiet_currentExe.context _) fun executable => ?_
  refine Quiet.bind (quiet_absoluteExisting _ _ _) fun executable => (quiet_ensure _ _).bind fun _ => ?_
  refine (quiet_parentOf _).bind fun directory => ?_
  split
  · exact quiet_throw _
  · refine (quiet_programFilesDirectory tool).bind fun programFiles => ?_
    dsimp only
    generalize windowsPathsEqual _ _ = same
    exact (quiet_ensure _ _).bind fun _ => quiet_pure _

theorem quiet_findReleaseUpdate (includePrerelease : Bool) : Quiet (findReleaseUpdate tool includePrerelease) := by
  refine Quiet.bind (quiet_releases _) fun found => ?_
  split
  · exact quiet_throw _
  · exact quiet_pure _

section Starts

variable {P : CliCall → Prop} (hquiet : ∀ request : CliCall, request.IsQuiet → P request)
  (hspawn : ∀ program arguments, P (.ask (.spawn program arguments)))

include hquiet hspawn

theorem calls_startInstaller (arguments : List String) (message : String) :
    Calls P (startInstaller tool arguments message) :=
  calls_bind (calls_mono hquiet (quiet_installedCliDirectory tool)) fun _ =>
    calls_bind (calls_mono hquiet (quiet_absoluteExisting _ _ _)) fun _ =>
      calls_mapError (calls_perform (hspawn _ _))

theorem calls_removeProduct : Calls P (removeProduct tool) := by
  refine calls_bind (calls_mono hquiet (quiet_runProcess _ _)) fun _ => ?_
  refine calls_bind (calls_mono hquiet (quiet_installedProductCode tool)) fun productCode => ?_
  split
  · exact calls_pure ()
  · exact calls_startInstaller tool hquiet hspawn _ _

theorem calls_upgrade (includePrerelease : Bool) : Calls P (upgrade tool includePrerelease) := by
  refine calls_bind (calls_mono hquiet (quiet_findReleaseUpdate tool includePrerelease)) fun update => ?_
  split
  · exact calls_pure ()
  · exact calls_throw _
  · exact calls_bind (calls_mono hquiet (quiet_requireNonAdministrator _)) fun _ =>
      calls_startInstaller tool hquiet hspawn _ _

end Starts

theorem quiet_restartOrInstruct (restart : Bool) : Quiet (restartOrInstruct restart) := by
  cases restart with
  | false => exact quiet_pure ()
  | true =>
      exact (quiet_runProcess _ _).bind fun _ => (quiet_ensure _ _).bind fun _ =>
        (quiet_runProcess _ _).bind fun _ => quiet_ensure _ _

section Writes

variable {P : CliCall → Prop}

theorem calls_setEnabled_true {id : Uuid} (hcreate : P (.createSubkey .currentUser (distributionRegistryPath id)))
    (hset : P (.setValue .currentUser (distributionRegistryPath id) distributionEnablementValue
      ⟨regDword, [1, 0, 0, 0]⟩)) : Calls P (setEnabled id true) :=
  calls_bind (calls_mapError (calls_perform hcreate)) fun _ =>
    calls_mapError (calls_perform hset)

theorem calls_setEnabled_false {id : Uuid} (hclear : P (.deleteSubkeyAll .currentUser (distributionRegistryPath id))) :
    Calls P (setEnabled id false) :=
  calls_mapError (calls_perform hclear)

variable (hreading : ∀ request : CliCall, request.IsReading → P request)

include hreading

theorem Reading.calls {action : CliAction α} (h : Reading action) : Calls P action :=
  calls_mono hreading h

theorem Quiet.calls {action : CliAction α} (h : Quiet action) : Calls P action :=
  h.reading.calls hreading

theorem calls_distroEnable (arguments : DistroEnableArguments)
    (hcreate : ∀ id, P (.createSubkey .currentUser (distributionRegistryPath id)))
    (hset : ∀ id, P (.setValue .currentUser (distributionRegistryPath id) distributionEnablementValue
      ⟨regDword, [1, 0, 0, 0]⟩)) : Calls P (distroEnable tool arguments) :=
  calls_bind ((reading_findDistribution tool _).calls hreading) fun distribution =>
    calls_bind ((quiet_provisionDistribution tool distribution arguments).calls hreading) fun _ =>
      calls_setEnabled_true (hcreate distribution.id) (hset distribution.id)

theorem calls_distroDisable (name : String)
    (hclear : ∀ id, P (.deleteSubkeyAll .currentUser (distributionRegistryPath id))) :
    Calls P (distroDisable tool name) := by
  refine calls_bind ((reading_findDistribution tool _).calls hreading) fun distribution => ?_
  refine calls_bind ((quiet_besideTool _).calls hreading) fun root => ?_
  refine calls_bind ((quiet_isThere _ _).optional.calls hreading) fun hasPayload => ?_
  split
  · exact calls_bind ((quiet_disableDistroWithPayload tool distribution root).calls hreading) fun _ =>
      calls_setEnabled_false (hclear distribution.id)
  · exact calls_bind ((quiet_disableDistroWithInstalledHelper distribution).calls hreading) fun _ =>
      calls_setEnabled_false (hclear distribution.id)

theorem calls_cleanDistroProvisioning
    (hclear : ∀ id, P (.deleteSubkeyAll .currentUser (distributionRegistryPath id))) :
    Calls P (cleanDistroProvisioning tool) := by
  refine calls_bind ((quiet_projectDistributionIds tool).calls hreading) fun registered => ?_
  split
  · exact (quiet_pure ()).calls hreading
  · refine calls_bind ((reading_enumerateDistributions tool).calls hreading) fun distributions => ?_
    have hloop : Calls P (registered.forM fun id => setEnabled id false) :=
      calls_forM fun id _ => calls_setEnabled_false (hclear id)
    dsimp only
    split
    · exact calls_bind ((quiet_pure ()).calls hreading) fun _ => hloop
    · refine calls_bind ((quiet_besideTool _).calls hreading) fun root => ?_
      refine calls_bind ((quiet_absoluteExisting _ _ _).calls hreading) fun payloadRoot => ?_
      refine calls_bind ((quiet_checkPayload tool _).calls hreading) fun _ => ?_
      refine calls_bind (calls_forM fun distribution _ => ?_) fun _ => hloop
      exact calls_bind ((quiet_disableDistroWithPayload tool distribution _).calls hreading) fun _ =>
        calls_setEnabled_false (hclear distribution.id)

theorem calls_uninstall (keep : Bool) (hspawn : ∀ program arguments, P (.ask (.spawn program arguments)))
    (hclear : keep = false → ∀ id, P (.deleteSubkeyAll .currentUser (distributionRegistryPath id))) :
    Calls P (uninstall tool keep) := by
  refine calls_bind ((quiet_requireNonAdministrator _).calls hreading) fun _ => ?_
  have hend : Calls P (removeProduct tool) :=
    calls_removeProduct tool (fun request h => hreading request h.isReading) hspawn
  cases keep with
  | true => exact hend
  | false => exact calls_bind (calls_cleanDistroProvisioning tool hreading (hclear rfl)) fun _ => hend

theorem calls_registerPlugin (dll : String) (existing : Option String)
    (hset : P (.setValue .localMachine pluginRegistryPath pluginValueName (tool.writeString dll))) :
    Calls P (registerPlugin tool dll existing) := by
  have hwrite : ∀ message, Calls P (context message
      (setValue .localMachine pluginRegistryPath pluginValueName (tool.writeString dll))) := fun _ =>
    calls_mapError (calls_perform hset)
  unfold registerPlugin
  split
  · split_ifs
    · exact (quiet_pure ()).calls hreading
    · exact hwrite _
    · exact (quiet_throw _).calls hreading
  · exact hwrite _

theorem calls_pluginInstall (arguments : PluginInstallArguments)
    (hcreate : P (.createSubkey .localMachine pluginRegistryPath))
    (hset : ∀ value, P (.setValue .localMachine pluginRegistryPath pluginValueName value)) :
    Calls P (pluginInstall tool arguments) :=
  calls_bind (quiet_requireAdministrator.calls hreading) fun _ =>
    calls_bind ((quiet_validatePluginDll _).calls hreading) fun dll =>
      calls_bind ((quiet_signatureStatus _).calls hreading) fun _ =>
        calls_bind ((quiet_ensure _ _).calls hreading) fun _ =>
          calls_bind (calls_mapError (calls_perform hcreate)) fun _ =>
            calls_bind ((quiet_registryString tool _ _ (by decide)).calls hreading) fun existing =>
              calls_bind (calls_registerPlugin tool hreading dll existing (hset _)) fun _ =>
                (quiet_restartOrInstruct _).calls hreading

theorem calls_unregisterPlugin (expected existing : Option String)
    (hdelete : P (.deleteValue .localMachine pluginRegistryPath pluginValueName)) :
    Calls P (unregisterPlugin expected existing) := by
  unfold unregisterPlugin
  split
  · split_ifs
    · exact calls_mapError (calls_perform hdelete)
    · exact (quiet_pure ()).calls hreading
  · exact (quiet_pure ()).calls hreading

theorem calls_pluginUninstall (arguments : PluginUninstallArguments)
    (hdelete : P (.deleteValue .localMachine pluginRegistryPath pluginValueName)) :
    Calls P (pluginUninstall tool arguments) := by
  refine calls_bind (quiet_requireAdministrator.calls hreading) fun _ => ?_
  refine calls_bind (((quiet_openKey _ _).context _).calls hreading) fun opened => ?_
  split
  · refine calls_bind ((quiet_registryString tool _ _ (by decide)).calls hreading) fun existing => ?_
    exact calls_bind (calls_unregisterPlugin hreading _ existing hdelete) fun _ =>
      (quiet_restartOrInstruct _).calls hreading
  · exact calls_bind ((quiet_pure ()).calls hreading) fun _ => (quiet_restartOrInstruct _).calls hreading

end Writes

end WincredLibsecret.Cli
