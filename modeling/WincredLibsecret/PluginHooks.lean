import WincredLibsecret.CliVersion

/-! The registration of the plugin's hooks. The structure of hooks grew twice, so the plugin may only touch what
the runtime at hand provides; and it must accept exactly the runtimes that the command line tool accepts. -/

namespace WincredLibsecret.Plugin

structure WslVersion where
  major : UInt32
  minor : UInt32
  revision : UInt32
  deriving DecidableEq

/-- The fields of the structure of hooks. -/
inductive Hook where
  | onVMStarted
  | onVMStopping
  | onDistributionStarted
  | onDistributionStopping
  | onDistributionRegistered
  | onDistributionUnregistered
  | onSessionCreated
  | onSessionStopping
  | containerStarted
  | containerStopping
  | imageCreated
  | imageDeleted
  deriving DecidableEq

/-- What a runtime hands over: its version, and a pointer to the function that starts a program. -/
structure PluginApi (Execute : Type) where
  version : WslVersion
  executeBinaryInDistribution : Option Execute

inductive HookStatus where
  | ok
  | invalidArgument
  | requiresUpdate
  | noInterface
  deriving DecidableEq

def supportsWslcHooks (version : WslVersion) : Bool :=
  version.major > 2 || (version.major = 2 && version.minor ≥ 9)

def supportsDistributionRegistrationHooks (version : WslVersion) : Bool :=
  version.major > 2 ||
    (version.major = 2 && (version.minor > 1 || (version.minor = 1 && version.revision ≥ 2)))

def isSupportedWslRuntime (version : WslVersion) : Bool :=
  if version.major ≠ 2 then version.major > 2
  else if version.minor ≠ 5 then version.minor > 5
  else version.revision ≥ 1

section

variable {Execute Callback : Type}

/-- The structure of hooks: a pointer for each field. -/
def Hooks (Callback : Type) : Type := Hook → Option Callback

def Hooks.clear (hooks : Hooks Callback) (group : List Hook) : Hooks Callback := fun hook =>
  if hook ∈ group then none else hooks hook

def Hooks.install (hooks : Hooks Callback) (hook : Hook) (pointer : Option Callback) : Hooks Callback := fun other =>
  if other = hook then pointer else hooks other

def baseHooks : List Hook := [.onVMStarted, .onVMStopping, .onDistributionStarted, .onDistributionStopping]

def distributionRegistrationHooks : List Hook := [.onDistributionRegistered, .onDistributionUnregistered]

def wslcHooks : List Hook :=
  [.onSessionCreated, .onSessionStopping, .containerStarted, .containerStopping, .imageCreated, .imageDeleted]

def clearBaseHooks (hooks : Hooks Callback) : Hooks Callback := hooks.clear baseHooks

def clearDistributionRegistrationHooks (hooks : Hooks Callback) : Hooks Callback :=
  hooks.clear distributionRegistrationHooks

def clearWslcHooks (hooks : Hooks Callback) : Hooks Callback := hooks.clear wslcHooks

/-- The hooks that a version of the runtime has room for, cleared. -/
def clearSupportedHooks (version : WslVersion) (hooks : Hooks Callback) : Hooks Callback :=
  let hooks := if supportsDistributionRegistrationHooks version then clearDistributionRegistrationHooks hooks else hooks
  if supportsWslcHooks version then clearWslcHooks hooks else hooks

/-- Null pointers are `none`. A null structure is not written to. -/
def configurePluginHooks (api : Option (PluginApi Execute)) (hooks : Option (Hooks Callback))
    (distributionStartedCallback : Option Callback) : HookStatus × Option (Hooks Callback) :=
  match hooks with
  | none => (.invalidArgument, none)
  | some hooks =>
      let hooks := clearBaseHooks hooks
      match api with
      | none => (.invalidArgument, some hooks)
      | some api =>
          let hooks := clearSupportedHooks api.version hooks
          match distributionStartedCallback with
          | none => (.invalidArgument, some hooks)
          | some callback =>
              if !isSupportedWslRuntime api.version then (.requiresUpdate, some hooks)
              else if api.executeBinaryInDistribution.isNone then (.noInterface, some hooks)
              else (.ok, some (hooks.install .onDistributionStarted (some callback)))

end

/-- The version in the terms of the command line tool. -/
def WslVersion.toCli (version : WslVersion) : Cli.WslVersion := ⟨version.major, version.minor, version.revision⟩

/-- At least this version, in the lexicographic order of the three numbers. -/
def WslVersion.AtLeast (version : WslVersion) (major minor revision : UInt32) : Prop :=
  (⟨major, minor, revision⟩ : Cli.WslVersion).triple ≤ version.toCli.triple

theorem WslVersion.atLeast_iff (version : WslVersion) (major minor revision : UInt32) :
    version.AtLeast major minor revision ↔ major < version.major ∨ major = version.major ∧
      (minor < version.minor ∨ minor = version.minor ∧ revision ≤ version.revision) := by
  rw [AtLeast, Cli.WslVersion.triple, Cli.WslVersion.triple, Prod.Lex.le_iff, ofLex_toLex, ofLex_toLex, Prod.Lex.le_iff]
  rfl

theorem supportsWslcHooks_iff (version : WslVersion) : supportsWslcHooks version ↔ version.AtLeast 2 9 0 := by
  rw [WslVersion.atLeast_iff, supportsWslcHooks]
  simp only [Bool.or_eq_true, Bool.and_eq_true, decide_eq_true_eq, gt_iff_lt, ge_iff_le, UInt32.lt_iff_toNat_lt,
    UInt32.le_iff_toNat_le, ← UInt32.toNat_inj, UInt32.reduceToNat]
  omega

theorem supportsDistributionRegistrationHooks_iff (version : WslVersion) :
    supportsDistributionRegistrationHooks version ↔ version.AtLeast 2 1 2 := by
  rw [WslVersion.atLeast_iff, supportsDistributionRegistrationHooks, @eq_comm _ 2, @eq_comm _ 1]
  simp only [Bool.or_eq_true, Bool.and_eq_true, decide_eq_true_eq, gt_iff_lt, ge_iff_le]

theorem isSupportedWslRuntime_iff (version : WslVersion) :
    isSupportedWslRuntime version ↔ Cli.compareVersions version.toCli Cli.minimumWslVersion ≠ .lt := by
  rw [Cli.compareVersions_ne_lt_iff]
  change _ ↔ version.AtLeast 2 5 1
  rw [WslVersion.atLeast_iff, isSupportedWslRuntime]
  by_cases hmajor : version.major = 2
  · by_cases hminor : version.minor = 5
    · simp [hmajor, hminor]
    · simp [hmajor, hminor, Ne.symm hminor]
  · simp [hmajor, Ne.symm hmajor]

section

variable {Execute Callback : Type}

theorem Hooks.clear_of_notMem (hooks : Hooks Callback) {group : List Hook} {hook : Hook} (h : hook ∉ group) :
    hooks.clear group hook = hooks hook := if_neg h

theorem clearSupportedHooks_onDistributionStarted (version : WslVersion) (hooks : Hooks Callback) :
    clearSupportedHooks version (clearBaseHooks hooks) .onDistributionStarted = none := by
  rw [clearSupportedHooks]
  split <;> split <;> rfl

/-- The registration hooks that differ from before stand in the structures from 2.1.2 on. -/
theorem clearSupportedHooks_registration {version : WslVersion} {hooks : Hooks Callback} {hook : Hook}
    (hhook : hook ∈ distributionRegistrationHooks) (hversion : ¬version.AtLeast 2 1 2) :
    clearSupportedHooks version hooks hook = hooks hook := by
  rw [← supportsDistributionRegistrationHooks_iff] at hversion
  rw [clearSupportedHooks, if_neg hversion]
  split
  · refine Hooks.clear_of_notMem _ ?_
    revert hhook
    cases hook <;> decide
  · rfl

/-- The hooks of sessions, containers and images that differ from before stand in the structures from 2.9.0 on. -/
theorem clearSupportedHooks_wslc {version : WslVersion} {hooks : Hooks Callback} {hook : Hook}
    (hhook : hook ∈ wslcHooks) (hversion : ¬version.AtLeast 2 9 0) :
    clearSupportedHooks version hooks hook = hooks hook := by
  rw [← supportsWslcHooks_iff] at hversion
  rw [clearSupportedHooks, if_neg hversion]
  split
  · refine Hooks.clear_of_notMem _ ?_
    revert hhook
    cases hook <;> decide
  · rfl

theorem Hooks.install_of_ne (hooks : Hooks Callback) {hook other : Hook} (h : other ≠ hook)
    {pointer : Option Callback} :
    hooks.install hook pointer other = hooks other := if_neg h

theorem clearBaseHooks_of_mem {hooks : Hooks Callback} {hook : Hook}
    (hhook : hook ∈ distributionRegistrationHooks ∨ hook ∈ wslcHooks) : clearBaseHooks hooks hook = hooks hook := by
  refine Hooks.clear_of_notMem _ ?_
  revert hhook
  cases hook <;> decide

theorem clearSupportedHooks_changed (version : WslVersion) (hooks : Hooks Callback) :
    (∀ hook ∈ distributionRegistrationHooks,
      clearSupportedHooks version (clearBaseHooks hooks) hook ≠ hooks hook → version.AtLeast 2 1 2) ∧
    ∀ hook ∈ wslcHooks,
      clearSupportedHooks version (clearBaseHooks hooks) hook ≠ hooks hook → version.AtLeast 2 9 0 := by
  refine ⟨fun hook hhook hne => ?_, fun hook hhook hne => ?_⟩ <;> by_contra hversion
  · rw [clearSupportedHooks_registration hhook hversion, clearBaseHooks_of_mem (.inl hhook)] at hne
    exact hne rfl
  · rw [clearSupportedHooks_wslc hhook hversion, clearBaseHooks_of_mem (.inr hhook)] at hne
    exact hne rfl

/-- What a call leaves in the structure: the hooks it has room for are cleared, and the callback is installed
exactly on success. -/
theorem configurePluginHooks_cases (api : Option (PluginApi Execute)) (hooks : Hooks Callback)
    (callback : Option Callback) :
    (api = none ∧ configurePluginHooks api (some hooks) callback = (.invalidArgument, some (clearBaseHooks hooks))) ∨
    ∃ runtime : PluginApi Execute, api = some runtime ∧
      ((∃ status, status ≠ .ok ∧
          ¬(callback.isSome ∧ isSupportedWslRuntime runtime.version ∧ runtime.executeBinaryInDistribution.isSome) ∧
          configurePluginHooks api (some hooks) callback =
            (status, some (clearSupportedHooks runtime.version (clearBaseHooks hooks)))) ∨
        (callback.isSome ∧ isSupportedWslRuntime runtime.version ∧ runtime.executeBinaryInDistribution.isSome ∧
          configurePluginHooks api (some hooks) callback =
            (.ok, some ((clearSupportedHooks runtime.version (clearBaseHooks hooks)).install
              .onDistributionStarted callback)))) := by
  rcases api with - | runtime
  · exact .inl ⟨rfl, rfl⟩
  refine .inr ⟨runtime, rfl, ?_⟩
  rcases callback with - | callback
  · exact .inl ⟨.invalidArgument, nofun, fun h => Bool.false_ne_true h.1, rfl⟩
  by_cases hversion : isSupportedWslRuntime runtime.version
  · cases hexecute : runtime.executeBinaryInDistribution with
    | none =>
        refine .inl ⟨.noInterface, nofun, fun h => Bool.false_ne_true h.2.2, ?_⟩
        simp [configurePluginHooks, hversion, hexecute]
    | some execute =>
        refine .inr ⟨rfl, hversion, rfl, ?_⟩
        simp [configurePluginHooks, hversion, hexecute]
  · refine .inl ⟨.requiresUpdate, nofun, fun h => hversion h.2.1, ?_⟩
    simp [configurePluginHooks, hversion]

/-- Registration writes only to hooks that the runtime's structure has, and succeeds exactly on the runtimes that
the command line tool accepts. A structure that is handed over is left with the callback on success and without one
otherwise. -/
theorem hook_registration_follows_runtime_version (api : Option (PluginApi Execute)) (hooks : Option (Hooks Callback))
    (callback : Option Callback) :
    (∀ before, hooks = some before → ∃ after, (configurePluginHooks api hooks callback).2 = some after ∧
      (∀ hook ∈ distributionRegistrationHooks, after hook ≠ before hook →
        ∃ runtime, api = some runtime ∧ runtime.version.AtLeast 2 1 2) ∧
      (∀ hook ∈ wslcHooks, after hook ≠ before hook →
        ∃ runtime, api = some runtime ∧ runtime.version.AtLeast 2 9 0) ∧
      ((configurePluginHooks api hooks callback).1 ≠ .ok → after .onDistributionStarted = none) ∧
      ((configurePluginHooks api hooks callback).1 = .ok → after .onDistributionStarted = callback)) ∧
    ((configurePluginHooks api hooks callback).1 = .ok ↔ hooks.isSome ∧ callback.isSome ∧
      ∃ runtime, api = some runtime ∧ runtime.executeBinaryInDistribution.isSome ∧
        Cli.compareVersions runtime.version.toCli Cli.minimumWslVersion ≠ .lt) := by
  rcases hooks with - | hooks
  · refine ⟨fun before hbefore => (nomatch hbefore), ?_⟩
    rw [configurePluginHooks]
    exact ⟨fun h => (nomatch h), fun h => (nomatch h.1)⟩
  rcases configurePluginHooks_cases api hooks callback with
    ⟨rfl, hcall⟩ | ⟨runtime, rfl, ⟨status, hstatus, hrefused, hcall⟩ | ⟨hcallback, hversion, hexecute, hcall⟩⟩
  · rw [hcall]
    refine ⟨fun before hbefore => ⟨_, rfl, ?_⟩, fun h => (nomatch h), fun ⟨_, _, _, hruntime, _⟩ =>
      (nomatch hruntime)⟩
    cases hbefore
    exact ⟨fun hook hhook hne => absurd (clearBaseHooks_of_mem (.inl hhook)) hne,
      fun hook hhook hne => absurd (clearBaseHooks_of_mem (.inr hhook)) hne, fun _ => rfl, fun h => (nomatch h)⟩
  · rw [hcall]
    refine ⟨fun before hbefore => ⟨_, rfl, ?_⟩, fun h => absurd h hstatus, ?_⟩
    · cases hbefore
      have htouched := clearSupportedHooks_changed runtime.version hooks
      exact ⟨fun hook hhook hne => ⟨runtime, rfl, htouched.1 hook hhook hne⟩,
        fun hook hhook hne => ⟨runtime, rfl, htouched.2 hook hhook hne⟩,
        fun _ => clearSupportedHooks_onDistributionStarted _ _, fun h => absurd h hstatus⟩
    · rintro ⟨-, hcallback, other, hother, hexecute, hversion⟩
      cases hother
      exact absurd ⟨hcallback, (isSupportedWslRuntime_iff _).mpr hversion, hexecute⟩ hrefused
  · rw [hcall]
    refine ⟨fun before hbefore => ⟨_, rfl, ?_⟩, fun _ => ⟨rfl, hcallback, runtime, rfl, hexecute,
      (isSupportedWslRuntime_iff _).mp hversion⟩, fun _ => rfl⟩
    cases hbefore
    have htouched := clearSupportedHooks_changed runtime.version hooks
    refine ⟨fun hook hhook hne => ⟨runtime, rfl, htouched.1 hook hhook ?_⟩,
      fun hook hhook hne => ⟨runtime, rfl, htouched.2 hook hhook ?_⟩, fun h => absurd rfl h, fun _ => rfl⟩
    · rwa [Hooks.install_of_ne _ (by rintro rfl; revert hhook; decide)] at hne
    · rwa [Hooks.install_of_ne _ (by rintro rfl; revert hhook; decide)] at hne

/-- On 2.5.1 the callback is installed and the hooks of the later structure keep what they held. -/
theorem hook_registration_on_minimum_version :
    (configurePluginHooks (some (⟨⟨2, 5, 1⟩, some ()⟩ : PluginApi Unit)) (some fun _ => some false)
      (some true)).1 = .ok ∧
      ∃ after, (configurePluginHooks (some (⟨⟨2, 5, 1⟩, some ()⟩ : PluginApi Unit)) (some fun _ => some false)
        (some true)).2 = some after ∧ after .onDistributionStarted = some true ∧
          ∀ hook ∈ wslcHooks, after hook = some false := by
  have hok : (configurePluginHooks (some (⟨⟨2, 5, 1⟩, some ()⟩ : PluginApi Unit)) (some fun _ => some false)
      (some true)).1 = .ok :=
    (hook_registration_follows_runtime_version _ _ _).2.mpr ⟨rfl, rfl, _, rfl, rfl, by decide⟩
  obtain ⟨after, hafter, -, hwslc, -, hinstalled⟩ :=
    (hook_registration_follows_runtime_version (some (⟨⟨2, 5, 1⟩, some ()⟩ : PluginApi Unit))
      (some fun _ => some false) (some true)).1 _ rfl
  refine ⟨hok, after, hafter, hinstalled hok, fun hook hhook => by_contra fun hne => ?_⟩
  obtain ⟨runtime, hruntime, hversion⟩ := hwslc hook hhook hne
  cases hruntime
  revert hversion
  rw [WslVersion.atLeast_iff]
  decide

end

end WincredLibsecret.Plugin
