import WincredLibsecret.CliRules
import WincredLibsecret.PluginCallback

/-! The flags of the distributions over the life of an installation. A flag tells the plugin to start the refresh unit
in a distribution, so it may only stand where the provider was installed. Commands follow one another, any of their
calls may fail and the tool may be killed anywhere; distributions start in between, and other programs change what is
theirs in the registry. -/

namespace WincredLibsecret.Cli

open Effect Effect.Action

/-- The call was served with this reply. -/
def Machine.Told (machine : Machine) (request : CliCall) (reply : CliReply request) : Prop :=
  (⟨request, reply⟩ : Served) ∈ machine.log

theorem Machine.log_serve (request : CliCall) (machine : Machine) :
    (Machine.serve request machine).2.log = machine.log ++ [⟨request, machine.reply request⟩] := rfl

theorem Machine.told_serve (request : CliCall) (machine : Machine) :
    (Machine.serve request machine).2.Told request (machine.reply request) :=
  List.mem_append_right _ (List.mem_singleton_self _)

variable {machine : Machine} {request : CliCall}

theorem Machine.Told.serve {reply : CliReply request} (h : machine.Told request reply) (other : CliCall) :
    (Machine.serve other machine).2.Told request reply :=
  List.mem_append_left _ h

/-- The change of a call that looks is that it is on record. -/
theorem Machine.change_of_isReading (h : request.IsReading) (machine : Machine) : machine.change request = machine := by
  cases request with
  | openKey | enumKeys | keyName | getValue | ask => rfl
  | createSubkey | setValue | deleteValue | deleteSubkeyAll => exact h.elim

/-- An invariant that looking does not break. -/
def Steady (inv : Machine → Prop) : Prop :=
  ∀ request : CliCall, request.IsReading → ∀ machine, inv machine → inv (Machine.serve request machine).2

section Triples

variable {α : Type} {inv pre : Machine → Prop}

variable {action : CliAction α}

theorem Steady.triple (hinv : Steady inv) (h : Quiet action) :
    Triple Machine.serve inv pre action fun _ _ => True :=
  Triple.of_calls hinv h.reading

theorem Steady.call (hinv : Steady inv) {request : CliCall} (h : request.IsReading) :
    Triple Machine.serve inv pre (call request) fun reply machine => machine.Told request reply :=
  Triple.perform fun machine hmachine _ => ⟨hinv request h machine hmachine, machine.told_serve request⟩

/-- Looking keeps a fact that no call undoes. -/
theorem Steady.keep (hinv : Steady inv) {fact : Machine → Prop}
    (hfact : ∀ request machine, fact machine → fact (Machine.serve request machine).2) (h : Quiet action) :
    Triple Machine.serve inv fact action fun _ => fact :=
  ((hinv.triple h).frame_always hfact).mono (fun _ hkept => ⟨trivial, hkept⟩) fun _ _ hkept => hkept.2

/-- What is on record stays there. -/
theorem triple_told {post : α → Machine → Prop} {request : CliCall} {reply : CliReply request}
    (h : Triple Machine.serve inv pre action post) :
    Triple Machine.serve inv (fun machine => pre machine ∧ machine.Told request reply) action
      fun value machine => post value machine ∧ machine.Told request reply :=
  h.frame_always fun other _ htold => htold.serve other

theorem triple_optional {post : α → Machine → Prop} (h : Triple Machine.serve inv pre action post) :
    Triple Machine.serve inv pre (optional action)
      fun found machine => ∀ value, found = some value → post value machine := by
  have hattempt : Triple Machine.serve inv pre action.attempt
      fun result machine => ∀ value, result = .ok value → post value machine := by
    refine Triple.attempt (h.mono (fun _ h => h) fun value machine hpost found heq => ?_) (by simp)
    cases heq
    exact hpost
  refine hattempt.bind fun result => Triple.pure fun machine hresult value hvalue => hresult value ?_
  cases result with
  | ok found => exact congrArg Except.ok (Option.some.inj hvalue)
  | error error => cases hvalue

theorem triple_ensure {condition : Bool} {message : String} :
    Triple Machine.serve inv pre (ensure condition message) fun _ machine => pre machine ∧ condition = true := by
  cases condition with
  | true => exact Triple.pure fun machine hpre => ⟨hpre, rfl⟩
  | false => exact Triple.throw _

end Triples

variable {tool : Tool} {inv pre : Machine → Prop}

/-- The key of a distribution has been read and gave it this name. -/
def Machine.Names (machine : Machine) (tool : Tool) (id : Uuid) (name : String) : Prop :=
  ∃ key value, machine.Told (.getValue .currentUser (lxssPath ++ "\\" ++ key) "DistributionName") (some value) ∧
    tool.readString value = some name ∧ Uuid.parseStr (trimBraces key) = some id

theorem Machine.Names.serve {id : Uuid} {name : String} (h : machine.Names tool id name) (request : CliCall) :
    (Machine.serve request machine).2.Names tool id name := by
  obtain ⟨key, value, htold, hname, hid⟩ := h
  exact ⟨key, value, htold.serve request, hname, hid⟩

theorem names_distributionOf (hinv : Steady inv) (key : String) :
    Triple Machine.serve inv pre (distributionOf tool key)
      fun found machine => ∀ distribution, found = some distribution →
        machine.Names tool distribution.id distribution.name := by
  refine (hinv.triple (quiet_keyName _ _ _).optional).bind fun reached => ?_
  split
  · rename_i id hreached hid
    refine (hinv.triple (quiet_openKey _ _).optional).bind fun opened => ?_
    split
    · have hfound : Triple Machine.serve inv (fun _ => True)
          (optional (getValue .currentUser (lxssPath ++ "\\" ++ key) "DistributionName")) fun found machine =>
            ∀ reply, found = some reply →
              machine.Told (.getValue .currentUser (lxssPath ++ "\\" ++ key) "DistributionName") reply :=
        triple_optional (hinv.call trivial)
      refine hfound.bind fun found => ?_
      split
      · exact Triple.pure fun _ _ _ h => by cases h
      · rename_i name hname
        obtain ⟨reply, hreply, hname⟩ := Option.bind_eq_some_iff.mp hname
        obtain ⟨inner, rfl, hinner⟩ := Option.bind_eq_some_iff.mp hreply
        cases hinner
        have hversion : Triple Machine.serve inv (fun _ => True)
            (optional (getValue .currentUser (lxssPath ++ "\\" ++ key) "Version")) fun _ _ => True :=
          hinv.triple (quiet_getValue _ _ (by decide)).optional
        refine ((triple_told hversion).mono (fun machine hfound => ⟨trivial, hfound _ rfl⟩) fun _ _ h => h).bind
          fun version => Triple.pure fun machine htold distribution hdistribution => ?_
        cases hdistribution
        exact ⟨key, reply, htold.2, hname, hid⟩
    · exact Triple.pure fun _ _ _ h => by cases h
  · exact Triple.pure fun _ _ _ h => by cases h

theorem names_distributionsOf (hinv : Steady inv) (keys : List String) :
    Triple Machine.serve inv pre (distributionsOf tool keys)
      fun found machine => ∀ distribution ∈ found, machine.Names tool distribution.id distribution.name := by
  induction keys generalizing pre with
  | nil => exact Triple.pure fun _ _ => List.forall_mem_nil _
  | cons key keys ih =>
      refine (names_distributionOf hinv key).bind fun found => ?_
      have hothers : Triple Machine.serve inv (fun machine => True ∧ ∀ distribution, found = some distribution →
            machine.Names tool distribution.id distribution.name) (distributionsOf tool keys) fun others machine =>
          (∀ distribution ∈ others, machine.Names tool distribution.id distribution.name) ∧
            ∀ distribution, found = some distribution → machine.Names tool distribution.id distribution.name :=
        ih.frame_always fun request machine h distribution hdistribution =>
          (h distribution hdistribution).serve request
      refine (hothers.mono (fun _ h => ⟨trivial, h⟩) fun _ _ h => h).bind fun others =>
        Triple.pure fun machine h distribution hdistribution => ?_
      rcases List.mem_append.mp hdistribution with hhead | htail
      · exact h.2 distribution (Option.mem_toList.mp hhead)
      · exact h.1 distribution htail

theorem names_enumerateDistributions (hinv : Steady inv) :
    Triple Machine.serve inv pre (enumerateDistributions tool)
      fun found machine => ∀ distribution ∈ found, machine.Names tool distribution.id distribution.name := by
  refine (hinv.triple ((quiet_openKey _ _).context _)).bind fun opened => ?_
  split
  · refine (hinv.triple (quiet_runProcess _ _).optional).bind fun _ => ?_
    refine (hinv.triple (quiet_enumKeys _ _).optional).bind fun keys => ?_
    refine (names_distributionsOf hinv _).bind fun found => Triple.pure fun machine h distribution hmem => ?_
    exact h distribution ((List.mem_insertionSort _).mp hmem)
  · exact Triple.pure fun _ _ => List.forall_mem_nil _

/-- The distribution that is found has the name that was asked for, up to the case of its letters. -/
theorem names_findDistribution (hinv : Steady inv) (name : String) :
    Triple Machine.serve inv pre (findDistribution tool name)
      fun distribution machine => machine.Names tool distribution.id distribution.name ∧
        eqIgnoreAsciiCase distribution.name name = true := by
  refine (names_enumerateDistributions hinv).bind fun distributions => ?_
  split
  · rename_i distribution hfilter
    refine Triple.pure fun machine h => ?_
    have hmem : distribution ∈ distributions.filter fun distribution => eqIgnoreAsciiCase distribution.name name := by
      rw [hfilter]
      exact List.mem_singleton_self _
    exact ⟨h distribution (List.mem_of_mem_filter hmem), (List.mem_filter.mp hmem).2⟩
  · exact Triple.throw _
  · exact Triple.throw _

/-! ### Flags with a ground -/

/-- The flag of a distribution has a value. -/
def Machine.Flagged (machine : Machine) (id : Uuid) : Prop :=
  (machine.user.value (distributionRegistryPath id) distributionEnablementValue).isSome

/-- The call removes the flag of the distribution. -/
def CliCall.Clears (id : Uuid) (request : CliCall) : Prop :=
  request = .deleteSubkeyAll .currentUser (distributionRegistryPath id)

/-- The provider was installed in the distribution under its name, after a check that had passed, and its flag has
not been removed since. -/
def Grounded (tool : Tool) (log : List Served) (id : Uuid) : Prop :=
  ∃ before after name source broker replaceConflicts installed checked,
    log = before ++ ⟨.ask (.output "wsl.exe" (rootArguments name
      (bootstrapArguments source broker replaceConflicts ++ ["--install"]))), installed⟩ :: after ∧
    installed.success = true ∧
    (⟨.ask (.output "wsl.exe" (rootArguments name
      (bootstrapArguments source broker replaceConflicts ++ ["--check"]))), checked⟩ : Served) ∈ before ∧
    checked.success = true ∧
    (∃ key value,
      (⟨.getValue .currentUser (lxssPath ++ "\\" ++ key) "DistributionName", some value⟩ : Served) ∈ before ∧
      tool.readString value = some name ∧ Uuid.parseStr (trimBraces key) = some id) ∧
    ∀ served ∈ after, ¬ served.1.Clears id

theorem Grounded.concat {log : List Served} {id : Uuid} (h : Grounded tool log id) {served : Served}
    (hserved : ¬ served.1.Clears id) : Grounded tool (log ++ [served]) id := by
  obtain ⟨before, after, name, source, broker, replaceConflicts, installed, checked, rfl, hinstalled, hcheck, hchecked,
    hname, hafter⟩ := h
  refine ⟨before, after ++ [served], name, source, broker, replaceConflicts, installed, checked, ?_, hinstalled, hcheck,
    hchecked, hname, fun entry hentry => ?_⟩
  · rw [List.append_assoc, List.cons_append]
  · rcases List.mem_append.mp hentry with hold | hnew
    · exact hafter entry hold
    · rw [List.mem_singleton.mp hnew]
      exact hserved

/-- A flag that is there after a call was there before it and was not cleared, or the call has set it. -/
theorem Machine.flagged_of_serve {id : Uuid} (h : (Machine.serve request machine).2.Flagged id) :
    (machine.Flagged id ∧ ¬ request.Clears id) ∨
      ∃ value, request = .setValue .currentUser (distributionRegistryPath id) distributionEnablementValue value := by
  have hchange : ((machine.change request).user.value (distributionRegistryPath id)
    distributionEnablementValue).isSome := h
  unfold Machine.Flagged CliCall.Clears
  cases request with
  | openKey | enumKeys | keyName | getValue | ask => exact .inl ⟨hchange, by simp⟩
  | createSubkey root path =>
      cases root with
      | localMachine => exact .inl ⟨hchange, by simp⟩
      | currentUser =>
          simp only [Machine.change, Machine.setHive, Machine.hive, Hive.value_createSubkey] at hchange
          exact .inl ⟨hchange, by simp⟩
  | setValue root path name value =>
      cases root with
      | localMachine => exact .inl ⟨hchange, by simp⟩
      | currentUser =>
          simp only [Machine.change, Machine.setHive, Machine.hive, Hive.value_setValue] at hchange
          split_ifs at hchange with hset
          · exact .inr ⟨value, by rw [hset.1, hset.2.1]⟩
          · exact .inl ⟨hchange, by simp⟩
  | deleteValue root path name =>
      cases root with
      | localMachine => exact .inl ⟨hchange, by simp⟩
      | currentUser =>
          simp only [Machine.change, Machine.setHive, Machine.hive, Hive.value_deleteValue] at hchange
          split_ifs at hchange
          · cases hchange
          · exact .inl ⟨hchange, by simp⟩
  | deleteSubkeyAll root path =>
      cases root with
      | localMachine => exact .inl ⟨hchange, by simp⟩
      | currentUser =>
          simp only [Machine.change, Machine.setHive, Machine.hive, Hive.value_deleteSubkeyAll] at hchange
          split_ifs at hchange with hdeleted
          · cases hchange
          · refine .inl ⟨hchange, fun hclears => hdeleted (.inl ?_)⟩
            injection hclears with _ hpath
            exact hpath.symm

/-- Every flag has a ground. -/
def Justified (tool : Tool) (machine : Machine) : Prop := ∀ id, machine.Flagged id → Grounded tool machine.log id

/-- The call sets no flag. -/
def CliCall.Flagless (request : CliCall) : Prop :=
  ∀ path name value, request ≠ .setValue .currentUser path name value

theorem Justified.serve (h : Justified tool machine)
    (hrequest : ∀ id value, request = .setValue .currentUser (distributionRegistryPath id) distributionEnablementValue
      value → Grounded tool machine.log id) : Justified tool (Machine.serve request machine).2 := by
  intro id hflagged
  rw [Machine.log_serve]
  rcases Machine.flagged_of_serve hflagged with ⟨hold, hclears⟩ | ⟨value, hset⟩
  · exact (h id hold).concat hclears
  · refine (hrequest id value hset).concat ?_
    rw [hset]
    simp [CliCall.Clears]

theorem Justified.serve_of_flagless (hrequest : request.Flagless) (h : Justified tool machine) :
    Justified tool (Machine.serve request machine).2 :=
  h.serve fun _ value hset => absurd hset (hrequest _ _ value)

theorem CliCall.IsReading.flagless (h : request.IsReading) : request.Flagless := by
  rintro path name value rfl
  exact h

theorem steady_justified : Steady (Justified tool) := fun _ hreading _ h => h.serve_of_flagless hreading.flagless

theorem triple_ensureWslSuccess (hinv : Steady inv) (distribution : String) (arguments : List String)
    (operation : String) :
    Triple Machine.serve inv pre (ensureWslSuccess distribution arguments operation)
      fun _ machine => ∃ result : ProcessResult,
        machine.Told (.ask (.output "wsl.exe" (rootArguments distribution arguments))) result ∧
          result.success = true := by
  have hrun : Triple Machine.serve inv pre (runWslRoot distribution arguments) fun result machine =>
      machine.Told (.ask (.output "wsl.exe" (rootArguments distribution arguments))) result :=
    Triple.mapError (hinv.call trivial)
  exact hrun.bind fun result => triple_ensure.mono (fun _ h => h) fun _ machine h => ⟨result, h⟩

/-- A successful installation right after a successful check is a ground. -/
theorem grounded_ensureWslSuccess (hinv : Steady inv) {id : Uuid} {name source broker operation : String}
    {replaceConflicts : Bool} :
    Triple Machine.serve inv
      (fun machine => (∃ checked : ProcessResult, machine.Told (.ask (.output "wsl.exe" (rootArguments name
        (bootstrapArguments source broker replaceConflicts ++ ["--check"])))) checked ∧ checked.success = true) ∧
          machine.Names tool id name)
      (ensureWslSuccess name (bootstrapArguments source broker replaceConflicts ++ ["--install"]) operation)
      fun _ machine => Grounded tool machine.log id := by
  have hrun : Triple Machine.serve inv
      (fun machine => (∃ checked : ProcessResult, machine.Told (.ask (.output "wsl.exe" (rootArguments name
        (bootstrapArguments source broker replaceConflicts ++ ["--check"])))) checked ∧ checked.success = true) ∧
          machine.Names tool id name)
      (runWslRoot name (bootstrapArguments source broker replaceConflicts ++ ["--install"]))
      fun installed machine => installed.success = true → Grounded tool machine.log id := by
    refine Triple.mapError (Triple.perform fun machine hmachine hpre => ?_)
    refine ⟨hinv (.ask (.output _ _)) trivial machine hmachine, fun hinstalled => ?_⟩
    obtain ⟨⟨checked, hcheck, hchecked⟩, hname⟩ := hpre
    exact ⟨machine.log, [], name, source, broker, replaceConflicts, _, checked, rfl, hinstalled, hcheck, hchecked,
      hname, List.forall_mem_nil _⟩
  exact hrun.bind fun installed => triple_ensure.mono (fun _ h => h) fun _ machine h => h.1 h.2

theorem grounded_provisionDistribution (hinv : Steady inv) (distribution : Distribution)
    (arguments : DistroEnableArguments) :
    Triple Machine.serve inv (fun machine => machine.Names tool distribution.id distribution.name)
      (provisionDistribution tool distribution arguments)
      fun _ machine => Grounded tool machine.log distribution.id := by
  have hframe : ∀ {α : Type} {action : CliAction α}, Quiet action →
      Triple Machine.serve inv (fun machine => machine.Names tool distribution.id distribution.name) action
        fun _ machine => machine.Names tool distribution.id distribution.name := by
    intro α action h
    have htrue : Triple Machine.serve inv (fun _ => True) action fun _ _ => True := hinv.triple h
    exact (htrue.frame_always fun request machine hname => hname.serve request).mono (fun _ h => ⟨trivial, h⟩)
      fun _ _ h => h.2
  refine (hframe quiet_checkWslVersion).bind fun _ => (hframe (quiet_ensure _ _)).bind fun _ => ?_
  refine (hframe (quiet_orDefault (quiet_besideTool _))).bind fun _ => ?_
  refine (hframe (quiet_absoluteExisting _ _ _)).bind fun _ => ?_
  refine (hframe (quiet_checkPayload tool _)).bind fun _ => ?_
  refine (hframe (quiet_orDefault (quiet_besideTool _))).bind fun _ => ?_
  refine (hframe (quiet_validateBroker _)).bind fun _ => ?_
  refine (hframe (quiet_wslPath _ _)).bind fun source => (hframe (quiet_wslPath _ _)).bind fun broker => ?_
  have hcheck : Triple Machine.serve inv
      (fun machine => True ∧ machine.Names tool distribution.id distribution.name)
      (ensureWslSuccess distribution.name (bootstrapArguments source broker arguments.replaceConflicts ++ ["--check"])
        "distribution prerequisite/conflict check")
      fun _ machine => (∃ checked : ProcessResult,
        machine.Told (.ask (.output "wsl.exe" (rootArguments distribution.name
        (bootstrapArguments source broker arguments.replaceConflicts ++ ["--check"])))) checked ∧
          checked.success = true) ∧ machine.Names tool distribution.id distribution.name :=
    (triple_ensureWslSuccess hinv _ _ _).frame_always fun request machine hname => hname.serve request
  exact (hcheck.mono (fun _ h => ⟨trivial, h⟩) fun _ _ h => h).bind fun _ => grounded_ensureWslSuccess hinv

theorem justified_setEnabled (id : Uuid) :
    Triple Machine.serve (Justified tool) (fun machine => Grounded tool machine.log id) (setEnabled id true)
      fun _ _ => True := by
  have hcreate : Triple Machine.serve (Justified tool) (fun machine => Grounded tool machine.log id)
      (createSubkey .currentUser (distributionRegistryPath id)) fun _ machine => Grounded tool machine.log id :=
    Triple.perform fun machine hmachine hground =>
      ⟨hmachine.serve_of_flagless (by simp [CliCall.Flagless]), hground.concat (by simp [CliCall.Clears])⟩
  refine (Triple.mapError hcreate).bind fun _ => Triple.mapError (Triple.perform ?_)
  intro machine hmachine hground
  refine ⟨hmachine.serve fun other value hset => ?_, trivial⟩
  injection hset with _ hpath
  rwa [← distributionRegistryPath_injective hpath]

theorem justified_distroEnable (arguments : DistroEnableArguments) :
    Triple Machine.serve (Justified tool) (fun _ => True) (distroEnable tool arguments) fun _ _ => True := by
  refine (names_findDistribution steady_justified arguments.name).bind fun distribution => ?_
  refine ((grounded_provisionDistribution steady_justified distribution arguments).mono (fun _ h => h.1)
    fun _ _ h => h).bind fun _ => ?_
  exact justified_setEnabled distribution.id

/-- Every command keeps every flag justified, wherever it fails or is killed. -/
theorem justified_command (command : Command) :
    Triple Machine.serve (Justified tool) (fun _ => True) (command.action tool) fun _ _ => True := by
  have hserve : ∀ request : CliCall, request.Flagless → ∀ machine, Justified tool machine →
      Justified tool (Machine.serve request machine).2 := fun _ hrequest _ h => h.serve_of_flagless hrequest
  have hreading : ∀ request : CliCall, request.IsReading → request.Flagless := fun _ h => h.flagless
  have hspawn : ∀ program arguments, CliCall.Flagless (.ask (.spawn program arguments)) := by simp [CliCall.Flagless]
  cases command with
  | pluginInstall arguments =>
      exact Triple.of_calls hserve (calls_pluginInstall tool hreading arguments (by simp [CliCall.Flagless])
        fun _ => by simp [CliCall.Flagless])
  | pluginUninstall arguments =>
      exact Triple.of_calls hserve (calls_pluginUninstall tool hreading arguments (by simp [CliCall.Flagless]))
  | distroEnable arguments => exact justified_distroEnable arguments
  | distroDisable name =>
      exact Triple.of_calls hserve (calls_distroDisable tool hreading name fun _ => by simp [CliCall.Flagless])
  | distroRefresh arguments =>
    exact Triple.of_calls hserve ((reading_distroRefresh tool arguments).calls hreading)
  | uninstall keep =>
      exact Triple.of_calls hserve (calls_uninstall tool hreading keep hspawn fun _ _ => by
        simp [CliCall.Flagless])
  | upgrade includePrerelease =>
      exact Triple.of_calls hserve (calls_upgrade tool (fun request h => hreading request h.isReading) hspawn
        includePrerelease)

/-! ### The life of an installation -/

/-- A machine, and the starts of the refresh unit so far, each with the number of calls on record at the time. -/
structure Site where
  machine : Machine
  launches : List (Guid × Nat)

/-- The machine a command leaves. -/
def Command.after (command : Command) (tool : Tool) (fates : Fates String) (machine : Machine) : Machine :=
  (Action.execute Machine.serve (command.action tool) fates machine).state

/-- What can happen to a machine: a command is run, a distribution starts, or other programs change what is theirs. -/
inductive Lifecycle (tool : Tool) (start : Machine) : Site → Prop where
  | start : Lifecycle tool start ⟨start, []⟩
  | command {site : Site} (h : Lifecycle tool start site) (command : Command) (fates : Fates String) :
      Lifecycle tool start ⟨command.after tool fates site.machine, site.launches⟩
  | distributionStarted {site : Site} (h : Lifecycle tool start site) (surroundings : Plugin.Surroundings) :
      Lifecycle tool start ⟨site.machine, site.launches ++ (Plugin.launchesOf (Plugin.handleDistributionStarted
        surroundings site.machine.user.registry)).map fun guid => (guid, site.machine.log.length)⟩
  | others {site : Site} (h : Lifecycle tool start site) (user machine : Hive)
      (outside : Nat → (question : Question) → Answer question)
      (hours : ∀ id, user.registry (distributionRegistryPath id) =
        site.machine.user.registry (distributionRegistryPath id)) :
      Lifecycle tool start ⟨⟨user, machine, outside, site.machine.log⟩, site.launches⟩

/-- The calls on record only become more. -/
theorem log_prefix_after (tool : Tool) (command : Command) (fates : Fates String) (machine : Machine) :
    machine.log <+: (command.after tool fates machine).log := by
  have hkept : Triple Machine.serve (fun later => machine.log <+: later.log) (fun _ => True)
      (command.action tool) fun _ _ => True :=
    Triple.of_calls (P := fun _ => True) (fun _ _ _ h => h.trans (List.prefix_append _ _))
      (Program.calls_true _)
  exact hkept.invariant_of_execute (List.prefix_refl _) trivial fates

theorem flagged_of_read {guid : Guid} (h : Plugin.read machine.user.registry guid = ⟨true, Plugin.sOk⟩) :
    machine.Flagged guid.toUuid := by
  rw [Plugin.read, Plugin.distributionRegistryPath_eq] at h
  rw [Machine.Flagged, Hive.value]
  split at h
  · cases h
  · rename_i values hvalues
    rw [hvalues]
    split at h
    · cases h
    · rename_i value hvalue
      exact Option.isSome_iff_exists.mpr ⟨value, hvalue⟩

/-- The value of a set flag. -/
def flagValue : RegistryValue := ⟨regDword, [1, 0, 0, 0]⟩

theorem read_of_value {hive : Hive} {guid : Guid}
    (h : hive.value (distributionRegistryPath guid.toUuid) distributionEnablementValue = some flagValue) :
    Plugin.read hive.registry guid = ⟨true, Plugin.sOk⟩ := by
  obtain ⟨values, hvalues, hvalue⟩ := Option.bind_eq_some_iff.mp h
  rw [Plugin.read, Plugin.distributionRegistryPath_eq, hvalues]
  dsimp only
  rw [show Plugin.enabledValueName = distributionEnablementValue from rfl, hvalue]
  rfl

/-- The flags have grounds, and each start of the refresh unit had one when it happened. -/
structure Site.Sound (tool : Tool) (site : Site) : Prop where
  justified : Justified tool site.machine
  launched : ∀ guid count, (guid, count) ∈ site.launches →
    count ≤ site.machine.log.length ∧ Grounded tool (site.machine.log.take count) guid.toUuid

theorem Site.Sound.command {site : Site} (h : site.Sound tool) (command : Command) (fates : Fates String) :
    Site.Sound tool ⟨command.after tool fates site.machine, site.launches⟩ := by
  obtain ⟨more, hmore⟩ := log_prefix_after tool command fates site.machine
  refine ⟨(justified_command command).invariant_of_execute h.justified trivial fates, fun guid count hlaunch => ?_⟩
  obtain ⟨hcount, hground⟩ := h.launched guid count hlaunch
  rw [← hmore, List.length_append, List.take_append_of_le_length hcount]
  exact ⟨by omega, hground⟩

theorem Site.Sound.distributionStarted {site : Site} (h : site.Sound tool) (surroundings : Plugin.Surroundings) :
    Site.Sound tool ⟨site.machine, site.launches ++ (Plugin.launchesOf (Plugin.handleDistributionStarted
      surroundings site.machine.user.registry)).map fun guid => (guid, site.machine.log.length)⟩ := by
  refine ⟨h.justified, fun guid count hlaunch => ?_⟩
  rcases List.mem_append.mp hlaunch with hold | hnew
  · exact h.launched guid count hold
  · obtain ⟨other, hother, heq⟩ := List.mem_map.mp hnew
    cases heq
    have hflagged := flagged_of_read (Plugin.enabled_of_mem_launchesOf hother).2
    rw [List.take_length]
    exact ⟨le_rfl, h.justified guid.toUuid hflagged⟩

theorem Site.sound_of_lifecycle {start : Machine}
    (hstart : ∀ id, start.user.registry (distributionRegistryPath id) = none) {site : Site}
    (h : Lifecycle tool start site) : site.Sound tool := by
  induction h with
  | start =>
      refine ⟨fun id hflagged => ?_, fun guid count hlaunch => by cases hlaunch⟩
      rw [Machine.Flagged, Hive.value, hstart id] at hflagged
      cases hflagged
  | command h command fates ih => exact ih.command command fates
  | distributionStarted h surroundings ih => exact ih.distributionStarted surroundings
  | others h user machine outside hours ih =>
      refine ⟨fun id hflagged => ih.justified id ?_, ih.launched⟩
      rw [Machine.Flagged, Hive.value, hours id] at hflagged
      exact hflagged

/-- Over the whole life of an installation that starts without flags, the refresh unit is started only in
distributions in which the provider was installed, after a passed check, under the name they have for the user, and
whose flag has not been removed since. -/
theorem refresh_starts_only_where_installed (tool : Tool) (start : Machine)
    (hstart : ∀ id, start.user.registry (distributionRegistryPath id) = none) (site : Site)
    (h : Lifecycle tool start site) :
    (∀ guid, Plugin.read site.machine.user.registry guid = ⟨true, Plugin.sOk⟩ →
      Grounded tool site.machine.log guid.toUuid) ∧
    ∀ guid count, (guid, count) ∈ site.launches → Grounded tool (site.machine.log.take count) guid.toUuid := by
  have hsound := Site.sound_of_lifecycle hstart h
  exact ⟨fun guid hread => hsound.justified guid.toUuid (flagged_of_read hread),
    fun guid count hlaunch => (hsound.launched guid count hlaunch).2⟩

/-- Texts are stored with a byte for each character. -/
noncomputable def sampleTool : Tool where
  sha256 := zeroDigest
  readString value := some (String.ofList (value.data.map fun byte => Char.ofNat byte.toNat))
  writeString text := ⟨1, text.toList.map fun c => UInt8.ofNat c.toNat⟩
  debug text := "\"" ++ text ++ "\""
  crate := idealCrate
  stringError _ := "invalid text"
  uuidError _ := "invalid character"
  notFound := "not found"
  processId := 42
  hashOrder ids := ids
  hashOrder_perm := List.Perm.refl

theorem Hive.isSome_none (path : String) (h : (none : Option (String → Option RegistryValue)).isSome) :
    path ∈ ([] : List String) := by
  cases h

theorem Hive.closed_none (path key : String) (_hbelow : Registry.IsBelow key path)
    (h : (none : Option (String → Option RegistryValue)).isSome) :
    (none : Option (String → Option RegistryValue)).isSome := h

def Hive.empty : Hive := ⟨fun _ => none, [], Hive.isSome_none, Hive.closed_none⟩

def sampleKey : String :=
  "Software\\Microsoft\\Windows\\CurrentVersion\\Lxss\\\x7b01234567-0089-00ab-0cde-f00102030405\x7d"

noncomputable def sampleUser : Hive :=
  ((Hive.empty.createSubkey sampleKey).setValue sampleKey "DistributionName" (sampleTool.writeString "Ubuntu")).setValue
    sampleKey "Version" ⟨regDword, [2, 0, 0, 0]⟩

def sampleRoot : String := "D:\\WinCredLibsecret"

/-- Every program succeeds, and every file is there. -/
def sampleAnswer (elevated : String) : (question : Question) → Answer question
  | .output program arguments =>
      if program = "powershell.exe" then ⟨true, elevated, ""⟩
      else if arguments = ["--version"] then ⟨true, "WSL version: 2.5.7.0", ""⟩
      else ⟨true, "/mnt/d\n", ""⟩
  | .spawn _ _ => ()
  | .releases _ => .ok []
  | .currentExe => "D:\\WinCredLibsecret\\wincred-libsecret.exe"
  | .parent _ => some sampleRoot
  | .canonicalize path => path
  | .isThere _ _ => true
  | .files => plainStore (WindowsPath.parse "D:\\WinCredLibsecret\\linux".toList)
      (String.ofList (manifestOf [['b', 'i', 'n', '/', 't']]))
  | .winVerifyTrust _ => (0 : Int32)

noncomputable def sampleMachine : Machine := ⟨sampleUser, Hive.empty, fun _ => sampleAnswer "False", []⟩

def sampleEnable : Command := .distroEnable ⟨"ubuntu", none, none, false⟩

def sampleSurroundings : Plugin.Surroundings :=
  ⟨some 1, some Plugin.sampleGuid, none, false, some (some (Plugin.sOk, true))⟩

noncomputable def sampleEnabled : Machine := sampleEnable.after sampleTool undisturbed sampleMachine

noncomputable def sampleLaunched : Site := ⟨sampleEnabled, [(Plugin.sampleGuid, sampleEnabled.log.length)]⟩

theorem run_sampleMachine :
    (Action.execute Machine.serve (sampleEnable.action sampleTool) undisturbed sampleMachine).outcome =
      .returned (.ok ()) ∧
    sampleEnabled.user.value (distributionRegistryPath Plugin.sampleGuid.toUuid) distributionEnablementValue =
      some flagValue := by
  decide +kernel

theorem launchesOf_sampleEnabled :
    Plugin.launchesOf (Plugin.handleDistributionStarted sampleSurroundings sampleEnabled.user.registry) =
      [Plugin.sampleGuid] :=
  Plugin.launchesOf_handleDistributionStarted rfl rfl rfl rfl rfl (read_of_value run_sampleMachine.2)

theorem lifecycle_sampleLaunched : Lifecycle sampleTool sampleMachine sampleLaunched := by
  have henabled : Lifecycle sampleTool sampleMachine ⟨sampleEnabled, []⟩ :=
    Lifecycle.start.command sampleEnable undisturbed
  have hlaunched := henabled.distributionStarted sampleSurroundings
  dsimp only at hlaunched
  rwa [launchesOf_sampleEnabled] at hlaunched

theorem registry_sampleUser (id : Uuid) : sampleUser.registry (distributionRegistryPath id) = none := by
  have hbegins : distributionEnablementPrefix.toList <+: (distributionRegistryPath id).toList := by
    rw [toList_distributionRegistryPath]
    exact List.prefix_append _ _
  have hother : ¬ distributionEnablementPrefix.toList <+: sampleKey.toList := by decide +kernel
  have hne : distributionRegistryPath id ≠ sampleKey := fun h => hother (h ▸ hbegins)
  have habove : ¬ Registry.IsBelow sampleKey (distributionRegistryPath id) := fun h =>
    hother (hbegins.trans ((List.prefix_append _ _).trans h))
  simp [sampleUser, Hive.setValue, Hive.createSubkey, Registry.setValue, Registry.createSubkey, hne, habove, Hive.empty]

theorem refresh_starts_after_enabling :
    Lifecycle sampleTool sampleMachine sampleLaunched ∧
      Grounded sampleTool (sampleEnabled.log.take sampleEnabled.log.length) Plugin.sampleGuid.toUuid := by
  obtain ⟨-, hgrounded⟩ := refresh_starts_only_where_installed sampleTool sampleMachine registry_sampleUser
    sampleLaunched lifecycle_sampleLaunched
  exact ⟨lifecycle_sampleLaunched, hgrounded Plugin.sampleGuid _ (List.mem_singleton_self _)⟩

end WincredLibsecret.Cli
