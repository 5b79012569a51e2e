import WincredLibsecret.CliLifecycle

/-! What the commands for a distribution do to its flag. They touch no flag but that of the distribution they were
asked for, whether they succeed, fail or are killed; and once they have succeeded, the next start of the distribution
goes by them. -/

namespace WincredLibsecret

/-- Every identifier is that of a GUID. -/
theorem Guid.toUuid_surjective : Function.Surjective Guid.toUuid := by
  rintro ⟨value⟩
  obtain ⟨n, hn, rfl⟩ : ∃ n < 2 ^ 128, value = BitVec.ofNat 128 n := ⟨value.toNat, value.isLt, by simp⟩
  refine ⟨⟨UInt32.ofNat (n / 2 ^ 96), UInt16.ofNat (n / 2 ^ 80), UInt16.ofNat (n / 2 ^ 64),
    #v[UInt8.ofNat (n / 2 ^ 56), UInt8.ofNat (n / 2 ^ 48), UInt8.ofNat (n / 2 ^ 40), UInt8.ofNat (n / 2 ^ 32),
      UInt8.ofNat (n / 2 ^ 24), UInt8.ofNat (n / 2 ^ 16), UInt8.ofNat (n / 2 ^ 8), UInt8.ofNat n]⟩, ?_⟩
  have hfirst : n / 2 ^ 96 % 2 ^ 32 = n / 2 ^ 96 := Nat.mod_eq_of_lt (Nat.div_lt_of_lt_mul (by rwa [← pow_add]))
  have hfield : ∀ k, n / 2 ^ (k + 16) * 16 ^ 4 + n / 2 ^ k % 2 ^ 16 = n / 2 ^ k := by
    intro k
    rw [pow_add, ← Nat.div_div_eq_div_mul]
    omega
  have hbyte : ∀ k, n / 2 ^ (k + 8) * 16 ^ 2 + n / 2 ^ k % 2 ^ 8 = n / 2 ^ k := by
    intro k
    rw [pow_add, ← Nat.div_div_eq_div_mul]
    omega
  have hlast : n / 2 ^ 8 * 16 ^ 2 + n % 2 ^ 8 = n := by omega
  rw [Guid.toUuid]
  simp only [Vector.toList_mk, List.foldl_cons, List.foldl_nil, UInt32.toNat_ofNat', UInt16.toNat_ofNat',
    UInt8.toNat_ofNat']
  rw [hfirst, hfield 80, hfield 64, hbyte 56, hbyte 48, hbyte 40, hbyte 32, hbyte 24, hbyte 16, hbyte 8, hlast]

namespace Cli

open Effect Effect.Action

/-- The machine with the record of what has happened since a number of calls. -/
def Machine.since (count : Nat) (machine : Machine) : Machine :=
  { machine with log := machine.log.drop count, outside := fun n => machine.outside (count + n) }

variable {machine : Machine}

theorem Machine.reply_since {count : Nat} (h : count ≤ machine.log.length) (request : CliCall) :
    (machine.since count).reply request = machine.reply request := by
  cases request with
  | openKey root | enumKeys root | getValue root => cases root <;> rfl
  | keyName | createSubkey | setValue | deleteValue | deleteSubkeyAll => rfl
  | ask question =>
      have hlength : count + (machine.log.drop count).length = machine.log.length := by
        rw [List.length_drop]
        omega
      exact congrArg (fun n => machine.outside n question) hlength

/-- A command sees nothing of what was on record before it. -/
theorem Machine.serve_since {count : Nat} (request : CliCall) (machine : Machine) (h : count ≤ machine.log.length) :
    Machine.serve request (machine.since count) =
      ((Machine.serve request machine).1, (Machine.serve request machine).2.since count) := by
  have hlog : (machine.log ++ [(⟨request, machine.reply request⟩ : Served)]).drop count =
      machine.log.drop count ++ [⟨request, machine.reply request⟩] := List.drop_append_of_le_length h
  rw [Machine.serve, Machine.reply_since h]
  refine congrArg (Prod.mk _) ?_
  simp only [Machine.since, Machine.serve, hlog]
  cases request with
  | openKey | enumKeys | keyName | getValue | ask => rfl
  | createSubkey root | setValue root | deleteValue root | deleteSubkeyAll root => cases root <;> rfl

theorem Machine.le_length_serve {count : Nat} (request : CliCall) (machine : Machine)
    (h : count ≤ machine.log.length) : count ≤ (Machine.serve request machine).2.log.length := by
  rw [Machine.log_serve, List.length_append]
  omega

/-- What is known of a command with nothing on record is known of it at any time, for its own record. -/
theorem triple_since {α : Type} {inv pre : Machine → Prop} {action : CliAction α} {post : α → Machine → Prop}
    (count : Nat) (h : Triple Machine.serve inv pre action post) :
    Triple Machine.serve (fun machine => count ≤ machine.log.length ∧ inv (machine.since count))
      (fun machine => pre (machine.since count)) action fun value machine => post value (machine.since count) :=
  h.comap Machine.le_length_serve Machine.serve_since

/-- The call is about the flag of the distribution. -/
def CliCall.Concerns (id : Uuid) : CliCall → Prop
  | .createSubkey root path | .setValue root path _ _ | .deleteSubkeyAll root path =>
      root = .currentUser ∧ path = distributionRegistryPath id
  | .openKey _ _ | .enumKeys _ _ | .keyName _ _ _ | .getValue _ _ _ | .deleteValue _ _ _ | .ask _ => False

theorem Machine.registry_serve_createSubkey (path : String) (machine : Machine) :
    (Machine.serve (.createSubkey .currentUser path) machine).2.user.registry =
      machine.user.registry.createSubkey path := rfl

theorem Machine.registry_serve_setValue (path name : String) (value : RegistryValue) (machine : Machine) :
    (Machine.serve (.setValue .currentUser path name value) machine).2.user.registry =
      machine.user.registry.setValue path name value := rfl

theorem Machine.registry_serve_deleteSubkeyAll (path : String) (machine : Machine) :
    (Machine.serve (.deleteSubkeyAll .currentUser path) machine).2.user.registry =
      machine.user.registry.deleteSubkeyAll path := rfl

theorem Machine.registry_serve_of_concerns {request : CliCall} {id other : Uuid} (h : request.Concerns id)
    (hne : other ≠ id) (machine : Machine) :
    (Machine.serve request machine).2.user.registry (distributionRegistryPath other) =
      machine.user.registry (distributionRegistryPath other) := by
  have hpath : distributionRegistryPath other ≠ distributionRegistryPath id := fun heq =>
    hne (distributionRegistryPath_injective heq)
  cases request with
  | openKey | enumKeys | keyName | getValue | deleteValue | ask => exact h.elim
  | createSubkey root path =>
      obtain ⟨rfl, rfl⟩ := h
      rw [Machine.registry_serve_createSubkey, Registry.createSubkey, if_neg (not_or.mpr ⟨hpath, not_isBelow id other⟩)]
  | setValue root path name value =>
      obtain ⟨rfl, rfl⟩ := h
      rw [Machine.registry_serve_setValue, Registry.setValue, if_neg hpath]
  | deleteSubkeyAll root path =>
      obtain ⟨rfl, rfl⟩ := h
      rw [Machine.registry_serve_deleteSubkeyAll, Registry.deleteSubkeyAll,
        if_neg (not_or.mpr ⟨hpath, not_isBelow other id⟩)]

theorem Machine.user_serve_of_isReading {request : CliCall} (h : request.IsReading) (machine : Machine) :
    (Machine.serve request machine).2.user = machine.user := by
  change (machine.change request).user = machine.user
  rw [Machine.change_of_isReading h]

variable {tool : Tool} {user : Hive} {argument : String}

/-- The distribution has been found under the name it was asked for by. -/
def Machine.Found (machine : Machine) (tool : Tool) (argument : String) (id : Uuid) : Prop :=
  ∃ name, machine.Names tool id name ∧ eqIgnoreAsciiCase name argument = true

theorem Machine.Found.serve {id : Uuid} (h : machine.Found tool argument id) (request : CliCall) :
    (Machine.serve request machine).2.Found tool argument id := by
  obtain ⟨name, hnames, hname⟩ := h
  exact ⟨name, hnames.serve request, hname⟩

/-- No flag differs from what it was but that of the given distribution. -/
def Spares (user : Hive) (id : Uuid) (machine : Machine) : Prop :=
  ∀ other, other ≠ id →
    machine.user.registry (distributionRegistryPath other) = user.registry (distributionRegistryPath other)

/-- No flag differs from what it was but that of one distribution, which was asked for. -/
def TouchesOne (tool : Tool) (user : Hive) (argument : String) (machine : Machine) : Prop :=
  ∃ id, Spares user id machine ∧
    (machine.user.registry (distributionRegistryPath id) ≠ user.registry (distributionRegistryPath id) →
      machine.Found tool argument id)

theorem spares_of_user (h : machine.user = user) (id : Uuid) : Spares user id machine :=
  fun _ _ => by rw [h]

theorem touchesOne_of_user (h : machine.user = user) : TouchesOne tool user argument machine :=
  ⟨⟨0⟩, spares_of_user h _, fun hchanged => absurd (by rw [h]) hchanged⟩

theorem Spares.serve {request : CliCall} {id : Uuid} (hrequest : request.Concerns id) (h : Spares user id machine) :
    Spares user id (Machine.serve request machine).2 := fun other hne =>
  (Machine.registry_serve_of_concerns hrequest hne machine).trans (h other hne)

theorem steady_user (fact : Hive → Prop) : Steady fun machine => fact machine.user := by
  intro request hreading machine h
  rw [Machine.user_serve_of_isReading hreading]
  exact h

theorem found_findDistribution :
    Triple Machine.serve (TouchesOne tool user argument) (fun machine => machine.user = user)
      (findDistribution tool argument)
      fun distribution machine => machine.user = user ∧ machine.Found tool argument distribution.id :=
  ((names_findDistribution (steady_user (· = user)) argument).mono (fun _ h => h)
    fun distribution _ h => ⟨distribution.name, h⟩).strengthen (fun _ => touchesOne_of_user) fun _ _ h => ⟨h, h⟩

theorem keep_found {α : Type} {action : CliAction α} (h : Quiet action) (id : Uuid) :
    Triple Machine.serve (TouchesOne tool user argument)
      (fun machine => machine.user = user ∧ machine.Found tool argument id) action
      fun _ machine => machine.user = user ∧ machine.Found tool argument id :=
  ((steady_user (· = user)).keep (fun request _ hfound => hfound.serve request) h).strengthen
    (fun _ => touchesOne_of_user) fun _ _ h => h

/-- A call about the flag of the distribution that was found. -/
theorem triple_concerning (request : CliCall) {id : Uuid} (hrequest : request.Concerns id) {pre : Machine → Prop}
    {post : CliReply request → Machine → Prop}
    (h : ∀ machine, pre machine → (Spares user id machine ∧ machine.Found tool argument id) ∧
      post (Machine.serve request machine).1 (Machine.serve request machine).2) :
    Triple Machine.serve (TouchesOne tool user argument) pre (call request)
      fun reply machine => (Spares user id machine ∧ machine.Found tool argument id) ∧ post reply machine := by
  refine Triple.perform fun machine _ hpre => ?_
  obtain ⟨⟨hspares, hfound⟩, hpost⟩ := h machine hpre
  have hserved := hfound.serve request
  exact ⟨⟨id, hspares.serve hrequest, fun _ => hserved⟩, ⟨hspares.serve hrequest, hserved⟩, hpost⟩

theorem turned_setEnabled_true (id : Uuid) :
    Triple Machine.serve (TouchesOne tool user argument)
      (fun machine => Spares user id machine ∧ machine.Found tool argument id) (setEnabled id true)
      fun _ machine => (Spares user id machine ∧ machine.Found tool argument id) ∧
        machine.user.value (distributionRegistryPath id) distributionEnablementValue = some flagValue := by
  have hcreate : Triple Machine.serve (TouchesOne tool user argument)
      (fun machine => Spares user id machine ∧ machine.Found tool argument id)
      (createSubkey .currentUser (distributionRegistryPath id))
      fun _ machine => (Spares user id machine ∧ machine.Found tool argument id) ∧
        (machine.user.registry (distributionRegistryPath id)).isSome := by
    refine triple_concerning (.createSubkey _ _) ⟨rfl, rfl⟩ fun machine hready => ⟨hready, ?_⟩
    rw [Machine.registry_serve_createSubkey, Registry.createSubkey, if_pos (.inl rfl)]
    rfl
  refine (Triple.mapError hcreate).bind fun _ => Triple.mapError
    (triple_concerning (.setValue _ _ _ _) ⟨rfl, rfl⟩ fun machine hready => ⟨hready.1, ?_⟩)
  have hvalue := Hive.value_setValue machine.user (distributionRegistryPath id) distributionEnablementValue
    (distributionRegistryPath id) distributionEnablementValue flagValue
  rw [if_pos ⟨rfl, rfl, hready.2⟩] at hvalue
  exact hvalue

theorem turned_setEnabled_false (id : Uuid) :
    Triple Machine.serve (TouchesOne tool user argument)
      (fun machine => Spares user id machine ∧ machine.Found tool argument id) (setEnabled id false)
      fun _ machine => (Spares user id machine ∧ machine.Found tool argument id) ∧
        machine.user.registry (distributionRegistryPath id) = none := by
  refine Triple.mapError
    (triple_concerning (.deleteSubkeyAll _ _) ⟨rfl, rfl⟩ fun machine hready => ⟨hready, ?_⟩)
  rw [Machine.registry_serve_deleteSubkeyAll, Registry.deleteSubkeyAll, if_pos (.inl rfl)]

theorem turned_distroEnable (arguments : DistroEnableArguments) :
    Triple Machine.serve (TouchesOne tool user arguments.name) (fun machine => machine.user = user)
      (distroEnable tool arguments) fun _ machine => ∃ id, (Spares user id machine ∧
        machine.Found tool arguments.name id) ∧
        machine.user.value (distributionRegistryPath id) distributionEnablementValue = some flagValue := by
  refine found_findDistribution.bind fun distribution => ?_
  refine (keep_found (quiet_provisionDistribution tool distribution arguments) _).bind fun _ => ?_
  exact (turned_setEnabled_true distribution.id).mono (fun _ h => ⟨spares_of_user h.1 _, h.2⟩) fun _ _ h => ⟨_, h⟩

theorem turned_distroDisable (name : String) :
    Triple Machine.serve (TouchesOne tool user name) (fun machine => machine.user = user)
      (distroDisable tool name) fun _ machine => ∃ id, (Spares user id machine ∧ machine.Found tool name id) ∧
        machine.user.registry (distributionRegistryPath id) = none := by
  refine found_findDistribution.bind fun distribution => ?_
  refine (keep_found (quiet_besideTool _) _).bind fun payloadRoot => ?_
  refine (keep_found (quiet_isThere _ _).optional _).bind fun hasPayload => ?_
  have hoff : Triple Machine.serve (TouchesOne tool user name)
      (fun machine => machine.user = user ∧ machine.Found tool name distribution.id) (setEnabled distribution.id false)
      fun _ machine => ∃ id, (Spares user id machine ∧ machine.Found tool name id) ∧
        machine.user.registry (distributionRegistryPath id) = none :=
    (turned_setEnabled_false distribution.id).mono (fun _ h => ⟨spares_of_user h.1 _, h.2⟩) fun _ _ h => ⟨_, h⟩
  split_ifs
  · exact (keep_found (quiet_disableDistroWithPayload tool distribution payloadRoot) _).bind fun _ => hoff
  · exact (keep_found (quiet_disableDistroWithInstalledHelper distribution) _).bind fun _ => hoff

/-- The name of the distribution whose flag a command turns, and how. -/
def Command.turns : Command → Option (String × Bool)
  | .distroEnable arguments => some (arguments.name, true)
  | .distroDisable name => some (name, false)
  | .pluginInstall _ | .pluginUninstall _ | .distroRefresh _ | .uninstall _ | .upgrade _ => none

theorem turned_command (tool : Tool) (user : Hive) {command : Command} {enabled : Bool}
    (h : command.turns = some (argument, enabled)) :
    Triple Machine.serve (TouchesOne tool user argument) (fun machine => machine.user = user)
      (command.action tool) fun _ machine => ∃ id, (Spares user id machine ∧ machine.Found tool argument id) ∧
        ∀ guid : Guid, guid.toUuid = id → Plugin.read machine.user.registry guid = ⟨enabled, Plugin.sOk⟩ := by
  cases command with
  | pluginInstall | pluginUninstall | distroRefresh | uninstall | upgrade => cases h
  | distroEnable arguments =>
      cases h
      refine (turned_distroEnable arguments).mono (fun _ h => h) fun _ machine hturned => ?_
      obtain ⟨id, hfound, hvalue⟩ := hturned
      exact ⟨id, hfound, fun guid hguid => read_of_value (hguid ▸ hvalue)⟩
  | distroDisable name =>
      cases h
      refine (turned_distroDisable _).mono (fun _ h => h) fun _ machine hturned => ?_
      obtain ⟨id, hfound, hvalue⟩ := hturned
      refine ⟨id, hfound, fun guid hguid => ?_⟩
      subst hguid
      rw [Plugin.read, Plugin.distributionRegistryPath_eq, hvalue]

/-- The commands for the machine, a refresh and a removal that keeps the distributions leave the flags alone. -/
theorem user_of_other_command (tool : Tool) {command : Command} (hturns : command.turns = none)
    (hclears : command ≠ .uninstall false) (user : Hive) :
    Triple Machine.serve (fun machine => machine.user = user) (fun _ => True) (command.action tool)
      fun _ _ => True := by
  let P (request : CliCall) : Prop := ∀ machine, (Machine.serve request machine).2.user = machine.user
  have hserve : ∀ request, P request → ∀ machine : Machine, machine.user = user →
      (Machine.serve request machine).2.user = user := fun _ hrequest machine h => (hrequest machine).trans h
  have hreading : ∀ request : CliCall, request.IsReading → P request := fun _ h machine =>
    Machine.user_serve_of_isReading h machine
  cases command with
  | distroEnable | distroDisable => cases hturns
  | pluginInstall arguments =>
      exact Triple.of_calls hserve (calls_pluginInstall tool hreading arguments (fun _ => rfl) fun _ _ => rfl)
  | pluginUninstall arguments =>
      exact Triple.of_calls hserve (calls_pluginUninstall tool hreading arguments fun _ => rfl)
  | distroRefresh arguments =>
      exact Triple.of_calls hserve ((reading_distroRefresh tool arguments).calls hreading)
  | uninstall keep =>
      exact Triple.of_calls hserve (calls_uninstall tool hreading keep (fun _ _ _ => rfl) fun hkeep =>
        absurd (congrArg Command.uninstall hkeep) hclears)
  | upgrade includePrerelease =>
      exact Triple.of_calls hserve (calls_upgrade tool (fun request h => hreading request h.isReading)
        (fun _ _ _ => rfl) includePrerelease)

theorem read_congr {registry registry' : Registry} {guid : Guid}
    (h : registry (distributionRegistryPath guid.toUuid) = registry' (distributionRegistryPath guid.toUuid)) :
    Plugin.read registry guid = Plugin.read registry' guid := by
  rw [Plugin.read, Plugin.read, Plugin.distributionRegistryPath_eq, h]

theorem eq_of_read_ne {id : Uuid} {guid : Guid} (h : Spares user id machine)
    (hread : Plugin.read machine.user.registry guid ≠ Plugin.read user.registry guid) : guid.toUuid = id := by
  by_contra hne
  exact hread (read_congr (h _ hne))

/-- Wherever a command is stopped, no distribution has another answer from the plugin than before, but for the one
that an enabling or a disabling was asked for, as the registry named it during the command; a removal that cleans up
is apart. And when an enabling or a disabling has succeeded, the next start of the distribution it was asked for does
or does not start the refresh unit in it, and every other distribution has the answer it had. -/
theorem distro_commands_turn_one_flag (tool : Tool) (machine : Machine) (command : Command) (fates : Fates String) :
    (∀ seen ∈ visited Machine.serve (command.action tool) fates machine, ∀ guid : Guid,
      Plugin.read seen.user.registry guid ≠ Plugin.read machine.user.registry guid →
        command = .uninstall false ∨ ∃ argument enabled, command.turns = some (argument, enabled) ∧
          (seen.since machine.log.length).Found tool argument guid.toUuid ∧
          ∀ other : Guid, Plugin.read seen.user.registry other ≠ Plugin.read machine.user.registry other →
            other.toUuid = guid.toUuid) ∧
    ∀ argument enabled, command.turns = some (argument, enabled) →
      (Action.execute Machine.serve (command.action tool) fates machine).outcome = .returned (.ok ()) →
        ∃ guid : Guid,
          ((command.after tool fates machine).since machine.log.length).Found tool argument guid.toUuid ∧
          (∀ session result, Plugin.launchesOf (Plugin.handleDistributionStarted
            ⟨some session, some guid, none, false, some (some result)⟩
            (command.after tool fates machine).user.registry) = if enabled then [guid] else []) ∧
          ∀ other : Guid, Plugin.read (command.after tool fates machine).user.registry other ≠
            Plugin.read machine.user.registry other → other.toUuid = guid.toUuid := by
  have hstart : ∀ argument, TouchesOne tool machine.user argument (machine.since machine.log.length) :=
    fun _ => touchesOne_of_user rfl
  refine ⟨fun seen hseen guid hread => ?_, fun argument enabled hturns hok => ?_⟩
  · cases hturns : command.turns with
    | some turned =>
        obtain ⟨argument, enabled⟩ := turned
        have htriple := triple_since machine.log.length (turned_command tool machine.user hturns)
        obtain ⟨-, id, hspares, hfound⟩ :=
          htriple.invariant_of_visited ⟨le_rfl, hstart argument⟩ rfl fates seen hseen
        obtain rfl := eq_of_read_ne hspares hread
        exact .inr ⟨argument, enabled, rfl, hfound fun hsame => hread (read_congr hsame),
          fun other hother => eq_of_read_ne hspares hother⟩
    | none =>
        by_cases hclears : command = .uninstall false
        · exact .inl hclears
        · have hkept := (user_of_other_command tool hturns hclears machine.user).invariant_of_visited rfl
            trivial fates seen hseen
          exact absurd (by rw [hkept]) hread
  · have htriple := triple_since machine.log.length (turned_command tool machine.user hturns)
    obtain ⟨id, ⟨hspares, hfound⟩, hflag⟩ := htriple.post_of_execute ⟨le_rfl, hstart argument⟩ rfl hok
    obtain ⟨guid, rfl⟩ := Guid.toUuid_surjective id
    exact ⟨guid, hfound, fun session result =>
      Plugin.launchesOf_handleDistributionStarted rfl rfl rfl rfl rfl (hflag guid rfl),
      fun other hother => eq_of_read_ne hspares hother⟩

theorem enabling_turns_the_flag :
    ∃ guid : Guid, (sampleEnabled.since 0).Found sampleTool "ubuntu" guid.toUuid ∧
      (∀ session result, Plugin.launchesOf (Plugin.handleDistributionStarted
        ⟨some session, some guid, none, false, some (some result)⟩ sampleEnabled.user.registry) = [guid]) ∧
      ∀ other : Guid, Plugin.read sampleEnabled.user.registry other ≠ Plugin.read sampleMachine.user.registry other →
        other.toUuid = guid.toUuid :=
  (distro_commands_turn_one_flag sampleTool sampleMachine sampleEnable undisturbed).2 "ubuntu" true rfl
    run_sampleMachine.1

end Cli

end WincredLibsecret
