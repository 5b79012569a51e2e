import WincredLibsecret.CliSwitch

/-! How the provider is taken off again. A flag goes only after the files of the provider have gone from its
distribution, or where the registry knows no distribution for it any more; and a removal that has come to its end
leaves no flag. -/

namespace WincredLibsecret.Cli

open Effect Effect.Action

variable {tool : Tool} {inv pre : Machine → Prop}

/-- The bootstrap script or the installed helper has taken the provider off the distribution, or there was no
helper. -/
def Machine.Removed (machine : Machine) (name : String) : Prop :=
  (∃ (source : String) (result : ProcessResult), machine.Told (.ask (.output "wsl.exe" (rootArguments name
    [s!"{source}/{linuxBootstrap}", "--disable"]))) result ∧ result.success = true) ∨
  (∃ result : ProcessResult, machine.Told (.ask (.output "wsl.exe" (rootArguments name
    [linuxStatusHelper, "--disable"]))) result ∧ result.success = true) ∨
  ∃ check : ProcessResult, machine.Told (.ask (.output "wsl.exe" (rootArguments name
    ["/usr/bin/test", "-x", linuxStatusHelper]))) check ∧ check.success = false ∧
      trimText check.stdout = "" ∧ trimText check.stderr = ""

variable {machine : Machine} {id : Uuid} {request : CliCall}

theorem Machine.Removed.serve {name : String} (h : machine.Removed name) (request : CliCall) :
    (Machine.serve request machine).2.Removed name := by
  rcases h with ⟨source, result, htold, hresult⟩ | ⟨result, htold, hresult⟩ | ⟨check, htold, hcheck⟩
  · exact .inl ⟨source, result, htold.serve request, hresult⟩
  · exact .inr (.inl ⟨result, htold.serve request, hresult⟩)
  · exact .inr (.inr ⟨check, htold.serve request, hcheck⟩)

theorem told_runWslRoot (hinv : Steady inv) (distribution : String) (arguments : List String) :
    Triple Machine.serve inv pre (runWslRoot distribution arguments) fun result machine =>
      machine.Told (.ask (.output "wsl.exe" (rootArguments distribution arguments))) result :=
  Triple.mapError (hinv.call trivial)

theorem removed_disableDistroWithPayload (hinv : Steady inv) (distribution : Distribution) (root : String) :
    Triple Machine.serve inv pre (disableDistroWithPayload tool distribution root)
      fun _ machine => machine.Removed distribution.name := by
  refine (hinv.triple (quiet_absoluteExisting _ _ _)).bind fun payloadRoot => ?_
  refine (hinv.triple (quiet_checkPayload tool _)).bind fun _ => ?_
  refine (hinv.triple (quiet_wslPath _ _)).bind fun source => ?_
  refine (told_runWslRoot hinv distribution.name _).bind fun result => ?_
  exact triple_ensure.mono (fun _ h => h) fun _ machine h => .inl ⟨source, result, h⟩

theorem removed_disableDistroWithInstalledHelper (hinv : Steady inv) (distribution : Distribution) :
    Triple Machine.serve inv pre (disableDistroWithInstalledHelper distribution)
      fun _ machine => machine.Removed distribution.name := by
  refine (told_runWslRoot hinv distribution.name _).bind fun check => ?_
  split_ifs with hcheck
  · refine (told_runWslRoot hinv distribution.name _).bind fun result => ?_
    exact triple_ensure.mono (fun _ h => h) fun _ machine h => .inr (.inl ⟨result, h⟩)
  · refine triple_ensure.mono (fun _ h => h) fun _ machine h => .inr (.inr ⟨check, h.1, by simpa using hcheck, ?_⟩)
    simpa using h.2

/-- The provider is off a distribution that the registry has named. -/
def Machine.Released (machine : Machine) (tool : Tool) (id : Uuid) : Prop :=
  ∃ name, machine.Names tool id name ∧ machine.Removed name

theorem Machine.Released.serve (h : machine.Released tool id) (request : CliCall) :
    (Machine.serve request machine).2.Released tool id := by
  obtain ⟨name, hnames, hremoved⟩ := h
  exact ⟨name, hnames.serve request, hremoved.serve request⟩

/-- Every flag that was there still is, or the provider is off its distribution. -/
def Kept (tool : Tool) (flags : Uuid → Prop) (machine : Machine) : Prop :=
  ∀ id, flags id → machine.Flagged id ∨ machine.Released tool id

/-- The provider is off the distribution, or the registry has named no such distribution. -/
def Machine.Gone (machine : Machine) (tool : Tool) (id : Uuid) : Prop :=
  machine.Released tool id ∨ ¬ ∃ name, machine.Names tool id name

/-- Every flag that was there still is, or there is nothing for it any more. -/
def KeptOrGone (tool : Tool) (flags : Uuid → Prop) (machine : Machine) : Prop :=
  ∀ id, flags id → machine.Flagged id ∨ machine.Gone tool id

variable {flags : Uuid → Prop}

theorem Kept.keptOrGone (h : Kept tool flags machine) : KeptOrGone tool flags machine :=
  fun id hid => (h id hid).imp (fun h => h) .inl

theorem Machine.Flagged.serve_of_user (h : machine.Flagged id)
    (huser : (Machine.serve request machine).2.user = machine.user) : (Machine.serve request machine).2.Flagged id := by
  rw [Machine.Flagged, huser]
  exact h

theorem Machine.Flagged.serve_of_concerns {other : Uuid} (h : machine.Flagged other) (hrequest : request.Concerns id)
    (hne : other ≠ id) : (Machine.serve request machine).2.Flagged other := by
  rw [Machine.Flagged, Hive.value, Machine.registry_serve_of_concerns hrequest hne]
  exact h

theorem steady_kept : Steady (Kept tool flags) := fun request hreading _ h id hid =>
  (h id hid).imp (fun hflagged => hflagged.serve_of_user (Machine.user_serve_of_isReading hreading _))
    fun hreleased => hreleased.serve request

theorem Kept.serve (h : Kept tool flags machine) (hrequest : request.Concerns id)
    (hreleased : machine.Released tool id) : Kept tool flags (Machine.serve request machine).2 := by
  intro other hother
  by_cases hsame : other = id
  · subst hsame
    exact .inr (hreleased.serve request)
  · exact (h other hother).imp (fun hflagged => hflagged.serve_of_concerns hrequest hsame) fun h => h.serve request

theorem released_setEnabled (id : Uuid) :
    Triple Machine.serve (Kept tool flags) (fun machine => machine.Released tool id) (setEnabled id false)
      fun _ machine => machine.Released tool id :=
  Triple.mapError (Triple.perform fun _ hkept hreleased =>
    ⟨hkept.serve ⟨rfl, rfl⟩ hreleased, hreleased.serve _⟩)

theorem keep_names {α : Type} {action : CliAction α} (h : Quiet action) (id : Uuid) (name : String) :
    Triple Machine.serve (Kept tool flags) (fun machine => machine.Names tool id name) action
      fun _ machine => machine.Names tool id name :=
  steady_kept.keep (fun request _ hnames => hnames.serve request) h

theorem released_disableDistroWithPayload (distribution : Distribution) (root : String) :
    Triple Machine.serve (Kept tool flags)
      (fun machine => machine.Names tool distribution.id distribution.name)
      (disableDistroWithPayload tool distribution root) fun _ machine => machine.Released tool distribution.id :=
  ((removed_disableDistroWithPayload steady_kept distribution root).frame_always
    fun request _ (hnames : Machine.Names _ tool distribution.id distribution.name) => hnames.serve request).mono
      (fun _ h => ⟨trivial, h⟩) fun _ _ h => ⟨distribution.name, h.2, h.1⟩

theorem released_disableDistroWithInstalledHelper (distribution : Distribution) :
    Triple Machine.serve (Kept tool flags)
      (fun machine => machine.Names tool distribution.id distribution.name)
      (disableDistroWithInstalledHelper distribution) fun _ machine => machine.Released tool distribution.id :=
  ((removed_disableDistroWithInstalledHelper steady_kept distribution).frame_always
    fun request _ (hnames : Machine.Names _ tool distribution.id distribution.name) => hnames.serve request).mono
      (fun _ h => ⟨trivial, h⟩) fun _ _ h => ⟨distribution.name, h.2, h.1⟩

theorem kept_distroDisable (name : String) :
    Triple Machine.serve (Kept tool flags) (fun _ => True) (distroDisable tool name) fun _ _ => True := by
  have hfind : Triple Machine.serve (Kept tool flags) (fun _ => True) (findDistribution tool name)
      fun distribution machine => machine.Names tool distribution.id distribution.name :=
    (names_findDistribution steady_kept name).mono (fun _ h => h) fun _ _ h => h.1
  refine hfind.bind fun distribution => ?_
  refine (keep_names (quiet_besideTool _) _ _).bind fun payloadRoot => ?_
  refine (keep_names (quiet_isThere _ _).optional _ _).bind fun hasPayload => ?_
  have hoff : Triple Machine.serve (Kept tool flags) (fun machine => machine.Released tool distribution.id)
      (setEnabled distribution.id false) fun _ _ => True :=
    (released_setEnabled distribution.id).mono (fun _ h => h) fun _ _ _ => trivial
  split_ifs
  · exact (released_disableDistroWithPayload distribution payloadRoot).bind fun _ => hoff
  · exact (released_disableDistroWithInstalledHelper distribution).bind fun _ => hoff

/-! ### Every distribution that was named has been found -/

/-- The call asks for the name of a distribution. -/
def CliCall.AsksName (request : CliCall) : Prop :=
  ∃ key, request = .getValue .currentUser (lxssPath ++ "\\" ++ key) "DistributionName"

theorem Machine.told_of_serve {other : CliCall} {reply : CliReply other}
    (h : (Machine.serve request machine).2.Told other reply) (hne : request ≠ other) : machine.Told other reply := by
  rcases List.mem_append.mp h with hold | hnew
  · exact hold
  · cases List.mem_singleton.mp hnew
    exact absurd rfl hne

theorem Machine.names_of_serve {name : String} (h : (Machine.serve request machine).2.Names tool id name)
    (hrequest : ¬ request.AsksName) : machine.Names tool id name := by
  obtain ⟨key, value, htold, hname⟩ := h
  exact ⟨key, value, Machine.told_of_serve htold fun heq => hrequest ⟨key, heq⟩, hname⟩

/-- The distributions that have been named are among the given ones. -/
def Known (tool : Tool) (known : Uuid → String → Prop) (machine : Machine) : Prop :=
  ∀ id name, machine.Names tool id name → known id name

variable {known : Uuid → String → Prop}

theorem Known.serve (hrequest : ¬ request.AsksName) (h : Known tool known machine) :
    Known tool known (Machine.serve request machine).2 :=
  fun id name hnames => h id name (Machine.names_of_serve hnames hrequest)

theorem CliCall.IsQuiet.not_asksName (h : request.IsQuiet) : ¬ request.AsksName := by
  rintro ⟨key, rfl⟩
  exact h rfl

theorem keep_known {α : Type} (hinv : Steady inv) {action : CliAction α} (h : Quiet action) :
    Triple Machine.serve inv (Known tool known) action fun _ => Known tool known :=
  ((hinv.triple h).frame (fun _ hrequest _ => Known.serve (CliCall.IsQuiet.not_asksName hrequest)) h).mono
    (fun _ h => ⟨trivial, h⟩) fun _ _ h => h.2

/-- Asking for a name makes known at most the distribution of the key. -/
theorem known_askName (hinv : Steady inv) (key : String) :
    Triple Machine.serve inv (Known tool known)
      (optional (getValue .currentUser (lxssPath ++ "\\" ++ key) "DistributionName")) fun found =>
        Known tool fun id name => known id name ∨ ∃ value, found = some (some value) ∧
          tool.readString value = some name ∧ Uuid.parseStr (trimBraces key) = some id := by
  have hattempt : Triple Machine.serve inv (Known tool known)
      (getValue .currentUser (lxssPath ++ "\\" ++ key) "DistributionName").attempt fun result =>
        Known tool fun id name => known id name ∨ ∃ value, result = .ok (some value) ∧
          tool.readString value = some name ∧ Uuid.parseStr (trimBraces key) = some id := by
    refine Triple.attempt_perform (fun machine hmachine hknown =>
      ⟨hinv (.getValue _ _ _) trivial machine hmachine, ?_⟩) ?_
    · rintro id name ⟨other, value, htold, hname, hid⟩
      rcases List.mem_append.mp htold with hold | hnew
      · exact .inl (hknown id name ⟨other, value, hold, hname, hid⟩)
      · have hpair := List.mem_singleton.mp hnew
        have hrequest : CliCall.getValue .currentUser (lxssPath ++ "\\" ++ other) "DistributionName" =
            CliCall.getValue .currentUser (lxssPath ++ "\\" ++ key) "DistributionName" := congrArg Sigma.fst hpair
        have hkey : other = key := (String.append_right_inj _).mp (CliCall.getValue.inj hrequest).2.1
        subst hkey
        have hreply := eq_of_heq (Sigma.mk.inj hpair).2
        exact .inr ⟨value, congrArg Except.ok hreply.symm, hname, hid⟩
    · exact fun error machine hknown id name hnames => .inl (hknown id name hnames)
  refine hattempt.bind fun result => Triple.pure fun machine hknown id name hnames => ?_
  refine (hknown id name hnames).imp_right fun hfound => ?_
  obtain ⟨value, rfl, hvalue⟩ := hfound
  exact ⟨value, rfl, hvalue⟩

theorem known_distributionOf (hinv : Steady inv) (key : String) :
    Triple Machine.serve inv (Known tool known) (distributionOf tool key) fun found =>
      Known tool fun id name => known id name ∨ ∃ distribution, found = some distribution ∧
        distribution.id = id ∧ distribution.name = name := by
  have hnone : Triple Machine.serve inv (Known tool known) (pure none : CliAction (Option Distribution))
      fun found => Known tool fun id name => known id name ∨ ∃ distribution, found = some distribution ∧
        distribution.id = id ∧ distribution.name = name :=
    Triple.pure fun _ hknown id name hnames => .inl (hknown id name hnames)
  refine (keep_known hinv (quiet_keyName _ _ _).optional).bind fun reached => ?_
  split
  · rename_i id hreached hid
    refine (keep_known hinv (quiet_openKey _ _).optional).bind fun opened => ?_
    split
    · refine (known_askName hinv key).bind fun found => ?_
      split
      · rename_i hname
        refine Triple.pure fun machine hknown id' name hnames => ?_
        rcases hknown id' name hnames with hold | ⟨value, rfl, hvalue, -⟩
        · exact .inl hold
        · exact absurd (hvalue.symm.trans hname) (by simp)
      · rename_i name hname
        refine (keep_known hinv (quiet_getValue _ _ (by decide)).optional).bind fun version => ?_
        refine Triple.pure fun machine hknown id' name' hnames => ?_
        refine (hknown id' name' hnames).imp_right fun hfound => ⟨_, rfl, ?_⟩
        obtain ⟨value, rfl, hvalue, hid'⟩ := hfound
        exact ⟨Option.some.inj (hid.symm.trans hid'), Option.some.inj (hname.symm.trans hvalue)⟩
    · exact hnone
  · exact hnone

theorem known_distributionsOf (hinv : Steady inv) (keys : List String) :
    Triple Machine.serve inv (Known tool known) (distributionsOf tool keys) fun found =>
      Known tool fun id name => known id name ∨ ∃ distribution ∈ found, distribution.id = id ∧
        distribution.name = name := by
  induction keys generalizing known with
  | nil => exact Triple.pure fun _ hknown id name hnames => .inl (hknown id name hnames)
  | cons key keys ih =>
      refine (known_distributionOf hinv key).bind fun found => ih.bind fun others =>
        Triple.pure fun machine hknown id name hnames => ?_
      rcases hknown id name hnames with (hold | ⟨distribution, rfl, hsame⟩) | ⟨distribution, hmem, hsame⟩
      · exact .inl hold
      · exact .inr ⟨distribution, List.mem_append_left _ (List.mem_singleton_self _), hsame⟩
      · exact .inr ⟨distribution, List.mem_append_right _ hmem, hsame⟩

/-- A distribution that was named is among those that were found, unless it was known before. -/
theorem known_enumerateDistributions (hinv : Steady inv) :
    Triple Machine.serve inv (Known tool known) (enumerateDistributions tool) fun found =>
      Known tool fun id name => known id name ∨ ∃ distribution ∈ found, distribution.id = id ∧
        distribution.name = name := by
  refine (keep_known hinv ((quiet_openKey _ _).context _)).bind fun opened => ?_
  split
  · refine (keep_known hinv (quiet_runProcess _ _).optional).bind fun _ => ?_
    refine (keep_known hinv (quiet_enumKeys _ _).optional).bind fun keys => ?_
    refine (known_distributionsOf hinv _).bind fun found =>
      Triple.pure fun machine hknown id name hnames => (hknown id name hnames).imp_right fun hfound => ?_
    obtain ⟨distribution, hmem, hsame⟩ := hfound
    exact ⟨distribution, (List.mem_insertionSort _).mpr hmem, hsame⟩
  · exact Triple.pure fun _ hknown id name hnames => .inl (hknown id name hnames)

/-! ### Every flag has been found -/

theorem toList_distributionsPath : distributionsPath.toList ++ ['\\'] = distributionEnablementPrefix.toList := by
  decide +kernel

theorem isBelow_distributionsPath (id : Uuid) : Registry.IsBelow (distributionRegistryPath id) distributionsPath := by
  rw [Registry.IsBelow, toList_distributionsPath, toList_distributionRegistryPath]
  exact List.prefix_append _ _

/-- The name of the key of a flag. -/
def flagKey (id : Uuid) : String := "\x7b" ++ id.toString ++ "\x7d"

theorem exists_digitChar_of_mem {width n : Nat} {c : Char} (h : c ∈ TextCodec.hexDigits width n) :
    ∃ digit < 16, c = Nat.digitChar digit := by
  induction width generalizing n with
  | zero => cases h
  | succ width ih =>
      rcases List.mem_append.mp h with hfirst | hlast
      · exact ih hfirst
      · exact ⟨n % 16, Nat.mod_lt _ (by decide), List.mem_singleton.mp hlast⟩

/-- Only digits and hyphens stand in an identifier. -/
theorem notMem_toString {mark : Char} (hdash : mark ≠ '-') (hdigit : ∀ digit < 16, mark ≠ Nat.digitChar digit)
    (id : Uuid) : mark ∉ id.toString.toList := by
  rw [Uuid.toString, String.toList_ofList, Uuid.hyphenated]
  intro hmem
  rcases TextCodec.mem_intercalate hmem with rfl | ⟨group, hgroup, hmark⟩
  · exact hdash rfl
  · obtain ⟨digit, hlt, heq⟩ := exists_digitChar_of_mem (Uuid.mem_digits_of_mem_groups hgroup hmark)
    exact hdigit digit hlt heq

theorem trim_between {p : Char → Bool} {first last : Char} {text : List Char} (hfirst : p first = true)
    (hlast : p last = true) (htext : ∀ c ∈ text, ¬ p c = true) (hne : text ≠ []) :
    ((first :: (text ++ [last])).dropWhile p).rdropWhile p = text := by
  obtain ⟨head, tail, rfl⟩ := List.exists_cons_of_ne_nil hne
  rw [List.dropWhile_cons_of_pos hfirst, List.cons_append, List.dropWhile_cons_of_neg (htext head List.mem_cons_self),
    ← List.cons_append, List.rdropWhile_concat_pos _ _ _ hlast]
  exact List.rdropWhile_eq_self_iff.mpr fun hl => htext _ (List.getLast_mem hl)

theorem trimBraces_flagKey (id : Uuid) : trimBraces (flagKey id) = id.toString := by
  have hbrace : ∀ c ∈ id.toString.toList, ¬ (c == '\x7b' || c == '\x7d') = true := by
    intro c hc hbrace
    rcases Bool.or_eq_true_iff.mp hbrace with hopen | hclose
    · rw [eq_of_beq hopen] at hc
      exact notMem_toString (by decide) (by decide) id hc
    · rw [eq_of_beq hclose] at hc
      exact notMem_toString (by decide) (by decide) id hc
  have hlist : (flagKey id).toList = '\x7b' :: (id.toString.toList ++ ['\x7d']) := by
    simp [flagKey, String.toList_append]
  have hne : id.toString.toList ≠ [] := by
    rw [Uuid.toString, String.toList_ofList, ← List.length_pos_iff, Uuid.length_hyphenated]
    decide
  rw [trimBraces, hlist]
  exact (congrArg String.ofList (trim_between rfl rfl hbrace hne)).trans String.ofList_toList

theorem childName_append (path : String) {name : String} (hne : name.toList ≠ []) (hslash : '\\' ∉ name.toList) :
    Hive.childName path (path ++ "\\" ++ name) = some name := by
  have hkey : (path ++ "\\" ++ name).toList = (path.toList ++ ['\\']) ++ name.toList := by
    rw [String.toList_append, String.toList_append]
    rfl
  have hdrop : (path ++ "\\" ++ name).toList.drop (path.toList.length + 1) = name.toList := by
    rw [hkey]
    exact List.drop_left' (by simp)
  rw [Hive.childName, hdrop, hkey, if_pos ⟨List.prefix_append _ _, hne, hslash⟩, String.ofList_toList]

theorem distributionRegistryPath_eq_append (id : Uuid) :
    distributionRegistryPath id = distributionsPath ++ "\\" ++ flagKey id := by
  apply String.toList_injective
  rw [String.toList_append, String.toList_append, toList_distributionRegistryPath, ← toList_distributionsPath]
  simp [flagKey, String.toList_append]

theorem flagKey_mem_subkeys {hive : Hive} (h : (hive.registry (distributionRegistryPath id)).isSome) :
    flagKey id ∈ hive.subkeys distributionsPath := by
  rw [Hive.subkeys, List.mem_dedup, List.mem_filterMap]
  refine ⟨distributionRegistryPath id, hive.covers _ h, ?_⟩
  rw [if_pos h, distributionRegistryPath_eq_append]
  have hslash : '\\' ∉ id.toString.toList := notMem_toString (by decide) (by decide) id
  exact childName_append _ (by simp [flagKey, String.toList_append]) (by simp [flagKey, String.toList_append, hslash])

theorem reads_openKey (hinv : Steady inv) (path : String) :
    Triple Machine.serve inv pre (openKey .currentUser path)
      fun opened machine => opened = (machine.user.registry path).isSome :=
  Triple.perform fun machine hmachine _ => ⟨hinv (.openKey _ _) trivial machine hmachine, rfl⟩

theorem reads_enumKeys (hinv : Steady inv) (path : String) :
    Triple Machine.serve inv pre (enumKeys .currentUser path)
      fun keys machine => keys = machine.user.subkeys path :=
  Triple.perform fun machine hmachine _ => ⟨hinv (.enumKeys _ _) trivial machine hmachine, rfl⟩

theorem reads_idsOfKeys (hinv : Steady inv) (keys : List String) :
    Triple Machine.serve inv pre (idsOfKeys tool keys)
      fun ids _ => ∀ key ∈ keys, ∃ id ∈ ids, Uuid.parseStr (trimBraces key) = some id := by
  induction keys generalizing pre with
  | nil => exact Triple.pure fun _ _ => List.forall_mem_nil _
  | cons key keys ih =>
      have hid : Triple Machine.serve inv pre (idOfKey tool key)
          fun id _ => Uuid.parseStr (trimBraces key) = some id := by
        refine (hinv.triple ((quiet_keyName _ _ _).context _)).bind fun _ => ?_
        split
        · rename_i id hid
          exact Triple.pure fun _ _ => hid
        · exact Triple.throw _
      refine hid.bind fun id => ?_
      have hothers : Triple Machine.serve inv (fun _ => True ∧ Uuid.parseStr (trimBraces key) = some id)
          (idsOfKeys tool keys) fun others _ =>
            (∀ key ∈ keys, ∃ id ∈ others, Uuid.parseStr (trimBraces key) = some id) ∧
            Uuid.parseStr (trimBraces key) = some id := ih.frame_always fun _ _ h => h
      refine (hothers.mono (fun _ h => ⟨trivial, h⟩) fun _ _ h => h).bind fun others =>
        Triple.pure fun _ hread other hother => ?_
      rcases List.mem_cons.mp hother with rfl | htail
      · exact ⟨id, List.mem_cons_self, hread.2⟩
      · obtain ⟨found, hmem, hfound⟩ := hread.1 other htail
        exact ⟨found, List.mem_cons_of_mem _ hmem, hfound⟩

/-- Every flag belongs to one of the identifiers. -/
def Covered (registered : List Uuid) (machine : Machine) : Prop :=
  ∀ id, (machine.user.registry (distributionRegistryPath id)).isSome → id ∈ registered

theorem steady_covered (registered : List Uuid) : Steady (Covered registered) :=
  steady_user fun user => ∀ id, (user.registry (distributionRegistryPath id)).isSome → id ∈ registered

theorem covered_projectDistributionIds (hinv : Steady inv) :
    Triple Machine.serve inv pre (projectDistributionIds tool) Covered := by
  refine (Triple.mapError (reads_openKey hinv distributionsPath)).bind fun opened => ?_
  split_ifs with hopened
  · have hkeys : Triple Machine.serve inv
        (fun machine => opened = (machine.user.registry distributionsPath).isSome)
        (context "could not read a project distro enablement key" (enumKeys .currentUser distributionsPath))
        fun keys machine => keys = machine.user.subkeys distributionsPath :=
      Triple.mapError (reads_enumKeys hinv distributionsPath)
    refine hkeys.bind fun keys => ?_
    have hids : Triple Machine.serve inv (fun machine => keys = machine.user.subkeys distributionsPath)
        (idsOfKeys tool keys) fun ids machine =>
          (∀ key ∈ keys, ∃ id ∈ ids, Uuid.parseStr (trimBraces key) = some id) ∧
            keys = machine.user.subkeys distributionsPath :=
      ((reads_idsOfKeys hinv keys).frame (steady_user fun user => keys = user.subkeys distributionsPath)
        (quiet_idsOfKeys tool keys).reading).mono (fun _ h => ⟨trivial, h⟩) fun _ _ h => h
    refine hids.bind fun ids => Triple.pure fun machine hread id hflag => ?_
    obtain ⟨hparsed, rfl⟩ := hread
    obtain ⟨found, hmem, hfound⟩ := hparsed _ (flagKey_mem_subkeys hflag)
    rw [trimBraces_flagKey, Uuid.parseStr_toString] at hfound
    cases hfound
    exact (tool.hashOrder_perm _).mem_iff.mpr (List.mem_dedup.mpr hmem)
  · refine Triple.pure fun machine hread id hflag => ?_
    -- A flag is not there without the key above it.
    have habove := machine.user.closed _ _ (isBelow_distributionsPath id) hflag
    exact absurd (hread.trans habove) hopened

variable {registered : List Uuid} {distributions : List Distribution}

/-- What is known before the cleaning: all flags, and all the distributions that were named. -/
structure Surveyed (tool : Tool) (registered : List Uuid) (distributions : List Distribution) (machine : Machine) :
    Prop where
  covered : Covered registered machine
  named : ∀ distribution ∈ distributions, machine.Names tool distribution.id distribution.name
  known : Known tool (fun id name => ∃ distribution ∈ distributions, distribution.id = id ∧ distribution.name = name)
    machine

theorem Surveyed.serve_of_isQuiet (hrequest : request.IsQuiet) (h : Surveyed tool registered distributions machine) :
    Surveyed tool registered distributions (Machine.serve request machine).2 where
  covered := steady_covered registered request hrequest.isReading machine h.covered
  named distribution hmem := (h.named distribution hmem).serve request
  known := h.known.serve hrequest.not_asksName

theorem Covered.serve_deleteSubkeyAll (h : Covered registered machine) (path : String) :
    Covered registered (Machine.serve (.deleteSubkeyAll .currentUser path) machine).2 := by
  intro id hflag
  rw [Machine.registry_serve_deleteSubkeyAll, Registry.deleteSubkeyAll] at hflag
  split_ifs at hflag
  · cases hflag
  · exact h id hflag

theorem not_asksName_deleteSubkeyAll (path : String) : ¬ (CliCall.deleteSubkeyAll .currentUser path).AsksName := by
  rintro ⟨key, heq⟩
  cases heq

theorem Surveyed.serve_deleteSubkeyAll (h : Surveyed tool registered distributions machine) (path : String) :
    Surveyed tool registered distributions
      (Machine.serve (.deleteSubkeyAll .currentUser path) machine).2 where
  covered := h.covered.serve_deleteSubkeyAll path
  named distribution hmem := (h.named distribution hmem).serve _
  known := h.known.serve (not_asksName_deleteSubkeyAll path)

theorem Machine.Gone.serve (h : machine.Gone tool id) (hname : ¬ request.AsksName) :
    (Machine.serve request machine).2.Gone tool id := by
  rcases h with hreleased | hlost
  · exact .inl (hreleased.serve request)
  · refine .inr fun hnamed => hlost ?_
    obtain ⟨name, hnames⟩ := hnamed
    exact ⟨name, Machine.names_of_serve hnames hname⟩

theorem KeptOrGone.serve_of_user (huser : (Machine.serve request machine).2.user = machine.user)
    (hname : ¬ request.AsksName) (h : KeptOrGone tool flags machine) :
    KeptOrGone tool flags (Machine.serve request machine).2 := fun id hid =>
  (h id hid).imp (fun hflagged => hflagged.serve_of_user huser) fun hgone => hgone.serve hname

theorem KeptOrGone.serve_deleteSubkeyAll (h : KeptOrGone tool flags machine) (hid : machine.Gone tool id) :
    KeptOrGone tool flags
      (Machine.serve (.deleteSubkeyAll .currentUser (distributionRegistryPath id)) machine).2 := by
  intro other hother
  by_cases hsame : other = id
  · subst hsame
    exact .inr (hid.serve (not_asksName_deleteSubkeyAll _))
  · exact (h other hother).imp (fun hflagged => hflagged.serve_of_concerns ⟨rfl, rfl⟩ hsame)
      fun hgone => hgone.serve (not_asksName_deleteSubkeyAll _)

/-- The distributions are cleaned one by one, and a flag goes when its distribution is clean. -/
theorem released_tracked (payloadRoot : String) (tracked : List Distribution)
    (hsub : ∀ distribution ∈ tracked, distribution ∈ distributions) :
    Triple Machine.serve (Kept tool flags) (Surveyed tool registered distributions)
      (tracked.forM (disableTracked tool payloadRoot)) fun _ machine =>
        Surveyed tool registered distributions machine ∧
          ∀ distribution ∈ tracked, machine.Released tool distribution.id := by
  let left (rest : List Distribution) (machine : Machine) : Prop := Surveyed tool registered distributions machine ∧
    ∀ distribution ∈ tracked, distribution ∈ rest ∨ machine.Released tool distribution.id
  have hloop : Triple Machine.serve (Kept tool flags) (left tracked)
      (tracked.forM (disableTracked tool payloadRoot)) fun _ => left [] := by
    refine Triple.forM left fun distribution hmem rest => ?_
    have hclean : Triple Machine.serve (Kept tool flags) (left (distribution :: rest))
        (disableDistroWithPayload tool distribution payloadRoot) fun _ machine =>
          machine.Released tool distribution.id ∧ left (distribution :: rest) machine := by
      refine ((released_disableDistroWithPayload distribution payloadRoot).frame (fun request hrequest machine h => ?_)
        (quiet_disableDistroWithPayload tool distribution payloadRoot)).mono
          (fun machine h => ⟨h.1.named distribution (hsub distribution hmem), h⟩) fun _ _ h => h
      exact ⟨h.1.serve_of_isQuiet hrequest, fun other hother => (h.2 other hother).imp_right fun h => h.serve request⟩
    refine hclean.bind fun _ => Triple.mapError (Triple.perform fun machine hkept hready => ?_)
    refine ⟨hkept.serve ⟨rfl, rfl⟩ hready.1, hready.2.1.serve_deleteSubkeyAll _, fun other hother => ?_⟩
    rcases hready.2.2 other hother with hlater | hreleased
    · rcases List.mem_cons.mp hlater with rfl | htail
      · exact .inr (hready.1.serve _)
      · exact .inl htail
    · exact .inr (hreleased.serve _)
  refine hloop.mono (fun machine hsurveyed => ⟨hsurveyed, fun _ hmem => .inl hmem⟩) fun _ machine hleft => ?_
  exact ⟨hleft.1, fun distribution hmem => (hleft.2 distribution hmem).resolve_left List.not_mem_nil⟩

def NoFlags (machine : Machine) : Prop := ∀ id, machine.user.registry (distributionRegistryPath id) = none

theorem NoFlags.read (h : NoFlags machine) (guid : Guid) :
    Plugin.read machine.user.registry guid = ⟨false, Plugin.sOk⟩ := by
  rw [Plugin.read, Plugin.distributionRegistryPath_eq, h]

/-- The flags that remain go where there is nothing for them any more. -/
theorem noFlags_registered :
    Triple Machine.serve (KeptOrGone tool flags)
      (fun machine => Surveyed tool registered distributions machine ∧
        ∀ distribution ∈ distributions, distribution.id ∈ registered → machine.Released tool distribution.id)
      (registered.forM fun id => setEnabled id false) fun _ => NoFlags := by
  let left (rest : List Uuid) (machine : Machine) : Prop := Surveyed tool registered distributions machine ∧
    (∀ distribution ∈ distributions, distribution.id ∈ registered → machine.Released tool distribution.id) ∧
      ∀ id ∈ registered, id ∈ rest ∨ machine.user.registry (distributionRegistryPath id) = none
  have hloop : Triple Machine.serve (KeptOrGone tool flags) (left registered)
      (registered.forM fun id => setEnabled id false) fun _ => left [] := by
    refine Triple.forM left fun id hmem rest => Triple.mapError (Triple.perform ?_)
    rintro machine hkept ⟨hsurveyed, hreleased, hrest⟩
    have hgone : machine.Gone tool id := by
      by_cases hnamed : ∃ name, machine.Names tool id name
      · obtain ⟨name, hnames⟩ := hnamed
        obtain ⟨distribution, hdistribution, rfl, -⟩ := hsurveyed.known id name hnames
        exact .inl (hreleased distribution hdistribution hmem)
      · exact .inr hnamed
    refine ⟨hkept.serve_deleteSubkeyAll hgone, hsurveyed.serve_deleteSubkeyAll _,
      fun distribution hdistribution htracked => (hreleased distribution hdistribution htracked).serve _,
      fun other hother => ?_⟩
    rw [Machine.registry_serve_deleteSubkeyAll, Registry.deleteSubkeyAll]
    rcases hrest other hother with hlater | hnone
    · rcases List.mem_cons.mp hlater with rfl | htail
      · exact .inr (if_pos (.inl rfl))
      · exact .inl htail
    · refine .inr ?_
      rw [hnone, ite_self]
  refine hloop.mono (fun machine h => ⟨h.1, h.2, fun _ hmem => .inl hmem⟩) fun _ machine hleft id => ?_
  by_contra hflag
  have hmem := hleft.1.covered id (Option.ne_none_iff_isSome.mp hflag)
  exact hflag ((hleft.2.2 id hmem).resolve_left List.not_mem_nil)

theorem keep_surveyed {α : Type} {action : CliAction α} (h : Quiet action) :
    Triple Machine.serve (KeptOrGone tool flags)
      (fun machine => Kept tool flags machine ∧ Surveyed tool registered distributions machine) action
      fun _ machine => Kept tool flags machine ∧ Surveyed tool registered distributions machine :=
  Triple.within (fun request hrequest machine h => ⟨steady_kept request hrequest.isReading machine h.1,
    h.2.serve_of_isQuiet hrequest⟩) h (fun _ h => h.1.keptOrGone) fun _ _ h => h

theorem surveyed_enumerateDistributions :
    Triple Machine.serve (Kept tool flags)
      (fun machine => Covered registered machine ∧ Known tool (fun _ _ => False) machine)
      (enumerateDistributions tool) fun found => Surveyed tool registered found := by
  have hnames : Triple Machine.serve (Kept tool flags) (Known tool fun _ _ => False)
      (enumerateDistributions tool) fun found machine =>
        ∀ distribution ∈ found, machine.Names tool distribution.id distribution.name :=
    names_enumerateDistributions steady_kept
  refine ((hnames.and (known_enumerateDistributions steady_kept)).frame (steady_covered registered)
    (reading_enumerateDistributions tool)).mono (fun _ h => ⟨h.2, h.1⟩) fun found machine h => ⟨h.2, h.1.1, ?_⟩
  exact fun id name hnames => (h.1.2 id name hnames).resolve_left fun hfalse => hfalse

/-- A cleaning that comes to its end leaves no flag, and on the way a flag goes only where the provider is off its
distribution or no such distribution has been named. -/
theorem noFlags_cleanDistroProvisioning :
    Triple Machine.serve (KeptOrGone tool flags)
      (fun machine => Kept tool flags machine ∧ Known tool (fun _ _ => False) machine)
      (cleanDistroProvisioning tool) fun _ => NoFlags := by
  have hids : Triple Machine.serve (KeptOrGone tool flags)
      (fun machine => Kept tool flags machine ∧ Known tool (fun _ _ => False) machine) (projectDistributionIds tool)
      fun registered machine => Kept tool flags machine ∧ Covered registered machine ∧
        Known tool (fun _ _ => False) machine :=
    ((covered_projectDistributionIds steady_kept).frame
      (fun _ hrequest _ => Known.serve (CliCall.IsQuiet.not_asksName hrequest))
      (quiet_projectDistributionIds tool)).strengthen (fun _ h => h.keptOrGone) fun _ _ h => ⟨h.1, trivial, h.2⟩
  refine hids.bind fun registered => ?_
  split
  · rename_i hempty
    refine Triple.pure fun machine h id => ?_
    by_contra hflag
    have hmem := h.2.1 id (Option.ne_none_iff_isSome.mp hflag)
    rw [List.isEmpty_iff.mp hempty] at hmem
    cases hmem
  · have hsurvey : Triple Machine.serve (KeptOrGone tool flags)
        (fun machine => Kept tool flags machine ∧ Covered registered machine ∧ Known tool (fun _ _ => False) machine)
        (enumerateDistributions tool) fun found machine =>
          Kept tool flags machine ∧ Surveyed tool registered found machine :=
      surveyed_enumerateDistributions.strengthen (fun _ h => h.keptOrGone) fun _ _ h => h
    refine hsurvey.bind fun distributions => ?_
    have hend : Triple Machine.serve (KeptOrGone tool flags)
        (fun machine => Surveyed tool registered distributions machine ∧
          ∀ distribution ∈ distributions, distribution.id ∈ registered → machine.Released tool distribution.id)
        (registered.forM fun id => setEnabled id false) fun _ => NoFlags := noFlags_registered
    dsimp only
    split
    · rename_i hempty
      refine hend.mono (fun machine h => ⟨h.2, fun distribution hmem htracked => ?_⟩) fun _ _ h => h
      have hmember : distribution ∈ distributions.filter fun distribution => distribution.id ∈ registered :=
        List.mem_filter.mpr ⟨hmem, decide_eq_true htracked⟩
      rw [List.isEmpty_iff.mp hempty] at hmember
      cases hmember
    · refine (keep_surveyed (quiet_besideTool _)).bind fun root => ?_
      refine (keep_surveyed (quiet_absoluteExisting _ _ _)).bind fun payloadRoot => ?_
      refine (keep_surveyed (quiet_checkPayload tool _)).bind fun _ => ?_
      refine ((released_tracked payloadRoot _ fun _ hmem => List.mem_of_mem_filter hmem).strengthen
        (fun _ h => h.keptOrGone) fun _ _ h => h).bind fun _ => hend.mono (fun machine h => ?_) fun _ _ h => h
      exact ⟨h.2.1, fun distribution hmem htracked =>
        h.2.2 distribution (List.mem_filter.mpr ⟨hmem, decide_eq_true htracked⟩)⟩

/-! ### The removal of the product -/

/-- A program has been started that goes on by itself. -/
def Machine.Started (machine : Machine) : Prop :=
  ∃ program arguments, machine.Told (.ask (.spawn program arguments)) ()

/-- The call starts no such program. -/
def CliCall.StartsNone (request : CliCall) : Prop := ∀ program arguments, request ≠ .ask (.spawn program arguments)

theorem Machine.started_of_serve (hrequest : request.StartsNone) (h : (Machine.serve request machine).2.Started) :
    machine.Started := by
  obtain ⟨program, arguments, htold⟩ := h
  exact ⟨program, arguments, Machine.told_of_serve htold (hrequest program arguments)⟩

theorem CliCall.IsReading.startsNone (h : request.IsReading) : request.StartsNone := by
  rintro program arguments rfl
  exact h

theorem startsNone_deleteSubkeyAll (path : String) : (CliCall.deleteSubkeyAll .currentUser path).StartsNone := by
  simp [CliCall.StartsNone]

/-- The removal of the product has not been started as long as a flag is there. -/
structure Orderly (tool : Tool) (flags : Uuid → Prop) (machine : Machine) : Prop where
  kept : KeptOrGone tool flags machine
  started : machine.Started → NoFlags machine

/-- How a removal begins. -/
structure Untouched (tool : Tool) (flags : Uuid → Prop) (machine : Machine) : Prop where
  kept : Kept tool flags machine
  known : Known tool (fun _ _ => False) machine
  waiting : ¬ machine.Started

theorem Untouched.orderly (h : Untouched tool flags machine) : Orderly tool flags machine :=
  ⟨h.kept.keptOrGone, fun hstarted => absurd hstarted h.waiting⟩

theorem Untouched.serve (hrequest : request.IsQuiet) (machine : Machine) (h : Untouched tool flags machine) :
    Untouched tool flags (Machine.serve request machine).2 where
  kept := steady_kept request hrequest.isReading machine h.kept
  known := h.known.serve hrequest.not_asksName
  waiting hstarted := h.waiting (Machine.started_of_serve hrequest.isReading.startsNone hstarted)

theorem orderly_cleanDistroProvisioning :
    Triple Machine.serve (Orderly tool flags) (Untouched tool flags) (cleanDistroProvisioning tool)
      fun _ => NoFlags := by
  have hnone : Triple Machine.serve (fun machine => ¬ machine.Started) (fun _ => True)
      (cleanDistroProvisioning tool) fun _ _ => True :=
    Triple.of_calls (P := CliCall.StartsNone)
      (fun _ hrequest _ h hstarted => h (Machine.started_of_serve hrequest hstarted))
      (calls_cleanDistroProvisioning tool (fun _ h => h.startsNone) fun _ => startsNone_deleteSubkeyAll _)
  refine ((noFlags_cleanDistroProvisioning.both hnone).strengthen
    (fun _ h => ⟨h.1, fun hstarted => absurd hstarted h.2⟩) fun machine hinv hpre => ?_).mono (fun _ h => h)
      fun _ _ h => h.2.1
  exact ⟨⟨hinv.kept, hpre.waiting⟩, ⟨hpre.kept, hpre.known⟩, trivial⟩

theorem orderly_removeProduct :
    Triple Machine.serve (Orderly tool flags) NoFlags (removeProduct tool) fun _ => NoFlags := by
  let P (request : CliCall) : Prop :=
    (∀ machine, (Machine.serve request machine).2.user = machine.user) ∧ ¬ request.AsksName
  have hserve : ∀ request, P request → ∀ machine, KeptOrGone tool flags machine ∧ NoFlags machine →
      KeptOrGone tool flags (Machine.serve request machine).2 ∧ NoFlags (Machine.serve request machine).2 := by
    rintro request ⟨huser, hname⟩ machine ⟨hkept, hnone⟩
    refine ⟨hkept.serve_of_user (huser machine) hname, fun id => ?_⟩
    rw [huser machine]
    exact hnone id
  have hcalls : Calls P (removeProduct tool) := by
    refine calls_removeProduct tool (fun request h => ⟨Machine.user_serve_of_isReading h.isReading, h.not_asksName⟩) ?_
    exact fun program arguments => ⟨fun _ => rfl, by rintro ⟨key, heq⟩; cases heq⟩
  exact (Triple.within hserve hcalls (fun _ h => ⟨h.1, fun _ => h.2⟩)
    fun _ hinv hnone => ⟨hinv.kept, hnone⟩).mono (fun _ h => h) fun _ _ h => h.2

/-- A removal that comes to its end leaves no flag. -/
theorem orderly_uninstall (tool : Tool) (flags : Uuid → Prop) :
    Triple Machine.serve (Orderly tool flags) (Untouched tool flags) (uninstall tool false)
      fun _ => NoFlags := by
  have hcheck : Triple Machine.serve (Orderly tool flags) (Untouched tool flags)
      (requireNonAdministrator "uninstall") fun _ => Untouched tool flags :=
    Triple.within (fun _ hrequest machine => Untouched.serve hrequest machine)
      (quiet_requireNonAdministrator "uninstall") (fun _ h => h.orderly) fun _ _ h => h
  exact hcheck.bind fun _ => orderly_cleanDistroProvisioning.bind fun _ => orderly_removeProduct

/-! ### All the commands -/

/-- The call clears no flag. -/
def CliCall.KeepsFlags (request : CliCall) : Prop :=
  ∀ (machine : Machine) (id : Uuid), machine.Flagged id → (Machine.serve request machine).2.Flagged id

theorem CliCall.IsReading.keepsFlags (h : request.IsReading) : request.KeepsFlags :=
  fun machine _ hid => hid.serve_of_user (Machine.user_serve_of_isReading h machine)

theorem keepsFlags_createSubkey (path : String) : (CliCall.createSubkey .currentUser path).KeepsFlags := by
  intro machine id hid
  have hvalue : (machine.user.createSubkey path).value (distributionRegistryPath id) distributionEnablementValue =
      machine.user.value (distributionRegistryPath id) distributionEnablementValue := Hive.value_createSubkey ..
  rw [Machine.Flagged, ← hvalue] at hid
  exact hid

theorem keepsFlags_setValue (path name : String) (value : RegistryValue) :
    (CliCall.setValue .currentUser path name value).KeepsFlags := by
  intro machine id hid
  have hvalue := Hive.value_setValue machine.user path name (distributionRegistryPath id)
    distributionEnablementValue value
  have hset : ((machine.user.setValue path name value).value (distributionRegistryPath id)
      distributionEnablementValue).isSome := by
    rw [hvalue]
    split_ifs
    · rfl
    · exact hid
  exact hset

theorem kept_command {command : Command} (hcommand : command ≠ .uninstall false) :
    Triple Machine.serve (Kept tool flags) (fun machine => ∀ id, flags id → machine.Flagged id)
      (command.action tool) fun _ _ => True := by
  have hserve : ∀ request : CliCall, request.KeepsFlags → ∀ machine, Kept tool flags machine →
      Kept tool flags (Machine.serve request machine).2 := fun request hrequest machine h id hid =>
    (h id hid).imp (hrequest machine id) fun hreleased => hreleased.serve request
  have hreading : ∀ request : CliCall, request.IsReading → request.KeepsFlags := fun _ h => h.keepsFlags
  have hspawn : ∀ program arguments, CliCall.KeepsFlags (.ask (.spawn program arguments)) := fun _ _ _ _ h => h
  cases command with
  | pluginInstall arguments =>
      exact Triple.of_calls hserve (calls_pluginInstall tool hreading arguments (fun _ _ h => h)
        fun _ _ _ h => h)
  | pluginUninstall arguments =>
      exact Triple.of_calls hserve (calls_pluginUninstall tool hreading arguments fun _ _ h => h)
  | distroEnable arguments =>
      exact Triple.of_calls hserve (calls_distroEnable tool hreading arguments
        (fun _ => keepsFlags_createSubkey _) fun _ => keepsFlags_setValue _ _ _)
  | distroDisable name => exact (kept_distroDisable name).mono (fun _ _ => trivial) fun _ _ h => h
  | distroRefresh arguments =>
    exact Triple.of_calls hserve ((reading_distroRefresh tool arguments).calls hreading)
  | uninstall keep =>
      exact Triple.of_calls hserve (calls_uninstall tool hreading keep hspawn fun hkeep =>
        absurd (congrArg Command.uninstall hkeep) hcommand)
  | upgrade includePrerelease =>
      exact Triple.of_calls hserve (calls_upgrade tool (fun request h => hreading request h.isReading) hspawn
        includePrerelease)

/-- When a command begins, nothing is on its record. -/
theorem untouched_since (tool : Tool) (machine : Machine) :
    Untouched tool machine.Flagged (machine.since machine.log.length) := by
  have hnone : ∀ request (reply : CliReply request), ¬ (machine.since machine.log.length).Told request reply := by
    intro request reply htold
    have hmem : (⟨request, reply⟩ : Served) ∈ machine.log.drop machine.log.length := htold
    rw [List.drop_length] at hmem
    cases hmem
  refine ⟨fun id hid => .inl hid, ?_, ?_⟩
  · rintro id name ⟨key, value, htold, -⟩
    exact hnone _ _ htold
  · rintro ⟨program, arguments, htold⟩
    exact hnone _ _ htold

/-- Wherever a command is stopped, a flag that was there before it and is not any more has gone after the provider was
taken off its distribution in this very command, or, in a removal that cleans up, where the registry has named no
such distribution. -/
theorem flags_go_only_after_removal (tool : Tool) (machine : Machine) (command : Command) (fates : Fates String)
    (id : Uuid) (hflagged : machine.Flagged id) (seen : Machine)
    (hseen : seen ∈ visited Machine.serve (command.action tool) fates machine) (hgone : ¬ seen.Flagged id) :
    (seen.since machine.log.length).Released tool id ∨
      (command = .uninstall false ∧ ¬ ∃ name, (seen.since machine.log.length).Names tool id name) := by
  have hstart := untouched_since tool machine
  by_cases hcommand : command = .uninstall false
  · subst hcommand
    have horderly := (triple_since machine.log.length (orderly_uninstall tool machine.Flagged)).invariant_of_visited
      ⟨le_rfl, hstart.orderly⟩ hstart fates seen hseen
    rcases horderly.2.kept id hflagged with hstays | hreleased | hlost
    · exact absurd hstays hgone
    · exact .inl hreleased
    · exact .inr ⟨rfl, hlost⟩
  · have hkept := (triple_since machine.log.length (kept_command hcommand)).invariant_of_visited
      ⟨le_rfl, hstart.kept⟩ (fun _ hid => hid) fates seen hseen
    exact .inl ((hkept.2 id hflagged).resolve_left hgone)

theorem noFlags_after_uninstall (tool : Tool) (machine : Machine) (fates : Fates String)
    (hok : (Action.execute Machine.serve (uninstall tool false) fates machine).outcome = .returned (.ok ())) :
    NoFlags ((Command.uninstall false).after tool fates machine) := by
  have hstart := untouched_since tool machine
  exact (triple_since machine.log.length (orderly_uninstall tool machine.Flagged)).post_of_execute
    ⟨le_rfl, hstart.orderly⟩ hstart hok

/-- A removal that cleans up and succeeds leaves no distribution in which the plugin would start anything, and until
it has come so far, it has not started the removal of the product. -/
theorem uninstall_leaves_no_flag (tool : Tool) (machine : Machine) (fates : Fates String) :
    ((Action.execute Machine.serve (uninstall tool false) fates machine).outcome = .returned (.ok ()) → ∀ guid,
      Plugin.read ((Command.uninstall false).after tool fates machine).user.registry guid = ⟨false, Plugin.sOk⟩) ∧
    ∀ seen ∈ visited Machine.serve (uninstall tool false) fates machine,
      (seen.since machine.log.length).Started → ∀ guid, Plugin.read seen.user.registry guid = ⟨false, Plugin.sOk⟩ := by
  have hstart := untouched_since tool machine
  have htriple := triple_since machine.log.length (orderly_uninstall tool machine.Flagged)
  refine ⟨fun hok guid => ?_, fun seen hseen hstarted guid => ?_⟩
  · exact (noFlags_after_uninstall tool machine fates hok).read guid
  · have horderly := htriple.invariant_of_visited ⟨le_rfl, hstart.orderly⟩ hstart fates seen hseen
    exact NoFlags.read (horderly.2.started hstarted) guid

noncomputable def sampleFlagged : Hive :=
  (sampleUser.createSubkey (distributionRegistryPath Plugin.sampleGuid.toUuid)).setValue
    (distributionRegistryPath Plugin.sampleGuid.toUuid) distributionEnablementValue flagValue

def sampleProductKey : String :=
  "SOFTWARE\\Microsoft\\Windows\\CurrentVersion\\Uninstall\\\x7b01234567-0089-00ab-0cde-f00102030405\x7d"

noncomputable def sampleProducts : Hive :=
  (((Hive.empty.createSubkey sampleProductKey).setValue sampleProductKey "DisplayName"
    (sampleTool.writeString productDisplayName)).setValue sampleProductKey "Publisher"
      (sampleTool.writeString productPublisher)).setValue currentVersionPath "ProgramFilesDir"
        (sampleTool.writeString "D:\\")

noncomputable def sampleInstalled : Machine := ⟨sampleFlagged, sampleProducts, fun _ => sampleAnswer "False", []⟩

def CliCall.isSpawn : CliCall → Bool
  | .ask (.spawn _ _) => true
  | _ => false

noncomputable def sampleRemoved : Machine := (Command.uninstall false).after sampleTool undisturbed sampleInstalled

theorem Hive.eq_of_paths {hive : Hive} {paths : List String} (h : hive.paths = paths) :
    hive = ⟨hive.registry, paths, h ▸ hive.covers, hive.closed⟩ := by
  subst h
  rfl

theorem paths_sampleFlagged : sampleFlagged.paths =
    ["Software", "Software\\wincred-libsecret", "Software\\wincred-libsecret\\WSLPlugin",
      "Software\\wincred-libsecret\\WSLPlugin\\Distributions", distributionRegistryPath Plugin.sampleGuid.toUuid,
      "Software", "Software\\Microsoft", "Software\\Microsoft\\Windows",
      "Software\\Microsoft\\Windows\\CurrentVersion", "Software\\Microsoft\\Windows\\CurrentVersion\\Lxss",
      sampleKey] := by
  decide +kernel

theorem paths_sampleProducts : sampleProducts.paths =
    ["SOFTWARE", "SOFTWARE\\Microsoft", "SOFTWARE\\Microsoft\\Windows",
      "SOFTWARE\\Microsoft\\Windows\\CurrentVersion", "SOFTWARE\\Microsoft\\Windows\\CurrentVersion\\Uninstall",
      sampleProductKey] := by
  decide +kernel

theorem run_sampleInstalled :
    (Action.execute Machine.serve (uninstall sampleTool false) undisturbed sampleInstalled).outcome =
      .returned (.ok ()) ∧ sampleRemoved.log.any (fun served => served.1.isSpawn) = true := by
  -- With the keys written out the run need not find the keys above a path again.
  rw [sampleRemoved, sampleInstalled, Hive.eq_of_paths paths_sampleFlagged, Hive.eq_of_paths paths_sampleProducts]
  decide +kernel

theorem flagged_sampleInstalled : sampleInstalled.Flagged Plugin.sampleGuid.toUuid := by
  have hvalue : sampleFlagged.value (distributionRegistryPath Plugin.sampleGuid.toUuid) distributionEnablementValue =
      some flagValue := Hive.value_setValue_createSubkey ..
  exact Option.isSome_iff_exists.mpr ⟨flagValue, hvalue⟩

theorem Command.after_mem_visited (command : Command) (tool : Tool) (fates : Fates String) (machine : Machine) :
    command.after tool fates machine ∈ visited Machine.serve (command.action tool) fates machine :=
  Program.run_state_mem_states _ _ _

theorem sampleRemoved_mem_visited :
    sampleRemoved ∈ visited Machine.serve ((Command.uninstall false).action sampleTool) undisturbed
      sampleInstalled :=
  Command.after_mem_visited (.uninstall false) sampleTool undisturbed sampleInstalled

theorem Machine.started_of_any (h : machine.log.any (fun served => served.1.isSpawn) = true) {count : Nat}
    (hcount : count = 0) : (machine.since count).Started := by
  subst hcount
  obtain ⟨⟨request, reply⟩, hmem, hspawn⟩ := List.any_eq_true.mp h
  cases request with
  | openKey | enumKeys | keyName | getValue | createSubkey | setValue | deleteValue | deleteSubkeyAll => cases hspawn
  | ask question =>
      cases question with
      | spawn program arguments => exact ⟨program, arguments, hmem⟩
      | output | releases | currentExe | parent | canonicalize | isThere | files | winVerifyTrust => cases hspawn

theorem noFlags_sampleRemoved : NoFlags sampleRemoved :=
  noFlags_after_uninstall sampleTool sampleInstalled undisturbed run_sampleInstalled.1

theorem flag_goes_after_removal :
    ¬ sampleRemoved.Flagged Plugin.sampleGuid.toUuid ∧
      ((sampleRemoved.since sampleInstalled.log.length).Released sampleTool Plugin.sampleGuid.toUuid ∨
        (Command.uninstall false = .uninstall false ∧
          ¬ ∃ name, (sampleRemoved.since sampleInstalled.log.length).Names sampleTool
            Plugin.sampleGuid.toUuid name)) := by
  have hgone : ¬ sampleRemoved.Flagged Plugin.sampleGuid.toUuid := by
    rw [Machine.Flagged, Hive.value, noFlags_sampleRemoved]
    simp
  exact ⟨hgone, flags_go_only_after_removal sampleTool sampleInstalled (.uninstall false) undisturbed
    Plugin.sampleGuid.toUuid flagged_sampleInstalled sampleRemoved sampleRemoved_mem_visited hgone⟩

theorem uninstall_leaves_no_sample_flag :
    (∀ guid, Plugin.read ((Command.uninstall false).after sampleTool undisturbed sampleInstalled).user.registry guid =
      ⟨false, Plugin.sOk⟩) ∧ (sampleRemoved.since sampleInstalled.log.length).Started ∧
        ∀ guid, Plugin.read sampleRemoved.user.registry guid = ⟨false, Plugin.sOk⟩ := by
  obtain ⟨hend, hway⟩ := uninstall_leaves_no_flag sampleTool sampleInstalled undisturbed
  have hstarted : (sampleRemoved.since sampleInstalled.log.length).Started :=
    Machine.started_of_any run_sampleInstalled.2 rfl
  exact ⟨hend run_sampleInstalled.1, hstarted, hway sampleRemoved sampleRemoved_mem_visited hstarted⟩

end WincredLibsecret.Cli
