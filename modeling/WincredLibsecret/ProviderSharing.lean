import WincredLibsecret.ProviderObjects

/-! Providers that share a vault. They start and serve calls in any order, each call from its start to its end
before the next. A provider does not learn what the others create, so whatever it shows to its clients has an
object only as long as nothing is created behind its back. -/

namespace WincredLibsecret

open Effect

namespace Broker

open Action Hosting

variable {broker : Broker} {hosting : Hosting}

/-- Only objects were added. -/
structure Grows (start final : Hosting) : Prop where
  vault : final.vault = start.vault
  objects : ∀ path ∈ start.objects, path ∈ final.objects

theorem Grows.refl (hosting : Hosting) : Grows hosting hosting := ⟨rfl, fun _ h => h⟩

theorem Grows.trans {start middle final : Hosting} (h : Grows start middle) (h' : Grows middle final) :
    Grows start final :=
  ⟨h'.vault.trans h.vault, fun path hpath => h'.objects path (h.objects path hpath)⟩

theorem ensures_registerObject {path : String} {object : BusObject} :
    Ensures broker.answerHosted (fun _ => True)
      (Action.perform (fun _ => ProviderError.transport) (ProviderCall.register path object) : ProviderAction Unit)
      (fun _ final => Grows hosting final ∧ path ∈ final.objects) (fun _ => Grows hosting) hosting := by
  refine ensures_perform.mpr ?_
  rintro ⟨fates, _ | message⟩ -
  · exact ⟨⟨rfl, fun _ h => Std.ExtTreeMap.mem_insertIfNew.mpr (.inr h)⟩,
      Std.ExtTreeMap.mem_insertIfNew.mpr (.inl Std.ReflOrd.compare_self)⟩
  · exact .refl hosting

/-- A loop whose rounds only add objects and each add those of its item. -/
theorem ensures_forM_grows {ι : Type} {body : ι → ProviderAction Unit} (added : ι → String → Prop) {items : List ι}
    (h : ∀ item ∈ items, ∀ start, Grows hosting start → Ensures broker.answerHosted (fun _ => True) (body item)
      (fun _ final => Grows start final ∧ ∀ path, added item path → path ∈ final.objects)
      (fun _ => Grows start) start) :
    Ensures broker.answerHosted (fun _ => True) (forM items body)
      (fun _ final => Grows hosting final ∧ ∀ item ∈ items, ∀ path, added item path → path ∈ final.objects)
      (fun _ => Grows hosting) hosting := by
  refine ensures_forM (fun left final => Grows hosting final ∧
    ∀ item ∈ items, item ∈ left ∨ ∀ path, added item path → path ∈ final.objects) ?_ ?_ ?_
  · rintro item hitem left middle ⟨hgrows, hdone⟩
    refine ensures_mono (fun _ final hfinal => ⟨hgrows.trans hfinal.1, fun other hother => ?_⟩)
      (fun _ _ hfinal => hgrows.trans hfinal) (h item hitem middle hgrows)
    rcases hdone other hother with hmem | hadded
    · rcases List.mem_cons.mp hmem with rfl | hmem
      · exact .inr hfinal.2
      · exact .inl hmem
    · exact .inr fun path hpath => hfinal.1.objects path (hadded path hpath)
  · exact fun final hfinal => ⟨hfinal.1, fun item hitem => (hfinal.2 item hitem).resolve_left List.not_mem_nil⟩
  · exact ⟨.refl hosting, fun item hitem => .inl hitem⟩

/-- The objects of a collection: its own and those of its items. -/
def Belongs (broker : Broker) (vault : Vault) (collection : CollectionMetadata) (path : String) : Prop :=
  path = collectionPath collection.id ∨
    ∃ item ∈ broker.itemsOf vault, item.collectionId = collection.id ∧ path = itemPath item.id

theorem Sound.belongs (hsound : broker.Sound hosting.vault) {path : String} (h : hosting.Shows path) :
    ∃ collection ∈ broker.collectionsOf hosting.vault, broker.Belongs hosting.vault collection path := by
  obtain ⟨target, hpath, hstored⟩ := h
  obtain ⟨blob, hblob⟩ := Option.isSome_iff_exists.mp hstored
  cases target with
  | collection id =>
      cases hpath
      obtain ⟨collection, hload⟩ := hsound.collections id blob hblob
      have hcollection : broker.collectionKind.stored hosting.vault id = some collection :=
        RecordKind.stored_eq_some.mpr ⟨blob, hblob, hload⟩
      obtain rfl : collection.id = id := RecordKind.key_of_stored hcollection
      exact ⟨collection, mem_collectionsOf.mpr hcollection, .inl rfl⟩
  | itemMetadata id =>
      cases hpath
      obtain ⟨item, hload, -, collection, hcollection⟩ := hsound.items id blob hblob
      have hitem : broker.itemKind.stored hosting.vault id = some item :=
        RecordKind.stored_eq_some.mpr ⟨blob, hblob, hload⟩
      obtain rfl : item.id = id := RecordKind.key_of_stored hitem
      have hid : collection.id = item.collectionId := RecordKind.key_of_stored hcollection
      exact ⟨collection, mem_collectionsOf.mpr (hid ▸ hcollection), .inr ⟨item, mem_itemsOf.mpr hitem, hid.symm, rfl⟩⟩
  | _ => cases hpath

/-- A provider that has started offers everything the vault holds. -/
theorem Sound.ensures_initializeObjects (hosting : Hosting) (hsound : broker.Sound hosting.vault) :
    Ensures broker.answerHosted (fun _ => True) Provider.initializeObjects
      (fun _ final => Grows hosting final ∧ final.Complete) (fun _ => Grows hosting) hosting := by
  refine ensures_bind.mpr (ensures_bind.mpr
    (ensures_read .listCollections (fun fates body hbody => ?_) fun _ => .refl hosting))
  cases eq_of_listCollections hbody
  refine (ensures_pure _).mpr (ensures_bind.mpr (ensures_mono (fun _ offered hoffered => ?_) (fun _ _ h => h)
    (ensures_forM_grows (broker.Belongs hosting.vault) fun collection hcollection start hstart => ?_)))
  · -- everything is offered now, and the rest only adds the objects of aliases
    have hcomplete : ∀ final, Grows offered final → Grows hosting final ∧ final.Complete := by
      intro final hfinal
      refine ⟨hoffered.1.trans hfinal, fun target path hpath hstored => ?_⟩
      rw [hfinal.vault, hoffered.1.vault] at hstored
      obtain ⟨collection, hcollection, hbelongs⟩ := hsound.belongs ⟨target, hpath, hstored⟩
      exact hfinal.objects path (hoffered.2 collection hcollection path hbelongs)
    refine ensures_bind.mpr (ensures_bind.mpr
      (ensures_read .listAliases (fun fates body hbody => ?_) fun _ => hoffered.1))
    cases body with
    | aliases listed =>
        refine (ensures_pure _).mpr (ensures_bind.mpr (ensures_mono (fun _ named hnamed => ?_)
          (fun _ _ h => hoffered.1.trans h) (ensures_forM_grows (fun _ _ => False) fun record _ start _ => ?_)))
        · exact ensures_mono (fun _ final hfinal => hcomplete final (hnamed.1.trans hfinal.1))
            (fun _ _ hfinal => hoffered.1.trans (hnamed.1.trans hfinal)) ensures_registerObject
        · cases aliasPath record.name with
          | none => exact (ensures_pure _).mpr ⟨.refl start, nofun⟩
          | some path => exact ensures_mono (fun _ _ h => ⟨h.1, nofun⟩) (fun _ _ h => h) ensures_registerObject
    | _ => exact (ensures_throw _).mpr hoffered.1
  · refine ensures_bind.mpr (ensures_mono (fun _ registered hregistered => ?_) (fun _ _ h => h) ensures_registerObject)
    refine ensures_bind.mpr (ensures_bind.mpr (ensures_read (.listItems collection.id) (fun fates body hbody => ?_)
      fun _ => hregistered.1))
    cases eq_of_listItems hbody
    refine (ensures_pure _).mpr
      (ensures_mono (fun _ final hfinal => ⟨hregistered.1.trans hfinal.1, fun path hpath => ?_⟩)
      (fun _ _ h => hregistered.1.trans h) (ensures_forM_grows (fun item path => path = itemPath item.id)
        fun item _ start _ => ensures_mono (fun _ _ h => ⟨h.1, fun _ hpath => hpath ▸ h.2⟩) (fun _ _ h => h)
          ensures_registerObject))
    rcases hpath with rfl | ⟨item, hitem, hcollectionId, rfl⟩
    · exact hfinal.1.objects _ hregistered.2
    · rw [← hstart.vault, ← hregistered.1.vault] at hitem
      exact hfinal.2 item (List.mem_filter.mpr ⟨hitem, decide_eq_true hcollectionId⟩) _ rfl

end Broker

/-- One vault, and the objects of each provider that is running. -/
structure SharedVault (ι : Type) where
  vault : Vault
  objects : ι → Option ObjectTree

/-- A provider starts, or a client calls a provider. The sessions of the provider are arbitrary. -/
inductive SharedStep (ι : Type) where
  | start (who : ι)
  | call (who : ι) (provider : Provider) (call : DbusCall)

/-- A completed step: what it started from, what it answered and what it left. -/
structure SharedEvent (ι : Type) where
  before : SharedVault ι
  step : SharedStep ι
  outcome : Except SecretServiceError (List String)
  after : SharedVault ι

variable {ι : Type} [DecidableEq ι]

/-- A step from its start to its end. A provider that fails to start ends. -/
inductive Broker.Takes (broker : Broker) : SharedStep ι → SharedVault ι → Except SecretServiceError (List String) →
    SharedVault ι → Prop
  | started (who : ι) {shared : SharedVault ι} {final : Hosting}
      (h : Ends broker.answerHosted (fun _ => True) Provider.initializeObjects.run ⟨shared.vault, ∅⟩ (.ok ()) final) :
      Takes broker (.start who) shared (.ok [])
        ⟨final.vault, Function.update shared.objects who (some final.objects)⟩
  | notStarted (who : ι) {shared : SharedVault ι} {error : ProviderError} {final : Hosting}
      (h : Ends broker.answerHosted (fun _ => True) Provider.initializeObjects.run ⟨shared.vault, ∅⟩
        (.error error) final) :
      Takes broker (.start who) shared (.error (.ofProvider error))
        ⟨final.vault, Function.update shared.objects who none⟩
  | called (who : ι) {shared : SharedVault ι} {provider : Provider} {call : DbusCall} {objects : ObjectTree}
      {outcome : Except SecretServiceError (List String)} {final : Hosting}
      (hrunning : shared.objects who = some objects)
      (h : Ends broker.answerHosted (fun _ => True) (call.handler provider).run ⟨shared.vault, objects⟩ outcome final) :
      Takes broker (.call who provider call) shared outcome
        ⟨final.vault, Function.update shared.objects who (some final.objects)⟩

/-- The runs of providers over a vault that others may have used before. -/
inductive Broker.Shares (broker : Broker) : List (SharedEvent ι) → SharedVault ι → Prop
  | nil {vault : Vault} (h : broker.Reachable vault) : Shares broker [] ⟨vault, fun _ => none⟩
  | snoc {events : List (SharedEvent ι)} {shared next : SharedVault ι} {step : SharedStep ι}
      {outcome : Except SecretServiceError (List String)} (h : Shares broker events shared)
      (htakes : broker.Takes step shared outcome next) : Shares broker (events ++ [⟨shared, step, outcome, next⟩]) next

/-- Nothing is created behind the back of a provider: the record a successful call adds has an object in every
other provider that is running, and a call that fails adds none. -/
def SharedEvent.Sheltered (event : SharedEvent ι) : Prop :=
  ∀ who provider call target path, event.step = .call who provider call → call.Creates target →
    target.objectPath = some path →
    match event.outcome with
    | .ok _ => ∀ other objects, other ≠ who → event.before.objects other = some objects → path ∈ objects
    | .error _ => (event.after.vault.lookup target).isSome → (event.before.vault.lookup target).isSome

/-- The paths a call has answered with have objects in the provider that was called. -/
def SharedEvent.Offered (event : SharedEvent ι) : Prop :=
  ∀ who provider call paths, event.step = .call who provider call → event.outcome = .ok paths →
    ∀ path ∈ paths, ∃ objects, event.after.objects who = some objects ∧ path ∈ objects

namespace SharedVault

/-- Every provider that is running offers everything the vault holds. -/
structure Whole (broker : Broker) (shared : SharedVault ι) : Prop where
  sound : broker.Sound shared.vault
  complete : ∀ who objects, shared.objects who = some objects → Hosting.Complete ⟨shared.vault, objects⟩

variable {broker : Broker} {shared next : SharedVault ι}

/-- The objects of one provider change, and the vault with them. -/
theorem whole_update {who : ι} {vault : Vault} {own : Option ObjectTree} (hsound : broker.Sound vault)
    (hown : ∀ objects, own = some objects → Hosting.Complete ⟨vault, objects⟩)
    (hothers : ∀ other objects, other ≠ who → shared.objects other = some objects → Hosting.Complete ⟨vault, objects⟩) :
    Whole broker ⟨vault, Function.update shared.objects who own⟩ := by
  refine ⟨hsound, fun other objects hobjects => ?_⟩
  change Function.update shared.objects who own other = some objects at hobjects
  by_cases hother : other = who
  · subst hother
    rw [Function.update_self] at hobjects
    exact hown objects hobjects
  · rw [Function.update_of_ne hother] at hobjects
    exact hothers other objects hother hobjects

theorem Whole.start (h : Whole broker shared) (who : ι) {own : Option ObjectTree} {final : Hosting}
    (hvault : final.vault = shared.vault)
    (hown : ∀ objects, own = some objects → Hosting.Complete ⟨final.vault, objects⟩) :
    Whole broker ⟨final.vault, Function.update shared.objects who own⟩ :=
  whole_update (hvault ▸ h.sound) hown fun other objects _ hobjects => hvault ▸ h.complete other objects hobjects

omit [DecidableEq ι] in
theorem offered_start (who : ι) {outcome : Except SecretServiceError (List String)} :
    SharedEvent.Offered ⟨shared, .start who, outcome, next⟩ := by
  intro _ _ _ _ hstep
  cases hstep

theorem Whole.takes (h : Whole broker shared) {step : SharedStep ι} {outcome : Except SecretServiceError (List String)}
    (htakes : broker.Takes step shared outcome next)
    (hsheltered : SharedEvent.Sheltered ⟨shared, step, outcome, next⟩) :
    Whole broker next ∧ SharedEvent.Offered ⟨shared, step, outcome, next⟩ := by
  cases htakes with
  | @started who _ final hends =>
      obtain ⟨hgrows, hcomplete⟩ := h.sound.ensures_initializeObjects ⟨shared.vault, ∅⟩ _ _ hends
      refine ⟨h.start who hgrows.vault fun objects hobjects => ?_, offered_start who⟩
      cases hobjects
      exact hcomplete
  | @notStarted who _ error final hends =>
      have hgrows := h.sound.ensures_initializeObjects ⟨shared.vault, ∅⟩ _ _ hends
      refine ⟨h.start who hgrows.vault fun objects hobjects => ?_, offered_start who⟩
      cases hobjects
  | @called who _ provider call objects _ final hrunning hends =>
      have hretains := h.sound.ensures_retains ⟨shared.vault, objects⟩ provider call _ _ hends
      have hstored := Broker.ensures_stored provider call _ _ hends
      have hsound := h.sound.ensures_sound ⟨shared.vault, objects⟩ provider call _ _ hends
      have hshown := Broker.ensures_shown provider call _ _ hends
      have hcomplete := h.complete who objects hrunning
      cases outcome with
      | error error =>
          have hbefore : ∀ target path, target.objectPath = some path → (final.vault.lookup target).isSome →
              (shared.vault.lookup target).isSome := fun target path hpath hlater =>
            (hstored target (TargetName.isRecord_of_objectPath hpath) hlater).elim id fun hcreates =>
              hsheltered who provider call target path rfl hcreates hpath hlater
          refine ⟨whole_update hsound ?_ ?_, fun _ _ _ _ _ hok => by cases hok⟩
          · rintro _ ⟨⟩ target path hpath hlater
            have hearlier := hbefore target path hpath hlater
            exact hretains target path hpath hearlier (hcomplete target path hpath hearlier) hlater
          · intro other others _ hothers target path hpath hlater
            exact h.complete other others hothers target path hpath (hbefore target path hpath hlater)
      | ok paths =>
          have hown : final.Complete := by
            intro target path hpath hlater
            rcases hstored target (TargetName.isRecord_of_objectPath hpath) hlater with hearlier | hcreates
            · exact hretains.1 target path hpath hearlier (hcomplete target path hpath hearlier) hlater
            · exact hretains.2 target path hcreates hpath
          refine ⟨whole_update hsound ?_ ?_, ?_⟩
          · rintro _ ⟨⟩
            exact hown
          · intro other others hne hothers target path hpath hlater
            rcases hstored target (TargetName.isRecord_of_objectPath hpath) hlater with hearlier | hcreates
            · exact h.complete other others hothers target path hpath hearlier
            · exact hsheltered who provider call target path rfl hcreates hpath other others hne hothers
          · rintro _ _ _ _ ⟨⟩ ⟨⟩ path hpath
            obtain ⟨target, htarget, hlater⟩ := hshown path hpath
            exact ⟨final.objects, Function.update_self who (some final.objects) shared.objects,
              hown target path htarget hlater⟩

end SharedVault

/-- As long as nothing is created behind its back, a provider offers an object for every collection and item
it shows. -/
theorem Broker.shown_objects_are_offered (broker : Broker) {events : List (SharedEvent ι)} {shared : SharedVault ι}
    (hrun : broker.Shares events shared) (hsheltered : ∀ event ∈ events, event.Sheltered) :
    ∀ event ∈ events, event.Offered := by
  suffices h : SharedVault.Whole broker shared ∧ ∀ event ∈ events, event.Offered from h.2
  induction hrun with
  | nil hvault =>
      refine ⟨⟨hvault.sound, fun who objects hobjects => ?_⟩, fun event hevent => absurd hevent List.not_mem_nil⟩
      cases hobjects
  | snoc _ htakes ih =>
      obtain ⟨hwhole, hoffered⟩ := ih fun event hevent => hsheltered event (List.mem_append_left _ hevent)
      obtain ⟨hnext, hlast⟩ := hwhole.takes htakes (hsheltered _ (List.mem_append_right _ (List.mem_singleton_self _)))
      refine ⟨hnext, fun event hevent => ?_⟩
      rcases List.mem_append.mp hevent with hearlier | hnow
      · exact hoffered event hearlier
      · exact List.mem_singleton.mp hnow ▸ hlast

/-- An undisturbed run of a provider over the broker's own store. -/
def hostedRun {δ α : Type} (action : Action ProviderCall ProviderReply ProviderFault δ α) (hosting : Hosting) :
    Except δ α × Hosting :=
  runUnder (cborBroker inMemoryBackend).answerHosted ⟨undisturbed, none⟩ action.run hosting

theorem ends_hostedRun {δ α : Type} {action : Action ProviderCall ProviderReply ProviderFault δ α} {hosting : Hosting}
    {result : Except δ α} (h : (hostedRun action hosting).1 = result) :
    Ends (cborBroker inMemoryBackend).answerHosted (fun _ => True) action.run hosting result
      (hostedRun action hosting).2 :=
  h ▸ ends_runUnder (CallChoice.mk undisturbed none) trivial action.run hosting

/-- A client without sessions. -/
def sessionless : Provider := Provider.new ⟨fun _ _ text => text, fun _ _ text => some text⟩

/-- The objects of a provider that has started over the empty vault. -/
def firstObjects : ObjectTree := (hostedRun Provider.initializeObjects ⟨∅, ∅⟩).2.objects

/-- A collection that one provider creates. -/
def lateCollection : DbusCall := .createCollection ∅ "" ⟨5, ⟨7⟩, ⟨8⟩, fun _ => none⟩

/-- The vault that is left. -/
def lateVault : Vault := (hostedRun (lateCollection.handler sessionless) ⟨∅, firstObjects⟩).2.vault

theorem ends_first : Ends (cborBroker inMemoryBackend).answerHosted (fun _ => True)
    Provider.initializeObjects.run ⟨∅, ∅⟩
    (.ok ()) ⟨∅, firstObjects⟩ := by
  have hstart : (hostedRun Provider.initializeObjects ⟨∅, ∅⟩).1 = .ok () := by decide +kernel
  have hvault : (hostedRun Provider.initializeObjects ⟨∅, ∅⟩).2.vault = ∅ := by decide +kernel
  have hfinal : (hostedRun Provider.initializeObjects ⟨∅, ∅⟩).2 = ⟨∅, firstObjects⟩ :=
    congrArg (Hosting.mk · firstObjects) hvault
  rw [← hfinal]
  exact ends_hostedRun hstart

theorem ends_late : Ends (cborBroker inMemoryBackend).answerHosted (fun _ => True)
    (lateCollection.handler sessionless).run
    ⟨∅, firstObjects⟩ (.ok []) (hostedRun (lateCollection.handler sessionless) ⟨∅, firstObjects⟩).2 :=
  ends_hostedRun (by decide +kernel)

/-- A provider that starts behind the creation of a collection by another one shows it and offers it. -/
theorem Broker.shown_objects_are_offered_by_later_provider :
    ∃ (events : List (SharedEvent Bool)) (shared : SharedVault Bool),
      (cborBroker inMemoryBackend).Shares events shared ∧ (∀ who, (shared.objects who).isSome) ∧
      (∃ event ∈ events, event.step = .call true sessionless .collections ∧
        event.outcome = .ok [collectionPath ⟨7⟩]) ∧ ∀ event ∈ events, event.Offered := by
  have hstart : (hostedRun Provider.initializeObjects ⟨lateVault, ∅⟩).1 = .ok () := by decide +kernel
  have hshow : (hostedRun (DbusCall.collections.handler sessionless)
      (hostedRun Provider.initializeObjects ⟨lateVault, ∅⟩).2).1 = .ok [collectionPath ⟨7⟩] := by decide +kernel
  have hrun : (cborBroker inMemoryBackend).Shares [] ⟨∅, fun _ : Bool => none⟩ := .nil ⟨[], rfl⟩
  have hfirst := hrun.snoc (.started false ends_first)
  have hcreated := hfirst.snoc (.called false rfl ends_late)
  have hsecond := hcreated.snoc (.started true (ends_hostedRun hstart))
  have hlast := hsecond.snoc (.called true rfl (ends_hostedRun hshow))
  refine ⟨_, _, hlast, fun who => by cases who <;> rfl,
    ⟨_, List.mem_append_right _ (List.mem_singleton_self _), rfl, rfl⟩,
    Broker.shown_objects_are_offered _ hlast fun event hevent => ?_⟩
  simp only [List.nil_append, List.cons_append, List.mem_cons, List.not_mem_nil, or_false] at hevent
  rcases hevent with rfl | rfl | rfl | rfl
  · rintro _ _ _ _ _ ⟨⟩
  · -- no other provider is running when the first one creates the collection
    rintro _ _ _ _ _ ⟨⟩ _ _
    rintro (_ | _) objects hother hrunning
    · exact absurd rfl hother
    · cases hrunning
  · rintro _ _ _ _ _ ⟨⟩
  · rintro _ _ _ _ _ ⟨⟩ hcreates
    exact hcreates.elim

/-- A provider that was running when another one created a collection shows it without an object. -/
theorem collection_shown_without_object :
    ∃ (events : List (SharedEvent Bool)) (shared : SharedVault Bool),
      (cborBroker inMemoryBackend).Shares events shared ∧ ¬ ∀ event ∈ events, event.Offered := by
  have hshow : (hostedRun (DbusCall.collections.handler sessionless) ⟨lateVault, firstObjects⟩).1 =
      .ok [collectionPath ⟨7⟩] := by decide +kernel
  have hmissing : collectionPath ⟨7⟩ ∉
      (hostedRun (DbusCall.collections.handler sessionless) ⟨lateVault, firstObjects⟩).2.objects := by decide +kernel
  have hrun : (cborBroker inMemoryBackend).Shares [] ⟨∅, fun _ : Bool => none⟩ := .nil ⟨[], rfl⟩
  have hfirst := hrun.snoc (.started false ends_first)
  have hsecond := hfirst.snoc (.started true ends_first)
  have hcreated := hsecond.snoc (.called true rfl ends_late)
  have hlast := hcreated.snoc (.called false rfl (ends_hostedRun hshow))
  refine ⟨_, _, hlast, fun hoffered => ?_⟩
  obtain ⟨objects, hobjects, hmem⟩ := hoffered _ (List.mem_append_right _ (List.mem_singleton_self _)) false sessionless
    .collections _ rfl rfl _ (List.mem_singleton_self _)
  cases hobjects
  exact hmissing hmem

end WincredLibsecret
