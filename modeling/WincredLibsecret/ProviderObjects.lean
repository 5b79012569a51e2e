import WincredLibsecret.BrokerListing
import WincredLibsecret.EffectOutcome
import WincredLibsecret.ProviderCalls

/-! The objects of several providers over one vault. Each provider offers objects on its own bus: those it
found in the vault when it started, and those it has made since. What it shows to its clients comes from the
vault, which the other providers change as well. -/

namespace WincredLibsecret

open Effect

/-- The objects a provider offers, by their paths. -/
abbrev ObjectTree := BTreeMap String BusObject

/-- The path of the object of a record. -/
def TargetName.objectPath : TargetName → Option String
  | .collection id => some (collectionPath id)
  | .itemMetadata id => some (itemPath id)
  | .alias _ | .itemSecret _ _ => none

theorem TargetName.isRecord_of_objectPath {target : TargetName} {path : String} (h : target.objectPath = some path) :
    target.IsRecord := by
  cases target with
  | collection | itemMetadata => trivial
  | _ => cases h

theorem TargetName.objectPath_injective {target : TargetName} (other : TargetName) {path : String}
    (h : target.objectPath = some path) (hother : other.objectPath = some path) : target = other := by
  cases target with
  | collection id =>
      cases h
      cases other with
      | collection => exact congrArg TargetName.collection (collectionPath_injective (Option.some.inj hother)).symm
      | itemMetadata otherId =>
          have hkind := getElem?_itemPath otherId
          rw [Option.some.inj hother, getElem?_collectionPath] at hkind
          cases hkind
      | _ => cases hother
  | itemMetadata id =>
      cases h
      cases other with
      | itemMetadata => exact congrArg TargetName.itemMetadata (itemPath_injective (Option.some.inj hother)).symm
      | collection otherId =>
          have hkind := getElem?_collectionPath otherId
          rw [Option.some.inj hother, getElem?_itemPath] at hkind
          cases hkind
      | _ => cases hother
  | _ => cases h

theorem TargetName.objectPath_ne_aliasPath {target : TargetName} {name path : String}
    (hpath : aliasPath name = some path) :
    target.objectPath ≠ some path := by
  intro h
  have hkind := getElem?_aliasPath hpath
  cases target with
  | collection id =>
      cases h
      rw [getElem?_collectionPath] at hkind
      cases hkind
  | itemMetadata id =>
      cases h
      rw [getElem?_itemPath] at hkind
      cases hkind
  | _ => cases h

/-- The vault, and the objects of the provider that serves a call. -/
structure Hosting where
  vault : Vault
  objects : ObjectTree

/-- How a call of a provider is answered, with its effect on the objects. -/
def Broker.answerHosted (broker : Broker) :
    (request : ProviderCall) → CallChoice → Hosting → Except ProviderFault (ProviderReply request) × Hosting
  | .broker operation, choice, hosting =>
      let answer := broker.answerCall (.broker operation) choice hosting.vault
      (answer.1, { hosting with vault := answer.2 })
  | .register path object, choice, hosting =>
      (choice.busReply, match choice.busFault with
        | none => { hosting with objects := hosting.objects.insertIfNew path object }
        | some _ => hosting)
  | .unregister path, choice, hosting =>
      (choice.busReply, match choice.busFault with
        | none => { hosting with objects := hosting.objects.erase path }
        | some _ => hosting)
  | .emit _, choice, hosting => (choice.busReply, hosting)

namespace Hosting

/-- Every collection and every item of the vault has its object. -/
def Complete (hosting : Hosting) : Prop :=
  ∀ target path, target.objectPath = some path → (hosting.vault.lookup target).isSome → path ∈ hosting.objects

/-- Nothing was added to the vault, and what had an object and is still there has it still, apart from one
kind of records. -/
structure Steady (spared : TargetName → Prop) (start final : Hosting) : Prop where
  stored : ∀ target, target.IsRecord → (final.vault.lookup target).isSome → (start.vault.lookup target).isSome
  offered : ∀ target path, target.objectPath = some path → ¬ spared target → path ∈ start.objects →
    (final.vault.lookup target).isSome → path ∈ final.objects

variable {spared : TargetName → Prop} {start middle final : Hosting}

/-- The objects of records are still there. -/
def Offers (start final : Hosting) : Prop :=
  ∀ target path, TargetName.objectPath target = some path → path ∈ start.objects → path ∈ final.objects

/-- What was stored, had an object and is still stored has its object. -/
def Retains (start final : Hosting) : Prop :=
  ∀ target path, TargetName.objectPath target = some path → (start.vault.lookup target).isSome →
    path ∈ start.objects → (final.vault.lookup target).isSome → path ∈ final.objects

/-- The record of the path is stored. -/
def Shows (hosting : Hosting) (path : String) : Prop :=
  ∃ target, TargetName.objectPath target = some path ∧ (hosting.vault.lookup target).isSome

theorem Steady.refl (spared : TargetName → Prop) (start : Hosting) : Steady spared start start :=
  ⟨fun _ _ h => h, fun _ _ _ _ h _ => h⟩

theorem Steady.trans (h : Steady spared start middle) (h' : Steady spared middle final) : Steady spared start final :=
  ⟨fun target htarget hfinal => h.stored target htarget (h'.stored target htarget hfinal),
    fun target path hpath hspared hstart hfinal => h'.offered target path hpath hspared (h.offered target path hpath
      hspared hstart (h'.stored target (TargetName.isRecord_of_objectPath hpath) hfinal)) hfinal⟩

/-- Registering only adds objects. -/
theorem steady_register (spared : TargetName → Prop) (hosting : Hosting) (path : String) (object : BusObject) :
    Steady spared hosting { hosting with objects := hosting.objects.insertIfNew path object } :=
  ⟨fun _ _ h => h, fun _ _ _ _ h _ => Std.ExtTreeMap.mem_insertIfNew.mpr (.inr h)⟩

/-- Unregistering is harmless for an object whose record is gone or spared. -/
theorem steady_unregister {hosting : Hosting} {path : String}
    (h : ∀ target, target.objectPath = some path → spared target ∨ hosting.vault.lookup target = none) :
    Steady spared hosting { hosting with objects := hosting.objects.erase path } := by
  refine ⟨fun _ _ h => h, fun target other hother hspared hmem hstored => ?_⟩
  refine Std.ExtTreeMap.mem_erase.mpr ⟨fun hpath => ?_, hmem⟩
  cases Std.LawfulEqOrd.eq_of_compare hpath
  rcases h target hother with hno | hnone
  · exact hspared hno
  · simp [hnone] at hstored

theorem Steady.lookup_eq_none (h : Steady spared start final) {target : TargetName} (htarget : target.IsRecord)
    (hnone : start.vault.lookup target = none) : final.vault.lookup target = none := by
  by_contra hsome
  have hstored := h.stored target htarget (Option.isSome_iff_ne_none.mpr hsome)
  simp [hnone] at hstored

/-- A step that leaves the objects, and then steps that spare only what was not stored at first. -/
theorem Steady.retains (h : Steady spared middle final) (hobjects : middle.objects = start.objects)
    (hspared : ∀ target, spared target → start.vault.lookup target = none) : Retains start final := by
  intro target path hpath hstart hmem hfinal
  refine h.offered target path hpath (fun hspare => ?_) (hobjects ▸ hmem) hfinal
  simp [hspared target hspare] at hstart

theorem retains_of_objects (h : final.objects = start.objects) : Retains start final :=
  fun _ _ _ _ hmem _ => h ▸ hmem

end Hosting

/-- The call adds no record and removes no object of a record. -/
def ProviderCall.Quiet : ProviderCall → Prop
  | .broker operation => ∀ target, ¬ operation.Creates target
  | .unregister path => ∀ target : TargetName, target.objectPath ≠ some path
  | .register _ _ | .emit _ => True

namespace Broker

open Action Hosting

variable {broker : Broker} {spared : TargetName → Prop} {hosting : Hosting} {α β : Type} {δ : Type}

theorem steady_respond {operation : Operation} (h : ∀ target, ¬ operation.Creates target) (fates : Fates BackendError) :
    Steady spared hosting { hosting with vault := (broker.respond ⟨operation, fates⟩ hosting.vault).state } :=
  ⟨fun target htarget hstored => (isSome_of_respond htarget hstored).resolve_right (h target), fun _ _ _ _ h _ => h⟩

theorem steady_of_quiet {request : ProviderCall} (h : request.Quiet) (choice : CallChoice) :
    Steady spared hosting (broker.answerHosted request choice hosting).2 := by
  obtain ⟨fates, fault⟩ := choice
  cases request with
  | broker operation => exact steady_respond h fates
  | register path object =>
      cases fault with
      | none => exact steady_register spared hosting path object
      | some message => exact .refl spared hosting
  | unregister path =>
      cases fault with
      | none => exact steady_unregister fun target htarget => absurd htarget (h target)
      | some message => exact .refl spared hosting
  | emit signal => exact .refl spared hosting

theorem offers_of_quiet {request : ProviderCall} (h : request.Quiet) (choice : CallChoice) :
    Offers hosting (broker.answerHosted request choice hosting).2 := by
  intro target path hpath hmem
  obtain ⟨fates, fault⟩ := choice
  cases request with
  | broker operation => exact hmem
  | register other object =>
      cases fault with
      | none => exact Std.ExtTreeMap.mem_insertIfNew.mpr (.inr hmem)
      | some message => exact hmem
  | unregister other =>
      cases fault with
      | none =>
          refine Std.ExtTreeMap.mem_erase.mpr ⟨fun hsame => ?_, hmem⟩
          cases Std.LawfulEqOrd.eq_of_compare hsame
          exact h target hpath
      | some message => exact hmem
  | emit signal => exact hmem

variable (broker) in
/-- However its calls are answered, the action keeps the objects of what is stored, and its result is as
described. -/
def KeepsSteady (spared : TargetName → Prop) (action : Action ProviderCall ProviderReply ProviderFault δ α)
    (post : α → Hosting → Prop) (hosting : Hosting) : Prop :=
  Ensures broker.answerHosted (fun _ => True) action (fun value final => Steady spared hosting final ∧ post value final)
    (fun _ => Steady spared hosting) hosting

section

variable {action : Action ProviderCall ProviderReply ProviderFault δ α} {post : α → Hosting → Prop}

theorem keepsSteady_of_calls (h : Calls ProviderCall.Quiet action) :
    broker.KeepsSteady spared action (fun _ => Offers hosting) hosting :=
  ensures_mono (fun _ _ h => h) (fun _ _ h => h.1)
    (ensures_of_calls (fun final => Steady spared hosting final ∧ Offers hosting final)
    (fun _ hrequest choice _ hfinal => ⟨hfinal.1.trans (steady_of_quiet hrequest choice),
      fun target path hpath hmem =>
        offers_of_quiet hrequest choice target path hpath (hfinal.2 target path hpath hmem)⟩) h
    ⟨.refl spared hosting, fun _ _ _ hmem => hmem⟩)

theorem keepsSteady_bind {next : α → Action ProviderCall ProviderReply ProviderFault δ β} {post' : β → Hosting → Prop}
    (h : broker.KeepsSteady spared action post hosting)
    (hnext : ∀ value final, Steady spared hosting final → post value final →
      broker.KeepsSteady spared (next value) post' final) :
    broker.KeepsSteady spared (action >>= next) post' hosting := by
  refine ensures_bind.mpr (ensures_mono (fun value middle hmiddle => ?_) (fun _ _ h => h) h)
  exact ensures_mono (fun _ _ hfinal => ⟨hmiddle.1.trans hfinal.1, hfinal.2⟩) (fun _ _ hfinal => hmiddle.1.trans hfinal)
    (hnext value middle hmiddle.1 hmiddle.2)

theorem keepsSteady_pure {value : α} (h : post value hosting) :
    broker.KeepsSteady spared (pure value : Action ProviderCall ProviderReply ProviderFault δ α) post hosting :=
  (ensures_pure value).mpr ⟨.refl spared hosting, h⟩

theorem keepsSteady_throw {error : δ} :
    broker.KeepsSteady spared (throw error : Action ProviderCall ProviderReply ProviderFault δ α) post hosting :=
  (ensures_throw error).mpr (.refl spared hosting)

theorem keepsSteady_mapError {δ' : Type} {f : δ → δ'} (h : broker.KeepsSteady spared action post hosting) :
    broker.KeepsSteady spared (mapError f action) post hosting :=
  ensures_mapError.mpr h

theorem keepsSteady_mono {post' : α → Hosting → Prop} (hpost : ∀ value final, post value final → post' value final)
    (h : broker.KeepsSteady spared action post hosting) : broker.KeepsSteady spared action post' hosting :=
  ensures_mono (fun value final hfinal => ⟨hfinal.1, hpost value final hfinal.2⟩) (fun _ _ h => h) h

theorem keepsSteady_forM {ι : Type} {body : ι → Action ProviderCall ProviderReply ProviderFault δ Unit} {items : List ι}
    (h : ∀ item ∈ items, ∀ final, Steady spared hosting final →
      broker.KeepsSteady spared (body item) (fun _ _ => True) final) :
    broker.KeepsSteady spared (forM items body) (fun _ _ => True) hosting := by
  refine ensures_forM (fun _ final => Steady spared hosting final) (fun item hitem _ middle hmiddle => ?_)
    (fun _ h => ⟨h, trivial⟩) (.refl spared hosting)
  exact ensures_mono (fun _ _ hfinal => hmiddle.trans hfinal.1) (fun _ _ hfinal => hmiddle.trans hfinal)
    (h item hitem middle hmiddle)

end

/-- Removing the object of a record that is gone or spared. -/
theorem keepsSteady_unregister {path : String} {error : SecretServiceError}
    (h : ∀ target, target.objectPath = some path → spared target ∨ hosting.vault.lookup target = none) :
    broker.KeepsSteady spared (unregister path error) (fun _ _ => True) hosting := by
  refine ensures_perform.mpr ?_
  rintro ⟨fates, _ | message⟩ -
  · exact ⟨steady_unregister h, trivial⟩
  · exact .refl spared hosting

theorem keepsSteady_tryUnregister {path : String}
    (h : ∀ target, target.objectPath = some path → spared target ∨ hosting.vault.lookup target = none) :
    broker.KeepsSteady spared (tryUnregister path) (fun _ _ => True) hosting := by
  refine ensures_bind.mpr (ensures_attempt.mpr ?_)
  exact ensures_mono (fun _ _ h => (ensures_pure _).mpr ⟨h.1, trivial⟩) (fun _ _ h => (ensures_pure _).mpr ⟨h, trivial⟩)
    (keepsSteady_unregister h)

theorem keepsSteady_register {path : String} {object : BusObject} {error : String → SecretServiceError} :
    broker.KeepsSteady spared (register path object error) (fun _ final => path ∈ final.objects) hosting := by
  refine ensures_perform.mpr ?_
  rintro ⟨fates, _ | message⟩ -
  · exact ⟨steady_register spared hosting path object,
      Std.ExtTreeMap.mem_insertIfNew.mpr (.inl Std.ReflOrd.compare_self)⟩
  · exact .refl spared hosting

theorem keepsSteady_emit {signal : BusSignal} {error : String → SecretServiceError} :
    broker.KeepsSteady spared (emit signal error) (fun _ => Offers hosting) hosting :=
  keepsSteady_of_calls (calls_perform trivial)

theorem keepsSteady_orUndo {action : HandlerAction α} {undo : HandlerAction Unit} {post : α → Hosting → Prop}
    (h : broker.KeepsSteady spared action post hosting)
    (hundo : ∀ final, Steady spared hosting final → broker.KeepsSteady spared undo (fun _ _ => True) final) :
    broker.KeepsSteady spared (orUndo action undo) post hosting := by
  refine ensures_bind.mpr (ensures_attempt.mpr
    (ensures_mono (fun value middle hmiddle => ?_) (fun error middle hmiddle => ?_) h))
  · exact (ensures_pure _).mpr hmiddle
  · refine ensures_bind.mpr (ensures_mono (fun _ _ hfinal => ?_) (fun _ _ hfinal => hmiddle.trans hfinal)
      (hundo middle hmiddle))
    exact (ensures_throw _).mpr (hmiddle.trans hfinal.1)

/-! ### Requests -/

theorem ensures_response {operation : Operation} {ok : ResponseBody → Hosting → Prop}
    {err : ProviderError → Hosting → Prop}
    (hok : ∀ fates body, (broker.respond ⟨operation, fates⟩ hosting.vault).outcome = .returned (.ok body) →
      ok body { hosting with vault := (broker.respond ⟨operation, fates⟩ hosting.vault).state })
    (herr : ∀ fates error, err error
      { hosting with vault := (broker.respond ⟨operation, fates⟩ hosting.vault).state }) :
    Ensures broker.answerHosted (fun _ => True) (Provider.response operation) ok err hosting := by
  refine ensures_perform.mpr ?_
  rintro ⟨fates, fault⟩ -
  change either ok (fun error => err error.toProviderError)
    (brokerReply (broker.respond ⟨operation, fates⟩ hosting.vault).outcome) _
  cases houtcome : (broker.respond ⟨operation, fates⟩ hosting.vault).outcome with
  | killed => exact herr fates _
  | returned result =>
      cases result with
      | error error => exact herr fates _
      | ok body => exact hok fates body houtcome

/-- A request that only reads leaves everything as it is. -/
theorem ensures_read (request : ReadOperation) {ok : ResponseBody → Hosting → Prop}
    {err : ProviderError → Hosting → Prop} (hok : ∀ fates body, (broker.respond ⟨request.toOperation, fates⟩
      hosting.vault).outcome = .returned (.ok body) → ok body hosting) (herr : ∀ error, err error hosting) :
    Ensures broker.answerHosted (fun _ => True) (Provider.response request.toOperation) ok err hosting := by
  refine ensures_response (fun fates body hbody => ?_) fun fates error => ?_
  · rw [respond_read_state]
    exact hok fates body hbody
  · rw [respond_read_state]
    exact herr error

theorem keepsSteady_response {operation : Operation} (post : ResponseBody → Hosting → Prop)
    (h : ∀ target, ¬ operation.Creates target)
    (hpost : ∀ fates body, (broker.respond ⟨operation, fates⟩ hosting.vault).outcome = .returned (.ok body) →
      post body { hosting with vault := (broker.respond ⟨operation, fates⟩ hosting.vault).state }) :
    broker.KeepsSteady spared (Provider.response operation) post hosting :=
  ensures_response (fun fates body hbody => ⟨steady_respond h fates, hpost fates body hbody⟩)
    fun fates _ => steady_respond h fates

variable {id : Uuid}

theorem keepsSteady_deleteItem :
    broker.KeepsSteady spared (Provider.deleteItem id)
      (fun _ final => final.vault.lookup (.itemMetadata id) = none) hosting := by
  refine keepsSteady_bind (keepsSteady_response (fun _ final => final.vault.lookup (.itemMetadata id) = none)
    (fun _ h => h) fun fates body hbody => lookup_of_deleteItem hbody) fun body final _ hfinal => ?_
  cases body with
  | empty => exact keepsSteady_pure hfinal
  | _ => exact keepsSteady_throw

theorem keepsSteady_deleteCollection (hsound : broker.Sound hosting.vault) :
    broker.KeepsSteady spared (Provider.deleteCollection id) (fun _ final =>
      final.vault.lookup (.collection id) = none ∧
        ∀ itemId item, broker.itemKind.stored hosting.vault itemId = some item →
        item.collectionId = id → final.vault.lookup (.itemMetadata itemId) = none) hosting := by
  refine keepsSteady_bind (keepsSteady_response (fun _ final => final.vault.lookup (.collection id) = none ∧
      ∀ itemId item, broker.itemKind.stored hosting.vault itemId = some item → item.collectionId = id →
        final.vault.lookup (.itemMetadata itemId) = none) (fun _ h => h) fun fates body hbody =>
    ⟨lookup_of_deleteCollection hbody, fun itemId item hitem hcollection =>
      hsound.lookup_item_of_deleteCollection hitem hcollection hbody⟩) fun body final _ hfinal => ?_
  cases body with
  | empty => exact keepsSteady_pure hfinal
  | _ => exact keepsSteady_throw

theorem keepsSteady_items :
    broker.KeepsSteady spared (Provider.items id) (fun items final =>
      items = (broker.itemsOf hosting.vault).filter (fun item => item.collectionId = id) ∧
        final.vault = hosting.vault) hosting := by
  refine keepsSteady_bind (keepsSteady_response (fun body final =>
      body = .items ((broker.itemsOf hosting.vault).filter fun item => item.collectionId = id) ∧
        final.vault = hosting.vault) (fun _ h => h) fun fates body hbody =>
    ⟨eq_of_listItems hbody, respond_read_state (.listItems id)⟩) fun body final _ hfinal => ?_
  cases body with
  | items listed =>
      obtain ⟨hlisted, hvault⟩ := hfinal
      cases hlisted
      exact keepsSteady_pure ⟨rfl, hvault⟩
  | _ => exact keepsSteady_throw

theorem keepsSteady_aliases :
    broker.KeepsSteady spared Provider.aliases (fun _ final => final.vault = hosting.vault) hosting := by
  refine keepsSteady_bind (keepsSteady_response (fun _ final => final.vault = hosting.vault) (fun _ h => h)
    fun fates _ _ => respond_read_state .listAliases) fun body final _ hfinal => ?_
  cases body with
  | aliases listed => exact keepsSteady_pure hfinal
  | _ => exact keepsSteady_throw

theorem keepsSteady_itemDelete : broker.KeepsSteady spared (ItemObject.delete id) (fun _ _ => True) hosting := by
  refine keepsSteady_bind (keepsSteady_of_calls (calls_dbus (Provider.calls_item fun _ h => h))) fun found _ _ _ => ?_
  refine keepsSteady_bind (keepsSteady_mapError keepsSteady_deleteItem) fun _ gone _ hgone => ?_
  refine keepsSteady_bind (keepsSteady_unregister fun target htarget => .inr ?_) fun _ _ _ _ =>
    keepsSteady_bind keepsSteady_emit fun _ _ _ _ => keepsSteady_pure trivial
  rw [TargetName.objectPath_injective (.itemMetadata id) htarget rfl]
  exact hgone

theorem keepsSteady_collectionDelete (hsound : broker.Sound hosting.vault) :
    broker.KeepsSteady spared (CollectionObject.delete id) (fun _ _ => True) hosting := by
  refine keepsSteady_bind (keepsSteady_mapError keepsSteady_items) fun items listed _ hlisted => ?_
  obtain ⟨rfl, hvault⟩ := hlisted
  refine keepsSteady_bind (keepsSteady_mapError keepsSteady_aliases) fun aliases read _ hread => ?_
  rw [hvault] at hread
  refine keepsSteady_bind (keepsSteady_mapError (keepsSteady_deleteCollection (hread ▸ hsound)))
    fun _ gone _ hgone => ?_
  refine keepsSteady_bind (keepsSteady_forM fun item hitem final hfinal => keepsSteady_tryUnregister
    fun target htarget => .inr ?_) fun _ later hlater _ => ?_
  · rw [TargetName.objectPath_injective (.itemMetadata item.id) htarget rfl]
    obtain ⟨hmem, hcollection⟩ := List.mem_filter.mp hitem
    exact hfinal.lookup_eq_none trivial
      (hgone.2 item.id item (hread ▸ mem_itemsOf.mp hmem) (of_decide_eq_true hcollection))
  refine keepsSteady_bind (keepsSteady_forM fun record _ final _ => ?_) fun _ last hlast _ => ?_
  · cases hpath : aliasPath record.name with
    | none => exact keepsSteady_pure trivial
    | some path =>
        exact keepsSteady_tryUnregister fun target htarget => absurd htarget (TargetName.objectPath_ne_aliasPath hpath)
  refine keepsSteady_bind (keepsSteady_unregister fun target htarget => .inr ?_) fun _ _ _ _ =>
    keepsSteady_bind keepsSteady_emit fun _ _ _ _ => keepsSteady_pure trivial
  rw [TargetName.objectPath_injective (.collection id) htarget rfl]
  exact (hlater.trans hlast).lookup_eq_none trivial hgone.1

/-- A new item has the identifier that was drawn, and the items that are reported as replaced are gone. -/
theorem ensures_createItem {collection : Uuid} {label contentType : String} {attributes : BTreeMap String String}
    {secret : SecretBytes} {replace : Bool} {draws : Draws} :
    Ensures broker.answerHosted (fun _ => True)
      (Provider.createItem collection label attributes contentType secret replace draws)
      (fun result final => final.objects = hosting.objects ∧ result.1.id = draws.id ∧
        ∀ id ∈ result.2.1, final.vault.lookup (.itemMetadata id) = none)
      (fun _ final => final.objects = hosting.objects) hosting := by
  refine ensures_ofExcept_bind (fun _ _ => ?_) fun _ _ => rfl
  refine ensures_ofExcept_bind (fun _ _ => ?_) fun _ _ => rfl
  refine ensures_ofExcept_bind (fun _ _ => ?_) fun _ _ => rfl
  refine ensures_bind.mpr (ensures_response (fun fates body hbody => ?_) fun _ _ => rfl)
  cases body with
  | replacedItem created replaced failed =>
      obtain ⟨rfl, hgone⟩ := lookup_of_createOrReplaceItem hbody
      exact (ensures_pure _).mpr ⟨rfl, rfl, hgone⟩
  | _ => exact (ensures_throw _).mpr rfl

/-- A new collection has the identifier that was drawn, which was free. -/
theorem ensures_createCollection {label : String} {draws : Draws} :
    Ensures broker.answerHosted (fun _ => True) (Provider.createCollection label draws)
      (fun created final => final.objects = hosting.objects ∧ created.id = draws.id ∧
        hosting.vault.lookup (.collection draws.id) = none)
      (fun _ final => final.objects = hosting.objects) hosting := by
  refine ensures_ofExcept_bind (fun _ _ => ?_) fun _ _ => rfl
  refine ensures_bind.mpr (ensures_response (fun fates body hbody => ?_) fun _ _ => rfl)
  obtain ⟨hfree, rfl⟩ := lookup_of_createCollection hbody
  exact (ensures_pure _).mpr ⟨rfl, rfl, hfree⟩

theorem ensures_collectionCreateItem {provider : Provider} {sender : Option String}
    {properties : BTreeMap String DbusValue} {sent : DbusSecret} {replace : Bool} {draws : Draws} :
    Ensures broker.answerHosted (fun _ => True)
      (CollectionObject.createItem provider id sender properties sent replace draws)
      (fun _ final => Retains hosting final ∧ itemPath draws.id ∈ final.objects)
      (fun _ => Retains hosting) hosting := by
  have hstart : Retains hosting hosting := retains_of_objects rfl
  refine ensures_ofExcept_bind (fun owner _ => ?_) fun _ _ => hstart
  refine ensures_ofExcept_bind (fun (label, attributes) _ => ?_) fun _ _ => hstart
  refine ensures_ofExcept_bind (fun (_, secret, contentType) _ => ?_) fun _ _ => hstart
  refine ensures_bind.mpr (ensures_mapError.mpr
    ((ensures_ofExcept _).mpr (either_intro (fun _ _ => ?_) fun _ _ => hstart)))
  refine ensures_bind.mpr (ensures_mapError.mpr (ensures_mono (fun (item, replaced, failed) created hcreated => ?_)
    (fun _ _ hobjects => retains_of_objects hobjects) ensures_createItem))
  obtain ⟨hobjects, hid, hgone⟩ := hcreated
  -- from here on nothing is created and only objects of replaced items are removed
  have hrest : broker.KeepsSteady (fun _ => False) (do
      forM replaced fun replaced => do
        tryUnregister (itemPath replaced)
        emit (.itemDeleted id replaced) fun _ => .failed "unable to emit item signal"
      orUndo (register (itemPath item.id) (.item item.id) fun error => .failed ("unable to register item: " ++ error))
        (ignore (Provider.deleteItem item.id))
      emit (.itemCreated id item.id) fun _ => .failed "unable to emit item signal"
      pure (itemPath item.id, "/")) (fun _ final => itemPath draws.id ∈ final.objects) created := by
    refine keepsSteady_bind (keepsSteady_forM fun old hold final hfinal => ?_) fun _ cleaned _ _ => ?_
    · refine keepsSteady_bind (keepsSteady_tryUnregister fun target htarget => .inr ?_) fun _ _ _ _ =>
        keepsSteady_mono (fun _ _ _ => trivial) keepsSteady_emit
      rw [TargetName.objectPath_injective (.itemMetadata old) htarget rfl]
      exact hfinal.lookup_eq_none trivial (hgone old hold)
    refine keepsSteady_bind (keepsSteady_orUndo keepsSteady_register fun final _ => ?_)
      fun _ registered _ hregistered => ?_
    · exact keepsSteady_mono (fun _ _ _ => trivial) (keepsSteady_of_calls (calls_ignore (Provider.calls_deleteItem
        fun _ h => h)))
    refine keepsSteady_bind keepsSteady_emit fun _ last _ hlast => keepsSteady_pure ?_
    rw [← hid]
    exact hlast (.itemMetadata item.id) _ rfl hregistered
  exact ensures_mono (fun _ _ hfinal => ⟨hfinal.1.retains hobjects nofun, hfinal.2⟩)
    (fun _ _ hfinal => hfinal.retains hobjects nofun) hrest

theorem calls_quiet_setAlias (name : String) (id : Option Uuid) :
    Calls ProviderCall.Quiet (Provider.setAlias name id) :=
  Provider.calls_setAlias (fun _ _ _ h => h) fun _ _ h => h

theorem ensures_serviceCreateCollection {properties : BTreeMap String DbusValue} {name : String} {draws : Draws} :
    Ensures broker.answerHosted (fun _ => True) (SecretService.createCollection properties name draws)
      (fun _ final => Retains hosting final ∧ collectionPath draws.id ∈ final.objects) (fun _ => Retains hosting)
      hosting := by
  refine ensures_ofExcept_bind (fun label _ => ?_) fun _ _ => retains_of_objects rfl
  refine ensures_bind.mpr (ensures_mapError.mpr (ensures_mono (fun collection created hcreated => ?_)
    (fun _ _ hobjects => retains_of_objects hobjects) ensures_createCollection))
  obtain ⟨hobjects, hid, hfree⟩ := hcreated
  -- only the object of the new collection is removed, if something fails
  have hundo : ∀ final, broker.KeepsSteady (· = .collection draws.id) (do
      tryUnregister (collectionPath collection.id)
      ignore (Provider.deleteCollection collection.id)) (fun _ _ => True) final := by
    intro final
    refine keepsSteady_bind (keepsSteady_tryUnregister fun target htarget => .inl ?_) fun _ _ _ _ => ?_
    · rw [TargetName.objectPath_injective (.collection collection.id) htarget rfl, hid]
    · exact keepsSteady_mono (fun _ _ _ => trivial) (keepsSteady_of_calls (calls_ignore (Provider.calls_deleteCollection
        fun _ h => h)))
  have hlast : ∀ final : Hosting, collectionPath collection.id ∈ final.objects →
      broker.KeepsSteady (· = .collection draws.id) (do
        emit (.collectionCreated collection.id) fun _ => .failed "unable to emit collection signal"
        pure (collectionPath collection.id, "/")) (fun _ final => collectionPath draws.id ∈ final.objects) final := by
    intro final hfinal
    refine keepsSteady_bind keepsSteady_emit fun _ last _ hlast => keepsSteady_pure ?_
    rw [← hid]
    exact hlast (.collection collection.id) _ rfl hfinal
  have haliases : ∀ final : Hosting, collectionPath collection.id ∈ final.objects →
      broker.KeepsSteady (· = .collection draws.id) (do
        SecretService.aliasesChanged
        emit (.collectionCreated collection.id) fun _ => .failed "unable to emit collection signal"
        pure (collectionPath collection.id, "/")) (fun _ final => collectionPath draws.id ∈ final.objects) final := by
    intro final hfinal
    refine keepsSteady_bind (keepsSteady_of_calls (calls_aliasesChanged (fun _ => trivial) fun _ h => h))
      fun _ last _ hoffers => hlast last ?_
    exact hoffers (.collection collection.id) _ rfl hfinal
  suffices hrest : broker.KeepsSteady (· = .collection draws.id) _
      (fun _ final => collectionPath draws.id ∈ final.objects) created from
    ensures_mono (fun _ _ hfinal => ⟨hfinal.1.retains hobjects (fun _ h => h ▸ hfree), hfinal.2⟩)
      (fun _ _ hfinal => hfinal.retains hobjects (fun _ h => h ▸ hfree)) hrest
  refine keepsSteady_bind (keepsSteady_orUndo keepsSteady_register fun final _ => ?_)
    fun _ registered _ hregistered => ?_
  · exact keepsSteady_mono (fun _ _ _ => trivial) (keepsSteady_of_calls (calls_ignore (Provider.calls_deleteCollection
      fun _ h => h)))
  dsimp only
  split_ifs
  · refine keepsSteady_bind (keepsSteady_orUndo (keepsSteady_of_calls (calls_dbus (calls_quiet_setAlias _ _)))
      fun final _ => hundo final) fun _ aliased _ haliased => ?_
    have hstill : collectionPath collection.id ∈ aliased.objects :=
      haliased (.collection collection.id) _ rfl hregistered
    cases hpath : aliasPath name with
    | none => exact haliases aliased hstill
    | some named =>
        refine keepsSteady_bind (keepsSteady_orUndo (keepsSteady_of_calls (calls_registerAlias (fun _ _ => trivial)
          fun target => TargetName.objectPath_ne_aliasPath hpath)) fun final _ => ?_) fun _ named _ hnamed => ?_
        · exact keepsSteady_bind (keepsSteady_of_calls (calls_ignore (calls_quiet_setAlias _ _))) fun _ _ _ _ => hundo _
        · exact haliases named (hnamed (.collection collection.id) _ rfl hstill)
  · exact hlast registered hregistered

theorem shows_item {item : ItemMetadata} (h : broker.itemKind.stored hosting.vault id = some item) :
    hosting.Shows (itemPath id) := by
  obtain ⟨blob, hblob, -⟩ := RecordKind.stored_eq_some.mp h
  exact ⟨.itemMetadata id, rfl, Option.isSome_of_eq_some hblob⟩

theorem shows_collection {collection : CollectionMetadata}
    (h : broker.collectionKind.stored hosting.vault id = some collection) : hosting.Shows (collectionPath id) := by
  obtain ⟨blob, hblob, -⟩ := RecordKind.stored_eq_some.mp h
  exact ⟨.collection id, rfl, Option.isSome_of_eq_some hblob⟩

theorem ensures_silently {action : HandlerAction α} :
    Ensures broker.answerHosted (fun _ => True) (silently action) (fun paths final => ∀ path ∈ paths, final.Shows path)
      (fun _ _ => True) hosting :=
  ensures_bind.mpr (ensures_of_forall (fun _ _ => (ensures_pure _).mpr nofun) fun _ _ => trivial)

theorem ensures_items_shown {paths : List ItemMetadata → List String}
    (h : ∀ items, ∀ path ∈ paths items, ∃ item ∈ items, itemPath item.id = path) :
    Ensures broker.answerHosted (fun _ => True) (do
        let items ← dbus (Provider.items id)
        pure (paths items)) (fun paths final => ∀ path ∈ paths, final.Shows path) (fun _ _ => True) hosting := by
  refine ensures_bind.mpr (ensures_mapError.mpr
    (ensures_bind.mpr (ensures_read (.listItems id) (fun fates body hbody => ?_)
    fun _ => trivial)))
  cases eq_of_listItems hbody
  refine (ensures_pure _).mpr ((ensures_pure _).mpr fun path hpath => ?_)
  obtain ⟨item, hitem, rfl⟩ := h _ path hpath
  exact shows_item (mem_itemsOf.mp (List.mem_of_mem_filter hitem))

/-- What a call shows is stored. -/
theorem ensures_shown (provider : Provider) (call : DbusCall) :
    Ensures broker.answerHosted (fun _ => True) (call.handler provider)
      (fun paths final => ∀ path ∈ paths, final.Shows path) (fun _ _ => True) hosting := by
  cases call with
  | searchItems attributes =>
      refine ensures_bind.mpr (ensures_bind.mpr (ensures_mapError.mpr (ensures_ofExcept_bind (fun _ _ => ?_)
        fun _ _ => trivial)))
      refine ensures_bind.mpr (ensures_read (.searchItems attributes) (fun fates body hbody => ?_) fun _ => trivial)
      have hstored := stored_of_shown hbody
      cases body with
      | items listed =>
          refine (ensures_pure _).mpr ((ensures_pure _).mpr ((ensures_pure _).mpr fun path hpath => ?_))
          obtain ⟨item, hitem, rfl⟩ := List.mem_map.mp hpath
          exact shows_item (hstored item hitem)
      | _ => exact (ensures_throw _).mpr trivial
  | readAlias name =>
      refine ensures_bind.mpr (ensures_bind.mpr
        (ensures_mapError.mpr (ensures_bind.mpr (ensures_read (.resolveAlias name)
        (fun fates body hbody => ?_) fun _ => trivial))))
      rcases body with _ | _ | _ | _ | _ | ⟨_ | record⟩ | _ | _ | _ | _
      case alias.some =>
        refine (ensures_pure _).mpr ((ensures_pure _).mpr ((ensures_pure _).mpr fun path hpath => ?_))
        obtain ⟨collection, hcollection⟩ := collection_of_resolveAlias hbody
        split_ifs at hpath
        · cases hpath
        · rw [List.mem_singleton.mp hpath]
          exact shows_collection hcollection
      case alias.none => exact (ensures_pure _).mpr ((ensures_pure _).mpr ((ensures_pure _).mpr nofun))
      all_goals exact (ensures_throw _).mpr trivial
  | collections =>
      refine ensures_bind.mpr (ensures_mapError.mpr (ensures_bind.mpr (ensures_read .listCollections
        (fun fates body hbody => ?_) fun _ => trivial)))
      cases eq_of_listCollections hbody
      refine (ensures_pure _).mpr ((ensures_pure _).mpr fun path hpath => ?_)
      obtain ⟨collection, hmem, rfl⟩ := List.mem_map.mp hpath
      exact shows_collection (mem_collectionsOf.mp hmem)
  | searchCollection id attributes =>
      refine ensures_items_shown fun items path hpath => ?_
      obtain ⟨item, hitem, rfl⟩ := List.mem_map.mp hpath
      exact ⟨item, List.mem_of_mem_filter hitem, rfl⟩
  | collectionItems id => exact ensures_items_shown fun items path hpath => List.mem_map.mp hpath
  | _ => exact ensures_silently

/-! ### Calls -/

/-- A call keeps the objects of what is stored. -/
theorem Sound.ensures_retains (hosting : Hosting) (hsound : broker.Sound hosting.vault) (provider : Provider)
    (call : DbusCall) :
    Ensures broker.answerHosted (fun _ => True) (call.handler provider) (fun _ final => Retains hosting final ∧
        ∀ target path, call.Creates target → target.objectPath = some path → path ∈ final.objects)
      (fun _ => Retains hosting) hosting := by
  have hsilently : ∀ {β : Type} {action : HandlerAction β},
      broker.KeepsSteady (fun _ => False) action (fun _ _ => True) hosting →
      Ensures broker.answerHosted (fun _ => True) (silently action)
        (fun _ => Retains hosting) (fun _ => Retains hosting)
        hosting := fun hkeeps =>
    ensures_bind.mpr (ensures_mono (fun _ _ h => (ensures_pure _).mpr (h.1.retains rfl nofun))
      (fun _ _ h => h.retains rfl nofun)
      hkeeps)
  by_cases hremoves : call.Removes
  · cases call with
    | createCollection properties name draws =>
        refine ensures_bind.mpr (ensures_mono (fun _ final hfinal => (ensures_pure _).mpr ⟨hfinal.1, ?_⟩)
          (fun _ _ h => h)
          ensures_serviceCreateCollection)
        rintro _ path rfl hpath
        cases hpath
        exact hfinal.2
    | createItem id sender properties secret replace draws =>
        refine ensures_bind.mpr (ensures_mono (fun _ final hfinal => (ensures_pure _).mpr ⟨hfinal.1, ?_⟩)
          (fun _ _ h => h)
          ensures_collectionCreateItem)
        rintro _ path rfl hpath
        cases hpath
        exact hfinal.2
    | deleteCollection id =>
        exact ensures_mono (fun _ _ h => ⟨h, nofun⟩) (fun _ _ h => h) (hsilently (keepsSteady_collectionDelete hsound))
    | deleteItem id => exact ensures_mono (fun _ _ h => ⟨h, nofun⟩) (fun _ _ h => h) (hsilently keepsSteady_itemDelete)
    | _ => exact hremoves.elim
  · have hnone : ∀ target, ¬ call.Creates target := by
      cases call with
      | createCollection | createItem => exact absurd trivial hremoves
      | _ => exact fun _ h => h
    have hquiet : Calls ProviderCall.Quiet (call.handler provider) := by
      refine call.calls_handler provider (fun _ _ => trivial) (fun path hpath => ?_) (fun _ => trivial)
        fun operation hsends target hcreates => hnone target (call.creates_of_sends hsends hcreates)
      obtain ⟨name, hname⟩ := hpath.resolve_left hremoves
      exact fun target => TargetName.objectPath_ne_aliasPath hname
    have hkeeps : broker.KeepsSteady (fun _ => False) (call.handler provider) (fun _ => Offers hosting) hosting :=
      keepsSteady_of_calls hquiet
    exact ensures_mono (fun _ _ h => ⟨h.1.retains rfl nofun, fun target _ hcreates => absurd hcreates (hnone target)⟩)
      (fun _ _ h => h.retains rfl nofun) hkeeps

theorem answerHosted_bus {request : ProviderCall} (h : request.IsBus) (choice : CallChoice) (hosting : Hosting) :
    (broker.answerHosted request choice hosting).2.vault = hosting.vault := by
  obtain ⟨fates, fault⟩ := choice
  cases request with
  | broker => exact h.elim
  | emit => rfl
  | register | unregister => cases fault <;> rfl

/-- A call adds no other record than the one it is meant to add. -/
theorem ensures_stored (provider : Provider) (call : DbusCall) :
    let stored := fun final : Hosting => ∀ target, TargetName.IsRecord target → (final.vault.lookup target).isSome →
      (hosting.vault.lookup target).isSome ∨ call.Creates target
    Ensures broker.answerHosted (fun _ => True) (call.handler provider)
      (fun _ => stored) (fun _ => stored) hosting := by
  intro stored
  refine ensures_of_calls stored (P := fun request => request.IsBus ∨ ∃ operation, request = .broker operation ∧
    ∀ target, operation.Creates target → call.Creates target) (fun request hrequest choice final hfinal => ?_)
    (call.calls_handler provider (fun _ _ => .inl trivial) (fun _ _ => .inl trivial) (fun _ => .inl trivial)
      fun operation hsends => .inr ⟨operation, rfl, fun _ => call.creates_of_sends hsends⟩) fun _ _ h => .inl h
  intro target htarget hlater
  rcases hrequest with hbus | ⟨operation, rfl, hcreates⟩
  · rw [answerHosted_bus hbus] at hlater
    exact hfinal target htarget hlater
  · rcases isSome_of_respond htarget hlater with hbefore | hnew
    · exact hfinal target htarget hbefore
    · exact .inr (hcreates target hnew)

theorem Sound.ensures_sound (hosting : Hosting) (hsound : broker.Sound hosting.vault) (provider : Provider)
    (call : DbusCall) :
    Ensures broker.answerHosted (fun _ => True) (call.handler provider) (fun _ final => broker.Sound final.vault)
      (fun _ final => broker.Sound final.vault) hosting := by
  refine ensures_of_calls (fun final : Hosting => broker.Sound final.vault) (P := fun _ => True)
    (fun request _ choice final hfinal => ?_)
    (call.calls_handler provider (fun _ _ => trivial) (fun _ _ => trivial) (fun _ => trivial) fun _ _ => trivial) hsound
  by_cases hbus : request.IsBus
  · rw [answerHosted_bus hbus]
    exact hfinal
  · cases request with
    | broker operation => exact hfinal.respond _
    | _ => exact absurd trivial hbus

end Broker

end WincredLibsecret
