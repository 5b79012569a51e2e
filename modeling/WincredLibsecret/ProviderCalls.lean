import WincredLibsecret.BrokerFootprint
import WincredLibsecret.ProviderUpdates

/-! The calls a client can make: the methods and properties of the service, the collections and the items that
reach the broker. The value of a call is the list of collections and items it shows to the client, as their
paths. -/

namespace WincredLibsecret

open Effect

inductive DbusCall where
  | createCollection (properties : BTreeMap String DbusValue) (name : String) (draws : Draws)
  | searchItems (attributes : BTreeMap String String)
  | getSecrets (sender : Option String) (items : List String) (session : String) (draws : Draws)
  | readAlias (name : String)
  | setAlias (name collection : String)
  | collections
  | aliases
  | deleteCollection (id : Uuid)
  | searchCollection (id : Uuid) (attributes : BTreeMap String String)
  | createItem (id : Uuid) (sender : Option String) (properties : BTreeMap String DbusValue) (secret : DbusSecret)
      (replace : Bool) (draws : Draws)
  | collectionLabel (id : Uuid)
  | setCollectionLabel (id : Uuid) (label : String) (draws : Draws)
  | collectionCreated (id : Uuid)
  | collectionModified (id : Uuid)
  | collectionItems (id : Uuid)
  | deleteItem (id : Uuid)
  | getSecret (id : Uuid) (sender : Option String) (session : String) (draws : Draws)
  | setSecret (id : Uuid) (sender : Option String) (secret : DbusSecret) (draws : Draws)
  | itemLabel (id : Uuid)
  | setItemLabel (id : Uuid) (label : String) (draws : Draws)
  | itemAttributes (id : Uuid)
  | setItemAttributes (id : Uuid) (attributes : BTreeMap String String) (draws : Draws)
  | itemCreated (id : Uuid)
  | itemModified (id : Uuid)

/-- A call that shows no object. -/
def silently {α : Type} (action : HandlerAction α) : HandlerAction (List String) := do
  let _ ← action
  pure []

namespace DbusCall

def handler (provider : Provider) : DbusCall → HandlerAction (List String)
  | .createCollection properties name draws => silently (SecretService.createCollection properties name draws)
  | .searchItems attributes => do
      let (unlocked, _) ← SecretService.searchItems attributes
      pure unlocked
  | .getSecrets sender items session draws => silently (SecretService.getSecrets provider sender items session draws)
  | .readAlias name => do
      let path ← SecretService.readAlias name
      pure (if path = "/" then [] else [path])
  | .setAlias name collection => silently (SecretService.setAlias name collection)
  | .collections => SecretService.collections
  | .aliases => silently SecretService.aliases
  | .deleteCollection id => silently (CollectionObject.delete id)
  | .searchCollection id attributes => CollectionObject.searchItems id attributes
  | .createItem id sender properties secret replace draws =>
      silently (CollectionObject.createItem provider id sender properties secret replace draws)
  | .collectionLabel id => silently (CollectionObject.label id)
  | .setCollectionLabel id label draws => silently (CollectionObject.setLabel id label draws)
  | .collectionCreated id => silently (CollectionObject.created id)
  | .collectionModified id => silently (CollectionObject.modified id)
  | .collectionItems id => CollectionObject.items id
  | .deleteItem id => silently (ItemObject.delete id)
  | .getSecret id sender session draws => silently (ItemObject.getSecret provider id sender session draws)
  | .setSecret id sender secret draws => silently (ItemObject.setSecret provider id sender secret draws)
  | .itemLabel id => silently (ItemObject.label id)
  | .setItemLabel id label draws => silently (ItemObject.setLabel id label draws)
  | .itemAttributes id => silently (ItemObject.attributes id)
  | .setItemAttributes id attributes draws => silently (ItemObject.setAttributes id attributes draws)
  | .itemCreated id => silently (ItemObject.created id)
  | .itemModified id => silently (ItemObject.modified id)

/-- The record a call is meant to add. -/
def Creates : DbusCall → TargetName → Prop
  | .createCollection _ _ draws => (· = .collection draws.id)
  | .createItem _ _ _ _ _ draws => (· = .itemMetadata draws.id)
  | _ => fun _ => False

/-- The requests a call may send to the broker, with what the provider has checked of them. -/
inductive Sends : DbusCall → Operation → Prop
  | createCollection {properties name draws label} (hlabel : validateLabel label = .ok ()) :
      Sends (.createCollection properties name draws) (.createCollection ⟨1, draws.id, label, draws.now, draws.now⟩)
  | deleteCreated {properties name draws} (id : Uuid) :
    Sends (.createCollection properties name draws) (.deleteCollection id)
  | nameCreated {properties name draws} (hname : validateAliasName name = .ok ()) (id : Uuid) :
      Sends (.createCollection properties name draws) (.setAlias ⟨1, name, id⟩)
  | unnameCreated {properties name draws} (hname : validateAliasName name = .ok ()) :
      Sends (.createCollection properties name draws) (.removeAlias name)
  | listAliases (call : DbusCall) : Sends call .listAliases
  | listCollections (call : DbusCall) : Sends call .listCollections
  | getCollection (call : DbusCall) (id : Uuid) : Sends call (.getCollection id)
  | listItems (call : DbusCall) (id : Uuid) : Sends call (.listItems id)
  | getItem (call : DbusCall) (id : Uuid) (includeSecret : Bool) : Sends call (.getItem id includeSecret)
  | searchItems {attributes} (hattributes : validateAttributes attributes = .ok ()) :
      Sends (.searchItems attributes) (.searchItems attributes)
  | resolveAlias (name : String) : Sends (.readAlias name) (.resolveAlias name)
  | setAlias {name collection} (hname : validateAliasName name = .ok ()) (id : Uuid) :
      Sends (.setAlias name collection) (.setAlias ⟨1, name, id⟩)
  | removeAlias {name collection} (hname : validateAliasName name = .ok ()) :
      Sends (.setAlias name collection) (.removeAlias name)
  | deleteCollection (id : Uuid) : Sends (.deleteCollection id) (.deleteCollection id)
  | createItem {id sender properties sent replace draws label attributes contentType} (secret : SecretBytes)
      (hlabel : validateLabel label = .ok ()) (hattributes : validateAttributes attributes = .ok ())
      (hcontentType : validateContentType contentType = .ok ()) :
      Sends (.createItem id sender properties sent replace draws) (.createOrReplaceItem
        ⟨1, draws.id, id, label, attributes, contentType, draws.now, draws.now, draws.generation⟩ secret replace)
  | deleteNew {id sender properties sent replace draws} (item : Uuid) :
      Sends (.createItem id sender properties sent replace draws) (.deleteItem item)
  | updateCollection {id label draws} (found : CollectionMetadata) (hlabel : validateLabel label = .ok ()) :
      Sends (.setCollectionLabel id label draws)
        (.updateCollection { found with label := label, modified := draws.now })
  | deleteItem (id : Uuid) : Sends (.deleteItem id) (.deleteItem id)
  | updateItem (call : DbusCall) {item : ItemMetadata} (secret : Option SecretBytes) (draws : Draws)
      (hlabel : validateLabel item.label = .ok ()) (hattributes : validateAttributes item.attributes = .ok ())
      (hcontentType : validateContentType item.contentType = .ok ()) :
      Sends call (Provider.updateRequest item secret draws)

theorem creates_of_sends (call : DbusCall) {operation : Operation} (h : call.Sends operation) {target : TargetName}
    (hcreates : operation.Creates target) : call.Creates target := by
  cases h with
  | createCollection | createItem => exact hcreates
  | _ => exact hcreates.elim

end DbusCall

section

open Action

variable {P : ProviderCall → Prop} {α : Type}

theorem calls_silently {action : HandlerAction α} (h : Calls P action) : Calls P (silently action) :=
  calls_bind h fun _ => calls_pure _

theorem calls_dbus {action : ProviderAction α} (h : Calls P action) : Calls P (dbus action) := calls_mapError h

theorem calls_ignore {action : ProviderAction α} (h : Calls P action) : Calls P (ignore action) :=
  calls_bind (calls_attempt (calls_dbus h)) fun _ => calls_pure _

theorem calls_orUndo {action : HandlerAction α} {undo : HandlerAction Unit} (h : Calls P action)
    (hundo : Calls P undo) :
    Calls P (orUndo action undo) := by
  refine calls_bind (calls_attempt h) fun outcome => ?_
  cases outcome with
  | error error => exact calls_bind hundo fun _ => calls_throw _
  | ok value => exact calls_pure _

theorem calls_tryUnregister {path : String} (h : P (.unregister path)) : Calls P (tryUnregister path) :=
  calls_bind (calls_attempt (calls_perform h)) fun _ => calls_pure _

/-- A check that fails ends the computation. -/
theorem calls_check_bind {result : Except ProtocolError Unit} {next : Unit → ProviderAction α}
    (h : result = .ok () → Calls P (next ())) : Calls P (Provider.check result >>= next) := by
  cases result with
  | error error => exact calls_throw _
  | ok value => exact h rfl

/-- A request whose answer the provider takes in one form only. -/
theorem calls_response_bind {operation : Operation} {next : ResponseBody → ProviderAction α}
    (h : P (.broker operation)) (hnext : ∀ body, Calls P (next body)) :
    Calls P (Provider.response operation >>= next) :=
  calls_bind (calls_perform h) hnext

namespace Provider

theorem calls_collections (h : P (.broker .listCollections)) : Calls P Provider.collections :=
  calls_response_bind h fun body => by cases body <;> trivial

variable {id : Uuid}

theorem calls_collection (h : P (.broker (.getCollection id))) : Calls P (Provider.collection id) :=
  calls_response_bind h fun body => by cases body <;> trivial

theorem calls_items (h : P (.broker (.listItems id))) : Calls P (Provider.items id) :=
  calls_response_bind h fun body => by cases body <;> trivial

theorem calls_item {includeSecret : Bool} (h : P (.broker (.getItem id includeSecret))) :
    Calls P (Provider.item id includeSecret) :=
  calls_response_bind h fun body => by cases body <;> trivial

theorem calls_createCollection {label : String} {draws : Draws} (h : validateLabel label = .ok () →
    P (.broker (.createCollection ⟨1, draws.id, label, draws.now, draws.now⟩))) :
    Calls P (Provider.createCollection label draws) :=
  calls_check_bind fun hlabel => calls_response_bind (h hlabel) fun body => by cases body <;> trivial

theorem calls_updateCollectionLabel {label : String} {draws : Draws} (hread : P (.broker (.getCollection id)))
    (h : ∀ found : CollectionMetadata, validateLabel label = .ok () →
      P (.broker (.updateCollection { found with label := label, modified := draws.now }))) :
    Calls P (Provider.updateCollectionLabel id label draws) :=
  calls_check_bind fun hlabel => calls_bind (calls_collection hread) fun found =>
    calls_response_bind (h found hlabel) fun body => by cases body <;> trivial

theorem calls_deleteCollection (h : P (.broker (.deleteCollection id))) : Calls P (Provider.deleteCollection id) :=
  calls_response_bind h fun body => by cases body <;> trivial

theorem calls_createItem {label contentType : String} {attributes : BTreeMap String String} {secret : SecretBytes}
    {replace : Bool} {draws : Draws}
    (h : validateLabel label = .ok () → validateAttributes attributes = .ok () →
      validateContentType contentType = .ok () → P (.broker (.createOrReplaceItem
        ⟨1, draws.id, id, label, attributes, contentType, draws.now, draws.now, draws.generation⟩ secret replace))) :
    Calls P (Provider.createItem id label attributes contentType secret replace draws) :=
  calls_check_bind fun hlabel => calls_check_bind fun hattributes => calls_check_bind fun hcontentType =>
    calls_response_bind (h hlabel hattributes hcontentType) fun body => by cases body <;> trivial

theorem calls_updateItem {item : ItemMetadata} {secret : Option SecretBytes} {draws : Draws}
    (h : validateLabel item.label = .ok () → validateAttributes item.attributes = .ok () →
      validateContentType item.contentType = .ok () → P (.broker (Provider.updateRequest item secret draws))) :
    Calls P (Provider.updateItem item secret draws) :=
  calls_check_bind fun hlabel => calls_check_bind fun hattributes => calls_check_bind fun hcontentType =>
    calls_response_bind (h hlabel hattributes hcontentType) fun body => by cases body <;> trivial

theorem calls_deleteItem (h : P (.broker (.deleteItem id))) : Calls P (Provider.deleteItem id) :=
  calls_response_bind h fun body => by cases body <;> trivial

theorem calls_resolveAlias {name : String} (h : P (.broker (.resolveAlias name))) :
    Calls P (Provider.resolveAlias name) :=
  calls_response_bind h fun body => by cases body <;> trivial

theorem calls_aliases (h : P (.broker .listAliases)) : Calls P Provider.aliases :=
  calls_response_bind h fun body => by cases body <;> trivial

theorem calls_setAlias {name : String} {collectionId : Option Uuid}
    (hset : validateAliasName name = .ok () → ∀ id, P (.broker (.setAlias ⟨1, name, id⟩)))
    (hremove : validateAliasName name = .ok () → P (.broker (.removeAlias name))) :
    Calls P (Provider.setAlias name collectionId) := by
  refine calls_check_bind fun hname => ?_
  cases collectionId with
  | none =>
      refine calls_response_bind (hremove hname) fun body => ?_
      rcases body with _ | _ | _ | _ | _ | ⟨_ | _⟩ | _ | _ | _ | _ <;> trivial
  | some id =>
      refine calls_response_bind (hset hname id) fun body => ?_
      rcases body with _ | _ | _ | _ | _ | ⟨_ | _⟩ | _ | _ | _ | _ <;> trivial

theorem calls_search {attributes : BTreeMap String String}
    (h : validateAttributes attributes = .ok () → P (.broker (.searchItems attributes))) :
    Calls P (Provider.search attributes) :=
  calls_check_bind fun hattributes => calls_response_bind (h hattributes) fun body => by cases body <;> trivial

end Provider

/-- The objects a call may remove, besides those of aliases. -/
def DbusCall.Removes : DbusCall → Prop
  | .createCollection _ _ _ | .deleteCollection _ | .createItem _ _ _ _ _ _ | .deleteItem _ => True
  | _ => False

variable {call : DbusCall}

theorem calls_aliasesChanged (hbus : ∀ signal, P (.emit signal)) (h : P (.broker .listAliases)) :
    Calls P SecretService.aliasesChanged :=
  calls_mapError (calls_bind (calls_bind (calls_dbus (Provider.calls_aliases h)) fun _ => calls_pure _) fun _ =>
    calls_perform (hbus _))

theorem calls_registerAlias {path : String} {id : Uuid} {error : String → SecretServiceError}
    (hregister : ∀ path object, P (.register path object)) (hunregister : P (.unregister path)) :
    Calls P (SecretService.registerAlias path id error) :=
  calls_bind (calls_tryUnregister hunregister) fun _ => calls_perform (hregister _ _)

theorem calls_readSecret {id : Uuid} (h : P (.broker (.getItem id true))) : Calls P (SecretService.readSecret id) := by
  refine calls_bind (calls_dbus (Provider.calls_item h)) fun found => ?_
  rcases found with ⟨item, _ | secret⟩ <;> trivial

theorem calls_readSecrets (h : ∀ id, P (.broker (.getItem id true))) (paths : List String) :
    Calls P (SecretService.readSecrets paths) := by
  induction paths with
  | nil => exact calls_pure _
  | cons path rest ih =>
      exact calls_bind (calls_ofExcept _) fun id => calls_bind (calls_readSecret (h id)) fun _ =>
        calls_bind ih fun _ => calls_pure _

theorem calls_change {id : Uuid} {edit : ItemMetadata → ItemMetadata} {secret : Option SecretBytes} {draws : Draws}
    {notify : Uuid → HandlerAction Unit} (hread : P (.broker (.getItem id false)))
    (hupdate : ∀ item : ItemMetadata, validateLabel item.label = .ok () → validateAttributes item.attributes = .ok () →
      validateContentType item.contentType = .ok () → P (.broker (Provider.updateRequest item secret draws)))
    (hnotify : ∀ collection, Calls P (notify collection)) : Calls P (ItemObject.change id edit secret draws notify) :=
  calls_bind (calls_dbus (Provider.calls_item hread)) fun _ =>
    calls_bind (calls_dbus (Provider.calls_updateItem (hupdate _))) fun _ => hnotify _

theorem calls_createCollection {properties : BTreeMap String DbusValue} {name : String} {draws : Draws}
    (hregister : ∀ path object, P (.register path object)) (hunregister : ∀ path, P (.unregister path))
    (hemit : ∀ signal, P (.emit signal))
    (hsends : ∀ operation, DbusCall.Sends (.createCollection properties name draws) operation → P (.broker operation)) :
    Calls P (SecretService.createCollection properties name draws) := by
  have hdelete : ∀ id, Calls P (ignore (Provider.deleteCollection id)) := fun id =>
    calls_ignore (Provider.calls_deleteCollection (hsends _ (.deleteCreated id)))
  have halias : ∀ id, Calls P (Provider.setAlias name id) := fun id =>
    Provider.calls_setAlias (fun hname id => hsends _ (.nameCreated hname id)) fun hname =>
      hsends _ (.unnameCreated hname)
  refine calls_bind (calls_ofExcept _) fun label => ?_
  refine calls_bind (calls_dbus (Provider.calls_createCollection fun hlabel => hsends _ (.createCollection hlabel)))
    fun collection => ?_
  refine calls_bind (calls_orUndo (calls_perform (hregister _ _)) (hdelete _)) fun _ => ?_
  have haliases : Calls P SecretService.aliasesChanged := calls_aliasesChanged hemit (hsends _ (.listAliases _))
  have hundo : Calls P (do
      tryUnregister (collectionPath collection.id)
      ignore (Provider.deleteCollection collection.id)) :=
    calls_bind (calls_tryUnregister (hunregister _)) fun _ => hdelete _
  have hlast : Calls P (do
      emit (.collectionCreated collection.id) fun _ => .failed "unable to emit collection signal"
      pure (collectionPath collection.id, "/")) :=
    calls_bind (calls_perform (hemit _)) fun _ => calls_pure _
  dsimp only
  split_ifs
  · refine calls_bind (calls_orUndo (calls_dbus (halias _)) hundo) fun _ => ?_
    cases aliasPath name with
    | none => exact calls_bind haliases fun _ => hlast
    | some named =>
        refine calls_bind (calls_orUndo (calls_registerAlias hregister (hunregister _)) ?_) fun _ =>
          calls_bind haliases fun _ => hlast
        exact calls_bind (calls_ignore (halias none)) fun _ => hundo
  · exact hlast

theorem calls_createItem {provider : Provider} {id : Uuid} {sender : Option String}
    {properties : BTreeMap String DbusValue} {sent : DbusSecret} {replace : Bool} {draws : Draws}
    (hregister : ∀ path object, P (.register path object)) (hunregister : ∀ path, P (.unregister path))
    (hemit : ∀ signal, P (.emit signal))
    (hsends : ∀ operation, DbusCall.Sends (.createItem id sender properties sent replace draws) operation →
      P (.broker operation)) :
    Calls P (CollectionObject.createItem provider id sender properties sent replace draws) := by
  refine calls_bind (calls_ofExcept _) fun owner => calls_bind (calls_ofExcept _) fun (label, attributes) => ?_
  refine calls_bind (calls_ofExcept _) fun (_, secret, contentType) =>
    calls_bind (calls_dbus (calls_ofExcept _)) fun _ => ?_
  refine calls_bind (calls_dbus (Provider.calls_createItem fun hlabel hattributes hcontentType =>
    hsends _ (.createItem secret hlabel hattributes hcontentType))) fun (item, replaced, _) => ?_
  refine calls_bind (calls_forM fun _ _ => calls_bind (calls_tryUnregister (hunregister _)) fun _ =>
    calls_perform (hemit _)) fun _ => ?_
  refine calls_bind (calls_orUndo (calls_perform (hregister _ _)) (calls_ignore (Provider.calls_deleteItem
    (hsends _ (.deleteNew _))))) fun _ => ?_
  exact calls_bind (calls_perform (hemit _)) fun _ => calls_pure _

theorem calls_deleteCollection {id : Uuid} (hunregister : ∀ path, P (.unregister path))
    (hemit : ∀ signal, P (.emit signal))
    (hsends : ∀ operation, DbusCall.Sends (.deleteCollection id) operation → P (.broker operation)) :
    Calls P (CollectionObject.delete id) := by
  refine calls_bind (calls_dbus (Provider.calls_items (hsends _ (.listItems _ id)))) fun items => ?_
  refine calls_bind (calls_dbus (Provider.calls_aliases (hsends _ (.listAliases _)))) fun aliases => ?_
  refine calls_bind (calls_dbus (Provider.calls_deleteCollection (hsends _ (.deleteCollection id)))) fun _ => ?_
  refine calls_bind (calls_forM fun _ _ => calls_tryUnregister (hunregister _)) fun _ => ?_
  refine calls_bind (calls_forM fun record _ => ?_) fun _ =>
    calls_bind (calls_perform (hunregister _)) fun _ => calls_bind (calls_perform (hemit _)) fun _ => calls_pure _
  cases aliasPath record.name with
  | none => exact calls_pure _
  | some path => exact calls_tryUnregister (hunregister _)

theorem calls_setAlias {name collection : String} (hregister : ∀ path object, P (.register path object))
    (hunregister : ∀ path, aliasPath name = some path → P (.unregister path)) (hemit : ∀ signal, P (.emit signal))
    (hsends : ∀ operation, DbusCall.Sends (.setAlias name collection) operation → P (.broker operation)) :
    Calls P (SecretService.setAlias name collection) := by
  have halias : ∀ id, Calls P (Provider.setAlias name id) := fun id =>
    Provider.calls_setAlias (fun hname id => hsends _ (.setAlias hname id)) fun hname => hsends _ (.removeAlias hname)
  refine calls_bind (calls_ofExcept _) fun id => calls_bind (calls_dbus (halias id)) fun _ => ?_
  have haliases : Calls P SecretService.aliasesChanged := calls_aliasesChanged hemit (hsends _ (.listAliases _))
  cases hpath : aliasPath name with
  | none => exact haliases
  | some path =>
      cases id with
      | none => exact calls_bind (calls_tryUnregister (hunregister path hpath)) fun _ => haliases
      | some id => exact calls_bind (calls_registerAlias hregister (hunregister path hpath)) fun _ => haliases

/-- A call sends no other requests than these, and unless it is one of those that remove objects it removes
only those of aliases. -/
theorem DbusCall.calls_handler (provider : Provider) (hregister : ∀ path object, P (.register path object))
    (hunregister : ∀ path, call.Removes ∨ (∃ name, aliasPath name = some path) → P (.unregister path))
    (hemit : ∀ signal, P (.emit signal)) (hsends : ∀ operation, call.Sends operation → P (.broker operation)) :
    Calls P (call.handler provider) := by
  have hcollection : ∀ id, Calls P (dbus (Provider.collection id)) := fun id =>
    calls_dbus (Provider.calls_collection (hsends _ (.getCollection _ id)))
  have hitem : ∀ id, Calls P (dbus (Provider.item id false)) := fun id =>
    calls_dbus (Provider.calls_item (hsends _ (.getItem _ id false)))
  have hitems : ∀ id, Calls P (dbus (Provider.items id)) := fun id =>
    calls_dbus (Provider.calls_items (hsends _ (.listItems _ id)))
  have hchange : ∀ id edit secret draws notify, (∀ collection, Calls P (notify collection)) →
      Calls P (ItemObject.change id edit secret draws notify) := fun id _ secret draws _ =>
    calls_change (hsends _ (.getItem _ id false)) fun _ hlabel hattributes hcontentType =>
      hsends _ (.updateItem _ secret draws hlabel hattributes hcontentType)
  have hread : ∀ id, P (.broker (.getItem id true)) := fun id => hsends _ (.getItem _ id true)
  cases call with
  | createCollection properties name draws =>
      exact calls_silently (calls_createCollection hregister (fun path => hunregister path (.inl trivial)) hemit hsends)
  | searchItems attributes =>
      refine calls_bind (calls_bind
        (calls_dbus (Provider.calls_search fun hattributes => hsends _ (.searchItems hattributes)))
        fun _ => calls_pure _) fun _ => calls_pure _
  | getSecrets sender items session draws =>
      refine calls_silently (calls_bind (calls_ofExcept _) fun owner => ?_)
      cases sessionId session with
      | none => exact calls_throw _
      | some session =>
          exact calls_bind (calls_readSecrets hread items) fun _ => calls_bind (calls_ofExcept _) fun _ => calls_pure _
  | readAlias name =>
      refine calls_bind (calls_bind (calls_dbus (Provider.calls_resolveAlias (hsends _ (.resolveAlias name))))
        fun record => ?_) fun _ => calls_pure _
      cases record <;> trivial
  | setAlias name collection =>
      exact calls_silently (calls_setAlias hregister
        (fun path hpath => hunregister path (.inr ⟨name, hpath⟩)) hemit hsends)
  | collections =>
      exact calls_bind (calls_dbus (Provider.calls_collections (hsends _ (.listCollections _)))) fun _ => calls_pure _
  | aliases =>
      exact calls_silently (calls_bind (calls_dbus (Provider.calls_aliases (hsends _ (.listAliases _)))) fun _ =>
        calls_pure _)
  | deleteCollection id =>
      exact calls_silently (calls_deleteCollection (fun path => hunregister path (.inl trivial)) hemit hsends)
  | searchCollection id attributes => exact calls_bind (hitems id) fun _ => calls_pure _
  | createItem id sender properties secret replace draws =>
      exact calls_silently (calls_createItem hregister (fun path => hunregister path (.inl trivial)) hemit hsends)
  | collectionLabel id | collectionCreated id | collectionModified id =>
      exact calls_silently (calls_bind (hcollection id) fun _ => calls_pure _)
  | setCollectionLabel id label draws =>
      refine calls_silently (calls_bind
        (calls_dbus (Provider.calls_updateCollectionLabel (hsends _ (.getCollection _ id))
        fun found hlabel => hsends _ (.updateCollection found hlabel))) fun _ => calls_perform (hemit _))
  | collectionItems id => exact calls_bind (hitems id) fun _ => calls_pure _
  | deleteItem id =>
      refine calls_silently (calls_bind (hitem id) fun _ => calls_bind (calls_dbus (Provider.calls_deleteItem
        (hsends _ (.deleteItem id)))) fun _ => calls_bind (calls_perform (hunregister _ (.inl trivial))) fun _ => ?_)
      exact calls_bind (calls_perform (hemit _)) fun _ => calls_pure _
  | getSecret id sender session draws =>
      refine calls_silently (calls_bind (calls_ofExcept _) fun owner => ?_)
      cases sessionId session with
      | none => exact calls_throw _
      | some session => exact calls_bind (calls_readSecret (hread id)) fun _ => calls_ofExcept _
  | setSecret id sender secret draws =>
      refine calls_silently (calls_bind (calls_ofExcept _) fun owner => calls_bind (calls_ofExcept _) fun _ => ?_)
      exact hchange _ _ _ _ _ fun _ => calls_bind (calls_perform (hemit _)) fun _ => calls_perform (hemit _)
  | setItemLabel id label draws => exact calls_silently (hchange _ _ _ _ _ fun _ => calls_perform (hemit _))
  | setItemAttributes id attributes draws => exact calls_silently (hchange _ _ _ _ _ fun _ => calls_perform (hemit _))
  | itemLabel id | itemAttributes id | itemCreated id | itemModified id =>
      exact calls_silently (calls_bind (hitem id) fun _ => calls_pure _)

end

end WincredLibsecret
