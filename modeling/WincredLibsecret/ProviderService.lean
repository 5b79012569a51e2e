import WincredLibsecret.EffectAction
import WincredLibsecret.KeyedRecords
import WincredLibsecret.ProtocolMessage
import WincredLibsecret.ProviderSession

/-! The provider: the D-Bus methods and properties of the Secret Service, as computations that call the
broker, register and unregister D-Bus objects and emit signals. Any of these calls can fail. The clock
and the random numbers a method draws are its parameters. Left out are the parts that reach neither the
broker nor its data: opening and closing sessions, locking, prompts, log lines and the wrapping of a
property's error into the general D-Bus error. -/

namespace WincredLibsecret

open Effect KeyedRecords

/-! ### Calls -/

inductive BusObject where
  | collection (id : Uuid)
  | item (id : Uuid)
  | prompt
  deriving DecidableEq

inductive BusSignal where
  | collectionCreated (collection : Uuid)
  | collectionDeleted (collection : Uuid)
  | collectionChanged (collection : Uuid)
  | aliasesChanged
  | itemCreated (collection item : Uuid)
  | itemDeleted (collection item : Uuid)
  | itemChanged (collection item : Uuid)
  | secretChanged (item : Uuid)
  deriving DecidableEq

inductive ProviderCall where
  | broker (operation : Operation)
  | register (path : String) (object : BusObject)
  | unregister (path : String)
  | emit (signal : BusSignal)
  deriving DecidableEq

def ProviderReply : ProviderCall → Type
  | .broker _ => ResponseBody
  | .register _ _ | .unregister _ | .emit _ => Unit

/-- The failure of a call: the broker client's error or the text of a D-Bus error. -/
inductive ProviderFault where
  | broker (error : ProviderError)
  | bus (message : String)
  deriving DecidableEq

abbrev ProviderAction := Action ProviderCall ProviderReply ProviderFault ProviderError

abbrev HandlerAction := Action ProviderCall ProviderReply ProviderFault SecretServiceError

/-- A broker call fails with an error of the broker client. -/
def ProviderFault.toProviderError : ProviderFault → ProviderError
  | .broker error => error
  | .bus _ => .transport

def ProviderFault.message : ProviderFault → String
  | .broker _ => ""
  | .bus message => message

def dbus {α : Type} (action : ProviderAction α) : HandlerAction α :=
  Action.mapError SecretServiceError.ofProvider action

def register (path : String) (object : BusObject) (error : String → SecretServiceError) : HandlerAction Unit :=
  Action.perform (fun fault => error fault.message) (ProviderCall.register path object)

def unregister (path : String) (error : SecretServiceError) : HandlerAction Unit :=
  Action.perform (fun _ => error) (ProviderCall.unregister path)

/-- An object that may already be gone. -/
def tryUnregister (path : String) : HandlerAction Unit := do
  let _ ← Action.attempt (unregister path (.failed ""))
  pure ()

def emit (signal : BusSignal) (error : String → SecretServiceError) : HandlerAction Unit :=
  Action.perform (fun fault => error fault.message) (ProviderCall.emit signal)

/-- Runs a broker call for its effect and ignores its error. -/
def ignore {α : Type} (action : ProviderAction α) : HandlerAction Unit := do
  let _ ← Action.attempt (dbus action)
  pure ()

/-- Undoes earlier steps if this one fails, and then fails as it did. -/
def orUndo {α : Type} (action : HandlerAction α) (undo : HandlerAction Unit) : HandlerAction α := do
  let outcome ← Action.attempt action
  match outcome with
  | .error error => do
      undo
      throw error
  | .ok value => pure value

/-- The clock and the random numbers of one method call. -/
structure Draws where
  now : UInt64
  id : Uuid
  generation : Uuid
  iv : Nat → Option (Vector UInt8 16)

/-- A D-Bus value, as far as the provider looks into it. -/
inductive DbusValue where
  | text (value : String)
  | textMap (entries : BTreeMap String String)
  | bytes (value : Blob)
  | other

/-! ### Broker calls -/

namespace Provider

def response (operation : Operation) : ProviderAction ResponseBody :=
  Action.perform ProviderFault.toProviderError (ProviderCall.broker operation)

/-- A check of the protocol crate; its error becomes the provider's. -/
def check (result : Except ProtocolError Unit) : ProviderAction Unit :=
  Action.ofExcept (result.mapError ProviderError.ofProtocol)

def collections : ProviderAction (List CollectionMetadata) := do
  let body ← response .listCollections
  match body with
  | .collections collections => pure collections
  | _ => throw .transport

def collection (id : Uuid) : ProviderAction CollectionMetadata := do
  let body ← response (.getCollection id)
  match body with
  | .collection found => pure found
  | _ => throw .transport

def items (collectionId : Uuid) : ProviderAction (List ItemMetadata) := do
  let body ← response (.listItems collectionId)
  match body with
  | .items listed => pure listed
  | _ => throw .transport

def item (id : Uuid) (includeSecret : Bool) : ProviderAction (ItemMetadata × Option SecretBytes) := do
  let body ← response (.getItem id includeSecret)
  match body with
  | .item found secret => pure (found, secret)
  | _ => throw .transport

def createCollection (label : String) (draws : Draws) : ProviderAction CollectionMetadata := do
  check (validateLabel label)
  let body ← response (.createCollection ⟨1, draws.id, label, draws.now, draws.now⟩)
  match body with
  | .collection created => pure created
  | _ => throw .transport

def updateCollectionLabel (id : Uuid) (label : String) (draws : Draws) : ProviderAction Unit := do
  check (validateLabel label)
  let found ← collection id
  let body ← response (.updateCollection { found with label := label, modified := draws.now })
  match body with
  | .collection _ => pure ()
  | _ => throw .transport

def deleteCollection (id : Uuid) : ProviderAction Unit := do
  let body ← response (.deleteCollection id)
  match body with
  | .empty => pure ()
  | _ => throw .transport

def createItem (collectionId : Uuid) (label : String) (attributes : BTreeMap String String) (contentType : String)
    (secret : SecretBytes) (replace : Bool) (draws : Draws) :
    ProviderAction (ItemMetadata × List Uuid × List Uuid) := do
  check (validateLabel label)
  check (validateAttributes attributes)
  check (validateContentType contentType)
  let body ← response (.createOrReplaceItem
    ⟨1, draws.id, collectionId, label, attributes, contentType, draws.now, draws.now, draws.generation⟩ secret replace)
  match body with
  | .replacedItem created replacedItemIds cleanupFailedItemIds => pure (created, replacedItemIds, cleanupFailedItemIds)
  | _ => throw .transport

/-- The request of an update: the revision it expects is that of the item it was given. -/
def updateRequest (item : ItemMetadata) (secret : Option SecretBytes) (draws : Draws) : Operation :=
  let item' := { item with
    modified := draws.now
    currentGeneration := if secret.isSome then draws.generation else item.currentGeneration }
  .updateItemCas item' secret item.modified

def updateItem (item : ItemMetadata) (secret : Option SecretBytes) (draws : Draws) :
    ProviderAction ItemMetadata := do
  check (validateLabel item.label)
  check (validateAttributes item.attributes)
  check (validateContentType item.contentType)
  let body ← response (updateRequest item secret draws)
  match body with
  | .item updated _ => pure updated
  | _ => throw .transport

def deleteItem (id : Uuid) : ProviderAction Unit := do
  let body ← response (.deleteItem id)
  match body with
  | .empty => pure ()
  | _ => throw .transport

/-- The name goes to the broker as the client sent it. -/
def resolveAlias (name : String) : ProviderAction (Option AliasMetadata) := do
  let body ← response (.resolveAlias name)
  match body with
  | .alias record => pure record
  | _ => throw .transport

def aliases : ProviderAction (List AliasMetadata) := do
  let body ← response .listAliases
  match body with
  | .aliases listed =>
      let sorted := sortByKey (fun record => toLex (record.name, record.collectionId)) listed
      pure (sorted.destutter fun left right => left.name ≠ right.name)
  | _ => throw .transport

def setAlias (name : String) (collectionId : Option Uuid) : ProviderAction Unit := do
  check (validateAliasName name)
  let body ← match collectionId with
    | some collectionId => response (.setAlias ⟨1, name, collectionId⟩)
    | none => response (.removeAlias name)
  match body with
  | .empty | .alias (some _) => pure ()
  | _ => throw .transport

def search (attributes : BTreeMap String String) : ProviderAction (List ItemMetadata) := do
  check (validateAttributes attributes)
  let body ← response (.searchItems attributes)
  match body with
  | .items listed => pure listed
  | _ => throw .transport

/-- The objects the provider offers when it starts. -/
def initializeObjects : ProviderAction Unit := do
  let registerObject (path : String) (object : BusObject) : ProviderAction Unit :=
    Action.perform (fun _ => .transport) (ProviderCall.register path object)
  let collections ← collections
  forM collections fun collection => do
    registerObject (collectionPath collection.id) (.collection collection.id)
    let items ← items collection.id
    forM items fun item => registerObject (itemPath item.id) (.item item.id)
  let aliases ← aliases
  forM aliases fun record =>
    match aliasPath record.name with
    | none => pure ()
    | some path => registerObject path (.collection record.collectionId)
  registerObject compatPromptPath .prompt

end Provider

/-- The caller of a method, whom D-Bus names in the header. -/
def ownerOf (sender : Option String) : Except SecretServiceError String :=
  match sender with
  | none => .error (.accessDenied "missing D-Bus caller identity")
  | some owner => .ok owner

/-! ### The service object -/

namespace SecretService

def collectionLabel (properties : BTreeMap String DbusValue) : Except ProviderError String :=
  match properties["Label"]? <|> properties["org.freedesktop.Secret.Collection.Label"]? with
  | some (.text value) => .ok value
  | some _ => .error (.invalidRequest "collection Label must be a string")
  | none => .ok "Default"

def collections : HandlerAction (List String) := do
  let collections ← dbus Provider.collections
  pure (collections.map fun collection => collectionPath collection.id)

def aliases : HandlerAction (BTreeMap String String) := do
  let aliases ← dbus Provider.aliases
  pure (.ofList (aliases.map fun record => (record.name, collectionPath record.collectionId)) compare)

/-- The signal carries the new value of the property. -/
def aliasesChanged : HandlerAction Unit :=
  Action.mapError (fun _ => SecretServiceError.failed "unable to emit alias update") do
    let _ ← aliases
    emit .aliasesChanged .failed

def registerAlias (path : String) (collection : Uuid) (error : String → SecretServiceError) : HandlerAction Unit := do
  tryUnregister path
  register path (.collection collection) error

def createCollection (properties : BTreeMap String DbusValue) (name : String) (draws : Draws) :
    HandlerAction (String × String) := do
  let label ← Action.ofExcept ((collectionLabel properties).mapError SecretServiceError.ofProvider)
  let collection ← dbus (Provider.createCollection label draws)
  let path := collectionPath collection.id
  orUndo (register path (.collection collection.id) fun error =>
      .failed ("unable to register collection: " ++ error))
    (ignore (Provider.deleteCollection collection.id))
  if name ≠ "" then do
    orUndo (dbus (Provider.setAlias name (some collection.id))) do
      tryUnregister path
      ignore (Provider.deleteCollection collection.id)
    match aliasPath name with
    | none => pure ()
    | some named =>
        orUndo (registerAlias named collection.id fun error =>
            .failed ("unable to register collection alias: " ++ error)) do
          ignore (Provider.setAlias name none)
          tryUnregister path
          ignore (Provider.deleteCollection collection.id)
    aliasesChanged
  else pure ()
  emit (.collectionCreated collection.id) fun _ => .failed "unable to emit collection signal"
  pure (path, "/")

def searchItems (attributes : BTreeMap String String) : HandlerAction (List String × List String) := do
  let items ← dbus (Provider.search attributes)
  pure (items.map fun item => itemPath item.id, [])

/-- The secret of one item of a list, which the broker must not omit. -/
def readSecret (id : Uuid) : HandlerAction (ItemMetadata × SecretBytes) := do
  let (metadata, secret) ← dbus (Provider.item id true)
  match secret with
  | none => throw (.failed "broker omitted secret")
  | some secret => pure (metadata, secret)

def readSecrets : List String → HandlerAction (List (ItemMetadata × SecretBytes))
  | [] => pure []
  | path :: rest => do
      let id ← Action.ofExcept (match itemId path with
        | none => .error (SecretServiceError.noSuchObject "invalid item path")
        | some id => .ok id)
      let entry ← readSecret id
      let others ← readSecrets rest
      pure (entry :: others)

def encodeSecrets (provider : Provider) (owner : String) (session : Uuid) (iv : Nat → Option (Vector UInt8 16)) :
    List (ItemMetadata × SecretBytes) → Except ProviderError (List (String × DbusSecret))
  | [] => .ok []
  | (metadata, secret) :: rest => do
      let encoded ← provider.encodeSecret owner session secret metadata.contentType (iv 0)
      let others ← encodeSecrets provider owner session (fun n => iv (n + 1)) rest
      .ok ((itemPath metadata.id, encoded) :: others)

def getSecrets (provider : Provider) (sender : Option String) (items : List String) (session : String)
    (draws : Draws) : HandlerAction (BTreeMap String DbusSecret) := do
  let owner ← Action.ofExcept (ownerOf sender)
  match sessionId session with
  | none => throw (.noSuchSession "invalid session path")
  | some session => do
      let raw ← readSecrets items
      let values ←
        Action.ofExcept ((encodeSecrets provider owner session draws.iv raw).mapError SecretServiceError.ofProvider)
      pure (.ofList values compare)

def readAlias (name : String) : HandlerAction String := do
  let record ← dbus (Provider.resolveAlias name)
  match record with
  | none => pure "/"
  | some record => pure (collectionPath record.collectionId)

def setAlias (name collection : String) : HandlerAction Unit := do
  let id ← Action.ofExcept (
    if collection = "/" then .ok none
    else match collectionId collection with
      | none => .error (SecretServiceError.noSuchObject "invalid collection path")
      | some id => .ok (some id))
  dbus (Provider.setAlias name id)
  match aliasPath name, id with
  | some path, some id => registerAlias path id fun _ => .failed "unable to register collection alias"
  | some path, none => tryUnregister path
  | none, _ => pure ()
  aliasesChanged

end SecretService

/-! ### Collection objects -/

namespace CollectionObject

def delete (id : Uuid) : HandlerAction String := do
  let items ← dbus (Provider.items id)
  let aliases ← dbus Provider.aliases
  dbus (Provider.deleteCollection id)
  forM items fun item => tryUnregister (itemPath item.id)
  forM (aliases.filter fun record => record.collectionId = id) fun record =>
    match aliasPath record.name with
    | none => pure ()
    | some path => tryUnregister path
  unregister (collectionPath id) (.failed "unable to unregister collection")
  emit (.collectionDeleted id) fun _ => .failed "unable to emit collection signal"
  pure "/"

def searchItems (id : Uuid) (attributes : BTreeMap String String) : HandlerAction (List String) := do
  let items ← dbus (Provider.items id)
  let found := items.filter fun item => attributes.toList.all fun entry => item.attributes[entry.1]? == some entry.2
  pure (found.map fun item => itemPath item.id)

def itemProperties (properties : BTreeMap String DbusValue) :
    Except ProviderError (String × BTreeMap String String) := do
  let label ← match properties["Label"]? <|> properties["org.freedesktop.Secret.Item.Label"]? with
    | none => .error (.invalidRequest "item Label is required")
    | some (.text value) => .ok value
    | some _ => .error (.invalidRequest "item Label must be a string")
  let attributes ← match properties["Attributes"]? <|> properties["org.freedesktop.Secret.Item.Attributes"]? with
    | none => .ok ∅
    | some (.textMap entries) => .ok entries
    | some _ => .error (.invalidRequest "item Attributes must be a\x7bss\x7d")
  .ok (label, attributes)

def createItem (provider : Provider) (id : Uuid) (sender : Option String) (properties : BTreeMap String DbusValue)
    (secret : DbusSecret) (replace : Bool) (draws : Draws) : HandlerAction (String × String) := do
  let owner ← Action.ofExcept (ownerOf sender)
  let (label, attributes) ← Action.ofExcept ((itemProperties properties).mapError SecretServiceError.ofProvider)
  let (_, secret, contentType) ←
    Action.ofExcept ((provider.decodeSecret owner secret).mapError SecretServiceError.ofProvider)
  dbus (Provider.check (validateContentType contentType))
  let (item, replacedItemIds, _) ← dbus (Provider.createItem id label attributes contentType secret replace draws)
  forM replacedItemIds fun replaced => do
    tryUnregister (itemPath replaced)
    emit (.itemDeleted id replaced) fun _ => .failed "unable to emit item signal"
  orUndo (register (itemPath item.id) (.item item.id) fun error => .failed ("unable to register item: " ++ error))
    (ignore (Provider.deleteItem item.id))
  emit (.itemCreated id item.id) fun _ => .failed "unable to emit item signal"
  pure (itemPath item.id, "/")

def label (id : Uuid) : HandlerAction String := do
  let collection ← dbus (Provider.collection id)
  pure collection.label

def setLabel (id : Uuid) (label : String) (draws : Draws) : HandlerAction Unit := do
  dbus (Provider.updateCollectionLabel id label draws)
  emit (.collectionChanged id) .failed

def created (id : Uuid) : HandlerAction UInt64 := do
  let collection ← dbus (Provider.collection id)
  pure collection.created

def modified (id : Uuid) : HandlerAction UInt64 := do
  let collection ← dbus (Provider.collection id)
  pure collection.modified

def items (id : Uuid) : HandlerAction (List String) := do
  let items ← dbus (Provider.items id)
  pure (items.map fun item => itemPath item.id)

end CollectionObject

/-! ### Item objects -/

namespace ItemObject

def delete (id : Uuid) : HandlerAction String := do
  let (item, _) ← dbus (Provider.item id false)
  dbus (Provider.deleteItem id)
  unregister (itemPath id) (.failed "unable to unregister item")
  emit (.itemDeleted item.collectionId id) fun _ => .failed "unable to emit item signal"
  pure "/"

def getSecret (provider : Provider) (id : Uuid) (sender : Option String) (session : String) (draws : Draws) :
    HandlerAction DbusSecret := do
  let owner ← Action.ofExcept (ownerOf sender)
  match sessionId session with
  | none => throw (.noSuchSession "invalid session path")
  | some session => do
      let (item, secret) ← SecretService.readSecret id
      Action.ofExcept ((provider.encodeSecret owner session secret item.contentType (draws.iv 0)).mapError
        SecretServiceError.ofProvider)

/-- A change of an item: it is read, changed and sent back with the revision it had. -/
def change (id : Uuid) (edit : ItemMetadata → ItemMetadata) (secret : Option SecretBytes) (draws : Draws)
    (notify : Uuid → HandlerAction Unit) : HandlerAction Unit := do
  let (item, _) ← dbus (Provider.item id false)
  let _ ← dbus (Provider.updateItem (edit item) secret draws)
  notify item.collectionId

def setSecret (provider : Provider) (id : Uuid) (sender : Option String) (secret : DbusSecret) (draws : Draws) :
    HandlerAction Unit := do
  let owner ← Action.ofExcept (ownerOf sender)
  let (_, secret, contentType) ←
    Action.ofExcept ((provider.decodeSecret owner secret).mapError SecretServiceError.ofProvider)
  change id (fun item => { item with contentType := contentType }) (some secret) draws fun collection => do
    emit (.itemChanged collection id) fun _ => .failed "unable to emit item signal"
    emit (.secretChanged id) fun _ => .failed "unable to emit secret signal"

def label (id : Uuid) : HandlerAction String := do
  let (item, _) ← dbus (Provider.item id false)
  pure item.label

def setLabel (id : Uuid) (label : String) (draws : Draws) : HandlerAction Unit :=
  change id (fun item => { item with label := label }) none draws fun collection =>
    emit (.itemChanged collection id) .failed

def attributes (id : Uuid) : HandlerAction (BTreeMap String String) := do
  let (item, _) ← dbus (Provider.item id false)
  pure item.attributes

def setAttributes (id : Uuid) (attributes : BTreeMap String String) (draws : Draws) : HandlerAction Unit :=
  change id (fun item => { item with attributes := attributes }) none draws fun collection =>
    emit (.itemChanged collection id) .failed

def created (id : Uuid) : HandlerAction UInt64 := do
  let (item, _) ← dbus (Provider.item id false)
  pure item.created

def modified (id : Uuid) : HandlerAction UInt64 := do
  let (item, _) ← dbus (Provider.item id false)
  pure item.modified

end ItemObject

end WincredLibsecret
