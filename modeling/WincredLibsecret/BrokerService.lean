import WincredLibsecret.BrokerBackend
import WincredLibsecret.ProtocolCodec
import WincredLibsecret.ProtocolVault

/-! The broker service: every operation as a computation over the storage backend. A computation reads
one credential at a time; what it makes of the blob it read is a pure function of its own. The CBOR
codec of each metadata record is a parameter that carries its one law, that decoding inverts
encoding. Log lines and the wiping of buffers are left out. -/

namespace WincredLibsecret

open Effect KeyedRecords

def metadataSchemaVersion : UInt16 := 1

/-- The encoder and the decoder of a metadata record. A decoder returns what it left unread. -/
structure MetadataCodec (α : Type) where
  intoWriter : α → Option Blob
  fromReader : Blob → Option (α × Blob)
  fromReader_intoWriter : ∀ {metadata encoded}, intoWriter metadata = some encoded →
    fromReader encoded = some (metadata, [])

/-- The codec of a record that is written as it is and read back by a strict reader. -/
def cborCodec {α : Type} {encode : α → Blob} {read : Cbor.Decoder α}
    (h : ∀ value, Cbor.Decodes (encode value) read value) : MetadataCodec α where
  intoWriter := fun value => if (encode value).length < 2 ^ 64 then some (encode value) else none
  fromReader := read.run
  fromReader_intoWriter := by
    intro metadata encoded hencoded
    rw [Option.ite_none_right_eq_some] at hencoded
    obtain ⟨hlength, hencoded⟩ := hencoded
    cases hencoded
    have hread := h metadata hlength []
    rwa [List.append_nil] at hread

structure Broker where
  backend : VaultBackend
  collectionCodec : MetadataCodec CollectionMetadata
  itemCodec : MetadataCodec ItemMetadata
  aliasCodec : MetadataCodec AliasMetadata

/-- A broker over the given backend that writes its metadata as the protocol does. -/
def cborBroker (backend : VaultBackend) : Broker where
  backend := backend
  collectionCodec := cborCodec CollectionMetadata.decodes
  itemCodec := cborCodec ItemMetadata.decodes
  aliasCodec := cborCodec AliasMetadata.decodes

/-! ### Errors and validation -/

/-- The code of a rejected request depends on the text of the error. -/
def invalidRequest (error : ProtocolError) : BrokerError :=
  if "secret".toList <:+: error.toString.toList then ⟨.secretTooLarge, "request metadata is invalid"⟩
  else ⟨.invalidRequest, "request metadata is invalid"⟩

def notFound (message : String) : BrokerError := ⟨.notFound, message⟩

def alreadyExists (message : String) : BrokerError := ⟨.alreadyExists, message⟩

def corruptState (message : String) : BrokerError := ⟨.corruptState, message⟩

def validateSchemaVersion (schemaVersion : UInt16) : Except BrokerError Unit :=
  if schemaVersion = metadataSchemaVersion then .ok ()
  else .error ⟨.invalidRequest, "metadata schema version is unsupported"⟩

/-- The broker's check of an alias name drops the reason of the protocol's check. -/
def checkAliasName (name : String) : Except BrokerError Unit :=
  (validateAliasName name).mapError fun _ => ⟨.invalidRequest, "alias name is invalid"⟩

def validateCollection (collection : CollectionMetadata) : Except BrokerError Unit := do
  validateSchemaVersion collection.schemaVersion
  if collection.id.isNil then .error ⟨.invalidRequest, "collection identifier cannot be nil"⟩
  else (validateLabel collection.label).mapError invalidRequest

def validateItem (item : ItemMetadata) : Except BrokerError Unit := do
  validateSchemaVersion item.schemaVersion
  if item.id.isNil || item.collectionId.isNil || item.currentGeneration.isNil then
    .error ⟨.invalidRequest, "metadata identifiers cannot be nil"⟩
  else
    (validateLabel item.label).mapError invalidRequest
    (validateAttributes item.attributes).mapError invalidRequest
    (validateContentType item.contentType).mapError invalidRequest

def validateAlias (record : AliasMetadata) : Except BrokerError Unit := do
  validateSchemaVersion record.schemaVersion
  checkAliasName record.name
  if record.collectionId.isNil then .error ⟨.invalidRequest, "alias collection identifier cannot be nil"⟩
  else .ok ()

theorem validateSchemaVersion_eq_ok {schemaVersion : UInt16} :
    validateSchemaVersion schemaVersion = .ok () ↔ schemaVersion = metadataSchemaVersion := by
  simp [validateSchemaVersion]

theorem checkAliasName_eq_ok {name : String} :
    checkAliasName name = .ok () ↔ TextWithin name maxAliasBytes false :=
  mapError_eq_ok.trans validateText_eq_ok

theorem validateCollection_eq_ok {collection : CollectionMetadata} :
    validateCollection collection = .ok () ↔ collection.schemaVersion = metadataSchemaVersion ∧
      collection.id ≠ .nil ∧ TextWithin collection.label maxLabelBytes false := by
  unfold validateCollection
  rw [check_bind_eq_ok, validateSchemaVersion_eq_ok]
  split_ifs with hnil
  · simp_all [Uuid.isNil]
  · rw [mapError_eq_ok, validateLabel, validateText_eq_ok]
    simp_all [Uuid.isNil]

theorem validateItem_eq_ok {item : ItemMetadata} :
    validateItem item = .ok () ↔ item.schemaVersion = metadataSchemaVersion ∧
      (item.id ≠ .nil ∧ item.collectionId ≠ .nil ∧ item.currentGeneration ≠ .nil) ∧
      TextWithin item.label maxLabelBytes false ∧ validateAttributes item.attributes = .ok () ∧
      TextWithin item.contentType maxContentTypeBytes false := by
  unfold validateItem
  rw [check_bind_eq_ok, validateSchemaVersion_eq_ok]
  split_ifs with hnil
  · simp only [Bool.or_eq_true, Uuid.isNil, decide_eq_true_eq] at hnil
    simp only [and_false, false_iff]
    tauto
  · simp only [Bool.or_eq_true, Uuid.isNil, decide_eq_true_eq, not_or] at hnil
    simp only [check_bind_eq_ok, mapError_eq_ok, validateLabel, validateContentType,
      validateText_eq_ok]
    tauto

theorem validateAlias_eq_ok {record : AliasMetadata} :
    validateAlias record = .ok () ↔ record.schemaVersion = metadataSchemaVersion ∧
      TextWithin record.name maxAliasBytes false ∧ record.collectionId ≠ .nil := by
  unfold validateAlias
  simp only [check_bind_eq_ok, validateSchemaVersion_eq_ok, checkAliasName_eq_ok]
  split_ifs with hnil
  · simp_all [Uuid.isNil]
  · simp_all [Uuid.isNil]

/-! ### Stored metadata -/

def encodeMetadata {α : Type} (codec : MetadataCodec α) (metadata : α) : Except BrokerError Blob :=
  match codec.intoWriter metadata with
  | none => .error ⟨.invalidRequest, "metadata cannot be encoded"⟩
  | some encoded =>
      if maxMetadataBytes < encoded.length then
        .error ⟨.metadataTooLarge, "metadata exceeds the credential blob limit"⟩
      else .ok encoded

def decodeMetadata {α : Type} (codec : MetadataCodec α) (blob : Blob) : Except BrokerError α :=
  if maxMetadataBytes < blob.length then .error (corruptState "metadata exceeds the credential blob limit")
  else match codec.fromReader blob with
    | none => .error (corruptState "metadata is malformed")
    | some (decoded, rest) =>
        if rest.isEmpty then .ok decoded else .error (corruptState "metadata has trailing data")

/-- How a record of one kind is kept: its codec, its check and the key its target repeats. -/
structure RecordKind (α κ : Type) where
  codec : MetadataCodec α
  check : α → Except BrokerError Unit
  key : α → κ
  target : κ → TargetName
  mismatch : String
  target_injective : Function.Injective target
  target_wellFormed : ∀ {record}, check record = .ok () → (target (key record)).WellFormed
  target_ne_itemSecret : ∀ k itemId generation, target k ≠ .itemSecret itemId generation

/-- The record a blob read from the target of `key` holds. -/
def RecordKind.load {α κ : Type} [DecidableEq κ] (kind : RecordKind α κ) (key : κ) (blob : Blob) :
    Except BrokerError α := do
  let record ← decodeMetadata kind.codec blob
  if kind.key record ≠ key then .error (corruptState kind.mismatch)
  else
    kind.check record
    .ok record

/-- The same where a missing credential is an error. -/
def RecordKind.require {α κ : Type} [DecidableEq κ] (kind : RecordKind α κ) (missing : String) (key : κ) :
    Option Blob → Except BrokerError α
  | none => .error (notFound missing)
  | some blob => kind.load key blob

namespace Broker

variable (broker : Broker)

def collectionKind : RecordKind CollectionMetadata Uuid where
  codec := broker.collectionCodec
  check := validateCollection
  key := CollectionMetadata.id
  target := .collection
  mismatch := "collection metadata identity does not match target"
  target_injective := fun _ _ h => TargetName.collection.inj h
  target_wellFormed := fun _ => trivial
  target_ne_itemSecret := TargetName.collection_ne_itemSecret

def itemKind : RecordKind ItemMetadata Uuid where
  codec := broker.itemCodec
  check := validateItem
  key := ItemMetadata.id
  target := .itemMetadata
  mismatch := "item metadata identity does not match target"
  target_injective := fun _ _ h => TargetName.itemMetadata.inj h
  target_wellFormed := fun _ => trivial
  target_ne_itemSecret := TargetName.itemMetadata_ne_itemSecret

def aliasKind : RecordKind AliasMetadata String where
  codec := broker.aliasCodec
  check := validateAlias
  key := AliasMetadata.name
  target := .alias
  mismatch := "alias metadata identity does not match target"
  target_injective := fun _ _ h => TargetName.alias.inj h
  target_wellFormed := fun h => (validateAlias_eq_ok.mp h).2.1
  target_ne_itemSecret := TargetName.alias_ne_itemSecret

end Broker

/-- A credential an enumeration found under a well-formed target. -/
structure Entry where
  kind : TargetName
  blob : Blob
  deriving DecidableEq

/-- The entry of an enumerated credential; names that do not parse are skipped. -/
def entryOf (listed : String × Blob) : Option Entry :=
  match TargetName.fromStr listed.1 with
  | .ok (.itemSecret itemId generation) => some ⟨.itemSecret itemId generation, []⟩
  | .ok target => some ⟨target, listed.2⟩
  | .error _ => none

namespace Broker

variable (broker : Broker)

/-- The record of an entry, if it decodes, belongs to its target and is valid. -/
def collectionOf (entry : Entry) : Option CollectionMetadata :=
  match entry.kind with
  | .collection id => (broker.collectionKind.load id entry.blob).toOption
  | _ => none

def itemOf (entry : Entry) : Option ItemMetadata :=
  match entry.kind with
  | .itemMetadata id => (broker.itemKind.load id entry.blob).toOption
  | _ => none

def aliasOf (entry : Entry) : Option AliasMetadata :=
  match entry.kind with
  | .alias name => (broker.aliasKind.load name entry.blob).toOption
  | _ => none

end Broker

/-- The successor of a counter that stops at its maximum. -/
def saturatingSucc (value : UInt64) : UInt64 := if value.toNat + 1 < UInt64.size then value + 1 else value

/-- An update keeps the creation time and never moves the revision back. -/
def ItemMetadata.succeed (item existing : ItemMetadata) : ItemMetadata :=
  { item with created := existing.created, modified := max item.modified (saturatingSucc existing.modified) }

namespace Broker

variable (broker : Broker)

/-! ### Reading -/

def entries : BrokerAction (List Entry) := do
  let listed ← enumerateCredentials
  pure (listed.filterMap entryOf)

def getCollection (id : Uuid) : BrokerAction CollectionMetadata := do
  let stored ← readCredential (.collection id)
  Action.ofExcept (broker.collectionKind.require "collection does not exist" id stored)

/-- Only the absence of the collection becomes an error of the reference to it. -/
def requireCollection (id : Uuid) : BrokerAction CollectionMetadata :=
  Action.mapError
    (fun error =>
      if error.code = .notFound then ⟨.invalidCollection, "referenced collection does not exist"⟩ else error)
    (broker.getCollection id)

def getItemMetadata (id : Uuid) : BrokerAction ItemMetadata := do
  let stored ← readCredential (.itemMetadata id)
  Action.ofExcept (broker.itemKind.require "item does not exist" id stored)

def validItems : BrokerAction (List ItemMetadata) := do
  let entries ← entries
  pure (sortByKey ItemMetadata.id (entries.filterMap broker.itemOf))

def listCollections : BrokerAction ResponseBody := do
  let entries ← entries
  pure (.collections (sortByKey CollectionMetadata.id (entries.filterMap broker.collectionOf)))

def resolveAlias (name : String) : BrokerAction ResponseBody := do
  Action.ofExcept (checkAliasName name)
  let stored ← readCredential (.alias name)
  match stored with
  | none => pure (.alias none)
  | some blob => do
      let record ← Action.ofExcept (broker.aliasKind.load name blob)
      let collection ← Action.attempt (broker.getCollection record.collectionId)
      match collection with
      -- whatever the reason for which the collection could not be read
      | .error _ => throw (corruptState "alias references a missing collection")
      | .ok _ => pure (.alias (some record))

/-- The aliases among the entries whose collection can be read. -/
def collectAliases : List Entry → BrokerAction (List AliasMetadata)
  | [] => pure []
  | entry :: rest =>
      match broker.aliasOf entry with
      | none => collectAliases rest
      | some record => do
          let collection ← Action.attempt (broker.getCollection record.collectionId)
          let others ← collectAliases rest
          match collection with
          | .error _ => pure others
          | .ok _ => pure (record :: others)

def listAliases : BrokerAction ResponseBody := do
  let entries ← entries
  let aliases ← broker.collectAliases entries
  pure (.aliases (sortByKey AliasMetadata.name aliases))

/-- Every attribute asked for has the value asked for. -/
def matchesAttributes (attributes : BTreeMap String String) (item : ItemMetadata) : Bool :=
  attributes.toList.all fun entry => item.attributes[entry.1]? == some entry.2

def searchItems (attributes : BTreeMap String String) : BrokerAction ResponseBody := do
  Action.ofExcept ((validateAttributes attributes).mapError invalidRequest)
  let items ← broker.validItems
  pure (.items (items.filter (matchesAttributes attributes)))

def listItems (collectionId : Uuid) : BrokerAction ResponseBody := do
  let _ ← broker.getCollection collectionId
  let items ← broker.validItems
  pure (.items (items.filter fun item => item.collectionId = collectionId))

/-- The secret a blob read for an item holds. -/
def loadSecret : Option Blob → Except BrokerError SecretBytes
  | none => .error (corruptState "item metadata references a missing secret")
  | some blob => (SecretBytes.new blob).mapError invalidRequest

def getItem (id : Uuid) (includeSecret : Bool) : BrokerAction ResponseBody := do
  let item ← broker.getItemMetadata id
  if includeSecret then do
    let stored ← readCredential (.itemSecret id item.currentGeneration)
    let secret ← Action.ofExcept (loadSecret stored)
    pure (.item item (some secret))
  else pure (.item item none)

/-! ### Writing -/

def writeMetadata {α : Type} (codec : MetadataCodec α) (target : TargetName) (metadata : α) :
    BrokerAction Unit := do
  let encoded ← Action.ofExcept (encodeMetadata codec metadata)
  writeCredential target encoded

def createCollection (collection : CollectionMetadata) : BrokerAction ResponseBody := do
  Action.ofExcept (validateCollection collection)
  let stored ← readCredential (.collection collection.id)
  if stored.isSome then throw (alreadyExists "collection already exists")
  else do
    writeMetadata broker.collectionCodec (.collection collection.id) collection
    pure (.collection collection)

def updateCollection (collection : CollectionMetadata) : BrokerAction ResponseBody := do
  let existing ← broker.getCollection collection.id
  Action.ofExcept (validateCollection collection)
  let updated := { collection with created := existing.created }
  writeMetadata broker.collectionCodec (.collection updated.id) updated
  pure (.collection updated)

def setAlias (record : AliasMetadata) : BrokerAction ResponseBody := do
  Action.ofExcept (validateAlias record)
  let _ ← broker.requireCollection record.collectionId
  writeMetadata broker.aliasCodec (.alias record.name) record
  pure (.alias (some record))

def removeAlias (name : String) : BrokerAction ResponseBody := do
  Action.ofExcept (checkAliasName name)
  let stored ← readCredential (.alias name)
  if stored.isNone then throw (notFound "alias does not exist")
  else do
    deleteCredential (.alias name)
    pure .empty

/-- A step of a commit that is carried out after the metadata is written; its failure is ignored. -/
def cleanUp : CommitStep → BrokerAction Unit
  | .deleteSecret target => do
      let _ ← Action.attempt (deleteCredential target)
      pure ()
  | _ => pure ()

def commitNewGeneration (item : ItemMetadata) (previousGeneration : Option Uuid) (secret : SecretBytes) :
    BrokerAction Unit := do
  let metadata ← Action.ofExcept (encodeMetadata broker.itemCodec item)
  writeCredential (.itemSecret item.id item.currentGeneration) secret.bytes
  let written ← Action.attempt (writeCredential (.itemMetadata item.id) metadata)
  match written with
  | .error error => do
      let _ ← Action.attempt (deleteCredential (.itemSecret item.id item.currentGeneration))
      throw error
  | .ok _ => forM (GenerationCommit.steps ⟨item.id, item.currentGeneration, previousGeneration⟩) cleanUp

def createItem (item : ItemMetadata) (secret : SecretBytes) : BrokerAction ResponseBody := do
  Action.ofExcept (validateItem item)
  let _ ← broker.requireCollection item.collectionId
  let stored ← readCredential (.itemMetadata item.id)
  if stored.isSome then throw (alreadyExists "item already exists")
  else do
    broker.commitNewGeneration item none secret
    pure (.item item none)

def updateItem (item : ItemMetadata) (secret : Option SecretBytes) : BrokerAction ResponseBody := do
  let existing ← broker.getItemMetadata item.id
  Action.ofExcept (validateItem item)
  let _ ← broker.requireCollection item.collectionId
  let updated := item.succeed existing
  match secret with
  | some secret =>
      if updated.currentGeneration = existing.currentGeneration then
        throw ⟨.conflict, "item update with a secret requires a new generation"⟩
      else do
        broker.commitNewGeneration updated (some existing.currentGeneration) secret
        pure (.item updated none)
  | none => do
      let updated := { updated with currentGeneration := existing.currentGeneration }
      writeMetadata broker.itemCodec (.itemMetadata updated.id) updated
      pure (.item updated none)

def updateItemCas (item : ItemMetadata) (secret : Option SecretBytes) (expectedModified : UInt64) :
    BrokerAction ResponseBody := do
  let existing ← broker.getItemMetadata item.id
  if existing.modified ≠ expectedModified then throw ⟨.conflict, "item was modified by another provider"⟩
  else broker.updateItem item secret

/-! ### Deleting and replacing -/

/-- The secret targets of an item among the entries. -/
def secretTargets (id : Uuid) (entries : List Entry) : List TargetName :=
  entries.filterMap fun entry =>
    match entry.kind with
    | .itemSecret itemId generation => if itemId = id then some (.itemSecret itemId generation) else none
    | _ => none

def deleteItemFromEntries (id : Uuid) (entries : List Entry) : BrokerAction Unit := do
  deleteCredential (.itemMetadata id)
  forM (secretTargets id entries) deleteCredential

def deleteItem (id : Uuid) : BrokerAction ResponseBody := do
  let _ ← broker.getItemMetadata id
  let entries ← entries
  deleteItemFromEntries id entries
  pure .empty

def deleteCollection (collectionId : Uuid) : BrokerAction ResponseBody := do
  let _ ← broker.getCollection collectionId
  let entries ← entries
  let items := (entries.filterMap broker.itemOf).filter fun item => item.collectionId = collectionId
  let aliases := (entries.filterMap broker.aliasOf).filter fun record => record.collectionId = collectionId
  let itemIds : BTreeSet Uuid := Std.ExtTreeSet.ofList (items.map ItemMetadata.id) compare
  forM itemIds.toList fun id => deleteItemFromEntries id entries
  forM (aliases.map AliasMetadata.name) fun name => deleteCredential (.alias name)
  deleteCredential (.collection collectionId)
  pure .empty

/-- The metadata must go; a secret that cannot be deleted is left for recovery. -/
def deleteReplacedItem (id : Uuid) (entries : List Entry) : BrokerAction Unit := do
  deleteCredential (.itemMetadata id)
  forM (secretTargets id entries) fun target => cleanUp (.deleteSecret target)

/-- Deletes the replaced items and returns those deleted and those that could not be. -/
def deleteReplacedItems (entries : List Entry) : List Uuid → BrokerAction (List Uuid × List Uuid)
  | [] => pure ([], [])
  | replaced :: rest => do
      let outcome ← Action.attempt (deleteReplacedItem replaced entries)
      let others ← deleteReplacedItems entries rest
      match outcome with
      | .error _ => pure (others.1, replaced :: others.2)
      | .ok _ => pure (replaced :: others.1, others.2)

/-- The items a new item replaces: those of its collection with exactly its attributes. -/
def replacedItemIds (item : ItemMetadata) (replace : Bool) : BrokerAction (List Uuid) :=
  if replace then do
    let items ← broker.validItems
    pure ((items.filter fun existing =>
      existing.collectionId = item.collectionId ∧ existing.attributes = item.attributes).map ItemMetadata.id)
  else pure []

def createOrReplaceItem (item : ItemMetadata) (secret : SecretBytes) (replace : Bool) :
    BrokerAction ResponseBody := do
  Action.ofExcept (validateItem item)
  let _ ← broker.requireCollection item.collectionId
  let stored ← readCredential (.itemMetadata item.id)
  if stored.isSome then throw (alreadyExists "item already exists")
  else do
    let replaced ← broker.replacedItemIds item replace
    broker.commitNewGeneration item none secret
    let entries ← entries
    let outcome ← deleteReplacedItems entries replaced
    pure (.replacedItem item outcome.1 outcome.2)

/-! ### Recovery -/

/-- Adds an entry to the inventory. Unreadable metadata is skipped. -/
def recordEntry (inventory : RecoveryInventory) (entry : Entry) : RecoveryInventory :=
  match entry.kind with
  | .itemMetadata _ =>
      match broker.itemOf entry with
      | some item =>
          { inventory with
            committedGenerations := inventory.committedGenerations.insert item.id item.currentGeneration }
      | none => inventory
  | .itemSecret itemId generation =>
      { inventory with
        storedGenerations := inventory.storedGenerations.insert (toLex (itemId, generation)) }
  | _ => inventory

/-- Carries out a recovery plan and returns the number of deletions and the items it reports. -/
def recover : List RecoveryAction → BrokerAction (Nat × List Uuid)
  | [] => pure (0, [])
  | .deleteAbandonedGeneration itemId generation :: rest => do
      deleteCredential (.itemSecret itemId generation)
      let others ← recover rest
      pure (others.1 + 1, others.2)
  | .reportMissingCommittedGeneration itemId _ :: rest => do
      let others ← recover rest
      pure (others.1, itemId :: others.2)

def reconcileLocked : BrokerAction ResponseBody := do
  let entries ← entries
  let outcome ← recover (planRecovery (entries.foldl broker.recordEntry .empty))
  pure (.reconciled outcome.1 outcome.2)

/-! ### Dispatch -/

def perform : Operation → BrokerAction ResponseBody
  | .ping => pure .pong
  | .listCollections => broker.listCollections
  | .getCollection collectionId => do
      let collection ← broker.getCollection collectionId
      pure (.collection collection)
  | .createCollection collection => broker.createCollection collection
  | .updateCollection collection => broker.updateCollection collection
  | .deleteCollection collectionId => broker.deleteCollection collectionId
  | .listAliases => broker.listAliases
  | .resolveAlias name => broker.resolveAlias name
  | .setAlias record => broker.setAlias record
  | .removeAlias name => removeAlias name
  | .searchItems attributes => broker.searchItems attributes
  | .listItems collectionId => broker.listItems collectionId
  | .getItem itemId includeSecret => broker.getItem itemId includeSecret
  | .createItem item secret => broker.createItem item secret
  | .createOrReplaceItem item secret replace => broker.createOrReplaceItem item secret replace
  | .updateItem item secret => broker.updateItem item secret
  | .updateItemCas item secret expectedModified => broker.updateItemCas item secret expectedModified
  | .deleteItem itemId => broker.deleteItem itemId
  | .reconcile => broker.reconcileLocked

/-- One request, under the operation lock of the vault. -/
def execute (operation : Operation) : BrokerAction ResponseBody := do
  acquireLock
  broker.perform operation

/-- The recovery after the start of the process. -/
def reconcile : BrokerAction ResponseBody := do
  acquireLock
  broker.reconcileLocked

end Broker

end WincredLibsecret
