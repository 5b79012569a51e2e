import WincredLibsecret.ProtocolModel

/-! The messages exchanged between the provider and the broker: the handshake, the nineteen
operations and their responses. -/

namespace WincredLibsecret

def protocolVersion : UInt16 := 1

structure VersionRange where
  minimum : UInt16
  maximum : UInt16
  deriving DecidableEq

def VersionRange.current : VersionRange := ⟨protocolVersion, protocolVersion⟩

inductive Capability where
  | binarySecrets
  | collections
  | aliases
  | generationCommits
  | reconciliation
  | atomicItemMutations
  deriving DecidableEq

structure Hello where
  versions : VersionRange
  capabilities : Finset Capability

structure HelloAck where
  version : UInt16
  capabilities : Finset Capability

/-- The highest common version and the common capabilities. -/
def negotiate (client : Hello) (serverVersions : VersionRange) (serverCapabilities : Finset Capability) :
    Except ProtocolError HelloAck :=
  let minimum := max client.versions.minimum serverVersions.minimum
  let maximum := min client.versions.maximum serverVersions.maximum
  if maximum < minimum then .error .noCommonVersion
  else .ok ⟨maximum, client.capabilities ∩ serverCapabilities⟩

structure Envelope (α : Type) where
  version : UInt16
  payload : α

def Envelope.current {α : Type} (payload : α) : Envelope α := ⟨protocolVersion, payload⟩

def Envelope.validateVersion {α : Type} (envelope : Envelope α) : Except ProtocolError Unit :=
  if envelope.version = protocolVersion then .ok () else .error (.unsupportedVersion envelope.version)

inductive Operation where
  | ping
  | listCollections
  | getCollection (collectionId : Uuid)
  | createCollection (collection : CollectionMetadata)
  | updateCollection (collection : CollectionMetadata)
  | deleteCollection (collectionId : Uuid)
  | listAliases
  | resolveAlias (name : String)
  | setAlias (record : AliasMetadata)
  | removeAlias (name : String)
  | searchItems (attributes : BTreeMap String String)
  | listItems (collectionId : Uuid)
  | getItem (itemId : Uuid) (includeSecret : Bool)
  | createItem (item : ItemMetadata) (secret : SecretBytes)
  | createOrReplaceItem (item : ItemMetadata) (secret : SecretBytes) (replace : Bool)
  | updateItem (item : ItemMetadata) (secret : Option SecretBytes)
  | updateItemCas (item : ItemMetadata) (secret : Option SecretBytes) (expectedModified : UInt64)
  | deleteItem (itemId : Uuid)
  | reconcile
  deriving DecidableEq

structure Request where
  requestId : UInt64
  operation : Operation
  deriving DecidableEq

inductive ResponseBody where
  | pong
  | empty
  | collection (collection : CollectionMetadata)
  | collections (collections : List CollectionMetadata)
  | aliases (aliases : List AliasMetadata)
  | alias (record : Option AliasMetadata)
  | item (item : ItemMetadata) (secret : Option SecretBytes)
  | replacedItem (item : ItemMetadata) (replacedItemIds cleanupFailedItemIds : List Uuid)
  | items (items : List ItemMetadata)
  | reconciled (removedGenerations : Nat) (corruptItems : List Uuid)
  deriving DecidableEq

structure Response where
  requestId : UInt64
  result : Except BrokerError ResponseBody

end WincredLibsecret
