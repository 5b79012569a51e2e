import WincredLibsecret.CborFormat
import WincredLibsecret.KeyedRecords
import WincredLibsecret.ProtocolMessage

/-! The serialised form of the protocol's types: a structure is a map from its field names, an
operation carries its name in the map of its own fields, a response body has its content beside its
name, and a result is a map of one entry. The three metadata records have readers that invert their
encoders. -/

namespace WincredLibsecret

open Cbor

def Uuid.bytes (id : Uuid) : Blob := beBytes 16 id.value.toNat

def Uuid.encode (id : Uuid) : Blob := byteString id.bytes

def encodeAttributes (attributes : BTreeMap String String) : Blob :=
  Cbor.map (attributes.toList.map fun entry => (text entry.1, text entry.2))

def CollectionMetadata.encode (collection : CollectionMetadata) : Blob :=
  record [("schema_version", uint collection.schemaVersion.toNat), ("id", collection.id.encode),
    ("label", text collection.label), ("created", uint collection.created.toNat),
    ("modified", uint collection.modified.toNat)]

def ItemMetadata.encode (item : ItemMetadata) : Blob :=
  record [("schema_version", uint item.schemaVersion.toNat), ("id", item.id.encode),
    ("collection_id", item.collectionId.encode), ("label", text item.label),
    ("attributes", encodeAttributes item.attributes), ("content_type", text item.contentType),
    ("created", uint item.created.toNat), ("modified", uint item.modified.toNat),
    ("current_generation", item.currentGeneration.encode)]

def AliasMetadata.encode (aliased : AliasMetadata) : Blob :=
  record [("schema_version", uint aliased.schemaVersion.toNat), ("name", text aliased.name),
    ("collection_id", aliased.collectionId.encode)]

def SecretBytes.encode (secret : SecretBytes) : Blob := byteString secret.bytes

/-- An operation: its name and its own fields in one map. -/
def encodeTagged (name : String) (fields : List (String × Blob)) : Blob :=
  record (("operation", text name) :: fields)

def Operation.encode : Operation → Blob
  | .ping => encodeTagged "ping" []
  | .listCollections => encodeTagged "list_collections" []
  | .getCollection collectionId => encodeTagged "get_collection" [("collection_id", collectionId.encode)]
  | .createCollection collection => encodeTagged "create_collection" [("collection", collection.encode)]
  | .updateCollection collection => encodeTagged "update_collection" [("collection", collection.encode)]
  | .deleteCollection collectionId => encodeTagged "delete_collection" [("collection_id", collectionId.encode)]
  | .listAliases => encodeTagged "list_aliases" []
  | .resolveAlias name => encodeTagged "resolve_alias" [("name", text name)]
  | .setAlias aliased => encodeTagged "set_alias" [("alias", aliased.encode)]
  | .removeAlias name => encodeTagged "remove_alias" [("name", text name)]
  | .searchItems attributes => encodeTagged "search_items" [("attributes", encodeAttributes attributes)]
  | .listItems collectionId => encodeTagged "list_items" [("collection_id", collectionId.encode)]
  | .getItem itemId includeSecret =>
      encodeTagged "get_item" [("item_id", itemId.encode), ("include_secret", bool includeSecret)]
  | .createItem item secret => encodeTagged "create_item" [("item", item.encode), ("secret", secret.encode)]
  | .createOrReplaceItem item secret replace =>
      encodeTagged "create_or_replace_item"
        [("item", item.encode), ("secret", secret.encode), ("replace", bool replace)]
  | .updateItem item secret =>
      encodeTagged "update_item" [("item", item.encode), ("secret", option SecretBytes.encode secret)]
  | .updateItemCas item secret expectedModified =>
      encodeTagged "update_item_cas" [("item", item.encode), ("secret", option SecretBytes.encode secret),
        ("expected_modified", uint expectedModified.toNat)]
  | .deleteItem itemId => encodeTagged "delete_item" [("item_id", itemId.encode)]
  | .reconcile => encodeTagged "reconcile" []

def Request.encode (request : Request) : Blob :=
  record [("request_id", uint request.requestId.toNat), ("operation", request.operation.encode)]

def Envelope.encode {α : Type} (encodePayload : α → Blob) (envelope : Envelope α) : Blob :=
  record [("version", uint envelope.version.toNat), ("payload", encodePayload envelope.payload)]

def ErrorCode.name : ErrorCode → String
  | .invalidRequest => "invalid_request"
  | .unsupportedVersion => "unsupported_version"
  | .notFound => "not_found"
  | .alreadyExists => "already_exists"
  | .invalidCollection => "invalid_collection"
  | .secretTooLarge => "secret_too_large"
  | .metadataTooLarge => "metadata_too_large"
  | .permissionDenied => "permission_denied"
  | .backendUnavailable => "backend_unavailable"
  | .conflict => "conflict"
  | .corruptState => "corrupt_state"
  | .internal => "internal"

def BrokerError.encode (error : BrokerError) : Blob :=
  record [("code", text error.code.name), ("message", text error.message)]

/-- A response body: its name, and its content beside it if it has one. -/
def encodeBody (name : String) (value : Blob) : Blob := record [("response", text name), ("value", value)]

def ResponseBody.encode : ResponseBody → Blob
  | .pong => record [("response", text "pong")]
  | .empty => record [("response", text "empty")]
  | .collection found => encodeBody "collection" found.encode
  | .collections listed => encodeBody "collections" (array (listed.map CollectionMetadata.encode))
  | .aliases listed => encodeBody "aliases" (array (listed.map AliasMetadata.encode))
  | .alias found => encodeBody "alias" (option AliasMetadata.encode found)
  | .item found secret =>
      encodeBody "item" (record [("item", found.encode), ("secret", option SecretBytes.encode secret)])
  | .replacedItem created replacedItemIds cleanupFailedItemIds =>
      encodeBody "replaced_item" (record [("item", created.encode),
        ("replaced_item_ids", array (replacedItemIds.map Uuid.encode)),
        ("cleanup_failed_item_ids", array (cleanupFailedItemIds.map Uuid.encode))])
  | .items listed => encodeBody "items" (array (listed.map ItemMetadata.encode))
  | .reconciled removedGenerations corruptItems =>
      encodeBody "reconciled" (record [("removed_generations", uint removedGenerations),
        ("corrupt_items", array (corruptItems.map Uuid.encode))])

def encodeResult : Except BrokerError ResponseBody → Blob
  | .ok body => record [("Ok", body.encode)]
  | .error error => record [("Err", error.encode)]

def Response.encode (response : Response) : Blob :=
  record [("request_id", uint response.requestId.toNat), ("result", encodeResult response.result)]

/-- The bytes of a ping as the first version of the protocol fixes them. -/
example : (Envelope.current (⟨7, .ping⟩ : Request)).encode Request.encode =
    [0xA2, 0x67, 0x76, 0x65, 0x72, 0x73, 0x69, 0x6F, 0x6E, 0x01, 0x67, 0x70, 0x61, 0x79, 0x6C, 0x6F, 0x61, 0x64,
      0xA2, 0x6A, 0x72, 0x65, 0x71, 0x75, 0x65, 0x73, 0x74, 0x5F, 0x69, 0x64, 0x07, 0x69, 0x6F, 0x70, 0x65, 0x72,
      0x61, 0x74, 0x69, 0x6F, 0x6E, 0xA1, 0x69, 0x6F, 0x70, 0x65, 0x72, 0x61, 0x74, 0x69, 0x6F, 0x6E, 0x64, 0x70,
      0x69, 0x6E, 0x67] := by
  decide +kernel

def Uuid.ofBytes (bytes : Blob) : Option Uuid :=
  if bytes.length = 16 then some ⟨BitVec.ofNat 128 (beValue bytes)⟩ else none

def Uuid.read : Decoder Uuid := do
  let bytes ← readByteString
  ofOption (Uuid.ofBytes bytes)

def readUInt16 : Decoder UInt16 := do
  let value ← readUint
  ofOption (if value < UInt16.size then some (UInt16.ofNat value) else none)

def readUInt64 : Decoder UInt64 := do
  let value ← readUint
  ofOption (if value < UInt64.size then some (UInt64.ofNat value) else none)

def readAttribute : Decoder (String × String) := do
  let key ← readText
  let value ← readText
  pure (key, value)

def readAttributes : Decoder (BTreeMap String String) := do
  let count ← readHead 5
  let entries ← readMany readAttribute count
  pure (.ofList entries compare)

def CollectionMetadata.read : Decoder CollectionMetadata := do
  expectRecord 5
  let schemaVersion ← readField "schema_version" readUInt16
  let id ← readField "id" Uuid.read
  let label ← readField "label" readText
  let created ← readField "created" readUInt64
  let modified ← readField "modified" readUInt64
  pure ⟨schemaVersion, id, label, created, modified⟩

def ItemMetadata.read : Decoder ItemMetadata := do
  expectRecord 9
  let schemaVersion ← readField "schema_version" readUInt16
  let id ← readField "id" Uuid.read
  let collectionId ← readField "collection_id" Uuid.read
  let label ← readField "label" readText
  let attributes ← readField "attributes" readAttributes
  let contentType ← readField "content_type" readText
  let created ← readField "created" readUInt64
  let modified ← readField "modified" readUInt64
  let currentGeneration ← readField "current_generation" Uuid.read
  pure ⟨schemaVersion, id, collectionId, label, attributes, contentType, created, modified, currentGeneration⟩

def AliasMetadata.read : Decoder AliasMetadata := do
  expectRecord 3
  let schemaVersion ← readField "schema_version" readUInt16
  let name ← readField "name" readText
  let collectionId ← readField "collection_id" Uuid.read
  pure ⟨schemaVersion, name, collectionId⟩

@[simp] theorem Uuid.length_bytes (id : Uuid) : id.bytes.length = 16 := length_beBytes _ _

@[simp] theorem Uuid.length_encode (id : Uuid) : id.encode.length = 17 := by
  simp [Uuid.encode, argumentWidth]

theorem Uuid.ofBytes_bytes (id : Uuid) : Uuid.ofBytes id.bytes = some id := by
  have hvalue : beValue id.bytes = id.value.toNat := by
    rw [bytes, beValue_beBytes]
    exact Nat.mod_eq_of_lt id.value.isLt
  rw [Uuid.ofBytes, if_pos id.length_bytes, hvalue, BitVec.ofNat_toNat, BitVec.setWidth_eq]

theorem Uuid.decodes (id : Uuid) : Decodes id.encode Uuid.read id :=
  (Decodes.byteString id.bytes).convert id.ofBytes_bytes

theorem decodes_uint16 (value : UInt16) : Decodes (uint value.toNat) readUInt16 value :=
  (Decodes.uint (lt_trans value.toNat_lt (by decide))).convert
    ((if_pos value.toNat_lt).trans (congrArg some UInt16.ofNat_toNat))

theorem decodes_uint64 (value : UInt64) : Decodes (uint value.toNat) readUInt64 value :=
  (Decodes.uint value.toNat_lt).convert ((if_pos value.toNat_lt).trans (congrArg some UInt64.ofNat_toNat))

def encodeAttribute (entry : String × String) : Blob := text entry.1 ++ text entry.2

theorem encodeAttributes_eq (attributes : BTreeMap String String) :
    encodeAttributes attributes = head 5 attributes.toList.length ++ attributes.toList.flatMap encodeAttribute := by
  simp only [encodeAttributes, Cbor.map, List.length_map, List.flatMap_map]
  rfl

theorem decodes_attribute (entry : String × String) : Decodes (encodeAttribute entry) readAttribute entry :=
  (Decodes.text entry.1).bind ((Decodes.text entry.2).map fun value => (entry.1, value))

theorem one_le_length_encodeAttribute (entry : String × String) : 1 ≤ (encodeAttribute entry).length := by
  simp only [encodeAttribute, List.length_append, length_text]
  omega

theorem decodes_attributes (attributes : BTreeMap String String) :
    Decodes (encodeAttributes attributes) readAttributes attributes := by
  intro hlength rest
  rw [encodeAttributes_eq] at hlength ⊢
  have hcount := length_le_flatMap one_le_length_encodeAttribute attributes.toList
  rw [List.length_append] at hlength
  have hhead : Decodes (head 5 attributes.toList.length) (readHead 5) attributes.toList.length :=
    fun _ rest => readHead_head (by omega) (by omega) rest
  have hentries := (Decodes.many decodes_attribute attributes.toList).map fun entries =>
    (Std.ExtTreeMap.ofList entries compare : BTreeMap String String)
  rw [KeyedRecords.ofList_toList] at hentries
  exact hhead.bind hentries (by simpa using hlength) rest

theorem CollectionMetadata.decodes (collection : CollectionMetadata) :
    Decodes collection.encode CollectionMetadata.read collection :=
  Decodes.record (by simp) <|
    (decodes_uint16 _).fields_cons <| (Uuid.decodes _).fields_cons <| (Decodes.text _).fields_cons <|
    (decodes_uint64 _).fields_cons <| (decodes_uint64 _).fields_cons <| Decodes.fields_nil _

theorem ItemMetadata.decodes (item : ItemMetadata) : Decodes item.encode ItemMetadata.read item :=
  Decodes.record (by simp) <|
    (decodes_uint16 _).fields_cons <| (Uuid.decodes _).fields_cons <| (Uuid.decodes _).fields_cons <|
    (Decodes.text _).fields_cons <| (decodes_attributes _).fields_cons <| (Decodes.text _).fields_cons <|
    (decodes_uint64 _).fields_cons <| (decodes_uint64 _).fields_cons <| (Uuid.decodes _).fields_cons <|
    Decodes.fields_nil _

theorem AliasMetadata.decodes (aliased : AliasMetadata) : Decodes aliased.encode AliasMetadata.read aliased :=
  Decodes.record (by simp) <|
    (decodes_uint16 _).fields_cons <| (Decodes.text _).fields_cons <| (Uuid.decodes _).fields_cons <|
    Decodes.fields_nil _

end WincredLibsecret
