import WincredLibsecret.ProtocolCodec
import WincredLibsecret.ProtocolFrame

/-! The readers of the messages, and the codecs of the four message types of the stream. A reader is
strict: it takes the fields in the order in which they are written. Every message is read back from
what was written, as long as the number it counts fits a machine word. -/

namespace WincredLibsecret

open Cbor

/-- The codec of a message that is written as it is and read back by a strict reader. -/
def wireCodec {α : Type} (encode : α → Blob) (read : Decoder α) (counted : α → Bool)
    (h : ∀ value, counted value = true → Decodes (encode value) read value) : WireCodec α where
  intoWriter := fun value =>
    if counted value ∧ (encode value).length < 2 ^ 64 then .ok (encode value) else .error "value out of range"
  fromReader := fun payload =>
    match read.run payload with
    | none => .error "malformed message"
    | some (value, rest) => .ok (value, payload.length - rest.length)
  fromReader_intoWriter := by
    intro value payload hpayload
    split_ifs at hpayload with hfits
    cases hpayload
    have hread := h value hfits.1 hfits.2 []
    rw [List.append_nil] at hread
    simp only [hread, List.length_nil, Nat.sub_zero]

theorem intoWriter_wireCodec {α : Type} {encode : α → Blob} {read : Decoder α} {counted : α → Bool}
    {h : ∀ value, counted value = true → Decodes (encode value) read value} {value : α}
    (hcounted : counted value = true) (hlength : (encode value).length < 2 ^ 64) :
    (wireCodec encode read counted h).intoWriter value = .ok (encode value) :=
  if_pos ⟨hcounted, hlength⟩

def SecretBytes.read : Decoder SecretBytes := do
  let bytes ← readByteString
  ofOption (if h : bytes.length ≤ maxSecretBytes then some ⟨bytes, h⟩ else none)

/-- The number of fields of an operation and their reader, by its name. -/
def Operation.table : String → Option (Nat × Decoder Operation)
  | "ping" => some (0, pure .ping)
  | "list_collections" => some (0, pure .listCollections)
  | "get_collection" => some (1, do
      let collectionId ← readField "collection_id" Uuid.read
      pure (.getCollection collectionId))
  | "create_collection" => some (1, do
      let collection ← readField "collection" CollectionMetadata.read
      pure (.createCollection collection))
  | "update_collection" => some (1, do
      let collection ← readField "collection" CollectionMetadata.read
      pure (.updateCollection collection))
  | "delete_collection" => some (1, do
      let collectionId ← readField "collection_id" Uuid.read
      pure (.deleteCollection collectionId))
  | "list_aliases" => some (0, pure .listAliases)
  | "resolve_alias" => some (1, do
      let name ← readField "name" readText
      pure (.resolveAlias name))
  | "set_alias" => some (1, do
      let aliased ← readField "alias" AliasMetadata.read
      pure (.setAlias aliased))
  | "remove_alias" => some (1, do
      let name ← readField "name" readText
      pure (.removeAlias name))
  | "search_items" => some (1, do
      let attributes ← readField "attributes" readAttributes
      pure (.searchItems attributes))
  | "list_items" => some (1, do
      let collectionId ← readField "collection_id" Uuid.read
      pure (.listItems collectionId))
  | "get_item" => some (2, do
      let itemId ← readField "item_id" Uuid.read
      let includeSecret ← readField "include_secret" readBool
      pure (.getItem itemId includeSecret))
  | "create_item" => some (2, do
      let item ← readField "item" ItemMetadata.read
      let secret ← readField "secret" SecretBytes.read
      pure (.createItem item secret))
  | "create_or_replace_item" => some (3, do
      let item ← readField "item" ItemMetadata.read
      let secret ← readField "secret" SecretBytes.read
      let replace ← readField "replace" readBool
      pure (.createOrReplaceItem item secret replace))
  | "update_item" => some (2, do
      let item ← readField "item" ItemMetadata.read
      let secret ← readField "secret" (readOption SecretBytes.read)
      pure (.updateItem item secret))
  | "update_item_cas" => some (3, do
      let item ← readField "item" ItemMetadata.read
      let secret ← readField "secret" (readOption SecretBytes.read)
      let expectedModified ← readField "expected_modified" readUInt64
      pure (.updateItemCas item secret expectedModified))
  | "delete_item" => some (1, do
      let itemId ← readField "item_id" Uuid.read
      pure (.deleteItem itemId))
  | "reconcile" => some (0, pure .reconcile)
  | _ => none

def Operation.read : Decoder Operation := readVariant "operation" Operation.table

def Request.read : Decoder Request := do
  expectRecord 2
  let requestId ← readField "request_id" readUInt64
  let operation ← readField "operation" Operation.read
  pure ⟨requestId, operation⟩

def Envelope.read {α : Type} (readPayload : Decoder α) : Decoder (Envelope α) := do
  expectRecord 2
  let version ← readField "version" readUInt16
  let payload ← readField "payload" readPayload
  pure ⟨version, payload⟩

theorem SecretBytes.decodes (secret : SecretBytes) : Decodes secret.encode SecretBytes.read secret :=
  (Decodes.byteString secret.bytes).convert (dif_pos secret.length_le)

theorem head?_byteString_ne_null (bytes rest : Blob) : (byteString bytes ++ rest).head? ≠ some 0xf6 := by
  rw [byteString, List.append_assoc]
  exact head?_head_ne_null (by decide) _

theorem head?_record_ne_null (fields : List (String × Blob)) (rest : Blob) :
    (record fields ++ rest).head? ≠ some 0xf6 := by
  rw [record_eq, List.append_assoc]
  exact head?_head_ne_null (by decide) _

theorem decodes_secret (secret : Option SecretBytes) :
    Decodes (option SecretBytes.encode secret) (readOption SecretBytes.read) secret :=
  Decodes.option (fun found _ => found.decodes) fun found => head?_byteString_ne_null found.bytes

theorem Operation.decodes (operation : Operation) : Decodes operation.encode Operation.read operation := by
  cases operation with
  | ping => exact .variant rfl (by simp) (.fields_nil _)
  | listCollections => exact .variant rfl (by simp) (.fields_nil _)
  | getCollection id => exact .variant rfl (by simp) (id.decodes.fields_cons (.fields_nil _))
  | createCollection collection => exact .variant rfl (by simp) (collection.decodes.fields_cons (.fields_nil _))
  | updateCollection collection => exact .variant rfl (by simp) (collection.decodes.fields_cons (.fields_nil _))
  | deleteCollection id => exact .variant rfl (by simp) (id.decodes.fields_cons (.fields_nil _))
  | listAliases => exact .variant rfl (by simp) (.fields_nil _)
  | resolveAlias name => exact .variant rfl (by simp) ((Decodes.text name).fields_cons (.fields_nil _))
  | setAlias aliased => exact .variant rfl (by simp) (aliased.decodes.fields_cons (.fields_nil _))
  | removeAlias name => exact .variant rfl (by simp) ((Decodes.text name).fields_cons (.fields_nil _))
  | searchItems attributes =>
      exact .variant rfl (by simp) ((decodes_attributes attributes).fields_cons (.fields_nil _))
  | listItems id => exact .variant rfl (by simp) (id.decodes.fields_cons (.fields_nil _))
  | getItem id includeSecret =>
      exact .variant rfl (by simp) (id.decodes.fields_cons ((Decodes.bool includeSecret).fields_cons (.fields_nil _)))
  | createItem item secret =>
      exact .variant rfl (by simp) (item.decodes.fields_cons (secret.decodes.fields_cons (.fields_nil _)))
  | createOrReplaceItem item secret replace =>
      exact .variant rfl (by simp) (item.decodes.fields_cons (secret.decodes.fields_cons
        ((Decodes.bool replace).fields_cons (.fields_nil _))))
  | updateItem item secret =>
      exact .variant rfl (by simp) (item.decodes.fields_cons ((decodes_secret secret).fields_cons (.fields_nil _)))
  | updateItemCas item secret expectedModified =>
      exact .variant rfl (by simp) (item.decodes.fields_cons ((decodes_secret secret).fields_cons
        ((decodes_uint64 expectedModified).fields_cons (.fields_nil _))))
  | deleteItem id => exact .variant rfl (by simp) (id.decodes.fields_cons (.fields_nil _))
  | reconcile => exact .variant rfl (by simp) (.fields_nil _)

theorem Request.decodes (request : Request) : Decodes request.encode Request.read request :=
  Decodes.record (by simp) ((decodes_uint64 _).fields_cons (request.operation.decodes.fields_cons (.fields_nil _)))

theorem Envelope.decodes {α : Type} {encodePayload : α → Blob} {readPayload : Decoder α} (envelope : Envelope α)
    (h : Decodes (encodePayload envelope.payload) readPayload envelope.payload) :
    Decodes (envelope.encode encodePayload) (Envelope.read readPayload) envelope :=
  Decodes.record (by simp) ((decodes_uint16 _).fields_cons (h.fields_cons (.fields_nil _)))

def requestCodec : WireCodec (Envelope Request) :=
  wireCodec (Envelope.encode Request.encode) (Envelope.read Request.read) (fun _ => true)
    fun envelope _ => envelope.decodes envelope.payload.decodes

/-! ### Responses -/

def ErrorCode.ofName : String → Option ErrorCode
  | "invalid_request" => some .invalidRequest
  | "unsupported_version" => some .unsupportedVersion
  | "not_found" => some .notFound
  | "already_exists" => some .alreadyExists
  | "invalid_collection" => some .invalidCollection
  | "secret_too_large" => some .secretTooLarge
  | "metadata_too_large" => some .metadataTooLarge
  | "permission_denied" => some .permissionDenied
  | "backend_unavailable" => some .backendUnavailable
  | "conflict" => some .conflict
  | "corrupt_state" => some .corruptState
  | "internal" => some .internal
  | _ => none

def ErrorCode.read : Decoder ErrorCode := do
  let name ← readText
  ofOption (ErrorCode.ofName name)

def BrokerError.read : Decoder BrokerError := do
  expectRecord 2
  let code ← readField "code" ErrorCode.read
  let message ← readField "message" readText
  pure ⟨code, message⟩

/-- The content of an item response. -/
def readItemValue : Decoder ResponseBody := do
  expectRecord 2
  let item ← readField "item" ItemMetadata.read
  let secret ← readField "secret" (readOption SecretBytes.read)
  pure (.item item secret)

def readReplacedItemValue : Decoder ResponseBody := do
  expectRecord 3
  let item ← readField "item" ItemMetadata.read
  let replacedItemIds ← readField "replaced_item_ids" (readArray Uuid.read)
  let cleanupFailedItemIds ← readField "cleanup_failed_item_ids" (readArray Uuid.read)
  pure (.replacedItem item replacedItemIds cleanupFailedItemIds)

def readReconciledValue : Decoder ResponseBody := do
  expectRecord 2
  let removedGenerations ← readField "removed_generations" readUint
  let corruptItems ← readField "corrupt_items" (readArray Uuid.read)
  pure (.reconciled removedGenerations corruptItems)

/-- A response body that holds one value beside its name. -/
def readValue {α : Type} (read : Decoder α) (body : α → ResponseBody) : Decoder ResponseBody := do
  let value ← readField "value" read
  pure (body value)

def ResponseBody.table : String → Option (Nat × Decoder ResponseBody)
  | "pong" => some (0, pure .pong)
  | "empty" => some (0, pure .empty)
  | "collection" => some (1, readValue CollectionMetadata.read .collection)
  | "collections" => some (1, readValue (readArray CollectionMetadata.read) .collections)
  | "aliases" => some (1, readValue (readArray AliasMetadata.read) .aliases)
  | "alias" => some (1, readValue (readOption AliasMetadata.read) .alias)
  | "item" => some (1, readValue readItemValue id)
  | "replaced_item" => some (1, readValue readReplacedItemValue id)
  | "items" => some (1, readValue (readArray ItemMetadata.read) .items)
  | "reconciled" => some (1, readValue readReconciledValue id)
  | _ => none

def ResponseBody.read : Decoder ResponseBody := readVariant "response" ResponseBody.table

/-- The two outcomes of a request, by their names. -/
def readOutcome : String → Decoder (Except BrokerError ResponseBody)
  | "Ok" => do
      let body ← ResponseBody.read
      pure (.ok body)
  | "Err" => do
      let error ← BrokerError.read
      pure (.error error)
  | _ => ofOption none

def readResult : Decoder (Except BrokerError ResponseBody) := do
  expectRecord 1
  let name ← readText
  readOutcome name

def Response.read : Decoder Response := do
  expectRecord 2
  let requestId ← readField "request_id" readUInt64
  let result ← readField "result" readResult
  pure ⟨requestId, result⟩

/-- The number of deletions a recovery reports fits a machine word. -/
def Response.counted (response : Response) : Bool :=
  match response.result with
  | .ok (.reconciled removedGenerations _) => removedGenerations < 2 ^ 64
  | _ => true

theorem ErrorCode.decodes (code : ErrorCode) : Decodes (text code.name) ErrorCode.read code :=
  (Decodes.text code.name).convert (by cases code <;> rfl)

theorem BrokerError.decodes (error : BrokerError) : Decodes error.encode BrokerError.read error :=
  Decodes.record (by simp) (error.code.decodes.fields_cons ((Decodes.text _).fields_cons (.fields_nil _)))

theorem one_le_length_record (fields : List (String × Blob)) : 1 ≤ (record fields).length := by
  rw [length_record]
  omega

theorem decodes_ids (ids : List Uuid) : Decodes (array (ids.map Uuid.encode)) (readArray Uuid.read) ids :=
  Decodes.array Uuid.decodes (fun id => by rw [id.length_encode]; decide) ids

theorem decodes_body {α : Type} {name : String} {encoded : Blob} {read : Decoder α} {value : α}
    {body : α → ResponseBody} (htable : ResponseBody.table name = some (1, readValue read body))
    (h : Decodes encoded read value) : Decodes (encodeBody name encoded) ResponseBody.read (body value) :=
  Decodes.variant htable (by simp) (h.fields_cons (.fields_nil _))

theorem decodes_itemValue (item : ItemMetadata) (secret : Option SecretBytes) :
    Decodes (record [("item", item.encode), ("secret", option SecretBytes.encode secret)]) readItemValue
      (.item item secret) :=
  Decodes.record (by simp) (item.decodes.fields_cons ((decodes_secret secret).fields_cons (.fields_nil _)))

theorem decodes_replacedItemValue (item : ItemMetadata) (replaced failed : List Uuid) :
    Decodes (record [("item", item.encode), ("replaced_item_ids", array (replaced.map Uuid.encode)),
      ("cleanup_failed_item_ids", array (failed.map Uuid.encode))]) readReplacedItemValue
      (.replacedItem item replaced failed) :=
  Decodes.record (by simp) (item.decodes.fields_cons ((decodes_ids replaced).fields_cons
    ((decodes_ids failed).fields_cons (.fields_nil _))))

theorem decodes_reconciledValue {removed : Nat} (hremoved : removed < 2 ^ 64) (corrupt : List Uuid) :
    Decodes (record [("removed_generations", uint removed), ("corrupt_items", array (corrupt.map Uuid.encode))])
      readReconciledValue (.reconciled removed corrupt) :=
  Decodes.record (by simp) ((Decodes.uint hremoved).fields_cons ((decodes_ids corrupt).fields_cons (.fields_nil _)))

theorem ResponseBody.decodes (body : ResponseBody)
    (hcounted : ∀ removed corrupt, body = .reconciled removed corrupt → removed < 2 ^ 64) :
    Decodes body.encode ResponseBody.read body := by
  cases body with
  | pong => exact .variant rfl (by simp) (.fields_nil _)
  | empty => exact .variant rfl (by simp) (.fields_nil _)
  | collection found => exact decodes_body rfl found.decodes
  | collections listed =>
      exact decodes_body rfl (.array CollectionMetadata.decodes (fun _ => one_le_length_record _) listed)
  | aliases listed => exact decodes_body rfl (.array AliasMetadata.decodes (fun _ => one_le_length_record _) listed)
  | «alias» found =>
      exact decodes_body rfl (.option (fun record _ => record.decodes) fun _ => head?_record_ne_null _)
  | item found secret =>
      have htable : ResponseBody.table "item" = some (1, readValue readItemValue id) := rfl
      have hbody := decodes_body htable (decodes_itemValue found secret)
      exact hbody
  | replacedItem created replaced failed =>
      have htable : ResponseBody.table "replaced_item" = some (1, readValue readReplacedItemValue id) := rfl
      have hbody := decodes_body htable (decodes_replacedItemValue created replaced failed)
      exact hbody
  | items listed => exact decodes_body rfl (.array ItemMetadata.decodes (fun _ => one_le_length_record _) listed)
  | reconciled removed corrupt =>
      have htable : ResponseBody.table "reconciled" = some (1, readValue readReconciledValue id) := rfl
      have hbody := decodes_body htable (decodes_reconciledValue (hcounted removed corrupt rfl) corrupt)
      exact hbody

theorem decodes_outcome {name : String} {encoded : Blob} {result : Except BrokerError ResponseBody}
    (h : Decodes encoded (readOutcome name) result) : Decodes (record [(name, encoded)]) readResult result := by
  have hentry : Decodes (fieldBytes [(name, encoded)]) (readText >>= readOutcome) result := by
    rw [fieldBytes, List.flatMap_singleton]
    exact (Decodes.text name).bind h
  exact Decodes.record (by simp) hentry

theorem decodes_result {result : Except BrokerError ResponseBody}
    (hcounted : ∀ removed corrupt, result = .ok (.reconciled removed corrupt) → removed < 2 ^ 64) :
    Decodes (encodeResult result) readResult result := by
  cases result with
  | ok body =>
      have hbody := body.decodes fun removed corrupt heq => hcounted removed corrupt (congrArg Except.ok heq)
      exact decodes_outcome (hbody.map Except.ok)
  | error error => exact decodes_outcome (error.decodes.map Except.error)

theorem Response.decodes (response : Response) (hcounted : response.counted = true) :
    Decodes response.encode Response.read response := by
  have hresult : Decodes (encodeResult response.result) readResult response.result := by
    refine decodes_result fun removed corrupt heq => ?_
    rw [Response.counted, heq] at hcounted
    exact of_decide_eq_true hcounted
  exact Decodes.record (by simp) ((decodes_uint64 _).fields_cons (hresult.fields_cons (.fields_nil _)))

def responseCodec : WireCodec (Envelope Response) :=
  wireCodec (Envelope.encode Response.encode) (Envelope.read Response.read) (fun envelope => envelope.payload.counted)
    fun envelope hcounted => envelope.decodes (envelope.payload.decodes hcounted)

/-! ### The handshake -/

def Capability.name : Capability → String
  | .binarySecrets => "binary_secrets"
  | .collections => "collections"
  | .aliases => "aliases"
  | .generationCommits => "generation_commits"
  | .reconciliation => "reconciliation"
  | .atomicItemMutations => "atomic_item_mutations"

def Capability.ofName : String → Option Capability
  | "binary_secrets" => some .binarySecrets
  | "collections" => some .collections
  | "aliases" => some .aliases
  | "generation_commits" => some .generationCommits
  | "reconciliation" => some .reconciliation
  | "atomic_item_mutations" => some .atomicItemMutations
  | _ => none

/-- All capabilities in their order. -/
def Capability.all : List Capability :=
  [.binarySecrets, .collections, .aliases, .generationCommits, .reconciliation, .atomicItemMutations]

theorem Capability.mem_all (capability : Capability) : capability ∈ all := by
  cases capability <;> decide

def encodeCapabilities (capabilities : Finset Capability) : Blob :=
  array ((Capability.all.filter (· ∈ capabilities)).map fun capability => text capability.name)

def VersionRange.encode (range : VersionRange) : Blob :=
  record [("minimum", uint range.minimum.toNat), ("maximum", uint range.maximum.toNat)]

def Hello.encode (hello : Hello) : Blob :=
  record [("versions", hello.versions.encode), ("capabilities", encodeCapabilities hello.capabilities)]

def HelloAck.encode (acknowledgement : HelloAck) : Blob :=
  record [("version", uint acknowledgement.version.toNat),
    ("capabilities", encodeCapabilities acknowledgement.capabilities)]

def Capability.read : Decoder Capability := do
  let name ← readText
  ofOption (Capability.ofName name)

def readCapabilities : Decoder (Finset Capability) := do
  let listed ← readArray Capability.read
  pure listed.toFinset

def VersionRange.read : Decoder VersionRange := do
  expectRecord 2
  let minimum ← readField "minimum" readUInt16
  let maximum ← readField "maximum" readUInt16
  pure ⟨minimum, maximum⟩

def Hello.read : Decoder Hello := do
  expectRecord 2
  let versions ← readField "versions" VersionRange.read
  let capabilities ← readField "capabilities" readCapabilities
  pure ⟨versions, capabilities⟩

def HelloAck.read : Decoder HelloAck := do
  expectRecord 2
  let version ← readField "version" readUInt16
  let capabilities ← readField "capabilities" readCapabilities
  pure ⟨version, capabilities⟩

theorem Capability.decodes (capability : Capability) : Decodes (text capability.name) Capability.read capability :=
  (Decodes.text capability.name).convert (by cases capability <;> rfl)

theorem decodes_capabilities (capabilities : Finset Capability) :
    Decodes (encodeCapabilities capabilities) readCapabilities capabilities := by
  have hlisted := (Decodes.array Capability.decodes (fun capability => by rw [length_text]; omega)
    (Capability.all.filter (· ∈ capabilities))).map List.toFinset
  have hall : (Capability.all.filter (· ∈ capabilities)).toFinset = capabilities := by
    ext capability
    simp [Capability.mem_all]
  rwa [hall] at hlisted

theorem VersionRange.decodes (range : VersionRange) : Decodes range.encode VersionRange.read range :=
  Decodes.record (by simp) ((decodes_uint16 _).fields_cons ((decodes_uint16 _).fields_cons (.fields_nil _)))

theorem Hello.decodes (hello : Hello) : Decodes hello.encode Hello.read hello :=
  Decodes.record (by simp) (hello.versions.decodes.fields_cons ((decodes_capabilities _).fields_cons (.fields_nil _)))

theorem HelloAck.decodes (acknowledgement : HelloAck) :
    Decodes acknowledgement.encode HelloAck.read acknowledgement :=
  Decodes.record (by simp) ((decodes_uint16 _).fields_cons ((decodes_capabilities _).fields_cons (.fields_nil _)))

def helloCodec : WireCodec (Envelope Hello) :=
  wireCodec (Envelope.encode Hello.encode) (Envelope.read Hello.read) (fun _ => true)
    fun envelope _ => envelope.decodes envelope.payload.decodes

def acknowledgementCodec : WireCodec (Envelope HelloAck) :=
  wireCodec (Envelope.encode HelloAck.encode) (Envelope.read HelloAck.read) (fun _ => true)
    fun envelope _ => envelope.decodes envelope.payload.decodes

/-- Among the admitted values no encoding is the beginning of another. -/
def PrefixFree {α : Type} (encode : α → Blob) (admitted : α → Prop) : Prop :=
  ∀ first second, admitted first → admitted second → encode first <+: encode second → first = second

theorem prefixFree_of_decodes {α : Type} {encode : α → Blob} {read : Decoder α} {admitted : α → Prop}
    (h : ∀ value, admitted value → (encode value).length < 2 ^ 64 ∧ Decodes (encode value) read value) :
    PrefixFree encode admitted := by
  rintro first second hfirst hsecond ⟨later, hlater⟩
  obtain ⟨hshort, hfront⟩ := h first hfirst
  obtain ⟨hlong, hwhole⟩ := h second hsecond
  have hread := hwhole hlong []
  rw [List.append_nil, ← hlater, hfront hshort later] at hread
  exact congrArg Prod.fst (Option.some.inj hread)

/-- Greetings, acknowledgements, requests and responses: no message starts with the bytes of another one of its
kind, so a stream of messages says which they are. -/
theorem messages_prefixFree :
    PrefixFree (Envelope.encode Hello.encode) (fun hello => (hello.encode Hello.encode).length < 2 ^ 64) ∧
    PrefixFree (Envelope.encode HelloAck.encode) (fun ack => (ack.encode HelloAck.encode).length < 2 ^ 64) ∧
    PrefixFree (Envelope.encode Request.encode) (fun request => (request.encode Request.encode).length < 2 ^ 64) ∧
    PrefixFree (Envelope.encode Response.encode) (fun response =>
      response.payload.counted = true ∧ (response.encode Response.encode).length < 2 ^ 64) := by
  refine ⟨?_, ?_, ?_, ?_⟩
  · exact prefixFree_of_decodes fun hello hlength => ⟨hlength, hello.decodes hello.payload.decodes⟩
  · exact prefixFree_of_decodes fun ack hlength => ⟨hlength, ack.decodes ack.payload.decodes⟩
  · exact prefixFree_of_decodes fun request hlength => ⟨hlength, request.decodes request.payload.decodes⟩
  · exact prefixFree_of_decodes fun response h => ⟨h.2, response.decodes (response.payload.decodes h.1)⟩

end WincredLibsecret
