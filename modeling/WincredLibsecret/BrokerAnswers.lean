import WincredLibsecret.BrokerRecovery
import WincredLibsecret.EffectYield
import WincredLibsecret.ProtocolFrame
import WincredLibsecret.ProtocolSizes

/-! How large the broker's answers are. Its errors are short constants, a record it answers with has
passed a check of its texts, and only what it lists grows with the vault: the records of a listing and
the identifiers that a replacement or a recovery reports. -/

namespace WincredLibsecret

open Effect Effect.Action KeyedRecords

/-- The message is short. The storage backends report fixed texts, all of them short. -/
def BackendError.Brief (error : BackendError) : Prop := error.message.utf8ByteSize ≤ 64

def BrokerError.Brief (error : BrokerError) : Prop := error.message.utf8ByteSize ≤ 64

instance (error : BrokerError) : Decidable error.Brief := inferInstanceAs (Decidable (_ ≤ _))

/-- Every error of the result is short. -/
def FailsBriefly {α : Type} (result : Except BrokerError α) : Prop := ∀ error, result = .error error → error.Brief

section FailsBriefly

variable {α β : Type}

theorem failsBriefly_ok (value : α) : FailsBriefly (.ok value) := by
  intro error h
  cases h

theorem failsBriefly_error {error : BrokerError} (h : error.Brief) : FailsBriefly (.error error : Except _ α) := by
  intro found heq
  cases heq
  exact h

theorem failsBriefly_bind {result : Except BrokerError α} {next : α → Except BrokerError β}
    (h : FailsBriefly result) (hnext : ∀ value, result = .ok value → FailsBriefly (next value)) :
    FailsBriefly (result >>= next) := by
  cases result with
  | ok value => exact hnext value rfl
  | error error => exact failsBriefly_error (h error rfl)

theorem failsBriefly_mapError {ε : Type} {result : Except ε α} {f : ε → BrokerError} (h : ∀ error, (f error).Brief) :
    FailsBriefly (result.mapError f) := by
  cases result with
  | ok value => exact failsBriefly_ok value
  | error error => exact failsBriefly_error (h error)

end FailsBriefly

theorem brief_invalidRequest (error : ProtocolError) : (invalidRequest error).Brief := by
  rw [invalidRequest]
  split_ifs
  · exact (by decide : BrokerError.Brief ⟨.secretTooLarge, "request metadata is invalid"⟩)
  · exact (by decide : BrokerError.Brief ⟨.invalidRequest, "request metadata is invalid"⟩)

theorem failsBriefly_validateSchemaVersion (version : UInt16) : FailsBriefly (validateSchemaVersion version) := by
  rw [validateSchemaVersion]
  split_ifs
  · exact failsBriefly_ok ()
  · exact failsBriefly_error (by decide)

theorem failsBriefly_checkAliasName (name : String) : FailsBriefly (checkAliasName name) :=
  failsBriefly_mapError fun _ => by decide

theorem failsBriefly_validateCollection (collection : CollectionMetadata) :
    FailsBriefly (validateCollection collection) := by
  refine failsBriefly_bind (failsBriefly_validateSchemaVersion _) fun _ _ => ?_
  split_ifs
  · exact failsBriefly_error (by decide)
  · exact failsBriefly_mapError brief_invalidRequest

theorem failsBriefly_validateItem (item : ItemMetadata) : FailsBriefly (validateItem item) := by
  refine failsBriefly_bind (failsBriefly_validateSchemaVersion _) fun _ _ => ?_
  split_ifs
  · exact failsBriefly_error (by decide)
  · refine failsBriefly_bind (failsBriefly_mapError brief_invalidRequest) fun _ _ => ?_
    refine failsBriefly_bind (failsBriefly_mapError brief_invalidRequest) fun _ _ => ?_
    exact failsBriefly_mapError brief_invalidRequest

theorem failsBriefly_validateAlias (record : AliasMetadata) : FailsBriefly (validateAlias record) := by
  refine failsBriefly_bind (failsBriefly_validateSchemaVersion _) fun _ _ => ?_
  refine failsBriefly_bind (failsBriefly_checkAliasName _) fun _ _ => ?_
  split_ifs
  · exact failsBriefly_error (by decide)
  · exact failsBriefly_ok ()

theorem failsBriefly_encodeMetadata {α : Type} (codec : MetadataCodec α) (metadata : α) :
    FailsBriefly (encodeMetadata codec metadata) := by
  rw [encodeMetadata]
  cases codec.intoWriter metadata with
  | none => exact failsBriefly_error (by decide)
  | some encoded =>
      dsimp only
      split_ifs
      · exact failsBriefly_error (by decide)
      · exact failsBriefly_ok encoded

theorem failsBriefly_decodeMetadata {α : Type} (codec : MetadataCodec α) (blob : Blob) :
    FailsBriefly (decodeMetadata codec blob) := by
  rw [decodeMetadata]
  split_ifs
  · exact failsBriefly_error (by decide)
  · cases codec.fromReader blob with
    | none => exact failsBriefly_error (by decide)
    | some decoded =>
        dsimp only
        split_ifs
        · exact failsBriefly_ok _
        · exact failsBriefly_error (by decide)

/-- The errors of a kind of records are short. -/
structure RecordKind.Brief {α κ : Type} (kind : RecordKind α κ) : Prop where
  mismatch : (corruptState kind.mismatch).Brief
  check : ∀ record, FailsBriefly (kind.check record)

theorem RecordKind.Brief.load {α κ : Type} [DecidableEq κ] {kind : RecordKind α κ} (h : kind.Brief) (key : κ)
    (blob : Blob) : FailsBriefly (kind.load key blob) := by
  refine failsBriefly_bind (failsBriefly_decodeMetadata _ _) fun record _ => ?_
  split_ifs
  · exact failsBriefly_error h.mismatch
  · exact failsBriefly_bind (h.check record) fun _ _ => failsBriefly_ok record

theorem RecordKind.Brief.require {α κ : Type} [DecidableEq κ] {kind : RecordKind α κ} (h : kind.Brief)
    {missing : String}
    (hmissing : (notFound missing).Brief) (key : κ) (stored : Option Blob) :
    FailsBriefly (kind.require missing key stored) := by
  cases stored with
  | none => exact failsBriefly_error hmissing
  | some blob => exact h.load key blob

namespace Broker

variable {broker : Broker}

theorem brief_collectionKind : broker.collectionKind.Brief :=
  ⟨of_decide_eq_true rfl, failsBriefly_validateCollection⟩

theorem brief_itemKind : broker.itemKind.Brief := ⟨of_decide_eq_true rfl, failsBriefly_validateItem⟩

theorem brief_aliasKind : broker.aliasKind.Brief := ⟨of_decide_eq_true rfl, failsBriefly_validateAlias⟩

/-- Whatever the backend answers, the value satisfies `ok` and an error is short. -/
abbrev Answers {α : Type} (ok : α → Prop) (action : BrokerAction α) : Prop :=
  Yields BackendError.Brief ok BrokerError.Brief action

theorem answers_call (request : VaultCall) : Answers (fun _ => True) (callBackend request) :=
  yields_perform (fun _ => trivial) fun _ herror => herror

theorem answers_read (target : TargetName) : Answers (fun _ => True) (readCredential target) :=
  answers_call (.read target)

theorem answers_write (target : TargetName) (blob : Blob) : Answers (fun _ => True) (writeCredential target blob) :=
  answers_call (.write target blob)

theorem answers_delete (target : TargetName) : Answers (fun _ => True) (deleteCredential target) :=
  answers_call (.delete target)

theorem answers_enumerate : Answers (fun _ => True) enumerateCredentials := answers_call .enumerate

theorem answers_ofExcept {α : Type} {ok : α → Prop} {result : Except BrokerError α}
    (hok : ∀ value, result = .ok value → ok value) (h : FailsBriefly result) :
    Answers ok (Action.ofExcept result) :=
  yields_ofExcept hok h

theorem answers_check {result : Except BrokerError Unit} (h : FailsBriefly result) :
    Answers (fun _ => result = .ok ()) (Action.ofExcept result) :=
  answers_ofExcept (fun _ heq => heq) h

theorem answers_getCollection (id : Uuid) :
    Answers (fun collection => validateCollection collection = .ok ()) (broker.getCollection id) := by
  refine yields_bind (answers_read _) fun stored _ => answers_ofExcept (fun collection h => ?_)
    (brief_collectionKind.require (by decide) id stored)
  cases stored with
  | none => cases h
  | some blob => exact (RecordKind.load_eq_ok.mp h).2.2

theorem answers_requireCollection (id : Uuid) :
    Answers (fun collection => validateCollection collection = .ok ()) (broker.requireCollection id) := by
  refine yields_mapError (answers_getCollection id) fun error herror => ?_
  split_ifs
  · exact (by decide : BrokerError.Brief ⟨.invalidCollection, "referenced collection does not exist"⟩)
  · exact herror

theorem answers_getItemMetadata (id : Uuid) :
    Answers (fun item => validateItem item = .ok ()) (broker.getItemMetadata id) := by
  refine yields_bind (answers_read _) fun stored _ => answers_ofExcept (fun item h => ?_)
    (brief_itemKind.require (by decide) id stored)
  cases stored with
  | none => cases h
  | some blob => exact (RecordKind.load_eq_ok.mp h).2.2

theorem answers_entries : Answers (fun _ => True) entries :=
  yields_bind answers_enumerate fun _ _ => yields_pure trivial

theorem answers_writeMetadata {α : Type} (codec : MetadataCodec α) (target : TargetName) (metadata : α) :
    Answers (fun _ => True) (writeMetadata codec target metadata) :=
  yields_bind (answers_ofExcept (fun _ _ => trivial) (failsBriefly_encodeMetadata _ _)) fun _ _ => answers_write _ _

theorem answers_cleanUp (step : CommitStep) : Answers (fun _ => True) (cleanUp step) := by
  cases step with
  | deleteSecret target => exact yields_bind (yields_attempt (answers_delete _)) fun _ _ => yields_pure trivial
  | _ => exact yields_pure trivial

theorem answers_commitNewGeneration (item : ItemMetadata) (previous : Option Uuid) (secret : SecretBytes) :
    Answers (fun _ => True) (broker.commitNewGeneration item previous secret) := by
  refine yields_bind (answers_ofExcept (fun _ _ => trivial) (failsBriefly_encodeMetadata _ _)) fun metadata _ => ?_
  refine yields_bind (answers_write _ _) fun _ _ => ?_
  refine yields_bind (yields_attempt (answers_write _ _)) fun written hwritten => ?_
  cases written with
  | ok value => exact yields_forM fun step _ => answers_cleanUp step
  | error error =>
      exact yields_bind (yields_attempt (answers_delete _)) fun _ _ => yields_throw (hwritten.2 error rfl)

theorem answers_deleteItemFromEntries (id : Uuid) (entries : List Entry) :
    Answers (fun _ => True) (deleteItemFromEntries id entries) :=
  yields_bind (answers_delete _) fun _ _ => yields_forM fun _ _ => answers_delete _

/-- The body takes a small part of a frame and counts nothing. -/
structure Modest (body : ResponseBody) : Prop where
  length_le : body.encode.length ≤ 95000
  uncounted : ∀ removed corrupt, body ≠ .reconciled removed corrupt

theorem modest_pong : Modest .pong := ⟨by decide, by simp⟩

theorem modest_empty : Modest .empty := ⟨by decide, by simp⟩

theorem modest_alias_none : Modest (.alias none) := ⟨by decide, by simp⟩

theorem modest_collection {collection : CollectionMetadata} (h : validateCollection collection = .ok ()) :
    Modest (.collection collection) := by
  have hbody : (encodeBody "collection" collection.encode).length ≤ _ := length_encodeBody_le (by decide)
  have hcollection := CollectionMetadata.length_encode_le (validateCollection_eq_ok.mp h).2.2
  refine ⟨?_, by simp⟩
  rw [ResponseBody.encode]
  omega

theorem modest_alias {record : AliasMetadata} (h : validateAlias record = .ok ()) : Modest (.alias (some record)) := by
  have hbody : (encodeBody "alias" record.encode).length ≤ _ := length_encodeBody_le (by decide)
  have hrecord := AliasMetadata.length_encode_le (validateAlias_eq_ok.mp h).2.1
  refine ⟨?_, by simp⟩
  rw [ResponseBody.encode, Cbor.option]
  omega

variable {item : ItemMetadata}

theorem textsWithin_of_validateItem (h : validateItem item = .ok ()) : item.TextsWithin := by
  obtain ⟨-, -, hlabel, hattributes, hcontentType⟩ := validateItem_eq_ok.mp h
  exact ⟨hlabel, hattributes, hcontentType⟩

theorem modest_item (h : item.TextsWithin) (secret : Option SecretBytes) : Modest (.item item secret) := by
  have hitem := ItemMetadata.length_encode_le h
  have hsecret := length_encode_secret_le secret
  have hbody : (ResponseBody.item item secret).encode.length ≤ _ := length_encodeBody_le (by decide)
  have hrecord : (Cbor.record [("item", item.encode), ("secret", Cbor.option SecretBytes.encode secret)]).length ≤ _ :=
    Cbor.length_record_le rfl
  simp only [List.map_cons, List.map_nil, List.sum_cons, List.sum_nil] at hrecord
  exact ⟨by omega, by simp⟩

theorem textsWithin_succeed (h : item.TextsWithin) (existing : ItemMetadata) : (item.succeed existing).TextsWithin :=
  ⟨h.label, h.attributes, h.contentType⟩

theorem answers_createCollection (collection : CollectionMetadata) :
    Answers Modest (broker.createCollection collection) := by
  refine yields_bind (answers_check (failsBriefly_validateCollection _)) fun _ hvalid => ?_
  refine yields_bind (answers_read _) fun stored _ => ?_
  split_ifs
  · exact yields_throw (by decide)
  · exact yields_bind (answers_writeMetadata _ _ _) fun _ _ => yields_pure (modest_collection hvalid)

theorem answers_updateCollection (collection : CollectionMetadata) :
    Answers Modest (broker.updateCollection collection) := by
  refine yields_bind (answers_getCollection _) fun existing _ => ?_
  refine yields_bind (answers_check (failsBriefly_validateCollection _)) fun _ hvalid => ?_
  exact yields_bind (answers_writeMetadata _ _ _) fun _ _ => yields_pure (modest_collection hvalid)

theorem answers_deleteCollection (collectionId : Uuid) : Answers Modest (broker.deleteCollection collectionId) := by
  refine yields_bind (answers_getCollection _) fun _ _ => yields_bind answers_entries fun entries _ => ?_
  refine yields_bind (yields_forM fun _ _ => answers_deleteItemFromEntries _ _) fun _ _ => ?_
  refine yields_bind (yields_forM fun _ _ => answers_delete _) fun _ _ => ?_
  exact yields_bind (answers_delete _) fun _ _ => yields_pure modest_empty

theorem answers_resolveAlias (name : String) : Answers Modest (broker.resolveAlias name) := by
  refine yields_bind (answers_check (failsBriefly_checkAliasName _)) fun _ _ => ?_
  refine yields_bind (answers_read _) fun stored _ => ?_
  cases stored with
  | none => exact yields_pure modest_alias_none
  | some blob =>
      have hload : Answers (fun record => validateAlias record = .ok ())
          (Action.ofExcept (broker.aliasKind.load name blob)) :=
        answers_ofExcept (fun _ h => (RecordKind.load_eq_ok.mp h).2.2) (brief_aliasKind.load _ _)
      refine yields_bind hload fun record hvalid => ?_
      refine yields_bind (yields_attempt (answers_getCollection _)) fun collection _ => ?_
      cases collection with
      | error error => exact yields_throw (by decide)
      | ok collection => exact yields_pure (modest_alias hvalid)

theorem answers_setAlias (record : AliasMetadata) : Answers Modest (broker.setAlias record) := by
  refine yields_bind (answers_check (failsBriefly_validateAlias _)) fun _ hvalid => ?_
  refine yields_bind (answers_requireCollection _) fun _ _ => ?_
  exact yields_bind (answers_writeMetadata _ _ _) fun _ _ => yields_pure (modest_alias hvalid)

theorem answers_removeAlias (name : String) : Answers Modest (removeAlias name) := by
  refine yields_bind (answers_check (failsBriefly_checkAliasName _)) fun _ _ => ?_
  refine yields_bind (answers_read _) fun stored _ => ?_
  split_ifs
  · exact yields_throw (by decide)
  · exact yields_bind (answers_delete _) fun _ _ => yields_pure modest_empty

theorem failsBriefly_loadSecret (stored : Option Blob) : FailsBriefly (loadSecret stored) := by
  cases stored with
  | none => exact failsBriefly_error (by decide)
  | some blob => exact failsBriefly_mapError brief_invalidRequest

theorem answers_getItem (id : Uuid) (includeSecret : Bool) : Answers Modest (broker.getItem id includeSecret) := by
  refine yields_bind (answers_getItemMetadata _) fun item hvalid => ?_
  have htexts := textsWithin_of_validateItem hvalid
  split_ifs
  · refine yields_bind (answers_read _) fun stored _ => ?_
    exact yields_bind (answers_ofExcept (fun _ _ => trivial) (failsBriefly_loadSecret stored)) fun _ _ =>
      yields_pure (modest_item htexts _)
  · exact yields_pure (modest_item htexts none)

theorem answers_createItem (item : ItemMetadata) (secret : SecretBytes) :
    Answers Modest (broker.createItem item secret) := by
  refine yields_bind (answers_check (failsBriefly_validateItem _)) fun _ hvalid => ?_
  refine yields_bind (answers_requireCollection _) fun _ _ => yields_bind (answers_read _) fun stored _ => ?_
  split_ifs
  · exact yields_throw (by decide)
  · exact yields_bind (answers_commitNewGeneration _ _ _) fun _ _ =>
      yields_pure (modest_item (textsWithin_of_validateItem hvalid) none)

theorem answers_updateItem (item : ItemMetadata) (secret : Option SecretBytes) :
    Answers Modest (broker.updateItem item secret) := by
  rw [updateItem]
  refine yields_bind (answers_getItemMetadata _) fun existing _ => ?_
  refine yields_bind (answers_check (failsBriefly_validateItem _)) fun _ hvalid => ?_
  refine yields_bind (answers_requireCollection _) fun _ _ => ?_
  have htexts := textsWithin_succeed (textsWithin_of_validateItem hvalid) existing
  cases secret with
  | none =>
      have hkept : ItemMetadata.TextsWithin
          { item.succeed existing with currentGeneration := existing.currentGeneration } :=
        ⟨htexts.label, htexts.attributes, htexts.contentType⟩
      exact yields_bind (answers_writeMetadata _ _ _) fun _ _ => yields_pure (modest_item hkept none)
  | some secret =>
      dsimp only
      split_ifs
      · exact yields_throw (by decide)
      · exact yields_bind (answers_commitNewGeneration _ _ _) fun _ _ => yields_pure (modest_item htexts none)

theorem answers_updateItemCas (item : ItemMetadata) (secret : Option SecretBytes) (expectedModified : UInt64) :
    Answers Modest (broker.updateItemCas item secret expectedModified) := by
  refine yields_bind (answers_getItemMetadata _) fun existing _ => ?_
  split_ifs
  · exact yields_throw (by decide)
  · exact answers_updateItem item secret

theorem answers_deleteItem (id : Uuid) : Answers Modest (broker.deleteItem id) := by
  refine yields_bind (answers_getItemMetadata _) fun _ _ => yields_bind answers_entries fun entries _ => ?_
  exact yields_bind (answers_deleteItemFromEntries _ _) fun _ _ => yields_pure modest_empty

/-! ### Listings -/

/-- The bytes the records of a listing take. -/
def listedBytes {α : Type} (encode : α → Blob) (records : List α) : Nat :=
  (records.map fun record => (encode record).length).sum

theorem listedBytes_le_of_sublist {α : Type} {encode : α → Blob} {some all : List α} (h : some.Sublist all) :
    listedBytes encode some ≤ listedBytes encode all :=
  (h.map _).sum_le_sum fun _ _ => Nat.zero_le _

theorem listedBytes_sortByKey {α κ : Type} [Ord κ] (encode : α → Blob) (key : α → κ) (records : List α) :
    listedBytes encode (sortByKey key records) = listedBytes encode records :=
  ((List.mergeSort_perm records _).map _).sum_eq

theorem length_encodeListing_le {α : Type} {name : String} (hname : name.utf8ByteSize < 24) (encode : α → Blob)
    (records : List α) :
    (encodeBody name (Cbor.array (records.map encode))).length ≤ 110 + listedBytes encode records := by
  have hbody : (encodeBody name (Cbor.array (records.map encode))).length ≤ _ := length_encodeBody_le hname
  have harray := Cbor.length_array (records.map encode)
  have hwidth := Cbor.argumentWidth_le (records.map encode).length
  rw [List.map_map] at harray
  change _ = _ + 1 + listedBytes encode records at harray
  omega

variable (broker) in
/-- The records of each kind that the vault holds leave a little room in a frame, and the credentials can be
counted in a machine word. -/
structure Roomy (vault : Vault) : Prop where
  collections : listedBytes CollectionMetadata.encode ((broker.entriesOf vault).filterMap broker.collectionOf) ≤
    maxFrameSize - 1000
  aliases : listedBytes AliasMetadata.encode ((broker.entriesOf vault).filterMap broker.aliasOf) ≤ maxFrameSize - 1000
  items : listedBytes ItemMetadata.encode ((broker.entriesOf vault).filterMap broker.itemOf) ≤ maxFrameSize - 1000
  size_lt : vault.size < 2 ^ 64

/-- The body leaves room for what a frame adds to it, and what it counts fits a machine word. -/
structure BodyFits (body : ResponseBody) : Prop where
  length_le : body.encode.length ≤ maxFrameSize - 500
  counted : ∀ removed corrupt, body = .reconciled removed corrupt → removed < 2 ^ 64

theorem Modest.bodyFits {body : ResponseBody} (h : Modest body) : BodyFits body :=
  ⟨h.length_le.trans (by decide), fun removed corrupt heq => absurd heq (h.uncounted removed corrupt)⟩

theorem answers_collectAliases (entries : List Entry) :
    Answers (fun aliases => aliases.Sublist (entries.filterMap broker.aliasOf)) (broker.collectAliases entries) := by
  induction entries with
  | nil => exact yields_pure (List.Sublist.refl _)
  | cons entry rest ih =>
      rw [collectAliases]
      cases hrecord : broker.aliasOf entry with
      | none =>
          rw [List.filterMap_cons_none hrecord]
          exact ih
      | some record =>
          rw [List.filterMap_cons_some hrecord]
          refine yields_bind (yields_attempt (answers_getCollection _)) fun collection _ => ?_
          refine yields_bind ih fun others hothers => ?_
          cases collection with
          | error error => exact yields_pure (hothers.cons record)
          | ok collection => exact yields_pure (hothers.cons_cons record)

theorem answers_deleteReplacedItem (id : Uuid) (entries : List Entry) :
    Answers (fun _ => True) (deleteReplacedItem id entries) :=
  yields_bind (answers_delete _) fun _ _ => yields_forM fun _ _ => answers_cleanUp _

theorem answers_deleteReplacedItems (entries : List Entry) (ids : List Uuid) :
    Answers (fun outcome => outcome.1.length + outcome.2.length = ids.length) (deleteReplacedItems entries ids) := by
  induction ids with
  | nil => exact yields_pure rfl
  | cons id rest ih =>
      refine yields_bind (yields_attempt (answers_deleteReplacedItem id entries)) fun outcome _ => ?_
      refine yields_bind ih fun others hothers => ?_
      cases outcome with
      | error error => exact yields_pure (by simp only [List.length_cons]; omega)
      | ok value => exact yields_pure (by simp only [List.length_cons]; omega)

theorem length_le_listedBytes_items (items : List ItemMetadata) :
    51 * items.length ≤ listedBytes ItemMetadata.encode items := by
  induction items with
  | nil => exact Nat.le_refl 0
  | cons item rest ih =>
      have hitem : 51 ≤ item.encode.length := by
        rw [ItemMetadata.encode, Cbor.length_record]
        simp only [List.map_cons, List.map_nil, List.sum_cons, List.sum_nil, Uuid.length_encode]
        omega
      rw [listedBytes, List.map_cons, List.sum_cons, List.length_cons]
      change 51 * (rest.length + 1) ≤ item.encode.length + listedBytes ItemMetadata.encode rest
      omega

theorem length_encodeIds_le (ids : List Uuid) : (Cbor.array (ids.map Uuid.encode)).length ≤ 9 + ids.length * 17 := by
  have hids : (Cbor.array (ids.map Uuid.encode)).length ≤ 9 + (ids.map Uuid.encode).length * 17 :=
    Cbor.length_array_le (by simp)
  rwa [List.length_map] at hids

theorem bodyFits_collections {collections : List CollectionMetadata}
    (h : listedBytes CollectionMetadata.encode collections ≤ maxFrameSize - 1000) :
    BodyFits (.collections collections) := by
  have hbody : (ResponseBody.collections collections).encode.length ≤ _ := length_encodeListing_le (by decide) _ _
  simp only [maxFrameSize] at h
  exact ⟨by simp only [maxFrameSize]; omega, by simp⟩

theorem bodyFits_aliases {aliases : List AliasMetadata}
    (h : listedBytes AliasMetadata.encode aliases ≤ maxFrameSize - 1000) : BodyFits (.aliases aliases) := by
  have hbody : (ResponseBody.aliases aliases).encode.length ≤ _ := length_encodeListing_le (by decide) _ _
  simp only [maxFrameSize] at h
  exact ⟨by simp only [maxFrameSize]; omega, by simp⟩

theorem bodyFits_items {items : List ItemMetadata}
    (h : listedBytes ItemMetadata.encode items ≤ maxFrameSize - 1000) : BodyFits (.items items) := by
  have hbody : (ResponseBody.items items).encode.length ≤ _ := length_encodeListing_le (by decide) _ _
  simp only [maxFrameSize] at h
  exact ⟨by simp only [maxFrameSize]; omega, by simp⟩

theorem bodyFits_replacedItem {replaced failed : List Uuid} (hitem : item.TextsWithin)
    (hids : 51 * (replaced.length + failed.length) ≤ maxFrameSize - 1000) :
    BodyFits (.replacedItem item replaced failed) := by
  have hencoded := ItemMetadata.length_encode_le hitem
  have hreplaced := length_encodeIds_le replaced
  have hfailed := length_encodeIds_le failed
  have hbody : (ResponseBody.replacedItem item replaced failed).encode.length ≤ _ := length_encodeBody_le (by decide)
  have hrecord : (Cbor.record [("item", item.encode), ("replaced_item_ids", Cbor.array (replaced.map Uuid.encode)),
      ("cleanup_failed_item_ids", Cbor.array (failed.map Uuid.encode))]).length ≤ _ := Cbor.length_record_le rfl
  simp only [List.map_cons, List.map_nil, List.sum_cons, List.sum_nil] at hrecord
  simp only [maxFrameSize] at hids
  exact ⟨by simp only [maxFrameSize]; omega, by simp⟩

theorem bodyFits_reconciled {removed : Nat} {corrupt : List Uuid} (hremoved : removed < 2 ^ 64)
    (hcorrupt : 51 * corrupt.length ≤ maxFrameSize - 1000) : BodyFits (.reconciled removed corrupt) := by
  have hnumber := Cbor.length_uint_le removed
  have hids := length_encodeIds_le corrupt
  have hbody : (ResponseBody.reconciled removed corrupt).encode.length ≤ _ := length_encodeBody_le (by decide)
  have hrecord : (Cbor.record [("removed_generations", Cbor.uint removed),
      ("corrupt_items", Cbor.array (corrupt.map Uuid.encode))]).length ≤ _ := Cbor.length_record_le rfl
  simp only [List.map_cons, List.map_nil, List.sum_cons, List.sum_nil] at hrecord
  simp only [maxFrameSize] at hcorrupt
  refine ⟨by simp only [maxFrameSize]; omega, fun _ _ heq => ?_⟩
  cases heq
  exact hremoved

/-! ### Requests are answered within a frame -/

section Fits

variable {vault : Vault}

theorem Roomy.itemsOf (h : broker.Roomy vault) :
    listedBytes ItemMetadata.encode (broker.itemsOf vault) ≤ maxFrameSize - 1000 := by
  rw [Broker.itemsOf, listedBytes_sortByKey]
  exact h.items

/-- What is counted of a roomy vault is small: the readable items and the stored generations. -/
theorem Roomy.length_missing_le (h : broker.Roomy vault) :
    51 * (broker.missing vault).length ≤ maxFrameSize - 1000 := by
  have hinsert : ∀ (items : List ItemMetadata) (map : BTreeMap Uuid Uuid),
      (items.foldl (fun map item => map.insert item.id item.currentGeneration) map).size ≤ map.size + items.length := by
    intro items
    induction items with
    | nil => exact fun map => Nat.le_refl _
    | cons item rest ih =>
        intro map
        have hrest := ih (map.insert item.id item.currentGeneration)
        have hone := Std.ExtTreeMap.size_insert_le (t := map) (k := item.id) (v := item.currentGeneration)
        rw [List.foldl_cons, List.length_cons]
        omega
  have hcommitted := hinsert ((broker.entriesOf vault).filterMap broker.itemOf) ∅
  rw [Std.ExtTreeMap.size_empty] at hcommitted
  have hmissing : (broker.missing vault).length ≤ _ := (length_planRecovery_le (broker.inventoryOf vault)).2
  rw [inventoryOf, committedGenerations_foldl] at hmissing
  change _ ≤ Std.ExtTreeMap.size (List.foldl _ ∅ _) at hmissing
  have hitems := length_le_listedBytes_items ((broker.entriesOf vault).filterMap broker.itemOf)
  have hroom := h.items
  omega

theorem length_entriesOf_le (vault : Vault) : (broker.entriesOf vault).length ≤ vault.size := by
  rw [entriesOf_eq, ← Std.ExtTreeMap.length_toList, ← (broker.backend.order_perm vault).length_eq]
  exact List.length_filterMap_le _ _

theorem size_storedGenerations_le (entries : List Entry) (inventory : RecoveryInventory) :
    (entries.foldl broker.recordEntry inventory).storedGenerations.size ≤
      inventory.storedGenerations.size + entries.length := by
  induction entries generalizing inventory with
  | nil => exact Nat.le_refl _
  | cons entry rest ih =>
      have hentry : (broker.recordEntry inventory entry).storedGenerations.size ≤
          inventory.storedGenerations.size + 1 := by
        rcases entry with ⟨kind, blob⟩
        cases kind with
        | itemMetadata id => cases hitem : broker.itemOf ⟨.itemMetadata id, blob⟩ <;> simp [recordEntry, hitem]
        | itemSecret id generation => exact Std.ExtTreeSet.size_insert_le
        | _ => exact Nat.le_succ _
      have hrest := ih (broker.recordEntry inventory entry)
      rw [List.foldl_cons, List.length_cons]
      omega

theorem Roomy.length_abandoned_lt (h : broker.Roomy vault) : (broker.abandoned vault).length < 2 ^ 64 := by
  have habandoned : (broker.abandoned vault).length ≤ _ := (length_planRecovery_le (broker.inventoryOf vault)).1
  have hstored : (broker.inventoryOf vault).storedGenerations.size ≤ _ := size_storedGenerations_le _ _
  have hempty : RecoveryInventory.empty.storedGenerations.size = 0 := Std.ExtTreeSet.size_empty
  have hentries : (broker.entriesOf vault).length ≤ vault.size := length_entriesOf_le vault
  have hsize := h.size_lt
  omega

variable (broker) in
/-- Run on the vault, the action ends with a body that fits a frame or with a short error. -/
def AnswersFrom (vault : Vault) (action : BrokerAction ResponseBody) : Prop :=
  wp broker.backend.serve BackendError.Brief action (fun body _ => BodyFits body) (fun error _ => error.Brief)
    (fun _ => True) vault

theorem answersFrom_of_answers {action : BrokerAction ResponseBody} (h : Answers Modest action) :
    broker.AnswersFrom vault action :=
  wp_mono (fun _ _ hbody => hbody.bodyFits) (fun _ _ h => h) (fun _ h => h) (wp_of_yields h vault)

theorem Roomy.listCollections (h : broker.Roomy vault) : broker.AnswersFrom vault broker.listCollections := by
  simp only [AnswersFrom, Broker.listCollections, wp_bind, wp_entries, wp_pure]
  refine ⟨trivial, fun _ herror => herror, trivial, bodyFits_collections ?_⟩
  rw [listedBytes_sortByKey]
  exact h.collections

theorem Roomy.listAliases (h : broker.Roomy vault) : broker.AnswersFrom vault broker.listAliases := by
  simp only [AnswersFrom, Broker.listAliases, wp_bind, wp_entries, wp_pure]
  refine ⟨trivial, fun _ herror => herror, ?_⟩
  refine wp_mono (fun aliases _ hsome => ⟨trivial, bodyFits_aliases ?_⟩) (fun _ _ h => h) (fun _ h => h)
    (wp_of_yields (answers_collectAliases (broker.entriesOf vault)) vault)
  rw [listedBytes_sortByKey]
  exact (listedBytes_le_of_sublist hsome).trans h.aliases

theorem Roomy.filter_itemsOf (h : broker.Roomy vault) (p : ItemMetadata → Bool) :
    BodyFits (.items ((broker.itemsOf vault).filter p)) :=
  bodyFits_items ((listedBytes_le_of_sublist List.filter_sublist).trans h.itemsOf)

theorem Roomy.searchItems (h : broker.Roomy vault) (attributes : BTreeMap String String) :
    broker.AnswersFrom vault (broker.searchItems attributes) := by
  simp only [AnswersFrom, Broker.searchItems, wp_bind, wp_ofExcept, wp_validItems, wp_pure]
  refine ⟨trivial, either_intro (fun _ _ => ?_) (failsBriefly_mapError brief_invalidRequest)⟩
  exact ⟨trivial, fun _ herror => herror, trivial, h.filter_itemsOf _⟩

theorem failsBriefly_collectionAt (vault : Vault) (id : Uuid) : FailsBriefly (broker.collectionAt vault id) :=
  brief_collectionKind.require (by decide) id _

theorem Roomy.listItems (h : broker.Roomy vault) (collectionId : Uuid) :
    broker.AnswersFrom vault (broker.listItems collectionId) := by
  simp only [AnswersFrom, Broker.listItems, wp_bind, wp_getCollection, wp_validItems, wp_pure]
  refine ⟨trivial, fun _ herror => herror, either_intro (fun _ _ => ?_) (failsBriefly_collectionAt vault _)⟩
  exact ⟨trivial, fun _ herror => herror, trivial, h.filter_itemsOf _⟩

/-- A replacement reports at most the readable items. -/
theorem Roomy.replaceItems (h : broker.Roomy vault) {item : ItemMetadata} (hitem : item.TextsWithin)
    (secret : SecretBytes) {replaced : List Uuid} (hreplaced : replaced.length ≤ (broker.itemsOf vault).length) :
    broker.AnswersFrom vault (do
      broker.commitNewGeneration item none secret
      let entries ← entries
      let outcome ← deleteReplacedItems entries replaced
      pure (.replacedItem item outcome.1 outcome.2)) := by
  have hroom := h.itemsOf
  have hitems := length_le_listedBytes_items (broker.itemsOf vault)
  have hanswers : Answers BodyFits (do
      broker.commitNewGeneration item none secret
      let entries ← entries
      let outcome ← deleteReplacedItems entries replaced
      pure (.replacedItem item outcome.1 outcome.2)) := by
    refine yields_bind (answers_commitNewGeneration _ _ _) fun _ _ => yields_bind answers_entries fun entries _ => ?_
    refine yields_bind (answers_deleteReplacedItems entries replaced) fun outcome houtcome => yields_pure ?_
    exact bodyFits_replacedItem hitem (by omega)
  exact wp_of_yields hanswers vault

theorem wp_replacedItemIds_length (item : ItemMetadata) (replace : Bool) :
    wp broker.backend.serve BackendError.Brief (broker.replacedItemIds item replace)
      (fun replaced left => left = vault ∧ replaced.length ≤ (broker.itemsOf left).length)
      (fun error _ => error.Brief) (fun _ => True) vault := by
  rw [replacedItemIds]
  split_ifs
  · simp only [wp_bind, wp_validItems, wp_pure, List.length_map]
    exact ⟨trivial, fun _ herror => herror, trivial, trivial, List.length_filter_le _ _⟩
  · exact ⟨trivial, rfl, Nat.zero_le _⟩

theorem Roomy.createOrReplaceItem (h : broker.Roomy vault) (item : ItemMetadata) (secret : SecretBytes)
    (replace : Bool) : broker.AnswersFrom vault (broker.createOrReplaceItem item secret replace) := by
  rw [AnswersFrom, Broker.createOrReplaceItem]
  simp only [wp_bind, wp_ofExcept, wp_requireCollection, wp_readCredential]
  refine ⟨trivial, either_intro (fun _ hvalid => ?_) (failsBriefly_validateItem item)⟩
  refine ⟨trivial, fun _ herror => herror, either_intro (fun _ _ => ?_) fun error herror => ?_⟩
  · refine ⟨trivial, fun _ herror => herror, ?_⟩
    have htexts := textsWithin_of_validateItem hvalid
    split_ifs
    · exact ⟨trivial, (by decide : (alreadyExists "item already exists").Brief)⟩
    · refine wp_bind.mpr (wp_mono ?_ (fun _ _ h => h) (fun _ h => h) (wp_replacedItemIds_length item replace))
      rintro replaced _ ⟨rfl, hreplaced⟩
      exact h.replaceItems htexts secret hreplaced
  · have hbrief := failsBriefly_collectionAt vault _ error herror
    rw [referenceError]
    split_ifs
    · exact (by decide : BrokerError.Brief ⟨.invalidCollection, "referenced collection does not exist"⟩)
    · exact hbrief

theorem Roomy.reconcile (h : broker.Roomy vault) : broker.AnswersFrom vault (broker.execute .reconcile) :=
  wp_reconcile (fun _ _ => ⟨trivial, fun _ herror => herror⟩)
    (bodyFits_reconciled h.length_abandoned_lt h.length_missing_le)

theorem answersFrom_locked {action : BrokerAction ResponseBody} (h : broker.AnswersFrom vault action) :
    broker.AnswersFrom vault (acquireLock >>= fun _ => action) := by
  simp only [AnswersFrom, wp_bind, wp_acquireLock]
  exact ⟨trivial, fun _ herror => herror, h⟩

/-- Every request on a roomy vault is answered with a body that fits a frame or with a short error, whichever
calls of it fail. -/
theorem Roomy.execute (h : broker.Roomy vault) (operation : Operation) :
    broker.AnswersFrom vault (broker.execute operation) := by
  have hmodest : Answers Modest (broker.perform operation) → broker.AnswersFrom vault (broker.execute operation) :=
    fun hanswers => answersFrom_locked (answersFrom_of_answers hanswers)
  cases operation with
  | ping => exact hmodest (yields_pure modest_pong)
  | listCollections => exact answersFrom_locked h.listCollections
  | getCollection collectionId =>
      exact hmodest (yields_bind (answers_getCollection _) fun _ hvalid => yields_pure (modest_collection hvalid))
  | createCollection collection => exact hmodest (answers_createCollection _)
  | updateCollection collection => exact hmodest (answers_updateCollection _)
  | deleteCollection collectionId => exact hmodest (answers_deleteCollection _)
  | listAliases => exact answersFrom_locked h.listAliases
  | resolveAlias name => exact hmodest (answers_resolveAlias _)
  | setAlias record => exact hmodest (answers_setAlias _)
  | removeAlias name => exact hmodest (answers_removeAlias _)
  | searchItems attributes => exact answersFrom_locked (h.searchItems _)
  | listItems collectionId => exact answersFrom_locked (h.listItems _)
  | getItem itemId includeSecret => exact hmodest (answers_getItem _ _)
  | createItem item secret => exact hmodest (answers_createItem _ _)
  | createOrReplaceItem item secret replace => exact answersFrom_locked (h.createOrReplaceItem _ _ _)
  | updateItem item secret => exact hmodest (answers_updateItem _ _)
  | updateItemCas item secret expectedModified => exact hmodest (answers_updateItemCas _ _ _)
  | deleteItem itemId => exact hmodest (answers_deleteItem _)
  | reconcile => exact h.reconcile

end Fits

end Broker

end WincredLibsecret
