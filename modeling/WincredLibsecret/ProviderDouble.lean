import WincredLibsecret.BrokerIdeal
import WincredLibsecret.ProviderSession

/-! The broker that the provider is tested against: a table of collections, items and aliases in memory. It
is compared with the real broker over an empty vault while nothing fails. The two answer alike except for
updates that the real broker corrects or refuses, and for the removal of an alias that is not there. -/

namespace WincredLibsecret

open Effect

/-- The tables of the test double are those readers see of a vault. -/
abbrev MemoryState := VisibleVault

namespace InMemoryBroker

def notFound (message : String) : ProviderError := .broker ⟨.notFound, message⟩

variable (state : MemoryState)

def createItem (item : ItemMetadata) (secret : SecretBytes) : Except ProviderError MemoryState :=
  if state.collections[item.collectionId]?.isNone then .error (notFound "collection not found")
  else if state.items[item.id]?.isSome then .error (.broker ⟨.alreadyExists, "item already exists"⟩)
  else .ok (state.withItem item secret)

def updateItem (item : ItemMetadata) (secret : Option SecretBytes) (current : SecretBytes) :
    Except ProviderError ResponseBody × MemoryState :=
  (.ok (.item item none), state.withItem item (secret.getD current))

def call : Operation → Except ProviderError ResponseBody × MemoryState
  | .ping => (.ok .pong, state)
  | .listCollections => (.ok (.collections (VisibleVault.listed id state.collections)), state)
  | .getCollection collectionId =>
      match state.collections[collectionId]? with
      | some collection => (.ok (.collection collection), state)
      | none => (.error (notFound "collection not found"), state)
  | .createCollection collection =>
      if state.collections[collection.id]?.isSome then
        (.error (.broker ⟨.alreadyExists, "collection already exists"⟩), state)
      else (.ok (.collection collection), state.withCollection collection)
  | .updateCollection collection =>
      if state.collections[collection.id]?.isNone then (.error (notFound "collection not found"), state)
      else (.ok (.collection collection), state.withCollection collection)
  | .deleteCollection collectionId =>
      if state.collections[collectionId]?.isNone then (.error (notFound "collection not found"), state)
      else (.ok .empty, state.withoutCollection collectionId)
  | .listAliases => (.ok (.aliases (VisibleVault.listed id state.aliases)), state)
  | .resolveAlias name => (.ok (.alias state.aliases[name]?), state)
  | .setAlias record =>
      if state.collections[record.collectionId]?.isNone then (.error (notFound "collection not found"), state)
      else (.ok (.alias (some record)), state.withAlias record)
  -- an alias that is not there is not missed
  | .removeAlias name => (.ok .empty, { state with aliases := state.aliases.erase name })
  | .searchItems attributes =>
      (.ok (.items ((VisibleVault.listed Prod.fst state.items).filter (Broker.matchesAttributes attributes))), state)
  | .listItems collectionId =>
      if state.collections[collectionId]?.isNone then (.error (notFound "collection not found"), state)
      else
        (.ok (.items ((VisibleVault.listed Prod.fst state.items).filter fun item => item.collectionId = collectionId)),
          state)
  | .getItem itemId includeSecret =>
      match state.items[itemId]? with
      | some (item, secret) => (.ok (.item item (if includeSecret then some secret else none)), state)
      | none => (.error (notFound "item not found"), state)
  | .createItem item secret =>
      match createItem state item secret with
      | .error error => (.error error, state)
      | .ok created => (.ok (.item item none), created)
  | .createOrReplaceItem item secret replace =>
      match createItem state item secret with
      | .error error => (.error error, state)
      | .ok created =>
          let replaced := if replace then state.twins item else []
          (.ok (.replacedItem item replaced []), created.withoutItems replaced)
  -- the record is taken as it comes, without a look at the one it replaces
  | .updateItem item secret =>
      match state.items[item.id]? with
      | none => (.error (notFound "item not found"), state)
      | some (_, current) => updateItem state item secret current
  | .updateItemCas item secret expectedModified =>
      match state.items[item.id]? with
      | none => (.error (notFound "item not found"), state)
      | some (stored, current) =>
          if stored.modified ≠ expectedModified then
            (.error (.broker ⟨.conflict, "item was modified by another provider"⟩), state)
          else
            updateItem state { item with modified := max item.modified (saturatingSucc stored.modified) } secret current
  | .deleteItem itemId =>
      match state.items[itemId]? with
      | none => (.error (notFound "item not found"), state)
      | some _ => (.ok .empty, { state with items := state.items.erase itemId })
  | .reconcile => (.ok (.reconciled 0 []), state)

end InMemoryBroker

/-- The errors a D-Bus client can tell apart by their names. -/
def SecretServiceError.SameVariant : SecretServiceError → SecretServiceError → Prop
  | .failed _, .failed _ | .noSuchObject _, .noSuchObject _ | .noSuchSession _, .noSuchSession _
  | .alreadyExists _, .alreadyExists _ | .isLocked _, .isLocked _ | .accessDenied _, .accessDenied _
  | .limitsExceeded _, .limitsExceeded _ | .backendUnavailable _, .backendUnavailable _ => True
  | _, _ => False

/-- The same result, or errors that reach the client under the same name. -/
def Alike : Except BrokerError ResponseBody → Except ProviderError ResponseBody → Prop
  | .ok body, .ok answer => body = answer
  | .error error, .error failure =>
      (SecretServiceError.ofProvider (.broker error)).SameVariant (SecretServiceError.ofProvider failure)
  | _, _ => False

/-- The arguments pass the validators of the protocol, and the metadata fits its blob. -/
def Operation.Admissible (broker : Broker) : Operation → Prop
  | .createCollection collection | .updateCollection collection =>
      validateCollection collection = .ok () ∧ ∃ blob, encodeMetadata broker.collectionCodec collection = .ok blob
  | .setAlias record => validateAlias record = .ok () ∧ ∃ blob, encodeMetadata broker.aliasCodec record = .ok blob
  | .createItem item _ | .createOrReplaceItem item _ _ | .updateItem item _ | .updateItemCas item _ _ =>
      validateItem item = .ok () ∧ ∃ blob, encodeMetadata broker.itemCodec item = .ok blob
  | .resolveAlias name | .removeAlias name => checkAliasName name = .ok ()
  | .searchItems attributes => validateAttributes attributes = .ok ()
  | _ => True

/-- The update keeps the creation time, and brings a new generation exactly if it brings a secret. -/
def ItemMetadata.Continues (item : ItemMetadata) (secret : Option SecretBytes) (existing : ItemMetadata) : Prop :=
  item.created = existing.created ∧ (secret.isSome ↔ item.currentGeneration ≠ existing.currentGeneration)

/-- The requests about which the test double and the broker agree in a state: updates that leave nothing to
correct or to refuse, and removals of aliases that are there. -/
def Operation.AgreedAt (broker : Broker) (state : MemoryState) : Operation → Prop
  | .updateCollection collection =>
      ∀ existing, state.collections[collection.id]? = some existing → collection.created = existing.created
  | .removeAlias name => state.aliases[name]?.isSome
  | .updateItem item secret => ∀ existing current, state.items[item.id]? = some (existing, current) →
      state.collections[item.collectionId]?.isSome ∧ item.Continues secret existing ∧
        saturatingSucc existing.modified ≤ item.modified
  | .updateItemCas item secret expectedModified =>
      ∀ existing current, state.items[item.id]? = some (existing, current) → existing.modified = expectedModified →
        state.collections[item.collectionId]?.isSome ∧ item.Continues secret existing ∧
          -- a later modification time can be longer in the blob
          ∃ blob, encodeMetadata broker.itemCodec
            { item with modified := max item.modified (saturatingSucc existing.modified) } = .ok blob
  | _ => True

namespace InMemoryBroker

variable {broker : Broker} {state : MemoryState}

/-- The answers to a request are alike exactly if it is agreed about, and then the tables stay the same. -/
structure Matches (broker : Broker) (state : MemoryState) (operation : Operation) : Prop where
  alike_iff : Alike ((broker.ideal state operation).map Prod.fst) (call state operation).1 ↔
    operation.AgreedAt broker state
  next_eq : operation.AgreedAt broker state → (call state operation).2 = broker.idealNext state operation

section Rules

variable {operation : Operation} {body : ResponseBody} {next : MemoryState}

theorem matches_done (hagreed : operation.AgreedAt broker state)
    (hideal : broker.ideal state operation = .ok (body, next)) (hcall : call state operation = (.ok body, next)) :
    Matches broker state operation := by
  refine ⟨iff_of_true ?_ hagreed, fun _ => ?_⟩
  · rw [hideal, hcall]
    exact rfl
  · rw [hcall, Broker.idealNext, hideal]

theorem matches_refused (error : BrokerError) (failure : ProviderError) (hsame : Alike (.error error) (.error failure))
    (hagreed : operation.AgreedAt broker state) (hideal : broker.ideal state operation = .error error)
    (hcall : call state operation = (.error failure, state)) : Matches broker state operation := by
  refine ⟨iff_of_true ?_ hagreed, fun _ => ?_⟩
  · rw [hideal, hcall]
    exact hsame
  · rw [hcall, Broker.idealNext, hideal]

theorem matches_differing (hdisputed : ¬operation.AgreedAt broker state)
    (hdiffer : ¬Alike ((broker.ideal state operation).map Prod.fst) (call state operation).1) :
    Matches broker state operation :=
  ⟨iff_of_false hdiffer hdisputed, fun hagreed => absurd hagreed hdisputed⟩

/-- What only the real broker refuses. -/
theorem matches_refused_done (error : BrokerError) (hdisputed : ¬operation.AgreedAt broker state)
    (hideal : broker.ideal state operation = .error error) (hcall : call state operation = (.ok body, next)) :
    Matches broker state operation := by
  refine matches_differing hdisputed ?_
  rw [hideal, hcall]
  exact id

end Rules

variable {id : Uuid} {collection : CollectionMetadata}

theorem findCollection_some (h : state.collections[id]? = some collection) :
    state.findCollection id = .ok collection := by
  rw [VisibleVault.findCollection, h]

theorem findCollection_none (h : state.collections[id]? = none) :
    state.findCollection id = .error (WincredLibsecret.notFound "collection does not exist") := by
  rw [VisibleVault.findCollection, h]

theorem findReferenced_some (h : state.collections[id]? = some collection) :
    state.findReferenced id = .ok collection := by
  rw [VisibleVault.findReferenced, findCollection_some h]
  rfl

theorem findReferenced_none (h : state.collections[id]? = none) :
    state.findReferenced id = .error ⟨.invalidCollection, "referenced collection does not exist"⟩ := by
  rw [VisibleVault.findReferenced, findCollection_none h]
  rfl

theorem findItem_some {entry : ItemMetadata × SecretBytes} (h : state.items[id]? = some entry) :
    state.findItem id = .ok entry := by
  rw [VisibleVault.findItem, h]

theorem findItem_none (h : state.items[id]? = none) :
    state.findItem id = .error (WincredLibsecret.notFound "item does not exist") := by
  rw [VisibleVault.findItem, h]

theorem matches_getCollection (collectionId : Uuid) : Matches broker state (.getCollection collectionId) := by
  cases hfound : state.collections[collectionId]? with
  | none =>
      refine matches_refused (WincredLibsecret.notFound "collection does not exist")
        (notFound "collection not found") trivial trivial ?_ (by rw [call, hfound])
      simp only [Broker.ideal, VisibleVault.answer, hfound]
      rfl
  | some collection =>
      refine matches_done trivial ?_ (by rw [call, hfound])
      simp only [Broker.ideal, VisibleVault.answer, hfound]
      rfl

theorem matches_createCollection (hadmissible : (Operation.createCollection collection).Admissible broker) :
    Matches broker state (.createCollection collection) := by
  obtain ⟨hvalid, blob, hblob⟩ := hadmissible
  cases hfound : state.collections[collection.id]? with
  | none =>
      refine matches_done trivial ?_ (by rw [call, hfound]; rfl)
      simp only [Broker.ideal, hvalid, hblob, hfound]
      rfl
  | some existing =>
      refine matches_refused (alreadyExists "collection already exists")
        (.broker ⟨.alreadyExists, "collection already exists"⟩)
        trivial trivial ?_ (by rw [call, hfound]; rfl)
      simp only [Broker.ideal, hvalid, hfound]
      rfl

theorem matches_updateCollection (hadmissible : (Operation.updateCollection collection).Admissible broker) :
    Matches broker state (.updateCollection collection) := by
  obtain ⟨hvalid, blob, hblob⟩ := hadmissible
  cases hfound : state.collections[collection.id]? with
  | none =>
      have hagreed : (Operation.updateCollection collection).AgreedAt broker state :=
        fun existing hexisting => by cases hfound.symm.trans hexisting
      refine matches_refused (WincredLibsecret.notFound "collection does not exist")
        (notFound "collection not found") trivial hagreed ?_ (by rw [call, hfound]; rfl)
      simp only [Broker.ideal, findCollection_none hfound]
      rfl
  | some existing =>
      have hcall : call state (.updateCollection collection) =
          (.ok (.collection collection), state.withCollection collection) := by
        rw [call, hfound]
        rfl
      have hagreed : (Operation.updateCollection collection).AgreedAt broker state ↔
          collection.created = existing.created := by
        simp only [Operation.AgreedAt, hfound, Option.some.injEq, forall_eq']
      by_cases hcreated : collection.created = existing.created
      · have hkept : { collection with created := existing.created } = collection := by rw [← hcreated]
        refine matches_done (hagreed.mpr hcreated) ?_ hcall
        simp only [Broker.ideal, findCollection_some hfound, bind, Except.bind, hvalid, hkept, hblob]
        rfl
      · refine matches_differing (mt hagreed.mp hcreated) ?_
        rw [hcall]
        simp only [Broker.ideal, findCollection_some hfound, bind, Except.bind, hvalid]
        cases encodeMetadata broker.collectionCodec { collection with created := existing.created } with
        | error error => exact id
        | ok blob =>
            intro halike
            exact hcreated (congrArg CollectionMetadata.created (ResponseBody.collection.inj halike)).symm

theorem matches_deleteCollection (collectionId : Uuid) : Matches broker state (.deleteCollection collectionId) := by
  cases hfound : state.collections[collectionId]? with
  | none =>
      refine matches_refused (WincredLibsecret.notFound "collection does not exist")
        (notFound "collection not found") trivial trivial ?_ (by rw [call, hfound]; rfl)
      simp only [Broker.ideal, findCollection_none hfound]
      rfl
  | some collection =>
      refine matches_done trivial ?_ (by rw [call, hfound]; rfl)
      simp only [Broker.ideal, findCollection_some hfound]
      rfl

theorem matches_resolveAlias {name : String} (hadmissible : (Operation.resolveAlias name).Admissible broker) :
    Matches broker state (.resolveAlias name) := by
  have hvalid : checkAliasName name = .ok () := hadmissible
  refine matches_done trivial ?_ rfl
  simp only [Broker.ideal, VisibleVault.answer, hvalid]
  rfl

theorem matches_setAlias {record : AliasMetadata} (hadmissible : (Operation.setAlias record).Admissible broker) :
    Matches broker state (.setAlias record) := by
  obtain ⟨hvalid, blob, hblob⟩ := hadmissible
  cases hfound : state.collections[record.collectionId]? with
  | none =>
      refine matches_refused ⟨.invalidCollection, "referenced collection does not exist"⟩
        (notFound "collection not found") trivial trivial ?_ (by rw [call, hfound]; rfl)
      simp only [Broker.ideal, hvalid, findReferenced_none hfound]
      rfl
  | some collection =>
      refine matches_done trivial ?_ (by rw [call, hfound]; rfl)
      simp only [Broker.ideal, hvalid, findReferenced_some hfound, hblob]
      rfl

theorem matches_removeAlias {name : String} (hadmissible : (Operation.removeAlias name).Admissible broker) :
    Matches broker state (.removeAlias name) := by
  have hvalid : checkAliasName name = .ok () := hadmissible
  cases hfound : state.aliases[name]? with
  | none =>
      refine matches_refused_done (WincredLibsecret.notFound "alias does not exist")
        (by rw [Operation.AgreedAt, hfound]; nofun) ?_ rfl
      simp only [Broker.ideal, hvalid, hfound]
      rfl
  | some record =>
      refine matches_done (by rw [Operation.AgreedAt, hfound]; rfl) ?_ rfl
      simp only [Broker.ideal, hvalid, hfound]
      rfl

theorem matches_searchItems {attributes : BTreeMap String String}
    (hadmissible : (Operation.searchItems attributes).Admissible broker) :
    Matches broker state (.searchItems attributes) := by
  have hvalid : validateAttributes attributes = .ok () := hadmissible
  refine matches_done trivial ?_ rfl
  simp only [Broker.ideal, VisibleVault.answer, hvalid]
  rfl

theorem matches_listItems (collectionId : Uuid) : Matches broker state (.listItems collectionId) := by
  cases hfound : state.collections[collectionId]? with
  | none =>
      refine matches_refused (WincredLibsecret.notFound "collection does not exist")
        (notFound "collection not found") trivial trivial ?_ (by rw [call, hfound]; rfl)
      simp only [Broker.ideal, VisibleVault.answer, hfound]
      rfl
  | some collection =>
      refine matches_done trivial ?_ (by rw [call, hfound]; rfl)
      simp only [Broker.ideal, VisibleVault.answer, hfound]
      rfl

theorem matches_getItem (itemId : Uuid) (includeSecret : Bool) :
    Matches broker state (.getItem itemId includeSecret) := by
  cases hfound : state.items[itemId]? with
  | none =>
      refine matches_refused (WincredLibsecret.notFound "item does not exist")
        (notFound "item not found") trivial trivial ?_ (by rw [call, hfound])
      simp only [Broker.ideal, VisibleVault.answer, hfound]
      rfl
  | some entry =>
      refine matches_done trivial ?_ (by rw [call, hfound])
      simp only [Broker.ideal, VisibleVault.answer, hfound]
      rfl

theorem matches_deleteItem (itemId : Uuid) : Matches broker state (.deleteItem itemId) := by
  cases hfound : state.items[itemId]? with
  | none =>
      refine matches_refused (WincredLibsecret.notFound "item does not exist")
        (notFound "item not found") trivial trivial ?_ (by rw [call, hfound])
      simp only [Broker.ideal, findItem_none hfound]
      rfl
  | some entry =>
      refine matches_done trivial ?_ (by rw [call, hfound])
      simp only [Broker.ideal, findItem_some hfound]
      rfl

/-- The two answer alike to a creation, and then store the same. -/
theorem idealCreate_eq {item : ItemMetadata} {secret : SecretBytes} (hvalid : validateItem item = .ok ())
    (hfits : ∃ blob, encodeMetadata broker.itemCodec item = .ok blob) :
    (∃ error failure, broker.idealCreate state item secret = .error error ∧
      createItem state item secret = .error failure ∧ Alike (.error error) (.error failure)) ∨
    broker.idealCreate state item secret = .ok (state.withItem item secret) ∧
      createItem state item secret = .ok (state.withItem item secret) := by
  obtain ⟨blob, hblob⟩ := hfits
  cases hcollection : state.collections[item.collectionId]? with
  | none =>
      refine .inl ⟨⟨.invalidCollection, "referenced collection does not exist"⟩, notFound "collection not found",
        ?_, ?_, trivial⟩
      · simp only [Broker.idealCreate, hvalid, findReferenced_none hcollection]
        rfl
      · rw [createItem, hcollection]
        rfl
  | some collection =>
      cases hitem : state.items[item.id]? with
      | some entry =>
          refine .inl ⟨alreadyExists "item already exists", .broker ⟨.alreadyExists, "item already exists"⟩,
            ?_, ?_, trivial⟩
          · simp only [Broker.idealCreate, hvalid, findReferenced_some hcollection, hitem]
            rfl
          · rw [createItem, hcollection, hitem]
            rfl
      | none =>
          refine .inr ⟨?_, ?_⟩
          · simp only [Broker.idealCreate, hvalid, findReferenced_some hcollection, hitem, hblob]
            rfl
          · rw [createItem, hcollection, hitem]
            rfl

theorem matches_createItem {item : ItemMetadata} {secret : SecretBytes}
    (hadmissible : (Operation.createItem item secret).Admissible broker) :
    Matches broker state (.createItem item secret) := by
  obtain ⟨error, failure, hideal, hcall, hsame⟩ | ⟨hideal, hcall⟩ := idealCreate_eq hadmissible.1 hadmissible.2
  · refine matches_refused error failure hsame trivial ?_ (by rw [call, hcall])
    simp only [Broker.ideal, hideal]
    rfl
  · refine matches_done trivial ?_ (by rw [call, hcall])
    simp only [Broker.ideal, hideal]
    rfl

theorem matches_createOrReplaceItem {item : ItemMetadata} {secret : SecretBytes} {replace : Bool}
    (hadmissible : (Operation.createOrReplaceItem item secret replace).Admissible broker) :
    Matches broker state (.createOrReplaceItem item secret replace) := by
  obtain ⟨error, failure, hideal, hcall, hsame⟩ | ⟨hideal, hcall⟩ := idealCreate_eq hadmissible.1 hadmissible.2
  · refine matches_refused error failure hsame trivial ?_ (by rw [call, hcall])
    simp only [Broker.ideal, hideal]
    rfl
  · refine matches_done trivial ?_ (by rw [call, hcall])
    simp only [Broker.ideal, hideal]
    rfl

/-! An update of an item that is there. -/

section Updates

variable {item existing changed : ItemMetadata} {secret : Option SecretBytes} {current : SecretBytes}

theorem eq_max_left_iff {left right : UInt64} : left = max left right ↔ right ≤ left := by
  rw [← UInt64.toNat_inj, toNat_max, UInt64.le_iff_toNat_le]
  omega

theorem revise_eq_iff (hchanged : changed = { item with modified := changed.modified }) :
    item.revise secret existing = changed ↔ item.created = existing.created ∧
      (secret = none → item.currentGeneration = existing.currentGeneration) ∧
      changed.modified = max item.modified (saturatingSucc existing.modified) := by
  rw [hchanged]
  cases secret with
  | none =>
      simp only [ItemMetadata.revise, ItemMetadata.succeed, ItemMetadata.mk.injEq, true_and, forall_const]
      constructor
      · rintro ⟨hcreated, hlater, hgeneration⟩
        exact ⟨hcreated.symm, hgeneration.symm, hlater.symm⟩
      · rintro ⟨hcreated, hgeneration, hlater⟩
        exact ⟨hcreated.symm, hlater.symm, hgeneration.symm⟩
  | some bytes =>
      simp only [ItemMetadata.revise, ItemMetadata.succeed, ItemMetadata.mk.injEq, true_and, and_true]
      constructor
      · rintro ⟨hcreated, hlater⟩
        exact ⟨hcreated.symm, nofun, hlater.symm⟩
      · rintro ⟨hcreated, -, hlater⟩
        exact ⟨hcreated.symm, hlater.symm⟩

/-- The broker stores the record of an update as it is given, but for a later modification time. -/
def Accepted (broker : Broker) (state : MemoryState) (item : ItemMetadata) (secret : Option SecretBytes)
    (existing changed : ItemMetadata) : Prop :=
  state.collections[item.collectionId]?.isSome ∧ item.Continues secret existing ∧
    changed.modified = max item.modified (saturatingSucc existing.modified) ∧
    ∃ blob, encodeMetadata broker.itemCodec changed = .ok blob

theorem Accepted.revise_eq (h : Accepted broker state item secret existing changed)
    (hchanged : changed = { item with modified := changed.modified }) : item.revise secret existing = changed := by
  obtain ⟨-, ⟨hcreated, hgeneration⟩, hmodified, -⟩ := h
  refine (revise_eq_iff hchanged).mpr ⟨hcreated, fun hnone => ?_, hmodified⟩
  rw [hnone] at hgeneration
  exact of_not_not fun hne => Bool.false_ne_true (hgeneration.mpr hne)

theorem idealUpdate_accepted (hitem : state.items[item.id]? = some (existing, current))
    (hvalid : validateItem item = .ok ()) (hchanged : changed = { item with modified := changed.modified })
    (h : Accepted broker state item secret existing changed) :
    broker.idealUpdate state item secret =
      .ok (.item changed none, state.withItem changed (secret.getD current)) := by
  have hrevise := h.revise_eq hchanged
  obtain ⟨hcollection, ⟨-, hgeneration⟩, -, blob, hblob⟩ := h
  obtain ⟨collection, hcollection⟩ := Option.isSome_iff_exists.mp hcollection
  have hfresh : ¬(secret.isSome ∧ item.currentGeneration = existing.currentGeneration) :=
    fun h => hgeneration.mp h.1 h.2
  simp only [Broker.idealUpdate, findItem_some hitem, bind, Except.bind, hvalid, findReferenced_some hcollection,
    if_neg hfresh, hrevise, hblob]
  rfl

theorem accepted_of_idealUpdate {next : MemoryState} (hitem : state.items[item.id]? = some (existing, current))
    (hvalid : validateItem item = .ok ()) (hchanged : changed = { item with modified := changed.modified })
    (h : broker.idealUpdate state item secret = .ok (.item changed none, next)) :
    Accepted broker state item secret existing changed := by
  simp only [Broker.idealUpdate, findItem_some hitem, bind, Except.bind, hvalid] at h
  cases hcollection : state.collections[item.collectionId]? with
  | none =>
      rw [findReferenced_none hcollection] at h
      cases h
  | some collection =>
      by_cases hfresh : secret.isSome ∧ item.currentGeneration = existing.currentGeneration
      · simp only [findReferenced_some hcollection, if_pos hfresh] at h
        cases h
      · simp only [findReferenced_some hcollection, if_neg hfresh] at h
        cases hblob : encodeMetadata broker.itemCodec (item.revise secret existing) with
        | error error =>
            rw [hblob] at h
            cases h
        | ok blob =>
            rw [hblob] at h
            have hrevise : item.revise secret existing = changed := by
              injection h with h
              exact (ResponseBody.item.inj (congrArg Prod.fst h)).1
            obtain ⟨hcreated, hgeneration, hmodified⟩ := (revise_eq_iff hchanged).mp hrevise
            refine ⟨by rw [hcollection]; rfl, ⟨hcreated, fun hsome hsame => hfresh ⟨hsome, hsame⟩, fun hne => ?_⟩,
              hmodified, blob, hrevise ▸ hblob⟩
            cases secret with
            | none => exact absurd (hgeneration rfl) hne
            | some bytes => rfl

theorem alike_ok_iff {answer : Except BrokerError (ResponseBody × MemoryState)} {body : ResponseBody} :
    Alike (answer.map Prod.fst) (.ok body) ↔ ∃ next, answer = .ok (body, next) := by
  cases answer with
  | error error => exact iff_of_false id (by rintro ⟨next, h⟩; cases h)
  | ok result =>
      constructor
      · intro h
        have hbody : result.1 = body := h
        exact ⟨result.2, by rw [← hbody]⟩
      · rintro ⟨next, h⟩
        cases h
        exact rfl

/-- Both updates of the test double store the record as given, with a later modification time or not. -/
theorem matches_update {operation : Operation} (changed : ItemMetadata) (secret : Option SecretBytes)
    (hitem : state.items[item.id]? = some (existing, current))
    (hvalid : validateItem item = .ok ()) (hchanged : changed = { item with modified := changed.modified })
    (hideal : broker.ideal state operation = broker.idealUpdate state item secret)
    (hcall : call state operation = updateItem state changed secret current)
    (hagreed : operation.AgreedAt broker state ↔ Accepted broker state item secret existing changed) :
    Matches broker state operation := by
  refine ⟨?_, fun h => ?_⟩
  · rw [hcall, hideal, updateItem, alike_ok_iff, hagreed]
    constructor
    · rintro ⟨next, hnext⟩
      exact accepted_of_idealUpdate hitem hvalid hchanged hnext
    · intro h
      exact ⟨_, idealUpdate_accepted hitem hvalid hchanged h⟩
  · rw [hcall, Broker.idealNext, hideal, idealUpdate_accepted hitem hvalid hchanged (hagreed.mp h), updateItem]

theorem matches_updateItem (hadmissible : (Operation.updateItem item secret).Admissible broker) :
    Matches broker state (.updateItem item secret) := by
  obtain ⟨hvalid, hfits⟩ := hadmissible
  cases hitem : state.items[item.id]? with
  | none =>
      have hagreed : (Operation.updateItem item secret).AgreedAt broker state :=
        fun existing current hexisting => by cases hitem.symm.trans hexisting
      refine matches_refused (WincredLibsecret.notFound "item does not exist") (notFound "item not found") trivial
        hagreed ?_ (by rw [call, hitem])
      simp only [Broker.ideal, Broker.idealUpdate, findItem_none hitem]
      rfl
  | some entry =>
      obtain ⟨existing, current⟩ := entry
      refine matches_update item secret hitem hvalid rfl rfl (by rw [call, hitem]) ?_
      rw [Accepted, eq_max_left_iff]
      constructor
      · intro h
        obtain ⟨hcollection, hcontinues, hlater⟩ := h existing current hitem
        exact ⟨hcollection, hcontinues, hlater, hfits⟩
      · rintro ⟨hcollection, hcontinues, hlater, -⟩ stored secret hstored
        cases hitem.symm.trans hstored
        exact ⟨hcollection, hcontinues, hlater⟩

theorem matches_updateItemCas {expectedModified : UInt64}
    (hadmissible : (Operation.updateItemCas item secret expectedModified).Admissible broker) :
    Matches broker state (.updateItemCas item secret expectedModified) := by
  obtain ⟨hvalid, -⟩ := hadmissible
  cases hitem : state.items[item.id]? with
  | none =>
      have hagreed : (Operation.updateItemCas item secret expectedModified).AgreedAt broker state :=
        fun existing current hexisting => by cases hitem.symm.trans hexisting
      refine matches_refused (WincredLibsecret.notFound "item does not exist") (notFound "item not found") trivial
        hagreed ?_ (by rw [call, hitem])
      simp only [Broker.ideal, findItem_none hitem]
      rfl
  | some entry =>
      obtain ⟨existing, current⟩ := entry
      by_cases hexpected : existing.modified = expectedModified
      · refine matches_update { item with modified := max item.modified (saturatingSucc existing.modified) } secret
          hitem hvalid rfl ?_ ?_ ?_
        · simp only [Broker.ideal, findItem_some hitem, bind, Except.bind, if_neg (not_not.mpr hexpected)]
        · simp only [call, hitem, if_neg (not_not.mpr hexpected)]
        · constructor
          · intro h
            obtain ⟨hcollection, hcontinues, hfits⟩ := h existing current hitem hexpected
            exact ⟨hcollection, hcontinues, rfl, hfits⟩
          · rintro ⟨hcollection, hcontinues, -, hfits⟩ stored secret hstored -
            cases hitem.symm.trans hstored
            exact ⟨hcollection, hcontinues, hfits⟩
      · have hagreed : (Operation.updateItemCas item secret expectedModified).AgreedAt broker state := by
          intro stored secret hstored hsame
          cases hitem.symm.trans hstored
          exact absurd hsame hexpected
        refine matches_refused ⟨.conflict, "item was modified by another provider"⟩
          (.broker ⟨.conflict, "item was modified by another provider"⟩) trivial hagreed ?_ ?_
        · simp only [Broker.ideal, findItem_some hitem, bind, Except.bind, if_pos hexpected]
          rfl
        · simp only [call, hitem, if_pos hexpected]

end Updates

theorem matches_call {operation : Operation} (hadmissible : operation.Admissible broker) :
    Matches broker state operation := by
  cases operation with
  | ping | listCollections | listAliases | reconcile => exact matches_done trivial rfl rfl
  | getCollection collectionId => exact matches_getCollection collectionId
  | createCollection collection => exact matches_createCollection hadmissible
  | updateCollection collection => exact matches_updateCollection hadmissible
  | deleteCollection collectionId => exact matches_deleteCollection collectionId
  | resolveAlias name => exact matches_resolveAlias hadmissible
  | setAlias record => exact matches_setAlias hadmissible
  | removeAlias name => exact matches_removeAlias hadmissible
  | searchItems attributes => exact matches_searchItems hadmissible
  | listItems collectionId => exact matches_listItems collectionId
  | getItem itemId includeSecret => exact matches_getItem itemId includeSecret
  | createItem item secret => exact matches_createItem hadmissible
  | createOrReplaceItem item secret replace => exact matches_createOrReplaceItem hadmissible
  | updateItem item secret => exact matches_updateItem hadmissible
  | updateItemCas item secret expectedModified => exact matches_updateItemCas hadmissible
  | deleteItem itemId => exact matches_deleteItem itemId

/-- The answers to a sequence of requests. -/
def answers : List Operation → MemoryState → List (Except ProviderError ResponseBody)
  | [], _ => []
  | operation :: operations, state => (call state operation).1 :: answers operations (call state operation).2

/-- Each request of a sequence is agreed about in the state before it. -/
def AgreedThroughout (broker : Broker) : List Operation → MemoryState → Prop
  | [], _ => True
  | operation :: operations, state =>
      operation.AgreedAt broker state ∧ AgreedThroughout broker operations (call state operation).2

end InMemoryBroker

namespace Broker

variable {broker : Broker} {vault : Vault}

/-- The answers to a sequence of requests while nothing fails. -/
def calmAnswers (broker : Broker) : List Operation → Vault → List (Except BrokerError ResponseBody)
  | [], _ => []
  | operation :: operations, vault =>
      (broker.calmly operation vault).1 :: broker.calmAnswers operations (broker.calmly operation vault).2

theorem Sound.alike_answers (hsound : broker.Sound vault) (htidy : broker.Tidy vault) {operations : List Operation}
    (hadmissible : ∀ operation ∈ operations, operation.Admissible broker) :
    List.Forall₂ Alike (broker.calmAnswers operations vault)
      (InMemoryBroker.answers operations (broker.visible vault)) ↔
      InMemoryBroker.AgreedThroughout broker operations (broker.visible vault) := by
  induction operations generalizing vault with
  | nil => exact iff_of_true .nil trivial
  | cons operation operations ih =>
      rw [List.forall_mem_cons] at hadmissible
      have hmatches : InMemoryBroker.Matches broker (broker.visible vault) operation :=
        InMemoryBroker.matches_call hadmissible.1
      rw [calmAnswers, InMemoryBroker.answers, InMemoryBroker.AgreedThroughout, List.forall₂_cons,
        hsound.answer_calmly htidy, hmatches.alike_iff]
      refine and_congr_right fun hagreed => ?_
      rw [hmatches.next_eq hagreed, ← hsound.visible_calmly htidy]
      exact ih (hsound.calmly operation) (htidy.calmly hsound operation) hadmissible.2

/-- Over a store that is empty at first and while nothing fails, the test double answers every request of a
sequence as the broker does, exactly if each request is agreed about in the state it meets. -/
theorem double_answers_alike_iff {operations : List Operation}
    (hadmissible : ∀ operation ∈ operations, operation.Admissible broker) :
    List.Forall₂ Alike (broker.calmAnswers operations ∅) (InMemoryBroker.answers operations ⟨∅, ∅, ∅⟩) ↔
      InMemoryBroker.AgreedThroughout broker operations ⟨∅, ∅, ∅⟩ := by
  have hempty : broker.visible ∅ = ⟨∅, ∅, ∅⟩ := visible_empty
  rw [← hempty]
  exact sound_empty.alike_answers tidy_empty hadmissible

/-- The removal of an alias that is there. -/
theorem double_answers_alike_iff_removed :
    let broker := cborBroker inMemoryBackend
    let operations : List Operation :=
      [.createCollection ⟨1, ⟨7⟩, "a", 5, 5⟩, .setAlias ⟨1, "b", ⟨7⟩⟩, .removeAlias "b"]
    List.Forall₂ Alike (broker.calmAnswers operations ∅) (InMemoryBroker.answers operations ⟨∅, ∅, ∅⟩) := by
  intro broker operations
  have hcollection : encodeMetadata broker.collectionCodec ⟨1, ⟨7⟩, "a", 5, 5⟩ =
      .ok ((cborCodec CollectionMetadata.decodes).intoWriter ⟨1, ⟨7⟩, "a", 5, 5⟩).get! := by decide +kernel
  have halias : encodeMetadata broker.aliasCodec ⟨1, "b", ⟨7⟩⟩ =
      .ok ((cborCodec AliasMetadata.decodes).intoWriter ⟨1, "b", ⟨7⟩⟩).get! := by decide +kernel
  have hname : checkAliasName "b" = .ok () := by decide +kernel
  refine (double_answers_alike_iff ?_).mpr ⟨trivial, trivial, ?_, trivial⟩
  · simp only [operations, List.forall_mem_cons, List.not_mem_nil, IsEmpty.forall_iff, implies_true, and_true]
    exact ⟨⟨by decide +kernel, _, hcollection⟩, ⟨by decide +kernel, _, halias⟩, hname⟩
  · rw [Operation.AgreedAt]
    decide +kernel

/-- The test double does not miss an alias that is not there. -/
theorem double_removes_missing_alias :
    let broker := cborBroker inMemoryBackend
    (Operation.removeAlias "a").Admissible broker ∧
      broker.calmAnswers [.removeAlias "a"] ∅ = [.error (notFound "alias does not exist")] ∧
      InMemoryBroker.answers [.removeAlias "a"] ⟨∅, ∅, ∅⟩ = [.ok .empty] ∧
      ¬List.Forall₂ Alike (broker.calmAnswers [.removeAlias "a"] ∅)
        (InMemoryBroker.answers [.removeAlias "a"] ⟨∅, ∅, ∅⟩) := by
  intro broker
  have hvalid : checkAliasName "a" = .ok () := by decide +kernel
  have hanswer : broker.calmAnswers [.removeAlias "a"] ∅ = [.error (notFound "alias does not exist")] := by
    rw [calmAnswers, calmAnswers, sound_empty.answer_calmly tidy_empty, visible_empty]
    simp only [ideal, hvalid, Std.ExtTreeMap.getElem?_empty]
    rfl
  have hdouble : InMemoryBroker.answers [.removeAlias "a"] ⟨∅, ∅, ∅⟩ = [.ok .empty] := rfl
  refine ⟨hvalid, hanswer, hdouble, ?_⟩
  rw [hanswer, hdouble]
  rintro (_ | ⟨halike, -⟩)
  exact halike

end Broker

end WincredLibsecret
