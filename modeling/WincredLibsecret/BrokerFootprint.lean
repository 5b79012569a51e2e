import WincredLibsecret.BrokerUpdates

/-! What a request of the broker writes. It writes at most the records it brings along; every other credential
stays as it is or is deleted. -/

namespace WincredLibsecret

open Effect Effect.Action

/-- A credential of the item. -/
def TargetName.BelongsTo (id : Uuid) : TargetName → Prop
  | .itemMetadata itemId | .itemSecret itemId _ => itemId = id
  | .collection _ | .alias _ => False

/-- The credentials a request may write. -/
def Operation.Writes : Operation → TargetName → Prop
  | .createCollection collection | .updateCollection collection => (· = .collection collection.id)
  | .setAlias record => (· = .alias record.name)
  | .createItem item _ | .createOrReplaceItem item _ _ | .updateItem item _ | .updateItemCas item _ _ =>
      TargetName.BelongsTo item.id
  | _ => fun _ => False

theorem TargetName.BelongsTo.unique {id other : Uuid} {target : TargetName} (h : target.BelongsTo id)
    (hother : target.BelongsTo other) : id = other := by
  cases target with
  | itemMetadata | itemSecret => exact h.symm.trans hother
  | _ => exact h.elim

/-- A request writes no credential of an item other than the one it brings along. -/
theorem Operation.not_belongsTo_of_writes {operation : Operation} {id : Uuid}
    (h : ∀ item, operation.suppliedItem = some item → item.id ≠ id) {target : TargetName}
    (hwrites : operation.Writes target) : ¬ target.BelongsTo id := by
  cases operation with
  | createItem item | createOrReplaceItem item | updateItem item | updateItemCas item =>
      exact fun hid => h item rfl (TargetName.BelongsTo.unique hwrites hid)
  | createCollection | updateCollection | setAlias =>
      cases hwrites
      exact fun hbelongs => hbelongs
  | _ => exact hwrites.elim

/-- The call writes no credential of this kind. -/
def VaultCall.Leaves (kind : TargetName → Prop) : VaultCall → Prop
  | .write target _ => ¬ kind target
  | _ => True

/-- The record of a collection or of an item. -/
def TargetName.IsRecord : TargetName → Prop
  | .collection _ | .itemMetadata _ => True
  | .alias _ | .itemSecret _ _ => False

/-- The record of a collection or of an item that a request is meant to add. -/
def Operation.Creates : Operation → TargetName → Prop
  | .createCollection collection => (· = .collection collection.id)
  | .createItem item _ | .createOrReplaceItem item _ _ => (· = .itemMetadata item.id)
  | _ => fun _ => False

theorem TargetName.IsRecord.eq_itemMetadata {target : TargetName} (h : target.IsRecord) {id : Uuid}
    (hid : target.BelongsTo id) : target = .itemMetadata id := by
  cases target with
  | itemMetadata itemId => exact congrArg TargetName.itemMetadata hid
  | collection => exact hid.elim
  | _ => exact h.elim

variable {kind : TargetName → Prop}

theorem VaultCall.IsShrinking.leaves {request : VaultCall} (h : request.IsShrinking) : request.Leaves kind := by
  cases request with
  | write => exact h.elim
  | _ => trivial

/-- Of the credentials of this kind, the second vault holds what is left after some were deleted. -/
def Vault.ShrinksAt (kind : TargetName → Prop) (vault rest : Vault) : Prop :=
  ∀ target : TargetName, kind target → rest.lookup target = vault.lookup target ∨ rest.lookup target = none

theorem VaultBackend.serve_of_leaves (backend : VaultBackend) (vault : Vault) (request : VaultCall)
    (h : request.Leaves kind) (rest : Vault) (hrest : vault.ShrinksAt kind rest) :
    vault.ShrinksAt kind (backend.serve request rest).2 := by
  intro target htarget
  cases request with
  | write written blob =>
      have hne : written ≠ target := by
        rintro rfl
        exact h htarget
      rw [VaultBackend.serve, Vault.lookup_put_of_ne hne]
      exact hrest target htarget
  | delete deleted =>
      rw [VaultBackend.serve, Vault.lookup_drop]
      split_ifs
      · exact .inr rfl
      · exact hrest target htarget
  | _ => exact hrest target htarget

namespace Broker

variable {broker : Broker} {vault rest : Vault}

section

open Action

theorem calls_leaves_writeMetadata {α : Type} {codec : MetadataCodec α} {target : TargetName} (metadata : α)
    (h : ¬ kind target) : Calls (VaultCall.Leaves kind) (writeMetadata codec target metadata) :=
  calls_bind (calls_ofExcept _) fun _ => calls_perform h

theorem calls_leaves_of_shrinking {α : Type} {action : BrokerAction α} (h : Calls VaultCall.IsShrinking action) :
    Calls (VaultCall.Leaves kind) action :=
  calls_mono (fun _ hrequest => hrequest.leaves) h

theorem calls_leaves_of_reading {α : Type} {action : BrokerAction α} (h : Calls VaultCall.IsReading action) :
    Calls (VaultCall.Leaves kind) action :=
  calls_mono (fun _ hrequest => hrequest.isShrinking.leaves) h

theorem calls_leaves_requireCollection (collectionId : Uuid) :
    Calls (VaultCall.Leaves kind) (broker.requireCollection collectionId) :=
  calls_mapError (calls_leaves_of_reading (calls_getCollection collectionId))

theorem calls_leaves_commitNewGeneration {item : ItemMetadata} (previous : Option Uuid) (secret : SecretBytes)
    (h : ∀ target, TargetName.BelongsTo item.id target → ¬ kind target) :
    Calls (VaultCall.Leaves kind) (broker.commitNewGeneration item previous secret) := by
  refine calls_bind (calls_ofExcept _) fun blob => calls_bind (calls_perform (h _ rfl)) fun _ => ?_
  refine calls_bind (calls_attempt (calls_perform (h _ rfl))) fun written => ?_
  cases written with
  | error error => exact calls_bind (calls_attempt (calls_perform trivial)) fun _ => calls_throw _
  | ok _ =>
      refine calls_forM fun step _ => ?_
      cases step with
      | deleteSecret target => exact calls_leaves_of_shrinking (calls_cleanUp target)
      | _ => exact calls_pure _

theorem calls_leaves_updateItem {item : ItemMetadata} (secret : Option SecretBytes)
    (h : ∀ target, TargetName.BelongsTo item.id target → ¬ kind target) :
    Calls (VaultCall.Leaves kind) (broker.updateItem item secret) := by
  refine calls_bind (calls_leaves_of_reading (calls_getItemMetadata item.id)) fun existing => ?_
  refine calls_bind (calls_ofExcept _) fun _ => calls_bind (calls_leaves_requireCollection _) fun _ => ?_
  cases secret with
  | some secret =>
      dsimp only
      split_ifs
      · exact calls_throw _
      · exact calls_bind (calls_leaves_commitNewGeneration _ secret h) fun _ => calls_pure _
  | none => exact calls_bind (calls_leaves_writeMetadata _ (h _ rfl)) fun _ => calls_pure _

/-- A request writes nothing but the records it brings along. -/
theorem calls_leaves_perform {operation : Operation}
    (h : ∀ target, operation.Writes target → ¬ kind target) :
    Calls (VaultCall.Leaves kind) (broker.perform operation) := by
  cases operation with
  | ping => exact calls_pure _
  | listCollections => exact calls_leaves_of_reading calls_listCollections
  | getCollection collectionId =>
      exact calls_bind (calls_leaves_of_reading (calls_getCollection collectionId)) fun _ => calls_pure _
  | createCollection collection =>
      refine calls_bind (calls_ofExcept _) fun _ => calls_bind (calls_perform trivial) fun stored => ?_
      split_ifs
      · exact calls_throw _
      · exact calls_bind (calls_leaves_writeMetadata _ (h _ rfl)) fun _ => calls_pure _
  | updateCollection collection =>
      exact calls_bind (calls_leaves_of_reading (calls_getCollection collection.id)) fun _ =>
        calls_bind (calls_ofExcept _) fun _ => calls_bind (calls_leaves_writeMetadata _ (h _ rfl)) fun _ => calls_pure _
  | deleteCollection collectionId => exact calls_leaves_of_shrinking (calls_deleteCollection collectionId)
  | listAliases => exact calls_leaves_of_reading calls_listAliases
  | resolveAlias name => exact calls_leaves_of_reading (calls_resolveAlias name)
  | setAlias record =>
      exact calls_bind (calls_ofExcept _) fun _ => calls_bind (calls_leaves_requireCollection _) fun _ =>
        calls_bind (calls_leaves_writeMetadata _ (h _ rfl)) fun _ => calls_pure _
  | removeAlias name =>
      refine calls_bind (calls_ofExcept _) fun _ => calls_bind (calls_perform trivial) fun stored => ?_
      split_ifs
      · exact calls_throw _
      · exact calls_bind (calls_perform trivial) fun _ => calls_pure _
  | searchItems attributes => exact calls_leaves_of_reading (calls_searchItems attributes)
  | listItems collectionId => exact calls_leaves_of_reading (calls_listItems collectionId)
  | getItem itemId includeSecret => exact calls_leaves_of_reading (calls_getItem itemId includeSecret)
  | createItem item secret =>
      refine calls_bind (calls_ofExcept _) fun _ => calls_bind (calls_leaves_requireCollection _) fun _ => ?_
      refine calls_bind (calls_perform trivial) fun stored => ?_
      split_ifs
      · exact calls_throw _
      · exact calls_bind (calls_leaves_commitNewGeneration _ secret h) fun _ => calls_pure _
  | createOrReplaceItem item secret replace =>
      refine calls_bind (calls_ofExcept _) fun _ => calls_bind (calls_leaves_requireCollection _) fun _ => ?_
      refine calls_bind (calls_perform trivial) fun stored => ?_
      split_ifs
      · exact calls_throw _
      · refine calls_bind (calls_leaves_of_reading (calls_replacedItemIds item replace)) fun replaced => ?_
        refine calls_bind (calls_leaves_commitNewGeneration _ secret h) fun _ => ?_
        exact calls_bind (calls_leaves_of_reading calls_entries) fun entries =>
          calls_bind (calls_leaves_of_shrinking (calls_deleteReplacedItems entries replaced)) fun _ => calls_pure _
  | updateItem item secret => exact calls_leaves_updateItem secret h
  | updateItemCas item secret expectedModified =>
      refine calls_bind (calls_leaves_of_reading (calls_getItemMetadata item.id)) fun existing => ?_
      split_ifs
      · exact calls_throw _
      · exact calls_leaves_updateItem secret h
  | deleteItem itemId => exact calls_leaves_of_shrinking (calls_deleteItem itemId)
  | reconcile => exact calls_leaves_of_shrinking calls_reconcileLocked

end

theorem respond_shrinksAt {step : BrokerStep} (h : ∀ target, step.operation.Writes target → ¬ kind target)
    (vault : Vault) : vault.ShrinksAt kind (broker.respond step vault).state := by
  have hcalls : Calls (VaultCall.Leaves kind) (broker.execute step.operation) :=
    calls_bind (calls_perform trivial) fun _ => calls_leaves_perform h
  have hwp : wp broker.backend.serve (fun _ => True) (broker.execute step.operation)
      (fun _ => vault.ShrinksAt kind) (fun _ => vault.ShrinksAt kind) (vault.ShrinksAt kind) vault :=
    wp_of_calls (broker.backend.serve_of_leaves vault) hcalls fun _ _ => .inl rfl
  exact execute_state_of_wp hwp (within_any step.fates)

variable {fates : Fates BackendError} {body : ResponseBody}

/-- An update of a collection that is not there changes nothing. -/
theorem respond_updateCollection_of_none {collection : CollectionMetadata}
    (h : vault.lookup (.collection collection.id) = none) :
    (broker.respond ⟨.updateCollection collection, fates⟩ vault).state = vault := by
  have hwp : wp broker.backend.serve (fun _ => True) (broker.execute (.updateCollection collection))
      (fun _ => (· = vault)) (fun _ => (· = vault)) (· = vault) vault := by
    simp only [execute, perform, updateCollection, wp_bind, wp_acquireLock, wp_getCollection]
    refine ⟨trivial, fun _ _ => trivial, trivial, fun _ _ => trivial,
      either_intro (fun existing hexisting => ?_) fun _ _ => rfl⟩
    cases (stored_of_lookup_none h).symm.trans (collectionAt_eq_ok.mp hexisting)
  exact execute_state_of_wp hwp (within_any fates)

/-- A request that starts with a read of an item that is not there changes nothing. -/
theorem respond_of_itemMetadata_none {operation : Operation} {id : Uuid}
    {next : ItemMetadata → BrokerAction ResponseBody}
    (hperform : broker.perform operation = broker.getItemMetadata id >>= next)
    (h : vault.lookup (.itemMetadata id) = none) : (broker.respond ⟨operation, fates⟩ vault).state = vault := by
  have hwp : wp broker.backend.serve (fun _ => True) (broker.execute operation)
      (fun _ => (· = vault)) (fun _ => (· = vault)) (· = vault) vault := by
    simp only [execute, hperform, wp_bind, wp_acquireLock, wp_getItemMetadata]
    refine ⟨trivial, fun _ _ => trivial, trivial, fun _ _ => trivial,
      either_intro (fun existing hexisting => ?_) fun _ _ => rfl⟩
    cases (stored_of_lookup_none h).symm.trans (itemAt_eq_ok.mp hexisting)
  exact execute_state_of_wp hwp (within_any fates)

/-- The record of a collection or of an item that is there after a request was there before, or the request
was meant to add it. -/
theorem isSome_of_respond {step : BrokerStep} {target : TargetName} (htarget : target.IsRecord)
    (h : ((broker.respond step vault).state.lookup target).isSome) :
    (vault.lookup target).isSome ∨ step.operation.Creates target := by
  obtain ⟨operation, fates⟩ := step
  by_cases hwrites : operation.Writes target
  · cases operation with
    | createCollection collection => exact .inr hwrites
    | createItem item secret => exact .inr (htarget.eq_itemMetadata hwrites)
    | createOrReplaceItem item secret replace => exact .inr (htarget.eq_itemMetadata hwrites)
    | updateCollection collection =>
        left
        cases hwrites
        by_contra hnone
        rw [respond_updateCollection_of_none (Option.not_isSome_iff_eq_none.mp hnone)] at h
        exact hnone h
    | updateItem item secret =>
        left
        cases htarget.eq_itemMetadata hwrites
        by_contra hnone
        rw [respond_of_itemMetadata_none rfl (Option.not_isSome_iff_eq_none.mp hnone)] at h
        exact hnone h
    | updateItemCas item secret expectedModified =>
        left
        cases htarget.eq_itemMetadata hwrites
        by_contra hnone
        rw [respond_of_itemMetadata_none rfl (Option.not_isSome_iff_eq_none.mp hnone)] at h
        exact hnone h
    | setAlias record =>
        cases hwrites
        exact htarget.elim
    | _ => exact hwrites.elim
  · have hshrinks : vault.ShrinksAt (· = target) (broker.respond ⟨operation, fates⟩ vault).state := by
      refine respond_shrinksAt ?_ vault
      rintro _ hother rfl
      exact hwrites hother
    rcases hshrinks target rfl with hsame | hnone
    · exact .inl (hsame ▸ h)
    · simp [hnone] at h

theorem wp_deleteItemFromEntries_lookup (id : Uuid) (entries : List Entry) (vault : Vault) :
    wp broker.backend.serve (fun _ => True) (deleteItemFromEntries id entries)
      (fun _ rest => rest.lookup (.itemMetadata id) = none) (fun _ _ => True) (fun _ => True) vault := by
  simp only [deleteItemFromEntries, wp_bind, wp_deleteCredential]
  refine ⟨trivial, fun _ _ => trivial, trivial, ?_⟩
  refine wp_forM (fun _ rest => rest.lookup (.itemMetadata id) = none) ?_ (fun _ h => ⟨trivial, h⟩)
    (Vault.lookup_drop_self _ _)
  intro target _ _ rest hnone
  rw [wp_deleteCredential]
  exact ⟨trivial, fun _ _ => trivial, trivial, ((Vault.Shrinks.refl rest).drop _).lookup_eq_none hnone⟩

theorem lookup_of_deleteItem {id : Uuid}
    (h : (broker.respond ⟨.deleteItem id, fates⟩ vault).outcome = .returned (.ok body)) :
    (broker.respond ⟨.deleteItem id, fates⟩ vault).state.lookup (.itemMetadata id) = none := by
  refine of_respond_ok (fun _ rest => rest.lookup (.itemMetadata id) = none) h ?_
  simp only [perform, deleteItem, wp_bind, wp_getItemMetadata, wp_entries, wp_pure]
  refine ⟨trivial, fun _ _ => trivial, either_intro (fun _ _ => ?_) fun _ _ => trivial⟩
  refine ⟨trivial, fun _ _ => trivial, ?_⟩
  exact wp_mono (fun _ _ hnone => ⟨trivial, hnone⟩) (fun _ _ h => h) (fun _ h => h)
    (wp_deleteItemFromEntries_lookup id _ vault)

theorem lookup_of_deleteCollection {id : Uuid}
    (h : (broker.respond ⟨.deleteCollection id, fates⟩ vault).outcome = .returned (.ok body)) :
    (broker.respond ⟨.deleteCollection id, fates⟩ vault).state.lookup (.collection id) = none := by
  refine of_respond_ok (fun _ rest => rest.lookup (.collection id) = none) h ?_
  simp only [perform, deleteCollection, wp_bind, wp_getCollection, wp_entries]
  refine ⟨trivial, fun _ _ => trivial, either_intro (fun _ _ => ?_) fun _ _ => trivial⟩
  refine ⟨trivial, fun _ _ => trivial, wp_of_forall fun _ _ => wp_of_forall fun _ rest => ?_⟩
  simp only [wp_deleteCredential, wp_pure]
  exact ⟨trivial, fun _ _ => trivial, trivial, trivial, Vault.lookup_drop_self _ _⟩

/-- With a collection go its items. -/
theorem Sound.lookup_item_of_deleteCollection (hsound : broker.Sound vault) {id itemId : Uuid} {item : ItemMetadata}
    (hitem : broker.itemKind.stored vault itemId = some item) (hcollection : item.collectionId = id)
    (h : (broker.respond ⟨.deleteCollection id, fates⟩ vault).outcome = .returned (.ok body)) :
    (broker.respond ⟨.deleteCollection id, fates⟩ vault).state.lookup (.itemMetadata itemId) = none := by
  have hshrinks : vault.ShrinksAt (fun _ => True) (broker.respond ⟨.deleteCollection id, fates⟩ vault).state := by
    refine respond_shrinksAt ?_ vault
    exact fun _ hwrites => hwrites.elim
  refine (hshrinks (.itemMetadata itemId) trivial).resolve_left fun hsame => ?_
  -- an item that is still there refers to a collection that is still there
  obtain ⟨blob, hblob, hload⟩ := RecordKind.stored_eq_some.mp hitem
  obtain ⟨found, hfound, -, collection, hstored⟩ := (hsound.respond _).items itemId blob (hsame.trans hblob)
  cases hload.symm.trans hfound
  rw [hcollection, stored_of_lookup_none (lookup_of_deleteCollection h)] at hstored
  cases hstored

theorem lookup_of_createCollection {collection : CollectionMetadata}
    (h : (broker.respond ⟨.createCollection collection, fates⟩ vault).outcome = .returned (.ok body)) :
    vault.lookup (.collection collection.id) = none ∧ body = .collection collection := by
  refine of_respond_ok
    (fun body _ => vault.lookup (.collection collection.id) = none ∧ body = .collection collection) h ?_
  simp only [perform, createCollection, wp_bind, wp_ofExcept, wp_readCredential]
  refine ⟨trivial, either_intro (fun _ _ => ⟨trivial, fun _ _ => trivial, ?_⟩) fun _ _ => trivial⟩
  split_ifs with hstored
  · exact ⟨trivial, trivial⟩
  · rw [wp_bind]
    exact wp_of_forall fun _ _ => ⟨trivial, Option.not_isSome_iff_eq_none.mp hstored, rfl⟩

theorem wp_deleteReplacedItem_lookup (id : Uuid) (entries : List Entry) (vault : Vault) :
    wp broker.backend.serve (fun _ => True) (deleteReplacedItem id entries)
      (fun _ rest => vault.Shrinks rest ∧ rest.lookup (.itemMetadata id) = none) (fun _ rest => vault.Shrinks rest)
      (fun _ => True) vault := by
  simp only [deleteReplacedItem, wp_bind, wp_deleteCredential]
  refine ⟨trivial, fun _ _ => .refl vault, trivial, ?_⟩
  refine wp_forM (fun _ rest => vault.Shrinks rest ∧ rest.lookup (.itemMetadata id) = none) ?_
    (fun _ h => ⟨trivial, h⟩) ⟨(Vault.Shrinks.refl vault).drop _, Vault.lookup_drop_self _ _⟩
  rintro target _ _ rest ⟨hshrinks, hnone⟩
  exact wp_cleanUp trivial ⟨hshrinks, hnone⟩
    ⟨trivial, hshrinks.drop _, ((Vault.Shrinks.refl rest).drop _).lookup_eq_none hnone⟩

/-- The items that are reported as deleted are. -/
theorem wp_deleteReplacedItems_lookup (entries : List Entry) (ids : List Uuid) (vault : Vault) :
    wp broker.backend.serve (fun _ => True) (deleteReplacedItems entries ids)
      (fun outcome rest => vault.Shrinks rest ∧ ∀ id ∈ outcome.1, rest.lookup (.itemMetadata id) = none)
      (fun _ _ => True) (fun _ => True) vault := by
  induction ids generalizing vault with
  | nil => exact ⟨trivial, .refl vault, nofun⟩
  | cons id others ih =>
      simp only [deleteReplacedItems, wp_bind, wp_attempt]
      refine wp_mono (fun _ middle hmiddle => ?_) (fun _ middle hmiddle => ?_) (fun _ h => h)
        (wp_deleteReplacedItem_lookup id entries vault)
      · refine wp_mono (fun outcome rest hrest => ⟨trivial, hmiddle.1.trans hrest.1, ?_⟩) (fun _ _ h => h)
          (fun _ h => h) (ih middle)
        exact List.forall_mem_cons.mpr ⟨hrest.1.lookup_eq_none hmiddle.2, hrest.2⟩
      · exact wp_mono (fun outcome rest hrest => ⟨trivial, hmiddle.trans hrest.1, hrest.2⟩) (fun _ _ h => h)
          (fun _ h => h) (ih middle)

theorem lookup_of_createOrReplaceItem {item created : ItemMetadata} {secret : SecretBytes} {replace : Bool}
    {replaced failed : List Uuid}
    (h : (broker.respond ⟨.createOrReplaceItem item secret replace, fates⟩ vault).outcome =
      .returned (.ok (.replacedItem created replaced failed))) :
    created = item ∧ ∀ id ∈ replaced,
      (broker.respond ⟨.createOrReplaceItem item secret replace, fates⟩ vault).state.lookup
        (.itemMetadata id) = none := by
  refine of_respond_ok (fun body rest => ∀ created replaced failed, body = .replacedItem created replaced failed →
    created = item ∧ ∀ id ∈ replaced, rest.lookup (.itemMetadata id) = none) h ?_ created replaced failed rfl
  simp only [perform, createOrReplaceItem, wp_bind]
  refine wp_of_forall fun _ _ => wp_of_forall fun _ _ => wp_of_forall fun stored _ => ?_
  split_ifs
  · exact ⟨trivial, trivial⟩
  · simp only [wp_bind]
    refine wp_of_forall fun ids _ => wp_of_forall fun _ rest => ?_
    simp only [wp_entries, wp_pure]
    refine ⟨trivial, fun _ _ => trivial, wp_mono (fun outcome rest hrest => ⟨trivial, ?_⟩) (fun _ _ h => h)
      (fun _ h => h) (wp_deleteReplacedItems_lookup _ ids rest)⟩
    rintro _ _ _ ⟨⟩
    exact ⟨rfl, hrest.2⟩

theorem respond_read_state (request : ReadOperation) :
    (broker.respond ⟨request.toOperation, fates⟩ vault).state = vault := by
  have hcalls : Calls VaultCall.IsReading (broker.perform request.toOperation) := by
    cases request with
    | listCollections => exact calls_listCollections
    | getCollection id => exact calls_bind (calls_getCollection id) fun _ => calls_pure _
    | listAliases => exact calls_listAliases
    | resolveAlias name => exact calls_resolveAlias name
    | searchItems attributes => exact calls_searchItems attributes
    | listItems id => exact calls_listItems id
    | getItem id includeSecret => exact calls_getItem id includeSecret
  exact respond_state_of_reading hcalls fates

theorem eq_of_listCollections (h : (broker.respond ⟨.listCollections, fates⟩ vault).outcome = .returned (.ok body)) :
    body = .collections (broker.collectionsOf vault) := by
  refine of_respond_ok (fun body _ => body = .collections (broker.collectionsOf vault)) h ?_
  simp only [perform, listCollections, wp_bind, wp_entries, wp_pure]
  exact ⟨trivial, fun _ _ => trivial, trivial, rfl⟩

theorem eq_of_listItems {id : Uuid} (h : (broker.respond ⟨.listItems id, fates⟩ vault).outcome = .returned (.ok body)) :
    body = .items ((broker.itemsOf vault).filter fun item => item.collectionId = id) := by
  refine of_respond_ok (fun body _ => body = .items ((broker.itemsOf vault).filter fun item => item.collectionId = id))
    h ?_
  simp only [perform, listItems, wp_bind, wp_getCollection, wp_validItems, wp_pure]
  refine ⟨trivial, fun _ _ => trivial, either_intro (fun _ _ => ?_) fun _ _ => trivial⟩
  exact ⟨trivial, fun _ _ => trivial, trivial, rfl⟩

theorem collection_of_resolveAlias {name : String} {record : AliasMetadata}
    (h : (broker.respond ⟨.resolveAlias name, fates⟩ vault).outcome = .returned (.ok (.alias (some record)))) :
    ∃ collection, broker.collectionKind.stored vault record.collectionId = some collection := by
  refine of_respond_ok (fun body _ => ∀ record, body = .alias (some record) →
    ∃ collection, broker.collectionKind.stored vault record.collectionId = some collection) h ?_ record rfl
  simp only [perform, resolveAlias, wp_bind, wp_ofExcept, wp_readCredential]
  refine ⟨trivial, either_intro (fun _ _ => ⟨trivial, fun _ _ => trivial, ?_⟩) fun _ _ => trivial⟩
  cases vault.lookup (.alias name) with
  | none => exact ⟨trivial, by simp⟩
  | some blob =>
      simp only [wp_bind, wp_ofExcept, wp_attempt, wp_getCollection]
      refine ⟨trivial, either_intro (fun found _ => ?_) fun _ _ => trivial⟩
      refine ⟨trivial, fun _ _ => ⟨trivial, trivial⟩, either_intro (fun collection hcollection => ?_)
        fun _ _ => ⟨trivial, trivial⟩⟩
      refine ⟨trivial, ?_⟩
      rintro _ ⟨⟩
      exact ⟨collection, collectionAt_eq_ok.mp hcollection⟩

end Broker

end WincredLibsecret
