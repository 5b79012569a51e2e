import WincredLibsecret.BrokerRuns

/-! What readers can see of a vault. The abstract vault holds collections, aliases and items, each item
together with its secret; a reader's answers are functions of it alone. Every change the broker makes
to a single credential of a sound vault changes the abstract one by at most one record. -/

namespace WincredLibsecret

open Effect Effect.Action KeyedRecords

/-- A vault as its readers see it. -/
@[ext] structure VisibleVault where
  collections : BTreeMap Uuid CollectionMetadata
  aliases : BTreeMap String AliasMetadata
  items : BTreeMap Uuid (ItemMetadata × SecretBytes)
  deriving DecidableEq

/-- The requests that only read. -/
inductive ReadOperation where
  | listCollections
  | getCollection (collectionId : Uuid)
  | listAliases
  | resolveAlias (name : String)
  | searchItems (attributes : BTreeMap String String)
  | listItems (collectionId : Uuid)
  | getItem (itemId : Uuid) (includeSecret : Bool)

def ReadOperation.toOperation : ReadOperation → Operation
  | .listCollections => .listCollections
  | .getCollection collectionId => .getCollection collectionId
  | .listAliases => .listAliases
  | .resolveAlias name => .resolveAlias name
  | .searchItems attributes => .searchItems attributes
  | .listItems collectionId => .listItems collectionId
  | .getItem itemId includeSecret => .getItem itemId includeSecret

namespace VisibleVault

/-- The visible records of a map in the order of their keys. -/
def listed {κ ν α : Type} [Ord κ] [Std.TransOrd κ] (record : ν → α) (map : BTreeMap κ ν) : List α :=
  map.toList.map fun entry => record entry.2

/-- What a reader is answered. -/
def answer (visible : VisibleVault) : ReadOperation → Except BrokerError ResponseBody
  | .listCollections => .ok (.collections (listed id visible.collections))
  | .getCollection collectionId =>
      match visible.collections[collectionId]? with
      | some collection => .ok (.collection collection)
      | none => .error (notFound "collection does not exist")
  | .listAliases => .ok (.aliases (listed id visible.aliases))
  | .resolveAlias name => do
      checkAliasName name
      .ok (.alias visible.aliases[name]?)
  | .searchItems attributes => do
      (validateAttributes attributes).mapError invalidRequest
      .ok (.items ((listed Prod.fst visible.items).filter (Broker.matchesAttributes attributes)))
  | .listItems collectionId =>
      match visible.collections[collectionId]? with
      | some _ => .ok (.items ((listed Prod.fst visible.items).filter fun item => item.collectionId = collectionId))
      | none => .error (notFound "collection does not exist")
  | .getItem itemId includeSecret =>
      match visible.items[itemId]? with
      | some (item, secret) => .ok (.item item (if includeSecret then some secret else none))
      | none => .error (notFound "item does not exist")

end VisibleVault

namespace Broker

variable (broker : Broker)

/-- The answers of a vault to all readers. -/
def view (vault : Vault) : ReadOperation → Except BrokerError ResponseBody := fun request =>
  (Action.answer broker.backend.serve (broker.execute request.toOperation) vault).1

/-- The secret stored for a generation. -/
def secretAt (vault : Vault) (itemId generation : Uuid) : Option SecretBytes :=
  (loadSecret (vault.lookup (.itemSecret itemId generation))).toOption

/-- The readable items of a vault with their secrets. -/
def itemsWithSecrets (vault : Vault) : List (ItemMetadata × SecretBytes) :=
  ((broker.entriesOf vault).filterMap broker.itemOf).filterMap fun item =>
    (secretAt vault item.id item.currentGeneration).map fun secret => (item, secret)

/-- The aliases of a vault whose collection can be read. -/
def resolvedAliases (vault : Vault) : List AliasMetadata :=
  ((broker.entriesOf vault).filterMap broker.aliasOf).filter fun record =>
    (broker.collectionKind.stored vault record.collectionId).isSome

/-- The readable collections and aliases in the order of a listing. -/
def collectionsOf (vault : Vault) : List CollectionMetadata :=
  sortByKey CollectionMetadata.id ((broker.entriesOf vault).filterMap broker.collectionOf)

def aliasesOf (vault : Vault) : List AliasMetadata := sortByKey AliasMetadata.name (broker.resolvedAliases vault)

def visible (vault : Vault) : VisibleVault where
  collections := index CollectionMetadata.id ((broker.entriesOf vault).filterMap broker.collectionOf)
  aliases := index AliasMetadata.name (broker.resolvedAliases vault)
  items := index (fun entry => entry.1.id) (broker.itemsWithSecrets vault)

variable {broker} {vault : Vault}

theorem visible_collections (id : Uuid) :
    (broker.visible vault).collections[id]? = broker.collectionKind.stored vault id := by
  ext collection
  have hkeys : (((broker.entriesOf vault).filterMap broker.collectionOf).map CollectionMetadata.id).Nodup :=
    collectionOf_reads.nodup_keys
  rw [visible, index_getElem? hkeys, collectionOf_reads.mem_filterMap]
  constructor
  · rintro ⟨hstored, rfl⟩
    exact hstored
  · intro hstored
    obtain rfl : collection.id = id := RecordKind.key_of_stored hstored
    exact ⟨hstored, rfl⟩

theorem visible_aliases {name : String} {record : AliasMetadata} :
    (broker.visible vault).aliases[name]? = some record ↔
      broker.aliasKind.stored vault name = some record ∧
        (broker.collectionKind.stored vault record.collectionId).isSome := by
  have hkeys : ((broker.resolvedAliases vault).map AliasMetadata.name).Nodup :=
    List.Nodup.sublist (List.filter_sublist.map _) aliasOf_reads.nodup_keys
  rw [visible, index_getElem? hkeys, resolvedAliases, List.mem_filter, aliasOf_reads.mem_filterMap]
  constructor
  · rintro ⟨⟨hstored, hcollection⟩, rfl⟩
    exact ⟨hstored, hcollection⟩
  · rintro ⟨hstored, hcollection⟩
    obtain rfl : record.name = name := RecordKind.key_of_stored hstored
    exact ⟨⟨hstored, hcollection⟩, rfl⟩

theorem nodup_itemsWithSecrets : ((broker.itemsWithSecrets vault).map fun entry => entry.1.id).Nodup := by
  have hkeys : (((broker.entriesOf vault).filterMap broker.itemOf).map ItemMetadata.id).Nodup :=
    itemOf_reads.nodup_keys
  rw [List.Nodup, List.pairwise_map] at hkeys ⊢
  refine hkeys.filterMap _ fun left right hne leftEntry hleft rightEntry hright heq => hne ?_
  obtain ⟨leftSecret, -, rfl⟩ := Option.map_eq_some_iff.mp hleft
  obtain ⟨rightSecret, -, rfl⟩ := Option.map_eq_some_iff.mp hright
  exact heq

theorem secretAt_eq_some {itemId generation : Uuid} {secret : SecretBytes} :
    secretAt vault itemId generation = some secret ↔
      vault.lookup (.itemSecret itemId generation) = some secret.bytes := by
  rw [secretAt, toOption_eq_some]
  cases vault.lookup (.itemSecret itemId generation) with
  | none => simp [loadSecret]
  | some blob => rw [loadSecret, mapError_eq_ok, SecretBytes.new_eq_ok, Option.some.injEq]

theorem visible_items {id : Uuid} {item : ItemMetadata} {secret : SecretBytes} :
    (broker.visible vault).items[id]? = some (item, secret) ↔
      broker.itemKind.stored vault id = some item ∧
        vault.lookup (.itemSecret id item.currentGeneration) = some secret.bytes := by
  rw [visible, index_getElem? nodup_itemsWithSecrets, itemsWithSecrets]
  simp only [List.mem_filterMap (f := fun item : ItemMetadata => _), itemOf_reads.mem_filterMap,
    Option.map_eq_some_iff, Prod.mk.injEq, secretAt_eq_some]
  constructor
  · rintro ⟨⟨found, hfound, stored, hstored, rfl, rfl⟩, rfl⟩
    exact ⟨hfound, hstored⟩
  · rintro ⟨hstored, hsecret⟩
    obtain rfl : item.id = id := RecordKind.key_of_stored hstored
    exact ⟨⟨item, hstored, secret, hsecret, rfl, rfl⟩, rfl⟩

namespace Sound

variable (hsound : broker.Sound vault)

include hsound

theorem visible_aliases_eq (name : String) :
    (broker.visible vault).aliases[name]? = broker.aliasKind.stored vault name := by
  ext record
  rw [visible_aliases]
  refine and_iff_left_of_imp fun hstored => ?_
  obtain ⟨blob, hblob, hload⟩ := RecordKind.stored_eq_some.mp hstored
  obtain ⟨found, hfound, collection, hcollection⟩ := hsound.aliases name blob hblob
  cases hload.symm.trans hfound
  rw [hcollection]
  rfl

theorem exists_visible_items {id : Uuid} {item : ItemMetadata} :
    (∃ secret, (broker.visible vault).items[id]? = some (item, secret)) ↔
      broker.itemKind.stored vault id = some item := by
  constructor
  · rintro ⟨secret, hsecret⟩
    exact (visible_items.mp hsecret).1
  · intro hstored
    obtain ⟨secret, hsecret⟩ := hsound.secret_of_stored hstored
    exact ⟨secret, visible_items.mpr ⟨hstored, hsecret⟩⟩

theorem collectionAt_eq (id : Uuid) :
    broker.collectionAt vault id =
      match (broker.visible vault).collections[id]? with
      | some collection => .ok collection
      | none => .error (notFound "collection does not exist") := by
  rw [visible_collections, collectionAt]
  cases hblob : vault.lookup (.collection id) with
  | none =>
      rw [stored_of_lookup_none hblob]
      rfl
  | some blob =>
      obtain ⟨collection, hload⟩ := hsound.collections id blob hblob
      rw [RecordKind.stored_eq_some.mpr ⟨blob, hblob, hload⟩, RecordKind.require, hload]

theorem itemAt_eq (id : Uuid) :
    broker.itemAt vault id =
      match (broker.visible vault).items[id]? with
      | some entry => .ok entry.1
      | none => .error (notFound "item does not exist") := by
  cases hitem : (broker.visible vault).items[id]? with
  | some entry => exact itemAt_eq_ok.mpr (visible_items.mp hitem).1
  | none =>
      cases h : broker.itemAt vault id with
      | error error => rw [hsound.itemAt_error h]
      | ok item =>
          obtain ⟨secret, hsecret⟩ := hsound.exists_visible_items.mpr (itemAt_eq_ok.mp h)
          cases hitem.symm.trans hsecret

theorem itemsOf_eq : broker.itemsOf vault = VisibleVault.listed Prod.fst (broker.visible vault).items := by
  refine sortByKey_eq itemOf_reads.nodup_keys fun id item => ?_
  rw [itemOf_reads.mem_filterMap]
  constructor
  · rintro ⟨⟨found, secret⟩, hfound, rfl⟩
    have hstored := (visible_items.mp hfound).1
    have hid := RecordKind.key_of_stored hstored
    exact ⟨hid ▸ hstored, hid⟩
  · rintro ⟨hstored, rfl⟩
    obtain ⟨secret, hsecret⟩ := hsound.exists_visible_items.mpr hstored
    exact ⟨(item, secret), hsecret, rfl⟩

end Sound

theorem aliases_eq :
    sortByKey AliasMetadata.name (broker.resolvedAliases vault) =
      VisibleVault.listed id (broker.visible vault).aliases := by
  have hkeys : ((broker.resolvedAliases vault).map AliasMetadata.name).Nodup :=
    List.Nodup.sublist (List.filter_sublist.map _) aliasOf_reads.nodup_keys
  refine sortByKey_eq hkeys fun name record => ?_
  simp only [id_eq, exists_eq_right, visible, index_getElem? hkeys]

theorem collections_eq :
    sortByKey CollectionMetadata.id ((broker.entriesOf vault).filterMap broker.collectionOf) =
      VisibleVault.listed id (broker.visible vault).collections := by
  have hkeys : (((broker.entriesOf vault).filterMap broker.collectionOf).map CollectionMetadata.id).Nodup :=
    collectionOf_reads.nodup_keys
  refine sortByKey_eq hkeys fun id collection => ?_
  simp only [id_eq, exists_eq_right, visible, index_getElem? hkeys]

/-- Without failures the aliases collected are those whose collection can be read. -/
theorem wp_collectAliases {ok : List AliasMetadata → Vault → Prop} {err : BrokerError → Vault → Prop}
    {crash : Vault → Prop} (entries : List Entry) (hcrash : crash vault)
    (hok : ok ((entries.filterMap broker.aliasOf).filter fun record =>
      (broker.collectionKind.stored vault record.collectionId).isSome) vault) :
    Action.wp broker.backend.serve (fun _ => False) (broker.collectAliases entries) ok err crash vault := by
  induction entries generalizing ok with
  | nil => exact ⟨hcrash, hok⟩
  | cons entry rest ih =>
      rw [collectAliases]
      cases hrecord : broker.aliasOf entry with
      | none =>
          rw [List.filterMap_cons_none hrecord] at hok
          exact ih hok
      | some record =>
          rw [List.filterMap_cons_some hrecord] at hok
          simp only [wp_bind, wp_attempt, wp_getCollection]
          refine ⟨hcrash, fun _ h => h.elim, either_intro (fun collection hcollection => ih ?_)
            fun error herror => ih ?_⟩
          · rw [collectionAt_eq_ok] at hcollection
            rw [List.filter_cons_of_pos (by rw [hcollection]; rfl)] at hok
            exact ⟨hcrash, hok⟩
          · have hnone : broker.collectionKind.stored vault record.collectionId = none := by
              rw [Option.eq_none_iff_forall_ne_some]
              intro collection hcollection
              rw [collectionAt_eq_ok.mpr hcollection] at herror
              cases herror
            rw [List.filter_cons_of_neg (by rw [hnone]; simp)] at hok
            exact ⟨hcrash, hok⟩

theorem view_eq_of_wp {request : ReadOperation} {result : Except BrokerError ResponseBody}
    (hwp : Action.wp broker.backend.serve (fun _ => False) (broker.perform request.toOperation)
      (fun body _ => result = .ok body) (fun error _ => result = .error error) (fun _ => True) vault) :
    broker.view vault request = result := by
  refine answer_eq_of_wp ?_
  simp only [Broker.execute, wp_bind, wp_acquireLock]
  exact ⟨trivial, fun _ h => h.elim, hwp⟩

theorem view_getItem (broker : Broker) (vault : Vault) (itemId : Uuid) (includeSecret : Bool) :
    broker.view vault (.getItem itemId includeSecret) = (do
      let item ← broker.itemAt vault itemId
      if includeSecret then do
        let secret ← loadSecret (vault.lookup (.itemSecret itemId item.currentGeneration))
        .ok (.item item (some secret))
      else .ok (.item item none)) := by
  refine view_eq_of_wp ?_
  simp only [ReadOperation.toOperation, perform, getItem, wp_bind, wp_getItemMetadata]
  refine ⟨trivial, fun _ h => h.elim, ?_⟩
  refine either_intro (fun item hitem => ?_) fun error herror => by rw [herror]; rfl
  rw [hitem]
  cases includeSecret with
  | false => exact ⟨trivial, rfl⟩
  | true =>
      simp only [if_true, wp_bind, wp_readCredential, wp_ofExcept, wp_pure]
      refine ⟨trivial, fun _ h => h.elim, trivial, ?_⟩
      exact either_intro (fun secret hsecret => ⟨trivial, by simp only [bind, Except.bind, hsecret]⟩)
        fun error herror => by simp only [bind, Except.bind, herror]

theorem view_searchItems (broker : Broker) (vault : Vault) (attributes : BTreeMap String String) :
    broker.view vault (.searchItems attributes) = (do
      (validateAttributes attributes).mapError invalidRequest
      .ok (.items ((broker.itemsOf vault).filter (matchesAttributes attributes)))) := by
  refine view_eq_of_wp ?_
  simp only [ReadOperation.toOperation, perform, searchItems, wp_bind, wp_ofExcept, wp_validItems,
    wp_pure]
  refine ⟨trivial, either_intro (fun _ hvalid => ?_) fun error herror => ?_⟩
  · rw [hvalid]
    exact ⟨trivial, fun _ h => h.elim, trivial, rfl⟩
  · rw [herror]
    rfl

theorem view_listCollections (broker : Broker) (vault : Vault) :
    broker.view vault .listCollections = .ok (.collections (broker.collectionsOf vault)) := by
  refine view_eq_of_wp ?_
  simp only [ReadOperation.toOperation, perform, listCollections, wp_bind, wp_entries, wp_pure]
  exact ⟨trivial, fun _ h => h.elim, trivial, rfl⟩

theorem view_getCollection (broker : Broker) (vault : Vault) (collectionId : Uuid) :
    broker.view vault (.getCollection collectionId) = (do
      let collection ← broker.collectionAt vault collectionId
      .ok (.collection collection)) := by
  refine view_eq_of_wp ?_
  simp only [ReadOperation.toOperation, perform, wp_bind, wp_getCollection, wp_pure]
  refine ⟨trivial, fun _ h => h.elim, ?_⟩
  cases broker.collectionAt vault collectionId with
  | error error => rfl
  | ok collection => exact ⟨trivial, rfl⟩

theorem view_listAliases (broker : Broker) (vault : Vault) :
    broker.view vault .listAliases = .ok (.aliases (broker.aliasesOf vault)) := by
  refine view_eq_of_wp ?_
  simp only [ReadOperation.toOperation, perform, listAliases, wp_bind, wp_entries, wp_pure]
  exact ⟨trivial, fun _ h => h.elim, wp_collectAliases _ trivial ⟨trivial, rfl⟩⟩

theorem view_resolveAlias (broker : Broker) (vault : Vault) (name : String) :
    broker.view vault (.resolveAlias name) = (do
      checkAliasName name
      match vault.lookup (.alias name) with
      | none => .ok (.alias none)
      | some blob => do
          let record ← broker.aliasKind.load name blob
          match broker.collectionAt vault record.collectionId with
          | .error _ => .error (corruptState "alias references a missing collection")
          | .ok _ => .ok (.alias (some record))) := by
  refine view_eq_of_wp ?_
  simp only [ReadOperation.toOperation, perform, resolveAlias, wp_bind, wp_ofExcept, wp_readCredential]
  refine ⟨trivial, either_intro (fun _ hname => ⟨trivial, fun _ h => h.elim, ?_⟩) fun error herror => ?_⟩
  · rw [hname]
    cases vault.lookup (.alias name) with
    | none => exact ⟨trivial, rfl⟩
    | some blob =>
        simp only [wp_bind, wp_ofExcept, wp_attempt, wp_getCollection]
        refine ⟨trivial, either_intro (fun record hrecord => ⟨trivial, fun _ h => h.elim, ?_⟩)
          fun error herror => ?_⟩
        · cases hcollection : broker.collectionAt vault record.collectionId with
          | error error => exact ⟨trivial, by simp only [bind, Except.bind, hrecord, hcollection]; rfl⟩
          | ok collection => exact ⟨trivial, by simp only [bind, Except.bind, hrecord, hcollection]; rfl⟩
        · simp only [bind, Except.bind, herror]
  · rw [herror]
    rfl

theorem view_listItems (broker : Broker) (vault : Vault) (collectionId : Uuid) :
    broker.view vault (.listItems collectionId) = (do
      let _ ← broker.collectionAt vault collectionId
      .ok (.items ((broker.itemsOf vault).filter fun item => item.collectionId = collectionId))) := by
  refine view_eq_of_wp ?_
  simp only [ReadOperation.toOperation, perform, listItems, wp_bind, wp_getCollection, wp_validItems,
    wp_pure]
  refine ⟨trivial, fun _ h => h.elim, ?_⟩
  cases broker.collectionAt vault collectionId with
  | error error => rfl
  | ok collection => exact ⟨trivial, fun _ h => h.elim, trivial, rfl⟩

/-- The answers of a sound vault are those of its visible part. -/
theorem Sound.view_eq (hsound : broker.Sound vault) : broker.view vault = (broker.visible vault).answer := by
  funext request
  cases request with
  | searchItems attributes =>
      rw [view_searchItems, hsound.itemsOf_eq]
      rfl
  | getItem itemId includeSecret =>
      rw [view_getItem, hsound.itemAt_eq, VisibleVault.answer]
      cases hitem : (broker.visible vault).items[itemId]? with
      | none => rfl
      | some entry =>
          cases includeSecret with
          | false => rfl
          | true =>
              simp only [bind, Except.bind, (visible_items.mp hitem).2, loadSecret, SecretBytes.new_bytes]
              rfl
  | listCollections => rw [view_listCollections, collectionsOf, collections_eq, VisibleVault.answer]
  | getCollection collectionId =>
      rw [view_getCollection, hsound.collectionAt_eq, VisibleVault.answer]
      cases (broker.visible vault).collections[collectionId]? <;> rfl
  | listAliases => rw [view_listAliases, aliasesOf, aliases_eq, VisibleVault.answer]
  | resolveAlias name =>
      rw [view_resolveAlias, VisibleVault.answer, hsound.visible_aliases_eq]
      refine bind_congr fun _ => ?_
      cases hblob : vault.lookup (.alias name) with
      | none => rw [stored_of_lookup_none hblob]
      | some blob =>
          obtain ⟨record, hload, collection, hcollection⟩ := hsound.aliases name blob hblob
          rw [RecordKind.stored_eq_some.mpr ⟨blob, hblob, hload⟩]
          simp only [bind, Except.bind, hload, collectionAt_eq_ok.mpr hcollection]
  | listItems collectionId =>
      rw [view_listItems, hsound.collectionAt_eq, VisibleVault.answer, ← hsound.itemsOf_eq]
      cases (broker.visible vault).collections[collectionId]? <;> rfl

section Changes

variable {other : Vault}

theorem visible_collections_congr
    (h : ∀ id, other.lookup (.collection id) = vault.lookup (.collection id)) :
    (broker.visible other).collections = (broker.visible vault).collections := by
  apply Std.ExtTreeMap.ext_getElem?
  intro id
  rw [visible_collections, visible_collections]
  exact RecordKind.stored_congr (h id)

theorem visible_aliases_congr
    (h : ∀ name, other.lookup (.alias name) = vault.lookup (.alias name))
    (hcollections : ∀ id, other.lookup (.collection id) = vault.lookup (.collection id)) :
    (broker.visible other).aliases = (broker.visible vault).aliases := by
  apply Std.ExtTreeMap.ext_getElem?
  intro name
  ext record
  have hrecord : broker.aliasKind.stored other name = broker.aliasKind.stored vault name :=
    RecordKind.stored_congr (h name)
  have hcollection : broker.collectionKind.stored other record.collectionId =
      broker.collectionKind.stored vault record.collectionId :=
    RecordKind.stored_congr (hcollections record.collectionId)
  rw [visible_aliases, visible_aliases, hrecord, hcollection]

theorem visible_items_congr
    (h : ∀ id, other.lookup (.itemMetadata id) = vault.lookup (.itemMetadata id))
    (hsecrets : ∀ id item, broker.itemKind.stored vault id = some item →
      other.lookup (.itemSecret id item.currentGeneration) = vault.lookup (.itemSecret id item.currentGeneration)) :
    (broker.visible other).items = (broker.visible vault).items := by
  apply Std.ExtTreeMap.ext_getElem?
  intro id
  ext ⟨item, secret⟩
  rw [visible_items, visible_items, RecordKind.stored_congr (h id)]
  exact and_congr_right fun hitem => by rw [hsecrets id item hitem]

/-- A secret that no metadata commits is not seen. -/
theorem visible_put_secret {itemId generation : Uuid} {blob : Blob}
    (hfree : broker.Uncommitted vault itemId generation) :
    broker.visible (vault.put (.itemSecret itemId generation) blob) = broker.visible vault := by
  refine VisibleVault.ext (visible_collections_congr fun _ => Vault.lookup_put_of_ne nofun)
    (visible_aliases_congr (fun _ => Vault.lookup_put_of_ne nofun) fun _ => Vault.lookup_put_of_ne nofun)
    (visible_items_congr (fun _ => Vault.lookup_put_of_ne nofun) fun id item hitem => Vault.lookup_put_of_ne ?_)
  rintro ⟨rfl, rfl⟩
  exact hfree item hitem rfl

theorem visible_drop_secret {itemId generation : Uuid} (hfree : broker.Uncommitted vault itemId generation) :
    broker.visible (vault.drop (.itemSecret itemId generation)) = broker.visible vault := by
  refine VisibleVault.ext (visible_collections_congr fun _ => Vault.lookup_drop_of_ne nofun)
    (visible_aliases_congr (fun _ => Vault.lookup_drop_of_ne nofun) fun _ => Vault.lookup_drop_of_ne nofun)
    (visible_items_congr (fun _ => Vault.lookup_drop_of_ne nofun) fun id item hitem => Vault.lookup_drop_of_ne ?_)
  rintro ⟨rfl, rfl⟩
  exact hfree item hitem rfl

theorem Sound.visible_put_collection (hsound : broker.Sound vault) {id : Uuid} {blob : Blob}
    {collection : CollectionMetadata} (hload : broker.collectionKind.load id blob = .ok collection) :
    broker.visible (vault.put (.collection id) blob) =
      { broker.visible vault with collections := (broker.visible vault).collections.insert id collection } := by
  refine VisibleVault.ext ?_ ?_ (visible_items_congr (fun _ => ?_) fun _ _ _ => ?_)
  · apply Std.ExtTreeMap.ext_getElem?
    intro found
    rw [visible_collections, Std.ExtTreeMap.getElem?_insert, visible_collections]
    by_cases h : id = found
    · subst h
      rw [if_pos (by simp)]
      exact RecordKind.stored_put_self hload
    · have hne : ¬ compare id found = .eq := fun heq => h (Std.LawfulEqOrd.eq_of_compare heq)
      rw [if_neg hne]
      exact RecordKind.stored_put_of_ne (by simpa [collectionKind] using h)
  · apply Std.ExtTreeMap.ext_getElem?
    intro name
    rw [(hsound.put_collection hload).visible_aliases_eq, hsound.visible_aliases_eq]
    exact RecordKind.stored_put_of_ne (by simp [aliasKind])
  · exact Vault.lookup_put_of_ne (by simp)
  · exact Vault.lookup_put_of_ne (by simp)

theorem visible_put_alias {name : String} {blob : Blob} {record : AliasMetadata}
    (hload : broker.aliasKind.load name blob = .ok record)
    (hcollection : ∃ collection, broker.collectionKind.stored vault record.collectionId = some collection) :
    broker.visible (vault.put (.alias name) blob) =
      { broker.visible vault with aliases := (broker.visible vault).aliases.insert name record } := by
  refine VisibleVault.ext (visible_collections_congr fun _ => Vault.lookup_put_of_ne nofun) ?_
    (visible_items_congr (fun _ => Vault.lookup_put_of_ne nofun) fun _ _ _ => Vault.lookup_put_of_ne nofun)
  have hkeeps : ∀ id, broker.collectionKind.stored (vault.put (.alias name) blob) id =
      broker.collectionKind.stored vault id := fun id => RecordKind.stored_put_of_ne (by simp [collectionKind])
  apply Std.ExtTreeMap.ext_getElem?
  intro found
  ext other
  rw [visible_aliases, hkeeps, Std.ExtTreeMap.getElem?_insert]
  by_cases h : name = found
  · subst h
    obtain ⟨collection, hstored⟩ := hcollection
    rw [show broker.aliasKind.stored (vault.put (.alias name) blob) name = some record from
      RecordKind.stored_put_self hload, if_pos (by simp)]
    refine and_iff_left_of_imp fun hother => ?_
    cases hother
    rw [hstored]
    rfl
  · have hne : ¬ compare name found = .eq := fun heq => h (Std.LawfulEqOrd.eq_of_compare heq)
    rw [if_neg hne, visible_aliases, RecordKind.stored_put_of_ne (by simpa [aliasKind] using h)]

theorem visible_drop_alias (name : String) :
    broker.visible (vault.drop (.alias name)) =
      { broker.visible vault with aliases := (broker.visible vault).aliases.erase name } := by
  refine VisibleVault.ext (visible_collections_congr fun _ => Vault.lookup_drop_of_ne nofun) ?_
    (visible_items_congr (fun _ => Vault.lookup_drop_of_ne nofun) fun _ _ _ => Vault.lookup_drop_of_ne nofun)
  have hkeeps : ∀ id, broker.collectionKind.stored (vault.drop (.alias name)) id =
      broker.collectionKind.stored vault id := fun id => RecordKind.stored_drop_of_ne (by simp [collectionKind])
  apply Std.ExtTreeMap.ext_getElem?
  intro found
  ext other
  rw [visible_aliases, hkeeps, Std.ExtTreeMap.getElem?_erase]
  by_cases h : name = found
  · subst h
    rw [show broker.aliasKind.stored (vault.drop (.alias name)) name = none from RecordKind.stored_drop_self,
      if_pos (by simp)]
    simp
  · have hne : ¬ compare name found = .eq := fun heq => h (Std.LawfulEqOrd.eq_of_compare heq)
    rw [if_neg hne, visible_aliases, RecordKind.stored_drop_of_ne (by simpa [aliasKind] using h)]

theorem visible_put_item {id : Uuid} {blob : Blob} {item : ItemMetadata} {secret : SecretBytes}
    (hload : broker.itemKind.load id blob = .ok item)
    (hsecret : vault.lookup (.itemSecret id item.currentGeneration) = some secret.bytes) :
    broker.visible (vault.put (.itemMetadata id) blob) =
      { broker.visible vault with items := (broker.visible vault).items.insert id (item, secret) } := by
  refine VisibleVault.ext (visible_collections_congr fun _ => Vault.lookup_put_of_ne nofun)
    (visible_aliases_congr (fun _ => Vault.lookup_put_of_ne nofun) fun _ => Vault.lookup_put_of_ne nofun) ?_
  apply Std.ExtTreeMap.ext_getElem?
  intro found
  ext ⟨other, stored⟩
  rw [visible_items, Vault.lookup_put_of_ne (by simp), Std.ExtTreeMap.getElem?_insert]
  by_cases h : id = found
  · subst h
    rw [show broker.itemKind.stored (vault.put (.itemMetadata id) blob) id = some item from
      RecordKind.stored_put_self hload, if_pos (by simp)]
    simp only [Option.some.injEq, Prod.mk.injEq]
    refine and_congr_right fun hother => ?_
    subst hother
    rw [hsecret, Option.some.injEq]
    exact ⟨fun hbytes => SecretBytes.ext hbytes, fun hsame => hsame ▸ rfl⟩
  · have hne : ¬ compare id found = .eq := fun heq => h (Std.LawfulEqOrd.eq_of_compare heq)
    rw [if_neg hne, visible_items, RecordKind.stored_put_of_ne (by simpa [itemKind] using h)]

end Changes

end Broker

end WincredLibsecret
