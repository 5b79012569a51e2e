import WincredLibsecret.BrokerView

/-! Listings and single reads. A listing enumerates the credentials, parses their names and decodes what it
finds; a single read prints a name and decodes what is stored under it. Over any content of the vault,
readable or not, both accept the same records. -/

namespace WincredLibsecret

open KeyedRecords

namespace Broker

variable {broker : Broker} {vault : Vault}

theorem mem_collectionsOf {collection : CollectionMetadata} :
    collection ∈ broker.collectionsOf vault ↔ broker.collectionKind.stored vault collection.id = some collection :=
  mem_sortByKey.trans collectionOf_reads.mem_filterMap

theorem mem_aliasesOf {record : AliasMetadata} :
    record ∈ broker.aliasesOf vault ↔ broker.aliasKind.stored vault record.name = some record ∧
      (broker.collectionKind.stored vault record.collectionId).isSome := by
  rw [aliasesOf, mem_sortByKey, resolvedAliases, List.mem_filter, aliasOf_reads.mem_filterMap]
  rfl

theorem strict_itemsOf : (broker.itemsOf vault).Pairwise fun left right => compare left.id right.id = .lt :=
  strict_sortByKey itemOf_reads.nodup_keys

theorem strict_collectionsOf :
    (broker.collectionsOf vault).Pairwise fun left right => compare left.id right.id = .lt :=
  strict_sortByKey collectionOf_reads.nodup_keys

theorem strict_aliasesOf : (broker.aliasesOf vault).Pairwise fun left right => compare left.name right.name = .lt :=
  strict_sortByKey (List.Nodup.sublist (List.filter_sublist.map _) aliasOf_reads.nodup_keys)

theorem view_getItem_eq_ok {item : ItemMetadata} :
    broker.view vault (.getItem item.id false) = .ok (.item item none) ↔
      broker.itemKind.stored vault item.id = some item := by
  rw [view_getItem, ← itemAt_eq_ok]
  cases broker.itemAt vault item.id <;> simp [bind, Except.bind]

theorem view_getCollection_eq_ok {collection : CollectionMetadata} :
    broker.view vault (.getCollection collection.id) = .ok (.collection collection) ↔
      broker.collectionKind.stored vault collection.id = some collection := by
  rw [view_getCollection, ← collectionAt_eq_ok]
  cases broker.collectionAt vault collection.id <;> simp [bind, Except.bind]

theorem view_resolveAlias_eq_ok {record : AliasMetadata} :
    broker.view vault (.resolveAlias record.name) = .ok (.alias (some record)) ↔
      broker.aliasKind.stored vault record.name = some record ∧
        (broker.collectionKind.stored vault record.collectionId).isSome := by
  rw [view_resolveAlias, check_bind_eq_ok, RecordKind.stored_eq_some]
  constructor
  · rintro ⟨-, h⟩
    cases hblob : vault.lookup (.alias record.name) with
    | none => simp [hblob] at h
    | some blob =>
        simp only [hblob] at h
        obtain ⟨found, hfound, h⟩ := bind_eq_ok.mp h
        cases hcollection : broker.collectionAt vault found.collectionId with
        | error error => simp [hcollection] at h
        | ok collection =>
            simp only [hcollection, Except.ok.injEq, ResponseBody.alias.injEq, Option.some.injEq] at h
            subst h
            exact ⟨⟨blob, hblob, hfound⟩, by rw [collectionAt_eq_ok.mp hcollection]; rfl⟩
  · rintro ⟨⟨blob, hblob, hload⟩, hcollection⟩
    obtain ⟨collection, hcollection⟩ := Option.isSome_iff_exists.mp hcollection
    have hvalid := RecordKind.check_of_stored (RecordKind.stored_eq_some.mpr ⟨blob, hblob, hload⟩)
    refine ⟨checkAliasName_eq_ok.mpr (validateAlias_eq_ok.mp hvalid).2.1, ?_⟩
    rw [show vault.lookup (.alias record.name) = some blob from hblob]
    exact bind_eq_ok.mpr ⟨record, hload, by rw [collectionAt_eq_ok.mpr hcollection]⟩

theorem view_searchItems_empty :
    broker.view vault (.searchItems ∅) = .ok (.items (broker.itemsOf vault)) := by
  have hempty : validateAttributes ∅ = .ok () := validateAttributes_eq_ok.mpr ⟨by simp, by simp⟩
  have hall : ∀ item, matchesAttributes ∅ item = true := fun item => by simp [matchesAttributes]
  rw [view_searchItems, hempty, List.filter_eq_self.mpr fun item _ => hall item]
  rfl

/-- Every listing of items is a part of the listing of all items. -/
theorem sublist_of_view {request : ReadOperation} {listed : List ItemMetadata}
    (h : broker.view vault request = .ok (.items listed)) : listed.Sublist (broker.itemsOf vault) := by
  cases request with
  | searchItems attributes =>
      obtain ⟨-, h⟩ := check_bind_eq_ok.mp ((view_searchItems broker vault attributes).symm.trans h)
      cases h
      exact List.filter_sublist
  | listItems collectionId =>
      obtain ⟨-, -, h⟩ := bind_eq_ok.mp ((view_listItems broker vault collectionId).symm.trans h)
      cases h
      exact List.filter_sublist
  | listCollections => cases (view_listCollections broker vault).symm.trans h
  | listAliases => cases (view_listAliases broker vault).symm.trans h
  | getCollection collectionId =>
      obtain ⟨collection, -, h⟩ := bind_eq_ok.mp ((view_getCollection broker vault collectionId).symm.trans h)
      cases h
  | resolveAlias name =>
      obtain ⟨-, h⟩ := check_bind_eq_ok.mp ((view_resolveAlias broker vault name).symm.trans h)
      split at h
      · cases h
      · obtain ⟨record, -, h⟩ := bind_eq_ok.mp h
        split at h <;> cases h
  | getItem itemId includeSecret =>
      obtain ⟨item, -, h⟩ := bind_eq_ok.mp ((view_getItem broker vault itemId includeSecret).symm.trans h)
      split at h
      · obtain ⟨secret, -, h⟩ := bind_eq_ok.mp h
        cases h
      · cases h

/-- Whatever the vault holds, a listing contains a record if and only if reading it alone returns it, the
listing of a collection is the part of all items that belongs to it, and the keys of every listing increase
strictly. -/
theorem listings_agree_with_reads (broker : Broker) (vault : Vault) :
    ∃ items collections aliases,
      broker.view vault (.searchItems ∅) = .ok (.items items) ∧
      broker.view vault .listCollections = .ok (.collections collections) ∧
      broker.view vault .listAliases = .ok (.aliases aliases) ∧
      (∀ item, item ∈ items ↔ broker.view vault (.getItem item.id false) = .ok (.item item none)) ∧
      (∀ collection, collection ∈ collections ↔
        broker.view vault (.getCollection collection.id) = .ok (.collection collection)) ∧
      (∀ record, record ∈ aliases ↔
        broker.view vault (.resolveAlias record.name) = .ok (.alias (some record))) ∧
      (∀ id, ((∃ body, broker.view vault (.listItems id) = .ok body) ↔
          ∃ body, broker.view vault (.getCollection id) = .ok body) ∧
        ∀ body, broker.view vault (.listItems id) = .ok body →
          body = .items (items.filter fun item => item.collectionId = id)) ∧
      (∀ request listed, broker.view vault request = .ok (.items listed) →
        listed.Pairwise fun left right => compare left.id right.id = .lt) ∧
      (collections.Pairwise fun left right => compare left.id right.id = .lt) ∧
      aliases.Pairwise fun left right => compare left.name right.name = .lt := by
  refine ⟨_, _, _, view_searchItems_empty, broker.view_listCollections vault, broker.view_listAliases vault,
    fun item => mem_itemsOf.trans view_getItem_eq_ok.symm,
    fun collection => mem_collectionsOf.trans view_getCollection_eq_ok.symm,
    fun record => mem_aliasesOf.trans view_resolveAlias_eq_ok.symm, fun id => ?_, ?_,
    strict_collectionsOf, strict_aliasesOf⟩
  · rw [view_listItems, view_getCollection]
    cases broker.collectionAt vault id with
    | error error => simp [bind, Except.bind]
    | ok collection => simp [bind, Except.bind]
  · intro request listed h
    exact strict_itemsOf.sublist (sublist_of_view h)

end Broker

end WincredLibsecret
