import WincredLibsecret.BrokerIdeal
import WincredLibsecret.BrokerListing
import WincredLibsecret.ProviderSecrets

/-! The two searches of the provider. The service hands the attributes to the broker, which checks them and filters all
items. A collection lists its items and filters them in the provider without a check. The two agree because whatever
part of the attributes of a stored item is searched for is itself valid. -/

namespace WincredLibsecret

open Effect

/-- Attributes that are all among valid attributes are valid. -/
theorem validateAttributes_of_subset {part whole : BTreeMap String String}
    (hwhole : validateAttributes whole = .ok ()) (hsubset : part.toList ⊆ whole.toList) :
    validateAttributes part = .ok () := by
  obtain ⟨hsize, hentries⟩ := validateAttributes_eq_ok.mp hwhole
  have hdistinct : part.toList.Nodup :=
    Std.ExtTreeMap.distinct_keys_toList.imp fun hne heq => hne (by simp [heq])
  have hlength := (List.subperm_of_subset hdistinct hsubset).length_le
  rw [Std.ExtTreeMap.length_toList, Std.ExtTreeMap.length_toList] at hlength
  exact validateAttributes_eq_ok.mpr ⟨hlength.trans hsize, fun entry hentry => hentries entry (hsubset hentry)⟩

namespace Broker

variable {broker : Broker} {vault final : Vault} {allowed : CallChoice → Prop} {attributes : BTreeMap String String}
  {collection : Uuid}

variable {item : ItemMetadata}

theorem matchesAttributes_eq_true :
    matchesAttributes attributes item = true ↔ attributes.toList ⊆ item.attributes.toList := by
  simp only [matchesAttributes, List.all_eq_true, beq_iff_eq, List.subset_def, Prod.forall,
    Std.ExtTreeMap.mem_toList_iff_getElem?_eq_some]

/-- A stored item with all the attributes of a search vouches for their validity. -/
theorem validateAttributes_of_matches (hitem : item ∈ broker.itemsOf vault)
    (hmatches : matchesAttributes attributes item = true) : validateAttributes attributes = .ok () := by
  have hvalid : validateItem item = .ok () := RecordKind.check_of_stored (mem_itemsOf.mp hitem)
  exact validateAttributes_of_subset (validateItem_eq_ok.mp hvalid).2.2.2.1 (matchesAttributes_eq_true.mp hmatches)

theorem eq_of_searchItems {fates : Fates BackendError} {body : ResponseBody}
    (h : (broker.respond ⟨.searchItems attributes, fates⟩ vault).outcome = .returned (.ok body)) :
    body = .items ((broker.itemsOf vault).filter (matchesAttributes attributes)) := by
  refine of_respond_ok (fun body _ => body = .items ((broker.itemsOf vault).filter (matchesAttributes attributes))) h ?_
  simp only [perform, searchItems, Action.wp_bind, Action.wp_ofExcept, wp_validItems, Action.wp_pure]
  refine ⟨trivial, Action.either_intro (fun _ _ => ?_) fun _ _ => trivial⟩
  exact ⟨trivial, fun _ _ => trivial, trivial, rfl⟩

/-- What a successful search of the service answers. -/
theorem eq_of_service_search {found : List String × List String}
    (h : Ends broker.answerCall allowed (SecretService.searchItems attributes).run vault (.ok found) final) :
    validateAttributes attributes = .ok () ∧
      found = (((broker.itemsOf vault).filter (matchesAttributes attributes)).map
        fun item => itemPath item.id, []) := by
  obtain ⟨items, middle, hsearch, hend⟩ := Action.ends_bind_ok.mp h
  obtain ⟨_, _, hcheck, hrequest⟩ := Action.ends_bind_ok.mp (Action.ends_mapError_ok.mp hsearch)
  obtain ⟨hvalid, rfl⟩ := ends_check.mp hcheck
  obtain ⟨body, _, hbody, hmatch⟩ := Action.ends_bind_ok.mp hrequest
  obtain ⟨choice, -, houtcome, -⟩ := ends_response.mp hbody
  obtain rfl := eq_of_searchItems houtcome
  cases (Action.ends_pure.mp hmatch).1
  cases (Action.ends_pure.mp hend).1
  exact ⟨hvalid, rfl⟩

/-- What a successful search of a collection answers. -/
theorem eq_of_collection_search {found : List String}
    (h : Ends broker.answerCall allowed (CollectionObject.searchItems collection attributes).run vault
      (.ok found) final) :
    found = (((broker.itemsOf vault).filter fun item => item.collectionId = collection).filter
      (matchesAttributes attributes)).map fun item => itemPath item.id := by
  obtain ⟨items, middle, hitems, hend⟩ := Action.ends_bind_ok.mp h
  obtain ⟨body, _, hbody, hmatch⟩ := Action.ends_bind_ok.mp (Action.ends_mapError_ok.mp hitems)
  obtain ⟨choice, -, houtcome, -⟩ := ends_response.mp hbody
  obtain rfl := eq_of_listItems houtcome
  cases (Action.ends_pure.mp hmatch).1
  cases (Action.ends_pure.mp hend).1
  rfl

/-- Without a fault the broker answers a read request with its view of the vault. -/
theorem response_ends (hcalm : allowed ⟨undisturbed, none⟩) {request : ReadOperation} {body : ResponseBody}
    (h : broker.view vault request = .ok body) :
    Ends broker.answerCall allowed (Provider.response request.toOperation).run vault (.ok body) vault := by
  refine ends_response.mpr ⟨_, hcalm, ?_, respond_read_state request⟩
  rw [respond, Action.execute_undisturbed]
  exact congrArg Outcome.returned h

theorem service_search_ends (hcalm : allowed ⟨undisturbed, none⟩) (hvalid : validateAttributes attributes = .ok ()) :
    ∃ found, Ends broker.answerCall allowed (SecretService.searchItems attributes).run vault (.ok found) vault := by
  have hview := broker.view_searchItems vault attributes
  rw [hvalid] at hview
  refine ⟨_, Action.ends_bind_ok.mpr ⟨(broker.itemsOf vault).filter (matchesAttributes attributes), vault,
    Action.ends_mapError_ok.mpr ?_, .done _ _⟩⟩
  refine Action.ends_bind_ok.mpr ⟨(), vault, ends_check.mpr ⟨hvalid, rfl⟩, ?_⟩
  exact Action.ends_bind_ok.mpr ⟨_, vault, response_ends hcalm hview, .done _ _⟩

theorem collection_search_ends (hcalm : allowed ⟨undisturbed, none⟩) {record : CollectionMetadata}
    (hcollection : broker.collectionKind.stored vault collection = some record) :
    ∃ found, Ends broker.answerCall allowed (CollectionObject.searchItems collection attributes).run vault (.ok found)
      vault := by
  have hview := broker.view_listItems vault collection
  rw [collectionAt_eq_ok.mpr hcollection] at hview
  refine ⟨_, Action.ends_bind_ok.mpr ⟨(broker.itemsOf vault).filter fun item => item.collectionId = collection, vault,
    Action.ends_mapError_ok.mpr ?_, .done _ _⟩⟩
  exact Action.ends_bind_ok.mpr ⟨_, vault, response_ends hcalm hview, .done _ _⟩

variable (broker vault) in
/-- A path names a stored item of the collection. -/
def belongsTo (collection : Uuid) (path : String) : Bool :=
  (broker.itemsOf vault).any fun item => itemPath item.id = path ∧ item.collectionId = collection

theorem belongsTo_itemPath (hitem : item ∈ broker.itemsOf vault) :
    broker.belongsTo vault collection (itemPath item.id) = decide (item.collectionId = collection) := by
  rw [Bool.eq_iff_iff, belongsTo, List.any_eq_true, decide_eq_true_eq]
  constructor
  · rintro ⟨other, hother, heq⟩
    obtain ⟨hpath, hcollection⟩ := of_decide_eq_true heq
    have hstored := mem_itemsOf.mp hother
    rw [itemPath_injective hpath, mem_itemsOf.mp hitem] at hstored
    rwa [Option.some.inj hstored]
  · exact fun hcollection => ⟨item, hitem, decide_eq_true ⟨rfl, hcollection⟩⟩

/-- The members of a search that belong to a collection are the members of the collection that are found. -/
theorem filter_belongsTo :
    (((broker.itemsOf vault).filter (matchesAttributes attributes)).map fun item => itemPath item.id).filter
        (broker.belongsTo vault collection) =
      (((broker.itemsOf vault).filter fun item => item.collectionId = collection).filter
        (matchesAttributes attributes)).map fun item => itemPath item.id := by
  rw [List.filter_map, List.filter_filter, List.filter_filter]
  refine congrArg _ (List.filter_congr fun item hitem => ?_)
  rw [Function.comp_apply, belongsTo_itemPath hitem, Bool.and_comm]

/-- Where the service accepts the attributes, an existing collection finds the members of the service's answer that
belong to it, in the same order; where the service rejects them, it finds nothing. -/
theorem collection_search_agrees_with_service_search (broker : Broker) (vault : Vault)
    (attributes : BTreeMap String String) (collection : Uuid) (record : CollectionMetadata)
    (hcollection : broker.collectionKind.stored vault collection = some record) :
    ((∃ found, Ends broker.answerCall CallChoice.Calm (SecretService.searchItems attributes).run vault
      (.ok found) vault) ↔ validateAttributes attributes = .ok ()) ∧
    (∃ found, Ends broker.answerCall CallChoice.Calm (CollectionObject.searchItems collection attributes).run vault
      (.ok found) vault) ∧
    ∀ found final, Ends broker.answerCall (fun _ => True) (CollectionObject.searchItems collection attributes).run vault
        (.ok found) final →
      (∀ unlocked locked final, Ends broker.answerCall (fun _ => True) (SecretService.searchItems attributes).run vault
        (.ok (unlocked, locked)) final → found = (unlocked ++ locked).filter (broker.belongsTo vault collection)) ∧
      (∀ error final, Ends broker.answerCall CallChoice.Calm (SecretService.searchItems attributes).run vault
        (.error error) final → found = []) := by
  refine ⟨⟨fun ⟨_, h⟩ => (eq_of_service_search h).1, service_search_ends CallChoice.calm⟩,
    collection_search_ends CallChoice.calm hcollection, fun found _ hfound => ?_⟩
  obtain rfl := eq_of_collection_search hfound
  refine ⟨fun unlocked locked _ hservice => ?_, fun error _ hservice => ?_⟩
  · obtain ⟨-, hanswer⟩ := eq_of_service_search hservice
    cases hanswer
    rw [List.append_nil, filter_belongsTo]
  · rw [List.map_eq_nil_iff, List.filter_eq_nil_iff]
    intro item hitem hmatches
    obtain ⟨answer, hanswer⟩ := service_search_ends CallChoice.calm
      (validateAttributes_of_matches (List.mem_of_mem_filter hitem) hmatches)
    cases (hservice.unique (fun _ hcalm => hcalm) hanswer).1

theorem mem_itemsOf_of_stored {id : Uuid} (h : broker.itemKind.stored vault id = some item) :
    item ∈ broker.itemsOf vault := by
  obtain rfl : item.id = id := RecordKind.key_of_stored h
  exact mem_itemsOf.mpr h

theorem stored_item_of_visible {id : Uuid} (h : (broker.visible vault).items[id]?.map Prod.fst = some item) :
    broker.itemKind.stored vault id = some item := by
  obtain ⟨⟨_, secret⟩, hvisible, rfl⟩ := Option.map_eq_some_iff.mp h
  exact (visible_items.mp hvisible).1

def sampleAttributes : BTreeMap String String := (∅ : BTreeMap String String).insert "user" "eve"

/-- Two collections with an item of the attributes each. -/
def twoCollectionSteps : List BrokerStep :=
  calmSteps [.createCollection ⟨1, ⟨7⟩, "login", 5, 5⟩, .createCollection ⟨1, ⟨6⟩, "work", 5, 5⟩,
    .createItem ⟨1, ⟨9⟩, ⟨7⟩, "token", sampleAttributes, "text/plain", 5, 5, ⟨8⟩⟩ ⟨[115, 53], by decide⟩,
    .createItem ⟨1, ⟨10⟩, ⟨6⟩, "token", sampleAttributes, "text/plain", 5, 5, ⟨8⟩⟩ ⟨[115], by decide⟩]

theorem stored_twoCollectionSteps :
    (cborBroker inMemoryBackend).collectionKind.stored ((cborBroker inMemoryBackend).after twoCollectionSteps ∅) ⟨7⟩ =
        some ⟨1, ⟨7⟩, "login", 5, 5⟩ ∧
      (cborBroker inMemoryBackend).itemKind.stored ((cborBroker inMemoryBackend).after twoCollectionSteps ∅) ⟨9⟩ =
        some ⟨1, ⟨9⟩, ⟨7⟩, "token", sampleAttributes, "text/plain", 5, 5, ⟨8⟩⟩ ∧
      (cborBroker inMemoryBackend).itemKind.stored ((cborBroker inMemoryBackend).after twoCollectionSteps ∅) ⟨10⟩ =
        some ⟨1, ⟨10⟩, ⟨6⟩, "token", sampleAttributes, "text/plain", 5, 5, ⟨8⟩⟩ := by
  have hvisible : (cborBroker inMemoryBackend).visible ((cborBroker inMemoryBackend).after twoCollectionSteps ∅) = _ :=
    (cborBroker inMemoryBackend).visible_calm (twoCollectionSteps.map BrokerStep.operation)
  refine ⟨?_, ?_, ?_⟩
  · rw [← visible_collections, hvisible]
    decide +kernel
  · refine stored_item_of_visible ?_
    rw [hvisible]
    decide +kernel
  · refine stored_item_of_visible ?_
    rw [hvisible]
    decide +kernel

/-- Of two items with the attributes the collection finds its own. -/
theorem collection_search_agrees_beside_other_collection :
    let broker := cborBroker inMemoryBackend
    let vault := broker.after twoCollectionSteps ∅
    ∃ found unlocked locked,
      Ends broker.answerCall CallChoice.Calm (CollectionObject.searchItems ⟨7⟩ sampleAttributes).run vault (.ok found)
        vault ∧
      Ends broker.answerCall CallChoice.Calm (SecretService.searchItems sampleAttributes).run vault
        (.ok (unlocked, locked)) vault ∧
      found = (unlocked ++ locked).filter (broker.belongsTo vault ⟨7⟩) ∧
      itemPath ⟨9⟩ ∈ found ∧ itemPath ⟨10⟩ ∈ unlocked ++ locked ∧ itemPath ⟨10⟩ ∉ found := by
  intro broker vault
  obtain ⟨hcollection, hown, hother⟩ : broker.collectionKind.stored vault ⟨7⟩ = _ ∧
      broker.itemKind.stored vault ⟨9⟩ = _ ∧ broker.itemKind.stored vault ⟨10⟩ = _ := stored_twoCollectionSteps
  clear_value vault broker
  have hvalid : validateAttributes sampleAttributes = .ok () := by decide
  obtain ⟨haccepts, ⟨found, hfound⟩, hagrees⟩ :=
    collection_search_agrees_with_service_search broker vault sampleAttributes ⟨7⟩ _ hcollection
  obtain ⟨⟨unlocked, locked⟩, hanswer⟩ := haccepts.mpr hvalid
  have hfilter := (hagrees found vault (hfound.mono fun _ _ => trivial)).1 unlocked locked vault
    (hanswer.mono fun _ _ => trivial)
  have hmatches : ∀ {item : ItemMetadata}, item.attributes = sampleAttributes →
      matchesAttributes sampleAttributes item = true :=
    fun hsame => matchesAttributes_eq_true.mpr (hsame ▸ List.Subset.refl _)
  have hownItem := mem_itemsOf_of_stored hown
  have hotherItem := mem_itemsOf_of_stored hother
  have hlisted : itemPath ⟨10⟩ ∈ unlocked ++ locked := by
    obtain ⟨-, hpaths⟩ := eq_of_service_search hanswer
    cases hpaths
    rw [List.append_nil]
    exact List.mem_map.mpr ⟨_, List.mem_filter.mpr ⟨hotherItem, hmatches rfl⟩, rfl⟩
  have hmember : itemPath ⟨9⟩ ∈ found := by
    obtain rfl := eq_of_collection_search hfound
    exact List.mem_map.mpr ⟨_, List.mem_filter.mpr ⟨List.mem_filter.mpr ⟨hownItem, rfl⟩, hmatches rfl⟩, rfl⟩
  refine ⟨found, unlocked, locked, hfound, hanswer, hfilter, hmember, hlisted, fun hmem => ?_⟩
  rw [hfilter, List.mem_filter] at hmem
  cases (belongsTo_itemPath hotherItem).symm.trans hmem.2

end Broker

end WincredLibsecret
