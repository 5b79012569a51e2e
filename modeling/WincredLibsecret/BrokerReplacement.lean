import WincredLibsecret.BrokerIdeal
import WincredLibsecret.BrokerListing

/-! A replacement that is answered. The answer lists the items with the attributes of the new one, each
either as replaced or as left behind, and the list is exact whichever of the deletions failed: a replaced
item can no longer be read, and one left behind can be read as before. -/

namespace WincredLibsecret

open Effect KeyedRecords

namespace Broker

variable {broker : Broker} {vault rest : Vault} {faults : BackendError → Prop}

/-- What the deletion of a replaced item leaves: its metadata is gone, and some of its secrets may be. -/
structure Replaced (id : Uuid) (vault rest : Vault) : Prop where
  gone : ∃ gone, gone (.itemMetadata id) ∧ (∀ target, gone target → target.BelongsTo id) ∧ vault.Without gone rest

theorem Replaced.visible {id : Uuid} (h : Replaced id vault rest) :
    broker.visible rest = (broker.visible vault).withoutItems [id] := by
  obtain ⟨gone, hmetadata, hbelongs, hwithout⟩ := h.gone
  refine visible_withoutItems hwithout (fun found => ?_) fun target hgone =>
    ⟨id, List.mem_singleton_self id, hbelongs _ hgone⟩
  rw [List.mem_singleton]
  refine ⟨fun hgone => hbelongs _ hgone, ?_⟩
  rintro rfl
  exact hmetadata

theorem wp_deleteReplacedItem (id : Uuid) (entries : List Entry) (vault : Vault) :
    Action.wp broker.backend.serve faults (deleteReplacedItem id entries) (fun _ rest => Replaced id vault rest)
      (fun _ rest => rest = vault) (fun _ => True) vault := by
  simp only [deleteReplacedItem, Action.wp_bind, wp_deleteCredential]
  refine ⟨trivial, fun _ _ => trivial, trivial, ?_⟩
  refine Action.wp_forM (fun _ rest => Replaced id vault rest) ?_ (fun _ h => ⟨trivial, h⟩) ?_
  · rintro target htarget _ middle ⟨gone, hmetadata, hbelongs, hwithout⟩
    obtain ⟨generation, rfl⟩ := mem_secretTargets htarget
    refine wp_cleanUp trivial ⟨gone, hmetadata, hbelongs, hwithout⟩ ⟨trivial, ?_⟩
    refine ⟨_, .inl hmetadata, ?_, hwithout.trans (Vault.Without.drop middle _)⟩
    rintro found (hgone | rfl)
    · exact hbelongs found hgone
    · exact rfl
  · refine ⟨(· = .itemMetadata id), rfl, ?_, Vault.Without.drop vault _⟩
    rintro _ rfl
    exact rfl

/-- Every item to delete is reported once, and those reported as deleted are no longer seen. -/
theorem wp_deleteReplacedItems_visible (entries : List Entry) (ids : List Uuid) (vault : Vault) :
    Action.wp broker.backend.serve faults (deleteReplacedItems entries ids)
      (fun outcome rest => (outcome.1 ++ outcome.2).Perm ids ∧
        broker.visible rest = (broker.visible vault).withoutItems outcome.1)
      (fun _ _ => False) (fun _ => True) vault := by
  induction ids generalizing vault with
  | nil => exact ⟨trivial, .nil, rfl⟩
  | cons id ids ih =>
      simp only [deleteReplacedItems, Action.wp_bind, Action.wp_attempt]
      refine Action.wp_mono (fun _ middle hmiddle => ?_) (fun _ middle hmiddle => ?_) (fun _ h => h)
        (wp_deleteReplacedItem id entries vault)
      · refine Action.wp_mono (fun outcome rest hrest => ⟨trivial, hrest.1.cons id, ?_⟩) (fun _ _ h => h) (fun _ h => h)
          (ih middle)
        rw [hrest.2, hmiddle.visible]
        rfl
      · subst hmiddle
        exact Action.wp_mono (fun outcome rest hrest => ⟨trivial, List.perm_middle.trans (hrest.1.cons id), hrest.2⟩)
          (fun _ _ h => h) (fun _ h => h) (ih middle)

/-- What an answered replacement has done. -/
theorem Sound.wp_createOrReplaceItem (hsound : broker.Sound vault) (item : ItemMetadata) (secret : SecretBytes)
    (replace : Bool) :
    Action.wp broker.backend.serve (fun _ => True) (broker.execute (.createOrReplaceItem item secret replace))
      (fun body rest => ∃ replaced failed, body = .replacedItem item replaced failed ∧
        vault.lookup (.itemMetadata item.id) = none ∧
        (replaced ++ failed).Perm (if replace then (broker.visible vault).twins item else []) ∧
        broker.visible rest = ((broker.visible vault).withItem item secret).withoutItems replaced)
      (fun _ _ => True) (fun _ => True) vault := by
  have hcommit : ∀ ids, validateItem item = .ok () → vault.lookup (.itemMetadata item.id) = none →
      Action.wp broker.backend.serve (fun _ => True) (do
          broker.commitNewGeneration item none secret
          let entries ← entries
          let outcome ← deleteReplacedItems entries ids
          pure (ResponseBody.replacedItem item outcome.1 outcome.2))
        (fun body rest => ∃ replaced failed, body = .replacedItem item replaced failed ∧
          (replaced ++ failed).Perm ids ∧
          broker.visible rest = ((broker.visible vault).withItem item secret).withoutItems replaced)
        (fun _ _ => True) (fun _ => True) vault := by
    intro ids hvalid hnone
    simp only [Action.wp_bind]
    refine wp_commitNewGeneration trivial (fun _ _ => trivial) (fun _ _ => trivial)
      (fun _ _ => ⟨trivial, fun _ _ => trivial⟩)
      (fun _ _ => ⟨trivial, fun _ _ => trivial⟩) ?_
    rintro blob hblob _ rfl
    refine ⟨⟨trivial, ?_⟩, fun old hold => by cases hold⟩
    rw [wp_entries]
    refine ⟨trivial, fun _ _ => trivial, Action.wp_mono (fun outcome rest hrest => ?_) (fun _ _ h => h.elim)
      (fun _ h => h)
      (wp_deleteReplacedItems_visible _ ids _)⟩
    have hvisible : broker.visible (committed vault item secret blob) = (broker.visible vault).withItem item secret :=
      (visible_cleaned hvalid hblob (uncommitted_of_lookup_none hnone) :
        broker.visible (cleaned vault item none secret blob) = _)
    refine ⟨trivial, outcome.1, outcome.2, rfl, hrest.1, ?_⟩
    rw [← hvisible]
    exact hrest.2
  simp only [execute, perform, createOrReplaceItem, Action.wp_bind, wp_acquireLock, Action.wp_ofExcept,
    wp_requireCollection, wp_readCredential]
  refine ⟨trivial, fun _ _ => trivial, trivial, Action.either_intro (fun _ hvalid => ?_) fun _ _ => trivial⟩
  refine ⟨trivial, fun _ _ => trivial, Action.either_intro (fun _ _ => ?_) fun _ _ => trivial⟩
  refine ⟨trivial, fun _ _ => trivial, ?_⟩
  by_cases hstored : (vault.lookup (.itemMetadata item.id)).isSome
  · rw [if_pos hstored]
    exact ⟨trivial, trivial⟩
  · have hnone := Option.not_isSome_iff_eq_none.mp hstored
    rw [if_neg hstored, Action.wp_bind]
    refine hsound.wp_replacedItemIds item replace (fun _ _ => trivial) ?_
    refine Action.wp_mono ?_ (fun _ _ h => h) (fun _ h => h) (hcommit _ hvalid hnone)
    rintro body rest ⟨replaced, failed, rfl, hperm, hvisible⟩
    exact ⟨replaced, failed, rfl, hnone, hperm, hvisible⟩

theorem Sound.mem_twins (hsound : broker.Sound vault) {item : ItemMetadata} {id : Uuid} :
    id ∈ (broker.visible vault).twins item ↔ ∃ existing, broker.itemKind.stored vault id = some existing ∧
      existing.collectionId = item.collectionId ∧ existing.attributes = item.attributes := by
  rw [VisibleVault.twins, ← hsound.itemsOf_eq, List.mem_map]
  simp only [List.mem_filter, mem_itemsOf, decide_eq_true_iff]
  constructor
  · rintro ⟨existing, ⟨hstored, hmatch⟩, rfl⟩
    exact ⟨existing, hstored, hmatch⟩
  · rintro ⟨existing, hstored, hmatch⟩
    obtain rfl : existing.id = id := RecordKind.key_of_stored hstored
    exact ⟨existing, ⟨hstored, hmatch⟩, rfl⟩

theorem Sound.nodup_twins (hsound : broker.Sound vault) (item : ItemMetadata) :
    ((broker.visible vault).twins item).Nodup := by
  rw [VisibleVault.twins, ← hsound.itemsOf_eq, List.Nodup, List.pairwise_map]
  refine (strict_itemsOf.filter _).imp fun hlt heq => ?_
  rw [heq, Std.ReflOrd.compare_self] at hlt
  cases hlt

theorem items_replaced (visible : VisibleVault) (item : ItemMetadata) (secret : SecretBytes) (replaced : List Uuid)
    (id : Uuid) :
    ((visible.withItem item secret).withoutItems replaced).items[id]? =
      if id ∈ replaced then none else if item.id = id then some (item, secret) else visible.items[id]? := by
  rw [VisibleVault.withoutItems, getElem?_foldl_erase, VisibleVault.withItem, Std.ExtTreeMap.getElem?_insert]
  simp only [Std.compare_eq_iff_eq]

/-- The requests of readers of collections and aliases. -/
def ReadsNoItem : ReadOperation → Prop
  | .listCollections | .getCollection _ | .listAliases | .resolveAlias _ => True
  | .searchItems _ | .listItems _ | .getItem _ _ => False

/-- Whichever deletions fail, an answered replacement has made the new item readable with its secret. It lists
each item with the same collection and attributes once, if asked to replace, and no other. The items listed as
replaced cannot be found any more, those listed as left behind are read as before, and so is everything else. -/
theorem replacement_is_reported_exactly (broker : Broker) (steps : List BrokerStep) (item : ItemMetadata)
    (secret : SecretBytes) (replace : Bool) (fates : Fates BackendError) (body : ResponseBody)
    (hanswer : (broker.respond ⟨.createOrReplaceItem item secret replace, fates⟩ (broker.after steps ∅)).outcome =
      .returned (.ok body)) :
    let vault := broker.after steps ∅
    let rest := (broker.respond ⟨.createOrReplaceItem item secret replace, fates⟩ vault).state
    ∃ replaced failed, body = .replacedItem item replaced failed ∧
      broker.view rest (.getItem item.id true) = .ok (.item item (some secret)) ∧
      (replaced ++ failed).Nodup ∧
      (∀ id, id ∈ replaced ++ failed ↔ replace = true ∧ ∃ existing, broker.itemKind.stored vault id = some existing ∧
        existing.collectionId = item.collectionId ∧ existing.attributes = item.attributes) ∧
      (∀ id ∈ replaced, ∀ includeSecret,
        broker.view rest (.getItem id includeSecret) = .error (notFound "item does not exist")) ∧
      (∀ id ∈ failed, ∃ existing kept, broker.view vault (.getItem id true) = .ok (.item existing (some kept)) ∧
        broker.view rest (.getItem id true) = .ok (.item existing (some kept))) ∧
      (∀ id includeSecret, id ≠ item.id → id ∉ replaced →
        broker.view rest (.getItem id includeSecret) = broker.view vault (.getItem id includeSecret)) ∧
      ∀ request, ReadsNoItem request → broker.view rest request = broker.view vault request := by
  intro vault rest
  have hsound : broker.Sound vault := sound_empty.after steps
  have hrest : broker.Sound rest := hsound.respond _
  obtain ⟨replaced, failed, rfl, hnone, hperm, hvisible⟩ :=
    Action.execute_of_wp (hsound.wp_createOrReplaceItem item secret replace) (within_any fates) hanswer
  change broker.visible rest = _ at hvisible
  have hmem : ∀ id, id ∈ replaced ++ failed ↔ replace = true ∧ ∃ existing,
      broker.itemKind.stored vault id = some existing ∧ existing.collectionId = item.collectionId ∧
        existing.attributes = item.attributes := by
    intro id
    rw [hperm.mem_iff]
    cases replace with
    | false => simp
    | true => simpa using hsound.mem_twins
  have hnodup : (replaced ++ failed).Nodup := by
    rw [hperm.nodup_iff]
    cases replace with
    | false => simp
    | true => exact hsound.nodup_twins item
  have hnew : item.id ∉ replaced ++ failed := by
    intro hitem
    obtain ⟨-, existing, hexisting, -⟩ := (hmem item.id).mp hitem
    rw [stored_of_lookup_none hnone] at hexisting
    cases hexisting
  have hitems : ∀ id, (broker.visible rest).items[id]? =
      if id ∈ replaced then none else if item.id = id then some (item, secret)
        else (broker.visible vault).items[id]? := by
    intro id
    rw [hvisible, items_replaced]
  have hother : ∀ id includeSecret, id ≠ item.id → id ∉ replaced →
      broker.view rest (.getItem id includeSecret) = broker.view vault (.getItem id includeSecret) := by
    intro id includeSecret hne hkept
    rw [hrest.view_eq, hsound.view_eq]
    simp only [VisibleVault.answer, hitems, if_neg hkept, if_neg (Ne.symm hne)]
  refine ⟨replaced, failed, rfl, ?_, hnodup, hmem, ?_, ?_, hother, ?_⟩
  · rw [hrest.view_eq]
    simp only [VisibleVault.answer, hitems, if_neg fun h => hnew (List.mem_append_left _ h), if_true]
  · intro id hid includeSecret
    rw [hrest.view_eq]
    simp only [VisibleVault.answer, hitems, if_pos hid]
  · intro id hid
    obtain ⟨-, existing, hexisting, -⟩ := (hmem id).mp (List.mem_append_right _ hid)
    obtain ⟨kept, hkept⟩ := hsound.exists_visible_items.mpr hexisting
    have hbefore : broker.view vault (.getItem id true) = .ok (.item existing (some kept)) := by
      rw [hsound.view_eq]
      simp only [VisibleVault.answer, hkept, if_true]
    refine ⟨existing, kept, hbefore, (hother id true ?_ ?_).trans hbefore⟩
    · rintro rfl
      exact hnew (List.mem_append_right _ hid)
    · exact fun hreplaced => (List.nodup_append.mp hnodup).2.2 id hreplaced id hid rfl
  · intro request hrequest
    rw [hrest.view_eq, hsound.view_eq, hvisible]
    cases request with
    | listCollections | getCollection | listAliases | resolveAlias => rfl
    | _ => exact hrequest.elim

/-- One item is replaced by another one. -/
theorem replacement_is_reported_exactly_of_one :
    let broker := cborBroker inMemoryBackend
    let item : ItemMetadata := ⟨1, ⟨9⟩, ⟨7⟩, "b", ∅, "c", 5, 5, ⟨8⟩⟩
    let operations : List Operation :=
      [.createCollection ⟨1, ⟨7⟩, "a", 5, 5⟩, .createItem { item with id := ⟨6⟩ } ⟨[115], by decide⟩]
    let secret : SecretBytes := ⟨[116], by decide⟩
    let step : BrokerStep := ⟨.createOrReplaceItem item secret true, undisturbed⟩
    (broker.respond step (broker.after (calmSteps operations) ∅)).outcome =
        .returned (.ok (.replacedItem item [⟨6⟩] [])) ∧
      broker.view (broker.respond step (broker.after (calmSteps operations) ∅)).state (.getItem item.id true) =
        .ok (.item item (some secret)) ∧
      broker.view (broker.respond step (broker.after (calmSteps operations) ∅)).state (.getItem ⟨6⟩ true) =
        .error (notFound "item does not exist") := by
  intro broker item operations secret step
  have hideal : (broker.ideal (operations.foldl broker.idealNext ⟨∅, ∅, ∅⟩)
      (.createOrReplaceItem item secret true)).map Prod.fst = .ok (.replacedItem item [⟨6⟩] []) := by decide +kernel
  have hanswer := broker.respond_calm operations (.createOrReplaceItem item secret true)
  rw [hideal] at hanswer
  obtain ⟨replaced, failed, hbody, hnew, -, -, hgone, -⟩ := replacement_is_reported_exactly broker
    (calmSteps operations) item secret true undisturbed (.replacedItem item [⟨6⟩] []) hanswer
  obtain ⟨-, rfl, rfl⟩ := ResponseBody.replacedItem.inj hbody
  exact ⟨hanswer, hnew, hgone ⟨6⟩ (List.mem_singleton_self _) true⟩

end Broker

end WincredLibsecret
