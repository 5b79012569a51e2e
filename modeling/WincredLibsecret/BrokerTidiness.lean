import WincredLibsecret.BrokerIdeal

/-! Secrets while nothing fails. The broker needs no recovery then: after every request the stored secrets
are those the stored items commit. A secret that an update replaces, or whose item is deleted, replaced or
removed with its collection, is gone at once, and it stays gone until a request writes it again. -/

namespace WincredLibsecret

open Effect

/-- The item and the generation under which a request writes a secret. -/
def Operation.writtenSecret : Operation → Option (Uuid × Uuid)
  | .createItem item _ | .createOrReplaceItem item _ _ | .updateItem item (some _) | .updateItemCas item (some _) _ =>
      some (item.id, item.currentGeneration)
  | _ => none

theorem VisibleVault.generation_of_update {visible : VisibleVault} {item existing : ItemMetadata}
    {secret current : SecretBytes} {next : ResponseBody × VisibleVault}
    (hupdate : visible.update item (some secret) = some next)
    (hitem : visible.items[item.id]? = some (existing, current)) :
    item.currentGeneration ≠ existing.currentGeneration := by
  rw [update, hitem] at hupdate
  simp only [Option.ite_none_left_eq_some] at hupdate
  exact hupdate.2.1

namespace Broker

variable {broker : Broker} {vault : Vault} {operation : Operation} {body : ResponseBody} {id : Uuid}
  {item : ItemMetadata}

/-- The answered request replaces or removes the secret of the item. -/
def Discards (broker : Broker) (vault : Vault) (id : Uuid) : Operation → ResponseBody → Prop
  | .updateItem item (some _), _ | .updateItemCas item (some _) _, _ => item.id = id
  | .deleteItem itemId, _ => itemId = id
  | .createOrReplaceItem _ _ _, .replacedItem _ replaced _ => id ∈ replaced
  | .deleteCollection collectionId, _ =>
      ∃ item, broker.itemKind.stored vault id = some item ∧ item.collectionId = collectionId
  | _, _ => False

theorem Tidy.secret_iff (hsound : broker.Sound vault) (htidy : broker.Tidy vault) (id generation : Uuid) :
    (∃ blob, vault.lookup (.itemSecret id generation) = some blob) ↔
      ∃ item, broker.itemKind.stored vault id = some item ∧ item.currentGeneration = generation := by
  constructor
  · rintro ⟨blob, hblob⟩
    exact htidy id generation blob hblob
  · rintro ⟨item, hitem, rfl⟩
    obtain ⟨secret, hsecret⟩ := hsound.secret_of_stored hitem
    exact ⟨secret.bytes, hsecret⟩

theorem Tidy.lookup_eq_none_iff (hsound : broker.Sound vault) (htidy : broker.Tidy vault) (id generation : Uuid) :
    vault.lookup (.itemSecret id generation) = none ↔ broker.Uncommitted vault id generation := by
  rw [← not_iff_not, ← Ne, Option.ne_none_iff_exists', htidy.secret_iff hsound]
  simp only [Uncommitted, not_forall, not_not, exists_prop]

/-- The item whose secret is discarded no longer commits it. -/
theorem Sound.uncommitted_of_discards (hsound : broker.Sound vault)
    (hanswer : (broker.calmly operation vault).1 = .ok body) (hdiscards : broker.Discards vault id operation body)
    (hitem : broker.itemKind.stored vault id = some item) :
    broker.Uncommitted (broker.calmly operation vault).2 id item.currentGeneration := by
  have hended : (broker.respond ⟨operation, undisturbed⟩ vault).outcome = .returned (.ok body) := by
    rw [respond_undisturbed, hanswer]
  rw [calmly_state]
  -- an update with a secret is refused if it brings the old generation along
  have hupdated : ∀ {supplied : ItemMetadata} {secret : SecretBytes},
      operation.itemUpdate = some (supplied, some secret) → supplied.id = id →
        broker.Uncommitted (broker.respond ⟨operation, undisturbed⟩ vault).state id item.currentGeneration := by
    rintro supplied secret hupdate rfl
    obtain ⟨write, rfl, happly⟩ := exists_write_of_itemUpdate hupdate
    have hvisible := happly (hsound.apply_of_ok hended)
    obtain ⟨current, hcurrent⟩ := hsound.exists_visible_items.mpr hitem
    have hfresh := VisibleVault.generation_of_update hvisible hcurrent
    exact uncommitted_of_stored (hsound.stored_of_answered_update hupdate hitem hended) hfresh
  cases operation with
  | updateItem supplied secret =>
      cases secret with
      | none => exact hdiscards.elim
      | some secret => exact hupdated rfl hdiscards
  | updateItemCas supplied secret expectedModified =>
      cases secret with
      | none => exact hdiscards.elim
      | some secret => exact hupdated rfl hdiscards
  | deleteItem itemId =>
      obtain rfl : itemId = id := hdiscards
      exact uncommitted_of_lookup_none (lookup_of_deleteItem hended)
  | createOrReplaceItem supplied secret replace =>
      cases body with
      | replacedItem created replaced failed =>
          exact uncommitted_of_lookup_none ((lookup_of_createOrReplaceItem hended).2 id hdiscards)
      | _ => exact hdiscards.elim
  | deleteCollection collectionId =>
      obtain ⟨found, hfound, hcollection⟩ := hdiscards
      exact uncommitted_of_lookup_none (hsound.lookup_item_of_deleteCollection hfound hcollection hended)
  | _ => exact hdiscards.elim

/-- A generation is committed only by the request that writes its secret. -/
theorem Sound.uncommitted_respond (hsound : broker.Sound vault) {generation : Uuid}
    (hfree : broker.Uncommitted vault id generation) (hwrites : operation.writtenSecret ≠ some (id, generation)) :
    broker.Uncommitted (broker.calmly operation vault).2 id generation := by
  rw [calmly_state]
  have hchange := hsound.changesItems ⟨operation, undisturbed⟩ _ (respond_state_mem_passes broker _ vault) id
  intro found hfound hgeneration
  rw [hfound] at hchange
  generalize hbefore : broker.itemKind.stored vault id = before at hchange
  cases hchange with
  | same => exact hfree found hbefore hgeneration
  | created _ hsupplied hid =>
      subst hid hgeneration
      cases operation with
      | createItem | createOrReplaceItem =>
          cases hsupplied
          exact hwrites rfl
      | updateItem | updateItemCas =>
          -- an update does not add an item that was not there
          obtain ⟨blob, hblob, -⟩ := RecordKind.stored_eq_some.mp hfound
          have hsome := Option.isSome_iff_exists.mpr ⟨blob, hblob⟩
          rcases isSome_of_respond (by exact trivial) hsome with hthere | hcreates
          · obtain ⟨old, hold⟩ := Option.isSome_iff_exists.mp hthere
            obtain ⟨existing, hload, -⟩ := hsound.items _ old hold
            cases hbefore.symm.trans (RecordKind.stored_eq_some.mpr ⟨old, hold, hload⟩)
          · exact hcreates.elim
      | _ => cases hsupplied
  | updated supplied existing secret hupdate hid =>
      cases secret with
      | none => exact hfree existing hbefore hgeneration
      | some secret =>
          subst hid hgeneration
          cases operation with
          | updateItem | updateItemCas =>
              cases hupdate
              exact hwrites rfl
          | _ => cases hupdate

theorem Sound.uncommitted_after (hsound : broker.Sound vault) {generation : Uuid}
    (hfree : broker.Uncommitted vault id generation) {operations : List Operation}
    (hwrites : ∀ operation ∈ operations, operation.writtenSecret ≠ some (id, generation)) :
    broker.Uncommitted (broker.after (calmSteps operations) vault) id generation := by
  induction operations generalizing vault with
  | nil => exact hfree
  | cons operation operations ih =>
      obtain ⟨hfirst, hrest⟩ := List.forall_mem_cons.mp hwrites
      rw [after_calmSteps_cons]
      exact ih (hsound.calmly operation) (hsound.uncommitted_respond hfree hfirst) hrest

/-- In a run without failures, after every request the stored secrets are those that the stored items commit,
one for each item. A secret that an answered request replaces or removes is gone after that request, and
stays gone as long as no later request writes it. -/
theorem no_secret_outlives_its_item (broker : Broker) (operations : List Operation) :
    let vault := broker.after (calmSteps operations) ∅
    (∀ id blob, vault.lookup (.itemMetadata id) = some blob → ∃ item, broker.itemKind.stored vault id = some item) ∧
    (∀ id generation, (∃ blob, vault.lookup (.itemSecret id generation) = some blob) ↔
      ∃ item, broker.itemKind.stored vault id = some item ∧ item.currentGeneration = generation) ∧
    ∀ operation body id item later, (broker.calmly operation vault).1 = .ok body →
      broker.Discards vault id operation body → broker.itemKind.stored vault id = some item →
      (∀ next ∈ later, Operation.writtenSecret next ≠ some (id, item.currentGeneration)) →
      (broker.after (calmSteps (operation :: later)) vault).lookup (.itemSecret id item.currentGeneration) = none := by
  intro vault
  have hsound : broker.Sound vault := sound_empty.after _
  have htidy : broker.Tidy vault := tidy_empty.after sound_empty operations
  refine ⟨fun id blob hblob => ?_, htidy.secret_iff hsound, ?_⟩
  · obtain ⟨item, hload, -⟩ := hsound.items id blob hblob
    exact ⟨item, RecordKind.stored_eq_some.mpr ⟨blob, hblob, hload⟩⟩
  · intro operation body id item later hanswer hdiscards hitem hlater
    have hrest := hsound.calmly operation
    have hfree := hrest.uncommitted_after (hsound.uncommitted_of_discards hanswer hdiscards hitem) hlater
    rw [after_calmSteps_cons]
    exact (Tidy.lookup_eq_none_iff (hrest.after _) ((htidy.calmly hsound operation).after hrest later) _ _).mpr hfree

/-- A secret that an update replaces. -/
theorem no_secret_outlives_its_item_updated :
    let broker := cborBroker inMemoryBackend
    let item : ItemMetadata := ⟨1, ⟨9⟩, ⟨7⟩, "b", ∅, "c", 5, 5, ⟨8⟩⟩
    let operations : List Operation := [.createCollection ⟨1, ⟨7⟩, "a", 5, 5⟩, .createItem item ⟨[115], by decide⟩]
    let update : Operation := .updateItem { item with currentGeneration := ⟨4⟩ } (some ⟨[116], by decide⟩)
    (∃ blob, (broker.after (calmSteps operations) ∅).lookup (.itemSecret ⟨9⟩ item.currentGeneration) = some blob) ∧
      (broker.after (calmSteps [update, .ping]) (broker.after (calmSteps operations) ∅)).lookup
        (.itemSecret ⟨9⟩ item.currentGeneration) = none := by
  intro broker item operations update
  obtain ⟨-, hsecrets, hgone⟩ := no_secret_outlives_its_item broker operations
  have hsound : broker.Sound (broker.after (calmSteps operations) ∅) := sound_empty.after _
  have hitem : broker.itemKind.stored (broker.after (calmSteps operations) ∅) ⟨9⟩ = some item := by
    rw [hsound.stored_item, visible_calm]
    decide +kernel
  have hideal : (broker.ideal (operations.foldl broker.idealNext ⟨∅, ∅, ∅⟩) update).map Prod.fst =
      .ok (.item { item with currentGeneration := ⟨4⟩, modified := 6 } none) := by decide +kernel
  have hanswer : (broker.calmly update (broker.after (calmSteps operations) ∅)).1 =
      .ok (.item { item with currentGeneration := ⟨4⟩, modified := 6 } none) := by
    rw [hsound.answer_calmly (tidy_empty.after sound_empty operations), visible_calm]
    exact hideal
  exact ⟨(hsecrets _ _).mpr ⟨item, hitem, rfl⟩, hgone update _ ⟨9⟩ item [.ping] hanswer rfl hitem (by decide)⟩

end Broker

end WincredLibsecret
