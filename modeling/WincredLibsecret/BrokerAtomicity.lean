import WincredLibsecret.BrokerView

/-! Writes of single records are atomic. On the visible vault a write replaces or removes one record. The
broker makes up to three backend calls for it and may be interrupted between any two of them, yet a
reader finds the visible vault as it was or as the write makes it, and never a mixture. -/

namespace WincredLibsecret

open Effect Effect.Action

/-- The requests that write one record. -/
inductive RecordWrite where
  | createCollection (collection : CollectionMetadata)
  | updateCollection (collection : CollectionMetadata)
  | setAlias (record : AliasMetadata)
  | removeAlias (name : String)
  | createItem (item : ItemMetadata) (secret : SecretBytes)
  | updateItem (item : ItemMetadata) (secret : Option SecretBytes)
  | updateItemCas (item : ItemMetadata) (secret : Option SecretBytes) (expectedModified : UInt64)

def RecordWrite.toOperation : RecordWrite → Operation
  | .createCollection collection => .createCollection collection
  | .updateCollection collection => .updateCollection collection
  | .setAlias record => .setAlias record
  | .removeAlias name => .removeAlias name
  | .createItem item secret => .createItem item secret
  | .updateItem item secret => .updateItem item secret
  | .updateItemCas item secret expectedModified => .updateItemCas item secret expectedModified

namespace VisibleVault

def withCollection (visible : VisibleVault) (collection : CollectionMetadata) : VisibleVault :=
  { visible with collections := visible.collections.insert collection.id collection }

def withAlias (visible : VisibleVault) (record : AliasMetadata) : VisibleVault :=
  { visible with aliases := visible.aliases.insert record.name record }

def withItem (visible : VisibleVault) (item : ItemMetadata) (secret : SecretBytes) : VisibleVault :=
  { visible with items := visible.items.insert item.id (item, secret) }

/-- An update of an item: a new secret needs a new generation, and without one the item keeps the
generation and the secret it has. -/
def update (visible : VisibleVault) (item : ItemMetadata) (secret : Option SecretBytes) :
    Option (ResponseBody × VisibleVault) :=
  match visible.items[item.id]? with
  | none => none
  | some (existing, current) =>
      let updated := item.succeed existing
      if visible.collections[item.collectionId]?.isNone then none
      else match secret with
        | some secret =>
            if updated.currentGeneration = existing.currentGeneration then none
            else some (.item updated none, visible.withItem updated secret)
        | none =>
            let updated := { updated with currentGeneration := existing.currentGeneration }
            some (.item updated none, visible.withItem updated current)

theorem update_of_items {visible : VisibleVault} {item existing : ItemMetadata} {secret : Option SecretBytes}
    {current : SecretBytes} {collection : CollectionMetadata}
    (hitem : visible.items[item.id]? = some (existing, current))
    (hcollection : visible.collections[item.collectionId]? = some collection) :
    visible.update item secret =
      match secret with
      | some secret =>
          if (item.succeed existing).currentGeneration = existing.currentGeneration then none
          else some (.item (item.succeed existing) none, visible.withItem (item.succeed existing) secret)
      | none =>
          let updated := { item.succeed existing with currentGeneration := existing.currentGeneration }
          some (.item updated none, visible.withItem updated current) := by
  rw [update, hitem, hcollection]
  rfl

/-- The answer to a write and the vault it makes; nothing where the write must be refused. -/
def apply (visible : VisibleVault) : RecordWrite → Option (ResponseBody × VisibleVault)
  | .createCollection collection =>
      if visible.collections[collection.id]?.isSome then none
      else some (.collection collection, visible.withCollection collection)
  | .updateCollection collection =>
      match visible.collections[collection.id]? with
      | none => none
      | some existing =>
          let updated := { collection with created := existing.created }
          some (.collection updated, visible.withCollection updated)
  | .setAlias record =>
      if visible.collections[record.collectionId]?.isNone then none
      else some (.alias (some record), visible.withAlias record)
  | .removeAlias name =>
      if visible.aliases[name]?.isNone then none
      else some (.empty, { visible with aliases := visible.aliases.erase name })
  | .createItem item secret =>
      if visible.collections[item.collectionId]?.isNone || visible.items[item.id]?.isSome then none
      else some (.item item none, visible.withItem item secret)
  | .updateItem item secret => visible.update item secret
  | .updateItemCas item secret expectedModified =>
      match visible.items[item.id]? with
      | none => none
      | some (existing, _) => if existing.modified ≠ expectedModified then none else visible.update item secret

end VisibleVault

namespace Broker

variable {broker : Broker} {vault : Vault} {faults : BackendError → Prop}
  {next : Option (ResponseBody × VisibleVault)}

variable (broker) in
/-- Readers see what they saw before. -/
def Unchanged (vault rest : Vault) : Prop := broker.visible rest = broker.visible vault

variable (broker) in
/-- Readers see the given step taken, with the given answer. -/
def Taken (next : Option (ResponseBody × VisibleVault)) (body : ResponseBody) (rest : Vault) : Prop :=
  next = some (body, broker.visible rest)

variable (broker) in
/-- Readers see what they saw before, or the step taken. -/
def UnchangedOrTaken (next : Option (ResponseBody × VisibleVault)) (vault rest : Vault) : Prop :=
  broker.Unchanged vault rest ∨ ∃ body, broker.Taken next body rest

variable (broker faults) in
/-- The computation takes the given step or none. It answers an error only if it took none and a result
only if it took the step. -/
def Atomically (action : BrokerAction ResponseBody) (next : Option (ResponseBody × VisibleVault))
    (vault : Vault) : Prop :=
  Action.wp broker.backend.serve faults action (broker.Taken next) (fun _ => broker.Unchanged vault)
    (broker.UnchangedOrTaken next vault) vault

theorem unchanged_refl : broker.Unchanged vault vault := rfl

theorem unchangedOrTaken_refl : broker.UnchangedOrTaken next vault vault := .inl rfl

theorem atomically_throw (error : BrokerError) : broker.Atomically faults (throw error) next vault :=
  ⟨unchangedOrTaken_refl, unchanged_refl⟩

/-- A record that is written with one call. -/
theorem atomically_writeMetadata {α : Type} {codec : MetadataCodec α} {target : TargetName} {metadata : α}
    {body : ResponseBody} (hnext : ∀ blob, encodeMetadata codec metadata = .ok blob →
      broker.Taken next body (vault.put target blob)) :
    broker.Atomically faults (do writeMetadata codec target metadata; pure body) next vault := by
  simp only [Atomically, wp_bind, wp_writeMetadata, wp_pure]
  refine ⟨unchangedOrTaken_refl, either_intro (fun blob hblob => ?_) fun _ _ => unchanged_refl⟩
  have htaken := hnext blob hblob
  exact ⟨fun _ _ => unchanged_refl, .inr ⟨body, htaken⟩, .inr ⟨body, htaken⟩, htaken⟩

/-- An item that is committed with a new generation: the write of the metadata is the only call that
readers notice. -/
theorem atomically_commitNewGeneration {item : ItemMetadata} {previous : Option Uuid} {secret : SecretBytes}
    {body : ResponseBody} (hvalid : validateItem item = .ok ())
    (hfresh : broker.Uncommitted vault item.id item.currentGeneration)
    (hnext : next = some (body, (broker.visible vault).withItem item secret)) :
    broker.Atomically faults (do broker.commitNewGeneration item previous secret; pure body) next vault := by
  have hput : broker.Unchanged vault (vault.put (.itemSecret item.id item.currentGeneration) secret.bytes) :=
    visible_put_secret hfresh
  have hrolled : broker.Unchanged vault
      ((vault.put (.itemSecret item.id item.currentGeneration) secret.bytes).drop
        (.itemSecret item.id item.currentGeneration)) :=
    (visible_drop_secret (uncommitted_put_secret.mpr hfresh)).trans hput
  simp only [Atomically, wp_bind, wp_pure]
  refine wp_commitNewGeneration unchangedOrTaken_refl (fun _ _ => unchanged_refl) (fun _ _ => unchanged_refl)
    ?_ ?_ ?_
  · rintro _ rfl
    exact ⟨.inl hput, fun _ _ => hput⟩
  · rintro _ rfl
    exact ⟨.inl hrolled, fun _ _ => hrolled⟩
  · rintro blob hblob committed hcommitted
    have hload : broker.itemKind.load item.id blob = .ok item := broker.itemKind.load_of_encode hvalid hblob
    have hstored : broker.itemKind.stored committed item.id = some item :=
      hcommitted ▸ RecordKind.stored_put_self hload
    have htaken : broker.Taken next body committed := by
      rw [Taken, hnext, hcommitted, visible_put_item hload (Vault.lookup_put_self vault _ secret.bytes),
        visible_put_secret hfresh]
      rfl
    refine ⟨⟨.inr ⟨body, htaken⟩, .inr ⟨body, htaken⟩, htaken⟩, fun old _ hne => ?_⟩
    -- the old generation is no longer committed once the new metadata is written
    have hcleaned : broker.Taken next body (committed.drop (.itemSecret item.id old)) := by
      rw [Taken, visible_drop_secret (uncommitted_of_stored hstored (Ne.symm hne))]
      exact htaken
    exact ⟨.inr ⟨body, hcleaned⟩, .inr ⟨body, hcleaned⟩, hcleaned⟩

theorem atomically_createCollection (hsound : broker.Sound vault) (collection : CollectionMetadata) :
    broker.Atomically faults (broker.createCollection collection)
      ((broker.visible vault).apply (.createCollection collection)) vault := by
  simp only [Atomically, createCollection, wp_bind, wp_ofExcept, wp_readCredential]
  refine ⟨unchangedOrTaken_refl, either_intro (fun _ hvalid => ?_) fun _ _ => unchanged_refl⟩
  refine ⟨unchangedOrTaken_refl, fun _ _ => unchanged_refl, ?_⟩
  split_ifs with hstored
  · exact atomically_throw _
  · refine atomically_writeMetadata fun blob hblob => ?_
    have hload := broker.collectionKind.load_of_encode hvalid hblob
    have hnone : (broker.visible vault).collections[collection.id]? = none := by
      rw [visible_collections]
      exact stored_of_lookup_none (Option.not_isSome_iff_eq_none.mp hstored)
    rw [Taken, VisibleVault.apply, hnone, if_neg (by simp), VisibleVault.withCollection,
      show broker.visible (vault.put (.collection collection.id) blob) = _ from hsound.visible_put_collection hload]

theorem atomically_updateCollection (hsound : broker.Sound vault) (collection : CollectionMetadata) :
    broker.Atomically faults (broker.updateCollection collection)
      ((broker.visible vault).apply (.updateCollection collection)) vault := by
  simp only [Atomically, updateCollection, wp_bind, wp_ofExcept, wp_getCollection]
  refine ⟨unchangedOrTaken_refl, fun _ _ => unchanged_refl, ?_⟩
  refine either_intro (fun existing hexisting => ?_) fun _ _ => unchanged_refl
  refine ⟨unchangedOrTaken_refl, either_intro (fun _ hvalid => ?_) fun _ _ => unchanged_refl⟩
  rw [← wp_bind]
  refine atomically_writeMetadata fun blob hblob => ?_
  have hvalid' : validateCollection { collection with created := existing.created } = .ok () :=
    validateCollection_eq_ok.mpr (validateCollection_eq_ok.mp hvalid)
  have hload := broker.collectionKind.load_of_encode hvalid' hblob
  rw [collectionAt_eq_ok, ← visible_collections] at hexisting
  simp only [Taken, VisibleVault.apply, hexisting, VisibleVault.withCollection]
  rw [show broker.visible (vault.put (.collection collection.id) blob) = _ from hsound.visible_put_collection hload]

theorem atomically_setAlias (record : AliasMetadata) :
    broker.Atomically faults (broker.setAlias record) ((broker.visible vault).apply (.setAlias record)) vault := by
  simp only [Atomically, setAlias, wp_bind, wp_ofExcept, wp_requireCollection]
  refine ⟨unchangedOrTaken_refl, either_intro (fun _ hvalid => ?_) fun _ _ => unchanged_refl⟩
  refine ⟨unchangedOrTaken_refl, fun _ _ => unchanged_refl, ?_⟩
  refine either_intro (fun collection hcollection => ?_) fun _ _ => unchanged_refl
  rw [← wp_bind]
  refine atomically_writeMetadata fun blob hblob => ?_
  have hload := broker.aliasKind.load_of_encode hvalid hblob
  rw [collectionAt_eq_ok] at hcollection
  rw [Taken, VisibleVault.apply, visible_collections, hcollection, if_neg (by simp), VisibleVault.withAlias,
    show broker.visible (vault.put (.alias record.name) blob) = _ from
      visible_put_alias hload ⟨collection, hcollection⟩]

theorem atomically_removeAlias (hsound : broker.Sound vault) (name : String) :
    broker.Atomically faults (removeAlias name) ((broker.visible vault).apply (.removeAlias name)) vault := by
  simp only [Atomically, removeAlias, wp_bind, wp_ofExcept, wp_readCredential]
  refine ⟨unchangedOrTaken_refl, either_intro (fun _ _ => ?_) fun _ _ => unchanged_refl⟩
  refine ⟨unchangedOrTaken_refl, fun _ _ => unchanged_refl, ?_⟩
  split_ifs with hstored
  · exact atomically_throw _
  · obtain ⟨blob, hblob⟩ := Option.ne_none_iff_exists'.mp (mt Option.isNone_iff_eq_none.mpr hstored)
    obtain ⟨record, hload, -⟩ := hsound.aliases name blob hblob
    have hvisible : (broker.visible vault).aliases[name]? = some record := by
      rw [hsound.visible_aliases_eq]
      exact RecordKind.stored_eq_some.mpr ⟨blob, hblob, hload⟩
    have htaken : broker.Taken ((broker.visible vault).apply (.removeAlias name)) .empty
        (vault.drop (.alias name)) := by
      rw [Taken, VisibleVault.apply, hvisible, if_neg (by simp), visible_drop_alias]
    simp only [wp_bind, wp_deleteCredential, wp_pure]
    exact ⟨unchangedOrTaken_refl, fun _ _ => unchanged_refl, .inr ⟨_, htaken⟩, .inr ⟨_, htaken⟩, htaken⟩

theorem atomically_createItem (item : ItemMetadata) (secret : SecretBytes) :
    broker.Atomically faults (broker.createItem item secret)
      ((broker.visible vault).apply (.createItem item secret)) vault := by
  simp only [Atomically, createItem, wp_bind, wp_ofExcept, wp_requireCollection, wp_readCredential]
  refine ⟨unchangedOrTaken_refl, either_intro (fun _ hvalid => ?_) fun _ _ => unchanged_refl⟩
  refine ⟨unchangedOrTaken_refl, fun _ _ => unchanged_refl, ?_⟩
  refine either_intro (fun collection hcollection => ?_) fun _ _ => unchanged_refl
  refine ⟨unchangedOrTaken_refl, fun _ _ => unchanged_refl, ?_⟩
  split_ifs with hstored
  · exact atomically_throw _
  · have hlookup := Option.not_isSome_iff_eq_none.mp hstored
    refine atomically_commitNewGeneration hvalid (uncommitted_of_lookup_none hlookup) ?_
    rw [collectionAt_eq_ok] at hcollection
    have hnone : (broker.visible vault).items[item.id]? = none := by
      rw [Option.eq_none_iff_forall_ne_some]
      intro entry hentry
      have hitem := (visible_items.mp hentry).1
      rw [stored_of_lookup_none hlookup] at hitem
      cases hitem
    rw [VisibleVault.apply, visible_collections, hcollection, hnone, if_neg (by simp)]

theorem atomically_updateItem (hsound : broker.Sound vault) (item : ItemMetadata) (secret : Option SecretBytes) :
    broker.Atomically faults (broker.updateItem item secret)
      ((broker.visible vault).apply (.updateItem item secret)) vault := by
  simp only [Atomically, updateItem, wp_bind, wp_ofExcept, wp_getItemMetadata, wp_requireCollection]
  refine ⟨unchangedOrTaken_refl, fun _ _ => unchanged_refl, ?_⟩
  refine either_intro (fun existing hexisting => ?_) fun _ _ => unchanged_refl
  refine ⟨unchangedOrTaken_refl, either_intro (fun _ hvalid => ?_) fun _ _ => unchanged_refl⟩
  refine ⟨unchangedOrTaken_refl, fun _ _ => unchanged_refl, ?_⟩
  refine either_intro (fun collection hcollection => ?_) fun _ _ => unchanged_refl
  rw [itemAt_eq_ok] at hexisting
  rw [collectionAt_eq_ok] at hcollection
  obtain ⟨current, hcurrent⟩ := hsound.exists_visible_items.mpr hexisting
  have hfound := (visible_collections item.collectionId).trans hcollection
  cases secret with
  | some secret =>
      dsimp only
      split_ifs with hsame
      · exact atomically_throw _
      · refine atomically_commitNewGeneration (validateItem_succeed hvalid)
          (uncommitted_of_stored hexisting (Ne.symm hsame)) ?_
        rw [VisibleVault.apply, VisibleVault.update_of_items hcurrent hfound]
        exact if_neg hsame
  | none =>
      refine atomically_writeMetadata fun blob hblob => ?_
      have hload := broker.itemKind.load_of_encode
        (validateItem_keepGeneration hvalid (RecordKind.check_of_stored hexisting)) hblob
      rw [Taken, VisibleVault.apply, VisibleVault.update_of_items hcurrent hfound,
        show broker.visible (vault.put (.itemMetadata (item.succeed existing).id) blob) = _ from
          visible_put_item hload (visible_items.mp hcurrent).2]
      rfl

theorem atomically_updateItemCas (hsound : broker.Sound vault) (item : ItemMetadata)
    (secret : Option SecretBytes) (expectedModified : UInt64) :
    broker.Atomically faults (broker.updateItemCas item secret expectedModified)
      ((broker.visible vault).apply (.updateItemCas item secret expectedModified)) vault := by
  simp only [Atomically, updateItemCas, wp_bind, wp_getItemMetadata]
  refine ⟨unchangedOrTaken_refl, fun _ _ => unchanged_refl, ?_⟩
  refine either_intro (fun existing hexisting => ?_) fun _ _ => unchanged_refl
  split_ifs with hmodified
  · exact atomically_throw _
  · obtain ⟨current, hcurrent⟩ := hsound.exists_visible_items.mpr (itemAt_eq_ok.mp hexisting)
    have happly : (broker.visible vault).apply (.updateItemCas item secret expectedModified) =
        (broker.visible vault).apply (.updateItem item secret) := by
      simp only [VisibleVault.apply, hcurrent, if_neg hmodified]
    rw [happly]
    exact atomically_updateItem hsound item secret

/-- Every write of a single record takes the step of the visible vault or none. -/
theorem atomically_execute (hsound : broker.Sound vault) (write : RecordWrite) :
    broker.Atomically faults (broker.execute write.toOperation) ((broker.visible vault).apply write) vault := by
  simp only [Atomically, execute, wp_bind, wp_acquireLock]
  refine ⟨unchangedOrTaken_refl, fun _ _ => unchanged_refl, ?_⟩
  cases write with
  | createCollection collection => exact atomically_createCollection hsound collection
  | updateCollection collection => exact atomically_updateCollection hsound collection
  | setAlias record => exact atomically_setAlias record
  | removeAlias name => exact atomically_removeAlias hsound name
  | createItem item secret => exact atomically_createItem item secret
  | updateItem item secret => exact atomically_updateItem hsound item secret
  | updateItemCas item secret expectedModified =>
      exact atomically_updateItemCas hsound item secret expectedModified

section Answers

variable {write : RecordWrite} {fates : Fates BackendError}

theorem Sound.visible_of_error (hsound : broker.Sound vault) {error : BrokerError}
    (h : (broker.respond ⟨write.toOperation, fates⟩ vault).outcome = .returned (.error error)) :
    broker.visible (broker.respond ⟨write.toOperation, fates⟩ vault).state = broker.visible vault :=
  execute_of_wp (atomically_execute hsound write) (within_any fates) h

theorem Sound.apply_of_ok (hsound : broker.Sound vault) {body : ResponseBody}
    (h : (broker.respond ⟨write.toOperation, fates⟩ vault).outcome = .returned (.ok body)) :
    (broker.visible vault).apply write =
      some (body, broker.visible (broker.respond ⟨write.toOperation, fates⟩ vault).state) :=
  execute_of_wp (atomically_execute hsound write) (within_any fates) h

theorem Sound.visible_of_passes (hsound : broker.Sound vault) {passed : Vault}
    (h : passed ∈ broker.passes ⟨write.toOperation, fates⟩ vault) :
    broker.visible passed = broker.visible vault ∨
      ∃ body, (broker.visible vault).apply write = some (body, broker.visible passed) :=
  visited_of_wp (atomically_execute hsound write) (within_any fates) passed h

variable (write) (fates) in
/-- A write that is not answered by a result changes nothing, or, if its answer was lost, is taken. -/
theorem Sound.respond_cases (hsound : broker.Sound vault) :
    ((∀ body, (broker.respond ⟨write.toOperation, fates⟩ vault).outcome ≠ .returned (.ok body)) ∧
        broker.visible (broker.respond ⟨write.toOperation, fates⟩ vault).state = broker.visible vault) ∨
      ((∀ error, (broker.respond ⟨write.toOperation, fates⟩ vault).outcome ≠ .returned (.error error)) ∧
        ∃ body, (broker.visible vault).apply write =
          some (body, broker.visible (broker.respond ⟨write.toOperation, fates⟩ vault).state)) := by
  cases houtcome : (broker.respond ⟨write.toOperation, fates⟩ vault).outcome with
  | killed =>
      exact (hsound.visible_of_passes (broker.respond_state_mem_passes _ vault)).imp
        (fun h => ⟨fun _ => nofun, h⟩) fun h => ⟨fun _ => nofun, h⟩
  | returned result =>
      cases result with
      | error error => exact .inl ⟨fun _ => nofun, hsound.visible_of_error houtcome⟩
      | ok body => exact .inr ⟨fun _ => nofun, body, hsound.apply_of_ok houtcome⟩

end Answers

/-- In every vault that runs with failures and kills leave, a write of a single record that answers an
error has changed no answer of any reader. One that answers a result has changed them to those of the
vault with exactly that record changed as answered. Wherever it stops, readers get the old answers or
the new ones. -/
theorem record_writes_are_atomic (broker : Broker) (steps : List BrokerStep) (write : RecordWrite)
    (fates : Fates BackendError) :
    let vault := broker.after steps ∅
    let step : BrokerStep := ⟨write.toOperation, fates⟩
    let ending := broker.respond step vault
    broker.view vault = (broker.visible vault).answer ∧
    (∀ error, ending.outcome = .returned (.error error) → broker.view ending.state = broker.view vault) ∧
    (∀ body, ending.outcome = .returned (.ok body) →
      ∃ changed, (broker.visible vault).apply write = some (body, changed) ∧
        broker.view ending.state = changed.answer) ∧
    ∀ passed ∈ ending.state :: broker.passes step vault, broker.view passed = broker.view vault ∨
      ∃ body changed, (broker.visible vault).apply write = some (body, changed) ∧
        broker.view passed = changed.answer := by
  intro vault step ending
  have hsound : broker.Sound vault := sound_empty.after steps
  have hending : broker.Sound ending.state := hsound.respond step
  refine ⟨hsound.view_eq, fun error herror => ?_, fun body hbody => ?_, fun passed hpassed => ?_⟩
  · rw [hending.view_eq, hsound.view_eq, hsound.visible_of_error herror]
  · exact ⟨_, hsound.apply_of_ok hbody, hending.view_eq⟩
  · have hmem : passed ∈ broker.passes step vault := by
      rcases List.mem_cons.mp hpassed with rfl | hmem
      · exact broker.respond_state_mem_passes step vault
      · exact hmem
    have hrest := hsound.passes step passed hmem
    rcases hsound.visible_of_passes hmem with hsame | ⟨body, happly⟩
    · left
      rw [hrest.view_eq, hsound.view_eq, hsame]
    · exact .inr ⟨body, _, happly, hrest.view_eq⟩

end Broker

end WincredLibsecret
