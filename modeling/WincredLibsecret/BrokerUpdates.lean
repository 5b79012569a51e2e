import WincredLibsecret.BrokerAtomicity

/-! Revisions of items. A request changes the record of an item in one of three ways: it deletes it,
creates it, or updates it, and an update moves the revision forward as long as the revision has not
reached its maximum. A revision that is still what a reader saw therefore means that nothing was
updated since. -/

namespace WincredLibsecret

open Effect Effect.Action

/-- The item a request brings along. -/
def Operation.suppliedItem : Operation → Option ItemMetadata
  | .createItem item _ | .createOrReplaceItem item _ _ | .updateItem item _ | .updateItemCas item _ _ => some item
  | _ => none

/-- The revision a client sends along is at most the given one. -/
def Operation.ModifiedWithin (latest : Nat) (operation : Operation) : Prop :=
  ∀ item, operation.suppliedItem = some item → item.modified.toNat ≤ latest

/-- The items an answer shows to a reader. -/
def ResponseBody.shownItems : ResponseBody → List ItemMetadata
  | .item found _ => [found]
  | .items listed => listed
  | _ => []

/-- The item and the secret with which a request updates an item. -/
def Operation.itemUpdate : Operation → Option (ItemMetadata × Option SecretBytes)
  | .updateItem item secret | .updateItemCas item secret _ => some (item, secret)
  | _ => none

theorem suppliedItem_of_itemUpdate {operation : Operation} {item : ItemMetadata} {secret : Option SecretBytes}
    (h : operation.itemUpdate = some (item, secret)) : operation.suppliedItem = some item := by
  cases operation with
  | updateItem | updateItemCas =>
      cases h
      rfl
  | _ => cases h

/-- The record an update stores over an existing one. -/
def ItemMetadata.revise (item : ItemMetadata) (secret : Option SecretBytes) (existing : ItemMetadata) : ItemMetadata :=
  match secret with
  | some _ => item.succeed existing
  | none => { item.succeed existing with currentGeneration := existing.currentGeneration }

theorem toNat_saturatingSucc_le (value : UInt64) : (saturatingSucc value).toNat ≤ value.toNat + 1 := by
  unfold saturatingSucc
  split_ifs with h
  · rw [UInt64.toNat_add]
    exact Nat.mod_le _ _
  · exact Nat.le_succ _

theorem toNat_max (left right : UInt64) : (max left right).toNat = max left.toNat right.toNat := by
  rw [show max left right = if left ≤ right then right else left from rfl, apply_ite UInt64.toNat]
  simp only [UInt64.le_iff_toNat_le]
  split_ifs <;> omega

theorem lt_saturatingSucc {value : UInt64} (h : value.toNat + 1 < UInt64.size) : value < saturatingSucc value := by
  rw [saturatingSucc, if_pos h, UInt64.lt_iff_toNat_lt, UInt64.toNat_add]
  exact Nat.lt_of_lt_of_eq (Nat.lt_succ_self _) (Nat.mod_eq_of_lt h).symm

namespace ItemMetadata

variable (item : ItemMetadata) (secret : Option SecretBytes) (existing : ItemMetadata)

@[simp] theorem revise_id : (item.revise secret existing).id = item.id := by
  cases secret <;> rfl

@[simp] theorem revise_created : (item.revise secret existing).created = existing.created := by
  cases secret <;> rfl

theorem revise_modified :
    (item.revise secret existing).modified = max item.modified (saturatingSucc existing.modified) := by
  cases secret <;> rfl

theorem lt_revise_modified (h : existing.modified.toNat + 1 < UInt64.size) :
    existing.modified < (item.revise secret existing).modified := by
  have hsucc := UInt64.lt_iff_toNat_lt.mp (lt_saturatingSucc h)
  rw [UInt64.lt_iff_toNat_lt, revise_modified, toNat_max]
  omega

theorem toNat_revise_modified_le {bound : Nat} (hitem : item.modified.toNat ≤ bound)
    (hexisting : existing.modified.toNat ≤ bound) : (item.revise secret existing).modified.toNat ≤ bound + 1 := by
  have hsucc := toNat_saturatingSucc_le existing.modified
  rw [revise_modified, toNat_max]
  omega

end ItemMetadata

/-- What a request can do to the record of one item. -/
inductive ItemChange (operation : Operation) (id : Uuid) : Option ItemMetadata → Option ItemMetadata → Prop
  | same (found : Option ItemMetadata) : ItemChange operation id found found
  | deleted (found : Option ItemMetadata) : ItemChange operation id found none
  | created (item : ItemMetadata) (hsupplied : operation.suppliedItem = some item) (hid : item.id = id) :
      ItemChange operation id none (some item)
  | updated (item existing : ItemMetadata) (secret : Option SecretBytes)
      (hupdate : operation.itemUpdate = some (item, secret)) (hid : item.id = id) :
      ItemChange operation id (some existing) (some (item.revise secret existing))

theorem ItemChange.then_deleted {operation : Operation} {id : Uuid} {before after last : Option ItemMetadata}
    (h : ItemChange operation id before after) (hlast : last = after ∨ last = none) :
    ItemChange operation id before last := by
  rcases hlast with rfl | rfl
  · exact h
  · exact .deleted before

namespace VisibleVault

/-- The metadata of a visible item. -/
def metadata (visible : VisibleVault) (id : Uuid) : Option ItemMetadata := visible.items[id]?.map Prod.fst

theorem metadata_withItem (visible : VisibleVault) (item : ItemMetadata) (secret : SecretBytes) (id : Uuid) :
    (visible.withItem item secret).metadata id = if item.id = id then some item else visible.metadata id := by
  rw [metadata, withItem, Std.ExtTreeMap.getElem?_insert]
  by_cases h : item.id = id
  · rw [if_pos h, if_pos (by simp [h])]
    rfl
  · rw [if_neg h, if_neg fun heq => h (Std.LawfulEqOrd.eq_of_compare heq)]
    rfl

variable {visible : VisibleVault} {secret : Option SecretBytes}

theorem update_eq_some {changed : VisibleVault} {item : ItemMetadata} {body : ResponseBody}
    (h : visible.update item secret = some (body, changed)) :
    ∃ existing current, visible.items[item.id]? = some (existing, current) ∧
      body = .item (item.revise secret existing) none ∧
      changed = visible.withItem (item.revise secret existing) (secret.getD current) := by
  rw [update] at h
  cases hitem : visible.items[item.id]? with
  | none => simp [hitem] at h
  | some entry =>
      rcases entry with ⟨existing, current⟩
      cases secret with
      | none =>
          simp only [hitem, Option.ite_none_left_eq_some, Option.some.injEq, Prod.mk.injEq] at h
          obtain ⟨-, rfl, rfl⟩ := h
          exact ⟨existing, current, rfl, rfl, rfl⟩
      | some secret =>
          simp only [hitem, Option.ite_none_left_eq_some, Option.some.injEq, Prod.mk.injEq] at h
          obtain ⟨-, -, rfl, rfl⟩ := h
          exact ⟨existing, current, rfl, rfl, rfl⟩

theorem updateItemCas_eq_some {changed : VisibleVault} {item : ItemMetadata} {expectedModified : UInt64}
    {body : ResponseBody} (h : visible.apply (.updateItemCas item secret expectedModified) = some (body, changed)) :
    (∃ existing current, visible.items[item.id]? = some (existing, current) ∧ existing.modified = expectedModified) ∧
      visible.update item secret = some (body, changed) := by
  rw [apply] at h
  cases hitem : visible.items[item.id]? with
  | none => simp [hitem] at h
  | some entry =>
      rcases entry with ⟨existing, current⟩
      simp only [hitem, Option.ite_none_left_eq_some, not_not] at h
      exact ⟨⟨existing, current, rfl, h.1⟩, h.2⟩

theorem metadata_revise {item existing : ItemMetadata} {current kept : SecretBytes} {operation : Operation}
    (hupdate : operation.itemUpdate = some (item, secret)) (hitem : visible.items[item.id]? = some (existing, current))
    (id : Uuid) :
    ItemChange operation id (visible.metadata id)
      ((visible.withItem (item.revise secret existing) kept).metadata id) := by
  rw [metadata_withItem, ItemMetadata.revise_id]
  split_ifs with h
  · subst h
    rw [metadata, hitem]
    exact .updated item existing secret hupdate rfl
  · exact .same _

/-- A write of a single record changes at most the item it names. -/
theorem apply_itemChange {changed : VisibleVault} {write : RecordWrite} {body : ResponseBody}
    (h : visible.apply write = some (body, changed)) (id : Uuid) :
    ItemChange write.toOperation id (visible.metadata id) (changed.metadata id) := by
  cases write with
  | createCollection collection =>
      simp only [apply, Option.ite_none_left_eq_some, Option.some.injEq, Prod.mk.injEq] at h
      obtain ⟨-, -, rfl⟩ := h
      exact .same _
  | updateCollection collection =>
      rw [apply] at h
      split at h
      · cases h
      · cases h
        exact .same _
  | setAlias record =>
      simp only [apply, Option.ite_none_left_eq_some, Option.some.injEq, Prod.mk.injEq] at h
      obtain ⟨-, -, rfl⟩ := h
      exact .same _
  | removeAlias name =>
      simp only [apply, Option.ite_none_left_eq_some, Option.some.injEq, Prod.mk.injEq] at h
      obtain ⟨-, -, rfl⟩ := h
      exact .same _
  | createItem item secret =>
      simp only [apply, Option.ite_none_left_eq_some, Option.some.injEq, Prod.mk.injEq, Bool.or_eq_true,
        not_or] at h
      obtain ⟨⟨-, hitem⟩, -, rfl⟩ := h
      rw [metadata_withItem]
      split_ifs with hid
      · subst hid
        rw [metadata, Option.not_isSome_iff_eq_none.mp hitem]
        exact .created item rfl rfl
      · exact .same _
  | updateItem item secret =>
      obtain ⟨existing, current, hitem, -, rfl⟩ := update_eq_some h
      exact metadata_revise rfl hitem id
  | updateItemCas item secret expectedModified =>
      obtain ⟨existing, current, hitem, -, rfl⟩ := update_eq_some (updateItemCas_eq_some h).2
      exact metadata_revise rfl hitem id

end VisibleVault

namespace Broker

variable {broker : Broker} {vault : Vault}

theorem Sound.stored_item (hsound : broker.Sound vault) (id : Uuid) :
    broker.itemKind.stored vault id = (broker.visible vault).metadata id := by
  ext item
  rw [← hsound.exists_visible_items, VisibleVault.metadata, Option.map_eq_some_iff]
  constructor
  · rintro ⟨secret, hsecret⟩
    exact ⟨_, hsecret, rfl⟩
  · rintro ⟨⟨found, secret⟩, hsecret, rfl⟩
    exact ⟨secret, hsecret⟩

section Deleting

open Action

theorem calls_deleteItemFromEntries (id : Uuid) (entries : List Entry) :
    Calls VaultCall.IsShrinking (deleteItemFromEntries id entries) :=
  calls_bind (calls_perform trivial) fun _ => calls_forM fun _ _ => calls_perform trivial

theorem calls_deleteItem (id : Uuid) : Calls VaultCall.IsShrinking (broker.deleteItem id) :=
  calls_bind (calls_mono (fun _ h => h.isShrinking) (calls_getItemMetadata id)) fun _ =>
    calls_bind (calls_mono (fun _ h => h.isShrinking) calls_entries) fun entries =>
      calls_bind (calls_deleteItemFromEntries id entries) fun _ => calls_pure _

theorem calls_deleteCollection (collectionId : Uuid) :
    Calls VaultCall.IsShrinking (broker.deleteCollection collectionId) :=
  calls_bind (calls_mono (fun _ h => h.isShrinking) (calls_getCollection collectionId)) fun _ =>
    calls_bind (calls_mono (fun _ h => h.isShrinking) calls_entries) fun entries =>
      calls_bind (calls_forM fun id _ => calls_deleteItemFromEntries id entries) fun _ =>
        calls_bind (calls_forM fun _ _ => calls_perform trivial) fun _ =>
          calls_bind (calls_perform trivial) fun _ => calls_pure _

theorem calls_recover (plan : List RecoveryAction) : Calls VaultCall.IsShrinking (recover plan) := by
  induction plan with
  | nil => exact calls_pure _
  | cons action rest ih =>
      cases action with
      | deleteAbandonedGeneration =>
          exact calls_bind (calls_perform trivial) fun _ => calls_bind ih fun _ => calls_pure _
      | reportMissingCommittedGeneration => exact calls_bind ih fun _ => calls_pure _

theorem calls_reconcileLocked : Calls VaultCall.IsShrinking broker.reconcileLocked :=
  calls_bind (calls_mono (fun _ h => h.isShrinking) calls_entries) fun _ =>
    calls_bind (calls_recover _) fun _ => calls_pure _

theorem calls_cleanUp (target : TargetName) : Calls VaultCall.IsShrinking (cleanUp (.deleteSecret target)) :=
  calls_bind (calls_attempt (calls_perform trivial)) fun _ => calls_pure _

theorem calls_deleteReplacedItems (entries : List Entry) (ids : List Uuid) :
    Calls VaultCall.IsShrinking (deleteReplacedItems entries ids) := by
  induction ids with
  | nil => exact calls_pure _
  | cons id rest ih =>
      have hitem : Calls VaultCall.IsShrinking (deleteReplacedItem id entries) :=
        calls_bind (calls_perform trivial) fun _ => calls_forM fun _ _ => calls_cleanUp _
      refine calls_bind (calls_attempt hitem) fun outcome => calls_bind ih fun others => ?_
      cases outcome with
      | error error => exact calls_pure _
      | ok value => exact calls_pure _

end Deleting

variable {rest : Vault} {operation : Operation} {faults : BackendError → Prop}

variable (broker) in
/-- Every item of the vault is changed at most as the request says. -/
def ChangesItems (operation : Operation) (vault rest : Vault) : Prop :=
  ∀ id, ItemChange operation id (broker.itemKind.stored vault id) (broker.itemKind.stored rest id)

theorem ChangesItems.refl (operation : Operation) (vault : Vault) : broker.ChangesItems operation vault vault :=
  fun _ => .same _

theorem ChangesItems.of_agree (operation : Operation)
    (h : ∀ id, rest.lookup (.itemMetadata id) = vault.lookup (.itemMetadata id)) :
    broker.ChangesItems operation vault rest := by
  intro id
  rw [show broker.itemKind.stored rest id = broker.itemKind.stored vault id from RecordKind.stored_congr (h id)]
  exact .same _

theorem ChangesItems.then_shrinks {last : Vault} (h : broker.ChangesItems operation vault rest)
    (hshrinks : rest.Shrinks last) : broker.ChangesItems operation vault last := by
  refine fun id => (h id).then_deleted ?_
  rcases hshrinks (.itemMetadata id) with hsame | hnone
  · exact .inl (RecordKind.stored_congr hsame)
  · exact .inr (stored_of_lookup_none hnone)

/-- What only deletes changes items only by deleting them. -/
theorem ChangesItems.of_calls {α : Type} {action : BrokerAction α} (hcalls : Calls VaultCall.IsShrinking action)
    (h : broker.ChangesItems operation vault rest) :
    wp broker.backend.serve faults action (fun _ => broker.ChangesItems operation vault)
      (fun _ => broker.ChangesItems operation vault) (broker.ChangesItems operation vault) rest :=
  wp_mono (fun _ _ => h.then_shrinks) (fun _ _ => h.then_shrinks) (fun _ => h.then_shrinks)
    (wp_of_calls (broker.backend.serve_of_isShrinking rest) hcalls (Vault.Shrinks.refl rest))

variable {item : ItemMetadata} {secret : Option SecretBytes} {fates : Fates BackendError} {body : ResponseBody}

theorem changesItems_commitNewGeneration {secret : SecretBytes} (hsupplied : operation.suppliedItem = some item)
    (hvalid : validateItem item = .ok ()) (hnone : vault.lookup (.itemMetadata item.id) = none) :
    wp broker.backend.serve faults (broker.commitNewGeneration item none secret)
      (fun _ => broker.ChangesItems operation vault) (fun _ => broker.ChangesItems operation vault)
      (broker.ChangesItems operation vault) vault := by
  have hrefl : broker.ChangesItems operation vault vault := .refl operation vault
  refine wp_commitNewGeneration hrefl (fun _ _ => hrefl) (fun _ _ => hrefl) ?_ ?_ ?_
  · intro written hwritten
    have hput : broker.ChangesItems operation vault written :=
      .of_agree operation fun id => by rw [hwritten, Vault.lookup_put_of_ne (by simp)]
    exact ⟨hput, fun _ _ => hput⟩
  · intro rolled hrolled
    have hdrop : broker.ChangesItems operation vault rolled := .of_agree operation fun id => by
      rw [hrolled, Vault.lookup_drop_of_ne (by simp), Vault.lookup_put_of_ne (by simp)]
    exact ⟨hdrop, fun _ _ => hdrop⟩
  · intro blob hblob committed hcommitted
    have hchange : broker.ChangesItems operation vault committed := by
      intro id
      by_cases hid : item.id = id
      · have hstored : broker.itemKind.stored committed id = some item := by
          rw [hcommitted, ← hid]
          exact RecordKind.stored_put_self (broker.itemKind.load_of_encode hvalid hblob)
        rw [hstored, show broker.itemKind.stored vault id = none from stored_of_lookup_none (hid ▸ hnone)]
        exact .created item hsupplied hid
      · have hstored : broker.itemKind.stored committed id = broker.itemKind.stored vault id := by
          refine RecordKind.stored_congr ?_
          rw [hcommitted, Vault.lookup_put_of_ne (by simpa [itemKind] using hid)]
          exact Vault.lookup_put_of_ne (by simp [itemKind])
        rw [hstored]
        exact .same _
    exact ⟨⟨hchange, hchange⟩, by simp⟩

theorem changesItems_createOrReplaceItem (item : ItemMetadata) (secret : SecretBytes) (replace : Bool)
    (hsupplied : operation.suppliedItem = some item) :
    wp broker.backend.serve faults (broker.createOrReplaceItem item secret replace)
      (fun _ => broker.ChangesItems operation vault) (fun _ => broker.ChangesItems operation vault)
      (broker.ChangesItems operation vault) vault := by
  have hrefl : broker.ChangesItems operation vault vault := .refl operation vault
  simp only [createOrReplaceItem, wp_bind, wp_ofExcept, wp_requireCollection, wp_readCredential]
  refine ⟨hrefl, either_intro (fun _ hvalid => ⟨hrefl, fun _ _ => hrefl, ?_⟩) fun _ _ => hrefl⟩
  refine either_intro (fun collection _ => ⟨hrefl, fun _ _ => hrefl, ?_⟩) fun _ _ => hrefl
  split_ifs with hstored
  · exact ⟨hrefl, hrefl⟩
  rw [wp_bind]
  refine wp_of_reading (calls_replacedItemIds item replace) hrefl (fun replaced => ?_) fun _ => hrefl
  simp only [wp_bind, wp_entries]
  refine wp_mono (fun _ next hnext => ?_) (fun _ _ h => h) (fun _ h => h)
    (changesItems_commitNewGeneration hsupplied hvalid (Option.not_isSome_iff_eq_none.mp hstored))
  refine ⟨hnext, fun _ _ => hnext, ?_⟩
  exact wp_mono (fun _ _ h => ⟨h, h⟩) (fun _ _ h => h) (fun _ h => h)
    (hnext.of_calls (calls_deleteReplacedItems _ _))

theorem changesItems_of_wp
    (hwp : wp broker.backend.serve (fun _ => True) (broker.perform operation)
      (fun _ => broker.ChangesItems operation vault) (fun _ => broker.ChangesItems operation vault)
      (broker.ChangesItems operation vault) vault) :
    ∀ passed ∈ broker.passes ⟨operation, fates⟩ vault, broker.ChangesItems operation vault passed := by
  have hexecute : wp broker.backend.serve (fun _ => True) (broker.execute operation)
      (fun _ => broker.ChangesItems operation vault) (fun _ => broker.ChangesItems operation vault)
      (broker.ChangesItems operation vault) vault := by
    simp only [execute, wp_bind, wp_acquireLock]
    exact ⟨.refl operation vault, fun _ _ => .refl operation vault, hwp⟩
  exact visited_of_wp hexecute (within_any fates)

theorem Sound.changesItems_of_write (hsound : broker.Sound vault) (write : RecordWrite) (fates : Fates BackendError) :
    ∀ passed ∈ broker.passes ⟨write.toOperation, fates⟩ vault,
      broker.ChangesItems write.toOperation vault passed := by
  intro passed hpassed id
  rw [hsound.stored_item, (hsound.passes _ passed hpassed).stored_item]
  rcases hsound.visible_of_passes hpassed with hsame | ⟨body, happly⟩
  · rw [hsame]
    exact .same _
  · exact VisibleVault.apply_itemChange happly id

/-- Every request changes the items at most as it says, wherever it stops. -/
theorem Sound.changesItems (hsound : broker.Sound vault) (step : BrokerStep) :
    ∀ passed ∈ broker.passes step vault, broker.ChangesItems step.operation vault passed := by
  rcases step with ⟨operation, fates⟩
  have hreads : Calls VaultCall.IsReading (broker.perform operation) →
      ∀ passed ∈ broker.passes ⟨operation, fates⟩ vault, broker.ChangesItems operation vault passed :=
    fun hcalls => changesItems_of_wp (wp_of_reading hcalls (.refl operation vault)
      (fun _ => .refl operation vault) fun _ => .refl operation vault)
  have hdeletes : Calls VaultCall.IsShrinking (broker.perform operation) →
      ∀ passed ∈ broker.passes ⟨operation, fates⟩ vault, broker.ChangesItems operation vault passed :=
    fun hcalls => changesItems_of_wp ((ChangesItems.refl operation vault).of_calls hcalls)
  cases operation with
  | ping => exact hreads (calls_pure _)
  | listCollections => exact hreads calls_listCollections
  | getCollection collectionId =>
      exact hreads (calls_bind (calls_getCollection _) fun _ => calls_pure _)
  | createCollection collection => exact hsound.changesItems_of_write (.createCollection collection) fates
  | updateCollection collection => exact hsound.changesItems_of_write (.updateCollection collection) fates
  | deleteCollection collectionId => exact hdeletes (calls_deleteCollection collectionId)
  | listAliases => exact hreads calls_listAliases
  | resolveAlias name => exact hreads (calls_resolveAlias name)
  | setAlias record => exact hsound.changesItems_of_write (.setAlias record) fates
  | removeAlias name => exact hsound.changesItems_of_write (.removeAlias name) fates
  | searchItems attributes => exact hreads (calls_searchItems attributes)
  | listItems collectionId => exact hreads (calls_listItems collectionId)
  | getItem itemId includeSecret => exact hreads (calls_getItem itemId includeSecret)
  | createItem item secret => exact hsound.changesItems_of_write (.createItem item secret) fates
  | createOrReplaceItem item secret replace =>
      exact changesItems_of_wp (changesItems_createOrReplaceItem item secret replace rfl)
  | updateItem item secret => exact hsound.changesItems_of_write (.updateItem item secret) fates
  | updateItemCas item secret expectedModified =>
      exact hsound.changesItems_of_write (.updateItemCas item secret expectedModified) fates
  | deleteItem itemId => exact hdeletes (calls_deleteItem itemId)
  | reconcile => exact hdeletes calls_reconcileLocked

theorem exists_write_of_itemUpdate (h : operation.itemUpdate = some (item, secret)) :
    ∃ write : RecordWrite, operation = write.toOperation ∧ ∀ {visible changed : VisibleVault} {body},
      visible.apply write = some (body, changed) → visible.update item secret = some (body, changed) := by
  cases operation with
  | updateItem =>
      cases h
      exact ⟨.updateItem item secret, rfl, fun h => h⟩
  | updateItemCas found stored expectedModified =>
      cases h
      exact ⟨.updateItemCas item secret expectedModified, rfl, fun h => (VisibleVault.updateItemCas_eq_some h).2⟩
  | _ => cases h

/-- An update that answers an error has changed no item. -/
theorem Sound.stored_of_failed_update (hsound : broker.Sound vault)
    (hupdate : operation.itemUpdate = some (item, secret)) {error : BrokerError}
    (herror : (broker.respond ⟨operation, fates⟩ vault).outcome = .returned (.error error)) (id : Uuid) :
    broker.itemKind.stored (broker.respond ⟨operation, fates⟩ vault).state id = broker.itemKind.stored vault id := by
  obtain ⟨write, rfl, -⟩ := exists_write_of_itemUpdate hupdate
  rw [(hsound.respond _).stored_item, hsound.stored_item, hsound.visible_of_error herror]

/-- An update that answers a result has stored the revised record. -/
theorem Sound.stored_of_answered_update (hsound : broker.Sound vault) {existing : ItemMetadata}
    (hupdate : operation.itemUpdate = some (item, secret))
    (hexisting : broker.itemKind.stored vault item.id = some existing)
    (hbody : (broker.respond ⟨operation, fates⟩ vault).outcome = .returned (.ok body)) :
    broker.itemKind.stored (broker.respond ⟨operation, fates⟩ vault).state item.id =
      some (item.revise secret existing) := by
  obtain ⟨write, rfl, happly⟩ := exists_write_of_itemUpdate hupdate
  obtain ⟨found, current, hfound, -, hvisible⟩ := VisibleVault.update_eq_some (happly (hsound.apply_of_ok hbody))
  cases hexisting.symm.trans (visible_items.mp hfound).1
  rw [(hsound.respond _).stored_item, hvisible, VisibleVault.metadata_withItem, if_pos (item.revise_id secret existing)]

variable (broker) in
/-- No stored revision exceeds the bound. -/
def RevisionsWithin (bound : Nat) (vault : Vault) : Prop :=
  ∀ id item, broker.itemKind.stored vault id = some item → item.modified.toNat ≤ bound

theorem revisionsWithin_empty (broker : Broker) (bound : Nat) : broker.RevisionsWithin bound ∅ := by
  intro id found hfound
  obtain ⟨blob, hblob, -⟩ := RecordKind.stored_eq_some.mp hfound
  simp at hblob

variable (broker) in
/-- Whether a request updates an item, as far as its answer tells: an error says it did not. -/
def updateCount (step : BrokerStep) (vault : Vault) : Nat :=
  match (broker.respond step vault).outcome with
  | .returned (.error _) => 0
  | _ => if step.operation.itemUpdate.isSome then 1 else 0

variable (broker) in
/-- The number of updates of items in a run. -/
def updatesIn : List BrokerStep → Vault → Nat
  | [], _ => 0
  | step :: rest, vault => broker.updateCount step vault + updatesIn rest (broker.respond step vault).state

theorem updateCount_of_update {step : BrokerStep} (hupdate : step.operation.itemUpdate = some (item, secret))
    (h : ∀ error, (broker.respond step vault).outcome ≠ .returned (.error error)) :
    broker.updateCount step vault = 1 := by
  rw [updateCount]
  split
  · exact absurd ‹_› (h _)
  · rw [hupdate]
    rfl

/-- Only updates move the bound on revisions, by one each. -/
theorem Sound.revisionsWithin_respond (hsound : broker.Sound vault) {latest bound : Nat}
    (hbound : broker.RevisionsWithin bound vault) (hlatest : latest ≤ bound) (step : BrokerStep)
    (hstep : step.operation.ModifiedWithin latest) :
    broker.RevisionsWithin (bound + broker.updateCount step vault) (broker.respond step vault).state := by
  intro id item hitem
  have hchange := hsound.changesItems step _ (broker.respond_state_mem_passes step vault) id
  rw [hitem] at hchange
  generalize hbefore : broker.itemKind.stored vault id = before at hchange
  cases hchange with
  | same => exact (hbound id item hbefore).trans (Nat.le_add_right _ _)
  | created _ hsupplied => exact (hstep item hsupplied).trans (hlatest.trans (Nat.le_add_right _ _))
  | updated sent existing secret hupdate hid =>
      by_cases herror : ∃ error, (broker.respond step vault).outcome = .returned (.error error)
      · obtain ⟨error, herror⟩ := herror
        rw [hsound.stored_of_failed_update hupdate herror id] at hitem
        exact (hbound id _ hitem).trans (Nat.le_add_right _ _)
      · rw [updateCount_of_update hupdate fun error h => herror ⟨error, h⟩]
        have hsupplied : step.operation.suppliedItem = some sent := suppliedItem_of_itemUpdate hupdate
        exact sent.toNat_revise_modified_le secret existing ((hstep sent hsupplied).trans hlatest)
          (hbound id existing hbefore)

theorem Sound.revisionsWithin_after (hsound : broker.Sound vault) {latest bound : Nat}
    (hbound : broker.RevisionsWithin bound vault) (hlatest : latest ≤ bound) (steps : List BrokerStep)
    (hsteps : ∀ step ∈ steps, step.operation.ModifiedWithin latest) :
    broker.RevisionsWithin (bound + broker.updatesIn steps vault) (broker.after steps vault) := by
  induction steps generalizing vault bound with
  | nil => exact hbound
  | cons step rest ih =>
      obtain ⟨hstep, hrest⟩ := List.forall_mem_cons.mp hsteps
      rw [updatesIn, ← Nat.add_assoc]
      exact ih (hsound.respond step) (hsound.revisionsWithin_respond hbound hlatest step hstep)
        (hlatest.trans (Nat.le_add_right _ _)) hrest

/-- The request does not answer an update of the item by a result. -/
def AnswersNoUpdate (broker : Broker) (id : Uuid) (step : BrokerStep) (vault : Vault) : Prop :=
  ∀ item secret, step.operation.itemUpdate = some (item, secret) → item.id = id →
    ∀ body, (broker.respond step vault).outcome ≠ .returned (.ok body)

/-- Across a request that leaves an item in place, either its record stays the same and no update of it
was answered, or its revision grows. -/
theorem Sound.revision_respond (hsound : broker.Sound vault) {bound : Nat}
    (hbound : broker.RevisionsWithin bound vault) {step : BrokerStep}
    (hroom : bound + broker.updateCount step vault < UInt64.size) {id : Uuid} {found next : ItemMetadata}
    (hfound : broker.itemKind.stored vault id = some found)
    (hnext : broker.itemKind.stored (broker.respond step vault).state id = some next) :
    (next = found ∧ broker.AnswersNoUpdate id step vault) ∨ found.modified < next.modified := by
  have hgrows : ∀ sent secret, step.operation.itemUpdate = some (sent, secret) →
      (∀ error, (broker.respond step vault).outcome ≠ .returned (.error error)) →
      next = sent.revise secret found → found.modified < next.modified := by
    rintro sent secret hupdate hanswer rfl
    rw [updateCount_of_update hupdate hanswer] at hroom
    exact sent.lt_revise_modified secret found
      (Nat.lt_of_le_of_lt (Nat.succ_le_succ (hbound id found hfound)) hroom)
  by_cases hanswered : broker.AnswersNoUpdate id step vault
  · have hchange := hsound.changesItems step _ (broker.respond_state_mem_passes step vault) id
    rw [hfound, hnext] at hchange
    generalize hafter : some next = after at hchange
    generalize hbefore : some found = before at hchange
    cases hchange with
    | same =>
        cases hbefore
        cases hafter
        exact .inl ⟨rfl, hanswered⟩
    | deleted => cases hafter
    | created => cases hbefore
    | updated sent existing secret hupdate hid =>
        cases hbefore
        cases hafter
        by_cases herror : ∃ error, (broker.respond step vault).outcome = .returned (.error error)
        · obtain ⟨error, herror⟩ := herror
          rw [hsound.stored_of_failed_update hupdate herror id, hfound, Option.some.injEq] at hnext
          exact .inl ⟨hnext.symm, hanswered⟩
        · exact .inr (hgrows sent secret hupdate (fun error h => herror ⟨error, h⟩) rfl)
  · simp only [AnswersNoUpdate, not_forall, not_not] at hanswered
    obtain ⟨sent, secret, hupdate, rfl, body, hbody⟩ := hanswered
    refine .inr (hgrows sent secret hupdate (fun error h => ?_) ?_)
    · rw [hbody] at h
      cases h
    · rw [hsound.stored_of_answered_update hupdate hfound hbody, Option.some.injEq] at hnext
      exact hnext.symm

/-- The same across a run in which the item is never absent. -/
theorem Sound.revision_after (hsound : broker.Sound vault) {latest bound : Nat}
    (hbound : broker.RevisionsWithin bound vault) (hlatest : latest ≤ bound) {steps : List BrokerStep}
    (hsteps : ∀ step ∈ steps, step.operation.ModifiedWithin latest)
    (hroom : bound + broker.updatesIn steps vault < UInt64.size) {id : Uuid} {found : ItemMetadata}
    (hfound : broker.itemKind.stored vault id = some found)
    (hpresent : ∀ passed ∈ broker.history steps vault, (broker.itemKind.stored passed id).isSome) :
    ∃ last, broker.itemKind.stored (broker.after steps vault) id = some last ∧
      ((last = found ∧ ∀ start ∈ broker.starts steps vault, broker.AnswersNoUpdate id start.1 start.2) ∨
        found.modified < last.modified) := by
  induction steps generalizing vault bound found with
  | nil => exact ⟨found, hfound, .inl ⟨rfl, fun _ h => absurd h List.not_mem_nil⟩⟩
  | cons step rest ih =>
      obtain ⟨hstep, hrest⟩ := List.forall_mem_cons.mp hsteps
      rw [updatesIn, ← Nat.add_assoc] at hroom
      have hpresent' : ∀ passed ∈ broker.history rest (broker.respond step vault).state,
          (broker.itemKind.stored passed id).isSome := fun passed hpassed =>
        hpresent passed (List.mem_append_right _ hpassed)
      obtain ⟨next, hnext⟩ := Option.isSome_iff_exists.mp
        (hpresent _ (List.mem_append_left _ (broker.respond_state_mem_passes step vault)))
      obtain ⟨last, hlast, hsince⟩ := ih (hsound.respond step)
        (hsound.revisionsWithin_respond hbound hlatest step hstep) (hlatest.trans (Nat.le_add_right _ _)) hrest
        hroom hnext hpresent'
      refine ⟨last, hlast, ?_⟩
      rcases hsound.revision_respond hbound (Nat.lt_of_le_of_lt (Nat.le_add_right _ _) hroom) hfound hnext with
        ⟨rfl, hanswers⟩ | hgrows
      · refine hsince.imp_left fun ⟨heq, hrest⟩ => ⟨heq, ?_⟩
        exact List.forall_mem_cons.mpr ⟨hanswers, hrest⟩
      · right
        rcases hsince with ⟨rfl, -⟩ | hlater
        · exact hgrows
        · rw [UInt64.lt_iff_toNat_lt] at hgrows hlater ⊢
          exact hgrows.trans hlater

theorem updatesIn_append (first second : List BrokerStep) :
    broker.updatesIn (first ++ second) vault =
      broker.updatesIn first vault + broker.updatesIn second (broker.after first vault) := by
  induction first generalizing vault with
  | nil => exact (Nat.zero_add _).symm
  | cons step rest ih => rw [List.cons_append, updatesIn, updatesIn, ih, Nat.add_assoc, after]

theorem wp_shownItems (broker : Broker) (vault : Vault) (request : ReadOperation) :
    wp broker.backend.serve (fun _ => True) (broker.perform request.toOperation)
      (fun body _ => ∀ item ∈ body.shownItems, broker.itemKind.stored vault item.id = some item)
      (fun _ _ => True) (fun _ => True) vault := by
  have hnone : ∀ item ∈ ([] : List ItemMetadata), broker.itemKind.stored vault item.id = some item :=
    fun _ h => absurd h List.not_mem_nil
  have hsome : ∀ p : ItemMetadata → Bool, ∀ item ∈ (broker.itemsOf vault).filter p,
      broker.itemKind.stored vault item.id = some item :=
    fun _ item hitem => mem_itemsOf.mp (List.mem_filter.mp hitem).1
  cases request with
  | listCollections =>
      simp only [ReadOperation.toOperation, perform, listCollections, wp_bind, wp_entries, wp_pure]
      exact ⟨trivial, fun _ _ => trivial, trivial, hnone⟩
  | getCollection collectionId =>
      simp only [ReadOperation.toOperation, perform, wp_bind, wp_getCollection, wp_pure]
      exact ⟨trivial, fun _ _ => trivial, either_intro (fun _ _ => ⟨trivial, hnone⟩) fun _ _ => trivial⟩
  | listAliases =>
      simp only [ReadOperation.toOperation, perform, listAliases, wp_bind, wp_entries]
      refine ⟨trivial, fun _ _ => trivial, ?_⟩
      exact wp_mono (fun _ _ _ => ⟨trivial, hnone⟩) (fun _ _ h => h) (fun _ h => h) (wp_trivial _ _)
  | resolveAlias name =>
      simp only [ReadOperation.toOperation, perform, resolveAlias, wp_bind, wp_ofExcept,
        wp_readCredential]
      refine ⟨trivial, either_intro (fun _ _ => ⟨trivial, fun _ _ => trivial, ?_⟩) fun _ _ => trivial⟩
      cases vault.lookup (.alias name) with
      | none => exact ⟨trivial, hnone⟩
      | some blob =>
          simp only [wp_bind, wp_ofExcept, wp_attempt, wp_getCollection]
          refine ⟨trivial, either_intro (fun record _ => ?_) fun _ _ => trivial⟩
          exact ⟨trivial, fun _ _ => ⟨trivial, trivial⟩,
            either_intro (fun _ _ => ⟨trivial, hnone⟩) fun _ _ => ⟨trivial, trivial⟩⟩
  | searchItems attributes =>
      simp only [ReadOperation.toOperation, perform, searchItems, wp_bind, wp_ofExcept, wp_validItems,
        wp_pure]
      exact ⟨trivial, either_intro (fun _ _ => ⟨trivial, fun _ _ => trivial, trivial, hsome _⟩)
        fun _ _ => trivial⟩
  | listItems collectionId =>
      simp only [ReadOperation.toOperation, perform, listItems, wp_bind, wp_getCollection, wp_validItems,
        wp_pure]
      exact ⟨trivial, fun _ _ => trivial, either_intro
        (fun _ _ => ⟨trivial, fun _ _ => trivial, trivial, hsome _⟩) fun _ _ => trivial⟩
  | getItem itemId includeSecret =>
      simp only [ReadOperation.toOperation, perform, getItem, wp_bind, wp_getItemMetadata]
      refine ⟨trivial, fun _ _ => trivial, either_intro (fun item hitem => ?_) fun _ _ => trivial⟩
      rw [itemAt_eq_ok] at hitem
      obtain rfl : item.id = itemId := RecordKind.key_of_stored hitem
      have hshown : ∀ shown ∈ [item], broker.itemKind.stored vault shown.id = some shown :=
        fun shown hshown => List.mem_singleton.mp hshown ▸ hitem
      cases includeSecret with
      | false => exact ⟨trivial, hshown⟩
      | true =>
          simp only [if_true, wp_bind, wp_readCredential, wp_ofExcept, wp_pure]
          exact ⟨trivial, fun _ _ => trivial, trivial,
            either_intro (fun _ _ => ⟨trivial, hshown⟩) fun _ _ => trivial⟩

/-- What a reader is shown is stored. -/
theorem stored_of_shown {request : ReadOperation}
    (hbody : (broker.respond ⟨request.toOperation, fates⟩ vault).outcome = .returned (.ok body)) :
    ∀ item ∈ body.shownItems, broker.itemKind.stored vault item.id = some item := by
  exact of_respond_ok (fun body _ => ∀ item ∈ body.shownItems, broker.itemKind.stored vault item.id = some item) hbody
    (broker.wp_shownItems vault request)

/-- A compare-and-swap that is answered by a result found the revision it expected. -/
theorem Sound.modified_of_answered_cas (hsound : broker.Sound vault) {expectedModified : UInt64}
    (hbody : (broker.respond ⟨.updateItemCas item secret expectedModified, fates⟩ vault).outcome =
      .returned (.ok body)) :
    ∃ existing, broker.itemKind.stored vault item.id = some existing ∧ existing.modified = expectedModified := by
  have happly : (broker.visible vault).apply (.updateItemCas item secret expectedModified) = some (body, _) :=
    hsound.apply_of_ok hbody
  obtain ⟨⟨existing, current, hitem, hmodified⟩, -⟩ := VisibleVault.updateItemCas_eq_some happly
  exact ⟨existing, (visible_items.mp hitem).1, hmodified⟩

/-- A compare-and-swap with the revision a reader was shown is answered by a result only if the item is
what the reader saw and no update of it was answered since. -/
theorem cas_of_shown {latest : Nat} {before between : List BrokerStep}
    (hsteps : ∀ step ∈ before ++ between, step.operation.ModifiedWithin latest)
    (hroom : broker.updatesIn (before ++ between) ∅ < 2 ^ 64 - 1 - latest) {request : ReadOperation}
    {readFates : Fates BackendError} {answer : ResponseBody} {shown : ItemMetadata}
    (hanswer : (broker.respond ⟨request.toOperation, readFates⟩ (broker.after before ∅)).outcome =
      .returned (.ok answer)) (hshown : shown ∈ answer.shownItems)
    (hpresent : ∀ passed ∈ broker.history between (broker.after before ∅),
      (broker.itemKind.stored passed shown.id).isSome) (hid : item.id = shown.id)
    (hbody : (broker.respond ⟨.updateItemCas item secret shown.modified, fates⟩
      (broker.after (before ++ between) ∅)).outcome = .returned (.ok body)) :
    (∀ start ∈ broker.starts between (broker.after before ∅), broker.AnswersNoUpdate shown.id start.1 start.2) ∧
      broker.itemKind.stored (broker.after (before ++ between) ∅) shown.id = some shown := by
  rw [updatesIn_append] at hroom
  rw [after_append] at hbody ⊢
  have hsound : broker.Sound (broker.after before ∅) := sound_empty.after before
  have hbound := sound_empty.revisionsWithin_after (broker.revisionsWithin_empty latest) le_rfl before
    fun step hstep => hsteps step (List.mem_append_left _ hstep)
  obtain ⟨last, hlast, hsince⟩ := hsound.revision_after hbound (Nat.le_add_right _ _)
    (fun step hstep => hsteps step (List.mem_append_right _ hstep)) (by simp only [UInt64.size]; omega)
    (stored_of_shown hanswer shown hshown) hpresent
  obtain ⟨existing, hexisting, hmodified⟩ := (hsound.after between).modified_of_answered_cas hbody
  rw [hid, hlast, Option.some.injEq] at hexisting
  subst hexisting
  rcases hsince with ⟨rfl, hanswers⟩ | hlater
  · exact ⟨hanswers, hlast⟩
  · rw [hmodified] at hlater
    exact absurd hlater (UInt64.lt_irrefl _)

end Broker

end WincredLibsecret
