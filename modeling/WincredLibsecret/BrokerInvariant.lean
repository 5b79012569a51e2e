import WincredLibsecret.BrokerRules

/-! The invariant of the vault. Whatever backend calls fail and wherever the broker is killed, every
stored record is readable, the secret its metadata commits is stored, and the collection it refers to
is stored and valid. The broker changes the vault by single credentials, and each change it makes is
one of eight, each with the guard under which it keeps the invariant. -/

namespace WincredLibsecret

open Effect Effect.Action

namespace Broker

/-- Every record of the vault is readable and refers only to what is stored. -/
structure Sound (broker : Broker) (vault : Vault) : Prop where
  collections : ∀ id blob, vault.lookup (.collection id) = some blob →
    ∃ collection, broker.collectionKind.load id blob = .ok collection
  items : ∀ id blob, vault.lookup (.itemMetadata id) = some blob →
    ∃ item, broker.itemKind.load id blob = .ok item ∧
      (∃ secret : SecretBytes, vault.lookup (.itemSecret id item.currentGeneration) = some secret.bytes) ∧
      ∃ collection, broker.collectionKind.stored vault item.collectionId = some collection
  aliases : ∀ name blob, vault.lookup (.alias name) = some blob →
    ∃ record, broker.aliasKind.load name blob = .ok record ∧
      ∃ collection, broker.collectionKind.stored vault record.collectionId = some collection

variable {broker : Broker} {vault : Vault}

theorem sound_empty : broker.Sound ∅ where
  collections := fun _ _ h => by simp at h
  items := fun _ _ h => by simp at h
  aliases := fun _ _ h => by simp at h

/-- No metadata commits the generation. -/
def Uncommitted (broker : Broker) (vault : Vault) (itemId generation : Uuid) : Prop :=
  ∀ item, broker.itemKind.stored vault itemId = some item → item.currentGeneration ≠ generation

/-- No item and no alias refers to the collection. -/
structure Unreferenced (broker : Broker) (vault : Vault) (collectionId : Uuid) : Prop where
  items : ∀ id item, broker.itemKind.stored vault id = some item → item.collectionId ≠ collectionId
  aliases : ∀ name record, broker.aliasKind.stored vault name = some record →
    record.collectionId ≠ collectionId

namespace Sound

/-- A change of a credential that holds no collection, no item and no alias, and no secret that is
committed. -/
theorem of_agree {other : Vault} (hsound : broker.Sound vault)
    (hcollections : ∀ id, other.lookup (.collection id) = vault.lookup (.collection id))
    (hitems : ∀ id, other.lookup (.itemMetadata id) = vault.lookup (.itemMetadata id))
    (haliases : ∀ name, other.lookup (.alias name) = vault.lookup (.alias name))
    (hsecrets : ∀ id item, broker.itemKind.stored vault id = some item →
      ∀ secret : SecretBytes, vault.lookup (.itemSecret id item.currentGeneration) = some secret.bytes →
        ∃ kept : SecretBytes, other.lookup (.itemSecret id item.currentGeneration) = some kept.bytes) :
    broker.Sound other := by
  have hstored : ∀ id, broker.collectionKind.stored other id = broker.collectionKind.stored vault id :=
    fun id => RecordKind.stored_congr (hcollections id)
  refine ⟨fun id blob h => ?_, fun id blob h => ?_, fun name blob h => ?_⟩
  · exact hsound.collections id blob (hcollections id ▸ h)
  · rw [hitems] at h
    obtain ⟨item, hload, ⟨secret, hsecret⟩, hcollection⟩ := hsound.items id blob h
    refine ⟨item, hload, ?_, by rwa [hstored]⟩
    exact hsecrets id item (RecordKind.stored_eq_some.mpr ⟨blob, h, hload⟩) secret hsecret
  · rw [haliases] at h
    obtain ⟨record, hload, hcollection⟩ := hsound.aliases name blob h
    exact ⟨record, hload, by rwa [hstored]⟩

theorem put_secret (hsound : broker.Sound vault) (itemId generation : Uuid) (secret : SecretBytes) :
    broker.Sound (vault.put (.itemSecret itemId generation) secret.bytes) := by
  refine hsound.of_agree (fun _ => ?_) (fun _ => ?_) (fun _ => ?_) fun id item _ stored hstored => ?_
  · exact Vault.lookup_put_of_ne (by simp)
  · exact Vault.lookup_put_of_ne (by simp)
  · exact Vault.lookup_put_of_ne (by simp)
  · rw [Vault.lookup_put]
    split_ifs
    · exact ⟨secret, rfl⟩
    · exact ⟨stored, hstored⟩

theorem drop_secret (hsound : broker.Sound vault) {itemId generation : Uuid}
    (hfree : broker.Uncommitted vault itemId generation) :
    broker.Sound (vault.drop (.itemSecret itemId generation)) := by
  refine hsound.of_agree (fun _ => ?_) (fun _ => ?_) (fun _ => ?_) fun id item hitem stored hstored => ?_
  · exact Vault.lookup_drop_of_ne (by simp)
  · exact Vault.lookup_drop_of_ne (by simp)
  · exact Vault.lookup_drop_of_ne (by simp)
  · rw [Vault.lookup_drop_of_ne]
    · exact ⟨stored, hstored⟩
    · rintro ⟨rfl, rfl⟩
      exact hfree item hitem rfl

theorem put_collection (hsound : broker.Sound vault) {id : Uuid} {blob : Blob}
    {collection : CollectionMetadata} (hload : broker.collectionKind.load id blob = .ok collection) :
    broker.Sound (vault.put (.collection id) blob) := by
  -- a collection that was stored still is, as what it was or as the new record
  have hkeeps : ∀ other found, broker.collectionKind.stored vault other = some found →
      ∃ kept, broker.collectionKind.stored (vault.put (.collection id) blob) other = some kept := by
    intro other found hfound
    by_cases h : id = other
    · exact ⟨collection, h ▸ RecordKind.stored_put_self hload⟩
    · exact ⟨found, by rwa [RecordKind.stored_put_of_ne (by simpa [collectionKind] using h)]⟩
  refine ⟨fun other stored h => ?_, fun itemId stored h => ?_, fun name stored h => ?_⟩
  · rw [Vault.lookup_put] at h
    split_ifs at h with heq
    · cases heq
      cases h
      exact ⟨collection, hload⟩
    · exact hsound.collections other stored h
  · rw [Vault.lookup_put_of_ne (by simp)] at h
    obtain ⟨item, hitem, hsecret, found, hfound⟩ := hsound.items itemId stored h
    exact ⟨item, hitem, by rwa [Vault.lookup_put_of_ne (by simp)], hkeeps _ _ hfound⟩
  · rw [Vault.lookup_put_of_ne (by simp)] at h
    obtain ⟨record, hrecord, found, hfound⟩ := hsound.aliases name stored h
    exact ⟨record, hrecord, hkeeps _ _ hfound⟩

theorem drop_collection (hsound : broker.Sound vault) {id : Uuid} (hfree : broker.Unreferenced vault id) :
    broker.Sound (vault.drop (.collection id)) := by
  have hkeeps : ∀ other, other ≠ id → broker.collectionKind.stored (vault.drop (.collection id)) other =
      broker.collectionKind.stored vault other := fun other hne =>
    RecordKind.stored_drop_of_ne (by simpa [collectionKind] using hne.symm)
  refine ⟨fun other stored h => ?_, fun itemId stored h => ?_, fun name stored h => ?_⟩
  · rw [Vault.lookup_drop] at h
    split_ifs at h
    exact hsound.collections other stored h
  · rw [Vault.lookup_drop_of_ne (by simp)] at h
    obtain ⟨item, hitem, hsecret, hfound⟩ := hsound.items itemId stored h
    refine ⟨item, hitem, by rwa [Vault.lookup_drop_of_ne (by simp)], ?_⟩
    rwa [hkeeps _ (hfree.items itemId item (RecordKind.stored_eq_some.mpr ⟨stored, h, hitem⟩))]
  · rw [Vault.lookup_drop_of_ne (by simp)] at h
    obtain ⟨record, hrecord, hfound⟩ := hsound.aliases name stored h
    refine ⟨record, hrecord, ?_⟩
    rwa [hkeeps _ (hfree.aliases name record (RecordKind.stored_eq_some.mpr ⟨stored, h, hrecord⟩))]

/-- A change of item and alias credentials after which each of them is as it was or refers only to
what is stored. -/
theorem of_records {other : Vault} (hsound : broker.Sound vault)
    (hcollections : ∀ id, other.lookup (.collection id) = vault.lookup (.collection id))
    (hsecrets : ∀ id generation, other.lookup (.itemSecret id generation) = vault.lookup (.itemSecret id generation))
    (hitems : ∀ id blob, other.lookup (.itemMetadata id) = some blob →
      vault.lookup (.itemMetadata id) = some blob ∨ ∃ item, broker.itemKind.load id blob = .ok item ∧
        (∃ secret : SecretBytes, vault.lookup (.itemSecret id item.currentGeneration) = some secret.bytes) ∧
        ∃ collection, broker.collectionKind.stored vault item.collectionId = some collection)
    (haliases : ∀ name blob, other.lookup (.alias name) = some blob →
      vault.lookup (.alias name) = some blob ∨ ∃ record, broker.aliasKind.load name blob = .ok record ∧
        ∃ collection, broker.collectionKind.stored vault record.collectionId = some collection) :
    broker.Sound other := by
  have hstored : ∀ id, broker.collectionKind.stored other id = broker.collectionKind.stored vault id :=
    fun id => RecordKind.stored_congr (hcollections id)
  refine ⟨fun id blob h => hsound.collections id blob (hcollections id ▸ h), fun id blob h => ?_,
    fun name blob h => ?_⟩
  · simp only [hstored, hsecrets]
    exact (hitems id blob h).elim (hsound.items id blob) fun hnew => hnew
  · simp only [hstored]
    exact (haliases name blob h).elim (hsound.aliases name blob) fun hnew => hnew

theorem put_item (hsound : broker.Sound vault) {id : Uuid} {blob : Blob} {item : ItemMetadata}
    (hload : broker.itemKind.load id blob = .ok item)
    (hsecret : ∃ secret : SecretBytes, vault.lookup (.itemSecret id item.currentGeneration) = some secret.bytes)
    (hcollection : ∃ collection, broker.collectionKind.stored vault item.collectionId = some collection) :
    broker.Sound (vault.put (.itemMetadata id) blob) := by
  refine hsound.of_records (fun _ => Vault.lookup_put_of_ne nofun) (fun _ _ => Vault.lookup_put_of_ne nofun)
    (fun other stored h => ?_) fun name stored h => .inl (by simpa [Vault.lookup_put] using h)
  rw [Vault.lookup_put] at h
  split_ifs at h with heq
  · cases heq
    cases h
    exact .inr ⟨item, hload, hsecret, hcollection⟩
  · exact .inl h

theorem drop_item (hsound : broker.Sound vault) (id : Uuid) : broker.Sound (vault.drop (.itemMetadata id)) := by
  refine hsound.of_records (fun _ => Vault.lookup_drop_of_ne nofun) (fun _ _ => Vault.lookup_drop_of_ne nofun)
    (fun other stored h => ?_) fun name stored h => .inl (by simpa [Vault.lookup_drop] using h)
  rw [Vault.lookup_drop] at h
  split_ifs at h
  exact .inl h

theorem put_alias (hsound : broker.Sound vault) {name : String} {blob : Blob} {record : AliasMetadata}
    (hload : broker.aliasKind.load name blob = .ok record)
    (hcollection : ∃ collection, broker.collectionKind.stored vault record.collectionId = some collection) :
    broker.Sound (vault.put (.alias name) blob) := by
  refine hsound.of_records (fun _ => Vault.lookup_put_of_ne nofun) (fun _ _ => Vault.lookup_put_of_ne nofun)
    (fun id stored h => .inl (by simpa [Vault.lookup_put] using h)) fun other stored h => ?_
  rw [Vault.lookup_put] at h
  split_ifs at h with heq
  · cases heq
    cases h
    exact .inr ⟨record, hload, hcollection⟩
  · exact .inl h

theorem drop_alias (hsound : broker.Sound vault) (name : String) : broker.Sound (vault.drop (.alias name)) := by
  refine hsound.of_records (fun _ => Vault.lookup_drop_of_ne nofun) (fun _ _ => Vault.lookup_drop_of_ne nofun)
    (fun id stored h => .inl (by simpa [Vault.lookup_drop] using h)) fun other stored h => ?_
  rw [Vault.lookup_drop] at h
  split_ifs at h
  exact .inl h

end Sound

section Operations

variable {faults : BackendError → Prop}

variable (broker faults) in
/-- The computation keeps the invariant wherever it stops. -/
def Keeps {α : Type} (action : BrokerAction α) (vault : Vault) : Prop :=
  wp broker.backend.serve faults action (fun _ => broker.Sound) (fun _ => broker.Sound) broker.Sound vault

theorem keeps_of_calls {α : Type} {action : BrokerAction α} (h : Calls VaultCall.IsReading action)
    (hsound : broker.Sound vault) : broker.Keeps faults action vault :=
  wp_of_reading h hsound (fun _ => hsound) fun _ => hsound

theorem keeps_createCollection (hsound : broker.Sound vault) (collection : CollectionMetadata) :
    broker.Keeps faults (broker.createCollection collection) vault := by
  simp only [Keeps, createCollection, wp_bind, wp_ofExcept, wp_readCredential]
  refine ⟨hsound, either_intro (fun _ hvalid => ⟨hsound, fun _ _ => hsound, ?_⟩) fun _ _ => hsound⟩
  split_ifs
  · exact ⟨hsound, hsound⟩
  · simp only [wp_bind, wp_writeMetadata, wp_pure]
    refine ⟨hsound, either_intro (fun blob hblob => ?_) fun _ _ => hsound⟩
    have hput := hsound.put_collection (broker.collectionKind.load_of_encode hvalid hblob)
    exact ⟨fun _ _ => hsound, hput, hput, hput⟩

theorem keeps_updateCollection (hsound : broker.Sound vault) (collection : CollectionMetadata) :
    broker.Keeps faults (broker.updateCollection collection) vault := by
  simp only [Keeps, updateCollection, wp_bind, wp_ofExcept, wp_getCollection, wp_writeMetadata,
    wp_pure]
  refine ⟨hsound, fun _ _ => hsound, either_intro (fun existing _ => ⟨hsound, ?_⟩) fun _ _ => hsound⟩
  refine either_intro (fun _ hvalid => ⟨hsound, ?_⟩) fun _ _ => hsound
  refine either_intro (fun blob hblob => ?_) fun _ _ => hsound
  -- the creation time plays no part in the check
  have hvalid' : validateCollection { collection with created := existing.created } = .ok () :=
    validateCollection_eq_ok.mpr (validateCollection_eq_ok.mp hvalid)
  have hput := hsound.put_collection (broker.collectionKind.load_of_encode hvalid' hblob)
  exact ⟨fun _ _ => hsound, hput, hput, hput⟩

theorem keeps_setAlias (hsound : broker.Sound vault) (record : AliasMetadata) :
    broker.Keeps faults (broker.setAlias record) vault := by
  simp only [Keeps, setAlias, wp_bind, wp_ofExcept, wp_requireCollection, wp_writeMetadata,
    wp_pure]
  refine ⟨hsound, either_intro (fun _ hvalid => ⟨hsound, fun _ _ => hsound, ?_⟩) fun _ _ => hsound⟩
  refine either_intro (fun collection hcollection => ⟨hsound, ?_⟩) fun _ _ => hsound
  refine either_intro (fun blob hblob => ?_) fun _ _ => hsound
  have hput := hsound.put_alias (broker.aliasKind.load_of_encode hvalid hblob)
    ⟨collection, collectionAt_eq_ok.mp hcollection⟩
  exact ⟨fun _ _ => hsound, hput, hput, hput⟩

theorem keeps_removeAlias (hsound : broker.Sound vault) (name : String) :
    broker.Keeps faults (removeAlias name) vault := by
  simp only [Keeps, removeAlias, wp_bind, wp_ofExcept, wp_readCredential]
  refine ⟨hsound, either_intro (fun _ _ => ⟨hsound, fun _ _ => hsound, ?_⟩) fun _ _ => hsound⟩
  split_ifs
  · exact ⟨hsound, hsound⟩
  · simp only [wp_bind, wp_deleteCredential, wp_pure]
    have hdrop := hsound.drop_alias name
    exact ⟨hsound, fun _ _ => hsound, hdrop, hdrop, hdrop⟩

variable {id generation : Uuid} {existing item : ItemMetadata}

theorem uncommitted_of_lookup_none (h : vault.lookup (.itemMetadata id) = none) :
    broker.Uncommitted vault id generation := by
  intro item hitem
  obtain ⟨blob, hblob, -⟩ := RecordKind.stored_eq_some.mp hitem
  exact absurd (h.symm.trans hblob) nofun

theorem uncommitted_of_stored (h : broker.itemKind.stored vault id = some existing)
    (hne : existing.currentGeneration ≠ generation) : broker.Uncommitted vault id generation := by
  intro item hitem
  rw [h, Option.some.injEq] at hitem
  exact hitem ▸ hne

theorem uncommitted_put_secret {itemId written : Uuid} {blob : Blob} :
    broker.Uncommitted (vault.put (.itemSecret itemId written) blob) id generation ↔
      broker.Uncommitted vault id generation := by
  simp only [Uncommitted, RecordKind.stored_put_of_ne (broker.itemKind.target_ne_itemSecret id itemId written).symm]

/-- A commit keeps the invariant if no metadata commits the new generation yet. -/
theorem keeps_commitNewGeneration (hsound : broker.Sound vault) {previous : Option Uuid} {secret : SecretBytes}
    (hvalid : validateItem item = .ok ())
    (hcollection : ∃ collection, broker.collectionKind.stored vault item.collectionId = some collection)
    (hfresh : broker.Uncommitted vault item.id item.currentGeneration) :
    broker.Keeps faults (broker.commitNewGeneration item previous secret) vault := by
  have hput := hsound.put_secret item.id item.currentGeneration secret
  refine wp_commitNewGeneration hsound (fun _ _ => hsound) (fun _ _ => hsound) ?_ ?_ ?_
  · rintro _ rfl
    exact ⟨hput, fun _ _ => hput⟩
  · rintro _ rfl
    have hdrop := hput.drop_secret (uncommitted_put_secret.mpr hfresh)
    exact ⟨hdrop, fun _ _ => hdrop⟩
  · rintro blob hblob _ rfl
    have hload := broker.itemKind.load_of_encode hvalid hblob
    have hcommitted := hput.put_item hload ⟨secret, Vault.lookup_put_self _ _ _⟩
      (by rwa [RecordKind.stored_put_of_ne (broker.collectionKind.target_ne_itemSecret _ _ _).symm])
    refine ⟨⟨hcommitted, hcommitted⟩, fun old _ hne => ?_⟩
    have hold := hcommitted.drop_secret
      (uncommitted_of_stored (RecordKind.stored_put_self hload) (Ne.symm hne))
    exact ⟨hold, hold⟩

theorem keeps_createItem (hsound : broker.Sound vault) (item : ItemMetadata) (secret : SecretBytes) :
    broker.Keeps faults (broker.createItem item secret) vault := by
  simp only [Keeps, createItem, wp_bind, wp_ofExcept, wp_requireCollection, wp_readCredential]
  refine ⟨hsound, either_intro (fun _ hvalid => ⟨hsound, fun _ _ => hsound, ?_⟩) fun _ _ => hsound⟩
  refine either_intro (fun collection hcollection => ⟨hsound, fun _ _ => hsound, ?_⟩) fun _ _ => hsound
  split_ifs with hstored
  · exact ⟨hsound, hsound⟩
  · rw [wp_bind]
    refine wp_mono (fun _ _ h => ⟨h, h⟩) (fun _ _ h => h) (fun _ h => h) ?_
    exact keeps_commitNewGeneration hsound hvalid ⟨collection, collectionAt_eq_ok.mp hcollection⟩
      (uncommitted_of_lookup_none (by simpa using hstored))

theorem validateItem_succeed (h : validateItem item = .ok ()) : validateItem (item.succeed existing) = .ok () :=
  validateItem_eq_ok.mpr (validateItem_eq_ok.mp h)

theorem validateItem_keepGeneration (h : validateItem item = .ok ()) (hexisting : validateItem existing = .ok ()) :
    validateItem { item.succeed existing with currentGeneration := existing.currentGeneration } = .ok () := by
  obtain ⟨hschema, ⟨hid, hcollection, -⟩, htexts⟩ := validateItem_eq_ok.mp h
  obtain ⟨-, ⟨-, -, hgeneration⟩, -⟩ := validateItem_eq_ok.mp hexisting
  exact validateItem_eq_ok.mpr ⟨hschema, ⟨hid, hcollection, hgeneration⟩, htexts⟩

theorem Sound.secret_of_stored (hsound : broker.Sound vault) (h : broker.itemKind.stored vault id = some item) :
    ∃ secret : SecretBytes, vault.lookup (.itemSecret id item.currentGeneration) = some secret.bytes := by
  obtain ⟨blob, hblob, hload⟩ := RecordKind.stored_eq_some.mp h
  obtain ⟨found, hfound, hsecret, -⟩ := hsound.items id blob hblob
  cases hload.symm.trans hfound
  exact hsecret

theorem keeps_updateItem (hsound : broker.Sound vault) (item : ItemMetadata) (secret : Option SecretBytes) :
    broker.Keeps faults (broker.updateItem item secret) vault := by
  simp only [Keeps, updateItem, wp_bind, wp_ofExcept, wp_getItemMetadata, wp_requireCollection]
  refine ⟨hsound, fun _ _ => hsound, either_intro (fun existing hexisting => ⟨hsound, ?_⟩) fun _ _ => hsound⟩
  refine either_intro (fun _ hvalid => ⟨hsound, fun _ _ => hsound, ?_⟩) fun _ _ => hsound
  refine either_intro (fun collection hcollection => ?_) fun _ _ => hsound
  have hstored := itemAt_eq_ok.mp hexisting
  have hfound : ∃ collection, broker.collectionKind.stored vault item.collectionId = some collection :=
    ⟨collection, collectionAt_eq_ok.mp hcollection⟩
  cases secret with
  | some secret =>
      dsimp only
      split_ifs with hsame
      · exact ⟨hsound, hsound⟩
      · rw [wp_bind]
        refine wp_mono (fun _ _ h => ⟨h, h⟩) (fun _ _ h => h) (fun _ h => h) ?_
        exact keeps_commitNewGeneration hsound (validateItem_succeed hvalid) hfound
          (uncommitted_of_stored hstored (Ne.symm hsame))
  | none =>
      simp only [wp_bind, wp_writeMetadata, wp_pure]
      refine ⟨hsound, either_intro (fun blob hblob => ?_) fun _ _ => hsound⟩
      have hload := broker.itemKind.load_of_encode
        (validateItem_keepGeneration hvalid (RecordKind.check_of_stored hstored)) hblob
      have hsecret := hsound.secret_of_stored hstored
      have hput := hsound.put_item hload hsecret hfound
      exact ⟨fun _ _ => hsound, hput, hput, hput⟩

theorem keeps_updateItemCas (hsound : broker.Sound vault) (item : ItemMetadata) (secret : Option SecretBytes)
    (expectedModified : UInt64) : broker.Keeps faults (broker.updateItemCas item secret expectedModified) vault := by
  simp only [Keeps, updateItemCas, wp_bind, wp_getItemMetadata]
  refine ⟨hsound, fun _ _ => hsound, either_intro (fun existing _ => ?_) fun _ _ => hsound⟩
  split_ifs
  · exact ⟨hsound, hsound⟩
  · exact keeps_updateItem hsound item secret

theorem mem_secretTargets {entries : List Entry} {target : TargetName} (h : target ∈ secretTargets id entries) :
    ∃ generation, target = .itemSecret id generation := by
  obtain ⟨entry, -, hentry⟩ := List.mem_filterMap.mp h
  rcases entry with ⟨kind, blob⟩
  cases kind with
  | itemSecret itemId generation =>
      simp only [Option.ite_none_right_eq_some, Option.some.injEq] at hentry
      obtain ⟨rfl, rfl⟩ := hentry
      exact ⟨generation, rfl⟩
  | _ => cases hentry

/-- Deleting an item from its entries: its metadata goes first, so its secrets are free. -/
theorem wp_deleteItemFromEntries (hsound : broker.Sound vault) (id : Uuid) (entries : List Entry) :
    wp broker.backend.serve faults (deleteItemFromEntries id entries)
      (fun _ rest => broker.Sound rest ∧ vault.Shrinks rest ∧ rest.lookup (.itemMetadata id) = none)
      (fun _ => broker.Sound) broker.Sound vault := by
  have hdrop := hsound.drop_item id
  simp only [deleteItemFromEntries, wp_bind, wp_deleteCredential]
  refine ⟨hsound, fun _ _ => hsound, hdrop, ?_⟩
  refine wp_forM (fun _ rest =>
    broker.Sound rest ∧ vault.Shrinks rest ∧ rest.lookup (.itemMetadata id) = none) ?_ ?_ ?_
  · rintro target htarget _ rest ⟨hrest, hshrinks, hnone⟩
    obtain ⟨generation, rfl⟩ := mem_secretTargets htarget
    have hnext : broker.Sound (rest.drop (.itemSecret id generation)) :=
      hrest.drop_secret (uncommitted_of_lookup_none hnone)
    simp only [wp_deleteCredential]
    exact ⟨hrest, fun _ _ => hrest, hnext, hnext, hshrinks.drop _,
      ((Vault.Shrinks.refl rest).drop _).lookup_eq_none hnone⟩
  · exact fun rest hinv => ⟨hinv.1, hinv⟩
  · exact ⟨hdrop, (Vault.Shrinks.refl vault).drop _, Vault.lookup_drop_self _ _⟩

theorem keeps_deleteItem (hsound : broker.Sound vault) (id : Uuid) :
    broker.Keeps faults (broker.deleteItem id) vault := by
  simp only [Keeps, deleteItem, wp_bind, wp_getItemMetadata, wp_entries]
  refine ⟨hsound, fun _ _ => hsound, either_intro (fun _ _ => ?_) fun _ _ => hsound⟩
  refine ⟨hsound, fun _ _ => hsound, ?_⟩
  exact wp_mono (fun _ _ h => ⟨h.1, h.1⟩) (fun _ _ h => h) (fun _ h => h)
    (wp_deleteItemFromEntries hsound id _)

theorem stored_of_shrinks {α κ : Type} [DecidableEq κ] {kind : RecordKind α κ} {rest : Vault} {key : κ} {record : α}
    (hshrinks : vault.Shrinks rest) (h : kind.stored rest key = some record) :
    kind.stored vault key = some record := by
  obtain ⟨blob, hblob, hload⟩ := RecordKind.stored_eq_some.mp h
  exact RecordKind.stored_eq_some.mpr ⟨blob, hshrinks.lookup_eq_some hblob, hload⟩

theorem stored_of_lookup_none {α κ : Type} [DecidableEq κ] {kind : RecordKind α κ} {key : κ}
    (h : vault.lookup (kind.target key) = none) : kind.stored vault key = none := by
  rw [RecordKind.stored, h]
  rfl

/-- A loop of which each round deletes the target of its item, whatever else it deletes. -/
theorem wp_forM_deletes {ι : Type} {body : ι → BrokerAction Unit} {target : ι → TargetName}
    (hround : ∀ item rest, broker.Sound rest → wp broker.backend.serve faults (body item)
      (fun _ next => broker.Sound next ∧ rest.Shrinks next ∧ next.lookup (target item) = none)
      (fun _ => broker.Sound) broker.Sound rest)
    (hsound : broker.Sound vault) (items : List ι) :
    wp broker.backend.serve faults (forM items body)
      (fun _ rest => broker.Sound rest ∧ vault.Shrinks rest ∧ ∀ item ∈ items, rest.lookup (target item) = none)
      (fun _ => broker.Sound) broker.Sound vault := by
  refine wp_forM (fun left rest => broker.Sound rest ∧ vault.Shrinks rest ∧
    ∀ item ∈ items, item ∈ left ∨ rest.lookup (target item) = none) ?_ ?_ ?_
  · rintro item - left rest ⟨hrest, hshrinks, hdone⟩
    refine wp_mono ?_ (fun _ _ h => h) (fun _ h => h) (hround item rest hrest)
    rintro - next ⟨hnext, hshrinks', hnone⟩
    refine ⟨hnext, hshrinks.trans hshrinks', fun other hother => ?_⟩
    rcases hdone other hother with hmem | hgone
    · rcases List.mem_cons.mp hmem with rfl | hmem
      · exact .inr hnone
      · exact .inl hmem
    · exact .inr (hshrinks'.lookup_eq_none hgone)
  · rintro rest ⟨hrest, hshrinks, hdone⟩
    exact ⟨hrest, hrest, hshrinks, fun item hitem => (hdone item hitem).resolve_left List.not_mem_nil⟩
  · exact ⟨hsound, Vault.Shrinks.refl vault, fun item hitem => .inl hitem⟩

theorem wp_deleteAlias (hsound : broker.Sound vault) (name : String) :
    wp broker.backend.serve faults (deleteCredential (.alias name))
      (fun _ rest => broker.Sound rest ∧ vault.Shrinks rest ∧ rest.lookup (.alias name) = none)
      (fun _ => broker.Sound) broker.Sound vault := by
  have hdrop := hsound.drop_alias name
  rw [wp_deleteCredential]
  exact ⟨hsound, fun _ _ => hsound, hdrop, hdrop, (Vault.Shrinks.refl vault).drop _, Vault.lookup_drop_self _ _⟩

theorem keeps_deleteCollection (hsound : broker.Sound vault) (collectionId : Uuid) :
    broker.Keeps faults (broker.deleteCollection collectionId) vault := by
  simp only [Keeps, deleteCollection, wp_bind, wp_getCollection, wp_entries]
  refine ⟨hsound, fun _ _ => hsound, either_intro (fun _ _ => ?_) fun _ _ => hsound⟩
  refine ⟨hsound, fun _ _ => hsound, ?_⟩
  refine wp_mono ?_ (fun _ _ h => h) (fun _ h => h)
    (wp_forM_deletes (fun id _ h => wp_deleteItemFromEntries h id _) hsound _)
  rintro - middle ⟨hmiddle, hshrinks, hnoItems⟩
  refine wp_mono ?_ (fun _ _ h => h) (fun _ h => h)
    (wp_forM_deletes (fun name _ h => wp_deleteAlias h name) hmiddle _)
  rintro - rest ⟨hrest, hshrinks', hnoAliases⟩
  -- whatever still referred to the collection would have been deleted by one of the two loops
  have hfree : broker.Unreferenced rest collectionId := by
    constructor
    · intro id item hitem hcollection
      have hstored := stored_of_shrinks (hshrinks.trans hshrinks') hitem
      have hmem : item.id ∈ ((broker.entriesOf vault).filterMap broker.itemOf |>.filter
          fun item => item.collectionId = collectionId).map ItemMetadata.id :=
        List.mem_map_of_mem (List.mem_filter.mpr ⟨itemOf_reads.mem_of_stored hstored, by simpa using hcollection⟩)
      have hnone := hnoItems item.id (by
        rw [Std.ExtTreeSet.mem_toList, Std.ExtTreeSet.mem_ofList]
        simpa [List.contains_iff_mem] using hmem)
      rw [show item.id = id from RecordKind.key_of_stored hstored] at hnone
      rw [stored_of_lookup_none (hshrinks'.lookup_eq_none hnone)] at hitem
      cases hitem
    · intro name record hrecord hcollection
      have hstored := stored_of_shrinks (hshrinks.trans hshrinks') hrecord
      have hnone := hnoAliases record.name
        (List.mem_map_of_mem (List.mem_filter.mpr ⟨aliasOf_reads.mem_of_stored hstored, by simpa using hcollection⟩))
      rw [show record.name = name from RecordKind.key_of_stored hstored] at hnone
      rw [stored_of_lookup_none hnone] at hrecord
      cases hrecord
  have hdrop := hrest.drop_collection hfree
  simp only [wp_deleteCredential, wp_pure]
  exact ⟨hrest, fun _ _ => hrest, hdrop, hdrop, hdrop⟩

theorem keeps_deleteReplacedItem (hsound : broker.Sound vault) (id : Uuid) (entries : List Entry) :
    broker.Keeps faults (deleteReplacedItem id entries) vault := by
  have hdrop := hsound.drop_item id
  simp only [Keeps, deleteReplacedItem, wp_bind, wp_deleteCredential]
  refine ⟨hsound, fun _ _ => hsound, hdrop, ?_⟩
  refine wp_forM (fun _ rest => broker.Sound rest ∧ rest.lookup (.itemMetadata id) = none) ?_ ?_ ?_
  · rintro target htarget _ rest ⟨hrest, hnone⟩
    obtain ⟨generation, rfl⟩ := mem_secretTargets htarget
    have hnext : broker.Sound (rest.drop (.itemSecret id generation)) :=
      hrest.drop_secret (uncommitted_of_lookup_none hnone)
    exact wp_cleanUp hrest ⟨hrest, hnone⟩
      ⟨hnext, hnext, ((Vault.Shrinks.refl rest).drop _).lookup_eq_none hnone⟩
  · exact fun rest hinv => ⟨hinv.1, hinv.1⟩
  · exact ⟨hdrop, Vault.lookup_drop_self _ _⟩

theorem keeps_deleteReplacedItems (hsound : broker.Sound vault) (entries : List Entry) (ids : List Uuid) :
    broker.Keeps faults (deleteReplacedItems entries ids) vault := by
  induction ids generalizing vault with
  | nil => exact ⟨hsound, hsound⟩
  | cons id rest ih =>
      simp only [Keeps, deleteReplacedItems, wp_bind, wp_attempt]
      refine wp_mono (fun _ _ hnext => ?_) (fun _ _ hnext => ?_) (fun _ h => h)
        (keeps_deleteReplacedItem hsound id entries)
      all_goals exact wp_mono (fun _ _ h => ⟨h, h⟩) (fun _ _ h => h) (fun _ h => h) (ih hnext)

theorem keeps_createOrReplaceItem (hsound : broker.Sound vault) (item : ItemMetadata) (secret : SecretBytes)
    (replace : Bool) : broker.Keeps faults (broker.createOrReplaceItem item secret replace) vault := by
  simp only [Keeps, createOrReplaceItem, wp_bind, wp_ofExcept, wp_requireCollection,
    wp_readCredential]
  refine ⟨hsound, either_intro (fun _ hvalid => ⟨hsound, fun _ _ => hsound, ?_⟩) fun _ _ => hsound⟩
  refine either_intro (fun collection hcollection => ⟨hsound, fun _ _ => hsound, ?_⟩) fun _ _ => hsound
  split_ifs with hstored
  · exact ⟨hsound, hsound⟩
  rw [wp_bind]
  refine wp_of_reading (calls_replacedItemIds item replace) hsound (fun replaced => ?_) fun _ => hsound
  simp only [wp_bind, wp_entries]
  refine wp_mono (fun _ next hnext => ?_) (fun _ _ h => h) (fun _ h => h)
    (keeps_commitNewGeneration hsound hvalid ⟨collection, collectionAt_eq_ok.mp hcollection⟩
      (uncommitted_of_lookup_none (by simpa using hstored)))
  refine ⟨hnext, fun _ _ => hnext, ?_⟩
  exact wp_mono (fun _ _ h => ⟨h, h⟩) (fun _ _ h => h) (fun _ h => h)
    (keeps_deleteReplacedItems hnext _ _)

theorem uncommitted_drop_secret {itemId dropped : Uuid} :
    broker.Uncommitted (vault.drop (.itemSecret itemId dropped)) id generation ↔
      broker.Uncommitted vault id generation := by
  simp only [Uncommitted, RecordKind.stored_drop_of_ne (broker.itemKind.target_ne_itemSecret id itemId dropped).symm]

theorem keeps_recover (hsound : broker.Sound vault) {plan : List RecoveryAction}
    (hplan : ∀ itemId generation, .deleteAbandonedGeneration itemId generation ∈ plan →
      broker.Uncommitted vault itemId generation) :
    broker.Keeps faults (recover plan) vault := by
  induction plan generalizing vault with
  | nil => exact ⟨hsound, hsound⟩
  | cons action rest ih =>
      cases action with
      | deleteAbandonedGeneration itemId generation =>
          have hdrop := hsound.drop_secret (hplan itemId generation List.mem_cons_self)
          have hrest := ih hdrop fun id other hmem =>
            uncommitted_drop_secret.mpr (hplan id other (List.mem_cons_of_mem _ hmem))
          simp only [Keeps, recover, wp_bind, wp_deleteCredential, wp_pure]
          refine ⟨hsound, fun _ _ => hsound, hdrop, ?_⟩
          exact wp_mono (fun _ _ h => ⟨h, h⟩) (fun _ _ h => h) (fun _ h => h) hrest
      | reportMissingCommittedGeneration itemId generation =>
          have hrest := ih hsound fun id other hmem => hplan id other (List.mem_cons_of_mem _ hmem)
          simp only [Keeps, recover, wp_bind, wp_pure]
          exact wp_mono (fun _ _ h => ⟨h, h⟩) (fun _ _ h => h) (fun _ h => h) hrest

theorem keeps_reconcileLocked (hsound : broker.Sound vault) :
    broker.Keeps faults broker.reconcileLocked vault := by
  simp only [Keeps, reconcileLocked, wp_bind, wp_entries, wp_pure]
  refine ⟨hsound, fun _ _ => hsound, ?_⟩
  exact wp_mono (fun _ _ h => ⟨h, h⟩) (fun _ _ h => h) (fun _ h => h)
    (keeps_recover hsound fun itemId generation hmem => (deleteAbandoned_mem_plan.mp hmem).2)

/-- Every operation keeps the invariant in every state it goes through. -/
theorem keeps_execute (hsound : broker.Sound vault) (operation : Operation) :
    broker.Keeps faults (broker.execute operation) vault := by
  simp only [Keeps, execute, wp_bind, wp_acquireLock]
  refine ⟨hsound, fun _ _ => hsound, ?_⟩
  cases operation with
  | ping => exact ⟨hsound, hsound⟩
  | listCollections => exact keeps_of_calls calls_listCollections hsound
  | getCollection collectionId =>
      exact keeps_of_calls (calls_bind (calls_getCollection _) fun _ => calls_pure _) hsound
  | createCollection collection => exact keeps_createCollection hsound collection
  | updateCollection collection => exact keeps_updateCollection hsound collection
  | deleteCollection collectionId => exact keeps_deleteCollection hsound collectionId
  | listAliases => exact keeps_of_calls calls_listAliases hsound
  | resolveAlias name => exact keeps_of_calls (calls_resolveAlias name) hsound
  | setAlias record => exact keeps_setAlias hsound record
  | removeAlias name => exact keeps_removeAlias hsound name
  | searchItems attributes => exact keeps_of_calls (calls_searchItems attributes) hsound
  | listItems collectionId => exact keeps_of_calls (calls_listItems collectionId) hsound
  | getItem itemId includeSecret => exact keeps_of_calls (calls_getItem itemId includeSecret) hsound
  | createItem item secret => exact keeps_createItem hsound item secret
  | createOrReplaceItem item secret replace => exact keeps_createOrReplaceItem hsound item secret replace
  | updateItem item secret => exact keeps_updateItem hsound item secret
  | updateItemCas item secret expectedModified => exact keeps_updateItemCas hsound item secret expectedModified
  | deleteItem itemId => exact keeps_deleteItem hsound itemId
  | reconcile => exact keeps_reconcileLocked hsound

end Operations

end Broker

end WincredLibsecret
