import WincredLibsecret.BrokerListing
import WincredLibsecret.BrokerRuns
import WincredLibsecret.EffectRelation

/-! The namespace of the broker. Two stores that agree on all names the target parser accepts are the same
to the broker, whatever else they hold and in whatever order they list it: each request is answered alike,
the stores still agree afterwards, and neither has changed a name the parser does not accept. -/

namespace WincredLibsecret

open Effect Effect.Action KeyedRecords

/-- A name the target parser accepts. -/
def Owned (name : String) : Prop := ∃ target, TargetName.fromStr name = .ok target

theorem TargetName.WellFormed.owned {target : TargetName} (h : target.WellFormed) : Owned target.toString :=
  ⟨target, TargetName.fromStr_toString h⟩

/-- Two vaults that agree on the owned names and are, on all others, what they were at the start. -/
structure Twins (start start' vault vault' : Vault) : Prop where
  owned : ∀ name, Owned name → vault[name]? = vault'[name]?
  foreign : ∀ name, ¬ Owned name → vault[name]? = start[name]?
  foreign' : ∀ name, ¬ Owned name → vault'[name]? = start'[name]?

namespace Twins

variable {start start' vault vault' : Vault} {target : TargetName}

theorem lookup_eq (h : Twins start start' vault vault') (htarget : target.WellFormed) :
    vault.lookup target = vault'.lookup target :=
  h.owned _ htarget.owned

theorem put (h : Twins start start' vault vault') (htarget : target.WellFormed) (blob : Blob) :
    Twins start start' (vault.put target blob) (vault'.put target blob) := by
  have hother : ∀ name, ¬ Owned name → ∀ vault : Vault, (vault.put target blob)[name]? = vault[name]? := by
    intro name hname vault
    have hne : target.toString ≠ name := fun heq => hname (heq ▸ htarget.owned)
    rw [Vault.put, Std.ExtTreeMap.getElem?_insert, if_neg fun heq => hne (Std.LawfulEqOrd.eq_of_compare heq)]
  refine ⟨fun name hname => ?_, fun name hname => (hother name hname _).trans (h.foreign name hname),
    fun name hname => (hother name hname _).trans (h.foreign' name hname)⟩
  rw [Vault.put, Vault.put, Std.ExtTreeMap.getElem?_insert, Std.ExtTreeMap.getElem?_insert, h.owned name hname]

theorem drop (h : Twins start start' vault vault') (htarget : target.WellFormed) :
    Twins start start' (vault.drop target) (vault'.drop target) := by
  have hother : ∀ name, ¬ Owned name → ∀ vault : Vault, (vault.drop target)[name]? = vault[name]? := by
    intro name hname vault
    have hne : target.toString ≠ name := fun heq => hname (heq ▸ htarget.owned)
    rw [Vault.drop, Std.ExtTreeMap.getElem?_erase, if_neg fun heq => hne (Std.LawfulEqOrd.eq_of_compare heq)]
  refine ⟨fun name hname => ?_, fun name hname => (hother name hname _).trans (h.foreign name hname),
    fun name hname => (hother name hname _).trans (h.foreign' name hname)⟩
  rw [Vault.drop, Vault.drop, Std.ExtTreeMap.getElem?_erase, Std.ExtTreeMap.getElem?_erase, h.owned name hname]

end Twins

namespace Broker

/-- The same broker over another store. -/
def withBackend (broker : Broker) (backend : VaultBackend) : Broker := { broker with backend := backend }

variable {broker : Broker} {backend : VaultBackend} {start start' : Vault}

variable (broker backend start start') in
/-- Both actions do the same to vaults that agree on the owned names. -/
abbrev Agree {α α' : Type} (post : α → α' → Prop) (action : BrokerAction α) (action' : BrokerAction α') : Prop :=
  Action.Alike broker.backend.serve backend.serve (Twins start start') post action action'

variable {target : TargetName}

theorem agree_readCredential (htarget : target.WellFormed) :
    broker.Agree backend start start' Eq (readCredential target) (readCredential target) :=
  alike_perform fun _ _ htwins => ⟨htwins.lookup_eq htarget, htwins⟩

theorem agree_writeCredential (htarget : target.WellFormed) (blob : Blob) :
    broker.Agree backend start start' Eq (writeCredential target blob) (writeCredential target blob) :=
  alike_perform fun _ _ htwins => ⟨rfl, htwins.put htarget blob⟩

theorem agree_deleteCredential (htarget : target.WellFormed) :
    broker.Agree backend start start' Eq (deleteCredential target) (deleteCredential target) :=
  alike_perform fun _ _ htwins => ⟨rfl, htwins.drop htarget⟩

theorem agree_getCollection (id : Uuid) :
    broker.Agree backend start start' Eq (broker.getCollection id) (broker.getCollection id) :=
  alike_bind_eq (agree_readCredential trivial) fun _ => alike_ofExcept _

theorem agree_requireCollection (id : Uuid) :
    broker.Agree backend start start' Eq (broker.requireCollection id) (broker.requireCollection id) :=
  alike_mapError (agree_getCollection id)

theorem agree_getItemMetadata (id : Uuid) :
    broker.Agree backend start start' Eq (broker.getItemMetadata id) (broker.getItemMetadata id) :=
  alike_bind_eq (agree_readCredential trivial) fun _ => alike_ofExcept _

theorem agree_writeMetadata {α : Type} (codec : MetadataCodec α) (htarget : target.WellFormed) (metadata : α) :
    broker.Agree backend start start' Eq (writeMetadata codec target metadata) (writeMetadata codec target metadata) :=
  alike_bind_eq (alike_ofExcept _) fun _ => agree_writeCredential htarget _

theorem agree_cleanUp (step : CommitStep) (hstep : ∀ target, step = .deleteSecret target → target.WellFormed) :
    broker.Agree backend start start' Eq (cleanUp step) (cleanUp step) := by
  cases step with
  | deleteSecret target =>
      exact alike_bind_eq (alike_attempt (agree_deleteCredential (hstep target rfl)))
        fun _ => alike_pure rfl
  | _ => exact alike_pure rfl

theorem agree_commitNewGeneration (item : ItemMetadata) (previous : Option Uuid) (secret : SecretBytes) :
    broker.Agree backend start start' Eq (broker.commitNewGeneration item previous secret)
      (broker.commitNewGeneration item previous secret) := by
  refine alike_bind_eq (alike_ofExcept _) fun metadata => ?_
  refine alike_bind_eq (agree_writeCredential (by trivial) _) fun _ => ?_
  refine alike_bind_eq (alike_attempt (agree_writeCredential (by trivial) _)) fun written => ?_
  cases written with
  | error error =>
      exact alike_bind_eq (alike_attempt (agree_deleteCredential (by trivial)))
        fun _ => alike_throw _
  | ok _ =>
      refine alike_forM fun step hstep => agree_cleanUp step ?_
      rintro target rfl
      simp only [GenerationCommit.steps, List.mem_append, List.mem_cons, reduceCtorEq, List.not_mem_nil, or_false,
        false_or] at hstep
      split at hstep
      · split_ifs at hstep
        · cases List.mem_singleton.mp hstep
          trivial
        · cases hstep
      · cases hstep

theorem agree_createCollection (collection : CollectionMetadata) :
    broker.Agree backend start start' Eq (broker.createCollection collection) (broker.createCollection collection) := by
  refine alike_bind_eq (alike_ofExcept _) fun _ => ?_
  refine alike_bind_eq (agree_readCredential (by trivial)) fun stored => ?_
  split_ifs
  · exact alike_throw _
  · exact alike_bind_eq (agree_writeMetadata _ (by trivial) _) fun _ => alike_pure rfl

theorem agree_updateCollection (collection : CollectionMetadata) :
    broker.Agree backend start start' Eq (broker.updateCollection collection) (broker.updateCollection collection) := by
  refine alike_bind_eq (agree_getCollection _) fun existing => ?_
  refine alike_bind_eq (alike_ofExcept _) fun _ => ?_
  exact alike_bind_eq (agree_writeMetadata _ (by trivial) _) fun _ => alike_pure rfl

/-- A check that fails is the end; what follows may rely on it. -/
theorem agree_check {α : Type} {check : Except BrokerError Unit} {action : Unit → BrokerAction α}
    (h : check = .ok () → broker.Agree backend start start' Eq (action ()) (action ())) :
    broker.Agree backend start start' Eq (Action.ofExcept check >>= action) (Action.ofExcept check >>= action) := by
  cases hcheck : check with
  | error error => exact fun _ _ htwins => ⟨rfl, htwins⟩
  | ok _ => exact h hcheck

theorem agree_setAlias (record : AliasMetadata) :
    broker.Agree backend start start' Eq (broker.setAlias record) (broker.setAlias record) := by
  refine agree_check fun hvalid => ?_
  refine alike_bind_eq (agree_requireCollection _) fun _ => ?_
  exact alike_bind_eq (agree_writeMetadata _ (broker.aliasKind.target_wellFormed hvalid) _)
    fun _ => alike_pure rfl

theorem agree_removeAlias (name : String) :
    broker.Agree backend start start' Eq (removeAlias name) (removeAlias name) := by
  refine agree_check fun hname => ?_
  have htarget : (TargetName.alias name).WellFormed := checkAliasName_eq_ok.mp hname
  refine alike_bind_eq (agree_readCredential htarget) fun stored => ?_
  split_ifs
  · exact alike_throw _
  · exact alike_bind_eq (agree_deleteCredential htarget) fun _ => alike_pure rfl

theorem agree_createItem (item : ItemMetadata) (secret : SecretBytes) :
    broker.Agree backend start start' Eq (broker.createItem item secret) (broker.createItem item secret) := by
  refine alike_bind_eq (alike_ofExcept _) fun _ => ?_
  refine alike_bind_eq (agree_requireCollection _) fun _ => ?_
  refine alike_bind_eq (agree_readCredential (by trivial)) fun stored => ?_
  split_ifs
  · exact alike_throw _
  · exact alike_bind_eq (agree_commitNewGeneration _ _ _) fun _ => alike_pure rfl

theorem agree_updateItem (item : ItemMetadata) (secret : Option SecretBytes) :
    broker.Agree backend start start' Eq (broker.updateItem item secret) (broker.updateItem item secret) := by
  refine alike_bind_eq (agree_getItemMetadata _) fun existing => ?_
  refine alike_bind_eq (alike_ofExcept _) fun _ => ?_
  refine alike_bind_eq (agree_requireCollection _) fun _ => ?_
  cases secret with
  | none => exact alike_bind_eq (agree_writeMetadata _ (by trivial) _) fun _ => alike_pure rfl
  | some secret =>
      dsimp only
      split_ifs
      · exact alike_throw _
      · exact alike_bind_eq (agree_commitNewGeneration _ _ _) fun _ => alike_pure rfl

theorem agree_updateItemCas (item : ItemMetadata) (secret : Option SecretBytes) (expectedModified : UInt64) :
    broker.Agree backend start start' Eq (broker.updateItemCas item secret expectedModified)
      (broker.updateItemCas item secret expectedModified) := by
  refine alike_bind_eq (agree_getItemMetadata _) fun existing => ?_
  split_ifs
  · exact alike_throw _
  · exact agree_updateItem item secret

/-! ### Requests that enumerate -/

variable (broker backend) in
/-- What the two stores list of vaults that agree on the owned names. -/
def SameEntries (entries entries' : List Entry) : Prop :=
  ∃ vault vault' : Vault, (∀ target : TargetName, target.WellFormed → vault.lookup target = vault'.lookup target) ∧
    entries = broker.entriesOf vault ∧ entries' = (broker.withBackend backend).entriesOf vault'

theorem agree_entries : broker.Agree backend start start' (broker.SameEntries backend) entries entries :=
  fun vault vault' htwins => ⟨⟨vault, vault', fun _ => htwins.lookup_eq, rfl, rfl⟩, htwins⟩

namespace SameEntries

variable {entries entries' : List Entry}

theorem mem_iff (h : broker.SameEntries backend entries entries') (entry : Entry) :
    entry ∈ entries ↔ entry ∈ entries' := by
  obtain ⟨vault, vault', hlookup, rfl, rfl⟩ := h
  rw [mem_entriesOf, mem_entriesOf]
  exact and_congr_right fun htarget => by rw [hlookup _ htarget]

theorem mem_filterMap {α : Type} (h : broker.SameEntries backend entries entries') (ofEntry : Entry → Option α)
    (record : α) : record ∈ entries.filterMap ofEntry ↔ record ∈ entries'.filterMap ofEntry := by
  simp only [List.mem_filterMap, h.mem_iff]

theorem sortByKey_eq {α κ : Type} [DecidableEq κ] [Ord κ] [Std.TransOrd κ] [Std.LawfulEqOrd κ] {kind : RecordKind α κ}
    {ofEntry : Entry → Option α} (h : broker.SameEntries backend entries entries') (hreads : kind.Reads ofEntry) :
    sortByKey kind.key (entries.filterMap ofEntry) = sortByKey kind.key (entries'.filterMap ofEntry) := by
  have hmem := h.mem_filterMap ofEntry
  obtain ⟨vault, vault', hlookup, rfl, rfl⟩ := h
  exact sortByKey_congr hreads.nodup_keys hreads.nodup_keys hmem

theorem mem_secretTargets (h : broker.SameEntries backend entries entries') (id : Uuid) (target : TargetName) :
    target ∈ secretTargets id entries ↔ target ∈ secretTargets id entries' :=
  h.mem_filterMap _ target

end SameEntries

theorem wellFormed_of_mem_secretTargets {id : Uuid} {entries : List Entry} (h : target ∈ secretTargets id entries) :
    target.WellFormed := by
  obtain ⟨entry, -, htarget⟩ := List.mem_filterMap.mp h
  split at htarget
  · split_ifs at htarget
    cases htarget
    trivial
  · cases htarget

/-- What is left of a vault after some credentials are deleted one after the other. -/
theorem getElem?_foldl_drop (targets : List TargetName) (vault : Vault) (name : String) :
    (targets.foldl Vault.drop vault)[name]? =
      if name ∈ targets.map TargetName.toString then none else vault[name]? := by
  induction targets generalizing vault with
  | nil => rfl
  | cons target rest ih =>
      rw [List.foldl_cons, ih]
      simp only [List.map_cons, List.mem_cons]
      by_cases hname : target.toString = name
      · subst hname
        simp [Vault.drop]
      · have hsame : (vault.drop target)[name]? = vault[name]? := by
          rw [Vault.drop, Std.ExtTreeMap.getElem?_erase, if_neg fun heq => hname (Std.LawfulEqOrd.eq_of_compare heq)]
        simp only [hsame, Ne.symm hname, false_or]

theorem answer_deleteCredential (backend : VaultBackend) (target : TargetName) (vault : Vault) :
    answer backend.serve (deleteCredential target) vault = (.ok (), vault.drop target) := rfl

theorem answer_cleanUp (backend : VaultBackend) (target : TargetName) (vault : Vault) :
    answer backend.serve (cleanUp (.deleteSecret target)) vault = (.ok (), vault.drop target) := rfl

theorem answer_forM_drop {ι : Type} {body : ι → BrokerAction Unit} {target : ι → TargetName}
    (hbody : ∀ item vault, answer backend.serve (body item) vault = (.ok (), vault.drop (target item)))
    (items : List ι) (vault : Vault) :
    answer backend.serve (forM items body) vault = (.ok (), (items.map target).foldl Vault.drop vault) := by
  induction items generalizing vault with
  | nil => rfl
  | cons item rest ih =>
      rw [List.forM_cons, answer_bind, hbody, List.map_cons, List.foldl_cons]
      exact ih _

/-- Deleting the same credentials in any order leaves vaults that agree. -/
theorem agree_forM_drop {ι : Type} {body : ι → BrokerAction Unit} {target : ι → TargetName}
    (hbody : ∀ (backend : VaultBackend) item vault,
      answer backend.serve (body item) vault = (.ok (), vault.drop (target item)))
    {items items' : List ι} (hmem : ∀ item, item ∈ items ↔ item ∈ items')
    (hformed : ∀ item ∈ items, (target item).WellFormed) :
    broker.Agree backend start start' Eq (forM items body) (forM items' body) := by
  intro vault vault' htwins
  rw [answer_forM_drop (hbody _), answer_forM_drop (hbody _)]
  have hnames : ∀ name, name ∈ (items.map target).map TargetName.toString ↔
      name ∈ (items'.map target).map TargetName.toString := fun name => by simp only [List.mem_map, hmem]
  have hforeign : ∀ name, ¬ Owned name → name ∉ (items.map target).map TargetName.toString := by
    intro name hname hmem
    obtain ⟨_, htarget, rfl⟩ := List.mem_map.mp hmem
    obtain ⟨item, hitem, rfl⟩ := List.mem_map.mp htarget
    exact hname (hformed item hitem).owned
  refine ⟨rfl, fun name hname => ?_, fun name hname => ?_, fun name hname => ?_⟩
  · rw [getElem?_foldl_drop, getElem?_foldl_drop, htwins.owned name hname]
    simp only [hnames]
  · rw [getElem?_foldl_drop, if_neg (hforeign name hname), htwins.foreign name hname]
  · rw [getElem?_foldl_drop, if_neg fun h => hforeign name hname ((hnames name).mpr h), htwins.foreign' name hname]

theorem agree_deleteItemFromEntries {entries entries' : List Entry}
    (h : broker.SameEntries backend entries entries') (id : Uuid) :
    broker.Agree backend start start' Eq (deleteItemFromEntries id entries) (deleteItemFromEntries id entries') :=
  alike_bind_eq (agree_deleteCredential trivial) fun _ =>
    agree_forM_drop answer_deleteCredential (h.mem_secretTargets id) fun _ => wellFormed_of_mem_secretTargets

theorem agree_deleteItem (id : Uuid) :
    broker.Agree backend start start' Eq (broker.deleteItem id) (broker.deleteItem id) := by
  refine alike_bind_eq (agree_getItemMetadata id) fun _ => ?_
  refine alike_bind agree_entries fun entries entries' hentries => ?_
  exact alike_bind_eq (agree_deleteItemFromEntries hentries id) fun _ => alike_pure rfl

theorem agree_deleteCollection (collectionId : Uuid) :
    broker.Agree backend start start' Eq (broker.deleteCollection collectionId)
      (broker.deleteCollection collectionId) := by
  refine alike_bind_eq (agree_getCollection collectionId) fun _ => ?_
  refine alike_bind agree_entries fun entries entries' hentries => ?_
  have hids : (Std.ExtTreeSet.ofList (((entries.filterMap broker.itemOf).filter fun item =>
        item.collectionId = collectionId).map ItemMetadata.id) compare : BTreeSet Uuid) =
      .ofList (((entries'.filterMap broker.itemOf).filter fun item =>
        item.collectionId = collectionId).map ItemMetadata.id) compare := by
    apply Std.ExtTreeSet.ext_mem
    intro id
    simp only [Std.ExtTreeSet.mem_ofList, List.contains_eq_mem, decide_eq_true_eq, List.mem_map, List.mem_filter,
      hentries.mem_filterMap]
  dsimp only
  rw [hids]
  refine alike_bind_eq (alike_forM fun id _ => agree_deleteItemFromEntries hentries id) fun _ => ?_
  refine alike_bind_eq ?_ fun _ => ?_
  · refine agree_forM_drop (fun _ _ _ => rfl) (fun name => ?_) fun name hname => ?_
    · simp only [List.mem_map, List.mem_filter, hentries.mem_filterMap]
    · obtain ⟨record, hrecord, rfl⟩ := List.mem_map.mp hname
      obtain ⟨entry, -, hentry⟩ := List.mem_filterMap.mp (List.mem_filter.mp hrecord).1
      have hload := ((aliasOf_reads entry record).mp hentry).2
      exact broker.aliasKind.target_wellFormed (RecordKind.load_eq_ok.mp hload).2.2
  · exact alike_bind_eq (agree_deleteCredential trivial) fun _ => alike_pure rfl

theorem agree_validItems :
    broker.Agree backend start start' Eq broker.validItems broker.validItems :=
  alike_bind agree_entries fun _ _ hentries => alike_pure (hentries.sortByKey_eq itemOf_reads)

theorem agree_replacedItemIds (item : ItemMetadata) (replace : Bool) :
    broker.Agree backend start start' Eq (broker.replacedItemIds item replace)
      (broker.replacedItemIds item replace) := by
  unfold replacedItemIds
  split_ifs
  · exact alike_bind_eq agree_validItems fun _ => alike_pure rfl
  · exact alike_pure rfl

theorem agree_deleteReplacedItems {entries entries' : List Entry} (h : broker.SameEntries backend entries entries')
    (ids : List Uuid) :
    broker.Agree backend start start' Eq (deleteReplacedItems entries ids) (deleteReplacedItems entries' ids) := by
  induction ids with
  | nil => exact alike_pure rfl
  | cons id rest ih =>
      have hitem : broker.Agree backend start start' Eq (deleteReplacedItem id entries)
          (deleteReplacedItem id entries') :=
        alike_bind_eq (agree_deleteCredential trivial) fun _ =>
          agree_forM_drop answer_cleanUp (h.mem_secretTargets id) fun _ => wellFormed_of_mem_secretTargets
      refine alike_bind_eq (alike_attempt hitem) fun outcome => ?_
      refine alike_bind_eq ih fun others => ?_
      cases outcome with
      | error error => exact alike_pure rfl
      | ok _ => exact alike_pure rfl

theorem agree_createOrReplaceItem (item : ItemMetadata) (secret : SecretBytes) (replace : Bool) :
    broker.Agree backend start start' Eq (broker.createOrReplaceItem item secret replace)
      (broker.createOrReplaceItem item secret replace) := by
  refine alike_bind_eq (alike_ofExcept _) fun _ => ?_
  refine alike_bind_eq (agree_requireCollection _) fun _ => ?_
  refine alike_bind_eq (agree_readCredential (by trivial)) fun stored => ?_
  split_ifs
  · exact alike_throw _
  · refine alike_bind_eq (agree_replacedItemIds item replace) fun replaced => ?_
    refine alike_bind_eq (agree_commitNewGeneration _ _ _) fun _ => ?_
    refine alike_bind agree_entries fun entries entries' hentries => ?_
    exact alike_bind_eq (agree_deleteReplacedItems hentries replaced) fun _ => alike_pure rfl

theorem SameEntries.inventory_eq {entries entries' : List Entry} (h : broker.SameEntries backend entries entries') :
    entries.foldl broker.recordEntry .empty = entries'.foldl broker.recordEntry .empty := by
  obtain ⟨vault, vault', hlookup, rfl, rfl⟩ := h
  have hstored : ∀ id, (broker.withBackend backend).itemKind.stored vault' id = broker.itemKind.stored vault id :=
    fun id => RecordKind.stored_congr (hlookup (.itemMetadata id) trivial).symm
  have hcommitted : (broker.inventoryOf vault).committedGenerations =
      ((broker.withBackend backend).inventoryOf vault').committedGenerations := by
    apply Std.ExtTreeMap.ext_getElem?
    intro id
    ext generation
    rw [inventoryOf_committed, inventoryOf_committed, hstored]
  have hgenerations : (broker.inventoryOf vault).storedGenerations =
      ((broker.withBackend backend).inventoryOf vault').storedGenerations := by
    apply Std.ExtTreeSet.ext_mem
    intro key
    obtain ⟨itemId, generation⟩ := key
    exact inventoryOf_stored.trans
      ((exists_congr fun blob => by rw [hlookup (.itemSecret itemId generation) trivial]).trans inventoryOf_stored.symm)
  exact congrArg₂ RecoveryInventory.mk hcommitted hgenerations

theorem agree_recover (plan : List RecoveryAction) :
    broker.Agree backend start start' Eq (recover plan) (recover plan) := by
  induction plan with
  | nil => exact alike_pure rfl
  | cons action rest ih =>
      cases action with
      | deleteAbandonedGeneration =>
          exact alike_bind_eq (agree_deleteCredential trivial) fun _ =>
            alike_bind_eq ih fun _ => alike_pure rfl
      | reportMissingCommittedGeneration => exact alike_bind_eq ih fun _ => alike_pure rfl

theorem agree_reconcileLocked :
    broker.Agree backend start start' Eq broker.reconcileLocked broker.reconcileLocked := by
  refine alike_bind agree_entries fun entries entries' hentries => ?_
  rw [hentries.inventory_eq]
  exact alike_bind_eq (agree_recover _) fun _ => alike_pure rfl

/-! ### Requests that read -/

theorem agree_listCollections :
    broker.Agree backend start start' Eq broker.listCollections broker.listCollections := by
  refine alike_bind agree_entries fun entries entries' hentries => alike_pure ?_
  exact congrArg ResponseBody.collections (hentries.sortByKey_eq collectionOf_reads)

theorem agree_resolveAlias (name : String) :
    broker.Agree backend start start' Eq (broker.resolveAlias name) (broker.resolveAlias name) := by
  refine agree_check fun hname => ?_
  refine alike_bind_eq (agree_readCredential (checkAliasName_eq_ok.mp hname)) fun stored => ?_
  cases stored with
  | none => exact alike_pure rfl
  | some blob =>
      refine alike_bind_eq (alike_ofExcept _) fun record => ?_
      refine alike_bind_eq (alike_attempt (agree_getCollection _)) fun collection => ?_
      cases collection with
      | error error => exact alike_throw _
      | ok collection => exact alike_pure rfl

theorem agree_searchItems (attributes : BTreeMap String String) :
    broker.Agree backend start start' Eq (broker.searchItems attributes) (broker.searchItems attributes) :=
  alike_bind_eq (alike_ofExcept _) fun _ =>
    alike_bind_eq agree_validItems fun _ => alike_pure rfl

theorem agree_listItems (collectionId : Uuid) :
    broker.Agree backend start start' Eq (broker.listItems collectionId) (broker.listItems collectionId) :=
  alike_bind_eq (agree_getCollection collectionId) fun _ =>
    alike_bind_eq agree_validItems fun _ => alike_pure rfl

theorem agree_getItem (id : Uuid) (includeSecret : Bool) :
    broker.Agree backend start start' Eq (broker.getItem id includeSecret) (broker.getItem id includeSecret) := by
  refine alike_bind_eq (agree_getItemMetadata id) fun item => ?_
  split_ifs
  · exact alike_bind_eq (agree_readCredential (by trivial)) fun _ =>
      alike_bind_eq (alike_ofExcept _) fun _ => alike_pure rfl
  · exact alike_pure rfl

theorem collectAliases_withBackend (entries : List Entry) :
    (broker.withBackend backend).collectAliases entries = broker.collectAliases entries := by
  induction entries with
  | nil => rfl
  | cons entry rest ih =>
      rw [collectAliases, collectAliases, ih]
      rfl

theorem execute_withBackend (operation : Operation) :
    (broker.withBackend backend).execute operation = broker.execute operation := by
  cases operation with
  | listAliases => simp only [execute, perform, listAliases, collectAliases_withBackend]
  | _ => rfl

theorem answer_listAliases (broker : Broker) (vault : Vault) :
    answer broker.backend.serve (broker.execute .listAliases) vault =
      (.ok (.aliases (broker.aliasesOf vault)), vault) := by
  have hstate : (broker.respond ⟨.listAliases, undisturbed⟩ vault).state = vault :=
    respond_state_of_reading (show Calls VaultCall.IsReading (broker.perform .listAliases) from
      calls_listAliases) undisturbed
  rw [respond, execute_undisturbed] at hstate
  exact Prod.ext (broker.view_listAliases vault) hstate

/-- The aliases are collected in the order of the entries, which the sort forgets. -/
theorem agree_listAliases :
    broker.Agree backend start start' Eq (broker.execute .listAliases) (broker.execute .listAliases) := by
  intro vault vault' htwins
  have hanswer' := answer_listAliases (broker.withBackend backend) vault'
  rw [execute_withBackend] at hanswer'
  rw [answer_listAliases broker,
    show answer backend.serve (broker.execute .listAliases) vault' = _ from hanswer']
  refine ⟨congrArg ResponseBody.aliases ?_, htwins⟩
  have hentries : broker.SameEntries backend (broker.entriesOf vault) ((broker.withBackend backend).entriesOf vault') :=
    ⟨vault, vault', fun _ => htwins.lookup_eq, rfl, rfl⟩
  have hlookup : ∀ id, vault'.lookup (.collection id) = vault.lookup (.collection id) :=
    fun id => (htwins.lookup_eq (by trivial)).symm
  have hstored : ∀ id, (broker.withBackend backend).collectionKind.stored vault' id =
      broker.collectionKind.stored vault id := fun id => RecordKind.stored_congr (hlookup id)
  refine (sortByKey_congr ?_ ?_ fun record => ?_).symm
  · exact List.Nodup.sublist (List.filter_sublist.map _) aliasOf_reads.nodup_keys
  · exact List.Nodup.sublist (List.filter_sublist.map _) aliasOf_reads.nodup_keys
  · simp only [resolvedAliases, List.mem_filter, hstored]
    exact and_congr_left fun _ => (hentries.mem_filterMap _ record).symm

/-- Every request does the same to vaults that agree on the owned names. -/
theorem agree_execute (operation : Operation) :
    broker.Agree backend start start' Eq (broker.execute operation) (broker.execute operation) := by
  have hlocked : broker.Agree backend start start' Eq (broker.perform operation) (broker.perform operation) →
      broker.Agree backend start start' Eq (broker.execute operation) (broker.execute operation) := fun h =>
    alike_bind_eq (alike_perform fun _ _ htwins => ⟨rfl, htwins⟩) fun _ => h
  cases operation with
  | ping => exact hlocked (alike_pure rfl)
  | listCollections => exact hlocked agree_listCollections
  | getCollection collectionId =>
      exact hlocked (alike_bind_eq (agree_getCollection collectionId) fun _ => alike_pure rfl)
  | createCollection collection => exact hlocked (agree_createCollection collection)
  | updateCollection collection => exact hlocked (agree_updateCollection collection)
  | deleteCollection collectionId => exact hlocked (agree_deleteCollection collectionId)
  | listAliases => exact agree_listAliases
  | resolveAlias name => exact hlocked (agree_resolveAlias name)
  | setAlias record => exact hlocked (agree_setAlias record)
  | removeAlias name => exact hlocked (agree_removeAlias name)
  | searchItems attributes => exact hlocked (agree_searchItems attributes)
  | listItems collectionId => exact hlocked (agree_listItems collectionId)
  | getItem itemId includeSecret => exact hlocked (agree_getItem itemId includeSecret)
  | createItem item secret => exact hlocked (agree_createItem item secret)
  | createOrReplaceItem item secret replace => exact hlocked (agree_createOrReplaceItem item secret replace)
  | updateItem item secret => exact hlocked (agree_updateItem item secret)
  | updateItemCas item secret expectedModified => exact hlocked (agree_updateItemCas item secret expectedModified)
  | deleteItem itemId => exact hlocked (agree_deleteItem itemId)
  | reconcile => exact hlocked agree_reconcileLocked

/-- The answers to a sequence of requests without failures, and the vault they leave. Each request finds the
store listing its credentials in some order of its own. -/
def answers (broker : Broker) : List (VaultBackend × Operation) → Vault → List (Except BrokerError ResponseBody) × Vault
  | [], vault => ([], vault)
  | (backend, operation) :: rest, vault =>
      let first := answer backend.serve ((broker.withBackend backend).execute operation) vault
      let later := broker.answers rest first.2
      (first.1 :: later.1, later.2)

theorem answers_twins (broker : Broker) (requests : List (VaultBackend × VaultBackend × Operation))
    {vault vault' : Vault} (htwins : Twins start start' vault vault') :
    let run := broker.answers (requests.map fun request => (request.1, request.2.2)) vault
    let run' := broker.answers (requests.map fun request => (request.2.1, request.2.2)) vault'
    run.1 = run'.1 ∧ Twins start start' run.2 run'.2 := by
  induction requests generalizing vault vault' with
  | nil => exact ⟨rfl, htwins⟩
  | cons request others ih =>
      obtain ⟨backend, backend', operation⟩ := request
      have hagree : (broker.withBackend backend).Agree backend' start start' Eq _ _ := agree_execute operation
      obtain ⟨hfirst, hnext⟩ := hagree vault vault' htwins
      obtain ⟨hlater, hlast⟩ := ih hnext
      simp only [execute_withBackend] at hfirst hlater hlast
      simp only [List.map_cons, answers, execute_withBackend]
      exact ⟨List.cons_eq_cons.mpr ⟨Action.related_eq.mp hfirst, hlater⟩, hlast⟩

/-- Two stores that hold the same under every owned name answer every sequence of requests alike, still hold
the same under the owned names, and have not changed any other name, whatever the order in which they list
their credentials. -/
theorem namespace_is_isolated (broker : Broker) (vault vault' : Vault)
    (h : ∀ name, Owned name → vault[name]? = vault'[name]?)
    (requests : List (VaultBackend × VaultBackend × Operation)) :
    let run := broker.answers (requests.map fun request => (request.1, request.2.2)) vault
    let run' := broker.answers (requests.map fun request => (request.2.1, request.2.2)) vault'
    run.1 = run'.1 ∧
      (∀ name, Owned name → run.2[name]? = run'.2[name]?) ∧
      ∀ name, ¬ Owned name → run.2[name]? = vault[name]? ∧ run'.2[name]? = vault'[name]? := by
  intro run run'
  obtain ⟨hanswers, htwins⟩ : run.1 = run'.1 ∧ Twins vault vault' run.2 run'.2 :=
    broker.answers_twins requests ⟨h, fun _ _ => rfl, fun _ _ => rfl⟩
  exact ⟨hanswers, htwins.owned, fun name hname => ⟨htwins.foreign name hname, htwins.foreign' name hname⟩⟩

/-- The backend that lists credentials in the opposite order. -/
def reversedBackend : VaultBackend where
  order := fun vault => vault.toList.reverse
  order_perm := fun vault => List.reverse_perm vault.toList

/-- An empty store next to one that holds a credential of another program. -/
theorem namespace_is_isolated_beside_foreign :
    let foreign : Vault := Std.ExtTreeMap.insert ∅ "git:other" [1]
    let requests : List (VaultBackend × VaultBackend × Operation) :=
      [(inMemoryBackend, reversedBackend, .createCollection ⟨1, ⟨7⟩, "login", 5, 5⟩),
        (inMemoryBackend, reversedBackend, .listCollections)]
    let run := (cborBroker inMemoryBackend).answers (requests.map fun request => (request.1, request.2.2)) ∅
    let run' := (cborBroker inMemoryBackend).answers (requests.map fun request => (request.2.1, request.2.2)) foreign
    run.1 = run'.1 ∧ run'.2["git:other"]? = some [1] := by
  intro foreign requests run run'
  have hforeign : ¬ Owned "git:other" := by
    rintro ⟨target, htarget⟩
    have herror : (TargetName.fromStr "git:other").toOption = none := by decide +kernel
    rw [htarget] at herror
    cases herror
  have hsame : ∀ name, Owned name → (∅ : Vault)[name]? = foreign[name]? := by
    intro name hname
    rw [Std.ExtTreeMap.getElem?_insert, if_neg]
    rintro heq
    exact hforeign (Std.LawfulEqOrd.eq_of_compare heq ▸ hname)
  obtain ⟨hanswers, -, hforeigns⟩ := namespace_is_isolated (cborBroker inMemoryBackend) ∅ foreign hsame requests
  exact ⟨hanswers, (hforeigns _ hforeign).2.trans (by decide +kernel)⟩

end Broker

end WincredLibsecret
