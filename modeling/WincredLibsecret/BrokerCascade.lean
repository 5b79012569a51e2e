import WincredLibsecret.BrokerRecovery
import WincredLibsecret.BrokerReplace
import WincredLibsecret.BrokerFootprint

/-! What deletions delete. A deletion that succeeds has removed the credentials it was to remove and no other,
and one that fails or is killed has removed some of them. For the deletion of a collection this gives the
cascade exactly, whatever else the vault holds, and an interrupted one can be completed later. -/

namespace WincredLibsecret

open Effect Effect.Action KeyedRecords

namespace Vault

/-- The second vault is the first without the given credentials. -/
structure Without (gone : TargetName → Prop) (vault rest : Vault) : Prop where
  removed : ∀ target, gone target → rest.lookup target = none
  kept : ∀ name, (∀ target, gone target → target.toString ≠ name) → rest[name]? = vault[name]?

/-- The second vault is the first without some of the given credentials. -/
def Lacks (gone : TargetName → Prop) (vault rest : Vault) : Prop :=
  ∀ name, rest[name]? = vault[name]? ∨ (rest[name]? = none ∧ ∃ target, gone target ∧ target.toString = name)

variable {vault middle rest : Vault} {gone other : TargetName → Prop}

namespace Without

theorem refl (vault : Vault) : vault.Without (fun _ => False) vault := ⟨fun _ => False.elim, fun _ _ => rfl⟩

theorem lookup_of_not (h : vault.Without gone rest) {target : TargetName} (hkept : ¬ gone target) :
    rest.lookup target = vault.lookup target := by
  refine h.kept _ fun found hfound heq => hkept ?_
  rwa [TargetName.toString_injective heq] at hfound

theorem drop (vault : Vault) (target : TargetName) : vault.Without (· = target) (vault.drop target) := by
  refine ⟨?_, fun name hne => ?_⟩
  · rintro found rfl
    exact lookup_drop_self vault found
  · have htext : ¬ compare target.toString name = .eq := fun heq => hne target rfl (Std.LawfulEqOrd.eq_of_compare heq)
    rw [Vault.drop, Std.ExtTreeMap.getElem?_erase, if_neg htext]

theorem trans (h : vault.Without gone middle) (h' : middle.Without other rest) :
    vault.Without (fun target => gone target ∨ other target) rest := by
  constructor
  · intro target hgone
    by_cases hother : other target
    · exact h'.removed target hother
    · rw [h'.lookup_of_not hother, h.removed target (hgone.resolve_right hother)]
  · intro name hkept
    rw [h'.kept name fun target htarget => hkept target (.inr htarget),
      h.kept name fun target htarget => hkept target (.inl htarget)]

theorem congr (h : vault.Without gone rest) (hiff : ∀ target, gone target ↔ other target) :
    vault.Without other rest := by
  obtain rfl : gone = other := funext fun target => propext (hiff target)
  exact h

/-- Credentials that are not stored may be counted among those that are gone. -/
theorem widen (h : vault.Without gone rest) (hsubset : ∀ target, gone target → other target)
    (hnone : ∀ target, other target → ¬ gone target → vault.lookup target = none) : vault.Without other rest := by
  refine ⟨fun target hother => ?_,
    fun name hkept => h.kept name fun target hgone => hkept target (hsubset target hgone)⟩
  by_cases hgone : gone target
  · exact h.removed target hgone
  · rw [h.lookup_of_not hgone, hnone target hother hgone]

theorem lacks (h : vault.Without gone rest) : vault.Lacks gone rest := by
  intro name
  by_cases hname : ∃ target, gone target ∧ target.toString = name
  · obtain ⟨target, hgone, rfl⟩ := hname
    exact .inr ⟨h.removed target hgone, target, hgone, rfl⟩
  · exact .inl (h.kept name fun target hgone heq => hname ⟨target, hgone, heq⟩)

end Without

namespace Lacks

theorem refl (gone : TargetName → Prop) (vault : Vault) : vault.Lacks gone vault := fun _ => .inl rfl

theorem mono (h : vault.Lacks gone rest) (hsubset : ∀ target, gone target → other target) : vault.Lacks other rest :=
  fun name => (h name).imp_right fun ⟨hnone, target, hgone, heq⟩ => ⟨hnone, target, hsubset target hgone, heq⟩

theorem trans (h : vault.Lacks gone middle) (h' : middle.Lacks gone rest) : vault.Lacks gone rest := by
  intro name
  rcases h' name with hsame | hnone
  · rw [hsame]
    exact h name
  · exact .inr hnone

theorem lookup_of_not (h : vault.Lacks gone rest) {target : TargetName} (hkept : ¬ gone target) :
    rest.lookup target = vault.lookup target := by
  refine (h target.toString).resolve_right ?_
  rintro ⟨-, found, hfound, heq⟩
  rw [TargetName.toString_injective heq] at hfound
  exact hkept hfound

theorem lookup (h : vault.Lacks gone rest) (target : TargetName) :
    rest.lookup target = vault.lookup target ∨ rest.lookup target = none :=
  (h target.toString).imp_right And.left

end Lacks

end Vault

namespace Broker

variable {broker : Broker} {vault rest : Vault} {faults : BackendError → Prop} {gone other : TargetName → Prop}

variable (broker faults) in
/-- The computation deletes the given credentials. If it stops early it has deleted some of them. -/
def Deletes (gone : TargetName → Prop) (action : BrokerAction Unit) : Prop :=
  ∀ vault : Vault, wp broker.backend.serve faults action (fun _ => vault.Without gone)
    (fun _ rest => (∃ error, faults error) ∧ vault.Lacks gone rest) (vault.Lacks gone) vault

theorem Deletes.congr {action : BrokerAction Unit} (h : broker.Deletes faults gone action)
    (hiff : ∀ target, gone target ↔ other target) : broker.Deletes faults other action := by
  obtain rfl : gone = other := funext fun target => propext (hiff target)
  exact h

theorem deletes_nothing : broker.Deletes faults (fun _ => False) (pure ()) :=
  fun vault => ⟨.refl _ vault, .refl vault⟩

theorem deletes_deleteCredential (target : TargetName) :
    broker.Deletes faults (· = target) (deleteCredential target) := by
  intro vault
  have hdrop := Vault.Without.drop vault target
  rw [wp_deleteCredential]
  exact ⟨.refl _ vault, fun error herror => ⟨⟨error, herror⟩, .refl _ vault⟩, hdrop.lacks, hdrop⟩

theorem Deletes.bind {action next : BrokerAction Unit} (haction : broker.Deletes faults gone action)
    (hnext : broker.Deletes faults other next) :
    broker.Deletes faults (fun target => gone target ∨ other target) (do action; next) := by
  intro vault
  rw [wp_bind]
  refine wp_mono (fun _ middle hmiddle => ?_) (fun _ _ h => ⟨h.1, h.2.mono fun _ => .inl⟩)
    (fun _ h => h.mono fun _ => .inl) (haction vault)
  have hfirst := hmiddle.lacks.mono fun target => Or.inl (b := other target)
  exact wp_mono (fun _ _ h => hmiddle.trans h) (fun _ _ h => ⟨h.1, hfirst.trans (h.2.mono fun _ => .inr)⟩)
    (fun _ h => hfirst.trans (h.mono fun _ => .inr)) (hnext middle)

theorem deletes_forM {ι : Type} {body : ι → BrokerAction Unit} {targets : ι → TargetName → Prop}
    (hbody : ∀ index, broker.Deletes faults (targets index) (body index)) (indices : List ι) :
    broker.Deletes faults (fun target => ∃ index ∈ indices, targets index target) (forM indices body) := by
  induction indices with
  | nil => exact deletes_nothing.congr fun _ => by simp
  | cons index indices ih =>
      rw [List.forM_cons]
      exact ((hbody index).bind ih).congr fun _ => by simp

/-- The credentials a deletion of an item deletes by a listing of the vault. -/
def itemTargets (entries : List Entry) (id : Uuid) : List TargetName := .itemMetadata id :: secretTargets id entries

/-- The deletion of an item, with either of the two ways to delete its secrets. -/
theorem deletes_item {body : TargetName → BrokerAction Unit}
    (hbody : ∀ target, broker.Deletes faults (· = target) (body target)) (entries : List Entry) (id : Uuid) :
    broker.Deletes faults (· ∈ itemTargets entries id) (do
      deleteCredential (.itemMetadata id)
      forM (secretTargets id entries) body) :=
  ((deletes_deleteCredential _).bind (deletes_forM hbody _)).congr fun _ => by simp [itemTargets]

theorem deletes_deleteItemFromEntries (entries : List Entry) (id : Uuid) :
    broker.Deletes faults (· ∈ itemTargets entries id) (deleteItemFromEntries id entries) :=
  deletes_item deletes_deleteCredential entries id

variable {target : TargetName} {collectionId : Uuid}

theorem lookup_of_not_mem_itemTargets {id : Uuid} (htarget : target.BelongsTo id)
    (hnot : target ∉ itemTargets (broker.entriesOf vault) id) : vault.lookup target = none := by
  rw [Option.eq_none_iff_forall_ne_some]
  intro blob hblob
  cases target with
  | itemMetadata itemId => exact hnot (htarget ▸ List.mem_cons_self)
  | itemSecret itemId generation =>
      obtain rfl : itemId = id := htarget
      refine hnot (List.mem_cons_of_mem _ (List.mem_filterMap.mpr ?_))
      exact ⟨⟨.itemSecret itemId generation, []⟩, mem_entriesOf.mpr ⟨trivial, blob, hblob, rfl⟩, if_pos rfl⟩
  | _ => exact htarget

theorem belongsTo_of_mem_itemTargets {id : Uuid} {entries : List Entry} (h : target ∈ itemTargets entries id) :
    target.BelongsTo id := by
  rcases List.mem_cons.mp h with rfl | hsecret
  · exact rfl
  · obtain ⟨generation, rfl⟩ := mem_secretTargets hsecret
    exact rfl

variable (broker) in
/-- What a listing of the vault says about items is all there is of them. -/
theorem without_belongsTo {ids : List Uuid}
    (h : vault.Without (fun target => ∃ id ∈ ids, target ∈ itemTargets (broker.entriesOf vault) id) rest) :
    vault.Without (fun target => ∃ id ∈ ids, target.BelongsTo id) rest := by
  refine h.widen ?_ ?_
  · rintro target ⟨id, hid, hmem⟩
    exact ⟨id, hid, belongsTo_of_mem_itemTargets hmem⟩
  · rintro target ⟨id, hid, hbelongs⟩ hnot
    exact lookup_of_not_mem_itemTargets hbelongs fun hmem => hnot ⟨id, hid, hmem⟩

/-- What goes with a collection: its record, the valid aliases that name it, and of every valid item in it
the metadata and all secrets. -/
def GoesWith (broker : Broker) (vault : Vault) (collectionId : Uuid) : TargetName → Prop
  | .collection id => id = collectionId
  | .alias name => ∃ record, broker.aliasKind.stored vault name = some record ∧ record.collectionId = collectionId
  | .itemMetadata id | .itemSecret id _ =>
      ∃ item, broker.itemKind.stored vault id = some item ∧ item.collectionId = collectionId

theorem goesWith_of_belongsTo {id : Uuid} (hbelongs : target.BelongsTo id) :
    broker.GoesWith vault collectionId target ↔ broker.GoesWith vault collectionId (.itemMetadata id) := by
  cases target with
  | itemMetadata | itemSecret =>
      obtain rfl : _ = id := hbelongs
      exact Iff.rfl
  | _ => exact hbelongs.elim

/-- The items that go are found through the entries of the vault. -/
theorem mem_itemIds {id : Uuid} :
    id ∈ (Std.ExtTreeSet.ofList ((((broker.entriesOf vault).filterMap broker.itemOf).filter
        fun item => item.collectionId = collectionId).map ItemMetadata.id) compare).toList ↔
      broker.GoesWith vault collectionId (.itemMetadata id) := by
  rw [Std.ExtTreeSet.mem_toList, Std.ExtTreeSet.mem_ofList, List.contains_iff_mem, List.mem_map]
  simp only [List.mem_filter, decide_eq_true_iff]
  constructor
  · rintro ⟨item, ⟨hitem, hcollection⟩, rfl⟩
    exact ⟨item, itemOf_reads.mem_filterMap.mp hitem, hcollection⟩
  · rintro ⟨item, hitem, hcollection⟩
    exact ⟨item, ⟨itemOf_reads.mem_of_stored hitem, hcollection⟩, RecordKind.key_of_stored hitem⟩

theorem mem_aliasNames {name : String} :
    name ∈ (((broker.entriesOf vault).filterMap broker.aliasOf).filter
        fun record => record.collectionId = collectionId).map AliasMetadata.name ↔
      broker.GoesWith vault collectionId (.alias name) := by
  rw [List.mem_map]
  simp only [List.mem_filter, decide_eq_true_iff]
  constructor
  · rintro ⟨record, ⟨hrecord, hcollection⟩, rfl⟩
    exact ⟨record, aliasOf_reads.mem_filterMap.mp hrecord, hcollection⟩
  · rintro ⟨record, hrecord, hcollection⟩
    exact ⟨record, ⟨aliasOf_reads.mem_of_stored hrecord, hcollection⟩, RecordKind.key_of_stored hrecord⟩

/-- The three deletions of the cascade delete what goes with the collection. -/
theorem deletes_cascade (collectionId : Uuid) {items : List Uuid} {names : List String}
    (hitems : ∀ id, id ∈ items ↔ broker.GoesWith vault collectionId (.itemMetadata id))
    (hnames : ∀ name, name ∈ names ↔ broker.GoesWith vault collectionId (.alias name)) :
    wp broker.backend.serve faults (do
        forM items fun id => deleteItemFromEntries id (broker.entriesOf vault)
        forM names fun name => deleteCredential (.alias name)
        deleteCredential (.collection collectionId))
      (fun _ => vault.Without (broker.GoesWith vault collectionId))
      (fun _ rest => (∃ error, faults error) ∧ vault.Lacks (broker.GoesWith vault collectionId) rest)
      (vault.Lacks (broker.GoesWith vault collectionId)) vault := by
  have hcascade : broker.Deletes faults _ _ :=
    (deletes_forM (deletes_deleteItemFromEntries (broker.entriesOf vault)) items).bind
      ((deletes_forM (fun name => deletes_deleteCredential (.alias name)) names).bind
        (deletes_deleteCredential (.collection collectionId)))
  have hsubset : ∀ target, ((∃ id ∈ items, target ∈ itemTargets (broker.entriesOf vault) id) ∨
      (∃ name ∈ names, target = .alias name) ∨ target = .collection collectionId) →
        broker.GoesWith vault collectionId target := by
    rintro target (⟨id, hid, hmem⟩ | ⟨name, hname, rfl⟩ | rfl)
    · exact (goesWith_of_belongsTo (belongsTo_of_mem_itemTargets hmem)).mpr ((hitems id).mp hid)
    · exact (hnames name).mp hname
    · exact rfl
  refine wp_mono (fun _ rest hrest => hrest.widen hsubset ?_) (fun _ _ h => ⟨h.1, h.2.mono hsubset⟩)
    (fun _ h => h.mono hsubset) (hcascade vault)
  intro target hgoes hnot
  rw [not_or, not_or] at hnot
  cases target with
  | collection id => exact absurd (congrArg TargetName.collection hgoes) hnot.2.2
  | «alias» name => exact absurd ⟨name, (hnames name).mpr hgoes, rfl⟩ hnot.2.1
  | itemMetadata id | itemSecret id generation =>
      exact lookup_of_not_mem_itemTargets rfl fun hmem => hnot.1 ⟨id, (hitems id).mpr hgoes, hmem⟩

/-- The deletion of a collection: what is answered, and what is left wherever it stops. -/
theorem wp_deleteCollection (collectionId : Uuid) (vault : Vault) :
    wp broker.backend.serve faults (broker.deleteCollection collectionId)
      (fun body rest => body = .empty ∧ (broker.collectionKind.stored vault collectionId).isSome ∧
        vault.Without (broker.GoesWith vault collectionId) rest)
      (fun error rest => (∃ error, faults error) ∧ vault.Lacks (broker.GoesWith vault collectionId) rest ∨
        broker.collectionAt vault collectionId = .error error ∧ rest = vault)
      (vault.Lacks (broker.GoesWith vault collectionId)) vault := by
  have hrefl := Vault.Lacks.refl (broker.GoesWith vault collectionId) vault
  have hfault : ∀ error, faults error → (∃ error, faults error) ∧
      vault.Lacks (broker.GoesWith vault collectionId) vault := fun error herror => ⟨⟨error, herror⟩, hrefl⟩
  have hcascade : wp broker.backend.serve faults _ _ _ _ vault :=
    deletes_cascade collectionId (fun _ => mem_itemIds) fun _ => mem_aliasNames
  simp only [deleteCollection, wp_bind, wp_getCollection, wp_entries, wp_pure] at hcascade ⊢
  refine ⟨hrefl, fun error herror => .inl (hfault error herror), either_intro (fun collection hfound => ?_) ?_⟩
  · rw [collectionAt_eq_ok] at hfound
    refine ⟨hrefl, fun error herror => .inl (hfault error herror), ?_⟩
    refine wp_mono (fun _ _ hitems => ?_) (fun _ _ h => .inl h) (fun _ h => h) hcascade
    refine wp_mono (fun _ _ haliases => ?_) (fun _ _ h => .inl h) (fun _ h => h) hitems
    refine wp_mono (fun _ _ hdone => ?_) (fun _ _ h => .inl h) (fun _ h => h) haliases
    exact ⟨hdone.lacks, trivial, by rw [hfound]; rfl, hdone⟩
  · exact fun error herror => .inr ⟨herror, rfl⟩

/-- The rule carried over to the request. -/
theorem wp_execute_deleteCollection (collectionId : Uuid) (vault : Vault) :
    wp broker.backend.serve faults (broker.execute (.deleteCollection collectionId))
      (fun body rest => body = .empty ∧ (broker.collectionKind.stored vault collectionId).isSome ∧
        vault.Without (broker.GoesWith vault collectionId) rest)
      (fun error rest => (∃ error, faults error) ∧ vault.Lacks (broker.GoesWith vault collectionId) rest ∨
        broker.collectionAt vault collectionId = .error error ∧ rest = vault)
      (vault.Lacks (broker.GoesWith vault collectionId)) vault := by
  have hrefl := Vault.Lacks.refl (broker.GoesWith vault collectionId) vault
  rw [execute, wp_bind, wp_acquireLock]
  exact ⟨hrefl, fun error herror => .inl ⟨⟨error, herror⟩, hrefl⟩, wp_deleteCollection collectionId vault⟩

theorem respond_deleteCollection (hstored : (broker.collectionKind.stored vault collectionId).isSome) :
    (broker.respond ⟨.deleteCollection collectionId, undisturbed⟩ vault).outcome = .returned (.ok .empty) := by
  obtain ⟨collection, hcollection⟩ := Option.isSome_iff_exists.mp hstored
  have hanswer : either _ _
      (answer broker.backend.serve (broker.execute (.deleteCollection collectionId)) vault).1 _ :=
    answer_of_wp (wp_execute_deleteCollection collectionId vault)
  rw [respond, execute_undisturbed]
  cases hresult : (answer broker.backend.serve (broker.execute (.deleteCollection collectionId)) vault).1 with
  | ok body =>
      rw [hresult] at hanswer
      rw [hanswer.1]
  | error error =>
      rw [hresult] at hanswer
      rcases hanswer with ⟨⟨_, hfault⟩, -⟩ | ⟨hmissing, -⟩
      · exact hfault.elim
      · cases hmissing.symm.trans (collectionAt_eq_ok.mpr hcollection)

/-- Whatever a vault holds, a deletion of a collection that is answered with success has changed no
credential but by removing it, and it has removed exactly the record of the collection, the valid aliases
that name it, and of every valid item in it the metadata and all stored secrets. -/
theorem deleteCollection_removes_exactly (broker : Broker) (collectionId : Uuid) (fates : Fates BackendError)
    (vault : Vault) (body : ResponseBody)
    (hanswer : (broker.respond ⟨.deleteCollection collectionId, fates⟩ vault).outcome = .returned (.ok body)) :
    let rest := (broker.respond ⟨.deleteCollection collectionId, fates⟩ vault).state
    (∀ name : String, rest[name]? = vault[name]? ∨ rest[name]? = none) ∧
    ∀ (name : String) blob, vault[name]? = some blob →
      (rest[name]? = none ↔ ∃ target, target.toString = name ∧ broker.GoesWith vault collectionId target) := by
  intro rest
  obtain ⟨-, -, hwithout⟩ :=
    execute_of_wp (wp_execute_deleteCollection collectionId vault) (within_any fates) hanswer
  refine ⟨fun name => (hwithout.lacks name).imp_right And.left, fun name blob hblob => ⟨fun hnone => ?_, ?_⟩⟩
  · by_contra hkept
    have hsame := hwithout.kept name fun target hgone heq => hkept ⟨target, heq, hgone⟩
    cases hnone.symm.trans (hsame.trans hblob)
  · rintro ⟨target, rfl, hgone⟩
    exact hwithout.removed target hgone

/-- A collection, an item of it and the secret of the item, as the broker writes them. -/
def cascadeVault : Vault :=
  (((∅ : Vault).put (.collection ⟨7⟩) (CollectionMetadata.encode ⟨1, ⟨7⟩, "a", 5, 5⟩)).put (.itemSecret ⟨9⟩ ⟨8⟩)
    [115, 51]).put (.itemMetadata ⟨9⟩) (ItemMetadata.encode ⟨1, ⟨9⟩, ⟨7⟩, "b", ∅, "c", 5, 5, ⟨8⟩⟩)

theorem stored_collection_cascadeVault :
    (cborBroker inMemoryBackend).collectionKind.stored cascadeVault ⟨7⟩ = some ⟨1, ⟨7⟩, "a", 5, 5⟩ := by
  rw [cascadeVault, RecordKind.stored_put_of_ne, RecordKind.stored_put_of_ne]
  · exact RecordKind.stored_put_self (by decide +kernel)
  · nofun
  · nofun

theorem stored_item_cascadeVault :
    (cborBroker inMemoryBackend).itemKind.stored cascadeVault ⟨9⟩ =
      some ⟨1, ⟨9⟩, ⟨7⟩, "b", ∅, "c", 5, 5, ⟨8⟩⟩ :=
  RecordKind.stored_put_self (by decide +kernel)

/-- An alias, the item, its secret and the collection go, and an unreadable record stays. -/
theorem deleteCollection_removes_exactly_beside_unreadable :
    let broker := cborBroker inMemoryBackend
    let vault := (cascadeVault.put (.alias "d") (AliasMetadata.encode ⟨1, "d", ⟨7⟩⟩)).put (.itemMetadata ⟨6⟩) [0]
    let ending := broker.respond ⟨.deleteCollection ⟨7⟩, undisturbed⟩ vault
    let cascade : List TargetName := [.alias "d", .itemMetadata ⟨9⟩, .itemSecret ⟨9⟩ ⟨8⟩, .collection ⟨7⟩]
    ending.outcome = .returned (.ok .empty) ∧
      (∀ target ∈ cascade, vault.lookup target ≠ none ∧ ending.state.lookup target = none) ∧
      ending.state.lookup (.itemMetadata ⟨6⟩) = some [0] := by
  intro broker vault ending cascade
  have hcollection : broker.collectionKind.stored vault ⟨7⟩ = some ⟨1, ⟨7⟩, "a", 5, 5⟩ := by
    rw [RecordKind.stored_put_of_ne, RecordKind.stored_put_of_ne]
    · exact stored_collection_cascadeVault
    · nofun
    · nofun
  have hitem : broker.itemKind.stored vault ⟨9⟩ = some ⟨1, ⟨9⟩, ⟨7⟩, "b", ∅, "c", 5, 5, ⟨8⟩⟩ := by
    rw [RecordKind.stored_put_of_ne, RecordKind.stored_put_of_ne]
    · exact stored_item_cascadeVault
    · nofun
    · exact fun heq => absurd (TargetName.itemMetadata.inj heq) (by decide)
  have halias : broker.aliasKind.stored vault "d" = some ⟨1, "d", ⟨7⟩⟩ := by
    rw [RecordKind.stored_put_of_ne]
    · exact RecordKind.stored_put_self (by decide +kernel)
    · nofun
  have hpresent : ∀ target ∈ cascade, ∃ blob, vault.lookup target = some blob := by
    simp [cascade, vault, cascadeVault, Vault.lookup_put]
  have hlookup : vault.lookup (.itemMetadata ⟨6⟩) = some [0] := Vault.lookup_put_self ..
  clear_value vault
  have hunreadable : broker.itemKind.stored vault ⟨6⟩ = none := by
    rw [RecordKind.stored, show vault.lookup (broker.itemKind.target ⟨6⟩) = some [0] from hlookup]
    decide +kernel
  have hgoes : ∀ target ∈ cascade, broker.GoesWith vault ⟨7⟩ target := by
    simp only [cascade, List.forall_mem_cons]
    exact ⟨⟨_, halias, rfl⟩, ⟨_, hitem, rfl⟩, ⟨_, hitem, rfl⟩, rfl, List.forall_mem_nil _⟩
  have hanswer : ending.outcome = .returned (.ok .empty) := respond_deleteCollection (by rw [hcollection]; rfl)
  obtain ⟨hkept, hexactly⟩ := deleteCollection_removes_exactly broker ⟨7⟩ undisturbed vault .empty hanswer
  refine ⟨hanswer, fun target htarget => ?_, ?_⟩
  · obtain ⟨blob, hblob⟩ := hpresent target htarget
    exact ⟨hblob ▸ Option.some_ne_none blob, (hexactly _ blob hblob).mpr ⟨target, rfl, hgoes target htarget⟩⟩
  · refine ((hkept _).resolve_right fun hnone => ?_).trans hlookup
    obtain ⟨target, heq, hgone⟩ := (hexactly _ _ hlookup).mp hnone
    cases TargetName.toString_injective heq
    obtain ⟨item, hstored, -⟩ := hgone
    cases hunreadable.symm.trans hstored

theorem stored_of_lacks {α κ : Type} [DecidableEq κ] {kind : RecordKind α κ} {key : κ} {record : α}
    (h : vault.Lacks gone rest) (hstored : kind.stored rest key = some record) :
    kind.stored vault key = some record := by
  obtain ⟨blob, hblob, hload⟩ := RecordKind.stored_eq_some.mp hstored
  rcases h.lookup (kind.target key) with hsame | hnone
  · exact RecordKind.stored_eq_some.mpr ⟨blob, hsame ▸ hblob, hload⟩
  · cases hnone.symm.trans hblob

theorem goesWith_of_lacks (h : vault.Lacks gone rest) (hgoes : broker.GoesWith rest collectionId target) :
    broker.GoesWith vault collectionId target := by
  cases target with
  | collection id => exact hgoes
  | «alias» | itemMetadata | itemSecret =>
      obtain ⟨record, hrecord, hcollection⟩ := hgoes
      exact ⟨record, stored_of_lacks h hrecord, hcollection⟩

/-- However often the deletion is interrupted, nothing is gone but what goes with the collection. -/
theorem lacks_after_deletions (collectionId : Uuid) (interrupted : List (Fates BackendError)) (vault : Vault) :
    vault.Lacks (broker.GoesWith vault collectionId)
      (broker.after (interrupted.map fun fates => ⟨.deleteCollection collectionId, fates⟩) vault) := by
  induction interrupted generalizing vault with
  | nil => exact .refl _ vault
  | cons fates interrupted ih =>
      have hfirst : vault.Lacks (broker.GoesWith vault collectionId)
          (broker.respond ⟨.deleteCollection collectionId, fates⟩ vault).state :=
        execute_state_of_wp (wp_execute_deleteCollection collectionId vault) (within_any fates)
      exact hfirst.trans ((ih _).mono fun _ => goesWith_of_lacks hfirst)

/-- Of a collection that a sound vault does not hold there is nothing to delete. -/
theorem Sound.without_self (hsound : broker.Sound vault)
    (hnone : broker.collectionKind.stored vault collectionId = none) :
    vault.Without (broker.GoesWith vault collectionId) vault := by
  refine ⟨fun target hgoes => ?_, fun _ _ => rfl⟩
  rw [Option.eq_none_iff_forall_ne_some]
  intro blob hblob
  cases target with
  | collection id =>
      obtain rfl : id = collectionId := hgoes
      obtain ⟨collection, hload⟩ := hsound.collections id blob hblob
      cases hnone.symm.trans (RecordKind.stored_eq_some.mpr ⟨blob, hblob, hload⟩)
  | «alias» name =>
      obtain ⟨record, hrecord, rfl⟩ := hgoes
      obtain ⟨stored, hstored, hload⟩ := RecordKind.stored_eq_some.mp hrecord
      obtain ⟨found, hfound, collection, hcollection⟩ := hsound.aliases name stored hstored
      cases hload.symm.trans hfound
      cases hnone.symm.trans hcollection
  | itemMetadata id | itemSecret id generation =>
      obtain ⟨item, hitem, rfl⟩ := hgoes
      obtain ⟨stored, hstored, hload⟩ := RecordKind.stored_eq_some.mp hitem
      obtain ⟨found, hfound, -, collection, hcollection⟩ := hsound.items id stored hstored
      cases hload.symm.trans hfound
      cases hnone.symm.trans hcollection

/-- An undisturbed deletion removes what goes with the collection, if the collection is there or not. -/
theorem Sound.without_deleteCollection (hsound : broker.Sound vault) (collectionId : Uuid) :
    vault.Without (broker.GoesWith vault collectionId)
      (broker.respond ⟨.deleteCollection collectionId, undisturbed⟩ vault).state := by
  have hanswer : either _ _
      (answer broker.backend.serve (broker.execute (.deleteCollection collectionId)) vault).1 _ :=
    answer_of_wp (wp_execute_deleteCollection collectionId vault)
  rw [Broker.respond, execute_undisturbed]
  cases hresult : (answer broker.backend.serve (broker.execute (.deleteCollection collectionId)) vault).1 with
  | ok body =>
      rw [hresult] at hanswer
      exact hanswer.2.2
  | error error =>
      rw [hresult] at hanswer
      rcases hanswer with ⟨⟨_, hfault⟩, -⟩ | ⟨hmissing, hstate⟩
      · exact hfault.elim
      · dsimp only
        rw [hstate]
        refine hsound.without_self (Option.eq_none_iff_forall_ne_some.mpr fun collection hcollection => ?_)
        cases hmissing.symm.trans (collectionAt_eq_ok.mpr hcollection)

theorem lookup_recovered_of_uncommitted {id generation : Uuid} (h : broker.Uncommitted vault id generation) :
    (broker.recovered vault).lookup (.itemSecret id generation) = none := by
  by_cases hmem : (id, generation) ∈ broker.abandoned vault
  · exact Vault.sweep_eq_none_of_mem hmem
  · refine Vault.sweep_eq_none_of_none (Option.eq_none_iff_forall_ne_some.mpr fun blob hblob => hmem ?_)
    exact mem_abandoned.mpr ⟨⟨blob, hblob⟩, h⟩

theorem recovered_of_forall_ne {name : String}
    (h : ∀ id generation, broker.Uncommitted vault id generation →
      (TargetName.itemSecret id generation).toString ≠ name) : (broker.recovered vault)[name]? = vault[name]? :=
  Vault.sweep_eq_of_forall_ne fun _ hentry => h _ _ (mem_abandoned.mp hentry).2

/-- Vaults that differ in secrets no item commits recover to the same vault. -/
theorem recovered_congr (hsame : ∀ name, (∀ id generation, broker.Uncommitted vault id generation →
      (TargetName.itemSecret id generation).toString ≠ name) → rest[name]? = vault[name]?) :
    broker.recovered rest = broker.recovered vault := by
  have hstored : ∀ id, broker.itemKind.stored rest id = broker.itemKind.stored vault id := by
    refine fun id => RecordKind.stored_congr (hsame _ fun itemId generation _ heq => ?_)
    cases TargetName.toString_injective heq
  have huncommitted : ∀ id generation, broker.Uncommitted rest id generation ↔
      broker.Uncommitted vault id generation := by
    intro id generation
    rw [Uncommitted, Uncommitted, hstored]
  apply Std.ExtTreeMap.ext_getElem?
  intro name
  by_cases hname : ∃ id generation, broker.Uncommitted vault id generation ∧
      (TargetName.itemSecret id generation).toString = name
  · obtain ⟨id, generation, hfree, rfl⟩ := hname
    exact (lookup_recovered_of_uncommitted ((huncommitted id generation).mpr hfree)).trans
      (lookup_recovered_of_uncommitted hfree).symm
  · have hne : ∀ id generation, broker.Uncommitted vault id generation →
        (TargetName.itemSecret id generation).toString ≠ name :=
      fun id generation hfree heq => hname ⟨id, generation, hfree, heq⟩
    rw [recovered_of_forall_ne hne, ← hsame name hne]
    exact recovered_of_forall_ne fun id generation hfree => hne id generation ((huncommitted id generation).mp hfree)

/-- What an interrupted deletion has left is what a deletion from the start would have left, up to secrets
without an item. -/
theorem recovered_of_lacks {left deleted completed : Vault}
    (hlacks : vault.Lacks (broker.GoesWith vault collectionId) left)
    (hdeleted : vault.Without (broker.GoesWith vault collectionId) deleted)
    (hcompleted : left.Without (broker.GoesWith left collectionId) completed) :
    broker.recovered completed = broker.recovered deleted := by
  refine recovered_congr fun name hcommitted => ?_
  by_cases hname : ∃ target, broker.GoesWith vault collectionId target ∧ target.toString = name
  · obtain ⟨target, hgoes, rfl⟩ := hname
    refine Eq.trans ?_ (hdeleted.removed target hgoes).symm
    by_cases hleft : broker.GoesWith left collectionId target
    · exact hcompleted.removed target hleft
    · refine (hcompleted.lookup_of_not hleft).trans ((hlacks.lookup target).resolve_left fun hsame => ?_)
      -- only a secret can outlast what makes it go, and then no item commits it
      cases target with
      | collection id => exact hleft hgoes
      | «alias» name =>
          obtain ⟨record, hrecord, hcollection⟩ := hgoes
          exact hleft ⟨record, (RecordKind.stored_congr hsame).trans hrecord, hcollection⟩
      | itemMetadata id =>
          obtain ⟨item, hitem, hcollection⟩ := hgoes
          exact hleft ⟨item, (RecordKind.stored_congr hsame).trans hitem, hcollection⟩
      | itemSecret id generation =>
          refine hcommitted id generation (uncommitted_of_lookup_none ?_) rfl
          exact hdeleted.removed (.itemMetadata id) hgoes
  · have hkept : ∀ target, broker.GoesWith vault collectionId target → target.toString ≠ name :=
      fun target hgoes heq => hname ⟨target, hgoes, heq⟩
    rw [hdeleted.kept name hkept,
      hcompleted.kept name fun target hgoes => hkept target (goesWith_of_lacks hlacks hgoes)]
    exact (hlacks name).resolve_right fun ⟨_, hgone⟩ => hname hgone

/-- A deletion of a collection that fails or is killed anywhere leaves the collection as long as it leaves
one of its items or aliases. After any number of interrupted attempts, an undisturbed one and a recovery end
in exactly the vault in which an undisturbed one and a recovery would have ended at once. -/
theorem deleteCollection_can_be_completed (broker : Broker) (steps : List BrokerStep) (collectionId : Uuid)
    (interrupted : List (Fates BackendError)) :
    let vault := broker.after steps ∅
    let attempts := interrupted.map fun fates => BrokerStep.mk (.deleteCollection collectionId) fates
    let completion := [BrokerStep.mk (.deleteCollection collectionId) undisturbed, ⟨.reconcile, undisturbed⟩]
    (∀ passed ∈ broker.history attempts vault,
      (∃ id item, broker.itemKind.stored passed id = some item ∧ item.collectionId = collectionId) ∨
        (∃ name record, broker.aliasKind.stored passed name = some record ∧ record.collectionId = collectionId) →
      ∃ collection, broker.collectionKind.stored passed collectionId = some collection) ∧
    broker.after completion (broker.after attempts vault) = broker.after completion vault := by
  intro vault attempts completion
  have hsound : broker.Sound vault := sound_empty.after steps
  constructor
  · intro passed hpassed hreferred
    have hpassedSound := hsound.history attempts passed hpassed
    rcases hreferred with ⟨id, item, hitem, rfl⟩ | ⟨name, record, hrecord, rfl⟩
    · obtain ⟨blob, hblob, hload⟩ := RecordKind.stored_eq_some.mp hitem
      obtain ⟨found, hfound, -, hcollection⟩ := hpassedSound.items id blob hblob
      cases hload.symm.trans hfound
      exact hcollection
    · obtain ⟨blob, hblob, hload⟩ := RecordKind.stored_eq_some.mp hrecord
      obtain ⟨found, hfound, hcollection⟩ := hpassedSound.aliases name blob hblob
      cases hload.symm.trans hfound
      exact hcollection
  · have hafter : ∀ start, broker.after completion start = broker.recovered
        (broker.respond ⟨.deleteCollection collectionId, undisturbed⟩ start).state := by
      intro start
      simp only [completion, after, respond_reconcile]
    rw [hafter, hafter]
    exact recovered_of_lacks (lacks_after_deletions collectionId interrupted vault)
      (hsound.without_deleteCollection collectionId)
      ((hsound.after attempts).without_deleteCollection collectionId)

theorem cascadeVault_eq_after :
    (cborBroker inMemoryBackend).after [⟨.createCollection ⟨1, ⟨7⟩, "a", 5, 5⟩, undisturbed⟩,
      ⟨.createItem ⟨1, ⟨9⟩, ⟨7⟩, "b", ∅, "c", 5, 5, ⟨8⟩⟩ ⟨[115, 51], by decide⟩, undisturbed⟩] ∅ = cascadeVault := by
  have hcollection : ((cborBroker inMemoryBackend).respond ⟨.createCollection ⟨1, ⟨7⟩, "a", 5, 5⟩, undisturbed⟩
      ∅).state = (∅ : Vault).put (.collection ⟨7⟩) (CollectionMetadata.encode ⟨1, ⟨7⟩, "a", 5, 5⟩) := by
    decide +kernel
  rw [after, hcollection]
  decide +kernel

/-- The first attempt is killed between the deletion of an item's metadata and that of its secret. -/
theorem deleteCollection_can_be_completed_after_kill :
    let broker := cborBroker inMemoryBackend
    let steps : List BrokerStep := [⟨.createCollection ⟨1, ⟨7⟩, "a", 5, 5⟩, undisturbed⟩,
      ⟨.createItem ⟨1, ⟨9⟩, ⟨7⟩, "b", ∅, "c", 5, 5, ⟨8⟩⟩ ⟨[115, 51], by decide⟩, undisturbed⟩]
    let vault := broker.after steps ∅
    let attempts := [fun call => if call = 4 then .kill else .serve].map
      fun fates => BrokerStep.mk (.deleteCollection ⟨7⟩) fates
    let completion := [BrokerStep.mk (.deleteCollection ⟨7⟩) undisturbed, ⟨.reconcile, undisturbed⟩]
    vault.lookup (.itemMetadata ⟨9⟩) ≠ none ∧
      broker.after attempts vault = vault.drop (.itemMetadata ⟨9⟩) ∧
      (∃ collection, broker.collectionKind.stored (broker.after attempts vault) ⟨7⟩ = some collection) ∧
      broker.after completion (broker.after attempts vault) = broker.after completion vault := by
  intro broker steps vault attempts completion
  have hvault : vault = cascadeVault := cascadeVault_eq_after
  have hkilled : broker.after attempts cascadeVault = cascadeVault.drop (.itemMetadata ⟨9⟩) := by decide +kernel
  obtain ⟨-, hcompleted⟩ := deleteCollection_can_be_completed broker steps ⟨7⟩
    [fun call => if call = 4 then .kill else .serve]
  refine ⟨?_, by rw [hvault, hkilled], ⟨⟨1, ⟨7⟩, "a", 5, 5⟩, ?_⟩, hcompleted⟩
  · rw [hvault, cascadeVault, Vault.lookup_put_self]
    exact Option.some_ne_none _
  · rw [hvault, hkilled, RecordKind.stored_drop_of_ne]
    · exact stored_collection_cascadeVault
    · nofun

end Broker

end WincredLibsecret
