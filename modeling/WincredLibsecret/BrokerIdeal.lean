import WincredLibsecret.BrokerCascade

/-! The broker while nothing fails. A vault then never holds a secret that no item commits, and what its
readers see is all there is to know about it: every request answers, and changes what readers see, as an
ideal broker that keeps nothing but the visible vault. -/

namespace WincredLibsecret

open Effect Effect.Action KeyedRecords

/-- The requests of a run without failures. -/
def calmSteps (operations : List Operation) : List BrokerStep :=
  operations.map fun operation => ⟨operation, undisturbed⟩

/-! ### The ideal broker -/

namespace VisibleVault

variable (visible : VisibleVault)

def findCollection (id : Uuid) : Except BrokerError CollectionMetadata :=
  match visible.collections[id]? with
  | some collection => .ok collection
  | none => .error (notFound "collection does not exist")

def findItem (id : Uuid) : Except BrokerError (ItemMetadata × SecretBytes) :=
  match visible.items[id]? with
  | some entry => .ok entry
  | none => .error (notFound "item does not exist")

/-- The collection a record to be written refers to. -/
def findReferenced (id : Uuid) : Except BrokerError CollectionMetadata :=
  (visible.findCollection id).mapError Broker.referenceError

/-- The items of the collection of an item with exactly its attributes. -/
def twins (item : ItemMetadata) : List Uuid :=
  ((listed Prod.fst visible.items).filter fun existing =>
    existing.collectionId = item.collectionId ∧ existing.attributes = item.attributes).map ItemMetadata.id

def withoutItems (ids : List Uuid) : VisibleVault :=
  { visible with items := ids.foldl (fun items id => items.erase id) visible.items }

/-- With a collection go its items and its aliases. -/
def withoutCollection (id : Uuid) : VisibleVault where
  collections := visible.collections.erase id
  items := visible.items.filter fun _ entry => entry.1.collectionId ≠ id
  aliases := visible.aliases.filter fun _ record => record.collectionId ≠ id

end VisibleVault

namespace Broker

section Ideal

variable (broker : Broker) (visible : VisibleVault)

def idealCreate (item : ItemMetadata) (secret : SecretBytes) : Except BrokerError VisibleVault := do
  validateItem item
  let _ ← visible.findReferenced item.collectionId
  if visible.items[item.id]?.isSome then throw (alreadyExists "item already exists")
  else do
    let _ ← encodeMetadata broker.itemCodec item
    pure (visible.withItem item secret)

def idealUpdate (item : ItemMetadata) (secret : Option SecretBytes) :
    Except BrokerError (ResponseBody × VisibleVault) := do
  let (existing, current) ← visible.findItem item.id
  validateItem item
  let _ ← visible.findReferenced item.collectionId
  if secret.isSome ∧ item.currentGeneration = existing.currentGeneration then
    throw ⟨.conflict, "item update with a secret requires a new generation"⟩
  else do
    let _ ← encodeMetadata broker.itemCodec (item.revise secret existing)
    pure (.item (item.revise secret existing) none,
      visible.withItem (item.revise secret existing) (secret.getD current))

/-- What is answered to a request, and what readers see afterwards. A refused request changes nothing. -/
def ideal : Operation → Except BrokerError (ResponseBody × VisibleVault)
  | .ping => pure (.pong, visible)
  | .listCollections => (visible.answer .listCollections).map (·, visible)
  | .getCollection collectionId => (visible.answer (.getCollection collectionId)).map (·, visible)
  | .createCollection collection => do
      validateCollection collection
      if visible.collections[collection.id]?.isSome then throw (alreadyExists "collection already exists")
      else do
        let _ ← encodeMetadata broker.collectionCodec collection
        pure (.collection collection, visible.withCollection collection)
  | .updateCollection collection => do
      let existing ← visible.findCollection collection.id
      validateCollection collection
      let _ ← encodeMetadata broker.collectionCodec { collection with created := existing.created }
      pure (.collection { collection with created := existing.created },
        visible.withCollection { collection with created := existing.created })
  | .deleteCollection collectionId => do
      let _ ← visible.findCollection collectionId
      pure (.empty, visible.withoutCollection collectionId)
  | .listAliases => (visible.answer .listAliases).map (·, visible)
  | .resolveAlias name => (visible.answer (.resolveAlias name)).map (·, visible)
  | .setAlias record => do
      validateAlias record
      let _ ← visible.findReferenced record.collectionId
      let _ ← encodeMetadata broker.aliasCodec record
      pure (.alias (some record), visible.withAlias record)
  | .removeAlias name => do
      checkAliasName name
      if visible.aliases[name]?.isNone then throw (notFound "alias does not exist")
      else pure (.empty, { visible with aliases := visible.aliases.erase name })
  | .searchItems attributes => (visible.answer (.searchItems attributes)).map (·, visible)
  | .listItems collectionId => (visible.answer (.listItems collectionId)).map (·, visible)
  | .getItem itemId includeSecret => (visible.answer (.getItem itemId includeSecret)).map (·, visible)
  | .createItem item secret => do
      let created ← broker.idealCreate visible item secret
      pure (.item item none, created)
  | .createOrReplaceItem item secret replace => do
      let created ← broker.idealCreate visible item secret
      let replaced := if replace then visible.twins item else []
      pure (.replacedItem item replaced [], created.withoutItems replaced)
  | .updateItem item secret => broker.idealUpdate visible item secret
  | .updateItemCas item secret expectedModified => do
      let (existing, _) ← visible.findItem item.id
      if existing.modified ≠ expectedModified then throw ⟨.conflict, "item was modified by another provider"⟩
      else broker.idealUpdate visible item secret
  | .deleteItem itemId => do
      let _ ← visible.findItem itemId
      pure (.empty, { visible with items := visible.items.erase itemId })
  | .reconcile => pure (.reconciled 0 [], visible)

end Ideal

end Broker

namespace Broker

variable {broker : Broker} {vault rest : Vault}

theorem deletes_cleanUp (target : TargetName) :
    broker.Deletes (fun _ => False) (· = target) (cleanUp (.deleteSecret target)) := by
  intro vault
  have hdrop := Vault.Without.drop vault target
  simp only [cleanUp, wp_bind, wp_attempt, wp_deleteCredential, wp_pure]
  exact ⟨.refl _ vault, fun _ h => h.elim, hdrop.lacks, hdrop.lacks, hdrop⟩

/-- The replaced items are all deleted and all reported. -/
theorem wp_deleteReplacedItems_without (entries : List Entry) (ids : List Uuid) (vault : Vault) :
    wp broker.backend.serve (fun _ => False) (deleteReplacedItems entries ids)
      (fun outcome rest => outcome = (ids, []) ∧
        vault.Without (fun target => ∃ id ∈ ids, target ∈ itemTargets entries id) rest)
      (fun _ _ => False) (fun _ => True) vault := by
  induction ids generalizing vault with
  | nil => exact ⟨trivial, rfl, (Vault.Without.refl vault).congr fun _ => by simp⟩
  | cons id ids ih =>
      simp only [deleteReplacedItems, wp_bind, wp_attempt]
      refine wp_mono (fun _ middle hmiddle => ?_) (fun _ _ h => h.1.elim fun _ h => h.elim) (fun _ _ => trivial)
        (deletes_item deletes_cleanUp entries id vault)
      refine wp_mono (fun outcome rest hrest => ?_) (fun _ _ h => h) (fun _ h => h) (ih middle)
      obtain ⟨rfl, hrest⟩ := hrest
      exact ⟨trivial, rfl, (hmiddle.trans hrest).congr fun _ => by simp⟩

/-- Together with every item whose metadata is gone its secrets are gone, and with no other item. -/
def WholeItems (gone : TargetName → Prop) : Prop :=
  ∀ id generation, gone (.itemSecret id generation) ↔ gone (.itemMetadata id)

theorem visible_items_without {gone : TargetName → Prop} (hwithout : vault.Without gone rest)
    (hsecrets : ∀ id generation, gone (.itemSecret id generation) → gone (.itemMetadata id)) (id : Uuid)
    [Decidable (gone (.itemMetadata id))] :
    (broker.visible rest).items[id]? =
      if gone (.itemMetadata id) then none else (broker.visible vault).items[id]? := by
  ext ⟨item, secret⟩
  split_ifs with hgone
  · rw [visible_items, stored_of_lookup_none (hwithout.removed (.itemMetadata id) hgone)]
    simp
  · have hstored : broker.itemKind.stored rest id = broker.itemKind.stored vault id :=
      RecordKind.stored_congr (hwithout.lookup_of_not hgone)
    rw [visible_items, visible_items, hstored,
      hwithout.lookup_of_not fun h => hgone (hsecrets id _ h)]

theorem wholeItems_belongsTo (ids : List Uuid) : WholeItems fun target => ∃ id ∈ ids, target.BelongsTo id :=
  fun _ _ => Iff.rfl

/-- Items without their metadata are not seen, whatever happens to their secrets. -/
theorem visible_withoutItems {ids : List Uuid} {gone : TargetName → Prop} (hwithout : vault.Without gone rest)
    (hmetadata : ∀ id, gone (.itemMetadata id) ↔ id ∈ ids)
    (hbelongs : ∀ target, gone target → ∃ id ∈ ids, target.BelongsTo id) :
    broker.visible rest = (broker.visible vault).withoutItems ids := by
  have hcollections : ∀ id, rest.lookup (.collection id) = vault.lookup (.collection id) :=
    fun id => hwithout.lookup_of_not fun hgone => (hbelongs _ hgone).elim fun _ h => h.2
  have haliases : ∀ name, rest.lookup (.alias name) = vault.lookup (.alias name) :=
    fun name => hwithout.lookup_of_not fun hgone => (hbelongs _ hgone).elim fun _ h => h.2
  have hsecrets : ∀ id generation, gone (.itemSecret id generation) → gone (.itemMetadata id) := by
    intro id generation hgone
    obtain ⟨other, hother, rfl⟩ := hbelongs _ hgone
    exact (hmetadata id).mpr hother
  refine VisibleVault.ext (visible_collections_congr hcollections) (visible_aliases_congr haliases hcollections) ?_
  apply Std.ExtTreeMap.ext_getElem?
  intro id
  classical
  rw [visible_items_without hwithout hsecrets, VisibleVault.withoutItems, getElem?_foldl_erase]
  simp only [hmetadata]

theorem visible_withoutWholeItems {ids : List Uuid}
    (hwithout : vault.Without (fun target => ∃ id ∈ ids, target.BelongsTo id) rest) :
    broker.visible rest = (broker.visible vault).withoutItems ids :=
  visible_withoutItems hwithout (fun _ => by simp [TargetName.BelongsTo]) fun _ hgone => hgone

theorem wholeItems_goesWith (collectionId : Uuid) : WholeItems (broker.GoesWith vault collectionId) :=
  fun _ _ => Iff.rfl

theorem visible_withoutCollection {collectionId : Uuid}
    (hwithout : vault.Without (broker.GoesWith vault collectionId) rest) :
    broker.visible rest = (broker.visible vault).withoutCollection collectionId := by
  classical
  have hcollection : ∀ id, broker.collectionKind.stored rest id =
      if id = collectionId then none else broker.collectionKind.stored vault id := by
    intro id
    split_ifs with hid
    · exact stored_of_lookup_none (hwithout.removed (.collection id) hid)
    · exact RecordKind.stored_congr (hwithout.lookup_of_not hid)
  refine VisibleVault.ext ?_ ?_ ?_
  · apply Std.ExtTreeMap.ext_getElem?
    intro id
    rw [visible_collections, hcollection, VisibleVault.withoutCollection, Std.ExtTreeMap.getElem?_erase,
      visible_collections]
    exact if_congr (eq_comm.trans Std.compare_eq_iff_eq.symm) rfl rfl
  · apply Std.ExtTreeMap.ext_getElem?
    intro name
    ext record
    rw [visible_aliases, hcollection, VisibleVault.withoutCollection, Std.ExtTreeMap.getElem?_filter',
      Option.filter_eq_some_iff, visible_aliases, decide_eq_true_iff]
    constructor
    · rintro ⟨hstored, hfound⟩
      have hkept : ¬ broker.GoesWith vault collectionId (.alias name) := by
        intro hgone
        rw [stored_of_lookup_none (hwithout.removed (.alias name) hgone)] at hstored
        cases hstored
      have hne : record.collectionId ≠ collectionId := by
        intro heq
        rw [if_pos heq] at hfound
        cases hfound
      rw [if_neg hne] at hfound
      exact ⟨⟨(RecordKind.stored_congr (hwithout.lookup_of_not hkept)).symm.trans hstored, hfound⟩, hne⟩
    · rintro ⟨⟨hstored, hfound⟩, hne⟩
      have hkept : ¬ broker.GoesWith vault collectionId (.alias name) := by
        rintro ⟨other, hother, rfl⟩
        exact hne (congrArg AliasMetadata.collectionId (Option.some.inj (hstored.symm.trans hother)))
      rw [if_neg hne]
      exact ⟨(RecordKind.stored_congr (hwithout.lookup_of_not hkept)).trans hstored, hfound⟩
  · apply Std.ExtTreeMap.ext_getElem?
    intro id
    rw [visible_items_without hwithout fun id generation => (wholeItems_goesWith collectionId id generation).mp,
      VisibleVault.withoutCollection,
      Std.ExtTreeMap.getElem?_filter']
    cases hitem : (broker.visible vault).items[id]? with
    | none => simp
    | some entry =>
        have hstored := (visible_items.mp hitem).1
        have hgone : broker.GoesWith vault collectionId (.itemMetadata id) ↔ entry.1.collectionId = collectionId := by
          simp [GoesWith, hstored]
        rw [Option.filter_some]
        by_cases heq : entry.1.collectionId = collectionId
        · rw [if_pos (hgone.mpr heq), if_neg (by simpa using heq)]
        · rw [if_neg (mt hgone.mp heq), if_pos (by simpa using heq)]

/-! ### No secret is left behind -/

variable (broker vault) in
/-- Every stored secret is the one its item commits. -/
def Tidy : Prop :=
  ∀ id generation blob, vault.lookup (.itemSecret id generation) = some blob →
    ∃ item, broker.itemKind.stored vault id = some item ∧ item.currentGeneration = generation

theorem tidy_empty : broker.Tidy ∅ := fun _ _ _ h => by simp at h

theorem Tidy.congr (htidy : broker.Tidy vault)
    (hitems : ∀ id, rest.lookup (.itemMetadata id) = vault.lookup (.itemMetadata id))
    (hsecrets : ∀ id generation,
      rest.lookup (.itemSecret id generation) = vault.lookup (.itemSecret id generation)) : broker.Tidy rest := by
  intro id generation blob hblob
  obtain ⟨item, hitem, hgeneration⟩ := htidy id generation blob (hsecrets id generation ▸ hblob)
  exact ⟨item, (RecordKind.stored_congr (hitems id)).trans hitem, hgeneration⟩

theorem Tidy.put_collection (htidy : broker.Tidy vault) (id : Uuid) (blob : Blob) :
    broker.Tidy (vault.put (.collection id) blob) :=
  htidy.congr (fun _ => Vault.lookup_put_of_ne nofun) fun _ _ => Vault.lookup_put_of_ne nofun

theorem Tidy.put_alias (htidy : broker.Tidy vault) (name : String) (blob : Blob) :
    broker.Tidy (vault.put (.alias name) blob) :=
  htidy.congr (fun _ => Vault.lookup_put_of_ne nofun) fun _ _ => Vault.lookup_put_of_ne nofun

theorem Tidy.drop_alias (htidy : broker.Tidy vault) (name : String) : broker.Tidy (vault.drop (.alias name)) :=
  htidy.congr (fun _ => Vault.lookup_drop_of_ne nofun) fun _ _ => Vault.lookup_drop_of_ne nofun

theorem Tidy.without {gone : TargetName → Prop} (htidy : broker.Tidy vault) (hwithout : vault.Without gone rest)
    (hwhole : WholeItems gone) : broker.Tidy rest := by
  intro id generation blob hblob
  have hkept : ¬ gone (.itemSecret id generation) := by
    intro hgone
    rw [hwithout.removed _ hgone] at hblob
    cases hblob
  obtain ⟨item, hitem, hgeneration⟩ := htidy id generation blob (hwithout.lookup_of_not hkept ▸ hblob)
  refine ⟨item, Eq.trans (RecordKind.stored_congr (hwithout.lookup_of_not fun hgone => ?_)) hitem, hgeneration⟩
  exact hkept ((hwhole id generation).mpr hgone)

/-- A record of an item that commits the only secret stored for it. -/
theorem tidy_of_item {item : ItemMetadata} (hstored : broker.itemKind.stored rest item.id = some item)
    (hown : ∀ generation blob, rest.lookup (.itemSecret item.id generation) = some blob →
      generation = item.currentGeneration)
    (hitems : ∀ id, id ≠ item.id → rest.lookup (.itemMetadata id) = vault.lookup (.itemMetadata id))
    (hsecrets : ∀ id generation, id ≠ item.id →
      rest.lookup (.itemSecret id generation) = vault.lookup (.itemSecret id generation))
    (htidy : broker.Tidy vault) : broker.Tidy rest := by
  intro id generation blob hblob
  by_cases hid : id = item.id
  · subst hid
    exact ⟨item, hstored, (hown generation blob hblob).symm⟩
  · obtain ⟨found, hfound, hgeneration⟩ := htidy id generation blob (hsecrets id generation hid ▸ hblob)
    exact ⟨found, Eq.trans (RecordKind.stored_congr (hitems id hid)) hfound, hgeneration⟩

/-- The vault after a commit whose clean-up succeeds. -/
def cleaned (vault : Vault) (item : ItemMetadata) (previous : Option Uuid) (secret : SecretBytes)
    (blob : Blob) : Vault :=
  match previous with
  | some old =>
      if old ≠ item.currentGeneration then (committed vault item secret blob).drop (.itemSecret item.id old)
      else committed vault item secret blob
  | none => committed vault item secret blob

theorem wp_commitNewGeneration_cleaned {item : ItemMetadata} {previous : Option Uuid} {secret : SecretBytes}
    {ok : Unit → Vault → Prop} {err : BrokerError → Vault → Prop}
    (hencode : ∀ error, encodeMetadata broker.itemCodec item = .error error → err error vault)
    (hcommit : ∀ blob, encodeMetadata broker.itemCodec item = .ok blob →
      ok () (cleaned vault item previous secret blob)) :
    wp broker.backend.serve (fun _ => False) (broker.commitNewGeneration item previous secret) ok err
      (fun _ => True) vault := by
  simp only [commitNewGeneration, wp_bind, wp_ofExcept]
  refine ⟨trivial, either_intro (fun blob hblob => ?_) hencode⟩
  have hdone := hcommit blob hblob
  simp only [wp_writeCredential, wp_attempt]
  refine ⟨trivial, fun _ h => h.elim, trivial, trivial, fun _ h => h.elim, trivial, ?_⟩
  simp only [GenerationCommit.steps]
  cases previous with
  | none =>
      simp only [List.append_nil, List.forM_cons, List.forM_nil, cleanUp, wp_bind, wp_pure, true_and]
      exact hdone
  | some old =>
      rw [cleaned] at hdone
      dsimp only
      split_ifs with hne
      · rw [if_pos hne] at hdone
        simp only [List.cons_append, List.nil_append, List.forM_cons, List.forM_nil, cleanUp, wp_bind,
          wp_attempt, wp_deleteCredential, wp_pure, true_and]
        exact ⟨fun _ h => h.elim, hdone⟩
      · rw [if_neg hne] at hdone
        simp only [List.append_nil, List.forM_cons, List.forM_nil, cleanUp, wp_bind, wp_pure, true_and]
        exact hdone

section Cleaned

variable {item : ItemMetadata} {previous : Option Uuid} {secret : SecretBytes} {blob : Blob}

theorem lookup_cleaned_of_not_belongsTo {target : TargetName} (h : ¬ target.BelongsTo item.id) :
    (cleaned vault item previous secret blob).lookup target = vault.lookup target := by
  have hmetadata : TargetName.itemMetadata item.id ≠ target := fun heq => h (heq ▸ rfl)
  have hsecret : ∀ generation, TargetName.itemSecret item.id generation ≠ target := fun _ heq => h (heq ▸ rfl)
  have hcommitted : (committed vault item secret blob).lookup target = vault.lookup target := by
    rw [committed, Vault.lookup_put_of_ne hmetadata, Vault.lookup_put_of_ne (hsecret _)]
  unfold cleaned
  split
  · split_ifs
    · rw [Vault.lookup_drop_of_ne (hsecret _), hcommitted]
    · exact hcommitted
  · exact hcommitted

theorem stored_cleaned (hvalid : validateItem item = .ok ())
    (hblob : encodeMetadata broker.itemCodec item = .ok blob) :
    broker.itemKind.stored (cleaned vault item previous secret blob) item.id = some item := by
  have hcommitted : broker.itemKind.stored (committed vault item secret blob) item.id = some item :=
    RecordKind.stored_put_self (broker.itemKind.load_of_encode hvalid hblob)
  unfold cleaned
  split
  · split_ifs
    · rw [RecordKind.stored_drop_of_ne (by simp [itemKind]), hcommitted]
    · exact hcommitted
  · exact hcommitted

theorem visible_cleaned (hvalid : validateItem item = .ok ())
    (hblob : encodeMetadata broker.itemCodec item = .ok blob)
    (hfresh : broker.Uncommitted vault item.id item.currentGeneration) :
    broker.visible (cleaned vault item previous secret blob) = (broker.visible vault).withItem item secret := by
  have hload : broker.itemKind.load item.id blob = .ok item := broker.itemKind.load_of_encode hvalid hblob
  have hcommitted : broker.visible (committed vault item secret blob) =
      (broker.visible vault).withItem item secret := by
    rw [committed, visible_put_item hload (Vault.lookup_put_self vault _ secret.bytes), visible_put_secret hfresh]
    rfl
  have hstored : broker.itemKind.stored (committed vault item secret blob) item.id = some item :=
    RecordKind.stored_put_self hload
  unfold cleaned
  split
  · split_ifs with hne
    · rw [visible_drop_secret (uncommitted_of_stored hstored (Ne.symm hne)), hcommitted]
    · exact hcommitted
  · exact hcommitted

/-- A commit leaves no secret behind if the generation it deletes is the only one there was. -/
theorem Tidy.cleaned (htidy : broker.Tidy vault) (hvalid : validateItem item = .ok ())
    (hblob : encodeMetadata broker.itemCodec item = .ok blob)
    (hown : ∀ generation found, vault.lookup (.itemSecret item.id generation) = some found →
      previous = some generation) : broker.Tidy (cleaned vault item previous secret blob) := by
  refine tidy_of_item (stored_cleaned hvalid hblob) (fun generation found hfound => ?_)
    (fun id hid => lookup_cleaned_of_not_belongsTo hid) (fun id _ hid => lookup_cleaned_of_not_belongsTo hid) htidy
  by_contra hne
  have hcommitted : (committed vault item secret blob).lookup (.itemSecret item.id generation) =
      vault.lookup (.itemSecret item.id generation) := by
    rw [committed, Vault.lookup_put_of_ne (by simp), Vault.lookup_put_of_ne (by simpa using Ne.symm hne)]
  unfold Broker.cleaned at hfound
  split at hfound
  · rename_i old
    split_ifs at hfound with hold
    · by_cases hsame : old = generation
      · subst hsame
        rw [Vault.lookup_drop_self] at hfound
        cases hfound
      · rw [Vault.lookup_drop_of_ne (by simpa using hsame), hcommitted] at hfound
        exact hsame (Option.some.inj (hown generation found hfound))
    · rw [hcommitted] at hfound
      exact hne ((Option.some.inj (hown generation found hfound)).symm.trans (not_not.mp hold))
  · rw [hcommitted] at hfound
    cases hown generation found hfound

end Cleaned

/-! ### The broker does what the ideal broker does -/

variable (broker vault) in
/-- While nothing fails the computation answers and changes what readers see as given. -/
def Meets (spec : Except BrokerError (ResponseBody × VisibleVault)) (action : BrokerAction ResponseBody) : Prop :=
  wp broker.backend.serve (fun _ => False) action
    (fun body rest => spec = .ok (body, broker.visible rest) ∧ broker.Tidy rest)
    (fun error rest => spec = .error error ∧ rest = vault) (fun _ => True) vault

section Rules

variable {α : Type} {spec : Except BrokerError (ResponseBody × VisibleVault)} {action : BrokerAction ResponseBody}

theorem meets_throw (error : BrokerError) : broker.Meets vault (throw error) (throw error) := ⟨trivial, rfl, rfl⟩

/-- A step that only reads, and the answer the ideal broker finds in the visible vault. -/
theorem meets_bind {β : Type} {read : BrokerAction β} {found : Except BrokerError α} (view : α → β)
    {after : α → Except BrokerError (ResponseBody × VisibleVault)} {next : β → BrokerAction ResponseBody}
    (hread : ∀ {ok : β → Vault → Prop} {err : BrokerError → Vault → Prop},
      either (fun value => ok (view value)) err found vault →
        wp broker.backend.serve (fun _ => False) read ok err (fun _ => True) vault)
    (hnext : ∀ value, found = .ok value → broker.Meets vault (after value) (next (view value))) :
    broker.Meets vault (found >>= after) (read >>= next) := by
  rw [Meets, wp_bind]
  refine hread (either_intro (fun value hvalue => ?_) fun error herror => ?_)
  · have hmeets := hnext value hvalue
    rw [hvalue]
    exact hmeets
  · rw [herror]
    exact ⟨rfl, rfl⟩

theorem meets_check {check : Except BrokerError α} {after : α → Except BrokerError (ResponseBody × VisibleVault)}
    {next : α → BrokerAction ResponseBody}
    (hnext : ∀ value, check = .ok value → broker.Meets vault (after value) (next value)) :
    broker.Meets vault (check >>= after) (Action.ofExcept check >>= next) :=
  meets_bind (fun value => value) (fun h => wp_ofExcept check |>.mpr ⟨trivial, h⟩) hnext

variable (hsound : broker.Sound vault)

include hsound in
theorem meets_getCollection {id : Uuid} {after : CollectionMetadata → Except BrokerError (ResponseBody × VisibleVault)}
    {next : CollectionMetadata → BrokerAction ResponseBody}
    (hnext : ∀ collection, broker.collectionKind.stored vault id = some collection →
      broker.Meets vault (after collection) (next collection)) :
    broker.Meets vault ((broker.visible vault).findCollection id >>= after) (broker.getCollection id >>= next) := by
  refine meets_bind (fun collection => collection)
    (fun h => wp_getCollection.mpr ⟨trivial, fun _ h => h.elim, ?_⟩) fun collection hfound => ?_
  · rw [hsound.collectionAt_eq]
    exact h
  · exact hnext collection (collectionAt_eq_ok.mp ((hsound.collectionAt_eq id).trans hfound))

include hsound in
theorem meets_requireCollection {id : Uuid}
    {after : CollectionMetadata → Except BrokerError (ResponseBody × VisibleVault)}
    {next : CollectionMetadata → BrokerAction ResponseBody}
    (hnext : ∀ collection, broker.collectionKind.stored vault id = some collection →
      broker.Meets vault (after collection) (next collection)) :
    broker.Meets vault ((broker.visible vault).findReferenced id >>= after) (broker.requireCollection id >>= next) := by
  refine meets_bind (fun collection => collection)
    (fun h => wp_requireCollection.mpr ⟨trivial, fun _ h => h.elim, ?_⟩) fun collection hfound => ?_
  · rw [hsound.collectionAt_eq]
    rw [VisibleVault.findReferenced, VisibleVault.findCollection] at h
    cases hcollection : (broker.visible vault).collections[id]? with
    | none =>
        rw [hcollection] at h
        exact h
    | some collection =>
        rw [hcollection] at h
        exact h
  · exact hnext collection (collectionAt_eq_ok.mp ((hsound.collectionAt_eq id).trans (mapError_eq_ok.mp hfound)))

include hsound in
theorem meets_getItemMetadata {id : Uuid}
    {after : ItemMetadata × SecretBytes → Except BrokerError (ResponseBody × VisibleVault)}
    {next : ItemMetadata → BrokerAction ResponseBody}
    (hnext : ∀ entry, (broker.visible vault).items[id]? = some entry →
      broker.Meets vault (after entry) (next entry.1)) :
    broker.Meets vault ((broker.visible vault).findItem id >>= after) (broker.getItemMetadata id >>= next) := by
  refine meets_bind Prod.fst (fun h => wp_getItemMetadata.mpr ⟨trivial, fun _ h => h.elim, ?_⟩)
    fun entry hfound => hnext entry ?_
  · rw [hsound.itemAt_eq]
    rw [VisibleVault.findItem] at h
    cases hitem : (broker.visible vault).items[id]? with
    | none =>
        rw [hitem] at h
        exact h
    | some entry =>
        rw [hitem] at h
        exact h
  · rw [VisibleVault.findItem] at hfound
    split at hfound
    · cases hfound
      assumption
    · cases hfound

theorem meets_readCredential {target : TargetName} {next : Option Blob → BrokerAction ResponseBody}
    (hnext : broker.Meets vault spec (next (vault.lookup target))) :
    broker.Meets vault spec (readCredential target >>= next) := by
  rw [Meets, wp_bind, wp_readCredential]
  exact ⟨trivial, fun _ h => h.elim, hnext⟩

theorem meets_writeMetadata {codec : MetadataCodec α} {target : TargetName} {metadata : α} {body : ResponseBody}
    {changed : VisibleVault} (hput : ∀ blob, encodeMetadata codec metadata = .ok blob →
      broker.visible (vault.put target blob) = changed ∧ broker.Tidy (vault.put target blob)) :
    broker.Meets vault (encodeMetadata codec metadata >>= fun _ => pure (body, changed))
      (do writeMetadata codec target metadata; pure body) := by
  simp only [Meets, wp_bind, wp_writeMetadata, wp_pure]
  refine ⟨trivial, either_intro (fun blob hblob => ?_) fun error herror => ?_⟩
  · obtain ⟨hvisible, htidy⟩ := hput blob hblob
    rw [hblob, hvisible]
    exact ⟨fun _ h => h.elim, trivial, trivial, rfl, htidy⟩
  · rw [herror]
    exact ⟨rfl, rfl⟩

theorem meets_commitNewGeneration (htidy : broker.Tidy vault) {item : ItemMetadata} {previous : Option Uuid}
    {secret : SecretBytes} {body : ResponseBody} (hvalid : validateItem item = .ok ())
    (hfresh : broker.Uncommitted vault item.id item.currentGeneration)
    (hown : ∀ generation found, vault.lookup (.itemSecret item.id generation) = some found →
      previous = some generation) :
    broker.Meets vault
      (encodeMetadata broker.itemCodec item >>= fun _ => pure (body, (broker.visible vault).withItem item secret))
      (do broker.commitNewGeneration item previous secret; pure body) := by
  rw [Meets, wp_bind]
  refine wp_commitNewGeneration_cleaned (fun error herror => ?_) fun blob hblob => ?_
  · rw [herror]
    exact ⟨rfl, rfl⟩
  · rw [hblob]
    refine ⟨trivial, ?_, htidy.cleaned hvalid hblob hown⟩
    rw [visible_cleaned hvalid hblob hfresh]
    rfl

end Rules

section Sound

variable (hsound : broker.Sound vault)

include hsound

theorem Sound.isSome_collection (id : Uuid) :
    (broker.visible vault).collections[id]?.isSome = (vault.lookup (.collection id)).isSome := by
  rw [visible_collections]
  cases hblob : vault.lookup (.collection id) with
  | none =>
      rw [stored_of_lookup_none hblob]
      rfl
  | some blob =>
      obtain ⟨collection, hload⟩ := hsound.collections id blob hblob
      rw [RecordKind.stored_eq_some.mpr ⟨blob, hblob, hload⟩]
      rfl

theorem Sound.isSome_alias (name : String) :
    (broker.visible vault).aliases[name]?.isSome = (vault.lookup (.alias name)).isSome := by
  rw [hsound.visible_aliases_eq]
  cases hblob : vault.lookup (.alias name) with
  | none =>
      rw [stored_of_lookup_none hblob]
      rfl
  | some blob =>
      obtain ⟨record, hload, -⟩ := hsound.aliases name blob hblob
      rw [RecordKind.stored_eq_some.mpr ⟨blob, hblob, hload⟩]
      rfl

theorem Sound.isSome_item (id : Uuid) :
    (broker.visible vault).items[id]?.isSome = (vault.lookup (.itemMetadata id)).isSome := by
  cases hblob : vault.lookup (.itemMetadata id) with
  | none =>
      rw [Option.isSome_none, Option.isSome_eq_false_iff, Option.isNone_iff_eq_none,
        Option.eq_none_iff_forall_ne_some]
      intro entry hentry
      have hstored := (visible_items.mp hentry).1
      rw [stored_of_lookup_none hblob] at hstored
      cases hstored
  | some blob =>
      obtain ⟨item, hload, -⟩ := hsound.items id blob hblob
      obtain ⟨secret, hsecret⟩ := hsound.exists_visible_items.mpr
        (RecordKind.stored_eq_some.mpr ⟨blob, hblob, hload⟩)
      rw [hsecret]
      rfl

/-- The checks that come before a new item is committed. -/
theorem Sound.idealCreate_meets {item : ItemMetadata} {secret : SecretBytes}
    {after : VisibleVault → Except BrokerError (ResponseBody × VisibleVault)} {next : BrokerAction ResponseBody}
    (hnext : validateItem item = .ok () → vault.lookup (.itemMetadata item.id) = none →
      broker.Meets vault
        (encodeMetadata broker.itemCodec item >>= fun _ => after ((broker.visible vault).withItem item secret)) next) :
    broker.Meets vault (broker.idealCreate (broker.visible vault) item secret >>= after) (do
      Action.ofExcept (validateItem item)
      let _ ← broker.requireCollection item.collectionId
      let stored ← readCredential (.itemMetadata item.id)
      if stored.isSome then throw (alreadyExists "item already exists") else next) := by
  simp only [idealCreate, bind_assoc]
  refine meets_check fun _ hvalid => meets_requireCollection hsound fun _ _ => meets_readCredential ?_
  rw [hsound.isSome_item]
  split_ifs with hstored
  · exact meets_throw _
  · simpa only [bind_assoc, pure_bind] using hnext hvalid (Option.not_isSome_iff_eq_none.mp hstored)

variable (htidy : broker.Tidy vault)

include htidy

theorem Sound.meets_createCollection (collection : CollectionMetadata) :
    broker.Meets vault (broker.ideal (broker.visible vault) (.createCollection collection))
      (broker.createCollection collection) := by
  refine meets_check fun _ hvalid => meets_readCredential ?_
  rw [hsound.isSome_collection]
  split_ifs with hstored
  · exact meets_throw _
  · refine meets_writeMetadata fun blob hblob => ⟨?_, htidy.put_collection collection.id blob⟩
    exact hsound.visible_put_collection (broker.collectionKind.load_of_encode hvalid hblob)

theorem Sound.meets_updateCollection (collection : CollectionMetadata) :
    broker.Meets vault (broker.ideal (broker.visible vault) (.updateCollection collection))
      (broker.updateCollection collection) := by
  refine meets_getCollection hsound fun existing hexisting => meets_check fun _ hvalid => ?_
  refine meets_writeMetadata fun blob hblob => ⟨?_, htidy.put_collection collection.id blob⟩
  have hvalid' : validateCollection { collection with created := existing.created } = .ok () :=
    validateCollection_eq_ok.mpr (validateCollection_eq_ok.mp hvalid)
  exact hsound.visible_put_collection (broker.collectionKind.load_of_encode hvalid' hblob)

theorem Sound.meets_setAlias (record : AliasMetadata) :
    broker.Meets vault (broker.ideal (broker.visible vault) (.setAlias record)) (broker.setAlias record) := by
  refine meets_check fun _ hvalid => meets_requireCollection hsound fun collection hcollection => ?_
  refine meets_writeMetadata fun blob hblob => ⟨?_, htidy.put_alias record.name blob⟩
  exact visible_put_alias (broker.aliasKind.load_of_encode hvalid hblob) ⟨collection, hcollection⟩

theorem Sound.meets_removeAlias (name : String) :
    broker.Meets vault (broker.ideal (broker.visible vault) (.removeAlias name)) (removeAlias name) := by
  refine meets_check fun _ _ => meets_readCredential ?_
  have hisNone : (broker.visible vault).aliases[name]?.isNone = (vault.lookup (.alias name)).isNone := by
    rw [← Option.not_isSome, ← Option.not_isSome, hsound.isSome_alias]
  rw [hisNone]
  split_ifs
  · exact meets_throw _
  · simp only [Meets, wp_bind, wp_deleteCredential, wp_pure]
    refine ⟨trivial, fun _ h => h.elim, trivial, trivial, ?_, htidy.drop_alias name⟩
    rw [visible_drop_alias]
    rfl

omit hsound in
/-- Without metadata an item has no secret. -/
theorem Tidy.lookup_secret {id : Uuid} (hnone : vault.lookup (.itemMetadata id) = none) (generation : Uuid) :
    vault.lookup (.itemSecret id generation) = none := by
  rw [Option.eq_none_iff_forall_ne_some]
  intro blob hblob
  obtain ⟨item, hitem, -⟩ := htidy id generation blob hblob
  rw [stored_of_lookup_none hnone] at hitem
  cases hitem

theorem Sound.meets_createItem (item : ItemMetadata) (secret : SecretBytes) :
    broker.Meets vault (broker.ideal (broker.visible vault) (.createItem item secret))
      (broker.createItem item secret) := by
  refine hsound.idealCreate_meets fun hvalid hnone => ?_
  refine meets_commitNewGeneration htidy hvalid (uncommitted_of_lookup_none hnone) fun generation found hfound => ?_
  rw [htidy.lookup_secret hnone] at hfound
  cases hfound

omit htidy in
/-- The items to replace are found before the new one is there. -/
theorem Sound.wp_replacedItemIds (item : ItemMetadata) (replace : Bool) {faults : BackendError → Prop}
    {ok : List Uuid → Vault → Prop} {err : BrokerError → Vault → Prop}
    (herr : ∀ error, faults error → err error.toBrokerError vault)
    (hok : ok (if replace then (broker.visible vault).twins item else []) vault) :
    wp broker.backend.serve faults (broker.replacedItemIds item replace) ok err (fun _ => True) vault := by
  cases replace with
  | false => exact ⟨trivial, hok⟩
  | true =>
      simp only [replacedItemIds, if_true, wp_bind, wp_validItems, wp_pure]
      refine ⟨trivial, herr, trivial, ?_⟩
      rw [hsound.itemsOf_eq]
      exact hok

theorem Sound.meets_createOrReplaceItem (item : ItemMetadata) (secret : SecretBytes) (replace : Bool) :
    broker.Meets vault (broker.ideal (broker.visible vault) (.createOrReplaceItem item secret replace))
      (broker.createOrReplaceItem item secret replace) := by
  refine hsound.idealCreate_meets fun hvalid hnone => ?_
  rw [Meets, wp_bind]
  refine hsound.wp_replacedItemIds item replace (fun _ h => h.elim) ?_
  rw [wp_bind]
  refine wp_commitNewGeneration_cleaned (fun error herror => ?_) fun blob hblob => ?_
  · rw [herror]
    exact ⟨rfl, rfl⟩
  · have htidy' : broker.Tidy (cleaned vault item none secret blob) := by
      refine htidy.cleaned hvalid hblob fun generation found hfound => ?_
      rw [htidy.lookup_secret hnone] at hfound
      cases hfound
    simp only [wp_bind, wp_entries, wp_pure]
    refine ⟨trivial, fun _ h => h.elim, ?_⟩
    refine wp_mono ?_ (fun _ _ h => h.elim) (fun _ h => h) (wp_deleteReplacedItems_without _ _ _)
    rintro _ rest ⟨rfl, hrest⟩
    have hwithout := broker.without_belongsTo hrest
    refine ⟨trivial, ?_, htidy'.without hwithout (wholeItems_belongsTo _)⟩
    rw [hblob, visible_withoutWholeItems hwithout, visible_cleaned hvalid hblob (uncommitted_of_lookup_none hnone)]
    rfl

theorem Sound.meets_updateItem (item : ItemMetadata) (secret : Option SecretBytes) :
    broker.Meets vault (broker.idealUpdate (broker.visible vault) item secret) (broker.updateItem item secret) := by
  refine meets_getItemMetadata hsound fun ⟨existing, current⟩ hentry => ?_
  refine meets_check fun _ hvalid => meets_requireCollection hsound fun _ _ => ?_
  obtain ⟨hexisting, hsecret⟩ := visible_items.mp hentry
  have hown : ∀ generation found, vault.lookup (.itemSecret item.id generation) = some found →
      some existing.currentGeneration = some generation := by
    intro generation found hfound
    obtain ⟨other, hother, rfl⟩ := htidy item.id generation found hfound
    cases hexisting.symm.trans hother
    rfl
  cases secret with
  | some secret =>
      by_cases hsame : item.currentGeneration = existing.currentGeneration
      · have hspec : (some secret).isSome ∧ item.currentGeneration = existing.currentGeneration := ⟨rfl, hsame⟩
        have haction : (item.succeed existing).currentGeneration = existing.currentGeneration := hsame
        simp only [if_pos hspec, if_pos haction]
        exact meets_throw _
      · have hspec : ¬ ((some secret).isSome ∧ item.currentGeneration = existing.currentGeneration) :=
          fun h => hsame h.2
        have haction : ¬ (item.succeed existing).currentGeneration = existing.currentGeneration := hsame
        simp only [if_neg hspec, if_neg haction]
        exact meets_commitNewGeneration htidy (validateItem_succeed hvalid)
          (uncommitted_of_stored hexisting (Ne.symm hsame)) hown
  | none =>
      refine meets_writeMetadata fun blob hblob => ?_
      have hload : broker.itemKind.load item.id blob = .ok (item.revise none existing) :=
        broker.itemKind.load_of_encode
          (validateItem_keepGeneration hvalid (RecordKind.check_of_stored hexisting)) hblob
      have hsecrets : ∀ id generation, (vault.put (.itemMetadata item.id) blob).lookup (.itemSecret id generation) =
          vault.lookup (.itemSecret id generation) := fun _ _ => Vault.lookup_put_of_ne nofun
      constructor
      · exact visible_put_item hload hsecret
      · refine tidy_of_item (RecordKind.stored_put_self hload) (fun generation found hfound => ?_)
          (fun id hid => Vault.lookup_put_of_ne (by simpa using Ne.symm hid))
          (fun id generation _ => hsecrets id generation) htidy
        exact (Option.some.inj (hown generation found ((hsecrets _ _).symm.trans hfound))).symm

theorem Sound.meets_updateItemCas (item : ItemMetadata) (secret : Option SecretBytes) (expectedModified : UInt64) :
    broker.Meets vault (broker.ideal (broker.visible vault) (.updateItemCas item secret expectedModified))
      (broker.updateItemCas item secret expectedModified) := by
  refine meets_getItemMetadata hsound fun ⟨existing, current⟩ hentry => ?_
  by_cases hmodified : existing.modified ≠ expectedModified
  · simp only [if_pos hmodified]
    exact meets_throw _
  · simp only [if_neg hmodified]
    exact hsound.meets_updateItem htidy item secret

theorem Sound.meets_deleteItem (id : Uuid) :
    broker.Meets vault (broker.ideal (broker.visible vault) (.deleteItem id)) (broker.deleteItem id) := by
  refine meets_getItemMetadata hsound fun _ _ => ?_
  simp only [Meets, wp_bind, wp_entries, wp_pure]
  refine ⟨trivial, fun _ h => h.elim, ?_⟩
  refine wp_mono (fun _ rest hrest => ?_) (fun _ _ hfailed => hfailed.1.elim fun _ hfault => hfault.elim)
    (fun _ _ => trivial) (deletes_deleteItemFromEntries _ id vault)
  have hwithout : vault.Without (fun target => ∃ other ∈ [id], target.BelongsTo other) rest :=
    broker.without_belongsTo (hrest.congr fun _ => by simp)
  refine ⟨trivial, ?_, htidy.without hwithout (wholeItems_belongsTo _)⟩
  rw [visible_withoutWholeItems hwithout]
  rfl

theorem Sound.meets_deleteCollection (collectionId : Uuid) :
    broker.Meets vault (broker.ideal (broker.visible vault) (.deleteCollection collectionId))
      (broker.deleteCollection collectionId) := by
  refine wp_mono (fun body rest => ?_) (fun error rest => ?_) (fun _ _ => trivial)
    (wp_deleteCollection collectionId vault)
  · rintro ⟨rfl, hfound, hwithout⟩
    obtain ⟨collection, hcollection⟩ := Option.isSome_iff_exists.mp hfound
    have hideal : (broker.visible vault).findCollection collectionId = .ok collection :=
      (hsound.collectionAt_eq collectionId).symm.trans (collectionAt_eq_ok.mpr hcollection)
    refine ⟨?_, htidy.without hwithout (wholeItems_goesWith collectionId)⟩
    rw [visible_withoutCollection hwithout, ideal, hideal]
    rfl
  · rintro (⟨⟨_, hfault⟩, -⟩ | ⟨hmissing, rfl⟩)
    · exact hfault.elim
    · have hideal : (broker.visible rest).findCollection collectionId = .error error :=
        (hsound.collectionAt_eq collectionId).symm.trans hmissing
      rw [ideal, hideal]
      exact ⟨rfl, rfl⟩

omit hsound in
theorem Tidy.abandoned_eq_nil : broker.abandoned vault = [] := by
  rw [List.eq_nil_iff_forall_not_mem]
  rintro ⟨itemId, generation⟩ hmem
  obtain ⟨⟨blob, hblob⟩, hfree⟩ := mem_abandoned.mp hmem
  obtain ⟨item, hitem, hgeneration⟩ := htidy itemId generation blob hblob
  exact hfree item hitem hgeneration

theorem Sound.meets_reconcile :
    broker.Meets vault (broker.ideal (broker.visible vault) .reconcile) (broker.execute .reconcile) := by
  have hrecovered : broker.recovered vault = vault := by
    rw [recovered, htidy.abandoned_eq_nil]
    rfl
  refine wp_reconcile (fun _ _ => ⟨trivial, fun _ h => h.elim⟩) ?_
  rw [htidy.abandoned_eq_nil, hsound.missing_eq_nil, hrecovered]
  exact ⟨rfl, htidy⟩

end Sound

variable (broker) in
/-- What readers see after a request to the ideal broker. -/
def idealNext (visible : VisibleVault) (operation : Operation) : VisibleVault :=
  match broker.ideal visible operation with
  | .ok (_, changed) => changed
  | .error _ => visible

variable (broker) in
/-- The answer to a request while nothing fails, and the vault after it. -/
def calmly (operation : Operation) (vault : Vault) : Except BrokerError ResponseBody × Vault :=
  Action.answer broker.backend.serve (broker.execute operation) vault

theorem respond_undisturbed (operation : Operation) (vault : Vault) :
    broker.respond ⟨operation, undisturbed⟩ vault =
      ⟨.returned (broker.calmly operation vault).1, (broker.calmly operation vault).2, undisturbed⟩ :=
  execute_undisturbed _ _

theorem calmly_state (operation : Operation) (vault : Vault) :
    (broker.calmly operation vault).2 = (broker.respond ⟨operation, undisturbed⟩ vault).state := by
  rw [respond_undisturbed]

/-- The answer is the one of the ideal broker, and so is what readers see afterwards. -/
def Follows (broker : Broker) (operation : Operation) (vault : Vault) : Prop :=
  either
    (fun body rest =>
      broker.ideal (broker.visible vault) operation = .ok (body, broker.visible rest) ∧ broker.Tidy rest)
    (fun error rest => broker.ideal (broker.visible vault) operation = .error error ∧ rest = vault)
    (broker.calmly operation vault).1 (broker.calmly operation vault).2

theorem Meets.follows {operation : Operation} {action : BrokerAction ResponseBody}
    (hperform : broker.perform operation = action)
    (h : broker.Meets vault (broker.ideal (broker.visible vault) operation) action) :
    broker.Follows operation vault := by
  have hexecute : broker.Meets vault (broker.ideal (broker.visible vault) operation) (broker.execute operation) := by
    rw [Meets, execute, wp_bind, wp_acquireLock, hperform]
    exact ⟨trivial, fun _ h => h.elim, h⟩
  exact answer_of_wp hexecute

theorem Sound.follows_read (hsound : broker.Sound vault) (htidy : broker.Tidy vault) (request : ReadOperation)
    (hideal : broker.ideal (broker.visible vault) request.toOperation =
      ((broker.visible vault).answer request).map (·, broker.visible vault)) :
    broker.Follows request.toOperation vault := by
  have hanswer : (broker.calmly request.toOperation vault).1 = (broker.visible vault).answer request :=
    congrFun hsound.view_eq request
  have hstate : (broker.calmly request.toOperation vault).2 = vault :=
    (calmly_state _ _).trans (respond_read_state request)
  rw [Follows, hstate, hanswer, hideal]
  cases (broker.visible vault).answer request with
  | ok body => exact ⟨rfl, htidy⟩
  | error error => exact ⟨rfl, rfl⟩

/-- While nothing fails, the broker answers a request and changes what readers see as the ideal broker
does, and it leaves no secret behind. -/
theorem Sound.follows (hsound : broker.Sound vault) (htidy : broker.Tidy vault) (operation : Operation) :
    broker.Follows operation vault := by
  cases operation with
  | ping => exact Meets.follows rfl ⟨trivial, rfl, htidy⟩
  | listCollections => exact hsound.follows_read htidy .listCollections rfl
  | getCollection collectionId => exact hsound.follows_read htidy (.getCollection collectionId) rfl
  | createCollection collection => exact (hsound.meets_createCollection htidy collection).follows rfl
  | updateCollection collection => exact (hsound.meets_updateCollection htidy collection).follows rfl
  | deleteCollection collectionId => exact (hsound.meets_deleteCollection htidy collectionId).follows rfl
  | listAliases => exact hsound.follows_read htidy .listAliases rfl
  | resolveAlias name => exact hsound.follows_read htidy (.resolveAlias name) rfl
  | setAlias record => exact (hsound.meets_setAlias htidy record).follows rfl
  | removeAlias name => exact (hsound.meets_removeAlias htidy name).follows rfl
  | searchItems attributes => exact hsound.follows_read htidy (.searchItems attributes) rfl
  | listItems collectionId => exact hsound.follows_read htidy (.listItems collectionId) rfl
  | getItem itemId includeSecret => exact hsound.follows_read htidy (.getItem itemId includeSecret) rfl
  | createItem item secret => exact (hsound.meets_createItem htidy item secret).follows rfl
  | createOrReplaceItem item secret replace =>
      exact (hsound.meets_createOrReplaceItem htidy item secret replace).follows rfl
  | updateItem item secret => exact (hsound.meets_updateItem htidy item secret).follows rfl
  | updateItemCas item secret expectedModified =>
      exact (hsound.meets_updateItemCas htidy item secret expectedModified).follows rfl
  | deleteItem itemId => exact (hsound.meets_deleteItem htidy itemId).follows rfl
  | reconcile => exact answer_of_wp (hsound.meets_reconcile htidy)

theorem Tidy.calmly (hsound : broker.Sound vault) (htidy : broker.Tidy vault) (operation : Operation) :
    broker.Tidy (broker.calmly operation vault).2 := by
  have hfollows := hsound.follows htidy operation
  rw [Follows] at hfollows
  cases hanswer : (broker.calmly operation vault).1 with
  | ok body =>
      rw [hanswer] at hfollows
      exact hfollows.2
  | error error =>
      rw [hanswer] at hfollows
      rw [hfollows.2]
      exact htidy

theorem Sound.calmly (hsound : broker.Sound vault) (operation : Operation) :
    broker.Sound (broker.calmly operation vault).2 := by
  rw [calmly_state]
  exact hsound.respond _

theorem after_calmSteps_cons (operation : Operation) (operations : List Operation) (vault : Vault) :
    broker.after (calmSteps (operation :: operations)) vault =
      broker.after (calmSteps operations) (broker.calmly operation vault).2 := by
  rw [calmly_state]
  rfl

theorem Tidy.after (hsound : broker.Sound vault) (htidy : broker.Tidy vault) (operations : List Operation) :
    broker.Tidy (broker.after (calmSteps operations) vault) := by
  induction operations generalizing vault with
  | nil => exact htidy
  | cons operation operations ih =>
      rw [after_calmSteps_cons]
      exact ih (hsound.calmly operation) (htidy.calmly hsound operation)

theorem Sound.visible_calmly (hsound : broker.Sound vault) (htidy : broker.Tidy vault) (operation : Operation) :
    broker.visible (broker.calmly operation vault).2 = broker.idealNext (broker.visible vault) operation := by
  have hfollows := hsound.follows htidy operation
  rw [Follows] at hfollows
  rw [idealNext]
  cases hanswer : (broker.calmly operation vault).1 with
  | ok body =>
      rw [hanswer] at hfollows
      rw [hfollows.1]
  | error error =>
      rw [hanswer] at hfollows
      rw [hfollows.1, hfollows.2]

theorem Sound.answer_calmly (hsound : broker.Sound vault) (htidy : broker.Tidy vault) (operation : Operation) :
    (broker.calmly operation vault).1 = (broker.ideal (broker.visible vault) operation).map Prod.fst := by
  have hfollows := hsound.follows htidy operation
  rw [Follows] at hfollows
  cases hanswer : (broker.calmly operation vault).1 with
  | ok body =>
      rw [hanswer] at hfollows
      rw [hfollows.1]
      rfl
  | error error =>
      rw [hanswer] at hfollows
      rw [hfollows.1]
      rfl

/-- What readers see after a run without failures is what the ideal broker is left with. -/
theorem Sound.visible_after (hsound : broker.Sound vault) (htidy : broker.Tidy vault) (operations : List Operation) :
    broker.visible (broker.after (calmSteps operations) vault) =
      operations.foldl broker.idealNext (broker.visible vault) := by
  induction operations generalizing vault with
  | nil => rfl
  | cons operation operations ih =>
      rw [after_calmSteps_cons, ih (hsound.calmly operation) (htidy.calmly hsound operation),
        hsound.visible_calmly htidy, List.foldl_cons]

theorem visible_empty : broker.visible ∅ = ⟨∅, ∅, ∅⟩ := by
  refine VisibleVault.ext ?_ ?_ ?_
  all_goals
    apply Std.ExtTreeMap.ext_getElem?
    intro key
    rw [Std.ExtTreeMap.getElem?_empty]
  · rw [visible_collections]
    exact stored_of_lookup_none (Vault.lookup_empty _)
  · rw [Option.eq_none_iff_forall_ne_some]
    intro record hrecord
    cases (stored_of_lookup_none (Vault.lookup_empty _)).symm.trans (visible_aliases.mp hrecord).1
  · rw [Option.eq_none_iff_forall_ne_some]
    intro entry hentry
    cases (stored_of_lookup_none (Vault.lookup_empty _)).symm.trans (visible_items.mp hentry).1

variable (broker) in
theorem visible_calm (operations : List Operation) :
    broker.visible (broker.after (calmSteps operations) ∅) = operations.foldl broker.idealNext ⟨∅, ∅, ∅⟩ := by
  rw [sound_empty.visible_after tidy_empty, visible_empty]

variable (broker) in
/-- The answer to a request after a run without failures, computed by the ideal broker. -/
theorem respond_calm (operations : List Operation) (operation : Operation) :
    (broker.respond ⟨operation, undisturbed⟩ (broker.after (calmSteps operations) ∅)).outcome =
      .returned ((broker.ideal (operations.foldl broker.idealNext ⟨∅, ∅, ∅⟩) operation).map Prod.fst) := by
  rw [respond_undisturbed, (sound_empty.after _).answer_calmly (tidy_empty.after sound_empty operations), visible_calm]

end Broker

end WincredLibsecret
