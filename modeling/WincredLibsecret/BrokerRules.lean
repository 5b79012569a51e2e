import WincredLibsecret.BrokerService

/-! What the broker finds in a vault, as pure functions of its content, and the rules by which the
computations of the service are reasoned about. Every function of the service that only reads has one
rule: it may fail as the backend does, and otherwise it answers what the vault holds. -/

namespace WincredLibsecret

open Effect Effect.Action KeyedRecords

section Records

variable {α κ : Type} [DecidableEq κ] {kind : RecordKind α κ} {key : κ} {record : α} {blob : Blob}

theorem decodeMetadata_encodeMetadata {codec : MetadataCodec α}
    (h : encodeMetadata codec record = .ok blob) : decodeMetadata codec blob = .ok record := by
  unfold encodeMetadata at h
  split at h
  · cases h
  · rename_i encoded hencoded
    split_ifs at h with hlong
    cases h
    rw [decodeMetadata, if_neg hlong, codec.fromReader_intoWriter hencoded]
    rfl

theorem RecordKind.load_eq_ok :
    kind.load key blob = .ok record ↔
      decodeMetadata kind.codec blob = .ok record ∧ kind.key record = key ∧ kind.check record = .ok () := by
  unfold RecordKind.load
  rw [bind_eq_ok]
  constructor
  · rintro ⟨decoded, hdecoded, h⟩
    split_ifs at h with hkey
    obtain ⟨hcheck, h⟩ := check_bind_eq_ok.mp h
    cases h
    exact ⟨hdecoded, not_not.mp hkey, hcheck⟩
  · rintro ⟨hdecoded, hkey, hcheck⟩
    refine ⟨record, hdecoded, ?_⟩
    rw [if_neg (not_not.mpr hkey)]
    exact check_bind_eq_ok.mpr ⟨hcheck, rfl⟩

theorem RecordKind.load_iff_key :
    kind.load key blob = .ok record ↔ key = kind.key record ∧ kind.load (kind.key record) blob = .ok record := by
  refine ⟨fun h => ?_, fun h => h.1 ▸ h.2⟩
  obtain ⟨-, rfl, -⟩ := RecordKind.load_eq_ok.mp h
  exact ⟨rfl, h⟩

/-- What is written for a valid record loads as that record. -/
theorem RecordKind.load_of_encode (hcheck : kind.check record = .ok ())
    (hencoded : encodeMetadata kind.codec record = .ok blob) :
    kind.load (kind.key record) blob = .ok record :=
  RecordKind.load_eq_ok.mpr ⟨decodeMetadata_encodeMetadata hencoded, rfl, hcheck⟩

/-- The record a vault holds under a key. -/
def RecordKind.stored (kind : RecordKind α κ) (vault : Vault) (key : κ) : Option α :=
  (vault.lookup (kind.target key)).bind fun blob => (kind.load key blob).toOption

theorem toOption_eq_some {δ β : Type} {result : Except δ β} {value : β} :
    result.toOption = some value ↔ result = .ok value := by
  cases result <;> simp [Except.toOption]

variable {vault : Vault}

theorem RecordKind.stored_eq_some :
    kind.stored vault key = some record ↔
      ∃ blob, vault.lookup (kind.target key) = some blob ∧ kind.load key blob = .ok record := by
  simp only [RecordKind.stored, Option.bind_eq_some_iff, toOption_eq_some]

theorem RecordKind.key_of_stored (h : kind.stored vault key = some record) : kind.key record = key := by
  obtain ⟨blob, -, hload⟩ := RecordKind.stored_eq_some.mp h
  exact (RecordKind.load_eq_ok.mp hload).2.1

theorem RecordKind.check_of_stored (h : kind.stored vault key = some record) : kind.check record = .ok () := by
  obtain ⟨blob, -, hload⟩ := RecordKind.stored_eq_some.mp h
  exact (RecordKind.load_eq_ok.mp hload).2.2

theorem RecordKind.stored_congr {other : Vault} (h : vault.lookup (kind.target key) = other.lookup (kind.target key)) :
    kind.stored vault key = kind.stored other key := by
  rw [RecordKind.stored, RecordKind.stored, h]

theorem RecordKind.stored_put_of_ne {target : TargetName} (h : target ≠ kind.target key) :
    kind.stored (vault.put target blob) key = kind.stored vault key :=
  RecordKind.stored_congr (Vault.lookup_put_of_ne h)

theorem RecordKind.stored_drop_of_ne {target : TargetName} (h : target ≠ kind.target key) :
    kind.stored (vault.drop target) key = kind.stored vault key :=
  RecordKind.stored_congr (Vault.lookup_drop_of_ne h)

theorem RecordKind.stored_put_self (h : kind.load key blob = .ok record) :
    kind.stored (vault.put (kind.target key) blob) key = some record :=
  RecordKind.stored_eq_some.mpr ⟨blob, Vault.lookup_put_self _ _ _, h⟩

theorem RecordKind.stored_drop_self : kind.stored (vault.drop (kind.target key)) key = none := by
  rw [RecordKind.stored, Vault.lookup_drop_self]
  rfl

theorem RecordKind.require_eq_ok {missing : String} :
    kind.require missing key (vault.lookup (kind.target key)) = .ok record ↔
      kind.stored vault key = some record := by
  rw [RecordKind.stored_eq_some]
  cases h : vault.lookup (kind.target key) <;> simp [RecordKind.require]

end Records

/-- The part of a blob that an entry keeps. -/
def entryBlob : TargetName → Blob → Blob
  | .itemSecret _ _, _ => []
  | _, blob => blob

theorem entryOf_eq_some {name : String} {blob : Blob} {entry : Entry} :
    entryOf (name, blob) = some entry ↔
      entry.kind.toString = name ∧ entry.kind.WellFormed ∧ entry.blob = entryBlob entry.kind blob := by
  have hparse : ∀ {target}, TargetName.fromStr name = .ok target →
      entryOf (name, blob) = some ⟨target, entryBlob target blob⟩ := by
    intro target h
    cases target <;> simp [entryOf, h, entryBlob]
  rcases entry with ⟨kind, kept⟩
  constructor
  · intro h
    cases hname : TargetName.fromStr name with
    | error error => simp [entryOf, hname] at h
    | ok target =>
        rw [hparse hname, Option.some.injEq, Entry.mk.injEq] at h
        obtain ⟨rfl, rfl⟩ := h
        exact ⟨(TargetName.fromStr_eq_ok.mp hname).1, (TargetName.fromStr_eq_ok.mp hname).2, rfl⟩
  · rintro ⟨hname, hformed, hkept⟩
    rw [hparse (TargetName.fromStr_eq_ok.mpr ⟨hname, hformed⟩)]
    exact congrArg some (congrArg (Entry.mk kind) hkept.symm)

/-- What the prefix filter and the blanking of an enumeration leave out, the entries do not hold. -/
theorem enumerated_bind_entryOf (listed : String × Blob) :
    ((enumerated listed).bind fun shown => entryOf shown) = entryOf listed := by
  rcases listed with ⟨name, blob⟩
  unfold enumerated
  cases hname : TargetName.fromStr name with
  | error error => split_ifs <;> simp [entryOf, hname]
  | ok target =>
      have hstarts : credentialPrefix.toList <+: name.toList := by
        rw [← (TargetName.fromStr_eq_ok.mp hname).1, TargetName.toList_toString]
        exact List.prefix_append _ _
      rw [if_pos hstarts]
      cases target <;> simp [entryOf, hname]

namespace Broker

variable (broker : Broker)

def entriesOf (vault : Vault) : List Entry := (broker.backend.enumerate vault).filterMap entryOf

theorem entriesOf_eq (vault : Vault) : broker.entriesOf vault = (broker.backend.order vault).filterMap entryOf := by
  unfold entriesOf VaultBackend.enumerate
  rw [List.filterMap_filterMap]
  exact List.filterMap_congr fun listed _ => enumerated_bind_entryOf listed

variable {broker}

theorem mem_entriesOf {vault : Vault} {entry : Entry} :
    entry ∈ broker.entriesOf vault ↔ entry.kind.WellFormed ∧
      ∃ blob, vault.lookup entry.kind = some blob ∧ entry.blob = entryBlob entry.kind blob := by
  rw [entriesOf_eq, List.mem_filterMap]
  simp only [Prod.exists, entryOf_eq_some, (broker.backend.order_perm vault).mem_iff,
    Std.ExtTreeMap.mem_toList_iff_getElem?_eq_some]
  constructor
  · rintro ⟨name, blob, hstored, rfl, hformed, hblob⟩
    exact ⟨hformed, blob, hstored, hblob⟩
  · rintro ⟨hformed, blob, hstored, hblob⟩
    exact ⟨_, blob, hstored, rfl, hformed, hblob⟩

theorem nodup_entriesOf (vault : Vault) : ((broker.entriesOf vault).map Entry.kind).Nodup := by
  have hnames : (broker.backend.order vault).Pairwise fun a b => a.1 ≠ b.1 := by
    refine (broker.backend.order_perm vault).symm.pairwise ?_ Ne.symm
    exact Std.ExtTreeMap.distinct_keys_toList.imp fun hne heq => hne (by simp [heq])
  rw [entriesOf_eq, List.Nodup, List.pairwise_map]
  refine hnames.filterMap _ fun left right hne leftEntry hleft rightEntry hright heq => hne ?_
  rw [← (entryOf_eq_some.mp hleft).1, ← (entryOf_eq_some.mp hright).1, heq]

end Broker

/-- The reader of an entry finds exactly the records that load from it. -/
def RecordKind.Reads {α κ : Type} [DecidableEq κ] (kind : RecordKind α κ) (ofEntry : Entry → Option α) : Prop :=
  ∀ entry record, ofEntry entry = some record ↔
    entry.kind = kind.target (kind.key record) ∧ kind.load (kind.key record) entry.blob = .ok record

section Reads

variable {α κ : Type} [DecidableEq κ] {kind : RecordKind α κ} {ofEntry : Entry → Option α} {broker : Broker}
  {vault : Vault}

omit [DecidableEq κ] in
theorem RecordKind.entryBlob_target (kind : RecordKind α κ) (key : κ) (blob : Blob) :
    entryBlob (kind.target key) blob = blob := by
  cases h : kind.target key with
  | itemSecret itemId generation => exact absurd h (kind.target_ne_itemSecret key itemId generation)
  | _ => rfl

/-- The records read from the entries of a vault are the stored ones. -/
theorem RecordKind.Reads.mem_filterMap (hreads : kind.Reads ofEntry) {record : α} :
    record ∈ (broker.entriesOf vault).filterMap ofEntry ↔
      kind.stored vault (kind.key record) = some record := by
  rw [List.mem_filterMap, RecordKind.stored_eq_some]
  constructor
  · rintro ⟨entry, hentry, hrecord⟩
    obtain ⟨hkind, hload⟩ := (hreads entry record).mp hrecord
    obtain ⟨-, blob, hstored, hblob⟩ := Broker.mem_entriesOf.mp hentry
    rw [hkind, kind.entryBlob_target] at hblob
    exact ⟨blob, hkind ▸ hstored, hblob ▸ hload⟩
  · rintro ⟨blob, hstored, hload⟩
    have hcheck := (RecordKind.load_eq_ok.mp hload).2.2
    refine ⟨⟨kind.target (kind.key record), blob⟩, Broker.mem_entriesOf.mpr ?_, (hreads _ _).mpr ⟨rfl, hload⟩⟩
    exact ⟨kind.target_wellFormed hcheck, blob, hstored, (kind.entryBlob_target _ _).symm⟩

theorem RecordKind.Reads.mem_of_stored (hreads : kind.Reads ofEntry) {key : κ} {record : α}
    (h : kind.stored vault key = some record) : record ∈ (broker.entriesOf vault).filterMap ofEntry := by
  obtain rfl := RecordKind.key_of_stored h
  exact hreads.mem_filterMap.mpr h

theorem RecordKind.Reads.nodup_keys (hreads : kind.Reads ofEntry) :
    (((broker.entriesOf vault).filterMap ofEntry).map kind.key).Nodup := by
  rw [List.Nodup, List.pairwise_map]
  refine (List.pairwise_map.mp (Broker.nodup_entriesOf vault)).filterMap _ ?_
  intro left right hne leftRecord hleft rightRecord hright heq
  refine hne ?_
  rw [((hreads _ _).mp hleft).1, ((hreads _ _).mp hright).1, heq]

end Reads

namespace Broker

variable {broker : Broker} {vault : Vault}

theorem collectionOf_reads : broker.collectionKind.Reads broker.collectionOf := by
  intro entry record
  rcases entry with ⟨kind, blob⟩
  cases kind with
  | collection id =>
      simp only [collectionOf, toOption_eq_some]
      rw [RecordKind.load_iff_key]
      simp [collectionKind]
  | _ => simp [collectionOf, collectionKind]

theorem itemOf_reads : broker.itemKind.Reads broker.itemOf := by
  intro entry record
  rcases entry with ⟨kind, blob⟩
  cases kind with
  | itemMetadata id =>
      simp only [itemOf, toOption_eq_some]
      rw [RecordKind.load_iff_key]
      simp [itemKind]
  | _ => simp [itemOf, itemKind]

theorem aliasOf_reads : broker.aliasKind.Reads broker.aliasOf := by
  intro entry record
  rcases entry with ⟨kind, blob⟩
  cases kind with
  | «alias» name =>
      simp only [aliasOf, toOption_eq_some]
      rw [RecordKind.load_iff_key]
      simp [aliasKind]
  | _ => simp [aliasOf, aliasKind]

/-! ### Rules for reading -/

variable (broker) in
/-- What a read of a collection answers. -/
def collectionAt (vault : Vault) (id : Uuid) : Except BrokerError CollectionMetadata :=
  broker.collectionKind.require "collection does not exist" id (vault.lookup (.collection id))

variable (broker) in
def itemAt (vault : Vault) (id : Uuid) : Except BrokerError ItemMetadata :=
  broker.itemKind.require "item does not exist" id (vault.lookup (.itemMetadata id))

variable (broker) in
/-- The valid items of a vault in the order of their identifiers. -/
def itemsOf (vault : Vault) : List ItemMetadata :=
  sortByKey ItemMetadata.id ((broker.entriesOf vault).filterMap broker.itemOf)

theorem collectionAt_eq_ok {id : Uuid} {collection : CollectionMetadata} :
    broker.collectionAt vault id = .ok collection ↔ broker.collectionKind.stored vault id = some collection :=
  RecordKind.require_eq_ok

theorem itemAt_eq_ok {id : Uuid} {item : ItemMetadata} :
    broker.itemAt vault id = .ok item ↔ broker.itemKind.stored vault id = some item :=
  RecordKind.require_eq_ok

theorem mem_itemsOf {item : ItemMetadata} :
    item ∈ broker.itemsOf vault ↔ broker.itemKind.stored vault item.id = some item :=
  mem_sortByKey.trans itemOf_reads.mem_filterMap

theorem itemsOf_congr {other : Vault}
    (h : ∀ id, other.lookup (.itemMetadata id) = vault.lookup (.itemMetadata id)) :
    broker.itemsOf other = broker.itemsOf vault := by
  refine sortByKey_congr itemOf_reads.nodup_keys itemOf_reads.nodup_keys fun item => ?_
  rw [itemOf_reads.mem_filterMap, itemOf_reads.mem_filterMap]
  exact iff_of_eq (congrArg (· = some item) (RecordKind.stored_congr (h _)))

/-- The error of a reference to a collection that could not be read. -/
def referenceError (error : BrokerError) : BrokerError :=
  if error.code = .notFound then ⟨.invalidCollection, "referenced collection does not exist"⟩ else error

theorem referenceError_of_backend (error : BackendError) :
    referenceError error.toBrokerError = error.toBrokerError :=
  if_neg error.code_ne_notFound

variable {faults : BackendError → Prop} {err : BrokerError → Vault → Prop} {crash : Vault → Prop}

@[simp] theorem wp_entries {ok : List Entry → Vault → Prop} :
    wp broker.backend.serve faults entries ok err crash vault ↔
      crash vault ∧ (∀ error, faults error → err error.toBrokerError vault) ∧
        ok (broker.entriesOf vault) vault := by
  simp only [entries, wp_bind, wp_enumerateCredentials, wp_pure, entriesOf]
  tauto

@[simp] theorem wp_getCollection {id : Uuid} {ok : CollectionMetadata → Vault → Prop} :
    wp broker.backend.serve faults (broker.getCollection id) ok err crash vault ↔
      crash vault ∧ (∀ error, faults error → err error.toBrokerError vault) ∧
        either ok err (broker.collectionAt vault id) vault := by
  simp only [getCollection, wp_bind, wp_readCredential, wp_ofExcept, collectionAt]
  tauto

@[simp] theorem wp_getItemMetadata {id : Uuid} {ok : ItemMetadata → Vault → Prop} :
    wp broker.backend.serve faults (broker.getItemMetadata id) ok err crash vault ↔
      crash vault ∧ (∀ error, faults error → err error.toBrokerError vault) ∧
        either ok err (broker.itemAt vault id) vault := by
  simp only [getItemMetadata, wp_bind, wp_readCredential, wp_ofExcept, itemAt]
  tauto

@[simp] theorem wp_requireCollection {id : Uuid} {ok : CollectionMetadata → Vault → Prop} :
    wp broker.backend.serve faults (broker.requireCollection id) ok err crash vault ↔
      crash vault ∧ (∀ error, faults error → err error.toBrokerError vault) ∧
        either ok (fun error => err (referenceError error)) (broker.collectionAt vault id) vault := by
  rw [show broker.requireCollection id = mapError referenceError (broker.getCollection id) from rfl]
  simp only [wp_mapError, wp_getCollection, referenceError_of_backend]

@[simp] theorem wp_validItems {ok : List ItemMetadata → Vault → Prop} :
    wp broker.backend.serve faults broker.validItems ok err crash vault ↔
      crash vault ∧ (∀ error, faults error → err error.toBrokerError vault) ∧
        ok (broker.itemsOf vault) vault := by
  simp only [validItems, wp_bind, wp_entries, wp_pure, itemsOf]
  tauto

/-- The end of a run that makes one reading call and answers by what it finds. -/
def answered {α : Type} (fates : Fates BackendError) (vault : Vault) (result : Except BrokerError α) :
    Ending BackendError Vault (Except BrokerError α) :=
  match fates 0 with
  | .serve => ⟨.returned result, vault, fates.rest⟩
  | .fail error => ⟨.returned (.error error.toBrokerError), vault, fates.rest⟩
  | .kill => ⟨.killed, vault, fates.rest⟩

section Answered

variable {fates : Fates BackendError}

theorem answered_serve {α : Type} {result : Except BrokerError α} (h : fates 0 = .serve) :
    answered fates vault result = ⟨.returned result, vault, fates.rest⟩ := by
  rw [answered, h]

theorem answered_fail {α : Type} {result : Except BrokerError α} {error : BackendError}
    (h : fates 0 = .fail error) :
    answered fates vault result = ⟨.returned (.error error.toBrokerError), vault, fates.rest⟩ := by
  rw [answered, h]

theorem answered_kill {α : Type} {result : Except BrokerError α} (h : fates 0 = .kill) :
    answered fates vault result = ⟨.killed, vault, fates.rest⟩ := by
  rw [answered, h]

theorem execute_acquireLock :
    Action.execute broker.backend.serve acquireLock fates vault = answered fates vault (.ok ()) := by
  refine (execute_perform BackendError.toBrokerError VaultCall.acquireLock fates vault).trans ?_
  rw [answered]
  cases fates 0 <;> rfl

theorem execute_readCredential (target : TargetName) :
    Action.execute broker.backend.serve (readCredential target) fates vault =
      answered fates vault (.ok (vault.lookup target)) := by
  refine (execute_perform BackendError.toBrokerError (VaultCall.read target) fates vault).trans ?_
  rw [answered]
  cases fates 0 <;> rfl

theorem execute_enumerateCredentials :
    Action.execute broker.backend.serve enumerateCredentials fates vault =
      answered fates vault (.ok (broker.backend.enumerate vault)) := by
  refine (execute_perform BackendError.toBrokerError VaultCall.enumerate fates vault).trans ?_
  rw [answered]
  cases fates 0 <;> rfl

theorem execute_entries :
    Action.execute broker.backend.serve entries fates vault =
      answered fates vault (.ok (broker.entriesOf vault)) := by
  rw [entries, execute_bind, execute_enumerateCredentials, answered, answered]
  cases fates 0 <;> rfl

theorem execute_getCollection (id : Uuid) :
    Action.execute broker.backend.serve (broker.getCollection id) fates vault =
      answered fates vault (broker.collectionAt vault id) := by
  rw [getCollection, execute_bind, execute_readCredential, answered, answered]
  cases fates 0 <;> rfl

theorem execute_requireCollection (id : Uuid) :
    Action.execute broker.backend.serve (broker.requireCollection id) fates vault =
      answered fates vault ((broker.collectionAt vault id).mapError referenceError) := by
  refine (execute_mapError referenceError (broker.getCollection id) fates vault).trans ?_
  rw [execute_getCollection, answered, answered]
  cases fates 0 with
  | serve => rfl
  | fail error => simp [Ending.map, Except.mapError, referenceError_of_backend]
  | kill => rfl

theorem execute_validItems :
    Action.execute broker.backend.serve broker.validItems fates vault =
      answered fates vault (.ok (broker.itemsOf vault)) := by
  rw [validItems, execute_bind, execute_entries, answered, answered]
  cases fates 0 <;> rfl

theorem execute_writeCredential (target : TargetName) (blob : Blob) :
    Action.execute broker.backend.serve (writeCredential target blob) fates vault =
      match fates 0 with
      | .serve => ⟨.returned (.ok ()), vault.put target blob, fates.rest⟩
      | .fail error => ⟨.returned (.error error.toBrokerError), vault, fates.rest⟩
      | .kill => ⟨.killed, vault, fates.rest⟩ := by
  refine (execute_perform BackendError.toBrokerError (VaultCall.write target blob) fates vault).trans ?_
  cases fates 0 <;> rfl

theorem execute_deleteCredential (target : TargetName) :
    Action.execute broker.backend.serve (deleteCredential target) fates vault =
      match fates 0 with
      | .serve => ⟨.returned (.ok ()), vault.drop target, fates.rest⟩
      | .fail error => ⟨.returned (.error error.toBrokerError), vault, fates.rest⟩
      | .kill => ⟨.killed, vault, fates.rest⟩ := by
  refine (execute_perform BackendError.toBrokerError (VaultCall.delete target) fates vault).trans ?_
  cases fates 0 <;> rfl

/-- After a reading call the run goes on from where it was, or it stops there. -/
theorem andThen_answered_cases {α β : Type} (fates : Fates BackendError) (vault : Vault)
    (result : Except BrokerError α)
    (next : α → Fates BackendError → Vault → Ending BackendError Vault (Except BrokerError β)) :
    (∃ value, fates 0 = .serve ∧ result = .ok value ∧
      andThen (answered fates vault result) next = next value fates.rest vault) ∨
    ((fates 0 = .serve → ∀ value, result ≠ .ok value) ∧
      (andThen (answered fates vault result) next).state = vault) := by
  cases hfate : fates 0 with
  | serve =>
      rw [answered_serve hfate]
      cases result with
      | ok value => exact .inl ⟨value, rfl, rfl, rfl⟩
      | error error => exact .inr ⟨nofun, rfl⟩
  | fail error => exact .inr ⟨nofun, by rw [answered_fail hfate]; rfl⟩
  | kill => exact .inr ⟨nofun, by rw [answered_kill hfate]; rfl⟩

end Answered

section Reading

open Action

theorem calls_readCredential (target : TargetName) : Calls VaultCall.IsReading (readCredential target) :=
  calls_perform trivial

theorem calls_entries : Calls VaultCall.IsReading entries :=
  calls_bind (calls_perform trivial) fun _ => calls_pure _

theorem calls_getCollection (id : Uuid) : Calls VaultCall.IsReading (broker.getCollection id) :=
  calls_bind (calls_readCredential _) fun _ => calls_ofExcept _

theorem calls_getItemMetadata (id : Uuid) : Calls VaultCall.IsReading (broker.getItemMetadata id) :=
  calls_bind (calls_readCredential _) fun _ => calls_ofExcept _

theorem calls_validItems : Calls VaultCall.IsReading broker.validItems :=
  calls_bind calls_entries fun _ => calls_pure _

theorem calls_listCollections : Calls VaultCall.IsReading broker.listCollections :=
  calls_bind calls_entries fun _ => calls_pure _

theorem calls_resolveAlias (name : String) : Calls VaultCall.IsReading (broker.resolveAlias name) := by
  refine calls_bind (calls_ofExcept _) fun _ => calls_bind (calls_readCredential _) fun stored => ?_
  cases stored with
  | none => exact calls_pure _
  | some blob =>
      refine calls_bind (calls_ofExcept _) fun record => ?_
      refine calls_bind (calls_attempt (calls_getCollection _)) fun collection => ?_
      cases collection with
      | error error => exact calls_throw _
      | ok collection => exact calls_pure _

theorem calls_collectAliases (entries : List Entry) : Calls VaultCall.IsReading (broker.collectAliases entries) := by
  induction entries with
  | nil => exact calls_pure _
  | cons entry rest ih =>
      rw [collectAliases]
      split
      · exact ih
      · refine calls_bind (calls_attempt (calls_getCollection _)) fun collection => calls_bind ih fun others => ?_
        cases collection with
        | error error => exact calls_pure _
        | ok collection => exact calls_pure _

theorem calls_listAliases : Calls VaultCall.IsReading broker.listAliases :=
  calls_bind calls_entries fun entries => calls_bind (calls_collectAliases entries) fun _ => calls_pure _

theorem calls_searchItems (attributes : BTreeMap String String) :
    Calls VaultCall.IsReading (broker.searchItems attributes) :=
  calls_bind (calls_ofExcept _) fun _ => calls_bind calls_validItems fun _ => calls_pure _

theorem calls_listItems (collectionId : Uuid) : Calls VaultCall.IsReading (broker.listItems collectionId) :=
  calls_bind (calls_getCollection _) fun _ => calls_bind calls_validItems fun _ => calls_pure _

theorem calls_getItem (id : Uuid) (includeSecret : Bool) :
    Calls VaultCall.IsReading (broker.getItem id includeSecret) := by
  refine calls_bind (calls_getItemMetadata id) fun item => ?_
  cases includeSecret with
  | false => exact calls_pure _
  | true => exact calls_bind (calls_readCredential _) fun _ => calls_bind (calls_ofExcept _) fun _ => calls_pure _

theorem calls_replacedItemIds (item : ItemMetadata) (replace : Bool) :
    Calls VaultCall.IsReading (broker.replacedItemIds item replace) := by
  cases replace with
  | false => exact calls_pure _
  | true => exact calls_bind calls_validItems fun _ => calls_pure _

end Reading

/-- A computation that only reads ends in the vault it started from. -/
theorem wp_of_reading {α : Type} {action : BrokerAction α} {ok : α → Vault → Prop}
    (hcalls : Calls VaultCall.IsReading action) (hcrash : crash vault) (hok : ∀ value, ok value vault)
    (herr : ∀ error, err error vault) : wp broker.backend.serve faults action ok err crash vault := by
  have hkept : ∀ request : VaultCall, request.IsReading → ∀ rest, rest = vault →
      (broker.backend.serve request rest).2 = vault :=
    fun request hreading rest hrest => (broker.backend.serve_of_isReading request hreading rest).trans hrest
  refine wp_mono ?_ ?_ ?_ (wp_of_calls hkept hcalls rfl)
  · rintro value _ rfl
    exact hok value
  · rintro error _ rfl
    exact herr error
  · rintro _ rfl
    exact hcrash

/-! ### Rules for writing -/

variable {ok : Unit → Vault → Prop} {itemId generation : Uuid}

@[simp] theorem wp_writeMetadata {α : Type} {codec : MetadataCodec α} {target : TargetName} {metadata : α} :
    wp broker.backend.serve faults (writeMetadata codec target metadata) ok err crash vault ↔
      crash vault ∧ either
        (fun blob vault => (∀ error, faults error → err error.toBrokerError vault) ∧
          crash (vault.put target blob) ∧ ok () (vault.put target blob))
        err (encodeMetadata codec metadata) vault := by
  cases h : encodeMetadata codec metadata with
  | error error => simp [writeMetadata, h]
  | ok blob =>
      simp only [writeMetadata, wp_bind, wp_ofExcept, h, either_ok, wp_writeCredential]
      tauto

theorem wp_cleanUp {target : TargetName} (hcrash : crash vault) (hkept : ok () vault)
    (hdropped : crash (vault.drop target) ∧ ok () (vault.drop target)) :
    wp broker.backend.serve faults (cleanUp (.deleteSecret target)) ok err crash vault := by
  simp only [cleanUp, wp_bind, wp_attempt, wp_deleteCredential, wp_pure]
  exact ⟨hcrash, fun _ _ => ⟨hcrash, hkept⟩, hdropped.1, hdropped⟩

/-- The rule of the generation commit. Before the metadata is written an error may leave the new
secret behind or not; afterwards the commit succeeds, and the old secret may stay or not. -/
theorem wp_commitNewGeneration {item : ItemMetadata} {previous : Option Uuid} {secret : SecretBytes}
    (hcrash : crash vault) (hstart : ∀ error, faults error → err error.toBrokerError vault)
    (hencode : ∀ error, encodeMetadata broker.itemCodec item = .error error → err error vault)
    (hsecret : ∀ written, written = vault.put (.itemSecret item.id item.currentGeneration) secret.bytes →
      crash written ∧ ∀ error, faults error → err error.toBrokerError written)
    (hrollback : ∀ rolled, rolled = (vault.put (.itemSecret item.id item.currentGeneration) secret.bytes).drop
        (.itemSecret item.id item.currentGeneration) →
      crash rolled ∧ ∀ error, faults error → err error.toBrokerError rolled)
    (hcommit : ∀ blob, encodeMetadata broker.itemCodec item = .ok blob → ∀ committed,
      committed = (vault.put (.itemSecret item.id item.currentGeneration) secret.bytes).put
        (.itemMetadata item.id) blob →
      (crash committed ∧ ok () committed) ∧ ∀ old, previous = some old → old ≠ item.currentGeneration →
        crash (committed.drop (.itemSecret item.id old)) ∧ ok () (committed.drop (.itemSecret item.id old))) :
    wp broker.backend.serve faults (broker.commitNewGeneration item previous secret) ok err crash vault := by
  simp only [commitNewGeneration, wp_bind, wp_ofExcept]
  refine ⟨hcrash, ?_⟩
  cases hblob : encodeMetadata broker.itemCodec item with
  | error error => exact hencode error hblob
  | ok blob =>
      simp only [either_ok, wp_writeCredential, wp_attempt, wp_bind]
      obtain ⟨hwritten, hfailed⟩ := hsecret _ rfl
      obtain ⟨hrolled, hrolledErr⟩ := hrollback _ rfl
      obtain ⟨hcommitted, hcleaned⟩ := hcommit blob hblob _ rfl
      refine ⟨hcrash, hstart, hwritten, hwritten, fun error herror => ?_, hcommitted.1, ?_⟩
      · simp only [wp_deleteCredential, wp_throw]
        exact ⟨hwritten, fun _ _ => ⟨hwritten, hfailed error herror⟩, hrolled, hrolled, hrolledErr error herror⟩
      · simp only [GenerationCommit.steps]
        cases previous with
        | none =>
            simp only [List.append_nil, List.forM_cons, List.forM_nil, cleanUp, wp_bind, wp_pure]
            tauto
        | some old =>
            dsimp only
            split_ifs with hne
            · simp only [List.cons_append, List.nil_append, List.forM_cons, List.forM_nil, wp_bind]
              obtain ⟨hdropped, hdone⟩ := hcleaned old rfl hne
              refine ⟨hcommitted.1, hcommitted.1, wp_cleanUp hcommitted.1 ?_ ⟨hdropped, hdropped, hdone⟩⟩
              exact hcommitted
            · simp only [List.append_nil, List.forM_cons, List.forM_nil, cleanUp, wp_bind, wp_pure]
              tauto

/-! ### The recovery inventory -/

variable (broker) in
def inventoryOf (vault : Vault) : RecoveryInventory :=
  (broker.entriesOf vault).foldl broker.recordEntry .empty

theorem committedGenerations_foldl (entries : List Entry) (inventory : RecoveryInventory) :
    (entries.foldl broker.recordEntry inventory).committedGenerations =
      (entries.filterMap broker.itemOf).foldl (fun map item => map.insert item.id item.currentGeneration)
        inventory.committedGenerations := by
  induction entries generalizing inventory with
  | nil => rfl
  | cons entry rest ih =>
      rw [List.foldl_cons, ih]
      rcases entry with ⟨kind, blob⟩
      cases kind with
      | itemMetadata id =>
          cases hitem : broker.itemOf ⟨.itemMetadata id, blob⟩ <;> simp [recordEntry, hitem]
      | _ => rfl

theorem storedGenerations_foldl (entries : List Entry) (inventory : RecoveryInventory) :
    toLex (itemId, generation) ∈ (entries.foldl broker.recordEntry inventory).storedGenerations ↔
      toLex (itemId, generation) ∈ inventory.storedGenerations ∨
        ∃ entry ∈ entries, entry.kind = .itemSecret itemId generation := by
  induction entries generalizing inventory with
  | nil => simp
  | cons entry rest ih =>
      rw [List.foldl_cons, ih]
      rcases entry with ⟨kind, blob⟩
      cases kind with
      | itemMetadata id => cases hitem : broker.itemOf ⟨.itemMetadata id, blob⟩ <;> simp [recordEntry, hitem]
      | itemSecret id stored =>
          have hkey : compare (toLex (id, stored)) (toLex (itemId, generation)) = .eq ↔
              id = itemId ∧ stored = generation := by
            rw [compare_eq_iff_eq]
            simp
          simp only [recordEntry, Std.ExtTreeSet.mem_insert, hkey, List.exists_mem_cons_iff,
            TargetName.itemSecret.injEq]
          tauto
      | _ => simp [recordEntry]

/-- The committed generations are those of the readable items. -/
theorem inventoryOf_committed :
    (broker.inventoryOf vault).committedGenerations[itemId]? = some generation ↔
      ∃ item, broker.itemKind.stored vault itemId = some item ∧ item.currentGeneration = generation := by
  have hkeys : (((broker.entriesOf vault).filterMap broker.itemOf).map ItemMetadata.id).Nodup :=
    itemOf_reads.nodup_keys
  rw [inventoryOf, committedGenerations_foldl, getElem?_foldl_insert hkeys]
  simp only [itemOf_reads.mem_filterMap, RecoveryInventory.empty, Std.ExtTreeMap.getElem?_empty, reduceCtorEq,
    false_and, or_false]
  constructor
  · rintro ⟨item, hitem, rfl, hgeneration⟩
    exact ⟨item, hitem, hgeneration⟩
  · rintro ⟨item, hitem, hgeneration⟩
    obtain rfl : item.id = itemId := RecordKind.key_of_stored hitem
    exact ⟨item, hitem, rfl, hgeneration⟩

theorem inventoryOf_stored :
    toLex (itemId, generation) ∈ (broker.inventoryOf vault).storedGenerations ↔
      ∃ blob, vault.lookup (.itemSecret itemId generation) = some blob := by
  rw [inventoryOf, storedGenerations_foldl]
  simp only [RecoveryInventory.empty, Std.ExtTreeSet.not_mem_empty, false_or]
  constructor
  · rintro ⟨entry, hentry, hkind⟩
    obtain ⟨-, blob, hblob, -⟩ := mem_entriesOf.mp hentry
    exact ⟨blob, hkind ▸ hblob⟩
  · rintro ⟨blob, hblob⟩
    exact ⟨⟨.itemSecret itemId generation, []⟩, mem_entriesOf.mpr ⟨trivial, blob, hblob, rfl⟩, rfl⟩

theorem deleteAbandoned_mem_plan :
    .deleteAbandonedGeneration itemId generation ∈ planRecovery (broker.inventoryOf vault) ↔
      (∃ blob, vault.lookup (.itemSecret itemId generation) = some blob) ∧
        ∀ item, broker.itemKind.stored vault itemId = some item → item.currentGeneration ≠ generation := by
  rw [deleteAbandoned_mem_planRecovery, inventoryOf_stored, Ne, inventoryOf_committed]
  simp only [not_exists, not_and, Ne]

theorem reportMissing_mem_plan :
    .reportMissingCommittedGeneration itemId generation ∈ planRecovery (broker.inventoryOf vault) ↔
      (∃ item, broker.itemKind.stored vault itemId = some item ∧ item.currentGeneration = generation) ∧
        vault.lookup (.itemSecret itemId generation) = none := by
  rw [reportMissing_mem_planRecovery, inventoryOf_committed, inventoryOf_stored, not_exists,
    Option.eq_none_iff_forall_ne_some]

end Broker

end WincredLibsecret
