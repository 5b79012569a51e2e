import WincredLibsecret.BrokerListing
import WincredLibsecret.ProviderCalls
import WincredLibsecret.ProviderRollback

/-! CreateCollection that fails half way. The collection is written, then its object is made, then the alias
is written over whatever it named before, and last the object of the alias is made. Each of these steps has
its own way back. All of them delete the collection, and with it goes the alias that names it; none puts back
what the alias named before. -/

namespace WincredLibsecret

open Effect Effect.Action

namespace Broker

variable {broker : Broker} {vault middle final : Vault} {collection : CollectionMetadata} {name : String}

theorem Sound.collection_fresh_of_visible (hsound : broker.Sound vault) {id : Uuid}
    (h : (broker.visible vault).collections[id]? = none) : vault.lookup (.collection id) = none := by
  by_contra hsome
  obtain ⟨blob, hblob⟩ := Option.ne_none_iff_exists'.mp hsome
  obtain ⟨collection, hload⟩ := hsound.collections id blob hblob
  rw [visible_collections] at h
  cases h.symm.trans (RecordKind.stored_eq_some.mpr ⟨blob, hblob, hload⟩)

/-- The collection can be created in the vault as it is. -/
structure Admits (broker : Broker) (vault : Vault) (collection : CollectionMetadata) : Prop where
  valid : validateCollection collection = .ok ()
  fresh : vault.lookup (.collection collection.id) = none
  encodes : ∃ blob, encodeMetadata broker.collectionCodec collection = .ok blob

theorem wp_execute_createCollection {faults : BackendError → Prop} (collection : CollectionMetadata) (vault : Vault) :
    Action.wp broker.backend.serve faults (broker.execute (.createCollection collection))
      (fun body rest => body = .collection collection ∧ broker.Admits vault collection ∧
        ∃ blob, encodeMetadata broker.collectionCodec collection = .ok blob ∧
          rest = vault.put (.collection collection.id) blob)
      (fun _ _ => (∃ error, faults error) ∨ ¬ broker.Admits vault collection) (fun _ => True) vault := by
  simp only [execute, perform, createCollection, wp_bind, wp_acquireLock, wp_ofExcept, wp_readCredential]
  refine ⟨trivial, fun error herror => .inl ⟨error, herror⟩, trivial, either_intro (fun _ hvalid => ?_)
    fun error herror => .inr fun h => ?_⟩
  · refine ⟨trivial, fun error herror => .inl ⟨error, herror⟩, ?_⟩
    cases hstored : vault.lookup (.collection collection.id) with
    | some blob => exact ⟨trivial, .inr fun h => by cases hstored.symm.trans h.fresh⟩
    | none =>
        simp only [Option.isSome_none, Bool.false_eq_true, if_false, wp_bind, wp_writeMetadata, wp_pure]
        refine ⟨trivial, either_intro (fun blob hblob => ?_) fun error herror => .inr fun h => ?_⟩
        · exact ⟨fun error herror => .inl ⟨error, herror⟩, trivial, trivial, trivial, ⟨hvalid, hstored, blob, hblob⟩,
            blob, hblob, rfl⟩
        · obtain ⟨blob, hblob⟩ := h.encodes
          cases hblob.symm.trans herror
  · cases herror.symm.trans h.valid

theorem put_of_createCollection {fates : Fates BackendError} {body : ResponseBody}
    (h : (broker.respond ⟨.createCollection collection, fates⟩ vault).outcome = .returned (.ok body)) :
    body = .collection collection ∧ broker.Admits vault collection ∧
      ∃ blob, encodeMetadata broker.collectionCodec collection = .ok blob ∧
        (broker.respond ⟨.createCollection collection, fates⟩ vault).state =
          vault.put (.collection collection.id) blob :=
  execute_of_wp (wp_execute_createCollection collection vault) (within_any fates) h

/-- The alias was written, or nothing was. -/
def MayName (broker : Broker) (vault : Vault) (record : AliasMetadata) (rest : Vault) : Prop :=
  rest = vault ∨ ∃ blob, encodeMetadata broker.aliasCodec record = .ok blob ∧ validateAlias record = .ok () ∧
    rest = vault.put (.alias record.name) blob

/-- The alias can be written in the vault as it is. -/
structure Names (broker : Broker) (vault : Vault) (record : AliasMetadata) : Prop where
  valid : validateAlias record = .ok ()
  collection : (broker.collectionKind.stored vault record.collectionId).isSome
  encodes : ∃ blob, encodeMetadata broker.aliasCodec record = .ok blob

theorem wp_execute_setAlias {faults : BackendError → Prop} (record : AliasMetadata) (vault : Vault) :
    Action.wp broker.backend.serve faults (broker.execute (.setAlias record))
      (fun body rest => body = .alias (some record) ∧ ∃ blob, encodeMetadata broker.aliasCodec record = .ok blob ∧
        rest = vault.put (.alias record.name) blob)
      (fun _ _ => (∃ error, faults error) ∨ ¬ broker.Names vault record) (broker.MayName vault record) vault := by
  have hstart : broker.MayName vault record vault := .inl rfl
  have hfault : ∀ error, faults error → (∃ error, faults error) ∨ ¬ broker.Names vault record :=
    fun error herror => .inl ⟨error, herror⟩
  simp only [execute, perform, setAlias, wp_bind, wp_acquireLock, wp_ofExcept, wp_requireCollection,
    wp_writeMetadata, wp_pure]
  refine ⟨hstart, hfault, hstart, either_intro (fun _ hvalid => ?_) fun error herror => .inr fun h => ?_⟩
  · refine ⟨hstart, hfault, either_intro (fun collection hcollection => ?_) fun error herror => .inr fun h => ?_⟩
    · refine ⟨hstart, either_intro (fun blob hblob => ?_) fun error herror => .inr fun h => ?_⟩
      · have hput : broker.MayName vault record (vault.put (.alias record.name) blob) := .inr ⟨blob, hblob, hvalid, rfl⟩
        exact ⟨hfault, hput, hput, trivial, blob, hblob, rfl⟩
      · obtain ⟨blob, hblob⟩ := h.encodes
        cases hblob.symm.trans herror
    · obtain ⟨collection, hcollection⟩ := Option.isSome_iff_exists.mp h.collection
      cases herror.symm.trans (collectionAt_eq_ok.mpr hcollection)
  · cases herror.symm.trans h.valid

theorem mayName_setAlias (record : AliasMetadata) (fates : Fates BackendError) :
    broker.MayName vault record (broker.respond ⟨.setAlias record, fates⟩ vault).state :=
  execute_state_of_wp (wp_execute_setAlias record vault) (within_any fates)

/-- The collections, and the aliases with the collections they name, are listed as before. -/
def SameTables (broker : Broker) (vault final : Vault) : Prop :=
  broker.view final .listCollections = broker.view vault .listCollections ∧
    broker.view final .listAliases = broker.view vault .listAliases

theorem SameTables.of_visible (hcollections : (broker.visible final).collections = (broker.visible vault).collections)
    (haliases : (broker.visible final).aliases = (broker.visible vault).aliases) : broker.SameTables vault final := by
  constructor
  · rw [view_listCollections, view_listCollections, collectionsOf, collectionsOf, collections_eq, collections_eq,
      hcollections]
  · rw [view_listAliases, view_listAliases, aliasesOf, aliasesOf, aliases_eq, aliases_eq, haliases]

/-- A vault in the middle of a creation: the new collection may be there, and the alias may name it or be
gone. -/
structure Drafted (broker : Broker) (vault : Vault) (record : AliasMetadata) (draft : Vault) : Prop where
  others : ∀ target, target ≠ .collection record.collectionId → target ≠ .alias record.name →
    draft.lookup target = vault.lookup target
  named : draft.lookup (.alias record.name) = vault.lookup (.alias record.name) ∨
    (∃ blob, encodeMetadata broker.aliasCodec record = .ok blob) ∧
      (broker.aliasKind.stored draft record.name = some record ∨ draft.lookup (.alias record.name) = none)

variable {record : AliasMetadata} {draft : Vault}

theorem Drafted.lookup_collection (hdraft : broker.Drafted vault record draft)
    (hwithout : draft.Without (broker.GoesWith draft record.collectionId) final) {id : Uuid}
    (hne : id ≠ record.collectionId) : final.lookup (.collection id) = vault.lookup (.collection id) := by
  have hkept : ¬ broker.GoesWith draft record.collectionId (.collection id) := hne
  rw [hwithout.lookup_of_not hkept, hdraft.others _ (fun h => hne (TargetName.collection.inj h)) nofun]

/-- An alias that the draft left alone is as it was, or it was not seen before either. -/
theorem lookup_alias_of_without (hfresh : vault.lookup (.collection record.collectionId) = none)
    (hwithout : draft.Without (broker.GoesWith draft record.collectionId) final)
    (hsame : draft.lookup (.alias name) = vault.lookup (.alias name)) :
    final.lookup (.alias name) = vault.lookup (.alias name) ∨
      final.lookup (.alias name) = none ∧ (broker.visible vault).aliases[name]? = none := by
  by_cases hgone : broker.GoesWith draft record.collectionId (.alias name)
  · refine .inr ⟨hwithout.removed _ hgone, ?_⟩
    obtain ⟨found, hfound, hcollection⟩ := hgone
    have hstored : broker.aliasKind.stored vault name = some found := by
      rw [← hfound]
      exact RecordKind.stored_congr hsame.symm
    rw [Option.eq_none_iff_forall_ne_some]
    intro other hother
    obtain ⟨hname, hresolves⟩ := visible_aliases.mp hother
    cases hstored.symm.trans hname
    rw [hcollection, stored_of_lookup_none hfresh] at hresolves
    cases hresolves
  · rw [hwithout.lookup_of_not hgone]
    exact .inl hsame

theorem Drafted.undone (hdraft : broker.Drafted vault record draft)
    (hfresh : vault.lookup (.collection record.collectionId) = none)
    (hwithout : draft.Without (broker.GoesWith draft record.collectionId) final)
    (hfree : (∃ blob, encodeMetadata broker.aliasCodec record = .ok blob) →
      (broker.visible vault).aliases[record.name]? = none) : broker.SameTables vault final := by
  have hcollection : ∀ id, final.lookup (.collection id) = vault.lookup (.collection id) := by
    intro id
    by_cases hid : id = record.collectionId
    · rw [hid, hfresh, hwithout.removed (.collection record.collectionId) rfl]
    · exact hdraft.lookup_collection hwithout hid
  have halias : ∀ name, final.lookup (.alias name) = vault.lookup (.alias name) ∨
      final.lookup (.alias name) = none ∧ (broker.visible vault).aliases[name]? = none := by
    intro name
    by_cases hname : name = record.name
    · subst hname
      rcases hdraft.named with hsame | ⟨hencodes, hstored | hnone⟩
      · exact lookup_alias_of_without hfresh hwithout hsame
      · exact .inr ⟨hwithout.removed (.alias record.name) ⟨record, hstored, rfl⟩, hfree hencodes⟩
      · exact .inr ⟨(hwithout.lacks.lookup _).elim (fun hsame => hsame.trans hnone) id, hfree hencodes⟩
    · refine lookup_alias_of_without hfresh hwithout (hdraft.others _ nofun fun h => hname ?_)
      exact TargetName.alias.inj h
  refine .of_visible (visible_collections_congr hcollection) ?_
  apply Std.ExtTreeMap.ext_getElem?
  intro name
  have hcollections : ∀ id, broker.collectionKind.stored final id = broker.collectionKind.stored vault id :=
    fun id => RecordKind.stored_congr (hcollection id)
  rcases halias name with hsame | ⟨hnone, hunseen⟩
  · ext found
    have hstored : broker.aliasKind.stored final name = broker.aliasKind.stored vault name :=
      RecordKind.stored_congr hsame
    rw [visible_aliases, visible_aliases, hstored, hcollections]
  · rw [hunseen, Option.eq_none_iff_forall_ne_some]
    intro found hfound
    cases (stored_of_lookup_none hnone).symm.trans (visible_aliases.mp hfound).1

/-- An alias that was written over is not put back. -/
theorem not_sameTables_of_alias {old : AliasMetadata} (hold : (broker.visible vault).aliases[name]? = some old)
    (hnone : final.lookup (.alias name) = none) : ¬ broker.SameTables vault final := by
  rintro ⟨-, haliases⟩
  rw [view_listAliases, view_listAliases] at haliases
  obtain ⟨hstored, hresolves⟩ := visible_aliases.mp hold
  have hname : old.name = name := RecordKind.key_of_stored hstored
  have hlisted : broker.aliasesOf final = broker.aliasesOf vault := by
    injection haliases with h
    exact ResponseBody.aliases.inj h
  have hmem : old ∈ broker.aliasesOf vault := mem_aliasesOf.mpr ⟨hname.symm ▸ hstored, hresolves⟩
  rw [← hlisted] at hmem
  have hfinal := (mem_aliasesOf.mp hmem).1
  rw [hname, stored_of_lookup_none hnone] at hfinal
  cases hfinal

end Broker

/-- The collection was created. -/
def CollectionCreated (log : List (ProviderCall × Bool)) : Prop :=
  ∃ collection, (ProviderCall.broker (.createCollection collection), true) ∈ log

/-- One of the later steps failed: an object was not registered, or the alias was not written as far as the
provider could tell. -/
def LaterStepFailed (name : String) (log : List (ProviderCall × Bool)) : Prop :=
  RegistrationFailed log ∨ (∃ record, (ProviderCall.broker (.setAlias record), false) ∈ log) ∨
    name ≠ "" ∧ validateAliasName name ≠ .ok ()

/-- The requests that undo earlier ones all succeeded. -/
structure RollbackSucceeded (log : List (ProviderCall × Bool)) : Prop where
  deleted : ∀ id, (ProviderCall.broker (.deleteCollection id), false) ∉ log
  unnamed : ∀ name, (ProviderCall.broker (.removeAlias name), false) ∉ log

/-- Calls whose failure is neither the failure of a step nor that of a rollback. -/
def ProviderCall.IsMinor : ProviderCall → Prop
  | .unregister _ | .emit _ | .broker .listAliases => True
  | _ => False

/-- The second record goes on from the first one with minor calls. -/
structure GoesOn (log later : List (ProviderCall × Bool)) : Prop where
  old : ∀ entry ∈ log, entry ∈ later
  new : ∀ entry ∈ later, entry ∈ log ∨ entry.1.IsMinor

theorem GoesOn.refl (log : List (ProviderCall × Bool)) : GoesOn log log := ⟨fun _ h => h, fun _ h => .inl h⟩

variable {log later : List (ProviderCall × Bool)}

theorem GoesOn.cons (h : GoesOn log later) {request : ProviderCall} (hrequest : request.IsMinor) (succeeded : Bool) :
    GoesOn log ((request, succeeded) :: later) := by
  refine ⟨fun entry hentry => List.mem_cons_of_mem _ (h.old entry hentry), fun entry hentry => ?_⟩
  rcases List.mem_cons.mp hentry with rfl | hentry
  · exact .inr hrequest
  · exact h.new entry hentry

theorem GoesOn.mem (h : GoesOn log later) {request : ProviderCall} {succeeded : Bool} (hrequest : ¬ request.IsMinor) :
    (request, succeeded) ∈ later ↔ (request, succeeded) ∈ log :=
  ⟨fun hmem => (h.new _ hmem).resolve_right hrequest, h.old _⟩

theorem GoesOn.laterStepFailed (h : GoesOn log later) {name : String} :
    LaterStepFailed name later ↔ LaterStepFailed name log := by
  refine or_congr (exists_congr fun path => exists_congr fun object => h.mem id) (or_congr ?_ Iff.rfl)
  exact exists_congr fun record => h.mem id

theorem GoesOn.rollbackSucceeded (h : GoesOn log later) (hlater : RollbackSucceeded later) : RollbackSucceeded log :=
  ⟨fun id hmem => hlater.deleted id (h.old _ hmem), fun name hmem => hlater.unnamed name (h.old _ hmem)⟩

namespace Broker

open Action SecretService

variable {broker : Broker} {vault draft : Vault} {log : List (ProviderCall × Bool)} {name : String}

theorem leads_minor {δ α : Type} {action : Action ProviderCall ProviderReply ProviderFault δ α}
    (hcalls : Calls ProviderCall.IsMinor action) :
    broker.Leads action (fun _ final => final.1 = vault ∧ GoesOn log final.2)
      (fun _ final => final.1 = vault ∧ GoesOn log final.2) (vault, log) := by
  refine ensures_of_calls (fun final : Witnessed => final.1 = vault ∧ GoesOn log final.2)
    (fun request hrequest choice final hfinal => ?_) hcalls ⟨rfl, .refl log⟩
  obtain ⟨rfl, hlog⟩ := hfinal
  refine ⟨?_, hlog.cons hrequest _⟩
  cases request with
  | broker operation =>
      cases operation with
      | listAliases =>
          obtain ⟨⟨fates, fault⟩, lost⟩ := choice
          cases lost with
          | none => exact respond_read_state .listAliases
          | some error => exact respond_read_state .listAliases
      | _ => exact hrequest.elim
  | register path object => exact hrequest.elim
  | _ => rfl

theorem leads_tryUnregister (path : String) :
    broker.Leads (tryUnregister path) (fun _ final => final.1 = vault ∧ GoesOn log final.2) (fun _ _ => False)
      (vault, log) := by
  have hunregister : broker.Leads (unregister path (.failed "")) (fun _ final => final.1 = vault ∧ GoesOn log final.2)
      (fun _ final => final.1 = vault ∧ GoesOn log final.2) (vault, log) :=
    leads_minor (calls_perform trivial)
  exact ensures_bind.mpr (ensures_attempt.mpr (ensures_mono (fun _ _ h => (ensures_pure _).mpr h)
    (fun _ _ h => (ensures_pure _).mpr h) hunregister))

/-! The ways back. -/

section Rollback

variable {id : Uuid}

variable (broker vault) in
/-- What a rollback that succeeds must end with. -/
def Restored (final : Witnessed) : Prop := RollbackSucceeded final.2 → broker.SameTables vault final.1

variable (hfresh : vault.lookup (.collection id) = none)
  (hfree : (∃ blob, encodeMetadata broker.aliasCodec ⟨1, name, id⟩ = .ok blob) →
    (broker.visible vault).aliases[name]? = none)

include hfresh hfree

theorem leads_delete (hdraft : RollbackSucceeded log → broker.Drafted vault ⟨1, name, id⟩ draft) :
    broker.Leads (ignore (Provider.deleteCollection id)) (fun _ => broker.Restored vault)
      (fun _ _ => False) (draft, log) := by
  have hreturned : ∀ fates body, (broker.respond ⟨.deleteCollection id, fates⟩ draft).outcome =
      .returned (.ok body) → body = .empty ∧ broker.Restored vault
        ((broker.respond ⟨.deleteCollection id, fates⟩ draft).state,
          (.broker (.deleteCollection id), true) :: log) := by
    intro fates body hbody
    obtain ⟨hempty, -, hwithout⟩ :=
      execute_of_wp (wp_execute_deleteCollection id draft) (within_any fates) hbody
    refine ⟨hempty, fun hsucceeded => (hdraft ?_).undone hfresh hwithout hfree⟩
    exact ⟨fun other hmem => hsucceeded.deleted other (List.mem_cons_of_mem _ hmem),
      fun other hmem => hsucceeded.unnamed other (List.mem_cons_of_mem _ hmem)⟩
  refine leads_ignore (ensures_bind.mpr (leads_response (fun fates body hbody => ?_) fun fates error hsucceeded => ?_))
  · obtain ⟨rfl, hrestored⟩ := hreturned fates body hbody
    exact (ensures_pure _).mpr hrestored
  · exact absurd List.mem_cons_self (hsucceeded.deleted id)

theorem leads_undo (path : String) (hdraft : RollbackSucceeded log → broker.Drafted vault ⟨1, name, id⟩ draft) :
    broker.Leads (do
        tryUnregister path
        ignore (Provider.deleteCollection id))
      (fun _ => broker.Restored vault) (fun _ _ => False) (draft, log) := by
  refine ensures_bind.mpr (ensures_mono (fun _ middle hmiddle => ?_) (fun _ _ h => h) (leads_tryUnregister path))
  obtain ⟨_, log⟩ := middle
  obtain ⟨rfl, hlog⟩ := hmiddle
  exact leads_delete hfresh hfree fun hsucceeded => hdraft (hlog.rollbackSucceeded hsucceeded)

omit hfresh hfree in
theorem drop_of_removeAlias {fates : Fates BackendError} {body : ResponseBody}
    (h : (broker.respond ⟨.removeAlias name, fates⟩ draft).outcome = .returned (.ok body)) :
    body = .empty ∧ (broker.respond ⟨.removeAlias name, fates⟩ draft).state = draft.drop (.alias name) := by
  refine of_respond_ok (fun body rest => body = .empty ∧ rest = draft.drop (.alias name)) h ?_
  simp only [perform, removeAlias, wp_bind, wp_ofExcept, wp_readCredential]
  refine ⟨trivial, either_intro (fun _ _ => ⟨trivial, fun _ _ => trivial, ?_⟩) fun _ _ => trivial⟩
  cases draft.lookup (.alias name) with
  | none => exact ⟨trivial, trivial⟩
  | some blob =>
      simp only [Option.isNone_some, Bool.false_eq_true, if_false, wp_bind, wp_deleteCredential, wp_pure]
      exact ⟨trivial, fun _ _ => trivial, trivial, trivial, trivial, trivial⟩

/-- The way back from an alias whose object was not made. -/
theorem leads_unname (path : String) (hdraft : broker.Drafted vault ⟨1, name, id⟩ draft)
    (hencodes : ∃ blob, encodeMetadata broker.aliasCodec ⟨1, name, id⟩ = .ok blob) :
    broker.Leads (do
        ignore (Provider.setAlias name none)
        tryUnregister path
        ignore (Provider.deleteCollection id))
      (fun _ => broker.Restored vault) (fun _ _ => False) (draft, log) := by
  have hunnamed : broker.Drafted vault ⟨1, name, id⟩ (draft.drop (.alias name)) := by
    refine ⟨fun target hcollection halias => ?_, .inr ⟨hencodes, .inr (Vault.lookup_drop_self _ _)⟩⟩
    rw [Vault.lookup_drop_of_ne (Ne.symm halias), hdraft.others target hcollection halias]
  have hremove : broker.Leads (ignore (Provider.setAlias name none))
      (fun _ final => RollbackSucceeded final.2 → broker.Drafted vault ⟨1, name, id⟩ final.1)
      (fun _ _ => False) (draft, log) := by
    refine leads_ignore (ensures_bind.mpr
      (ensures_mono (fun _ middle hmiddle => ?_) (fun _ middle hmiddle _ => ?_) leads_check))
    · rw [hmiddle]
      refine ensures_bind.mpr (leads_response (fun fates body hbody => ?_) fun fates error hsucceeded => ?_)
      · obtain ⟨rfl, hstate⟩ := drop_of_removeAlias hbody
        refine (ensures_pure _).mpr fun _ => ?_
        rw [hstate]
        exact hunnamed
      · exact absurd List.mem_cons_self (hsucceeded.unnamed name)
    · rw [hmiddle]
      exact hdraft
  refine ensures_bind.mpr (ensures_mono (fun _ middle hmiddle => ?_) (fun _ _ h => h) hremove)
  exact leads_undo hfresh hfree path hmiddle

end Rollback

/-! The steps. -/

variable {record : AliasMetadata} {properties : BTreeMap String DbusValue}

theorem drafted_put (blob : Blob) : broker.Drafted vault record (vault.put (.collection record.collectionId) blob) := by
  refine ⟨fun target hcollection _ => Vault.lookup_put_of_ne (Ne.symm hcollection), .inl ?_⟩
  exact Vault.lookup_put_of_ne nofun

theorem MayName.drafted {named : Vault} (hdraft : broker.Drafted vault record draft)
    (h : broker.MayName draft record named) : broker.Drafted vault record named := by
  rcases h with rfl | ⟨blob, hblob, hvalid, rfl⟩
  · exact hdraft
  · refine ⟨fun target hcollection halias => ?_, .inr ⟨⟨blob, hblob⟩, .inl ?_⟩⟩
    · rw [Vault.lookup_put_of_ne (Ne.symm halias), hdraft.others target hcollection halias]
    · exact RecordKind.stored_put_self (broker.aliasKind.load_of_encode hvalid hblob)

theorem leads_setAlias {id : Uuid} (hdraft : broker.Drafted vault ⟨1, name, id⟩ draft) :
    broker.Leads (Provider.setAlias name (some id))
      (fun _ final => (validateAliasName name = .ok () ∧
        ∃ blob, encodeMetadata broker.aliasCodec ⟨1, name, id⟩ = .ok blob) ∧
        broker.Drafted vault ⟨1, name, id⟩ final.1 ∧ final.2 = (.broker (.setAlias ⟨1, name, id⟩), true) :: log)
      (fun _ final => broker.Drafted vault ⟨1, name, id⟩ final.1) (draft, log) := by
  have hnamed : ∀ fates, broker.Drafted vault ⟨1, name, id⟩
      (broker.respond ⟨.setAlias ⟨1, name, id⟩, fates⟩ draft).state :=
    fun fates => (mayName_setAlias ⟨1, name, id⟩ fates).drafted hdraft
  cases hvalid : validateAliasName name with
  | error error =>
      refine ensures_bind.mpr ((ensures_ofExcept _).mpr ?_)
      rw [hvalid]
      exact hdraft
  | ok value =>
      refine ensures_bind.mpr ((ensures_ofExcept _).mpr ?_)
      rw [hvalid]
      refine ensures_bind.mpr (leads_response (fun fates body hbody => ?_) fun fates _ => hnamed fates)
      obtain ⟨rfl, blob, hblob, -⟩ :=
        execute_of_wp (wp_execute_setAlias ⟨1, name, id⟩ draft) (within_any fates) hbody
      exact (ensures_pure _).mpr ⟨⟨rfl, blob, hblob⟩, hnamed fates, rfl⟩

theorem leads_createCollection {label : String} {draws : Draws} :
    broker.Leads (Provider.createCollection label draws)
      (fun created final => created = ⟨1, draws.id, label, draws.now, draws.now⟩ ∧ broker.Admits vault created ∧
        ∃ blob, final = (vault.put (.collection draws.id) blob, [(.broker (.createCollection created), true)]))
      (fun _ final => ¬ CollectionCreated final.2) (vault, []) := by
  refine ensures_bind.mpr (ensures_mono (fun _ middle hmiddle => ?_) (fun _ middle hmiddle => ?_) leads_check)
  · rw [hmiddle]
    refine ensures_bind.mpr (leads_response (fun fates body hbody => ?_) fun fates error hcreated => ?_)
    · obtain ⟨rfl, hadmits, blob, -, hstate⟩ := put_of_createCollection hbody
      refine (ensures_pure _).mpr ⟨rfl, hadmits, blob, ?_⟩
      rw [hstate]
    · obtain ⟨collection, hmem⟩ := hcreated
      cases List.mem_singleton.mp hmem
  · rw [hmiddle]
    rintro ⟨collection, hmem⟩
    cases hmem

/-- Where no step has failed, the calls that follow make no difference. -/
theorem leads_tail {α : Type} {action : HandlerAction α} (hcalls : Calls ProviderCall.IsMinor action)
    (hnot : ¬ LaterStepFailed name log) :
    broker.Leads action (fun _ final => ¬ LaterStepFailed name final.2)
      (fun _ final => CollectionCreated final.2 → LaterStepFailed name final.2 → broker.Restored vault final)
      (draft, log) :=
  ensures_mono (fun _ _ h => mt h.2.laterStepFailed.mp hnot)
    (fun _ _ h _ hfailed => absurd (h.2.laterStepFailed.mp hfailed) hnot) (leads_minor hcalls)

theorem not_laterStepFailed_created (collection : CollectionMetadata) (path : String) (object : BusObject)
    (hname : name ≠ "" → validateAliasName name = .ok ()) :
    ¬ LaterStepFailed name [(.register path object, true), (.broker (.createCollection collection), true)] := by
  rintro (⟨_, _, hmem⟩ | ⟨_, hmem⟩ | ⟨hne, hinvalid⟩)
  · simp at hmem
  · simp at hmem
  · exact hinvalid (hname hne)

theorem not_laterStepFailed_cons (request : ProviderCall) (h : ¬ LaterStepFailed name log) :
    ¬ LaterStepFailed name ((request, true) :: log) := by
  rintro (⟨path, object, hmem⟩ | ⟨record, hmem⟩ | hinvalid)
  · rcases List.mem_cons.mp hmem with heq | hmem
    · cases heq
    · exact h (.inl ⟨path, object, hmem⟩)
  · rcases List.mem_cons.mp hmem with heq | hmem
    · cases heq
    · exact h (.inr (.inl ⟨record, hmem⟩))
  · exact h (.inr (.inr hinvalid))

theorem calls_isMinor_aliasesChanged : Calls ProviderCall.IsMinor aliasesChanged :=
  calls_aliasesChanged (fun _ => trivial) trivial

theorem leads_registerAlias {id : Uuid} (hfresh : vault.lookup (.collection id) = none)
    (hfree : (∃ blob, encodeMetadata broker.aliasCodec ⟨1, name, id⟩ = .ok blob) →
      (broker.visible vault).aliases[name]? = none) (path named : String)
    (hencodes : ∃ blob, encodeMetadata broker.aliasCodec ⟨1, name, id⟩ = .ok blob)
    (hdraft : broker.Drafted vault ⟨1, name, id⟩ draft) (hnot : ¬ LaterStepFailed name log) :
    broker.Leads (orUndo (registerAlias named id fun error =>
        .failed ("unable to register collection alias: " ++ error)) do
      ignore (Provider.setAlias name none)
      tryUnregister path
      ignore (Provider.deleteCollection id))
      (fun _ final => ¬ LaterStepFailed name final.2) (fun _ => broker.Restored vault) (draft, log) := by
  refine leads_orUndo (ensures_bind.mpr (ensures_mono (fun _ middle hmiddle => ?_) (fun _ _ h => h.elim)
    (leads_tryUnregister named)))
  obtain ⟨_, log⟩ := middle
  obtain ⟨rfl, hlog⟩ := hmiddle
  refine ensures_mono (fun _ final hfinal => ?_) (fun error start hstart => ?_) leads_register
  · rw [hfinal]
    exact not_laterStepFailed_cons _ (mt hlog.laterStepFailed.mp hnot)
  · rw [hstart]
    exact ensures_mono (fun _ _ h => h) (fun _ _ h => h.elim) (leads_unname hfresh hfree path hdraft hencodes)

theorem leads_handler {draws : Draws}
    (hfree : ∀ label, collectionLabel properties = .ok label →
      broker.Admits vault ⟨1, draws.id, label, draws.now, draws.now⟩ →
      (∃ blob, encodeMetadata broker.aliasCodec ⟨1, name, draws.id⟩ = .ok blob) →
      (broker.visible vault).aliases[name]? = none) :
    broker.Leads (SecretService.createCollection properties name draws) (fun _ final => ¬ LaterStepFailed name final.2)
      (fun _ final => CollectionCreated final.2 → LaterStepFailed name final.2 → broker.Restored vault final)
      (vault, []) := by
  refine ensures_bind.mpr ((ensures_ofExcept _).mpr ?_)
  cases hlabel : collectionLabel properties with
  | error error =>
      rintro ⟨collection, hmem⟩
      cases hmem
  | ok label =>
      refine ensures_bind.mpr (ensures_mapError.mpr (ensures_mono (fun created middle hmiddle => ?_)
        (fun _ _ h hcreated => absurd hcreated h) leads_createCollection))
      obtain ⟨rfl, hadmits, blob, rfl⟩ := hmiddle
      have hfree := hfree label hlabel hadmits
      have hdraft : broker.Drafted vault ⟨1, name, draws.id⟩ (vault.put (.collection draws.id) blob) := drafted_put blob
      refine ensures_bind.mpr (leads_orUndo (ensures_mono (fun _ start hstart => ?_) (fun error start hstart => ?_)
        leads_register))
      · rw [hstart]
        have hlast : Calls ProviderCall.IsMinor (do
            emit (.collectionCreated draws.id) fun _ => .failed "unable to emit collection signal"
            pure (collectionPath draws.id, "/") : HandlerAction (String × String)) :=
          calls_bind (calls_perform trivial) fun _ => calls_pure _
        dsimp only
        split_ifs with hname
        · refine ensures_bind.mpr (leads_orUndo (ensures_mapError.mpr (ensures_mono (fun _ named hnamed => ?_)
            (fun error start hstart => ?_) (leads_setAlias hdraft))))
          · obtain ⟨named, log⟩ := named
            obtain ⟨⟨hvalid, hencodes⟩, hnamed, rfl⟩ := hnamed
            have hnot := not_laterStepFailed_cons (.broker (.setAlias ⟨1, name, draws.id⟩))
              (not_laterStepFailed_created ⟨1, draws.id, label, draws.now, draws.now⟩ (collectionPath draws.id)
                (.collection draws.id) fun _ => hvalid)
            cases aliasPath name with
            | none => exact leads_tail (calls_bind calls_isMinor_aliasesChanged fun _ => hlast) hnot
            | some path =>
                refine ensures_bind.mpr (ensures_mono (fun _ final hfinal => ?_) (fun _ _ h _ _ => h)
                  (leads_registerAlias hadmits.fresh hfree _ path hencodes hnamed hnot))
                exact leads_tail (calls_bind calls_isMinor_aliasesChanged fun _ => hlast) hfinal
          · refine ensures_mono (fun _ _ h _ _ => h) (fun _ _ h => h.elim)
              (leads_undo hadmits.fresh hfree (collectionPath draws.id) fun _ => hstart)
        · exact leads_tail hlast (not_laterStepFailed_created _ _ _ fun hne => absurd hne hname)
      · rw [hstart]
        exact ensures_mono (fun _ _ h _ _ => h) (fun _ _ h => h.elim) (leads_delete hadmits.fresh hfree fun _ => hdraft)

/-! The run in which the answer to the request for the alias is lost. -/

theorem runs_register (path : String) (object : BusObject) (error : String → SecretServiceError) :
    broker.Runs (register path object error) (vault, log) (.ok ()) (vault, (.register path object, true) :: log) :=
  ends_perform.mpr ⟨⟨⟨undisturbed, none⟩, none⟩, trivial, rfl, rfl⟩

theorem runs_orUndo_ok {α : Type} {action : HandlerAction α} {undo : HandlerAction Unit} {value : α}
    {start final : Witnessed} (h : broker.Runs action start (.ok value) final) :
    broker.Runs (orUndo action undo) start (.ok value) final :=
  ends_bind_of_ok (ends_attempt.mpr ⟨_, rfl, h⟩) (.done _ _)

/-- The alias names another collection, and can be written over. -/
structure Overwrites (broker : Broker) (vault : Vault) (properties : BTreeMap String DbusValue) (name : String)
    (draws : Draws) : Prop where
  admits : ∃ label, collectionLabel properties = .ok label ∧
    broker.Admits vault ⟨1, draws.id, label, draws.now, draws.now⟩
  encodes : ∃ blob, encodeMetadata broker.aliasCodec ⟨1, name, draws.id⟩ = .ok blob
  named : (broker.visible vault).aliases[name]?.isSome

/-- An alias that can be read can be written for another collection. -/
theorem validateAlias_of_visible {id : Uuid} (hold : (broker.visible vault).aliases[name]? = some record)
    (hid : id ≠ .nil) : validateAlias ⟨1, name, id⟩ = .ok () := by
  have hstored := (visible_aliases.mp hold).1
  have hname : record.name = name := RecordKind.key_of_stored hstored
  obtain ⟨-, htext, -⟩ := validateAlias_eq_ok.mp (RecordKind.check_of_stored hstored)
  exact validateAlias_eq_ok.mpr ⟨rfl, hname ▸ htext, hid⟩

theorem calm_createCollection {collection : CollectionMetadata} (hadmits : broker.Admits vault collection) :
    (broker.respond ⟨.createCollection collection, undisturbed⟩ vault).outcome =
      .returned (.ok (.collection collection)) ∧
      broker.collectionKind.stored (broker.respond ⟨.createCollection collection, undisturbed⟩ vault).state
        collection.id =
        some collection := by
  obtain ⟨_, hcreated, rfl, -, blob, hblob, hstate⟩ := respond_of_wp (wp_mono (fun _ _ h => h)
    (fun _ _ h => h.elim (fun h => h.elim fun _ h => h) fun h => h hadmits) (fun _ h => h)
    (wp_execute_createCollection collection vault))
  refine ⟨hcreated, ?_⟩
  rw [hstate]
  exact RecordKind.stored_put_self (broker.collectionKind.load_of_encode hadmits.valid hblob)

theorem calm_setAlias (hnames : broker.Names vault record) :
    broker.aliasKind.stored (broker.respond ⟨.setAlias record, undisturbed⟩ vault).state record.name = some record ∧
      broker.collectionKind.stored (broker.respond ⟨.setAlias record, undisturbed⟩ vault).state record.collectionId =
        broker.collectionKind.stored vault record.collectionId := by
  obtain ⟨_, -, -, blob, hblob, hstate⟩ := respond_of_wp (wp_mono (fun _ _ h => h)
    (fun _ _ h => h.elim (fun h => h.elim fun _ h => h) fun h => h hnames) (fun _ _ => trivial)
    (wp_execute_setAlias record vault))
  rw [hstate]
  exact ⟨RecordKind.stored_put_self (broker.aliasKind.load_of_encode hnames.valid hblob),
    RecordKind.stored_put_of_ne nofun⟩

theorem calm_deleteCollection (hstored : broker.aliasKind.stored vault name = some record)
    (hcollection : (broker.collectionKind.stored vault record.collectionId).isSome) :
    (broker.respond ⟨.deleteCollection record.collectionId, undisturbed⟩ vault).outcome = .returned (.ok .empty) ∧
      (broker.respond ⟨.deleteCollection record.collectionId, undisturbed⟩ vault).state.lookup
        (.alias name) = none := by
  have hdeleted := respond_deleteCollection hcollection
  obtain ⟨-, -, hwithout⟩ :=
    execute_of_wp (wp_execute_deleteCollection record.collectionId vault) (within_any undisturbed) hdeleted
  exact ⟨hdeleted, hwithout.removed (.alias name) ⟨record, hstored, rfl⟩⟩

/-- The collection is created and its alias written, but the answer to the alias request is lost. -/
def lostAliasSteps (name label : String) (draws : Draws) : List BrokerStep :=
  [⟨.createCollection ⟨1, draws.id, label, draws.now, draws.now⟩, undisturbed⟩,
    ⟨.setAlias ⟨1, name, draws.id⟩, undisturbed⟩, ⟨.deleteCollection draws.id, undisturbed⟩]

def lostAliasLog (name label : String) (draws : Draws) : List (ProviderCall × Bool) :=
  [(.broker (.deleteCollection draws.id), true), (.unregister (collectionPath draws.id), true),
    (.broker (.setAlias ⟨1, name, draws.id⟩), false),
    (.register (collectionPath draws.id) (.collection draws.id), true),
    (.broker (.createCollection ⟨1, draws.id, label, draws.now, draws.now⟩), true)]

theorem lostAliasLog_fails (name label : String) (draws : Draws) :
    CollectionCreated (lostAliasLog name label draws) ∧ LaterStepFailed name (lostAliasLog name label draws) ∧
      RollbackSucceeded (lostAliasLog name label draws) := by
  refine ⟨⟨⟨1, draws.id, label, draws.now, draws.now⟩, ?_⟩, .inr (.inl ⟨⟨1, name, draws.id⟩, ?_⟩), fun id => ?_,
    fun other => ?_⟩
  all_goals simp [lostAliasLog]

theorem runs_lostAlias {draws : Draws} {label : String} (hlabel : collectionLabel properties = .ok label)
    (hadmits : broker.Admits vault ⟨1, draws.id, label, draws.now, draws.now⟩)
    (hvalid : validateAlias ⟨1, name, draws.id⟩ = .ok ())
    (hencodes : ∃ blob, encodeMetadata broker.aliasCodec ⟨1, name, draws.id⟩ = .ok blob) :
    broker.Runs (SecretService.createCollection properties name draws) (vault, []) (.error (.ofProvider .timeout))
        (broker.after (lostAliasSteps name label draws) vault, lostAliasLog name label draws) ∧
      (broker.after (lostAliasSteps name label draws) vault).lookup (.alias name) = none := by
  obtain ⟨-, -, htext⟩ := validateCollection_eq_ok.mp hadmits.valid
  obtain ⟨hcreated, hcollection⟩ := calm_createCollection hadmits
  have hnames : broker.Names _ ⟨1, name, draws.id⟩ := ⟨hvalid, Option.isSome_iff_exists.mpr ⟨_, hcollection⟩, hencodes⟩
  obtain ⟨halias, hkept⟩ := calm_setAlias hnames
  obtain ⟨hdeleted, hgone⟩ := calm_deleteCollection halias (hkept ▸ hnames.collection)
  obtain ⟨-, hname, -⟩ := validateAlias_eq_ok.mp hvalid
  have hnonempty : name ≠ "" := hname.nonempty rfl
  refine ⟨?_, hgone⟩
  rw [SecretService.createCollection, hlabel]
  refine ends_bind_of_ok (.done _ _) ?_
  refine ends_bind_of_ok (ends_mapError_ok.mpr (ends_bind_of_ok (runs_check (validateText_eq_ok.mpr htext))
    (ends_bind_of_ok (runs_response hcreated) (.done _ _)))) ?_
  refine ends_bind_of_ok (runs_orUndo_ok (runs_register _ _ _)) ?_
  rw [if_pos hnonempty]
  refine ends_bind_of_error (runs_orUndo (ends_bind.mpr ⟨.error .timeout, _, ?_, .done _ _⟩)
    (ends_bind_of_ok (runs_tryUnregister _) (runs_ignore (ends_bind_of_ok (runs_response hdeleted) (.done _ _)))))
  exact ends_bind_of_ok (runs_check (validateText_eq_ok.mpr hname)) (ends_bind_of_error (runs_response_lost _ _))

theorem exists_run_of_overwrites {draws : Draws} (h : broker.Overwrites vault properties name draws) :
    ∃ error final log, broker.Runs (SecretService.createCollection properties name draws) (vault, []) (.error error)
        (final, log) ∧ CollectionCreated log ∧ LaterStepFailed name log ∧ RollbackSucceeded log ∧
      ¬ broker.SameTables vault final := by
  obtain ⟨⟨label, hlabel, hadmits⟩, hencodes, hnamed⟩ := h
  obtain ⟨old, hold⟩ := Option.isSome_iff_exists.mp hnamed
  obtain ⟨-, hid, -⟩ := validateCollection_eq_ok.mp hadmits.valid
  obtain ⟨hrun, hgone⟩ := runs_lostAlias hlabel hadmits (validateAlias_of_visible hold hid) hencodes
  obtain ⟨hcreated, hfailed, hsucceeded⟩ := lostAliasLog_fails name label draws
  exact ⟨_, _, _, hrun, hcreated, hfailed, hsucceeded, not_sameTables_of_alias hold hgone⟩

/-- Where a step of CreateCollection fails after the collection was created and the rollback succeeds, the call
fails and the collections and aliases are listed as before, exactly if the alias does not name a collection
already. -/
theorem failed_createCollection_is_undone_iff (broker : Broker) (vault : Vault)
    (properties : BTreeMap String DbusValue) (name : String) (draws : Draws) :
    (∀ result final log, broker.Runs (SecretService.createCollection properties name draws)
      (vault, []) result (final, log) →
      CollectionCreated log → LaterStepFailed name log → RollbackSucceeded log →
        (∃ error, result = .error error) ∧ broker.SameTables vault final) ↔
      ¬ broker.Overwrites vault properties name draws := by
  constructor
  · intro h hoverwrites
    obtain ⟨error, final, log, hrun, hcreated, hfailed, hsucceeded, hchanged⟩ := exists_run_of_overwrites hoverwrites
    exact hchanged (h _ final log hrun hcreated hfailed hsucceeded).2
  · intro hkeeps result final log hrun hcreated hfailed hsucceeded
    have hfree : ∀ label, collectionLabel properties = .ok label →
        broker.Admits vault ⟨1, draws.id, label, draws.now, draws.now⟩ →
        (∃ blob, encodeMetadata broker.aliasCodec ⟨1, name, draws.id⟩ = .ok blob) →
        (broker.visible vault).aliases[name]? = none := by
      intro label hlabel hadmits hencodes
      by_contra hnamed
      exact hkeeps ⟨⟨label, hlabel, hadmits⟩, hencodes, Option.isSome_iff_ne_none.mpr hnamed⟩
    have hleads := leads_handler hfree result (final, log) hrun
    cases result with
    | ok paths => exact absurd hfailed hleads
    | error error => exact ⟨⟨error, rfl⟩, hleads hcreated hfailed hsucceeded⟩

/-- A vault with a collection and an alias that names it. -/
def aliasSteps : List BrokerStep :=
  calmSteps [.createCollection ⟨1, ⟨7⟩, "login", 5, 5⟩, .setAlias ⟨1, "default", ⟨7⟩⟩]

theorem overwrites_default : (cborBroker inMemoryBackend).Overwrites ((cborBroker inMemoryBackend).after aliasSteps ∅) ∅
    "default" ⟨6, ⟨3⟩, ⟨2⟩, fun _ => none⟩ := by
  have hvisible : (cborBroker inMemoryBackend).visible ((cborBroker inMemoryBackend).after aliasSteps ∅) = _ :=
    (cborBroker inMemoryBackend).visible_calm _
  have hsound : (cborBroker inMemoryBackend).Sound ((cborBroker inMemoryBackend).after aliasSteps ∅) :=
    sound_empty.after aliasSteps
  have hfresh : ((cborBroker inMemoryBackend).visible ((cborBroker inMemoryBackend).after aliasSteps ∅)).collections[
      (⟨3⟩ : Uuid)]? = none := by
    rw [hvisible]
    decide +kernel
  refine ⟨⟨"Default", rfl, by decide +kernel, ?_, ?_⟩, ?_, ?_⟩
  · exact hsound.collection_fresh_of_visible hfresh
  · exact ⟨_, (by decide +kernel :
      encodeMetadata (cborBroker inMemoryBackend).collectionCodec ⟨1, ⟨3⟩, "Default", 6, 6⟩ =
      .ok ((cborCodec CollectionMetadata.decodes).intoWriter ⟨1, ⟨3⟩, "Default", 6, 6⟩).get!)⟩
  · exact ⟨_, (by decide +kernel : encodeMetadata (cborBroker inMemoryBackend).aliasCodec ⟨1, "default", ⟨3⟩⟩ =
      .ok ((cborCodec AliasMetadata.decodes).intoWriter ⟨1, "default", ⟨3⟩⟩).get!)⟩
  · rw [hvisible]
    decide +kernel

/-- The alias named a collection before; when the answer to its request is lost, it is gone. -/
theorem failed_createCollection_loses_alias :
    let broker := cborBroker inMemoryBackend
    let vault := broker.after aliasSteps ∅
    ∃ error final log, broker.Runs (SecretService.createCollection ∅ "default" ⟨6, ⟨3⟩, ⟨2⟩, fun _ => none⟩) (vault, [])
        (.error error) (final, log) ∧ CollectionCreated log ∧ LaterStepFailed "default" log ∧ RollbackSucceeded log ∧
      ¬ broker.SameTables vault final :=
  exists_run_of_overwrites overwrites_default

/-- The alias of the new collection is written and taken back, and the older one stays. -/
theorem failed_createCollection_is_undone_beside_alias :
    let broker := cborBroker inMemoryBackend
    let vault := broker.after aliasSteps ∅
    let draws : Draws := ⟨6, ⟨3⟩, ⟨2⟩, fun _ => none⟩
    ∃ error final log, broker.Runs (SecretService.createCollection ∅ "work" draws) (vault, []) (.error error)
        (final, log) ∧ final = broker.after (lostAliasSteps "work" "Default" draws) vault ∧
      (broker.visible vault).aliases["default"]? = some ⟨1, "default", ⟨7⟩⟩ ∧ broker.SameTables vault final := by
  intro broker vault draws
  have hvisible : broker.visible vault = _ := broker.visible_calm _
  obtain ⟨label, hlabel, hadmits⟩ := overwrites_default.admits
  obtain rfl : "Default" = label := Except.ok.inj hlabel
  have hencodes : ∃ blob, encodeMetadata broker.aliasCodec ⟨1, "work", ⟨3⟩⟩ = .ok blob :=
    ⟨_, (by decide +kernel : encodeMetadata broker.aliasCodec ⟨1, "work", ⟨3⟩⟩ =
      .ok ((cborCodec AliasMetadata.decodes).intoWriter ⟨1, "work", ⟨3⟩⟩).get!)⟩
  have hvalid : validateAlias ⟨1, "work", ⟨3⟩⟩ = .ok () := by decide +kernel
  obtain ⟨hrun, -⟩ := runs_lostAlias hlabel hadmits hvalid hencodes
  obtain ⟨hcreated, hfailed, hsucceeded⟩ := lostAliasLog_fails "work" "Default" draws
  have hkeeps : ¬ broker.Overwrites vault ∅ "work" draws := by
    intro h
    have hnamed := h.named
    rw [hvisible] at hnamed
    revert hnamed
    decide +kernel
  have halias : (broker.visible vault).aliases["default"]? = some ⟨1, "default", ⟨7⟩⟩ := by
    rw [hvisible]
    decide +kernel
  exact ⟨_, _, _, hrun, rfl, halias, ((failed_createCollection_is_undone_iff broker vault ∅ "work" draws).mpr hkeeps
    _ _ _ hrun hcreated hfailed hsucceeded).2⟩

end Broker

end WincredLibsecret
