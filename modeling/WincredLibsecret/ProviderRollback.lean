import WincredLibsecret.BrokerIdeal
import WincredLibsecret.ProviderSecrets

/-! Creations that fail half way. The provider writes to the vault first and makes its D-Bus objects later,
and undoes what it wrote if a later step fails. The answer of the broker can be lost after the request was
carried out. What was there before survives all this, unless the request itself has already replaced it. -/

namespace WincredLibsecret

open Effect Effect.Action

namespace Broker

variable {broker : Broker} {vault rest : Vault} {item found : ItemMetadata} {secret kept : SecretBytes} {id : Uuid}

/-- GetItem answers the item and its secret. -/
def Readable (broker : Broker) (vault : Vault) (id : Uuid) (item : ItemMetadata) (secret : SecretBytes) : Prop :=
  broker.view vault (.getItem id true) = .ok (.item item (some secret))

theorem readable_iff :
    broker.Readable vault id item secret ↔ (broker.visible vault).items[id]? = some (item, secret) := by
  rw [Readable, view_getItem, visible_items, ← itemAt_eq_ok, ← secretAt_eq_some, secretAt, toOption_eq_some]
  constructor
  · intro h
    cases hitem : broker.itemAt vault id with
    | error error =>
        rw [hitem] at h
        cases h
    | ok stored =>
        rw [hitem] at h
        simp only [bind, Except.bind, if_true] at h
        cases hsecret : loadSecret (vault.lookup (.itemSecret id stored.currentGeneration)) with
        | error error =>
            rw [hsecret] at h
            cases h
        | ok bytes =>
            rw [hsecret] at h
            cases h
            exact ⟨rfl, hsecret⟩
  · rintro ⟨hitem, hsecret⟩
    simp only [hitem, bind, Except.bind, if_true, hsecret]

theorem SameAt.visible (h : SameAt id vault rest) :
    (broker.visible rest).items[id]? = (broker.visible vault).items[id]? := by
  ext ⟨item, secret⟩
  have hstored : broker.itemKind.stored rest id = broker.itemKind.stored vault id :=
    RecordKind.stored_congr (h (.itemMetadata id) rfl)
  rw [visible_items, visible_items, hstored, h (.itemSecret id item.currentGeneration) rfl]

theorem stored_of_visible (h : (broker.visible vault).collections[id]?.isSome) :
    (broker.collectionKind.stored vault id).isSome := by
  rwa [visible_collections] at h

theorem Sound.fresh_of_visible (hsound : broker.Sound vault) (h : (broker.visible vault).items[id]? = none) :
    vault.lookup (.itemMetadata id) = none := by
  by_contra hsome
  obtain ⟨blob, hblob⟩ := Option.ne_none_iff_exists'.mp hsome
  obtain ⟨item, hload, ⟨secret, hsecret⟩, -⟩ := hsound.items id blob hblob
  cases h.symm.trans (visible_items.mpr ⟨RecordKind.stored_eq_some.mpr ⟨blob, hblob, hload⟩, hsecret⟩)

/-- The item can be created in the vault as it is. -/
structure Accepts (broker : Broker) (vault : Vault) (item : ItemMetadata) : Prop where
  valid : validateItem item = .ok ()
  collection : (broker.collectionKind.stored vault item.collectionId).isSome
  fresh : vault.lookup (.itemMetadata item.id) = none
  encodes : ∃ blob, encodeMetadata broker.itemCodec item = .ok blob

/-- The items a new one replaces. -/
def Twins (item found : ItemMetadata) : Prop :=
  found.collectionId = item.collectionId ∧ found.attributes = item.attributes

/-- An item is as it was, or another one with its attributes has taken its place. -/
def Outlives (broker : Broker) (item : ItemMetadata) (secret : SecretBytes) (replace : Bool) (vault : Vault)
    (found : ItemMetadata) (rest : Vault) : Prop :=
  SameAt found.id vault rest ∨ replace = true ∧ Twins item found ∧ broker.Accepts vault item ∧
    (broker.visible rest).items[item.id]? = some (item, secret)

/-- The commit of the new item, and the deletion of the ones it replaces. -/
theorem wp_commit_outlives (hvalid : validateItem item = .ok ()) {replaced : List Uuid} (hne : id ≠ item.id)
    (hnew : item.id ∉ replaced) :
    let spared : Vault → Prop := fun rest => SameAt id vault rest ∨
      id ∈ replaced ∧ (∃ blob, encodeMetadata broker.itemCodec item = .ok blob) ∧
        (broker.visible rest).items[item.id]? = some (item, secret)
    wp broker.backend.serve (fun _ => True) (do
        broker.commitNewGeneration item none secret
        let entries ← entries
        let outcome ← deleteReplacedItems entries replaced
        pure (ResponseBody.replacedItem item outcome.1 outcome.2))
      (fun _ => spared) (fun _ => spared) spared vault := by
  intro spared
  have hput : ∀ (target : TargetName) blob, target.BelongsTo item.id → ∀ rest, SameAt id vault rest →
      SameAt id vault (rest.put target blob) := by
    intro target blob hbelongs rest hrest other hother
    refine (Vault.lookup_put_of_ne ?_).trans (hrest other hother)
    rintro rfl
    exact hne (hother.unique hbelongs)
  have hsecret := hput (.itemSecret item.id item.currentGeneration) secret.bytes rfl vault fun _ _ => rfl
  rw [wp_bind]
  refine wp_commitNewGeneration (.inl fun _ _ => rfl) (fun _ _ => .inl fun _ _ => rfl) (fun _ _ => .inl fun _ _ => rfl)
    ?_ ?_ ?_
  · rintro _ rfl
    exact ⟨.inl hsecret, fun _ _ => .inl hsecret⟩
  · rintro _ rfl
    have hdropped : SameAt id vault ((vault.put (.itemSecret item.id item.currentGeneration) secret.bytes).drop
        (.itemSecret item.id item.currentGeneration)) := by
      intro other hother
      refine (Vault.lookup_drop_of_ne ?_).trans (hsecret other hother)
      rintro rfl
      exact hne (hother.unique rfl)
    exact ⟨.inl hdropped, fun _ _ => .inl hdropped⟩
  · rintro blob hblob _ rfl
    have hcommitted : SameAt id vault (committed vault item secret blob) :=
      hput (.itemMetadata item.id) blob rfl _ hsecret
    refine ⟨⟨.inl hcommitted, ?_⟩, nofun⟩
    simp only [wp_bind, wp_entries, wp_pure]
    refine ⟨.inl hcommitted, fun _ _ => .inl hcommitted, ?_⟩
    -- a replaced item goes while the new one stays, and the other way round nothing happens
    by_cases hreplaced : id ∈ replaced
    · have hspared : ∀ rest, SameAt item.id (committed vault item secret blob) rest → spared rest :=
        fun rest hrest => .inr ⟨hreplaced, ⟨blob, hblob⟩, items_of_sameAt hvalid hblob hrest⟩
      exact wp_mono (fun _ rest hrest => ⟨hspared rest hrest, hspared rest hrest⟩) (fun _ => hspared) hspared
        (wp_of_calls (serve_of_keepsOff (committed vault item secret blob))
          (calls_keepsOff_deleteReplacedItems _ hnew) fun _ _ => rfl)
    · exact wp_mono (fun _ rest hrest => ⟨.inl hrest, .inl hrest⟩) (fun _ _ hrest => .inl hrest)
        (fun _ hrest => .inl hrest)
        (wp_of_calls (serve_of_keepsOff vault) (calls_keepsOff_deleteReplacedItems _ hreplaced) hcommitted)

/-- Whatever happens to the request, each item that could be read is as it was or has its place taken. -/
theorem wp_createOrReplaceItem_outlives (replace : Bool) (hfound : broker.itemKind.stored vault found.id = some found) :
    wp broker.backend.serve (fun _ => True) (broker.execute (.createOrReplaceItem item secret replace))
      (fun _ => broker.Outlives item secret replace vault found)
      (fun _ => broker.Outlives item secret replace vault found)
      (broker.Outlives item secret replace vault found) vault := by
  have hstart : broker.Outlives item secret replace vault found vault := .inl fun _ _ => rfl
  simp only [execute, perform, createOrReplaceItem, wp_bind, wp_acquireLock, wp_ofExcept,
    wp_requireCollection, wp_readCredential]
  refine ⟨hstart, fun _ _ => hstart, hstart, either_intro (fun _ hvalid => ?_) fun _ _ => hstart⟩
  refine ⟨hstart, fun _ _ => hstart, either_intro (fun collection hcollection => ?_) fun _ _ => hstart⟩
  refine ⟨hstart, fun _ _ => hstart, ?_⟩
  have hcollection : (broker.collectionKind.stored vault item.collectionId).isSome := by
    rw [collectionAt_eq_ok.mp hcollection]
    rfl
  cases hfresh : vault.lookup (.itemMetadata item.id) with
  | some blob => exact ⟨hstart, hstart⟩
  | none =>
      have hne : ∀ found, broker.itemKind.stored vault found.id = some found → found.id ≠ item.id := by
        intro found hfound hid
        obtain ⟨blob, hblob, -⟩ := RecordKind.stored_eq_some.mp hfound
        rw [hid] at hblob
        cases hfresh.symm.trans hblob
      have hcommit : ∀ replaced : List Uuid, item.id ∉ replaced →
          (found.id ∈ replaced → replace = true ∧ Twins item found) →
          wp broker.backend.serve (fun _ => True) (do
              broker.commitNewGeneration item none secret
              let entries ← entries
              let outcome ← deleteReplacedItems entries replaced
              pure (ResponseBody.replacedItem item outcome.1 outcome.2))
            (fun _ => broker.Outlives item secret replace vault found)
            (fun _ => broker.Outlives item secret replace vault found)
            (broker.Outlives item secret replace vault found) vault := by
        intro replaced hnew hreplaced
        have hspared : ∀ rest, SameAt found.id vault rest ∨ found.id ∈ replaced ∧
            (∃ blob, encodeMetadata broker.itemCodec item = .ok blob) ∧
            (broker.visible rest).items[item.id]? = some (item, secret) →
            broker.Outlives item secret replace vault found rest := by
          rintro rest (hsame | ⟨hmem, hencodes, hvisible⟩)
          · exact .inl hsame
          · exact .inr ⟨(hreplaced hmem).1, (hreplaced hmem).2, ⟨hvalid, hcollection, hfresh, hencodes⟩, hvisible⟩
        exact wp_mono (fun _ => hspared) (fun _ => hspared) hspared
          (wp_commit_outlives hvalid (hne found hfound) hnew)
      simp only [Option.isSome_none, Bool.false_eq_true, if_false]
      rw [wp_bind, replacedItemIds]
      cases replace with
      | false => exact ⟨hstart, hcommit [] List.not_mem_nil fun h => absurd h List.not_mem_nil⟩
      | true =>
          rw [if_pos rfl, wp_bind, wp_validItems]
          refine ⟨hstart, fun _ _ => hstart, hstart, hcommit _ (fun hmem => ?_) fun hmem => ⟨rfl, ?_⟩⟩
          · obtain ⟨other, hother, hid⟩ := List.mem_map.mp hmem
            exact hne other (mem_itemsOf.mp (List.mem_of_mem_filter hother)) hid
          · obtain ⟨other, hother, hid⟩ := List.mem_map.mp hmem
            obtain ⟨hother, htwins⟩ := List.mem_filter.mp hother
            have hstored := mem_itemsOf.mp hother
            rw [hid] at hstored
            cases hfound.symm.trans hstored
            simpa only [Twins, decide_eq_true_eq] using htwins

theorem outlives_createOrReplaceItem (replace : Bool) (hfound : broker.itemKind.stored vault found.id = some found)
    (fates : Fates BackendError) : broker.Outlives item secret replace vault found
      (broker.respond ⟨.createOrReplaceItem item secret replace, fates⟩ vault).state :=
  execute_state_of_wp (wp_createOrReplaceItem_outlives replace hfound) (within_any fates)

theorem fresh_of_createOrReplaceItem {replace : Bool} {fates : Fates BackendError} {body : ResponseBody}
    (h : (broker.respond ⟨.createOrReplaceItem item secret replace, fates⟩ vault).outcome = .returned (.ok body)) :
    vault.lookup (.itemMetadata item.id) = none := by
  refine of_respond_ok (fun _ _ => vault.lookup (.itemMetadata item.id) = none) h ?_
  simp only [perform, createOrReplaceItem, wp_bind, wp_ofExcept, wp_requireCollection, wp_readCredential]
  refine ⟨trivial, either_intro (fun _ _ => ?_) fun _ _ => trivial⟩
  refine ⟨trivial, fun _ _ => trivial, either_intro (fun _ _ => ?_) fun _ _ => trivial⟩
  refine ⟨trivial, fun _ _ => trivial, ?_⟩
  cases hstored : vault.lookup (.itemMetadata item.id) with
  | some blob => exact ⟨trivial, trivial⟩
  | none =>
    exact wp_mono (fun _ _ _ => rfl) (fun _ _ _ => trivial) (fun _ _ => trivial) (wp_trivial _ _)

/-- The deletion of an item leaves the others alone. -/
theorem sameAt_deleteItem {other : Uuid} (hne : other ≠ id) (fates : Fates BackendError) :
    SameAt id vault (broker.respond ⟨.deleteItem other, fates⟩ vault).state := by
  have hcalls : Calls (KeepsOff id) (broker.execute (.deleteItem other)) := by
    refine calls_bind (calls_perform trivial) fun _ => ?_
    refine calls_bind (calls_bind (calls_perform trivial) fun _ => calls_ofExcept _)
      fun _ =>
      calls_bind (calls_bind (calls_perform trivial) fun _ => calls_pure _) fun entries =>
        calls_bind ?_ fun _ => calls_pure _
    refine calls_bind (calls_perform hne) fun _ => calls_forM fun target htarget => ?_
    obtain ⟨generation, rfl⟩ := mem_secretTargets htarget
    exact calls_perform hne
  exact execute_state_of_wp (wp_of_calls (serve_of_keepsOff vault) hcalls fun _ _ => rfl)
    (within_any fates)

/-- A request that cannot be refused is carried out while nothing fails. -/
theorem respond_of_wp {operation : Operation} {ok : ResponseBody → Vault → Prop}
    (hwp : wp broker.backend.serve (fun _ => False) (broker.execute operation) ok (fun _ _ => False)
      (fun _ => True) vault) :
    ∃ body, (broker.respond ⟨operation, undisturbed⟩ vault).outcome = .returned (.ok body) ∧
      ok body (broker.respond ⟨operation, undisturbed⟩ vault).state := by
  have hanswer := answer_of_wp hwp
  rw [respond, execute_undisturbed]
  cases hresult : (Action.answer broker.backend.serve (broker.execute operation) vault).1 with
  | error error =>
      rw [hresult] at hanswer
      exact hanswer.elim
  | ok body =>
      rw [hresult] at hanswer
      exact ⟨body, rfl, hanswer⟩

/-- A replacement while nothing fails: the new item is there, and the ones it replaces are gone. -/
structure Supersedes (broker : Broker) (vault : Vault) (item found : ItemMetadata) (rest : Vault) : Prop where
  created : broker.itemKind.stored rest item.id = some item
  replaced : rest.lookup (.itemMetadata found.id) = none
  others : ∀ target : TargetName, ¬ target.BelongsTo item.id →
    rest.lookup target = vault.lookup target ∨ rest.lookup target = none

theorem wp_commit_supersedes (vault : Vault) (secret : SecretBytes) (found : ItemMetadata) {blob : Blob}
    (hvalid : validateItem item = .ok ()) (hblob : encodeMetadata broker.itemCodec item = .ok blob)
    (replaced : List Uuid) (hnew : item.id ∉ replaced) (hfound : found.id ∈ replaced) :
    wp broker.backend.serve (fun _ => False) (do
        broker.commitNewGeneration item none secret
        let entries ← entries
        let outcome ← deleteReplacedItems entries replaced
        pure (ResponseBody.replacedItem item outcome.1 outcome.2))
      (fun body rest => (∃ replaced failed, body = .replacedItem item replaced failed) ∧
        broker.Supersedes vault item found rest) (fun _ _ => False) (fun _ => True) vault := by
  rw [wp_bind]
  refine wp_commitNewGeneration trivial (fun _ h => h.elim) (fun error herror => ?_)
    (fun _ _ => ⟨trivial, fun _ h => h.elim⟩) (fun _ _ => ⟨trivial, fun _ h => h.elim⟩) ?_
  · cases hblob.symm.trans herror
  · rintro blob' hblob' _ rfl
    cases hblob.symm.trans hblob'
    refine ⟨⟨trivial, ?_⟩, nofun⟩
    simp only [wp_bind, wp_entries, wp_pure]
    refine ⟨trivial, fun _ h => h.elim, wp_mono (fun outcome rest hrest => ⟨trivial, ⟨_, _, rfl⟩, ?_⟩)
      (fun _ _ h => h) (fun _ h => h) (wp_deleteReplacedItems_without _ replaced _)⟩
    obtain ⟨-, hwithout⟩ := hrest
    have hkept : rest.lookup (.itemMetadata item.id) = some blob := by
      rw [hwithout.lookup_of_not, Vault.lookup_put_self]
      rintro ⟨other, hother, hmem⟩
      obtain rfl : item.id = other := belongsTo_of_mem_itemTargets hmem
      exact hnew hother
    refine ⟨RecordKind.stored_eq_some.mpr ⟨blob, hkept, broker.itemKind.load_of_encode hvalid hblob⟩,
      hwithout.removed _ ⟨found.id, hfound, List.mem_cons_self⟩, fun target htarget => ?_⟩
    have hsame : (committed vault item secret blob).lookup target = vault.lookup target := by
      rw [committed, Vault.lookup_put_of_ne, Vault.lookup_put_of_ne]
      all_goals
        rintro rfl
        exact htarget rfl
    rw [← hsame]
    exact hwithout.lacks.lookup target

theorem supersedes_createOrReplaceItem (secret : SecretBytes) (haccepts : broker.Accepts vault item)
    (hfound : broker.itemKind.stored vault found.id = some found) (htwins : Twins item found) :
    (∃ replaced failed, (broker.respond ⟨.createOrReplaceItem item secret true, undisturbed⟩ vault).outcome =
      .returned (.ok (.replacedItem item replaced failed))) ∧ broker.Supersedes vault item found
        (broker.respond ⟨.createOrReplaceItem item secret true, undisturbed⟩ vault).state := by
  obtain ⟨collection, hcollection⟩ := Option.isSome_iff_exists.mp haccepts.collection
  obtain ⟨blob, hblob⟩ := haccepts.encodes
  have hwp : wp broker.backend.serve (fun _ => False) (broker.execute (.createOrReplaceItem item secret true))
      (fun body rest => (∃ replaced failed, body = .replacedItem item replaced failed) ∧
        broker.Supersedes vault item found rest) (fun _ _ => False) (fun _ => True) vault := by
    simp only [execute, perform, createOrReplaceItem, wp_bind, wp_acquireLock, wp_ofExcept,
      wp_requireCollection, wp_readCredential, haccepts.valid, either_ok, haccepts.fresh, Option.isSome_none,
      Bool.false_eq_true, if_false, collectionAt_eq_ok.mpr hcollection]
    refine ⟨trivial, fun _ h => h.elim, trivial, trivial, fun _ h => h.elim, trivial, fun _ h => h.elim, ?_⟩
    have hcommit := wp_commit_supersedes vault secret found haccepts.valid hblob
    simp only [wp_bind] at hcommit
    rw [replacedItemIds, if_pos rfl, wp_bind, wp_validItems]
    refine ⟨trivial, fun _ h => h.elim, trivial, hcommit _ (fun hmem => ?_) ?_⟩
    · obtain ⟨other, hother, hid⟩ := List.mem_map.mp hmem
      obtain ⟨bytes, hbytes, -⟩ := RecordKind.stored_eq_some.mp (mem_itemsOf.mp (List.mem_of_mem_filter hother))
      rw [hid] at hbytes
      cases haccepts.fresh.symm.trans hbytes
    · refine List.mem_map.mpr ⟨found, List.mem_filter.mpr ⟨mem_itemsOf.mpr hfound, ?_⟩, rfl⟩
      simpa only [Twins, decide_eq_true_eq] using htwins
  obtain ⟨_, hanswer, ⟨replaced, failed, rfl⟩, hrest⟩ := respond_of_wp hwp
  exact ⟨⟨replaced, failed, hanswer⟩, hrest⟩

theorem respond_calm_deleteItem (hstored : broker.itemKind.stored vault id = some item) :
    (broker.respond ⟨.deleteItem id, undisturbed⟩ vault).outcome = .returned (.ok .empty) ∧
      (broker.respond ⟨.deleteItem id, undisturbed⟩ vault).state.lookup (.itemMetadata id) = none := by
  have hwp : wp broker.backend.serve (fun _ => False) (broker.execute (.deleteItem id))
      (fun body rest => body = .empty ∧ rest.lookup (.itemMetadata id) = none) (fun _ _ => False) (fun _ => True)
      vault := by
    simp only [execute, perform, deleteItem, wp_bind, wp_acquireLock, wp_getItemMetadata, wp_entries,
      wp_pure, itemAt_eq_ok.mpr hstored]
    refine ⟨trivial, fun _ h => h.elim, trivial, fun _ h => h.elim, trivial, fun _ h => h.elim, ?_⟩
    refine wp_mono (fun _ rest hrest => ⟨trivial, trivial, ?_⟩) (fun _ _ h => h.1.elim fun _ h => h.elim)
      (fun _ _ => trivial) (deletes_deleteItemFromEntries (broker.entriesOf vault) id vault)
    exact hrest.removed _ List.mem_cons_self
  obtain ⟨_, hanswer, rfl, hgone⟩ := respond_of_wp hwp
  exact ⟨hanswer, hgone⟩

end Broker

/-- What can happen to a call of the provider: the answer of the broker may also be lost after the request
was carried out. -/
structure LinkChoice extends CallChoice where
  lost : Option ProviderError

/-- How a call of a provider is answered over a link that loses answers. -/
def Broker.answerLinked (broker : Broker) :
    (request : ProviderCall) → LinkChoice → Vault → Except ProviderFault (ProviderReply request) × Vault
  | .broker operation, choice, vault =>
      let answer := broker.answerCall (.broker operation) choice.toCallChoice vault
      match choice.lost with
      | none => answer
      | some error => (.error (.broker error), answer.2)
  | request, choice, vault => broker.answerCall request choice.toCallChoice vault

/-- The vault, and the calls made so far with whether they succeeded, the last one first. -/
abbrev Witnessed := Vault × List (ProviderCall × Bool)

/-- The registration of an object has failed. -/
def RegistrationFailed (log : List (ProviderCall × Bool)) : Prop :=
  ∃ path object, (ProviderCall.register path object, false) ∈ log

namespace Broker

open Action

variable {broker : Broker} {vault : Vault} {log : List (ProviderCall × Bool)}

variable (broker) in
/-- However the calls are answered, the handler ends as described. -/
def Leads {δ α : Type} (action : Action ProviderCall ProviderReply ProviderFault δ α) (ok : α → Witnessed → Prop)
    (err : δ → Witnessed → Prop) (start : Witnessed) : Prop :=
  Ensures (logged broker.answerLinked) (fun _ => True) action ok err start

theorem leads_response {operation : Operation} {ok : ResponseBody → Witnessed → Prop}
    {err : ProviderError → Witnessed → Prop}
    (hok : ∀ fates body, (broker.respond ⟨operation, fates⟩ vault).outcome = .returned (.ok body) →
      ok body ((broker.respond ⟨operation, fates⟩ vault).state, (.broker operation, true) :: log))
    (herr : ∀ fates error,
      err error ((broker.respond ⟨operation, fates⟩ vault).state, (.broker operation, false) :: log)) :
    broker.Leads (Provider.response operation) ok err (vault, log) := by
  refine ensures_perform.mpr ?_
  rintro ⟨⟨fates, fault⟩, _ | lost⟩ -
  · change either ok (fun error => err error.toProviderError)
      (brokerReply (broker.respond ⟨operation, fates⟩ vault).outcome) (_, (_, Except.isOk (brokerReply _)) :: log)
    cases houtcome : (broker.respond ⟨operation, fates⟩ vault).outcome with
    | killed => exact herr fates _
    | returned result =>
        cases result with
        | error error => exact herr fates _
        | ok body => exact hok fates body houtcome
  · exact herr fates lost

/-- Calls to D-Bus leave the vault as it is. -/
theorem leads_bus {α : Type} {action : HandlerAction α} (hcalls : Calls ProviderCall.IsBus action) :
    broker.Leads action (fun _ final => final.1 = vault) (fun _ final => final.1 = vault) (vault, log) := by
  refine ensures_of_calls (fun final : Witnessed => final.1 = vault) (fun request hrequest choice final hfinal => ?_)
    hcalls rfl
  cases request with
  | broker operation => exact hrequest.elim
  | _ => exact hfinal

theorem leads_register {path : String} {object : BusObject} {error : String → SecretServiceError} :
    broker.Leads (register path object error) (fun _ final => final = (vault, (.register path object, true) :: log))
      (fun _ final => final = (vault, (.register path object, false) :: log)) (vault, log) := by
  refine ensures_perform.mpr ?_
  rintro ⟨⟨fates, _ | fault⟩, lost⟩ -
  · exact rfl
  · exact rfl

theorem leads_orUndo {α : Type} {action : HandlerAction α} {undo : HandlerAction Unit} {ok : α → Witnessed → Prop}
    {err : SecretServiceError → Witnessed → Prop} {start : Witnessed}
    (h : broker.Leads action ok (fun error middle => broker.Leads undo (fun _ => err error) err middle) start) :
    broker.Leads (orUndo action undo) ok err start := by
  refine ensures_bind.mpr (ensures_attempt.mpr
    (ensures_mono (fun value middle hmiddle => ?_) (fun error middle hmiddle => ?_) h))
  · exact (ensures_pure _).mpr hmiddle
  · exact ensures_bind.mpr (ensures_mono (fun _ _ hfinal => (ensures_throw _).mpr hfinal)
      (fun _ _ hfinal => hfinal) hmiddle)

theorem leads_ignore {α : Type} {action : ProviderAction α} {ok : Unit → Witnessed → Prop}
    {err : SecretServiceError → Witnessed → Prop} {start : Witnessed}
    (h : broker.Leads action (fun _ => ok ()) (fun _ => ok ()) start) : broker.Leads (ignore action) ok err start := by
  refine ensures_bind.mpr (ensures_attempt.mpr (ensures_mapError.mpr (ensures_mono (fun _ _ hfinal => ?_)
    (fun _ _ hfinal => ?_) h)))
  · exact (ensures_pure _).mpr hfinal
  · exact (ensures_pure _).mpr hfinal

end Broker

namespace CollectionObject

/-- What a client submits to CreateItem. -/
structure Submission where
  label : String
  attributes : BTreeMap String String
  secret : SecretBytes
  contentType : String

def submission (provider : Provider) (sender : Option String) (properties : BTreeMap String DbusValue)
    (sent : DbusSecret) : Except SecretServiceError Submission := do
  let owner ← ownerOf sender
  let (label, attributes) ← (itemProperties properties).mapError SecretServiceError.ofProvider
  let (_, secret, contentType) ← (provider.decodeSecret owner sent).mapError SecretServiceError.ofProvider
  pure ⟨label, attributes, secret, contentType⟩

def Submission.item (submission : Submission) (collectionId : Uuid) (draws : Draws) : ItemMetadata :=
  ⟨1, draws.id, collectionId, submission.label, submission.attributes, submission.contentType, draws.now, draws.now,
    draws.generation⟩

/-- What CreateItem does with a submission. -/
def createSubmitted (id : Uuid) (replace : Bool) (draws : Draws) (submitted : Submission) :
    HandlerAction (String × String) := do
  dbus (Provider.check (validateContentType submitted.contentType))
  let (item, replacedItemIds, _) ← dbus (Provider.createItem id submitted.label submitted.attributes
    submitted.contentType submitted.secret replace draws)
  forM replacedItemIds fun replaced => do
    tryUnregister (itemPath replaced)
    emit (.itemDeleted id replaced) fun _ => .failed "unable to emit item signal"
  orUndo (register (itemPath item.id) (.item item.id) fun error => .failed ("unable to register item: " ++ error))
    (ignore (Provider.deleteItem item.id))
  emit (.itemCreated id item.id) fun _ => .failed "unable to emit item signal"
  pure (itemPath item.id, "/")

theorem createItem_eq (provider : Provider) (id : Uuid) (sender : Option String)
    (properties : BTreeMap String DbusValue) (sent : DbusSecret) (replace : Bool) (draws : Draws) :
    createItem provider id sender properties sent replace draws =
      Action.ofExcept (submission provider sender properties sent) >>= createSubmitted id replace draws := by
  unfold createItem submission
  cases ownerOf sender with
  | error error => rfl
  | ok owner =>
      cases itemProperties properties with
      | error error => rfl
      | ok found =>
          change (Action.ofExcept ((provider.decodeSecret owner sent).mapError SecretServiceError.ofProvider) >>= _) =
            Action.ofExcept ((provider.decodeSecret owner sent).mapError SecretServiceError.ofProvider >>= _) >>= _
          cases (provider.decodeSecret owner sent).mapError SecretServiceError.ofProvider with
          | error error => rfl
          | ok decoded => rfl

end CollectionObject

namespace Broker

open Action CollectionObject

variable {broker : Broker} {vault final : Vault} {log : List (ProviderCall × Bool)}

/-- Each item that could be read can still be read with its secret, or a new one with its collection, its
attributes and the submitted secret can. -/
def LosesNothing (broker : Broker) (submitted : Option SecretBytes) (vault final : Vault) : Prop :=
  ∀ id item secret, broker.Readable vault id item secret → broker.Readable final id item secret ∨
    ∃ new newSecret, (∀ other kept, ¬ broker.Readable vault new.id other kept) ∧ submitted = some newSecret ∧
      broker.Readable final new.id new newSecret ∧ new.collectionId = item.collectionId ∧
      new.attributes = item.attributes

/-- The submission creates an item, and replaces one that can be read. -/
structure Replaces (broker : Broker) (vault : Vault) (collectionId : Uuid) (replace : Bool) (draws : Draws)
    (submitted : Submission) : Prop where
  replace : replace = true
  accepts : broker.Accepts vault (submitted.item collectionId draws)
  twin : ∃ id found secret, broker.Readable vault id found secret ∧ Twins (submitted.item collectionId draws) found

/-- Nothing is lost, or the registration of the object has failed after items were replaced. -/
def LosesOnlyReplaced (broker : Broker) (vault : Vault) (collectionId : Uuid) (replace : Bool) (draws : Draws)
    (submitted : Submission) (final : Witnessed) : Prop :=
  broker.LosesNothing (some submitted.secret) vault final.1 ∨
    RegistrationFailed final.2 ∧ broker.Replaces vault collectionId replace draws submitted

section Handler

variable {collectionId : Uuid} {replace : Bool} {draws : Draws} {submitted : Submission}

theorem LosesNothing.of_outlives
    (h : ∀ id found secret, broker.Readable vault id found secret →
      broker.Outlives (submitted.item collectionId draws) submitted.secret replace vault found final) :
    broker.LosesNothing (some submitted.secret) vault final := by
  intro id found secret hfound
  have hid : found.id = id := id_of_visible (readable_iff.mp hfound)
  rcases h id found secret hfound with hsame | ⟨-, htwins, haccepts, hnew⟩
  · refine .inl (readable_iff.mpr ?_)
    rw [← hid, hsame.visible, hid]
    exact readable_iff.mp hfound
  · refine .inr ⟨submitted.item collectionId draws, submitted.secret, fun other kept hother => ?_, rfl,
      readable_iff.mpr hnew, htwins.1.symm, htwins.2.symm⟩
    obtain ⟨blob, hblob, -⟩ := RecordKind.stored_eq_some.mp (visible_items.mp (readable_iff.mp hother)).1
    cases haccepts.fresh.symm.trans hblob

theorem stored_of_readable {id : Uuid} {found : ItemMetadata} {secret : SecretBytes}
    (h : broker.Readable vault id found secret) : broker.itemKind.stored vault found.id = some found := by
  have hvisible := readable_iff.mp h
  have hid : found.id = id := id_of_visible hvisible
  rw [hid]
  exact (visible_items.mp hvisible).1

variable (broker collectionId replace draws submitted vault) in
/-- Every item that could be read is as it was, or the submitted one has taken its place. -/
def Safe (rest : Vault) : Prop :=
  ∀ id found secret, broker.Readable vault id found secret →
    broker.Outlives (submitted.item collectionId draws) submitted.secret replace vault found rest

theorem safe_refl : broker.Safe vault collectionId replace draws submitted vault := fun _ _ _ _ => .inl fun _ _ => rfl

theorem Safe.losesOnlyReplaced (h : broker.Safe vault collectionId replace draws submitted final)
    (log : List (ProviderCall × Bool)) :
    broker.LosesOnlyReplaced vault collectionId replace draws submitted (final, log) :=
  .inl (.of_outlives h)

theorem safe_createOrReplaceItem (fates : Fates BackendError) :
    broker.Safe vault collectionId replace draws submitted (broker.respond
      ⟨.createOrReplaceItem (submitted.item collectionId draws) submitted.secret replace, fates⟩ vault).state :=
  fun _ _ _ hfound => outlives_createOrReplaceItem replace (stored_of_readable hfound) fates

variable {start : Witnessed} {fates : Fates BackendError}

theorem leads_check {result : Except ProtocolError Unit} :
    broker.Leads (Provider.check result) (fun _ final => final = start) (fun _ final => final = start) start := by
  refine (ensures_ofExcept _).mpr ?_
  cases result <;> exact rfl

theorem leads_provider_createItem :
    broker.Leads (Provider.createItem collectionId submitted.label submitted.attributes submitted.contentType
        submitted.secret replace draws)
      (fun result final => (result.1 = submitted.item collectionId draws ∧
        vault.lookup (.itemMetadata draws.id) = none) ∧ broker.Safe vault collectionId replace draws submitted final.1)
      (fun _ final => broker.Safe vault collectionId replace draws submitted final.1) (vault, log) := by
  have hcheck : ∀ (result : Except ProtocolError Unit)
      (next : Unit → ProviderAction (ItemMetadata × List Uuid × List Uuid))
      ok, broker.Leads (next ()) ok (fun _ final => broker.Safe vault collectionId replace draws submitted final.1)
        (vault, log) → broker.Leads (Provider.check result >>= next) ok
          (fun _ final => broker.Safe vault collectionId replace draws submitted final.1) (vault, log) := by
    intro result next ok hnext
    refine ensures_bind.mpr (ensures_mono (fun _ final hfinal => ?_) (fun _ final hfinal => ?_) leads_check)
    · rw [hfinal]
      exact hnext
    · rw [hfinal]
      exact safe_refl
  refine hcheck _ _ _ (hcheck _ _ _ (hcheck _ _ _ (ensures_bind.mpr (leads_response (fun fates body hbody => ?_)
    fun fates _ => safe_createOrReplaceItem fates))))
  have hfresh := fresh_of_createOrReplaceItem hbody
  have hsafe : broker.Safe vault collectionId replace draws submitted _ := safe_createOrReplaceItem fates
  cases body with
  | replacedItem created replaced failed =>
      obtain ⟨rfl, -⟩ := lookup_of_createOrReplaceItem hbody
      exact (ensures_pure _).mpr ⟨⟨rfl, hfresh⟩, hsafe⟩
  | _ => exact (ensures_throw _).mpr hsafe

/-- The object of the new item is registered, or the item is deleted again. -/
theorem leads_registerItem {middle : Vault} (hfresh : vault.lookup (.itemMetadata draws.id) = none)
    (hsafe : broker.Safe vault collectionId replace draws submitted middle) (path : String) :
    broker.Leads (orUndo (register path (.item draws.id) fun error => .failed ("unable to register item: " ++ error))
        (ignore (Provider.deleteItem draws.id))) (fun _ final => final.1 = middle)
      (fun _ => broker.LosesOnlyReplaced vault collectionId replace draws submitted) (middle, log) := by
  refine leads_orUndo (ensures_mono (fun _ final hfinal => ?_) (fun error start hstart => ?_) leads_register)
  · rw [hfinal]
  · rw [hstart]
    have hdeleted : ∀ fates answer, broker.LosesOnlyReplaced vault collectionId replace draws submitted
        ((broker.respond ⟨.deleteItem draws.id, fates⟩ middle).state, answer ::
          (.register path (.item draws.id), false) :: log) := by
      intro fates answer
      have hne : ∀ id found secret, broker.Readable vault id found secret → draws.id ≠ found.id := by
        rintro id found secret hfound heq
        obtain ⟨blob, hblob, -⟩ := RecordKind.stored_eq_some.mp (stored_of_readable hfound)
        rw [← heq] at hblob
        cases hfresh.symm.trans hblob
      by_cases hreplaces : broker.Replaces vault collectionId replace draws submitted
      · exact .inr ⟨⟨path, _, List.mem_cons_of_mem _ List.mem_cons_self⟩, hreplaces⟩
      · have hsame : broker.Safe vault collectionId replace draws submitted
            (broker.respond ⟨.deleteItem draws.id, fates⟩ middle).state := fun id found secret hfound => .inl ?_
        · exact hsame.losesOnlyReplaced _
        rcases hsafe id found secret hfound with hsame | ⟨hreplace, htwins, haccepts, -⟩
        · intro target htarget
          rw [sameAt_deleteItem (hne id found secret hfound) fates target htarget, hsame target htarget]
        · exact absurd ⟨hreplace, haccepts, id, found, secret, hfound, htwins⟩ hreplaces
    refine leads_ignore (ensures_bind.mpr (leads_response (fun fates body _ => ?_) fun fates error => hdeleted fates _))
    cases body with
    | empty => exact (ensures_pure _).mpr (hdeleted fates _)
    | _ => exact (ensures_throw _).mpr (hdeleted fates _)

theorem leads_createSubmitted :
    broker.Leads (createSubmitted collectionId replace draws submitted) (fun _ _ => True)
      (fun _ => broker.LosesOnlyReplaced vault collectionId replace draws submitted) (vault, []) := by
  refine ensures_bind.mpr (ensures_mapError.mpr (ensures_mono (fun _ start hstart => ?_) (fun _ start hstart => ?_)
    leads_check))
  · rw [hstart]
    refine ensures_bind.mpr (ensures_mapError.mpr (ensures_mono (fun result middle hmiddle => ?_)
      (fun _ final hfinal => ?_) leads_provider_createItem))
    · obtain ⟨item, replacedItemIds, failed⟩ := result
      obtain ⟨middle, log⟩ := middle
      obtain ⟨⟨rfl, hfresh⟩, hsafe⟩ := hmiddle
      refine ensures_bind.mpr (ensures_mono (fun _ announced hannounced => ?_) (fun _ announced hannounced => ?_)
        (leads_bus (calls_forM fun replaced _ => calls_bind (calls_isBus_tryUnregister _)
          fun _ => calls_isBus_emit _ _)))
      · obtain ⟨_, log⟩ := announced
        obtain rfl : _ = middle := hannounced
        refine ensures_bind.mpr (ensures_mono (fun _ registered hregistered => ?_) (fun _ _ hfinal => hfinal)
          (leads_registerItem hfresh hsafe _))
        obtain ⟨_, log⟩ := registered
        obtain rfl : _ = _ := hregistered
        refine ensures_bind.mpr (ensures_mono (fun _ _ _ => (ensures_pure _).mpr trivial) (fun _ final hfinal => ?_)
          (leads_bus (calls_isBus_emit _ _)))
        obtain ⟨_, log⟩ := final
        obtain rfl : _ = _ := hfinal
        exact hsafe.losesOnlyReplaced log
      · obtain ⟨_, log⟩ := announced
        obtain rfl : _ = middle := hannounced
        exact hsafe.losesOnlyReplaced log
    · exact hfinal.losesOnlyReplaced final.2
  · rw [hstart]
    exact safe_refl.losesOnlyReplaced []

/-! The run in which only the registration of the new item fails. -/

variable (broker) in
/-- The handler can end so over a link that loses answers. -/
def Runs {δ α : Type} (action : Action ProviderCall ProviderReply ProviderFault δ α) (start : Witnessed)
    (result : Except δ α) (final : Witnessed) : Prop :=
  Ends (logged broker.answerLinked) (fun _ => True) action.run start result final

theorem runs_response {operation : Operation} {body : ResponseBody}
    (h : (broker.respond ⟨operation, fates⟩ vault).outcome = .returned (.ok body)) :
    broker.Runs (Provider.response operation) (vault, log) (.ok body)
      ((broker.respond ⟨operation, fates⟩ vault).state, (.broker operation, true) :: log) := by
  refine ends_perform.mpr ⟨⟨⟨fates, none⟩, none⟩, trivial, ?_⟩
  change Except.mapError _ (brokerReply (broker.respond ⟨operation, fates⟩ vault).outcome) = _ ∧
    (_, (_, Except.isOk (brokerReply (broker.respond ⟨operation, fates⟩ vault).outcome)) :: log) = _
  rw [h]
  exact ⟨rfl, rfl⟩

theorem runs_response_lost (operation : Operation) (error : ProviderError) :
    broker.Runs (Provider.response operation) (vault, log) (.error error)
      ((broker.respond ⟨operation, undisturbed⟩ vault).state, (.broker operation, false) :: log) :=
  ends_perform.mpr ⟨⟨⟨undisturbed, none⟩, some error⟩, trivial, rfl, rfl⟩

theorem runs_orUndo {α : Type} {action : HandlerAction α} {undo : HandlerAction Unit} {error : SecretServiceError}
    {middle final : Witnessed} (haction : broker.Runs action start (.error error) middle)
    (hundo : broker.Runs undo middle (.ok ()) final) : broker.Runs (orUndo action undo) start (.error error) final :=
  ends_bind_of_ok (ends_attempt.mpr ⟨_, rfl, haction⟩) (ends_bind_of_ok hundo (.done _ _))

theorem runs_ignore {α : Type} {action : ProviderAction α} {result : Except ProviderError α} {final : Witnessed}
    (h : broker.Runs action start result final) : broker.Runs (ignore action) start (.ok ()) final :=
  ends_bind_of_ok (ends_attempt.mpr ⟨_, rfl, ends_bind.mpr ⟨_, _, h, .done _ _⟩⟩) (.done _ _)

/-- A call of D-Bus that succeeds. -/
theorem runs_emit (signal : BusSignal) (error : String → SecretServiceError) :
    broker.Runs (emit signal error) (vault, log) (.ok ()) (vault, (.emit signal, true) :: log) :=
  ends_perform.mpr ⟨⟨⟨undisturbed, none⟩, none⟩, trivial, rfl, rfl⟩

theorem runs_tryUnregister (path : String) :
    broker.Runs (tryUnregister path) (vault, log) (.ok ()) (vault, (.unregister path, true) :: log) :=
  ends_bind_of_ok (ends_attempt.mpr ⟨.ok (), rfl, ends_perform.mpr ⟨⟨⟨undisturbed, none⟩, none⟩, trivial, rfl, rfl⟩⟩)
    (.done _ _)

theorem runs_announce (vault : Vault) (collection : Uuid) (replaced : List Uuid) (log : List (ProviderCall × Bool)) :
    ∃ announced, broker.Runs (forM replaced fun id => do
        tryUnregister (itemPath id)
        emit (.itemDeleted collection id) fun _ => .failed "unable to emit item signal" : HandlerAction Unit)
      (vault, log) (.ok ()) (vault, announced) := by
  induction replaced generalizing log with
  | nil => exact ⟨log, .done _ _⟩
  | cons id replaced ih =>
      obtain ⟨announced, hrest⟩ :=
        ih ((.emit (.itemDeleted collection id), true) :: (.unregister (itemPath id), true) :: log)
      exact ⟨announced, ends_bind_of_ok (ends_bind_of_ok (runs_tryUnregister _) (runs_emit _ _)) hrest⟩

theorem runs_register_failed (path : String) (object : BusObject) (error : String → SecretServiceError)
    (message : String) :
    broker.Runs (register path object error) (vault, log) (.error (error message))
      (vault, (.register path object, false) :: log) :=
  ends_perform.mpr ⟨⟨⟨undisturbed, some message⟩, none⟩, trivial, rfl, rfl⟩

theorem runs_check {result : Except ProtocolError Unit} (h : result = .ok ()) :
    broker.Runs (Provider.check result) start (.ok ()) start := by
  rw [h]
  exact .done _ _

/-- What was replaced is gone, and what replaced it is gone as well. -/
theorem not_losesNothing_of_supersedes {item found : ItemMetadata} {middle : Vault} {id : Uuid} {kept : SecretBytes}
    {submitted : Option SecretBytes} (hfound : broker.Readable vault id found kept)
    (hmiddle : broker.Supersedes vault item found middle)
    (hdeleted : final.lookup (.itemMetadata item.id) = none) (hothers : ∀ id, item.id ≠ id → SameAt id middle final) :
    ¬ broker.LosesNothing submitted vault final := by
  have hstored := stored_of_readable hfound
  have hlookup : ∀ {vault : Vault} {id item secret}, broker.Readable vault id item secret →
      vault.lookup (.itemMetadata id) ≠ none := by
    intro vault id item secret hreadable hnone
    obtain ⟨blob, hblob, -⟩ := RecordKind.stored_eq_some.mp (visible_items.mp (readable_iff.mp hreadable)).1
    cases hnone.symm.trans hblob
  have hid : found.id = id := id_of_visible (readable_iff.mp hfound)
  intro h
  rcases h id found kept hfound with hsame | ⟨new, secret, hnone, -, hnew, -⟩
  · refine hlookup hsame ?_
    by_cases hne : item.id = id
    · rw [← hne, hdeleted]
    · rw [hothers id hne (.itemMetadata id) rfl, ← hid, hmiddle.replaced]
  · have hne : item.id ≠ new.id := fun heq => hlookup hnew (heq ▸ hdeleted)
    obtain ⟨hmetadata, hsecret⟩ := visible_items.mp (readable_iff.mp hnew)
    obtain ⟨blob, hblob, hload⟩ := RecordKind.stored_eq_some.mp hmetadata
    have hvault : ∀ target : TargetName, target.BelongsTo new.id → ∀ blob, final.lookup target = some blob →
        vault.lookup target = some blob := by
      intro target htarget blob hblob
      rw [hothers _ hne target htarget] at hblob
      rcases hmiddle.others target fun hbelongs => hne (hbelongs.unique htarget) with hsame | hgone
      · rw [← hsame, hblob]
      · cases hgone.symm.trans hblob
    refine hnone new secret (readable_iff.mpr (visible_items.mpr ⟨?_, hvault (.itemSecret new.id _) rfl _ hsecret⟩))
    exact RecordKind.stored_eq_some.mpr ⟨blob, hvault (.itemMetadata new.id) rfl _ hblob, hload⟩

theorem runs_provider_createItem (hvalid : validateItem (submitted.item collectionId draws) = .ok ())
    {created : ItemMetadata} {replaced failed : List Uuid}
    (hanswer : (broker.respond
      ⟨.createOrReplaceItem (submitted.item collectionId draws) submitted.secret replace, fates⟩
      vault).outcome = .returned (.ok (.replacedItem created replaced failed))) :
    broker.Runs (Provider.createItem collectionId submitted.label submitted.attributes submitted.contentType
        submitted.secret replace draws) (vault, log) (.ok (created, replaced, failed))
      ((broker.respond ⟨.createOrReplaceItem (submitted.item collectionId draws) submitted.secret replace, fates⟩
        vault).state, (.broker (.createOrReplaceItem (submitted.item collectionId draws) submitted.secret replace),
          true) :: log) := by
  obtain ⟨-, -, hlabel, hattributes, hcontentType⟩ := validateItem_eq_ok.mp hvalid
  refine ends_bind_of_ok (runs_check (validateText_eq_ok.mpr hlabel)) ?_
  refine ends_bind_of_ok (runs_check hattributes) ?_
  refine ends_bind_of_ok (runs_check (validateText_eq_ok.mpr hcontentType)) ?_
  exact ends_bind_of_ok (runs_response hanswer) (.done _ _)

theorem runs_deleteItem {id : Uuid}
    (h : (broker.respond ⟨.deleteItem id, fates⟩ vault).outcome = .returned (.ok .empty)) :
    broker.Runs (Provider.deleteItem id) (vault, log) (.ok ())
      ((broker.respond ⟨.deleteItem id, fates⟩ vault).state, (.broker (.deleteItem id), true) :: log) :=
  ends_bind_of_ok (runs_response h) (.done _ _)

theorem exists_run_of_replaces (h : broker.Replaces vault collectionId replace draws submitted) :
    ∃ error final log, broker.Runs (createSubmitted collectionId replace draws submitted) (vault, []) (.error error)
        (final, log) ∧ ¬ broker.LosesNothing (some submitted.secret) vault final := by
  obtain ⟨rfl, haccepts, twin, found, kept, hreadable, htwins⟩ := h
  obtain ⟨⟨replaced, failed, hanswer⟩, hsupersedes⟩ :=
    supersedes_createOrReplaceItem submitted.secret haccepts (stored_of_readable hreadable) htwins
  obtain ⟨-, -, -, -, hcontentType⟩ := validateItem_eq_ok.mp haccepts.valid
  obtain ⟨hdeleted, hgone⟩ := respond_calm_deleteItem hsupersedes.created
  obtain ⟨announced, hannounced⟩ := runs_announce _ collectionId replaced
    [(.broker (.createOrReplaceItem (submitted.item collectionId draws) submitted.secret true), true)]
  refine ⟨.failed ("unable to register item: " ++ "refused"), _,
    (.broker (.deleteItem draws.id), true) :: (.register (itemPath draws.id) (.item draws.id), false) :: announced, ?_,
    not_losesNothing_of_supersedes hreadable hsupersedes hgone fun id hne => sameAt_deleteItem hne undisturbed⟩
  refine ends_bind_of_ok (ends_mapError_ok.mpr (runs_check (validateText_eq_ok.mpr hcontentType))) ?_
  refine ends_bind_of_ok (ends_mapError_ok.mpr (runs_provider_createItem haccepts.valid hanswer)) ?_
  refine ends_bind_of_ok hannounced (ends_bind_of_error ?_)
  exact runs_orUndo (runs_register_failed _ _ _ "refused") (runs_ignore (runs_deleteItem hdeleted))

end Handler

/-- A CreateItem that fails loses no secret as long as the object of the new item is registered. Whatever
fails, it loses none exactly if it does not replace an item that can be read. -/
theorem failed_createItem_loses_no_secret_iff (broker : Broker) (provider : Provider) (vault : Vault)
    (collectionId : Uuid) (sender : Option String) (properties : BTreeMap String DbusValue) (sent : DbusSecret)
    (replace : Bool) (draws : Draws) :
    let submitted := submission provider sender properties sent
    let secret := submitted.toOption.map Submission.secret
    let handler := CollectionObject.createItem provider collectionId sender properties sent replace draws
    (∀ error final log, broker.Runs handler (vault, []) (.error error) (final, log) → ¬ RegistrationFailed log →
      broker.LosesNothing secret vault final) ∧
    ((∀ error final log, broker.Runs handler (vault, []) (.error error) (final, log) →
      broker.LosesNothing secret vault final) ↔
      ∀ accepted, submitted = .ok accepted → ¬ broker.Replaces vault collectionId replace draws accepted) := by
  intro submitted secret handler
  have hhandler : handler = Action.ofExcept submitted >>= createSubmitted collectionId replace draws :=
    createItem_eq provider collectionId sender properties sent replace draws
  rw [hhandler]
  cases hsubmitted : submitted with
  | error error =>
      have hkept : ∀ error' final log,
          broker.Runs (Action.ofExcept (.error error) >>= createSubmitted collectionId replace draws)
          (vault, []) (.error error') (final, log) → broker.LosesNothing secret vault final := by
        intro error' final log hrun id item kept hitem
        cases (ends_done.mp hrun).2
        exact .inl hitem
      exact ⟨fun error' final log hrun _ => hkept error' final log hrun, iff_of_true hkept nofun⟩
  | ok accepted =>
      have hsecret : secret = some accepted.secret := by
        simp only [secret, hsubmitted]
        rfl
      rw [hsecret, ofExcept_ok_bind]
      have hleads : ∀ error final log, broker.Runs (createSubmitted collectionId replace draws accepted) (vault, [])
          (.error error) (final, log) →
          broker.LosesOnlyReplaced vault collectionId replace draws accepted (final, log) :=
        fun error final log hrun => leads_createSubmitted _ _ hrun
      refine ⟨fun error final log hrun hregistered => ?_, fun h other hother hreplaces => ?_,
        fun h error final log hrun => ?_⟩
      · exact (hleads error final log hrun).resolve_right fun hfailed => hregistered hfailed.1
      · cases hother
        obtain ⟨error, final, log, hrun, hlost⟩ := exists_run_of_replaces hreplaces
        exact hlost (h error final log hrun)
      · exact (hleads error final log hrun).resolve_right fun hfailed => h accepted rfl hfailed.2

/-! A client that submits a secret for an item with the attributes of the one that is there. -/

def plainProvider : Provider :=
  (Provider.new ⟨fun _ _ text => text, fun _ _ text => some text⟩).insertSession ⟨4⟩ ":1.7" .plain

def tokenProperties : BTreeMap String DbusValue := Std.ExtTreeMap.ofList [("Label", .text "token")] compare

def tokenSecret : DbusSecret := ⟨sessionPath ⟨4⟩, [], [116], "text/plain"⟩

def tokenSubmission : Submission := ⟨"token", ∅, ⟨[116], by decide⟩, "text/plain"⟩

def tokenDraws : Draws := ⟨6, ⟨3⟩, ⟨2⟩, fun _ => none⟩

theorem submission_token :
    submission plainProvider (some ":1.7") tokenProperties tokenSecret = .ok tokenSubmission := by
  have hproperties : itemProperties tokenProperties = .ok ("token", ∅) := by decide +kernel
  simp only [submission, ownerOf, hproperties]
  rfl

theorem readable_oneItem : (cborBroker inMemoryBackend).Readable ((cborBroker inMemoryBackend).after oneItemSteps ∅) ⟨9⟩
    ⟨1, ⟨9⟩, ⟨7⟩, "token", ∅, "text/plain", 5, 5, ⟨8⟩⟩ ⟨[115, 51], by decide⟩ := by
  refine readable_iff.mpr ((congrArg (fun visible : VisibleVault => visible.items[(⟨9⟩ : Uuid)]?)
    ((cborBroker inMemoryBackend).visible_calm (oneItemSteps.map BrokerStep.operation))).trans ?_)
  decide +kernel

theorem replaces_token : (cborBroker inMemoryBackend).Replaces
    ((cborBroker inMemoryBackend).after oneItemSteps ∅) ⟨7⟩ true
    tokenDraws tokenSubmission := by
  have hvisible : (cborBroker inMemoryBackend).visible ((cborBroker inMemoryBackend).after oneItemSteps ∅) = _ :=
    (cborBroker inMemoryBackend).visible_calm (oneItemSteps.map BrokerStep.operation)
  have hcollection : ((cborBroker inMemoryBackend).visible
      ((cborBroker inMemoryBackend).after oneItemSteps ∅)).collections[
      (⟨7⟩ : Uuid)]?.isSome := by
    rw [hvisible]
    decide +kernel
  have hitem : ((cborBroker inMemoryBackend).visible ((cborBroker inMemoryBackend).after oneItemSteps ∅)).items[
      (⟨3⟩ : Uuid)]? = none := by
    rw [hvisible]
    decide +kernel
  refine ⟨rfl, ⟨by decide +kernel, ?_, ?_, ?_⟩, ⟨9⟩, _, _, readable_oneItem, rfl, rfl⟩
  · exact stored_of_visible hcollection
  · exact (sound_empty.after oneItemSteps).fresh_of_visible hitem
  · exact ⟨_, (by decide +kernel :
      encodeMetadata (cborBroker inMemoryBackend).itemCodec (tokenSubmission.item ⟨7⟩ tokenDraws) =
      .ok ((cborCodec ItemMetadata.decodes).intoWriter (tokenSubmission.item ⟨7⟩ tokenDraws)).get!)⟩

/-- The registration of an item that replaces another one fails, and both are gone. -/
theorem failed_createItem_loses_replaced :
    let broker := cborBroker inMemoryBackend
    let vault := broker.after oneItemSteps ∅
    broker.Readable vault ⟨9⟩ ⟨1, ⟨9⟩, ⟨7⟩, "token", ∅, "text/plain", 5, 5, ⟨8⟩⟩ ⟨[115, 51], by decide⟩ ∧
    ∃ error final log, broker.Runs
      (CollectionObject.createItem plainProvider ⟨7⟩ (some ":1.7") tokenProperties tokenSecret
        true tokenDraws) (vault, []) (.error error) (final, log) ∧
      ¬ broker.LosesNothing (some ⟨[116], by decide⟩) vault final := by
  intro broker vault
  refine ⟨readable_oneItem, ?_⟩
  rw [createItem_eq, submission_token, ofExcept_ok_bind]
  exact exists_run_of_replaces replaces_token

/-- The answer to the request is lost: the new item has the secret. -/
theorem failed_createItem_loses_no_secret_after_timeout :
    let broker := cborBroker inMemoryBackend
    let vault := broker.after oneItemSteps ∅
    ∃ error final log, broker.Runs
      (CollectionObject.createItem plainProvider ⟨7⟩ (some ":1.7") tokenProperties tokenSecret
        true tokenDraws) (vault, []) (.error error) (final, log) ∧ ¬ RegistrationFailed log ∧
      broker.LosesNothing ((submission plainProvider (some ":1.7") tokenProperties tokenSecret).toOption.map
        Submission.secret) vault final := by
  intro broker vault
  have hvalid : validateItem (tokenSubmission.item ⟨7⟩ tokenDraws) = .ok () := replaces_token.accepts.valid
  obtain ⟨-, -, hlabel, hattributes, hcontentType⟩ := validateItem_eq_ok.mp hvalid
  have hrun : ∀ operation, operation = Operation.createOrReplaceItem (tokenSubmission.item ⟨7⟩ tokenDraws)
      tokenSubmission.secret true → broker.Runs (createSubmitted ⟨7⟩ true tokenDraws tokenSubmission) (vault, [])
        (.error (.ofProvider .timeout)) ((broker.respond ⟨operation, undisturbed⟩ vault).state,
          [(.broker operation, false)]) := by
    rintro _ rfl
    refine ends_bind_of_ok (ends_mapError_ok.mpr (runs_check (validateText_eq_ok.mpr hcontentType))) ?_
    refine ends_bind_of_error (ends_bind.mpr ⟨.error .timeout, _, ?_, .done _ _⟩)
    refine ends_bind_of_ok (runs_check (validateText_eq_ok.mpr hlabel)) ?_
    refine ends_bind_of_ok (runs_check hattributes) ?_
    refine ends_bind_of_ok (runs_check (validateText_eq_ok.mpr hcontentType)) ?_
    exact ends_bind_of_error (runs_response_lost _ .timeout)
  have hhandler := createItem_eq plainProvider ⟨7⟩ (some ":1.7") tokenProperties tokenSecret true tokenDraws
  rw [submission_token, ofExcept_ok_bind] at hhandler
  have hends := hrun _ rfl
  rw [← hhandler] at hends
  have hregistered : ¬ RegistrationFailed [(.broker (.createOrReplaceItem (tokenSubmission.item ⟨7⟩ tokenDraws)
      tokenSubmission.secret true), false)] := by
    rintro ⟨path, object, hmem⟩
    cases List.mem_singleton.mp hmem
  exact ⟨_, _, _, hends, hregistered,
    (failed_createItem_loses_no_secret_iff broker plainProvider vault ⟨7⟩ (some ":1.7")
    tokenProperties tokenSecret true tokenDraws).1 _ _ _ hends hregistered⟩

end Broker

end WincredLibsecret
