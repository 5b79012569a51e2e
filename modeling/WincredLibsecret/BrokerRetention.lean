import WincredLibsecret.BrokerFootprint
import WincredLibsecret.BrokerReplace

/-! How long an item keeps its secret. Requests that do not bring the item along can only delete credentials
of it; and as long as the metadata of an item is there, so is the secret it names. -/

namespace WincredLibsecret

open Effect Effect.Action

namespace Broker

variable {broker : Broker} {vault rest : Vault} {id : Uuid}

variable {step : BrokerStep} {item : ItemMetadata} {secret : SecretBytes}

/-- An item whose metadata is still there is the same item with the same secret. -/
theorem Sound.items_of_shrinksAt (hrest : broker.Sound rest) (hshrinks : vault.ShrinksAt (TargetName.BelongsTo id) rest)
    (hkept : (rest.lookup (.itemMetadata id)).isSome)
    (hitem : (broker.visible vault).items[id]? = some (item, secret)) :
    (broker.visible rest).items[id]? = some (item, secret) := by
  obtain ⟨hstored, hsecret⟩ := visible_items.mp hitem
  have hsame : rest.lookup (.itemMetadata id) = vault.lookup (.itemMetadata id) :=
    (hshrinks (.itemMetadata id) rfl).resolve_right fun hnone => by simp [hnone] at hkept
  have hstill : broker.itemKind.stored rest id = some item := (RecordKind.stored_congr hsame).trans hstored
  obtain ⟨current, hcurrent⟩ := hrest.secret_of_stored hstill
  refine visible_items.mpr ⟨hstill, ?_⟩
  rcases hshrinks (.itemSecret id item.currentGeneration) rfl with heq | hnone
  · rw [heq, hsecret]
  · rw [hnone] at hcurrent
    cases hcurrent

/-- A request to create an item that is there changes nothing. -/
theorem respond_createOrReplaceItem_of_isSome {replace : Bool} {fates : Fates BackendError}
    (h : (vault.lookup (.itemMetadata item.id)).isSome) :
    (broker.respond ⟨.createOrReplaceItem item secret replace, fates⟩ vault).state = vault := by
  have hwp : Action.wp broker.backend.serve (fun _ => True) (broker.execute (.createOrReplaceItem item secret replace))
      (fun _ => (· = vault)) (fun _ => (· = vault)) (· = vault) vault := by
    simp only [execute, perform, createOrReplaceItem, wp_bind, wp_acquireLock, wp_ofExcept,
      wp_requireCollection, wp_readCredential]
    refine ⟨trivial, fun _ _ => trivial, trivial, either_intro (fun _ _ => ?_) fun _ _ => rfl⟩
    refine ⟨rfl, fun _ _ => rfl, either_intro (fun _ _ => ?_) fun _ _ => rfl⟩
    rw [if_pos h]
    exact ⟨rfl, fun _ _ => rfl, rfl, rfl⟩
  exact execute_state_of_wp hwp (within_any fates)

variable (broker) in
/-- The request neither writes the item nor deletes it: if it brings the item along it is refused, and the
metadata of the item is still there afterwards. -/
structure Spares (id : Uuid) (step : BrokerStep) (vault : Vault) : Prop where
  refused : ∀ item, step.operation.suppliedItem = some item → item.id = id →
    ∃ error, (broker.respond step vault).outcome = .returned (.error error)
  kept : ((broker.respond step vault).state.lookup (.itemMetadata id)).isSome

theorem write_of_suppliedItem {operation : Operation} (h : operation.suppliedItem = some item) :
    (∃ write : RecordWrite, write.toOperation = operation) ∨
      ∃ secret replace, operation = .createOrReplaceItem item secret replace := by
  cases operation with
  | createItem created secret => exact .inl ⟨.createItem created secret, rfl⟩
  | updateItem updated secret => exact .inl ⟨.updateItem updated secret, rfl⟩
  | updateItemCas updated secret expectedModified => exact .inl ⟨.updateItemCas updated secret expectedModified, rfl⟩
  | createOrReplaceItem created secret replace =>
      cases h
      exact .inr ⟨secret, replace, rfl⟩
  | _ => cases h

theorem Sound.items_respond (hsound : broker.Sound vault) (hspares : broker.Spares id step vault)
    (hitem : (broker.visible vault).items[id]? = some (item, secret)) :
    (broker.visible (broker.respond step vault).state).items[id]? = some (item, secret) := by
  by_cases hother : ∀ item, step.operation.suppliedItem = some item → item.id ≠ id
  · exact (hsound.respond step).items_of_shrinksAt (respond_shrinksAt
      (fun _ => Operation.not_belongsTo_of_writes hother) vault) hspares.kept hitem
  · simp only [ne_eq, not_forall, not_not] at hother
    obtain ⟨sent, hsent, rfl⟩ := hother
    obtain ⟨error, herror⟩ := hspares.refused sent hsent rfl
    obtain ⟨operation, fates⟩ := step
    rcases write_of_suppliedItem hsent with ⟨write, rfl⟩ | ⟨new, replace, rfl⟩
    · rw [hsound.visible_of_error herror, hitem]
    · have hpresent : (vault.lookup (.itemMetadata sent.id)).isSome := by
        obtain ⟨blob, hblob, -⟩ := RecordKind.stored_eq_some.mp (visible_items.mp hitem).1
        exact Option.isSome_of_eq_some hblob
      rw [respond_createOrReplaceItem_of_isSome hpresent, hitem]

/-- An item that is neither written nor deleted keeps its secret. -/
theorem Sound.items_after (hsound : broker.Sound vault) (steps : List BrokerStep)
    (hspares : ∀ start ∈ broker.starts steps vault, broker.Spares id start.1 start.2)
    (hitem : (broker.visible vault).items[id]? = some (item, secret)) :
    (broker.visible (broker.after steps vault)).items[id]? = some (item, secret) := by
  induction steps generalizing vault with
  | nil => exact hitem
  | cons step rest ih =>
      obtain ⟨hfirst, hothers⟩ := List.forall_mem_cons.mp hspares
      exact ih (hsound.respond step) hothers (hsound.items_respond hfirst hitem)

/-- The call neither writes nor deletes a credential of the item. -/
def KeepsOff (id : Uuid) : VaultCall → Prop
  | .write target _ | .delete target => ¬ target.BelongsTo id
  | _ => True

theorem calls_keepsOff_deleteReplacedItems (entries : List Entry) {ids : List Uuid} (h : id ∉ ids) :
    Action.Calls (KeepsOff id) (deleteReplacedItems entries ids) := by
  induction ids with
  | nil => exact calls_pure _
  | cons replaced others ih =>
      obtain ⟨hne, hothers⟩ := not_or.mp (mt List.mem_cons.mpr h)
      have hitem : Action.Calls (KeepsOff id) (deleteReplacedItem replaced entries) := by
        refine calls_bind (calls_perform (Ne.symm hne)) fun _ =>
          calls_forM fun target htarget => ?_
        obtain ⟨generation, rfl⟩ := mem_secretTargets htarget
        exact calls_bind (calls_attempt (calls_perform (Ne.symm hne))) fun _ => calls_pure _
      refine calls_bind (calls_attempt hitem) fun outcome =>
        calls_bind (ih hothers) fun others => ?_
      cases outcome <;> exact calls_pure _

/-- The credentials of the item are those of the first vault. -/
def SameAt (id : Uuid) (vault rest : Vault) : Prop :=
  ∀ target : TargetName, target.BelongsTo id → rest.lookup target = vault.lookup target

theorem serve_of_keepsOff (vault : Vault) (request : VaultCall) (h : KeepsOff id request) (rest : Vault)
    (hrest : SameAt id vault rest) : SameAt id vault (broker.backend.serve request rest).2 := by
  intro target htarget
  have hne : ∀ {other : TargetName}, ¬ other.BelongsTo id → other ≠ target := by
    rintro _ hother rfl
    exact hother htarget
  cases request with
  | write written blob => exact (Vault.lookup_put_of_ne (hne h)).trans (hrest target htarget)
  | delete deleted => exact (Vault.lookup_drop_of_ne (hne h)).trans (hrest target htarget)
  | _ => exact hrest target htarget

theorem items_of_sameAt {blob : Blob} (hvalid : validateItem item = .ok ())
    (hblob : encodeMetadata broker.itemCodec item = .ok blob)
    (hsame : SameAt item.id (committed vault item secret blob) rest) :
    (broker.visible rest).items[item.id]? = some (item, secret) := by
  refine visible_items.mpr ⟨RecordKind.stored_eq_some.mpr ⟨blob, ?_, broker.itemKind.load_of_encode hvalid hblob⟩, ?_⟩
  · refine (hsame (.itemMetadata item.id) rfl).trans ?_
    rw [committed, Vault.lookup_put_self]
  · refine (hsame (.itemSecret item.id item.currentGeneration) rfl).trans ?_
    rw [committed, Vault.lookup_put_of_ne (by simp), Vault.lookup_put_self]

/-- The part of the request that commits the item and deletes the replaced ones. -/
theorem wp_commit_new {replaced : List Uuid} (hvalid : validateItem item = .ok ()) (hreplaced : item.id ∉ replaced) :
    Action.wp broker.backend.serve (fun _ => True) (do
        broker.commitNewGeneration item none secret
        let entries ← entries
        let outcome ← deleteReplacedItems entries replaced
        pure (ResponseBody.replacedItem item outcome.1 outcome.2))
      (fun body rest => (∃ replaced failed, body = .replacedItem item replaced failed) ∧
        (broker.visible rest).items[item.id]? = some (item, secret)) (fun _ _ => True) (fun _ => True) vault := by
  rw [wp_bind]
  refine wp_commitNewGeneration trivial (fun _ _ => trivial) (fun _ _ => trivial)
    (fun _ _ => ⟨trivial, fun _ _ => trivial⟩)
    (fun _ _ => ⟨trivial, fun _ _ => trivial⟩) fun blob hblob new hnew => ⟨⟨trivial, ?_⟩, nofun⟩
  simp only [wp_bind, wp_entries, wp_pure]
  refine ⟨trivial, fun _ _ => trivial, wp_mono (fun outcome rest hsame => ?_) (fun _ _ _ => trivial)
    (fun _ _ => trivial) (wp_of_calls (serve_of_keepsOff new) (calls_keepsOff_deleteReplacedItems _ hreplaced)
      fun _ _ => rfl)⟩
  exact ⟨trivial, ⟨_, _, rfl⟩, items_of_sameAt hvalid hblob (hnew ▸ hsame)⟩

theorem items_of_createOrReplaceItem {replace : Bool} {fates : Fates BackendError} {body : ResponseBody}
    (h : (broker.respond ⟨.createOrReplaceItem item secret replace, fates⟩ vault).outcome = .returned (.ok body)) :
    (∃ replaced failed, body = .replacedItem item replaced failed) ∧
      (broker.visible (broker.respond ⟨.createOrReplaceItem item secret replace, fates⟩ vault).state).items[item.id]? =
        some (item, secret) := by
  refine of_respond_ok (fun body rest => (∃ replaced failed, body = .replacedItem item replaced failed) ∧
    (broker.visible rest).items[item.id]? = some (item, secret)) h ?_
  simp only [perform, createOrReplaceItem, wp_bind, wp_ofExcept, wp_requireCollection, wp_readCredential]
  refine ⟨trivial, either_intro (fun _ hvalid => ?_) fun _ _ => trivial⟩
  refine ⟨trivial, fun _ _ => trivial, either_intro (fun _ _ => ?_) fun _ _ => trivial⟩
  refine ⟨trivial, fun _ _ => trivial, ?_⟩
  cases hstored : vault.lookup (.itemMetadata item.id) with
  | some blob => exact ⟨trivial, trivial⟩
  | none =>
      have hreplaced : ∀ found ∈ broker.itemsOf vault, found.id ≠ item.id := by
        intro found hfound hid
        obtain ⟨blob, hblob, -⟩ := RecordKind.stored_eq_some.mp (mem_itemsOf.mp hfound)
        rw [hid] at hblob
        cases hstored.symm.trans hblob
      simp only [Option.isSome_none, Bool.false_eq_true, if_false]
      rw [wp_bind, replacedItemIds]
      cases replace with
      | false => exact ⟨trivial, wp_commit_new hvalid List.not_mem_nil⟩
      | true =>
          rw [if_pos rfl, wp_bind, wp_validItems]
          refine ⟨trivial, fun _ _ => trivial, trivial, wp_commit_new hvalid fun hmem => ?_⟩
          obtain ⟨found, hfound, hid⟩ := List.mem_map.mp hmem
          exact hreplaced found (List.mem_of_mem_filter hfound) hid

/-- An update with a secret leaves the item with this secret and the fields that were sent. -/
theorem Sound.items_of_updateItemCas (hsound : broker.Sound vault) {expectedModified : UInt64}
    {fates : Fates BackendError} {body : ResponseBody}
    (h : (broker.respond ⟨.updateItemCas item (some secret) expectedModified, fates⟩ vault).outcome =
      .returned (.ok body)) :
    ∃ existing, (broker.visible
        (broker.respond ⟨.updateItemCas item (some secret) expectedModified, fates⟩ vault).state).items[item.id]? =
      some (item.revise (some secret) existing, secret) := by
  have happly : (broker.visible vault).apply (.updateItemCas item (some secret) expectedModified) = some (body, _) :=
    hsound.apply_of_ok h
  obtain ⟨-, hupdate⟩ := VisibleVault.updateItemCas_eq_some happly
  obtain ⟨existing, current, -, -, hchanged⟩ := VisibleVault.update_eq_some hupdate
  refine ⟨existing, (congrArg (fun visible => visible.items[item.id]?) hchanged).trans ?_⟩
  exact Std.ExtTreeMap.getElem?_insert_self

end Broker

end WincredLibsecret
