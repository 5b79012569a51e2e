import WincredLibsecret.BrokerView

/-! Creating an item that replaces others. The new item is committed first and the replaced ones are
deleted afterwards, as well as it goes. A failure should therefore mean that nothing was committed. One
backend call breaks this: the vault is listed again right after the commit, and an error of that listing
is returned as the error of the request. -/

namespace WincredLibsecret

open Effect Effect.Action

namespace Broker

variable {broker : Broker} {vault rest : Vault} {item : ItemMetadata} {secret : SecretBytes}
  {fates : Fates BackendError}

/-- Readers of items are answered as before. -/
structure SameItems (broker : Broker) (vault rest : Vault) : Prop where
  getItem : ∀ itemId includeSecret,
    broker.view rest (.getItem itemId includeSecret) = broker.view vault (.getItem itemId includeSecret)
  searchItems : ∀ attributes, broker.view rest (.searchItems attributes) = broker.view vault (.searchItems attributes)

theorem SameItems.refl (broker : Broker) (vault : Vault) : broker.SameItems vault vault :=
  ⟨fun _ _ => rfl, fun _ => rfl⟩

/-- A secret of an item without metadata is not seen, whatever else the vault holds. -/
theorem sameItems_of_agree {itemId generation : Uuid} (hnone : vault.lookup (.itemMetadata itemId) = none)
    (hagree : ∀ target, target ≠ .itemSecret itemId generation → rest.lookup target = vault.lookup target) :
    broker.SameItems vault rest := by
  have hmetadata : ∀ id, rest.lookup (.itemMetadata id) = vault.lookup (.itemMetadata id) :=
    fun id => hagree _ nofun
  constructor
  · intro id includeSecret
    have hitemAt : broker.itemAt rest id = broker.itemAt vault id := by rw [itemAt, itemAt, hmetadata]
    rw [view_getItem, view_getItem, hitemAt]
    cases hitem : broker.itemAt vault id with
    | error error => rfl
    | ok found =>
        have hsecret : rest.lookup (.itemSecret id found.currentGeneration) =
            vault.lookup (.itemSecret id found.currentGeneration) := by
          refine hagree _ fun heq => ?_
          obtain ⟨rfl, -⟩ := TargetName.itemSecret.inj heq
          rw [itemAt, hnone] at hitem
          cases hitem
        simp only [bind, Except.bind, hsecret]
  · intro attributes
    rw [view_searchItems, view_searchItems, itemsOf_congr hmetadata]

/-- The vault after the commit of a new item. -/
def committed (vault : Vault) (item : ItemMetadata) (secret : SecretBytes) (blob : Blob) : Vault :=
  (vault.put (.itemSecret item.id item.currentGeneration) secret.bytes).put (.itemMetadata item.id) blob

/-- A committed item is visible with its secret. -/
theorem view_committed {blob : Blob} (hvalid : validateItem item = .ok ())
    (hblob : encodeMetadata broker.itemCodec item = .ok blob) :
    broker.view (committed vault item secret blob) (.getItem item.id true) = .ok (.item item (some secret)) := by
  have hitem : broker.itemAt (committed vault item secret blob) item.id = .ok item :=
    itemAt_eq_ok.mpr (RecordKind.stored_put_self (broker.itemKind.load_of_encode hvalid hblob))
  have hsecret : (committed vault item secret blob).lookup (.itemSecret item.id item.currentGeneration) =
      some secret.bytes := by
    rw [committed, Vault.lookup_put_of_ne (by simp), Vault.lookup_put_self]
  rw [view_getItem, hitem]
  simp only [bind, Except.bind, hsecret, loadSecret, SecretBytes.new_bytes]
  rfl

theorem not_sameItems_committed {blob : Blob} (hvalid : validateItem item = .ok ())
    (hnone : vault.lookup (.itemMetadata item.id) = none)
    (hblob : encodeMetadata broker.itemCodec item = .ok blob) :
    ¬ broker.SameItems vault (committed vault item secret blob) := by
  intro hsame
  have hview := hsame.getItem item.id true
  rw [view_committed hvalid hblob, view_getItem, itemAt, hnone] at hview
  cases hview

/-- With two served writes the commit of a new item succeeds. -/
theorem execute_commitNewGeneration {blob : Blob} (hblob : encodeMetadata broker.itemCodec item = .ok blob)
    (hsecret : fates 0 = .serve) (hmetadata : fates 1 = .serve) :
    Action.execute broker.backend.serve (broker.commitNewGeneration item none secret) fates vault =
      ⟨.returned (.ok ()), committed vault item secret blob, fates.rest.rest⟩ := by
  simp only [commitNewGeneration, execute_bind, execute_ofExcept, hblob, andThen_ok,
    execute_writeCredential, hsecret, execute_attempt, Fates.rest_apply, Nat.zero_add, hmetadata, Ending.map]
  rfl

/-- Without them it does not. -/
theorem execute_commitNewGeneration_ne_ok
    (h : ∀ blob, encodeMetadata broker.itemCodec item = .ok blob → fates 0 = .serve → fates 1 ≠ .serve) (value : Unit) :
    (Action.execute broker.backend.serve (broker.commitNewGeneration item none secret) fates vault).outcome ≠
      .returned (.ok value) := by
  cases hblob : encodeMetadata broker.itemCodec item with
  | error error => simp [commitNewGeneration, execute_bind, execute_ofExcept, hblob]
  | ok blob =>
      simp only [commitNewGeneration, execute_bind, execute_ofExcept, hblob, andThen_ok,
        execute_writeCredential, execute_attempt]
      cases hsecret : fates 0 with
      | fail error => simp [andThen]
      | kill => simp [andThen]
      | serve =>
          rw [andThen_ok, Fates.rest_apply]
          cases hmetadata : fates 1 with
          | serve => exact absurd hmetadata (h blob hblob hsecret)
          | kill => simp [Ending.map, andThen]
          | fail error =>
              simp only [Ending.map, andThen_ok, execute_bind, execute_attempt,
                execute_deleteCredential, Fates.rest_apply]
              cases fates 2 <;> exact fun hok => by cases hok

/-- A failed commit of a new item leaves at most its secret behind. -/
theorem wp_commitNewGeneration_agree (vault : Vault) (item : ItemMetadata) (secret : SecretBytes) :
    wp broker.backend.serve (fun _ => True) (broker.commitNewGeneration item none secret) (fun _ _ => True)
      (fun _ rest => ∀ target, target ≠ .itemSecret item.id item.currentGeneration →
        rest.lookup target = vault.lookup target) (fun _ => True) vault := by
  refine wp_commitNewGeneration trivial (fun _ _ _ _ => rfl) (fun _ _ _ _ => rfl) ?_ ?_
    fun _ _ _ _ => ⟨⟨trivial, trivial⟩, fun _ _ _ => ⟨trivial, trivial⟩⟩
  · rintro _ rfl
    exact ⟨trivial, fun _ _ target hne => Vault.lookup_put_of_ne (Ne.symm hne)⟩
  · rintro _ rfl
    refine ⟨trivial, fun _ _ target hne => ?_⟩
    rw [Vault.lookup_drop_of_ne (Ne.symm hne), Vault.lookup_put_of_ne (Ne.symm hne)]

/-- The deletion of the replaced items never fails. -/
theorem wp_deleteReplacedItems (entries : List Entry) (ids : List Uuid) :
    wp broker.backend.serve (fun _ => True) (deleteReplacedItems entries ids) (fun _ _ => True)
      (fun _ _ => False) (fun _ => True) vault := by
  induction ids generalizing vault with
  | nil => exact ⟨trivial, trivial⟩
  | cons id rest ih =>
      simp only [deleteReplacedItems, wp_bind, wp_attempt]
      refine wp_mono (fun _ _ _ => ?_) (fun _ _ _ => ?_) (fun _ h => h)
        (wp_trivial (deleteReplacedItem id entries) vault)
      all_goals exact wp_mono (fun _ _ h => ⟨h, h⟩) (fun _ _ h => h) (fun _ h => h) ih

theorem execute_replacedItemIds :
    Action.execute broker.backend.serve (broker.replacedItemIds item true) fates vault =
      answered fates vault (.ok (((broker.itemsOf vault).filter fun existing =>
        existing.collectionId = item.collectionId ∧ existing.attributes = item.attributes).map ItemMetadata.id)) := by
  rw [replacedItemIds, if_pos rfl, execute_bind, execute_validItems, answered, answered]
  cases fates 0 <;> rfl

/-- The commit and what follows it fail with a trace exactly if the listing after the commit fails. -/
theorem commit_fails_clean_iff (hvalid : validateItem item = .ok ())
    (hnone : vault.lookup (.itemMetadata item.id) = none) (replaced : List Uuid) :
    let ending := Action.execute broker.backend.serve (do
      broker.commitNewGeneration item none secret
      let entries ← entries
      let outcome ← deleteReplacedItems entries replaced
      pure (ResponseBody.replacedItem item outcome.1 outcome.2)) fates vault
    (∀ error, ending.outcome = .returned (.error error) → broker.SameItems vault ending.state) ↔
      ¬ ((∃ blob, encodeMetadata broker.itemCodec item = .ok blob) ∧ fates 0 = .serve ∧ fates 1 = .serve ∧
        ∃ error, fates 2 = .fail error) := by
  intro ending
  have hending : ending = andThen
      (Action.execute broker.backend.serve (broker.commitNewGeneration item none secret) fates vault) _ :=
    execute_bind _ _ fates vault
  by_cases hcommit : ∃ blob, encodeMetadata broker.itemCodec item = .ok blob ∧ fates 0 = .serve ∧ fates 1 = .serve
  · obtain ⟨blob, hblob, hsecret, hmetadata⟩ := hcommit
    rw [execute_commitNewGeneration hblob hsecret hmetadata, andThen_ok, execute_bind,
      execute_entries] at hending
    have hnext : fates.rest.rest 0 = fates 2 := rfl
    cases hlisting : fates 2 with
    | serve =>
        -- from here on nothing fails any more
        rw [answered_serve (hnext.trans hlisting), andThen_ok] at hending
        refine iff_of_true (fun error herror => ?_) (by simp)
        have hwp : wp broker.backend.serve (fun _ => True) (do
            let outcome ← deleteReplacedItems (broker.entriesOf (committed vault item secret blob)) replaced
            pure (ResponseBody.replacedItem item outcome.1 outcome.2)) (fun _ _ => True) (fun _ _ => False)
            (fun _ => True) (committed vault item secret blob) := by
          rw [wp_bind]
          exact wp_mono (fun _ _ h => ⟨h, h⟩) (fun _ _ h => h) (fun _ h => h) (wp_deleteReplacedItems _ _)
        rw [hending] at herror
        exact (execute_of_wp hwp (within_any _) herror).elim
    | fail error =>
        rw [answered_fail (hnext.trans hlisting), andThen_error] at hending
        refine iff_of_false (fun hclean => ?_) (by simpa using ⟨⟨blob, hblob⟩, hsecret, hmetadata⟩)
        rw [hending] at hclean
        exact not_sameItems_committed hvalid hnone hblob (hclean _ rfl)
    | kill =>
        rw [answered_kill (hnext.trans hlisting), andThen_killed] at hending
        refine iff_of_true (fun error herror => ?_) (by simp)
        rw [hending] at herror
        cases herror
  · refine iff_of_true (fun error herror => ?_) fun ⟨⟨blob, hblob⟩, hsecret, hmetadata, _⟩ =>
      hcommit ⟨blob, hblob, hsecret, hmetadata⟩
    rw [hending] at herror ⊢
    obtain ⟨hfailed, hstate⟩ := andThen_of_ne_ok (execute_commitNewGeneration_ne_ok
      fun blob hblob hsecret hmetadata => hcommit ⟨blob, hblob, hsecret, hmetadata⟩) _ herror
    rw [hstate]
    exact sameItems_of_agree hnone
      (execute_of_wp (wp_commitNewGeneration_agree vault item secret) (within_any fates) hfailed)

/-- The backend calls up to the commit: the lock, the reads of the collection and of the metadata, the
listing of the items to replace if there are any, and the two writes. -/
def callsToCommit (replace : Bool) : Nat := if replace then 6 else 5

/-- The request commits its item, and then the listing of the vault fails. -/
structure LosesListing (broker : Broker) (item : ItemMetadata) (replace : Bool) (fates : Fates BackendError)
    (vault : Vault) : Prop where
  valid : validateItem item = .ok ()
  collection : ∃ collection, broker.collectionKind.stored vault item.collectionId = some collection
  fresh : vault.lookup (.itemMetadata item.id) = none
  encodes : ∃ blob, encodeMetadata broker.itemCodec item = .ok blob
  served : ∀ n < callsToCommit replace, fates n = .serve
  lost : ∃ error, fates (callsToCommit replace) = .fail error

theorem fails_clean_of_stopped {ending : Ending BackendError Vault (Except BrokerError ResponseBody)} {lost : Prop}
    (hstate : ending.state = vault) (hnot : ¬ lost) :
    (∀ error, ending.outcome = .returned (.error error) → broker.SameItems vault ending.state) ↔ ¬ lost :=
  iff_of_true (fun _ _ => hstate ▸ SameItems.refl broker vault) hnot

/-- A request to create or replace an item that answers an error has changed no answer about items,
except exactly if the listing after its commit failed: then the new item is there. -/
theorem createOrReplaceItem_fails_clean_iff (broker : Broker) (item : ItemMetadata) (secret : SecretBytes)
    (replace : Bool) (fates : Fates BackendError) (vault : Vault) :
    let ending := broker.respond ⟨.createOrReplaceItem item secret replace, fates⟩ vault
    (∀ error, ending.outcome = .returned (.error error) → broker.SameItems vault ending.state) ↔
      ¬ broker.LosesListing item replace fates vault := by
  intro ending
  have hpositive : 3 < callsToCommit replace := by cases replace <;> decide
  simp only [ending, respond, execute, perform, createOrReplaceItem, execute_bind, execute_acquireLock,
    execute_ofExcept, execute_requireCollection, execute_readCredential]
  rcases andThen_answered_cases fates vault (.ok ()) _ with ⟨_, hlock, -, hgo⟩ | ⟨hstop, hstate⟩
  case inr =>
    exact fails_clean_of_stopped hstate fun hlost => hstop (hlost.served 0 (by omega)) () rfl
  rw [hgo]
  rcases hvalid : validateItem item with error | _
  · exact fails_clean_of_stopped rfl fun hlost => absurd (hvalid.symm.trans hlost.valid) (by simp)
  rw [andThen_ok]
  rcases andThen_answered_cases fates.rest vault _ _ with ⟨collection, hread, hcollection, hgo⟩ | ⟨hstop, hstate⟩
  case inr =>
    refine fails_clean_of_stopped hstate fun hlost => ?_
    obtain ⟨collection, hcollection⟩ := hlost.collection
    exact hstop (hlost.served 1 (by omega)) collection (mapError_eq_ok.mpr (collectionAt_eq_ok.mpr hcollection))
  rw [hgo]
  rcases andThen_answered_cases fates.rest.rest vault (.ok (vault.lookup (.itemMetadata item.id))) _ with
    ⟨stored, hread', hstored, hgo⟩ | ⟨hstop, hstate⟩
  case inr =>
    exact fails_clean_of_stopped hstate fun hlost => hstop (hlost.served 2 (by omega)) _ rfl
  rw [hgo]
  cases hstored
  rcases hmetadata : vault.lookup (.itemMetadata item.id) with _ | blob
  case some => exact fails_clean_of_stopped rfl fun hlost => absurd (hmetadata.symm.trans hlost.fresh) (by simp)
  have hfound : ∃ collection, broker.collectionKind.stored vault item.collectionId = some collection :=
    ⟨collection, collectionAt_eq_ok.mp (mapError_eq_ok.mp hcollection)⟩
  cases replace with
  | false =>
      refine (commit_fails_clean_iff hvalid hmetadata []).trans (not_congr ⟨?_, fun hlost => ?_⟩)
      · rintro ⟨hencodes, hsecret, hcommit, hlost⟩
        refine ⟨hvalid, hfound, hmetadata, hencodes, fun n hn => ?_, hlost⟩
        rcases n with _ | _ | _ | _ | _ | n
        all_goals first | assumption | exact absurd hn (by simp [callsToCommit])
      · exact ⟨hlost.encodes, hlost.served 3 (by decide), hlost.served 4 (by decide), hlost.lost⟩
  | true =>
      rw [if_neg (by simp), execute_bind, execute_replacedItemIds]
      rcases andThen_answered_cases fates.rest.rest.rest vault _ _ with ⟨replaced, hlist, -, hgo⟩ | ⟨hstop, hstate⟩
      case inr =>
        exact fails_clean_of_stopped hstate fun hlost => hstop (hlost.served 3 (by decide)) _ rfl
      rw [hgo]
      refine (commit_fails_clean_iff hvalid hmetadata replaced).trans (not_congr ⟨?_, fun hlost => ?_⟩)
      · rintro ⟨hencodes, hsecret, hcommit, hlost⟩
        refine ⟨hvalid, hfound, hmetadata, hencodes, fun n hn => ?_, hlost⟩
        rcases n with _ | _ | _ | _ | _ | _ | n
        all_goals first | assumption | exact absurd hn (by simp [callsToCommit])
      · exact ⟨hlost.encodes, hlost.served 4 (by decide), hlost.served 5 (by decide), hlost.lost⟩

/-- The listing after the commit fails: the request answers an error, and the item is there. -/
theorem createOrReplaceItem_fails_after_commit :
    let broker := cborBroker inMemoryBackend
    let unavailable : BackendError := ⟨.backendUnavailable, "Windows Credential Manager operation failed"⟩
    let item : ItemMetadata := ⟨1, ⟨9⟩, ⟨7⟩, "token", ∅, "text/plain", 5, 5, ⟨8⟩⟩
    let secret : SecretBytes := ⟨[115, 51], by decide⟩
    let vault := broker.after [⟨.createCollection ⟨1, ⟨7⟩, "login", 5, 5⟩, undisturbed⟩] ∅
    let ending := broker.respond
      ⟨.createOrReplaceItem item secret false, fun n => if n = 5 then .fail unavailable else .serve⟩ vault
    broker.view vault (.getItem ⟨9⟩ true) = .error (notFound "item does not exist") ∧
      ending.outcome = .returned (.error unavailable.toBrokerError) ∧
      broker.view ending.state (.getItem ⟨9⟩ true) = .ok (.item item (some secret)) := by
  decide +kernel

end Broker

end WincredLibsecret
