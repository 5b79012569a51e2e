import WincredLibsecret.BrokerInvariant

/-! Runs of the broker. A run is a list of requests, each with the fates of the backend calls made for
it: any call may fail, and the broker may be killed before any call, after which the next request finds
what was left. Brokers that share a vault are serialised by its lock, so their requests form one run. -/

namespace WincredLibsecret

open Effect Effect.Action

/-- One request of a run and what happens to the backend calls made for it. -/
structure BrokerStep where
  operation : Operation
  fates : Fates BackendError

namespace Broker

/-- How the broker executes a request against a vault. -/
def respond (broker : Broker) (step : BrokerStep) (vault : Vault) :
    Ending BackendError Vault (Except BrokerError ResponseBody) :=
  Action.execute broker.backend.serve (broker.execute step.operation) step.fates vault

/-- The vaults a request goes through. -/
def passes (broker : Broker) (step : BrokerStep) (vault : Vault) : List Vault :=
  Action.visited broker.backend.serve (broker.execute step.operation) step.fates vault

/-- The vault a run leaves. -/
def after (broker : Broker) : List BrokerStep → Vault → Vault
  | [], vault => vault
  | step :: rest, vault => broker.after rest (broker.respond step vault).state

/-- The vaults a run goes through. -/
def history (broker : Broker) : List BrokerStep → Vault → List Vault
  | [], vault => [vault]
  | step :: rest, vault => broker.passes step vault ++ broker.history rest (broker.respond step vault).state

/-- The requests of a run, each with the vault it starts from. -/
def starts (broker : Broker) : List BrokerStep → Vault → List (BrokerStep × Vault)
  | [], _ => []
  | step :: rest, vault => (step, vault) :: broker.starts rest (broker.respond step vault).state

/-- A vault some run from the empty vault leaves behind. -/
def Reachable (broker : Broker) (vault : Vault) : Prop := ∃ steps, broker.after steps ∅ = vault

variable {broker : Broker} {vault : Vault}

theorem after_append (first second : List BrokerStep) :
    broker.after (first ++ second) vault = broker.after second (broker.after first vault) := by
  induction first generalizing vault with
  | nil => rfl
  | cons step rest ih => exact ih

theorem respond_state_mem_passes (broker : Broker) (step : BrokerStep) (vault : Vault) :
    (broker.respond step vault).state ∈ broker.passes step vault :=
  Program.run_state_mem_states _ _ _

/-- A request that only reads leaves the vault as it is. -/
theorem respond_state_of_reading {operation : Operation}
    (hcalls : Action.Calls VaultCall.IsReading (broker.perform operation)) (fates : Fates BackendError) :
    (broker.respond ⟨operation, fates⟩ vault).state = vault := by
  have hwp : Action.wp broker.backend.serve (fun _ => True) (broker.execute operation) (fun _ => (· = vault))
      (fun _ => (· = vault)) (· = vault) vault :=
    wp_of_reading (calls_bind (calls_perform trivial) fun _ => hcalls) rfl (fun _ => rfl) fun _ => rfl
  exact execute_state_of_wp hwp (within_any fates)

/-- What holds of a result of the operation, if it has one, holds of the answer. -/
theorem of_respond_ok (ok : ResponseBody → Vault → Prop) {operation : Operation} {fates : Fates BackendError}
    {body : ResponseBody} (h : (broker.respond ⟨operation, fates⟩ vault).outcome = .returned (.ok body))
    (hwp : wp broker.backend.serve (fun _ => True) (broker.perform operation) ok (fun _ _ => True) (fun _ => True)
      vault) : ok body (broker.respond ⟨operation, fates⟩ vault).state := by
  have hexecute : wp broker.backend.serve (fun _ => True) (broker.execute operation) ok (fun _ _ => True)
      (fun _ => True) vault := by
    simp only [execute, wp_bind, wp_acquireLock]
    exact ⟨trivial, fun _ _ => trivial, hwp⟩
  exact execute_of_wp hexecute (within_any fates) h

theorem Sound.respond (hsound : broker.Sound vault) (step : BrokerStep) :
    broker.Sound (broker.respond step vault).state :=
  execute_state_of_wp (keeps_execute hsound step.operation) (within_any step.fates)

theorem Sound.passes (hsound : broker.Sound vault) (step : BrokerStep) :
    ∀ passed ∈ broker.passes step vault, broker.Sound passed :=
  visited_of_wp (keeps_execute hsound step.operation) (within_any step.fates)

theorem Sound.after (hsound : broker.Sound vault) (steps : List BrokerStep) :
    broker.Sound (broker.after steps vault) := by
  induction steps generalizing vault with
  | nil => exact hsound
  | cons step rest ih => exact ih (hsound.respond step)

theorem Sound.history (hsound : broker.Sound vault) (steps : List BrokerStep) :
    ∀ passed ∈ broker.history steps vault, broker.Sound passed := by
  induction steps generalizing vault with
  | nil =>
      intro passed hpassed
      rw [List.mem_singleton.mp hpassed]
      exact hsound
  | cons step rest ih =>
      intro passed hpassed
      rcases List.mem_append.mp hpassed with hstep | hrest
      · exact hsound.passes step passed hstep
      · exact ih (hsound.respond step) passed hrest

theorem Sound.starts (hsound : broker.Sound vault) (steps : List BrokerStep) :
    ∀ start ∈ broker.starts steps vault, broker.Sound start.2 := by
  induction steps generalizing vault with
  | nil => exact fun _ h => absurd h List.not_mem_nil
  | cons step rest ih =>
      intro start hstart
      rcases List.mem_cons.mp hstart with rfl | hrest
      · exact hsound
      · exact ih (hsound.respond step) start hrest

theorem Reachable.sound (h : broker.Reachable vault) : broker.Sound vault := by
  obtain ⟨steps, rfl⟩ := h
  exact sound_empty.after steps

theorem Sound.itemAt_error (hsound : broker.Sound vault) {id : Uuid} {error : BrokerError}
    (h : broker.itemAt vault id = .error error) : error = notFound "item does not exist" := by
  rw [itemAt] at h
  cases hblob : vault.lookup (.itemMetadata id) with
  | none =>
      rw [hblob] at h
      cases h
      rfl
  | some blob =>
      obtain ⟨item, hload, -⟩ := hsound.items id blob hblob
      rw [hblob, RecordKind.require, hload] at h
      cases h

theorem Sound.getItem_error (hsound : broker.Sound vault) (id : Uuid) (includeSecret : Bool) :
    Action.wp broker.backend.serve (fun _ => True) (broker.execute (.getItem id includeSecret)) (fun _ _ => True)
      (fun error _ => error.code ≠ .corruptState) (fun _ => True) vault := by
  have hbackend : ∀ error : BackendError, True → error.toBrokerError.code ≠ .corruptState :=
    fun error _ => error.code_ne_corruptState
  simp only [Broker.execute, perform, getItem, wp_bind, wp_acquireLock, wp_getItemMetadata]
  refine ⟨trivial, hbackend, trivial, hbackend, either_intro (fun item hitem => ?_) fun error herror => ?_⟩
  · cases includeSecret with
    | false => exact ⟨trivial, trivial⟩
    | true =>
        obtain ⟨secret, hsecret⟩ := hsound.secret_of_stored (itemAt_eq_ok.mp hitem)
        simp only [if_true, wp_bind, wp_readCredential, wp_ofExcept, hsecret, loadSecret,
          SecretBytes.new_bytes]
        exact ⟨trivial, hbackend, trivial, trivial, trivial⟩
  · rw [hsound.itemAt_error herror]
    simp [notFound]

/-- The backend serves the lock and the read of an alias that is stored, and then fails the read of
the collection the alias names. -/
def LosesCollectionRead (name : String) (fates : Fates BackendError) (vault : Vault) : Prop :=
  fates 0 = .serve ∧ fates 1 = .serve ∧ (vault.lookup (.alias name)).isSome ∧ ∃ error, fates 2 = .fail error

theorem Sound.checkAliasName_of_stored (hsound : broker.Sound vault) {name : String} {blob : Blob}
    (h : vault.lookup (.alias name) = some blob) : checkAliasName name = .ok () := by
  obtain ⟨record, hload, -⟩ := hsound.aliases name blob h
  obtain ⟨-, rfl, hcheck⟩ := RecordKind.load_eq_ok.mp hload
  exact checkAliasName_eq_ok.mpr (validateAlias_eq_ok.mp hcheck).2.1

theorem checkAliasName_error {name : String} {error : BrokerError} (h : checkAliasName name = .error error) :
    error.code ≠ .corruptState := by
  rw [checkAliasName] at h
  cases hname : validateAliasName name with
  | ok _ => simp [hname, Except.mapError] at h
  | error reason =>
      simp only [hname, Except.mapError, Except.error.injEq] at h
      simp [← h]

/-- Resolving a stored alias whose read is served: any failure of the read of its collection is
reported as corruption. -/
theorem Sound.execute_resolveAlias (hsound : broker.Sound vault) {name : String} {blob : Blob}
    {record : AliasMetadata} {fates : Fates BackendError} (hblob : vault.lookup (.alias name) = some blob)
    (hload : broker.aliasKind.load name blob = .ok record) (hserve : fates 0 = .serve) :
    (Action.execute broker.backend.serve (broker.resolveAlias name) fates vault).outcome =
      match fates 1 with
      | .serve => .returned (.ok (.alias (some record)))
      | .fail _ => .returned (.error (corruptState "alias references a missing collection"))
      | .kill => .killed := by
  obtain ⟨found, hfound, collection, hcollection⟩ := hsound.aliases name blob hblob
  cases hload.symm.trans hfound
  simp only [resolveAlias, execute_bind, execute_ofExcept, hsound.checkAliasName_of_stored hblob,
    andThen_ok, execute_readCredential, answered_serve hserve, hblob, hload, execute_attempt,
    execute_getCollection, collectionAt_eq_ok.mpr hcollection]
  have hnext : fates.rest 0 = fates 1 := rfl
  cases hfate : fates 1 with
  | serve => rw [answered_serve (hnext.trans hfate)]; rfl
  | fail error => rw [answered_fail (hnext.trans hfate)]; rfl
  | kill => rw [answered_kill (hnext.trans hfate)]; rfl

/-- In a sound vault the answer that an alias is corrupt means that the read of its collection failed. -/
theorem Sound.resolveAlias_corrupt (hsound : broker.Sound vault) (name : String) (fates : Fates BackendError) :
    (∃ error, (broker.respond ⟨.resolveAlias name, fates⟩ vault).outcome = .returned (.error error) ∧
      error.code = .corruptState) ↔ LosesCollectionRead name fates vault := by
  simp only [Broker.respond, Broker.execute, perform, execute_bind, execute_acquireLock,
    LosesCollectionRead]
  cases hlock : fates 0 with
  | fail error => simp [answered_fail hlock, error.code_ne_corruptState]
  | kill => simp [answered_kill hlock]
  | serve =>
      rw [answered_serve hlock, andThen_ok]
      cases hblob : vault.lookup (.alias name) with
      | some blob =>
          obtain ⟨record, hload, -⟩ := hsound.aliases name blob hblob
          cases hread : fates 1 with
          | serve =>
              rw [hsound.execute_resolveAlias hblob hload hread]
              rw [show fates.rest 1 = fates 2 from rfl]
              cases fates 2 <;> simp [corruptState]
          | fail error =>
              simp [resolveAlias, execute_bind, execute_ofExcept,
                hsound.checkAliasName_of_stored hblob, execute_readCredential,
                answered_fail (show fates.rest 0 = _ from hread), error.code_ne_corruptState]
          | kill =>
              simp [resolveAlias, execute_bind, execute_ofExcept,
                hsound.checkAliasName_of_stored hblob, execute_readCredential,
                answered_kill (show fates.rest 0 = _ from hread)]
      | none =>
          -- an alias that is not stored is answered as absent, or the name or the read fails
          have hwp : Action.wp broker.backend.serve (fun _ => True) (broker.resolveAlias name) (fun _ _ => True)
              (fun error _ => error.code ≠ .corruptState) (fun _ => True) vault := by
            simp only [resolveAlias, wp_bind, wp_ofExcept, wp_readCredential]
            refine ⟨trivial, either_intro (fun _ _ => ?_) fun error herror => checkAliasName_error herror⟩
            refine ⟨trivial, fun error _ => error.code_ne_corruptState, ?_⟩
            rw [hblob]
            exact ⟨trivial, trivial⟩
          constructor
          · rintro ⟨error, houtcome, hcode⟩
            exact absurd hcode (execute_of_wp hwp (within_any _) houtcome)
          · rintro ⟨-, -, hsome, -⟩
            cases hsome

/-- A run in which no alias is resolved while the read of its collection fails. -/
def ReadsAliasedCollections (broker : Broker) (steps : List BrokerStep) : Prop :=
  ∀ start ∈ broker.starts steps ∅, ∀ name, start.1.operation = .resolveAlias name →
    ¬ LosesCollectionRead name start.1.fates start.2

/-- No request for an item or an alias of the run is answered by a report of corruption. -/
def ReportsNoCorruption (broker : Broker) (steps : List BrokerStep) : Prop :=
  ∀ start ∈ broker.starts steps ∅,
    ((∃ itemId includeSecret, start.1.operation = .getItem itemId includeSecret) ∨
      ∃ name, start.1.operation = .resolveAlias name) →
    ∀ error, (broker.respond start.1 start.2).outcome = .returned (.error error) → error.code ≠ .corruptState

/-- Every run from the empty vault keeps the invariant in every state it goes through; and it never
answers a request for an item or an alias by a report of corruption exactly if no backend failure hits
the read of the collection of an alias that is being resolved. -/
theorem run_keeps_references (broker : Broker) (steps : List BrokerStep) :
    ((∀ vault ∈ broker.history steps ∅, broker.Sound vault) ∧ broker.ReportsNoCorruption steps) ↔
      broker.ReadsAliasedCollections steps := by
  constructor
  · rintro ⟨-, hanswers⟩ ⟨step, vault⟩ hstart name hname hloses
    have hsound := sound_empty.starts steps _ hstart
    rcases step with ⟨operation, fates⟩
    obtain rfl : operation = .resolveAlias name := hname
    obtain ⟨error, houtcome, hcode⟩ := (hsound.resolveAlias_corrupt name fates).mpr hloses
    exact hanswers _ hstart (.inr ⟨name, rfl⟩) error houtcome hcode
  · refine fun hreads => ⟨sound_empty.history steps, ?_⟩
    rintro ⟨⟨operation, fates⟩, vault⟩ hstart hoperation error houtcome
    have hsound := sound_empty.starts steps _ hstart
    rcases hoperation with ⟨itemId, includeSecret, rfl⟩ | ⟨name, rfl⟩
    · exact execute_of_wp (hsound.getItem_error itemId includeSecret) (within_any fates) houtcome
    · intro hcode
      exact hreads _ hstart name rfl ((hsound.resolveAlias_corrupt name fates).mp ⟨error, houtcome, hcode⟩)

/-- A collection and an alias of it are created; then the alias is resolved while the store does not
answer the read of the collection. -/
theorem resolve_reports_corruption_on_unavailable_store :
    let broker := cborBroker inMemoryBackend
    let unavailable : BackendError := ⟨.backendUnavailable, "Windows Credential Manager operation failed"⟩
    let steps : List BrokerStep :=
      [⟨.createCollection ⟨1, ⟨7⟩, "login", 5, 5⟩, undisturbed⟩, ⟨.setAlias ⟨1, "default", ⟨7⟩⟩, undisturbed⟩]
    (broker.respond ⟨.resolveAlias "default", fun n => if n = 2 then .fail unavailable else .serve⟩
      (broker.after steps ∅)).outcome =
      .returned (.error (corruptState "alias references a missing collection")) := by
  decide +kernel

end Broker

end WincredLibsecret
