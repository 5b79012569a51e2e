import WincredLibsecret.BrokerRuns
import WincredLibsecret.EffectLock

/-! Broker processes that share the vault of a user. Each of them waits for the named mutex of the vault before the
first credential call of a request and holds it to the end of the request, or until it dies; a mutex left by a dead
process counts as acquired. The credential calls of the processes interleave freely, and yet their requests
form one run of a single broker. -/

namespace WincredLibsecret

open Effect

/-- What the wait for the mutex reports. -/
inductive MutexWait where
  | object
  | abandoned
  | timeout
  | failed
  deriving DecidableEq

/-- How `acquireLock` reads the report. -/
def MutexWait.fate : MutexWait → Fate BackendError
  | .object | .abandoned => .serve
  | .timeout => .fail ⟨.conflict, "credential vault is busy"⟩
  | .failed => .fail ⟨.backendUnavailable, "credential vault lock failed"⟩

def VaultCall.isLock : VaultCall → Bool
  | .acquireLock => true
  | .read _ | .write _ _ | .delete _ | .enumerate => false

namespace Broker

/-- The processes, the holder of the mutex, the vault and the requests that have ended. -/
abbrev Shared := Lock.State VaultCall VaultReply BackendError Vault (Except BrokerError ResponseBody) Nat Operation

/-- A request that has ended, with the fates of the calls it made. -/
abbrev Concluded := Lock.Entry BackendError (Except BrokerError ResponseBody) Nat Operation

abbrev MutexEvent := Lock.Event BackendError Nat Operation

def sharedStep (broker : Broker) : Shared → MutexEvent → Option Shared :=
  Lock.step VaultCall.isLock broker.backend.serve fun operation => (broker.execute operation).run

def sharedRun (broker : Broker) (events : List MutexEvent) (vault : Vault) : Option Shared :=
  EventMachine.run broker.sharedStep events (.initial vault)

/-- The request as a step of a single broker. -/
def concludedStep (entry : Concluded) : BrokerStep := ⟨entry.label, Fates.follow entry.fates undisturbed⟩

variable {broker : Broker} {vault : Vault}

theorem guarded_execute (operation : Operation) : Lock.Guarded VaultCall.isLock (broker.execute operation).run :=
  ⟨rfl, fun error => ⟨.error error.toBrokerError, rfl⟩⟩

theorem serial_eq_after (log : List Concluded) :
    Lock.serial broker.backend.serve (fun operation => (broker.execute operation).run) log vault =
      broker.after (log.map concludedStep) vault := by
  induction log generalizing vault with
  | nil => rfl
  | cons entry rest ih => exact ih

/-- In whatever order the processes make their calls, wherever calls fail, waits are cut short and processes are
killed: the requests that have ended form a run of a single broker, in the order in which they ended, and each has
the outcome it has there. The vault is the one that run leaves while nobody holds the mutex; while a process holds
it, it is the one its request would leave if the process were killed now. No request of a process is lost,
repeated or put before an earlier one. -/
theorem requests_are_serialized (broker : Broker) (start : Vault) (events : List MutexEvent) (shared : Shared)
    (hrun : broker.sharedRun events start = some shared) :
    (∀ i entry, shared.log[i]? = some entry → entry.outcome = (broker.respond (concludedStep entry)
      (broker.after ((shared.log.take i).map concludedStep) start)).outcome) ∧
    (shared.holder = none → shared.state = broker.after (shared.log.map concludedStep) start) ∧
    (∀ who, shared.holder = some who → ∃ task, shared.tasks who = some task ∧ shared.state = broker.after
      (shared.log.map concludedStep ++ [⟨task.label, Fates.follow task.used fun _ => .kill⟩]) start) ∧
    ∀ who, (shared.log.filter fun entry => entry.who = who).map Lock.Entry.label ++
      ((shared.tasks who).map Lock.Task.label).toList = events.filterMap (Lock.Event.started who) := by
  obtain ⟨hserialized, hkept⟩ := Lock.run_serialized guarded_execute hrun
  refine ⟨fun i entry hget => ?_, fun hfree => ?_, fun who hholder => ?_, hkept⟩
  · rw [← serial_eq_after]
    exact hserialized.log i entry hget
  · rw [← serial_eq_after]
    exact hserialized.free hfree
  · obtain ⟨task, htask, hleads⟩ := hserialized.inside who hholder
    refine ⟨task, htask, ?_⟩
    rw [after_append, ← serial_eq_after]
    exact hleads.state_of_killed.symm

/-- Two processes at work on a new vault: the second gives up waiting while the first stores a collection, and reads
the collection once the first is killed over its deletion and the mutex is abandoned. -/
theorem requests_are_serialized_over_abandoned_mutex :
    let broker := cborBroker inMemoryBackend
    let collection : CollectionMetadata := ⟨1, ⟨7⟩, "login", 5, 5⟩
    let events : List MutexEvent := [.starts 0 (.createCollection collection), .starts 1 (.getCollection ⟨7⟩),
      .calls 0 MutexWait.object.fate, .calls 0 .serve, .calls 1 MutexWait.timeout.fate, .ends 1, .calls 0 .serve,
      .ends 0, .starts 0 (.deleteCollection ⟨7⟩), .starts 1 (.getCollection ⟨7⟩), .calls 0 MutexWait.object.fate,
      .calls 0 .serve, .calls 0 .kill, .calls 1 MutexWait.abandoned.fate, .calls 1 .serve, .ends 1]
    ∃ shared, broker.sharedRun events ∅ = some shared ∧
      shared.log.map Lock.Entry.outcome = [.returned (.error ⟨.conflict, "credential vault is busy"⟩),
        .returned (.ok (.collection collection)), .killed, .returned (.ok (.collection collection))] ∧
      shared.state = broker.after (shared.log.map concludedStep) ∅ := by
  intro broker collection events
  have hran : ((broker.sharedRun events ∅).map fun shared => (shared.log.map Lock.Entry.outcome, shared.holder)) =
      some ([.returned (.error ⟨.conflict, "credential vault is busy"⟩), .returned (.ok (.collection collection)),
        .killed, .returned (.ok (.collection collection))], none) := by
    decide +kernel
  obtain ⟨shared, hrun, hends⟩ := Option.map_eq_some_iff.mp hran
  exact ⟨shared, hrun, congrArg Prod.fst hends,
    (requests_are_serialized broker ∅ events shared hrun).2.1 (congrArg Prod.snd hends)⟩

end Broker

end WincredLibsecret
