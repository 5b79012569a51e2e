import WincredLibsecret.BrokerFootprint
import WincredLibsecret.EventMachine
import WincredLibsecret.ProviderSession

/-! The bridge between the provider and its broker processes. Calls run concurrently: each gets hold of the
running process or launches one, takes a number, enters itself in the table of pending requests, writes its
frame and waits. A reader hands the responses of the process to the calls in the table. A call whose attempt
fails takes the running process away, kills it and clears its table; it then tries once more if its operation
only reads, and reports an indeterminate outcome otherwise. A process whose launch is given up is not killed: it
recovers the vault at any later time and ends where it finds its input closed. A step is what happens between two
points at which another task may run, so that a sequence of steps is an interleaving. -/

namespace WincredLibsecret

open Effect

/-- The operations that a call may send twice. -/
def retrySafe : Operation → Bool
  | .ping | .listCollections | .getCollection _ | .listAliases | .resolveAlias _ | .searchItems _ | .listItems _
  | .getItem _ _ => true
  | _ => false

namespace Bridge

/-- One of the two attempts a call can make. -/
structure Attempt where
  call : Nat
  retry : Bool
  deriving DecidableEq

/-- What a process finds on its standard input: a whole request, or a frame that was cut off. -/
inductive Sent where
  | request (id : UInt64) (operation : Operation) (sender : Attempt)
  | part
  deriving DecidableEq

structure Process where
  alive : Bool
  reading : Bool
  stdin : List Sent
  stdout : List (UInt64 × Except BrokerError ResponseBody)
  pending : List (UInt64 × Attempt)
  requests : Nat

/-- A process after its handshake. -/
def Process.fresh : Process := ⟨true, true, [], [], [], 1⟩

/-- Where a call is. The number with a result is the length of the record of executions at that moment. -/
inductive Phase where
  | acquiring
  | numbering (process : Nat)
  | enrolling (process : Nat) (id : UInt64)
  | writing (process : Nat) (id : UInt64)
  | retracting (process : Nat) (id : UInt64) (error : ProviderError)
  | waiting (process : Nat) (id : UInt64)
  | restarting
  | killing (process : Nat)
  | draining (process : Nat)
  | returned (result : Except ProviderError ResponseBody) (now : Nat)

structure Call where
  operation : Operation
  begun : Nat
  retry : Bool
  phase : Phase

/-- An execution on the vault: of a request, or of the recovery at the start of a process. -/
structure Execution where
  process : Nat
  id : UInt64
  sender : Option Attempt
  step : BrokerStep
  outcome : Outcome (Except BrokerError ResponseBody)

/-- The calls, the processes and the vault; the orphans are processes that were given up before they had recovered the
vault. The executions and the numbers given out are kept for the record. -/
structure State where
  running : Option Nat
  launched : Nat
  processes : Nat → Process
  calls : Nat → Option Call
  inbox : Attempt → Option (Except ProviderError ResponseBody)
  vault : Vault
  log : List Execution
  assigned : Attempt → Option (Nat × Nat)
  orphans : Nat

def State.initial (vault : Vault) : State :=
  ⟨none, 0, fun _ => ⟨false, false, [], [], [], 1⟩, fun _ => none, fun _ => none, vault, [], fun _ => none, 0⟩

namespace Call

/-- An attempt fails: the first one leads to a restart if the connection is at fault. -/
def fail (call : Call) (error : ProviderError) (now : Nat) : Call :=
  if call.retry = false ∧ (error = .transport ∨ error = .timeout) then { call with phase := .restarting }
  else { call with phase := .returned (.error error) now }

/-- What was received settles the attempt. -/
def settle (call : Call) (result : Except ProviderError ResponseBody) (now : Nat) : Call :=
  match result with
  | .ok body => { call with phase := .returned (.ok body) now }
  | .error error => call.fail error now

/-- After the restart: a second attempt, or an indeterminate outcome. -/
def resume (call : Call) (now : Nat) : Call :=
  if retrySafe call.operation then { call with retry := true, phase := .acquiring }
  else { call with phase := .returned (.error .indeterminate) now }

end Call

namespace State

variable (state : State)

def put (who : Nat) (call : Call) : State := { state with calls := Function.update state.calls who (some call) }

def amend (process : Nat) (change : Process → Process) : State :=
  { state with processes := Function.update state.processes process (change (state.processes process)) }

/-- The pending requests of a process fail. -/
def drain (process : Nat) : State :=
  { state.amend process fun found => { found with pending := [] } with
    inbox := fun attempt =>
      if attempt ∈ (state.processes process).pending.map Prod.snd then some (.error .transport)
      else state.inbox attempt }

/-- A process executes an operation on the vault. -/
def execute (broker : Broker) (process : Nat) (id : UInt64) (sender : Option Attempt) (step : BrokerStep) : State :=
  { state with
    vault := (broker.respond step state.vault).state
    log := state.log ++ [⟨process, id, sender, step, (broker.respond step state.vault).outcome⟩] }

/-- The process goes on after a response that was written and ends otherwise. -/
def respond (process : Nat) (id : UInt64) (outcome : Outcome (Except BrokerError ResponseBody)) (written : Bool) :
    State :=
  match outcome, written with
  | .returned result, true => state.amend process fun found => { found with stdout := found.stdout ++ [(id, result)] }
  | _, _ => state.amend process fun found => { found with alive := false }

end State

/-- How much of a frame a failed write has left. -/
inductive Remains where
  | nothing
  | part
  | whole
  deriving DecidableEq

def Remains.sent (id : UInt64) (operation : Operation) (sender : Attempt) : Remains → List Sent
  | .nothing => []
  | .part => [.part]
  | .whole => [.request id operation sender]

/-- Why a process could not be launched. -/
inductive StartFailure where
  | transport
  | timeout
  | protocol (error : ProtocolError)
  deriving DecidableEq

def StartFailure.toProviderError : StartFailure → ProviderError
  | .transport => .transport
  | .timeout => .timeout
  | .protocol error => .ofProtocol error

/-- What a launch that failed leaves: no process, one that has not recovered the vault yet, or one that has. -/
inductive GivenUp where
  | nothing
  | orphan
  | recovered (startup : Fates BackendError)

inductive Event where
  | begins (who : Nat) (operation : Operation)
  | acquires (who : Nat)
  | launches (who : Nat) (startup : Fates BackendError)
  | launchFails (who : Nat) (left : GivenUp) (failure : StartFailure)
  | numbers (who : Nat)
  | enrolls (who : Nat)
  | writes (who : Nat)
  | writeFails (who : Nat) (left : Remains) (expired : Bool)
  | retracts (who : Nat)
  | receives (who : Nat)
  | expires (who : Nat)
  | takes (who : Nat)
  | kills (who : Nat)
  | drains (who : Nat)
  | releases
  | recovers (startup : Fates BackendError)
  | executes (process : Nat) (fates : Fates BackendError) (written : Bool)
  | misreads (process : Nat) (id : UInt64) (operation : Operation) (left : List Sent) (fates : Fates BackendError)
      (written : Bool)
  | stops (process : Nat)
  | delivers (process : Nat)
  | hangsUp (process : Nat)
  | clears (process : Nat)

/-- The broker completes a frame that was cut off with the bytes behind it and takes it for a request. -/
def Event.Misread : Event → Prop
  | .misreads .. => True
  | _ => False

/-- A step of a call. -/
def callStep (broker : Broker) (state : State) (who : Nat) (call : Call) : Event → Option State
  | .acquires _ =>
      match call.phase, state.running with
      | .acquiring, some process => some (state.put who { call with phase := .numbering process })
      | _, _ => none
  | .launches _ startup =>
      match call.phase, state.running, (broker.respond ⟨.reconcile, startup⟩ state.vault).outcome with
      | .acquiring, none, .returned _ =>
          let started := (state.execute broker state.launched 0 none ⟨.reconcile, startup⟩).amend state.launched
            fun _ => .fresh
          some ({ started with running := some state.launched, launched := state.launched + 1 }.put who
            { call with phase := .numbering state.launched })
      | _, _, _ => none
  | .launchFails _ left failure =>
      match call.phase, state.running with
      | .acquiring, none =>
          let after := match left with
            | .nothing => state
            | .orphan => { state with orphans := state.orphans + 1 }
            | .recovered startup => state.execute broker state.launched 0 none ⟨.reconcile, startup⟩
          some (after.put who (call.fail failure.toProviderError after.log.length))
      | _, _ => none
  | .numbers _ =>
      match call.phase with
      | .numbering process =>
          let number := (state.processes process).requests
          let counted := state.amend process fun found => { found with requests := found.requests + 1 }
          some ({ counted with
            assigned := Function.update state.assigned ⟨who, call.retry⟩ (some (process, number)) }.put who
              { call with phase := .enrolling process (.ofNat number) })
      | _ => none
  | .enrolls _ =>
      match call.phase with
      | .enrolling process id =>
          some ((state.amend process fun found =>
            { found with pending := (id, ⟨who, call.retry⟩) :: found.pending.filter (·.1 ≠ id) }).put who
              { call with phase := .writing process id })
      | _ => none
  | .writes _ =>
      match call.phase with
      | .writing process id =>
          some ((state.amend process fun found =>
            { found with stdin := found.stdin ++ [.request id call.operation ⟨who, call.retry⟩] }).put who
              { call with phase := .waiting process id })
      | _ => none
  | .writeFails _ left expired =>
      match call.phase with
      | .writing process id =>
          some ((state.amend process fun found =>
            { found with stdin := found.stdin ++ left.sent id call.operation ⟨who, call.retry⟩ }).put who
              { call with phase := .retracting process id (if expired then .timeout else .transport) })
      | _ => none
  | .retracts _ =>
      match call.phase with
      | .retracting process id error =>
          some ((state.amend process fun found => { found with pending := found.pending.filter (·.1 ≠ id) }).put who
            (call.fail error state.log.length))
      | _ => none
  | .receives _ =>
      match call.phase, state.inbox ⟨who, call.retry⟩ with
      | .waiting _ _, some result => some (state.put who (call.settle result state.log.length))
      | _, _ => none
  | .expires _ =>
      match call.phase with
      | .waiting _ _ => some (state.put who (call.fail .timeout state.log.length))
      | _ => none
  | .takes _ =>
      match call.phase, state.running with
      | .restarting, none => some (state.put who (call.resume state.log.length))
      | .restarting, some process =>
          some ({ state with running := none }.put who { call with phase := .killing process })
      | _, _ => none
  | .kills _ =>
      match call.phase with
      | .killing process =>
          some ((state.amend process fun found => { found with alive := false }).put who
            { call with phase := .draining process })
      | _ => none
  | .drains _ =>
      match call.phase with
      | .draining process => some ((state.drain process).put who (call.resume state.log.length))
      | _ => none
  | _ => none

/-- A step of a broker process or of the reader of its responses. -/
def processStep (broker : Broker) (state : State) (process : Nat) : Event → Option State
  | .executes _ fates written =>
      match (state.processes process).alive, (state.processes process).stdin with
      | true, .request id operation sender :: rest =>
          let read := state.amend process fun found => { found with stdin := rest }
          some ((read.execute broker process id (some sender) ⟨operation, fates⟩).respond process id
            (broker.respond ⟨operation, fates⟩ state.vault).outcome written)
      | _, _ => none
  | .misreads _ id operation left fates written =>
      match (state.processes process).alive, (state.processes process).stdin with
      | true, .part :: _ =>
          let read := state.amend process fun found => { found with stdin := left }
          some ((read.execute broker process id none ⟨operation, fates⟩).respond process id
            (broker.respond ⟨operation, fates⟩ state.vault).outcome written)
      | _, _ => none
  | .stops _ => some (state.amend process fun found => { found with alive := false })
  | .delivers _ =>
      match (state.processes process).reading, (state.processes process).stdout with
      | true, (id, result) :: rest =>
          let read := state.amend process fun found =>
            { found with stdout := rest, pending := found.pending.filter (·.1 ≠ id) }
          match (state.processes process).pending.lookup id with
          | some attempt =>
              some { read with inbox := Function.update state.inbox attempt (some (result.mapError .broker)) }
          | none => some read
      | _, _ => none
  | .hangsUp _ => some (state.amend process fun found => { found with reading := false })
  | .clears _ => some (state.drain process)
  | _ => none

/-- Whom an event belongs to. -/
def step (broker : Broker) (state : State) (event : Event) : Option State :=
  match event with
  | .begins who operation =>
      match state.calls who with
      | none => some (state.put who ⟨operation, state.log.length, false, .acquiring⟩)
      | some _ => none
  | .releases => some { state with running := none }
  | .recovers startup =>
      match state.orphans with
      | 0 => none
      | left + 1 =>
          some { state.execute broker state.launched 0 none ⟨.reconcile, startup⟩ with orphans := left }
  | .acquires who | .launches who _ | .launchFails who _ _ | .numbers who | .enrolls who | .writes who
  | .writeFails who _ _ | .retracts who | .receives who | .expires who | .takes who | .kills who | .drains who =>
      match state.calls who with
      | none => none
      | some call => callStep broker state who call event
  | .executes process _ _ | .misreads process _ _ _ _ _ | .stops process | .delivers process | .hangsUp process
  | .clears process => processStep broker state process event

/-- A run of the bridge. -/
def run (broker : Broker) : List Event → State → Option State := EventMachine.run (step broker)

end Bridge

end WincredLibsecret
