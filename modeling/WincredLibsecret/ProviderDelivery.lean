import WincredLibsecret.ProviderBridge

/-! What the bridge delivers. Numbers are unique within a process, a request is on the input of one process or
executed but never both, and the response that reaches a call is the one to its own request. So a call that
gets an answer gets that of an execution of its operation made while it waited, an operation that changes the
vault is executed at most once for a call, and the vault is what the executions leave one after the other. -/

namespace WincredLibsecret

open Effect

namespace Bridge

/-- The attempt a request on the input was sent for. -/
def Sent.sender : Sent → Option Attempt
  | .request _ _ sender => some sender
  | .part => none

namespace State

variable (state : State)

/-- The attempt has the number on the process. -/
def Numbered (attempt : Attempt) (process : Nat) (id : UInt64) : Prop :=
  ∃ number, state.assigned attempt = some (process, number) ∧ id = .ofNat number

/-- No request was sent for the attempt. -/
structure Unsent (attempt : Attempt) : Prop where
  stdin : ∀ process, attempt ∉ (state.processes process).stdin.filterMap Sent.sender
  log : attempt ∉ state.log.filterMap Execution.sender

/-- Before the given moment an execution for the attempt had the result. -/
def AnsweredBefore (attempt : Attempt) (result : Except BrokerError ResponseBody) (now : Nat) : Prop :=
  ∃ i < now, ∃ execution, state.log[i]? = some execution ∧ execution.sender = some attempt ∧
    execution.outcome = .returned result

/-- What a result that was returned says. -/
def Settled (who : Nat) (call : Call) (result : Except ProviderError ResponseBody) (now : Nat) : Prop :=
  match result with
  | .ok body => state.AnsweredBefore ⟨who, call.retry⟩ (.ok body) now
  | .error (.broker error) => state.AnsweredBefore ⟨who, call.retry⟩ (.error error) now
  | .error .indeterminate => retrySafe call.operation = false
  | .error .transport | .error .timeout => call.retry = true
  | .error _ => True

/-- What holds of a call in its phase. -/
def PhaseOk (who : Nat) (call : Call) : Prop :=
  match call.phase with
  | .acquiring => state.assigned ⟨who, call.retry⟩ = none
  | .numbering process => process < state.launched ∧ state.assigned ⟨who, call.retry⟩ = none
  | .enrolling process id | .writing process id =>
      state.Numbered ⟨who, call.retry⟩ process id ∧ state.Unsent ⟨who, call.retry⟩
  | .retracting _ _ error => error = .transport ∨ error = .timeout
  | .waiting _ _ => True
  | .restarting | .killing _ | .draining _ => call.retry = false
  | .returned result now => now ≤ state.log.length ∧ state.Settled who call result now

structure CallOk (who : Nat) (call : Call) : Prop where
  retrySafe : call.retry = true → retrySafe call.operation = true
  untried : call.retry = false → state.assigned ⟨who, true⟩ = none
  phase : state.PhaseOk who call

/-- The invariant of the bridge after so many steps. The call that is taking a step is left out. -/
structure Invariant (broker : Broker) (start : Vault) (steps : Nat) (acting : Option Nat) : Prop where
  vault_eq : state.vault = broker.after (state.log.map Execution.step) start
  running_lt : ∀ process, state.running = some process → process < state.launched
  requests_le : ∀ process, (state.processes process).requests ≤ steps + 1
  unassigned : ∀ who retry, state.calls who = none → state.assigned ⟨who, retry⟩ = none
  assigned_lt : ∀ attempt process number, state.assigned attempt = some (process, number) →
    process < state.launched ∧ number < (state.processes process).requests
  assigned_inj : ∀ attempt other place, state.assigned attempt = some place → state.assigned other = some place →
    attempt = other
  sent : ∀ process id operation sender, .request id operation sender ∈ (state.processes process).stdin →
    state.Numbered sender process id ∧ sender ∉ state.log.filterMap Execution.sender ∧
      ∃ call, state.calls sender.call = some call ∧ call.operation = operation
  stdin_nodup : ∀ process, ((state.processes process).stdin.filterMap Sent.sender).Nodup
  executed : ∀ i execution sender, state.log[i]? = some execution → execution.sender = some sender →
    state.Numbered sender execution.process execution.id ∧
      ∃ call, state.calls sender.call = some call ∧ call.operation = execution.step.operation ∧ call.begun ≤ i
  log_nodup : (state.log.filterMap Execution.sender).Nodup
  responded : ∀ process id result, (id, result) ∈ (state.processes process).stdout →
    ∃ execution ∈ state.log, ∃ sender, execution.process = process ∧ execution.id = id ∧
      execution.sender = some sender ∧ execution.outcome = .returned result
  pending : ∀ process id attempt, (id, attempt) ∈ (state.processes process).pending →
    state.Numbered attempt process id
  inbox : ∀ attempt found, state.inbox attempt = some found → found = .error .transport ∨
    ∃ result : Except BrokerError ResponseBody, found = result.mapError .broker ∧
      state.AnsweredBefore attempt result state.log.length
  begun_le : ∀ who call, state.calls who = some call → call.begun ≤ state.log.length
  calls : ∀ who call, some who ≠ acting → state.calls who = some call → state.CallOk who call

end State

variable {broker : Broker} {start : Vault} {steps : Nat} {acting : Option Nat} {state : State} {who process : Nat}

theorem invariant_initial (broker : Broker) (start : Vault) :
    (State.initial start).Invariant broker start 0 none where
  vault_eq := rfl
  running_lt := by simp [State.initial]
  requests_le := fun _ => Nat.le_refl _
  unassigned := fun _ _ _ => rfl
  assigned_lt := by simp [State.initial]
  assigned_inj := by simp [State.initial]
  sent := by simp [State.initial]
  stdin_nodup := fun _ => List.nodup_nil
  executed := by simp [State.initial]
  log_nodup := List.nodup_nil
  responded := by simp [State.initial]
  pending := by simp [State.initial]
  inbox := by simp [State.initial]
  begun_le := by simp [State.initial]
  calls := by simp [State.initial]

variable {state' : State} {executions : List Execution} {call : Call}

theorem State.AnsweredBefore.of_append {attempt : Attempt} {result : Except BrokerError ResponseBody} {now later : Nat}
    (h : state.AnsweredBefore attempt result now) (hlog : state'.log = state.log ++ executions) (hlater : now ≤ later) :
    state'.AnsweredBefore attempt result later := by
  obtain ⟨i, hi, execution, hget, hexecution⟩ := h
  refine ⟨i, Nat.lt_of_lt_of_le hi hlater, execution, ?_, hexecution⟩
  rw [hlog, List.getElem?_append_left (List.getElem?_eq_some_iff.mp hget).1]
  exact hget

theorem State.Settled.of_append {result : Except ProviderError ResponseBody} {now : Nat}
    (h : state.Settled who call result now) (hlog : state'.log = state.log ++ executions) :
    state'.Settled who call result now := by
  unfold State.Settled at h ⊢
  split at h
  · exact State.AnsweredBefore.of_append h hlog (Nat.le_refl _)
  · exact State.AnsweredBefore.of_append h hlog (Nat.le_refl _)
  · exact h
  · exact h
  · exact h
  · trivial

/-- What holds of a call stays true if its attempts keep their numbers, nothing is sent for it and the record
of executions grows. -/
theorem State.CallOk.mono (h : state.CallOk who call) (hlaunched : state.launched ≤ state'.launched)
    (hassigned : ∀ retry, state'.assigned ⟨who, retry⟩ = state.assigned ⟨who, retry⟩)
    (hunsent : state.Unsent ⟨who, call.retry⟩ → state'.Unsent ⟨who, call.retry⟩)
    (hlog : state'.log = state.log ++ executions) : state'.CallOk who call := by
  refine ⟨h.retrySafe, fun hretry => (hassigned true).trans (h.untried hretry), ?_⟩
  have hphase := h.phase
  unfold State.PhaseOk at hphase ⊢
  split at hphase
  · exact (hassigned _).trans hphase
  · exact ⟨Nat.lt_of_lt_of_le hphase.1 hlaunched, (hassigned _).trans hphase.2⟩
  · exact ⟨hphase.1.imp fun number hnumber => ⟨(hassigned _).trans hnumber.1, hnumber.2⟩, hunsent hphase.2⟩
  · exact ⟨hphase.1.imp fun number hnumber => ⟨(hassigned _).trans hnumber.1, hnumber.2⟩, hunsent hphase.2⟩
  · exact hphase
  · trivial
  · exact hphase
  · exact hphase
  · exact hphase
  · refine ⟨?_, hphase.2.of_append hlog⟩
    rw [hlog, List.length_append]
    omega

theorem State.CallOk.congr (h : state.CallOk who call) (hlaunched : state.launched = state'.launched)
    (hassigned : state'.assigned = state.assigned) (hprocesses : state'.processes = state.processes)
    (hlog : state'.log = state.log) : state'.CallOk who call := by
  refine h.mono hlaunched.le (fun retry => by rw [hassigned]) (fun hunsent => ?_) (hlog.trans (List.append_nil _).symm)
  exact ⟨fun process => hprocesses ▸ hunsent.stdin process, hlog ▸ hunsent.log⟩

theorem mem_of_lookup {table : List (UInt64 × Attempt)} {id : UInt64} {attempt : Attempt}
    (h : table.lookup id = some attempt) : (id, attempt) ∈ table := by
  obtain ⟨front, behind, rfl, -⟩ := List.lookup_eq_some_iff.mp h
  exact List.mem_append_right _ List.mem_cons_self

theorem State.amend_self (state : State) (process : Nat) (change : Process → Process) :
    (state.amend process change).processes process = change (state.processes process) :=
  Function.update_self ..

theorem State.amend_of_ne (state : State) {other : Nat} (h : other ≠ process) (change : Process → Process) :
    (state.amend process change).processes other = state.processes other :=
  Function.update_of_ne h ..

theorem State.Unsent.amend {attempt : Attempt} (h : state.Unsent attempt) {change : Process → Process}
    (hstdin : (change (state.processes process)).stdin = (state.processes process).stdin) :
    (state.amend process change).Unsent attempt := by
  refine ⟨fun other => ?_, h.log⟩
  by_cases hother : other = process
  · subst hother
    rw [State.amend_self, hstdin]
    exact h.stdin other
  · rw [State.amend_of_ne state hother]
    exact h.stdin other

namespace State.Invariant

theorem act (h : state.Invariant broker start steps none) (who : Nat) :
    state.Invariant broker start steps (some who) :=
  { h with calls := fun other call _ => h.calls other call (by simp) }

theorem later (h : state.Invariant broker start steps acting) : state.Invariant broker start (steps + 1) acting :=
  { h with requests_le := fun process => (h.requests_le process).trans (by omega) }

variable {id : UInt64}

/-- Calls can be told apart by their numbers. -/
theorem attempt_unique (h : state.Invariant broker start steps acting) (hsteps : steps < 2 ^ 64)
    {attempt other : Attempt} (hattempt : state.Numbered attempt process id)
    (hother : state.Numbered other process id) : attempt = other := by
  obtain ⟨number, hassigned, hid⟩ := hattempt
  obtain ⟨number', hassigned', hid'⟩ := hother
  have hlt := (h.assigned_lt _ _ _ hassigned).2
  have hlt' := (h.assigned_lt _ _ _ hassigned').2
  have hle := h.requests_le process
  have hnumbers : number % 2 ^ 64 = number' % 2 ^ 64 := by
    have hnat := congrArg UInt64.toNat (hid.symm.trans hid')
    simpa using hnat
  rw [Nat.mod_eq_of_lt (by omega), Nat.mod_eq_of_lt (by omega)] at hnumbers
  subst hnumbers
  exact h.assigned_inj _ _ _ hassigned hassigned'

/-- Nothing is sent for an attempt without a number. -/
theorem unsent_of_unassigned (h : state.Invariant broker start steps acting) {attempt : Attempt}
    (hnone : state.assigned attempt = none) : state.Unsent attempt := by
  refine ⟨fun process hmem => ?_, fun hmem => ?_⟩
  · obtain ⟨request, hrequest, hsender⟩ := List.mem_filterMap.mp hmem
    cases request with
    | part => cases hsender
    | request id operation sender =>
        cases hsender
        obtain ⟨⟨number, hassigned, -⟩, -⟩ := h.sent process id operation _ hrequest
        cases hnone.symm.trans hassigned
  · obtain ⟨execution, hexecution, hsender⟩ := List.mem_filterMap.mp hmem
    obtain ⟨i, hget⟩ := List.getElem?_of_mem hexecution
    obtain ⟨⟨number, hassigned, -⟩, -⟩ := h.executed i execution attempt hget hsender
    cases hnone.symm.trans hassigned

/-- The acting call takes up a new phase. -/
theorem put (h : state.Invariant broker start steps (some who)) {call : Call}
    (hsame : ∀ old, state.calls who = some old → old.operation = call.operation ∧ old.begun = call.begun)
    (hbegun : call.begun ≤ state.log.length) (hcall : state.CallOk who call) :
    (state.put who call).Invariant broker start steps none := by
  have hcalls : ∀ {other : Nat} {old : Call}, state.calls other = some old →
      ∃ found, (state.put who call).calls other = some found ∧ found.operation = old.operation ∧
        found.begun = old.begun := by
    intro other old hold
    by_cases hother : other = who
    · subst hother
      exact ⟨call, Function.update_self .., (hsame old hold).1.symm, (hsame old hold).2.symm⟩
    · exact ⟨old, (Function.update_of_ne hother ..).trans hold, rfl, rfl⟩
  refine { h with unassigned := ?_, sent := ?_, executed := ?_, begun_le := ?_, calls := ?_ }
  · intro other retry hnone
    by_cases hother : other = who
    · subst hother
      cases (Function.update_self ..).symm.trans hnone
    · exact h.unassigned other retry ((Function.update_of_ne hother ..).symm.trans hnone)
  · intro process id operation sender hmem
    obtain ⟨hnumbered, hlog, old, hold, rfl⟩ := h.sent process id operation sender hmem
    obtain ⟨found, hfound, hoperation, -⟩ := hcalls hold
    exact ⟨hnumbered, hlog, found, hfound, hoperation⟩
  · intro i execution sender hget hsender
    obtain ⟨hnumbered, old, hold, hoperation, hold'⟩ := h.executed i execution sender hget hsender
    obtain ⟨found, hfound, hsame', hbegun'⟩ := hcalls hold
    exact ⟨hnumbered, found, hfound, hsame'.trans hoperation, hbegun'.trans_le hold'⟩
  · intro other found hfound
    by_cases hother : other = who
    · subst hother
      cases (Function.update_self ..).symm.trans hfound
      exact hbegun
    · exact h.begun_le other found ((Function.update_of_ne hother ..).symm.trans hfound)
  · intro other found _ hfound
    by_cases hother : other = who
    · subst hother
      cases (Function.update_self ..).symm.trans hfound
      exact hcall.congr rfl rfl rfl rfl
    · have hold := h.calls other found (by simpa using hother) ((Function.update_of_ne hother ..).symm.trans hfound)
      exact hold.congr rfl rfl rfl rfl

/-- Which process runs matters only to the next call. -/
theorem release (h : state.Invariant broker start steps acting) :
    { state with running := none }.Invariant broker start steps acting :=
  { h with
    running_lt := by simp
    calls := fun other call hother hcall => (h.calls other call hother hcall).congr rfl rfl rfl rfl }

/-- No call depends on the processes that were given up. -/
theorem giveUp (h : state.Invariant broker start steps acting) (orphans : Nat) :
    { state with orphans := orphans }.Invariant broker start steps acting :=
  { h with calls := fun other call hother hcall => (h.calls other call hother hcall).congr rfl rfl rfl rfl }

/-- A process may change as long as its table and its streams hold what they should; a request that is new on its
input is one of the acting call. -/
theorem amend (h : state.Invariant broker start steps acting) {change : Process → Process}
    (hcount : ∀ attempt number, state.assigned attempt = some (process, number) →
      number < (change (state.processes process)).requests)
    (hrequests : (change (state.processes process)).requests ≤ steps + 1)
    (hstdin : ∀ id operation sender, .request id operation sender ∈ (change (state.processes process)).stdin →
      .request id operation sender ∈ (state.processes process).stdin ∨ some sender.call = acting ∧
        state.Numbered sender process id ∧ sender ∉ state.log.filterMap Execution.sender ∧
        ∃ call, state.calls sender.call = some call ∧ call.operation = operation)
    (hnodup : ((change (state.processes process)).stdin.filterMap Sent.sender).Nodup)
    (hstdout : ∀ id result, (id, result) ∈ (change (state.processes process)).stdout →
      ∃ execution ∈ state.log, ∃ sender, execution.process = process ∧ execution.id = id ∧
        execution.sender = some sender ∧ execution.outcome = .returned result)
    (hpending : ∀ id attempt, (id, attempt) ∈ (change (state.processes process)).pending →
      state.Numbered attempt process id) :
    (state.amend process change).Invariant broker start steps acting := by
  refine { h with
    requests_le := ?_, assigned_lt := ?_, sent := ?_, stdin_nodup := ?_, responded := ?_, pending := ?_, calls := ?_ }
  · intro other
    by_cases hother : other = process
    · subst hother
      rw [State.amend_self]
      exact hrequests
    · rw [State.amend_of_ne state hother]
      exact h.requests_le other
  · intro attempt other number hassigned
    obtain ⟨hlaunched, hnumber⟩ := h.assigned_lt attempt other number hassigned
    refine ⟨hlaunched, ?_⟩
    by_cases hother : other = process
    · subst hother
      rw [State.amend_self]
      exact hcount attempt number hassigned
    · rw [State.amend_of_ne state hother]
      exact hnumber
  · intro other id operation sender hmem
    by_cases hother : other = process
    · subst hother
      rw [State.amend_self] at hmem
      rcases hstdin id operation sender hmem with hold | ⟨-, hnew⟩
      · exact h.sent other id operation sender hold
      · exact hnew
    · rw [State.amend_of_ne state hother] at hmem
      exact h.sent other id operation sender hmem
  · intro other
    by_cases hother : other = process
    · subst hother
      rw [State.amend_self]
      exact hnodup
    · rw [State.amend_of_ne state hother]
      exact h.stdin_nodup other
  · intro other id result hmem
    by_cases hother : other = process
    · subst hother
      rw [State.amend_self] at hmem
      exact hstdout id result hmem
    · rw [State.amend_of_ne state hother] at hmem
      exact h.responded other id result hmem
  · intro other id attempt hmem
    by_cases hother : other = process
    · subst hother
      rw [State.amend_self] at hmem
      exact hpending id attempt hmem
    · rw [State.amend_of_ne state hother] at hmem
      exact h.pending other id attempt hmem
  · intro other call hother hcall
    refine (h.calls other call hother hcall).mono (Nat.le_refl _) (fun _ => rfl) (fun hunsent => ⟨?_, hunsent.log⟩)
      (List.append_nil _).symm
    intro found hmem
    by_cases hfound : found = process
    · subst hfound
      rw [State.amend_self] at hmem
      obtain ⟨request, hrequest, hsender⟩ := List.mem_filterMap.mp hmem
      cases request with
      | part => cases hsender
      | request id operation sender =>
          cases hsender
          rcases hstdin id operation _ hrequest with hold | ⟨hacting, -⟩
          · exact hunsent.stdin found (List.mem_filterMap.mpr ⟨_, hold, rfl⟩)
          · exact hother hacting
    · rw [State.amend_of_ne state hfound] at hmem
      exact hunsent.stdin found hmem

/-- A process may lose what is on its streams and in its table. -/
theorem shrink (h : state.Invariant broker start steps acting) {change : Process → Process}
    (hrequests : (change (state.processes process)).requests = (state.processes process).requests)
    (hstdin : (change (state.processes process)).stdin.Sublist (state.processes process).stdin)
    (hstdout : (change (state.processes process)).stdout ⊆ (state.processes process).stdout)
    (hpending : (change (state.processes process)).pending ⊆ (state.processes process).pending) :
    (state.amend process change).Invariant broker start steps acting :=
  h.amend (fun attempt number hassigned => (h.assigned_lt attempt process number hassigned).2.trans_eq hrequests.symm)
    (hrequests.trans_le (h.requests_le process))
    (fun _ _ _ hmem => .inl (hstdin.subset hmem)) ((h.stdin_nodup process).sublist (hstdin.filterMap _))
    (fun id result hmem => h.responded process id result (hstdout hmem))
    fun id attempt hmem => h.pending process id attempt (hpending hmem)

/-- What is put into an inbox is the failure of the connection or an answer to the attempt. -/
theorem fill (h : state.Invariant broker start steps acting)
    {inbox : Attempt → Option (Except ProviderError ResponseBody)}
    (hinbox : ∀ attempt found, inbox attempt = some found → state.inbox attempt = some found ∨
      found = .error .transport ∨ ∃ result : Except BrokerError ResponseBody, found = result.mapError .broker ∧
        state.AnsweredBefore attempt result state.log.length) :
    { state with inbox := inbox }.Invariant broker start steps acting :=
  { h with
    inbox := fun attempt found hfound => (hinbox attempt found hfound).elim (h.inbox attempt found) id
    calls := fun other call hother hcall => (h.calls other call hother hcall).congr rfl rfl rfl rfl }

/-- The requests in a table fail. -/
theorem drain (h : state.Invariant broker start steps acting) (process : Nat) :
    (state.drain process).Invariant broker start steps acting := by
  have hshrunk : (state.amend process fun found => { found with pending := [] }).Invariant broker start steps acting :=
    h.shrink rfl (List.Sublist.refl _) (List.Subset.refl _) (List.nil_subset _)
  refine hshrunk.fill fun attempt found hfound => ?_
  split_ifs at hfound
  · cases hfound
    exact .inr (.inl rfl)
  · exact .inl hfound

/-- An operation is executed: a recovery, or a request of the acting call that is on no input any more. -/
theorem execute (h : state.Invariant broker start steps acting) {sender : Option Attempt} {step : BrokerStep}
    (hsender : ∀ attempt, sender = some attempt → some attempt.call = acting ∧ state.Numbered attempt process id ∧
      state.Unsent attempt ∧ ∃ call, state.calls attempt.call = some call ∧ call.operation = step.operation) :
    (state.execute broker process id sender step).Invariant broker start steps acting := by
  have hlog : (state.execute broker process id sender step).log = state.log ++
      [⟨process, id, sender, step, (broker.respond step state.vault).outcome⟩] := rfl
  have hlength : (state.execute broker process id sender step).log.length = state.log.length + 1 := by
    rw [hlog, List.length_append, List.length_singleton]
  have hsenders : (state.execute broker process id sender step).log.filterMap Execution.sender =
      state.log.filterMap Execution.sender ++ sender.toList := by
    rw [hlog, List.filterMap_append]
    cases sender <;> rfl
  have hnew : ∀ attempt, attempt ∈ sender.toList → sender = some attempt := fun attempt hmem =>
    Option.mem_toList.mp hmem
  refine { h with
    vault_eq := ?_, sent := ?_, executed := ?_, log_nodup := ?_, responded := ?_, inbox := ?_, begun_le := ?_,
    calls := ?_ }
  · rw [hlog, List.map_append, Broker.after_append, ← h.vault_eq]
    rfl
  · intro other found operation attempt hmem
    obtain ⟨hnumbered, hfresh, hcall⟩ := h.sent other found operation attempt hmem
    refine ⟨hnumbered, fun hrecorded => ?_, hcall⟩
    rw [hsenders] at hrecorded
    rcases List.mem_append.mp hrecorded with hold | hlast
    · exact hfresh hold
    · exact (hsender attempt (hnew attempt hlast)).2.2.1.stdin other (List.mem_filterMap.mpr ⟨_, hmem, rfl⟩)
  · intro i execution attempt hget hattempt
    rw [hlog] at hget
    by_cases hi : i < state.log.length
    · rw [List.getElem?_append_left hi] at hget
      exact h.executed i execution attempt hget hattempt
    · rw [List.getElem?_append_right (by omega)] at hget
      obtain rfl := List.mem_singleton.mp (List.mem_of_getElem? hget)
      obtain ⟨-, hnumbered, -, call, hcall, hoperation⟩ := hsender attempt hattempt
      exact ⟨hnumbered, call, hcall, hoperation, (h.begun_le _ call hcall).trans (by omega)⟩
  · rw [hsenders]
    refine List.nodup_append.mpr ⟨h.log_nodup, ?_, ?_⟩
    · cases sender <;> simp
    · intro attempt hold other hlast heq
      subst heq
      exact (hsender attempt (hnew attempt hlast)).2.2.1.log hold
  · intro other found result hmem
    obtain ⟨execution, hexecution, hrest⟩ := h.responded other found result hmem
    exact ⟨execution, hlog ▸ List.mem_append_left _ hexecution, hrest⟩
  · intro attempt found hfound
    refine (h.inbox attempt found hfound).imp_right (.imp fun result hresult => ⟨hresult.1, ?_⟩)
    exact hresult.2.of_append hlog (by omega)
  · intro other call hcall
    exact (h.begun_le other call hcall).trans (by omega)
  · intro other call hother hcall
    refine (h.calls other call hother hcall).mono (Nat.le_refl _) (fun _ => rfl)
      (fun hunsent => ⟨hunsent.stdin, ?_⟩) hlog
    intro hrecorded
    rw [hsenders] at hrecorded
    rcases List.mem_append.mp hrecorded with hold | hlast
    · exact hunsent.log hold
    · exact hother (hsender _ (hnew _ hlast)).1

/-- The acting call is as it should be again. -/
theorem settle (h : state.Invariant broker start steps (some who))
    (hcall : ∀ call, state.calls who = some call → state.CallOk who call) :
    state.Invariant broker start steps none := by
  refine { h with calls := fun other call _ hfound => ?_ }
  by_cases hother : other = who
  · subst hother
    exact hcall call hfound
  · exact h.calls other call (by simpa using hother) hfound

/-! ### Steps of processes -/

/-- A process takes the first request off its input and executes it. -/
theorem executes (h : state.Invariant broker start steps none) {operation : Operation} {sender : Attempt}
    {rest : List Sent} (hstdin : (state.processes process).stdin = .request id operation sender :: rest)
    (fates : Fates BackendError) :
    ((state.amend process fun found => { found with stdin := rest }).execute broker process id (some sender)
      ⟨operation, fates⟩).Invariant broker start steps none := by
  have hmem : .request id operation sender ∈ (state.processes process).stdin := by
    rw [hstdin]
    exact List.mem_cons_self
  obtain ⟨hnumbered, hfresh, call, hcall, hoperation⟩ := h.sent process id operation sender hmem
  have hnodup := h.stdin_nodup process
  rw [hstdin, List.filterMap_cons_some (show Sent.sender (.request id operation sender) = some sender from rfl),
    List.nodup_cons] at hnodup
  have hread : (state.amend process fun found => { found with stdin := rest }).Invariant broker start steps
      (some sender.call) := by
    refine (h.act sender.call).shrink rfl ?_ (List.Subset.refl _) (List.Subset.refl _)
    rw [hstdin]
    exact List.sublist_cons_self _ _
  -- the request is on no other input, because its number belongs to this process
  have hunsent : (state.amend process fun found => { found with stdin := rest }).Unsent sender := by
    refine ⟨fun other hother => ?_, hfresh⟩
    by_cases hsame : other = process
    · subst hsame
      rw [State.amend_self] at hother
      exact hnodup.1 hother
    · rw [State.amend_of_ne state hsame] at hother
      obtain ⟨request, hrequest, hsender⟩ := List.mem_filterMap.mp hother
      cases request with
      | part => cases hsender
      | request found requested owner =>
          cases hsender
          obtain ⟨number, hassigned, -⟩ := hnumbered
          obtain ⟨⟨number', hassigned', -⟩, -⟩ := h.sent other found requested _ hrequest
          cases hassigned.symm.trans hassigned'
          exact hsame rfl
  refine (hread.execute fun attempt hattempt => ?_).settle fun found hfound => ?_
  · cases hattempt
    exact ⟨rfl, hnumbered, hunsent, call, hcall, hoperation⟩
  · refine (h.calls sender.call found (by simp) hfound).mono (Nat.le_refl _) (fun _ => rfl) (fun hold => ?_) rfl
    have hne : (⟨sender.call, found.retry⟩ : Attempt) ≠ sender := by
      intro heq
      rw [heq] at hold
      exact hold.stdin process (List.mem_filterMap.mpr ⟨_, hmem, rfl⟩)
    refine ⟨fun other hother => hold.stdin other ?_, fun hlog => ?_⟩
    · by_cases hsame : other = process
      · subst hsame
        rw [hstdin]
        have hother' : _ ∈ ((state.amend other fun found => { found with stdin := rest }).processes
          other).stdin.filterMap Sent.sender := hother
        rw [State.amend_self] at hother'
        exact ((List.sublist_cons_self _ _).filterMap _).subset hother'
      · have hother' : _ ∈ ((state.amend process fun found => { found with stdin := rest }).processes
          other).stdin.filterMap Sent.sender := hother
        rwa [State.amend_of_ne state hsame] at hother'
    · have hlog' : _ ∈ (state.log ++ [_]).filterMap Execution.sender := hlog
      rw [List.filterMap_append] at hlog'
      rcases List.mem_append.mp hlog' with hrecorded | hlast
      · exact hold.log hrecorded
      · exact hne (by simpa using hlast)

/-- The response goes to the reader, or the process ends. -/
theorem respond (h : state.Invariant broker start steps acting) {sender : Attempt} {step : BrokerStep}
    {outcome : Outcome (Except BrokerError ResponseBody)}
    (hexecution : ⟨process, id, some sender, step, outcome⟩ ∈ state.log) (written : Bool) :
    (state.respond process id outcome written).Invariant broker start steps acting := by
  have hends : (state.amend process fun found => { found with alive := false }).Invariant broker start steps acting :=
    h.shrink rfl (List.Sublist.refl _) (List.Subset.refl _) (List.Subset.refl _)
  cases outcome with
  | killed => exact hends
  | returned result =>
      cases written with
      | false => exact hends
      | true =>
          change (state.amend process fun found =>
            { found with stdout := found.stdout ++ [(id, result)] }).Invariant broker start steps acting
          refine h.amend (fun attempt number hassigned => (h.assigned_lt attempt process number hassigned).2)
            (h.requests_le process) (fun _ _ _ hmem => .inl hmem) (h.stdin_nodup process)
            (fun found other hmem => ?_) (h.pending process)
          rcases List.mem_append.mp hmem with hold | hlast
          · exact h.responded process found other hold
          · cases List.mem_singleton.mp hlast
            exact ⟨_, hexecution, sender, rfl, rfl, rfl, rfl⟩

/-- The reader hands a response to the attempt with its number. -/
theorem delivers (h : state.Invariant broker start steps acting) (hsteps : steps < 2 ^ 64)
    {result : Except BrokerError ResponseBody} {rest : List (UInt64 × Except BrokerError ResponseBody)}
    (hstdout : (state.processes process).stdout = (id, result) :: rest) {attempt : Attempt}
    (hpending : (id, attempt) ∈ (state.processes process).pending) :
    state.AnsweredBefore attempt result state.log.length := by
  obtain ⟨execution, hexecution, sender, rfl, rfl, hsender, houtcome⟩ :=
    h.responded process id result (hstdout ▸ List.mem_cons_self)
  obtain ⟨i, hget⟩ := List.getElem?_of_mem hexecution
  have hnumbered := (h.executed i execution sender hget hsender).1
  obtain rfl := h.attempt_unique hsteps hnumbered (h.pending _ _ _ hpending)
  exact ⟨i, (List.getElem?_eq_some_iff.mp hget).1, execution, hget, hsender, houtcome⟩

/-! ### Steps of calls -/

/-- A new process has nothing on its streams and no number given out. -/
theorem launch (h : state.Invariant broker start steps acting) :
    { state.amend state.launched fun _ => .fresh with
      running := some state.launched, launched := state.launched + 1 }.Invariant broker start steps acting := by
  have hfresh : (state.amend state.launched fun _ => .fresh).Invariant broker start steps acting := by
    refine h.amend (fun attempt number hassigned => ?_) (Nat.le_add_left 1 steps) (by simp [Process.fresh])
      List.nodup_nil (by simp [Process.fresh]) (by simp [Process.fresh])
    exact absurd (h.assigned_lt attempt _ number hassigned).1 (Nat.lt_irrefl _)
  refine { hfresh with running_lt := ?_, assigned_lt := ?_, calls := ?_ }
  · intro process hprocess
    cases hprocess
    exact Nat.lt_succ_self _
  · intro attempt process number hassigned
    obtain ⟨hlt, hnumber⟩ := hfresh.assigned_lt attempt process number hassigned
    exact ⟨Nat.lt_succ_of_lt hlt, hnumber⟩
  · intro other call hother hcall
    refine (hfresh.calls other call hother hcall).mono (Nat.le_succ _) (fun _ => rfl) (fun hunsent => ?_)
      (List.append_nil _).symm
    exact ⟨hunsent.stdin, hunsent.log⟩

/-- A number that no attempt has is given to one of the acting call. -/
theorem assign (h : state.Invariant broker start steps (some who)) {retry : Bool} {number : Nat}
    (hprocess : process < state.launched)
    (hnumber : number < (state.processes process).requests) (hnone : state.assigned ⟨who, retry⟩ = none)
    (hfree : ∀ attempt, state.assigned attempt ≠ some (process, number)) {call : Call}
    (hcall : state.calls who = some call) :
    { state with
      assigned := Function.update state.assigned ⟨who, retry⟩ (some (process, number)) }.Invariant broker start steps
        (some who) := by
  have hkept : ∀ {attempt place}, state.assigned attempt = some place →
      Function.update state.assigned ⟨who, retry⟩ (some (process, number)) attempt = some place := by
    intro attempt place hplace
    rw [Function.update_of_ne, hplace]
    rintro rfl
    cases hnone.symm.trans hplace
  have hfound : ∀ {attempt place},
      Function.update state.assigned ⟨who, retry⟩ (some (process, number)) attempt = some place →
      attempt = ⟨who, retry⟩ ∧ place = (process, number) ∨ state.assigned attempt = some place := by
    intro attempt place hplace
    by_cases hattempt : attempt = ⟨who, retry⟩
    · subst hattempt
      rw [Function.update_self] at hplace
      exact .inl ⟨rfl, (Option.some.inj hplace).symm⟩
    · rw [Function.update_of_ne hattempt] at hplace
      exact .inr hplace
  refine { h with
    unassigned := ?_, assigned_lt := ?_, assigned_inj := ?_, sent := ?_, executed := ?_, pending := ?_, calls := ?_ }
  · intro other found hother
    have hne : (⟨other, found⟩ : Attempt) ≠ ⟨who, retry⟩ := by
      intro heq
      cases heq
      cases hcall.symm.trans hother
    exact (Function.update_of_ne hne ..).trans (h.unassigned other found hother)
  · intro attempt other found hassigned
    rcases hfound hassigned with ⟨-, hplace⟩ | hold
    · cases hplace
      exact ⟨hprocess, hnumber⟩
    · exact h.assigned_lt attempt other found hold
  · intro attempt other place hattempt hother
    rcases hfound hattempt with ⟨rfl, rfl⟩ | hold
    · rcases hfound hother with ⟨rfl, -⟩ | hold'
      · rfl
      · exact absurd hold' (hfree other)
    · rcases hfound hother with ⟨-, rfl⟩ | hold'
      · exact absurd hold (hfree attempt)
      · exact h.assigned_inj attempt other place hold hold'
  · intro other id operation sender hmem
    obtain ⟨⟨found, hassigned, hid⟩, hrest⟩ := h.sent other id operation sender hmem
    exact ⟨⟨found, hkept hassigned, hid⟩, hrest⟩
  · intro i execution sender hget hsender
    obtain ⟨⟨found, hassigned, hid⟩, hrest⟩ := h.executed i execution sender hget hsender
    exact ⟨⟨found, hkept hassigned, hid⟩, hrest⟩
  · intro other id attempt hmem
    obtain ⟨found, hassigned, hid⟩ := h.pending other id attempt hmem
    exact ⟨found, hkept hassigned, hid⟩
  · intro other call hother hcall
    refine (h.calls other call hother hcall).mono (Nat.le_refl _) (fun found => Function.update_of_ne ?_ ..)
      (fun hunsent => ⟨hunsent.stdin, hunsent.log⟩) (List.append_nil _).symm
    intro heq
    cases heq
    exact hother rfl

end State.Invariant

/-- An attempt that fails. -/
theorem State.CallOk.fail {error : ProviderError} (h : state.CallOk who call) (herror : error ≠ .indeterminate)
    (hbroker : ∀ reported, error = .broker reported →
      state.AnsweredBefore ⟨who, call.retry⟩ (.error reported) state.log.length) :
    state.CallOk who (call.fail error state.log.length) := by
  rw [Call.fail]
  split_ifs with hfirst
  · exact ⟨h.retrySafe, h.untried, hfirst.1⟩
  · refine ⟨h.retrySafe, h.untried, Nat.le_refl _, ?_⟩
    cases error with
    | broker reported => exact hbroker reported rfl
    | indeterminate => exact absurd rfl herror
    | transport =>
        have hretry : call.retry = true := by simpa using hfirst
        exact hretry
    | timeout =>
        have hretry : call.retry = true := by simpa using hfirst
        exact hretry
    | invalidRequest message => trivial
    | invalidSession => trivial
    | secretTooLarge => trivial
    | protocol error => trivial

/-- A call after the restart. -/
theorem State.CallOk.resume (h : state.CallOk who call) (hretry : call.retry = false) :
    state.CallOk who (call.resume state.log.length) := by
  rw [Call.resume]
  split_ifs with hsafe
  · exact ⟨fun _ => hsafe, by simp, h.untried hretry⟩
  · refine ⟨h.retrySafe, h.untried, Nat.le_refl _, ?_⟩
    exact Bool.eq_false_iff.mpr hsafe

theorem StartFailure.toProviderError_ne (failure : StartFailure) : failure.toProviderError ≠ .indeterminate := by
  cases failure with
  | transport => simp [toProviderError]
  | timeout => simp [toProviderError]
  | protocol error => cases error <;> simp [toProviderError, ProviderError.ofProtocol]

theorem StartFailure.toProviderError_ne_broker (failure : StartFailure) (reported : BrokerError) :
    failure.toProviderError ≠ .broker reported := by
  cases failure with
  | transport => simp [toProviderError]
  | timeout => simp [toProviderError]
  | protocol error => cases error <;> simp [toProviderError, ProviderError.ofProtocol]

theorem Call.operation_fail (call : Call) (error : ProviderError) (now : Nat) :
    (call.fail error now).operation = call.operation ∧ (call.fail error now).begun = call.begun := by
  rw [Call.fail]
  split_ifs <;> exact ⟨rfl, rfl⟩

theorem Call.operation_settle (call : Call) (result : Except ProviderError ResponseBody) (now : Nat) :
    (call.settle result now).operation = call.operation ∧ (call.settle result now).begun = call.begun := by
  cases result with
  | ok body => exact ⟨rfl, rfl⟩
  | error error => exact call.operation_fail error now

theorem Call.operation_resume (call : Call) (now : Nat) :
    (call.resume now).operation = call.operation ∧ (call.resume now).begun = call.begun := by
  rw [Call.resume]
  split_ifs <;> exact ⟨rfl, rfl⟩

/-- What was received settles a call. -/
theorem State.Invariant.settled (h : state.Invariant broker start steps acting) (hok : state.CallOk who call)
    {result : Except ProviderError ResponseBody} (hinbox : state.inbox ⟨who, call.retry⟩ = some result) :
    state.CallOk who (call.settle result state.log.length) := by
  rcases h.inbox _ _ hinbox with rfl | ⟨answer, rfl, hanswer⟩
  · exact hok.fail (by simp) (by simp)
  · cases answer with
    | ok body => exact ⟨hok.retrySafe, hok.untried, Nat.le_refl _, hanswer⟩
    | error error =>
        refine hok.fail (by simp) fun reported hreported => ?_
        cases hreported
        exact hanswer

namespace State.Invariant

theorem advance (h : state.Invariant broker start steps (some who)) {call next : Call}
    (hcall : state.calls who = some call)
    (hsame : next.operation = call.operation ∧ next.begun = call.begun) (hnext : state.CallOk who next) :
    (state.put who next).Invariant broker start steps none := by
  refine h.put (fun old hold => ?_) (hsame.2.trans_le (h.begun_le who call hcall)) hnext
  cases hcall.symm.trans hold
  exact ⟨hsame.1.symm, hsame.2.symm⟩

/-- A request of the acting call is written, in whole, in part or not at all. -/
theorem send (h : state.Invariant broker start steps (some who)) {call : Call} {id : UInt64}
    (hcall : state.calls who = some call) (hnumbered : state.Numbered ⟨who, call.retry⟩ process id)
    (hunsent : state.Unsent ⟨who, call.retry⟩) (left : Remains) :
    (state.amend process fun found =>
      { found with stdin := found.stdin ++ left.sent id call.operation ⟨who, call.retry⟩ }).Invariant broker start steps
        (some who) := by
  refine h.amend (fun attempt number hassigned => (h.assigned_lt attempt process number hassigned).2)
    (h.requests_le process) (fun found operation sender hmem => ?_) ?_ (h.responded process) (h.pending process)
  · rcases List.mem_append.mp hmem with hold | hnew
    · exact .inl hold
    · cases left with
      | nothing => cases hnew
      | part => cases List.mem_singleton.mp hnew
      | whole =>
          cases List.mem_singleton.mp hnew
          exact .inr ⟨rfl, hnumbered, hunsent.log, call, hcall, rfl⟩
  · rw [List.filterMap_append]
    refine List.nodup_append.mpr ⟨h.stdin_nodup process, ?_, fun attempt hold other hnew heq => ?_⟩
    · cases left with
      | nothing => exact List.nodup_nil
      | part => exact List.nodup_nil
      | whole => exact List.nodup_singleton _
    · subst heq
      cases left with
      | nothing => cases hnew
      | part => cases hnew
      | whole =>
          cases List.mem_singleton.mp hnew
          exact hunsent.stdin process hold

theorem callStep (h : state.Invariant broker start steps none) {call : Call} (hcall : state.calls who = some call)
    {event : Event} {next : State} (hstep : callStep broker state who call event = some next) :
    next.Invariant broker start (steps + 1) none := by
  have hok := h.calls who call (by simp) hcall
  have hphase := hok.phase
  have hacting := (h.act who).later
  cases event with
  | acquires _ =>
      simp only [Bridge.callStep] at hstep
      split at hstep
      · rename_i process hacquiring hrunning
        cases hstep
        simp only [State.PhaseOk, hacquiring] at hphase
        exact hacting.advance hcall ⟨rfl, rfl⟩ ⟨hok.retrySafe, hok.untried, h.running_lt process hrunning, hphase⟩
      · cases hstep
  | launches _ startup =>
      simp only [Bridge.callStep] at hstep
      split at hstep
      · rename_i hacquiring _ _
        cases hstep
        simp only [State.PhaseOk, hacquiring] at hphase
        have hrecovered : (state.execute broker state.launched 0 none ⟨.reconcile, startup⟩).Invariant broker start
            (steps + 1) (some who) := hacting.execute (by simp)
        exact hrecovered.launch.advance hcall ⟨rfl, rfl⟩ ⟨hok.retrySafe, hok.untried, Nat.lt_succ_self _, hphase⟩
      · cases hstep
  | launchFails _ left failure =>
      simp only [Bridge.callStep] at hstep
      split at hstep
      · have hfailed : ∀ after : State, after.Invariant broker start (steps + 1) none → after.calls who = some call →
            (after.put who (call.fail failure.toProviderError after.log.length)).Invariant broker start (steps + 1)
              none := by
          intro after hafter hfound
          refine (hafter.act who).advance hfound (call.operation_fail _ _)
            ((hafter.calls who call (by simp) hfound).fail ?_ fun reported hreported => ?_)
          · exact failure.toProviderError_ne
          · exact absurd hreported (failure.toProviderError_ne_broker reported)
        cases left with
        | nothing =>
            cases hstep
            exact hfailed state h.later hcall
        | orphan =>
            cases hstep
            exact hfailed _ (h.later.giveUp _) hcall
        | recovered startup =>
            cases hstep
            exact hfailed _ (h.later.execute (by simp)) hcall
      · cases hstep
  | numbers _ =>
      simp only [Bridge.callStep] at hstep
      split at hstep
      · rename_i process hnumbering
        cases hstep
        simp only [State.PhaseOk, hnumbering] at hphase
        have hunsent := h.unsent_of_unassigned hphase.2
        have hcounted : (state.amend process fun found => { found with requests := found.requests + 1 }).Invariant
            broker start (steps + 1) (some who) := by
          refine hacting.amend (fun attempt number hassigned => ?_) (Nat.succ_le_succ (h.requests_le process))
            (fun _ _ _ hmem => .inl hmem) (h.stdin_nodup process) (h.responded process) (h.pending process)
          exact Nat.lt_succ_of_lt (h.assigned_lt attempt process number hassigned).2
        have hnumber : (state.processes process).requests <
            ((state.amend process fun found => { found with requests := found.requests + 1 }).processes
              process).requests := by
          rw [State.amend_self]
          exact Nat.lt_succ_self _
        have hassigned := hcounted.assign hphase.1 hnumber hphase.2
          (fun attempt heq => Nat.lt_irrefl _ (h.assigned_lt attempt _ _ heq).2) hcall
        have hcountedUnsent : (state.amend process fun found => { found with requests := found.requests + 1 }).Unsent
            ⟨who, call.retry⟩ := hunsent.amend rfl
        refine hassigned.advance hcall ⟨rfl, rfl⟩ ⟨hok.retrySafe, fun hretry => ?_, ?_, ?_⟩
        · refine (Function.update_of_ne ?_ ..).trans (hok.untried hretry)
          rw [show call.retry = false from hretry]
          simp
        · exact ⟨_, Function.update_self .., rfl⟩
        · exact ⟨hcountedUnsent.stdin, hcountedUnsent.log⟩
      · cases hstep
  | enrolls _ =>
      simp only [Bridge.callStep] at hstep
      split at hstep
      · rename_i process id henrolling
        cases hstep
        simp only [State.PhaseOk, henrolling] at hphase
        have henrolled : (state.amend process fun found =>
            { found with pending := (id, ⟨who, call.retry⟩) :: found.pending.filter (·.1 ≠ id) }).Invariant broker start
              (steps + 1) (some who) := by
          refine hacting.amend (fun attempt number hassigned => (h.assigned_lt attempt process number hassigned).2)
            (hacting.requests_le process) (fun _ _ _ hmem => .inl hmem) (h.stdin_nodup process) (h.responded process)
            fun found attempt hmem => ?_
          rcases List.mem_cons.mp hmem with hnew | hold
          · cases hnew
            exact hphase.1
          · exact h.pending process found attempt (List.mem_of_mem_filter hold)
        exact henrolled.advance hcall ⟨rfl, rfl⟩ ⟨hok.retrySafe, hok.untried, hphase.1, hphase.2.amend rfl⟩
      · cases hstep
  | writes _ =>
      simp only [Bridge.callStep] at hstep
      split at hstep
      · rename_i process id hwriting
        cases hstep
        simp only [State.PhaseOk, hwriting] at hphase
        have hsent := hacting.send hcall hphase.1 hphase.2 .whole
        exact hsent.advance hcall ⟨rfl, rfl⟩ ⟨hok.retrySafe, hok.untried, trivial⟩
      · cases hstep
  | writeFails _ left expired =>
      simp only [Bridge.callStep] at hstep
      split at hstep
      · rename_i process id hwriting
        cases hstep
        simp only [State.PhaseOk, hwriting] at hphase
        have hsent := hacting.send hcall hphase.1 hphase.2 left
        refine hsent.advance hcall ⟨rfl, rfl⟩ ⟨hok.retrySafe, hok.untried, ?_⟩
        cases expired with
        | true => exact .inr rfl
        | false => exact .inl rfl
      · cases hstep
  | retracts _ =>
      simp only [Bridge.callStep] at hstep
      split at hstep
      · rename_i process id error hretracting
        cases hstep
        simp only [State.PhaseOk, hretracting] at hphase
        have hretracted : (state.amend process fun found =>
            { found with pending := found.pending.filter (·.1 ≠ id) }).Invariant broker start (steps + 1) none :=
          h.later.shrink rfl (List.Sublist.refl _) (List.Subset.refl _) List.filter_sublist.subset
        refine (hretracted.act who).advance hcall (call.operation_fail _ _)
          ((hretracted.calls who call (by simp) hcall).fail ?_ ?_)
        · rintro rfl
          simp at hphase
        · rintro reported rfl
          simp at hphase
      · cases hstep
  | receives _ =>
      simp only [Bridge.callStep] at hstep
      split at hstep
      · rename_i result _ hinbox
        cases hstep
        exact hacting.advance hcall (call.operation_settle _ _) (h.settled hok hinbox)
      · cases hstep
  | expires _ =>
      simp only [Bridge.callStep] at hstep
      split at hstep
      · cases hstep
        exact hacting.advance hcall (call.operation_fail _ _) (hok.fail (by simp) (by simp))
      · cases hstep
  | takes _ =>
      simp only [Bridge.callStep] at hstep
      split at hstep
      · rename_i hrestarting _
        cases hstep
        simp only [State.PhaseOk, hrestarting] at hphase
        exact hacting.advance hcall (call.operation_resume _) (hok.resume hphase)
      · rename_i process hrestarting _
        cases hstep
        simp only [State.PhaseOk, hrestarting] at hphase
        exact hacting.release.advance hcall ⟨rfl, rfl⟩ ⟨hok.retrySafe, hok.untried, hphase⟩
      · cases hstep
  | kills _ =>
      simp only [Bridge.callStep] at hstep
      split at hstep
      · rename_i process hkilling
        cases hstep
        simp only [State.PhaseOk, hkilling] at hphase
        have hkilled : (state.amend process fun found => { found with alive := false }).Invariant broker start
            (steps + 1) (some who) := hacting.shrink rfl (List.Sublist.refl _) (List.Subset.refl _) (List.Subset.refl _)
        exact hkilled.advance hcall ⟨rfl, rfl⟩ ⟨hok.retrySafe, hok.untried, hphase⟩
      · cases hstep
  | drains _ =>
      simp only [Bridge.callStep] at hstep
      split at hstep
      · rename_i process hdraining
        cases hstep
        simp only [State.PhaseOk, hdraining] at hphase
        have hdrained := h.later.drain process
        exact (hdrained.act who).advance hcall (call.operation_resume _)
          ((hdrained.calls who call (by simp) hcall).resume hphase)
      · cases hstep
  | begins _ _ | releases | recovers _ | executes _ _ _ | misreads _ _ _ _ _ _ | stops _ | delivers _ | hangsUp _
  | clears _ =>
      cases hstep

theorem processStep (h : state.Invariant broker start steps none) (hsteps : steps < 2 ^ 64) {event : Event}
    (hevent : ¬ event.Misread) {next : State} (hstep : processStep broker state process event = some next) :
    next.Invariant broker start (steps + 1) none := by
  refine later ?_
  cases event with
  | executes _ fates written =>
      simp only [Bridge.processStep] at hstep
      split at hstep
      · rename_i id operation sender rest _ hstdin
        cases hstep
        exact (h.executes hstdin fates).respond (List.mem_append_right _ List.mem_cons_self) written
      · cases hstep
  | misreads _ _ _ _ _ _ => exact absurd trivial hevent
  | stops _ =>
      cases hstep
      exact h.shrink rfl (List.Sublist.refl _) (List.Subset.refl _) (List.Subset.refl _)
  | delivers _ =>
      simp only [Bridge.processStep] at hstep
      split at hstep
      · rename_i id result rest _ hstdout
        have hread : (state.amend process fun found =>
            { found with stdout := rest, pending := found.pending.filter (·.1 ≠ id) }).Invariant broker start steps
              none := by
          refine h.shrink rfl (List.Sublist.refl _) ?_ List.filter_sublist.subset
          rw [hstdout]
          exact List.subset_cons_self _ _
        split at hstep
        · rename_i attempt hlookup
          cases hstep
          refine hread.fill fun other found hfound => ?_
          by_cases hother : other = attempt
          · subst hother
            rw [Function.update_self] at hfound
            cases hfound
            exact .inr (.inr ⟨result, rfl, h.delivers hsteps hstdout (mem_of_lookup hlookup)⟩)
          · rw [Function.update_of_ne hother] at hfound
            exact .inl hfound
        · cases hstep
          exact hread
      · cases hstep
  | hangsUp _ =>
      cases hstep
      exact h.shrink rfl (List.Sublist.refl _) (List.Subset.refl _) (List.Subset.refl _)
  | clears _ =>
      cases hstep
      exact h.drain process
  | begins _ _ | releases | recovers _ | acquires _ | launches _ _ | launchFails _ _ _
  | numbers _ | enrolls _ | writes _
  | writeFails _ _ _ | retracts _ | receives _ | expires _ | takes _ | kills _ | drains _ => cases hstep

/-- Every step keeps the invariant. -/
theorem step (h : state.Invariant broker start steps none) (hsteps : steps < 2 ^ 64) {event : Event}
    (hevent : ¬ event.Misread) {next : State} (hstep : step broker state event = some next) :
    next.Invariant broker start (steps + 1) none := by
  cases event with
  | begins who operation =>
      simp only [Bridge.step] at hstep
      split at hstep
      · rename_i hnone
        cases hstep
        refine ((h.act who).put (fun old hold => ?_) (Nat.le_refl _) ⟨by simp, fun _ => ?_, ?_⟩).later
        · cases hnone.symm.trans hold
        · exact h.unassigned who true hnone
        · exact h.unassigned who false hnone
      · cases hstep
  | releases =>
      cases hstep
      exact h.release.later
  | recovers startup =>
      simp only [Bridge.step] at hstep
      split at hstep
      · cases hstep
      · cases hstep
        exact (h.execute (by simp)).later.giveUp _
  | acquires _ | launches _ _ | launchFails _ _ _ | numbers _ | enrolls _ | writes _ | writeFails _ _ _ | retracts _
  | receives _ | expires _ | takes _ | kills _ | drains _ =>
      simp only [Bridge.step] at hstep
      split at hstep
      · cases hstep
      · rename_i hcall
        exact h.callStep hcall hstep
  | executes _ _ _ | misreads _ _ _ _ _ _ | stops _ | delivers _ | hangsUp _ | clears _ =>
      exact h.processStep hsteps hevent hstep

end State.Invariant

/-- The invariant, as long as there are fewer steps than numbers. -/
def Counted (broker : Broker) (start : Vault) (done : List Event) (state : State) : Prop :=
  done.length < 2 ^ 64 → state.Invariant broker start done.length none

/-- The invariant holds after every run without misread requests. -/
theorem invariant_run {events : List Event} (hevents : ∀ event ∈ events, ¬ event.Misread)
    (hlength : events.length < 2 ^ 64) (hrun : run broker events (.initial start) = some state) :
    state.Invariant broker start events.length none := by
  have hstep : ∀ {done : List Event} {before : State} {event : Event} {after : State},
      Counted broker start done before → ¬ event.Misread → step broker before event = some after →
      Counted broker start (done ++ [event]) after := by
    intro done before event after hinv hevent hafter hbound
    rw [List.length_append, List.length_singleton] at hbound ⊢
    exact (hinv (by omega)).step (by omega) hevent hafter
  have hfinal : Counted broker start ([] ++ events) state :=
    EventMachine.run_induction hstep (fun _ => invariant_initial broker start) hevents hrun
  exact hfinal hlength

/-! ### What calls get -/

/-- An operation that may be sent twice leaves every vault as it is. -/
theorem respond_state_of_retrySafe {operation : Operation} (h : retrySafe operation = true) (fates : Fates BackendError)
    (vault : Vault) : (broker.respond ⟨operation, fates⟩ vault).state = vault := by
  cases operation with
  | ping => exact Broker.respond_state_of_reading (Action.calls_pure _) fates
  | listCollections => exact Broker.respond_read_state .listCollections
  | getCollection collectionId => exact Broker.respond_read_state (.getCollection collectionId)
  | listAliases => exact Broker.respond_read_state .listAliases
  | resolveAlias name => exact Broker.respond_read_state (.resolveAlias name)
  | searchItems attributes => exact Broker.respond_read_state (.searchItems attributes)
  | listItems collectionId => exact Broker.respond_read_state (.listItems collectionId)
  | getItem itemId includeSecret => exact Broker.respond_read_state (.getItem itemId includeSecret)
  | _ => cases h

/-- The executions made for a call. -/
def State.attemptsOf (state : State) (who : Nat) : List Attempt :=
  (state.log.filterMap Execution.sender).filter fun attempt => attempt.call = who

theorem State.Invariant.attemptsOf_le (h : state.Invariant broker start steps none)
    (hcall : state.calls who = some call) :
    (state.attemptsOf who).length ≤ if retrySafe call.operation then 2 else 1 := by
  have hnodup : (state.attemptsOf who).Nodup := h.log_nodup.filter _
  have hmem : ∀ attempt ∈ state.attemptsOf who, attempt = ⟨who, false⟩ ∨ attempt = ⟨who, true⟩ := by
    rintro ⟨owner, retry⟩ hattempt
    obtain rfl : owner = who := by simpa using (List.mem_filter.mp hattempt).2
    cases retry with
    | false => exact .inl rfl
    | true => exact .inr rfl
  split_ifs with hsafe
  · have hsubset : state.attemptsOf who ⊆ [⟨who, false⟩, ⟨who, true⟩] := fun attempt hattempt => by
      simpa using hmem attempt hattempt
    exact (hnodup.subperm hsubset).length_le
  · have hok := h.calls who call (by simp) hcall
    have hretry : call.retry = false := Bool.eq_false_iff.mpr fun hretry => hsafe (hok.retrySafe hretry)
    have hunsent := h.unsent_of_unassigned (hok.untried hretry)
    have hsubset : state.attemptsOf who ⊆ [⟨who, false⟩] := by
      intro attempt hattempt
      rcases hmem attempt hattempt with rfl | rfl
      · exact List.mem_singleton.mpr rfl
      · exact absurd (List.mem_filter.mp hattempt).1 hunsent.log
    exact (hnodup.subperm hsubset).length_le

/-- An execution of the operation of the call, made between its begin and the given moment, had the result. -/
def State.ExecutedFor (state : State) (who : Nat) (call : Call) (result : Except BrokerError ResponseBody) (now : Nat) :
    Prop :=
  ∃ i execution, call.begun ≤ i ∧ i < now ∧ state.log[i]? = some execution ∧
    execution.sender.map Attempt.call = some who ∧ execution.step.operation = call.operation ∧
    execution.outcome = .returned result

theorem State.Invariant.executedFor (h : state.Invariant broker start steps none) (hcall : state.calls who = some call)
    {result : Except BrokerError ResponseBody} {now : Nat}
    (hanswered : state.AnsweredBefore ⟨who, call.retry⟩ result now) : state.ExecutedFor who call result now := by
  obtain ⟨i, hi, execution, hget, hsender, houtcome⟩ := hanswered
  obtain ⟨-, found, hfound, hoperation, hbegun⟩ := h.executed i execution _ hget hsender
  cases hcall.symm.trans hfound
  exact ⟨i, execution, hbegun, hi, hget, by rw [hsender]; rfl, hoperation.symm, houtcome⟩

/-- Whatever the order in which calls, processes, readers, failures, timeouts and restarts take their steps, as long as
no process takes a frame that was cut off for a request: the vault is what the executions leave one after the other;
each execution for a call is of its operation and comes after its begin; an operation that changes the vault is
executed at most once for a call, one that reads at most twice and without effect; an answer is that of an execution
made for the call while it ran; only operations that change the vault end as indeterminate, and only those that read
end with a failure of the connection. -/
theorem bridge_answers_faithfully (broker : Broker) (start : Vault) (events : List Event)
    (hevents : ∀ event ∈ events, ¬ event.Misread) (hlength : events.length < 2 ^ 64) (state : State)
    (hrun : run broker events (.initial start) = some state) :
    state.vault = broker.after (state.log.map Execution.step) start ∧
    (∀ i execution sender, state.log[i]? = some execution → execution.sender = some sender →
      ∃ call, state.calls sender.call = some call ∧ execution.step.operation = call.operation ∧ call.begun ≤ i) ∧
    (∀ who call, state.calls who = some call →
      (state.attemptsOf who).length ≤ if retrySafe call.operation then 2 else 1) ∧
    (∀ operation fates vault, retrySafe operation = true → (broker.respond ⟨operation, fates⟩ vault).state = vault) ∧
    ∀ who call result now, state.calls who = some call → call.phase = .returned result now →
      (∀ body, result = .ok body → state.ExecutedFor who call (.ok body) now) ∧
      (∀ error, result = .error (.broker error) → state.ExecutedFor who call (.error error) now) ∧
      (result = .error .indeterminate → retrySafe call.operation = false) ∧
      (result = .error .transport ∨ result = .error .timeout → retrySafe call.operation = true) := by
  have h : state.Invariant broker start events.length none := invariant_run hevents hlength hrun
  refine ⟨h.vault_eq, fun i execution sender hget hsender => ?_, fun who call => h.attemptsOf_le,
    fun operation fates vault hsafe => respond_state_of_retrySafe hsafe fates vault, ?_⟩
  · obtain ⟨-, call, hcall, hoperation, hbegun⟩ := h.executed i execution sender hget hsender
    exact ⟨call, hcall, hoperation.symm, hbegun⟩
  · intro who call result now hcall hphase
    have hok := h.calls who call (by simp) hcall
    have hsettled := hok.phase
    simp only [State.PhaseOk, hphase] at hsettled
    refine ⟨?_, ?_, ?_, ?_⟩
    · rintro body rfl
      exact h.executedFor hcall hsettled.2
    · rintro error rfl
      exact h.executedFor hcall hsettled.2
    · rintro rfl
      exact hsettled.2
    · rintro (rfl | rfl)
      · exact hok.retrySafe hsettled.2
      · exact hok.retrySafe hsettled.2

/-- A collection is created while a second call reads. The second call times out, takes the process away and asks
again; the first one has had its answer by then. -/
theorem bridge_answers_two_calls :
    let events : List Event :=
      [.begins 0 (.createCollection ⟨1, ⟨7⟩, "login", 5, 5⟩), .begins 1 .listCollections, .launches 0 undisturbed,
        .acquires 1, .numbers 1, .numbers 0, .enrolls 0, .enrolls 1, .writes 0, .writes 1, .executes 0 undisturbed true,
        .delivers 0, .receives 0, .expires 1, .takes 1, .kills 1, .drains 1, .launches 1 undisturbed, .numbers 1,
        .enrolls 1, .writes 1, .executes 1 undisturbed true, .delivers 1, .receives 1]
    ∃ state, run (cborBroker inMemoryBackend) events (.initial ∅) = some state ∧
      state.vault = (cborBroker inMemoryBackend).after (state.log.map Execution.step) ∅ ∧ state.log.length = 4 := by
  intro events
  have hpossible : ((run (cborBroker inMemoryBackend) events (.initial ∅)).map fun state => state.log.length) =
      some 4 := by
    decide +kernel
  obtain ⟨state, hrun, hlog⟩ := Option.map_eq_some_iff.mp hpossible
  refine ⟨state, hrun, ?_, hlog⟩
  refine (bridge_answers_faithfully (cborBroker inMemoryBackend) ∅ events ?_ (by decide) state hrun).1
  simp [events, Event.Misread]

end Bridge

end WincredLibsecret
