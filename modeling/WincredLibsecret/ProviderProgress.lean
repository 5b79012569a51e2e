import WincredLibsecret.ProviderBridge

/-! Calls over the bridge come to an end. Every phase of a call has a step of its own that is possible whatever the
others do, because what it waits for is limited in time, and every step of a call brings it nearer to its end:
two attempts and one restart are all it makes. -/

namespace WincredLibsecret

open Effect

namespace Bridge

/-- The call whose step an event is. -/
def Event.owner : Event → Option Nat
  | .begins who _ | .acquires who | .launches who _ | .launchFails who _ _ | .numbers who | .enrolls who | .writes who
  | .writeFails who _ _ | .retracts who | .receives who | .expires who | .takes who | .kills who | .drains who =>
      some who
  | _ => none

/-- How many steps a call can still make. -/
def Phase.rank (retry : Bool) : Phase → Nat
  | .acquiring => if retry then 5 else 13
  | .numbering _ => if retry then 4 else 12
  | .enrolling _ _ => if retry then 3 else 11
  | .writing _ _ => if retry then 2 else 10
  | .retracting _ _ _ | .waiting _ _ => if retry then 1 else 9
  | .restarting => 8
  | .killing _ => 7
  | .draining _ => 6
  | .returned _ _ => 0

def Call.rank (call : Call) : Nat := call.phase.rank call.retry

/-- A call that has not begun can make one more. -/
def State.rankOf (state : State) (who : Nat) : Nat := ((state.calls who).map Call.rank).getD 14

variable {broker : Broker} {state next : State} {who : Nat} {call : Call}

/-- Phases in which an attempt can fail: a first attempt still has the restart before it. -/
def Phase.Fallible (phase : Phase) : Prop := 0 < phase.rank true ∧ 8 < phase.rank false

theorem Call.rank_fail_lt (error : ProviderError) (now : Nat) (h : call.phase.Fallible) :
    (call.fail error now).rank < call.rank := by
  rw [Call.fail, Call.rank, Call.rank]
  cases hretry : call.retry with
  | false =>
      split_ifs
      · exact h.2
      · exact Nat.zero_lt_of_lt h.2
  | true =>
      rw [if_neg (by simp)]
      exact h.1

theorem Call.rank_settle_lt (result : Except ProviderError ResponseBody) (now : Nat) (h : call.phase.Fallible) :
    (call.settle result now).rank < call.rank := by
  cases result with
  | error error => exact Call.rank_fail_lt error now h
  | ok body =>
      change 0 < call.phase.rank call.retry
      cases call.retry with
      | false => exact Nat.zero_lt_of_lt h.2
      | true => exact h.1

theorem Call.rank_resume_lt (now : Nat) (h : 5 < call.rank) : (call.resume now).rank < call.rank := by
  rw [Call.resume]
  split_ifs
  · exact h
  · exact Nat.zero_lt_of_lt h

/-- The phases follow one another downwards. -/
theorem rank_lt_of_phase {phase later : Phase} (hphase : call.phase = phase)
    (hlater : later.rank true < phase.rank true ∧ later.rank false < phase.rank false) :
    { call with phase := later }.rank < call.rank := by
  change later.rank call.retry < call.phase.rank call.retry
  rw [hphase]
  cases call.retry with
  | false => exact hlater.2
  | true => exact hlater.1

/-- A step of a call changes no other call and lowers its rank. -/
theorem callStep_rank {event : Event} (h : callStep broker state who call event = some next) :
    ∃ later, next.calls = Function.update state.calls who (some later) ∧ later.rank < call.rank := by
  cases event with
  | acquires _ =>
      simp only [callStep] at h
      split at h
      · rename_i hphase _
        cases h
        exact ⟨_, rfl, rank_lt_of_phase hphase (by simp [Phase.rank])⟩
      · cases h
  | launches _ startup =>
      simp only [callStep] at h
      split at h
      · rename_i hphase _ _
        cases h
        exact ⟨_, rfl, rank_lt_of_phase hphase (by simp [Phase.rank])⟩
      · cases h
  | launchFails _ left failure =>
      simp only [callStep] at h
      split at h
      · rename_i hphase _
        have hfallible : call.phase.Fallible := by rw [hphase]; simp [Phase.Fallible, Phase.rank]
        cases left with
        | nothing | orphan | recovered startup =>
            cases h
            exact ⟨_, rfl, Call.rank_fail_lt _ _ hfallible⟩
      · cases h
  | numbers _ | enrolls _ | writes _ | writeFails _ _ _ | kills _ =>
      simp only [callStep] at h
      split at h
      · rename_i hphase
        cases h
        exact ⟨_, rfl, rank_lt_of_phase hphase (by simp [Phase.rank])⟩
      · cases h
  | retracts _ | expires _ =>
      simp only [callStep] at h
      split at h
      · rename_i hphase
        cases h
        exact ⟨_, rfl, Call.rank_fail_lt _ _ (by rw [hphase]; simp [Phase.Fallible, Phase.rank])⟩
      · cases h
  | receives _ =>
      simp only [callStep] at h
      split at h
      · rename_i hphase _
        cases h
        exact ⟨_, rfl, Call.rank_settle_lt _ _ (by rw [hphase]; simp [Phase.Fallible, Phase.rank])⟩
      · cases h
  | takes _ =>
      simp only [callStep] at h
      split at h
      · rename_i hphase _
        cases h
        exact ⟨_, rfl, Call.rank_resume_lt _ (by rw [Call.rank, hphase]; simp [Phase.rank])⟩
      · rename_i hphase _
        cases h
        exact ⟨_, rfl, rank_lt_of_phase hphase (by simp [Phase.rank])⟩
      · cases h
  | drains _ =>
      simp only [callStep] at h
      split at h
      · rename_i hphase
        cases h
        exact ⟨_, rfl, Call.rank_resume_lt _ (by rw [Call.rank, hphase]; simp [Phase.rank])⟩
      · cases h
  | begins _ _ | releases | recovers _ | executes _ _ _ | misreads _ _ _ _ _ _ | stops _ | delivers _ | hangsUp _
  | clears _ => cases h

/-- A step of a process changes no call. -/
theorem processStep_calls {process : Nat} {event : Event} (h : processStep broker state process event = some next) :
    next.calls = state.calls := by
  have hrespond : ∀ (left : State) (id : UInt64) (outcome : Outcome (Except BrokerError ResponseBody)) (written : Bool),
      (left.respond process id outcome written).calls = left.calls := by
    intro left id outcome written
    cases outcome with
    | killed => rfl
    | returned result => cases written <;> rfl
  cases event with
  | executes _ fates written =>
      simp only [processStep] at h
      split at h
      · cases h
        exact hrespond _ _ _ _
      · cases h
  | misreads _ id operation left fates written =>
      simp only [processStep] at h
      split at h
      · cases h
        exact hrespond _ _ _ _
      · cases h
  | delivers _ =>
      simp only [processStep] at h
      split at h
      · split at h <;> (cases h; rfl)
      · cases h
  | stops _ | hangsUp _ | clears _ =>
      cases h
      rfl
  | begins _ _ | releases | recovers _ | acquires _ | launches _ _ | launchFails _ _ _
  | numbers _ | enrolls _ | writes _
  | writeFails _ _ _ | retracts _ | receives _ | expires _ | takes _ | kills _ | drains _ => cases h

theorem rankOf_of_calls {later : Call} (h : next.calls = Function.update state.calls who (some later)) :
    next.rankOf who = later.rank ∧ ∀ other, other ≠ who → next.rankOf other = state.rankOf other := by
  refine ⟨?_, fun other hother => ?_⟩
  · rw [State.rankOf, h, Function.update_self]
    rfl
  · rw [State.rankOf, h, Function.update_of_ne hother]
    rfl

/-- A step lowers the rank of the call it belongs to and keeps those of the others. -/
theorem step_rank {event : Event} (h : step broker state event = some next) (who : Nat) :
    event.owner = some who ∧ next.rankOf who < state.rankOf who ∨
      event.owner ≠ some who ∧ next.rankOf who = state.rankOf who := by
  have howned : ∀ {owner : Nat} {later : Call}, event.owner = some owner →
      next.calls = Function.update state.calls owner (some later) → later.rank < state.rankOf owner →
      event.owner = some who ∧ next.rankOf who < state.rankOf who ∨
        event.owner ≠ some who ∧ next.rankOf who = state.rankOf who := by
    intro owner later howner hcalls hrank
    obtain ⟨hself, hothers⟩ := rankOf_of_calls hcalls
    by_cases hwho : who = owner
    · subst hwho
      exact .inl ⟨howner, hself.trans_lt hrank⟩
    · refine .inr ⟨fun heq => hwho ?_, hothers who hwho⟩
      exact Option.some.inj (heq.symm.trans howner)
  have hforeign : event.owner = none → next.calls = state.calls →
      event.owner = some who ∧ next.rankOf who < state.rankOf who ∨
        event.owner ≠ some who ∧ next.rankOf who = state.rankOf who := by
    intro howner hcalls
    refine .inr ⟨by simp [howner], ?_⟩
    rw [State.rankOf, State.rankOf, hcalls]
  cases event with
  | begins owner operation =>
      simp only [step] at h
      split at h
      · rename_i hnone
        cases h
        refine howned rfl rfl ?_
        rw [State.rankOf, hnone]
        exact Nat.lt_succ_self 13
      · cases h
  | releases =>
      cases h
      exact hforeign rfl rfl
  | recovers startup =>
      simp only [step] at h
      split at h
      · cases h
      · cases h
        exact hforeign rfl rfl
  | acquires owner | launches owner _ | launchFails owner _ _ | numbers owner | enrolls owner | writes owner
  | writeFails owner _ _ | retracts owner | receives owner | expires owner | takes owner | kills owner | drains owner =>
      simp only [step] at h
      split at h
      · cases h
      · rename_i call hcall
        obtain ⟨later, hcalls, hrank⟩ := callStep_rank h
        refine howned rfl hcalls ?_
        rw [State.rankOf, hcall]
        exact hrank
  | executes _ _ _ | misreads _ _ _ _ _ _ | stops _ | delivers _ | hangsUp _ | clears _ =>
      simp only [step] at h
      exact hforeign rfl (processStep_calls h)

/-- A call that has not returned can take a step: what it waits for has a limit. -/
theorem exists_step (broker : Broker) (hcall : state.calls who = some call) :
    (∃ result now, call.phase = .returned result now) ∨
      ∃ event, event.owner = some who ∧ (step broker state event).isSome = true := by
  cases hphase : call.phase with
  | acquiring =>
      cases hprocess : state.running with
      | some process => exact .inr ⟨.acquires who, rfl, by simp [step, hcall, callStep, hphase, hprocess]⟩
      | none => exact .inr ⟨.launchFails who .nothing .timeout, rfl, by simp [step, hcall, callStep, hphase, hprocess]⟩
  | numbering process => exact .inr ⟨.numbers who, rfl, by simp [step, hcall, callStep, hphase]⟩
  | enrolling process id => exact .inr ⟨.enrolls who, rfl, by simp [step, hcall, callStep, hphase]⟩
  | writing process id => exact .inr ⟨.writeFails who .nothing true, rfl, by simp [step, hcall, callStep, hphase]⟩
  | retracting process id error => exact .inr ⟨.retracts who, rfl, by simp [step, hcall, callStep, hphase]⟩
  | waiting process id => exact .inr ⟨.expires who, rfl, by simp [step, hcall, callStep, hphase]⟩
  | restarting =>
      cases hprocess : state.running with
      | some process => exact .inr ⟨.takes who, rfl, by simp [step, hcall, callStep, hphase, hprocess]⟩
      | none => exact .inr ⟨.takes who, rfl, by simp [step, hcall, callStep, hphase, hprocess]⟩
  | killing process => exact .inr ⟨.kills who, rfl, by simp [step, hcall, callStep, hphase]⟩
  | draining process => exact .inr ⟨.drains who, rfl, by simp [step, hcall, callStep, hphase]⟩
  | returned result now => exact .inl ⟨result, now, rfl⟩

/-- The steps of a call so far and those it can still make. -/
def Spent (who : Nat) (done : List Event) (state : State) : Prop :=
  (done.filter fun event => event.owner = some who).length + state.rankOf who ≤ 14

/-- No call hangs: in every state a call that has not returned can take a step, whatever the other calls and the
processes do or fail to do, and in no run does it take more than fourteen steps. -/
theorem calls_come_to_an_end (broker : Broker) (start : Vault) (events : List Event) (state : State)
    (hrun : run broker events (.initial start) = some state) (who : Nat) :
    (events.filter fun event => event.owner = some who).length ≤ 14 ∧
    ∀ call, state.calls who = some call → (∃ result now, call.phase = .returned result now) ∨
      ∃ event, event.owner = some who ∧ (step broker state event).isSome = true := by
  have hstep : ∀ {done : List Event} {before : State} {event : Event} {after : State},
      Spent who done before → True → step broker before event = some after → Spent who (done ++ [event]) after := by
    intro done before event after hspent _ hafter
    unfold Spent at hspent ⊢
    rw [List.filter_append, List.length_append]
    rcases step_rank hafter who with ⟨howner, hrank⟩ | ⟨howner, hrank⟩
    · rw [List.filter_singleton, decide_eq_true howner]
      simp only [cond_true, List.length_singleton]
      omega
    · rw [List.filter_singleton, decide_eq_false howner]
      simp only [cond_false, List.length_nil]
      omega
  have hspent : Spent who ([] ++ events) state :=
    EventMachine.run_induction hstep (show Spent who [] (.initial start) from Nat.le_refl 14) (fun _ _ => trivial) hrun
  exact ⟨(Nat.le_add_right _ _).trans hspent, fun call hcall => exists_step broker hcall⟩

/-- A call that is served at once. -/
theorem ping_comes_to_an_end :
    let events : List Event :=
      [.begins 0 .ping, .launches 0 undisturbed, .numbers 0, .enrolls 0, .writes 0, .executes 0 undisturbed true,
        .delivers 0, .receives 0]
    (run (cborBroker inMemoryBackend) events (.initial ∅)).isSome = true ∧
      (events.filter fun event => event.owner = some 0).length ≤ 14 := by
  intro events
  have hpossible : (run (cborBroker inMemoryBackend) events (.initial ∅)).isSome = true := by decide +kernel
  obtain ⟨state, hrun⟩ := Option.isSome_iff_exists.mp hpossible
  exact ⟨hpossible, (calls_come_to_an_end (cborBroker inMemoryBackend) ∅ events state hrun 0).1⟩

end Bridge

end WincredLibsecret
