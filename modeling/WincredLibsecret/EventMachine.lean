import Mathlib.Data.List.Basic

/-! Machines that take events. A step is a partial function, defined where the event is possible; a run is
possible if all of its steps are. Nothing here depends on a particular machine. -/

namespace EventMachine

variable {σ ε : Type} {step : σ → ε → Option σ}

/-- The state after the events, if they are possible one after the other. -/
def run (step : σ → ε → Option σ) : List ε → σ → Option σ
  | [], state => some state
  | event :: rest, state => (step state event).bind (run step rest)

theorem run_cons {event : ε} {rest : List ε} {state final : σ} :
    run step (event :: rest) state = some final ↔
      ∃ next, step state event = some next ∧ run step rest next = some final :=
  Option.bind_eq_some_iff

/-- What holds at the start and is kept by every allowed step holds at the end. The events so far are known. -/
theorem run_induction {Inv : List ε → σ → Prop} {allowed : ε → Prop}
    (hstep : ∀ {done state event next}, Inv done state → allowed event → step state event = some next →
      Inv (done ++ [event]) next)
    {done events : List ε} {state final : σ} (hinv : Inv done state) (hevents : ∀ event ∈ events, allowed event)
    (hrun : run step events state = some final) : Inv (done ++ events) final := by
  induction events generalizing done state with
  | nil =>
      cases hrun
      rwa [List.append_nil]
  | cons event rest ih =>
      obtain ⟨hevent, hrest⟩ := List.forall_mem_cons.mp hevents
      obtain ⟨next, hnext, hfinal⟩ := run_cons.mp hrun
      have hlater := ih (hstep hinv hevent hnext) hrest hfinal
      rwa [List.append_assoc] at hlater

end EventMachine
