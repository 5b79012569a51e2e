import Mathlib

/-! Programs over a fallible service, and a crash logic for them. A program is a tree of calls: it
ends with a value, or it makes a call and continues with the reply or with an error. Every call of a
run has a fate. It is served, it fails and leaves the state of the service as it was, or the process
is killed before it is made. The weakest precondition of a program carries, besides the two
postconditions, a crash condition that must hold in every state the run goes through, since any of
them is what a killed process leaves behind. Nothing here depends on a particular service. -/

namespace Effect

/-- What happens to one call of a run. -/
inductive Fate (ε : Type) where
  | serve
  | fail (error : ε)
  | kill

/-- The fates of the calls of a run, in the order in which the calls are made. -/
abbrev Fates (ε : Type) := Nat → Fate ε

/-- The fates that remain after the first call. -/
def Fates.rest {ε : Type} (fates : Fates ε) : Fates ε := fun n => fates (n + 1)

@[simp] theorem Fates.rest_apply {ε : Type} (fates : Fates ε) (n : Nat) :
    fates.rest n = fates (n + 1) := rfl

/-- Fates whose failures are all among the given faults. -/
def Fates.Within {ε : Type} (fates : Fates ε) (faults : ε → Prop) : Prop :=
  ∀ n error, fates n = .fail error → faults error

theorem within_any {ε : Type} (fates : Fates ε) : fates.Within fun _ => True := fun _ _ _ => trivial

/-- Every call is served. -/
def undisturbed {ε : Type} : Fates ε := fun _ => .serve

@[simp] theorem undisturbed_apply {ε : Type} (n : Nat) : (undisturbed : Fates ε) n = .serve := rfl

@[simp] theorem undisturbed_rest {ε : Type} : (undisturbed : Fates ε).rest = undisturbed := rfl

/-- How a run ends: with a value, or by the death of the process. -/
inductive Outcome (α : Type) where
  | returned (value : α)
  | killed
  deriving DecidableEq

/-- The end of a run: its outcome, the state it leaves and the fates no call has used. -/
structure Ending (ε σ α : Type) where
  outcome : Outcome α
  state : σ
  rest : Fates ε

/-- Rewrites the value a run ends with. -/
def Ending.map {ε σ α β : Type} (f : α → β) : Ending ε σ α → Ending ε σ β
  | ⟨.returned value, state, rest⟩ => ⟨.returned (f value), state, rest⟩
  | ⟨.killed, state, rest⟩ => ⟨.killed, state, rest⟩

inductive Program (Call : Type) (Reply : Call → Type) (ε α : Type) where
  | done (value : α)
  | call (request : Call) (next : Except ε (Reply request) → Program Call Reply ε α)

variable {Call : Type} {Reply : Call → Type} {ε δ σ α β : Type}

namespace Program

def bind : Program Call Reply ε α → (α → Program Call Reply ε β) → Program Call Reply ε β
  | .done value, next => next value
  | .call request rest, next => .call request fun reply => (rest reply).bind next

instance : Monad (Program Call Reply ε) where
  pure := .done
  bind := Program.bind

@[simp] theorem pure_eq_done (value : α) : (pure value : Program Call Reply ε α) = .done value := rfl

@[simp] theorem done_bind (value : α) (next : α → Program Call Reply ε β) :
    (Program.done value >>= next) = next value := rfl

@[simp] theorem call_bind (request : Call) (rest : Except ε (Reply request) → Program Call Reply ε α)
    (next : α → Program Call Reply ε β) :
    (Program.call request rest >>= next) = .call request fun reply => rest reply >>= next := rfl

theorem bind_done (program : Program Call Reply ε α) : (program >>= Program.done) = program := by
  induction program with
  | done value => rfl
  | call request next ih =>
      rw [call_bind]
      exact congrArg _ (funext ih)

theorem bind_bind {γ : Type} (program : Program Call Reply ε α) (first : α → Program Call Reply ε β)
    (second : β → Program Call Reply ε γ) :
    ((program >>= first) >>= second) = program >>= fun value => first value >>= second := by
  induction program with
  | done value => rfl
  | call request next ih =>
      simp only [call_bind]
      exact congrArg _ (funext ih)

instance : LawfulMonad (Program Call Reply ε) :=
  LawfulMonad.mk' _ bind_done (fun _ _ => rfl) bind_bind

/-- Every call the program can make, whatever it is answered, satisfies `P`. -/
def Calls (P : Call → Prop) : Program Call Reply ε α → Prop
  | .done _ => True
  | .call request next => P request ∧ ∀ reply, (next reply).Calls P

theorem calls_mono {P Q : Call → Prop} (h : ∀ request, P request → Q request) {program : Program Call Reply ε α}
    (hcalls : program.Calls P) : program.Calls Q := by
  induction program with
  | done value => trivial
  | call request next ih => exact ⟨h request hcalls.1, fun reply => ih reply (hcalls.2 reply)⟩

theorem calls_true (program : Program Call Reply ε α) : program.Calls fun _ => True := by
  induction program with
  | done value => trivial
  | call request next ih => exact ⟨trivial, ih⟩

theorem calls_bind {P : Call → Prop} {program : Program Call Reply ε α}
    {next : α → Program Call Reply ε β} (hfirst : program.Calls P) (hnext : ∀ value, (next value).Calls P) :
    (program >>= next).Calls P := by
  induction program with
  | done value => exact hnext value
  | call request rest ih => exact ⟨hfirst.1, fun reply => ih reply (hfirst.2 reply)⟩

section Semantics

variable (serve : (request : Call) → σ → Reply request × σ)

/-- Runs a program against a state of the service under the given fates. -/
def run : Program Call Reply ε α → Fates ε → σ → Ending ε σ α
  | .done value, fates, state => ⟨.returned value, state, fates⟩
  | .call request next, fates, state =>
      match fates 0 with
      | .serve => (next (.ok (serve request state).1)).run fates.rest (serve request state).2
      | .fail error => (next (.error error)).run fates.rest state
      | .kill => ⟨.killed, state, fates.rest⟩

/-- The states a run goes through, the first and the last included. -/
def states : Program Call Reply ε α → Fates ε → σ → List σ
  | .done _, _, state => [state]
  | .call request next, fates, state =>
      state :: match fates 0 with
        | .serve => (next (.ok (serve request state).1)).states fates.rest (serve request state).2
        | .fail error => (next (.error error)).states fates.rest state
        | .kill => []

/-- The value and the state an undisturbed run ends with. -/
def value : Program Call Reply ε α → σ → α × σ
  | .done value, state => (value, state)
  | .call request next, state => (next (.ok (serve request state).1)).value (serve request state).2

/-- The weakest precondition: `post` holds of the value and the state at the end of every run whose
calls fail only with the given faults, and `crash` in every state on the way. -/
def wp (faults : ε → Prop) : Program Call Reply ε α → (α → σ → Prop) → (σ → Prop) → σ → Prop
  | .done value, post, crash, state => crash state ∧ post value state
  | .call request next, post, crash, state =>
      crash state ∧ (∀ error, faults error → (next (.error error)).wp faults post crash state) ∧
        (next (.ok (serve request state).1)).wp faults post crash (serve request state).2

variable {serve} {faults : ε → Prop}

theorem run_undisturbed (program : Program Call Reply ε α) (state : σ) :
    program.run serve undisturbed state =
      ⟨.returned (program.value serve state).1, (program.value serve state).2, undisturbed⟩ := by
  induction program generalizing state with
  | done value => rfl
  | call request next ih =>
      rw [run, value]
      exact ih _ _

theorem run_bind (program : Program Call Reply ε α) (next : α → Program Call Reply ε β) (fates : Fates ε)
    (state : σ) :
    (program >>= next).run serve fates state =
      match program.run serve fates state with
      | ⟨.returned value, state, rest⟩ => (next value).run serve rest state
      | ⟨.killed, state, rest⟩ => ⟨.killed, state, rest⟩ := by
  induction program generalizing fates state with
  | done value => rfl
  | call request rest ih =>
      rw [call_bind, run, run]
      cases fates 0 with
      | serve => exact ih _ _ _
      | fail error => exact ih _ _ _
      | kill => rfl

theorem value_bind (program : Program Call Reply ε α) (next : α → Program Call Reply ε β) (state : σ) :
    (program >>= next).value serve state =
      (next (program.value serve state).1).value serve (program.value serve state).2 := by
  induction program generalizing state with
  | done value => rfl
  | call request rest ih => exact ih _ _

variable {program : Program Call Reply ε α} {post : α → σ → Prop} {crash : σ → Prop} {state : σ}

theorem wp_crash (hwp : program.wp serve faults post crash state) : crash state := by
  cases program with
  | done value => exact hwp.1
  | call request next => exact hwp.1

theorem wp_mono {post' : α → σ → Prop} {crash' : σ → Prop} (hpost : ∀ value state, post value state → post' value state)
    (hcrash : ∀ state, crash state → crash' state) (hwp : program.wp serve faults post crash state) :
    program.wp serve faults post' crash' state := by
  induction program generalizing state with
  | done value => exact ⟨hcrash _ hwp.1, hpost _ _ hwp.2⟩
  | call request next ih =>
      exact ⟨hcrash _ hwp.1, fun error herror => ih _ (hwp.2.1 error herror), ih _ hwp.2.2⟩

theorem wp_and_crash (hwp : program.wp serve faults post crash state) :
    program.wp serve faults (fun value state => crash state ∧ post value state) crash state := by
  induction program generalizing state with
  | done value => exact ⟨hwp.1, hwp⟩
  | call request next ih =>
      exact ⟨hwp.1, fun error herror => ih _ (hwp.2.1 error herror), ih _ hwp.2.2⟩

theorem wp_bind {next : α → Program Call Reply ε β} {post : β → σ → Prop} :
    (program >>= next).wp serve faults post crash state ↔
      program.wp serve faults (fun value state => (next value).wp serve faults post crash state)
        crash state := by
  induction program generalizing state with
  | done value => exact ⟨fun hwp => ⟨wp_crash hwp, hwp⟩, fun hwp => hwp.2⟩
  | call request rest ih => simp only [call_bind, wp, ih]

theorem wp_trivial (program : Program Call Reply ε α) (state : σ) :
    program.wp serve faults (fun _ _ => True) (fun _ => True) state := by
  induction program generalizing state with
  | done value => exact ⟨trivial, trivial⟩
  | call request next ih => exact ⟨trivial, fun _ _ => ih _ _, ih _ _⟩

/-- What every call of a program keeps, the program keeps wherever it stops. -/
theorem wp_of_calls {P : Call → Prop} {inv : σ → Prop}
    (hserve : ∀ request, P request → ∀ state, inv state → inv (serve request state).2) (hcalls : program.Calls P)
    (hinv : inv state) : program.wp serve faults (fun _ => inv) inv state := by
  induction program generalizing state with
  | done value => exact ⟨hinv, hinv⟩
  | call request next ih =>
      exact ⟨hinv, fun error _ => ih _ (hcalls.2 _) hinv, ih _ (hcalls.2 _) (hserve request hcalls.1 state hinv)⟩

/-- The run rule: a weakest precondition speaks about every run within its faults. -/
theorem run_of_wp (hwp : program.wp serve faults post crash state) {fates : Fates ε} (hfates : fates.Within faults) :
    ∀ value, (program.run serve fates state).outcome = .returned value →
      post value (program.run serve fates state).state := by
  induction program generalizing state fates with
  | done value =>
      intro value' hvalue
      cases hvalue
      exact hwp.2
  | call request next ih =>
      have hrest : fates.rest.Within faults := fun n => hfates (n + 1)
      rw [run]
      split
      · exact ih _ hwp.2.2 hrest
      · rename_i error herror
        exact ih _ (hwp.2.1 error (hfates 0 error herror)) hrest
      · intro value hvalue
        cases hvalue

theorem states_of_wp (hwp : program.wp serve faults post crash state) {fates : Fates ε} (hfates : fates.Within faults) :
    ∀ visited ∈ program.states serve fates state, crash visited := by
  induction program generalizing state fates with
  | done value =>
      intro visited hvisited
      rw [states, List.mem_singleton] at hvisited
      exact hvisited ▸ hwp.1
  | call request next ih =>
      have hrest : fates.rest.Within faults := fun n => hfates (n + 1)
      intro visited hvisited
      rw [states] at hvisited
      rcases List.mem_cons.mp hvisited with rfl | hvisited
      · exact hwp.1
      · split at hvisited
        · exact ih _ hwp.2.2 hrest _ hvisited
        · rename_i error herror
          exact ih _ (hwp.2.1 error (hfates 0 error herror)) hrest _ hvisited
        · cases hvisited

/-- A weakest precondition without faults speaks about the undisturbed run. -/
theorem value_of_wp (hwp : program.wp serve (fun _ => False) post crash state) :
    post (program.value serve state).1 (program.value serve state).2 := by
  induction program generalizing state with
  | done value => exact hwp.2
  | call request next ih => exact ih _ hwp.2.2

/-- The state a run ends in is one of those it goes through. -/
theorem run_state_mem_states (program : Program Call Reply ε α) (fates : Fates ε) (state : σ) :
    (program.run serve fates state).state ∈ program.states serve fates state := by
  induction program generalizing state fates with
  | done value => exact List.mem_singleton_self _
  | call request next ih =>
      rw [run, states]
      split
      · exact List.mem_cons_of_mem _ (ih _ _ _)
      · exact List.mem_cons_of_mem _ (ih _ _ _)
      · exact List.mem_cons_self

end Semantics

end Program

end Effect
