import WincredLibsecret.EffectProgram

/-! Programs that may also end in an error of their own. An action is a program over the service
whose value is a result or an error, with the error of a failed call taken over as the error of the
action. Its weakest precondition has one postcondition for each of the two, so that the rule for
sequencing needs no case distinction. -/

namespace Effect

abbrev Action (Call : Type) (Reply : Call → Type) (ε δ : Type) := ExceptT δ (Program Call Reply ε)

namespace Action

variable {Call : Type} {Reply : Call → Type} {ε δ δ' σ α β ι : Type}

/-- One call, whose failure is the failure of the action. -/
def perform (lift : ε → δ) (request : Call) : Action Call Reply ε δ (Reply request) :=
  ExceptT.mk (.call request fun reply => .done (reply.mapError lift))

/-- A result that needs no call. -/
def ofExcept (result : Except δ α) : Action Call Reply ε δ α := ExceptT.mk (.done result)

/-- Runs an action and hands its error over as a value. -/
def attempt (action : Action Call Reply ε δ α) : Action Call Reply ε δ (Except δ α) :=
  ExceptT.mk (action.run >>= fun result => .done (.ok result))

/-- Rewrites the error of an action. -/
def mapError (f : δ → δ') (action : Action Call Reply ε δ α) : Action Call Reply ε δ' α :=
  ExceptT.mk (action.run >>= fun result => .done (result.mapError f))

/-- The postcondition of a result: `ok` of a value, `err` of an error. -/
def either (ok : α → σ → Prop) (err : δ → σ → Prop) : Except δ α → σ → Prop
  | .ok value, state => ok value state
  | .error error, state => err error state

@[simp] theorem either_ok (ok : α → σ → Prop) (err : δ → σ → Prop) (value : α) (state : σ) :
    either ok err (.ok value) state ↔ ok value state := Iff.rfl

@[simp] theorem either_error (ok : α → σ → Prop) (err : δ → σ → Prop) (error : δ) (state : σ) :
    either ok err (.error error) state ↔ err error state := Iff.rfl

theorem either_intro {ok : α → σ → Prop} {err : δ → σ → Prop} {result : Except δ α} {state : σ}
    (hok : ∀ value, result = .ok value → ok value state)
    (herr : ∀ error, result = .error error → err error state) : either ok err result state := by
  cases result with
  | ok value => exact hok value rfl
  | error error => exact herr error rfl

theorem either_mono {ok ok' : α → σ → Prop} {err err' : δ → σ → Prop} {result : Except δ α} {state : σ}
    (hok : ∀ value, ok value state → ok' value state) (herr : ∀ error, err error state → err' error state)
    (h : either ok err result state) : either ok' err' result state := by
  cases result with
  | ok value => exact hok value h
  | error error => exact herr error h

/-- Every call the action can make satisfies `P`. -/
def Calls (P : Call → Prop) (action : Action Call Reply ε δ α) : Prop := Program.Calls P action.run

section Calls

variable {P : Call → Prop}

theorem calls_pure (value : α) : Calls P (pure value : Action Call Reply ε δ α) := trivial

theorem calls_throw (error : δ) : Calls P (throw error : Action Call Reply ε δ α) := trivial

theorem ofExcept_ok_bind (value : α) (next : α → Action Call Reply ε δ β) :
    (ofExcept (.ok value) >>= next) = next value := rfl

theorem calls_ofExcept (result : Except δ α) : Calls P (ofExcept result : Action Call Reply ε δ α) :=
  trivial

theorem calls_perform {lift : ε → δ} {request : Call} (hrequest : P request) :
    Calls P (perform lift request : Action Call Reply ε δ _) :=
  ⟨hrequest, fun _ => trivial⟩

variable {action : Action Call Reply ε δ α}

theorem calls_bind {next : α → Action Call Reply ε δ β} (hfirst : Calls P action)
    (hnext : ∀ value, Calls P (next value)) : Calls P (action >>= next) := by
  refine Program.calls_bind hfirst fun result => ?_
  cases result with
  | ok value => exact hnext value
  | error error => trivial

theorem calls_mono {Q : Call → Prop} (h : ∀ request, P request → Q request) (hcalls : Calls P action) :
    Calls Q action :=
  Program.calls_mono h hcalls

theorem calls_forM {body : ι → Action Call Reply ε δ Unit} {items : List ι}
    (hbody : ∀ item ∈ items, Calls P (body item)) : Calls P (forM items body) := by
  induction items with
  | nil => exact calls_pure ()
  | cons item rest ih =>
      obtain ⟨hfirst, hrest⟩ := List.forall_mem_cons.mp hbody
      rw [List.forM_cons]
      exact calls_bind hfirst fun _ => ih hrest

theorem calls_attempt (h : Calls P action) : Calls P (attempt action) :=
  Program.calls_bind h fun _ => trivial

theorem calls_mapError {f : δ → δ'} (h : Calls P action) : Calls P (mapError f action) :=
  Program.calls_bind h fun _ => trivial

end Calls

section Semantics

variable (serve : (request : Call) → σ → Reply request × σ)

/-- Runs an action under the given fates. -/
def execute (action : Action Call Reply ε δ α) (fates : Fates ε) (state : σ) :
    Ending ε σ (Except δ α) :=
  Program.run serve action.run fates state

/-- The states a run of an action goes through. -/
def visited (action : Action Call Reply ε δ α) (fates : Fates ε) (state : σ) : List σ :=
  Program.states serve action.run fates state

/-- The result and the state an undisturbed run of an action ends with. -/
def answer (action : Action Call Reply ε δ α) (state : σ) : Except δ α × σ :=
  Program.value serve action.run state

/-- The weakest precondition of an action. -/
def wp (faults : ε → Prop) (action : Action Call Reply ε δ α) (ok : α → σ → Prop) (err : δ → σ → Prop)
    (crash : σ → Prop) (state : σ) : Prop :=
  Program.wp serve faults action.run (either ok err) crash state

variable {serve} {faults : ε → Prop} {ok : α → σ → Prop} {err : δ → σ → Prop} {crash : σ → Prop}
  {state : σ}

/-- Goes on after a result and stops at an error or a kill. -/
def andThen (ending : Ending ε σ (Except δ α))
    (next : α → Fates ε → σ → Ending ε σ (Except δ β)) : Ending ε σ (Except δ β) :=
  match ending with
  | ⟨.returned (.ok value), state, rest⟩ => next value rest state
  | ⟨.returned (.error error), state, rest⟩ => ⟨.returned (.error error), state, rest⟩
  | ⟨.killed, state, rest⟩ => ⟨.killed, state, rest⟩

@[simp] theorem andThen_ok (value : α) (state : σ) (rest : Fates ε)
    (next : α → Fates ε → σ → Ending ε σ (Except δ β)) :
    andThen ⟨.returned (.ok value), state, rest⟩ next = next value rest state := rfl

@[simp] theorem andThen_error (error : δ) (state : σ) (rest : Fates ε)
    (next : α → Fates ε → σ → Ending ε σ (Except δ β)) :
    andThen ⟨.returned (.error error), state, rest⟩ next = ⟨.returned (.error error), state, rest⟩ := rfl

@[simp] theorem andThen_killed (state : σ) (rest : Fates ε) (next : α → Fates ε → σ → Ending ε σ (Except δ β)) :
    andThen ⟨.killed, state, rest⟩ next = ⟨.killed, state, rest⟩ := rfl

/-- What does not end with a result is not gone on from. -/
theorem andThen_of_ne_ok {ending : Ending ε σ (Except δ α)} (h : ∀ value, ending.outcome ≠ .returned (.ok value))
    (next : α → Fates ε → σ → Ending ε σ (Except δ β)) {error : δ}
    (herror : (andThen ending next).outcome = .returned (.error error)) :
    ending.outcome = .returned (.error error) ∧ (andThen ending next).state = ending.state := by
  rcases ending with ⟨outcome, state, rest⟩
  cases outcome with
  | killed => cases herror
  | returned result =>
      cases result with
      | ok value => exact absurd rfl (h value)
      | error found =>
          cases herror
          exact ⟨rfl, rfl⟩

theorem execute_bind (action : Action Call Reply ε δ α) (next : α → Action Call Reply ε δ β) (fates : Fates ε)
    (state : σ) :
    execute serve (action >>= next) fates state =
      andThen (execute serve action fates state) fun value rest state => execute serve (next value) rest state := by
  refine (Program.run_bind action.run _ fates state).trans ?_
  rw [execute]
  rcases Program.run serve action.run fates state with ⟨_ | _, state, rest⟩
  · rename_i result
    cases result <;> rfl
  · rfl

theorem execute_perform (lift : ε → δ) (request : Call) (fates : Fates ε) (state : σ) :
    execute serve (perform lift request : Action Call Reply ε δ _) fates state =
      match fates 0 with
      | .serve => ⟨.returned (.ok (serve request state).1), (serve request state).2, fates.rest⟩
      | .fail error => ⟨.returned (.error (lift error)), state, fates.rest⟩
      | .kill => ⟨.killed, state, fates.rest⟩ := by
  rw [execute, perform, ExceptT.run_mk, Program.run]
  cases fates 0 <;> rfl

theorem execute_ofExcept (result : Except δ α) (fates : Fates ε) (state : σ) :
    execute serve (ofExcept result : Action Call Reply ε δ α) fates state = ⟨.returned result, state, fates⟩ := rfl

theorem execute_attempt (action : Action Call Reply ε δ α) (fates : Fates ε) (state : σ) :
    execute serve (attempt action) fates state = (execute serve action fates state).map Except.ok := by
  refine (Program.run_bind action.run _ fates state).trans ?_
  rw [execute]
  rcases Program.run serve action.run fates state with ⟨_ | _, state, rest⟩ <;> rfl

theorem execute_mapError (f : δ → δ') (action : Action Call Reply ε δ α) (fates : Fates ε) (state : σ) :
    execute serve (mapError f action) fates state =
      (execute serve action fates state).map fun result => result.mapError f := by
  refine (Program.run_bind action.run _ fates state).trans ?_
  rw [execute]
  rcases Program.run serve action.run fates state with ⟨_ | _, state, rest⟩ <;> rfl

variable {action : Action Call Reply ε δ α}

theorem wp_crash (hwp : wp serve faults action ok err crash state) : crash state :=
  Program.wp_crash hwp

theorem wp_mono {ok' : α → σ → Prop} {err' : δ → σ → Prop} {crash' : σ → Prop}
    (hok : ∀ value state, ok value state → ok' value state) (herr : ∀ error state, err error state → err' error state)
    (hcrash : ∀ state, crash state → crash' state) (hwp : wp serve faults action ok err crash state) :
    wp serve faults action ok' err' crash' state :=
  Program.wp_mono (fun _ state => either_mono (fun value => hok value state) fun error => herr error state)
    hcrash hwp

theorem wp_trivial (action : Action Call Reply ε δ α) (state : σ) :
    wp serve faults action (fun _ _ => True) (fun _ _ => True) (fun _ => True) state := by
  refine Program.wp_mono (fun result _ _ => ?_) (fun _ h => h) (Program.wp_trivial action.run state)
  cases result <;> trivial

/-- What holds of every value in every state holds after every action. -/
theorem wp_of_forall (hok : ∀ value state, ok value state) :
    wp serve faults action ok (fun _ _ => True) (fun _ => True) state :=
  wp_mono (fun value state _ => hok value state) (fun _ _ h => h) (fun _ h => h) (wp_trivial action state)

@[simp] theorem wp_pure (value : α) :
    wp serve faults (pure value : Action Call Reply ε δ α) ok err crash state ↔
      crash state ∧ ok value state := Iff.rfl

@[simp] theorem wp_throw (error : δ) :
    wp serve faults (throw error : Action Call Reply ε δ α) ok err crash state ↔
      crash state ∧ err error state := Iff.rfl

@[simp] theorem wp_ofExcept (result : Except δ α) :
    wp serve faults (ofExcept result : Action Call Reply ε δ α) ok err crash state ↔
      crash state ∧ either ok err result state := Iff.rfl

@[simp] theorem wp_bind {next : α → Action Call Reply ε δ β} {ok : β → σ → Prop} :
    wp serve faults (action >>= next) ok err crash state ↔
      wp serve faults action (fun value state => wp serve faults (next value) ok err crash state) err
        crash state := by
  refine Iff.trans Program.wp_bind ⟨Program.wp_mono ?_ fun _ h => h, ?_⟩
  · intro result state hwp
    cases result with
    | ok value => exact hwp
    | error error => exact hwp.2
  · intro hwp
    -- the state in which an error is passed on meets the crash condition of the first part
    refine Program.wp_mono ?_ (fun _ h => h) (Program.wp_and_crash hwp)
    intro result state h
    cases result with
    | ok value => exact h.2
    | error error => exact h

@[simp] theorem wp_perform {lift : ε → δ} {request : Call} {ok : Reply request → σ → Prop} :
    wp serve faults (perform lift request : Action Call Reply ε δ _) ok err crash state ↔
      crash state ∧ (∀ error, faults error → err (lift error) state) ∧
        crash (serve request state).2 ∧ ok (serve request state).1 (serve request state).2 := by
  constructor
  · rintro ⟨hcrash, hfail, hserve⟩
    exact ⟨hcrash, fun error herror => (hfail error herror).2, hserve.1, hserve.2⟩
  · rintro ⟨hcrash, hfail, hserve⟩
    exact ⟨hcrash, fun error herror => ⟨hcrash, hfail error herror⟩, hserve⟩

@[simp] theorem wp_attempt {ok : Except δ α → σ → Prop} :
    wp serve faults (attempt action) ok err crash state ↔
      wp serve faults action (fun value => ok (.ok value)) (fun error => ok (.error error)) crash state := by
  refine Iff.trans Program.wp_bind ⟨Program.wp_mono ?_ fun _ h => h, ?_⟩
  · intro result state hwp
    cases result <;> exact hwp.2
  · intro hwp
    refine Program.wp_mono ?_ (fun _ h => h) (Program.wp_and_crash hwp)
    intro result state h
    cases result <;> exact h

@[simp] theorem wp_mapError {f : δ → δ'} {err : δ' → σ → Prop} :
    wp serve faults (mapError f action) ok err crash state ↔
      wp serve faults action ok (fun error => err (f error)) crash state := by
  refine Iff.trans Program.wp_bind ⟨Program.wp_mono ?_ fun _ h => h, ?_⟩
  · intro result state hwp
    cases result <;> exact hwp.2
  · intro hwp
    refine Program.wp_mono ?_ (fun _ h => h) (Program.wp_and_crash hwp)
    intro result state h
    cases result <;> exact h

theorem wp_of_calls {P : Call → Prop} {inv : σ → Prop}
    (hserve : ∀ request, P request → ∀ state, inv state → inv (serve request state).2) (hcalls : Calls P action)
    (hinv : inv state) : wp serve faults action (fun _ => inv) (fun _ => inv) inv state := by
  refine Program.wp_mono (fun result _ h => ?_) (fun _ h => h) (Program.wp_of_calls hserve hcalls hinv)
  cases result <;> exact h

/-- The loop rule: the invariant of the items still to come is kept by each round. -/
theorem wp_forM (inv : List ι → σ → Prop) {body : ι → Action Call Reply ε δ Unit} {ok : Unit → σ → Prop}
    {items : List ι} (hround : ∀ item ∈ items, ∀ rest state, inv (item :: rest) state →
      wp serve faults (body item) (fun _ => inv rest) err crash state)
    (hend : ∀ state, inv [] state → crash state ∧ ok () state) (hinv : inv items state) :
    wp serve faults (forM items body) ok err crash state := by
  induction items generalizing state with
  | nil => exact hend _ hinv
  | cons item rest ih =>
      obtain ⟨hfirst, hrest⟩ := List.forall_mem_cons.mp hround
      rw [List.forM_cons, wp_bind]
      exact wp_mono (fun _ _ => ih hrest) (fun _ _ h => h) (fun _ h => h) (hfirst rest state hinv)

/-- The run rule for actions. -/
theorem execute_of_wp (hwp : wp serve faults action ok err crash state) {fates : Fates ε} (hfates : fates.Within faults)
    {result : Except δ α} (hresult : (execute serve action fates state).outcome = .returned result) :
    either ok err result (execute serve action fates state).state :=
  Program.run_of_wp hwp hfates result hresult

theorem visited_of_wp (hwp : wp serve faults action ok err crash state) {fates : Fates ε}
    (hfates : fates.Within faults) : ∀ seen ∈ visited serve action fates state, crash seen :=
  Program.states_of_wp hwp hfates

theorem execute_state_of_wp (hwp : wp serve faults action ok err crash state) {fates : Fates ε}
    (hfates : fates.Within faults) : crash (execute serve action fates state).state :=
  visited_of_wp hwp hfates _ (Program.run_state_mem_states _ _ _)

/-- What every call keeps holds where a run ends. -/
theorem execute_state_of_serve {inv : σ → Prop} (hserve : ∀ request state, inv state → inv (serve request state).2)
    (action : Action Call Reply ε δ α) (fates : Fates ε) (hinv : inv state) :
    inv (execute serve action fates state).state :=
  execute_state_of_wp (wp_of_calls (fun request _ => hserve request) (Program.calls_true action.run) hinv)
    (within_any fates)

theorem execute_undisturbed (action : Action Call Reply ε δ α) (state : σ) :
    execute serve action undisturbed state =
      ⟨.returned (answer serve action state).1, (answer serve action state).2, undisturbed⟩ :=
  Program.run_undisturbed _ _

/-- The answer of an undisturbed run. -/
theorem answer_of_wp (hwp : wp serve (fun _ => False) action ok err crash state) :
    either ok err (answer serve action state).1 (answer serve action state).2 :=
  Program.value_of_wp hwp

/-- An undisturbed run answers a result if its weakest precondition says so. -/
theorem answer_eq_of_wp {result : Except δ α}
    (hwp : wp serve (fun _ => False) action (fun value _ => result = .ok value) (fun error _ => result = .error error)
      (fun _ => True) state) : (answer serve action state).1 = result := by
  have heither := answer_of_wp hwp
  cases hanswer : (answer serve action state).1 with
  | ok value =>
      rw [hanswer] at heither
      exact heither.symm
  | error error =>
      rw [hanswer] at heither
      exact heither.symm

/-- An undisturbed run ends as its weakest precondition says. -/
theorem execute_undisturbed_of_wp {result : α} {final : σ}
    (hwp : wp serve (fun _ => False) action (fun value rest => value = result ∧ rest = final) (fun _ _ => False)
      (fun _ => True) state) :
    execute serve action undisturbed state = ⟨.returned (.ok result), final, undisturbed⟩ := by
  have heither := answer_of_wp hwp
  rw [execute_undisturbed]
  rcases hanswer : answer serve action state with ⟨value | value, rest⟩
  · rw [hanswer] at heither
    exact heither.elim
  · rw [hanswer] at heither
    obtain ⟨rfl, rfl⟩ := heither
    rfl

end Semantics

end Action

end Effect
