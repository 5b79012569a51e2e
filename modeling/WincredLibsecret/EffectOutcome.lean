import WincredLibsecret.EffectAction

/-! Programs that run alone over a service whose answers depend on choices made from outside. The relation
between the start and the end of a run leaves the choices open, so that a statement about it is a statement
about all of them. Nothing here depends on a particular service. -/

namespace Effect

variable {Call ω σ ε δ δ' α β ι : Type} {Reply : Call → Type}

/-- From one state the program ends with a value and in another state, if its calls are answered under some
of the allowed choices. -/
inductive Ends (serve : (request : Call) → ω → σ → Except ε (Reply request) × σ) (allowed : ω → Prop) :
    Program Call Reply ε α → σ → α → σ → Prop
  | done (value : α) (state : σ) : Ends serve allowed (.done value) state value state
  | call {request : Call} {next : Except ε (Reply request) → Program Call Reply ε α} {state final : σ} {value : α}
      (choice : ω) (hchoice : allowed choice)
      (hnext : Ends serve allowed (next (serve request choice state).1) (serve request choice state).2 value final) :
      Ends serve allowed (.call request next) state value final

variable {serve : (request : Call) → ω → σ → Except ε (Reply request) × σ} {allowed : ω → Prop} {state final : σ}

variable {value : α} {program : Program Call Reply ε α}

theorem ends_done {result : α} :
    Ends serve allowed (.done value : Program Call Reply ε α) state result final ↔ value = result ∧ state = final := by
  constructor
  · intro h
    cases h
    exact ⟨rfl, rfl⟩
  · rintro ⟨rfl, rfl⟩
    exact .done value state

theorem ends_call {request : Call} {next : Except ε (Reply request) → Program Call Reply ε α} :
    Ends serve allowed (.call request next) state value final ↔ ∃ choice, allowed choice ∧
      Ends serve allowed (next (serve request choice state).1) (serve request choice state).2 value final := by
  constructor
  · intro h
    cases h with
    | call choice hchoice hnext => exact ⟨choice, hchoice, hnext⟩
  · rintro ⟨choice, hchoice, hnext⟩
    exact .call choice hchoice hnext

theorem ends_bind {next : α → Program Call Reply ε β} {value : β} :
    Ends serve allowed (program >>= next) state value final ↔
      ∃ first middle, Ends serve allowed program state first middle ∧
        Ends serve allowed (next first) middle value final := by
  induction program generalizing state with
  | done first =>
      rw [Program.done_bind]
      constructor
      · exact fun h => ⟨first, state, .done first state, h⟩
      · rintro ⟨_, _, hfirst, h⟩
        obtain ⟨rfl, rfl⟩ := ends_done.mp hfirst
        exact h
  | call request rest ih =>
      rw [Program.call_bind, ends_call]
      constructor
      · rintro ⟨choice, hchoice, h⟩
        obtain ⟨first, middle, hfirst, hnext⟩ := (ih _).mp h
        exact ⟨first, middle, .call choice hchoice hfirst, hnext⟩
      · rintro ⟨first, middle, hfirst, hnext⟩
        obtain ⟨choice, hchoice, hrest⟩ := ends_call.mp hfirst
        exact ⟨choice, hchoice, (ih _).mpr ⟨first, middle, hrest, hnext⟩⟩

/-- The run in which every call is answered under the same choice. -/
def runUnder (serve : (request : Call) → ω → σ → Except ε (Reply request) × σ) (choice : ω) :
    Program Call Reply ε α → σ → α × σ
  | .done value, state => (value, state)
  | .call request next, state =>
      runUnder serve choice (next (serve request choice state).1) (serve request choice state).2

theorem ends_runUnder (choice : ω) (hchoice : allowed choice) (program : Program Call Reply ε α) (state : σ) :
    Ends serve allowed program state (runUnder serve choice program state).1
      (runUnder serve choice program state).2 := by
  induction program generalizing state with
  | done value => exact .done value state
  | call request next ih => exact .call choice hchoice (ih _ _)

theorem Ends.mono {wider : ω → Prop} (hwider : ∀ choice, allowed choice → wider choice)
    (h : Ends serve allowed program state value final) : Ends serve wider program state value final := by
  induction h with
  | done value state => exact .done value state
  | call choice hchoice _ ih => exact .call choice (hwider choice hchoice) ih

/-- Where only one choice is allowed there is one end. -/
theorem Ends.unique {choice : ω} (honly : ∀ other, allowed other → other = choice) {value' : α} {final' : σ}
    (h : Ends serve allowed program state value final) (h' : Ends serve allowed program state value' final') :
    value = value' ∧ final = final' := by
  induction h with
  | done => exact ends_done.mp h'
  | call first hfirst _ ih =>
      obtain ⟨second, hsecond, hnext⟩ := ends_call.mp h'
      rw [honly second hsecond, ← honly first hfirst] at hnext
      exact ih hnext

/-- What all calls keep holds at the end. -/
theorem Ends.of_calls (inv : σ → Prop) {P : Call → Prop}
    (hserve : ∀ request, P request → ∀ choice state, inv state → inv (serve request choice state).2)
    (h : Ends serve allowed program state value final) (hcalls : program.Calls P) (hinv : inv state) : inv final := by
  induction h with
  | done => exact hinv
  | call choice _ _ ih => exact ih (hcalls.2 _) (hserve _ hcalls.1 choice _ hinv)

/-- The service with a record of the calls and of whether they succeeded, the last one first. -/
def logged (serve : (request : Call) → ω → σ → Except ε (Reply request) × σ) (request : Call) (choice : ω)
    (state : σ × List (Call × Bool)) : Except ε (Reply request) × (σ × List (Call × Bool)) :=
  let answer := serve request choice state.1
  (answer.1, answer.2, (request, answer.1.isOk) :: state.2)

namespace Action

variable {action : Action Call Reply ε δ α}

variable {result : Except δ α} {next : α → Action Call Reply ε δ β}

@[simp] theorem ends_ofExcept {value : Except δ α} :
    Ends serve allowed (ofExcept result : Action Call Reply ε δ α).run state value final ↔
      result = value ∧ state = final :=
  ends_done

@[simp] theorem ends_pure {value : α} :
    Ends serve allowed (pure value : Action Call Reply ε δ α).run state result final ↔
      .ok value = result ∧ state = final :=
  ends_done

@[simp] theorem ends_throw {error : δ} :
    Ends serve allowed (throw error : Action Call Reply ε δ α).run state result final ↔
      .error error = result ∧ state = final :=
  ends_done

theorem ends_perform {lift : ε → δ} {request : Call} {result : Except δ (Reply request)} :
    Ends serve allowed (perform lift request : Action Call Reply ε δ _).run state result final ↔
      ∃ choice, allowed choice ∧ (serve request choice state).1.mapError lift = result ∧
        (serve request choice state).2 = final := by
  rw [perform, ExceptT.run_mk, ends_call]
  simp only [ends_done]

theorem ends_bind_ok {value : β} :
    Ends serve allowed (action >>= next).run state (.ok value) final ↔
      ∃ first middle, Ends serve allowed action.run state (.ok first) middle ∧
        Ends serve allowed (next first).run middle (.ok value) final := by
  refine ends_bind.trans ⟨?_, ?_⟩
  · rintro ⟨result, middle, hfirst, hnext⟩
    cases result with
    | error error => cases (ends_done.mp hnext).1
    | ok first => exact ⟨first, middle, hfirst, hnext⟩
  · rintro ⟨first, middle, hfirst, hnext⟩
    exact ⟨.ok first, middle, hfirst, hnext⟩

/-- A run that goes on after a result. -/
theorem ends_bind_of_ok {result : Except δ β} {first : α} {middle : σ}
    (hfirst : Ends serve allowed action.run state (.ok first) middle)
    (hnext : Ends serve allowed (next first).run middle result final) :
    Ends serve allowed (action >>= next).run state result final :=
  ends_bind.mpr ⟨.ok first, middle, hfirst, hnext⟩

/-- A run that stops at an error. -/
theorem ends_bind_of_error {error : δ} (h : Ends serve allowed action.run state (.error error) final) :
    Ends serve allowed (action >>= next).run state (.error error) final :=
  ends_bind.mpr ⟨.error error, final, h, .done _ _⟩

@[simp] theorem ends_mapError_ok {f : δ → δ'} {value : α} :
    Ends serve allowed (mapError f action).run state (.ok value) final ↔
      Ends serve allowed action.run state (.ok value) final := by
  refine ends_bind.trans ⟨?_, ?_⟩
  · rintro ⟨result, middle, hfirst, hnext⟩
    obtain ⟨hresult, rfl⟩ := ends_done.mp hnext
    cases result with
    | error error => cases hresult
    | ok first =>
        cases hresult
        exact hfirst
  · exact fun h => ⟨.ok value, final, h, .done _ _⟩

theorem ends_attempt {result : Except δ (Except δ α)} :
    Ends serve allowed (attempt action).run state result final ↔
      ∃ outcome, .ok outcome = result ∧ Ends serve allowed action.run state outcome final := by
  refine ends_bind.trans ⟨?_, ?_⟩
  · rintro ⟨outcome, middle, hfirst, hnext⟩
    obtain ⟨hresult, rfl⟩ := ends_done.mp hnext
    exact ⟨outcome, hresult, hfirst⟩
  · rintro ⟨outcome, rfl, h⟩
    exact ⟨outcome, final, h, .done _ _⟩

/-- However the calls are answered, the end is as described: by one condition for a result, by the other for
an error. -/
def Ensures (serve : (request : Call) → ω → σ → Except ε (Reply request) × σ) (allowed : ω → Prop)
    (action : Action Call Reply ε δ α) (ok : α → σ → Prop) (err : δ → σ → Prop) (state : σ) : Prop :=
  ∀ result final, Ends serve allowed action.run state result final → either ok err result final

variable {ok : α → σ → Prop} {err : δ → σ → Prop}

theorem ensures_mono {ok' : α → σ → Prop} {err' : δ → σ → Prop} (hok : ∀ value state, ok value state → ok' value state)
    (herr : ∀ error state, err error state → err' error state) (h : Ensures serve allowed action ok err state) :
    Ensures serve allowed action ok' err' state :=
  fun result final hends => either_mono (fun value => hok value final) (fun error => herr error final)
    (h result final hends)

theorem ensures_of_forall (hok : ∀ value final, ok value final) (herr : ∀ error final, err error final) :
    Ensures serve allowed action ok err state :=
  fun _ _ _ => either_intro (fun value _ => hok value _) fun error _ => herr error _

@[simp] theorem ensures_ofExcept (result : Except δ α) :
    Ensures serve allowed (ofExcept result : Action Call Reply ε δ α) ok err state ↔ either ok err result state := by
  simp [Ensures]

@[simp] theorem ensures_pure (value : α) :
    Ensures serve allowed (pure value : Action Call Reply ε δ α) ok err state ↔ ok value state :=
  ensures_ofExcept (.ok value)

@[simp] theorem ensures_throw (error : δ) :
    Ensures serve allowed (throw error : Action Call Reply ε δ α) ok err state ↔ err error state :=
  ensures_ofExcept (.error error)

theorem ensures_perform {lift : ε → δ} {request : Call} {ok : Reply request → σ → Prop} :
    Ensures serve allowed (perform lift request : Action Call Reply ε δ _) ok err state ↔ ∀ choice, allowed choice →
      either ok (fun error => err (lift error)) (serve request choice state).1 (serve request choice state).2 := by
  unfold Ensures
  simp only [ends_perform]
  constructor
  · intro h choice hchoice
    have hends := h _ _ ⟨choice, hchoice, rfl, rfl⟩
    cases hreply : (serve request choice state).1 <;> rw [hreply] at hends <;> exact hends
  · rintro h _ _ ⟨choice, hchoice, rfl, rfl⟩
    have hreply := h choice hchoice
    cases hresult : (serve request choice state).1 <;> rw [hresult] at hreply <;> exact hreply

@[simp] theorem ensures_bind {ok : β → σ → Prop} :
    Ensures serve allowed (action >>= next) ok err state ↔
      Ensures serve allowed action (fun value => Ensures serve allowed (next value) ok err) err state := by
  constructor
  · intro h result middle hfirst
    cases result with
    | error error => exact h _ _ (ends_bind.mpr ⟨_, _, hfirst, .done _ _⟩)
    | ok value => exact fun result final hnext => h _ _ (ends_bind.mpr ⟨_, _, hfirst, hnext⟩)
  · intro h result final hends
    obtain ⟨first, middle, hfirst, hnext⟩ := ends_bind.mp hends
    have hmiddle := h first middle hfirst
    cases first with
    | error error =>
        obtain ⟨rfl, rfl⟩ := ends_done.mp hnext
        exact hmiddle
    | ok value => exact hmiddle result final hnext

theorem ensures_ofExcept_bind {ok : β → σ → Prop}
    (hok : ∀ value, result = .ok value → Ensures serve allowed (next value) ok err state)
    (herr : ∀ error, result = .error error → err error state) :
    Ensures serve allowed (ofExcept result >>= next) ok err state :=
  ensures_bind.mpr ((ensures_ofExcept result).mpr (either_intro hok herr))

@[simp] theorem ensures_mapError {f : δ → δ'} {err : δ' → σ → Prop} :
    Ensures serve allowed (mapError f action) ok err state ↔
      Ensures serve allowed action ok (fun error => err (f error)) state := by
  constructor
  · intro h result final hends
    have hfinal := h _ _ (ends_bind.mpr ⟨_, _, hends, .done _ _⟩)
    cases result <;> exact hfinal
  · intro h result final hends
    obtain ⟨first, middle, hfirst, hnext⟩ := ends_bind.mp hends
    obtain ⟨rfl, rfl⟩ := ends_done.mp hnext
    have hfinal := h first middle hfirst
    cases first <;> exact hfinal

@[simp] theorem ensures_attempt {ok : Except δ α → σ → Prop} :
    Ensures serve allowed (attempt action) ok err state ↔
      Ensures serve allowed action (fun value => ok (.ok value)) (fun error => ok (.error error)) state := by
  unfold Ensures
  simp only [ends_attempt]
  constructor
  · intro h result final hends
    have hfinal := h _ final ⟨result, rfl, hends⟩
    cases result <;> exact hfinal
  · rintro h _ final ⟨outcome, rfl, hends⟩
    have hfinal := h outcome final hends
    cases outcome <;> exact hfinal

theorem ensures_of_calls (inv : σ → Prop) {P : Call → Prop}
    (hserve : ∀ request, P request → ∀ choice state, inv state → inv (serve request choice state).2)
    (hcalls : Calls P action) (hinv : inv state) :
    Ensures serve allowed action (fun _ => inv) (fun _ => inv) state := by
  intro result final hends
  have hfinal := hends.of_calls inv hserve hcalls hinv
  cases result <;> exact hfinal

/-- The loop rule: the invariant of the items still to come is kept by each round. -/
theorem ensures_forM (inv : List ι → σ → Prop) {body : ι → Action Call Reply ε δ Unit} {ok : Unit → σ → Prop}
    {items : List ι} (hround : ∀ item ∈ items, ∀ rest state, inv (item :: rest) state →
      Ensures serve allowed (body item) (fun _ => inv rest) err state)
    (hend : ∀ state, inv [] state → ok () state) (hinv : inv items state) :
    Ensures serve allowed (forM items body) ok err state := by
  induction items generalizing state with
  | nil => exact (ensures_pure _).mpr (hend _ hinv)
  | cons item rest ih =>
      obtain ⟨hfirst, hrest⟩ := List.forall_mem_cons.mp hround
      rw [List.forM_cons, ensures_bind]
      exact ensures_mono (fun _ _ => ih hrest) (fun _ _ h => h) (hfirst rest state hinv)

end Action

end Effect
