import WincredLibsecret.EffectAction

/-! Pre- and postconditions of actions under an invariant. The invariant holds in every state a run goes through,
also where it fails or is killed; the postcondition is about the results alone. Facts that no call can undo pass
through every action. Nothing here depends on a particular service. -/

namespace Effect

variable {Call : Type} {Reply : Call → Type} {ε δ δ' σ α β ι : Type}
  {serve : (request : Call) → σ → Reply request × σ}

theorem Program.wp_and {faults : ε → Prop} {program : Program Call Reply ε α} {post post' : α → σ → Prop}
    {crash crash' : σ → Prop} {state : σ} (h : program.wp serve faults post crash state)
    (h' : program.wp serve faults post' crash' state) :
    program.wp serve faults (fun value state => post value state ∧ post' value state)
      (fun state => crash state ∧ crash' state) state := by
  induction program generalizing state with
  | done value => exact ⟨⟨h.1, h'.1⟩, h.2, h'.2⟩
  | call request next ih =>
      exact ⟨⟨h.1, h'.1⟩, fun error herror => ih _ (h.2.1 error herror) (h'.2.1 error herror), ih _ h.2.2 h'.2.2⟩

/-- A run from a state that looks the same to every call goes the same way. -/
theorem Program.wp_comap {faults : ε → Prop} {view : σ → σ} {good : σ → Prop}
    (hgood : ∀ request state, good state → good (serve request state).2)
    (hview : ∀ request state, good state →
      serve request (view state) = ((serve request state).1, view (serve request state).2))
    {program : Program Call Reply ε α} {post : α → σ → Prop} {crash : σ → Prop} {state : σ} (hstate : good state)
    (h : program.wp serve faults post crash (view state)) :
    program.wp serve faults (fun value state => good state ∧ post value (view state))
      (fun state => good state ∧ crash (view state)) state := by
  induction program generalizing state with
  | done value => exact ⟨⟨hstate, h.1⟩, hstate, h.2⟩
  | call request next ih =>
      obtain ⟨hcrash, herror, hserved⟩ := h
      rw [hview request state hstate] at hserved
      exact ⟨⟨hstate, hcrash⟩, fun error hfault => ih _ hstate (herror error hfault),
        ih _ (hgood request state hstate) hserved⟩

namespace Action

/-- From a state with the invariant and the precondition, every run keeps the invariant, and its result meets the
postcondition. -/
def Triple (serve : (request : Call) → σ → Reply request × σ) (inv pre : σ → Prop) (action : Action Call Reply ε δ α)
    (post : α → σ → Prop) : Prop :=
  ∀ state, inv state → pre state →
    wp serve (fun _ => True) action (fun value state => inv state ∧ post value state) (fun _ => inv) inv state

namespace Triple

variable {inv pre : σ → Prop} {post : α → σ → Prop} {action : Action Call Reply ε δ α}

theorem mono {pre' : σ → Prop} {post' : α → σ → Prop} (h : Triple serve inv pre action post)
    (hpre : ∀ state, pre' state → pre state) (hpost : ∀ value state, post value state → post' value state) :
    Triple serve inv pre' action post' := fun state hinv hstate =>
  wp_mono (fun value state h => ⟨h.1, hpost value state h.2⟩) (fun _ _ h => h) (fun _ h => h)
    (h state hinv (hpre state hstate))

theorem pure {value : α} (h : ∀ state, pre state → post value state) :
    Triple serve inv pre (Pure.pure value : Action Call Reply ε δ α) post := fun state hinv hpre =>
  ⟨hinv, hinv, h state hpre⟩

theorem throw (error : δ) : Triple serve inv pre (MonadExcept.throw error : Action Call Reply ε δ α) post :=
  fun _ hinv _ => ⟨hinv, hinv⟩

theorem perform {lift : ε → δ} {request : Call} {post : Reply request → σ → Prop}
    (h : ∀ state, inv state → pre state →
      inv (serve request state).2 ∧ post (serve request state).1 (serve request state).2) :
    Triple serve inv pre (Action.perform lift request : Action Call Reply ε δ _) post := by
  intro state hinv hpre
  obtain ⟨hkept, hpost⟩ := h state hinv hpre
  exact wp_perform.mpr ⟨hinv, fun _ _ => hinv, hkept, hkept, hpost⟩

theorem bind {middle : α → σ → Prop} {next : α → Action Call Reply ε δ β} {post : β → σ → Prop}
    (h : Triple serve inv pre action middle) (hnext : ∀ value, Triple serve inv (middle value) (next value) post) :
    Triple serve inv pre (action >>= next) post := by
  intro state hinv hpre
  exact wp_bind.mpr (wp_mono (fun value state h => hnext value state h.1 h.2) (fun _ _ h => h) (fun _ h => h)
    (h state hinv hpre))

theorem mapError {f : δ → δ'} (h : Triple serve inv pre action post) :
    Triple serve inv pre (Action.mapError f action) post := fun state hinv hpre =>
  wp_mapError.mpr (h state hinv hpre)

/-- Of a failed attempt only the invariant is known. -/
theorem attempt {post : Except δ α → σ → Prop} (h : Triple serve inv pre action fun value => post (.ok value))
    (herror : ∀ error state, inv state → post (.error error) state) :
    Triple serve inv pre (Action.attempt action) post := fun state hinv hpre =>
  wp_attempt.mpr (wp_mono (fun _ _ h => h) (fun error state h => ⟨h, herror error state h⟩) (fun _ h => h)
    (h state hinv hpre))

/-- A call that fails changes nothing. -/
theorem attempt_perform {lift : ε → δ} {request : Call} {post : Except δ (Reply request) → σ → Prop}
    (h : ∀ state, inv state → pre state →
      inv (serve request state).2 ∧ post (.ok (serve request state).1) (serve request state).2)
    (herror : ∀ error state, pre state → post (.error error) state) :
    Triple serve inv pre (Action.attempt (Action.perform lift request : Action Call Reply ε δ _)) post := by
  intro state hinv hpre
  obtain ⟨hkept, hpost⟩ := h state hinv hpre
  refine wp_attempt.mpr (wp_perform.mpr ⟨hinv, fun error _ => ?_, hkept, hkept, hpost⟩)
  exact ⟨hinv, herror (lift error) state hpre⟩

/-- A part of a run that keeps more than the whole of it has to. -/
theorem strengthen {inv' pre' : σ → Prop} (h : Triple serve inv' pre' action post)
    (hweak : ∀ state, inv' state → inv state) (hpre : ∀ state, inv state → pre state → inv' state ∧ pre' state) :
    Triple serve inv pre action fun value state => inv' state ∧ post value state := by
  intro state hinv hstate
  obtain ⟨hinv', hpre'⟩ := hpre state hinv hstate
  exact wp_mono (fun _ state h => ⟨hweak state h.1, h⟩) (fun _ state h => hweak state h) hweak (h state hinv' hpre')

/-- What is known of a run from one state is known of the run from another state that looks the same to every call. -/
theorem comap {view : σ → σ} {good : σ → Prop} (hgood : ∀ request state, good state → good (serve request state).2)
    (hview : ∀ request state, good state →
      serve request (view state) = ((serve request state).1, view (serve request state).2))
    (h : Triple serve inv pre action post) :
    Triple serve (fun state => good state ∧ inv (view state)) (fun state => pre (view state)) action
      fun value state => post value (view state) := by
  intro state hstate hpre
  refine Program.wp_mono (fun result state hresult => ?_) (fun _ h => h)
    (Program.wp_comap hgood hview hstate.1 (h (view state) hstate.2 hpre))
  cases result with
  | ok value => exact ⟨⟨hresult.1, hresult.2.1⟩, hresult.2.2⟩
  | error error => exact hresult

/-- What each round keeps while the items become fewer. -/
theorem forM (left : List ι → σ → Prop) {body : ι → Action Call Reply ε δ Unit} {items : List ι}
    (h : ∀ item ∈ items, ∀ rest, Triple serve inv (left (item :: rest)) (body item) fun _ => left rest) :
    Triple serve inv (left items) (forM items body) fun _ => left [] := by
  intro state hinv hleft
  refine wp_forM (fun rest state => inv state ∧ left rest state) (fun item hitem rest state hstate => ?_)
    (fun state hstate => ⟨hstate.1, hstate⟩) ⟨hinv, hleft⟩
  exact h item hitem rest state hstate.1 hstate.2

theorem of_calls {P : Call → Prop}
    (hserve : ∀ request, P request → ∀ state, inv state → inv (serve request state).2)
    (hcalls : Calls P action) : Triple serve inv pre action fun _ _ => True := fun _ hinv _ =>
  wp_mono (fun _ _ h => ⟨h, trivial⟩) (fun _ _ h => h) (fun _ h => h) (wp_of_calls hserve hcalls hinv)

theorem and {post' : α → σ → Prop} (h : Triple serve inv pre action post) (h' : Triple serve inv pre action post') :
    Triple serve inv pre action fun value state => post value state ∧ post' value state := by
  intro state hinv hpre
  refine Program.wp_mono (fun result state hboth => ?_) (fun state hboth => hboth.1)
    (Program.wp_and (h state hinv hpre) (h' state hinv hpre))
  cases result with
  | ok value => exact ⟨hboth.1.1, hboth.1.2, hboth.2.2⟩
  | error error => exact hboth.1

theorem both {inv' pre' : σ → Prop} {post' : α → σ → Prop} (h : Triple serve inv pre action post)
    (h' : Triple serve inv' pre' action post') :
    Triple serve (fun state => inv state ∧ inv' state) (fun state => pre state ∧ pre' state) action
      fun value state => post value state ∧ post' value state := by
  intro state hinv hpre
  refine Program.wp_mono (fun result state hboth => ?_) (fun state hboth => hboth)
    (Program.wp_and (h state hinv.1 hpre.1) (h' state hinv.2 hpre.2))
  cases result with
  | ok value => exact ⟨⟨hboth.1.1, hboth.2.1⟩, hboth.1.2, hboth.2.2⟩
  | error error => exact hboth

/-- A part of a run whose calls keep more than the whole of it has to. -/
theorem within {inv' : σ → Prop} {P : Call → Prop}
    (hserve : ∀ request, P request → ∀ state, inv' state → inv' (serve request state).2) (hcalls : Calls P action)
    (hweak : ∀ state, inv' state → inv state) (hpre : ∀ state, inv state → pre state → inv' state) :
    Triple serve inv pre action fun _ => inv' := fun state hinv hstate =>
  wp_mono (fun _ state h => ⟨hweak state h, h⟩) (fun _ state h => hweak state h) hweak
    (wp_of_calls hserve hcalls (hpre state hinv hstate))

/-- What the calls of an action leave alone still holds of its results. -/
theorem frame {P : Call → Prop} {fact : σ → Prop}
    (hserve : ∀ request, P request → ∀ state, fact state → fact (serve request state).2)
    (hcalls : Calls P action) (h : Triple serve inv pre action post) :
    Triple serve inv (fun state => pre state ∧ fact state) action fun value state => post value state ∧ fact state := by
  intro state hinv hpre
  refine Program.wp_mono (fun result state hboth => ?_) (fun state hboth => hboth.1)
    (Program.wp_and (h state hinv hpre.1) (wp_of_calls hserve hcalls hpre.2))
  cases result with
  | ok value => exact ⟨hboth.1.1, hboth.1.2, hboth.2⟩
  | error error => exact hboth.1

/-- A fact that no call undoes. -/
theorem frame_always {fact : σ → Prop} (hserve : ∀ request state, fact state → fact (serve request state).2)
    (h : Triple serve inv pre action post) :
    Triple serve inv (fun state => pre state ∧ fact state) action fun value state => post value state ∧ fact state :=
  h.frame (fun request _ => hserve request) (Program.calls_true action.run)

theorem invariant_of_visited (h : Triple serve inv pre action post) {state : σ} (hinv : inv state) (hpre : pre state)
    (fates : Fates ε) : ∀ seen ∈ visited serve action fates state, inv seen :=
  visited_of_wp (h state hinv hpre) (within_any fates)

theorem invariant_of_execute (h : Triple serve inv pre action post) {state : σ} (hinv : inv state) (hpre : pre state)
    (fates : Fates ε) : inv (execute serve action fates state).state :=
  execute_state_of_wp (h state hinv hpre) (within_any fates)

theorem post_of_execute (h : Triple serve inv pre action post) {state : σ} (hinv : inv state) (hpre : pre state)
    {fates : Fates ε} {value : α} (hvalue : (execute serve action fates state).outcome = .returned (.ok value)) :
    post value (execute serve action fates state).state :=
  (execute_of_wp (h state hinv hpre) (within_any fates) hvalue).2

end Triple

end Action

end Effect
