import WincredLibsecret.EffectAction

/-! What an action ends with whatever it is answered. The weakest precondition follows one service and
its state. Some facts about a result need neither: a text the program itself chose, a record it has
checked. They are proved along the tree of calls, for every reply. -/

namespace Effect

variable {Call : Type} {Reply : Call → Type} {ε δ δ' σ α β ι : Type}

/-- Every value the program can end with satisfies `post`, if its calls fail only with the given faults. -/
def Program.Yields (faults : ε → Prop) (post : α → Prop) : Program Call Reply ε α → Prop
  | .done value => post value
  | .call _ next => (∀ error, faults error → (next (.error error)).Yields faults post) ∧
      ∀ reply, (next (.ok reply)).Yields faults post

theorem Program.yields_bind {faults : ε → Prop} {post : α → Prop} {post' : β → Prop}
    {program : Program Call Reply ε α} {next : α → Program Call Reply ε β} (h : program.Yields faults post)
    (hnext : ∀ value, post value → (next value).Yields faults post') : (program >>= next).Yields faults post' := by
  induction program with
  | done value => exact hnext value h
  | call request rest ih => exact ⟨fun error herror => ih _ (h.1 error herror), fun reply => ih _ (h.2 reply)⟩

/-- A fact about all results is one about the results of a run. -/
theorem Program.wp_of_yields {serve : (request : Call) → σ → Reply request × σ} {faults : ε → Prop} {post : α → Prop}
    {program : Program Call Reply ε α} (h : program.Yields faults post) (state : σ) :
    program.wp serve faults (fun value _ => post value) (fun _ => True) state := by
  induction program generalizing state with
  | done value => exact ⟨trivial, h⟩
  | call request next ih => exact ⟨trivial, fun error herror => ih _ (h.1 error herror) state, ih _ (h.2 _) _⟩

/-- A program that is not killed comes to an end. -/
theorem Program.exists_returned {serve : (request : Call) → σ → Reply request × σ} {fates : Fates ε}
    (h : ∀ n, fates n ≠ .kill) (program : Program Call Reply ε α) (state : σ) :
    ∃ value, (program.run serve fates state).outcome = .returned value := by
  induction program generalizing fates state with
  | done value => exact ⟨value, rfl⟩
  | call request next ih =>
      have hrest : ∀ n, fates.rest n ≠ .kill := fun n => h (n + 1)
      rw [Program.run]
      cases hfate : fates 0 with
      | serve => exact ih _ hrest _
      | fail error => exact ih _ hrest _
      | kill => exact absurd hfate (h 0)

namespace Action

variable {faults : ε → Prop} {ok : α → Prop} {err : δ → Prop}

/-- Every value of the action satisfies `ok` and every error `err`. -/
def Yields (faults : ε → Prop) (ok : α → Prop) (err : δ → Prop) (action : Action Call Reply ε δ α) : Prop :=
  action.run.Yields faults fun result => (∀ value, result = .ok value → ok value) ∧
    ∀ error, result = .error error → err error

theorem yields_ofExcept {result : Except δ α} (hok : ∀ value, result = .ok value → ok value)
    (herr : ∀ error, result = .error error → err error) :
    Yields faults ok err (ofExcept result : Action Call Reply ε δ α) :=
  ⟨hok, herr⟩

theorem yields_pure {value : α} (h : ok value) : Yields faults ok err (pure value : Action Call Reply ε δ α) :=
  yields_ofExcept (fun _ heq => Except.ok.inj heq ▸ h) (by simp)

theorem yields_throw {error : δ} (h : err error) : Yields faults ok err (throw error : Action Call Reply ε δ α) :=
  yields_ofExcept (by simp) fun _ heq => Except.error.inj heq ▸ h

theorem yields_perform {lift : ε → δ} {request : Call} {ok : Reply request → Prop} (hok : ∀ reply, ok reply)
    (herr : ∀ error, faults error → err (lift error)) :
    Yields faults ok err (perform lift request : Action Call Reply ε δ _) :=
  ⟨fun error herror => yields_throw (herr error herror), fun reply => yields_pure (hok reply)⟩

variable {action : Action Call Reply ε δ α}

theorem yields_bind {next : α → Action Call Reply ε δ β} {ok' : β → Prop} (h : Yields faults ok err action)
    (hnext : ∀ value, ok value → Yields faults ok' err (next value)) : Yields faults ok' err (action >>= next) := by
  refine Program.yields_bind h fun result hresult => ?_
  cases result with
  | ok value => exact hnext value (hresult.1 value rfl)
  | error error => exact yields_throw (hresult.2 error rfl)

theorem yields_mapError {f : δ → δ'} {err' : δ' → Prop} (h : Yields faults ok err action)
    (hf : ∀ error, err error → err' (f error)) : Yields faults ok err' (mapError f action) := by
  refine Program.yields_bind h fun result hresult => ?_
  cases result with
  | ok value => exact yields_pure (hresult.1 value rfl)
  | error error => exact yields_throw (hf error (hresult.2 error rfl))

/-- An attempt hands the error over as a value and has none of its own. -/
theorem yields_attempt {err' : δ → Prop} (h : Yields faults ok err action) :
    Yields faults (fun result => (∀ value, result = .ok value → ok value) ∧ ∀ error, result = .error error → err error)
      err' (attempt action) := by
  refine Program.yields_bind h fun result hresult => ?_
  refine ⟨fun value heq => ?_, by simp⟩
  cases heq
  exact hresult

theorem yields_forM {body : ι → Action Call Reply ε δ Unit} {items : List ι}
    (hbody : ∀ item ∈ items, Yields faults (fun _ => True) err (body item)) :
    Yields faults (fun _ => True) err (forM items body) := by
  induction items with
  | nil => exact yields_pure trivial
  | cons item rest ih =>
      obtain ⟨hfirst, hrest⟩ := List.forall_mem_cons.mp hbody
      rw [List.forM_cons]
      exact yields_bind hfirst fun _ _ => ih hrest

theorem wp_of_yields {serve : (request : Call) → σ → Reply request × σ} (h : Yields faults ok err action) (state : σ) :
    wp serve faults action (fun value _ => ok value) (fun error _ => err error) (fun _ => True) state := by
  refine Program.wp_mono (fun result _ hresult => ?_) (fun _ h => h) (Program.wp_of_yields h state)
  exact either_intro hresult.1 hresult.2

end Action

end Effect
