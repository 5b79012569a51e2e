import WincredLibsecret.EffectAction

/-! Two runs side by side. Two actions over two services are alike if undisturbed runs from related states
end in related states, both with related results or both with the same error. Nothing here depends on a
particular service. -/

namespace Effect

namespace Action

variable {Call : Type} {Reply : Call → Type} {ε δ δ' σ τ α α' β β' ι : Type}

/-- Both succeed with related values, or both fail with the same error. -/
def Related (post : α → α' → Prop) : Except δ α → Except δ α' → Prop
  | .ok value, .ok value' => post value value'
  | .error error, .error error' => error = error'
  | _, _ => False

theorem related_eq {left right : Except δ α} : Related Eq left right ↔ left = right := by
  cases left <;> cases right <;> simp [Related]

section Alike

variable (serve : (request : Call) → σ → Reply request × σ) (serve' : (request : Call) → τ → Reply request × τ)
  (rel : σ → τ → Prop)

/-- From related states both actions end in related states and with related results. -/
def Alike (post : α → α' → Prop) (action : Action Call Reply ε δ α) (action' : Action Call Reply ε δ α') : Prop :=
  ∀ state state', rel state state' →
    Related post (answer serve action state).1 (answer serve' action' state').1 ∧
      rel (answer serve action state).2 (answer serve' action' state').2

variable {serve serve' rel} {post : α → α' → Prop}

theorem answer_bind (action : Action Call Reply ε δ α) (next : α → Action Call Reply ε δ β) (state : σ) :
    answer serve (action >>= next) state =
      match answer serve action state with
      | (.ok value, rest) => answer serve (next value) rest
      | (.error error, rest) => (.error error, rest) := by
  refine (Program.value_bind action.run _ state).trans ?_
  rw [answer]
  rcases Program.value serve action.run state with ⟨_ | _, rest⟩ <;> rfl

theorem answer_attempt (action : Action Call Reply ε δ α) (state : σ) :
    answer serve (attempt action) state = (.ok (answer serve action state).1, (answer serve action state).2) :=
  Program.value_bind action.run _ state

theorem answer_mapError (f : δ → δ') (action : Action Call Reply ε δ α) (state : σ) :
    answer serve (mapError f action) state =
      ((answer serve action state).1.mapError f, (answer serve action state).2) :=
  Program.value_bind action.run _ state

theorem alike_pure {value : α} {value' : α'} (h : post value value') :
    Alike serve serve' rel post (pure value : Action Call Reply ε δ α) (pure value') :=
  fun _ _ hrel => ⟨h, hrel⟩

theorem alike_throw (error : δ) :
    Alike serve serve' rel post (throw error : Action Call Reply ε δ α) (throw error) :=
  fun _ _ hrel => ⟨rfl, hrel⟩

theorem alike_ofExcept (result : Except δ α) :
    Alike serve serve' rel Eq (ofExcept result : Action Call Reply ε δ α) (ofExcept result) :=
  fun _ _ hrel => ⟨related_eq.mpr rfl, hrel⟩

theorem alike_perform {lift : ε → δ} {request : Call} {post : Reply request → Reply request → Prop}
    (h : ∀ state state', rel state state' →
      post (serve request state).1 (serve' request state').1 ∧ rel (serve request state).2 (serve' request state').2) :
    Alike serve serve' rel post (perform lift request : Action Call Reply ε δ _) (perform lift request) :=
  h

variable {action : Action Call Reply ε δ α}

theorem alike_bind {post : α → α' → Prop} {post' : β → β' → Prop} {action' : Action Call Reply ε δ α'}
    {next : α → Action Call Reply ε δ β} {next' : α' → Action Call Reply ε δ β'}
    (hfirst : Alike serve serve' rel post action action')
    (hnext : ∀ value value', post value value' → Alike serve serve' rel post' (next value) (next' value')) :
    Alike serve serve' rel post' (action >>= next) (action' >>= next') := by
  intro state state' hrel
  rw [answer_bind, answer_bind]
  have hends := hfirst state state' hrel
  revert hends
  rcases answer serve action state with ⟨_ | _, rest⟩ <;> rcases answer serve' action' state' with ⟨_ | _, rest'⟩ <;>
    rintro ⟨hresult, hrest⟩
  · exact ⟨hresult, hrest⟩
  · exact hresult.elim
  · exact hresult.elim
  · exact hnext _ _ hresult rest rest' hrest

/-- Two actions in a row where the first ones return the same value. -/
theorem alike_bind_eq {post : β → β' → Prop} {action' : Action Call Reply ε δ α} {next : α → Action Call Reply ε δ β}
    {next' : α → Action Call Reply ε δ β'} (hfirst : Alike serve serve' rel Eq action action')
    (hnext : ∀ value, Alike serve serve' rel post (next value) (next' value)) :
    Alike serve serve' rel post (action >>= next) (action' >>= next') :=
  alike_bind hfirst fun value _ h => h ▸ hnext value

theorem alike_attempt {action' : Action Call Reply ε δ α} (h : Alike serve serve' rel Eq action action') :
    Alike serve serve' rel Eq (attempt action) (attempt action') := by
  intro state state' hrel
  obtain ⟨hresult, hrest⟩ := h state state' hrel
  rw [answer_attempt, answer_attempt]
  exact ⟨related_eq.mp hresult, hrest⟩

theorem alike_mapError {f : δ → δ'} {action' : Action Call Reply ε δ α'}
    (h : Alike serve serve' rel post action action') :
    Alike serve serve' rel post (mapError f action) (mapError f action') := by
  intro state state' hrel
  rw [answer_mapError, answer_mapError]
  obtain ⟨hresult, hrest⟩ := h state state' hrel
  refine ⟨?_, hrest⟩
  revert hresult
  rcases (answer serve action state).1 with _ | _ <;> rcases (answer serve' action' state').1 with _ | _ <;>
    intro hresult
  · exact congrArg f hresult
  · exact hresult.elim
  · exact hresult.elim
  · exact hresult

/-- Loops over the same items with bodies that are alike. -/
theorem alike_forM {items : List ι} {body body' : ι → Action Call Reply ε δ Unit}
    (h : ∀ item ∈ items, Alike serve serve' rel Eq (body item) (body' item)) :
    Alike serve serve' rel Eq (forM items body) (forM items body') := by
  induction items with
  | nil => exact alike_pure rfl
  | cons item rest ih =>
      obtain ⟨hitem, hrest⟩ := List.forall_mem_cons.mp h
      rw [List.forM_cons, List.forM_cons]
      exact alike_bind_eq hitem fun _ => ih hrest

end Alike

end Action

end Effect
