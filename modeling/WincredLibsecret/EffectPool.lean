import WincredLibsecret.EffectProgram

/-! Programs that share a service. Each turn lets one program of a pool make its next call; the order of
the turns and what the surroundings do to each call are chosen from outside. Nothing here depends on a
particular service. -/

namespace Effect

/-- One answered call of a program of the pool. -/
structure Event (ι Call : Type) (Reply : Call → Type) (ε : Type) where
  who : ι
  request : Call
  reply : Except ε (Reply request)

/-- What a sequence of turns leaves: the programs, the state of the service and the calls made. -/
structure Played (ι Call : Type) (Reply : Call → Type) (ε σ α : Type) where
  pool : ι → Program Call Reply ε α
  state : σ
  events : List (Event ι Call Reply ε)

variable {ι Call ω σ ε α : Type} {Reply : Call → Type} [DecidableEq ι]

/-- Plays the turns one after the other. A program that has ended lets its turn pass. -/
def play (serve : (request : Call) → ω → σ → Except ε (Reply request) × σ) :
    List (ι × ω) → (ι → Program Call Reply ε α) → σ → Played ι Call Reply ε σ α
  | [], pool, state => ⟨pool, state, []⟩
  | (who, choice) :: rest, pool, state =>
      match pool who with
      | .done _ => play serve rest pool state
      | .call request next =>
          let answer := serve request choice state
          let later := play serve rest (Function.update pool who (next answer.1)) answer.2
          { later with events := ⟨who, request, answer.1⟩ :: later.events }

variable {serve : (request : Call) → ω → σ → Except ε (Reply request) × σ} {pool : ι → Program Call Reply ε α}
  {state : σ} {who : ι} {choice : ω} {rest : List (ι × ω)}

theorem play_done {value : α} (h : pool who = .done value) :
    play serve ((who, choice) :: rest) pool state = play serve rest pool state := by
  rw [play, h]

theorem play_call {request : Call} {next : Except ε (Reply request) → Program Call Reply ε α}
    (h : pool who = .call request next) :
    play serve ((who, choice) :: rest) pool state =
      let answer := serve request choice state
      let later := play serve rest (Function.update pool who (next answer.1)) answer.2
      { later with events := ⟨who, request, answer.1⟩ :: later.events } := by
  rw [play, h]

/-- What holds at the start and is kept by every answered call holds at the end. -/
theorem play_induction (Inv : List (Event ι Call Reply ε) → (ι → Program Call Reply ε α) → σ → Prop)
    (hstep : ∀ {events pool state who} {request : Call} {next : Except ε (Reply request) → Program Call Reply ε α}
      (choice : ω), Inv events pool state → pool who = .call request next →
        Inv (events ++ [⟨who, request, (serve request choice state).1⟩])
          (Function.update pool who (next (serve request choice state).1)) (serve request choice state).2)
    (turns : List (ι × ω)) {events : List (Event ι Call Reply ε)} (h : Inv events pool state) :
    let played := play serve turns pool state
    Inv (events ++ played.events) played.pool played.state := by
  induction turns generalizing events pool state with
  | nil =>
      simp only [play, List.append_nil]
      exact h
  | cons turn rest ih =>
      obtain ⟨who, choice⟩ := turn
      cases hnext : pool who with
      | done value =>
          rw [play_done hnext]
          exact ih h
      | call request next =>
          rw [play_call hnext]
          have hlater := ih (hstep choice h hnext)
          simp only [List.append_assoc, List.cons_append, List.nil_append] at hlater
          exact hlater

end Effect
