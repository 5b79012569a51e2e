import WincredLibsecret.EffectProgram
import WincredLibsecret.EventMachine

/-! Processes that share a service behind a lock. Each process runs one task at a time: a program that asks for the
lock before anything else and gives up if it does not get it. The calls of the processes interleave freely. A request
for the lock is served only while no other process holds it; it may fail at any time, as a wait that is cut short
does. A process gives the lock back when its task ends and loses it when it is killed. The tasks then take effect
as if each ran alone, in the order in which they ended. Nothing here depends on a particular service. -/

namespace Effect

variable {Call : Type} {Reply : Call → Type} {ε σ α ι κ : Type}

def Fates.cons (first : Fate ε) (later : Fates ε) : Nat → Fate ε
  | 0 => first
  | n + 1 => later n

@[simp] theorem Fates.cons_zero (first : Fate ε) (later : Fates ε) : Fates.cons first later 0 = first := rfl

@[simp] theorem Fates.rest_cons (first : Fate ε) (later : Fates ε) :
    Fates.rest (Fates.cons first later) = later := rfl

/-- The fates of the list, and then the later ones. -/
def Fates.follow (used : List (Fate ε)) (later : Fates ε) : Fates ε := used.foldr Fates.cons later

@[simp] theorem Fates.follow_nil (later : Fates ε) : Fates.follow [] later = later := rfl

theorem Fates.follow_concat (used : List (Fate ε)) (fate : Fate ε) (later : Fates ε) :
    Fates.follow (used ++ [fate]) later = Fates.follow used (Fates.cons fate later) := by
  simp [Fates.follow]

namespace Program

/-- After calls of these fates the program goes on as `left`, from the state `reached`. -/
def Leads (serve : (request : Call) → σ → Reply request × σ) (program : Program Call Reply ε α)
    (used : List (Fate ε)) (state : σ) (left : Program Call Reply ε α) (reached : σ) : Prop :=
  ∀ later, program.run serve (Fates.follow used later) state = left.run serve later reached

variable {serve : (request : Call) → σ → Reply request × σ} {program left : Program Call Reply ε α}
  {used : List (Fate ε)} {state reached : σ}

theorem leads_nil : program.Leads serve [] state program state := fun _ => rfl

theorem Leads.served {request : Call} {next : Except ε (Reply request) → Program Call Reply ε α}
    (h : program.Leads serve used state (.call request next) reached) :
    program.Leads serve (used ++ [.serve]) state (next (.ok (serve request reached).1)) (serve request reached).2 := by
  intro later
  rw [Fates.follow_concat, h, run]
  rfl

theorem Leads.failed {request : Call} {next : Except ε (Reply request) → Program Call Reply ε α} (error : ε)
    (h : program.Leads serve used state (.call request next) reached) :
    program.Leads serve (used ++ [.fail error]) state (next (.error error)) reached := by
  intro later
  rw [Fates.follow_concat, h, run]
  rfl

theorem Leads.run_of_done {value : α} (h : program.Leads serve used state (.done value) reached) (later : Fates ε) :
    program.run serve (Fates.follow used later) state = ⟨.returned value, reached, later⟩ :=
  h later

theorem Leads.run_of_kill {request : Call} {next : Except ε (Reply request) → Program Call Reply ε α}
    (h : program.Leads serve used state (.call request next) reached) (later : Fates ε) :
    program.run serve (Fates.follow (used ++ [.kill]) later) state = ⟨.killed, reached, later⟩ := by
  rw [Fates.follow_concat, h, run]
  rfl

/-- Killed where it is, the program leaves the state it has reached. -/
theorem Leads.state_of_killed (h : program.Leads serve used state left reached) :
    (program.run serve (Fates.follow used fun _ => .kill) state).state = reached := by
  rw [h]
  cases left with
  | done value => rfl
  | call request next => rfl

end Program

namespace Lock

/-- A task that is running: what it is for, the fates of the calls it has made, and what is left of it. -/
structure Task (Call : Type) (Reply : Call → Type) (ε α κ : Type) where
  label : κ
  used : List (Fate ε)
  left : Program Call Reply ε α

/-- A task that has ended. -/
structure Entry (ε α ι κ : Type) where
  who : ι
  label : κ
  fates : List (Fate ε)
  outcome : Outcome α

structure State (Call : Type) (Reply : Call → Type) (ε σ α ι κ : Type) where
  tasks : ι → Option (Task Call Reply ε α κ)
  holder : Option ι
  state : σ
  log : List (Entry ε α ι κ)

def State.initial (start : σ) : State Call Reply ε σ α ι κ := ⟨fun _ => none, none, start, []⟩

inductive Event (ε ι κ : Type) where
  | starts (who : ι) (label : κ)
  | calls (who : ι) (fate : Fate ε)
  | ends (who : ι)

section Steps

variable [DecidableEq ι] (isLock : Call → Bool) (serve : (request : Call) → σ → Reply request × σ)
  (program : κ → Program Call Reply ε α)

def State.put (shared : State Call Reply ε σ α ι κ) (who : ι) (task : Task Call Reply ε α κ) :
    State Call Reply ε σ α ι κ :=
  { shared with tasks := Function.update shared.tasks who (some task) }

/-- The end of a task, by itself or by the death of its process. The lock is free again if the process held it. -/
def State.finish (shared : State Call Reply ε σ α ι κ) (entry : Entry ε α ι κ) : State Call Reply ε σ α ι κ :=
  { shared with
    tasks := Function.update shared.tasks entry.who none
    holder := if shared.holder = some entry.who then none else shared.holder
    log := shared.log ++ [entry] }

/-- A served call. Nobody but the holder is served the lock while it is held. -/
def State.answer (shared : State Call Reply ε σ α ι κ) (who : ι) (label : κ) (used : List (Fate ε)) (request : Call)
    (next : Except ε (Reply request) → Program Call Reply ε α) : Option (State Call Reply ε σ α ι κ) :=
  let (reply, reached) := serve request shared.state
  let served := { shared.put who ⟨label, used ++ [.serve], next (.ok reply)⟩ with state := reached }
  if isLock request = true then
    if shared.holder = none ∨ shared.holder = some who then some { served with holder := some who } else none
  else
    some served

def step (shared : State Call Reply ε σ α ι κ) : Event ε ι κ → Option (State Call Reply ε σ α ι κ)
  | .starts who label =>
      match shared.tasks who with
      | none => some (shared.put who ⟨label, [], program label⟩)
      | some _ => none
  | .calls who fate =>
      match shared.tasks who with
      | some ⟨label, used, .call request next⟩ =>
          match fate with
          | .serve => shared.answer isLock serve who label used request next
          | .fail error => some (shared.put who ⟨label, used ++ [.fail error], next (.error error)⟩)
          | .kill => some (shared.finish ⟨who, label, used ++ [.kill], .killed⟩)
      | _ => none
  | .ends who =>
      match shared.tasks who with
      | some ⟨label, used, .done value⟩ => some (shared.finish ⟨who, label, used, .returned value⟩)
      | _ => none

/-- The state the tasks leave when each runs alone, one after the other. -/
def serial : List (Entry ε α ι κ) → σ → σ
  | [], state => state
  | entry :: rest, state =>
      serial rest ((program entry.label).run serve (Fates.follow entry.fates undisturbed) state).state

/-- A program that asks for the lock first and makes no call if it does not get it. -/
def Guarded : Program Call Reply ε α → Prop
  | .done _ => False
  | .call request next => isLock request = true ∧ ∀ error, ∃ value, next (.error error) = .done value

/-- A task without the lock has left the state alone: it stands before its first call, or it has given up. -/
structure Task.Outside (task : Task Call Reply ε α κ) : Prop where
  leads : ∀ state, (program task.label).Leads serve task.used state task.left state
  left : task.left = program task.label ∨ ∃ value, task.left = .done value

/-- The tasks that ended took effect one after the other, and only the holder has done something since. -/
structure State.Serialized (start : σ) (shared : State Call Reply ε σ α ι κ) : Prop where
  free : shared.holder = none → shared.state = serial serve program shared.log start
  outside : ∀ who task, shared.tasks who = some task → shared.holder ≠ some who → task.Outside serve program
  inside : ∀ who, shared.holder = some who → ∃ task, shared.tasks who = some task ∧
    (program task.label).Leads serve task.used (serial serve program shared.log start) task.left shared.state
  log : ∀ i entry, shared.log[i]? = some entry → entry.outcome = ((program entry.label).run serve
    (Fates.follow entry.fates undisturbed) (serial serve program (shared.log.take i) start)).outcome

end Steps

variable {isLock : Call → Bool} {serve : (request : Call) → σ → Reply request × σ}
  {program : κ → Program Call Reply ε α} {start : σ} {shared next : State Call Reply ε σ α ι κ}

theorem serial_concat (log : List (Entry ε α ι κ)) (entry : Entry ε α ι κ) (state : σ) :
    serial serve program (log ++ [entry]) state = ((program entry.label).run serve
      (Fates.follow entry.fates undisturbed) (serial serve program log state)).state := by
  induction log generalizing state with
  | nil => rfl
  | cons first rest ih => exact ih _

namespace State.Serialized

theorem initial (start : σ) : (State.initial start : State Call Reply ε σ α ι κ).Serialized serve program start where
  free _ := rfl
  outside _ _ htask := by cases htask
  inside _ hholder := by cases hholder
  log _ _ hget := by cases hget

/-- A process that makes a call without holding the lock is asking for the lock. -/
theorem isLock_of_outside (h : shared.Serialized serve program start)
    (hguarded : ∀ label, Guarded isLock (program label))
    {who : ι} {label : κ} {used : List (Fate ε)} {request : Call}
    {rest : Except ε (Reply request) → Program Call Reply ε α}
    (htask : shared.tasks who = some ⟨label, used, .call request rest⟩) (hholder : shared.holder ≠ some who) :
    isLock request = true ∧ ∀ error, ∃ value, rest (.error error) = .done value := by
  have hprogram := hguarded label
  rcases (h.outside who _ htask hholder).left with hleft | ⟨value, hleft⟩
  · rw [← hleft] at hprogram
    exact hprogram
  · cases hleft

variable [DecidableEq ι]

variable {task : Task Call Reply ε α κ}

/-- What a running task has done: from the state the ended tasks left it leads to the present one if it holds the
lock, and to the same one if it does not. -/
theorem leads (h : shared.Serialized serve program start) {who : ι} (htask : shared.tasks who = some task) :
    (program task.label).Leads serve task.used (serial serve program shared.log start) task.left
      (if shared.holder = some who then shared.state else serial serve program shared.log start) := by
  split_ifs with hholder
  · obtain ⟨found, hfound, hleads⟩ := h.inside who hholder
    cases htask.symm.trans hfound
    exact hleads
  · exact (h.outside who task htask hholder).leads _

theorem finish (h : shared.Serialized serve program start) {entry : Entry ε α ι κ} {later : Fates ε}
    (hrun : (program entry.label).run serve (Fates.follow entry.fates undisturbed)
      (serial serve program shared.log start) = ⟨entry.outcome,
        if shared.holder = some entry.who then shared.state else serial serve program shared.log start, later⟩) :
    (shared.finish entry).Serialized serve program start := by
  have hserial : serial serve program (shared.log ++ [entry]) start =
      if shared.holder = some entry.who then shared.state else serial serve program shared.log start := by
    rw [serial_concat, hrun]
  have hkept : ∀ who, (if shared.holder = some entry.who then none else shared.holder) = some who →
      shared.holder = some who ∧ who ≠ entry.who := by
    intro who hholder
    split_ifs at hholder with hself
    refine ⟨hholder, ?_⟩
    rintro rfl
    exact hself hholder
  refine ⟨fun hfree => ?_, fun who task htask hholder => ?_, fun who hholder => ?_, fun i other hget => ?_⟩
  · change (if shared.holder = some entry.who then none else shared.holder) = none at hfree
    change shared.state = serial serve program (shared.log ++ [entry]) start
    rw [hserial]
    split_ifs at hfree ⊢ with hself
    · rfl
    · exact h.free hfree
  · change Function.update shared.tasks entry.who none who = some task at htask
    by_cases hwho : who = entry.who
    · subst hwho
      rw [Function.update_self] at htask
      cases htask
    · rw [Function.update_of_ne hwho] at htask
      refine h.outside who task htask fun hheld => hholder ?_
      change (if shared.holder = some entry.who then none else shared.holder) = some who
      rw [if_neg, hheld]
      rw [hheld]
      exact fun heq => hwho (Option.some.inj heq)
  · obtain ⟨hheld, hwho⟩ := hkept who hholder
    obtain ⟨task, htask, hleads⟩ := h.inside who hheld
    refine ⟨task, (Function.update_of_ne hwho ..).trans htask, ?_⟩
    change (program task.label).Leads serve task.used (serial serve program (shared.log ++ [entry]) start) task.left
      shared.state
    rw [hserial, if_neg (fun heq => hwho (Option.some.inj (hheld.symm.trans heq)))]
    exact hleads
  · change (shared.log ++ [entry])[i]? = some other at hget
    change other.outcome = ((program other.label).run serve (Fates.follow other.fates undisturbed)
      (serial serve program ((shared.log ++ [entry]).take i) start)).outcome
    rcases Nat.lt_or_ge i shared.log.length with hlt | hge
    · rw [List.getElem?_append_left hlt] at hget
      rw [List.take_append_of_le_length hlt.le]
      exact h.log i other hget
    · rw [List.getElem?_append_right hge, List.getElem?_singleton] at hget
      split_ifs at hget with hlast
      cases hget
      rw [show i = shared.log.length by omega, List.take_left, hrun]

theorem put_outside (h : shared.Serialized serve program start) {who : ι} (hholder : shared.holder ≠ some who)
    (htask : task.Outside serve program) : (shared.put who task).Serialized serve program start := by
  refine ⟨h.free, fun other found hfound hother => ?_, fun other hother => ?_, h.log⟩
  · change Function.update shared.tasks who (some task) other = some found at hfound
    by_cases hsame : other = who
    · subst hsame
      rw [Function.update_self] at hfound
      cases hfound
      exact htask
    · rw [Function.update_of_ne hsame] at hfound
      exact h.outside other found hfound hother
  · obtain ⟨found, hfound, hleads⟩ := h.inside other hother
    have hsame : other ≠ who := by
      rintro rfl
      exact hholder hother
    exact ⟨found, (Function.update_of_ne hsame ..).trans hfound, hleads⟩

theorem put_inside (h : shared.Serialized serve program start) {who : ι} {reached : σ}
    (hholder : shared.holder = none ∨ shared.holder = some who)
    (hleads : (program task.label).Leads serve task.used (serial serve program shared.log start) task.left reached) :
    State.Serialized serve program start
      ⟨Function.update shared.tasks who (some task), some who, reached, shared.log⟩ := by
  refine ⟨fun hfree => (by cases hfree), fun other found hfound hother => ?_, fun other hother => ?_, h.log⟩
  · have hsame : other ≠ who := by
      rintro rfl
      exact hother rfl
    change Function.update shared.tasks who (some task) other = some found at hfound
    rw [Function.update_of_ne hsame] at hfound
    refine h.outside other found hfound fun hheld => ?_
    rcases hholder with hfree | hself
    · rw [hfree] at hheld
      cases hheld
    · exact hsame (Option.some.inj (hheld.symm.trans hself))
  · cases hother
    exact ⟨task, Function.update_self .., hleads⟩

theorem answer (h : shared.Serialized serve program start) (hguarded : ∀ label, Guarded isLock (program label))
    {who : ι} {label : κ} {used : List (Fate ε)} {request : Call}
    {rest : Except ε (Reply request) → Program Call Reply ε α}
    (htask : shared.tasks who = some ⟨label, used, .call request rest⟩)
    (hanswer : shared.answer isLock serve who label used request rest = some next) :
    next.Serialized serve program start := by
  have hleads := h.leads htask
  by_cases hholder : shared.holder = some who
  · rw [if_pos hholder] at hleads
    let task : Task Call Reply ε α κ := ⟨label, used ++ [.serve], rest (.ok (serve request shared.state).1)⟩
    have hnext : next = ⟨Function.update shared.tasks who (some task), some who, (serve request shared.state).2,
        shared.log⟩ := by
      rw [State.answer] at hanswer
      dsimp only at hanswer
      split_ifs at hanswer with hlock hfree
      · exact (Option.some.inj hanswer).symm
      · rw [← Option.some.inj hanswer, ← hholder]
        rfl
    rw [hnext]
    exact h.put_inside (.inr hholder) hleads.served
  · obtain ⟨hlock, -⟩ := h.isLock_of_outside hguarded htask hholder
    rw [State.answer] at hanswer
    dsimp only at hanswer
    rw [if_pos hlock] at hanswer
    split_ifs at hanswer with hfree
    cases hanswer
    have hnone := hfree.resolve_right hholder
    rw [if_neg hholder, ← h.free hnone] at hleads
    refine h.put_inside hfree ?_
    rw [← h.free hnone]
    exact hleads.served

/-- Every step keeps the order of the tasks. -/
theorem step (h : shared.Serialized serve program start) (hguarded : ∀ label, Guarded isLock (program label))
    {event : Event ε ι κ} (hstep : Lock.step isLock serve program shared event = some next) :
    next.Serialized serve program start := by
  cases event with
  | starts who label =>
      simp only [Lock.step] at hstep
      split at hstep
      · rename_i hnone
        cases hstep
        refine h.put_outside (fun hholder => ?_) ⟨fun _ => Program.leads_nil, .inl rfl⟩
        obtain ⟨task, htask, -⟩ := h.inside who hholder
        rw [hnone] at htask
        cases htask
      · cases hstep
  | calls who fate =>
      simp only [Lock.step] at hstep
      split at hstep
      · rename_i label used request rest htask
        have hleads := h.leads htask
        cases fate with
        | serve => exact h.answer hguarded htask hstep
        | fail error =>
            cases hstep
            by_cases hholder : shared.holder = some who
            · rw [if_pos hholder] at hleads
              have hinside : State.Serialized serve program start ⟨Function.update shared.tasks who
                  (some ⟨label, used ++ [.fail error], rest (.error error)⟩), some who, shared.state, shared.log⟩ :=
                h.put_inside (.inr hholder) (hleads.failed error)
              rw [← hholder] at hinside
              exact hinside
            · obtain ⟨-, hgives⟩ := h.isLock_of_outside hguarded htask hholder
              exact h.put_outside hholder
                ⟨fun state => ((h.outside who _ htask hholder).leads state).failed error, .inr (hgives error)⟩
        | kill =>
            cases hstep
            exact h.finish (hleads.run_of_kill undisturbed)
      · cases hstep
  | ends who =>
      simp only [Lock.step] at hstep
      split at hstep
      · rename_i label used value htask
        cases hstep
        exact h.finish ((h.leads htask).run_of_done undisturbed)
      · cases hstep

end State.Serialized

variable [DecidableEq ι]

def Event.started (who : ι) : Event ε ι κ → Option κ
  | .starts other label => if other = who then some label else none
  | .calls .. | .ends _ => none

/-- The tasks of a process: those that ended, in their order, and the one that runs. -/
def State.tasksOf (shared : State Call Reply ε σ α ι κ) (who : ι) : List κ :=
  (shared.log.filter fun entry => entry.who = who).map Entry.label ++ ((shared.tasks who).map Task.label).toList

/-- Every task that was started runs or has ended, once, and in the order of its process. -/
def Kept (events : List (Event ε ι κ)) (shared : State Call Reply ε σ α ι κ) : Prop :=
  ∀ who, shared.tasksOf who = events.filterMap (Event.started who)

theorem tasksOf_put (shared : State Call Reply ε σ α ι κ) {who : ι} {before after : Task Call Reply ε α κ}
    (htask : shared.tasks who = some before) (hlabel : after.label = before.label) (other : ι) :
    (shared.put who after).tasksOf other = shared.tasksOf other := by
  by_cases hsame : other = who
  · subst hsame
    simp [State.tasksOf, State.put, htask, hlabel]
  · simp [State.tasksOf, State.put, Function.update_of_ne hsame]

theorem tasksOf_finish (shared : State Call Reply ε σ α ι κ) {entry : Entry ε α ι κ} {task : Task Call Reply ε α κ}
    (htask : shared.tasks entry.who = some task) (hlabel : task.label = entry.label) (other : ι) :
    (shared.finish entry).tasksOf other = shared.tasksOf other := by
  by_cases hsame : other = entry.who
  · subst hsame
    simp [State.tasksOf, State.finish, htask, hlabel]
  · simp [State.tasksOf, State.finish, Function.update_of_ne hsame, Ne.symm hsame]

theorem tasksOf_answer {who : ι} {label : κ} {used : List (Fate ε)} {request : Call}
    {rest : Except ε (Reply request) → Program Call Reply ε α}
    (htask : shared.tasks who = some ⟨label, used, .call request rest⟩)
    (hanswer : shared.answer isLock serve who label used request rest = some next) (other : ι) :
    next.tasksOf other = shared.tasksOf other := by
  rw [State.answer] at hanswer
  dsimp only at hanswer
  split_ifs at hanswer with hlock hfree
  · rw [← Option.some.inj hanswer]
    exact tasksOf_put shared htask (by rfl) other
  · rw [← Option.some.inj hanswer]
    exact tasksOf_put shared htask (by rfl) other

theorem Kept.step {events : List (Event ε ι κ)} {event : Event ε ι κ} (h : Kept events shared)
    (hstep : step isLock serve program shared event = some next) : Kept (events ++ [event]) next := by
  intro other
  rw [List.filterMap_append, ← h other]
  cases event with
  | starts who label =>
      simp only [Lock.step] at hstep
      split at hstep
      · rename_i hnone
        cases hstep
        by_cases hsame : other = who
        · subst hsame
          simp [State.tasksOf, State.put, Event.started, hnone]
        · simp [State.tasksOf, State.put, Event.started, Function.update_of_ne hsame, Ne.symm hsame]
      · cases hstep
  | calls who fate =>
      simp only [Lock.step] at hstep
      split at hstep
      · rename_i label used request rest htask
        rw [List.filterMap_cons_none rfl, List.filterMap_nil, List.append_nil]
        cases fate with
        | serve => exact tasksOf_answer htask hstep other
        | fail error =>
            cases hstep
            exact tasksOf_put shared htask (by rfl) other
        | kill =>
            cases hstep
            exact tasksOf_finish shared htask rfl other
      · cases hstep
  | ends who =>
      simp only [Lock.step] at hstep
      split at hstep
      · rename_i label used value htask
        cases hstep
        rw [List.filterMap_cons_none rfl, List.filterMap_nil, List.append_nil]
        exact tasksOf_finish shared htask rfl other
      · cases hstep

/-- After any run the ended tasks are in order, and together with the running ones they are all that were started. -/
theorem run_serialized (hguarded : ∀ label, Guarded isLock (program label)) {events : List (Event ε ι κ)}
    (hrun : EventMachine.run (step isLock serve program) events (.initial start) = some shared) :
    shared.Serialized serve program start ∧ Kept events shared := by
  let Inv (done : List (Event ε ι κ)) (state : State Call Reply ε σ α ι κ) : Prop :=
    state.Serialized serve program start ∧ Kept done state
  have hstep : ∀ {done state event later}, Inv done state → True → step isLock serve program state event = some later →
      Inv (done ++ [event]) later :=
    fun hinv _ hlater => ⟨hinv.1.step hguarded hlater, hinv.2.step hlater⟩
  have hstart : Inv [] (.initial start) := ⟨.initial start, fun _ => rfl⟩
  exact EventMachine.run_induction hstep hstart (fun _ _ => trivial) hrun

end Lock

end Effect
