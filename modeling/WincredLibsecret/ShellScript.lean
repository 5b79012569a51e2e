import WincredLibsecret.EffectAction

/-! Scripts that stop at the first failing command. A command takes its whole effect or fails without any; the
script reads the world between two commands, and a read cannot fail. A script stops where a command fails, be it
refused by the world or failed by the run, or where it gives up with a message. -/

namespace Shell

open Effect

/-- Why a script stopped before its end. -/
inductive Exit (Command : Type) where
  | failed (command : Command)
  | died (message : String)
  deriving DecidableEq

abbrev Script (Command World : Type) := Action Command (fun _ => Option World) Unit (Exit Command)

variable {Command World α β : Type}

/-- The commands as a service over the world, from the effect of those the world does not refuse. -/
def serve (effect : Command → World → Option World) (command : Command) (world : World) : Option World × World :=
  (effect command world, (effect command world).getD world)

/-- Runs a command and reads the world behind it. -/
def run (command : Command) : Script Command World World := do
  let reply ← Action.perform (fun _ => Exit.failed command) command
  Action.ofExcept (reply.elim (.error (.failed command)) .ok)

/-- Gives up with the message of a check that does not pass. -/
def orDie (result : Except String α) : Script Command World α := Action.ofExcept (result.mapError .died)

variable {effect : Command → World → Option World} {faults : Unit → Prop} {err : Exit Command → World → Prop}
  {crash : World → Prop} {world : World}

variable {ok : World → World → Prop}

@[simp] theorem wp_run {command : Command} :
    Action.wp (serve effect) faults (run command) ok err crash world ↔
      crash world ∧ (faults () ∨ effect command world = none → err (.failed command) world) ∧
        ∀ next, effect command world = some next → crash next ∧ ok next next := by
  rw [run, Action.wp_bind, Action.wp_perform]
  cases heffect : effect command world with
  | none => simp [serve, heffect, Action.either]; tauto
  | some next => simp [serve, heffect, Action.either]; tauto

/-- The rule for a command that the world does not refuse. -/
theorem wp_run_of_effect {command : Command} {next : World} (heffect : effect command world = some next)
    (hstart : crash world) (herr : err (.failed command) world) (hcrash : crash next) (hok : ok next next) :
    Action.wp (serve effect) faults (run command) ok err crash world := by
  refine wp_run.mpr ⟨hstart, fun _ => herr, fun other hother => ?_⟩
  cases heffect.symm.trans hother
  exact ⟨hcrash, hok⟩

/-- The same in a run in which no other command fails. -/
theorem wp_run_undisturbed {command : Command} {next : World} (heffect : effect command world = some next)
    (hstart : crash world) (hcrash : crash next) (hok : ok next next) :
    Action.wp (serve effect) (fun _ => False) (run command) ok err crash world := by
  refine wp_run.mpr ⟨hstart, fun hfails => ?_, fun other hother => ?_⟩
  · rcases hfails with hfault | hrefused
    · exact hfault.elim
    · cases heffect.symm.trans hrefused
  · cases heffect.symm.trans hother
    exact ⟨hcrash, hok⟩

@[simp] theorem wp_orDie {result : Except String α} {ok : α → World → Prop} :
    Action.wp (serve effect) faults (orDie result) ok err crash world ↔
      crash world ∧ (∀ value, result = .ok value → ok value world) ∧
        ∀ message, result = .error message → err (.died message) world := by
  rw [orDie, Action.wp_ofExcept]
  cases result <;> simp [Except.mapError, Action.either]

/-- A script that stopped at a command stopped at one with the property. -/
def Exit.Within (P : Command → Prop) : Exit Command → Prop
  | .failed command => P command
  | .died _ => True

/-- Every command the program can run or stop at has the property. -/
def MakesOnly (P : Command → Prop) : Program Command (fun _ => Option World) Unit (Except (Exit Command) α) → Prop
  | .done (.ok _) => True
  | .done (.error exit) => exit.Within P
  | .call command next => P command ∧ ∀ reply, MakesOnly P (next reply)

/-- Every command the script can run or stop at has the property. -/
def Makes (P : Command → Prop) (script : Script Command World α) : Prop := MakesOnly P script.run

section Makes

variable {P : Command → Prop}

theorem makes_pure (value : α) : Makes P (pure value : Script Command World α) := trivial

theorem makesOnly_bind {program : Program Command (fun _ => Option World) Unit (Except (Exit Command) α)}
    {next : Except (Exit Command) α → Program Command (fun _ => Option World) Unit (Except (Exit Command) β)}
    (hfirst : MakesOnly P program) (hok : ∀ value, MakesOnly P (next (.ok value)))
    (herror : ∀ exit, exit.Within P → MakesOnly P (next (.error exit))) : MakesOnly P (program >>= next) := by
  induction program with
  | done result =>
      cases result with
      | ok value => exact hok value
      | error exit => exact herror exit hfirst
  | call command rest ih => exact ⟨hfirst.1, fun reply => ih reply (hfirst.2 reply)⟩

variable {script : Script Command World α}

theorem makes_bind {next : α → Script Command World β} (hfirst : Makes P script)
    (hnext : ∀ value, Makes P (next value)) : Makes P (script >>= next) :=
  makesOnly_bind hfirst hnext fun _ hexit => hexit

theorem makes_run {command : Command} (h : P command) : Makes P (run command : Script Command World World) :=
  makes_bind ⟨h, fun reply => by cases reply <;> first | exact h | trivial⟩ fun reply => by
    cases reply <;> first | exact h | trivial

theorem Makes.imp {Q : Command → Prop} (himp : ∀ command, P command → Q command) (h : Makes P script) :
    Makes Q script := by
  have hprogram : ∀ program : Program Command (fun _ => Option World) Unit (Except (Exit Command) α),
      MakesOnly P program → MakesOnly Q program := by
    intro program
    induction program with
    | done result =>
        intro h
        cases result with
        | ok value => trivial
        | error exit =>
            cases exit with
            | failed command => exact himp command h
            | died message => trivial
    | call command next ih => exact fun h => ⟨himp command h.1, fun reply => ih reply (h.2 reply)⟩
  exact hprogram script.run h

/-- What the commands of a script keep holds wherever the script stops. -/
theorem wp_of_makes {inv : World → Prop}
    (hkeep : ∀ command world next, P command → effect command world = some next → inv world → inv next)
    (hmakes : Makes P script) (hinv : inv world) :
    Action.wp (serve effect) faults script (fun _ => inv) (fun exit world => exit.Within P ∧ inv world) inv world := by
  have hprogram : ∀ (program : Program Command (fun _ => Option World) Unit (Except (Exit Command) α)) (world : World),
      MakesOnly P program → inv world →
        Program.wp (serve effect) faults program
          (Action.either (fun _ => inv) fun exit world => exit.Within P ∧ inv world) inv world := by
    intro program
    induction program with
    | done result =>
        intro world hmakes hinv
        cases result with
        | ok value => exact ⟨hinv, hinv⟩
        | error exit => exact ⟨hinv, hmakes, hinv⟩
    | call command next ih =>
        intro world hmakes hinv
        refine ⟨hinv, fun error _ => ih _ world (hmakes.2 _) hinv, ih _ _ (hmakes.2 _) ?_⟩
        cases heffect : effect command world with
        | none => simpa [serve, heffect] using hinv
        | some next => simpa [serve, heffect] using hkeep command world next hmakes.1 heffect hinv
  exact hprogram script.run world hmakes hinv

end Makes

end Shell
