import WincredLibsecret.DistributionKey

/-! The callback of the plugin for a distribution that starts: it reads the flag of the distribution in the registry
of the user and, if it is set, starts the refresh unit in the distribution. Whatever goes wrong is reported to the
trace and not to the caller. -/

namespace WincredLibsecret.Plugin

inductive DiagnosticOperation where
  | invalidCallbackArguments
  | enablementLookup
  | refreshLaunch
  | unhandledException
  | enablementState
  | refreshLaunchResult
  deriving DecidableEq

/-- What the callback does that can be seen from outside. -/
inductive CallbackStep where
  | providerFailure (operation : DiagnosticOperation) (status : UInt32)
  | providerState (operation : DiagnosticOperation) (status : UInt32)
  | executeBinary (session : UInt32) (guid : Guid) (path : String) (arguments : List String)
  deriving DecidableEq

def sFalse : UInt32 := 1

def eFail : UInt32 := 0x80004005

def eInvalidArg : UInt32 := 0x80070057

def eNoInterface : UInt32 := 0x80004002

def failed (status : UInt32) : Bool := 0x80000000 ≤ status

def systemctlPath : String := "/usr/bin/systemctl"

def systemctlArguments : List String := [systemctlPath, "--no-block", "start", "wincred-libsecret-refresh.service"]

/-- What the callback is given and what it meets: the session and the distribution, unless the pointer is null; the
error that stops it before the flag of the distribution can be looked up, if there is one; whether the lookup
throws; and the function that starts a program, unless it is null, with its status and whether it gave a socket,
unless it throws. -/
structure Surroundings where
  session : Option UInt32
  distribution : Option Guid
  fault : Option UInt32
  throws : Bool
  execute : Option (Option (UInt32 × Bool))

/-- A launch that gave a socket is waited for and then counts as plainly successful. -/
def launchStatus (result : UInt32 × Bool) : UInt32 := if failed result.1 || !result.2 then result.1 else sOk

/-- The status of a launch, unless an exception leaves it, and what it does. -/
def start (execute : Option (Option (UInt32 × Bool))) (session : UInt32) (guid : Guid) :
    Option UInt32 × List CallbackStep :=
  match execute with
  | none => (some eNoInterface, [])
  | some result => (result.map launchStatus, [.executeBinary session guid systemctlPath systemctlArguments])

def readEnablement (surroundings : Surroundings) (registry : Registry) (guid : Guid) : Option EnablementResult :=
  match surroundings.fault with
  | some status => some ⟨false, hresultFromWin32 status⟩
  | none => if surroundings.throws then none else some (read registry guid)

/-- The status the callback answers is always `S_OK`. -/
def handleDistributionStarted (surroundings : Surroundings) (registry : Registry) : List CallbackStep :=
  match surroundings.session, surroundings.distribution with
  | some session, some guid =>
      match readEnablement surroundings registry guid with
      | none => [.providerFailure .unhandledException eFail]
      | some enablement =>
          if failed enablement.status then [.providerFailure .enablementLookup enablement.status]
          else
            .providerState .enablementState (if enablement.enabled then sOk else sFalse) ::
              if enablement.enabled then
                let (status, steps) := start surroundings.execute session guid
                match status with
                | none => steps ++ [.providerFailure .unhandledException eFail]
                | some status =>
                    steps ++ .providerState .refreshLaunchResult status ::
                      if failed status then [.providerFailure .refreshLaunch status] else []
              else []
  | _, _ => [.providerFailure .invalidCallbackArguments eInvalidArg]

/-- The distributions in which the callback starts a program. -/
def launchesOf (steps : List CallbackStep) : List Guid := steps.filterMap fun step =>
  match step with
  | .executeBinary _ guid _ _ => some guid
  | .providerFailure _ _ | .providerState _ _ => none

variable {registry : Registry} {surroundings : Surroundings}

theorem read_of_enabled {guid : Guid} (h : (read registry guid).enabled = true) : read registry guid = ⟨true, sOk⟩ := by
  rw [read] at h ⊢
  split at h
  · cases h
  · rename_i values hkey
    split at h
    · cases h
    · rename_i value hvalue
      split_ifs at h ⊢ with hlong htype
      · dsimp only at h
        rw [h]

theorem readEnablement_of_enabled {guid : Guid} {enablement : EnablementResult}
    (h : readEnablement surroundings registry guid = some enablement) (henabled : enablement.enabled = true) :
    read registry guid = ⟨true, sOk⟩ := by
  rw [readEnablement] at h
  split at h
  · cases h
    cases henabled
  · split_ifs at h
    cases h
    exact read_of_enabled henabled

/-- A program is started only in the distribution that starts, and only if its flag is set. -/
theorem enabled_of_mem_launchesOf {guid : Guid}
    (h : guid ∈ launchesOf (handleDistributionStarted surroundings registry)) :
    surroundings.distribution = some guid ∧ read registry guid = ⟨true, sOk⟩ := by
  rw [handleDistributionStarted] at h
  split at h
  · rename_i session found hsession hdistribution
    split at h
    · cases h
    · rename_i enablement henablement
      split_ifs at h with hfailed henabled
      · cases h
      · have hread := readEnablement_of_enabled henablement henabled
        have hsame : guid = found := by
          cases hexecute : surroundings.execute with
          | none => simp [hexecute, start, launchesOf, failed, eNoInterface] at h
          | some result =>
              cases result with
              | none => simpa [hexecute, start, launchesOf] using h
              | some result =>
                  by_cases hlaunch : failed (launchStatus result) = true
                  · simpa [hexecute, start, launchesOf, hlaunch] using h
                  · simpa [hexecute, start, launchesOf, hlaunch] using h
        subst hsame
        exact ⟨hdistribution, hread⟩
      · cases h
  · cases h

/-- Where nothing stands in the way, a set flag starts the unit in the distribution and a missing one does not. -/
theorem launchesOf_handleDistributionStarted {guid : Guid} {session : UInt32} {result : UInt32 × Bool} {enabled : Bool}
    (hsession : surroundings.session = some session) (hdistribution : surroundings.distribution = some guid)
    (hfault : surroundings.fault = none) (hthrows : surroundings.throws = false)
    (hexecute : surroundings.execute = some (some result)) (hread : read registry guid = ⟨enabled, sOk⟩) :
    launchesOf (handleDistributionStarted surroundings registry) = if enabled then [guid] else [] := by
  have hlookup : readEnablement surroundings registry guid = some ⟨enabled, sOk⟩ := by
    rw [readEnablement, hfault, hthrows, ← hread]
    rfl
  rw [handleDistributionStarted, hsession, hdistribution]
  dsimp only
  rw [hlookup]
  cases enabled with
  | false => rfl
  | true =>
      rw [hexecute]
      have hok : failed sOk = false := rfl
      by_cases hlaunch : failed (launchStatus result) = true
      · simp [start, launchesOf, hlaunch, hok]
      · simp [start, launchesOf, hlaunch, hok]

end WincredLibsecret.Plugin
