import WincredLibsecret.EffectAction
import WincredLibsecret.ProtocolTarget

/-! The credential store behind the broker. A vault maps target texts to blobs; a backend answers the
five calls of the storage trait over it. The order in which an enumeration lists the credentials is
the backend's own, so it is a parameter, and so is the error of a failed call, apart from its code:
the backends of the project report an access violation, an unavailable store, an internal error, an
oversized blob or a busy vault, and nothing else. -/

namespace WincredLibsecret

open Effect

/-- Credential blobs by the text of their target. -/
abbrev Vault := BTreeMap String Blob

/-- The codes a storage backend reports. -/
inductive BackendErrorCode where
  | permissionDenied
  | backendUnavailable
  | internal
  | secretTooLarge
  | conflict
  deriving DecidableEq

def BackendErrorCode.toErrorCode : BackendErrorCode → ErrorCode
  | .permissionDenied => .permissionDenied
  | .backendUnavailable => .backendUnavailable
  | .internal => .internal
  | .secretTooLarge => .secretTooLarge
  | .conflict => .conflict

structure BackendError where
  code : BackendErrorCode
  message : String
  deriving DecidableEq

def BackendError.toBrokerError (error : BackendError) : BrokerError :=
  ⟨error.code.toErrorCode, error.message⟩

theorem BackendError.code_ne_corruptState (error : BackendError) :
    error.toBrokerError.code ≠ .corruptState := by
  rcases error with ⟨code, message⟩
  cases code <;> simp [toBrokerError, BackendErrorCode.toErrorCode]

theorem BackendError.code_ne_notFound (error : BackendError) :
    error.toBrokerError.code ≠ .notFound := by
  rcases error with ⟨code, message⟩
  cases code <;> simp [toBrokerError, BackendErrorCode.toErrorCode]

/-- A storage backend, up to the order in which it enumerates. -/
structure VaultBackend where
  order : Vault → List (String × Blob)
  order_perm : ∀ vault, (order vault).Perm vault.toList

/-- The backend that lists credentials in the order of their targets. -/
def inMemoryBackend : VaultBackend where
  order := fun vault => vault.toList
  order_perm := fun vault => List.Perm.refl vault.toList

inductive VaultCall where
  | acquireLock
  | read (target : TargetName)
  | write (target : TargetName) (blob : Blob)
  | delete (target : TargetName)
  | enumerate
  deriving DecidableEq

def VaultReply : VaultCall → Type
  | .acquireLock => Unit
  | .read _ => Option Blob
  | .write _ _ => Unit
  | .delete _ => Unit
  | .enumerate => List (String × Blob)

namespace Vault

def lookup (vault : Vault) (target : TargetName) : Option Blob := vault[target.toString]?

def put (vault : Vault) (target : TargetName) (blob : Blob) : Vault := vault.insert target.toString blob

def drop (vault : Vault) (target : TargetName) : Vault := vault.erase target.toString

@[simp] theorem lookup_empty (target : TargetName) : lookup ∅ target = none := by
  simp [lookup]

theorem lookup_put (vault : Vault) (target other : TargetName) (blob : Blob) :
    lookup (put vault target blob) other = if target = other then some blob else lookup vault other := by
  by_cases h : target = other
  · simp [lookup, put, h]
  · have htext : target.toString ≠ other.toString := fun heq => h (TargetName.toString_injective heq)
    simp [lookup, put, h, htext, Std.ExtTreeMap.getElem?_insert]

theorem lookup_drop (vault : Vault) (target other : TargetName) :
    lookup (drop vault target) other = if target = other then none else lookup vault other := by
  by_cases h : target = other
  · simp [lookup, drop, h]
  · have htext : target.toString ≠ other.toString := fun heq => h (TargetName.toString_injective heq)
    simp [lookup, drop, h, htext, Std.ExtTreeMap.getElem?_erase]

@[simp] theorem lookup_put_self (vault : Vault) (target : TargetName) (blob : Blob) :
    lookup (put vault target blob) target = some blob := by
  rw [lookup_put, if_pos rfl]

variable {vault : Vault} {target : TargetName}

theorem lookup_put_of_ne {other : TargetName} {blob : Blob} (h : target ≠ other) :
    lookup (put vault target blob) other = lookup vault other := by
  rw [lookup_put, if_neg h]

@[simp] theorem lookup_drop_self (vault : Vault) (target : TargetName) :
    lookup (drop vault target) target = none := by
  rw [lookup_drop, if_pos rfl]

theorem lookup_drop_of_ne {other : TargetName} (h : target ≠ other) :
    lookup (drop vault target) other = lookup vault other := by
  rw [lookup_drop, if_neg h]

/-- The second vault is what is left of the first after some credentials were deleted. -/
def Shrinks (vault rest : Vault) : Prop :=
  ∀ target, rest.lookup target = vault.lookup target ∨ rest.lookup target = none

theorem Shrinks.refl (vault : Vault) : vault.Shrinks vault := fun _ => .inl rfl

theorem Shrinks.drop {rest : Vault} (h : vault.Shrinks rest) (target : TargetName) :
    vault.Shrinks (rest.drop target) := by
  intro other
  rw [lookup_drop]
  split_ifs
  · exact .inr rfl
  · exact h other

theorem Shrinks.trans {middle rest : Vault} (h : vault.Shrinks middle) (h' : middle.Shrinks rest) :
    vault.Shrinks rest := by
  intro target
  rcases h' target with hsame | hnone
  · rw [hsame]
    exact h target
  · exact .inr hnone

theorem Shrinks.lookup_eq_some {rest : Vault} (h : vault.Shrinks rest) {blob : Blob}
    (hrest : rest.lookup target = some blob) : vault.lookup target = some blob :=
  (h target).elim (fun hsame => hsame ▸ hrest) fun hnone => absurd (hnone.symm.trans hrest) nofun

theorem Shrinks.lookup_eq_none {rest : Vault} (h : vault.Shrinks rest) (hvault : vault.lookup target = none) :
    rest.lookup target = none :=
  (h target).elim (fun hsame => hsame.trans hvault) fun hnone => hnone

end Vault

/-- An enumeration lists names with the project prefix and leaves out the blobs of secrets. -/
def enumerated (entry : String × Blob) : Option (String × Blob) :=
  if credentialPrefix.toList <+: entry.1.toList then
    match TargetName.fromStr entry.1 with
    | .ok (.itemSecret _ _) => some (entry.1, [])
    | _ => some entry
  else none

def VaultBackend.enumerate (backend : VaultBackend) (vault : Vault) : List (String × Blob) :=
  (backend.order vault).filterMap enumerated

/-- What a served call answers and leaves behind. A delete of a missing target succeeds. -/
def VaultBackend.serve (backend : VaultBackend) : (request : VaultCall) → Vault → VaultReply request × Vault
  | .acquireLock, vault => ((), vault)
  | .read target, vault => (vault.lookup target, vault)
  | .write target blob, vault => ((), vault.put target blob)
  | .delete target, vault => ((), vault.drop target)
  | .enumerate, vault => (backend.enumerate vault, vault)

/-- The calls that leave every credential as it is. -/
def VaultCall.IsReading : VaultCall → Prop
  | .acquireLock | .read _ | .enumerate => True
  | .write _ _ | .delete _ => False

theorem VaultBackend.serve_of_isReading (backend : VaultBackend) (request : VaultCall) (h : request.IsReading)
    (vault : Vault) : (backend.serve request vault).2 = vault := by
  cases request with
  | acquireLock | read | enumerate => rfl
  | write | delete => exact h.elim

/-- The calls that write nothing. -/
def VaultCall.IsShrinking : VaultCall → Prop
  | .acquireLock | .read _ | .enumerate | .delete _ => True
  | .write _ _ => False

theorem VaultCall.IsReading.isShrinking {request : VaultCall} (h : request.IsReading) : request.IsShrinking := by
  cases request with
  | acquireLock | read | enumerate => trivial
  | write | delete => exact h.elim

theorem VaultBackend.serve_of_isShrinking (backend : VaultBackend) (vault : Vault) (request : VaultCall)
    (h : request.IsShrinking) (rest : Vault) (hrest : vault.Shrinks rest) :
    vault.Shrinks (backend.serve request rest).2 := by
  cases request with
  | acquireLock | read | enumerate => exact hrest
  | delete target => exact hrest.drop target
  | write => exact h.elim

/-- A computation of the broker over its backend. -/
abbrev BrokerAction := Action VaultCall VaultReply BackendError BrokerError

/-- One call of the backend. Its failure is the failure of the computation. -/
def callBackend (request : VaultCall) : BrokerAction (VaultReply request) :=
  Action.perform BackendError.toBrokerError request

def acquireLock : BrokerAction Unit := callBackend .acquireLock

def readCredential (target : TargetName) : BrokerAction (Option Blob) := callBackend (.read target)

def writeCredential (target : TargetName) (blob : Blob) : BrokerAction Unit := callBackend (.write target blob)

def deleteCredential (target : TargetName) : BrokerAction Unit := callBackend (.delete target)

def enumerateCredentials : BrokerAction (List (String × Blob)) := callBackend .enumerate

section Rules

variable {backend : VaultBackend} {faults : BackendError → Prop} {err : BrokerError → Vault → Prop}
  {crash : Vault → Prop} {vault : Vault}

variable {ok : Unit → Vault → Prop}

@[simp] theorem wp_acquireLock :
    Action.wp backend.serve faults acquireLock ok err crash vault ↔
      crash vault ∧ (∀ error, faults error → err error.toBrokerError vault) ∧ ok () vault := by
  refine Iff.trans Action.wp_perform ?_
  simp only [VaultBackend.serve]
  tauto

@[simp] theorem wp_readCredential {target : TargetName} {ok : Option Blob → Vault → Prop} :
    Action.wp backend.serve faults (readCredential target) ok err crash vault ↔
      crash vault ∧ (∀ error, faults error → err error.toBrokerError vault) ∧
        ok (vault.lookup target) vault := by
  refine Iff.trans Action.wp_perform ?_
  simp only [VaultBackend.serve]
  tauto

@[simp] theorem wp_writeCredential {target : TargetName} {blob : Blob} :
    Action.wp backend.serve faults (writeCredential target blob) ok err crash vault ↔
      crash vault ∧ (∀ error, faults error → err error.toBrokerError vault) ∧
        crash (vault.put target blob) ∧ ok () (vault.put target blob) :=
  Action.wp_perform

@[simp] theorem wp_deleteCredential {target : TargetName} :
    Action.wp backend.serve faults (deleteCredential target) ok err crash vault ↔
      crash vault ∧ (∀ error, faults error → err error.toBrokerError vault) ∧
        crash (vault.drop target) ∧ ok () (vault.drop target) :=
  Action.wp_perform

@[simp] theorem wp_enumerateCredentials {ok : List (String × Blob) → Vault → Prop} :
    Action.wp backend.serve faults enumerateCredentials ok err crash vault ↔
      crash vault ∧ (∀ error, faults error → err error.toBrokerError vault) ∧
        ok (backend.enumerate vault) vault := by
  refine Iff.trans Action.wp_perform ?_
  simp only [VaultBackend.serve]
  tauto

end Rules

end WincredLibsecret
