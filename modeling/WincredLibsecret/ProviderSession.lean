import WincredLibsecret.ProtocolTarget

/-! What the provider keeps apart from the broker: the object paths of its D-Bus objects, its errors, and
the sessions through which clients hand secrets over. The block cipher of an encrypted session is a
parameter. -/

namespace WincredLibsecret

open TextCodec

def servicePath : String := "/org/freedesktop/secrets"

def compatPromptPath : String := "/org/freedesktop/secrets/prompt/compatibility"

def segment (marker : Char) (id : Uuid) : String := String.ofList (marker :: id.digits)

def collectionPath (id : Uuid) : String := servicePath ++ "/collection/" ++ segment 'c' id

def itemPath (id : Uuid) : String := servicePath ++ "/item/" ++ segment 'i' id

def sessionPath (id : Uuid) : String := servicePath ++ "/session/" ++ segment 's' id

/-- Only names that can stand in an object path have one. -/
def aliasPath (name : String) : Option String :=
  if name ≠ "" ∧ name.toList.all (fun c => c.isAlphanum || c = '_') then some (servicePath ++ "/aliases/" ++ name)
  else none

def parsePath (path kind : String) (marker : Char) : Option Uuid :=
  let start := (servicePath ++ "/" ++ kind ++ "/").toList ++ [marker]
  if start <+: path.toList then
    let value := path.toList.drop start.length
    if value.length = 32 ∧ value.all (fun c => (TextCodec.hexValue c).isSome) then Uuid.parseStr (String.ofList value)
    else none
  else none

def collectionId (path : String) : Option Uuid := parsePath path "collection" 'c'

def itemId (path : String) : Option Uuid := parsePath path "item" 'i'

def sessionId (path : String) : Option Uuid := parsePath path "session" 's'

theorem isSome_hexValue_of_mem {width n : Nat} {c : Char} (h : c ∈ hexDigits width n) : (hexValue c).isSome := by
  induction width generalizing n with
  | zero => cases h
  | succ width ih =>
      rw [hexDigits, List.mem_append, List.mem_singleton] at h
      rcases h with h | rfl
      · exact ih h
      · rw [hexValue_digitChar ⟨n % 16, Nat.mod_lt _ (by decide)⟩]
        rfl

theorem parsePath_eq_some {path kind : String} {marker : Char} (id : Uuid)
    (h : path = servicePath ++ "/" ++ kind ++ "/" ++ segment marker id) : parsePath path kind marker = some id := by
  have hpath : path.toList = ((servicePath ++ "/" ++ kind ++ "/").toList ++ [marker]) ++ id.digits := by
    rw [h, segment, String.toList_append, String.toList_ofList, List.append_assoc, List.singleton_append]
  have hall : id.digits.all (fun c => (hexValue c).isSome) = true :=
    List.all_eq_true.mpr fun c hc => isSome_hexValue_of_mem hc
  rw [parsePath, hpath]
  simp only [List.prefix_append, if_true, List.drop_left, id.length_digits, hall, and_self]
  rw [Uuid.parseStr, String.toList_ofList, if_pos id.length_digits, Uuid.ofDigits_digits]

theorem sessionId_sessionPath (id : Uuid) : sessionId (sessionPath id) = some id := parsePath_eq_some id rfl

theorem itemId_itemPath (id : Uuid) : itemId (itemPath id) = some id := parsePath_eq_some id rfl

theorem collectionId_collectionPath (id : Uuid) : collectionId (collectionPath id) = some id := parsePath_eq_some id rfl

theorem collectionPath_injective : Function.Injective collectionPath := fun left right h =>
  Option.some.inj (by rw [← collectionId_collectionPath, ← collectionId_collectionPath, h])

theorem itemPath_injective : Function.Injective itemPath := fun left right h =>
  Option.some.inj (by rw [← itemId_itemPath, ← itemId_itemPath, h])

/-- The character after the path of the service tells the kinds of objects apart. -/
theorem getElem?_append_kind {kind name : String} {c : Char} (h : (servicePath ++ kind).toList[25]? = some c) :
    (servicePath ++ kind ++ name).toList[25]? = some c := by
  rw [String.toList_append]
  obtain ⟨hlength, -⟩ := List.getElem?_eq_some_iff.mp h
  rw [List.getElem?_append_left hlength, h]

theorem getElem?_collectionPath (id : Uuid) : (collectionPath id).toList[25]? = some 'c' :=
  getElem?_append_kind (by decide)

theorem getElem?_itemPath (id : Uuid) : (itemPath id).toList[25]? = some 'i' :=
  getElem?_append_kind (by decide)

theorem getElem?_aliasPath {name path : String} (h : aliasPath name = some path) : path.toList[25]? = some 'a' := by
  rw [aliasPath, Option.ite_none_right_eq_some] at h
  rw [← Option.some.inj h.2]
  exact getElem?_append_kind (by decide)

inductive ProviderError where
  | broker (error : BrokerError)
  | transport
  | timeout
  | indeterminate
  | invalidRequest (message : String)
  | invalidSession
  | secretTooLarge
  | protocol (error : ProtocolError)
  deriving DecidableEq

/-- Invalid metadata is the client's fault. -/
def ProviderError.ofProtocol (error : ProtocolError) : ProviderError :=
  match error with
  | .invalidMetadata _ => .invalidRequest error.toString
  | _ => .protocol error

inductive SecretServiceError where
  | failed (message : String)
  | noSuchObject (message : String)
  | noSuchSession (message : String)
  | alreadyExists (message : String)
  | isLocked (message : String)
  | accessDenied (message : String)
  | limitsExceeded (message : String)
  | backendUnavailable (message : String)
  deriving DecidableEq

def SecretServiceError.ofProvider : ProviderError → SecretServiceError
  | .broker error =>
      match error.code with
      | .notFound | .invalidCollection => .noSuchObject error.message
      | .alreadyExists | .conflict => .alreadyExists error.message
      | .secretTooLarge | .metadataTooLarge => .limitsExceeded error.message
      | .permissionDenied => .accessDenied error.message
      | .backendUnavailable => .backendUnavailable error.message
      | _ => .failed error.message
  | .secretTooLarge => .limitsExceeded "secret exceeds the 2560-byte Windows Credential Manager limit"
  | .invalidSession => .noSuchSession "unknown or expired session"
  | .invalidRequest message => .failed message
  | .transport | .timeout | .indeterminate =>
      .backendUnavailable "Windows Credential Manager broker is unavailable"
  | .protocol error => .failed error.toString

/-- The block cipher of encrypted sessions: key, initialisation vector, text. -/
structure SessionCipher where
  encryptPadded : Vector UInt8 16 → Vector UInt8 16 → Blob → Blob
  decryptPadded : Vector UInt8 16 → Vector UInt8 16 → Blob → Option Blob

inductive SessionKey where
  | plain
  | dh (key : Vector UInt8 16)
  deriving DecidableEq

def checkedIv (parameters : Blob) : Except ProviderError (Vector UInt8 16) :=
  if h : parameters.length = 16 then .ok ⟨parameters.toArray, by simpa using h⟩
  else .error (.invalidRequest "DH sessions require a 16-byte AES-CBC IV")

def SessionKey.encrypt (cipher : SessionCipher) (parameters secret : Blob) : SessionKey → Except ProviderError Blob
  | .plain =>
      if parameters.isEmpty then .ok secret
      else .error (.invalidRequest "plain sessions require empty parameters")
  | .dh key => do
      let iv ← checkedIv parameters
      .ok (cipher.encryptPadded key iv secret)

def SessionKey.decrypt (cipher : SessionCipher) (parameters encrypted : Blob) : SessionKey → Except ProviderError Blob
  | .plain =>
      if parameters.isEmpty then .ok encrypted
      else .error (.invalidRequest "plain sessions require empty parameters")
  | .dh key => do
      let iv ← checkedIv parameters
      match cipher.decryptPadded key iv encrypted with
      | none => .error (.invalidRequest "invalid encrypted secret")
      | some value => .ok value

structure SessionRecord where
  owner : String
  key : SessionKey
  deriving DecidableEq

/-- A secret as it travels over D-Bus. -/
structure DbusSecret where
  session : String
  parameters : Blob
  value : Blob
  contentType : String

/-- The state of the provider that is not the broker's. -/
structure Provider where
  cipher : SessionCipher
  sessions : BTreeMap Uuid SessionRecord

namespace Provider

variable (provider : Provider)

/-- The session of a caller. -/
def sessionOf (owner : String) (session : Uuid) : Except ProviderError SessionRecord :=
  match provider.sessions[session]? with
  | none => .error .invalidSession
  | some record => if record.owner ≠ owner then .error .invalidSession else .ok record

def decodeSecret (owner : String) (secret : DbusSecret) : Except ProviderError (Uuid × SecretBytes × String) := do
  let session ← match sessionId secret.session with
    | none => .error (.invalidRequest "secret contains an invalid session path")
    | some session => .ok session
  let record ← provider.sessionOf owner session
  let clear ← record.key.decrypt provider.cipher secret.parameters secret.value
  if maxSecretBytes < clear.length then .error .secretTooLarge
  else do
    let bytes ← (SecretBytes.new clear).mapError ProviderError.ofProtocol
    .ok (session, bytes, secret.contentType)

/-- The initialisation vector is missing where the system's source of randomness fails. -/
def encodeSecret (owner : String) (session : Uuid) (secret : SecretBytes) (contentType : String)
    (iv : Option (Vector UInt8 16)) : Except ProviderError DbusSecret := do
  let record ← provider.sessionOf owner session
  match record.key with
  | .plain => do
      let value ← record.key.encrypt provider.cipher [] secret.bytes
      .ok ⟨sessionPath session, [], value, contentType⟩
  | .dh _ =>
      match iv with
      | none => .error .indeterminate
      | some iv => do
          let value ← record.key.encrypt provider.cipher iv.toList secret.bytes
          .ok ⟨sessionPath session, iv.toList, value, contentType⟩

def new (cipher : SessionCipher) : Provider := ⟨cipher, ∅⟩

def insertSession (id : Uuid) (owner : String) (key : SessionKey) : Provider :=
  { provider with sessions := provider.sessions.insert id ⟨owner, key⟩ }

def closeSession (id : Uuid) (owner : String) : Except ProviderError Unit × Provider :=
  match provider.sessionOf owner id with
  | .error error => (.error error, provider)
  | .ok _ => (.ok (), { provider with sessions := provider.sessions.erase id })

/-- Drops the sessions of a caller and says which they were. -/
def removeOwner (owner : String) : List Uuid × Provider :=
  let removed := provider.sessions.toList.filterMap fun entry =>
    if entry.2.owner = owner then some entry.1 else none
  (removed, { provider with sessions := provider.sessions.filter fun _ record => record.owner ≠ owner })

end Provider

end WincredLibsecret
