import Mathlib

/-! The data model shared by the broker and the provider: identifiers, the error types, secrets and
the three metadata records with their validators. A secret carries its length bound, so that no
oversized secret can be built. Ordered maps and sets are the standard library's extensional trees,
which list their entries in key order as the source's B-trees do. -/

namespace WincredLibsecret

abbrev Blob := List UInt8

abbrev BTreeMap (κ ν : Type) [Ord κ] := Std.ExtTreeMap κ ν compare

abbrev BTreeSet (κ : Type) [Ord κ] := Std.ExtTreeSet κ compare

/-- A 128-bit identifier, ordered as its sixteen big-endian bytes are. -/
structure Uuid where
  value : BitVec 128
  deriving DecidableEq

namespace Uuid

def nil : Uuid := ⟨0⟩

def isNil (id : Uuid) : Bool := id = nil

theorem toNat_injective : Function.Injective fun id : Uuid => id.value.toNat := by
  rintro ⟨left⟩ ⟨right⟩ h
  exact congrArg Uuid.mk (BitVec.eq_of_toNat_eq h)

instance : LinearOrder Uuid := LinearOrder.lift' (fun id : Uuid => id.value.toNat) toNat_injective

instance : Std.TransOrd Uuid := inferInstance

instance : Std.LawfulEqOrd Uuid where
  eq_of_compare h := compare_eq_iff_eq.mp h

end Uuid

/-- A stored generation: the item it belongs to and its own identifier. -/
abbrev GenerationKey := Uuid ×ₗ Uuid

instance : Std.TransOrd GenerationKey := inferInstance

instance : Std.LawfulEqOrd GenerationKey where
  eq_of_compare h := compare_eq_iff_eq.mp h

inductive ErrorCode where
  | invalidRequest
  | unsupportedVersion
  | notFound
  | alreadyExists
  | invalidCollection
  | secretTooLarge
  | metadataTooLarge
  | permissionDenied
  | backendUnavailable
  | conflict
  | corruptState
  | internal
  deriving DecidableEq

structure BrokerError where
  code : ErrorCode
  message : String
  deriving DecidableEq

/-- The kinds of stream failure the program tells apart. -/
inductive StreamFailure where
  | unexpectedEof
  | other
  deriving DecidableEq

inductive ProtocolError where
  | stream (failure : StreamFailure)
  | frameTooLarge (actual maximum : Nat)
  | emptyFrame
  | encode (reason : String)
  | decode (reason : String)
  | trailingBytes (count : Nat)
  | unsupportedVersion (version : UInt16)
  | noCommonVersion
  | invalidMetadata (reason : String)
  deriving DecidableEq

/-- The text an error is displayed as. The text of a stream failure is the operating system's. -/
def ProtocolError.toString : ProtocolError → String
  | .stream .unexpectedEof => "I/O error: unexpected end of file"
  | .stream .other => "I/O error: other error"
  | .frameTooLarge actual maximum =>
      "frame length " ++ ToString.toString actual ++ " exceeds the maximum " ++ ToString.toString maximum
  | .emptyFrame => "zero-length frames are invalid"
  | .encode reason => "CBOR encoding failed: " ++ reason
  | .decode reason => "CBOR decoding failed: " ++ reason
  | .trailingBytes count => "frame contains " ++ ToString.toString count ++ " trailing bytes"
  | .unsupportedVersion version => "unsupported protocol version " ++ ToString.toString version.toNat
  | .noCommonVersion => "no mutually supported protocol version"
  | .invalidMetadata reason => "invalid metadata: " ++ reason

theorem mapError_eq_ok {ε δ α : Type} {f : ε → δ} {result : Except ε α} {value : α} :
    result.mapError f = .ok value ↔ result = .ok value := by
  cases result <;> simp [Except.mapError]

theorem bind_eq_ok {δ α β : Type} {result : Except δ α} {next : α → Except δ β} {value : β} :
    (result >>= next) = .ok value ↔ ∃ first, result = .ok first ∧ next first = .ok value := by
  cases result <;> simp [bind, Except.bind]

theorem check_bind_eq_ok {δ β : Type} {result : Except δ Unit} {next : Unit → Except δ β} {value : β} :
    (result >>= next) = .ok value ↔ result = .ok () ∧ next () = .ok value := by
  cases result <;> simp [bind, Except.bind]

theorem bind_eq_error {δ α β : Type} {result : Except δ α} {next : α → Except δ β} {error : δ} :
    (result >>= next) = .error error ↔
      result = .error error ∨ ∃ value, result = .ok value ∧ next value = .error error := by
  cases result <;> simp [bind, Except.bind]

/-- The native maximum of a generic credential blob. -/
def maxSecretBytes : Nat := 5 * 512

def maxMetadataBytes : Nat := maxSecretBytes

@[ext] structure SecretBytes where
  bytes : Blob
  length_le : bytes.length ≤ maxSecretBytes
  deriving DecidableEq

def SecretBytes.new (value : Blob) : Except ProtocolError SecretBytes :=
  if h : value.length ≤ maxSecretBytes then .ok ⟨value, h⟩
  else .error (.invalidMetadata ("secret is " ++ ToString.toString value.length ++
    " bytes; maximum is " ++ ToString.toString maxSecretBytes))

@[simp] theorem SecretBytes.new_bytes (secret : SecretBytes) : SecretBytes.new secret.bytes = .ok secret :=
  dif_pos secret.length_le

theorem SecretBytes.new_eq_ok {value : Blob} {secret : SecretBytes} :
    SecretBytes.new value = .ok secret ↔ value = secret.bytes := by
  refine ⟨fun h => ?_, fun h => h ▸ secret.new_bytes⟩
  unfold SecretBytes.new at h
  split_ifs at h
  cases h
  rfl

structure CollectionMetadata where
  schemaVersion : UInt16
  id : Uuid
  label : String
  created : UInt64
  modified : UInt64
  deriving DecidableEq

/-- Persistent item metadata. The generation it names is the commit record of the item. -/
structure ItemMetadata where
  schemaVersion : UInt16
  id : Uuid
  collectionId : Uuid
  label : String
  attributes : BTreeMap String String
  contentType : String
  created : UInt64
  modified : UInt64
  currentGeneration : Uuid
  deriving DecidableEq

structure AliasMetadata where
  schemaVersion : UInt16
  name : String
  collectionId : Uuid
  deriving DecidableEq

def maxLabelBytes : Nat := 1024
def maxAliasBytes : Nat := 255
def maxAttributeCount : Nat := 64
def maxAttributeKeyBytes : Nat := 255
def maxAttributeValueBytes : Nat := 1024
def maxContentTypeBytes : Nat := 255

def validateText (field value : String) (maximum : Nat) (allowEmpty : Bool) : Except ProtocolError Unit :=
  if !allowEmpty && value.isEmpty then
    .error (.invalidMetadata (field ++ " cannot be empty"))
  else if maximum < value.utf8ByteSize then
    .error (.invalidMetadata (field ++ " is " ++ ToString.toString value.utf8ByteSize ++
      " bytes; maximum is " ++ ToString.toString maximum))
  else if value.toList.contains (Char.ofNat 0) then
    .error (.invalidMetadata (field ++ " contains a NUL byte"))
  else .ok ()

def validateLabel (label : String) : Except ProtocolError Unit :=
  validateText "label" label maxLabelBytes false

def validateAliasName (name : String) : Except ProtocolError Unit :=
  validateText "alias name" name maxAliasBytes false

def validateContentType (contentType : String) : Except ProtocolError Unit :=
  validateText "content type" contentType maxContentTypeBytes false

def validateAttributes (attributes : BTreeMap String String) : Except ProtocolError Unit :=
  if maxAttributeCount < attributes.size then
    .error (.invalidMetadata ("attribute count " ++ ToString.toString attributes.size ++ " exceeds " ++
      ToString.toString maxAttributeCount))
  else
    forM attributes.toList fun entry => do
      validateText "attribute key" entry.1 maxAttributeKeyBytes false
      validateText "attribute value" entry.2 maxAttributeValueBytes true

/-- What a text within its limits satisfies. -/
structure TextWithin (value : String) (maximum : Nat) (allowEmpty : Bool) : Prop where
  nonempty : allowEmpty = false → value ≠ ""
  size_le : value.utf8ByteSize ≤ maximum
  no_nul : Char.ofNat 0 ∉ value.toList

theorem validateText_eq_ok {field value : String} {maximum : Nat} {allowEmpty : Bool} :
    validateText field value maximum allowEmpty = .ok () ↔ TextWithin value maximum allowEmpty := by
  unfold validateText
  split_ifs with hempty hsize hnul
  · simp only [false_iff]
    intro h
    simp only [Bool.and_eq_true, Bool.not_eq_true', String.isEmpty_iff] at hempty
    exact h.nonempty hempty.1 hempty.2
  · simp only [false_iff]
    exact fun h => absurd h.size_le (by omega)
  · simp only [false_iff]
    exact fun h => h.no_nul (List.contains_iff_mem.mp hnul)
  · simp only [true_iff]
    refine ⟨fun hallow hvalue => hempty ?_, by omega, fun hmem => hnul (List.contains_iff_mem.mpr hmem)⟩
    simp [hallow, hvalue]

theorem forM_eq_ok {α ε : Type} {f : α → Except ε Unit} {values : List α} :
    forM values f = .ok () ↔ ∀ value ∈ values, f value = .ok () := by
  induction values with
  | nil => simp [pure, Except.pure]
  | cons value values ih =>
      rw [List.forM_cons, List.forall_mem_cons]
      cases h : f value with
      | ok checked => simpa [bind, Except.bind] using ih
      | error error => simp [bind, Except.bind]

theorem validateAttributes_eq_ok {attributes : BTreeMap String String} :
    validateAttributes attributes = .ok () ↔ attributes.size ≤ maxAttributeCount ∧
      ∀ entry ∈ attributes.toList, TextWithin entry.1 maxAttributeKeyBytes false ∧
        TextWithin entry.2 maxAttributeValueBytes true := by
  unfold validateAttributes
  split_ifs with hsize
  · simp only [false_iff]
    exact fun h => absurd h.1 (by omega)
  · rw [forM_eq_ok]
    simp only [Nat.le_of_not_lt hsize, true_and]
    refine forall₂_congr fun entry _ => ?_
    rw [← @validateText_eq_ok "attribute key", ← @validateText_eq_ok "attribute value"]
    cases validateText "attribute key" entry.1 maxAttributeKeyBytes false <;>
      simp [bind, Except.bind]

end WincredLibsecret
