import WincredLibsecret.ProtocolFrame
import WincredLibsecret.ProtocolSizes
import WincredLibsecret.ProviderCalls
import WincredLibsecret.ProviderSharing

/-! The sizes of the requests that a client can make the provider send. All texts of a request are checked before it
is sent, except for the name of the alias that a client asks for. -/

namespace WincredLibsecret

open Cbor Effect

/-- A request that fits a frame under every number it can get. -/
def ProviderCall.FitsFrame : ProviderCall → Prop
  | .broker operation => ∀ requestId : UInt64,
      ((Envelope.current (⟨requestId, operation⟩ : Request)).encode Request.encode).length ≤ maxFrameSize
  | _ => True

theorem fitsFrame_of_length_le {operation : Operation} (h : operation.encode.length ≤ 100000) :
    (ProviderCall.broker operation).FitsFrame := by
  intro requestId
  have henvelope := Envelope.length_encode_le Request.encode (Envelope.current (⟨requestId, operation⟩ : Request))
  have hrequest := Request.length_encode_le ⟨requestId, operation⟩
  refine henvelope.trans ?_
  simp only [Envelope.current, maxFrameSize] at hrequest ⊢
  omega

theorem length_collectionRequest_le {operation : Operation} {collection : CollectionMetadata}
    (hoperation : operation = .createCollection collection ∨ operation = .updateCollection collection)
    (h : TextWithin collection.label maxLabelBytes false) : operation.encode.length ≤ 100000 := by
  have hcollection := CollectionMetadata.length_encode_le h
  rcases hoperation with rfl | rfl <;>
  · refine (length_encodeTagged_le (by decide) rfl).trans ?_
    simp only [List.map_cons, List.map_nil, List.sum_cons, List.sum_nil]
    omega

theorem length_setAlias_le {record : AliasMetadata} (h : TextWithin record.name maxAliasBytes false) :
    (Operation.setAlias record).encode.length ≤ 100000 := by
  have hrecord := AliasMetadata.length_encode_le h
  refine (length_encodeTagged_le (by decide) rfl).trans ?_
  simp only [List.map_cons, List.map_nil, List.sum_cons, List.sum_nil]
  omega

theorem length_removeAlias_le {name : String} (h : TextWithin name maxAliasBytes false) :
    (Operation.removeAlias name).encode.length ≤ 100000 := by
  have hname := length_text_le h.size_le
  refine (length_encodeTagged_le (by decide) rfl).trans ?_
  simp only [List.map_cons, List.map_nil, List.sum_cons, List.sum_nil, maxAliasBytes] at hname ⊢
  omega

theorem length_searchItems_le {attributes : BTreeMap String String} (h : validateAttributes attributes = .ok ()) :
    (Operation.searchItems attributes).encode.length ≤ 100000 := by
  have hattributes := length_encodeAttributes_le h
  refine (length_encodeTagged_le (by decide) rfl).trans ?_
  simp only [List.map_cons, List.map_nil, List.sum_cons, List.sum_nil]
  omega

theorem length_createOrReplaceItem_le {item : ItemMetadata} (h : item.TextsWithin) (secret : SecretBytes)
    (replace : Bool) : (Operation.createOrReplaceItem item secret replace).encode.length ≤ 100000 := by
  have hitem := ItemMetadata.length_encode_le h
  have hsecret := secret.length_encode_le
  refine (length_encodeTagged_le (by decide) rfl).trans ?_
  simp only [List.map_cons, List.map_nil, List.sum_cons, List.sum_nil, length_bool]
  omega

theorem length_updateItemCas_le {item : ItemMetadata} (h : item.TextsWithin) (secret : Option SecretBytes)
    (expectedModified : UInt64) : (Operation.updateItemCas item secret expectedModified).encode.length ≤ 100000 := by
  have hitem := ItemMetadata.length_encode_le h
  have hsecret := length_encode_secret_le secret
  have hmodified := length_uint_le expectedModified.toNat
  refine (length_encodeTagged_le (by decide) rfl).trans ?_
  simp only [List.map_cons, List.map_nil, List.sum_cons, List.sum_nil]
  omega

/-- A request other than for an alias is short, since its texts are checked. -/
theorem DbusCall.length_encode_le_of_sends {call : DbusCall} {operation : Operation} (h : call.Sends operation)
    (hother : ∀ name, operation ≠ .resolveAlias name) : operation.encode.length ≤ 100000 := by
  cases h with
  | resolveAlias name => exact absurd rfl (hother name)
  | listAliases | listCollections => decide
  | deleteCreated | getCollection | listItems | getItem | deleteCollection | deleteNew | deleteItem =>
      refine (length_encodeTagged_le (by decide) rfl).trans ?_
      simp
  | createCollection hlabel => exact length_collectionRequest_le (.inl rfl) (validateText_eq_ok.mp hlabel)
  | updateCollection found hlabel => exact length_collectionRequest_le (.inr rfl) (validateText_eq_ok.mp hlabel)
  | nameCreated hname | setAlias hname => exact length_setAlias_le (validateText_eq_ok.mp hname)
  | unnameCreated hname | removeAlias hname => exact length_removeAlias_le (validateText_eq_ok.mp hname)
  | searchItems hattributes => exact length_searchItems_le hattributes
  | createItem secret hlabel hattributes hcontentType =>
      refine length_createOrReplaceItem_le ?_ secret _
      exact ⟨validateText_eq_ok.mp hlabel, hattributes, validateText_eq_ok.mp hcontentType⟩
  | updateItem _ secret draws hlabel hattributes hcontentType =>
      rw [Provider.updateRequest]
      refine length_updateItemCas_le ?_ secret _
      exact ⟨validateText_eq_ok.mp hlabel, hattributes, validateText_eq_ok.mp hcontentType⟩

/-- The bytes of the request for an alias besides those of its name and its number. -/
theorem length_resolveAlias (requestId : UInt64) (name : String) :
    ((Envelope.current (⟨requestId, .resolveAlias name⟩ : Request)).encode Request.encode).length =
      70 + (uint requestId.toNat).length + (text name).length := by
  have hversion : (uint protocolVersion.toNat).length = 1 := by decide
  simp only [Envelope.current, Envelope.encode, Request.encode, Operation.encode, encodeTagged, length_record,
    List.length_cons, List.length_nil, List.map_cons, List.map_nil, List.sum_cons, List.sum_nil, hversion]
  have hfields : (text "version").length = 8 ∧ (text "payload").length = 8 ∧ (text "request_id").length = 11 ∧
      (text "operation").length = 10 ∧ (text "resolve_alias").length = 14 ∧ (text "name").length = 5 ∧
      argumentWidth 2 = 0 := by decide
  simp only [Nat.zero_add, Nat.reduceAdd, hfields]
  omega

theorem resolveAlias_fitsFrame_iff {name : String} :
    (ProviderCall.broker (.resolveAlias name)).FitsFrame ↔ name.utf8ByteSize + 84 ≤ maxFrameSize := by
  constructor
  · intro hfits
    by_contra hlong
    have hwidest : (uint (UInt64.ofNat (2 ^ 64 - 1)).toNat).length = 9 := by decide
    have hlength := hfits (UInt64.ofNat (2 ^ 64 - 1))
    have hwidth : 4 ≤ argumentWidth name.utf8ByteSize := by
      simp only [maxFrameSize] at hlong
      unfold argumentWidth
      split_ifs <;> omega
    rw [length_resolveAlias, hwidest, length_text] at hlength
    omega
  · intro hshort requestId
    have hnumber := length_uint_le requestId.toNat
    have hwidth : argumentWidth name.utf8ByteSize ≤ 4 := by
      simp only [maxFrameSize] at hshort
      unfold argumentWidth
      split_ifs <;> omega
    rw [length_resolveAlias, length_text]
    omega

/-- Every request a call can make the provider send fits its frame, unless the call asks for an alias with a name that
is too long for one. -/
theorem requests_fit_frames_iff (provider : Provider) (call : DbusCall) :
    Action.Calls ProviderCall.FitsFrame (call.handler provider) ↔
      ∀ name, call = .readAlias name → name.utf8ByteSize + 84 ≤ maxFrameSize := by
  constructor
  · rintro hcalls name rfl
    exact resolveAlias_fitsFrame_iff.mp hcalls.1
  · intro hname
    refine call.calls_handler provider (fun _ _ => trivial) (fun _ _ => trivial)
      (fun _ => trivial) fun operation hsends => ?_
    by_cases hresolve : ∃ name, operation = .resolveAlias name
    · obtain ⟨name, rfl⟩ := hresolve
      cases hsends with
      | resolveAlias => exact resolveAlias_fitsFrame_iff.mpr (hname name rfl)
    · exact fitsFrame_of_length_le (DbusCall.length_encode_le_of_sends hsends fun name heq => hresolve ⟨name, heq⟩)

/-- The request for the default alias. -/
theorem default_alias_request_fits :
    Action.Calls ProviderCall.FitsFrame ((DbusCall.readAlias "default").handler sessionless) := by
  refine (requests_fit_frames_iff sessionless _).mpr ?_
  rintro name ⟨⟩
  decide

/-- A text of that many letters. -/
def letters (n : Nat) : String := String.ofList (List.replicate n 'a')

theorem utf8ByteSize_letters (n : Nat) : (letters n).utf8ByteSize = n := by
  rw [letters, String.utf8ByteSize_ofList]
  induction n with
  | zero => rfl
  | succ n ih =>
      rw [List.replicate_succ, String.utf8Len_cons, ih]
      rfl

/-- The provider asks the broker for an alias with a name that does not fit a frame. -/
theorem long_alias_request_does_not_fit :
    ¬ Action.Calls ProviderCall.FitsFrame ((DbusCall.readAlias (letters maxFrameSize)).handler sessionless) := by
  intro hcalls
  have hsize := resolveAlias_fitsFrame_iff.mp hcalls.1
  rw [utf8ByteSize_letters] at hsize
  omega

end WincredLibsecret
