import WincredLibsecret.ProtocolCodec

/-! The sizes of encodings. What the validators accept is small: a record takes little more than its texts,
and these are bounded. Only listings grow with the vault. -/

namespace WincredLibsecret

open Cbor

theorem CollectionMetadata.length_encode_le {collection : CollectionMetadata}
    (h : TextWithin collection.label maxLabelBytes false) : collection.encode.length ≤ 1300 := by
  have hschema := length_uint_le collection.schemaVersion.toNat
  have hcreated := length_uint_le collection.created.toNat
  have hmodified := length_uint_le collection.modified.toNat
  have hlabel := length_text_le h.size_le
  refine (length_record_le rfl).trans ?_
  simp only [List.map_cons, List.map_nil, List.sum_cons, List.sum_nil, Uuid.length_encode, maxLabelBytes] at hlabel ⊢
  omega

theorem AliasMetadata.length_encode_le {aliased : AliasMetadata} (h : TextWithin aliased.name maxAliasBytes false) :
    aliased.encode.length ≤ 400 := by
  have hschema := length_uint_le aliased.schemaVersion.toNat
  have hname := length_text_le h.size_le
  refine (length_record_le rfl).trans ?_
  simp only [List.map_cons, List.map_nil, List.sum_cons, List.sum_nil, Uuid.length_encode, maxAliasBytes] at hname ⊢
  omega

theorem length_encodeAttributes_le {attributes : BTreeMap String String} (h : validateAttributes attributes = .ok ()) :
    (encodeAttributes attributes).length ≤ 84000 := by
  obtain ⟨hcount, hentries⟩ := validateAttributes_eq_ok.mp h
  have hentry : ∀ entry ∈ attributes.toList, (text entry.1).length + (text entry.2).length ≤ 1297 := by
    intro entry hentry
    obtain ⟨hkey, hvalue⟩ := hentries entry hentry
    have hkey' := length_text_le hkey.size_le
    have hvalue' := length_text_le hvalue.size_le
    simp only [maxAttributeKeyBytes, maxAttributeValueBytes] at hkey' hvalue'
    omega
  have hsum := sum_map_le hentry
  have hwidth := argumentWidth_le attributes.toList.length
  have hlength : attributes.toList.length ≤ 64 := Std.ExtTreeMap.length_toList.trans_le hcount
  rw [encodeAttributes, length_map, List.length_map, List.map_map]
  change argumentWidth attributes.toList.length + 1 +
    (attributes.toList.map fun entry => (text entry.1).length + (text entry.2).length).sum ≤ 84000
  omega

/-- The item has texts the validators accept. -/
structure ItemMetadata.TextsWithin (item : ItemMetadata) : Prop where
  label : TextWithin item.label maxLabelBytes false
  attributes : validateAttributes item.attributes = .ok ()
  contentType : TextWithin item.contentType maxContentTypeBytes false

theorem ItemMetadata.length_encode_le {item : ItemMetadata} (h : item.TextsWithin) : item.encode.length ≤ 86000 := by
  have hschema := length_uint_le item.schemaVersion.toNat
  have hcreated := length_uint_le item.created.toNat
  have hmodified := length_uint_le item.modified.toNat
  have hlabel := length_text_le h.label.size_le
  have hattributes := length_encodeAttributes_le h.attributes
  have hcontentType := length_text_le h.contentType.size_le
  refine (length_record_le rfl).trans ?_
  simp only [List.map_cons, List.map_nil, List.sum_cons, List.sum_nil, Uuid.length_encode, maxLabelBytes,
    maxContentTypeBytes] at hlabel hcontentType ⊢
  omega

theorem SecretBytes.length_encode_le (secret : SecretBytes) : secret.encode.length ≤ 2600 :=
  (length_byteString_le secret.length_le).trans (by decide)

theorem length_encode_secret_le (secret : Option SecretBytes) : (option SecretBytes.encode secret).length ≤ 2600 := by
  cases secret with
  | none => decide
  | some secret => exact secret.length_encode_le

theorem Envelope.length_encode_le {α : Type} (encodePayload : α → Blob) (envelope : Envelope α) :
    (envelope.encode encodePayload).length ≤ 70 + (encodePayload envelope.payload).length := by
  have hversion := length_uint_le envelope.version.toNat
  refine (length_record_le rfl).trans ?_
  simp only [List.map_cons, List.map_nil, List.sum_cons, List.sum_nil]
  omega

theorem Request.length_encode_le (request : Request) :
    request.encode.length ≤ 70 + request.operation.encode.length := by
  have hid := length_uint_le request.requestId.toNat
  refine (length_record_le rfl).trans ?_
  simp only [List.map_cons, List.map_nil, List.sum_cons, List.sum_nil]
  omega

theorem Response.length_encode_le (response : Response) :
    response.encode.length ≤ 70 + (encodeResult response.result).length := by
  have hid := length_uint_le response.requestId.toNat
  refine (length_record_le rfl).trans ?_
  simp only [List.map_cons, List.map_nil, List.sum_cons, List.sum_nil]
  omega

theorem length_encodeTagged_le {name : String} {fields : List (String × Blob)} (hname : name.utf8ByteSize < 24)
    (hfields : fields.all fun field => field.1.utf8ByteSize < 24) :
    (encodeTagged name fields).length ≤ 70 + (fields.map fun field => 24 + field.2.length).sum := by
  have htext := length_text_le (Nat.le_of_lt hname)
  refine (length_record_le ?_).trans ?_
  · exact (Bool.and_eq_true _ _).mpr ⟨rfl, hfields⟩
  · change 9 + (24 + (text name).length + (fields.map fun field => 24 + field.2.length).sum) ≤ _
    omega

theorem length_encodeBody_le {name : String} {value : Blob} (hname : name.utf8ByteSize < 24) :
    (encodeBody name value).length ≤ 100 + value.length := by
  have htext := length_text_le (Nat.le_of_lt hname)
  refine (length_record_le rfl).trans ?_
  simp only [List.map_cons, List.map_nil, List.sum_cons, List.sum_nil]
  omega

theorem BrokerError.length_encode_le (error : BrokerError) :
    error.encode.length ≤ 100 + error.message.utf8ByteSize := by
  have hname : error.code.name.utf8ByteSize ≤ 24 := by cases error.code <;> decide
  have hcode := length_text_le hname
  have hmessage := length_text_le (le_refl error.message.utf8ByteSize)
  refine (length_record_le rfl).trans ?_
  simp only [List.map_cons, List.map_nil, List.sum_cons, List.sum_nil]
  omega

theorem length_encodeResult_ok_le (body : ResponseBody) :
    (encodeResult (.ok body)).length ≤ 40 + body.encode.length := by
  refine (length_record_le rfl).trans ?_
  simp only [List.map_cons, List.map_nil, List.sum_cons, List.sum_nil]
  omega

theorem length_encodeResult_error_le (error : BrokerError) :
    (encodeResult (.error error)).length ≤ 140 + error.message.utf8ByteSize := by
  have herror := error.length_encode_le
  refine (length_record_le rfl).trans ?_
  simp only [List.map_cons, List.map_nil, List.sum_cons, List.sum_nil]
  omega

end WincredLibsecret
