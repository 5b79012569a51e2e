import WincredLibsecret.BrokerIdeal
import WincredLibsecret.BrokerServe

/-! What the frames of the broker can carry. A conversation is answered to its end exactly if every response fits a
frame. Listings need not fit: a vault takes any number of items one by one, and when they are asked for together
the process ends without an answer. -/

namespace WincredLibsecret

open Effect ByteStream

namespace Broker

variable {broker : Broker} {wire : Wire} {negotiated : UInt16} {fates : Nat → Fates BackendError}
  {chunks : List Blob} {vault : Vault}

/-- The response has the number of the request, and a request of another version than the negotiated one is refused. -/
structure Replies (negotiated : UInt16) (envelope : Envelope Request) (response : Response) : Prop where
  requestId : response.requestId = envelope.payload.requestId
  refused : envelope.version ≠ negotiated →
    response.result = .error ⟨.unsupportedVersion, "request protocol version was not negotiated"⟩

/-- The item under another identifier. -/
def withId (item : ItemMetadata) (id : Uuid) : ItemMetadata := { item with id := id }

theorem length_encode_withId (item : ItemMetadata) (id : Uuid) :
    (withId item id).encode.length = item.encode.length := by
  simp only [withId, ItemMetadata.encode, Cbor.length_record, List.map_cons, List.map_nil, List.sum_cons, List.sum_nil,
    Uuid.length_encode, List.length_cons, List.length_nil]

theorem validateItem_withId {item : ItemMetadata} (h : validateItem item = .ok ()) {id : Uuid} (hid : id ≠ .nil) :
    validateItem (withId item id) = .ok () := by
  obtain ⟨hschema, ⟨-, hothers⟩, htexts⟩ := validateItem_eq_ok.mp h
  exact validateItem_eq_ok.mpr ⟨hschema, ⟨hid, hothers⟩, htexts⟩

theorem encodeMetadata_item (backend : VaultBackend) {item : ItemMetadata}
    (h : item.encode.length ≤ maxMetadataBytes) :
    encodeMetadata (cborBroker backend).itemCodec item = .ok item.encode := by
  have hwriter : (cborBroker backend).itemCodec.intoWriter item = some item.encode :=
    if_pos (Nat.lt_of_le_of_lt h (by decide))
  rw [encodeMetadata, hwriter]
  exact if_neg (Nat.not_lt.mpr h)

/-- The ideal broker creates an item that is new, in a collection that is there. -/
theorem idealNext_createItem {visible : VisibleVault} {item : ItemMetadata} {collection : CollectionMetadata}
    {blob : Blob} (hvalid : validateItem item = .ok ())
    (hcollection : visible.collections[item.collectionId]? = some collection)
    (hfresh : visible.items[item.id]? = none) (hblob : encodeMetadata broker.itemCodec item = .ok blob)
    (secret : SecretBytes) :
    broker.idealNext visible (.createItem item secret) = visible.withItem item secret := by
  simp only [idealNext, ideal, idealCreate, hvalid, VisibleVault.findReferenced, VisibleVault.findCollection,
    hcollection, hfresh, hblob]
  rfl

/-- An item without attributes. -/
def tokenItem : ItemMetadata := ⟨1, ⟨1⟩, ⟨1⟩, "token", ∅, "text/plain", 5, 5, ⟨1⟩⟩

theorem length_encode_tokenItem : tokenItem.encode.length = 171 := by decide +kernel

theorem validateItem_tokenItem : validateItem tokenItem = .ok () := by decide +kernel

def numberedId (n : Nat) : Uuid := ⟨BitVec.ofNat 128 (n + 1)⟩

theorem value_numberedId {n : Nat} (h : n + 1 < 2 ^ 128) : (numberedId n).value.toNat = n + 1 := by
  rw [numberedId, BitVec.toNat_ofNat, Nat.mod_eq_of_lt h]

def emptySecret : SecretBytes := ⟨[], Nat.zero_le _⟩

/-- What readers see of the collection and the items. -/
structure Numbered (count : Nat) (visible : VisibleVault) : Prop where
  collection : ∃ collection, visible.collections[(⟨1⟩ : Uuid)]? = some collection
  size_items : visible.items.size = count
  items : ∀ (id : Uuid) (entry : ItemMetadata × SecretBytes), visible.items[id]? = some entry →
    ∃ n < count, id = numberedId n ∧ entry.1 = withId tokenItem id

theorem Numbered.createItem {count : Nat} {visible : VisibleVault} (h : Numbered count visible)
    (hcount : count + 1 < 2 ^ 128) (backend : VaultBackend) :
    Numbered (count + 1) ((cborBroker backend).idealNext visible
      (.createItem (withId tokenItem (numberedId count)) emptySecret)) := by
  have hvalue := value_numberedId hcount
  have hvalid : validateItem (withId tokenItem (numberedId count)) = .ok () :=
    validateItem_withId validateItem_tokenItem fun hnil => by
      rw [hnil] at hvalue
      cases hvalue
  have hfresh : visible.items[numberedId count]? = none := by
    cases hentry : visible.items[numberedId count]? with
    | none => rfl
    | some entry =>
        obtain ⟨n, hn, hid, -⟩ := h.items _ _ hentry
        rw [hid, value_numberedId (by omega)] at hvalue
        omega
  have hlength : (withId tokenItem (numberedId count)).encode.length ≤ maxMetadataBytes := by
    rw [length_encode_withId, length_encode_tokenItem]
    decide
  obtain ⟨collection, hcollection⟩ := h.collection
  rw [idealNext_createItem hvalid hcollection hfresh (encodeMetadata_item backend hlength)]
  refine ⟨⟨collection, hcollection⟩, ?_, fun id entry hentry => ?_⟩
  · have hnotMem : numberedId count ∉ visible.items := by
      rw [Std.ExtTreeMap.mem_iff_isSome_getElem?, hfresh]
      exact Bool.false_ne_true
    rw [VisibleVault.withItem, Std.ExtTreeMap.size_insert, h.size_items]
    exact if_neg hnotMem
  · rw [VisibleVault.withItem, Std.ExtTreeMap.getElem?_insert] at hentry
    split_ifs at hentry with hsame
    · obtain rfl : numberedId count = id := Std.LawfulEqOrd.eq_of_compare hsame
      cases hentry
      exact ⟨count, Nat.lt_succ_self count, rfl, rfl⟩
    · obtain ⟨n, hn, hfound⟩ := h.items id entry hentry
      exact ⟨n, Nat.lt_succ_of_lt hn, hfound⟩

/-- The listing of the items is as long as all of them together. -/
theorem Numbered.listItems {count : Nat} {visible : VisibleVault} (h : Numbered count visible) :
    ∃ items, visible.answer (.listItems ⟨1⟩) = .ok (.items items) ∧
      listedBytes ItemMetadata.encode items = count * 171 := by
  obtain ⟨collection, hcollection⟩ := h.collection
  have hitems : ∀ item ∈ VisibleVault.listed Prod.fst visible.items, ∃ id, item = withId tokenItem id := by
    intro item hitem
    obtain ⟨entry, hentry, rfl⟩ := List.mem_map.mp hitem
    obtain ⟨n, -, -, hfound⟩ := h.items entry.1 entry.2 (Std.ExtTreeMap.mem_toList_iff_getElem?_eq_some.mp hentry)
    exact ⟨entry.1, hfound⟩
  refine ⟨_, by rw [VisibleVault.answer, hcollection], ?_⟩
  rw [List.filter_eq_self.mpr]
  · have hlengths : (VisibleVault.listed Prod.fst visible.items).map (fun item => item.encode.length) =
        List.replicate count 171 := by
      refine List.eq_replicate_iff.mpr ⟨?_, List.forall_mem_map.mpr fun item hitem => ?_⟩
      · rw [List.length_map, VisibleVault.listed, List.length_map, Std.ExtTreeMap.length_toList, h.size_items]
      · obtain ⟨id, rfl⟩ := hitems item hitem
        rw [length_encode_withId, length_encode_tokenItem]
    rw [listedBytes, hlengths, List.sum_replicate, smul_eq_mul]
  · intro item hitem
    obtain ⟨id, rfl⟩ := hitems item hitem
    exact decide_eq_true rfl

end Broker

end WincredLibsecret
