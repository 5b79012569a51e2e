import WincredLibsecret.BrokerRetention
import WincredLibsecret.EffectOutcome
import WincredLibsecret.ProviderOwnership
import WincredLibsecret.ProviderUpdates

/-! A secret on its way from one client to another: sent through a session of the first, stored by the
broker, read back and sent through a session of the second. -/

namespace WincredLibsecret

open Effect Effect.Action TextCodec

theorem exists_of_forall₂ {α β : Type} {R : α → β → Prop} {xs : List α} {ys : List β} (h : List.Forall₂ R xs ys)
    {x : α} (hx : x ∈ xs) : ∃ y ∈ ys, R x y := by
  induction h with
  | nil => cases hx
  | cons hfirst _ ih =>
      rcases List.mem_cons.mp hx with rfl | hrest
      · exact ⟨_, List.mem_cons_self, hfirst⟩
      · obtain ⟨y, hy, hxy⟩ := ih hrest
        exact ⟨y, List.mem_cons_of_mem _ hy, hxy⟩

theorem exists_forall₂ {α β : Type} {R : α → β → Prop} {xs : List α} (h : ∀ x ∈ xs, ∃ y, R x y) :
    ∃ ys, List.Forall₂ R xs ys := by
  induction xs with
  | nil => exact ⟨[], .nil⟩
  | cons x rest ih =>
      obtain ⟨⟨y, hxy⟩, hrest⟩ := List.forall_mem_cons.mp h
      obtain ⟨ys, hys⟩ := ih hrest
      exact ⟨y :: ys, .cons hxy hys⟩

/-- Decrypting what was encrypted gives the text back. -/
def SessionCipher.Lawful (cipher : SessionCipher) : Prop :=
  ∀ key iv text, cipher.decryptPadded key iv (cipher.encryptPadded key iv text) = some text

theorem SessionKey.decrypt_encrypt {cipher : SessionCipher} (hcipher : cipher.Lawful) {key : SessionKey}
    {parameters secret value : Blob} (h : key.encrypt cipher parameters secret = .ok value) :
    key.decrypt cipher parameters value = .ok secret := by
  cases key with
  | plain =>
      rw [SessionKey.encrypt] at h
      rw [SessionKey.decrypt]
      split_ifs at h ⊢ with hempty
      cases h
      rfl
  | dh key =>
      rw [SessionKey.encrypt] at h
      obtain ⟨iv, hiv, hvalue⟩ := bind_eq_ok.mp h
      cases hvalue
      rw [SessionKey.decrypt, hiv]
      simp only [bind, Except.bind, hcipher key iv secret]

namespace Provider

variable {provider : Provider} {owner : String} {session : Uuid} {key : SessionKey} {contentType : String}

/-- What the provider makes of a secret its client encrypted. -/
theorem decodeSecret_eq (hcipher : provider.cipher.Lawful) (hsession : provider.sessions[session]? = some ⟨owner, key⟩)
    {parameters clear value : Blob} (hvalue : key.encrypt provider.cipher parameters clear = .ok value) :
    provider.decodeSecret owner ⟨sessionPath session, parameters, value, contentType⟩ =
      if h : clear.length ≤ maxSecretBytes then .ok (session, ⟨clear, h⟩, contentType) else .error .secretTooLarge := by
  have hrecord : provider.sessionOf owner session = .ok ⟨owner, key⟩ := sessionOf_eq_ok.mpr ⟨hsession, rfl⟩
  simp only [decodeSecret, sessionId_sessionPath]
  simp only [bind, Except.bind, hrecord, SessionKey.decrypt_encrypt hcipher hvalue]
  by_cases h : clear.length ≤ maxSecretBytes
  · rw [dif_pos h, if_neg (not_lt.mpr h), show SecretBytes.new clear = .ok ⟨clear, h⟩ from dif_pos h]
    rfl
  · rw [dif_neg h, if_pos (not_le.mp h)]

/-- An answer of the provider from which its client decrypts these bytes. -/
def Carries (provider : Provider) (key : SessionKey) (clear : Blob) (contentType : String)
    (answer : DbusSecret) : Prop :=
  answer.contentType = contentType ∧ key.decrypt provider.cipher answer.parameters answer.value = .ok clear

/-- What the client decrypts from the answer of the provider. -/
theorem encodeSecret_eq_ok (hcipher : provider.cipher.Lawful)
    (hsession : provider.sessions[session]? = some ⟨owner, key⟩) {secret : SecretBytes}
    {iv : Option (Vector UInt8 16)} {encoded : DbusSecret}
    (h : provider.encodeSecret owner session secret contentType iv = .ok encoded) :
    provider.Carries key secret.bytes contentType encoded := by
  have hrecord : provider.sessionOf owner session = .ok ⟨owner, key⟩ := sessionOf_eq_ok.mpr ⟨hsession, rfl⟩
  obtain ⟨record, hok, h⟩ := bind_eq_ok.mp h
  cases hrecord.symm.trans hok
  cases key with
  | plain =>
      obtain ⟨value, hvalue, hencoded⟩ := bind_eq_ok.mp h
      cases hencoded
      exact ⟨rfl, SessionKey.decrypt_encrypt hcipher hvalue⟩
  | dh key =>
      cases iv with
      | none => cases h
      | some iv =>
          obtain ⟨value, hvalue, hencoded⟩ := bind_eq_ok.mp h
          cases hencoded
          exact ⟨rfl, SessionKey.decrypt_encrypt hcipher hvalue⟩

/-- With a source of randomness every secret can be sent. -/
theorem exists_encodeSecret (hsession : provider.sessions[session]? = some ⟨owner, key⟩) (secret : SecretBytes)
    (contentType : String) {iv : Option (Vector UInt8 16)} (hiv : iv.isSome) :
    ∃ encoded, provider.encodeSecret owner session secret contentType iv = .ok encoded := by
  have hrecord : provider.sessionOf owner session = .ok ⟨owner, key⟩ := sessionOf_eq_ok.mpr ⟨hsession, rfl⟩
  obtain ⟨iv, rfl⟩ := Option.isSome_iff_exists.mp hiv
  rw [encodeSecret, hrecord]
  cases key with
  | plain => exact ⟨_, rfl⟩
  | dh key =>
      have hchecked : checkedIv iv.toList = .ok iv := by
        rw [checkedIv, dif_pos (by simp)]
        exact congrArg Except.ok (Vector.toArray_inj.mp Array.toArray_toList)
      refine ⟨⟨sessionPath session, iv.toList, provider.cipher.encryptPadded key iv secret.bytes, contentType⟩, ?_⟩
      simp only [bind, Except.bind, SessionKey.encrypt, hchecked]

/-- The answers to a list of entries, each under the path of its item. -/
theorem encodeSecrets_eq_ok (hcipher : provider.cipher.Lawful)
    (hsession : provider.sessions[session]? = some ⟨owner, key⟩) {iv : Nat → Option (Vector UInt8 16)}
    {entries : List (ItemMetadata × SecretBytes)} {values : List (String × DbusSecret)}
    (h : SecretService.encodeSecrets provider owner session iv entries = .ok values) :
    List.Forall₂ (fun entry value => value.1 = itemPath entry.1.id ∧
      provider.Carries key entry.2.bytes entry.1.contentType value.2) entries values := by
  induction entries generalizing iv values with
  | nil =>
      cases h
      exact .nil
  | cons entry rest ih =>
      obtain ⟨encoded, hencoded, hothers⟩ := bind_eq_ok.mp h
      obtain ⟨others, hrest, hvalues⟩ := bind_eq_ok.mp hothers
      cases hvalues
      exact .cons ⟨rfl, encodeSecret_eq_ok hcipher hsession hencoded⟩ (ih hrest)

theorem exists_encodeSecrets (hsession : provider.sessions[session]? = some ⟨owner, key⟩)
    {iv : Nat → Option (Vector UInt8 16)} (hiv : ∀ n, (iv n).isSome) (entries : List (ItemMetadata × SecretBytes)) :
    ∃ values, SecretService.encodeSecrets provider owner session iv entries = .ok values := by
  induction entries generalizing iv with
  | nil => exact ⟨[], rfl⟩
  | cons entry rest ih =>
      obtain ⟨encoded, hencoded⟩ := exists_encodeSecret hsession entry.2 entry.1.contentType (hiv 0)
      obtain ⟨others, hothers⟩ := ih fun n => hiv (n + 1)
      refine ⟨(itemPath entry.1.id, encoded) :: others, ?_⟩
      simp only [SecretService.encodeSecrets, bind, Except.bind, hencoded, hothers]

end Provider

/-- A choice under which nothing fails. -/
def CallChoice.Calm (choice : CallChoice) : Prop := choice = ⟨undisturbed, none⟩

theorem CallChoice.calm : CallChoice.Calm ⟨undisturbed, none⟩ := rfl

namespace Broker

variable {broker : Broker} {vault final : Vault} {allowed : CallChoice → Prop}

theorem ends_response {operation : Operation} {body : ResponseBody} :
    Ends broker.answerCall allowed (Provider.response operation).run vault (.ok body) final ↔
      ∃ choice, allowed choice ∧ (broker.respond ⟨operation, choice.fates⟩ vault).outcome = .returned (.ok body) ∧
        (broker.respond ⟨operation, choice.fates⟩ vault).state = final := by
  refine Action.ends_perform.trans (exists_congr fun choice => and_congr_right fun _ => and_congr_left fun _ => ?_)
  change Except.mapError ProviderFault.toProviderError
    (brokerReply (broker.respond ⟨operation, choice.fates⟩ vault).outcome) = .ok body ↔ _
  rw [mapError_eq_ok]
  cases (broker.respond ⟨operation, choice.fates⟩ vault).outcome with
  | killed => simp [brokerReply]
  | returned result => cases result <;> simp [brokerReply]

/-- A check lets a handler go on where it holds. -/
theorem ends_check {result : Except ProtocolError Unit} {value : Unit} :
    Ends broker.answerCall allowed (Provider.check result).run vault (.ok value) final ↔
      result = .ok () ∧ vault = final := by
  rw [Provider.check, ends_ofExcept, mapError_eq_ok]

/-- Calls to D-Bus leave the vault as it is. -/
theorem ends_of_isBus {α : Type} {action : HandlerAction α} {value : Except SecretServiceError α}
    (h : Ends broker.answerCall allowed action.run vault value final)
    (hcalls : Action.Calls ProviderCall.IsBus action) :
    final = vault := by
  refine Ends.of_calls (· = vault) (fun request hrequest choice state hstate => ?_) h hcalls rfl
  cases request with
  | broker operation => exact hrequest.elim
  | _ => exact hstate

/-- What is undone ends in an error. -/
theorem ends_orUndo {α : Type} {action : HandlerAction α} {undo : HandlerAction Unit} {value : α}
    (h : Ends broker.answerCall allowed (orUndo action undo).run vault (.ok value) final) :
    Ends broker.answerCall allowed action.run vault (.ok value) final := by
  obtain ⟨outcome, middle, hattempt, h⟩ := Action.ends_bind_ok.mp h
  obtain ⟨result, hresult, haction⟩ := Action.ends_attempt.mp hattempt
  cases hresult
  cases outcome with
  | error error =>
      obtain ⟨_, _, -, hthrow⟩ := Action.ends_bind_ok.mp h
      cases (Action.ends_throw.mp hthrow).1
  | ok found =>
      obtain ⟨hfound, rfl⟩ := Action.ends_pure.mp h
      cases hfound
      exact haction

variable {secret : SecretBytes} {id : Uuid} {entry : ItemMetadata × SecretBytes} {item : ItemMetadata}
  {paths : List String} {entries : List (ItemMetadata × SecretBytes)}

theorem ends_provider_createItem {collection : Uuid} {label contentType : String} {attributes : BTreeMap String String}
    {replace : Bool} {draws : Draws} {result : ItemMetadata × List Uuid × List Uuid}
    (h : Ends broker.answerCall allowed
      (Provider.createItem collection label attributes contentType secret replace draws).run vault (.ok result) final) :
    ∃ fates body, (broker.respond ⟨.createOrReplaceItem ⟨1, draws.id, collection, label, attributes, contentType,
        draws.now, draws.now, draws.generation⟩ secret replace, fates⟩ vault).outcome = .returned (.ok body) ∧
      (broker.respond ⟨.createOrReplaceItem ⟨1, draws.id, collection, label, attributes, contentType, draws.now,
        draws.now, draws.generation⟩ secret replace, fates⟩ vault).state = final := by
  unfold Provider.createItem at h
  obtain ⟨_, _, hcheck, h⟩ := Action.ends_bind_ok.mp h
  obtain ⟨-, rfl⟩ := ends_check.mp hcheck
  obtain ⟨_, _, hcheck, h⟩ := Action.ends_bind_ok.mp h
  obtain ⟨-, rfl⟩ := ends_check.mp hcheck
  obtain ⟨_, _, hcheck, h⟩ := Action.ends_bind_ok.mp h
  obtain ⟨-, rfl⟩ := ends_check.mp hcheck
  obtain ⟨body, middle, hbody, h⟩ := Action.ends_bind_ok.mp h
  obtain ⟨choice, -, houtcome, hstate⟩ := ends_response.mp hbody
  cases body with
  | replacedItem created replaced failed =>
      obtain ⟨-, rfl⟩ := Action.ends_pure.mp h
      exact ⟨choice.fates, _, houtcome, hstate⟩
  | _ => cases (Action.ends_throw.mp h).1

theorem calls_isBus_emit (signal : BusSignal) (error : String → SecretServiceError) :
    Action.Calls ProviderCall.IsBus (emit signal error) :=
  calls_perform trivial

theorem calls_isBus_register (path : String) (object : BusObject) (error : String → SecretServiceError) :
    Action.Calls ProviderCall.IsBus (register path object error) :=
  calls_perform trivial

theorem calls_isBus_tryUnregister (path : String) : Action.Calls ProviderCall.IsBus (tryUnregister path) :=
  calls_bind (calls_attempt (calls_perform trivial)) fun _ => calls_pure _

theorem ends_ownerOf {sender : Option String} {owner : String} :
    Ends broker.answerCall allowed (Action.ofExcept (ownerOf sender) : HandlerAction String).run vault
      (.ok owner) final ↔
      sender = some owner ∧ vault = final := by
  rw [ends_ofExcept]
  cases sender <;> simp [ownerOf]

/-- A successful CreateItem is one request of the broker with the decoded secret. -/
theorem ends_createItem {provider : Provider} {collection : Uuid} {sender : Option String}
    {properties : BTreeMap String DbusValue} {sent : DbusSecret} {replace : Bool} {draws : Draws}
    {result : String × String}
    (h : Ends broker.answerCall allowed
      (CollectionObject.createItem provider collection sender properties sent replace draws).run vault
        (.ok result) final) :
    ∃ owner session secret contentType label attributes fates body, sender = some owner ∧
      provider.decodeSecret owner sent = .ok (session, secret, contentType) ∧
      (broker.respond ⟨.createOrReplaceItem ⟨1, draws.id, collection, label, attributes, contentType, draws.now,
        draws.now, draws.generation⟩ secret replace, fates⟩ vault).outcome = .returned (.ok body) ∧
      (broker.respond ⟨.createOrReplaceItem ⟨1, draws.id, collection, label, attributes, contentType, draws.now,
        draws.now, draws.generation⟩ secret replace, fates⟩ vault).state = final := by
  unfold CollectionObject.createItem at h
  obtain ⟨owner, _, howner, hlabel⟩ := Action.ends_bind_ok.mp h
  obtain ⟨hsender, rfl⟩ := ends_ownerOf.mp howner
  obtain ⟨⟨label, attributes⟩, _, hproperties, hdecode⟩ := Action.ends_bind_ok.mp hlabel
  obtain ⟨-, rfl⟩ := Action.ends_ofExcept.mp hproperties
  obtain ⟨⟨session, secret, contentType⟩, _, hsecret, hcheck⟩ := Action.ends_bind_ok.mp hdecode
  obtain ⟨hdecoded, rfl⟩ := Action.ends_ofExcept.mp hsecret
  obtain ⟨_, _, hvalid, hcreate⟩ := Action.ends_bind_ok.mp hcheck
  obtain ⟨-, rfl⟩ := ends_check.mp (Action.ends_mapError_ok.mp hvalid)
  obtain ⟨⟨item, replaced, failed⟩, _, hitem, hclean⟩ := Action.ends_bind_ok.mp hcreate
  obtain ⟨fates, body, houtcome, rfl⟩ := ends_provider_createItem (Action.ends_mapError_ok.mp hitem)
  refine ⟨owner, session, secret, contentType, label, attributes, fates, body, hsender, mapError_eq_ok.mp hdecoded,
    houtcome, ?_⟩
  -- the calls that follow reach only D-Bus, as long as the item is registered
  obtain ⟨_, _, hreplaced, hregister⟩ := Action.ends_bind_ok.mp hclean
  have hcleaned := ends_of_isBus hreplaced (calls_forM fun replaced _ =>
    calls_bind (calls_isBus_tryUnregister _) fun _ => calls_isBus_emit _ _)
  obtain ⟨_, _, hobject, hemit⟩ := Action.ends_bind_ok.mp hregister
  have hregistered := ends_of_isBus (ends_orUndo hobject) (calls_isBus_register _ _ _)
  obtain ⟨_, _, hsignal, hend⟩ := Action.ends_bind_ok.mp hemit
  have hemitted := ends_of_isBus hsignal (calls_isBus_emit _ _)
  rw [← hcleaned, ← hregistered, ← hemitted]
  exact (Action.ends_pure.mp hend).2

/-- What GetItem answers with a secret is what is visible. -/
theorem visible_of_getItem {fates : Fates BackendError} {body : ResponseBody}
    (h : (broker.respond ⟨.getItem id true, fates⟩ vault).outcome = .returned (.ok body)) :
    ∃ item secret, body = .item item (some secret) ∧ (broker.visible vault).items[id]? = some (item, secret) := by
  refine of_respond_ok (fun body _ => ∃ item secret, body = .item item (some secret) ∧
    (broker.visible vault).items[id]? = some (item, secret)) h ?_
  simp only [perform, getItem, wp_bind, wp_getItemMetadata]
  refine ⟨trivial, fun _ _ => trivial, either_intro (fun item hitem => ?_) fun _ _ => trivial⟩
  simp only [if_true, wp_bind, wp_readCredential, wp_ofExcept, wp_pure]
  refine ⟨trivial, fun _ _ => trivial, trivial, either_intro (fun secret hsecret => ?_) fun _ _ => trivial⟩
  refine ⟨trivial, item, secret, rfl, visible_items.mpr ⟨itemAt_eq_ok.mp hitem, ?_⟩⟩
  exact secretAt_eq_some.mp (toOption_eq_some.mpr hsecret)

theorem id_of_visible (h : (broker.visible vault).items[id]? = some entry) : entry.1.id = id :=
  RecordKind.key_of_stored (visible_items.mp h).1

/-- An undisturbed GetItem answers a visible item. -/
theorem getItem_of_visible (h : (broker.visible vault).items[id]? = some (item, secret)) :
    (broker.respond ⟨.getItem id true, undisturbed⟩ vault).outcome = .returned (.ok (.item item (some secret))) := by
  obtain ⟨hstored, hsecret⟩ := visible_items.mp h
  have hview := broker.view_getItem vault id true
  rw [itemAt_eq_ok.mpr hstored] at hview
  simp only [bind, Except.bind, if_true, hsecret, loadSecret, SecretBytes.new_bytes] at hview
  rw [respond, execute_undisturbed]
  exact congrArg Outcome.returned hview

/-- A setter reads an item with this identifier and leaves the vault as it is. -/
theorem ends_item_false {found : ItemMetadata × Option SecretBytes}
    (h : Ends broker.answerCall allowed (Provider.item id false).run vault (.ok found) final) :
    found.1.id = id ∧ vault = final := by
  obtain ⟨body, middle, hbody, hmatch⟩ := Action.ends_bind_ok.mp h
  obtain ⟨choice, -, houtcome, hstate⟩ := ends_response.mp hbody
  cases body with
  | item shown secret =>
      obtain ⟨hfound, hfinal⟩ := Action.ends_pure.mp hmatch
      cases hfound
      exact ⟨(shown_of_getItem houtcome shown (List.mem_singleton_self _)).1,
        (respond_read_state (.getItem id false)).symm.trans (hstate.trans hfinal)⟩
  | _ => cases (Action.ends_throw.mp hmatch).1

theorem ends_updateItem {updated : ItemMetadata} {secret : Option SecretBytes} {draws : Draws}
    (h : Ends broker.answerCall allowed (Provider.updateItem item secret draws).run vault (.ok updated) final) :
    ∃ fates body, (broker.respond ⟨Provider.updateRequest item secret draws, fates⟩ vault).outcome =
      .returned (.ok body) ∧
        (broker.respond ⟨Provider.updateRequest item secret draws, fates⟩ vault).state = final := by
  unfold Provider.updateItem at h
  obtain ⟨_, _, hlabel, hafterLabel⟩ := Action.ends_bind_ok.mp h
  obtain ⟨-, rfl⟩ := ends_check.mp hlabel
  obtain ⟨_, _, hattributes, hafterAttributes⟩ := Action.ends_bind_ok.mp hafterLabel
  obtain ⟨-, rfl⟩ := ends_check.mp hattributes
  obtain ⟨_, _, hcontentType, hrequest⟩ := Action.ends_bind_ok.mp hafterAttributes
  obtain ⟨-, rfl⟩ := ends_check.mp hcontentType
  obtain ⟨body, middle, hbody, hmatch⟩ := Action.ends_bind_ok.mp hrequest
  obtain ⟨choice, -, houtcome, hstate⟩ := ends_response.mp hbody
  cases body with
  | item shown current =>
      obtain ⟨-, rfl⟩ := Action.ends_pure.mp hmatch
      exact ⟨choice.fates, _, houtcome, hstate⟩
  | _ => cases (Action.ends_throw.mp hmatch).1

/-- A successful SetSecret is one update by the broker with the decoded secret. -/
theorem ends_setSecret {provider : Provider} {sender : Option String} {sent : DbusSecret} {draws : Draws}
    {result : Unit}
    (h : Ends broker.answerCall allowed (ItemObject.setSecret provider id sender sent draws).run vault
      (.ok result) final) :
    ∃ owner session secret contentType item expectedModified fates body, sender = some owner ∧
      provider.decodeSecret owner sent = .ok (session, secret, contentType) ∧ item.id = id ∧
      item.contentType = contentType ∧
      (broker.respond ⟨.updateItemCas item (some secret) expectedModified, fates⟩ vault).outcome =
        .returned (.ok body) ∧
      (broker.respond ⟨.updateItemCas item (some secret) expectedModified, fates⟩ vault).state = final := by
  unfold ItemObject.setSecret at h
  obtain ⟨owner, _, howner, hdecode⟩ := Action.ends_bind_ok.mp h
  obtain ⟨hsender, rfl⟩ := ends_ownerOf.mp howner
  obtain ⟨⟨session, secret, contentType⟩, _, hsecret, hchange⟩ := Action.ends_bind_ok.mp hdecode
  obtain ⟨hdecoded, rfl⟩ := Action.ends_ofExcept.mp hsecret
  unfold ItemObject.change at hchange
  obtain ⟨⟨item, current⟩, _, hread, hupdate⟩ := Action.ends_bind_ok.mp hchange
  obtain ⟨hid, rfl⟩ := ends_item_false (Action.ends_mapError_ok.mp hread)
  obtain ⟨updated, _, hsent, hnotify⟩ := Action.ends_bind_ok.mp hupdate
  obtain ⟨fates, body, houtcome, rfl⟩ := ends_updateItem (Action.ends_mapError_ok.mp hsent)
  have hnotified := ends_of_isBus hnotify (calls_bind (calls_isBus_emit _ _) fun _ => calls_isBus_emit _ _)
  let sentItem : ItemMetadata :=
    { item with contentType := contentType, modified := draws.now, currentGeneration := draws.generation }
  exact ⟨owner, session, secret, contentType, sentItem, item.modified, fates, body, hsender,
    mapError_eq_ok.mp hdecoded, hid, rfl, houtcome, hnotified.symm⟩

/-! ### Readers -/

theorem ends_readSecret (h : Ends broker.answerCall allowed (SecretService.readSecret id).run vault (.ok entry) final) :
    (broker.visible vault).items[id]? = some entry ∧ vault = final := by
  obtain ⟨⟨found, secret⟩, _, hitem, hend⟩ := Action.ends_bind_ok.mp h
  obtain ⟨body, middle, hbody, hmatch⟩ := Action.ends_bind_ok.mp (Action.ends_mapError_ok.mp hitem)
  obtain ⟨choice, -, houtcome, hstate⟩ := ends_response.mp hbody
  obtain ⟨item, shown, rfl, hvisible⟩ := visible_of_getItem houtcome
  obtain ⟨hfound, hmiddle⟩ := Action.ends_pure.mp hmatch
  cases hfound
  obtain ⟨hentry, hfinal⟩ := Action.ends_pure.mp hend
  cases hentry
  exact ⟨hvisible, (respond_read_state (.getItem id true)).symm.trans (hstate.trans (hmiddle.trans hfinal))⟩

theorem readSecret_ends (hcalm : allowed ⟨undisturbed, none⟩) (h : (broker.visible vault).items[id]? = some entry) :
    Ends broker.answerCall allowed (SecretService.readSecret id).run vault (.ok entry) vault := by
  refine Action.ends_bind_ok.mpr ⟨(entry.1, some entry.2), vault, Action.ends_mapError_ok.mpr ?_, .done _ _⟩
  exact Action.ends_bind_ok.mpr
    ⟨_, vault, ends_response.mpr ⟨_, hcalm, getItem_of_visible h, respond_read_state (.getItem id true)⟩,
    .done _ _⟩

/-- A path of a list and what is read for it. -/
def PathEntry (broker : Broker) (vault : Vault) (path : String) (entry : ItemMetadata × SecretBytes) : Prop :=
  ∃ id, itemId path = some id ∧ (broker.visible vault).items[id]? = some entry

theorem ends_readSecrets
    (h : Ends broker.answerCall allowed (SecretService.readSecrets paths).run vault (.ok entries) final) :
    List.Forall₂ (broker.PathEntry vault) paths entries ∧ vault = final := by
  induction paths generalizing entries final with
  | nil =>
      obtain ⟨hentries, hfinal⟩ := Action.ends_pure.mp h
      cases hentries
      exact ⟨.nil, hfinal⟩
  | cons path rest ih =>
      obtain ⟨id, _, hpath, hread⟩ := Action.ends_bind_ok.mp h
      obtain ⟨hid, rfl⟩ := Action.ends_ofExcept.mp hpath
      obtain ⟨entry, _, hentry, hothers⟩ := Action.ends_bind_ok.mp hread
      obtain ⟨hvisible, rfl⟩ := ends_readSecret hentry
      obtain ⟨others, _, hrest, hend⟩ := Action.ends_bind_ok.mp hothers
      obtain ⟨hpaths, hmiddle⟩ := ih hrest
      obtain ⟨hentries, hfinal⟩ := Action.ends_pure.mp hend
      cases hentries
      refine ⟨.cons ⟨id, ?_, hvisible⟩ hpaths, hmiddle.trans hfinal⟩
      cases hparsed : itemId path with
      | none =>
          rw [hparsed] at hid
          cases hid
      | some parsed =>
          rw [hparsed] at hid
          cases hid
          rfl

theorem readSecrets_ends (hcalm : allowed ⟨undisturbed, none⟩)
    (h : List.Forall₂ (broker.PathEntry vault) paths entries) :
    Ends broker.answerCall allowed (SecretService.readSecrets paths).run vault (.ok entries) vault := by
  induction h with
  | nil => exact .done _ _
  | cons hpath _ ih =>
      obtain ⟨id, hid, hvisible⟩ := hpath
      rw [SecretService.readSecrets, hid]
      refine Action.ends_bind_ok.mpr ⟨id, vault, .done _ _, ?_⟩
      exact Action.ends_bind_ok.mpr ⟨_, vault, readSecret_ends hcalm hvisible,
        Action.ends_bind_ok.mpr ⟨_, vault, ih, .done _ _⟩⟩

variable {reader : Provider} {owner : String} {session : Uuid} {draws : Draws}

theorem ends_getSecret {answer : DbusSecret}
    (h : Ends broker.answerCall allowed
      (ItemObject.getSecret reader id (some owner) (sessionPath session) draws).run vault (.ok answer) final) :
    ∃ item secret, (broker.visible vault).items[id]? = some (item, secret) ∧
      reader.encodeSecret owner session secret item.contentType (draws.iv 0) = .ok answer := by
  obtain ⟨found, _, howner, hread⟩ := Action.ends_bind_ok.mp h
  obtain ⟨hsender, rfl⟩ := ends_ownerOf.mp howner
  cases hsender
  rw [sessionId_sessionPath] at hread
  obtain ⟨⟨item, secret⟩, _, hentry, hencode⟩ := Action.ends_bind_ok.mp hread
  exact ⟨item, secret, (ends_readSecret hentry).1, mapError_eq_ok.mp (Action.ends_ofExcept.mp hencode).1⟩

theorem getSecret_ends (hcalm : allowed ⟨undisturbed, none⟩)
    (h : (broker.visible vault).items[id]? = some (item, secret)) {answer : DbusSecret}
    (hencoded : reader.encodeSecret owner session secret item.contentType (draws.iv 0) = .ok answer) :
    Ends broker.answerCall allowed
      (ItemObject.getSecret reader id (some owner) (sessionPath session) draws).run vault (.ok answer) vault := by
  refine Action.ends_bind_ok.mpr ⟨owner, vault, .done _ _, ?_⟩
  rw [sessionId_sessionPath]
  exact Action.ends_bind_ok.mpr ⟨_, vault, readSecret_ends hcalm h,
    Action.ends_ofExcept.mpr ⟨mapError_eq_ok.mpr hencoded, rfl⟩⟩

theorem ends_getSecrets {answers : BTreeMap String DbusSecret}
    (h : Ends broker.answerCall allowed
      (SecretService.getSecrets reader (some owner) paths (sessionPath session) draws).run vault (.ok answers) final) :
    ∃ entries values, List.Forall₂ (broker.PathEntry vault) paths entries ∧
      SecretService.encodeSecrets reader owner session draws.iv entries = .ok values ∧
      answers = .ofList values compare := by
  obtain ⟨found, _, howner, hread⟩ := Action.ends_bind_ok.mp h
  obtain ⟨hsender, rfl⟩ := ends_ownerOf.mp howner
  cases hsender
  rw [sessionId_sessionPath] at hread
  obtain ⟨entries, _, hentries, hencode⟩ := Action.ends_bind_ok.mp hread
  obtain ⟨values, _, hvalues, hend⟩ := Action.ends_bind_ok.mp hencode
  have hanswers := (Action.ends_pure.mp hend).1
  cases hanswers
  exact ⟨entries, values, (ends_readSecrets hentries).1, mapError_eq_ok.mp (Action.ends_ofExcept.mp hvalues).1, rfl⟩

theorem getSecrets_ends (hcalm : allowed ⟨undisturbed, none⟩) (h : List.Forall₂ (broker.PathEntry vault) paths entries)
    {values : List (String × DbusSecret)}
    (hencoded : SecretService.encodeSecrets reader owner session draws.iv entries = .ok values) :
    Ends broker.answerCall allowed
      (SecretService.getSecrets reader (some owner) paths (sessionPath session) draws).run vault
      (.ok (.ofList values compare)) vault := by
  refine Action.ends_bind_ok.mpr ⟨owner, vault, .done _ _, ?_⟩
  rw [sessionId_sessionPath]
  exact Action.ends_bind_ok.mpr ⟨entries, vault, readSecrets_ends hcalm h, Action.ends_bind_ok.mpr
    ⟨values, vault, Action.ends_ofExcept.mpr ⟨mapError_eq_ok.mpr hencoded, rfl⟩, .done _ _⟩⟩

variable {key : SessionKey}

/-- The answer of a list of secrets for an item of the list. -/
theorem carries_of_getSecrets (hcipher : reader.cipher.Lawful)
    (hsession : reader.sessions[session]? = some ⟨owner, key⟩)
    (hitem : (broker.visible vault).items[id]? = some (item, secret)) (hpath : itemPath id ∈ paths)
    {answers : BTreeMap String DbusSecret}
    (h : Ends broker.answerCall allowed
      (SecretService.getSecrets reader (some owner) paths (sessionPath session) draws).run vault (.ok answers) final) :
    ∃ answer, answers[itemPath id]? = some answer ∧ reader.Carries key secret.bytes item.contentType answer := by
  obtain ⟨entries, values, hentries, hvalues, rfl⟩ := ends_getSecrets h
  have hcarried := Provider.encodeSecrets_eq_ok hcipher hsession hvalues
  -- the path is among the keys of the answer
  obtain ⟨entry, hentry, found, hfound, hvisible⟩ := exists_of_forall₂ hentries hpath
  cases (itemId_itemPath id).symm.trans hfound
  cases hitem.symm.trans hvisible
  obtain ⟨value, hvalue, hkey, -⟩ := exists_of_forall₂ hcarried hentry
  rw [id_of_visible hitem] at hkey
  obtain ⟨answer, hanswer, hmem⟩ := KeyedRecords.exists_getElem?_ofList (List.mem_map.mpr ⟨value, hvalue, hkey⟩)
  refine ⟨answer, hanswer, ?_⟩
  -- whichever of its values the answer holds was read for the same item
  obtain ⟨other, hother, hpathOther, hcarries⟩ := exists_of_forall₂ (List.Forall₂.flip hcarried) hmem
  obtain ⟨_, -, otherId, -, hvisibleOther⟩ := exists_of_forall₂ (List.Forall₂.flip hentries) hother
  obtain rfl : id = otherId := (itemPath_injective hpathOther).trans (id_of_visible hvisibleOther)
  cases hitem.symm.trans hvisibleOther
  exact hcarries

variable (broker reader owner session key) in
/-- Through this session every client gets these bytes from the item, and the reader does answer if nothing
fails. -/
structure ReadsBack (id : Uuid) (clear : Blob) (contentType : String) (vault : Vault) : Prop where
  getSecret : ∀ draws answer final, Ends broker.answerCall (fun _ => True)
    (ItemObject.getSecret reader id (some owner) (sessionPath session) draws).run vault (.ok answer) final →
      reader.Carries key clear contentType answer
  getSecret_returns : ∀ draws : Draws, (∀ n, (draws.iv n).isSome) → ∃ answer, Ends broker.answerCall CallChoice.Calm
    (ItemObject.getSecret reader id (some owner) (sessionPath session) draws).run vault (.ok answer) vault
  getSecrets : ∀ paths, itemPath id ∈ paths → ∀ draws answers final, Ends broker.answerCall (fun _ => True)
    (SecretService.getSecrets reader (some owner) paths (sessionPath session) draws).run vault (.ok answers) final →
      ∃ answer, answers[itemPath id]? = some answer ∧ reader.Carries key clear contentType answer
  getSecrets_returns : ∀ paths, (∀ path ∈ paths, ∃ entry, broker.PathEntry vault path entry) →
    ∀ draws : Draws, (∀ n, (draws.iv n).isSome) → ∃ answers, Ends broker.answerCall CallChoice.Calm
      (SecretService.getSecrets reader (some owner) paths (sessionPath session) draws).run vault (.ok answers) vault

theorem readsBack_of_visible (hcipher : reader.cipher.Lawful) (hsession : reader.sessions[session]? = some ⟨owner, key⟩)
    (h : (broker.visible vault).items[id]? = some (item, secret)) :
    broker.ReadsBack reader owner session key id secret.bytes item.contentType vault where
  getSecret draws answer final hends := by
    obtain ⟨found, read, hvisible, hencoded⟩ := ends_getSecret hends
    cases h.symm.trans hvisible
    exact Provider.encodeSecret_eq_ok hcipher hsession hencoded
  getSecret_returns draws hiv := by
    obtain ⟨answer, hencoded⟩ := Provider.exists_encodeSecret hsession secret item.contentType (hiv 0)
    exact ⟨answer, getSecret_ends CallChoice.calm h hencoded⟩
  getSecrets paths hpath draws answers final hends := carries_of_getSecrets hcipher hsession h hpath hends
  getSecrets_returns paths hpaths draws hiv := by
    obtain ⟨entries, hentries⟩ := exists_forall₂ hpaths
    obtain ⟨values, hvalues⟩ := Provider.exists_encodeSecrets hsession hiv entries
    exact ⟨_, getSecrets_ends CallChoice.calm hentries hvalues⟩

end Broker

/-! ### Writers -/

/-- A call that stores a secret. -/
inductive SecretStore where
  | createItem (collection : Uuid) (properties : BTreeMap String DbusValue) (replace : Bool) (draws : Draws)
  | setSecret (item : Uuid) (draws : Draws)

namespace SecretStore

/-- The item that has the secret afterwards. -/
def id : SecretStore → Uuid
  | .createItem _ _ _ draws => draws.id
  | .setSecret item _ => item

def handler (writer : Provider) (sender : Option String) (sent : DbusSecret) : SecretStore → HandlerAction Unit
  | .createItem collection properties replace draws => do
      let _ ← CollectionObject.createItem writer collection sender properties sent replace draws
      pure ()
  | .setSecret item draws => ItemObject.setSecret writer item sender sent draws

/-- Nothing is wrong with the call besides its secret. -/
def WellFormed : SecretStore → Prop
  | .createItem _ properties _ _ => ∃ fields, CollectionObject.itemProperties properties = .ok fields
  | .setSecret _ _ => True

variable {broker : Broker} {vault stored : Vault} {allowed : CallChoice → Prop} {writer : Provider} {owner : String}
  {sent : DbusSecret}

/-- What is visible after a call that succeeded. -/
theorem visible_of_ends (hsound : broker.Sound vault) {store : SecretStore} {session : Uuid} {secret : SecretBytes}
    {contentType : String} (hdecoded : writer.decodeSecret owner sent = .ok (session, secret, contentType))
    (h : Ends broker.answerCall allowed (store.handler writer (some owner) sent).run vault (.ok ()) stored) :
    broker.Sound stored ∧ ∃ item, (broker.visible stored).items[store.id]? = some (item, secret) ∧
      item.contentType = contentType := by
  cases store with
  | createItem collection properties replace draws =>
      obtain ⟨result, middle, hcreate, hend⟩ := Action.ends_bind_ok.mp h
      obtain ⟨-, rfl⟩ := Action.ends_pure.mp hend
      obtain ⟨_, _, _, _, label, attributes, fates, body, hsender, hsecret, houtcome, rfl⟩ :=
        Broker.ends_createItem hcreate
      cases hsender
      cases hdecoded.symm.trans hsecret
      exact ⟨hsound.respond _, _, (Broker.items_of_createOrReplaceItem houtcome).2, rfl⟩
  | setSecret id draws =>
      obtain ⟨_, _, _, _, item, expectedModified, fates, body, hsender, hsecret, rfl, hcontentType, houtcome, rfl⟩ :=
        Broker.ends_setSecret h
      cases hsender
      cases hdecoded.symm.trans hsecret
      obtain ⟨existing, hvisible⟩ := hsound.items_of_updateItemCas houtcome
      exact ⟨hsound.respond _, _, hvisible, hcontentType⟩

/-- A secret that cannot be decoded ends the call before it reaches the broker. -/
theorem handler_of_error (store : SecretStore) {error : ProviderError}
    (h : writer.decodeSecret owner sent = .error error) :
    ∃ fault, (store.handler writer (some owner) sent).run = .done (.error fault) ∧
      (store.WellFormed → fault = .ofProvider error) := by
  cases store with
  | createItem collection properties replace draws =>
      simp only [handler, CollectionObject.createItem, ownerOf, ofExcept_ok_bind]
      cases hproperties : CollectionObject.itemProperties properties with
      | error fault => exact ⟨.ofProvider fault, rfl, fun ⟨fields, hfields⟩ => by cases hproperties.symm.trans hfields⟩
      | ok fields =>
          refine ⟨.ofProvider error, ?_, fun _ => rfl⟩
          simp only [Except.mapError, ofExcept_ok_bind, h]
          rfl
  | setSecret id draws =>
      refine ⟨.ofProvider error, ?_, fun _ => rfl⟩
      simp only [handler, ItemObject.setSecret, ownerOf, ofExcept_ok_bind, h]
      rfl

end SecretStore

/-- A secret that was stored through one session comes out of every other one as it went in, until its item
is written or deleted; a secret that is too large is refused and changes nothing. -/
theorem stored_secret_is_read_back (broker : Broker) {vault : Vault} (hvault : broker.Reachable vault)
    {writer reader : Provider} (hwriter : writer.cipher.Lawful) (hreader : reader.cipher.Lawful)
    {owner₁ owner₂ : String}
    {session₁ session₂ : Uuid} {key₁ key₂ : SessionKey}
    (hsession₁ : writer.sessions[session₁]? = some ⟨owner₁, key₁⟩)
    (hsession₂ : reader.sessions[session₂]? = some ⟨owner₂, key₂⟩) {clear parameters value : Blob}
    (hvalue : key₁.encrypt writer.cipher parameters clear = .ok value) (contentType : String) (store : SecretStore) :
    let handler := store.handler writer (some owner₁) ⟨sessionPath session₁, parameters, value, contentType⟩
    (∀ stored, Ends broker.answerCall (fun _ => True) handler.run vault (.ok ()) stored →
      ∀ steps, (∀ start ∈ broker.starts steps stored, broker.Spares store.id start.1 start.2) →
        broker.ReadsBack reader owner₂ session₂ key₂ store.id clear contentType (broker.after steps stored)) ∧
      (maxSecretBytes < clear.length → ∀ outcome final,
        Ends broker.answerCall (fun _ => True) handler.run vault outcome final → final = vault ∧
          ∃ error, outcome = .error error ∧ (store.WellFormed → error = .ofProvider .secretTooLarge)) := by
  intro handler
  have hdecode : writer.decodeSecret owner₁ ⟨sessionPath session₁, parameters, value, contentType⟩ = _ :=
    Provider.decodeSecret_eq hwriter hsession₁ hvalue
  refine ⟨fun stored hstored steps hspares => ?_, fun hlarge outcome final hends => ?_⟩
  · have hsmall : clear.length ≤ maxSecretBytes := by
      by_contra hlarge
      rw [dif_neg hlarge] at hdecode
      obtain ⟨error, hrun, -⟩ := SecretStore.handler_of_error store hdecode
      rw [hrun] at hstored
      cases (ends_done.mp hstored).1
    rw [dif_pos hsmall] at hdecode
    obtain ⟨hsound, item, hitem, hcontentType⟩ := SecretStore.visible_of_ends hvault.sound hdecode hstored
    rw [← hcontentType]
    exact Broker.readsBack_of_visible hreader hsession₂ (hsound.items_after steps hspares hitem)
  · rw [dif_neg (not_le.mpr hlarge)] at hdecode
    obtain ⟨error, hrun, herror⟩ := SecretStore.handler_of_error store hdecode
    rw [hrun] at hends
    obtain ⟨rfl, rfl⟩ := ends_done.mp hends
    exact ⟨rfl, error, rfl, herror⟩

namespace SampleCipher

/-- Padding to whole blocks, as PKCS#7 has it. -/
def pad (text : Blob) : Blob :=
  text ++ List.replicate (16 - text.length % 16) (UInt8.ofNat (16 - text.length % 16))

def unpad (padded : Blob) : Option Blob := do
  let last ← padded.getLast?
  let kept := padded.length - last.toNat
  if padded.length % 16 = 0 ∧ last.toNat ≤ 16 ∧ padded.drop kept = List.replicate last.toNat last then
    some (padded.take kept)
  else none

theorem unpad_pad (text : Blob) : unpad (pad text) = some text := by
  have hpos : 0 < 16 - text.length % 16 := by omega
  have hcount : 16 - text.length % 16 ≤ 16 := Nat.sub_le ..
  have hwhole : (text.length + (16 - text.length % 16)) % 16 = 0 := by omega
  rw [pad]
  generalize 16 - text.length % 16 = count at hpos hcount hwhole
  have hlast : (UInt8.ofNat count).toNat = count := UInt8.toNat_ofNat_of_lt' (Nat.lt_of_le_of_lt hcount (by decide))
  have hlength : (text ++ List.replicate count (UInt8.ofNat count)).length - count = text.length := by simp
  have hend : (text ++ List.replicate count (UInt8.ofNat count)).getLast? = some (UInt8.ofNat count) := by
    rw [List.getLast?_append, List.getLast?_replicate, if_neg hpos.ne']
    rfl
  simp [unpad, hend, hlast, hcount, hwhole]

/-- A byte of the key against one of the initialization vector, in every block alike. -/
def mask (key iv : Vector UInt8 16) (text : Blob) : Blob :=
  text.mapIdx fun i byte => byte ^^^ (key[i % 16] ^^^ iv[i % 16])

theorem mask_mask (key iv : Vector UInt8 16) (text : Blob) : mask key iv (mask key iv text) = text := by
  refine List.ext_getElem? fun i => ?_
  simp [mask, Function.comp_def]

end SampleCipher

/-- A cipher of padded blocks. -/
def sampleCipher : SessionCipher where
  encryptPadded key iv text := SampleCipher.mask key iv (SampleCipher.pad text)
  decryptPadded key iv encrypted := SampleCipher.unpad (SampleCipher.mask key iv encrypted)

theorem lawful_sampleCipher : sampleCipher.Lawful := by
  intro key iv text
  simp only [sampleCipher, SampleCipher.mask_mask, SampleCipher.unpad_pad]

/-- A secret set through a plain session. -/
def plainSetSecret : HandlerAction Unit :=
  ItemObject.change ⟨9⟩ (fun item => { item with contentType := "text/plain" }) (some ⟨[115, 52], by decide⟩)
    ⟨6, ⟨1⟩, ⟨2⟩, fun _ => none⟩ fun collection => do
      emit (.itemChanged collection ⟨9⟩) fun _ => .failed "unable to emit item signal"
      emit (.secretChanged ⟨9⟩) fun _ => .failed "unable to emit secret signal"

def plainSetRun : Except SecretServiceError Unit × Vault :=
  runUnder (cborBroker inMemoryBackend).answerCall ⟨undisturbed, none⟩ plainSetSecret.run
    ((cborBroker inMemoryBackend).after Broker.oneItemSteps ∅)

theorem ends_plainSetRun :
    Ends (cborBroker inMemoryBackend).answerCall (fun _ => True) plainSetSecret.run
      ((cborBroker inMemoryBackend).after Broker.oneItemSteps ∅) plainSetRun.1 plainSetRun.2 := by
  have hends : Ends (cborBroker inMemoryBackend).answerCall (fun _ => True) plainSetSecret.run _ _ _ :=
    ends_runUnder ⟨undisturbed, none⟩ trivial _ ((cborBroker inMemoryBackend).after Broker.oneItemSteps ∅)
  rwa [← plainSetRun] at hends

/-- The secret is set, and the item is still there behind another request. -/
theorem plainSetRun_ok :
    plainSetRun.1 = .ok () ∧ (((cborBroker inMemoryBackend).respond ⟨.createCollection ⟨1, ⟨6⟩, "work", 7, 7⟩,
      undisturbed⟩ plainSetRun.2).state.lookup (.itemMetadata ⟨9⟩)).isSome := by decide +kernel

theorem Broker.spares_createCollection {broker : Broker} {collection : CollectionMetadata} {id : Uuid} {vault : Vault}
    (h : ((broker.respond ⟨.createCollection collection, undisturbed⟩ vault).state.lookup (.itemMetadata id)).isSome) :
    ∀ start ∈ broker.starts [⟨.createCollection collection, undisturbed⟩] vault, broker.Spares id start.1 start.2 :=
  List.forall_mem_cons.mpr ⟨⟨by simp [Operation.suppliedItem], h⟩, List.forall_mem_nil _⟩

theorem stored_secret_is_read_back_plain_to_dh :
    let writer := (Provider.new sampleCipher).insertSession ⟨4⟩ ":1.7" .plain
    let reader := (Provider.new sampleCipher).insertSession ⟨5⟩ ":1.8" (.dh (Vector.replicate 16 3))
    ∃ stored, Ends (cborBroker inMemoryBackend).answerCall (fun _ => True) (ItemObject.setSecret writer ⟨9⟩
        (some ":1.7") ⟨sessionPath ⟨4⟩, [], [115, 52], "text/plain"⟩ ⟨6, ⟨1⟩, ⟨2⟩, fun _ => none⟩).run
        ((cborBroker inMemoryBackend).after Broker.oneItemSteps ∅) (.ok ()) stored ∧
      (cborBroker inMemoryBackend).ReadsBack reader ":1.8" ⟨5⟩ (.dh (Vector.replicate 16 3)) ⟨9⟩ [115, 52] "text/plain"
        ((cborBroker inMemoryBackend).after [⟨.createCollection ⟨1, ⟨6⟩, "work", 7, 7⟩, undisturbed⟩] stored) := by
  intro writer reader
  have hwriter : writer.sessions[(⟨4⟩ : Uuid)]? = some ⟨":1.7", .plain⟩ := Std.ExtTreeMap.getElem?_insert_self
  have hreader : reader.sessions[(⟨5⟩ : Uuid)]? = some ⟨":1.8", .dh (Vector.replicate 16 3)⟩ :=
    Std.ExtTreeMap.getElem?_insert_self
  have hvalue : SessionKey.plain.encrypt writer.cipher [] [115, 52] = .ok [115, 52] := rfl
  have hdecoded : writer.decodeSecret ":1.7" ⟨sessionPath ⟨4⟩, [], [115, 52], "text/plain"⟩ = _ :=
    (Provider.decodeSecret_eq lawful_sampleCipher hwriter hvalue).trans (dif_pos (by decide))
  have hhandler : ItemObject.setSecret writer ⟨9⟩ (some ":1.7") ⟨sessionPath ⟨4⟩, [], [115, 52], "text/plain"⟩
      ⟨6, ⟨1⟩, ⟨2⟩, fun _ => none⟩ = plainSetSecret := by
    simp only [ItemObject.setSecret, ownerOf, ofExcept_ok_bind, hdecoded]
    rfl
  have hends := ends_plainSetRun
  rw [plainSetRun_ok.1, ← hhandler] at hends
  exact ⟨_, hends, (stored_secret_is_read_back (cborBroker inMemoryBackend) ⟨Broker.oneItemSteps, rfl⟩
    lawful_sampleCipher lawful_sampleCipher hwriter hreader hvalue "text/plain"
    (.setSecret ⟨9⟩ ⟨6, ⟨1⟩, ⟨2⟩, fun _ => none⟩)).1 _ hends _ (Broker.spares_createCollection plainSetRun_ok.2)⟩

end WincredLibsecret
