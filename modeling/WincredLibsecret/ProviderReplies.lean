import WincredLibsecret.ProviderRollback
import WincredLibsecret.ProviderSecrets

/-! The reply to a request for several secrets. The reply names every item by the path that the provider prints for
it, while a request may spell the path of an item in another way that the provider reads as the same. -/

namespace WincredLibsecret

open Effect TextCodec

namespace Provider

variable {provider : Provider} {owner : String} {session : Uuid}

theorem exists_key_of_encodeSecret {secret : SecretBytes} {contentType : String} {iv : Option (Vector UInt8 16)}
    {encoded : DbusSecret} (h : provider.encodeSecret owner session secret contentType iv = .ok encoded) :
    ∃ key, provider.sessions[session]? = some ⟨owner, key⟩ := by
  obtain ⟨⟨recordOwner, key⟩, hrecord, -⟩ := bind_eq_ok.mp h
  obtain ⟨hsession, rfl⟩ := sessionOf_eq_ok.mp hrecord
  exact ⟨key, hsession⟩

variable (provider owner session) in
/-- The reply to one item: its path, and its secret for the client of the session. -/
def Replies (entry : ItemMetadata × SecretBytes) (value : String × DbusSecret) : Prop :=
  value.1 = itemPath entry.1.id ∧ ∃ key, provider.sessions[session]? = some ⟨owner, key⟩ ∧
    provider.Carries key entry.2.bytes entry.1.contentType value.2

theorem replies_of_encodeSecrets (hcipher : provider.cipher.Lawful) {iv : Nat → Option (Vector UInt8 16)}
    {entries : List (ItemMetadata × SecretBytes)} {values : List (String × DbusSecret)}
    (h : SecretService.encodeSecrets provider owner session iv entries = .ok values) :
    List.Forall₂ (provider.Replies owner session) entries values := by
  cases entries with
  | nil =>
      cases h
      exact .nil
  | cons entry rest =>
      obtain ⟨encoded, hencoded, -⟩ := bind_eq_ok.mp h
      obtain ⟨key, hsession⟩ := exists_key_of_encodeSecret hencoded
      exact (encodeSecrets_eq_ok hcipher hsession h).imp fun _ _ hvalue => ⟨hvalue.1, key, hsession, hvalue.2⟩

end Provider

namespace Broker

variable {broker : Broker} {vault final : Vault} {allowed : CallChoice → Prop} {provider : Provider}

/-- What a successful GetSecrets read and made of it. -/
theorem replies_of_getSecrets (hcipher : provider.cipher.Lawful) {sender : Option String} {paths : List String}
    {session : String} {draws : Draws} {answers : BTreeMap String DbusSecret}
    (h : Ends broker.answerCall allowed (SecretService.getSecrets provider sender paths session draws).run vault
      (.ok answers) final) :
    ∃ owner id entries values, sender = some owner ∧ sessionId session = some id ∧
      List.Forall₂ (broker.PathEntry vault) paths entries ∧
      List.Forall₂ (provider.Replies owner id) entries values ∧ answers = .ofList values compare := by
  obtain ⟨owner, _, howner, hread⟩ := Action.ends_bind_ok.mp h
  obtain ⟨hsender, rfl⟩ := ends_ownerOf.mp howner
  cases hsession : sessionId session with
  | none =>
      rw [hsession] at hread
      cases (Action.ends_throw.mp hread).1
  | some id =>
      rw [hsession] at hread
      obtain ⟨entries, _, hentries, hencode⟩ := Action.ends_bind_ok.mp hread
      obtain ⟨values, _, hvalues, hend⟩ := Action.ends_bind_ok.mp hencode
      have hanswers := (Action.ends_pure.mp hend).1
      cases hanswers
      exact ⟨owner, id, entries, values, hsender, rfl, (ends_readSecrets hentries).1,
        Provider.replies_of_encodeSecrets hcipher (mapError_eq_ok.mp (Action.ends_ofExcept.mp hvalues).1), rfl⟩

variable (broker vault provider) in
/-- The reply has exactly the requested paths, each with the secret and the content type of its item for the client
of the session. -/
structure AnswersRequest (sender : Option String) (session : String) (paths : List String)
    (answers : BTreeMap String DbusSecret) : Prop where
  mem_iff : ∀ path, path ∈ answers ↔ path ∈ paths
  secret : ∀ path ∈ paths, ∃ owner sessionKey key id item secret answer, sender = some owner ∧
    sessionId session = some sessionKey ∧ provider.sessions[sessionKey]? = some ⟨owner, key⟩ ∧ itemId path = some id ∧
    (broker.visible vault).items[id]? = some (item, secret) ∧ answers[path]? = some answer ∧
    provider.Carries key secret.bytes item.contentType answer

/-- The keys of a reply are the printed paths of the requested items. -/
theorem mem_replies_iff {owner : String} {session : Uuid} {paths : List String}
    {entries : List (ItemMetadata × SecretBytes)} {values : List (String × DbusSecret)}
    (hentries : List.Forall₂ (broker.PathEntry vault) paths entries)
    (hvalues : List.Forall₂ (provider.Replies owner session) entries values) {path : String} :
    path ∈ (.ofList values compare : BTreeMap String DbusSecret) ↔
      ∃ requested ∈ paths, ∃ id, itemId requested = some id ∧ path = itemPath id := by
  rw [Std.ExtTreeMap.mem_ofList, List.contains_iff_mem]
  constructor
  · intro hmem
    obtain ⟨value, hvalue, rfl⟩ := List.mem_map.mp hmem
    obtain ⟨entry, hentry, hreplies⟩ := exists_of_forall₂ hvalues.flip hvalue
    obtain ⟨requested, hrequested, id, hid, hvisible⟩ := exists_of_forall₂ hentries.flip hentry
    exact ⟨requested, hrequested, id, hid, by rw [hreplies.1, id_of_visible hvisible]⟩
  · rintro ⟨requested, hrequested, id, hid, rfl⟩
    obtain ⟨entry, hentry, found, hfound, hvisible⟩ := exists_of_forall₂ hentries hrequested
    cases hid.symm.trans hfound
    obtain ⟨value, hvalue, hreplies⟩ := exists_of_forall₂ hvalues hentry
    exact List.mem_map.mpr ⟨value, hvalue, by rw [hreplies.1, id_of_visible hvisible]⟩

/-- Whatever stands under the printed path of an item is its secret. -/
theorem carries_of_replies {owner : String} {session : Uuid} {paths : List String}
    {entries : List (ItemMetadata × SecretBytes)} {values : List (String × DbusSecret)}
    (hentries : List.Forall₂ (broker.PathEntry vault) paths entries)
    (hvalues : List.Forall₂ (provider.Replies owner session) entries values) {id : Uuid} (hpath : itemPath id ∈ paths) :
    ∃ key item secret answer, provider.sessions[session]? = some ⟨owner, key⟩ ∧
      (broker.visible vault).items[id]? = some (item, secret) ∧
      (.ofList values compare : BTreeMap String DbusSecret)[itemPath id]? = some answer ∧
      provider.Carries key secret.bytes item.contentType answer := by
  have hmem := (mem_replies_iff hentries hvalues).mpr ⟨_, hpath, id, itemId_itemPath id, rfl⟩
  rw [Std.ExtTreeMap.mem_ofList, List.contains_iff_mem] at hmem
  obtain ⟨answer, hanswer, hvalue⟩ := KeyedRecords.exists_getElem?_ofList hmem
  obtain ⟨⟨item, secret⟩, hentry, hkey, key, hsession, hcarries⟩ := exists_of_forall₂ hvalues.flip hvalue
  obtain ⟨requested, -, found, -, hvisible⟩ := exists_of_forall₂ hentries.flip hentry
  obtain rfl : id = found := (itemPath_injective hkey).trans (id_of_visible hvisible)
  exact ⟨key, item, secret, answer, hsession, hvisible, hanswer, hcarries⟩

/-- A reply answers the request exactly if every requested path is spelled as the provider prints it. -/
theorem getSecrets_answers_request_iff (broker : Broker) (provider : Provider) (hcipher : provider.cipher.Lawful)
    (vault final : Vault) (sender : Option String) (paths : List String) (session : String) (draws : Draws)
    (answers : BTreeMap String DbusSecret)
    (h : Ends broker.answerCall (fun _ => True) (SecretService.getSecrets provider sender paths session draws).run vault
      (.ok answers) final) :
    broker.AnswersRequest vault provider sender session paths answers ↔
      ∀ path ∈ paths, ∀ id, itemId path = some id → path = itemPath id := by
  obtain ⟨owner, sessionKey, entries, values, hsender, hsession, hentries, hvalues, rfl⟩ :=
    replies_of_getSecrets hcipher h
  constructor
  · intro hanswers path hpath id hid
    obtain ⟨requested, -, found, -, hprinted⟩ :=
      (mem_replies_iff hentries hvalues).mp ((hanswers.mem_iff path).mpr hpath)
    rw [hprinted, itemId_itemPath] at hid
    rw [hprinted, Option.some.inj hid]
  · intro hprinted
    have hparsed : ∀ path ∈ paths, ∃ id, itemId path = some id := fun path hpath => by
      obtain ⟨entry, -, id, hid, -⟩ := exists_of_forall₂ hentries hpath
      exact ⟨id, hid⟩
    refine ⟨fun path => ?_, fun path hpath => ?_⟩
    · rw [mem_replies_iff hentries hvalues]
      constructor
      · rintro ⟨requested, hrequested, id, hid, rfl⟩
        rwa [← hprinted requested hrequested id hid]
      · intro hpath
        obtain ⟨id, hid⟩ := hparsed path hpath
        exact ⟨path, hpath, id, hid, hprinted path hpath id hid⟩
    · obtain ⟨id, hid⟩ := hparsed path hpath
      obtain rfl := hprinted path hpath id hid
      obtain ⟨key, item, secret, answer, hkey, hvisible, hanswer, hcarries⟩ := carries_of_replies hentries hvalues hpath
      exact ⟨owner, sessionKey, key, id, item, secret, answer, hsender, hsession, hkey, hid, hvisible,
        hanswer, hcarries⟩

def lettersSteps : List BrokerStep :=
  [⟨.createCollection ⟨1, ⟨7⟩, "login", 5, 5⟩, undisturbed⟩,
    ⟨.createItem ⟨1, ⟨10⟩, ⟨7⟩, "token", ∅, "text/plain", 5, 5, ⟨8⟩⟩ ⟨[115, 54], by decide⟩, undisturbed⟩]

def lettersDraws : Draws := ⟨6, ⟨1⟩, ⟨2⟩, fun _ => some (Vector.replicate 16 0)⟩

def capitalPath : String := "/org/freedesktop/secrets/item/i0000000000000000000000000000000A"

theorem itemId_capitalPath : itemId capitalPath = some ⟨10⟩ := by decide +kernel

theorem visible_letters :
    ((cborBroker inMemoryBackend).visible ((cborBroker inMemoryBackend).after lettersSteps ∅)).items[
    (⟨10⟩ : Uuid)]? = some (⟨1, ⟨10⟩, ⟨7⟩, "token", ∅, "text/plain", 5, 5, ⟨8⟩⟩, ⟨[115, 54], by decide⟩) := by
  refine (congrArg (fun visible : VisibleVault => visible.items[(⟨10⟩ : Uuid)]?)
    ((cborBroker inMemoryBackend).visible_calm (lettersSteps.map BrokerStep.operation))).trans ?_
  decide +kernel

theorem plainProvider_session : plainProvider.sessions[(⟨4⟩ : Uuid)]? = some ⟨":1.7", .plain⟩ :=
  Std.ExtTreeMap.getElem?_insert_self

theorem plainProvider_lawful : plainProvider.cipher.Lawful := fun _ _ _ => rfl

theorem exists_getSecrets_letters {path : String} (hpath : itemId path = some ⟨10⟩) :
    ∃ answers, Ends (cborBroker inMemoryBackend).answerCall (fun _ => True)
      (SecretService.getSecrets plainProvider (some ":1.7") [path] (sessionPath ⟨4⟩) lettersDraws).run
      ((cborBroker inMemoryBackend).after lettersSteps ∅) (.ok answers)
        ((cborBroker inMemoryBackend).after lettersSteps ∅) := by
  obtain ⟨values, hvalues⟩ := Provider.exists_encodeSecrets plainProvider_session
    (fun _ => rfl : ∀ n, (lettersDraws.iv n).isSome)
    [(⟨1, ⟨10⟩, ⟨7⟩, "token", ∅, "text/plain", 5, 5, ⟨8⟩⟩, ⟨[115, 54], by decide⟩)]
  exact ⟨_, getSecrets_ends trivial (.cons ⟨⟨10⟩, hpath, visible_letters⟩ .nil) hvalues⟩

/-- A path with a capital digit is answered under another path. -/
theorem capital_path_is_answered_under_another :
    ∃ answers final, Ends (cborBroker inMemoryBackend).answerCall (fun _ => True)
        (SecretService.getSecrets plainProvider (some ":1.7") [capitalPath] (sessionPath ⟨4⟩) lettersDraws).run
        ((cborBroker inMemoryBackend).after lettersSteps ∅) (.ok answers) final ∧
      itemPath ⟨10⟩ ∈ answers ∧ capitalPath ∉ answers := by
  obtain ⟨answers, hends⟩ := exists_getSecrets_letters itemId_capitalPath
  refine ⟨answers, _, hends, ?_⟩
  obtain ⟨owner, id, entries, values, -, -, hentries, hvalues, rfl⟩ := replies_of_getSecrets plainProvider_lawful hends
  rw [mem_replies_iff hentries hvalues, mem_replies_iff hentries hvalues]
  refine ⟨⟨capitalPath, List.mem_singleton_self _, ⟨10⟩, itemId_capitalPath, rfl⟩, ?_⟩
  rintro ⟨requested, hrequested, found, hfound, hprinted⟩
  rw [List.mem_singleton.mp hrequested, itemId_capitalPath] at hfound
  cases hfound
  exact absurd hprinted (by decide +kernel)

theorem getSecrets_answers_printed_path :
    ∃ answers final, Ends (cborBroker inMemoryBackend).answerCall (fun _ => True)
        (SecretService.getSecrets plainProvider (some ":1.7") [itemPath ⟨10⟩] (sessionPath ⟨4⟩) lettersDraws).run
        ((cborBroker inMemoryBackend).after lettersSteps ∅) (.ok answers) final ∧
      (cborBroker inMemoryBackend).AnswersRequest ((cborBroker inMemoryBackend).after lettersSteps ∅) plainProvider
        (some ":1.7") (sessionPath ⟨4⟩) [itemPath ⟨10⟩] answers := by
  obtain ⟨answers, hends⟩ := exists_getSecrets_letters (itemId_itemPath ⟨10⟩)
  refine ⟨answers, _, hends, (getSecrets_answers_request_iff _ _ plainProvider_lawful _ _ _ _ _ _ _ hends).mpr ?_⟩
  intro path hpath id hid
  rw [List.mem_singleton.mp hpath, itemId_itemPath] at hid
  rw [List.mem_singleton.mp hpath, Option.some.inj hid]

end Broker

end WincredLibsecret
