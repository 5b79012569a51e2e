import WincredLibsecret.BrokerUpdates
import WincredLibsecret.EffectPool
import WincredLibsecret.ProviderService

/-! Providers that change the same items. A setter reads an item, changes a field of it and sends it back
with the revision it read. Any number of setters, in one provider or in several, take turns in any order;
since the broker compares revisions, each change that succeeds was made to the item as the previous one
left it. -/

namespace WincredLibsecret

open Effect

/-- What the surroundings do to one call of a provider: the fates of the backend calls the broker makes
for it, and the error of D-Bus. -/
structure CallChoice where
  fates : Fates BackendError
  busFault : Option String

/-- The reply to a D-Bus call. -/
def CallChoice.busReply (choice : CallChoice) : Except ProviderFault Unit :=
  match choice.busFault with
  | none => .ok ()
  | some message => .error (.bus message)

/-- What a provider hears of a request: a broker that is killed answers nothing. -/
def brokerReply : Outcome (Except BrokerError ResponseBody) → Except ProviderFault ResponseBody
  | .returned (.ok body) => .ok body
  | .returned (.error error) => .error (.broker (.broker error))
  | .killed => .error (.broker .transport)

/-- How a call of a provider is answered over a vault. -/
def Broker.answerCall (broker : Broker) :
    (request : ProviderCall) → CallChoice → Vault → Except ProviderFault (ProviderReply request) × Vault
  | .broker operation, choice, vault =>
      let ending := broker.respond ⟨operation, choice.fates⟩ vault
      (brokerReply ending.outcome, ending.state)
  | .register _ _, choice, vault => (choice.busReply, vault)
  | .unregister _, choice, vault => (choice.busReply, vault)
  | .emit _, choice, vault => (choice.busReply, vault)

/-- A call of a method or a property of a provider that changes an item. -/
inductive ItemSetter where
  | setSecret (provider : Provider) (id : Uuid) (sender : Option String) (secret : DbusSecret) (draws : Draws)
  | setLabel (id : Uuid) (label : String) (draws : Draws)
  | setAttributes (id : Uuid) (attributes : BTreeMap String String) (draws : Draws)

namespace ItemSetter

def id : ItemSetter → Uuid
  | .setSecret _ id _ _ _ | .setLabel id _ _ | .setAttributes id _ _ => id

def draws : ItemSetter → Draws
  | .setSecret _ _ _ _ draws | .setLabel _ _ draws | .setAttributes _ _ draws => draws

def handler : ItemSetter → HandlerAction Unit
  | .setSecret provider id sender secret draws => ItemObject.setSecret provider id sender secret draws
  | .setLabel id label draws => ItemObject.setLabel id label draws
  | .setAttributes id attributes draws => ItemObject.setAttributes id attributes draws

/-- The field a setter changes. -/
def edit (setter : ItemSetter) (item : ItemMetadata) : ItemMetadata :=
  match setter with
  | .setSecret _ _ _ secret _ => { item with contentType := secret.contentType }
  | .setLabel _ label _ => { item with label := label }
  | .setAttributes _ attributes _ => { item with attributes := attributes }

/-- The secret a setter brings along. -/
def newSecret : ItemSetter → Option SecretBytes
  | .setSecret provider _ sender secret _ => do
      let owner ← (ownerOf sender).toOption
      let decoded ← (provider.decodeSecret owner secret).toOption
      some decoded.2.1
  | .setLabel _ _ _ | .setAttributes _ _ _ => none

/-- The item as the setter alone would change it. The revision grows even if the clock went back. -/
def revised (setter : ItemSetter) (item : ItemMetadata) : ItemMetadata :=
  { setter.edit item with
    modified := max setter.draws.now (saturatingSucc item.modified)
    currentGeneration := if setter.newSecret.isSome then setter.draws.generation else item.currentGeneration }

/-- The item a setter sends to the broker. -/
def sent (setter : ItemSetter) (item : ItemMetadata) : ItemMetadata :=
  { setter.edit item with
    modified := setter.draws.now
    currentGeneration := if setter.newSecret.isSome then setter.draws.generation else item.currentGeneration }

variable (setter : ItemSetter) (item : ItemMetadata)

theorem updateRequest_eq : Provider.updateRequest (setter.edit item) setter.newSecret setter.draws =
    .updateItemCas (setter.sent item) setter.newSecret item.modified := by
  cases setter <;> rfl

@[simp] theorem sent_id : (setter.sent item).id = item.id := by
  cases setter <;> rfl

theorem sent_revise : (setter.sent item).revise setter.newSecret item = setter.revised item := by
  unfold sent revised
  cases hsecret : setter.newSecret <;> cases setter <;> rfl

@[simp] theorem revised_id : (setter.revised item).id = item.id := by
  cases setter <;> rfl

@[simp] theorem revised_created : (setter.revised item).created = item.created := by
  cases setter <;> rfl

theorem lt_revised_modified (h : item.modified.toNat + 1 < UInt64.size) :
    item.modified < (setter.revised item).modified := by
  have hsucc := UInt64.lt_iff_toNat_lt.mp (lt_saturatingSucc h)
  rw [UInt64.lt_iff_toNat_lt, revised, toNat_max]
  omega

theorem toNat_revised_modified_le {bound : Nat} (hnow : setter.draws.now.toNat ≤ bound)
    (hitem : item.modified.toNat ≤ bound) : (setter.revised item).modified.toNat ≤ bound + 1 := by
  have hsucc := toNat_saturatingSucc_le item.modified
  rw [revised, toNat_max]
  omega

end ItemSetter

namespace VisibleVault

/-- The effect of a setter on the vault as it is. -/
def set (visible : VisibleVault) (setter : ItemSetter) : VisibleVault :=
  match visible.items[setter.id]? with
  | none => visible
  | some (item, secret) => visible.withItem (setter.revised item) (setter.newSecret.getD secret)

/-- Each of the setters finds its item, moves its revision forward and keeps its time of creation. -/
def MovesForward (setters : Nat → ItemSetter) : List Nat → VisibleVault → Prop
  | [], _ => True
  | who :: rest, visible =>
      (∃ item secret changed, visible.items[(setters who).id]? = some (item, secret) ∧
        (visible.set (setters who)).items[(setters who).id]? = some changed ∧
        item.modified < changed.1.modified ∧ changed.1.created = item.created) ∧
      MovesForward setters rest (visible.set (setters who))

end VisibleVault

abbrev ProviderEvent := Event Nat ProviderCall ProviderReply ProviderFault

/-- The event answers an update by a result. -/
def succeeded : ProviderEvent → Bool
  | ⟨_, .broker (.updateItemCas _ _ _), .ok _⟩ => true
  | _ => false

/-- The event answers an update by a result, or loses its answer with the broker. -/
def maySucceed : ProviderEvent → Bool
  | ⟨_, .broker (.updateItemCas _ _ _), .ok _⟩ => true
  | ⟨_, .broker (.updateItemCas _ _ _), .error (.broker .transport)⟩ => true
  | _ => false

section Sent

variable (who : Nat) (item : ItemMetadata) (secret : Option SecretBytes) (expectedModified : UInt64)

theorem succeeded_sent {outcome : Outcome (Except BrokerError ResponseBody)} :
    succeeded ⟨who, .broker (.updateItemCas item secret expectedModified), brokerReply outcome⟩ ↔
      ∃ body, outcome = .returned (.ok body) := by
  rcases outcome with (_ | _) | _ <;> simp [succeeded, brokerReply]

theorem maySucceed_sent {outcome : Outcome (Except BrokerError ResponseBody)}
    (h : ∀ error, outcome ≠ .returned (.error error)) :
    maySucceed ⟨who, .broker (.updateItemCas item secret expectedModified), brokerReply outcome⟩ := by
  rcases outcome with (error | _) | _
  · exact absurd rfl (h error)
  · rfl
  · rfl

end Sent

/-- The setters that were applied: all those whose update succeeded, and some of those whose answer was
lost because the broker was killed. -/
inductive Applied : List ProviderEvent → List Nat → Prop
  | nil : Applied [] []
  | applied {event : ProviderEvent} {events : List ProviderEvent} {whos : List Nat}
      (hevent : maySucceed event) (hrest : Applied events whos) : Applied (event :: events) (event.who :: whos)
  | passed {event : ProviderEvent} {events : List ProviderEvent} {whos : List Nat}
      (hevent : ¬ succeeded event) (hrest : Applied events whos) : Applied (event :: events) whos

abbrev HandlerProgram := Program ProviderCall ProviderReply ProviderFault (Except SecretServiceError Unit)

def ProviderCall.IsBus : ProviderCall → Prop
  | .broker _ => False
  | .register _ _ | .unregister _ | .emit _ => True

namespace ItemObject

/-- What a setter does once it has read the item. -/
def sendBack (edit : ItemMetadata → ItemMetadata) (secret : Option SecretBytes) (draws : Draws)
    (notify : Uuid → HandlerAction Unit) (item : ItemMetadata) : HandlerAction Unit := do
  let _ ← dbus (Provider.updateItem (edit item) secret draws)
  notify item.collectionId

variable (id : Uuid) (edit : ItemMetadata → ItemMetadata) (secret : Option SecretBytes) (draws : Draws)
  (notify : Uuid → HandlerAction Unit)

/-- A setter first reads the item, and stops unless it is shown one. -/
theorem change_run :
    ∃ next, (change id edit secret draws notify).run = .call (.broker (.getItem id false)) next ∧
      (∀ fault, ∃ error, next (.error fault) = .done (.error error)) ∧
      ∀ body, (∃ error, next (.ok body) = .done (.error error)) ∨
        ∃ found ∈ body.shownItems, next (.ok body) = (sendBack edit secret draws notify found).run := by
  refine ⟨_, rfl, fun _ => ⟨_, rfl⟩, fun body => ?_⟩
  cases body with
  | item found current => exact .inr ⟨found, List.mem_singleton_self _, rfl⟩
  | _ => exact .inl ⟨_, rfl⟩

/-- It then sends the item back unless the changed item is invalid, and calls the broker no more. -/
theorem sendBack_run (hnotify : ∀ collection, Action.Calls ProviderCall.IsBus (notify collection))
    (item : ItemMetadata) :
    (∃ error, (sendBack edit secret draws notify item).run = .done (.error error)) ∨
      ∃ next, (sendBack edit secret draws notify item).run =
          .call (.broker (Provider.updateRequest (edit item) secret draws)) next ∧
        ∀ reply, (next reply).Calls ProviderCall.IsBus := by
  unfold sendBack Provider.updateItem Provider.check
  cases validateLabel (edit item).label with
  | error error => exact .inl ⟨_, rfl⟩
  | ok =>
      cases validateAttributes (edit item).attributes with
      | error error => exact .inl ⟨_, rfl⟩
      | ok =>
          cases validateContentType (edit item).contentType with
          | error error => exact .inl ⟨_, rfl⟩
          | ok =>
              refine .inr ⟨_, rfl, fun reply => ?_⟩
              cases reply with
              | error fault => exact trivial
              | ok body =>
                  cases body with
                  | item => exact hnotify item.collectionId
                  | _ => exact trivial

end ItemObject

theorem contentType_of_decodeSecret {provider : Provider} {owner : String} {secret : DbusSecret}
    {decoded : Uuid × SecretBytes × String} (h : provider.decodeSecret owner secret = .ok decoded) :
    decoded.2.2 = secret.contentType := by
  unfold Provider.decodeSecret at h
  cases hsession : sessionId secret.session with
  | none =>
      rw [hsession] at h
      cases h
  | some session =>
  rw [hsession] at h
  obtain ⟨chosen, -, h⟩ := bind_eq_ok.mp h
  obtain ⟨record, -, h⟩ := bind_eq_ok.mp h
  obtain ⟨clear, -, h⟩ := bind_eq_ok.mp h
  split at h
  · cases h
  obtain ⟨bytes, -, h⟩ := bind_eq_ok.mp h
  cases h
  rfl

theorem ItemSetter.handler_cases (setter : ItemSetter) :
    (∃ error, setter.handler.run = .done (.error error)) ∨
      ∃ notify, (∀ collection, Action.Calls ProviderCall.IsBus (notify collection)) ∧
        setter.handler = ItemObject.change setter.id setter.edit setter.newSecret setter.draws notify := by
  have hemit : ∀ signal error, Action.Calls ProviderCall.IsBus (emit signal error) :=
    fun _ _ => Action.calls_perform trivial
  cases setter with
  | setSecret provider id sender secret draws =>
      simp only [handler, ItemObject.setSecret]
      cases howner : ownerOf sender with
      | error error => exact .inl ⟨error, rfl⟩
      | ok owner =>
          rw [Action.ofExcept_ok_bind]
          cases hdecoded : provider.decodeSecret owner secret with
          | error error => exact .inl ⟨.ofProvider error, rfl⟩
          | ok decoded =>
              have hsecret : newSecret (.setSecret provider id sender secret draws) = some decoded.2.1 := by
                simp [newSecret, howner, hdecoded, Except.toOption]
              refine .inr ⟨?notify, ?calls, ?eq⟩
              case eq =>
                rw [Except.mapError, Action.ofExcept_ok_bind, hsecret, contentType_of_decodeSecret hdecoded]
                rfl
              case calls => exact fun _ => Action.calls_bind (hemit _ _) fun _ => hemit _ _
  | setLabel id label draws =>
      exact .inr ⟨fun collection => emit (.itemChanged collection id) .failed, fun _ => hemit _ _, rfl⟩
  | setAttributes id attributes draws =>
      exact .inr ⟨fun collection => emit (.itemChanged collection id) .failed, fun _ => hemit _ _, rfl⟩

/-- The item a setter was shown is still there, as it was or in a later revision. -/
def VisibleVault.HasSince (visible : VisibleVault) (shown : ItemMetadata) : Prop :=
  ∃ last, visible.metadata shown.id = some last ∧ (last = shown ∨ shown.modified < last.modified)

/-- The next call of a setter, and what it does with the reply. -/
inductive NextCall (setter : ItemSetter) (visible : VisibleVault) :
    (request : ProviderCall) → (Except ProviderFault (ProviderReply request) → HandlerProgram) → Prop
  | reads {notify : Uuid → HandlerAction Unit}
      {next : Except ProviderFault (ProviderReply (.broker (.getItem setter.id false))) → HandlerProgram}
      (hnotify : ∀ collection, Action.Calls ProviderCall.IsBus (notify collection))
      (hfault : ∀ fault, ∃ error, next (.error fault) = .done (.error error))
      (hbody : ∀ body : ResponseBody, (∃ error, next (.ok body) = .done (.error error)) ∨
        ∃ found ∈ body.shownItems, next (.ok body) =
          (ItemObject.sendBack setter.edit setter.newSecret setter.draws notify found).run) :
      NextCall setter visible (.broker (.getItem setter.id false)) next
  | sends {shown : ItemMetadata}
      {next : Except ProviderFault (ProviderReply
        (.broker (.updateItemCas (setter.sent shown) setter.newSecret shown.modified))) → HandlerProgram}
      (hid : shown.id = setter.id) (hsince : visible.HasSince shown)
      (hnext : ∀ reply, (next reply).Calls ProviderCall.IsBus) :
      NextCall setter visible (.broker (.updateItemCas (setter.sent shown) setter.newSecret shown.modified)) next
  | tells {request : ProviderCall} {next : Except ProviderFault (ProviderReply request) → HandlerProgram}
      (hbus : request.IsBus) (hnext : ∀ reply, (next reply).Calls ProviderCall.IsBus) :
      NextCall setter visible request next

/-- A setter is about to read, is about to send back an item that it was shown, or has sent it. -/
inductive Phase (setter : ItemSetter) (visible : VisibleVault) : HandlerProgram → Prop
  | start : Phase setter visible setter.handler.run
  | sending {notify : Uuid → HandlerAction Unit} {shown : ItemMetadata}
      (hnotify : ∀ collection, Action.Calls ProviderCall.IsBus (notify collection))
      (hid : shown.id = setter.id) (hsince : visible.HasSince shown) :
      Phase setter visible (ItemObject.sendBack setter.edit setter.newSecret setter.draws notify shown).run
  | ending {program : HandlerProgram} (hcalls : program.Calls ProviderCall.IsBus) : Phase setter visible program

theorem Phase.nextCall {setter : ItemSetter} {visible : VisibleVault} {request : ProviderCall}
    {next : Except ProviderFault (ProviderReply request) → HandlerProgram}
    (h : Phase setter visible (.call request next)) : NextCall setter visible request next := by
  generalize hprogram : Program.call request next = program at h
  cases h with
  | start =>
      rcases setter.handler_cases with ⟨error, hdone⟩ | ⟨notify, hnotify, hhandler⟩
      · rw [hdone] at hprogram
        cases hprogram
      · obtain ⟨reads, hrun, hfault, hbody⟩ :=
          ItemObject.change_run setter.id setter.edit setter.newSecret setter.draws notify
        rw [hhandler, hrun] at hprogram
        cases hprogram
        exact .reads hnotify hfault hbody
  | @sending notify shown hnotify hid hsince =>
      have hsends := ItemObject.sendBack_run setter.edit setter.newSecret setter.draws notify hnotify shown
      rw [setter.updateRequest_eq] at hsends
      rcases hsends with ⟨error, hdone⟩ | ⟨sends, hrun, hcalls⟩
      · rw [hdone] at hprogram
        cases hprogram
      · rw [hrun] at hprogram
        cases hprogram
        exact .sends hid hsince hcalls
  | ending hcalls =>
      subst hprogram
      exact .tells hcalls.1 hcalls.2

theorem Phase.mono {setter : ItemSetter} {visible changed : VisibleVault} {program : HandlerProgram}
    (h : Phase setter visible program) (hsince : ∀ shown, visible.HasSince shown → changed.HasSince shown) :
    Phase setter changed program := by
  cases h with
  | start => exact .start
  | sending hnotify hid hshown => exact .sending hnotify hid (hsince _ hshown)
  | ending hcalls => exact .ending hcalls

namespace VisibleVault

variable {visible changed : VisibleVault} {setter : ItemSetter} {shown : ItemMetadata} {current : SecretBytes}

theorem set_eq (h : visible.items[setter.id]? = some (shown, current)) :
    visible.set setter = visible.withItem (setter.revised shown) (setter.newSecret.getD current) := by
  rw [set, h]

/-- Sending back an item that was shown stores it only if it is still as it was shown, and then what the
setter alone makes of it. -/
theorem apply_sent {body : ResponseBody} (hid : shown.id = setter.id) (hsince : visible.HasSince shown)
    (h : visible.apply (.updateItemCas (setter.sent shown) setter.newSecret shown.modified) = some (body, changed)) :
    ∃ current, visible.items[setter.id]? = some (shown, current) ∧ changed = visible.set setter := by
  obtain ⟨⟨existing, current, hexisting, hexpected⟩, hupdate⟩ := updateItemCas_eq_some h
  obtain ⟨found, kept, hfound, -, hchanged⟩ := update_eq_some hupdate
  cases hexisting.symm.trans hfound
  rw [setter.sent_id, hid] at hfound
  obtain ⟨last, hlast, hlater⟩ := hsince
  rw [metadata, hid, hfound] at hlast
  cases hlast
  obtain rfl : existing = shown := by
    rcases hlater with rfl | hlater
    · rfl
    · rw [hexpected] at hlater
      exact absurd hlater (UInt64.lt_irrefl _)
  exact ⟨current, hfound, by rw [hchanged, set_eq hfound, setter.sent_revise]⟩

theorem metadata_set (h : visible.items[setter.id]? = some (shown, current)) (id : Uuid) :
    (visible.set setter).metadata id = if shown.id = id then some (setter.revised shown) else visible.metadata id := by
  rw [set_eq h, metadata_withItem, setter.revised_id]

theorem items_set (h : visible.items[setter.id]? = some (shown, current)) (hid : shown.id = setter.id) :
    (visible.set setter).items[setter.id]? = some (setter.revised shown, setter.newSecret.getD current) := by
  rw [set_eq h, withItem, setter.revised_id, hid]
  exact Std.ExtTreeMap.getElem?_insert_self

/-- What a setter was shown stays in the vault, or is followed by later revisions, when another setter is
applied. -/
theorem HasSince.set {other : ItemMetadata} (hother : visible.HasSince other)
    (h : visible.items[setter.id]? = some (shown, current)) (hid : shown.id = setter.id)
    (hgrows : shown.modified < (setter.revised shown).modified) : (visible.set setter).HasSince other := by
  obtain ⟨last, hlast, hlater⟩ := hother
  rw [HasSince, metadata_set h]
  split_ifs with hsame
  · rw [metadata, ← hsame, hid, h] at hlast
    cases hlast
    refine ⟨_, rfl, .inr ?_⟩
    rcases hlater with rfl | hlater
    · exact hgrows
    · rw [UInt64.lt_iff_toNat_lt] at hgrows hlater ⊢
      exact hlater.trans hgrows
  · exact ⟨last, hlast, hlater⟩

end VisibleVault

/-- The setters' programs, over a vault whose revisions are within the bound. -/
structure Standing (setters : Nat → ItemSetter) (bound : Nat) (pool : Nat → HandlerProgram)
    (visible : VisibleVault) : Prop where
  bounded : ∀ id item, visible.metadata id = some item → item.modified.toNat ≤ bound
  now : ∀ who, (setters who).draws.now.toNat ≤ bound
  phase : ∀ who, Phase (setters who) visible (pool who)

namespace Standing

variable {setters : Nat → ItemSetter} {bound : Nat} {pool : Nat → HandlerProgram} {visible : VisibleVault}
  {who : Nat} {program : HandlerProgram}

theorem phase_update {changed : VisibleVault} (h : ∀ other, Phase (setters other) changed (pool other))
    (hprogram : Phase (setters who) changed program) (other : Nat) :
    Phase (setters other) changed (Function.update pool who program other) := by
  by_cases hother : other = who
  · subst hother
    rwa [Function.update_self]
  · rw [Function.update_of_ne hother]
    exact h other

theorem kept (h : Standing setters bound pool visible) (hprogram : Phase (setters who) visible program) :
    Standing setters bound (Function.update pool who program) visible :=
  ⟨h.bounded, h.now, phase_update h.phase hprogram⟩

/-- Applying a setter moves the revision of its item, and the bound by one. -/
theorem set (h : Standing setters bound pool visible) {shown : ItemMetadata} {current : SecretBytes}
    (hshown : visible.items[(setters who).id]? = some (shown, current)) (hid : shown.id = (setters who).id)
    (hroom : bound + 1 < UInt64.size) (hprogram : program.Calls ProviderCall.IsBus) :
    shown.modified < ((setters who).revised shown).modified ∧
      Standing setters (bound + 1) (Function.update pool who program) (visible.set (setters who)) := by
  have hmetadata : visible.metadata (setters who).id = some shown := by
    rw [VisibleVault.metadata, hshown]
    rfl
  have hwithin : shown.modified.toNat ≤ bound := h.bounded _ shown hmetadata
  have hgrows : shown.modified < ((setters who).revised shown).modified :=
    (setters who).lt_revised_modified shown (by omega)
  refine ⟨hgrows, ?_, fun other => (h.now other).trans (Nat.le_succ _), ?_⟩
  · intro id item hitem
    rw [VisibleVault.metadata_set hshown] at hitem
    split_ifs at hitem with hsame
    · cases hitem
      exact (setters who).toNat_revised_modified_le shown (h.now who) hwithin
    · exact (h.bounded id item hitem).trans (Nat.le_succ _)
  · exact phase_update (fun other => (h.phase other).mono fun _ hsince => hsince.set hshown hid hgrows)
      (.ending hprogram)

end Standing

namespace Broker

variable {broker : Broker} {vault : Vault} {choice : CallChoice}

theorem answerCall_bus {request : ProviderCall} (h : request.IsBus) (choice : CallChoice) (vault : Vault) :
    (broker.answerCall request choice vault).2 = vault := by
  cases request with
  | broker => exact h.elim
  | _ => rfl

theorem Sound.answerCall (hsound : broker.Sound vault) (request : ProviderCall) (choice : CallChoice) :
    broker.Sound (broker.answerCall request choice vault).2 := by
  cases request with
  | broker operation => exact hsound.respond _
  | _ => exact hsound

theorem shown_of_getItem {id : Uuid} {fates : Fates BackendError} {body : ResponseBody}
    (hbody : (broker.respond ⟨.getItem id false, fates⟩ vault).outcome = .returned (.ok body)) :
    ∀ item ∈ body.shownItems, item.id = id ∧ broker.itemKind.stored vault id = some item := by
  refine of_respond_ok
    (fun body _ => ∀ item ∈ body.shownItems, item.id = id ∧ broker.itemKind.stored vault id = some item) hbody ?_
  simp only [perform, getItem, Action.wp_bind, wp_getItemMetadata]
  refine ⟨trivial, fun _ _ => trivial, Action.either_intro (fun item hitem => ?_) fun _ _ => trivial⟩
  rw [itemAt_eq_ok] at hitem
  refine ⟨trivial, fun shown hshown => ?_⟩
  rw [List.mem_singleton.mp hshown]
  exact ⟨RecordKind.key_of_stored hitem, hitem⟩

/-- A setter that has read stops, or goes on with an item that is stored. -/
theorem Sound.phase_of_read (hsound : broker.Sound vault) {setter : ItemSetter} {notify : Uuid → HandlerAction Unit}
    {next : Except ProviderFault ResponseBody → HandlerProgram}
    (hnotify : ∀ collection, Action.Calls ProviderCall.IsBus (notify collection))
    (hfault : ∀ fault, ∃ error, next (.error fault) = .done (.error error))
    (hbody : ∀ body : ResponseBody, (∃ error, next (.ok body) = .done (.error error)) ∨
      ∃ found ∈ body.shownItems, next (.ok body) =
        (ItemObject.sendBack setter.edit setter.newSecret setter.draws notify found).run) (fates : Fates BackendError) :
    Phase setter (broker.visible vault)
      (next (brokerReply (broker.respond ⟨.getItem setter.id false, fates⟩ vault).outcome)) := by
  have hstopped : ∀ {program}, (∃ error, program = .done (.error error)) →
      Phase setter (broker.visible vault) program := by
    rintro _ ⟨error, rfl⟩
    exact .ending trivial
  cases houtcome : (broker.respond ⟨.getItem setter.id false, fates⟩ vault).outcome with
  | killed => exact hstopped (hfault _)
  | returned result =>
      cases result with
      | error error => exact hstopped (hfault _)
      | ok body =>
          rcases hbody body with hdone | ⟨found, hfound, hsends⟩
          · exact hstopped hdone
          · obtain ⟨hid, hstored⟩ := shown_of_getItem houtcome found hfound
            rw [← hid, hsound.stored_item] at hstored
            exact hsends ▸ .sending hnotify hid ⟨found, hstored, .inl rfl⟩

/-- What the next call of a setter does: nothing to the vault, or exactly what the setter is for. -/
theorem Sound.answer_setter (hsound : broker.Sound vault) {setter : ItemSetter} {request : ProviderCall}
    {next : Except ProviderFault (ProviderReply request) → HandlerProgram}
    (hphase : Phase setter (broker.visible vault) (.call request next)) (who : Nat) (choice : CallChoice) :
    let answer := broker.answerCall request choice vault
    (¬ succeeded ⟨who, request, answer.1⟩ ∧ broker.visible answer.2 = broker.visible vault ∧
        Phase setter (broker.visible vault) (next answer.1)) ∨
      (maySucceed ⟨who, request, answer.1⟩ ∧ broker.visible answer.2 = (broker.visible vault).set setter ∧
        (∃ shown current, (broker.visible vault).items[setter.id]? = some (shown, current) ∧ shown.id = setter.id) ∧
        (next answer.1).Calls ProviderCall.IsBus) := by
  intro answer
  cases hphase.nextCall with
  | tells hbus hnext =>
      refine .inl ⟨?_, by rw [answerCall_bus hbus], .ending (hnext _)⟩
      cases request with
      | broker => exact hbus.elim
      | _ => exact Bool.false_ne_true
  | reads hnotify hfault hbody =>
      have hcalls : Action.Calls VaultCall.IsReading (broker.perform (.getItem setter.id false)) := calls_getItem _ _
      have hstate : answer.2 = vault := respond_state_of_reading hcalls choice.fates
      exact .inl ⟨Bool.false_ne_true, by rw [hstate], hsound.phase_of_read hnotify hfault hbody choice.fates⟩
  | sends hid hsince hnext =>
      rcases hsound.respond_cases (.updateItemCas _ _ _) choice.fates with ⟨hfailed, hsame⟩ | ⟨hmay, body, happly⟩
      · refine .inl ⟨fun hsucceeded => ?_, hsame, .ending (hnext _)⟩
        obtain ⟨body, hbody⟩ := (succeeded_sent who _ _ _).mp hsucceeded
        exact hfailed body hbody
      · obtain ⟨current, hcurrent, hset⟩ := VisibleVault.apply_sent hid hsince happly
        exact .inr ⟨maySucceed_sent who _ _ _ hmay, hset, ⟨_, current, hcurrent, hid⟩, hnext _⟩

/-- Whatever the turns, the vault is what the applied setters make of it, one after the other. -/
theorem Sound.play_setters (hsound : broker.Sound vault) {setters : Nat → ItemSetter} {bound : Nat}
    {pool : Nat → HandlerProgram} (hstanding : Standing setters bound pool (broker.visible vault))
    (turns : List (Nat × CallChoice))
    (hroom : bound + (play broker.answerCall turns pool vault).events.countP maySucceed < UInt64.size) :
    ∃ applied, Applied (play broker.answerCall turns pool vault).events applied ∧
      broker.visible (play broker.answerCall turns pool vault).state =
        applied.foldl (fun visible who => visible.set (setters who)) (broker.visible vault) ∧
      (broker.visible vault).MovesForward setters applied := by
  induction turns generalizing vault bound pool with
  | nil => exact ⟨[], .nil, rfl, trivial⟩
  | cons turn rest ih =>
      rcases turn with ⟨who, choice⟩
      cases hprogram : pool who with
      | done value =>
          rw [play_done hprogram] at hroom ⊢
          exact ih hsound hstanding hroom
      | call request next =>
          have hrest := hsound.answerCall request choice
          rw [play_call hprogram] at hroom ⊢
          rw [List.countP_cons] at hroom
          rcases hsound.answer_setter (hprogram ▸ hstanding.phase who) who choice with
            ⟨hfailed, hsame, hphase⟩ | ⟨hmay, hset, ⟨shown, current, hshown, hid⟩, hcalls⟩
          · obtain ⟨applied, hevents, hstate, hmoves⟩ :=
              ih hrest (hsame ▸ hstanding.kept hphase) (Nat.lt_of_le_of_lt (by omega) hroom)
            rw [hsame] at hstate hmoves
            exact ⟨applied, .passed hfailed hevents, hstate, hmoves⟩
          · rw [if_pos hmay] at hroom
            obtain ⟨hgrows, hstanding'⟩ := hstanding.set hshown hid (by omega) hcalls
            obtain ⟨applied, hevents, hstate, hmoves⟩ := ih hrest (hset ▸ hstanding') (by omega)
            rw [hset] at hstate hmoves
            refine ⟨who :: applied, .applied hmay hevents, hstate, ⟨shown, current, _, hshown,
              VisibleVault.items_set hshown hid, hgrows, ?_⟩, hmoves⟩
            exact (setters who).revised_created shown

/-- Changes of items are not lost. A compare-and-swap with the revision a reader was shown is answered by a
result only if no update of the item was answered by one since. Setters of any number of providers that
take turns in any order leave the vault that the successful ones leave one after the other. Each of these
moves the revision of its item forward, whatever the clocks say, and keeps its time of creation. -/
theorem no_item_update_is_lost (broker : Broker) (latest : Nat) :
    (∀ before between : List BrokerStep,
      (∀ step ∈ before ++ between, step.operation.ModifiedWithin latest) →
      broker.updatesIn (before ++ between) ∅ < 2 ^ 64 - 1 - latest →
      ∀ (request : ReadOperation) (readFates : Fates BackendError) (answer : ResponseBody) (shown : ItemMetadata),
      (broker.respond ⟨request.toOperation, readFates⟩ (broker.after before ∅)).outcome = .returned (.ok answer) →
      shown ∈ answer.shownItems →
      (∀ passed ∈ broker.history between (broker.after before ∅),
        (broker.itemKind.stored passed shown.id).isSome) →
      ∀ (item : ItemMetadata) (secret : Option SecretBytes) (fates : Fates BackendError) (body : ResponseBody),
      item.id = shown.id →
      (broker.respond ⟨.updateItemCas item secret shown.modified, fates⟩
        (broker.after (before ++ between) ∅)).outcome = .returned (.ok body) →
      (∀ start ∈ broker.starts between (broker.after before ∅), broker.AnswersNoUpdate shown.id start.1 start.2) ∧
        broker.itemKind.stored (broker.after (before ++ between) ∅) shown.id = some shown) ∧
    ∀ (before : List BrokerStep) (setters : Nat → ItemSetter) (turns : List (Nat × CallChoice)),
      let vault := broker.after before ∅
      let played := play broker.answerCall turns (fun who => (setters who).handler.run) vault
      (∀ step ∈ before, step.operation.ModifiedWithin latest) →
      (∀ who, (setters who).draws.now.toNat ≤ latest) →
      broker.updatesIn before ∅ + played.events.countP maySucceed < 2 ^ 64 - 1 - latest →
      ∃ applied, Applied played.events applied ∧
        broker.visible played.state =
          applied.foldl (fun visible who => visible.set (setters who)) (broker.visible vault) ∧
        (broker.visible vault).MovesForward setters applied := by
  refine ⟨?_, ?_⟩
  · intro before between hsteps hroom request readFates answer shown hanswer hshown hpresent item secret fates body
      hid hbody
    exact cas_of_shown hsteps hroom hanswer hshown hpresent hid hbody
  · intro before setters turns vault played hsteps hnow hroom
    have hsound : broker.Sound vault := sound_empty.after before
    have hbound := sound_empty.revisionsWithin_after (broker.revisionsWithin_empty latest) le_rfl before hsteps
    have hstanding : Standing setters (latest + broker.updatesIn before ∅) (fun who => (setters who).handler.run)
        (broker.visible vault) :=
      ⟨fun id item hitem => hbound id item ((hsound.stored_item id).trans hitem),
        fun who => (hnow who).trans (Nat.le_add_right _ _), fun _ => .start⟩
    refine hsound.play_setters hstanding turns ?_
    change latest + broker.updatesIn before ∅ + played.events.countP maySucceed < UInt64.size
    simp only [UInt64.size]
    omega

/-- The requests that create one item. -/
def oneItemSteps : List BrokerStep :=
  [⟨.createCollection ⟨1, ⟨7⟩, "login", 5, 5⟩, undisturbed⟩,
    ⟨.createItem ⟨1, ⟨9⟩, ⟨7⟩, "token", ∅, "text/plain", 5, 5, ⟨8⟩⟩ ⟨[115, 51], by decide⟩, undisturbed⟩]

/-- Setters of the label of this item, whose clock is behind. -/
def labelSetters (who : Nat) : ItemSetter :=
  .setLabel ⟨9⟩ (if who = 0 then "first" else "second") ⟨3, ⟨1⟩, ⟨2⟩, fun _ => none⟩

/-- Two of them read before either of them sends. -/
def crossedTurns : List (Nat × CallChoice) := [0, 1, 0, 1].map fun who => (who, ⟨undisturbed, none⟩)

theorem no_item_update_is_lost_crossed :
    let broker := cborBroker inMemoryBackend
    let vault := broker.after oneItemSteps ∅
    let played := play broker.answerCall crossedTurns (fun who => (labelSetters who).handler.run) vault
    played.events.countP maySucceed = 1 ∧
      ∃ applied, Applied played.events applied ∧
        broker.visible played.state =
          applied.foldl (fun visible who => visible.set (labelSetters who)) (broker.visible vault) ∧
        (broker.visible vault).MovesForward labelSetters applied := by
  have hcount : (play (cborBroker inMemoryBackend).answerCall crossedTurns (fun who => (labelSetters who).handler.run)
      ((cborBroker inMemoryBackend).after oneItemSteps ∅)).events.countP maySucceed = 1 := by decide +kernel
  have hupdates : (cborBroker inMemoryBackend).updatesIn oneItemSteps ∅ = 0 := by decide +kernel
  have hsteps : ∀ step ∈ oneItemSteps, step.operation.ModifiedWithin 5 := by
    simp only [oneItemSteps, List.forall_mem_cons, List.not_mem_nil, false_imp_iff, implies_true, and_true]
    refine ⟨by simp [Operation.ModifiedWithin, Operation.suppliedItem], ?_⟩
    rintro _ ⟨⟩
    decide
  refine ⟨hcount, (no_item_update_is_lost (cborBroker inMemoryBackend) 5).2 oneItemSteps labelSetters crossedTurns
    hsteps (fun _ => Nat.le_add_right 3 2) ?_⟩
  rw [hupdates, hcount]
  decide

end Broker

end WincredLibsecret
