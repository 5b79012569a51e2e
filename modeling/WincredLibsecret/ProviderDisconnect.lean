import WincredLibsecret.EffectPool
import WincredLibsecret.ProviderCrypto
import WincredLibsecret.ProviderOwnership
import WincredLibsecret.ProviderService

/-! Sessions that are opened while their caller disconnects. A handler of OpenSession registers the object
of the session and then inserts its record; the handler of a disconnect drops the records of the caller and
then unregisters their objects. The handlers are tasks of one process and take turns in any order. -/

namespace WincredLibsecret

open Effect SessionCall

inductive TableCall where
  | register (id : Uuid)
  | unregister (id : Uuid)
  | insertSession (id : Uuid) (owner : String) (key : SessionKey)
  | removeOwner (owner : String)

def TableReply : TableCall → Type
  | .removeOwner _ => List Uuid
  | .register _ | .unregister _ | .insertSession _ _ _ => Unit

/-- The records of the sessions and the objects that are registered for them. -/
structure SessionTables where
  provider : Provider
  objects : Finset Uuid

def SessionTables.new (cipher : SessionCipher) : SessionTables := ⟨Provider.new cipher, ∅⟩

/-- Only the registration of an object can be made to fail. -/
def SessionTables.serve : (request : TableCall) → Bool → SessionTables →
    Except Unit (TableReply request) × SessionTables
  | .register id, fails, tables =>
      if fails then (.error (), tables) else (.ok (), { tables with objects := insert id tables.objects })
  | .unregister id, _, tables =>
      if id ∈ tables.objects then (.ok (), { tables with objects := tables.objects.erase id }) else (.error (), tables)
  | .insertSession id owner key, _, tables =>
      (.ok (), { tables with provider := tables.provider.insertSession id owner key })
  | .removeOwner owner, _, tables =>
      let removed := tables.provider.removeOwner owner
      (.ok removed.1, { tables with provider := removed.2 })

abbrev TableProgram := Program TableCall TableReply Unit

abbrev TableAction := Action TableCall TableReply Unit SecretServiceError

section

variable (sha256 : Blob → Vector UInt8 32)

/-- What is answered for an algorithm, and the key of the session. -/
def Provider.sessionKey (algorithm : String) (input : DbusValue) (exponent : Nat) :
    Except ProviderError (DbusValue × SessionKey) :=
  if algorithm = "plain" then
    match input with
    | .text input =>
        if input ≠ "" then .error (.invalidRequest "plain session input must be empty")
        else .ok (.text "", .plain)
    | _ => .error (.invalidRequest "plain session input must be a string")
  else if algorithm = "dh-ietf1024-sha256-aes128-cbc-pkcs7" then
    match input with
    | .bytes clientPublic => do
        let (key, serverPublic) ←
          (SessionKey.openDh sha256 exponent clientPublic).get (SessionKey.isSome_openDh sha256 exponent clientPublic)
        .ok (.bytes serverPublic, key)
    | _ => .error (.invalidRequest "DH session input must be a byte array")
  else .error (.invalidRequest ("unsupported session algorithm: " ++ algorithm))

/-- The exponent and the identifier are drawn at random. -/
def Provider.openSession (algorithm : String) (input : DbusValue) (exponent : Nat) (id : Uuid) :
    Except ProviderError (DbusValue × Uuid × SessionKey) := do
  let (output, key) ← Provider.sessionKey sha256 algorithm input exponent
  .ok (output, id, key)

def SecretService.openSession (sender : Option String) (algorithm : String) (input : DbusValue) (exponent : Nat)
    (id : Uuid) : TableAction (DbusValue × String) := do
  let owner ← Action.ofExcept (ownerOf sender)
  let (output, id, key) ← Action.ofExcept
    ((Provider.openSession sha256 algorithm input exponent id).mapError SecretServiceError.ofProvider)
  Action.perform (fun _ => SecretServiceError.failed "unable to register session") (TableCall.register id)
  Action.perform (fun _ => SecretServiceError.failed "") (TableCall.insertSession id owner key)
  pure (output, sessionPath id)

/-- Unregisters objects, some of which may already be gone. -/
def unregisterSessions : List Uuid → TableProgram Unit
  | [] => .done ()
  | id :: rest => .call (.unregister id) fun _ => unregisterSessions rest

def removeOwnerSessions (owner : String) : TableProgram Unit :=
  .call (.removeOwner owner) fun
    | .error _ => .done ()
    | .ok removed => unregisterSessions removed

/-- A task that changes the tables. A name that loses its owner is a caller that disconnects. -/
inductive SessionHandler where
  | openSession (sender : Option String) (algorithm : String) (input : DbusValue) (exponent : Nat)
  | nameOwnerChanged (name : String) (newOwner : Option String)

namespace SessionHandler

def run (id : Uuid) : SessionHandler → TableProgram Unit
  | openSession sender algorithm input exponent => do
      let _ ← (SecretService.openSession sha256 sender algorithm input exponent id).run
      pure ()
  | nameOwnerChanged name newOwner => if newOwner.isNone then removeOwnerSessions name else pure ()

/-- The caller a handler opens a session for. -/
def caller : SessionHandler → Option String
  | openSession sender _ _ _ => sender
  | nameOwnerChanged _ _ => none

end SessionHandler

end

def insertRecord (id : Uuid) (owner : String) (key : SessionKey) : TableProgram Unit :=
  .call (.insertSession id owner key) fun _ => .done ()

def registerObject (id : Uuid) (owner : String) (key : SessionKey) : TableProgram Unit :=
  .call (.register id) fun
    | .error _ => .done ()
    | .ok _ => insertRecord id owner key

theorem Provider.openSession_id {sha256 : Blob → Vector UInt8 32} {algorithm : String} {input : DbusValue}
    {exponent : Nat} {id opened : Uuid} {output : DbusValue} {key : SessionKey}
    (h : Provider.openSession sha256 algorithm input exponent id = .ok (output, opened, key)) : opened = id := by
  unfold Provider.openSession at h
  obtain ⟨⟨_, _⟩, -, hpair⟩ := bind_eq_ok.mp h
  cases hpair
  rfl

namespace SessionHandler

variable (sha256 : Blob → Vector UInt8 32) (id : Uuid)

/-- A handler that opens a session ends at once or has the two steps to go. -/
theorem run_openSession (sender : Option String) (algorithm : String) (input : DbusValue) (exponent : Nat) :
    (openSession sender algorithm input exponent).run sha256 id = .done () ∨
      ∃ owner key, sender = some owner ∧
        (openSession sender algorithm input exponent).run sha256 id = registerObject id owner key := by
  cases sender with
  | none => exact .inl rfl
  | some owner =>
      cases hopen : Provider.openSession sha256 algorithm input exponent id with
      | error error =>
          refine .inl ?_
          rw [run, SecretService.openSession, hopen]
          rfl
      | ok opened =>
          obtain ⟨output, opened, key⟩ := opened
          obtain rfl := Provider.openSession_id hopen
          refine .inr ⟨owner, key, rfl, ?_⟩
          rw [run, SecretService.openSession, hopen]
          refine congrArg (Program.call (TableCall.register opened)) (funext fun reply => ?_)
          cases reply with
          | error error => rfl
          | ok _ =>
              refine congrArg (Program.call (TableCall.insertSession opened owner key)) (funext fun reply => ?_)
              cases reply <;> rfl

/-- Where a handler stands: how far it is, and that the session it opens is not yet in the history. -/
inductive Stage (history : List SessionCall) : SessionHandler → TableProgram Unit → Prop
  | opening {handler : SessionHandler} {owner : String} (key : SessionKey) (hcaller : handler.caller = some owner)
      (hnew : id ∉ history.filterMap insertedId) : Stage history handler (registerObject id owner key)
  | registered {handler : SessionHandler} {owner : String} (key : SessionKey) (hcaller : handler.caller = some owner)
      (hnew : id ∉ history.filterMap insertedId) : Stage history handler (insertRecord id owner key)
  | disconnecting (handler : SessionHandler) (owner : String) : Stage history handler (removeOwnerSessions owner)
  | unregistering (handler : SessionHandler) (removed : List Uuid) :
      Stage history handler (unregisterSessions removed)

variable {id}

theorem Stage.ended {history : List SessionCall} (handler : SessionHandler) : Stage id history handler (.done ()) :=
  .unregistering handler []

theorem Stage.start {history : List SessionCall} (hnew : id ∉ history.filterMap insertedId)
    (handler : SessionHandler) : Stage id history handler (handler.run sha256 id) := by
  cases handler with
  | openSession sender algorithm input exponent =>
      rcases run_openSession sha256 id sender algorithm input exponent with hrun | ⟨owner, key, rfl, hrun⟩
      · rw [hrun]
        exact .ended _
      · rw [hrun]
        exact .opening key rfl hnew
  | nameOwnerChanged name newOwner =>
      rw [run]
      split_ifs
      · exact .disconnecting _ name
      · exact .ended _

/-- A call of another handler leaves a handler where it stands. -/
theorem Stage.append {history : List SessionCall} {handler : SessionHandler} {program : TableProgram Unit}
    {later : List SessionCall} (h : Stage id history handler program) (hlater : id ∉ later.filterMap insertedId) :
    Stage id (history ++ later) handler program := by
  have hnotMem : id ∉ history.filterMap insertedId → id ∉ (history ++ later).filterMap insertedId := by
    rw [List.filterMap_append, List.mem_append, not_or]
    exact fun hnew => ⟨hnew, hlater⟩
  cases h with
  | opening key hcaller hnew => exact .opening key hcaller (hnotMem hnew)
  | registered key hcaller hnew => exact .registered key hcaller (hnotMem hnew)
  | disconnecting owner => exact .disconnecting handler owner
  | unregistering removed => exact .unregistering handler removed

end SessionHandler

/-- The calls of a run that read or change the records. -/
def sessionCalls {n : Nat} (events : List (Event (Fin n) TableCall TableReply Unit)) : List SessionCall :=
  events.filterMap fun event =>
    match event.request with
    | .insertSession id owner key => some (.insertSession id owner key)
    | .removeOwner owner => some (.removeOwner owner)
    | .register _ | .unregister _ => none

section

variable (cipher : SessionCipher) {n : Nat} (handlers : Fin n → SessionHandler) (ids : Fin n ↪ Uuid)

/-- What holds between the turns of a run. Every object belongs to a session whose record is still to be
inserted, is there, or has just been dropped. -/
structure TablesStanding (history : List SessionCall) (pool : Fin n → TableProgram Unit)
    (tables : SessionTables) : Prop where
  provider_eq : tables.provider = (Provider.new cipher).after history
  fresh : FreshIds history
  inserted : ∀ id owner key, .insertSession id owner key ∈ history →
    ∃ who, ids who = id ∧ (handlers who).caller = some owner
  stage : ∀ who, SessionHandler.Stage (ids who) history (handlers who) (pool who)
  objects : ∀ id ∈ tables.objects, (∃ who owner key, pool who = insertRecord id owner key) ∨
    (∃ owner, Live history owner id) ∨ ∃ who removed, pool who = unregisterSessions removed ∧ id ∈ removed

variable {cipher handlers ids} {history : List SessionCall} {pool : Fin n → TableProgram Unit} {tables : SessionTables}

/-- The objects of a run are still accounted for after a handler has gone a step further. -/
theorem TablesStanding.objects_update (h : TablesStanding cipher handlers ids history pool tables) {who : Fin n}
    {program : TableProgram Unit} {history' : List SessionCall} {id : Uuid} (hid : id ∈ tables.objects)
    (hinsert : ∀ owner key, pool who = insertRecord id owner key → ∃ owner, Live history' owner id)
    (hlive : ∀ owner, Live history owner id → (∃ owner, Live history' owner id) ∨
      ∃ removed, program = unregisterSessions removed ∧ id ∈ removed)
    (hremoved : ∀ removed, pool who = unregisterSessions removed → id ∈ removed →
      ∃ removed, program = unregisterSessions removed ∧ id ∈ removed) :
    (∃ other owner key, Function.update pool who program other = insertRecord id owner key) ∨
      (∃ owner, Live history' owner id) ∨
        ∃ other removed, Function.update pool who program other = unregisterSessions removed ∧ id ∈ removed := by
  rcases h.objects id hid with ⟨other, owner, key, hother⟩ | ⟨owner, hrecord⟩ | ⟨other, removed, hother, hmem⟩
  · by_cases heq : other = who
    · exact .inr (.inl (hinsert owner key (heq ▸ hother)))
    · exact .inl ⟨other, owner, key, by rwa [Function.update_of_ne heq]⟩
  · rcases hlive owner hrecord with hstill | ⟨removed, hprogram, hmem⟩
    · exact .inr (.inl hstill)
    · exact .inr (.inr ⟨who, removed, by rwa [Function.update_self], hmem⟩)
  · by_cases heq : other = who
    · obtain ⟨removed, hprogram, hmem⟩ := hremoved removed (heq ▸ hother) hmem
      exact .inr (.inr ⟨who, removed, by rwa [Function.update_self], hmem⟩)
    · exact .inr (.inr ⟨other, removed, by rwa [Function.update_of_ne heq], hmem⟩)

theorem stage_update {history' : List SessionCall} {who : Fin n} {program : TableProgram Unit}
    (hothers : ∀ other, other ≠ who → SessionHandler.Stage (ids other) history' (handlers other) (pool other))
    (hprogram : SessionHandler.Stage (ids who) history' (handlers who) program) (other : Fin n) :
    SessionHandler.Stage (ids other) history' (handlers other) (Function.update pool who program other) := by
  by_cases heq : other = who
  · subst heq
    rwa [Function.update_self]
  · rw [Function.update_of_ne heq]
    exact hothers other heq

/-- A program that registers an object or drops records has nothing to unregister. -/
theorem unregisterSessions_ne {request : TableCall} {next : Except Unit (TableReply request) → TableProgram Unit}
    {removed : List Uuid} (h : Program.call request next = unregisterSessions removed)
    (hrequest : ∀ id, request ≠ .unregister id) (id : Uuid) : id ∉ removed := by
  cases removed with
  | nil => exact List.not_mem_nil
  | cons first rest =>
      cases h
      exact absurd rfl (hrequest first)

section

variable {who : Fin n} {owner : String} {key : SessionKey}
  (h : TablesStanding cipher handlers ids history pool tables)

include h

theorem TablesStanding.register_fails (hcall : pool who = registerObject (ids who) owner key) :
    TablesStanding cipher handlers ids history (Function.update pool who (.done ())) tables := by
  refine ⟨h.provider_eq, h.fresh, h.inserted, stage_update (fun other _ => h.stage other) (.ended _), fun id hid => ?_⟩
  refine h.objects_update hid (fun owner key hpool => ?_) (fun owner hlive => .inl ⟨owner, hlive⟩)
    fun removed hpool hmem => ?_
  · rw [hcall] at hpool
    cases hpool
  · exact absurd hmem (unregisterSessions_ne (hcall.symm.trans hpool) (by simp) id)

theorem TablesStanding.register (hcall : pool who = registerObject (ids who) owner key)
    (hcaller : (handlers who).caller = some owner) (hnew : ids who ∉ history.filterMap insertedId) :
    TablesStanding cipher handlers ids history (Function.update pool who (insertRecord (ids who) owner key))
      { tables with objects := insert (ids who) tables.objects } := by
  refine ⟨h.provider_eq, h.fresh, h.inserted,
    stage_update (fun other _ => h.stage other) (.registered key hcaller hnew), fun id hid => ?_⟩
  rcases Finset.mem_insert.mp hid with rfl | hold
  · exact .inl ⟨who, owner, key, Function.update_self ..⟩
  · refine h.objects_update hold (fun owner key hpool => ?_) (fun owner hlive => .inl ⟨owner, hlive⟩)
      fun removed hpool hmem => ?_
    · rw [hcall] at hpool
      cases hpool
    · exact absurd hmem (unregisterSessions_ne (hcall.symm.trans hpool) (by simp) id)

theorem TablesStanding.insert (hcall : pool who = insertRecord (ids who) owner key)
    (hcaller : (handlers who).caller = some owner) (hnew : ids who ∉ history.filterMap insertedId) :
    TablesStanding cipher handlers ids (history ++ [.insertSession (ids who) owner key])
      (Function.update pool who (.done ()))
      { tables with provider := tables.provider.insertSession (ids who) owner key } := by
  have hlive : ∀ {id caller}, Live history caller id →
      Live (history ++ [.insertSession (ids who) owner key]) caller id :=
    .imp fun key hkey => liveWith_append_singleton.mpr (.inr ⟨hkey, by simp, by simp⟩)
  refine ⟨?_, ?_, fun id caller key hmem => ?_, stage_update (fun other hne => ?_) (.ended _), fun id hid => ?_⟩
  · rw [Provider.after_append_singleton, ← h.provider_eq]
    rfl
  · rw [FreshIds, List.filterMap_append]
    exact List.nodup_append.mpr ⟨h.fresh, List.nodup_singleton _, fun id hmem _ hother heq =>
      hnew (List.mem_singleton.mp hother ▸ heq ▸ hmem)⟩
  · rcases List.mem_append.mp hmem with hold | hlast
    · exact h.inserted id caller key hold
    · cases List.mem_singleton.mp hlast
      exact ⟨who, rfl, hcaller⟩
  · exact (h.stage other).append fun hmem => hne (ids.injective (List.mem_singleton.mp hmem))
  · refine h.objects_update hid (fun caller key hpool => ?_) (fun owner hold => .inl ⟨owner, hlive hold⟩)
      fun removed hpool hmem => ?_
    · rw [hcall] at hpool
      cases hpool
      exact ⟨owner, key, liveWith_append_singleton.mpr (.inl rfl)⟩
    · exact absurd hmem (unregisterSessions_ne (hcall.symm.trans hpool) (by simp) id)

theorem TablesStanding.disconnect (hcall : pool who = removeOwnerSessions owner) :
    TablesStanding cipher handlers ids (history ++ [.removeOwner owner])
      (Function.update pool who (unregisterSessions (tables.provider.removeOwner owner).1))
      { tables with provider := (tables.provider.removeOwner owner).2 } := by
  refine ⟨?_, ?_, fun id caller key hmem => ?_, stage_update (fun other hne => ?_) (.unregistering _ _),
    fun id hid => ?_⟩
  · rw [Provider.after_append_singleton, ← h.provider_eq]
    rfl
  · rw [FreshIds, List.filterMap_append]
    exact (List.append_nil _).symm ▸ h.fresh
  · rcases List.mem_append.mp hmem with hold | hlast
    · exact h.inserted id caller key hold
    · cases List.mem_singleton.mp hlast
  · exact (h.stage other).append List.not_mem_nil
  · refine h.objects_update hid (fun caller key hpool => ?_) (fun caller hold => ?_) fun removed hpool hmem => ?_
    · rw [hcall] at hpool
      cases hpool
    · by_cases hcaller : caller = owner
      · subst hcaller
        obtain ⟨key, hkey⟩ := hold
        refine .inr ⟨_, rfl, (Provider.mem_removeOwner caller).mpr ⟨key, ?_⟩⟩
        rw [h.provider_eq]
        exact (Provider.sessions_after cipher h.fresh caller id key).mpr hkey
      · obtain ⟨key, hkey⟩ := hold
        refine .inl ⟨caller, key, liveWith_append_singleton.mpr (.inr ⟨hkey, by simp, fun heq => hcaller ?_⟩)⟩
        cases heq
        rfl
    · exact absurd hmem (unregisterSessions_ne (hcall.symm.trans hpool) (by simp) id)

theorem TablesStanding.unregister {first : Uuid} {rest : List Uuid}
    (hcall : pool who = unregisterSessions (first :: rest)) :
    TablesStanding cipher handlers ids history (Function.update pool who (unregisterSessions rest))
      { tables with objects := tables.objects.erase first } := by
  refine ⟨h.provider_eq, h.fresh, h.inserted, stage_update (fun other _ => h.stage other) (.unregistering _ _),
    fun id hid => ?_⟩
  obtain ⟨hne, hold⟩ := Finset.mem_erase.mp hid
  refine h.objects_update hold (fun owner key hpool => ?_) (fun owner hlive => .inl ⟨owner, hlive⟩)
    fun removed hpool hmem => ?_
  · rw [hcall] at hpool
    cases hpool
  · cases removed with
    | nil => cases hmem
    | cons other others =>
        rw [hcall, unregisterSessions, unregisterSessions, Program.call.injEq, TableCall.unregister.injEq] at hpool
        obtain ⟨rfl, hnext⟩ := hpool
        exact ⟨others, congrFun (eq_of_heq hnext) (.ok ()), (List.mem_cons.mp hmem).resolve_left hne⟩

end

/-- Unregistering an object that is gone changes nothing. -/
theorem SessionTables.serve_unregister (id : Uuid) (choice : Bool) (tables : SessionTables) :
    (SessionTables.serve (.unregister id) choice tables).2 = { tables with objects := tables.objects.erase id } := by
  rw [SessionTables.serve]
  split_ifs with hmem
  · rfl
  · rw [Finset.erase_eq_of_notMem hmem]

@[simp] theorem sessionCalls_append (events : List (Event (Fin n) TableCall TableReply Unit))
    (event : Event (Fin n) TableCall TableReply Unit) :
    sessionCalls (events ++ [event]) = sessionCalls events ++ sessionCalls [event] :=
  List.filterMap_append

/-- Every answered call keeps what holds between the turns. -/
theorem TablesStanding.step {events : List (Event (Fin n) TableCall TableReply Unit)}
    (h : TablesStanding cipher handlers ids (sessionCalls events) pool tables) {who : Fin n} {request : TableCall}
    {next : Except Unit (TableReply request) → TableProgram Unit} (choice : Bool)
    (hcall : pool who = .call request next) :
    TablesStanding cipher handlers ids
      (sessionCalls (events ++ [⟨who, request, (SessionTables.serve request choice tables).1⟩]))
      (Function.update pool who (next (SessionTables.serve request choice tables).1))
      (SessionTables.serve request choice tables).2 := by
  have hquiet : ∀ event : Event (Fin n) TableCall TableReply Unit, sessionCalls [event] = [] →
      sessionCalls (events ++ [event]) = sessionCalls events := by
    intro event hevent
    rw [sessionCalls_append, hevent, List.append_nil]
  have hstage := h.stage who
  generalize hprogram : pool who = program at hstage
  cases hstage with
  | @opening owner key hcaller hnew =>
      cases hcall.symm.trans hprogram
      rw [hquiet _ rfl]
      cases choice with
      | true => exact h.register_fails hprogram
      | false => exact h.register hprogram hcaller hnew
  | @registered owner key hcaller hnew =>
      cases hcall.symm.trans hprogram
      exact sessionCalls_append events _ ▸ h.insert hprogram hcaller hnew
  | disconnecting owner =>
      cases hcall.symm.trans hprogram
      exact sessionCalls_append events _ ▸ h.disconnect hprogram
  | unregistering removed =>
      cases removed with
      | nil => cases hcall.symm.trans hprogram
      | cons first rest =>
          cases hcall.symm.trans hprogram
          rw [hquiet _ rfl, SessionTables.serve_unregister]
          exact h.unregister hprogram

theorem TablesStanding.start (cipher : SessionCipher) (sha256 : Blob → Vector UInt8 32)
    (handlers : Fin n → SessionHandler) (ids : Fin n ↪ Uuid) :
    TablesStanding cipher handlers ids [] (fun who => (handlers who).run sha256 (ids who)) (.new cipher) where
  provider_eq := rfl
  fresh := List.nodup_nil
  inserted := fun _ _ _ hmem => (List.not_mem_nil hmem).elim
  stage := fun who => .start sha256 List.not_mem_nil (handlers who)
  objects := fun _ hmem => (Finset.notMem_empty _ hmem).elim

/-- Once all handlers have ended, every object belongs to a session whose record is there. -/
theorem TablesStanding.live_of_object (h : TablesStanding cipher handlers ids history pool tables)
    (hended : ∀ who, pool who = .done ()) {id : Uuid} (hid : id ∈ tables.objects) : ∃ owner, Live history owner id := by
  rcases h.objects id hid with ⟨who, owner, key, hpool⟩ | hlive | ⟨who, removed, hpool, hmem⟩
  · rw [hended who] at hpool
    cases hpool
  · exact hlive
  · cases removed with
    | nil => cases hmem
    | cons first rest =>
        rw [hended who] at hpool
        cases hpool

/-- Nothing of a caller is left: neither a record, with its key, nor an object. -/
def SessionTables.Wiped (handlers : Fin n → SessionHandler) (ids : Fin n ↪ Uuid) (tables : SessionTables)
    (owner : String) : Prop :=
  (∀ (id : Uuid) key, tables.provider.sessions[id]? ≠ some (SessionRecord.mk owner key)) ∧
    ∀ who, (handlers who).caller = some owner → ids who ∉ tables.objects

/-- Every record of the caller is inserted before records of the caller are dropped. -/
def InsertedBeforeRemoval (history : List SessionCall) (owner : String) : Prop :=
  ∀ earlier later id key, history = earlier ++ .insertSession id owner key :: later → .removeOwner owner ∈ later

theorem closeSession_notMem_sessionCalls (events : List (Event (Fin n) TableCall TableReply Unit)) (id : Uuid)
    (owner : String) : .closeSession id owner ∉ sessionCalls events := by
  intro hmem
  obtain ⟨⟨who, request, reply⟩, -, hrequest⟩ := List.mem_filterMap.mp hmem
  cases request <;> cases hrequest

theorem insertedBeforeRemoval_iff (hclosed : ∀ id owner, .closeSession id owner ∉ history) (owner : String) :
    InsertedBeforeRemoval history owner ↔ ∀ id, ¬ Live history owner id := by
  constructor
  · rintro hordered id ⟨key, earlier, later, hhistory, -, hremove⟩
    exact hremove (hordered earlier later id key hhistory)
  · intro hdead earlier later id key hhistory
    by_contra hremove
    refine hdead id ⟨key, earlier, later, hhistory, fun hclose => hclosed id owner ?_, hremove⟩
    rw [hhistory]
    exact List.mem_append_right _ (List.mem_cons_of_mem _ hclose)

/-- Once all handlers have ended, what is left of a caller is what is live by the history. -/
theorem TablesStanding.wiped_iff (h : TablesStanding cipher handlers ids history pool tables)
    (hended : ∀ who, pool who = .done ()) (owner : String) :
    tables.Wiped handlers ids owner ↔ ∀ id, ¬ Live history owner id := by
  have hrecord : ∀ (id : Uuid) key,
      tables.provider.sessions[id]? = some (SessionRecord.mk owner key) ↔ LiveWith history owner id key := by
    intro id key
    rw [h.provider_eq]
    exact Provider.sessions_after cipher h.fresh owner id key
  constructor
  · rintro ⟨hrecords, -⟩ id ⟨key, hkey⟩
    exact hrecords id key ((hrecord id key).mpr hkey)
  · intro hdead
    refine ⟨fun id key hstored => hdead id ⟨key, (hrecord id key).mp hstored⟩, fun who hcaller hobject => ?_⟩
    obtain ⟨caller, hlive⟩ := h.live_of_object hended hobject
    obtain ⟨key, earlier, later, hhistory, -⟩ := id hlive
    have hmem : .insertSession (ids who) caller key ∈ history := by
      rw [hhistory]
      exact List.mem_append_right _ List.mem_cons_self
    obtain ⟨other, hid, hother⟩ := h.inserted _ _ _ hmem
    rw [ids.injective hid, hcaller, Option.some.injEq] at hother
    exact hdead _ (hother ▸ hlive)

/-- After the handlers of a run, nothing is left of the callers whose disconnect was handled if and only if
no record of them was inserted after their records had been dropped. -/
theorem disconnect_wipes_sessions_iff (cipher : SessionCipher) (sha256 : Blob → Vector UInt8 32) {n : Nat}
    (handlers : Fin n → SessionHandler) (ids : Fin n ↪ Uuid) (turns : List (Fin n × Bool)) :
    let played := play SessionTables.serve turns (fun who => (handlers who).run sha256 (ids who)) (.new cipher)
    (∀ who, played.pool who = .done ()) →
      ((∀ owner, (∃ who, handlers who = .nameOwnerChanged owner none) → played.state.Wiped handlers ids owner) ↔
        ∀ owner, (∃ who, handlers who = .nameOwnerChanged owner none) →
          InsertedBeforeRemoval (sessionCalls played.events) owner) := by
  intro played hended
  have hstanding : TablesStanding cipher handlers ids (sessionCalls ([] ++ played.events)) played.pool played.state :=
    play_induction (fun events pool tables => TablesStanding cipher handlers ids (sessionCalls events) pool tables)
      (fun choice h hcall => h.step choice hcall) turns (.start cipher sha256 handlers ids)
  rw [List.nil_append] at hstanding
  refine forall₂_congr fun owner _ => ?_
  rw [hstanding.wiped_iff hended, insertedBeforeRemoval_iff (closeSession_notMem_sessionCalls played.events)]

end

/-- One caller opens a session and disconnects. -/
def openAndLeave : Fin 2 → SessionHandler
  | 0 => .openSession (some ":1.5") "plain" (.text "") 0
  | 1 => .nameOwnerChanged ":1.5" none

def openAndLeaveIds : Fin 2 ↪ Uuid := ⟨fun who => ⟨BitVec.ofNat 128 (who.val + 1)⟩, by decide⟩

/-- The tables after the two handlers have taken turns in an order. -/
def openAndLeaveRun (order : List (Fin 2)) : Played (Fin 2) TableCall TableReply Unit SessionTables Unit :=
  play SessionTables.serve (order.map fun who => (who, false))
    (fun who => (openAndLeave who).run (fun _ => Vector.replicate 32 0) (openAndLeaveIds who))
    (.new ⟨fun _ _ text => text, fun _ _ text => some text⟩)

/-- The disconnect is handled after the session has been opened. -/
theorem disconnect_wipes_sessions_in_order :
    (openAndLeaveRun [0, 0, 1, 1]).state.Wiped openAndLeave openAndLeaveIds ":1.5" := by
  have hended : ∀ who, (openAndLeaveRun [0, 0, 1, 1]).pool who = .done () := by
    intro who
    fin_cases who <;> rfl
  have hcalls : sessionCalls (openAndLeaveRun [0, 0, 1, 1]).events =
      [.insertSession ⟨1⟩ ":1.5" .plain, .removeOwner ":1.5"] := rfl
  refine (disconnect_wipes_sessions_iff _ _ openAndLeave openAndLeaveIds ([0, 0, 1, 1].map fun who => (who, false))
    hended).mpr (fun owner _ earlier later id key hsplit => ?_) ":1.5" ⟨1, rfl⟩
  rcases earlier with _ | ⟨first, _ | ⟨second, rest⟩⟩
  · cases hcalls.symm.trans hsplit
    exact List.mem_cons_self
  · cases hcalls.symm.trans hsplit
  · have hlength := congrArg List.length (hcalls.symm.trans hsplit)
    simp only [List.length_append, List.length_cons, List.length_nil] at hlength
    omega

/-- The disconnect is handled between the two steps of OpenSession: both handlers end, and the record with
its key and the object are left. -/
theorem session_outlives_its_caller :
    (∀ who, (openAndLeaveRun [0, 1, 0]).pool who = .done ()) ∧ openAndLeave 1 = .nameOwnerChanged ":1.5" none ∧
      (openAndLeaveRun [0, 1, 0]).state.provider.sessions[openAndLeaveIds 0]? = some ⟨":1.5", .plain⟩ ∧
      openAndLeaveIds 0 ∈ (openAndLeaveRun [0, 1, 0]).state.objects := by
  refine ⟨fun who => ?_, rfl, ?_, ?_⟩
  · fin_cases who <;> rfl
  · decide +kernel
  · decide +kernel

end WincredLibsecret
