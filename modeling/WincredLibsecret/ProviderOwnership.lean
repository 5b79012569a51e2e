import WincredLibsecret.ProviderSession

/-! Who may use a session. The provider's table is compared with the history of the calls that made it: a
session is live for a caller from the moment it was inserted for this caller until the caller closes it or
disconnects, and it is never live for anyone else. -/

namespace WincredLibsecret

/-- A call that reads or changes the table of sessions. -/
inductive SessionCall where
  | insertSession (id : Uuid) (owner : String) (key : SessionKey)
  | closeSession (id : Uuid) (owner : String)
  | removeOwner (owner : String)
  | decodeSecret (owner : String) (secret : DbusSecret)
  | encodeSecret (owner : String) (session : Uuid) (secret : SecretBytes) (contentType : String)
      (iv : Option (Vector UInt8 16))

namespace SessionCall

def insertedId : SessionCall → Option Uuid
  | insertSession id _ _ => some id
  | _ => none

/-- The caller and the session of a call that needs a session of the caller. -/
def uses : SessionCall → Option (String × Uuid)
  | closeSession id owner => some (owner, id)
  | decodeSecret owner secret => (sessionId secret.session).map (owner, ·)
  | encodeSecret owner session _ _ _ => some (owner, session)
  | _ => none

/-- Every session of the history has an identifier of its own. -/
def FreshIds (calls : List SessionCall) : Prop := (calls.filterMap insertedId).Nodup

/-- The session was inserted for the caller with this key, and since then the caller has neither closed it
nor disconnected. -/
def LiveWith (calls : List SessionCall) (owner : String) (id : Uuid) (key : SessionKey) : Prop :=
  ∃ earlier later, calls = earlier ++ insertSession id owner key :: later ∧
    closeSession id owner ∉ later ∧ removeOwner owner ∉ later

def Live (calls : List SessionCall) (owner : String) (id : Uuid) : Prop := ∃ key, LiveWith calls owner id key

variable {calls : List SessionCall} {call : SessionCall} {owner : String} {id : Uuid} {key : SessionKey}

theorem not_liveWith_nil : ¬ LiveWith [] owner id key := by
  rintro ⟨earlier, later, hcalls, -⟩
  simp at hcalls

theorem liveWith_append_singleton :
    LiveWith (calls ++ [call]) owner id key ↔ call = insertSession id owner key ∨
      LiveWith calls owner id key ∧ call ≠ closeSession id owner ∧ call ≠ removeOwner owner := by
  constructor
  · rintro ⟨earlier, later, hcalls, hclose, hremove⟩
    -- the last call is the insertion itself, or it comes after the insertion
    rcases List.eq_nil_or_concat later with rfl | ⟨later, last, rfl⟩
    · obtain ⟨-, hlast⟩ := List.append_inj' hcalls rfl
      exact .inl (List.singleton_inj.mp hlast)
    · rw [List.concat_eq_append] at hcalls hclose hremove
      rw [← List.cons_append, ← List.append_assoc] at hcalls
      obtain ⟨hsplit, hlast⟩ := List.append_inj' hcalls rfl
      obtain rfl := List.singleton_inj.mp hlast
      rw [List.mem_append, List.mem_singleton, not_or] at hclose hremove
      exact .inr ⟨⟨earlier, later, hsplit, hclose.1, hremove.1⟩, Ne.symm hclose.2, Ne.symm hremove.2⟩
  · rintro (rfl | ⟨⟨earlier, later, rfl, hclose, hremove⟩, hnotClose, hnotRemove⟩)
    · exact ⟨calls, [], rfl, List.not_mem_nil, List.not_mem_nil⟩
    · refine ⟨earlier, later ++ [call], by rw [List.append_assoc, List.cons_append], ?_, ?_⟩
      · rw [List.mem_append, List.mem_singleton, not_or]
        exact ⟨hclose, Ne.symm hnotClose⟩
      · rw [List.mem_append, List.mem_singleton, not_or]
        exact ⟨hremove, Ne.symm hnotRemove⟩

theorem LiveWith.mem_inserted (h : LiveWith calls owner id key) : id ∈ calls.filterMap insertedId := by
  obtain ⟨earlier, later, rfl, -, -⟩ := h
  rw [List.filterMap_append, List.mem_append]
  exact .inr List.mem_cons_self

end SessionCall

namespace Provider

open SessionCall

variable (provider : Provider)

def refusal {α : Type} : Except ProviderError α → Option ProviderError
  | .error error => some error
  | .ok _ => none

/-- The error a call is refused with, and the provider after the call. -/
def respond : SessionCall → Option ProviderError × Provider
  | .insertSession id owner key => (none, provider.insertSession id owner key)
  | .closeSession id owner => (refusal (provider.closeSession id owner).1, (provider.closeSession id owner).2)
  | .removeOwner owner => (none, (provider.removeOwner owner).2)
  | .decodeSecret owner secret => (refusal (provider.decodeSecret owner secret), provider)
  | .encodeSecret owner session secret contentType iv =>
      (refusal (provider.encodeSecret owner session secret contentType iv), provider)

def after (calls : List SessionCall) : Provider := calls.foldl (fun provider call => (provider.respond call).2) provider

theorem after_append_singleton (calls : List SessionCall) (call : SessionCall) :
    provider.after (calls ++ [call]) = ((provider.after calls).respond call).2 :=
  List.foldl_append

variable {provider} {owner : String} {id : Uuid} {record : SessionRecord}

theorem sessionOf_eq_ok :
    provider.sessionOf owner id = .ok record ↔ provider.sessions[id]? = some record ∧ record.owner = owner := by
  rw [sessionOf]
  cases hstored : provider.sessions[id]? with
  | none => simp
  | some stored =>
      simp only [Option.some.injEq]
      by_cases howner : stored.owner = owner
      · rw [if_neg (not_not_intro howner), Except.ok.injEq]
        exact ⟨fun h => ⟨h, h ▸ howner⟩, fun h => h.1⟩
      · rw [if_pos howner]
        exact ⟨nofun, fun ⟨h, hrecord⟩ => absurd (h ▸ hrecord) howner⟩

theorem sessionOf_error (h : ∀ record, provider.sessionOf owner id ≠ .ok record) :
    provider.sessionOf owner id = .error .invalidSession := by
  rw [sessionOf] at h ⊢
  cases hstored : provider.sessions[id]? with
  | none => rfl
  | some stored =>
      rw [hstored] at h
      by_cases howner : stored.owner = owner
      · exact absurd (if_neg (not_not_intro howner)) (h stored)
      · exact if_pos howner

theorem sessions_insertSession (inserted : Uuid) (caller : String) (key : SessionKey) :
    (provider.insertSession inserted caller key).sessions[id]? =
      if inserted = id then some ⟨caller, key⟩ else provider.sessions[id]? := by
  rw [insertSession, Std.ExtTreeMap.getElem?_insert]
  simp only [Std.LawfulEqOrd.compare_eq_iff_eq]

theorem sessions_closeSession (closed : Uuid) (caller : String) :
    ((provider.closeSession closed caller).2.sessions[id]? = some record) ↔
      provider.sessions[id]? = some record ∧ ¬ (closed = id ∧ caller = record.owner) := by
  rw [closeSession]
  cases hcheck : provider.sessionOf caller closed with
  | error error =>
      refine ⟨fun h => ⟨h, ?_⟩, fun h => h.1⟩
      rintro ⟨rfl, rfl⟩
      rw [sessionOf_eq_ok.mpr ⟨h, rfl⟩] at hcheck
      cases hcheck
  | ok closedRecord =>
      obtain ⟨hclosed, hcaller⟩ := sessionOf_eq_ok.mp hcheck
      simp only [Std.ExtTreeMap.getElem?_erase, Std.LawfulEqOrd.compare_eq_iff_eq]
      by_cases hid : closed = id
      · subst hid
        simp only [if_pos, hclosed, Option.some.injEq, reduceCtorEq, true_and, false_iff, not_and, not_not]
        rintro rfl
        exact hcaller.symm
      · rw [if_neg hid]
        exact ⟨fun h => ⟨h, fun hboth => hid hboth.1⟩, fun h => h.1⟩

theorem sessions_removeOwner (caller : String) :
    ((provider.removeOwner caller).2.sessions[id]? = some record) ↔
      provider.sessions[id]? = some record ∧ record.owner ≠ caller := by
  rw [removeOwner, Std.ExtTreeMap.getElem?_filter]
  simp [Option.filter_eq_some_iff]

theorem mem_removeOwner (caller : String) :
    id ∈ (provider.removeOwner caller).1 ↔ ∃ key, provider.sessions[id]? = some ⟨caller, key⟩ := by
  simp only [removeOwner, List.mem_filterMap, Prod.exists, Std.ExtTreeMap.mem_toList_iff_getElem?_eq_some]
  constructor
  · rintro ⟨stored, ⟨owner, key⟩, hstored, hremoved⟩
    by_cases howner : owner = caller
    · rw [if_pos howner, Option.some.injEq] at hremoved
      exact ⟨key, hremoved ▸ howner ▸ hstored⟩
    · rw [if_neg howner] at hremoved
      cases hremoved
  · rintro ⟨key, hkey⟩
    exact ⟨id, ⟨caller, key⟩, hkey, if_pos rfl⟩

theorem nodup_removeOwner (caller : String) : (provider.removeOwner caller).1.Nodup := by
  have hkeys : (provider.sessions.toList.map Prod.fst).Nodup := by
    rw [Std.ExtTreeMap.map_fst_toList_eq_keys]
    exact Std.ExtTreeMap.nodup_keys
  refine List.Pairwise.filterMap _ ?_ (List.pairwise_map.mp (List.nodup_iff_pairwise_ne.mp hkeys))
  intro entry other hne first hfirst second hsecond
  split_ifs at hfirst hsecond
  cases hfirst
  cases hsecond
  exact hne

variable {calls : List SessionCall}

/-- The table holds exactly the sessions that are live by the history. -/
theorem sessions_after (cipher : SessionCipher) (hfresh : FreshIds calls) (owner : String) (id : Uuid)
    (key : SessionKey) :
    ((new cipher).after calls).sessions[id]? = some ⟨owner, key⟩ ↔ LiveWith calls owner id key := by
  induction calls using List.reverseRecOn generalizing id owner key with
  | nil =>
      refine iff_of_false ?_ not_liveWith_nil
      simp [after, new]
  | append_singleton calls call ih =>
      rw [FreshIds, List.filterMap_append] at hfresh
      have hcalls := ih (List.nodup_append.mp hfresh).1
      rw [liveWith_append_singleton, after_append_singleton]
      cases call with
      | insertSession inserted caller newKey =>
          have hnew : inserted ∉ calls.filterMap insertedId := fun hmem =>
            (List.nodup_append.mp hfresh).2.2 _ hmem _ List.mem_cons_self rfl
          have hold : ∀ {caller key}, ¬ LiveWith calls caller inserted key := fun hlive => hnew hlive.mem_inserted
          rw [respond, sessions_insertSession]
          by_cases hid : inserted = id
          · subst hid
            simp only [if_true, Option.some.injEq, SessionRecord.mk.injEq, SessionCall.insertSession.injEq,
              true_and, hold,
              false_and, or_false]
          · simp [hcalls, hid]
      | closeSession closed caller =>
          rw [respond, sessions_closeSession, hcalls]
          simp
      | removeOwner caller =>
          rw [respond, sessions_removeOwner, hcalls]
          simp [eq_comm]
      | decodeSecret caller secret => simp [respond, hcalls]
      | encodeSecret caller session secret contentType iv => simp [respond, hcalls]

theorem sessionOf_after (cipher : SessionCipher) (hfresh : FreshIds calls) {key : SessionKey}
    (hlive : LiveWith calls owner id key) : ((new cipher).after calls).sessionOf owner id = .ok ⟨owner, key⟩ :=
  sessionOf_eq_ok.mpr ⟨(sessions_after cipher hfresh owner id key).mpr hlive, rfl⟩

theorem sessionOf_after_of_not_live (cipher : SessionCipher) (hfresh : FreshIds calls) (hlive : ¬ Live calls owner id) :
    ((new cipher).after calls).sessionOf owner id = .error .invalidSession := by
  refine sessionOf_error fun ⟨caller, key⟩ hrecord => hlive ⟨key, ?_⟩
  obtain ⟨hstored, rfl⟩ := sessionOf_eq_ok.mp hrecord
  exact (sessions_after cipher hfresh _ id key).mp hstored

theorem sessionOf_removeOwner {other : String} (hother : other ≠ owner) :
    (provider.removeOwner owner).2.sessionOf other id = provider.sessionOf other id := by
  by_cases hlive : ∃ record, provider.sessionOf other id = .ok record
  · obtain ⟨record, hrecord⟩ := hlive
    obtain ⟨hstored, rfl⟩ := sessionOf_eq_ok.mp hrecord
    rw [hrecord]
    exact sessionOf_eq_ok.mpr ⟨(sessions_removeOwner owner).mpr ⟨hstored, hother⟩, rfl⟩
  · rw [sessionOf_error (not_exists.mp hlive)]
    refine sessionOf_error fun record hrecord => hlive ⟨record, ?_⟩
    obtain ⟨hstored, howner⟩ := sessionOf_eq_ok.mp hrecord
    exact sessionOf_eq_ok.mpr ⟨((sessions_removeOwner owner).mp hstored).1, howner⟩

theorem checkedIv_ne_invalidSession (parameters : Blob) : checkedIv parameters ≠ .error .invalidSession := by
  rw [checkedIv]
  split_ifs <;> simp

theorem encrypt_ne_invalidSession (key : SessionKey) (cipher : SessionCipher) (parameters secret : Blob) :
    key.encrypt cipher parameters secret ≠ .error .invalidSession := by
  cases key with
  | plain =>
      rw [SessionKey.encrypt]
      split_ifs <;> simp
  | dh key => simp [SessionKey.encrypt, bind_eq_error, checkedIv_ne_invalidSession]

theorem decrypt_ne_invalidSession (key : SessionKey) (cipher : SessionCipher) (parameters encrypted : Blob) :
    key.decrypt cipher parameters encrypted ≠ .error .invalidSession := by
  cases key with
  | plain =>
      rw [SessionKey.decrypt]
      split_ifs <;> simp
  | dh key =>
      rw [SessionKey.decrypt, ne_eq, bind_eq_error, not_or, not_exists]
      refine ⟨checkedIv_ne_invalidSession parameters, fun iv => ?_⟩
      rintro ⟨-, herror⟩
      split at herror <;> simp at herror

/-- The checks of a decrypted secret do not fail as the check of a session does. -/
theorem secretBytes_ne_invalidSession (clear : Blob) :
    (SecretBytes.new clear).mapError ProviderError.ofProtocol ≠ .error .invalidSession := by
  rw [SecretBytes.new]
  split_ifs <;> simp [Except.mapError, ProviderError.ofProtocol]

theorem decodeSecret_eq_invalidSession {secret : DbusSecret} (hsession : sessionId secret.session = some id) :
    provider.decodeSecret owner secret = .error .invalidSession ↔
      provider.sessionOf owner id = .error .invalidSession := by
  simp only [decodeSecret, hsession]
  change (provider.sessionOf owner id >>= _) = _ ↔ _
  rw [bind_eq_error, or_iff_left]
  rintro ⟨record, -, hrecord⟩
  rcases bind_eq_error.mp hrecord with herror | ⟨clear, -, hclear⟩
  · exact decrypt_ne_invalidSession _ _ _ _ herror
  · split_ifs at hclear
    · cases hclear
    · rcases bind_eq_error.mp hclear with herror | ⟨bytes, -, hbytes⟩
      · exact secretBytes_ne_invalidSession clear herror
      · cases hbytes

theorem encodeSecret_eq_invalidSession (secret : SecretBytes) (contentType : String) (iv : Option (Vector UInt8 16)) :
    provider.encodeSecret owner id secret contentType iv = .error .invalidSession ↔
      provider.sessionOf owner id = .error .invalidSession := by
  have hvalue : ∀ {key : SessionKey} {parameters : Blob} {next : Blob → DbusSecret},
      (do let value ← key.encrypt provider.cipher parameters secret.bytes; .ok (next value)) ≠
        Except.error ProviderError.invalidSession := by
    intro key parameters next
    simp [bind_eq_error, encrypt_ne_invalidSession]
  rw [encodeSecret, bind_eq_error, or_iff_left]
  rintro ⟨⟨caller, key⟩, -, hrecord⟩
  cases key with
  | plain => exact hvalue hrecord
  | dh key =>
      cases iv with
      | none => cases hrecord
      | some iv => exact hvalue hrecord

variable (provider) in
/-- A call that needs a session is refused for the session exactly where the check of the session fails. -/
theorem respond_of_uses {call : SessionCall} (huses : call.uses = some (owner, id)) :
    ((provider.respond call).1 = some .invalidSession ↔ provider.sessionOf owner id = .error .invalidSession) ∧
      (provider.sessionOf owner id = .error .invalidSession →
        provider.respond call = (some .invalidSession, provider)) := by
  have hrefusal : ∀ {α : Type} {result : Except ProviderError α},
      refusal result = some .invalidSession ↔ result = .error .invalidSession := by
    intro α result
    cases result <;> simp [refusal]
  cases call with
  | insertSession => cases huses
  | removeOwner => cases huses
  | closeSession closed caller =>
      cases huses
      rw [respond, hrefusal, closeSession]
      cases hcheck : provider.sessionOf owner id with
      | error error =>
          refine ⟨by simp, fun herror => ?_⟩
          cases herror
          rfl
      | ok record => simp
  | decodeSecret caller secret =>
      obtain ⟨session, hsession, hpair⟩ := Option.map_eq_some_iff.mp huses
      cases hpair
      have hrefused : (provider.respond (.decodeSecret owner secret)).1 = some .invalidSession ↔ _ :=
        hrefusal.trans (decodeSecret_eq_invalidSession hsession)
      exact ⟨hrefused, fun hcheck => Prod.ext (hrefused.mpr hcheck) rfl⟩
  | encodeSecret caller session secret contentType iv =>
      cases huses
      have hrefused : (provider.respond (.encodeSecret owner id secret contentType iv)).1 = some .invalidSession ↔ _ :=
        hrefusal.trans (encodeSecret_eq_invalidSession secret contentType iv)
      exact ⟨hrefused, fun hcheck => Prod.ext (hrefused.mpr hcheck) rfl⟩

/-- A call that needs a session passes the check exactly while the session is live for its caller, and is
refused without a change otherwise. A disconnect drops exactly the live sessions of its caller. -/
theorem sessions_belong_to_their_owner (cipher : SessionCipher) (calls : List SessionCall) (hfresh : FreshIds calls) :
    let provider := (new cipher).after calls
    (∀ owner id key, LiveWith calls owner id key → provider.sessionOf owner id = .ok ⟨owner, key⟩) ∧
      (∀ call owner id, call.uses = some (owner, id) →
        ((provider.respond call).1 ≠ some .invalidSession ↔ Live calls owner id) ∧
          (¬ Live calls owner id → provider.respond call = (some .invalidSession, provider))) ∧
      ∀ owner, (∀ id, id ∈ (provider.removeOwner owner).1 ↔ Live calls owner id) ∧
        (provider.removeOwner owner).1.Nodup ∧
        ∀ other, other ≠ owner → ∀ id,
          (provider.removeOwner owner).2.sessionOf other id = provider.sessionOf other id := by
  intro provider
  refine ⟨fun owner id key => sessionOf_after cipher hfresh, fun call owner id huses => ?_, fun owner => ⟨fun id => ?_,
    nodup_removeOwner owner, fun other hother id => ?_⟩⟩
  · obtain ⟨hrefused, hunchanged⟩ := provider.respond_of_uses huses
    have hcheck : provider.sessionOf owner id = .error .invalidSession ↔ ¬ Live calls owner id := by
      refine ⟨fun hcheck hlive => ?_, sessionOf_after_of_not_live cipher hfresh⟩
      obtain ⟨key, hkey⟩ := hlive
      rw [sessionOf_after cipher hfresh hkey] at hcheck
      cases hcheck
    exact ⟨by rw [ne_eq, hrefused, hcheck, not_not], fun hlive => hunchanged (hcheck.mpr hlive)⟩
  · rw [mem_removeOwner]
    exact exists_congr fun key => sessions_after cipher hfresh owner id key
  · exact sessionOf_removeOwner hother

/-- The session of one caller after another caller has disconnected. -/
theorem sessions_belong_to_their_owner_other_gone :
    let cipher : SessionCipher := ⟨fun _ _ text => text, fun _ _ text => some text⟩
    let calls : List SessionCall :=
      [.insertSession ⟨1⟩ ":1.5" .plain, .insertSession ⟨2⟩ ":1.6" .plain, .removeOwner ":1.6"]
    Live calls ":1.5" ⟨1⟩ ∧ ((new cipher).after calls).sessionOf ":1.5" ⟨1⟩ = .ok ⟨":1.5", .plain⟩ := by
  intro cipher calls
  have hlive : LiveWith calls ":1.5" ⟨1⟩ .plain :=
    ⟨[], [.insertSession ⟨2⟩ ":1.6" .plain, .removeOwner ":1.6"], rfl, by simp, by simp⟩
  have hfresh : FreshIds calls := by
    change [(⟨1⟩ : Uuid), ⟨2⟩].Nodup
    decide
  exact ⟨⟨.plain, hlive⟩, (sessions_belong_to_their_owner cipher calls hfresh).1 _ _ _ hlive⟩

end Provider

end WincredLibsecret
