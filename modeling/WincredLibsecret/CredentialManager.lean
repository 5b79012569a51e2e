import WincredLibsecret.TextCase
import WincredLibsecret.EffectRelation
import WincredLibsecret.BrokerService

/-! The Windows store behind the broker. It finds a credential by its name without regard to the case of
letters. The names of collections and items are written in lower case and stay apart. An alias is stored under
the base64 text of its name, and two aliases whose texts differ in case only share one credential. -/

namespace WincredLibsecret

open TextCodec Effect

theorem Uuid.map_toLower_toString (id : Uuid) : id.toString.toList.map Char.toLower = id.toString.toList := by
  have hgroups : ∀ group ∈ id.groups, group.map Char.toLower = group := by
    intro group hgroup
    refine (List.map_congr_left fun c hc => ?_).trans (List.map_id group)
    have hdigits := (map_toLower_hexDigits 32 id.value.toNat).trans (List.map_id _).symm
    exact List.map_inj_left.mp hdigits c (mem_digits_of_mem_groups hgroup hc)
  rw [toString, String.toList_ofList, hyphenated, map_toLower_intercalate, List.map_congr_left hgroups, List.map_id']
  rfl

namespace TargetName

/-- Two aliases whose names, cut into groups of six bits, have pairwise equal groups or groups that stand for
the two cases of a letter. -/
def Collides : TargetName → TargetName → Prop
  | .alias left, .alias right => List.Forall₂ CaseTwins (sextets (utf8Bytes left)) (sextets (utf8Bytes right))
  | _, _ => False

instance : (left right : TargetName) → Decidable (left.Collides right)
  | .alias _, .alias _ => inferInstanceAs (Decidable (List.Forall₂ _ _ _))
  | .alias _, .collection _ | .alias _, .itemMetadata _ | .alias _, .itemSecret _ _ => isFalse id
  | .collection _, _ | .itemMetadata _, _ | .itemSecret _ _, _ => isFalse id

theorem map_toLower_segments {left right : TargetName} (h : caseFolded left.toString = caseFolded right.toString) :
    left.segments.map (fun segment => segment.toList.map Char.toLower) =
      right.segments.map fun segment => segment.toList.map Char.toLower := by
  have hslash : ∀ target : TargetName, ∀ segment ∈ (target.segments.map String.toList).map (List.map Char.toLower),
      '/' ∉ segment := by
    intro target segment hsegment hmem
    obtain ⟨original, horiginal, rfl⟩ := List.mem_map.mp hsegment
    obtain ⟨c, hc, hlower⟩ := List.mem_map.mp hmem
    rw [toLower_eq_slash.mp hlower] at hc
    exact target.slash_notMem_segments original horiginal hc
  have hsplit : ∀ target : TargetName,
      ((['/'].intercalate (target.segments.map String.toList)).map Char.toLower).splitOn '/' =
        target.segments.map fun segment => segment.toList.map Char.toLower := by
    intro target
    rw [map_toLower_intercalate]
    rw [show Char.toLower '/' = '/' from rfl,
      List.splitOn_intercalate '/' (hslash target) (by cases target <;> simp [segments]), List.map_map]
    rfl
  rw [caseFolded_eq_iff, toList_toString, toList_toString, List.map_append, List.map_append] at h
  rw [← hsplit left, ← hsplit right, List.append_cancel_left h]

/-- The texts of two targets agree up to the case of letters only if the targets are the same or aliases that
collide. -/
theorem caseFolded_toString_eq_iff {left right : TargetName} :
    caseFolded left.toString = caseFolded right.toString ↔ left = right ∨ left.Collides right := by
  have huuid : ∀ id other : Uuid, id.toString.toList.map Char.toLower = other.toString.toList.map Char.toLower →
      id = other := by
    intro id other h
    rw [Uuid.map_toLower_toString, Uuid.map_toLower_toString] at h
    exact Uuid.toString_injective (String.toList_injective h)
  constructor
  · intro h
    have hsegments := map_toLower_segments h
    cases left <;> cases right <;> simp [segments] at hsegments
    · exact .inl (congrArg _ (huuid _ _ hsegments))
    · exact .inr (map_toLower_base64Encode.mp hsegments)
    · exact .inl (congrArg _ (huuid _ _ hsegments))
    · rw [huuid _ _ hsegments.1, huuid _ _ hsegments.2]
      exact .inl rfl
  · rintro (rfl | hcollides)
    · rfl
    · cases left <;> cases right <;> try exact hcollides.elim
      simp only [toString, caseFolded_eq_iff, String.toList_append, List.map_append, String.toList_ofList]
      rw [map_toLower_base64Encode.mpr hcollides]

end TargetName

/-- The generic credentials of a user, each kept with its name and found by the name in lower case. -/
structure CredentialManager where
  credentials : BTreeMap String (String × Blob)
  folded : ∀ key credential, credentials[key]? = some credential → caseFolded credential.1 = key

namespace CredentialManager

def empty : CredentialManager := ⟨∅, by simp⟩

def find (store : CredentialManager) (target : TargetName) : Option Blob :=
  store.credentials[caseFolded target.toString]?.map Prod.snd

/-- A write replaces a credential whose name differs in case only. -/
def put (store : CredentialManager) (target : TargetName) (blob : Blob) : CredentialManager where
  credentials := store.credentials.insert (caseFolded target.toString) (target.toString, blob)
  folded := by
    intro key credential hcredential
    rw [Std.ExtTreeMap.getElem?_insert] at hcredential
    split_ifs at hcredential with hkey
    · cases hcredential
      exact Std.LawfulEqCmp.eq_of_compare hkey
    · exact store.folded key credential hcredential

def drop (store : CredentialManager) (target : TargetName) : CredentialManager where
  credentials := store.credentials.erase (caseFolded target.toString)
  folded := by
    intro key credential hcredential
    rw [Std.ExtTreeMap.getElem?_erase] at hcredential
    split_ifs at hcredential
    exact store.folded key credential hcredential

/-- The calls of the backend over the Windows store. -/
def serve : (request : VaultCall) → CredentialManager → VaultReply request × CredentialManager
  | .acquireLock, store => ((), store)
  | .read target, store => (store.find target, store)
  | .write target blob, store => ((), store.put target blob)
  | .delete target, store => ((), store.drop target)
  | .enumerate, store => ((store.credentials.toList.map Prod.snd).filterMap enumerated, store)

theorem find_put (store : CredentialManager) (target other : TargetName) (blob : Blob) :
    (store.put target blob).find other =
      if caseFolded target.toString = caseFolded other.toString then some blob else store.find other := by
  rw [find, find, put, Std.ExtTreeMap.getElem?_insert]
  simp only [Std.compare_eq_iff_eq]
  split_ifs <;> rfl

theorem find_drop (store : CredentialManager) (target other : TargetName) :
    (store.drop target).find other =
      if caseFolded target.toString = caseFolded other.toString then none else store.find other := by
  rw [find, find, drop, Std.ExtTreeMap.getElem?_erase]
  simp only [Std.compare_eq_iff_eq]
  split_ifs <;> rfl

/-- Whatever the store holds, a write or delete under the first target does not change what is read under the
second, and a read under the first does not find what is written under the second. -/
def KeepsApart (left right : TargetName) : Prop :=
  ∀ (store : CredentialManager) (blob : Blob),
    (serve (.read right) (serve (.write left blob) store).2).1 = (serve (.read right) store).1 ∧
    (serve (.read right) (serve (.delete left) store).2).1 = (serve (.read right) store).1 ∧
    (serve (.read left) (serve (.write right blob) store).2).1 = (serve (.read left) store).1

theorem keepsApart_iff {left right : TargetName} :
    KeepsApart left right ↔ caseFolded left.toString ≠ caseFolded right.toString := by
  constructor
  · intro hapart hfolded
    have hwritten := (hapart empty []).1
    simp only [serve, find_put, if_pos hfolded] at hwritten
    simp [find, empty] at hwritten
  · intro hfolded store blob
    simp only [serve, find_put, find_drop, if_neg hfolded, if_neg hfolded.symm]
    exact ⟨rfl, rfl, rfl⟩

variable (broker : Broker) {store : CredentialManager} {name : String}

theorem answer_removeAlias (hname : TextWithin name maxAliasBytes false) {blob : Blob}
    (hfind : store.find (.alias name) = some blob) :
    Action.answer serve (broker.execute (.removeAlias name)) store = (.ok .empty, store.drop (.alias name)) := by
  have hcheck : checkAliasName name = .ok () := checkAliasName_eq_ok.mpr hname
  have hread : Action.answer serve (readCredential (.alias name)) store = (.ok (some blob), store) :=
    congrArg (fun found => (Except.ok found, store)) hfind
  rw [Broker.execute, Action.answer_bind]
  change Action.answer serve (Broker.removeAlias name) store = _
  rw [Broker.removeAlias, hcheck, Action.answer_bind]
  change Action.answer serve (readCredential (.alias name) >>= _) store = _
  rw [Action.answer_bind, hread]
  rfl

theorem answer_resolveAlias_none (hname : TextWithin name maxAliasBytes false)
    (hfind : store.find (.alias name) = none) :
    Action.answer serve (broker.execute (.resolveAlias name)) store = (.ok (.alias none), store) := by
  have hcheck : checkAliasName name = .ok () := checkAliasName_eq_ok.mpr hname
  have hread : Action.answer serve (readCredential (.alias name)) store = (.ok none, store) :=
    congrArg (fun found => (Except.ok found, store)) hfind
  rw [Broker.execute, Action.answer_bind]
  change Action.answer serve (broker.resolveAlias name) store = _
  rw [Broker.resolveAlias, hcheck, Action.answer_bind]
  change Action.answer serve (readCredential (.alias name) >>= _) store = _
  rw [Action.answer_bind, hread]
  rfl

/-- Removing an alias that was never set succeeds if it collides with a stored one, and removes that one. -/
theorem removeAlias_removes_collided {other : String} (hname : TextWithin name maxAliasBytes false)
    (hother : TextWithin other maxAliasBytes false) (hcollides : (TargetName.alias name).Collides (.alias other))
    {blob : Blob} (hfind : store.find (.alias other) = some blob) :
    (Action.answer serve (broker.execute (.removeAlias name)) store).1 = .ok .empty ∧
      (Action.answer serve (broker.execute (.resolveAlias other))
        (Action.answer serve (broker.execute (.removeAlias name)) store).2).1 = .ok (.alias none) := by
  have hfolded := TargetName.caseFolded_toString_eq_iff.mpr (.inr hcollides)
  have hfound : store.find (.alias name) = some blob := by
    rw [find, hfolded]
    exact hfind
  have hgone : (store.drop (.alias name)).find (.alias other) = none := by
    rw [find_drop, if_pos hfolded]
  rw [answer_removeAlias broker hname hfound, answer_resolveAlias_none broker hother hgone]
  exact ⟨rfl, rfl⟩

/-- Two targets are kept apart, as names without regard to case and as credentials of the Windows store, exactly
if they are not aliases with colliding names. -/
theorem distinct_targets_stay_distinct_iff {left right : TargetName} (hne : left ≠ right) :
    caseFolded left.toString ≠ caseFolded right.toString ∧ KeepsApart left right ↔ ¬ left.Collides right := by
  rw [keepsApart_iff, and_self, ne_eq, TargetName.caseFolded_toString_eq_iff, or_iff_right hne]

theorem default_and_login_stay_distinct :
    KeepsApart (.alias "default") (.alias "login") ∧ KeepsApart (.alias "default") (.collection .nil) :=
  ⟨((distinct_targets_stay_distinct_iff (by decide)).mpr (by decide)).2,
    ((distinct_targets_stay_distinct_iff (by decide)).mpr id).2⟩

/-- The aliases "aaa" and "aaG" are stored as YWFh and YWFH. Once the first is set, removing the second succeeds
and removes the first. -/
theorem colliding_aliases_share_credential :
    (TargetName.alias "aaa").WellFormed ∧ (TargetName.alias "aaG").WellFormed ∧
    (TargetName.alias "aaa") ≠ .alias "aaG" ∧
    caseFolded (TargetName.alias "aaa").toString = caseFolded (TargetName.alias "aaG").toString ∧
    ¬ KeepsApart (.alias "aaa") (.alias "aaG") ∧
    ∀ (broker : Broker) (store : CredentialManager) (blob : Blob),
      (Action.answer serve (broker.execute (.removeAlias "aaG")) (store.put (.alias "aaa") blob)).1 = .ok .empty ∧
      (Action.answer serve (broker.execute (.resolveAlias "aaa"))
        (Action.answer serve (broker.execute (.removeAlias "aaG")) (store.put (.alias "aaa") blob)).2).1 =
          .ok (.alias none) := by
  have hfirst : (TargetName.alias "aaa").WellFormed := ⟨nofun, by decide, by decide⟩
  have hsecond : (TargetName.alias "aaG").WellFormed := ⟨nofun, by decide, by decide⟩
  have hcollides : (TargetName.alias "aaG").Collides (.alias "aaa") := by decide
  have hfolded := TargetName.caseFolded_toString_eq_iff.mpr (.inr hcollides)
  refine ⟨hfirst, hsecond, by decide, hfolded.symm, fun hapart => keepsApart_iff.mp hapart hfolded.symm, ?_⟩
  intro broker store blob
  exact removeAlias_removes_collided broker hsecond hfirst hcollides (by rw [find_put, if_pos rfl])

end CredentialManager

end WincredLibsecret
