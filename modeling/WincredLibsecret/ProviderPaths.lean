import WincredLibsecret.ProviderSession

/-! The name space of the object server. Every path the provider makes up is an object path, so that its
conversion cannot fail; the paths of collections, items and sessions are read back as their identifiers; and no
path is shared between two kinds of objects, whatever alias names clients choose. -/

namespace WincredLibsecret

open TextCodec

def isPathCharacter (c : Char) : Bool := c.isAlphanum || c = '_'

/-- The grammar of object paths: the root, or elements of letters, digits and underscores, each behind a slash. -/
def isObjectPath (value : String) : Bool :=
  value = "/" || match value.toList.splitOn '/' with
    | [] :: element :: elements =>
        (element :: elements).all fun element => !element.isEmpty && element.all isPathCharacter
    | _ => false

/-- The conversion of a text the provider made up, which is expected to succeed. -/
def objectPath (value : String) : Option String := if isObjectPath value then some value else none

theorem isObjectPath_of_elements {value : String} {elements : List (List Char)} (hnil : elements ≠ [])
    (hvalue : value.toList = ['/'].intercalate ([] :: elements))
    (helements : ∀ element ∈ elements, element ≠ [] ∧ ∀ c ∈ element, isPathCharacter c) : isObjectPath value := by
  have hslash : ∀ element ∈ [] :: elements, '/' ∉ element := by
    intro element hmem hslash
    rcases List.mem_cons.mp hmem with rfl | helement
    · cases hslash
    · exact absurd ((helements element helement).2 _ hslash) (by decide)
  rw [isObjectPath, hvalue, List.splitOn_intercalate '/' hslash (List.cons_ne_nil _ _)]
  obtain ⟨element, rest, rfl⟩ := List.exists_cons_of_ne_nil hnil
  simp only [Bool.or_eq_true, List.all_eq_true, Bool.and_eq_true]
  refine .inr fun other hother => ⟨?_, (helements other hother).2⟩
  simp [(helements other hother).1]

theorem isPathCharacter_digitChar : ∀ n : Fin 16, isPathCharacter (Nat.digitChar n) := by decide

theorem isPathCharacter_of_mem_hexDigits {width n : Nat} {c : Char} (h : c ∈ hexDigits width n) :
    isPathCharacter c := by
  induction width generalizing n with
  | zero => cases h
  | succ width ih =>
      rw [hexDigits, List.mem_append, List.mem_singleton] at h
      rcases h with hrest | rfl
      · exact ih hrest
      · exact isPathCharacter_digitChar ⟨n % 16, Nat.mod_lt _ (by decide)⟩

/-- Below the service there is room for any kind and any name of path characters. -/
theorem isObjectPath_below_service {kind name : String} (hkind : kind ≠ "" ∧ ∀ c ∈ kind.toList, isPathCharacter c)
    (hname : name ≠ "" ∧ ∀ c ∈ name.toList, isPathCharacter c) :
    isObjectPath (servicePath ++ "/" ++ kind ++ "/" ++ name) := by
  have hnil : ∀ text : String, text ≠ "" → text.toList ≠ [] := fun text htext hlist =>
    htext (String.toList_injective hlist)
  have helements : ∀ element ∈ ["org".toList, "freedesktop".toList, "secrets".toList, kind.toList, name.toList],
      element ≠ [] ∧ ∀ c ∈ element, isPathCharacter c := by
    intro element helement
    simp only [List.mem_cons, List.not_mem_nil, or_false] at helement
    rcases helement with rfl | rfl | rfl | rfl | rfl
    · exact ⟨by decide, List.all_eq_true.mp (by decide)⟩
    · exact ⟨by decide, List.all_eq_true.mp (by decide)⟩
    · exact ⟨by decide, List.all_eq_true.mp (by decide)⟩
    · exact ⟨hnil kind hkind.1, hkind.2⟩
    · exact ⟨hnil name hname.1, hname.2⟩
  refine isObjectPath_of_elements (List.cons_ne_nil _ _) ?_ helements
  simp [servicePath, String.toList_append, List.intercalate]

theorem isPathCharacter_segment {marker : Char} (hmarker : isPathCharacter marker) (id : Uuid) :
    segment marker id ≠ "" ∧ ∀ c ∈ (segment marker id).toList, isPathCharacter c := by
  refine ⟨fun h => ?_, fun c hc => ?_⟩
  · have hlist := congrArg String.toList h
    rw [segment, String.toList_ofList] at hlist
    cases hlist
  · rw [segment, String.toList_ofList, List.mem_cons] at hc
    rcases hc with rfl | hdigit
    · exact hmarker
    · exact isPathCharacter_of_mem_hexDigits hdigit

theorem isObjectPath_collectionPath (id : Uuid) : isObjectPath (collectionPath id) := by
  rw [show collectionPath id = servicePath ++ "/" ++ "collection" ++ "/" ++ segment 'c' id from rfl]
  exact isObjectPath_below_service ⟨by decide, List.all_eq_true.mp (by decide)⟩ (isPathCharacter_segment (by decide) id)

theorem isObjectPath_itemPath (id : Uuid) : isObjectPath (itemPath id) := by
  rw [show itemPath id = servicePath ++ "/" ++ "item" ++ "/" ++ segment 'i' id from rfl]
  exact isObjectPath_below_service ⟨by decide, List.all_eq_true.mp (by decide)⟩ (isPathCharacter_segment (by decide) id)

theorem isObjectPath_sessionPath (id : Uuid) : isObjectPath (sessionPath id) := by
  rw [show sessionPath id = servicePath ++ "/" ++ "session" ++ "/" ++ segment 's' id from rfl]
  exact isObjectPath_below_service ⟨by decide, List.all_eq_true.mp (by decide)⟩ (isPathCharacter_segment (by decide) id)

theorem aliasPath_eq_some_iff {name path : String} : aliasPath name = some path ↔
    (name ≠ "" ∧ ∀ c ∈ name.toList, isPathCharacter c) ∧ path = servicePath ++ "/aliases/" ++ name := by
  rw [aliasPath, Option.ite_none_right_eq_some, List.all_eq_true, Option.some.injEq]
  exact and_congr Iff.rfl eq_comm

theorem isObjectPath_aliasPath {name path : String} (h : aliasPath name = some path) : isObjectPath path := by
  obtain ⟨hname, rfl⟩ := aliasPath_eq_some_iff.mp h
  rw [show servicePath ++ "/aliases/" ++ name = servicePath ++ "/" ++ "aliases" ++ "/" ++ name from rfl]
  exact isObjectPath_below_service ⟨by decide, List.all_eq_true.mp (by decide)⟩ hname

theorem aliasPath_determines_name {name other path : String} (h : aliasPath name = some path)
    (hother : aliasPath other = some path) : name = other := by
  obtain ⟨-, rfl⟩ := aliasPath_eq_some_iff.mp h
  obtain ⟨-, heq⟩ := aliasPath_eq_some_iff.mp hother
  exact String.append_right_inj _ |>.mp heq

theorem getElem?_sessionPath (id : Uuid) : (sessionPath id).toList[25]? = some 's' :=
  getElem?_append_kind (by decide)

/-- A parser only accepts paths below its own kind. -/
theorem getElem?_of_parsePath {path kind : String} {marker c : Char} {id : Uuid}
    (h : parsePath path kind marker = some id) (hkind : (servicePath ++ ("/" ++ kind ++ "/")).toList[25]? = some c) :
    path.toList[25]? = some c := by
  rw [parsePath] at h
  split at h
  · rename_i hstart
    obtain ⟨rest, hrest⟩ := hstart
    have hpath : path = servicePath ++ ("/" ++ kind ++ "/") ++ String.ofList (marker :: rest) := by
      apply String.toList_injective
      rw [← hrest]
      simp [String.toList_append]
    rw [hpath]
    exact getElem?_append_kind hkind
  · cases h

/-- The kinds of objects that a path can name. -/
inductive ObjectKind where
  | collection
  | item
  | session
  deriving DecidableEq

def ObjectKind.parse : ObjectKind → String → Option Uuid
  | .collection => collectionId
  | .item => itemId
  | .session => sessionId

def ObjectKind.path : ObjectKind → Uuid → String
  | .collection => collectionPath
  | .item => itemPath
  | .session => sessionPath

def ObjectKind.initial : ObjectKind → Char
  | .collection => 'c'
  | .item => 'i'
  | .session => 's'

theorem ObjectKind.initial_injective : Function.Injective ObjectKind.initial := by
  intro left right h
  cases left <;> cases right <;> first | rfl | cases h

theorem getElem?_of_parse {kind : ObjectKind} {path : String} {id : Uuid} (h : kind.parse path = some id) :
    path.toList[25]? = some kind.initial := by
  cases kind with
  | collection => exact getElem?_of_parsePath h (by decide)
  | item => exact getElem?_of_parsePath h (by decide)
  | session => exact getElem?_of_parsePath h (by decide)

theorem getElem?_path (kind : ObjectKind) (id : Uuid) : (kind.path id).toList[25]? = some kind.initial := by
  cases kind with
  | collection => exact getElem?_collectionPath id
  | item => exact getElem?_itemPath id
  | session => exact getElem?_sessionPath id

theorem objectPath_path (kind : ObjectKind) (id : Uuid) : objectPath (kind.path id) = some (kind.path id) := by
  refine if_pos ?_
  cases kind with
  | collection => exact isObjectPath_collectionPath id
  | item => exact isObjectPath_itemPath id
  | session => exact isObjectPath_sessionPath id

theorem parse_path (kind : ObjectKind) (id : Uuid) : kind.parse (kind.path id) = some id := by
  cases kind with
  | collection => exact collectionId_collectionPath id
  | item => exact itemId_itemPath id
  | session => exact sessionId_sessionPath id

/-- No alias, whatever its name, has the path of another object. -/
theorem aliasPath_apart {name path : String} (h : aliasPath name = some path) :
    (∀ (kind : ObjectKind) (id : Uuid), path ≠ kind.path id) ∧ path ≠ servicePath ∧ path ≠ compatPromptPath := by
  have hinitial := getElem?_aliasPath h
  refine ⟨fun kind id heq => ?_, fun heq => ?_, fun heq => ?_⟩
  · rw [heq, getElem?_path] at hinitial
    revert hinitial
    cases kind <;> decide
  · rw [heq] at hinitial
    exact absurd hinitial (by decide)
  · rw [heq] at hinitial
    exact absurd hinitial (by decide)

/-- The object paths of the provider are an unambiguous code. -/
theorem object_paths_are_unambiguous :
    (∀ (kind : ObjectKind) (id : Uuid),
      objectPath (kind.path id) = some (kind.path id) ∧ kind.parse (kind.path id) = some id) ∧
    (∀ (text : String) (left right : ObjectKind), (left.parse text).isSome → (right.parse text).isSome →
      left = right) ∧
    (∀ name path : String, aliasPath name = some path →
      objectPath path = some path ∧ (∀ other, aliasPath other = some path → other = name) ∧
      (∀ (kind : ObjectKind) (id : Uuid), path ≠ kind.path id) ∧ path ≠ servicePath ∧ path ≠ compatPromptPath) := by
  refine ⟨fun kind id => ⟨objectPath_path kind id, parse_path kind id⟩, fun text left right hleft hright => ?_,
    fun name path hpath => ⟨if_pos (isObjectPath_aliasPath hpath), fun other hother => ?_, aliasPath_apart hpath⟩⟩
  · obtain ⟨leftId, hleft⟩ := Option.isSome_iff_exists.mp hleft
    obtain ⟨rightId, hright⟩ := Option.isSome_iff_exists.mp hright
    have hinitial := (getElem?_of_parse hleft).symm.trans (getElem?_of_parse hright)
    exact ObjectKind.initial_injective (Option.some.inj hinitial)
  · exact aliasPath_determines_name hother hpath

theorem default_alias_path_is_unambiguous :
    (ObjectKind.collection.parse (collectionPath ⟨0⟩)).isSome ∧
    aliasPath "default" = some "/org/freedesktop/secrets/aliases/default" ∧
    objectPath "/org/freedesktop/secrets/aliases/default" = some "/org/freedesktop/secrets/aliases/default" ∧
    ObjectKind.collection = .collection :=
  have hsome : (ObjectKind.collection.parse (collectionPath ⟨0⟩)).isSome := by
    rw [show collectionPath ⟨0⟩ = ObjectKind.collection.path ⟨0⟩ from rfl, parse_path]
    rfl
  have hpath : aliasPath "default" = some "/org/freedesktop/secrets/aliases/default" := by decide
  ⟨hsome, hpath, (object_paths_are_unambiguous.2.2 _ _ hpath).1, object_paths_are_unambiguous.2.1 _ _ _ hsome hsome⟩

end WincredLibsecret
