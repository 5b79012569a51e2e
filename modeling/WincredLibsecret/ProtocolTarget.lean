import WincredLibsecret.TextCodec
import WincredLibsecret.ProtocolModel

/-! Credential target names: the four shapes the project owns, the text each is stored under and the
parser that recognises them. Printing is injective, and the parser accepts exactly the texts of
well-formed names. The broker relies on both, since it prints a name to read, write or delete a
credential and parses the names an enumeration lists. -/

namespace WincredLibsecret

open TextCodec

namespace Uuid

def digits (id : Uuid) : List Char := hexDigits 32 id.value.toNat

/-- The groups of 8, 4, 4, 4 and 12 digits of the canonical text. -/
def groups (id : Uuid) : List (List Char) :=
  [id.digits.take 8, (id.digits.drop 8).take 4, (id.digits.drop 12).take 4, (id.digits.drop 16).take 4,
    id.digits.drop 20]

def hyphenated (id : Uuid) : List Char := ['-'].intercalate id.groups

def toString (id : Uuid) : String := String.ofList id.hyphenated

def ofDigits (digits : List Char) : Option Uuid :=
  if digits.length = 32 then (readHex digits).map fun n => ⟨BitVec.ofNat 128 n⟩ else none

def parseHyphenated (text : List Char) : Option Uuid :=
  match text.splitOn '-' with
  | [a, b, c, d, e] =>
      if a.length = 8 ∧ b.length = 4 ∧ c.length = 4 ∧ d.length = 4 ∧ e.length = 12 then
        ofDigits (a ++ (b ++ (c ++ (d ++ e))))
      else none
  | _ => none

/-- The spellings the identifier parser accepts, of either case: 32 plain digits, the hyphenated
form, and the hyphenated form in braces or behind a URN prefix. -/
def parseStr (text : String) : Option Uuid :=
  let chars := text.toList
  if chars.length = 32 then ofDigits chars
  else if chars.length = 36 then parseHyphenated chars
  else if chars.length = 38 ∧ chars.head? = some (Char.ofNat 0x7b) ∧ chars.getLast? = some (Char.ofNat 0x7d) then
    parseHyphenated chars.tail.dropLast
  else if chars.length = 45 ∧ chars.take 9 = "urn:uuid:".toList then parseHyphenated (chars.drop 9)
  else none

theorem flatten_groups (id : Uuid) : id.groups.flatten = id.digits := by
  have hdrop : ∀ (n m : Nat) (l : List Char), (l.drop n).take m ++ l.drop (n + m) = l.drop n := by
    intro n m l
    rw [← List.drop_drop, List.take_append_drop]
  simp only [groups, List.flatten_cons, List.flatten_nil, List.append_nil]
  rw [hdrop 16 4, hdrop 12 4, hdrop 8 4, List.take_append_drop]

theorem mem_digits_of_mem_groups {id : Uuid} {group : List Char} (hgroup : group ∈ id.groups) {c : Char}
    (hc : c ∈ group) : c ∈ id.digits := by
  rw [← flatten_groups]
  exact List.mem_flatten.mpr ⟨group, hgroup, hc⟩

theorem dash_notMem_groups (id : Uuid) : ∀ group ∈ id.groups, '-' ∉ group := fun _ hgroup hdash =>
  (separator_notMem_hexDigits 32 id.value.toNat).1 (mem_digits_of_mem_groups hgroup hdash)

@[simp] theorem length_digits (id : Uuid) : id.digits.length = 32 := length_hexDigits _ _

theorem ofDigits_digits (id : Uuid) : ofDigits id.digits = some id := by
  have hlt : id.value.toNat < 16 ^ 32 := id.value.isLt
  rw [ofDigits, if_pos id.length_digits, digits, readHex_hexDigits 32 _ hlt]
  simp

theorem length_hyphenated (id : Uuid) : id.hyphenated.length = 36 := by
  simp [hyphenated, groups, List.intercalate]

theorem parseHyphenated_hyphenated (id : Uuid) : parseHyphenated id.hyphenated = some id := by
  have hsplit : id.hyphenated.splitOn '-' = id.groups :=
    List.splitOn_intercalate '-' id.dash_notMem_groups (by simp [groups])
  have hflat := id.flatten_groups
  rw [parseHyphenated, hsplit]
  simp only [groups, List.flatten_cons, List.flatten_nil, List.append_nil] at hflat ⊢
  rw [hflat, ofDigits_digits, if_pos (by simp)]

theorem parseStr_toString (id : Uuid) : parseStr id.toString = some id := by
  have hlength : id.toString.toList.length = 36 := by
    rw [toString, String.toList_ofList, length_hyphenated]
  rw [parseStr, hlength, if_neg (by decide), if_pos rfl, toString, String.toList_ofList,
    parseHyphenated_hyphenated]

theorem toString_injective : Function.Injective Uuid.toString := fun left right h =>
  Option.some.inj (by rw [← parseStr_toString, ← parseStr_toString, h])

theorem slash_notMem_toString (id : Uuid) : '/' ∉ id.toString.toList := by
  rw [toString, String.toList_ofList, hyphenated]
  intro hmem
  rcases mem_intercalate hmem with hdash | ⟨group, hgroup, hslash⟩
  · exact absurd hdash (by decide)
  · exact (separator_notMem_hexDigits 32 id.value.toNat).2 (mem_digits_of_mem_groups hgroup hslash)

end Uuid

def credentialPrefix : String := "WinCredLibSecret/v1/"

inductive TargetName where
  | collection (id : Uuid)
  | alias (name : String)
  | itemMetadata (id : Uuid)
  | itemSecret (itemId generation : Uuid)
  deriving DecidableEq

theorem TargetName.collection_ne_itemSecret (id itemId generation : Uuid) :
    collection id ≠ itemSecret itemId generation := nofun

theorem TargetName.alias_ne_itemSecret (name : String) (itemId generation : Uuid) :
    TargetName.alias name ≠ itemSecret itemId generation := nofun

theorem TargetName.itemMetadata_ne_itemSecret (id itemId generation : Uuid) :
    itemMetadata id ≠ itemSecret itemId generation := nofun

inductive TargetParseError where
  | foreignPrefix
  | invalidShape
  | invalidUuid
  | nonCanonicalUuid
  | invalidAliasEncoding
  | aliasTooLong
  deriving DecidableEq

def parseUuid (value : String) : Except TargetParseError Uuid :=
  match Uuid.parseStr value with
  | none => .error .invalidUuid
  | some id => if id.toString = value then .ok id else .error .nonCanonicalUuid

theorem parseUuid_eq_ok {value : String} {id : Uuid} : parseUuid value = .ok id ↔ id.toString = value := by
  unfold parseUuid
  constructor
  · intro h
    split at h
    · cases h
    · split at h
      · cases h
        assumption
      · cases h
  · rintro rfl
    rw [Uuid.parseStr_toString]
    exact if_pos rfl

namespace TargetName

def toString : TargetName → String
  | .collection id => credentialPrefix ++ "collection/" ++ id.toString
  | .alias name => credentialPrefix ++ "alias/" ++ String.ofList (base64Encode (utf8Bytes name))
  | .itemMetadata id => credentialPrefix ++ "item/" ++ id.toString ++ "/meta"
  | .itemSecret itemId generation =>
      credentialPrefix ++ "item/" ++ itemId.toString ++ "/secret/" ++ generation.toString

/-- Decodes the last segment of an alias target. -/
def parseAlias (encoded : String) : Except TargetParseError String :=
  match base64Decode encoded.toList with
  | none => .error .invalidAliasEncoding
  | some bytes =>
      if maxAliasBytes < bytes.length then .error .aliasTooLong
      else match textOfBytes bytes with
        | none => .error .invalidAliasEncoding
        | some name =>
            if name.isEmpty || name.toList.contains (Char.ofNat 0) then .error .invalidAliasEncoding
            else .ok name

def fromStr (value : String) : Except TargetParseError TargetName :=
  match value.toList.dropPrefix? credentialPrefix.toList with
  | none => .error .foreignPrefix
  | some suffix =>
      match (suffix.splitOn '/').map String.ofList with
      | ["collection", id] => return .collection (← parseUuid id)
      | ["alias", encoded] => return .alias (← parseAlias encoded)
      | ["item", id, "meta"] => return .itemMetadata (← parseUuid id)
      | ["item", id, "secret", generation] =>
          return .itemSecret (← parseUuid id) (← parseUuid generation)
      | _ => .error .invalidShape

/-- An alias target is well formed when its name is one the validators accept. -/
def WellFormed : TargetName → Prop
  | .alias name => TextWithin name maxAliasBytes false
  | _ => True

/-- The segments of the text behind the prefix. -/
def segments : TargetName → List String
  | .collection id => ["collection", id.toString]
  | .alias name => ["alias", String.ofList (base64Encode (utf8Bytes name))]
  | .itemMetadata id => ["item", id.toString, "meta"]
  | .itemSecret itemId generation => ["item", itemId.toString, "secret", generation.toString]

theorem toList_toString (target : TargetName) :
    target.toString.toList =
      credentialPrefix.toList ++ ['/'].intercalate (target.segments.map String.toList) := by
  cases target <;>
    simp [toString, segments, List.intercalate, String.toList_append]

theorem slash_notMem_segments (target : TargetName) :
    ∀ segment ∈ target.segments.map String.toList, '/' ∉ segment := by
  cases target with
  | collection id => simp [segments, id.slash_notMem_toString]
  | «alias» name => simp [segments, slash_notMem_base64Encode]
  | itemMetadata id => simp [segments, id.slash_notMem_toString]
  | itemSecret itemId generation =>
      simp [segments, itemId.slash_notMem_toString, generation.slash_notMem_toString]

theorem splitOn_segments (target : TargetName) :
    ((['/'].intercalate (target.segments.map String.toList)).splitOn '/').map String.ofList =
      target.segments := by
  rw [List.splitOn_intercalate '/' target.slash_notMem_segments (by cases target <;> simp [segments])]
  rw [List.map_map]
  exact List.map_id'' (fun _ => String.ofList_toList) _

theorem toString_injective : Function.Injective TargetName.toString := by
  intro left right h
  have hlist := congrArg String.toList h
  rw [toList_toString, toList_toString] at hlist
  have hsegments : left.segments = right.segments := by
    rw [← splitOn_segments left, ← splitOn_segments right, List.append_cancel_left hlist]
  cases left <;> cases right <;> simp [segments] at hsegments
  · rw [Uuid.toString_injective hsegments]
  · have hbytes := congrArg base64Decode (String.ofList_injective hsegments)
    rw [base64Decode_encode, base64Decode_encode] at hbytes
    have htext := textOfBytes_eq_some.mpr (Option.some.inj hbytes)
    rw [textOfBytes_eq_some.mpr rfl] at htext
    rw [Option.some.inj htext]
  · rw [Uuid.toString_injective hsegments]
  · rw [Uuid.toString_injective hsegments.1, Uuid.toString_injective hsegments.2]

theorem parseAlias_eq_ok {encoded name : String} :
    parseAlias encoded = .ok name ↔
      String.ofList (base64Encode (utf8Bytes name)) = encoded ∧ TextWithin name maxAliasBytes false := by
  constructor
  · intro h
    unfold parseAlias at h
    split at h
    · cases h
    rename_i bytes hbytes
    split_ifs at h with hlong
    split at h
    · cases h
    rename_i text htext
    split_ifs at h with hbad
    cases h
    have hutf8 := textOfBytes_eq_some.mp htext
    simp only [Bool.or_eq_true, String.isEmpty_iff, List.contains_iff_mem, not_or] at hbad
    refine ⟨?_, fun _ => hbad.1, ?_, hbad.2⟩
    · rw [hutf8, base64Encode_decode hbytes, String.ofList_toList]
    · rw [← length_utf8Bytes, hutf8]
      omega
  · rintro ⟨rfl, hname⟩
    have hlong : ¬ maxAliasBytes < (utf8Bytes name).length := by
      rw [length_utf8Bytes]
      exact not_lt.mpr hname.size_le
    have hgood : ¬ (name.isEmpty || name.toList.contains (Char.ofNat 0)) = true := by
      simp only [Bool.or_eq_true, String.isEmpty_iff, List.contains_iff_mem, not_or]
      exact ⟨hname.nonempty rfl, hname.no_nul⟩
    unfold parseAlias
    rw [String.toList_ofList, base64Decode_encode]
    simp only [if_neg hlong, textOfBytes_eq_some.mpr rfl, if_neg hgood]

theorem dropPrefix_toString (target : TargetName) :
    target.toString.toList.dropPrefix? credentialPrefix.toList =
      some (['/'].intercalate (target.segments.map String.toList)) :=
  List.dropPrefix?_eq_some_iff.mpr ⟨credentialPrefix.toList, target.toList_toString, beq_self_eq_true _⟩

theorem fromStr_toString {target : TargetName} (htarget : target.WellFormed) :
    fromStr target.toString = .ok target := by
  rw [fromStr, dropPrefix_toString]
  simp only [splitOn_segments]
  have huuid : ∀ id : Uuid, parseUuid id.toString = .ok id := fun id => parseUuid_eq_ok.mpr rfl
  cases target with
  | collection id => simp [segments, huuid, bind, Except.bind, pure, Except.pure]
  | «alias» name =>
      have hname := parseAlias_eq_ok.mpr ⟨rfl, htarget⟩
      simp [segments, hname, bind, Except.bind, pure, Except.pure]
  | itemMetadata id => simp [segments, huuid, bind, Except.bind, pure, Except.pure]
  | itemSecret itemId generation => simp [segments, huuid, bind, Except.bind, pure, Except.pure]

/-- A text whose parts behind the prefix are the segments of a name is the text of that name. -/
theorem toString_of_parts {value : String} {suffix : List Char} {target : TargetName}
    (hstarts : value.toList.dropPrefix? credentialPrefix.toList = some suffix)
    (hparts : (suffix.splitOn '/').map String.ofList = target.segments) : target.toString = value := by
  obtain ⟨front, hvalue, hfront⟩ := List.dropPrefix?_eq_some_iff.mp hstarts
  have hsuffix : suffix.splitOn '/' = target.segments.map String.toList := by
    rw [← hparts, List.map_map]
    exact (List.map_id'' (fun _ => String.toList_ofList) _).symm
  apply String.toList_injective
  rw [toList_toString, ← hsuffix, List.intercalate_splitOn, hvalue, eq_of_beq hfront]

/-- The parser accepts exactly the texts of well-formed names, each as the name it is the text of. -/
theorem fromStr_eq_ok {value : String} {target : TargetName} :
    fromStr value = .ok target ↔ target.toString = value ∧ target.WellFormed := by
  refine ⟨fun h => ?_, fun ⟨hvalue, htarget⟩ => hvalue ▸ fromStr_toString htarget⟩
  unfold fromStr at h
  split at h
  · cases h
  rename_i suffix hstarts
  split at h
  · rename_i id hparts
    cases hid : parseUuid id with
    | error error => simp [hid, bind, Except.bind] at h
    | ok parsed =>
        simp only [hid, bind, Except.bind, pure, Except.pure, Except.ok.injEq] at h
        rw [← parseUuid_eq_ok.mp hid] at hparts
        subst h
        exact ⟨toString_of_parts hstarts hparts, trivial⟩
  · rename_i encoded hparts
    cases hname : parseAlias encoded with
    | error error => simp [hname, bind, Except.bind] at h
    | ok name =>
        simp only [hname, bind, Except.bind, pure, Except.pure, Except.ok.injEq] at h
        obtain ⟨hencoded, hwithin⟩ := parseAlias_eq_ok.mp hname
        rw [← hencoded] at hparts
        subst h
        exact ⟨toString_of_parts hstarts hparts, hwithin⟩
  · rename_i id hparts
    cases hid : parseUuid id with
    | error error => simp [hid, bind, Except.bind] at h
    | ok parsed =>
        simp only [hid, bind, Except.bind, pure, Except.pure, Except.ok.injEq] at h
        rw [← parseUuid_eq_ok.mp hid] at hparts
        subst h
        exact ⟨toString_of_parts hstarts hparts, trivial⟩
  · rename_i id generation hparts
    cases hid : parseUuid id with
    | error error => simp [hid, bind, Except.bind] at h
    | ok parsed =>
        cases hgeneration : parseUuid generation with
        | error error => simp [hid, hgeneration, bind, Except.bind] at h
        | ok parsedGeneration =>
            simp only [hid, hgeneration, bind, Except.bind, pure, Except.pure, Except.ok.injEq] at h
            rw [← parseUuid_eq_ok.mp hid, ← parseUuid_eq_ok.mp hgeneration] at hparts
            subst h
            exact ⟨toString_of_parts hstarts hparts, trivial⟩
  · cases h

/-- Parsing and printing are inverse to each other on the accepted texts and the well-formed names, and
different names have different texts. -/
theorem target_names_are_exact :
    (∀ value target, fromStr value = .ok target ↔ target.toString = value ∧ target.WellFormed) ∧
    (∀ target : TargetName, target.WellFormed → fromStr target.toString = .ok target) ∧
    (∀ value target, fromStr value = .ok target → target.toString = value) ∧
    Function.Injective TargetName.toString :=
  ⟨fun _ _ => fromStr_eq_ok, fun _ => fromStr_toString, fun _ _ h => (fromStr_eq_ok.mp h).1, toString_injective⟩

end TargetName

end WincredLibsecret
