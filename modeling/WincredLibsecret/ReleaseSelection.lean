import WincredLibsecret.SemanticVersion
import WincredLibsecret.TextCodec
import WincredLibsecret.TextScan

/-! The newest public release, chosen once by the installer script with a comparison of its own and once by the
command line tool with a library for semantic versions. Both accept exactly the tags that spell a semantic version
of 64-bit numbers, and both choose a release of the highest precedence. -/

namespace WincredLibsecret

open TextScan SemanticVersion

structure ReleaseCandidate where
  tagName : String
  draft : Bool
  prerelease : Bool
  deriving DecidableEq

/-! ### The installer -/

namespace Installer

/-- The decimal digits of all scripts, as regular expressions know them. -/
structure DecimalDigits where
  isDecimal : Char → Bool
  isDecimal_ascii : ∀ c : Char, c.toNat < 128 → isDecimal c = c.isDigit

structure TagMatch where
  major : List Char
  minor : List Char
  patch : List Char
  prerelease : Option (List Char)

structure ParsedVersion where
  major : UInt64
  minor : UInt64
  patch : UInt64
  prerelease : Option (List Char)
  deriving DecidableEq

section

variable (digits : DecimalDigits)

/-- `0|[1-9]\d*` -/
def isNumber : List Char → Bool
  | [] => false
  | c :: rest => (c == '0' && rest.isEmpty) || ('1' ≤ c && c ≤ '9' && rest.all digits.isDecimal)

/-- `[0-9A-Za-z-]+(?:\.[0-9A-Za-z-]+)*` -/
def areIdentifiers (text : List Char) : Bool :=
  (text.splitOn '.').all fun part => !part.isEmpty && part.all isIdentifierCharacter

/-- The optional letter at the start of a tag. -/
def afterLetter : List Char → List Char
  | 'v' :: text => text
  | 'V' :: text => text
  | text => text

/-- The regular expression of a tag, up to its end. The numbers have neither of the marks `-` and `+`, and the
prerelease has no `+`, so that the first marks end them. -/
def matchWhole (tag : List Char) : Option TagMatch :=
  let (body, build) := splitMark '+' (afterLetter tag)
  let (core, prerelease) := splitMark '-' body
  match core.splitOn '.' with
  | [major, minor, patch] =>
      if isNumber digits major && isNumber digits minor && isNumber digits patch && prerelease.all areIdentifiers &&
        build.all areIdentifiers then some ⟨major, minor, patch, prerelease⟩
      else none
  | _ => none

/-- The end of the expression also matches before a line feed at the end. -/
def matchTag (tag : List Char) : Option TagMatch :=
  match matchWhole digits tag with
  | some found => some found
  | none => if tag.getLast? = some '\n' then matchWhole digits tag.dropLast else none

/-- The digits that the expression lets through are only accepted if they are ASCII and the number fits. -/
def tryParseUInt64 (text : List Char) : Option UInt64 := (parseUnsigned UInt64.size text).map UInt64.ofNat

/-- `^\d+$` -/
def isNumeric (identifier : List Char) : Bool := !identifier.isEmpty && identifier.all digits.isDecimal

def hasLeadingZero (identifier : List Char) : Bool :=
  isNumeric digits identifier && identifier.length > 1 && identifier.head? == some '0'

def convertToSemanticVersion (tag : String) : Option ParsedVersion := do
  let found ← matchTag digits tag.toList
  let major ← tryParseUInt64 found.major
  let minor ← tryParseUInt64 found.minor
  let patch ← tryParseUInt64 found.patch
  if found.prerelease.any fun text => (text.splitOn '.').any (hasLeadingZero digits) then none
  else some ⟨major, minor, patch, found.prerelease⟩

def compareIdentifiers (left right : List Char) : Ordering :=
  if isNumeric digits left && isNumeric digits right then
    (compare left.length right.length).then (compareOrdinal left right)
  else if isNumeric digits left then .lt
  else if isNumeric digits right then .gt
  else compareOrdinal left right

/-- Identifiers one by one as long as both sides have one, then their counts. -/
def comparePrereleases : List (List Char) → List (List Char) → Ordering
  | left :: lefts, right :: rights =>
      match compareIdentifiers digits left right with
      | .eq => comparePrereleases lefts rights
      | decided => decided
  | lefts, rights => compare lefts.length rights.length

def compareSemanticVersion (left right : ParsedVersion) : Ordering :=
  (compare left.major right.major).then <| (compare left.minor right.minor).then <|
    (compare left.patch right.patch).then <|
      match left.prerelease, right.prerelease with
      | none, none => .eq
      | none, some _ => .gt
      | some _, none => .lt
      | some left, some right => comparePrereleases digits (left.splitOn '.') (right.splitOn '.')

inductive SelectError where
  | emptyReleases
  | emptyTag
  | noRelease
  deriving DecidableEq

/-- The loop over the releases with the best one so far. Parameters that must be given must not be empty. -/
def selectFrom : List ReleaseCandidate → Option (ReleaseCandidate × ParsedVersion) →
    Except SelectError (Option (ReleaseCandidate × ParsedVersion))
  | [], selected => .ok selected
  | release :: releases, selected =>
      if release.draft then selectFrom releases selected
      else if release.tagName = "" then .error .emptyTag
      else
        match convertToSemanticVersion digits release.tagName with
        | none => selectFrom releases selected
        | some version =>
            match selected with
            | none => selectFrom releases (some (release, version))
            | some (best, bestVersion) =>
                if compareSemanticVersion digits version bestVersion = .gt then
                  selectFrom releases (some (release, version))
                else selectFrom releases (some (best, bestVersion))

def selectNewestPublicRelease (releases : List ReleaseCandidate) : Except SelectError ReleaseCandidate :=
  if releases = [] then .error .emptyReleases
  else
    match selectFrom digits releases none with
    | .error error => .error error
    | .ok none => .error .noRelease
    | .ok (some (release, _)) => .ok release

end

end Installer

namespace Installer

variable {digits : DecimalDigits}

theorem isDecimal_of_isDigit {c : Char} (h : c.isDigit) : digits.isDecimal c := by
  have hrange := isDigit_iff.mp h
  rw [digits.isDecimal_ascii c (by omega), h]

theorem toNat_lt_of_identifier {c : Char} (h : isIdentifierCharacter c) : c.toNat < 128 := by
  have hvalue : c.toNat = c.val.toNat := rfl
  simp only [isIdentifierCharacter, Char.isAlphanum, Char.isAlpha, Char.isUpper, Char.isLower, Char.isDigit,
    Bool.or_eq_true, Bool.and_eq_true, decide_eq_true_eq, beq_iff_eq, ge_iff_le, UInt32.le_iff_toNat_le] at h
  rcases h with ((⟨-, hupper⟩ | ⟨-, hlower⟩) | ⟨-, hdigit⟩) | rfl
  · exact hupper.trans_lt (by decide)
  · exact hlower.trans_lt (by decide)
  · exact hdigit.trans_lt (by decide)
  · decide

theorem isDecimal_of_identifier {c : Char} (h : isIdentifierCharacter c) : digits.isDecimal c = c.isDigit :=
  digits.isDecimal_ascii c (toNat_lt_of_identifier h)

theorem one_le_iff {c : Char} : (('1' ≤ c && c ≤ '9') : Bool) ↔ c.isDigit ∧ c ≠ '0' := by
  have hone : '1'.toNat = 49 := rfl
  have hnine : '9'.toNat = 57 := rfl
  have hzero : '0'.toNat = 48 := rfl
  rw [Bool.and_eq_true, decide_eq_true_eq, decide_eq_true_eq, isDigit_iff, ne_eq, ← Char.toNat_inj]
  have hlow : '1' ≤ c ↔ '1'.toNat ≤ c.toNat := UInt32.le_iff_toNat_le
  have hhigh : c ≤ '9' ↔ c.toNat ≤ '9'.toNat := UInt32.le_iff_toNat_le
  rw [hlow, hhigh]
  omega

/-- The numbers of a tag are numerals. -/
theorem isNumber_iff {text : List Char} (hdigits : ∀ c ∈ text, c.isDigit) : isNumber digits text ↔ IsNumeral text := by
  cases text with
  | nil => exact ⟨fun h => (nomatch h), fun h => absurd rfl h.1⟩
  | cons c rest =>
      have hc := hdigits c List.mem_cons_self
      have hrest : rest.all digits.isDecimal := List.all_eq_true.mpr fun d hd =>
        isDecimal_of_isDigit (hdigits d (List.mem_cons_of_mem _ hd))
      rw [isNumber, hrest, Bool.and_true, Bool.or_eq_true, one_le_iff, Bool.and_eq_true, beq_iff_eq, List.isEmpty_iff,
        IsNumeral, List.length_cons, List.head?_cons, Nat.add_eq_right, List.length_eq_zero_iff, ne_eq (some c),
        Option.some.injEq]
      by_cases hzero : c = '0'
      · exact ⟨fun h => ⟨List.cons_ne_nil _ _, hdigits, .inl (h.resolve_right fun h => h.2 hzero).2⟩,
          fun h => .inl ⟨hzero, h.2.2.resolve_right fun h => h hzero⟩⟩
      · exact ⟨fun _ => ⟨List.cons_ne_nil _ _, hdigits, .inr hzero⟩, fun _ => .inr ⟨hc, hzero⟩⟩

theorem number_iff {text : List Char} {n : UInt64} :
    (isNumber digits text ∧ tryParseUInt64 text = some n) ↔ text = Nat.toDigits 10 n.toNat := by
  constructor
  · rintro ⟨hnumber, hparse⟩
    have hplus : text.head? ≠ some '+' := by
      intro hhead
      obtain ⟨rest, rfl⟩ := List.head?_eq_some_iff.mp hhead
      revert hnumber
      rw [isNumber]
      simp
    obtain ⟨value, hvalue, rfl⟩ := Option.map_eq_some_iff.mp hparse
    obtain ⟨-, hdigits, hvalue, hbound⟩ := (parseUnsigned_of_unsigned hplus).mp hvalue
    rw [UInt64.toNat_ofNat_of_lt' hbound, ← hvalue, toDigits_ofDigitChars ((isNumber_iff hdigits).mp hnumber)]
  · rintro rfl
    have hnumeral := isNumeral_toDigits n.toNat
    refine ⟨(isNumber_iff hnumeral.2.1).mpr hnumeral, ?_⟩
    rw [tryParseUInt64, parseUnsigned_toDigits n.toNat_lt_size, Option.map_some, UInt64.ofNat_toNat]

theorem areIdentifiers_iff {text : List Char} :
    areIdentifiers text ↔ ∀ part ∈ text.splitOn '.', part ≠ [] ∧ ∀ c ∈ part, isIdentifierCharacter c := by
  simp only [areIdentifiers, List.all_eq_true, Bool.and_eq_true, Bool.not_eq_true', List.isEmpty_eq_false_iff, ne_eq]

/-- Build metadata is any list of identifiers. -/
theorem build_iff {build : Option (List Char)} :
    build.all areIdentifiers ↔ ∃ identifiers : List BuildIdentifier,
      joinParts (identifiers.map BuildIdentifier.text) = build := by
  constructor
  · intro hall
    cases build with
    | none => exact ⟨[], rfl⟩
    | some text =>
        obtain ⟨identifiers, hidentifiers⟩ : ∃ identifiers : List BuildIdentifier,
            identifiers.map BuildIdentifier.text = text.splitOn '.' :=
          exists_map_eq fun part hpart =>
            have hpart := areIdentifiers_iff.mp hall part hpart
            ⟨⟨part, hpart.1, hpart.2⟩, rfl⟩
        exact ⟨identifiers, by rw [hidentifiers, joinParts_splitOn]⟩
  · rintro ⟨identifiers, rfl⟩
    cases hjoin : joinParts (identifiers.map BuildIdentifier.text) with
    | none => rfl
    | some text =>
        have hparts : ∀ part ∈ identifiers.map BuildIdentifier.text,
            part ≠ [] ∧ ∀ c ∈ part, isIdentifierCharacter c := by
          intro part hpart
          obtain ⟨identifier, -, rfl⟩ := List.mem_map.mp hpart
          exact ⟨identifier.ne_nil, identifier.all_characters⟩
        rw [Option.all_some, areIdentifiers_iff, splitOn_of_joinParts hjoin fun part hpart =>
          notMem_of_identifier (by decide) (hparts part hpart).2]
        exact hparts

theorem isNumeric_iff {identifier : List Char} (hne : identifier ≠ [])
    (hall : ∀ c ∈ identifier, isIdentifierCharacter c) :
    isNumeric digits identifier ↔ ∀ c ∈ identifier, c.isDigit := by
  rw [isNumeric, Bool.and_eq_true, Bool.not_eq_true', List.isEmpty_eq_false_iff, List.all_eq_true]
  refine ⟨fun h c hc => ?_, fun h => ⟨hne, fun c hc => isDecimal_of_isDigit (h c hc)⟩⟩
  rw [← isDecimal_of_identifier (hall c hc)]
  exact h.2 c hc

theorem hasLeadingZero_iff {identifier : List Char} (hne : identifier ≠ [])
    (hall : ∀ c ∈ identifier, isIdentifierCharacter c) :
    hasLeadingZero digits identifier = false ↔
      ((∀ c ∈ identifier, c.isDigit) → identifier.length = 1 ∨ identifier.head? ≠ some '0') := by
  have hlength := List.length_pos_iff.mpr hne
  rw [hasLeadingZero, ← Bool.not_eq_true, Bool.and_eq_true, Bool.and_eq_true, isNumeric_iff hne hall, decide_eq_true_eq,
    beq_iff_eq]
  constructor
  · intro h hdigits
    by_contra hneither
    push Not at hneither
    exact h ⟨⟨hdigits, by omega⟩, hneither.2⟩
  · rintro h ⟨⟨hdigits, hlong⟩, hhead⟩
    rcases h hdigits with hsingle | hother
    · omega
    · exact hother hhead

theorem hasLeadingZero_text (identifier : Identifier) : hasLeadingZero digits identifier.text = false := by
  rw [hasLeadingZero_iff identifier.text_ne_nil identifier.all_characters]
  intro hdigits
  obtain ⟨value, rfl⟩ := identifier.all_isDigit_iff.mp hdigits
  exact (isNumeral_toDigits value).2.2

variable (digits) in
/-- A prerelease is any list of identifiers, the numeric ones without leading zeros. -/
theorem prerelease_iff {prerelease : Option (List Char)} :
    (prerelease.all areIdentifiers ∧
      (prerelease.any fun text => (text.splitOn '.').any (hasLeadingZero digits)) = false) ↔
    ∃ identifiers : List Identifier, joinParts (identifiers.map Identifier.text) = prerelease := by
  constructor
  · rintro ⟨hall, hzero⟩
    cases prerelease with
    | none => exact ⟨[], rfl⟩
    | some text =>
        rw [Option.any_some, List.any_eq_false] at hzero
        obtain ⟨identifiers, hidentifiers⟩ : ∃ identifiers : List Identifier,
            identifiers.map Identifier.text = text.splitOn '.' :=
          exists_map_eq fun part hmem =>
            have hpart := areIdentifiers_iff.mp hall part hmem
            exists_identifier hpart.1 hpart.2
              ((hasLeadingZero_iff hpart.1 hpart.2).mp ((Bool.not_eq_true _).mp (hzero part hmem)))
        exact ⟨identifiers, by rw [hidentifiers, joinParts_splitOn]⟩
  · rintro ⟨identifiers, rfl⟩
    cases hjoin : joinParts (identifiers.map Identifier.text) with
    | none => exact ⟨rfl, rfl⟩
    | some text =>
        have hsplit : text.splitOn '.' = identifiers.map Identifier.text := by
          refine splitOn_of_joinParts hjoin fun part hpart => ?_
          obtain ⟨identifier, -, rfl⟩ := List.mem_map.mp hpart
          exact notMem_of_identifier (by decide) identifier.all_characters
        rw [Option.all_some, areIdentifiers_iff, Option.any_some, hsplit]
        refine ⟨fun part hpart => ?_, List.any_eq_false.mpr fun part hpart => ?_⟩
        · obtain ⟨identifier, -, rfl⟩ := List.mem_map.mp hpart
          exact ⟨identifier.text_ne_nil, identifier.all_characters⟩
        · obtain ⟨identifier, -, rfl⟩ := List.mem_map.mp hpart
          rw [hasLeadingZero_text]
          decide

/-- What the installer keeps of a version. -/
def ParsedVersion.ofSemVer (version : SemVer) : ParsedVersion :=
  ⟨UInt64.ofNat version.major, UInt64.ofNat version.minor, UInt64.ofNat version.patch,
    joinParts (version.prerelease.map Identifier.text)⟩

theorem matchTag_eq (tag : List Char) (hline : '\n' ∉ tag) : matchTag digits tag = matchWhole digits tag := by
  rw [matchTag]
  cases matchWhole digits tag with
  | some found => rfl
  | none => exact if_neg fun hlast => hline (List.mem_of_getLast? hlast)

theorem of_matchWhole {tag : List Char} {found : TagMatch} (h : matchWhole digits tag = some found) :
    ∃ build : Option (List Char), afterLetter tag = ['.'].intercalate [found.major, found.minor, found.patch] ++
        found.prerelease.elim [] ('-' :: ·) ++ build.elim [] ('+' :: ·) ∧
      isNumber digits found.major ∧ isNumber digits found.minor ∧ isNumber digits found.patch ∧
      found.prerelease.all areIdentifiers ∧ build.all areIdentifiers := by
  rw [matchWhole] at h
  rcases hbuild : splitMark '+' (afterLetter tag) with ⟨body, build⟩
  rcases hcore : splitMark '-' body with ⟨core, prerelease⟩
  rw [hbuild] at h
  dsimp only at h
  rw [hcore] at h
  dsimp only at h
  split at h
  · rename_i major minor patch hnumbers
    rw [Option.ite_none_right_eq_some] at h
    obtain ⟨hchecks, hfound⟩ := h
    cases hfound
    simp only [Bool.and_eq_true] at hchecks
    obtain ⟨⟨⟨⟨hmajor, hminor⟩, hpatch⟩, hprerelease⟩, hidentifiers⟩ := hchecks
    refine ⟨build, ?_, hmajor, hminor, hpatch, hprerelease, hidentifiers⟩
    rw [(of_splitMark hbuild).2, (of_splitMark hcore).2, ← hnumbers, List.intercalate_splitOn]
  · cases h

theorem notMem_renderCore {mark : Char} (hdot : mark ≠ '.') (hdigit : mark.isDigit = false) (version : SemVer) :
    mark ∉ version.renderCore := by
  intro hmem
  rcases TextCodec.mem_intercalate hmem with hmark | ⟨part, hpart, hmem⟩
  · exact hdot hmark
  · have hdigits : mark.isDigit := by
      simp only [List.mem_cons, List.not_mem_nil, or_false] at hpart
      rcases hpart with rfl | rfl | rfl <;> exact Nat.isDigit_of_mem_toDigits (by decide) (by decide) hmem
    rw [hdigit] at hdigits
    cases hdigits

theorem plus_notMem_prerelease (identifiers : List Identifier) :
    '+' ∉ renderParts '-' (identifiers.map Identifier.text) := by
  rw [renderParts, joinParts]
  split
  · exact List.not_mem_nil
  · rw [Option.elim_some, List.mem_cons, not_or]
    refine ⟨by decide, fun hmem => ?_⟩
    rcases TextCodec.mem_intercalate hmem with hdot | ⟨part, hpart, hmem⟩
    · exact absurd hdot (by decide)
    · obtain ⟨identifier, -, rfl⟩ := List.mem_map.mp hpart
      exact notMem_of_identifier (by decide) identifier.all_characters hmem

theorem matchWhole_of_render {tag : List Char} {version : SemVer} (h : afterLetter tag = version.render) :
    matchWhole digits tag = some ⟨Nat.toDigits 10 version.major, Nat.toDigits 10 version.minor,
      Nat.toDigits 10 version.patch, joinParts (version.prerelease.map Identifier.text)⟩ := by
  have hnumber : ∀ n, isNumber digits (Nat.toDigits 10 n) := fun n =>
    (isNumber_iff (isNumeral_toDigits n).2.1).mpr (isNumeral_toDigits n)
  have hplus : '+' ∉ version.renderCore ++ renderParts '-' (version.prerelease.map Identifier.text) := by
    rw [List.mem_append, not_or]
    exact ⟨notMem_renderCore (by decide) (by decide) version, plus_notMem_prerelease _⟩
  have hbuild : splitMark '+' (afterLetter tag) = (version.renderCore ++
      renderParts '-' (version.prerelease.map Identifier.text),
        joinParts (version.build.map BuildIdentifier.text)) := by
    rw [h]
    exact splitMark_append _ hplus
  have hcore : splitMark '-' (version.renderCore ++ renderParts '-' (version.prerelease.map Identifier.text)) =
      (version.renderCore, joinParts (version.prerelease.map Identifier.text)) :=
    splitMark_append _ (notMem_renderCore (by decide) (by decide) version)
  have hnumbers : version.renderCore.splitOn '.' = [Nat.toDigits 10 version.major, Nat.toDigits 10 version.minor,
      Nat.toDigits 10 version.patch] := by
    refine List.splitOn_intercalate '.' (fun part hpart hdot => ?_) (List.cons_ne_nil _ _)
    simp only [List.mem_cons, List.not_mem_nil, or_false] at hpart
    rcases hpart with rfl | rfl | rfl <;>
      exact absurd (Nat.isDigit_of_mem_toDigits (by decide) (by decide) hdot) (by decide)
  have hprerelease := (prerelease_iff digits).mpr ⟨version.prerelease, rfl⟩
  have hidentifiers := build_iff.mpr ⟨version.build, rfl⟩
  rw [matchWhole, hbuild]
  dsimp only
  rw [hcore]
  dsimp only
  rw [hnumbers]
  dsimp only
  rw [hnumber, hnumber, hnumber, hprerelease.1, hidentifiers]
  rfl

/-- The installer accepts exactly the tags that spell a version of 64-bit numbers behind an optional letter. -/
theorem convertToSemanticVersion_eq_some_iff {tag : String} (hline : '\n' ∉ tag.toList) {parsed : ParsedVersion} :
    convertToSemanticVersion digits tag = some parsed ↔
      ∃ version : SemVer, version.FitsIn UInt64.size ∧ afterLetter tag.toList = version.render ∧
        parsed = .ofSemVer version := by
  rw [convertToSemanticVersion, matchTag_eq _ hline]
  simp only [Option.bind_eq_bind, Option.bind_eq_some_iff]
  constructor
  · rintro ⟨found, hfound, major, hmajor, minor, hminor, patch, hpatch, hparsed⟩
    obtain ⟨build, htag, hmajorNumber, hminorNumber, hpatchNumber, hprerelease, hbuild⟩ := of_matchWhole hfound
    rw [Option.ite_none_left_eq_some] at hparsed
    obtain ⟨hzero, hparsed⟩ := hparsed
    obtain ⟨identifiers, hidentifiers⟩ := (prerelease_iff digits).mp ⟨hprerelease, (Bool.not_eq_true _).mp hzero⟩
    obtain ⟨metadata, rfl⟩ := build_iff.mp hbuild
    have hmajorText := number_iff.mp ⟨hmajorNumber, hmajor⟩
    have hminorText := number_iff.mp ⟨hminorNumber, hminor⟩
    have hpatchText := number_iff.mp ⟨hpatchNumber, hpatch⟩
    refine ⟨⟨major.toNat, minor.toNat, patch.toNat, identifiers, metadata⟩,
      ⟨major.toNat_lt_size, minor.toNat_lt_size, patch.toNat_lt_size⟩, ?_, ?_⟩
    · rw [htag, SemVer.render, SemVer.renderCore, renderParts, hidentifiers, ← hmajorText, ← hminorText, ← hpatchText]
      rfl
    · rw [← Option.some.inj hparsed, ParsedVersion.ofSemVer, hidentifiers, UInt64.ofNat_toNat, UInt64.ofNat_toNat,
        UInt64.ofNat_toNat]
  · rintro ⟨version, ⟨hmajor, hminor, hpatch⟩, htag, rfl⟩
    have hparse : ∀ n, n < UInt64.size → tryParseUInt64 (Nat.toDigits 10 n) = some (UInt64.ofNat n) := fun n hn => by
      rw [tryParseUInt64, parseUnsigned_toDigits hn, Option.map_some]
    have hzero := (prerelease_iff digits).mpr ⟨version.prerelease, rfl⟩
    refine ⟨_, matchWhole_of_render htag, _, hparse _ hmajor, _, hparse _ hminor, _, hparse _ hpatch, ?_⟩
    rw [hzero.2]
    rfl

theorem isNumeric_numeric (value : Nat) : isNumeric digits (Identifier.numeric value).text := by
  rw [isNumeric_iff (Identifier.text_ne_nil _) (Identifier.all_characters _)]
  exact (isNumeral_toDigits value).2.1

theorem isNumeric_alphanumeric (value : Alphanumeric) :
    isNumeric digits (Identifier.alphanumeric value).text = false := by
  rw [← Bool.not_eq_true, isNumeric_iff (Identifier.text_ne_nil _) (Identifier.all_characters _)]
  exact fun h => (nomatch (Identifier.all_isDigit_iff (.alphanumeric value)).mp h)

variable (digits) in
theorem compareIdentifiers_compares (left right : Identifier) :
    (compareIdentifiers digits left.text right.text).Compares left.rank right.rank := by
  cases left with
  | numeric left =>
      cases right with
      | numeric right =>
          have hvalues := compareNumerals_compares (isNumeral_toDigits left) (isNumeral_toDigits right)
          rw [Nat.ofDigitChars_toDigits (by decide) (by decide), Nat.ofDigitChars_toDigits (by decide) (by decide)]
            at hvalues
          rw [compareIdentifiers, isNumeric_numeric, isNumeric_numeric, Bool.and_self, if_pos rfl]
          refine (Ordering.compares_iff_of_compares_impl (fun {o} h => ?_) _).mp hvalues
          cases o with
          | lt => exact Sum.Lex.inl_lt_inl_iff.mpr h
          | eq => exact congrArg (fun value : Nat => Identifier.rank (.numeric value)) h
          | gt => exact Sum.Lex.inl_lt_inl_iff.mpr h
      | alphanumeric right =>
          rw [compareIdentifiers, isNumeric_numeric, isNumeric_alphanumeric]
          exact Sum.Lex.inl_lt_inr _ _
  | alphanumeric left =>
      cases right with
      | numeric right =>
          rw [compareIdentifiers, isNumeric_numeric, isNumeric_alphanumeric]
          exact Sum.Lex.inl_lt_inr _ _
      | alphanumeric right =>
          have htexts := compareOrdinal_compares left.text right.text
          rw [compareIdentifiers, isNumeric_alphanumeric, isNumeric_alphanumeric]
          refine (Ordering.compares_iff_of_compares_impl (fun {o} h => ?_) _).mp htexts
          cases o with
          | lt => exact Sum.Lex.inr_lt_inr_iff.mpr h
          | eq => exact congrArg (fun text : List Char => (toLex (.inr text) : Nat ⊕ₗ List Char)) h
          | gt => exact Sum.Lex.inr_lt_inr_iff.mpr h

theorem comparePrereleases_eq (lefts rights : List (List Char)) :
    comparePrereleases digits lefts rights = compareLists (compareIdentifiers digits) lefts rights := by
  induction lefts generalizing rights with
  | nil => cases rights <;> simp [comparePrereleases, compareLists, compare_lt_iff_lt]
  | cons left lefts ih =>
      cases rights with
      | nil => simp [comparePrereleases, compareLists, compare_gt_iff_gt]
      | cons right rights =>
          rw [comparePrereleases, ih]
          rfl

theorem compare_ofNat_compares {m n : Nat} (hm : m < UInt64.size) (hn : n < UInt64.size) :
    (compare (UInt64.ofNat m) (UInt64.ofNat n)).Compares m n := by
  have hleft := UInt64.toNat_ofNat_of_lt' hm
  have hright := UInt64.toNat_ofNat_of_lt' hn
  rcases hcompare : compare (UInt64.ofNat m) (UInt64.ofNat n)
  · have hlt := UInt64.lt_iff_toNat_lt.mp (Std.compare_eq_lt.mp hcompare)
    rwa [hleft, hright] at hlt
  · have heq := congrArg UInt64.toNat (Std.LawfulEqCmp.compare_eq_iff_eq.mp hcompare)
    rwa [hleft, hright] at heq
  · have hgt := UInt64.lt_iff_toNat_lt.mp (Std.compare_eq_gt.mp hcompare)
    rwa [hleft, hright] at hgt

theorem splitOn_intercalate_text {identifiers : List Identifier} (hne : identifiers ≠ []) :
    (['.'].intercalate (identifiers.map Identifier.text)).splitOn '.' = identifiers.map Identifier.text := by
  refine List.splitOn_intercalate '.' (fun part hpart => ?_) (by simpa using hne)
  obtain ⟨identifier, -, rfl⟩ := List.mem_map.mp hpart
  exact notMem_of_identifier (by decide) identifier.all_characters

variable (digits) in
/-- Identifiers are compared from left to right. -/
theorem comparePrereleases_compares (lefts rights : List Identifier) :
    (comparePrereleases digits (lefts.map Identifier.text) (rights.map Identifier.text)).Compares
      (lefts.map Identifier.rank) (rights.map Identifier.rank) := by
  rw [comparePrereleases_eq, compareLists_map]
  exact compareLists_compares fun left _ right _ => compareIdentifiers_compares digits left right

variable (digits) in
/-- The comparison of the installer is the precedence of versions. -/
theorem compareSemanticVersion_compares {left right : SemVer} (hleft : left.FitsIn UInt64.size)
    (hright : right.FitsIn UInt64.size) :
    (compareSemanticVersion digits (.ofSemVer left) (.ofSemVer right)).Compares left.precedence right.precedence := by
  refine then_compares (compare_ofNat_compares hleft.1 hright.1) <|
    then_compares (compare_ofNat_compares hleft.2.1 hright.2.1) <|
    then_compares (compare_ofNat_compares hleft.2.2 hright.2.2) ?_
  obtain ⟨-, -, -, lefts, -⟩ := left
  obtain ⟨-, -, -, rights, -⟩ := right
  rcases lefts with - | ⟨first, lefts⟩
  · rcases rights with - | ⟨second, rights⟩
    · exact rfl
    · exact WithTop.coe_lt_top _
  · rcases rights with - | ⟨second, rights⟩
    · exact WithTop.coe_lt_top _
    · have hlists := comparePrereleases_compares digits (first :: lefts) (second :: rights)
      change (comparePrereleases digits
        ((['.'].intercalate ((first :: lefts).map Identifier.text)).splitOn '.')
        ((['.'].intercalate ((second :: rights).map Identifier.text)).splitOn '.')).Compares
        (((first :: lefts).map Identifier.rank : List (Nat ⊕ₗ List Char)) : WithTop (List (Nat ⊕ₗ List Char)))
        (((second :: rights).map Identifier.rank : List (Nat ⊕ₗ List Char)) : WithTop (List (Nat ⊕ₗ List Char)))
      rw [splitOn_intercalate_text (List.cons_ne_nil _ _), splitOn_intercalate_text (List.cons_ne_nil _ _)]
      refine (Ordering.compares_iff_of_compares_impl (fun {o} h => ?_) _).mp hlists
      cases o with
      | lt => exact WithTop.coe_lt_coe.mpr h
      | eq => exact congrArg _ h
      | gt => exact WithTop.coe_lt_coe.mpr h

end Installer

/-! ### The command line tool -/

namespace Cli

/-- The library for semantic versions. -/
structure SemverCrate where
  Version : Type
  parse : List Char → Option Version
  value : Version → SemVer
  cmp : Version → Version → Ordering
  /-- Exactly the texts of versions of 64-bit numbers are accepted. -/
  parse_isSome_iff : ∀ text, (parse text).isSome ↔
    ∃ version : SemVer, version.FitsIn UInt64.size ∧ text = version.render
  parse_value : ∀ text version, parse text = some version →
    (value version).FitsIn UInt64.size ∧ text = (value version).render
  /-- The order refines precedence. -/
  cmp_of_lt : ∀ left right, (value left).precedence < (value right).precedence → cmp left right = .lt
  cmp_of_gt : ∀ left right, (value right).precedence < (value left).precedence → cmp left right = .gt

section

variable (crate : SemverCrate)

structure AvailableRelease where
  tagName : String
  version : crate.Version

def afterLetter : List Char → List Char
  | 'v' :: text => text
  | 'V' :: text => text
  | text => text

def availableRelease (release : ReleaseCandidate) : Option (AvailableRelease crate) :=
  (crate.parse (afterLetter release.tagName.toList)).map fun version => ⟨release.tagName, version⟩

/-- The last of the greatest items. -/
def maxBy {α : Type} (compareItems : α → α → Ordering) : List α → Option α
  | [] => none
  | first :: rest =>
      some (rest.foldl (fun best item => if compareItems best item = .gt then best else item) first)

def newestPublicRelease (releases : List ReleaseCandidate) (includePrereleases : Bool) :
    Option (AvailableRelease crate) :=
  maxBy (fun left right => crate.cmp left.version right.version)
    ((releases.filter fun release => !release.draft && (includePrereleases || !release.prerelease)).filterMap
      (availableRelease crate))

end

end Cli

/-! ### What both choose -/

/-- The tag spells the version, possibly behind a letter. -/
def Spells (tagName : String) (version : SemVer) : Prop :=
  version.FitsIn UInt64.size ∧ Installer.afterLetter tagName.toList = version.render

/-- A public release with this tag spells this version, and no public release spells a higher one. -/
structure IsNewest (releases : List ReleaseCandidate) (tagName : String) (version : SemVer) : Prop where
  exists_release : ∃ release ∈ releases, release.draft = false ∧ release.tagName = tagName
  spells : Spells tagName version
  le : ∀ release ∈ releases, release.draft = false → ∀ other, Spells release.tagName other →
    other.precedence ≤ version.precedence

/-- Releases of the highest precedence have the same precedence. -/
theorem IsNewest.precedence_eq {releases : List ReleaseCandidate} {left right : String}
    {leftVersion rightVersion : SemVer}
    (hleft : IsNewest releases left leftVersion) (hright : IsNewest releases right rightVersion) :
    leftVersion.precedence = rightVersion.precedence := by
  obtain ⟨release, hrelease, hdraft, rfl⟩ := hleft.exists_release
  obtain ⟨other, hother, hotherDraft, rfl⟩ := hright.exists_release
  exact le_antisymm (hright.le release hrelease hdraft _ hleft.spells)
    (hleft.le other hother hotherDraft _ hright.spells)

namespace Installer

variable {digits : DecimalDigits}

variable (digits) in
theorem convert_eq_some_iff {tagName : String} (hline : '\n' ∉ tagName.toList) {parsed : ParsedVersion} :
    convertToSemanticVersion digits tagName = some parsed ↔
      ∃ version, Spells tagName version ∧ parsed = .ofSemVer version := by
  rw [convertToSemanticVersion_eq_some_iff hline]
  simp only [Spells, and_assoc]

/-- What the installer keeps of a version determines its precedence. -/
theorem precedence_eq_of_ofSemVer_eq (digits : DecimalDigits) {left right : SemVer} (hleft : left.FitsIn UInt64.size)
    (hright : right.FitsIn UInt64.size) (h : ParsedVersion.ofSemVer left = .ofSemVer right) :
    left.precedence = right.precedence := by
  have hforward := compareSemanticVersion_compares digits hleft hright
  have hbackward := compareSemanticVersion_compares digits hright hleft
  rw [h] at hforward hbackward
  cases hcompare : compareSemanticVersion digits (.ofSemVer right) (.ofSemVer right) with
  | lt =>
      rw [hcompare] at hforward hbackward
      exact absurd hforward (lt_asymm hbackward)
  | eq =>
      rw [hcompare] at hforward
      exact hforward
  | gt =>
      rw [hcompare] at hforward hbackward
      exact absurd hforward (lt_asymm hbackward)

/-- All versions that a tag spells have one precedence. -/
theorem precedence_eq_of_spells (digits : DecimalDigits) {tagName : String} (hline : '\n' ∉ tagName.toList)
    {left right : SemVer} (hleft : Spells tagName left) (hright : Spells tagName right) :
    left.precedence = right.precedence := by
  have hconvertLeft := (convert_eq_some_iff digits hline).mpr ⟨left, hleft, rfl⟩
  have hconvertRight := (convert_eq_some_iff digits hline).mpr ⟨right, hright, rfl⟩
  exact precedence_eq_of_ofSemVer_eq digits hleft.1 hright.1
    (Option.some.inj (hconvertLeft.symm.trans hconvertRight))

/-- The best release so far among those seen. -/
def IsBest (seen : ReleaseCandidate → SemVer → Prop) : Option (ReleaseCandidate × ParsedVersion) → Prop
  | none => ∀ release version, ¬seen release version
  | some (best, parsed) => ∃ version, seen best version ∧ version.FitsIn UInt64.size ∧ parsed = .ofSemVer version ∧
      ∀ release other, seen release other → other.precedence ≤ version.precedence

/-- A release is public and its tag spells the version. -/
def Offers (release : ReleaseCandidate) (version : SemVer) : Prop :=
  release.draft = false ∧ Spells release.tagName version

variable {seen : ReleaseCandidate → SemVer → Prop} {selected : Option (ReleaseCandidate × ParsedVersion)}

theorem IsBest.congr {other : ReleaseCandidate → SemVer → Prop}
    (h : ∀ release version, seen release version ↔ other release version) (hbest : IsBest seen selected) :
    IsBest other selected := by
  rwa [show other = seen from funext₂ fun release version => propext (h release version).symm]

variable (digits) in
/-- The best release after one more. -/
def consider (release : ReleaseCandidate) (selected : Option (ReleaseCandidate × ParsedVersion)) :
    Option (ReleaseCandidate × ParsedVersion) :=
  if release.draft then selected
  else
    match convertToSemanticVersion digits release.tagName with
    | none => selected
    | some version =>
        match selected with
        | none => some (release, version)
        | some (best, bestVersion) =>
            if compareSemanticVersion digits version bestVersion = .gt then some (release, version)
            else some (best, bestVersion)

theorem selectFrom_cons {release : ReleaseCandidate} (htag : release.tagName ≠ "") (releases : List ReleaseCandidate)
    (selected : Option (ReleaseCandidate × ParsedVersion)) :
    selectFrom digits (release :: releases) selected =
      selectFrom digits releases (consider digits release selected) := by
  rw [selectFrom, consider]
  by_cases hdraft : release.draft
  · rw [if_pos hdraft, if_pos hdraft]
  rw [if_neg hdraft, if_neg htag, if_neg hdraft]
  cases convertToSemanticVersion digits release.tagName with
  | none => rfl
  | some version =>
      rcases selected with - | ⟨best, bestVersion⟩
      · rfl
      · dsimp only
        split <;> rfl

variable (digits) in
theorem IsBest.consider {release : ReleaseCandidate} (hline : '\n' ∉ release.tagName.toList)
    (hselected : IsBest seen selected) :
    IsBest (fun other version => seen other version ∨ (other = release ∧ Offers release version))
      (consider digits release selected) := by
  rw [Installer.consider]
  by_cases hdraft : release.draft
  · rw [if_pos hdraft]
    refine hselected.congr fun other version => ⟨.inl, fun h => h.resolve_right fun h => ?_⟩
    rw [h.2.1] at hdraft
    cases hdraft
  rw [if_neg hdraft]
  cases hconvert : convertToSemanticVersion digits release.tagName with
  | none =>
      refine hselected.congr fun other version => ⟨.inl, fun h => h.resolve_right fun h => ?_⟩
      rw [(convert_eq_some_iff digits hline).mpr ⟨version, h.2.2, rfl⟩] at hconvert
      cases hconvert
  | some parsed =>
      obtain ⟨version, hspells, rfl⟩ := (convert_eq_some_iff digits hline).mp hconvert
      have hoffers : Offers release version := ⟨(Bool.not_eq_true _).mp hdraft, hspells⟩
      have hsame : ∀ other, Offers release other → other.precedence = version.precedence := fun other hother =>
        precedence_eq_of_spells digits hline hother.2 hspells
      rcases selected with - | ⟨best, bestVersion⟩
      · refine ⟨version, .inr ⟨rfl, hoffers⟩, hspells.1, rfl, fun other otherVersion hother => ?_⟩
        rcases hother with hseen | ⟨-, hother⟩
        · exact absurd hseen (hselected other otherVersion)
        · exact (hsame otherVersion hother).le
      obtain ⟨bestSpelled, hseen, hfits, rfl, hle⟩ := hselected
      have hcompares := compareSemanticVersion_compares digits hspells.1 hfits
      dsimp only
      split
      · rename_i hgt
        rw [hgt] at hcompares
        refine ⟨version, .inr ⟨rfl, hoffers⟩, hspells.1, rfl, fun other otherVersion hother => ?_⟩
        rcases hother with hseen | ⟨-, hother⟩
        · exact (hle other otherVersion hseen).trans hcompares.le
        · exact (hsame otherVersion hother).le
      · rename_i hnotGt
        have hbelow : version.precedence ≤ bestSpelled.precedence := by
          cases hcompare : compareSemanticVersion digits (.ofSemVer version) (.ofSemVer bestSpelled) with
          | lt => rw [hcompare] at hcompares; exact hcompares.le
          | eq => rw [hcompare] at hcompares; exact hcompares.le
          | gt => exact absurd hcompare hnotGt
        refine ⟨bestSpelled, .inl hseen, hfits, rfl, fun other otherVersion hother => ?_⟩
        rcases hother with hseen | ⟨-, hother⟩
        · exact hle other otherVersion hseen
        · exact (hsame otherVersion hother).le.trans hbelow

variable (digits) in
/-- The loop keeps a best release among those it has seen. -/
theorem selectFrom_isBest {releases : List ReleaseCandidate}
    (htags : ∀ release ∈ releases, release.tagName ≠ "" ∧ '\n' ∉ release.tagName.toList)
    (hselected : IsBest seen selected) :
    ∃ result, selectFrom digits releases selected = .ok result ∧
      IsBest (fun release version => seen release version ∨ (release ∈ releases ∧ Offers release version)) result := by
  induction releases generalizing seen selected with
  | nil =>
      refine ⟨selected, rfl, hselected.congr fun release version => ?_⟩
      exact ⟨.inl, fun h => h.resolve_right fun h => absurd h.1 List.not_mem_nil⟩
  | cons release releases ih =>
      obtain ⟨htag, hline⟩ := htags release List.mem_cons_self
      obtain ⟨result, hresult, hbest⟩ := ih (fun other hother => htags other (List.mem_cons_of_mem _ hother))
        (hselected.consider digits hline)
      refine ⟨result, (selectFrom_cons htag releases selected).trans hresult, hbest.congr fun other version => ?_⟩
      rw [or_assoc, List.mem_cons]
      refine or_congr Iff.rfl ⟨?_, ?_⟩
      · rintro (⟨rfl, hoffers⟩ | ⟨hmem, hoffers⟩)
        · exact ⟨.inl rfl, hoffers⟩
        · exact ⟨.inr hmem, hoffers⟩
      · rintro ⟨rfl | hmem, hoffers⟩
        · exact .inl ⟨rfl, hoffers⟩
        · exact .inr ⟨hmem, hoffers⟩

variable (digits) in
/-- The installer chooses a newest release, or there is none. -/
theorem selectNewestPublicRelease_cases {releases : List ReleaseCandidate}
    (htags : ∀ release ∈ releases, release.tagName ≠ "" ∧ '\n' ∉ release.tagName.toList) :
    (∃ release version, selectNewestPublicRelease digits releases = .ok release ∧
      IsNewest releases release.tagName version) ∨
    ((∃ error, selectNewestPublicRelease digits releases = .error error) ∧
      ∀ release ∈ releases, ∀ version, ¬Offers release version) := by
  rw [selectNewestPublicRelease]
  by_cases hempty : releases = []
  · rw [if_pos hempty, hempty]
    exact .inr ⟨⟨_, rfl⟩, fun release hrelease => absurd hrelease List.not_mem_nil⟩
  rw [if_neg hempty]
  have hnone : IsBest (fun _ _ => False) none := fun _ _ => id
  obtain ⟨result, hresult, hbest⟩ := selectFrom_isBest digits htags hnone
  rw [hresult]
  rcases result with - | ⟨release, parsed⟩
  · exact .inr ⟨⟨_, rfl⟩, fun release hrelease version hoffers => hbest release version (.inr ⟨hrelease, hoffers⟩)⟩
  · obtain ⟨version, hseen, -, -, hle⟩ := hbest
    obtain ⟨hmem, hdraft, hspells⟩ := hseen.resolve_left id
    refine .inl ⟨release, version, rfl, ⟨release, hmem, hdraft, rfl⟩, hspells, ?_⟩
    exact fun other hother hotherDraft otherVersion hotherSpells =>
      hle other otherVersion (.inr ⟨hother, hotherDraft, hotherSpells⟩)

end Installer

namespace Cli

variable {crate : SemverCrate}

/-- The last greatest item is one of the items, and none is greater. -/
theorem maxBy_eq_some {α β : Type} [LinearOrder β] {compareItems : α → α → Ordering} (rank : α → β)
    (hlt : ∀ left right, rank left < rank right → compareItems left right = .lt)
    (hgt : ∀ left right, rank right < rank left → compareItems left right = .gt)
    {items : List α} {best : α} (h : maxBy compareItems items = some best) :
    best ∈ items ∧ ∀ item ∈ items, rank item ≤ rank best := by
  cases items with
  | nil => cases h
  | cons first rest =>
      rw [maxBy] at h
      cases Option.some.inj h
      clear h
      induction rest generalizing first with
      | nil => exact ⟨List.mem_cons_self, fun item hitem => by rw [List.mem_singleton.mp hitem]; exact le_rfl⟩
      | cons next rest ih =>
          rw [List.foldl_cons]
          by_cases hcompare : compareItems first next = .gt
          · rw [if_pos hcompare]
            obtain ⟨hmem, hle⟩ := ih first
            have hnext : rank next ≤ rank first := by
              by_contra hbelow
              rw [hlt first next (not_le.mp hbelow)] at hcompare
              cases hcompare
            refine ⟨?_, fun item hitem => ?_⟩
            · rcases List.mem_cons.mp hmem with hfirst | hrest
              · rw [hfirst]
                exact List.mem_cons_self
              · exact List.mem_cons_of_mem _ (List.mem_cons_of_mem _ hrest)
            · rcases List.mem_cons.mp hitem with rfl | hitem
              · exact hle item List.mem_cons_self
              · rcases List.mem_cons.mp hitem with rfl | hitem
                · exact hnext.trans (hle first List.mem_cons_self)
                · exact hle item (List.mem_cons_of_mem _ hitem)
          · rw [if_neg hcompare]
            obtain ⟨hmem, hle⟩ := ih next
            have hfirst : rank first ≤ rank next := by
              by_contra hbelow
              exact hcompare (hgt first next (not_le.mp hbelow))
            refine ⟨List.mem_cons_of_mem _ hmem, fun item hitem => ?_⟩
            rcases List.mem_cons.mp hitem with rfl | hitem
            · exact hfirst.trans (hle next List.mem_cons_self)
            · exact hle item hitem

theorem afterLetter_eq (tag : List Char) : afterLetter tag = Installer.afterLetter tag := rfl

/-- What the tool makes of a release. -/
theorem availableRelease_eq_some {release : ReleaseCandidate} {available : AvailableRelease crate}
    (h : availableRelease crate release = some available) :
    available.tagName = release.tagName ∧ Spells release.tagName (crate.value available.version) := by
  obtain ⟨version, hversion, rfl⟩ := Option.map_eq_some_iff.mp h
  rw [afterLetter_eq] at hversion
  exact ⟨rfl, crate.parse_value _ _ hversion⟩

variable (crate) in
theorem exists_availableRelease {release : ReleaseCandidate} {version : SemVer} (h : Spells release.tagName version) :
    ∃ available, availableRelease crate release = some available := by
  have hsome : (crate.parse (afterLetter release.tagName.toList)).isSome :=
    (crate.parse_isSome_iff _).mpr ⟨version, h.1, (afterLetter_eq _).trans h.2⟩
  obtain ⟨parsed, hparsed⟩ := Option.isSome_iff_exists.mp hsome
  exact ⟨⟨release.tagName, parsed⟩, by rw [availableRelease, hparsed]; rfl⟩

theorem mem_candidates {releases : List ReleaseCandidate} {available : AvailableRelease crate} :
    available ∈ (releases.filter fun release => !release.draft && (true || !release.prerelease)).filterMap
        (availableRelease crate) ↔
      ∃ release ∈ releases, release.draft = false ∧ availableRelease crate release = some available := by
  simp only [List.mem_filterMap, List.mem_filter, Bool.true_or, Bool.and_true, Bool.not_eq_true', and_assoc]

variable (crate) in
/-- The tool chooses a newest release, or there is none. -/
theorem newestPublicRelease_cases (digits : Installer.DecimalDigits) {releases : List ReleaseCandidate}
    (hlines : ∀ release ∈ releases, '\n' ∉ release.tagName.toList) :
    (∃ newest : AvailableRelease crate, newestPublicRelease crate releases true = some newest ∧
      IsNewest releases newest.tagName (crate.value newest.version)) ∨
    (newestPublicRelease crate releases true = none ∧
      ∀ release ∈ releases, ∀ version, ¬Installer.Offers release version) := by
  cases hnewest : newestPublicRelease crate releases true with
  | none =>
      refine .inr ⟨rfl, fun release hrelease version hoffers => ?_⟩
      obtain ⟨available, havailable⟩ := exists_availableRelease crate hoffers.2
      have hmem := mem_candidates.mpr ⟨release, hrelease, hoffers.1, havailable⟩
      rw [newestPublicRelease] at hnewest
      obtain ⟨first, rest, hcons⟩ := List.exists_cons_of_ne_nil (List.ne_nil_of_mem hmem)
      rw [hcons, maxBy] at hnewest
      cases hnewest
  | some newest =>
      obtain ⟨hmem, hle⟩ := maxBy_eq_some (fun available : AvailableRelease crate =>
        (crate.value available.version).precedence) (fun left right => crate.cmp_of_lt left.version right.version)
        (fun left right => crate.cmp_of_gt left.version right.version) hnewest
      obtain ⟨release, hrelease, hdraft, havailable⟩ := mem_candidates.mp hmem
      obtain ⟨htag, hspells⟩ := availableRelease_eq_some havailable
      refine .inl ⟨newest, rfl, ⟨release, hrelease, hdraft, htag.symm⟩, htag ▸ hspells, ?_⟩
      intro other hother hotherDraft version hversion
      obtain ⟨available, hotherAvailable⟩ := exists_availableRelease crate hversion
      have hspelled := (availableRelease_eq_some hotherAvailable).2
      rw [Installer.precedence_eq_of_spells digits (hlines other hother) hversion hspelled]
      exact hle available (mem_candidates.mpr ⟨other, hother, hotherDraft, hotherAvailable⟩)

end Cli

/-- The installer compares versions by precedence, and it and the tool choose releases of the same, highest
precedence or none at all. -/
theorem installer_and_cli_agree_on_newest_release (digits : Installer.DecimalDigits) (crate : Cli.SemverCrate) :
    (∀ (left right : String) (leftParsed rightParsed : Installer.ParsedVersion), '\n' ∉ left.toList →
      '\n' ∉ right.toList → Installer.convertToSemanticVersion digits left = some leftParsed →
      Installer.convertToSemanticVersion digits right = some rightParsed →
      ∃ leftVersion rightVersion, Spells left leftVersion ∧ Spells right rightVersion ∧
        (Installer.compareSemanticVersion digits leftParsed rightParsed).Compares leftVersion.precedence
          rightVersion.precedence) ∧
    (∀ releases : List ReleaseCandidate,
      (∀ release ∈ releases, release.tagName ≠ "" ∧ '\n' ∉ release.tagName.toList) →
      ((∃ error, Installer.selectNewestPublicRelease digits releases = .error error) ↔
        Cli.newestPublicRelease crate releases true = none) ∧
      ∀ selected newest, Installer.selectNewestPublicRelease digits releases = .ok selected →
        Cli.newestPublicRelease crate releases true = some newest →
        ∃ selectedVersion newestVersion, IsNewest releases selected.tagName selectedVersion ∧
          IsNewest releases newest.tagName newestVersion ∧ selectedVersion.precedence = newestVersion.precedence) := by
  constructor
  · intro left right leftParsed rightParsed hleftLine hrightLine hleft hright
    obtain ⟨leftVersion, hleftSpells, rfl⟩ := (Installer.convert_eq_some_iff digits hleftLine).mp hleft
    obtain ⟨rightVersion, hrightSpells, rfl⟩ := (Installer.convert_eq_some_iff digits hrightLine).mp hright
    exact ⟨leftVersion, rightVersion, hleftSpells, hrightSpells,
      Installer.compareSemanticVersion_compares digits hleftSpells.1 hrightSpells.1⟩
  · intro releases htags
    have hcli := Cli.newestPublicRelease_cases crate digits fun release hrelease => (htags release hrelease).2
    rcases Installer.selectNewestPublicRelease_cases digits htags with
      ⟨selected, selectedVersion, hselected, hselectedNewest⟩ | ⟨⟨error, herror⟩, hnone⟩
    · obtain ⟨release, hrelease, hdraft, htag⟩ := hselectedNewest.exists_release
      have hoffers : Installer.Offers release selectedVersion := ⟨hdraft, htag ▸ hselectedNewest.spells⟩
      rcases hcli with ⟨newest, hnewest, hnewestNewest⟩ | ⟨-, hnone⟩
      · rw [hselected, hnewest]
        refine ⟨⟨fun ⟨_, h⟩ => (nomatch h), fun h => (nomatch h)⟩, ?_⟩
        intro chosen found hchosen hfound
        cases hchosen
        cases hfound
        exact ⟨selectedVersion, _, hselectedNewest, hnewestNewest, hselectedNewest.precedence_eq hnewestNewest⟩
      · exact absurd hoffers (hnone release hrelease selectedVersion)
    · rcases hcli with ⟨newest, hnewest, hnewestNewest⟩ | ⟨hnewest, -⟩
      · obtain ⟨release, hrelease, hdraft, htag⟩ := hnewestNewest.exists_release
        exact absurd ⟨hdraft, htag ▸ hnewestNewest.spells⟩ (hnone release hrelease _)
      · rw [herror, hnewest]
        exact ⟨⟨fun _ => rfl, fun _ => ⟨error, rfl⟩⟩, fun _ _ h => (nomatch h)⟩

/-- Digits of one script only. -/
def Installer.asciiDigits : Installer.DecimalDigits where
  isDecimal := Char.isDigit
  isDecimal_ascii _ _ := rfl

open Classical in
/-- A library that knows versions by their texts and compares them by precedence alone. -/
noncomputable def Cli.idealCrate : Cli.SemverCrate where
  Version := SemVer
  parse text :=
    if h : ∃ version : SemVer, version.FitsIn UInt64.size ∧ text = version.render then some h.choose else none
  value := id
  cmp left right := cmp left.precedence right.precedence
  parse_isSome_iff text := by split <;> simp_all
  parse_value text version h := by
    split at h
    · rename_i hexists
      cases h
      exact hexists.choose_spec
    · cases h
  cmp_of_lt left right h := (cmp_eq_lt_iff _ _).mpr h
  cmp_of_gt left right h := (cmp_eq_gt_iff _ _).mpr h

def sampleReleases : List ReleaseCandidate :=
  [⟨"v1.2.0-rc.10", false, true⟩, ⟨"v1.2.0-rc.9", false, true⟩, ⟨"v1.3.0", true, false⟩, ⟨"nightly", false, true⟩]

theorem installer_and_cli_agree_on_sample_releases :
    Installer.selectNewestPublicRelease Installer.asciiDigits sampleReleases = .ok ⟨"v1.2.0-rc.10", false, true⟩ ∧
      Cli.newestPublicRelease Cli.idealCrate sampleReleases true ≠ none := by
  have hselected : Installer.selectNewestPublicRelease Installer.asciiDigits sampleReleases =
      .ok ⟨"v1.2.0-rc.10", false, true⟩ := by decide +kernel
  refine ⟨hselected, fun hnone => ?_⟩
  obtain ⟨error, herror⟩ := ((installer_and_cli_agree_on_newest_release Installer.asciiDigits Cli.idealCrate).2
    sampleReleases (by decide +kernel)).1.mpr hnone
  rw [hselected] at herror
  cases herror

end WincredLibsecret
