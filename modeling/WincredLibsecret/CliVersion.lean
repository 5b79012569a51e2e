import WincredLibsecret.TextCodec
import WincredLibsecret.TextScan

/-! Versions of the WSL runtime as the command line tool compares them, and how it finds the version in what the
runtime prints about itself: in the first line that names WSL and a version and whose value starts with a dotted
numeral. -/

namespace WincredLibsecret.Cli

open TextScan

structure WslVersion where
  major : UInt32
  minor : UInt32
  patch : UInt32
  deriving DecidableEq

def minimumWslVersion : WslVersion := ⟨2, 5, 1⟩

/-- The derived order: field by field. -/
def WslVersion.compare (left right : WslVersion) : Ordering :=
  ((Ord.compare left.major right.major).then (Ord.compare left.minor right.minor)).then
    (Ord.compare left.patch right.patch)

def compareVersions (actual minimum : WslVersion) : Ordering := actual.compare minimum

/-- The triple of a version in the lexicographic order. -/
def WslVersion.triple (version : WslVersion) : UInt32 ×ₗ UInt32 ×ₗ UInt32 :=
  toLex (version.major, toLex (version.minor, version.patch))

theorem compareVersions_ne_lt_iff (actual minimum : WslVersion) :
    compareVersions actual minimum ≠ .lt ↔ minimum.triple ≤ actual.triple := by
  rw [compareVersions, WslVersion.compare, ne_eq, Ordering.then_eq_lt, Ordering.then_eq_lt, Ordering.then_eq_eq]
  simp only [WslVersion.triple, Prod.Lex.le_iff, ofLex_toLex, Std.compare_eq_lt,
    Std.LawfulEqCmp.compare_eq_iff_eq]
  simp only [UInt32.lt_iff_toNat_lt, UInt32.le_iff_toNat_le, ← UInt32.toNat_inj]
  omega

inductive ParseError where
  | noWslVersion
  | invalidWslVersion (text : String)
  deriving DecidableEq

/-- The line names both words, in any letter case. -/
def Mentions (line : List Char) : Prop :=
  "wsl".toList <:+: line.map Char.toLower ∧ "version".toList <:+: line.map Char.toLower

instance (line : List Char) : Decidable (Mentions line) := inferInstanceAs (Decidable (_ ∧ _))

/-- What stands behind the first colon, or the whole line. -/
def valueText (line : List Char) : List Char :=
  match splitOnce [':'] line with
  | some (_, value) => value
  | none => line

def parseU32 (text : List Char) : Option UInt32 := (parseUnsigned UInt32.size text).map UInt32.ofNat

/-- A missing third number is zero; a fourth one is ignored. -/
def versionOfNumbers : List UInt32 → Option WslVersion
  | major :: minor :: rest => some ⟨major, minor, rest.headD 0⟩
  | _ => none

def versionOfComponents (components : List (List Char)) : Option WslVersion :=
  if 2 ≤ components.length ∧ components.length ≤ 4 then (components.mapM parseU32).bind versionOfNumbers
  else none

def candidateText (value : List Char) : List Char := (trim value).dropWhile (· == 'v')

def numericText (candidate : List Char) : List Char :=
  (firstWord candidate).rdropWhile fun c => !c.isDigit && c != '.'

def versionOfValue (value : List Char) : Option WslVersion :=
  let candidate := candidateText value
  if candidate.head?.any Char.isDigit then versionOfComponents ((numericText candidate).splitOn '.')
  else none

/-- What one line of the output contributes; without a version the scan goes on. -/
def versionOfLine (line : List Char) : Option WslVersion :=
  if Mentions line then versionOfValue (valueText line) else none

def parseWslVersion (output : String) : Except ParseError WslVersion :=
  match (lines output.toList).findSome? versionOfLine with
  | some version => .ok version
  | none => .error .noWslVersion

example : parseWslVersion "WSL version: 2.5.1.0\nKernel version: 6.6.87.1" = .ok ⟨2, 5, 1⟩ := by decide +kernel

/-- A dotted version at the start of a text: after white space and letters `v`, two to four numbers with dots between
them, the first one starting with a digit, then anything up to the end of the word that is neither a digit nor a dot. -/
def VersionAt (Reads : List Char → UInt32 → Prop) (text : List Char) (version : WslVersion) : Prop :=
  ∃ (blank marks : List Char) (parts : List (List Char)) (numbers : List UInt32) (suffix rest : List Char),
    text = blank ++ (marks ++ (['.'].intercalate parts ++ (suffix ++ rest))) ∧
    (∀ c ∈ blank, isWhiteSpace c) ∧ (∀ c ∈ marks, c = 'v') ∧
    (['.'].intercalate parts).head?.any Char.isDigit ∧ 2 ≤ parts.length ∧ parts.length ≤ 4 ∧
    List.Forall₂ Reads parts numbers ∧ versionOfNumbers numbers = some version ∧
    (∀ c ∈ suffix, !c.isDigit && c != '.' && !isWhiteSpace c) ∧ ∀ c ∈ rest.head?, isWhiteSpace c

/-- The leading version of a text: its numbers are written in decimal digits. -/
def LeadingVersion : List Char → WslVersion → Prop :=
  VersionAt fun part number => part ≠ [] ∧ (∀ c ∈ part, c.isDigit) ∧ Nat.ofDigitChars 10 part 0 = number.toNat

/-- The version that is accepted: its numbers are what the parser takes for numbers, so that all but the first may
have a plus sign. -/
def AcceptedVersion : List Char → WslVersion → Prop := VersionAt fun part number => parseU32 part = some number

variable {text value : List Char} {version : WslVersion}

theorem VersionAt.imp {Reads Reads' : List Char → UInt32 → Prop}
    (hreads : ∀ part number, Reads part number → Reads' part number) (h : VersionAt Reads text version) :
    VersionAt Reads' text version := by
  obtain ⟨blank, marks, parts, numbers, suffix, rest, htext, hblank, hmarks, hdigit, hlow, hhigh, hnumbers, h⟩ := h
  exact ⟨blank, marks, parts, numbers, suffix, rest, htext, hblank, hmarks, hdigit, hlow, hhigh,
    hnumbers.imp hreads, h⟩

theorem LeadingVersion.accepted (h : LeadingVersion text version) : AcceptedVersion text version := by
  refine VersionAt.imp (fun part number hreads => ?_) h
  obtain ⟨hne, hdigits, hvalue⟩ := hreads
  have hplus : part.head? ≠ some '+' := fun hhead => absurd (hdigits _ (List.mem_of_head? hhead)) (by decide)
  have hparsed := (parseUnsigned_of_unsigned hplus).mpr ⟨hne, hdigits, hvalue, number.toNat_lt_size⟩
  rw [parseU32, hparsed, Option.map_some, UInt32.ofNat_toNat]

theorem mapM_parseU32_eq_some {parts : List (List Char)} {numbers : List UInt32} :
    parts.mapM parseU32 = some numbers ↔
      List.Forall₂ (fun part number => parseU32 part = some number) parts numbers := by
  induction parts generalizing numbers with
  | nil => simp [eq_comm]
  | cons part parts ih =>
      rw [List.mapM_cons, List.forall₂_cons_left_iff]
      simp only [Option.bind_eq_bind, Option.bind_eq_some_iff, ih, Option.pure_def, Option.some.injEq]
      constructor
      · rintro ⟨number, hnumber, rest, hrest, rfl⟩
        exact ⟨number, rest, hnumber, hrest, rfl⟩
      · rintro ⟨number, rest, hnumber, hrest, rfl⟩
        exact ⟨number, hnumber, rest, hrest, rfl⟩

theorem isWhiteSpace_of_isDigit {c : Char} (h : c.isDigit) : isWhiteSpace c = false := by
  have hvalue : 48 ≤ c.toNat ∧ c.toNat ≤ 57 := by
    rw [Char.isDigit, Bool.and_eq_true, decide_eq_true_eq, decide_eq_true_eq] at h
    exact ⟨UInt32.le_iff_toNat_le.mp h.1, UInt32.le_iff_toNat_le.mp h.2⟩
  simp only [isWhiteSpace, Bool.or_eq_false_iff, Bool.and_eq_false_iff, decide_eq_false_iff_not, beq_eq_false_iff_ne]
  omega

theorem exists_cons_of_head_isDigit (h : text.head?.any Char.isDigit) : ∃ c rest, text = c :: rest ∧ c.isDigit := by
  cases text with
  | nil => cases h
  | cons c rest => exact ⟨c, rest, rfl, h⟩

/-- Apart from white space at the end, the candidate is what is left after the marks. -/
theorem candidateText_append_blank (value : List Char) : ∃ blank, (∀ c ∈ blank, isWhiteSpace c) ∧
    (value.dropWhile isWhiteSpace).dropWhile (· == 'v') = candidateText value ++ blank := by
  let text := value.dropWhile isWhiteSpace
  refine ⟨text.rtakeWhile isWhiteSpace, rtakeWhile_blank _, ?_⟩
  have hblank : (text.rtakeWhile isWhiteSpace).dropWhile (· == 'v') = text.rtakeWhile isWhiteSpace := by
    cases hcases : text.rtakeWhile isWhiteSpace with
    | nil => rfl
    | cons c blank =>
        have hwhite := rtakeWhile_blank text c (by rw [hcases]; exact List.mem_cons_self)
        refine List.dropWhile_cons_of_neg fun hv => ?_
        rw [beq_iff_eq.mp hv] at hwhite
        exact absurd hwhite (by decide)
  change text.dropWhile _ = (text.rdropWhile isWhiteSpace).dropWhile _ ++ _
  conv_lhs => rw [← List.rdropWhile_append_rtakeWhile (p := isWhiteSpace) (l := text)]
  rw [List.dropWhile_append, hblank]
  split
  · rename_i hempty
    rw [List.isEmpty_iff.mp hempty, List.nil_append]
  · rfl

theorem head?_append_blank {blank : List Char} (hblank : ∀ c ∈ blank, isWhiteSpace c) :
    (text ++ blank).head?.any Char.isDigit = text.head?.any Char.isDigit := by
  rcases text with - | ⟨c, text⟩
  · rcases blank with - | ⟨c, blank⟩
    · rfl
    · have hwhite := hblank c List.mem_cons_self
      rw [List.nil_append, List.head?_cons, Option.any_some, List.head?_nil, Option.any_none]
      by_contra hdigit
      rw [Bool.not_eq_false] at hdigit
      rw [isWhiteSpace_of_isDigit hdigit] at hwhite
      cases hwhite
  · rfl

/-- The first word of a candidate that starts with a digit. -/
theorem firstWord_candidateText (hdigit : (candidateText value).head?.any Char.isDigit) :
    firstWord (candidateText value) =
      ((value.dropWhile isWhiteSpace).dropWhile (· == 'v')).takeWhile fun c => !isWhiteSpace c := by
  obtain ⟨blank, hblank, heq⟩ := candidateText_append_blank value
  rw [heq, takeWhile_append_blank _ hblank, firstWord]
  obtain ⟨c, rest, hrest, hdigit⟩ := exists_cons_of_head_isDigit hdigit
  rw [hrest, List.dropWhile_cons_of_neg (by rw [isWhiteSpace_of_isDigit hdigit]; decide)]

theorem numericText_head? {candidate : List Char} (hdigit : candidate.head?.any Char.isDigit) :
    (numericText candidate).head?.any Char.isDigit := by
  obtain ⟨c, rest, rfl, hc⟩ := exists_cons_of_head_isDigit hdigit
  have hwhite := isWhiteSpace_of_isDigit hc
  rw [numericText, firstWord, List.dropWhile_cons_of_neg (by rw [hwhite]; decide),
    List.takeWhile_cons_of_pos (by rw [hwhite]; decide), head?_rdropWhile_cons _ (by rw [hc]; rfl), Option.any_some]
  exact hc

theorem acceptedVersion_of_versionOfValue (h : versionOfValue value = some version) :
    AcceptedVersion value version := by
  rw [versionOfValue, Option.ite_none_right_eq_some, versionOfComponents, Option.ite_none_right_eq_some,
    Option.bind_eq_some_iff] at h
  obtain ⟨hdigit, ⟨hlow, hhigh⟩, numbers, hnumbers, hversion⟩ := h
  let word := firstWord (candidateText value)
  let numeric := numericText (candidateText value)
  let suffix := word.rtakeWhile fun c => !c.isDigit && c != '.'
  let text := (value.dropWhile isWhiteSpace).dropWhile (· == 'v')
  have hword : word = numeric ++ suffix := List.rdropWhile_append_rtakeWhile.symm
  have hparts : ['.'].intercalate (numeric.splitOn '.') = numeric := List.intercalate_splitOn '.'
  have hfirst : word = text.takeWhile fun c => !isWhiteSpace c := firstWord_candidateText hdigit
  refine ⟨value.takeWhile isWhiteSpace, (value.dropWhile isWhiteSpace).takeWhile (· == 'v'), numeric.splitOn '.',
    numbers, suffix, text.dropWhile fun c => !isWhiteSpace c, ?_, fun c hc => List.mem_takeWhile_imp hc,
    fun c hc => ?_, ?_, hlow, hhigh, mapM_parseU32_eq_some.mp hnumbers, hversion, fun c hc => ?_, fun c hc => ?_⟩
  · rw [hparts, ← List.append_assoc numeric, ← hword, hfirst, List.takeWhile_append_dropWhile,
      List.takeWhile_append_dropWhile, List.takeWhile_append_dropWhile]
  · have hmark : (c == 'v') = true := List.mem_takeWhile_imp (p := (· == 'v')) hc
    exact beq_iff_eq.mp hmark
  · rw [hparts]
    exact numericText_head? hdigit
  · have hsuffix := List.mem_rtakeWhile_imp hc
    have hwhite : (!isWhiteSpace c) = true := by
      have hmem : c ∈ word := by
        rw [hword]
        exact List.mem_append_right _ hc
      rw [hfirst] at hmem
      exact List.mem_takeWhile_imp (p := fun c => !isWhiteSpace c) hmem
    rw [hsuffix, hwhite]
    rfl
  · have hstop := List.head?_dropWhile_not (fun c => !isWhiteSpace c) text
    rw [Option.mem_def.mp hc] at hstop
    simpa using hstop

/-- The white space and the marks before a number that does not start with a sign. -/
theorem dropWhile_marks {blank marks : List Char} (hblank : ∀ c ∈ blank, isWhiteSpace c) (hmarks : ∀ c ∈ marks, c = 'v')
    (hdigit : text.head?.any Char.isDigit) :
    ((blank ++ (marks ++ text)).dropWhile isWhiteSpace).dropWhile (· == 'v') = text := by
  obtain ⟨c, rest, rfl, hc⟩ := exists_cons_of_head_isDigit hdigit
  have hwhite := isWhiteSpace_of_isDigit hc
  have hmark : (c == 'v') = false := by
    rw [beq_eq_false_iff_ne]
    rintro rfl
    exact absurd hc (by decide)
  have hkept : (marks ++ c :: rest).dropWhile isWhiteSpace = marks ++ c :: rest := by
    cases marks with
    | nil => exact List.dropWhile_cons_of_neg (by rw [hwhite]; decide)
    | cons d marks =>
        rw [hmarks d List.mem_cons_self]
        exact List.dropWhile_cons_of_neg (by decide)
  rw [List.dropWhile_append_of_pos hblank, hkept,
    List.dropWhile_append_of_pos fun d hd => beq_iff_eq.mpr (hmarks d hd),
    List.dropWhile_cons_of_neg (by rw [hmark]; decide)]

theorem parseU32_eq_some {part : List Char} {number : UInt32} (h : parseU32 part = some number) :
    '.' ∉ part ∧ (∀ c ∈ part, isWhiteSpace c = false) ∧ ∃ c ∈ part.getLast?, c.isDigit := by
  obtain ⟨n, hn, -⟩ := Option.map_eq_some_iff.mp h
  obtain ⟨-, hall, hlast⟩ := of_parseUnsigned_eq_some hn
  refine ⟨fun hdot => ?_, fun c hc => ?_, hlast⟩
  · rcases hall _ hdot with hdigit | hplus
    · exact absurd hdigit (by decide)
    · exact absurd hplus (by decide)
  · rcases hall c hc with hdigit | rfl
    · exact isWhiteSpace_of_isDigit hdigit
    · decide

/-- Numbers with dots between them end in a digit. -/
theorem getLast?_intercalate {parts : List (List Char)} (hne : parts ≠ [])
    (hparts : ∀ part ∈ parts, ∃ c ∈ part.getLast?, c.isDigit) :
    ∃ c ∈ (['.'].intercalate parts).getLast?, c.isDigit := by
  induction parts with
  | nil => exact absurd rfl hne
  | cons part parts ih =>
      rcases parts with - | ⟨next, parts⟩
      · simpa [List.intercalate] using hparts part List.mem_cons_self
      · obtain ⟨c, hc, hdigit⟩ :=
          ih (List.cons_ne_nil _ _) fun other hother => hparts other (List.mem_cons_of_mem _ hother)
        refine ⟨c, ?_, hdigit⟩
        rw [List.intercalate_cons_cons, List.append_assoc, List.getLast?_append, List.getLast?_append,
          Option.mem_def.mp hc]
        rfl

theorem takeWhile_of_head {rest : List Char} (h : ∀ c ∈ rest.head?, isWhiteSpace c) :
    rest.takeWhile (fun c => !isWhiteSpace c) = [] := by
  cases rest with
  | nil => rfl
  | cons c rest => exact List.takeWhile_cons_of_neg (by rw [h c rfl]; decide)

theorem rdropWhile_append_of_last {p : Char → Bool} {suffix : List Char} {c : Char} (hlast : text.getLast? = some c)
    (hc : p c = false) (hsuffix : ∀ d ∈ suffix, p d) : (text ++ suffix).rdropWhile p = text := by
  obtain ⟨front, rfl⟩ := List.getLast?_eq_some_iff.mp hlast
  have hreverse : ∀ d ∈ suffix.reverse, p d := fun d hd => hsuffix d (List.mem_reverse.mp hd)
  rw [List.rdropWhile, List.reverse_append, List.dropWhile_append_of_pos hreverse, List.reverse_append]
  rw [List.reverse_singleton, List.singleton_append, List.dropWhile_cons_of_neg (by rw [hc]; decide)]
  simp

theorem versionOfValue_of_acceptedVersion (h : AcceptedVersion value version) :
    versionOfValue value = some version := by
  obtain ⟨blank, marks, parts, numbers, suffix, rest, rfl, hblank, hmarks, hdigit, hlow, hhigh, hnumbers, hversion,
    hsuffix, hrest⟩ := h
  have hparts : ∀ part ∈ parts, '.' ∉ part ∧ (∀ c ∈ part, isWhiteSpace c = false) ∧ ∃ c ∈ part.getLast?, c.isDigit :=
    ((List.forall₂_and_left parts numbers).mp (hnumbers.imp fun _ _ h => ⟨parseU32_eq_some h, h⟩)).1
  have hne : parts ≠ [] := List.ne_nil_of_length_pos (by omega)
  have hwhite : ∀ c ∈ ['.'].intercalate parts ++ suffix, (!isWhiteSpace c) = true := by
    intro c hc
    rcases List.mem_append.mp hc with hc | hc
    · rcases TextCodec.mem_intercalate hc with rfl | ⟨part, hpart, hc⟩
      · decide
      · rw [(hparts part hpart).2.1 c hc]
        rfl
    · exact (Bool.and_eq_true _ _ ▸ hsuffix c hc).2
  have hstart : (['.'].intercalate parts ++ (suffix ++ rest)).head?.any Char.isDigit := by
    obtain ⟨c, tail, heq, hc⟩ := exists_cons_of_head_isDigit hdigit
    rw [heq]
    exact hc
  have hdrop := dropWhile_marks hblank hmarks hstart
  obtain ⟨trailing, htrailing, heq⟩ := candidateText_append_blank
    (blank ++ (marks ++ (['.'].intercalate parts ++ (suffix ++ rest))))
  have hcandidate : (candidateText (blank ++ (marks ++ (['.'].intercalate parts ++ (suffix ++ rest))))).head?.any
      Char.isDigit := by
    rw [← head?_append_blank htrailing, ← heq, hdrop]
    exact hstart
  have hnumeric : numericText (candidateText (blank ++ (marks ++ (['.'].intercalate parts ++ (suffix ++ rest))))) =
      ['.'].intercalate parts := by
    obtain ⟨c, hlast, hc⟩ := getLast?_intercalate hne fun part hpart => (hparts part hpart).2.2
    rw [numericText, firstWord_candidateText hcandidate, hdrop, ← List.append_assoc,
      List.takeWhile_append_of_pos hwhite, takeWhile_of_head hrest, List.append_nil]
    refine rdropWhile_append_of_last hlast (by rw [hc]; rfl) fun d hd => ?_
    exact (Bool.and_eq_true _ _ ▸ hsuffix d hd).1
  rw [versionOfValue, if_pos hcandidate, hnumeric,
    List.splitOn_intercalate '.' (fun part hpart => (hparts part hpart).1) hne,
    versionOfComponents, if_pos ⟨hlow, hhigh⟩, mapM_parseU32_eq_some.mpr hnumbers]
  exact hversion

theorem versionOfValue_eq_some_iff : versionOfValue value = some version ↔ AcceptedVersion value version :=
  ⟨acceptedVersion_of_versionOfValue, versionOfValue_of_acceptedVersion⟩

theorem versionOfLine_append {label : List Char} (hmentions : Mentions (label ++ [':', ' '])) (hcolon : ':' ∉ label) :
    versionOfLine (label ++ ([':', ' '] ++ value)) = versionOfValue value := by
  have hlonger : Mentions (label ++ ([':', ' '] ++ value)) := by
    rw [← List.append_assoc, Mentions, List.map_append]
    exact hmentions.imp (fun h => h.trans (List.prefix_append _ _).isInfix)
      fun h => h.trans (List.prefix_append _ _).isInfix
  have hvalue : valueText (label ++ ([':', ' '] ++ value)) = ' ' :: value := by
    rw [valueText, List.cons_append, splitOnce_singleton _ hcolon]
    rfl
  rw [versionOfLine, if_pos hlonger, hvalue]
  rfl

def wslLine (value : List Char) : List Char := "WSL version".toList ++ ([':', ' '] ++ value)

def wslgLine (value : List Char) : List Char := "WSLg version".toList ++ ([':', ' '] ++ value)

theorem versionOfLine_wslLine (value : List Char) : versionOfLine (wslLine value) = versionOfValue value :=
  versionOfLine_append (by decide) (by decide)

theorem versionOfLine_wslgLine (value : List Char) : versionOfLine (wslgLine value) = versionOfValue value :=
  versionOfLine_append (by decide) (by decide)

theorem findSome?_of_not_mentions {quiet : List (List Char)} (h : ∀ line ∈ quiet, ¬Mentions line) :
    quiet.findSome? versionOfLine = none :=
  List.findSome?_eq_none_iff.mpr fun line hline => if_neg (h line hline)

/-- A line about WSL with a version answers for the whole output. -/
theorem parseWslVersion_of_wslLine {output : String} {before after : List (List Char)}
    (hlines : lines output.toList = before ++ wslLine value :: after) (hbefore : ∀ line ∈ before, ¬Mentions line)
    (hversion : AcceptedVersion value version) : parseWslVersion output = .ok version := by
  rw [parseWslVersion, hlines, List.findSome?_append, findSome?_of_not_mentions hbefore, Option.none_or,
    List.findSome?_cons, versionOfLine_wslLine, versionOfValue_eq_some_iff.mpr hversion]

/-- Without a version in the line about WSL, the line about WSLg answers. -/
theorem parseWslVersion_of_wslgLine {output : String} {other : List Char} {before between after : List (List Char)}
    (hlines : lines output.toList = before ++ wslLine value :: (between ++ wslgLine other :: after))
    (hquiet : ∀ line ∈ before ++ between ++ after, ¬Mentions line)
    (hvalue : ∀ version, ¬AcceptedVersion value version) :
    parseWslVersion output =
      match versionOfValue other with
      | some version => .ok version
      | none => .error .noWslVersion := by
  have hnone : versionOfValue value = none := by
    rw [Option.eq_none_iff_forall_ne_some]
    exact fun version hversion => hvalue version (versionOfValue_eq_some_iff.mp hversion)
  have hafter : after.findSome? versionOfLine = none :=
    findSome?_of_not_mentions fun line hline => hquiet line (List.mem_append_right _ hline)
  have hbetween : between.findSome? versionOfLine = none := findSome?_of_not_mentions fun line hline =>
    hquiet line (List.mem_append_left _ (List.mem_append_right _ hline))
  have hbefore : before.findSome? versionOfLine = none := findSome?_of_not_mentions fun line hline =>
    hquiet line (List.mem_append_left _ (List.mem_append_left _ hline))
  rw [parseWslVersion, hlines, List.findSome?_append, hbefore, Option.none_or, List.findSome?_cons,
    versionOfLine_wslLine, hnone]
  dsimp only
  rw [List.findSome?_append, hbetween, Option.none_or, List.findSome?_cons, versionOfLine_wslgLine, hafter]
  cases versionOfValue other <;> rfl

/-- How versions are printed, with an optional fourth number. -/
def WslVersion.print (version : WslVersion) (fourth : Option UInt32) : List Char :=
  ['.'].intercalate (([version.major, version.minor, version.patch] ++ fourth.toList).map fun number =>
    Nat.toDigits 10 number.toNat)

theorem leadingVersion_print (version : WslVersion) (fourth : Option UInt32) :
    LeadingVersion (version.print fourth) version := by
  have hdigits : ∀ number : UInt32, ∀ c ∈ Nat.toDigits 10 number.toNat, c.isDigit := fun number c hc =>
    Nat.isDigit_of_mem_toDigits (by decide) (by decide) hc
  refine ⟨[], [], ([version.major, version.minor, version.patch] ++ fourth.toList).map fun number =>
    Nat.toDigits 10 number.toNat, [version.major, version.minor, version.patch] ++ fourth.toList, [], [], ?_, nofun,
    nofun, ?_, ?_, ?_, ?_, rfl, nofun, nofun⟩
  · rw [List.append_nil, List.append_nil]
    rfl
  · obtain ⟨c, rest, hcons⟩ := List.exists_cons_of_ne_nil (Nat.toDigits_ne_nil (n := version.major.toNat) (b := 10))
    have hc : c ∈ Nat.toDigits 10 version.major.toNat := by
      rw [hcons]
      exact List.mem_cons_self
    rw [List.cons_append, List.map_cons, List.cons_append, List.map_cons, List.intercalate_cons_cons, hcons]
    exact hdigits _ c hc
  · simp
  · cases fourth <;> simp
  · rw [List.forall₂_map_left_iff, List.forall₂_same]
    exact fun number _ => ⟨Nat.toDigits_ne_nil, hdigits number, Nat.ofDigitChars_toDigits (by decide) (by decide)⟩

/-- The version is taken from the line about WSL exactly if that line has one, or neither that line nor the line about
WSLg has anything that is accepted for one. -/
theorem wsl_version_comes_from_wsl_line_iff (output : String) :
    (∀ (value other : List Char) (before between after : List (List Char)),
      lines output.toList = before ++ wslLine value :: (between ++ wslgLine other :: after) →
      (∀ line ∈ before ++ between ++ after, ¬Mentions line) →
      ((∀ version, parseWslVersion output = .ok version → LeadingVersion value version) ↔
        ((∃ version, LeadingVersion value version) ∨
          (¬∃ version, AcceptedVersion value version) ∧ ¬∃ version, AcceptedVersion other version))) ∧
    (∀ (before after : List (List Char)) (version : WslVersion) (fourth : Option UInt32),
      lines output.toList = before ++ wslLine (version.print fourth) :: after →
      (∀ line ∈ before, ¬Mentions line) → parseWslVersion output = .ok version) := by
  refine ⟨fun value other before between after hlines hquiet => ?_, fun before after version fourth hlines hbefore =>
      parseWslVersion_of_wslLine hlines hbefore (leadingVersion_print version fourth).accepted⟩
  have hbefore : ∀ line ∈ before, ¬Mentions line := fun line hline =>
    hquiet line (List.mem_append_left _ (List.mem_append_left _ hline))
  by_cases hvalue : ∃ version, AcceptedVersion value version
  · obtain ⟨version, hversion⟩ := hvalue
    rw [parseWslVersion_of_wslLine hlines hbefore hversion]
    refine ⟨fun h => .inl ⟨version, h version rfl⟩, fun h found hfound => ?_⟩
    obtain ⟨leading, hleading⟩ := h.resolve_right fun h => h.1 ⟨version, hversion⟩
    obtain rfl : version = leading := Option.some.inj
      ((versionOfValue_eq_some_iff.mpr hversion).symm.trans (versionOfValue_eq_some_iff.mpr hleading.accepted))
    exact Except.ok.inj hfound ▸ hleading
  · have hparse := parseWslVersion_of_wslgLine hlines hquiet (not_exists.mp hvalue)
    have hleading : ∀ version, ¬LeadingVersion value version := fun version h => hvalue ⟨version, h.accepted⟩
    cases hother : versionOfValue other with
    | none =>
        rw [hother] at hparse
        refine ⟨fun _ => .inr ⟨hvalue, ?_⟩, fun _ found hfound => ?_⟩
        · rintro ⟨version, hversion⟩
          cases hother.symm.trans (versionOfValue_eq_some_iff.mpr hversion)
        · cases hparse.symm.trans hfound
    | some version =>
        rw [hother] at hparse
        refine ⟨fun h => absurd (h version hparse) (hleading version), fun h => ?_⟩
        rcases h with ⟨leading, h⟩ | ⟨-, h⟩
        · exact absurd h (hleading leading)
        · exact absurd ⟨version, versionOfValue_eq_some_iff.mp hother⟩ h

def printedVersions : String := "WSL version: 2.5.1.0\r\nKernel: 6.6.87.1-1\r\nWSLg version: 1.0.66\r\n"

theorem printed_version_comes_from_wsl_line :
    parseWslVersion printedVersions = .ok ⟨2, 5, 1⟩ ∧
      ∀ version, parseWslVersion printedVersions = .ok version → LeadingVersion "2.5.1.0".toList version := by
  have hprint : WslVersion.print ⟨2, 5, 1⟩ (some 0) = "2.5.1.0".toList := by decide +kernel
  have hleading := leadingVersion_print ⟨2, 5, 1⟩ (some 0)
  rw [hprint] at hleading
  exact ⟨(wsl_version_comes_from_wsl_line_iff printedVersions).2 []
      ["Kernel: 6.6.87.1-1".toList, wslgLine "1.0.66".toList] ⟨2, 5, 1⟩ (some 0) (by decide +kernel) nofun,
    ((wsl_version_comes_from_wsl_line_iff printedVersions).1 "2.5.1.0".toList "1.0.66".toList []
      ["Kernel: 6.6.87.1-1".toList] [] (by decide +kernel) (by decide)).mpr (.inl ⟨⟨2, 5, 1⟩, hleading⟩)⟩

/-- A preview version of WSL lets the version of WSLg pass for it. -/
theorem wslg_version_passes_for_wsl_version :
    lines "WSL version: 2.5.1-preview.2\nWSLg version: 1.0.66\n".toList =
        [wslLine "2.5.1-preview.2".toList, wslgLine "1.0.66".toList] ∧
      parseWslVersion "WSL version: 2.5.1-preview.2\nWSLg version: 1.0.66\n" = .ok ⟨1, 0, 66⟩ ∧
      LeadingVersion "1.0.66".toList ⟨1, 0, 66⟩ ∧ ¬∃ version, LeadingVersion "2.5.1-preview.2".toList version := by
  have hprint : WslVersion.print ⟨1, 0, 66⟩ none = "1.0.66".toList := by decide +kernel
  refine ⟨by decide +kernel, by decide +kernel, hprint ▸ leadingVersion_print ⟨1, 0, 66⟩ none, ?_⟩
  rintro ⟨version, hversion⟩
  have hvalue : versionOfValue "2.5.1-preview.2".toList = none := by decide +kernel
  cases hvalue.symm.trans (versionOfValue_eq_some_iff.mpr hversion.accepted)

end WincredLibsecret.Cli
