import Mathlib

/-! Semantic versions: their parts, the one text that each version has, and their precedence, which is read off a
linear order: numbers first, a release above its prereleases, prereleases by their identifiers from left to right,
numeric identifiers below alphanumeric ones, and build metadata not at all. Numerals without leading zeros are
compared by length and then digit by digit. -/

namespace SemanticVersion

/-- The lexicographic comparison of lists, a shorter list first. -/
def compareLists {α : Type} (compareItems : α → α → Ordering) : List α → List α → Ordering
  | [], [] => .eq
  | [], _ :: _ => .lt
  | _ :: _, [] => .gt
  | left :: lefts, right :: rights =>
      match compareItems left right with
      | .eq => compareLists compareItems lefts rights
      | decided => decided

theorem compareLists_map {α β : Type} (compareItems : β → β → Ordering) (f : α → β) (lefts rights : List α) :
    compareLists compareItems (lefts.map f) (rights.map f) =
      compareLists (fun left right => compareItems (f left) (f right)) lefts rights := by
  induction lefts generalizing rights with
  | nil => cases rights <;> rfl
  | cons left lefts ih =>
      cases rights with
      | nil => rfl
      | cons right rights => rw [List.map_cons, List.map_cons, compareLists, compareLists, ih]

/-- A comparison of items by rank gives the comparison of lists by their lists of ranks. -/
theorem compareLists_compares {α β : Type} [LinearOrder β] {compareItems : α → α → Ordering} {rank : α → β}
    {lefts rights : List α}
    (h : ∀ left ∈ lefts, ∀ right ∈ rights, (compareItems left right).Compares (rank left) (rank right)) :
    (compareLists compareItems lefts rights).Compares (lefts.map rank) (rights.map rank) := by
  induction lefts generalizing rights with
  | nil =>
      cases rights with
      | nil => exact rfl
      | cons right rights => exact List.nil_lt_cons _ _
  | cons left lefts ih =>
      cases rights with
      | nil => exact List.nil_lt_cons _ _
      | cons right rights =>
          have hhead := h left List.mem_cons_self right List.mem_cons_self
          have htail := ih fun item hitem other hother =>
            h item (List.mem_cons_of_mem _ hitem) other (List.mem_cons_of_mem _ hother)
          rw [compareLists, List.map_cons, List.map_cons]
          cases hcompare : compareItems left right with
          | lt =>
              rw [hcompare] at hhead
              exact List.cons_lt_cons_iff.mpr (.inl hhead)
          | gt =>
              rw [hcompare] at hhead
              exact List.cons_lt_cons_iff.mpr (.inl hhead)
          | eq =>
              rw [hcompare] at hhead
              cases hrest : compareLists compareItems lefts rights with
              | lt =>
                  rw [hrest] at htail
                  exact List.cons_lt_cons_iff.mpr (.inr ⟨hhead, htail⟩)
              | gt =>
                  rw [hrest] at htail
                  exact List.cons_lt_cons_iff.mpr (.inr ⟨hhead.symm, htail⟩)
              | eq =>
                  rw [hrest] at htail
                  exact congrArg₂ List.cons hhead htail

/-- Two comparisons one after the other compare pairs. -/
theorem then_compares {α β : Type} [LinearOrder α] [LinearOrder β] {first second : Ordering} {a a' : α} {b b' : β}
    (hfirst : first.Compares a a') (hsecond : second.Compares b b') :
    (first.then second).Compares (toLex (a, b)) (toLex (a', b')) := by
  cases first with
  | lt => exact Prod.Lex.lt_iff.mpr (.inl hfirst)
  | gt => exact Prod.Lex.lt_iff.mpr (.inl hfirst)
  | eq =>
      cases second with
      | lt => exact Prod.Lex.lt_iff.mpr (.inr ⟨hfirst, hsecond⟩)
      | gt => exact Prod.Lex.lt_iff.mpr (.inr ⟨hfirst.symm, hsecond⟩)
      | eq => exact congrArg₂ (fun a b => toLex (a, b)) hfirst hsecond

/-- A decimal numeral without leading zeros. -/
def IsNumeral (text : List Char) : Prop :=
  text ≠ [] ∧ (∀ c ∈ text, c.isDigit) ∧ (text.length = 1 ∨ text.head? ≠ some '0')

theorem isDigit_iff {c : Char} : c.isDigit ↔ 48 ≤ c.toNat ∧ c.toNat ≤ 57 := by
  rw [Char.isDigit, Bool.and_eq_true, decide_eq_true_eq, decide_eq_true_eq]
  exact and_congr UInt32.le_iff_toNat_le UInt32.le_iff_toNat_le

theorem digitChar_sub {c : Char} (h : c.isDigit) : Nat.digitChar (c.toNat - 48) = c := by
  have hrange := isDigit_iff.mp h
  rw [← Char.toNat_inj, Nat.toNat_digitChar_of_lt_ten (by omega)]
  omega

/-- Digits behind a positive number are its further digits. -/
theorem toDigits_append_digits {digits : List Char} (hdigits : ∀ c ∈ digits, c.isDigit) {n : Nat} (hn : 0 < n) :
    Nat.toDigits 10 (Nat.ofDigitChars 10 digits n) = Nat.toDigits 10 n ++ digits := by
  induction digits generalizing n with
  | nil => rw [Nat.ofDigitChars_nil, List.append_nil]
  | cons c digits ih =>
      have hc := hdigits c List.mem_cons_self
      have hrange := isDigit_iff.mp hc
      have hvalue : c.toNat - '0'.toNat = c.toNat - 48 := rfl
      have hlast : Nat.toDigits 10 (c.toNat - 48) = [c] := by
        rw [Nat.toDigits_of_lt_base (by omega), digitChar_sub hc]
      rw [Nat.ofDigitChars_cons, ih (fun d hd => hdigits d (List.mem_cons_of_mem _ hd)) (by omega), hvalue,
        ← Nat.toDigits_append_toDigits (by decide) hn (by omega), hlast, List.append_assoc, List.singleton_append]

theorem toDigits_ofDigitChars {text : List Char} (h : IsNumeral text) :
    Nat.toDigits 10 (Nat.ofDigitChars 10 text 0) = text := by
  obtain ⟨hne, hdigits, hzero⟩ := h
  obtain ⟨c, rest, rfl⟩ := List.exists_cons_of_ne_nil hne
  have hc := hdigits c List.mem_cons_self
  have hrange := isDigit_iff.mp hc
  have hvalue : 10 * 0 + (c.toNat - '0'.toNat) = c.toNat - 48 := Nat.zero_add _
  rw [Nat.ofDigitChars_cons, hvalue]
  rcases hzero with hsingle | hhead
  · rw [List.length_eq_zero_iff.mp (Nat.succ.inj hsingle), Nat.ofDigitChars_nil, Nat.toDigits_of_lt_base (by omega),
      digitChar_sub hc]
  · have hpositive : 0 < c.toNat - 48 := by
      have hne : c.toNat ≠ '0'.toNat := fun heq => hhead (congrArg some (Char.toNat_inj.mp heq))
      have hnat : '0'.toNat = 48 := rfl
      omega
    rw [toDigits_append_digits (fun d hd => hdigits d (List.mem_cons_of_mem _ hd)) hpositive,
      Nat.toDigits_of_lt_base (by omega), digitChar_sub hc, List.singleton_append]

theorem head?_toDigits_ne {n : Nat} (hn : 0 < n) : (Nat.toDigits 10 n).head? ≠ some '0' := by
  induction n using Nat.strong_induction_on with
  | _ n ih =>
      by_cases hsmall : n < 10
      · rw [Nat.toDigits_of_lt_base hsmall]
        interval_cases n <;> decide
      · have hsplit := Nat.toDigits_append_toDigits (b := 10) (n := n / 10) (d := n % 10)
          (by decide) (by omega) (by omega)
        rw [Nat.div_add_mod] at hsplit
        rw [← hsplit, List.head?_append_of_ne_nil _ Nat.toDigits_ne_nil]
        exact ih (n / 10) (by omega) (by omega)

theorem isNumeral_toDigits (n : Nat) : IsNumeral (Nat.toDigits 10 n) := by
  refine ⟨Nat.toDigits_ne_nil, fun c hc => Nat.isDigit_of_mem_toDigits (by decide) (by decide) hc, ?_⟩
  rcases Nat.eq_zero_or_pos n with rfl | hn
  · exact .inl rfl
  · exact .inr (head?_toDigits_ne hn)

/-- The value of digits behind a number lies between the bounds that their count gives. -/
theorem ofDigitChars_bounds {digits : List Char} (hdigits : ∀ c ∈ digits, c.isDigit) (n : Nat) :
    n * 10 ^ digits.length ≤ Nat.ofDigitChars 10 digits n ∧
      Nat.ofDigitChars 10 digits n < (n + 1) * 10 ^ digits.length := by
  induction digits generalizing n with
  | nil => rw [Nat.ofDigitChars_nil, List.length_nil]; omega
  | cons c digits ih =>
      have hrange := isDigit_iff.mp (hdigits c List.mem_cons_self)
      have hvalue : c.toNat - '0'.toNat = c.toNat - 48 := rfl
      obtain ⟨hlow, hhigh⟩ := ih (fun d hd => hdigits d (List.mem_cons_of_mem _ hd)) (10 * n + (c.toNat - 48))
      rw [Nat.ofDigitChars_cons, hvalue, List.length_cons, Nat.pow_succ']
      constructor
      · calc n * (10 * 10 ^ digits.length) = 10 * n * 10 ^ digits.length := by ring
          _ ≤ (10 * n + (c.toNat - 48)) * 10 ^ digits.length := Nat.mul_le_mul_right _ (by omega)
          _ ≤ _ := hlow
      · calc Nat.ofDigitChars 10 digits (10 * n + (c.toNat - 48))
            < (10 * n + (c.toNat - 48) + 1) * 10 ^ digits.length := hhigh
          _ ≤ 10 * (n + 1) * 10 ^ digits.length := Nat.mul_le_mul_right _ (by omega)
          _ = (n + 1) * (10 * 10 ^ digits.length) := by ring

theorem ofDigitChars_lt_of_length_lt {left right : List Char} (hleft : IsNumeral left) (hright : IsNumeral right)
    (h : left.length < right.length) : Nat.ofDigitChars 10 left 0 < Nat.ofDigitChars 10 right 0 := by
  obtain ⟨c, rest, rfl⟩ := List.exists_cons_of_ne_nil hright.1
  have hrange := isDigit_iff.mp (hright.2.1 c List.mem_cons_self)
  have hhead : c ≠ '0' := by
    rcases hright.2.2 with hsingle | hhead
    · have hpositive := List.length_pos_iff.mpr hleft.1
      omega
    · exact fun heq => hhead (congrArg some heq)
  have hpositive : 1 ≤ c.toNat - 48 := by
    have hne : c.toNat ≠ '0'.toNat := fun heq => hhead (Char.toNat_inj.mp heq)
    have hnat : '0'.toNat = 48 := rfl
    omega
  have hlow := (ofDigitChars_bounds (fun d hd => hright.2.1 d (List.mem_cons_of_mem _ hd)) (c.toNat - 48)).1
  have hvalue : 10 * 0 + (c.toNat - '0'.toNat) = c.toNat - 48 := Nat.zero_add _
  rw [List.length_cons] at h
  calc Nat.ofDigitChars 10 left 0 < (0 + 1) * 10 ^ left.length := (ofDigitChars_bounds hleft.2.1 0).2
    _ ≤ 10 ^ rest.length := by
        rw [Nat.zero_add, Nat.one_mul]
        exact Nat.pow_le_pow_right (by decide) (by omega)
    _ ≤ (c.toNat - 48) * 10 ^ rest.length := Nat.le_mul_of_pos_left _ hpositive
    _ ≤ Nat.ofDigitChars 10 (c :: rest) 0 := by rw [Nat.ofDigitChars_cons, hvalue]; exact hlow

theorem ofDigitChars_lt_of_lt {left right : List Char} (hleft : ∀ c ∈ left, c.isDigit) (hright : ∀ c ∈ right, c.isDigit)
    (hlength : left.length = right.length) (h : left < right) (n : Nat) :
    Nat.ofDigitChars 10 left n < Nat.ofDigitChars 10 right n := by
  induction left generalizing right n with
  | nil =>
      rw [List.length_nil, eq_comm, List.length_eq_zero_iff] at hlength
      rw [hlength] at h
      exact absurd h (List.not_lt_nil _)
  | cons c left ih =>
      rcases right with - | ⟨d, right⟩
      · exact absurd h (List.not_lt_nil _)
      have hc := isDigit_iff.mp (hleft c List.mem_cons_self)
      have hd := isDigit_iff.mp (hright d List.mem_cons_self)
      have hlengths : left.length = right.length := Nat.succ.inj hlength
      have hzero : '0'.toNat = 48 := rfl
      rw [Nat.ofDigitChars_cons, Nat.ofDigitChars_cons, hzero]
      rcases List.cons_lt_cons_iff.mp h with hlt | ⟨rfl, hlt⟩
      · have hvalue : c.toNat < d.toNat := hlt
        calc Nat.ofDigitChars 10 left (10 * n + (c.toNat - 48))
            < (10 * n + (c.toNat - 48) + 1) * 10 ^ left.length :=
              (ofDigitChars_bounds (fun e he => hleft e (List.mem_cons_of_mem _ he)) _).2
          _ ≤ (10 * n + (d.toNat - 48)) * 10 ^ right.length := by
              rw [hlengths]
              exact Nat.mul_le_mul_right _ (by omega)
          _ ≤ Nat.ofDigitChars 10 right (10 * n + (d.toNat - 48)) :=
              (ofDigitChars_bounds (fun e he => hright e (List.mem_cons_of_mem _ he)) _).1
      · exact ih (fun e he => hleft e (List.mem_cons_of_mem _ he)) (fun e he => hright e (List.mem_cons_of_mem _ he))
          hlengths hlt _

/-- The comparison of texts character by character. -/
def compareOrdinal (left right : List Char) : Ordering :=
  compareLists (fun c d => compare c.toNat d.toNat) left right

theorem compareOrdinal_compares (left right : List Char) : (compareOrdinal left right).Compares left right := by
  have hitems : ∀ c ∈ left, ∀ d ∈ right, (compare c.toNat d.toNat).Compares (id c) (id d) := by
    intro c _ d _
    rcases hcompare : compare c.toNat d.toNat
    · have hlt : c.toNat < d.toNat := compare_lt_iff_lt.mp hcompare
      exact hlt
    · exact Char.toNat_inj.mp (compare_eq_iff_eq.mp hcompare)
    · have hgt : d.toNat < c.toNat := compare_gt_iff_gt.mp hcompare
      exact hgt
  have hlists := compareLists_compares hitems
  rwa [List.map_id, List.map_id] at hlists

/-- Numerals are compared by length, then character by character. -/
theorem compareNumerals_compares {left right : List Char} (hleft : IsNumeral left) (hright : IsNumeral right) :
    ((compare left.length right.length).then (compareOrdinal left right)).Compares
      (Nat.ofDigitChars 10 left 0) (Nat.ofDigitChars 10 right 0) := by
  rcases hlength : compare left.length right.length
  · exact ofDigitChars_lt_of_length_lt hleft hright (compare_lt_iff_lt.mp hlength)
  · have hordinal := compareOrdinal_compares left right
    have hsame := compare_eq_iff_eq.mp hlength
    rw [Ordering.eq_then]
    rcases hcompare : compareOrdinal left right
    · rw [hcompare] at hordinal
      exact ofDigitChars_lt_of_lt hleft.2.1 hright.2.1 hsame hordinal 0
    · rw [hcompare] at hordinal
      exact congrArg (fun text => Nat.ofDigitChars 10 text 0) hordinal
    · rw [hcompare] at hordinal
      exact ofDigitChars_lt_of_lt hright.2.1 hleft.2.1 hsame.symm hordinal 0
  · exact ofDigitChars_lt_of_length_lt hright hleft (compare_gt_iff_gt.mp hlength)

def isIdentifierCharacter (c : Char) : Bool := c.isAlphanum || c == '-'

/-- An identifier of a prerelease that is not a number. -/
structure Alphanumeric where
  text : List Char
  all_characters : ∀ c ∈ text, isIdentifierCharacter c
  exists_nondigit : ∃ c ∈ text, c.isDigit = false

inductive Identifier where
  | numeric (value : Nat)
  | alphanumeric (value : Alphanumeric)

structure BuildIdentifier where
  text : List Char
  ne_nil : text ≠ []
  all_characters : ∀ c ∈ text, isIdentifierCharacter c

end SemanticVersion

open SemanticVersion in
/-- A semantic version; a release has no prerelease identifiers. -/
structure SemVer where
  major : Nat
  minor : Nat
  patch : Nat
  prerelease : List Identifier
  build : List BuildIdentifier

namespace SemanticVersion

def Identifier.text : Identifier → List Char
  | .numeric value => Nat.toDigits 10 value
  | .alphanumeric value => value.text

/-- The rank of an identifier: numbers below texts. -/
def Identifier.rank : Identifier → Nat ⊕ₗ List Char
  | .numeric value => toLex (.inl value)
  | .alphanumeric value => toLex (.inr value.text)

/-- Parts with dots between them, if there are any. -/
def joinParts (parts : List (List Char)) : Option (List Char) :=
  if parts = [] then none else some (['.'].intercalate parts)

/-- Parts behind a mark, or nothing. -/
def renderParts (mark : Char) (parts : List (List Char)) : List Char := (joinParts parts).elim [] (mark :: ·)

end SemanticVersion

namespace SemVer

open SemanticVersion

/-- The numbers of a version. -/
def renderCore (version : SemVer) : List Char :=
  ['.'].intercalate [Nat.toDigits 10 version.major, Nat.toDigits 10 version.minor, Nat.toDigits 10 version.patch]

/-- The text of a version. -/
def render (version : SemVer) : List Char :=
  version.renderCore ++ renderParts '-' (version.prerelease.map Identifier.text) ++
    renderParts '+' (version.build.map BuildIdentifier.text)

def FitsIn (version : SemVer) (bound : Nat) : Prop :=
  version.major < bound ∧ version.minor < bound ∧ version.patch < bound

/-- What the precedence of versions is decided by. -/
def precedence (version : SemVer) : Nat ×ₗ Nat ×ₗ Nat ×ₗ WithTop (List (Nat ⊕ₗ List Char)) :=
  toLex (version.major, toLex (version.minor, toLex (version.patch,
    if version.prerelease.isEmpty then ⊤
    else ((version.prerelease.map Identifier.rank : List (Nat ⊕ₗ List Char)) : WithTop (List (Nat ⊕ₗ List Char))))))

end SemVer

namespace SemanticVersion

theorem Identifier.text_ne_nil (identifier : Identifier) : identifier.text ≠ [] := by
  cases identifier with
  | numeric value => exact Nat.toDigits_ne_nil
  | alphanumeric value =>
      obtain ⟨c, hc, -⟩ := value.exists_nondigit
      exact List.ne_nil_of_mem hc

theorem isIdentifierCharacter_of_isDigit {c : Char} (h : c.isDigit) : isIdentifierCharacter c := by
  rw [isIdentifierCharacter, Char.isAlphanum, h, Bool.or_true, Bool.true_or]

theorem Identifier.all_characters (identifier : Identifier) : ∀ c ∈ identifier.text, isIdentifierCharacter c := by
  cases identifier with
  | numeric value =>
      exact fun c hc => isIdentifierCharacter_of_isDigit (Nat.isDigit_of_mem_toDigits (by decide) (by decide) hc)
  | alphanumeric value => exact value.all_characters

/-- A text of identifier characters is an identifier unless it is a number with leading zeros. -/
theorem exists_identifier {text : List Char} (hne : text ≠ []) (hall : ∀ c ∈ text, isIdentifierCharacter c)
    (hzero : (∀ c ∈ text, c.isDigit) → text.length = 1 ∨ text.head? ≠ some '0') :
    ∃ identifier : Identifier, identifier.text = text := by
  by_cases hdigits : ∀ c ∈ text, c.isDigit
  · exact ⟨.numeric (Nat.ofDigitChars 10 text 0), toDigits_ofDigitChars ⟨hne, hdigits, hzero hdigits⟩⟩
  · push Not at hdigits
    obtain ⟨c, hc, hdigit⟩ := hdigits
    exact ⟨.alphanumeric ⟨text, hall, c, hc, (Bool.not_eq_true _).mp hdigit⟩, rfl⟩

/-- An identifier is numeric exactly if all its characters are digits. -/
theorem Identifier.all_isDigit_iff (identifier : Identifier) :
    (∀ c ∈ identifier.text, c.isDigit) ↔ ∃ value, identifier = .numeric value := by
  cases identifier with
  | numeric value =>
      exact ⟨fun _ => ⟨value, rfl⟩, fun _ c hc => Nat.isDigit_of_mem_toDigits (by decide) (by decide) hc⟩
  | alphanumeric value =>
      refine ⟨fun h => ?_, fun ⟨_, h⟩ => (nomatch h)⟩
      obtain ⟨c, hc, hdigit⟩ := value.exists_nondigit
      exact absurd (h c hc) (by rw [hdigit]; decide)

theorem exists_map_eq {α β : Type} {f : α → β} {images : List β} (h : ∀ image ∈ images, ∃ item, f item = image) :
    ∃ items : List α, items.map f = images := by
  induction images with
  | nil => exact ⟨[], rfl⟩
  | cons image images ih =>
      obtain ⟨item, rfl⟩ := h image List.mem_cons_self
      obtain ⟨items, rfl⟩ := ih fun other hother => h other (List.mem_cons_of_mem _ hother)
      exact ⟨item :: items, rfl⟩

/-- Texts of identifier characters have none of the marks. -/
theorem notMem_of_identifier {mark : Char} (hmark : isIdentifierCharacter mark = false) {text : List Char}
    (h : ∀ c ∈ text, isIdentifierCharacter c) : mark ∉ text := fun hmem => by
  rw [h mark hmem] at hmark
  cases hmark

/-- Reading parts back from the text that joins them. -/
theorem splitOn_of_joinParts {parts : List (List Char)} {text : List Char} (h : joinParts parts = some text)
    (hparts : ∀ part ∈ parts, '.' ∉ part) : text.splitOn '.' = parts := by
  rw [joinParts, Option.ite_none_left_eq_some] at h
  obtain ⟨hne, htext⟩ := h
  rw [← Option.some.inj htext, List.splitOn_intercalate '.' hparts hne]

theorem joinParts_splitOn (text : List Char) : joinParts (text.splitOn '.') = some text := by
  rw [joinParts, if_neg (List.splitOn_ne_nil _ _), List.intercalate_splitOn]

end SemanticVersion
