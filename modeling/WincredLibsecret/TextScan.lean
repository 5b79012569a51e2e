import Mathlib.Data.List.DropRight
import Mathlib.Data.List.Infix

/-! Scanning of texts as standard libraries do it, on lists of characters: the lines of a text, white space, the
first occurrence of a separator, and unsigned decimal numerals. -/

namespace TextScan

/-- The characters that Unicode calls white space. -/
def isWhiteSpace (c : Char) : Bool :=
  let n := c.toNat
  (9 ≤ n && n ≤ 13) || n == 0x20 || n == 0x85 || n == 0xA0 || n == 0x1680 || (0x2000 ≤ n && n ≤ 0x200A) ||
    n == 0x2028 || n == 0x2029 || n == 0x202F || n == 0x205F || n == 0x3000

def stripReturn (line : List Char) : List Char := if line.getLast? = some '\r' then line.dropLast else line

/-- The lines of a text. A line feed ends a line together with a carriage return before it; what follows the last
line feed is a line unless it is empty. -/
def lines (text : List Char) : List (List Char) :=
  let parts := text.splitOn '\n'
  let rest := parts.getLastD []
  parts.dropLast.map stripReturn ++ if rest.isEmpty then [] else [rest]

/-- The texts before and after the first occurrence of a separator. -/
def splitOnce (separator : List Char) : List Char → Option (List Char × List Char)
  | [] => if separator.isEmpty then some ([], []) else none
  | c :: text =>
      if separator <+: c :: text then some ([], (c :: text).drop separator.length)
      else (splitOnce separator text).map fun (before, after) => (c :: before, after)

def trim (text : List Char) : List Char := (text.dropWhile isWhiteSpace).rdropWhile isWhiteSpace

/-- The first of the parts that white space separates; empty if there is none. -/
def firstWord (text : List Char) : List Char := (text.dropWhile isWhiteSpace).takeWhile fun c => !isWhiteSpace c

variable {before text : List Char}

theorem splitOnce_singleton {c : Char} (after : List Char) (h : c ∉ before) :
    splitOnce [c] (before ++ c :: after) = some (before, after) := by
  induction before with
  | nil => simp [splitOnce]
  | cons d before ih =>
      have hne : ¬[c] <+: d :: (before ++ c :: after) := by
        rintro ⟨rest, hrest⟩
        rw [List.singleton_append] at hrest
        exact h (List.mem_cons.mpr (.inl (List.cons.inj hrest).1))
      rw [List.cons_append, splitOnce, if_neg hne, ih (fun hmem => h (List.mem_cons_of_mem _ hmem))]
      rfl

theorem of_splitOnce_singleton {c : Char} {after : List Char} (h : splitOnce [c] text = some (before, after)) :
    c ∉ before ∧ text = before ++ c :: after := by
  induction text generalizing before with
  | nil => cases h
  | cons d text ih =>
      rw [splitOnce] at h
      split at h
      · rename_i hstart
        obtain ⟨rest, hrest⟩ := hstart
        rw [List.singleton_append] at hrest
        cases hrest
        cases h
        exact ⟨List.not_mem_nil, rfl⟩
      · rename_i hstart
        obtain ⟨⟨rest, found⟩, hrest, heq⟩ := Option.map_eq_some_iff.mp h
        cases heq
        obtain ⟨hnotMem, rfl⟩ := ih hrest
        refine ⟨fun hmem => ?_, rfl⟩
        rcases List.mem_cons.mp hmem with rfl | hmem
        · exact hstart ⟨_, rfl⟩
        · exact hnotMem hmem

theorem splitOnce_singleton_eq_none {c : Char} (h : splitOnce [c] text = none) : c ∉ text := by
  intro hmem
  obtain ⟨before, after, rfl, hbefore⟩ := List.eq_append_cons_of_mem hmem
  rw [splitOnce_singleton after hbefore] at h
  cases h

/-- The text before the first mark, and the text after it if there is one. -/
def splitMark (mark : Char) (text : List Char) : List Char × Option (List Char) :=
  match splitOnce [mark] text with
  | some (before, after) => (before, some after)
  | none => (text, none)

theorem splitMark_append {mark : Char} (after : Option (List Char)) (h : mark ∉ before) :
    splitMark mark (before ++ after.elim [] (mark :: ·)) = (before, after) := by
  cases after with
  | some after => rw [splitMark, Option.elim_some, splitOnce_singleton after h]
  | none =>
      rw [splitMark, Option.elim_none, List.append_nil]
      cases hsplit : splitOnce [mark] before with
      | none => rfl
      | some parts =>
          obtain ⟨front, rest⟩ := parts
          rw [(of_splitOnce_singleton hsplit).2] at h
          exact absurd (List.mem_append_right _ List.mem_cons_self) h

theorem of_splitMark {mark : Char} {after : Option (List Char)} (h : splitMark mark text = (before, after)) :
    mark ∉ before ∧ text = before ++ after.elim [] (mark :: ·) := by
  rw [splitMark] at h
  cases hsplit : splitOnce [mark] text with
  | none =>
      rw [hsplit] at h
      cases h
      exact ⟨splitOnce_singleton_eq_none hsplit, (List.append_nil _).symm⟩
  | some parts =>
      rw [hsplit] at h
      cases h
      exact of_splitOnce_singleton hsplit

/-- White space after the first word does not matter. -/
theorem takeWhile_append_blank (text : List Char) {blank : List Char} (h : ∀ c ∈ blank, isWhiteSpace c) :
    (text ++ blank).takeWhile (fun c => !isWhiteSpace c) = text.takeWhile fun c => !isWhiteSpace c := by
  have hblank : blank.takeWhile (fun c => !isWhiteSpace c) = [] := by
    cases blank with
    | nil => rfl
    | cons c blank => simp [h c List.mem_cons_self]
  rw [List.takeWhile_append, hblank]
  split
  · rename_i hlength
    rw [List.append_nil]
    exact ((List.takeWhile_prefix _).eq_of_length hlength).symm
  · rfl

theorem rtakeWhile_blank (text : List Char) : ∀ c ∈ text.rtakeWhile isWhiteSpace, isWhiteSpace c :=
  fun _ hc => List.mem_rtakeWhile_imp hc

theorem head?_rdropWhile_cons {p : Char → Bool} {c : Char} (text : List Char) (h : p c = false) :
    ((c :: text).rdropWhile p).head? = some c := by
  obtain ⟨dropped, hdropped⟩ := List.rdropWhile_prefix p (c :: text)
  cases hkept : (c :: text).rdropWhile p with
  | nil =>
      have hall := List.rdropWhile_eq_nil_iff.mp hkept c List.mem_cons_self
      rw [h] at hall
      cases hall
  | cons d kept =>
      rw [hkept, List.cons_append] at hdropped
      rw [(List.cons.inj hdropped).1]
      rfl

/-- An unsigned numeral below a bound, in decimal, possibly after a plus sign. -/
def parseUnsigned (bound : Nat) (text : List Char) : Option Nat :=
  let digits := if text.head? = some '+' then text.tail else text
  if digits ≠ [] ∧ digits.all Char.isDigit ∧ Nat.ofDigitChars 10 digits 0 < bound then
    some (Nat.ofDigitChars 10 digits 0)
  else none

theorem parseUnsigned_toDigits {bound n : Nat} (h : n < bound) : parseUnsigned bound (Nat.toDigits 10 n) = some n := by
  have hdigits : ∀ c ∈ Nat.toDigits 10 n, c.isDigit := fun c hc =>
    Nat.isDigit_of_mem_toDigits (by decide) (by decide) hc
  have hplus : (Nat.toDigits 10 n).head? ≠ some '+' := fun hhead =>
    absurd (hdigits _ (List.mem_of_head? hhead)) (by decide)
  have hne : Nat.toDigits 10 n ≠ [] := Nat.toDigits_ne_nil
  rw [parseUnsigned, if_neg hplus, Nat.ofDigitChars_toDigits (by decide) (by decide)]
  exact if_pos ⟨hne, List.all_eq_true.mpr hdigits, h⟩

theorem parseUnsigned_of_unsigned {bound n : Nat} (hplus : text.head? ≠ some '+') :
    parseUnsigned bound text = some n ↔
      text ≠ [] ∧ (∀ c ∈ text, c.isDigit) ∧ Nat.ofDigitChars 10 text 0 = n ∧ n < bound := by
  rw [parseUnsigned, if_neg hplus, Option.ite_none_right_eq_some, List.all_eq_true, Option.some.injEq]
  constructor
  · rintro ⟨⟨hne, hdigits, hbound⟩, rfl⟩
    exact ⟨hne, hdigits, rfl, hbound⟩
  · rintro ⟨hne, hdigits, rfl, hbound⟩
    exact ⟨⟨hne, hdigits, hbound⟩, rfl⟩

/-- What a numeral consists of. -/
theorem of_parseUnsigned_eq_some {bound n : Nat} (h : parseUnsigned bound text = some n) :
    n < bound ∧ (∀ c ∈ text, c.isDigit ∨ c = '+') ∧ ∃ c ∈ text.getLast?, c.isDigit := by
  rw [parseUnsigned, Option.ite_none_right_eq_some] at h
  obtain ⟨⟨hne, hall, hbound⟩, hn⟩ := h
  rw [List.all_eq_true] at hall
  refine ⟨Option.some.inj hn ▸ hbound, ?_⟩
  split at hall
  · rename_i hplus
    rw [if_pos hplus] at hne
    obtain ⟨rest, rfl⟩ := List.head?_eq_some_iff.mp hplus
    rw [List.tail_cons] at hne hall
    refine ⟨fun c hc => ?_, rest.getLast hne, ?_, hall _ (List.getLast_mem hne)⟩
    · rcases List.mem_cons.mp hc with rfl | hrest
      · exact .inr rfl
      · exact .inl (hall c hrest)
    · rw [Option.mem_def, List.getLast?_cons_of_ne_nil hne, List.getLast?_eq_some_getLast hne]
  · rename_i hplus
    rw [if_neg hplus] at hne
    exact ⟨fun c hc => .inl (hall c hc), text.getLast hne, List.getLast?_eq_some_getLast hne,
      hall _ (List.getLast_mem hne)⟩

end TextScan
