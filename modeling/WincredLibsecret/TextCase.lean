import WincredLibsecret.TextCodec

/-! Texts without regard to the case of ASCII letters. Hexadecimal digits keep apart, since they are written
in one case only. A base64 text uses both cases of a letter for two groups of six bits, and two byte strings
whose groups differ in that way only have texts that differ in case only. -/

namespace TextCodec

/-- A text with its ASCII letters in lower case. -/
def caseFolded (text : String) : String := String.ofList (text.toList.map Char.toLower)

theorem caseFolded_eq_iff {left right : String} :
    caseFolded left = caseFolded right ↔ left.toList.map Char.toLower = right.toList.map Char.toLower :=
  ⟨fun h => String.ofList_injective h, fun h => congrArg String.ofList h⟩

theorem toLower_eq_slash {c : Char} : c.toLower = '/' ↔ c = '/' := by
  constructor
  · intro h
    have halpha := Char.isAlpha_toLower_eq_isAlpha c
    rw [h] at halpha
    by_cases hupper : c.isUpper
    · simp [Char.isAlpha, hupper] at halpha
    · rwa [Char.toLower_eq_of_not_isUpper hupper] at h
  · rintro rfl
    rfl

theorem map_toLower_intercalate (separator : Char) (parts : List (List Char)) :
    ([separator].intercalate parts).map Char.toLower =
      [separator.toLower].intercalate (parts.map (List.map Char.toLower)) := by
  induction parts with
  | nil => rfl
  | cons part parts ih =>
      cases parts with
      | nil => simp [List.intercalate]
      | cons next parts => simpa [List.intercalate] using ih

theorem toLower_digitChar : ∀ n : Fin 16, (Nat.digitChar n).toLower = Nat.digitChar n := by decide

theorem map_toLower_hexDigits (width n : Nat) : (hexDigits width n).map Char.toLower = hexDigits width n := by
  induction width generalizing n with
  | zero => rfl
  | succ width ih =>
      rw [hexDigits, List.map_append, ih, List.map_singleton, toLower_digitChar ⟨n % 16, Nat.mod_lt _ (by decide)⟩]

/-- The groups of six bits of a byte string, the last one filled up with zeros. -/
def sextets : List UInt8 → List Nat
  | a :: b :: c :: rest =>
      a.toNat / 4 :: (a.toNat % 4 * 16 + b.toNat / 16) :: (b.toNat % 16 * 4 + c.toNat / 64) :: c.toNat % 64 ::
        sextets rest
  | [a, b] => [a.toNat / 4, a.toNat % 4 * 16 + b.toNat / 16, b.toNat % 16 * 4]
  | [a] => [a.toNat / 4, a.toNat % 4 * 16]
  | [] => []

/-- Two groups of six bits that are equal, or whose symbols are the two cases of a letter. -/
def CaseTwins (m n : Nat) : Prop := m = n ∨ (m < 26 ∧ n = m + 26) ∨ (n < 26 ∧ m = n + 26)

instance (m n : Nat) : Decidable (CaseTwins m n) := inferInstanceAs (Decidable (_ ∨ _))

theorem base64Encode_eq (bytes : List UInt8) : base64Encode bytes = (sextets bytes).map base64Char := by
  induction bytes using base64Encode.induct with
  | case1 a b c rest ih => simp [base64Encode, sextets, ih]
  | case2 | case3 | case4 => simp [base64Encode, sextets]

theorem sextets_lt (bytes : List UInt8) : ∀ n ∈ sextets bytes, n < 64 := by
  induction bytes using sextets.induct with
  | case1 a b c rest ih =>
      have ha := a.toNat_lt
      have hb := b.toNat_lt
      have hc := c.toNat_lt
      simp only [sextets, List.forall_mem_cons]
      exact ⟨by omega, by omega, by omega, by omega, ih⟩
  | case2 a b =>
      have ha := a.toNat_lt
      have hb := b.toNat_lt
      simp only [sextets, List.forall_mem_cons]
      exact ⟨by omega, by omega, by omega, nofun⟩
  | case3 a =>
      have ha := a.toNat_lt
      simp only [sextets, List.forall_mem_cons]
      exact ⟨by omega, by omega, nofun⟩
  | case4 => exact nofun

theorem toLower_base64Char :
    ∀ n : Fin 64, (base64Char n).toLower = base64Char (if n.val < 26 then n + 26 else n) := by decide +kernel

theorem toLower_base64Char_eq_iff {m n : Nat} (hm : m < 64) (hn : n < 64) :
    (base64Char m).toLower = (base64Char n).toLower ↔ CaseTwins m n := by
  have hchar : ∀ {i j : Nat}, i < 64 → j < 64 → (base64Char i = base64Char j ↔ i = j) := by
    intro i j hi hj
    refine ⟨fun h => ?_, congrArg base64Char⟩
    have hvalue := congrArg base64Value h
    rw [base64Value_eq i hi, base64Value_eq j hj] at hvalue
    exact Option.some.inj hvalue
  rw [toLower_base64Char ⟨m, hm⟩, toLower_base64Char ⟨n, hn⟩]
  simp only
  rw [hchar (by split_ifs <;> omega) (by split_ifs <;> omega), CaseTwins]
  split_ifs <;> omega

theorem map_toLower_base64Char {left right : List Nat} (hleft : ∀ n ∈ left, n < 64) (hright : ∀ n ∈ right, n < 64) :
    (left.map base64Char).map Char.toLower = (right.map base64Char).map Char.toLower ↔
      List.Forall₂ CaseTwins left right := by
  induction left generalizing right with
  | nil => cases right <;> simp
  | cons m left ih =>
      cases right with
      | nil => simp
      | cons n right =>
          rw [List.forall_mem_cons] at hleft hright
          simp only [List.map_cons, List.cons.injEq, List.forall₂_cons]
          exact and_congr (toLower_base64Char_eq_iff hleft.1 hright.1) (ih hleft.2 hright.2)

/-- Two base64 texts differ in case only exactly if the groups of their bytes are pairwise equal or twins. -/
theorem map_toLower_base64Encode {left right : List UInt8} :
    (base64Encode left).map Char.toLower = (base64Encode right).map Char.toLower ↔
      List.Forall₂ CaseTwins (sextets left) (sextets right) := by
  rw [base64Encode_eq, base64Encode_eq]
  exact map_toLower_base64Char (sextets_lt left) (sextets_lt right)

end TextCodec
