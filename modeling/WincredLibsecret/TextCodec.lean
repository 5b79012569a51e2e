import Mathlib

/-! The bytes of a text, fixed-width hexadecimal numbers and URL-safe base64 without padding, each with
its reader. The base64 reader is strict: it knows no padding character and refuses a last symbol with bits that
carry no data, so that every byte string has exactly one accepted text. -/

namespace TextCodec

/-- A character of a separated list is the separator or belongs to one of the parts. -/
theorem mem_intercalate {c separator : Char} {parts : List (List Char)}
    (hmem : c ∈ [separator].intercalate parts) : c = separator ∨ ∃ part ∈ parts, c ∈ part := by
  induction parts with
  | nil => simp [List.intercalate] at hmem
  | cons part parts ih =>
      cases parts with
      | nil => exact Or.inr ⟨part, List.mem_singleton_self _, by simpa [List.intercalate] using hmem⟩
      | cons next parts =>
          have hmem' : c ∈ part ∨ c = separator ∨ c ∈ [separator].intercalate (next :: parts) := by
            simpa [List.intercalate] using hmem
          rcases hmem' with hpart | hseparator | hrest
          · exact Or.inr ⟨part, List.mem_cons_self, hpart⟩
          · exact Or.inl hseparator
          · exact (ih hrest).imp_right fun ⟨other, hother, hc⟩ =>
              ⟨other, List.mem_cons_of_mem _ hother, hc⟩

/-- The bytes of a text. -/
def utf8Bytes (text : String) : List UInt8 := text.toByteArray.data.toList

/-- The text of a byte string, if it is valid UTF-8. -/
def textOfBytes (bytes : List UInt8) : Option String := String.fromUTF8? ⟨bytes.toArray⟩

@[simp] theorem length_utf8Bytes (text : String) : (utf8Bytes text).length = text.utf8ByteSize := rfl

theorem textOfBytes_eq_some {bytes : List UInt8} {text : String} :
    textOfBytes bytes = some text ↔ utf8Bytes text = bytes := by
  unfold textOfBytes String.fromUTF8? utf8Bytes
  constructor
  · intro h
    split at h
    · cases h
      simp [String.fromUTF8]
    · cases h
  · rintro rfl
    exact dif_pos text.isValidUTF8

/-- The `width` lowest hexadecimal digits of a number, most significant first. -/
def hexDigits : Nat → Nat → List Char
  | 0, _ => []
  | width + 1, n => hexDigits width (n / 16) ++ [Nat.digitChar (n % 16)]

/-- The value of a hexadecimal digit of either case. -/
def hexValue (c : Char) : Option Nat :=
  if '0' ≤ c ∧ c ≤ '9' then some (c.toNat - '0'.toNat)
  else if 'a' ≤ c ∧ c ≤ 'f' then some (c.toNat - 'a'.toNat + 10)
  else if 'A' ≤ c ∧ c ≤ 'F' then some (c.toNat - 'A'.toNat + 10)
  else none

/-- Reads hexadecimal digits behind the number read so far. -/
def readHexFrom (read : Nat) : List Char → Option Nat
  | [] => some read
  | c :: rest => (hexValue c).bind fun digit => readHexFrom (16 * read + digit) rest

def readHex : List Char → Option Nat := readHexFrom 0

@[simp] theorem length_hexDigits (width n : Nat) : (hexDigits width n).length = width := by
  induction width generalizing n with
  | zero => rfl
  | succ width ih => rw [hexDigits, List.length_append, ih, List.length_singleton]

/-- The digits of a number split where a power of sixteen splits it. -/
theorem hexDigits_add (high low n : Nat) :
    hexDigits (high + low) n = hexDigits high (n / 16 ^ low) ++ hexDigits low n := by
  induction low generalizing n with
  | zero => simp [hexDigits]
  | succ low ih =>
      rw [Nat.add_succ, hexDigits, ih, hexDigits, List.append_assoc, Nat.div_div_eq_div_mul, ← pow_succ']

theorem hexDigits_succ (width n : Nat) :
    hexDigits (width + 1) n = Nat.digitChar (n / 16 ^ width % 16) :: hexDigits width n := by
  rw [Nat.add_comm, hexDigits_add]
  rfl

theorem hexDigits_mod (width n : Nat) : hexDigits width (n % 16 ^ width) = hexDigits width n := by
  induction width generalizing n with
  | zero => rfl
  | succ width ih =>
      rw [hexDigits, hexDigits, pow_succ', Nat.mod_mul_right_div_self, ih, Nat.mod_mod_of_dvd _ (Dvd.intro _ rfl)]

theorem hexDigits_mul_add (high low x y : Nat) (hy : y < 16 ^ low) :
    hexDigits (high + low) (x * 16 ^ low + y) = hexDigits high x ++ hexDigits low y := by
  have hdiv : (x * 16 ^ low + y) / 16 ^ low = x := by
    rw [Nat.mul_comm, Nat.mul_add_div (Nat.pow_pos (by decide)), Nat.div_eq_of_lt hy, Nat.add_zero]
  rw [hexDigits_add, hdiv, ← hexDigits_mod low (x * 16 ^ low + y), Nat.mul_comm, Nat.mul_add_mod,
    Nat.mod_eq_of_lt hy]

theorem hexValue_digitChar : ∀ n : Fin 16, hexValue (Nat.digitChar n) = some n.val := by decide

theorem readHexFrom_append (read : Nat) (left right : List Char) :
    readHexFrom read (left ++ right) = (readHexFrom read left).bind fun n => readHexFrom n right := by
  induction left generalizing read with
  | nil => rfl
  | cons c left ih =>
      rw [List.cons_append, readHexFrom, readHexFrom, Option.bind_assoc]
      congr 1
      funext digit
      exact ih _

theorem readHex_hexDigits (width n : Nat) (hn : n < 16 ^ width) : readHex (hexDigits width n) = some n := by
  induction width generalizing n with
  | zero =>
      rw [pow_zero, Nat.lt_one_iff] at hn
      rw [hn]
      rfl
  | succ width ih =>
      have hdiv : n / 16 < 16 ^ width := Nat.div_lt_of_lt_mul (by rwa [pow_succ'] at hn)
      rw [readHex, hexDigits, readHexFrom_append]
      rw [readHex] at ih
      rw [ih _ hdiv, Option.bind_some, readHexFrom,
        hexValue_digitChar ⟨n % 16, Nat.mod_lt _ (by decide)⟩, Option.bind_some, readHexFrom]
      congr 1
      exact Nat.div_add_mod n 16

/-- A number below the power of its width is read off its digits. -/
theorem hexDigits_inj {width x y : Nat} (hx : x < 16 ^ width) (hy : y < 16 ^ width)
    (h : hexDigits width x = hexDigits width y) : x = y := by
  have hread := congrArg readHex h
  rw [readHex_hexDigits width x hx, readHex_hexDigits width y hy] at hread
  exact Option.some.inj hread

theorem digitChar_ne : ∀ n : Fin 16, Nat.digitChar n ≠ '-' ∧ Nat.digitChar n ≠ '/' := by decide

/-- Neither separator occurs among hexadecimal digits. -/
theorem separator_notMem_hexDigits (width n : Nat) :
    '-' ∉ hexDigits width n ∧ '/' ∉ hexDigits width n := by
  induction width generalizing n with
  | zero => exact ⟨List.not_mem_nil, List.not_mem_nil⟩
  | succ width ih =>
      have hdigit := digitChar_ne ⟨n % 16, Nat.mod_lt _ (by decide)⟩
      obtain ⟨hdash, hslash⟩ := ih (n / 16)
      simp only [hexDigits, List.mem_append, List.mem_singleton, not_or]
      exact ⟨⟨hdash, hdigit.1.symm⟩, hslash, hdigit.2.symm⟩

def base64Alphabet : List Char :=
  "ABCDEFGHIJKLMNOPQRSTUVWXYZabcdefghijklmnopqrstuvwxyz0123456789-_".toList

def base64Char (n : Nat) : Char := base64Alphabet.getD n 'A'

def base64Value (c : Char) : Option Nat := (List.range 64).find? fun n => base64Char n = c

theorem base64Value_char : ∀ n : Fin 64, base64Value (base64Char n) = some n.val := by
  decide +kernel

theorem base64Value_eq (n : Nat) (hn : n < 64) : base64Value (base64Char n) = some n :=
  base64Value_char ⟨n, hn⟩

theorem base64Char_of_value {c : Char} {n : Nat} (h : base64Value c = some n) :
    base64Char n = c ∧ n < 64 := by
  have hfound := List.find?_some h
  have hmem := List.mem_of_find?_eq_some h
  exact ⟨by simpa using hfound, List.mem_range.mp hmem⟩

theorem slash_notMem_base64Alphabet : ∀ n : Fin 64, base64Char n ≠ '/' := by decide +kernel

def base64Encode : List UInt8 → List Char
  | a :: b :: c :: rest =>
      base64Char (a.toNat / 4) :: base64Char (a.toNat % 4 * 16 + b.toNat / 16) ::
        base64Char (b.toNat % 16 * 4 + c.toNat / 64) :: base64Char (c.toNat % 64) :: base64Encode rest
  | [a, b] =>
      [base64Char (a.toNat / 4), base64Char (a.toNat % 4 * 16 + b.toNat / 16),
        base64Char (b.toNat % 16 * 4)]
  | [a] => [base64Char (a.toNat / 4), base64Char (a.toNat % 4 * 16)]
  | [] => []

def base64Decode : List Char → Option (List UInt8)
  | w :: x :: y :: z :: rest => do
      let p ← base64Value w
      let q ← base64Value x
      let r ← base64Value y
      let s ← base64Value z
      let bytes ← base64Decode rest
      return UInt8.ofNat (p * 4 + q / 16) :: UInt8.ofNat (q % 16 * 16 + r / 4) ::
        UInt8.ofNat (r % 4 * 64 + s) :: bytes
  | [w, x, y] => do
      let p ← base64Value w
      let q ← base64Value x
      let r ← base64Value y
      -- the last symbol may not carry bits beyond the data
      if r % 4 = 0 then return [UInt8.ofNat (p * 4 + q / 16), UInt8.ofNat (q % 16 * 16 + r / 4)] else none
  | [w, x] => do
      let p ← base64Value w
      let q ← base64Value x
      if q % 16 = 0 then return [UInt8.ofNat (p * 4 + q / 16)] else none
  | [_] => none
  | [] => some []

theorem base64Decode_encode (bytes : List UInt8) : base64Decode (base64Encode bytes) = some bytes := by
  induction bytes using base64Encode.induct with
  | case1 a b c rest ih =>
      have ha := a.toNat_lt
      have hb := b.toNat_lt
      have hc := c.toNat_lt
      rw [base64Encode, base64Decode, base64Value_eq _ (by omega), base64Value_eq _ (by omega),
        base64Value_eq _ (by omega), base64Value_eq _ (by omega), ih]
      simp only [Option.bind_eq_bind, Option.bind_some, Option.pure_def, Option.some.injEq,
        List.cons.injEq, and_true]
      refine ⟨?_, ?_, ?_⟩ <;> apply UInt8.toNat_inj.mp <;> simp <;> omega
  | case2 a b =>
      have ha := a.toNat_lt
      have hb := b.toNat_lt
      rw [base64Encode, base64Decode, base64Value_eq _ (by omega), base64Value_eq _ (by omega),
        base64Value_eq _ (by omega)]
      simp only [Option.bind_eq_bind, Option.bind_some, Option.pure_def]
      rw [if_pos (by omega)]
      simp only [Option.some.injEq, List.cons.injEq, and_true]
      refine ⟨?_, ?_⟩ <;> apply UInt8.toNat_inj.mp <;> simp <;> omega
  | case3 a =>
      have ha := a.toNat_lt
      rw [base64Encode, base64Decode, base64Value_eq _ (by omega), base64Value_eq _ (by omega)]
      simp only [Option.bind_eq_bind, Option.bind_some, Option.pure_def]
      rw [if_pos (by omega)]
      simp only [Option.some.injEq, List.cons.injEq, and_true]
      apply UInt8.toNat_inj.mp
      simp
      omega
  | case4 => rfl

/-- Every accepted text is the text of the bytes it is read as. -/
theorem base64Encode_decode {text : List Char} {bytes : List UInt8} (h : base64Decode text = some bytes) :
    base64Encode bytes = text := by
  induction text using base64Decode.induct generalizing bytes with
  | case1 w x y z rest ih =>
      simp only [base64Decode, Option.bind_eq_bind, Option.bind_eq_some_iff, Option.pure_def,
        Option.some.injEq] at h
      obtain ⟨p, hp, q, hq, r, hr, s, hs, tail, htail, rfl⟩ := h
      obtain ⟨rfl, hp⟩ := base64Char_of_value hp
      obtain ⟨rfl, hq⟩ := base64Char_of_value hq
      obtain ⟨rfl, hr⟩ := base64Char_of_value hr
      obtain ⟨rfl, hs⟩ := base64Char_of_value hs
      rw [base64Encode, ih htail]
      simp only [UInt8.toNat_ofNat', List.cons.injEq, and_true]
      refine ⟨?_, ?_, ?_, ?_⟩ <;> congr 1 <;> omega
  | case2 w x y =>
      simp only [base64Decode, Option.bind_eq_bind, Option.bind_eq_some_iff, Option.pure_def] at h
      obtain ⟨p, hp, q, hq, r, hr, h⟩ := h
      obtain ⟨rfl, hp⟩ := base64Char_of_value hp
      obtain ⟨rfl, hq⟩ := base64Char_of_value hq
      obtain ⟨rfl, hr⟩ := base64Char_of_value hr
      split at h
      · cases h
        rw [base64Encode]
        simp only [UInt8.toNat_ofNat', List.cons.injEq, and_true]
        refine ⟨?_, ?_, ?_⟩ <;> congr 1 <;> omega
      · cases h
  | case3 w x =>
      simp only [base64Decode, Option.bind_eq_bind, Option.bind_eq_some_iff, Option.pure_def] at h
      obtain ⟨p, hp, q, hq, h⟩ := h
      obtain ⟨rfl, hp⟩ := base64Char_of_value hp
      obtain ⟨rfl, hq⟩ := base64Char_of_value hq
      split at h
      · cases h
        rw [base64Encode]
        simp only [UInt8.toNat_ofNat', List.cons.injEq, and_true]
        refine ⟨?_, ?_⟩ <;> congr 1 <;> omega
      · cases h
  | case4 w => cases h
  | case5 =>
      cases h
      rfl

theorem slash_notMem_base64Encode (bytes : List UInt8) : '/' ∉ base64Encode bytes := by
  have hchar : ∀ n, n < 64 → '/' ≠ base64Char n := fun n hn => (slash_notMem_base64Alphabet ⟨n, hn⟩).symm
  induction bytes using base64Encode.induct with
  | case1 a b c rest ih =>
      have ha := a.toNat_lt
      have hb := b.toNat_lt
      have hc := c.toNat_lt
      simp only [base64Encode, List.mem_cons, not_or]
      exact ⟨hchar _ (by omega), hchar _ (by omega), hchar _ (by omega), hchar _ (by omega), ih⟩
  | case2 a b =>
      have ha := a.toNat_lt
      have hb := b.toNat_lt
      simp only [base64Encode, List.mem_cons, not_or]
      exact ⟨hchar _ (by omega), hchar _ (by omega), hchar _ (by omega), List.not_mem_nil⟩
  | case3 a =>
      have ha := a.toNat_lt
      simp only [base64Encode, List.mem_cons, not_or]
      exact ⟨hchar _ (by omega), hchar _ (by omega), List.not_mem_nil⟩
  | case4 => exact List.not_mem_nil

end TextCodec
