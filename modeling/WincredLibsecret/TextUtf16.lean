import WincredLibsecret.TextCodec

/-! UTF-16: the code units of a text, their reader that puts a replacement character for every lone surrogate, and
the little-endian bytes of code units. Reading the units of a text gives the text back. Of UTF-8 only what tells it
from UTF-16 is stated: which bytes occur in it. -/

namespace TextCodec

/-- The code units of a character: one, or a pair of surrogates. -/
def utf16Units (c : Char) : List UInt16 :=
  if c.toNat < 0x10000 then [UInt16.ofNat c.toNat]
  else [UInt16.ofNat (0xD800 + (c.toNat - 0x10000) / 0x400), UInt16.ofNat (0xDC00 + (c.toNat - 0x10000) % 0x400)]

def encodeUtf16 (text : String) : List UInt16 := text.toList.flatMap utf16Units

def replacementCharacter : Char := '\uFFFD'

/-- A high surrogate followed by a low one is a character beyond the first 65536; any other surrogate is lost. -/
def decodeUtf16Lossy : List UInt16 → List Char
  | [] => []
  | [unit] => if unit.toNat < 0xD800 ∨ 0xDFFF < unit.toNat then [Char.ofNat unit.toNat] else [replacementCharacter]
  | unit :: next :: units =>
      if unit.toNat < 0xD800 ∨ 0xDFFF < unit.toNat then Char.ofNat unit.toNat :: decodeUtf16Lossy (next :: units)
      else if unit.toNat < 0xDC00 ∧ 0xDC00 ≤ next.toNat ∧ next.toNat ≤ 0xDFFF then
        Char.ofNat (0x10000 + (unit.toNat - 0xD800) * 0x400 + (next.toNat - 0xDC00)) :: decodeUtf16Lossy units
      else replacementCharacter :: decodeUtf16Lossy (next :: units)

theorem toNat_lt_surrogates (c : Char) : c.toNat < 0xD800 ∨ 0xDFFF < c.toNat ∧ c.toNat < 0x110000 := c.valid

theorem decodeUtf16Lossy_cons {unit : UInt16} (units : List UInt16) (h : unit.toNat < 0xD800 ∨ 0xDFFF < unit.toNat) :
    decodeUtf16Lossy (unit :: units) = Char.ofNat unit.toNat :: decodeUtf16Lossy units := by
  cases units with
  | nil => simp only [decodeUtf16Lossy, if_pos h]
  | cons next units => rw [decodeUtf16Lossy, if_pos h]

theorem decodeUtf16Lossy_append (c : Char) (units : List UInt16) :
    decodeUtf16Lossy (utf16Units c ++ units) = c :: decodeUtf16Lossy units := by
  have hvalid := toNat_lt_surrogates c
  rw [utf16Units]
  split
  · rename_i hshort
    have hunit : (UInt16.ofNat c.toNat).toNat = c.toNat := by
      rw [UInt16.toNat_ofNat']
      omega
    rw [List.singleton_append, decodeUtf16Lossy_cons _ (by omega), hunit, Char.ofNat_toNat]
  · rename_i hlong
    have hhigh : (UInt16.ofNat (0xD800 + (c.toNat - 0x10000) / 0x400)).toNat =
        0xD800 + (c.toNat - 0x10000) / 0x400 := by
      rw [UInt16.toNat_ofNat']
      omega
    have hlow : (UInt16.ofNat (0xDC00 + (c.toNat - 0x10000) % 0x400)).toNat = 0xDC00 + (c.toNat - 0x10000) % 0x400 := by
      rw [UInt16.toNat_ofNat']
      omega
    have hvalue : 0x10000 + (0xD800 + (c.toNat - 0x10000) / 0x400 - 0xD800) * 0x400 +
        (0xDC00 + (c.toNat - 0x10000) % 0x400 - 0xDC00) = c.toNat := by omega
    rw [List.cons_append, List.singleton_append, decodeUtf16Lossy, hhigh, hlow, if_neg (by omega), if_pos (by omega),
      hvalue, Char.ofNat_toNat]

theorem decodeUtf16Lossy_encodeUtf16 (text : String) : decodeUtf16Lossy (encodeUtf16 text) = text.toList := by
  rw [encodeUtf16]
  induction text.toList with
  | nil => rfl
  | cons c chars ih => rw [List.flatMap_cons, decodeUtf16Lossy_append, ih]

/-- A byte order mark among the units comes from a byte order mark in the text. -/
theorem head?_encodeUtf16 {text : String} (h : (encodeUtf16 text).head? = some 0xFEFF) :
    text.toList.head? = some '\uFEFF' := by
  rw [encodeUtf16] at h
  cases htext : text.toList with
  | nil => rw [htext] at h; cases h
  | cons c chars =>
      have hvalid := toNat_lt_surrogates c
      rw [htext, List.flatMap_cons, utf16Units] at h
      have hmark : '\uFEFF'.toNat = 0xFEFF := rfl
      have hvalue : (0xFEFF : UInt16).toNat = 0xFEFF := rfl
      rw [List.head?_cons, Option.some.injEq, ← Char.toNat_inj, hmark]
      split at h
      · have hunit := congrArg UInt16.toNat (Option.some.inj h)
        rw [UInt16.toNat_ofNat', hvalue] at hunit
        omega
      · have hunit := congrArg UInt16.toNat (Option.some.inj h)
        rw [UInt16.toNat_ofNat', hvalue] at hunit
        omega

def leBytes (unit : UInt16) : List UInt8 := [UInt8.ofNat (unit.toNat % 256), UInt8.ofNat (unit.toNat / 256)]

def utf16LeBytes (text : String) : List UInt8 := (encodeUtf16 text).flatMap leBytes

/-- The bytes two by two; an odd byte at the end is left out. -/
def bytePairs : List UInt8 → List (UInt8 × UInt8)
  | low :: high :: bytes => (low, high) :: bytePairs bytes
  | _ => []

theorem length_bytePairs : ∀ bytes : List UInt8, (bytePairs bytes).length = bytes.length / 2
  | [] => rfl
  | [_] => by simp [bytePairs]
  | _ :: _ :: bytes => by
      rw [bytePairs, List.length_cons, length_bytePairs bytes, List.length_cons, List.length_cons]
      omega

theorem mem_of_mem_bytePairs : ∀ {bytes : List UInt8} {pair : UInt8 × UInt8}, pair ∈ bytePairs bytes → pair.2 ∈ bytes
  | [], _, h => by cases h
  | [_], _, h => by cases h
  | _ :: _ :: _, _, h => by
      rcases List.mem_cons.mp h with rfl | hrest
      · exact List.mem_cons_of_mem _ List.mem_cons_self
      · exact List.mem_cons_of_mem _ (List.mem_cons_of_mem _ (mem_of_mem_bytePairs hrest))

def unitOfPair (pair : UInt8 × UInt8) : UInt16 := UInt16.ofNat (pair.1.toNat + 256 * pair.2.toNat)

theorem unitOfPair_leBytes (unit : UInt16) :
    unitOfPair (UInt8.ofNat (unit.toNat % 256), UInt8.ofNat (unit.toNat / 256)) = unit := by
  have hsize : unit.toNat < 65536 := unit.toNat_lt
  rw [← UInt16.toNat_inj, unitOfPair, UInt16.toNat_ofNat', UInt8.toNat_ofNat', UInt8.toNat_ofNat']
  omega

theorem bytePairs_flatMap_leBytes (units : List UInt16) : bytePairs (units.flatMap leBytes) =
    units.map fun unit => (UInt8.ofNat (unit.toNat % 256), UInt8.ofNat (unit.toNat / 256)) := by
  induction units with
  | nil => rfl
  | cons unit units ih => rw [List.flatMap_cons, leBytes, List.map_cons, ← ih]; rfl

theorem length_flatMap_leBytes (units : List UInt16) : (units.flatMap leBytes).length = 2 * units.length := by
  induction units with
  | nil => rfl
  | cons unit units ih =>
      rw [List.flatMap_cons, List.length_append, ih, List.length_cons, leBytes]
      simp only [List.length_cons, List.length_nil]
      omega

theorem map_unitOfPair_bytePairs (units : List UInt16) :
    (bytePairs (units.flatMap leBytes)).map unitOfPair = units := by
  rw [bytePairs_flatMap_leBytes, List.map_map]
  conv_rhs => rw [← List.map_id units]
  exact List.map_congr_left fun unit _ => unitOfPair_leBytes unit

/-- The high byte of a unit is zero exactly for the first 256 characters. -/
theorem high_byte_eq_zero_iff (unit : UInt16) : UInt8.ofNat (unit.toNat / 256) = 0 ↔ unit < 0x100 := by
  have hsize : unit.toNat < 65536 := unit.toNat_lt
  have hvalue : (0x100 : UInt16).toNat = 0x100 := rfl
  rw [← UInt8.toNat_inj, UInt8.toNat_ofNat', UInt16.lt_iff_toNat_lt, hvalue]
  simp only [UInt8.toNat_zero]
  omega

theorem utf8Bytes_eq_flatMap (text : String) : utf8Bytes text = text.toList.flatMap String.utf8EncodeChar := by
  conv_lhs => rw [← String.ofList_toList (s := text)]
  rw [utf8Bytes, String.toByteArray_ofList, List.utf8Encode, List.data_toByteArray]

theorem ofNat_byte {n : Nat} (h : n < 255) : UInt8.ofNat n ≠ 0xFF ∧ (UInt8.ofNat n = 0 → n = 0) := by
  have hvalue : (UInt8.ofNat n).toNat = n := by
    rw [UInt8.toNat_ofNat']
    omega
  have hmax : (0xFF : UInt8).toNat = 255 := rfl
  rw [ne_eq, ← UInt8.toNat_inj, ← UInt8.toNat_inj, hvalue, hmax, UInt8.toNat_zero]
  exact ⟨by omega, id⟩

/-- A byte of UTF-8 is zero only as the null character, and never 255. -/
theorem of_mem_utf8EncodeChar {c : Char} {byte : UInt8} (h : byte ∈ String.utf8EncodeChar c) :
    byte ≠ 0xFF ∧ (byte = 0 → c = '\x00') := by
  have hbyte : ∃ n, byte = UInt8.ofNat n ∧ n < 255 ∧ (n = 0 → c.val.toNat = 0) := by
    rw [String.utf8EncodeChar] at h
    -- Every byte of a longer encoding has its highest bit set.
    split at h
    · exact ⟨_, List.mem_singleton.mp h, by omega, id⟩
    · split at h
      · simp only [List.mem_cons, List.not_mem_nil, or_false] at h
        rcases h with rfl | rfl <;> exact ⟨_, rfl, by omega, by omega⟩
      · split at h
        · simp only [List.mem_cons, List.not_mem_nil, or_false] at h
          rcases h with rfl | rfl | rfl <;> exact ⟨_, rfl, by omega, by omega⟩
        · simp only [List.mem_cons, List.not_mem_nil, or_false] at h
          rcases h with rfl | rfl | rfl | rfl <;> exact ⟨_, rfl, by omega, by omega⟩
  obtain ⟨n, rfl, hlt, hzero⟩ := hbyte
  obtain ⟨hmax, hnull⟩ := ofNat_byte hlt
  refine ⟨hmax, fun h => ?_⟩
  rw [← Char.toNat_inj]
  exact hzero (hnull h)

theorem of_mem_utf8Bytes {text : String} {byte : UInt8} (h : byte ∈ utf8Bytes text) :
    byte ≠ 0xFF ∧ (byte = 0 → '\x00' ∈ text.toList) := by
  rw [utf8Bytes_eq_flatMap] at h
  obtain ⟨c, hc, hbyte⟩ := List.mem_flatMap.mp h
  obtain ⟨hmax, hzero⟩ := of_mem_utf8EncodeChar hbyte
  exact ⟨hmax, fun hnull => hzero hnull ▸ hc⟩

end TextCodec
