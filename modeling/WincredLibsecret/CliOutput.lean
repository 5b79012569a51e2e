import WincredLibsecret.TextUtf16

/-! What other programs print, as the command line tool reads it: UTF-16 behind a byte order mark, UTF-16 without one
where most high bytes at the start are zero, and UTF-8 otherwise. -/

namespace WincredLibsecret.Cli

open TextCodec

/-- The reader of UTF-8 that replaces what is not UTF-8. -/
structure LossyUtf8 where
  decode : List UInt8 → String
  decode_utf8Bytes : ∀ text, decode (utf8Bytes text) = text

def byteOrderMark : List UInt8 := [0xFF, 0xFE]

/-- At least three quarters of the first 64 pairs have a zero high byte. -/
def looksLikeUtf16 (bytes : List UInt8) : Bool :=
  bytes.length ≥ 4 && bytes.length % 2 = 0 &&
    ((bytePairs bytes).take 64).countP (fun pair => pair.2 = 0) * 4 ≥ ((bytePairs bytes).take 64).length * 3

def decodeProcessOutput (lossy : LossyUtf8) (bytes : List UInt8) : String :=
  let marked := byteOrderMark.isPrefixOf bytes
  if marked || looksLikeUtf16 bytes then
    let offset := if marked then 2 else 0
    String.ofList (decodeUtf16Lossy ((bytePairs (bytes.drop offset)).map unitOfPair))
  else lossy.decode bytes

theorem looksLikeUtf16_utf8Bytes {text : String} (h : '\x00' ∉ text.toList) :
    looksLikeUtf16 (utf8Bytes text) = false := by
  have hzero : ((bytePairs (utf8Bytes text)).take 64).countP (fun pair => pair.2 = 0) = 0 := by
    rw [List.countP_eq_zero]
    intro pair hpair hnull
    exact h ((of_mem_utf8Bytes (mem_of_mem_bytePairs (List.mem_of_mem_take hpair))).2 (of_decide_eq_true hnull))
  rw [looksLikeUtf16, hzero, List.length_take, length_bytePairs]
  simp only [ge_iff_le, Bool.and_eq_false_iff, decide_eq_false_iff_not]
  omega

theorem looksLikeUtf16_utf16LeBytes {text : String} (hlength : 2 ≤ (encodeUtf16 text).length)
    (hnarrow : ((encodeUtf16 text).take 64).length * 3 ≤ ((encodeUtf16 text).take 64).countP (· < 0x100) * 4) :
    looksLikeUtf16 (utf16LeBytes text) := by
  rw [looksLikeUtf16, utf16LeBytes, length_flatMap_leBytes, bytePairs_flatMap_leBytes, ← List.map_take, List.countP_map,
    List.length_map]
  have hcount : ((encodeUtf16 text).take 64).countP ((fun pair : UInt8 × UInt8 => decide (pair.2 = 0)) ∘
      fun unit => (UInt8.ofNat (unit.toNat % 256), UInt8.ofNat (unit.toNat / 256))) =
      ((encodeUtf16 text).take 64).countP (· < 0x100) :=
    List.countP_congr fun unit _ => by
      simp only [Function.comp_apply, decide_eq_true_eq, high_byte_eq_zero_iff]
  rw [hcount]
  simp only [ge_iff_le, Bool.and_eq_true, decide_eq_true_eq]
  omega

theorem isPrefixOf_utf8Bytes (text : String) : byteOrderMark.isPrefixOf (utf8Bytes text) = false := by
  rw [Bool.eq_false_iff, ne_eq, List.isPrefixOf_iff_prefix]
  intro hmark
  exact (of_mem_utf8Bytes (hmark.subset List.mem_cons_self)).1 rfl

theorem isPrefixOf_utf16LeBytes {text : String} (h : text.toList.head? ≠ some '\uFEFF') :
    byteOrderMark.isPrefixOf (utf16LeBytes text) = false := by
  rw [Bool.eq_false_iff, ne_eq, List.isPrefixOf_iff_prefix]
  rintro ⟨rest, hrest⟩
  have hunits := congrArg (fun bytes => (bytePairs bytes).map unitOfPair) hrest
  rw [utf16LeBytes, map_unitOfPair_bytePairs] at hunits
  exact h (head?_encodeUtf16 (by rw [← hunits]; rfl))

theorem decode_units (text : String) :
    String.ofList (decodeUtf16Lossy ((bytePairs (utf16LeBytes text)).map unitOfPair)) = text := by
  rw [utf16LeBytes, map_unitOfPair_bytePairs, decodeUtf16Lossy_encodeUtf16, String.ofList_toList]

/-- Every text is read back from UTF-16 with a byte order mark, from UTF-8 without null characters, and from UTF-16
without a mark if three quarters of its sampled code units are below 256. -/
theorem decodeProcessOutput_reads_back (lossy : LossyUtf8) (text : String) :
    decodeProcessOutput lossy (byteOrderMark ++ utf16LeBytes text) = text ∧
    ('\x00' ∉ text.toList → decodeProcessOutput lossy (utf8Bytes text) = text) ∧
    (2 ≤ (encodeUtf16 text).length → text.toList.head? ≠ some '\uFEFF' →
      ((encodeUtf16 text).take 64).length * 3 ≤ ((encodeUtf16 text).take 64).countP (· < 0x100) * 4 →
      decodeProcessOutput lossy (utf16LeBytes text) = text) := by
  refine ⟨?_, fun hnull => ?_, fun hlength hmark hnarrow => ?_⟩
  · have hmarked : byteOrderMark.isPrefixOf (byteOrderMark ++ utf16LeBytes text) = true :=
      List.isPrefixOf_iff_prefix.mpr (List.prefix_append _ _)
    rw [decodeProcessOutput, hmarked]
    exact decode_units text
  · rw [decodeProcessOutput, isPrefixOf_utf8Bytes, looksLikeUtf16_utf8Bytes hnull]
    exact lossy.decode_utf8Bytes text
  · rw [decodeProcessOutput, isPrefixOf_utf16LeBytes hmark, looksLikeUtf16_utf16LeBytes hlength hnarrow]
    exact decode_units text

/-- A reader that gives up on what is not UTF-8. -/
def strictUtf8 : LossyUtf8 where
  decode bytes := (textOfBytes bytes).getD (String.singleton replacementCharacter)
  decode_utf8Bytes text := by rw [textOfBytes_eq_some.mpr rfl, Option.getD_some]

theorem decodeProcessOutput_reads_version :
    decodeProcessOutput strictUtf8 (byteOrderMark ++ utf16LeBytes "2.7") = "2.7" ∧
    decodeProcessOutput strictUtf8 (utf8Bytes "2.7") = "2.7" ∧
      decodeProcessOutput strictUtf8 (utf16LeBytes "2.7") = "2.7" :=
  ⟨(decodeProcessOutput_reads_back strictUtf8 "2.7").1,
    (decodeProcessOutput_reads_back strictUtf8 "2.7").2.1 (by decide),
    (decodeProcessOutput_reads_back strictUtf8 "2.7").2.2 (by decide) (by decide) (by decide)⟩

end WincredLibsecret.Cli
