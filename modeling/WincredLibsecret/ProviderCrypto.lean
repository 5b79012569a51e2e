import WincredLibsecret.CborFormat
import WincredLibsecret.KeyDerivation
import WincredLibsecret.ProviderSession

/-! The key agreement of encrypted sessions. The arithmetic of big numbers is that of the naturals, SHA-256
is any function to 32 bytes, and the exponent the server draws is a parameter. A step that would panic in
the source, a subtraction below zero or a copy between slices of different lengths, has no result here. -/

namespace WincredLibsecret

open Cbor KeyDerivation

def fromBytesBe (bytes : Blob) : Nat := beValue bytes

/-- As few bytes as hold the number, and one for zero. -/
def toBytesBe (n : Nat) : Blob := beBytes (Nat.log2 n / 8 + 1) n

def modpow (base exponent modulus : Nat) : Nat := base ^ exponent % modulus

def dhGroupBytes : Nat := 128

/-- The pieces of the prime's hexadecimal text, each with its number of digits. -/
def dhPrimeHex : List (Nat × Nat) :=
  [(48, 0xFFFFFFFFFFFFFFFFC90FDAA22168C234C4C6628B80DC1CD1),
    (47, 0x29024E088A67CC74020BBEA63B139B22514A08798E3404D),
    (46, 0xDEF9519B3CD3A431B302B0A6DF25F14374FE1356D6D51C),
    (51, 0x245E485B576625E7EC6F44C42E9A637ED6B0BFF5CB6F406B7ED),
    (48, 0xEE386BFB5A899FA5AE9F24117C4B1FE649286651ECE65381),
    (16, 0xFFFFFFFFFFFFFFFF)]

def dhPrime : Nat := dhPrimeHex.foldl (fun value piece => value * 16 ^ piece.1 + piece.2) 0

theorem lt_of_toBytesBe_width (n : Nat) : n < 256 ^ (Nat.log2 n / 8 + 1) := by
  calc n < 2 ^ (Nat.log2 n + 1) := Nat.lt_log2_self
    _ ≤ 2 ^ (8 * (Nat.log2 n / 8 + 1)) := Nat.pow_le_pow_right (by decide) (by omega)
    _ = 256 ^ (Nat.log2 n / 8 + 1) := by rw [Nat.pow_mul]

theorem fromBytesBe_toBytesBe (n : Nat) : fromBytesBe (toBytesBe n) = n := by
  rw [fromBytesBe, toBytesBe, beValue_beBytes, Nat.mod_eq_of_lt (lt_of_toBytesBe_width n)]

theorem length_toBytesBe_le {n width : Nat} (hwidth : 0 < width) (hn : n < 256 ^ width) :
    (toBytesBe n).length ≤ width := by
  rw [toBytesBe, length_beBytes]
  rcases Nat.eq_zero_or_pos n with rfl | hpos
  · rw [Nat.log2_zero]
    omega
  · have hlog : Nat.log2 n < 8 * width := by
      rw [Nat.log2_lt hpos.ne', Nat.pow_mul]
      exact hn
    omega

theorem beBytes_zero (width : Nat) : beBytes width 0 = List.replicate width 0 := by
  induction width with
  | zero => rfl
  | succ width ih =>
      rw [beBytes, Nat.zero_div, ih, List.replicate_succ']
      rfl

/-- A longer encoding has zeros in front. -/
theorem replicate_append_beBytes (zeros : Nat) {width n : Nat} (hn : n < 256 ^ width) :
    List.replicate zeros 0 ++ beBytes width n = beBytes (zeros + width) n := by
  induction width generalizing n with
  | zero =>
      obtain rfl : n = 0 := by simpa using hn
      rw [beBytes, List.append_nil, Nat.add_zero, beBytes_zero]
  | succ width ih =>
      have hdiv : n / 256 < 256 ^ width := by
        rw [Nat.div_lt_iff_lt_mul (by decide)]
        exact hn
      rw [beBytes, ← List.append_assoc, ih hdiv]
      rfl

theorem dhPrime_lt : dhPrime < 256 ^ dhGroupBytes := by decide +kernel

theorem dhPrime_pos : 0 < dhPrime := by decide +kernel

/-- Copies a source into the places from `start` to `stop`, which have to be as many. -/
def copyFromSlice (array : Blob) (start stop : Nat) (source : Blob) : Option Blob :=
  if start ≤ stop ∧ stop ≤ array.length ∧ stop - start = source.length then
    some (array.take start ++ source ++ array.drop stop)
  else none

section

variable (sha256 : Blob → Vector UInt8 32)

def hmacSha256 (key value : Blob) : Option (Vector UInt8 32) := do
  let blockSize := 64
  let zeros := List.replicate blockSize 0
  let paddedKey ←
    if blockSize < key.length then
      let digest := (sha256 key).toList
      copyFromSlice zeros 0 digest.length digest
    else copyFromSlice zeros 0 key.length key
  let inner := paddedKey.map (· ^^^ 0x36) ++ value
  let outer := paddedKey.map (· ^^^ 0x5c) ++ (sha256 inner).toList
  some (sha256 outer)

def deriveAesKey (sharedSecret : Blob) : Option (Vector UInt8 16) := do
  let pseudorandomKey ← hmacSha256 sha256 (List.replicate 32 0) sharedSecret
  let output ← hmacSha256 sha256 pseudorandomKey.toList [1]
  some ((output.take 16).cast rfl)

/-- The shared number is padded to the width of the group. -/
def deriveDhAesKey (shared : Nat) : Option (Vector UInt8 16) := do
  let encoded := toBytesBe shared
  let start ← if encoded.length ≤ dhGroupBytes then some (dhGroupBytes - encoded.length) else none
  let padded ← copyFromSlice (List.replicate dhGroupBytes 0) start dhGroupBytes encoded
  deriveAesKey sha256 padded

/-- The server's side of the handshake, with the exponent it draws. -/
def SessionKey.openDh (exponent : Nat) (clientPublic : Blob) : Option (Except ProviderError (SessionKey × Blob)) :=
  if clientPublic.isEmpty ∨ 128 < clientPublic.length then
    some (.error (.invalidRequest "invalid DH public key"))
  else
    let client := fromBytesBe clientPublic
    if client < 2 ∨ dhPrime - 2 ≤ client then some (.error (.invalidRequest "invalid DH public key"))
    else do
      let privateNumber := fromBytesBe (toBytesBe exponent)
      let server := modpow 2 privateNumber dhPrime
      let shared := modpow client privateNumber dhPrime
      let key ← deriveDhAesKey sha256 shared
      some (.ok (.dh key, toBytesBe server))

/-- The key of a client that follows the specification, from its exponent and the server's answer. -/
def clientKey (exponent : Nat) (serverPublic : Blob) : Blob :=
  let shared := fromBytesBe serverPublic ^ exponent % dhPrime
  hkdf sha256 64 none [] 16 (beBytes 128 shared)

variable {sha256}

theorem copyFromSlice_start (array source : Blob) (h : source.length ≤ array.length) :
    copyFromSlice array 0 source.length source = some (source ++ array.drop source.length) := by
  rw [copyFromSlice, if_pos ⟨Nat.zero_le _, h, rfl⟩]
  rfl

theorem hmacSha256_eq (key value : Blob) : hmacSha256 sha256 key value = some (hmac sha256 64 key value) := by
  by_cases hlong : 64 < key.length
  · have hdigest : (sha256 key).toList.length ≤ (List.replicate 64 (0 : UInt8)).length := by simp
    simp only [hmacSha256, hmac, blockKey, if_pos hlong]
    rw [copyFromSlice_start _ _ hdigest, List.drop_replicate]
    rfl
  · have hkey : key.length ≤ (List.replicate 64 (0 : UInt8)).length := by
      rw [List.length_replicate]
      omega
    simp only [hmacSha256, hmac, blockKey, if_neg hlong]
    rw [copyFromSlice_start _ _ hkey, List.drop_replicate]
    rfl

theorem deriveAesKey_eq (sharedSecret : Blob) :
    ∃ key, deriveAesKey sha256 sharedSecret = some key ∧ key.toList = hkdf sha256 64 none [] 16 sharedSecret := by
  simp only [deriveAesKey, hmacSha256_eq, Option.bind_eq_bind, Option.bind_some]
  refine ⟨_, rfl, ?_⟩
  rw [hkdf, hkdfExpand_of_le (by decide) (by decide), hkdfExtract, Vector.toList_cast, Vector.toList_take]
  rfl

theorem deriveDhAesKey_eq {shared : Nat} (hshared : shared < dhPrime) :
    ∃ key, deriveDhAesKey sha256 shared = some key ∧
      key.toList = hkdf sha256 64 none [] 16 (beBytes 128 shared) := by
  have hlength : (toBytesBe shared).length ≤ dhGroupBytes :=
    length_toBytesBe_le (by decide) (hshared.trans dhPrime_lt)
  have hcopy : copyFromSlice (List.replicate dhGroupBytes 0) (dhGroupBytes - (toBytesBe shared).length) dhGroupBytes
      (toBytesBe shared) = some (beBytes 128 shared) := by
    have hpadded : List.replicate (dhGroupBytes - (toBytesBe shared).length) 0 ++ toBytesBe shared =
        beBytes 128 shared := by
      have hzeros := replicate_append_beBytes (dhGroupBytes - (toBytesBe shared).length) (lt_of_toBytesBe_width shared)
      rw [toBytesBe, length_beBytes] at hlength hzeros ⊢
      rw [hzeros, Nat.sub_add_cancel hlength]
      rfl
    rw [copyFromSlice, if_pos ⟨by omega, by simp, by omega⟩, List.take_replicate, List.drop_replicate]
    simp [hpadded]
  simp only [deriveDhAesKey, if_pos hlength, Option.bind_eq_bind, Option.bind_some, hcopy]
  exact deriveAesKey_eq _

/-- Both sides reach the same number. -/
theorem modpow_comm (a b : Nat) :
    modpow (modpow 2 a dhPrime) b dhPrime = modpow (modpow 2 b dhPrime) a dhPrime := by
  calc (2 ^ a % dhPrime) ^ b % dhPrime = (2 ^ a) ^ b % dhPrime := (Nat.pow_mod _ _ _).symm
    _ = (2 ^ b) ^ a % dhPrime := by rw [← Nat.pow_mul, ← Nat.pow_mul, Nat.mul_comm]
    _ = (2 ^ b % dhPrime) ^ a % dhPrime := Nat.pow_mod _ _ _

end

variable (sha256 : Blob → Vector UInt8 32)

/-- What the handshake answers: a refusal, or the key of the padded shared number. -/
theorem SessionKey.openDh_cases (exponent : Nat) (clientPublic : Blob) :
    SessionKey.openDh sha256 exponent clientPublic = some (.error (.invalidRequest "invalid DH public key")) ∨
      ∃ key : Vector UInt8 16,
        SessionKey.openDh sha256 exponent clientPublic = some (.ok (.dh key, toBytesBe (2 ^ exponent % dhPrime))) ∧
          key.toList =
            hkdf sha256 64 none [] 16 (beBytes 128 (modpow (fromBytesBe clientPublic) exponent dhPrime)) := by
  unfold SessionKey.openDh
  by_cases hbytes : clientPublic.isEmpty ∨ 128 < clientPublic.length
  · exact .inl (if_pos hbytes)
  · rw [if_neg hbytes]
    by_cases hrange : fromBytesBe clientPublic < 2 ∨ dhPrime - 2 ≤ fromBytesBe clientPublic
    · exact .inl (if_pos hrange)
    · obtain ⟨key, hkey, hlist⟩ :=
        deriveDhAesKey_eq (Nat.mod_lt (fromBytesBe clientPublic ^ exponent) dhPrime_pos)
      refine .inr ⟨key, ?_, hlist⟩
      simp only [if_neg hrange, fromBytesBe_toBytesBe]
      rw [modpow, modpow, hkey]
      rfl

theorem SessionKey.isSome_openDh (exponent : Nat) (clientPublic : Blob) :
    (SessionKey.openDh sha256 exponent clientPublic).isSome := by
  rcases SessionKey.openDh_cases sha256 exponent clientPublic with h | ⟨key, h, -⟩
  · rw [h]
    rfl
  · rw [h]
    rfl

/-- The handshake never panics, and a session key it installs is the one the client derives from the
public bytes it got, whatever their lengths. -/
theorem dh_sessions_agree :
    (∀ exponent clientPublic, SessionKey.openDh sha256 exponent clientPublic ≠ none) ∧
      ∀ (clientExponent exponent : Nat) (clientPublic : Blob), clientPublic.length ≤ 128 →
        fromBytesBe clientPublic = modpow 2 clientExponent dhPrime → 2 ≤ exponent → exponent < dhPrime - 2 →
        ∀ key serverPublic, SessionKey.openDh sha256 exponent clientPublic = some (.ok (key, serverPublic)) →
          ∃ bytes : Vector UInt8 16, key = .dh bytes ∧ bytes.toList = clientKey sha256 clientExponent serverPublic := by
  refine ⟨fun exponent clientPublic => ?_, ?_⟩
  · exact Option.ne_none_iff_isSome.mpr (SessionKey.isSome_openDh sha256 exponent clientPublic)
  · intro clientExponent exponent clientPublic _ hpublic _ _ key serverPublic hopen
    rcases SessionKey.openDh_cases sha256 exponent clientPublic with h | ⟨bytes, h, hlist⟩
    · rw [h] at hopen
      cases hopen
    · rw [h] at hopen
      cases hopen
      refine ⟨bytes, rfl, ?_⟩
      rw [hlist, hpublic, modpow_comm, clientKey, fromBytesBe_toBytesBe]
      rfl

/-- A client with exponent 42 that sends a leading zero. -/
theorem dh_sessions_agree_small :
    let sha256 : Blob → Vector UInt8 32 := fun _ => Vector.replicate 32 7
    let clientPublic : Blob := [0, 4, 0, 0, 0, 0, 0]
    ∃ bytes : Vector UInt8 16,
      SessionKey.openDh sha256 5 clientPublic = some (.ok (.dh bytes, [32])) ∧
        bytes.toList = clientKey sha256 42 [32] := by
  intro sha256 clientPublic
  have hopen : SessionKey.openDh sha256 5 clientPublic = some (.ok (.dh (Vector.replicate 16 7), [32])) := by
    decide +kernel
  obtain ⟨bytes, hkey, hbytes⟩ := (dh_sessions_agree sha256).2 42 5 clientPublic (by decide) (by decide +kernel)
    (by decide) (by decide +kernel) _ _ hopen
  exact ⟨bytes, hkey ▸ hopen, hbytes⟩

end WincredLibsecret
