import Mathlib

/-! HMAC and HKDF over an arbitrary hash function, with the pads, the counter byte and the default salt written out. -/

namespace KeyDerivation

section

variable {width : Nat} (hash : List UInt8 → Vector UInt8 width) (block : Nat)

/-- A key of the size of a block: hashed if it is longer, and filled up with zeros. -/
def blockKey (key : List UInt8) : List UInt8 :=
  let short := if block < key.length then (hash key).toList else key
  short ++ List.replicate (block - short.length) 0

def hmac (key text : List UInt8) : Vector UInt8 width :=
  let inner := hash ((blockKey hash block key).map (· ^^^ 0x36) ++ text)
  hash ((blockKey hash block key).map (· ^^^ 0x5c) ++ inner.toList)

/-- An absent salt is a string of zeros of the size of a digest. -/
def hkdfExtract (salt : Option (List UInt8)) (material : List UInt8) : Vector UInt8 width :=
  hmac hash block (salt.getD (List.replicate width 0)) material

/-- The block of the output with a number; block zero is empty. -/
def hkdfBlock (pseudorandomKey info : List UInt8) : Nat → List UInt8
  | 0 => []
  | n + 1 =>
      (hmac hash block pseudorandomKey (hkdfBlock pseudorandomKey info n ++ info ++ [UInt8.ofNat (n + 1)])).toList

def hkdfExpand (pseudorandomKey info : List UInt8) (length : Nat) : List UInt8 :=
  ((List.range ((length + width - 1) / width)).flatMap fun n =>
    hkdfBlock hash block pseudorandomKey info (n + 1)).take length

def hkdf (salt : Option (List UInt8)) (info : List UInt8) (length : Nat) (material : List UInt8) : List UInt8 :=
  hkdfExpand hash block (hkdfExtract hash block salt material).toList info length

variable {hash block}

/-- An output no longer than a digest is the start of the first block. -/
theorem hkdfExpand_of_le {pseudorandomKey info : List UInt8} {length : Nat} (hpos : 0 < length)
    (hle : length ≤ width) :
    hkdfExpand hash block pseudorandomKey info length =
      (hmac hash block pseudorandomKey (info ++ [1])).toList.take length := by
  have hblocks : (length + width - 1) / width = 1 := by
    rw [Nat.div_eq_of_lt_le] <;> omega
  rw [hkdfExpand, hblocks]
  simp [hkdfBlock]

end

end KeyDerivation
