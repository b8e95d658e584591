/-
  ServedChain — AES in Galois/counter mode (NIST SP 800-38D), with nonces of
  twelve bytes.

  The keystream encrypts the nonce followed by a counter that starts at 2.  The
  tag evaluates a polynomial, whose coefficients are the blocks of the additional
  data, of the ciphertext and of their lengths, in GF(2^128); there the first bit
  of a block is the constant coefficient.
-/
import ServedChain.Crypto.Aead
import ServedChain.Crypto.Aes

namespace ServedChain.Gcm

/-! ## The field -/

def double (a : BitVec 128) : BitVec 128 :=
  (a >>> 1) ^^^ (if a.getLsbD 0 then 0xe1#128 <<< 120 else 0)

/-- The product of two elements, from the last `bits` coefficients of the first on. -/
def mulBits : (bits : Nat) → (a b : BitVec 128) → BitVec 128
  | 0, _, _ => 0
  | bits + 1, a, b => (if a.getLsbD bits then b else 0) ^^^ mulBits bits a (double b)

/-- The product of two elements. -/
def mul (a b : BitVec 128) : BitVec 128 := mulBits 128 a b

/-- The value of the polynomial with the blocks of `text` as coefficients at `h`, and no
    constant coefficient. -/
def hash (h : BitVec 128) (text : Bytes) : BitVec 128 :=
  (Bytes.pieces 15 text).foldl (fun y block => mul (y ^^^ BitVec.ofNat 128 (Bytes.toNat block)) h) 0

/-! ## The mode -/

/-- The encrypted counter block with the given number. -/
def counterBlock (keys : List Aes.Block) (nonce : Bytes) (counter : Nat) : Bytes :=
  (Aes.encrypt keys (Aes.Block.ofBytes (nonce ++ Bytes.ofNat 4 counter))).toList

theorem length_counterBlock (keys : List Aes.Block) (nonce : Bytes) (counter : Nat) :
    (counterBlock keys nonce counter).length = 16 := by
  simp [counterBlock]

/-- The text whose blocks the tag depends on. -/
def covered (additional ciphertext : Bytes) : Bytes :=
  additional ++ Bytes.blockPad 16 additional ++ ciphertext ++ Bytes.blockPad 16 ciphertext
    ++ Bytes.ofNat 8 (8 * additional.length) ++ Bytes.ofNat 8 (8 * ciphertext.length)

def tag (key nonce additional ciphertext : Bytes) : Bytes :=
  let keys := Aes.schedule key
  let h := Bytes.toNat (Aes.encrypt keys (Aes.Block.ofBytes [])).toList
  Bytes.xor (Bytes.ofNat 16 (hash (BitVec.ofNat 128 h) (covered additional ciphertext)).toNat)
    (counterBlock keys nonce 1)

/-- The bytes added to the plaintext. -/
def keystream (key nonce : Bytes) (length : Nat) : Bytes :=
  let keys := Aes.schedule key
  stream 16 (fun i => counterBlock keys nonce (i + 2)) length

end ServedChain.Gcm

namespace ServedChain

/-- AES in Galois/counter mode with keys of the given length. -/
def Aead.aesGcm (keyLength : Nat) : Aead where
  keyLength := keyLength
  keystream := Gcm.keystream
  tag := Gcm.tag
  length_keystream key nonce length :=
    length_stream (by decide) (fun i => Gcm.length_counterBlock _ _ (i + 2)) length
  length_tag key nonce additional ciphertext := by
    simp [Gcm.tag, Gcm.length_counterBlock, tagLength]

end ServedChain
