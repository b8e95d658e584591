/-
  ServedChain — the one-time authenticator Poly1305 and the scheme that joins it
  with ChaCha20 (RFC 8439).  Numbers are stored least significant byte first.
-/
import ServedChain.Crypto.Aead
import ServedChain.Crypto.ChaCha20

namespace ServedChain.Poly1305

/-- The prime modulo which the polynomial is evaluated. -/
def prime : Nat := (1 <<< 130) - 5

/-- The first half of the key as a number, with the bits cleared that must be. -/
def clamp (r : Nat) : Nat := r &&& 0x0ffffffc0ffffffc0ffffffc0fffffff

/-- The value at `r` of the polynomial whose coefficients are the pieces of sixteen bytes of a
    message, each with a one behind it, and which has no constant coefficient. -/
def hash (r : Nat) (message : Bytes) : Nat :=
  (Bytes.pieces 15 message).foldl
    (fun sum piece => (sum + Bytes.toNat (1 :: piece.reverse)) * r % prime) 0

/-- The tag of a message under a key of 32 bytes. -/
def tag (key message : Bytes) : Bytes :=
  let r := clamp (Bytes.toNat (key.take 16).reverse)
  let s := Bytes.toNat (key.drop 16).reverse
  (Bytes.ofNat 16 (hash r message + s)).reverse

/-- The text that a tag covers. -/
def covered (additional ciphertext : Bytes) : Bytes :=
  additional ++ Bytes.blockPad 16 additional ++ ciphertext ++ Bytes.blockPad 16 ciphertext
    ++ (Bytes.ofNat 8 additional.length).reverse ++ (Bytes.ofNat 8 ciphertext.length).reverse

end ServedChain.Poly1305

namespace ServedChain

/-- ChaCha20 with Poly1305: block 0 of the stream is the key of the tag, and the plaintext uses
    the blocks from 1 on. -/
def Aead.chaCha20Poly1305 : Aead where
  keyLength := 32
  keystream key nonce length := stream 64 (fun i => ChaCha20.block key nonce (i + 1)) length
  tag key nonce additional ciphertext :=
    Poly1305.tag ((ChaCha20.block key nonce 0).take 32) (Poly1305.covered additional ciphertext)
  length_keystream key nonce length :=
    length_stream (by decide) (fun i => ChaCha20.length_block key nonce (i + 1)) length
  length_tag key nonce additional ciphertext := by simp [Poly1305.tag, tagLength]

end ServedChain
