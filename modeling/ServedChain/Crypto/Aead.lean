/-
  ServedChain — authenticated encryption as TLS 1.3 uses it: a keystream is
  added to the plaintext, and a tag of sixteen bytes covers the ciphertext and
  the additional data (`Aead`).

  * `encrypt` and `decrypt?` are the two directions;
  * `decrypt?_eq_some_iff`: exactly the encrypted texts decrypt, and to what they were made of;
  * `stream` cuts a keystream of a given length out of numbered blocks.
-/
import ServedChain.Bytes

namespace ServedChain

/-! ## Keystreams -/

/-- The first `n` bytes of the blocks with the numbers 0, 1, …, of `size` bytes each. -/
def stream (size : Nat) (block : Nat → Bytes) (n : Nat) : Bytes :=
  ((List.range ((n + size - 1) / size)).flatMap block).take n

theorem length_flatMap_const {size : Nat} {block : Nat → Bytes}
    (h : ∀ i, (block i).length = size) (is : List Nat) :
    (is.flatMap block).length = is.length * size := by
  induction is with
  | nil => simp
  | cons i is ih => simp [ih, h, Nat.succ_mul, Nat.add_comm]

/-- A keystream is as long as asked for. -/
theorem length_stream {size : Nat} {block : Nat → Bytes} (hsize : 0 < size)
    (h : ∀ i, (block i).length = size) (n : Nat) : (stream size block n).length = n := by
  rw [stream, List.length_take, length_flatMap_const h, List.length_range]
  have hmod := Nat.mod_lt (n + size - 1) hsize
  have hdiv := Nat.div_add_mod (n + size - 1) size
  rw [Nat.mul_comm] at hdiv
  omega

/-! ## The two directions -/

def tagLength : Nat := 16

/-- A scheme for authenticated encryption. -/
structure Aead where
  /-- Bytes of a key -/
  keyLength : Nat
  /-- The bytes added to a plaintext of a given length under a key and a nonce -/
  keystream : (key nonce : Bytes) → (length : Nat) → Bytes
  /-- The tag of a ciphertext and additional data under a key and a nonce -/
  tag : (key nonce additional ciphertext : Bytes) → Bytes
  length_keystream : ∀ key nonce length, (keystream key nonce length).length = length
  length_tag : ∀ key nonce additional ciphertext,
    (tag key nonce additional ciphertext).length = tagLength

namespace Aead

/-- The keystream added to a text. -/
def crypt (aead : Aead) (key nonce text : Bytes) : Bytes :=
  Bytes.xor text (aead.keystream key nonce text.length)

/-- The ciphertext of a plaintext with the tag behind it. -/
def encrypt (aead : Aead) (key nonce additional plaintext : Bytes) : Bytes :=
  let ciphertext := aead.crypt key nonce plaintext
  ciphertext ++ aead.tag key nonce additional ciphertext

/-- The plaintext of a ciphertext with its tag, if the tag is right. -/
def decrypt? (aead : Aead) (key nonce additional ciphertext tag : Bytes) : Option Bytes :=
  if tag = aead.tag key nonce additional ciphertext then some (aead.crypt key nonce ciphertext)
  else none

theorem length_crypt (aead : Aead) (key nonce text : Bytes) :
    (aead.crypt key nonce text).length = text.length := by
  simp [crypt, Bytes.xor, aead.length_keystream]

/-- Adding the keystream twice changes nothing. -/
theorem crypt_crypt (aead : Aead) (key nonce text : Bytes) :
    aead.crypt key nonce (aead.crypt key nonce text) = text := by
  have h : (aead.crypt key nonce text).length = text.length := aead.length_crypt key nonce text
  unfold crypt at h ⊢
  rw [h]
  exact Bytes.xor_xor_cancel (Nat.le_of_eq (aead.length_keystream key nonce text.length).symm)

theorem length_encrypt (aead : Aead) (key nonce additional plaintext : Bytes) :
    (aead.encrypt key nonce additional plaintext).length = plaintext.length + tagLength := by
  simp [encrypt, length_crypt, aead.length_tag]

/-- Exactly the encrypted texts decrypt, each to the plaintext that it was made of. -/
theorem decrypt?_eq_some_iff (aead : Aead) (key nonce additional ciphertext tag plaintext : Bytes) :
    aead.decrypt? key nonce additional ciphertext tag = some plaintext
      ↔ tag.length = tagLength
        ∧ ciphertext ++ tag = aead.encrypt key nonce additional plaintext := by
  constructor
  · intro h
    unfold decrypt? at h
    split at h
    · next htag =>
      cases h
      refine ⟨by rw [htag, aead.length_tag], ?_⟩
      rw [encrypt, crypt_crypt, htag]
    · simp at h
  · rintro ⟨hlen, h⟩
    have hsplit := List.append_inj h (by
      have := congrArg List.length h
      rw [encrypt] at this
      simp only [List.length_append, aead.length_tag] at this
      omega)
    obtain ⟨hct, htag⟩ := hsplit
    rw [decrypt?, hct, if_pos htag, crypt_crypt]

end Aead

end ServedChain
