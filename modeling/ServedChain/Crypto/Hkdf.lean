/-
  ServedChain — keyed hashing (HMAC, RFC 2104) and the key derivation that TLS
  1.3 builds on it (HKDF, RFC 5869).

  * `hmac` is the keyed hash;
  * `Hkdf.expand` concatenates the blocks `T(1)`, `T(2)`, … as far as asked;
  * `Hkdf.expandLabel` derives the value that belongs to a label.

  The block counter is one byte and wraps; a length that is not positive asks
  for nothing.
-/
import ServedChain.Crypto.Sha2

namespace ServedChain

/-- The key of a keyed hash, brought to the length of a block. -/
def hmacKey (hash : Hash) (key : Bytes) : Bytes :=
  Bytes.fit hash.blockSize (if key.length ≤ hash.blockSize then key else hash.digest key)

/-- The keyed hash of a message. -/
def hmac (hash : Hash) (key message : Bytes) : Bytes :=
  let block := hmacKey hash key
  hash.digest (block.map (· ^^^ 0x5c) ++ hash.digest (block.map (· ^^^ 0x36) ++ message))

@[simp] theorem length_hmac (hash : Hash) (key message : Bytes) :
    (hmac hash key message).length = hash.size := by
  simp [hmac]

namespace Hkdf

/-! ## Expansion -/

section
variable (hash : Hash) (prk info : Bytes)

/-- `T(i)`: empty for zero, else the keyed hash of the block before, `info` and the low byte
    of the counter. -/
def block : Nat → Bytes
  | 0 => []
  | i + 1 => hmac hash prk (block i ++ info ++ [UInt8.ofNat (i + 1)])

/-- The blocks behind block number `i`, which is `previous`, until there are `length` bytes;
    `produced` is how many there are in the blocks up to that one. -/
def blocksFrom (length : Int) (i : Nat) (previous : Bytes) (produced : Nat) : List Bytes :=
  if produced < length then
    let next := hmac hash prk (previous ++ info ++ [UInt8.ofNat (i + 1)])
    next :: blocksFrom length (i + 1) next (produced + next.length)
  else []
termination_by (length - produced).toNat
decreasing_by
  have hsize := hash.size_pos
  rw [length_hmac]
  omega

/-- The first `length` bytes of `T(1) ++ T(2) ++ …`. -/
def expand (length : Int) : Bytes :=
  (blocksFrom hash prk info length 0 [] 0).flatten.take length.toNat

@[simp] theorem length_block_succ (i : Nat) : (block hash prk info (i + 1)).length = hash.size :=
  length_hmac ..

end

/-! ## Labels -/

/-- The low byte of each UTF-16 unit of a text. -/
def unitBytes (text : String) : Bytes :=
  text.toList.flatMap fun c =>
    if c.toNat < 0x10000 then [UInt8.ofNat c.toNat]
    else
      let n := c.toNat - 0x10000
      [UInt8.ofNat (n / 0x400), UInt8.ofNat n]

/-- The `info` of a labelled derivation: the length, the label behind `tls13 ` and the context,
    the last two each behind a length of one byte. -/
def labelInfo (label : String) (context : Bytes) (length : Int) : Bytes :=
  let full := unitBytes ("tls13 " ++ label)
  Bytes.ofNat 2 (length % 65536).toNat ++ [UInt8.ofNat full.length] ++ full
    ++ [UInt8.ofNat context.length] ++ context

/-- `length` bytes derived from a secret for a label and a context. -/
def expandLabel (hash : Hash) (secret : Bytes) (label : String) (context : Bytes)
    (length : Int) : Bytes :=
  expand hash secret (labelInfo label context length) length

end Hkdf

end ServedChain
