/-
  ServedChain — the block cipher AES (FIPS 197), in the direction of encryption,
  with keys of 16, 24 or 32 bytes.

  Bytes stand for polynomials over GF(2) modulo `x^8 + x^4 + x^3 + x + 1`.  A block
  is a table of four columns of four bytes, stored column by column.

  * `schedule` gives the round keys of a key;
  * `encrypt` encrypts a block under them.
-/
import ServedChain.Bytes

namespace ServedChain.Aes

/-! ## The field -/

def double (a : UInt8) : UInt8 := (a <<< 1) ^^^ (if a &&& 0x80 = 0 then 0 else 0x1b)

/-- The product of two elements, from the last `bits` coefficients of the second on. -/
def mulBits : (bits : Nat) → (a b : UInt8) → UInt8
  | 0, _, _ => 0
  | bits + 1, a, b => (if b &&& 1 = 0 then 0 else a) ^^^ mulBits bits (double a) (b >>> 1)

/-- The product of two elements. -/
def mul (a b : UInt8) : UInt8 := mulBits 8 a b

/-- The inverse of an element, and zero for zero: its 254th power, `2 + 4 + … + 128`. -/
def inverse (a : UInt8) : UInt8 := powers 7 (mul a a)
where
  /-- The product of `s`, its square and so on, `n` factors in all. -/
  powers : (n : Nat) → (s : UInt8) → UInt8
  | 0, _ => 1
  | n + 1, s => mul s (powers n (mul s s))

/-- A byte with its bits moved up by `n` places, those that leave coming in below. -/
def rotate (n : UInt8) (a : UInt8) : UInt8 := (a <<< n) ||| (a >>> (8 - n))

/-- The substitution of each byte: the inverse, then an affine map. -/
def substitutes : Vector UInt8 256 :=
  Vector.ofFn fun i =>
    let b := inverse (UInt8.ofNat i)
    b ^^^ rotate 1 b ^^^ rotate 2 b ^^^ rotate 3 b ^^^ rotate 4 b ^^^ 0x63

def substitute (a : UInt8) : UInt8 := substitutes.get ⟨a.toNat, a.toNat_lt⟩

/-! ## Blocks -/

/-- A block, column by column. -/
abbrev Block := Vector UInt8 16

namespace Block

/-- The block of sixteen bytes. -/
def ofBytes (bs : Bytes) : Block := Vector.ofFn fun i => bs.getD i 0

/-- The sum of two blocks. -/
def add (a b : Block) : Block := Vector.ofFn fun i => a[i] ^^^ b[i]

/-- Every byte substituted. -/
def substitute (a : Block) : Block := a.map Aes.substitute

/-- Row `r` moved by `r` columns to the left. -/
def shiftRows (a : Block) : Block :=
  Vector.ofFn fun i => a.get ⟨5 * i.val % 16, Nat.mod_lt _ (by decide)⟩

/-- Each column multiplied by the fixed polynomial. -/
def mixColumns (a : Block) : Block :=
  Vector.ofFn fun i =>
    let below (r : Nat) : UInt8 := a.getD (i.val / 4 * 4 + (i.val + r) % 4) 0
    double (below 0) ^^^ (double (below 1) ^^^ below 1) ^^^ below 2 ^^^ below 3

end Block

/-! ## Round keys -/

/-- The words that follow a window of `size` words of the key schedule: the new word is the
    first of the window plus the last one, which is rotated, substituted and given the round
    constant when a period of `size` begins, and substituted in the middle of a long one. -/
def moreWords (size : Nat) : (count : Nat) → (place : Nat) → (constant : UInt8) →
    (window : List Bytes) → List Bytes
  | 0, _, _, _ => []
  | count + 1, place, constant, window =>
    let last := window.getLastD []
    let mixed :=
      if place = 0 then
        Bytes.xor ((last.drop 1 ++ last.take 1).map substitute) [constant, 0, 0, 0]
      else if size > 6 ∧ place = 4 then last.map substitute
      else last
    let word := Bytes.xor (window.headD []) mixed
    word :: moreWords size count (if place + 1 = size then 0 else place + 1)
      (if place = 0 then double constant else constant) (window.drop 1 ++ [word])

/-- The round keys: one more than rounds, whose number grows with the key. -/
def schedule (key : Bytes) : List Block :=
  let words := Bytes.pieces 3 key
  let size := words.length
  let all := words ++ moreWords size (4 * (size + 7) - size) 0 1 words
  (Bytes.pieces 15 all.flatten).map Block.ofBytes

/-! ## Encryption -/

/-- The rounds with the given keys; the last one does not mix columns. -/
def rounds : (keys : List Block) → Block → Block
  | [], a => a
  | [key], a => (Block.shiftRows a.substitute).add key
  | key :: keys, a => rounds keys ((Block.shiftRows a.substitute).mixColumns.add key)

/-- A block encrypted under the round keys. -/
def encrypt (keys : List Block) (a : Block) : Block :=
  match keys with
  | [] => a
  | key :: keys => rounds keys (a.add key)

end ServedChain.Aes
