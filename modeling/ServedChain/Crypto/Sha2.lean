/-
  ServedChain — the SHA-2 hash functions (FIPS 180-4) behind the TLS 1.3 cipher
  suites: SHA-256, which works on words of 32 bits, and SHA-384, which works on
  words of 64 bits.

  Both are instances of one construction, `Sha2 w`: the rotations, the initial
  chaining value and the length of the digest differ, everything else is shared.
  The round constants are the fractional parts of the cube roots of the first
  primes, the initial values those of square roots, so they are computed.

  * `Hash.digest` is the hash function;
  * `Hash.length_digest`: a digest has `Hash.size` bytes.
-/
import ServedChain.Bytes

namespace ServedChain

namespace Sha2

/-! ## Constants -/

/-- The largest `r` below `2 ^ bits` with `r ^ k ≤ n`. -/
def root (k n : Nat) : (bits : Nat) → (r : Nat) → Nat
  | 0, r => r
  | bits + 1, r =>
    let next := r + (1 <<< bits)
    root k n bits (if next.pow k ≤ n then next else r)

/-- The first `w` bits behind the binary point of the `k`-th root of `n`. -/
def fraction (w k n : Nat) : BitVec w :=
  BitVec.ofNat w (root k (n <<< (w * k)) (w + 8) 0)

/-- The primes that the constants are made of. -/
def primes : List Nat :=
  (List.range 410).filter fun n => 2 ≤ n && (List.range n).all fun d => d < 2 || n % d ≠ 0

end Sha2

/-- What tells the members of the family apart, for words of `w` bits. -/
structure Sha2 (w : Nat) where
  /-- Rotations of the two functions applied to the chaining value -/
  up0 : Nat × Nat × Nat
  up1 : Nat × Nat × Nat
  /-- Two rotations and a shift of the two functions applied to the message words -/
  low0 : Nat × Nat × Nat
  low1 : Nat × Nat × Nat
  /-- One constant a round -/
  constants : List (BitVec w)
  /-- Primes whose square roots give the initial chaining value -/
  seeds : List Nat
  /-- Words of the chaining value that make up the digest -/
  outputWords : Nat

namespace Sha2

variable {w : Nat}

/-! ## Compression -/

structure State (w : Nat) where
  a : BitVec w
  b : BitVec w
  c : BitVec w
  d : BitVec w
  e : BitVec w
  f : BitVec w
  g : BitVec w
  h : BitVec w

/-- The words of a chaining value in order. -/
def State.words (s : State w) : List (BitVec w) := [s.a, s.b, s.c, s.d, s.e, s.f, s.g, s.h]

/-- The wordwise sum of two chaining values. -/
def State.add (s t : State w) : State w :=
  ⟨s.a + t.a, s.b + t.b, s.c + t.c, s.d + t.d, s.e + t.e, s.f + t.f, s.g + t.g, s.h + t.h⟩

/-- Three rotations of a word, added bit by bit. -/
def rotations (r : Nat × Nat × Nat) (x : BitVec w) : BitVec w :=
  x.rotateRight r.1 ^^^ x.rotateRight r.2.1 ^^^ x.rotateRight r.2.2

/-- Two rotations and a shift of a word, added bit by bit. -/
def rotationsShift (r : Nat × Nat × Nat) (x : BitVec w) : BitVec w :=
  x.rotateRight r.1 ^^^ x.rotateRight r.2.1 ^^^ (x >>> r.2.2)

/-- One round with round constant `k` and message word `m`. -/
def round (p : Sha2 w) (s : State w) (k m : BitVec w) : State w :=
  let choice := (s.e &&& s.f) ^^^ (~~~s.e &&& s.g)
  let majority := (s.a &&& s.b) ^^^ (s.a &&& s.c) ^^^ (s.b &&& s.c)
  let t1 := s.h + rotations p.up1 s.e + choice + k + m
  let t2 := rotations p.up0 s.a + majority
  ⟨t1 + t2, s.a, s.b, s.c, s.d + t1, s.e, s.f, s.g⟩

/-- The message word that follows a window of sixteen. -/
def nextWord (p : Sha2 w) (window : List (BitVec w)) : BitVec w :=
  rotationsShift p.low1 (window.getD 14 0) + window.getD 9 0
    + rotationsShift p.low0 (window.getD 1 0) + window.getD 0 0

/-- All rounds: the window of message words moves on by one each time. -/
def rounds (p : Sha2 w) : List (BitVec w) → State w → List (BitVec w) → State w
  | [], s, _ => s
  | k :: ks, s, window =>
    rounds p ks (p.round s k (window.getD 0 0)) (window.drop 1 ++ [p.nextWord window])

/-- One block of sixteen words absorbed into the chaining value. -/
def compress (p : Sha2 w) (s : State w) (block : List (BitVec w)) : State w :=
  s.add (p.rounds p.constants s block)

/-! ## Hashing -/

def blockSize (_ : Sha2 w) : Nat := 2 * w

/-- The initial chaining value. -/
def initial (p : Sha2 w) : State w :=
  let word i := fraction w 2 (p.seeds.getD i 0)
  ⟨word 0, word 1, word 2, word 3, word 4, word 5, word 6, word 7⟩

/-- The message with a one bit, zeros and its length in bits behind it, in whole blocks. -/
def padded (p : Sha2 w) (message : Bytes) : Bytes :=
  let front := message ++ [0x80]
  let lengthBytes := w / 4
  let zeros := Bytes.blockPad p.blockSize (front ++ List.replicate lengthBytes 0)
  front ++ zeros ++ Bytes.ofNat lengthBytes (8 * message.length)

def blockWords (_ : Sha2 w) (block : Bytes) : List (BitVec w) :=
  (Bytes.pieces (w / 8 - 1) block).map fun word => BitVec.ofNat w (Bytes.toNat word)

def digest (p : Sha2 w) (message : Bytes) : Bytes :=
  let blocks := Bytes.pieces (p.blockSize - 1) (p.padded message)
  let final := blocks.foldl (fun s block => p.compress s (p.blockWords block)) p.initial
  (final.words.take p.outputWords).flatMap fun word => Bytes.ofNat (w / 8) word.toNat

theorem length_digest (p : Sha2 w) (message : Bytes) :
    (p.digest message).length = min p.outputWords 8 * (w / 8) := by
  simp only [digest, List.length_flatMap, Bytes.length_ofNat, List.map_const',
    List.sum_replicate_nat, List.length_take, State.words, List.length_cons, List.length_nil]

end Sha2

/-! ## The two members -/

def sha256 : Sha2 32 where
  up0 := (2, 13, 22)
  up1 := (6, 11, 25)
  low0 := (7, 18, 3)
  low1 := (17, 19, 10)
  constants := (Sha2.primes.take 64).map (Sha2.fraction 32 3)
  seeds := Sha2.primes.take 8
  outputWords := 8

def sha384 : Sha2 64 where
  up0 := (28, 34, 39)
  up1 := (14, 18, 41)
  low0 := (1, 8, 7)
  low1 := (19, 61, 6)
  constants := (Sha2.primes.take 80).map (Sha2.fraction 64 3)
  seeds := (Sha2.primes.drop 8).take 8
  outputWords := 6

/-- A hash function of the TLS 1.3 cipher suites. -/
inductive Hash where
  | sha256
  | sha384
  deriving DecidableEq, Repr

namespace Hash

def size : Hash → Nat
  | sha256 => 32
  | sha384 => 48

theorem size_pos (hash : Hash) : 0 < hash.size := by
  cases hash <;> decide

/-- Bytes of an input block. -/
def blockSize : Hash → Nat
  | sha256 => 64
  | sha384 => 128

def digest : Hash → Bytes → Bytes
  | sha256 => ServedChain.sha256.digest
  | sha384 => ServedChain.sha384.digest

/-- A digest has the size of its function. -/
@[simp] theorem length_digest (hash : Hash) (message : Bytes) :
    (hash.digest message).length = hash.size := by
  cases hash <;> simp [digest, size, Sha2.length_digest, ServedChain.sha256, ServedChain.sha384]

end Hash

end ServedChain
