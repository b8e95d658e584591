/-
  ServedChain — the stream cipher ChaCha20 (RFC 8439): a block of the keystream
  is a scrambled table of sixteen words that hold four constants, the key, the
  number of the block and the nonce.  Words are stored least significant byte
  first.
-/
import ServedChain.Bytes

namespace ServedChain.ChaCha20

abbrev State := Vector UInt32 16

/-- A word with its bits moved up by `n` places, those that leave coming in below. -/
def rotate (n : UInt32) (a : UInt32) : UInt32 := (a <<< n) ||| (a >>> (32 - n))

/-- The table with another word at one place. -/
def put (s : State) : (place : Fin 16) → (word : UInt32) → State
  | ⟨i, h⟩, word => s.set i word h

/-- The quarter round on the words at four places. -/
def quarterRound (a b c d : Fin 16) (s : State) : State :=
  let mix (x y z : Fin 16) (n : UInt32) (s : State) : State :=
    let sum := s.get x + s.get y
    put (put s x sum) z (rotate n (s.get z ^^^ sum))
  mix c d b 7 (mix a b d 8 (mix c d b 12 (mix a b d 16 s)))

/-- Two rounds: one down the columns, one along the diagonals. -/
def doubleRound (s : State) : State :=
  let columns := quarterRound 3 7 11 15 (quarterRound 2 6 10 14
    (quarterRound 1 5 9 13 (quarterRound 0 4 8 12 s)))
  quarterRound 3 4 9 14 (quarterRound 2 7 8 13 (quarterRound 1 6 11 12
    (quarterRound 0 5 10 15 columns)))

/-- The four constant words. -/
def constants : List UInt32 := [0x61707865, 0x3320646e, 0x79622d32, 0x6b206574]

/-- The words of a byte string. -/
def words (bs : Bytes) : List UInt32 :=
  (Bytes.pieces 3 bs).map fun piece => UInt32.ofNat (Bytes.toNat piece.reverse)

/-- The table of a block before it is scrambled. -/
def initial (key nonce : Bytes) (counter : Nat) : State :=
  let all := constants ++ words key ++ [UInt32.ofNat counter] ++ words nonce
  Vector.ofFn fun i => all.getD i 0

/-- The bytes of a block: ten double rounds, added to the table itself. -/
def block (key nonce : Bytes) (counter : Nat) : Bytes :=
  let start := initial key nonce counter
  let scrambled := (List.range 10).foldl (fun s _ => doubleRound s) start
  (List.finRange 16).flatMap fun i =>
    (Bytes.ofNat 4 (start.get i + scrambled.get i).toNat).reverse

theorem length_block (key nonce : Bytes) (counter : Nat) :
    (block key nonce counter).length = 64 := by
  simp [block, List.length_flatMap, List.map_const']

end ServedChain.ChaCha20
