/-
  ServedChain — reading UTF-8.

  `scan` goes through a byte string and gives a character for each well-formed
  sequence and nothing for each longest prefix of one that is not continued.

  * `decode?` reads texts that are well-formed throughout;
  * `decode` puts U+FFFD in the place of what is not.
-/
import ServedChain.Bytes

namespace ServedChain.Utf8

/-- A form of a sequence of several bytes. -/
structure Form where
  /-- The least and the greatest first byte -/
  lead : UInt8 × UInt8
  /-- The least and the greatest second byte -/
  second : UInt8 × UInt8
  /-- How many bytes follow the first -/
  followers : Nat
  /-- The bits of the first byte that do not belong to the value -/
  marker : UInt8

/-- The well-formed sequences of several bytes. -/
def forms : List Form := [
  ⟨(0xc2, 0xdf), (0x80, 0xbf), 1, 0xc0⟩,
  ⟨(0xe0, 0xe0), (0xa0, 0xbf), 2, 0xe0⟩,
  ⟨(0xe1, 0xec), (0x80, 0xbf), 2, 0xe0⟩,
  ⟨(0xed, 0xed), (0x80, 0x9f), 2, 0xe0⟩,
  ⟨(0xee, 0xef), (0x80, 0xbf), 2, 0xe0⟩,
  ⟨(0xf0, 0xf0), (0x90, 0xbf), 3, 0xf0⟩,
  ⟨(0xf1, 0xf3), (0x80, 0xbf), 3, 0xf0⟩,
  ⟨(0xf4, 0xf4), (0x80, 0x8f), 3, 0xf0⟩]

/-- Whether a byte lies between two others. -/
def within (range : UInt8 × UInt8) (b : UInt8) : Bool := range.1 ≤ b && b ≤ range.2

/-- The value that `count` following bytes complete, and the rest; the first of them lies in
    `range`.  Without a value the rest starts at the byte that does not belong there. -/
def follow : (count : Nat) → (range : UInt8 × UInt8) → (value : Nat) → Bytes →
    Option Nat × Bytes
  | 0, _, value, rest => (some value, rest)
  | _ + 1, _, _, [] => (none, [])
  | count + 1, range, value, b :: rest =>
    if within range b then follow count (0x80, 0xbf) (value * 64 + (b &&& 0x3f).toNat) rest
    else (none, b :: rest)

/-- The character that begins with byte `b`, if it is well-formed, and the rest. -/
def first (b : UInt8) (rest : Bytes) : Option Char × Bytes :=
  if b < 0x80 then (some (Char.ofNat b.toNat), rest)
  else match forms.find? fun form => within form.lead b with
    | none => (none, rest)
    | some form =>
      let (value?, rest) := follow form.followers form.second (b ^^^ form.marker).toNat rest
      (value?.map Char.ofNat, rest)

theorem length_follow_le (count : Nat) (range : UInt8 × UInt8) (value : Nat) (bs : Bytes) :
    (follow count range value bs).2.length ≤ bs.length := by
  induction bs generalizing count range value with
  | nil => cases count <;> simp [follow]
  | cons b bs ih =>
    cases count with
    | zero => simp [follow]
    | succ count =>
      rw [follow]
      split
      · exact Nat.le_succ_of_le (ih ..)
      · exact Nat.le_refl _

theorem length_first_le (b : UInt8) (rest : Bytes) : (first b rest).2.length ≤ rest.length := by
  unfold first
  split
  · exact Nat.le_refl _
  · split
    · exact Nat.le_refl _
    · exact length_follow_le ..

/-- The characters of a byte string, and nothing in the place of each ill-formed stretch. -/
def scan : Bytes → List (Option Char)
  | [] => []
  | b :: rest => (first b rest).1 :: scan (first b rest).2
termination_by bs => bs.length
decreasing_by exact Nat.lt_succ_of_le (length_first_le b rest)

/-- The text of a byte string that is well-formed throughout. -/
def decode? (bs : Bytes) : Option (List Char) := (scan bs).mapM id

/-- The text of a byte string, with U+FFFD for each ill-formed stretch. -/
def decode (bs : Bytes) : List Char := (scan bs).map fun c => c.getD (Char.ofNat 0xfffd)

end ServedChain.Utf8
