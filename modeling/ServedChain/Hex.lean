/-
  ServedChain — hexadecimal text.

  Bytes are written with two lower-case digits each; digits of either case are
  read.  `decode?_encode`: what was written reads back.
-/
import ServedChain.Bytes

namespace ServedChain.Hex

/-- The digit of a value below sixteen. -/
def digit (n : Nat) : Char :=
  if n < 10 then Char.ofNat (48 + n) else Char.ofNat (87 + n)

/-- The upper-case digit of a value below sixteen. -/
def upperDigit (n : Nat) : Char :=
  if n < 10 then Char.ofNat (48 + n) else Char.ofNat (55 + n)

/-- The value of a digit of either case. -/
def value? (c : Char) : Option Nat :=
  if '0' ≤ c ∧ c ≤ '9' then some (c.toNat - 48)
  else if 'a' ≤ c ∧ c ≤ 'f' then some (c.toNat - 87)
  else if 'A' ≤ c ∧ c ≤ 'F' then some (c.toNat - 55)
  else none

/-- The two digits of each byte. -/
def encode (bs : Bytes) : List Char :=
  bs.flatMap fun b => [digit (b.toNat / 16), digit (b.toNat % 16)]

/-- The bytes that pairs of digits stand for; no other text is read. -/
def decode? : List Char → Option Bytes
  | [] => some []
  | h :: l :: rest => do
    let high ← value? h
    let low ← value? l
    let bs ← decode? rest
    return UInt8.ofNat (high * 16 + low) :: bs
  | [_] => none

theorem value?_digit {n : Nat} (h : n < 16) : value? (digit n) = some n := by
  revert n
  decide

theorem decode?_digits (b : UInt8) (rest : List Char) :
    decode? (digit (b.toNat / 16) :: digit (b.toNat % 16) :: rest)
      = (decode? rest).map (b :: ·) := by
  have hb : b.toNat < 256 := b.toNat_lt
  have hdiv : b.toNat / 16 * 16 + b.toNat % 16 = b.toNat := by omega
  rw [decode?, value?_digit (show b.toNat / 16 < 16 by omega),
    value?_digit (show b.toNat % 16 < 16 by omega)]
  cases decode? rest <;> simp only [Option.bind_eq_bind, Option.bind_some, Option.bind_none,
    Option.map_some, Option.map_none, Option.pure_def, hdiv, UInt8.ofNat_toNat]

/-- What was written reads back. -/
theorem decode?_encode (bs : Bytes) : decode? (encode bs) = some bs := by
  induction bs with
  | nil => rfl
  | cons b bs ih =>
    have hcons : encode (b :: bs)
        = digit (b.toNat / 16) :: digit (b.toNat % 16) :: encode bs := rfl
    rw [hcons, decode?_digits, ih, Option.map_some]

end ServedChain.Hex
