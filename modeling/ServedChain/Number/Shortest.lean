/-
  ServedChain — the shortest text of a number: as few digits as tell it from all
  other numbers, the nearest to it of those.

  Magnitudes from 10^-6 up to 10^21 are written out; others have an exponent.
-/
import ServedChain.Number.Binary64

namespace ServedChain

/-! ## Decimals -/

/-- The number `digits * 10 ^ exponent`. -/
structure Decimal where
  digits : Nat
  exponent : Int
  deriving DecidableEq, Repr

namespace Decimal

def digitText (n : Nat) : List Char := (toString n).toList

/-- The text with its zeros at the end counted. -/
def splitZeros (text : List Char) : List Char × Nat :=
  let zeros := (text.reverse.takeWhile (· == '0')).length
  (text.take (text.length - zeros), zeros)

def zeros (n : Int) : List Char := List.replicate n.toNat '0'

/-- The text of a positive decimal. -/
def render (d : Decimal) : List Char :=
  let (digits, dropped) := splitZeros (digitText d.digits)
  let count : Int := digits.length
  -- the point stands behind so many digits
  let point : Int := d.exponent + dropped + count
  if count ≤ point ∧ point ≤ 21 then digits ++ zeros (point - count)
  else if 0 < point ∧ point ≤ 21 then digits.take point.toNat ++ '.' :: digits.drop point.toNat
  else if -6 < point ∧ point ≤ 0 then "0.".toList ++ zeros (-point) ++ digits
  else
    let exponent := point - 1
    let sign := if exponent < 0 then '-' else '+'
    let mantissa := match digits with
      | first :: second :: rest => first :: '.' :: second :: rest
      | digits => digits
    mantissa ++ 'e' :: sign :: digitText exponent.natAbs

end Decimal

namespace Binary64

/-! ## Digits -/

/-- A quotient and the ends of the interval of quotients that round to it, all over one
    denominator. -/
structure Interval where
  low : Nat
  value : Nat
  high : Nat
  denominator : Nat
  /-- The ends belong to the interval -/
  closed : Bool

/-- The interval of a positive number. -/
def interval (significand : Nat) (exponent : Int) : Interval :=
  let shift := (exponent - 2).toNat
  let below := if significand = 1 <<< 52 ∧ -1074 < exponent then 1 else 2
  { low := (4 * significand - below) <<< shift
    value := (4 * significand) <<< shift
    high := (4 * significand + 2) <<< shift
    denominator := 1 <<< (2 - exponent).toNat
    closed := significand % 2 = 0 }

/-- Whether a decimal lies in an interval. -/
def Interval.contains (i : Interval) (d : Decimal) : Bool :=
  let n := d.digits * tenTo d.exponent * i.denominator
  let power := tenTo (-d.exponent)
  if i.closed then i.low * power ≤ n && n ≤ i.high * power
  else i.low * power < n && n < i.high * power

/-- The exponent of the first digit of a quotient that is not zero: so many digits, less one,
    stand before the point. -/
def firstExponent (i : Interval) : Int :=
  let whole := i.value / i.denominator
  if 0 < whole then (Decimal.digitText whole).length - 1
  else
    let small (k : Nat) : Bool := i.value * tenTo k < i.denominator
    Int.neg ((List.range 330).takeWhile small).length

/-- The nearest decimal in an interval with the given number of digits, if there is one. -/
def nearest? (i : Interval) (count : Nat) : Option Decimal :=
  let exponent := firstExponent i - count + 1
  let n := i.value * tenTo (-exponent)
  let d := i.denominator * tenTo exponent
  let below : Decimal := ⟨n / d, exponent⟩
  let above : Decimal := ⟨n / d + 1, exponent⟩
  match i.contains below, i.contains above with
  | true, true => some ⟨divideRound n d, exponent⟩
  | true, false => some below
  | false, true => some above
  | false, false => none

/-- The decimal with the fewest digits that rounds to a positive number. -/
def shortest (significand : Nat) (exponent : Int) : Decimal :=
  let i := interval significand exponent
  ((List.range' 1 17).findSome? (nearest? i)).getD ⟨i.value / i.denominator, 0⟩

/-- The text of a number; zero has no sign. -/
def toText : Binary64 → String
  | infinite negative => if negative then "-Infinity" else "Infinity"
  | finite _ 0 _ => "0"
  | finite negative significand exponent =>
    let digits := if exponent = 0 then ⟨significand, 0⟩ else shortest significand exponent
    String.ofList ((if negative then ['-'] else []) ++ digits.render)

end Binary64

end ServedChain
