/-
  ServedChain — reading base64: characters stand for six bits each, and one or
  two equals signs fill up the last group of four.

  White space counts for nothing, and a hyphen ends the text.
-/
import ServedChain.Bytes

namespace ServedChain.Base64

/-- The six bits of a character. -/
def value? (b : UInt8) : Option Nat :=
  let n := b.toNat
  if 65 ≤ n ∧ n ≤ 90 then some (n - 65)
  else if 97 ≤ n ∧ n ≤ 122 then some (n - 71)
  else if 48 ≤ n ∧ n ≤ 57 then some (n + 4)
  else if n = 43 then some 62
  else if n = 47 then some 63
  else none

/-- Spaces, tabs and the ends of lines. -/
def isSpace (b : UInt8) : Bool := b == 9 || b == 10 || b == 13 || b == 32

/-- The bytes of groups of four values. -/
def groups (values : List Nat) : Bytes :=
  match values with
  | a :: b :: c :: d :: rest => Bytes.ofNat 3 (((a * 64 + b) * 64 + c) * 64 + d) ++ groups rest
  | _ => []

/-- The bytes that a text stands for. -/
def decode? (text : Bytes) : Option Bytes := do
  let text := (text.takeWhile (· != 45)).filter (!isSpace ·)
  let digits := text.takeWhile (· != 61)
  let padding := (text.dropWhile (· != 61)).length
  if padding ≤ 2 ∧ text.length % 4 = 0 ∧ (text.drop digits.length).all (· == 61) then
    let values ← digits.mapM value?
    let bytes := groups (values ++ List.replicate padding 0)
    return bytes.take (bytes.length - padding)
  else none

end ServedChain.Base64
