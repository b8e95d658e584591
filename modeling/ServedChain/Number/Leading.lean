/-
  ServedChain — the integer that a text starts with: white space, a sign and
  digits, whatever follows.

  `leadingInt?_of_digits`: of a text of digits alone that is their value.
-/
import ServedChain.Number.Binary64
import ServedChain.Text.Blank

namespace ServedChain

/-- The value of a text of digits. -/
def digitsValue (digits : List Char) : Nat :=
  digits.foldl (fun n c => n * 10 + (c.toNat - 48)) 0

/-- The integer that a text starts with, if it starts with one. -/
def leadingInt? (text : List Char) : Option Int :=
  let text := Text.trimFront text
  let (negative, text) := match text with
    | '-' :: rest => (true, rest)
    | '+' :: rest => (false, rest)
    | _ => (false, text)
  match text.takeWhile Char.isDigit with
  | [] => none
  | digits => some (if negative then -(digitsValue digits : Int) else digitsValue digits)

/-- The value of a text of digits is the one that the standard library gives it. -/
theorem digitsValue_eq (digits : List Char) :
    digitsValue digits = Nat.ofDigitChars 10 digits 0 := by
  rw [Nat.ofDigitChars_eq_foldl, digitsValue]
  congr 1
  funext n c
  exact congrArg (· + (c.toNat - 48)) (Nat.mul_comm n 10)

theorem leadingInt?_of_digits {text : List Char} (hne : text ≠ [])
    (hdigits : ∀ c ∈ text, c.isDigit = true) :
    leadingInt? text = some (digitsValue text : Int) := by
  obtain ⟨c, cs, rfl⟩ := List.exists_cons_of_ne_nil hne
  have hc := hdigits c List.mem_cons_self
  have htrim : Text.trimFront (c :: cs) = c :: cs :=
    List.dropWhile_cons_of_neg (by rw [Text.isBlank_of_isDigit hc]; decide)
  have hall : (c :: cs).takeWhile Char.isDigit = c :: cs := by
    have h : (c :: cs ++ []).takeWhile Char.isDigit = c :: cs ++ [].takeWhile Char.isDigit :=
      List.takeWhile_append_of_pos hdigits
    rwa [List.append_nil, List.takeWhile_nil, List.append_nil] at h
  have hminus : c ≠ '-' := by
    rintro rfl
    exact absurd hc (by decide)
  have hplus : c ≠ '+' := by
    rintro rfl
    exact absurd hc (by decide)
  rw [leadingInt?, htrim]
  simp [hminus, hplus, hall]

end ServedChain
