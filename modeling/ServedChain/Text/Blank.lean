/-
  ServedChain — white space: the characters of Unicode's category of space
  separators, the tabs and feeds among the controls, the two separators of lines
  and paragraphs, and the byte order mark.
-/

namespace ServedChain.Text

def isBlank (c : Char) : Bool :=
  let n := c.toNat
  (9 ≤ n && n ≤ 13) || n == 0x20 || n == 0xa0 || n == 0x1680 || (0x2000 ≤ n && n ≤ 0x200a)
    || n == 0x2028 || n == 0x2029 || n == 0x202f || n == 0x205f || n == 0x3000 || n == 0xfeff

/-- The text without the white space at its front. -/
def trimFront (text : List Char) : List Char := text.dropWhile isBlank

/-- The text without the white space at its end. -/
def trimBack (text : List Char) : List Char := (trimFront text.reverse).reverse

/-- The text without white space at either end. -/
def trim (text : List Char) : List Char := trimBack (trimFront text)

theorem isBlank_of_isDigit {c : Char} (h : c.isDigit = true) : isBlank c = false := by
  obtain ⟨hlow, hhigh⟩ := Char.isDigit_iff_toNat.1 h
  have hzero : '0'.toNat = 48 := rfl
  have hnine : '9'.toNat = 57 := rfl
  simp only [isBlank, Bool.or_eq_false_iff, Bool.and_eq_false_iff, beq_eq_false_iff_ne,
    decide_eq_false_iff_not]
  omega

end ServedChain.Text
