/-
  ServedChain — files with variables: a name, an equals sign or a colon, and a
  value on each line.

  A value may stand between quotation marks of three kinds and then go on over
  several lines; between double ones `\n` and `\r` are the ends of lines.  What
  follows a `#` outside of them is a comment.  Lines of any other form are passed
  over.
-/
import ServedChain.Settings.Environment
import ServedChain.Text.Pattern

namespace ServedChain.EnvironmentFile

open Text (Cursor Pattern isBlank)
open Text.Pattern

/-! ## Lines -/

/-- What is found on a line: a name, and a value with its quotation marks. -/
structure Assignment where
  name : List Char
  value : List Char
  deriving DecidableEq, Repr

/-- The quotation marks: single, double and back ones. -/
def marks : List Char := [Char.ofNat 0x27, '"', Char.ofNat 0x60]

def blank : Pattern Assignment := one isBlank

def nameChar (c : Char) : Bool := c.isAlphanum || c == '_' || c == '.' || c == '-'

/-- A text between two marks; behind a backslash the mark does not end it, if it can go on. -/
def between (mark : Char) : Pattern Assignment :=
  sequence [many blank, one (· == mark),
    many (either (sequence [one (· == '\\'), one (· == mark)]) (one (· != mark))),
    one (· == mark)]

def value : Pattern Assignment :=
  (marks.map between).foldr either
    (let plain := one fun c => c != '#' && c != '\r' && c != '\n'
     sequence [plain, many plain])

/-- A line with a name and a value. -/
def line : Pattern Assignment :=
  sequence [
    lineStart, many blank,
    perhaps (sequence [exactly "export", blank, many blank]),
    noting (sequence [one nameChar, many (one nameChar)]) fun name found => { found with name },
    either (sequence [many blank, one (· == '='), few blank])
      (sequence [one (· == ':'), blank, few blank]),
    perhaps (noting value fun value found => { found with value }),
    many blank,
    perhaps (sequence [one (· == '#'), many (one fun c => !endsLine c)]),
    lineEnd]

/-- The assignments in a text, of which so many characters are looked at, behind a character. -/
def assignments : (count : Nat) → (previous : Option Char) → List Char → List Assignment
  | 0, _, _ => []
  | _, _, [] => []
  | count + 1, previous, c :: cs =>
    match line.match? ⟨previous, c :: cs, ⟨[], []⟩⟩ with
    | some cursor => cursor.found :: assignments count cursor.previous cursor.rest
    | none => assignments count (some c) cs

/-! ## Values -/

/-- The text up to the last mark that ends a line, and what follows the mark. -/
def splitAtLast (mark : Char) : List Char → Option (List Char × List Char)
  | [] => none
  | c :: cs =>
    match splitAtLast mark cs with
    | some (text, rest) => some (c :: text, rest)
    | none => if c = mark ∧ cs.head?.all endsLine then some ([], cs) else none

theorem length_of_splitAtLast {mark : Char} {text front rest : List Char}
    (h : splitAtLast mark text = some (front, rest)) : rest.length < text.length := by
  induction text generalizing front with
  | nil => cases h
  | cons c cs ih =>
    rw [splitAtLast] at h
    split at h
    · next hs => cases h; exact Nat.lt_succ_of_lt (ih hs)
    · split at h
      · cases h; simp
      · cases h

/-- Whether a character is a quotation mark. -/
def isMark (c : Char) : Bool := marks.contains c

/-- A text, behind some character, without the marks around its lines. -/
def unquote (previous : Option Char) : List Char → List Char
  | [] => []
  | c :: cs =>
    match _h : splitAtLast c cs with
    | some (text, rest) =>
      if previous.all endsLine && isMark c then text ++ unquote (some c) rest
      else c :: unquote (some c) cs
    | none => c :: unquote (some c) cs
termination_by text => text.length
decreasing_by
  · exact Nat.lt_succ_of_lt (length_of_splitAtLast _h)
  · exact Nat.lt_succ_self _
  · exact Nat.lt_succ_self _

/-- A text with a character in the place of each backslash with a given letter. -/
def replaceEscape (letter result : Char) : List Char → List Char
  | '\\' :: c :: cs =>
    if c = letter then result :: replaceEscape letter result cs
    else '\\' :: replaceEscape letter result (c :: cs)
  | c :: cs => c :: replaceEscape letter result cs
  | [] => []

/-- The value that an assignment gives. -/
def plainValue (written : List Char) : List Char :=
  let trimmed := Text.trim written
  let text := unquote none trimmed
  if trimmed.head? = some '"' then replaceEscape 'r' '\r' (replaceEscape 'n' '\n' text) else text

/-! ## Files -/

/-- A text in which all ends of lines are line feeds. -/
def unifyNewlines : List Char → List Char
  | '\r' :: '\n' :: cs => '\n' :: unifyNewlines cs
  | '\r' :: cs => '\n' :: unifyNewlines cs
  | c :: cs => c :: unifyNewlines cs
  | [] => []

/-- The variables in a text.  Of several values of one variable the last one counts. -/
def parse (text : List Char) : Environment :=
  let text := unifyNewlines text
  ((assignments text.length none text).map fun a =>
    (String.ofList a.name, String.ofList (plainValue a.value))).reverse

end ServedChain.EnvironmentFile
