/-
  ServedChain — distinguished names and their text.

  A name is a list of relative names, and each of those a list of attributes.
  The text has one line for each relative name, with ` + ` between attributes;
  values are escaped so that no value reaches beyond its place.

  * `Name.ofElement?` decodes a name;
  * `Name.render` is its text;
  * `commonNameIn` reads the last common name off a text of that form.
-/
import ServedChain.Hex
import ServedChain.Text.Split
import ServedChain.Text.Utf8
import ServedChain.X509.AttributeType

namespace ServedChain.X509

open Asn1 (Oid Element universal)

structure Attribute where
  type : Oid
  value : List Char
  deriving DecidableEq, Repr

/-- The attributes that together name something at one level. -/
abbrev RelativeName := List Attribute

/-- A distinguished name, from the root of the directory down. -/
abbrev Name := List RelativeName

/-! ## Decoding -/

/-- The text of a string with characters of `width + 1` bytes. -/
def wideText? (width : Nat) (octets : Bytes) : Option (List Char) :=
  (Bytes.pieces width octets).mapM fun piece =>
    let n := Bytes.toNat piece
    if piece.length = width + 1 ∧ n.isValidChar then some (Char.ofNat n) else none

/-- The text of a string with characters of one byte, numbered as in Latin-1. -/
def latin1 (octets : Bytes) : List Char := octets.map fun b => Char.ofNat b.toNat

/-- The text of an attribute value.  Characters outside the alphabet of a type are let through;
    values of a type that names are not made of, but that is not known otherwise, are read as
    Latin-1. -/
def valueText? (e : Element) : Option (List Char) :=
  if e.tag.tagClass = .universal then
    match e.tag.number with
    | 12 => e.octets?.bind Utf8.decode?
    | 28 => e.octets?.bind (wideText? 3)
    | 30 => e.octets?.bind (wideText? 1)
    | 18 | 19 | 20 | 22 | 7 | 8 | 9 | 11 | 13 | 14 | 15 | 29 => e.octets?.map latin1
    | 3 => e.bits?.map latin1
    | 16 => if e.constructed then some (latin1 e.encoding) else none
    | _ => none
  else none

/-- The attribute that an element holds. -/
def Attribute.ofElement? (e : Element) : Option Attribute := do
  match ← e.sequence? with
  | [type, value] => return ⟨← type.oid?, ← valueText? value⟩
  | _ => none

/-- The relative name that an element holds. -/
def RelativeName.ofElement? (e : Element) : Option RelativeName := do
  (← e.items? (universal 17)).mapM Attribute.ofElement?

/-- The name that an element holds. -/
def Name.ofElement? (e : Element) : Option Name := do
  (← e.items? (universal 16)).mapM RelativeName.ofElement?

/-! ## Text -/

/-- Where a character of a value stands.  The only character stands last. -/
inductive Place where
  | first
  | inside
  | last
  deriving DecidableEq, Repr

/-- Characters that stand behind a backslash. -/
def isSpecial (place : Place) (c : Char) : Bool :=
  [',', '+', '"', '\\', '<', '>', ';'].contains c
    || (place == .first && (c == '#' || c == ' '))
    || (place == .last && c == ' ')

/-- Control characters, which are written by their number. -/
def isControl (c : Char) : Bool := c.toNat < 0x20 || c.toNat == 0x7f

/-- A character of a value as it is written. -/
def escapeChar (place : Place) (c : Char) : List Char :=
  if isSpecial place c then ['\\', c]
  else if isControl c then ['\\', Hex.upperDigit (c.toNat / 16), Hex.upperDigit (c.toNat % 16)]
  else [c]

/-- The characters of a value from `place` on as they are written. -/
def escapeFrom (place : Place) : List Char → List Char
  | [] => []
  | [c] => escapeChar .last c
  | c :: cs => escapeChar place c ++ escapeFrom .inside cs

def escape (value : List Char) : List Char := escapeFrom .first value

def Attribute.render (a : Attribute) : List Char := typeText a.type ++ '=' :: escape a.value

/-- The text of a relative name. -/
def RelativeName.render : RelativeName → List Char
  | [] => []
  | [a] => a.render
  | a :: as => a.render ++ " + ".toList ++ RelativeName.render as

/-- The text of a name; a relative name without attributes has no line. -/
def Name.render (name : Name) : List Char :=
  Text.join '\n' ((name.filter (!·.isEmpty)).map RelativeName.render)

/-! ## Common names -/

/-- What follows `CN=` in a line that starts so. -/
def commonNameInLine? : List Char → Option (List Char)
  | 'C' :: 'N' :: '=' :: value => some value
  | _ => none

/-- The common name in the text of a name: that of the last line with one, or nothing. -/
def commonNameIn (text : List Char) : List Char :=
  ((Text.split '\n' text).filterMap commonNameInLine?).getLastD []

end ServedChain.X509
