/-
  ServedChain — the values of the ASN.1 types that certificates are made of.

  A string may be split into parts, which are strings themselves, a few levels
  deep; `Element.octets?` joins them.  `Element.isValue` says whether an element
  of any type holds a value of that type, as far as the type is looked into.
-/
import ServedChain.Asn1.Element

namespace ServedChain.Asn1

/-! ## Structures -/

namespace Element

def sequence? (e : Element) : Option (List Element) :=
  if e.tag = universal 16 ∧ e.constructed then elements? e.contents else none

/-- The items of a list under a tag. -/
def items? (tag : Tag) (e : Element) : Option (List Element) :=
  if e.tag = tag then elements? e.contents else none

/-- The one element under a tag of its own. -/
def tagged? (number : Nat) (e : Element) : Option Element :=
  if e.tag = context number ∧ e.constructed then
    match elements? e.contents with
    | some [inner] => some inner
    | _ => none
  else none

end Element

/-- The first of some elements, if it has a given tag, and the others. -/
def optional (tag : Tag) : List Element → Option Element × List Element
  | [] => (none, [])
  | e :: es => if e.tag = tag then (some e, es) else (none, e :: es)

/-! ## Strings -/

/-- The parts of a string joined, with at most `levels` levels of parts in parts. -/
def joinParts? : (levels : Nat) → (contents : Bytes) → Option Bytes
  | 0, contents => do
    let parts ← elements? contents
    if parts.any (·.constructed) then none else some (parts.flatMap (·.contents))
  | levels + 1, contents => do
    let parts ← elements? contents
    let texts ← parts.mapM fun part =>
      if part.constructed then joinParts? levels part.contents else some part.contents
    return texts.flatten

namespace Element

def octets? (e : Element) : Option Bytes :=
  if e.constructed then joinParts? 5 e.contents else some e.contents

/-- The bytes of a string of bits; the first byte of it says how many bits of the last one do not
    count, and those are cleared. -/
def bits? (e : Element) : Option Bytes := do
  match ← e.octets? with
  | [] => none
  | unused :: bytes =>
    if unused < 8 then
      some (bytes.dropLast ++ bytes.getLast?.toList.map fun b => b &&& (0xff <<< unused))
    else none

/-! ## Numbers -/

/-- An integer, written with as few bytes as possible. -/
def isInteger (e : Element) : Bool :=
  !e.constructed && match e.contents with
    | [] => false
    | [_] => true
    | a :: b :: _ => !(a == 0 && b < 0x80) && !(a == 0xff && 0x80 ≤ b)

end Element

/-! ## Object identifiers -/

/-- The arcs of an object identifier. -/
abbrev Oid := List Nat

namespace Oid

/-- The numbers that a byte string holds in groups of seven bits, behind a number already begun;
    no number starts with an empty group, and none is cut off. -/
def numbers? : (begun : Option Nat) → Bytes → Option (List Nat)
  | none, [] => some []
  | some _, [] => none
  | begun, b :: bs =>
    if begun.isNone ∧ b = 0x80 then none
    else
      let n := begun.getD 0 * 128 + (b &&& 0x7f).toNat
      if b < 0x80 then (numbers? none bs).map (n :: ·) else numbers? (some n) bs

/-- The arcs that a byte string stands for; its first number holds two. -/
def ofBytes? (bs : Bytes) : Option Oid := do
  match ← numbers? none bs with
  | [] => none
  | n :: ns => if n < 80 then some (n / 40 :: n % 40 :: ns) else some (2 :: (n - 80) :: ns)

/-- The arcs with dots between. -/
def dotted (oid : Oid) : String := ".".intercalate (oid.map toString)

end Oid

namespace Element

/-- The value of an object identifier. -/
def oid? (e : Element) : Option Oid :=
  if e.tag = universal 6 ∧ !e.constructed then Oid.ofBytes? e.contents else none

/-! ## Any type -/

/-- Whether the contents of a string fit the width of its characters, or the shortest form of a
    time, for the types with such a rule. -/
def fitsType (number length : Nat) : Bool :=
  match number with
  | 23 => 13 ≤ length
  | 24 => 15 ≤ length
  | 28 => length % 4 = 0
  | 30 => length % 2 = 0
  | _ => true

/-- A value of the type that the tag tells; tags that are not universal may hold anything. -/
def isValue (e : Element) : Bool :=
  if e.tag.tagClass = .universal then
    match e.tag.number with
    | 1 => !e.constructed && e.contents.length == 1
    | 2 | 10 => e.isInteger
    | 3 => e.bits?.isSome
    | 5 => !e.constructed && e.contents.isEmpty
    | 6 => e.oid?.isSome
    | 16 | 17 => e.constructed
    | number => e.octets?.any fun octets => fitsType number octets.length
  else true

/-- A value of the universal type with the given number. -/
def isOf (number : Nat) (e : Element) : Bool := e.tag = universal number && e.isValue

end Element

end ServedChain.Asn1
