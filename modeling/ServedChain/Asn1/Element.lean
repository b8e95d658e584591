/-
  ServedChain — elements of ASN.1 in the basic encoding rules (X.690): a tag, a
  length and contents.

  Lengths may be written with more bytes than needed, and a constructed element
  may have no length at all: then it goes on up to an end mark, two zero bytes,
  of its own.

  * `Header.read?` reads a tag and a length, `Element.read?` a whole element;
  * `elements?` splits contents into the elements that they consist of.
-/
import ServedChain.Bytes

namespace ServedChain.Asn1

/-! ## Tags -/

inductive TagClass where
  | universal
  | application
  | context
  | privateUse
  deriving DecidableEq, Repr

structure Tag where
  tagClass : TagClass
  number : Nat
  deriving DecidableEq, Repr

/-- A tag of the types that are known everywhere. -/
def universal (number : Nat) : Tag := ⟨.universal, number⟩

/-- A tag that has its meaning where it stands. -/
def context (number : Nat) : Tag := ⟨.context, number⟩

/-- The class given by the two highest bits of a byte. -/
def TagClass.ofByte (b : UInt8) : TagClass :=
  if b < 0x40 then .universal
  else if b < 0x80 then .application
  else if b < 0xc0 then .context
  else .privateUse

/-- A tag number in groups of seven bits, of which all but the last have the highest bit of
    their byte set, behind a number already read.  A number that exceeds 31 bits is not read. -/
def tagNumber? (number : Nat) : Bytes → Option (Nat × Bytes)
  | [] => none
  | b :: bs =>
    let number := number * 128 + (b &&& 0x7f).toNat
    if b < 0x80 then some (number, bs)
    else if number < 1 <<< 24 then tagNumber? number bs
    else none

/-- The tag number whose first byte, which also holds other things, is `b`. -/
def tagNumberFrom? (b : UInt8) (bs : Bytes) : Option (Nat × Bytes) :=
  if b &&& 0x1f = 0x1f then tagNumber? 0 bs else some ((b &&& 0x1f).toNat, bs)

/-! ## Headers -/

/-- What stands in front of the contents of an element. -/
structure Header where
  tag : Tag
  /-- The contents are elements -/
  constructed : Bool
  /-- The length of the contents, unless an end mark closes them -/
  length : Option Nat
  deriving DecidableEq, Repr

/-- A length, and the rest.  One that is written in several bytes must be followed by something,
    and fits 63 bits. -/
def length? : Bytes → Option (Option Nat × Bytes)
  | [] => none
  | b :: bs =>
    if b < 0x80 then some (some b.toNat, bs)
    else if b = 0x80 then some (none, bs)
    else
      let width := (b &&& 0x7f).toNat
      let n := Bytes.toNat (bs.take width)
      if width < bs.length ∧ n < 1 <<< 63 then some (some n, bs.drop width) else none

/-- The header at the front of a byte string, and the rest.  Only a constructed element goes
    without a length. -/
def Header.read? : Bytes → Option (Header × Bytes)
  | [] => none
  | b :: bs => do
    let (number, bs) ← tagNumberFrom? b bs
    let (length, bs) ← length? bs
    let constructed := b &&& 0x20 ≠ 0
    if length.isSome ∨ constructed then
      some (⟨⟨.ofByte b, number⟩, constructed, length⟩, bs)
    else none

theorem length_of_tagNumber? {number n : Nat} {bs rest : Bytes}
    (h : tagNumber? number bs = some (n, rest)) : rest.length < bs.length := by
  induction bs generalizing number with
  | nil => cases h
  | cons b bs ih =>
    simp only [tagNumber?] at h
    split at h
    · cases h; simp
    · split at h
      · exact Nat.lt_succ_of_lt (ih h)
      · cases h

theorem length_of_length? {bs rest : Bytes} {length : Option Nat}
    (h : length? bs = some (length, rest)) : rest.length < bs.length := by
  cases bs with
  | nil => cases h
  | cons b bs =>
    simp only [length?] at h
    split at h
    · cases h; simp
    · split at h
      · cases h; simp
      · split at h
        · cases h; simp only [List.length_drop, List.length_cons]; omega
        · cases h

theorem Header.length_of_read? {bs rest : Bytes} {header : Header}
    (h : Header.read? bs = some (header, rest)) : rest.length < bs.length := by
  cases bs with
  | nil => cases h
  | cons b bs =>
    simp only [Header.read?, Option.bind_eq_bind, Option.bind_eq_some_iff] at h
    obtain ⟨⟨number, bs'⟩, hnumber, ⟨length, bs''⟩, hlength, hrest⟩ := h
    have hlt := length_of_length? hlength
    have hle : bs'.length ≤ bs.length := by
      unfold tagNumberFrom? at hnumber
      split at hnumber
      · exact Nat.le_of_lt (length_of_tagNumber? hnumber)
      · cases hnumber; exact Nat.le_refl _
    split at hrest
    · cases hrest
      exact Nat.lt_succ_of_lt (Nat.lt_of_lt_of_le hlt hle)
    · cases hrest

/-! ## Elements -/

structure Element where
  tag : Tag
  /-- The contents are elements -/
  constructed : Bool
  contents : Bytes
  /-- All bytes of the element -/
  encoding : Bytes
  deriving DecidableEq, Repr

/-- How many bytes stand before the end mark that closes contents of unknown length, if `depth`
    other ones come before it. -/
def lengthToMark? (depth : Nat) (bs : Bytes) : Option Nat :=
  match bs, depth with
  | 0 :: 0 :: _, 0 => some 0
  | 0 :: 0 :: rest, depth + 1 => (lengthToMark? depth rest).map (· + 2)
  | bs, depth =>
    match _h : Header.read? bs with
    | none => none
    | some (header, rest) =>
      match header.length with
      | none => (lengthToMark? (depth + 1) rest).map (· + (bs.length - rest.length))
      | some n =>
        if n ≤ rest.length then
          (lengthToMark? depth (rest.drop n)).map (· + (bs.length - rest.length + n))
        else none
termination_by bs.length
decreasing_by
  · simp only [List.length_cons]; omega
  · exact Header.length_of_read? _h
  · simp only [List.length_drop]
    exact Nat.lt_of_le_of_lt (Nat.sub_le _ _) (Header.length_of_read? _h)

/-- The lengths of the contents behind a header and of the end mark behind them. -/
def Header.extent? (header : Header) (rest : Bytes) : Option (Nat × Nat) :=
  match header.length with
  | some n => some (n, 0)
  | none => (lengthToMark? 0 rest).map fun n => (n, 2)

/-- The element at the front of a byte string, and the rest. -/
def Element.read? (bs : Bytes) : Option (Element × Bytes) := do
  let (header, rest) ← Header.read? bs
  let (length, markLength) ← header.extent? rest
  let (contents, rest) ← Bytes.cut? length rest
  let rest := rest.drop markLength
  return (⟨header.tag, header.constructed, contents, bs.take (bs.length - rest.length)⟩, rest)

theorem Element.length_of_read? {bs rest : Bytes} {element : Element}
    (h : Element.read? bs = some (element, rest)) : rest.length < bs.length := by
  simp only [Element.read?, Option.bind_eq_bind, Option.bind_eq_some_iff, Option.pure_def,
    Option.some.injEq, Prod.mk.injEq] at h
  obtain ⟨⟨header, rest'⟩, hheader, ⟨length, markLength⟩, -, ⟨contents, rest''⟩, hcut, -, rfl⟩ := h
  have := Header.length_of_read? hheader
  have := congrArg List.length (Bytes.cut?_eq_some_iff.1 hcut).1
  simp only [List.length_append] at this
  simp only [List.length_drop]
  omega

/-- The elements that contents consist of.  An end mark is not an element. -/
def elements? (bs : Bytes) : Option (List Element) :=
  match bs with
  | [] => some []
  | 0 :: 0 :: _ => none
  | b :: bs =>
    match _h : Element.read? (b :: bs) with
    | none => none
    | some (element, rest) => (elements? rest).map (element :: ·)
termination_by bs.length
decreasing_by exact Element.length_of_read? _h

end ServedChain.Asn1
