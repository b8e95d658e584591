/-
  ServedChain — patterns of texts that are tried in a fixed order: the first way
  to match that lets everything behind match as well is the match.

  A pattern is given a place in a text and what must match behind it.  What was
  found on the way is kept at the place.
-/

namespace ServedChain.Text

structure Cursor (α : Type) where
  /-- The character in front of the place -/
  previous : Option Char
  rest : List Char
  /-- What was found so far -/
  found : α

abbrev Pattern (α : Type) := Cursor α → (Cursor α → Option (Cursor α)) → Option (Cursor α)

namespace Pattern

variable {α : Type}

def skip : Pattern α := fun cursor go => go cursor

def one (kind : Char → Bool) : Pattern α := fun cursor go =>
  match cursor.rest with
  | [] => none
  | c :: rest => if kind c then go { cursor with previous := some c, rest } else none

def followedBy (first second : Pattern α) : Pattern α := fun cursor go =>
  first cursor fun cursor => second cursor go

/-- One pattern, or else another. -/
def either (first second : Pattern α) : Pattern α := fun cursor go =>
  match first cursor go with
  | some found => some found
  | none => second cursor go

/-- Several patterns, one after another. -/
def sequence (patterns : List (Pattern α)) : Pattern α := patterns.foldr followedBy skip

def exactly (text : String) : Pattern α := sequence (text.toList.map fun c => one (· == c))

/-- A pattern, if it can be matched. -/
def perhaps (pattern : Pattern α) : Pattern α := either pattern skip

/-- A pattern at most so many times, rather often than seldom. -/
def atMost (pattern : Pattern α) : (count : Nat) → Pattern α
  | 0 => skip
  | count + 1 => either (followedBy pattern (atMost pattern count)) skip

/-- A pattern at most so many times, rather seldom than often. -/
def atMostFew (pattern : Pattern α) : (count : Nat) → Pattern α
  | 0 => skip
  | count + 1 => either skip (followedBy pattern (atMostFew pattern count))

/-- A pattern that takes something off the text any number of times, rather often than seldom. -/
def many (pattern : Pattern α) : Pattern α := fun cursor =>
  atMost pattern cursor.rest.length cursor

/-- A pattern that takes something off the text any number of times, rather seldom than often. -/
def few (pattern : Pattern α) : Pattern α := fun cursor =>
  atMostFew pattern cursor.rest.length cursor

/-- A pattern whose text is put with what was found. -/
def noting (pattern : Pattern α) (note : List Char → α → α) : Pattern α := fun start go =>
  pattern start fun cursor =>
    let text := start.rest.take (start.rest.length - cursor.rest.length)
    go { cursor with found := note text cursor.found }

/-- Whether a character ends a line. -/
def endsLine (c : Char) : Bool :=
  c == '\n' || c == '\r' || c.toNat == 0x2028 || c.toNat == 0x2029

def lineStart : Pattern α := fun cursor go =>
  if cursor.previous.all endsLine then go cursor else none

def lineEnd : Pattern α := fun cursor go =>
  if cursor.rest.head?.all endsLine then go cursor else none

/-- The first match at a place. -/
def match? (pattern : Pattern α) (cursor : Cursor α) : Option (Cursor α) := pattern cursor some

end Pattern

end ServedChain.Text
