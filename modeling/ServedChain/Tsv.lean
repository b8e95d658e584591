/-
  ServedChain — tables as text: fields with tabs between them, rows on lines.

  A field that starts with a quotation mark goes on to the mark that closes it;
  inside, two marks stand for one.  The first end of a line outside quotation
  marks, of whichever form, is the only form of it in the text.  Lines without
  any character are no rows.

  * `Tsv.parse` gives the rows of a text;
  * `Tsv.Error` is what can be wrong with the marks.
-/

namespace ServedChain.Tsv

inductive Error where
  /-- A quotation mark inside a field that does not start with one -/
  | openingQuote
  /-- A closing mark with more text behind it -/
  | closingQuote
  /-- A mark that is not closed -/
  | quoteNotClosed
  deriving DecidableEq, Repr

def Error.code : Error → String
  | openingQuote => "INVALID_OPENING_QUOTE"
  | closingQuote => "CSV_INVALID_CLOSING_QUOTE"
  | quoteNotClosed => "CSV_QUOTE_NOT_CLOSED"

/-! ## Ends of lines -/

/-- The forms of the end of a line. -/
inductive Newline where
  | crlf
  | lf
  | cr
  deriving DecidableEq, Repr

/-- The characters of the end of a line. -/
def Newline.chars : Newline → List Char
  | crlf => ['\r', '\n']
  | lf => ['\n']
  | cr => ['\r']

/-- The end of a line at the front of a text. -/
def Newline.first? : List Char → Option Newline
  | '\r' :: '\n' :: _ => some .crlf
  | '\n' :: _ => some .lf
  | '\r' :: _ => some .cr
  | _ => none

/-- The end of a line at the front of a text, if the form of it is either known or not. -/
def newlineAt? (known : Option Newline) (text : List Char) : Option Newline :=
  match known with
  | none => Newline.first? text
  | some newline => if newline.chars.isPrefixOf text then some newline else none

/-! ## Fields -/

inductive Stop where
  | tab
  | newline (form : Newline)
  | finish
  deriving DecidableEq, Repr

/-- What closes a field at the front of a text, and what follows. -/
def stopAt? (known : Option Newline) : List Char → Option (Stop × List Char)
  | [] => some (.finish, [])
  | c :: cs =>
    match newlineAt? known (c :: cs) with
    | some newline => some (.newline newline, (c :: cs).drop newline.chars.length)
    | none => if c = '\t' then some (.tab, cs) else none

structure Field where
  value : List Char
  quoted : Bool
  stop : Stop
  deriving DecidableEq, Repr

/-- The rest of a field outside quotation marks, behind `value`, and what follows it. -/
def bare (known : Option Newline) (quoted : Bool) (value : List Char) :
    List Char → Except Error (Field × List Char)
  | [] => .ok (⟨value, quoted, .finish⟩, [])
  | c :: cs =>
    match stopAt? known (c :: cs) with
    | some (stop, rest) => .ok (⟨value, quoted, stop⟩, rest)
    | none => if c = '"' then .error .openingQuote else bare known quoted (value ++ [c]) cs

/-- What follows a mark that closes a field.  A null character does not end the field. -/
def closed (known : Option Newline) (value : List Char) :
    List Char → Except Error (Field × List Char)
  | [] => .ok (⟨value, true, .finish⟩, [])
  | c :: cs =>
    match stopAt? known (c :: cs) with
    | some (stop, rest) => .ok (⟨value, true, stop⟩, rest)
    | none => if c.toNat = 0 then bare known true value (c :: cs) else .error .closingQuote

/-- The rest of a field inside quotation marks, behind `value`, and what follows it. -/
def quoted (known : Option Newline) (value : List Char) : List Char →
    Except Error (Field × List Char)
  | [] => .error .quoteNotClosed
  | '"' :: '"' :: cs => quoted known (value ++ ['"']) cs
  | '"' :: cs => closed known value cs
  | c :: cs => quoted known (value ++ [c]) cs

/-- The field at the front of a text, and what follows it. -/
def field (known : Option Newline) : List Char → Except Error (Field × List Char)
  | '"' :: cs => quoted known [] cs
  | text => bare known false [] text

/-! ### Fields take something off the text -/

theorem Newline.length_chars_pos (newline : Newline) : 0 < newline.chars.length := by
  cases newline <;> decide

theorem length_of_stopAt? {known : Option Newline} {text rest : List Char} {stop : Stop}
    (h : stopAt? known text = some (stop, rest)) (hstop : stop ≠ .finish) :
    rest.length < text.length := by
  match text with
  | [] => cases h; exact absurd rfl hstop
  | c :: cs =>
    simp only [stopAt?] at h
    split at h
    · next newline _ =>
      cases h
      have := newline.length_chars_pos
      simp only [List.length_drop, List.length_cons]
      omega
    · split at h
      · cases h; simp
      · cases h

theorem length_of_bare {known : Option Newline} {quoted : Bool} {value text rest : List Char}
    {f : Field} (h : bare known quoted value text = .ok (f, rest)) (hstop : f.stop ≠ .finish) :
    rest.length < text.length := by
  induction text generalizing value with
  | nil => cases h; exact absurd rfl hstop
  | cons c cs ih =>
    rw [bare] at h
    split at h
    · next hs => cases h; exact length_of_stopAt? hs hstop
    · split at h
      · cases h
      · exact Nat.lt_succ_of_lt (ih h)

theorem length_of_closed {known : Option Newline} {value text rest : List Char} {f : Field}
    (h : closed known value text = .ok (f, rest)) (hstop : f.stop ≠ .finish) :
    rest.length < text.length := by
  cases text with
  | nil => cases h; exact absurd rfl hstop
  | cons c cs =>
    rw [closed] at h
    split at h
    · next hs => cases h; exact length_of_stopAt? hs hstop
    · split at h
      · exact length_of_bare h hstop
      · cases h

theorem length_of_quoted {known : Option Newline} {value text rest : List Char} {f : Field}
    (h : quoted known value text = .ok (f, rest)) (hstop : f.stop ≠ .finish) :
    rest.length < text.length := by
  fun_induction quoted known value text with
  | case1 => cases h
  | case2 _ _ ih => exact Nat.lt_succ_of_lt (Nat.lt_succ_of_lt (ih h))
  | case3 => exact Nat.lt_succ_of_lt (length_of_closed h hstop)
  | case4 _ _ _ _ _ ih => exact Nat.lt_succ_of_lt (ih h)

theorem length_of_field {known : Option Newline} {text rest : List Char} {f : Field}
    (h : field known text = .ok (f, rest)) (hstop : f.stop ≠ .finish) :
    rest.length < text.length := by
  unfold field at h
  split at h
  · exact Nat.lt_succ_of_lt (length_of_quoted h hstop)
  · exact length_of_bare h hstop

/-! ## Rows -/

abbrev Row := List (List Char)

/-- The row as the first one of some rows, unless it has no character at all. -/
def consRow (row : Row) (last : Field) (rows : List Row) : List Row :=
  if row = [[]] ∧ !last.quoted then rows else row :: rows

/-- The rows of a text, of the first of which some fields are already read. -/
def rows (known : Option Newline) (fields : Row) (text : List Char) : Except Error (List Row) :=
  match _h : field known text with
  | .error e => .error e
  | .ok (f, rest) =>
    let row := fields ++ [f.value]
    match _hstop : f.stop with
    | .finish => .ok (consRow row f [])
    | .tab => rows known row rest
    | .newline form => (rows (some form) [] rest).map (consRow row f)
termination_by text.length
decreasing_by
  · exact length_of_field _h (by rw [_hstop]; simp)
  · exact length_of_field _h (by rw [_hstop]; simp)

def parse (text : List Char) : Except Error (List Row) := rows none [] text

end ServedChain.Tsv
