/-
  Tables as they are written, and what is read of them.

  A field may stand in quotation marks, and must if it has a tab, a quotation mark or
  the end of a line in it, or else would be an empty line.  The lines end all in the
  same form, also the blank ones, of which any number may stand between the rows; the
  last row may go without.

  * `WrittenTable.text` is the text of a table that is written so;
  * `parse_text`: its rows are read with the values that were written;
  * `ofTable_text`: so the hosts of the table are its first column, with the labels
    turned around.
-/
import ServedChain.Hostname
import ServedChain.Proofs.Tsv.Steps

namespace ServedChain

namespace Tsv

/-! ## Writing -/

/-- Characters that mean nothing but themselves. -/
def isPlain (c : Char) : Bool := c != '\t' && c != '"' && c != '\r' && c != '\n'

/-- The text with every quotation mark twice. -/
def doubled (text : List Char) : List Char :=
  text.flatMap fun c => if c = '"' then ['"', '"'] else [c]

structure WrittenField where
  value : List Char
  quoted : Bool
  plain : quoted = false → ∀ c ∈ value, isPlain c = true

def WrittenField.text (f : WrittenField) : List Char :=
  if f.quoted then '"' :: (doubled f.value ++ ['"']) else f.value

/-- A row, which has some field, and is not written as an empty line. -/
structure WrittenRow where
  first : WrittenField
  others : List WrittenField
  visible : others = [] → first.value = [] → first.quoted = true

namespace WrittenRow

def values (row : WrittenRow) : Row := row.first.value :: row.others.map (·.value)

def text (row : WrittenRow) : List Char :=
  Text.join '\t' ((row.first :: row.others).map (·.text))

end WrittenRow

def blankLines (newline : Newline) (count : Nat) : List Char :=
  (List.replicate count newline.chars).flatten

/-- A table, which has some row. -/
structure WrittenTable where
  newline : Newline
  /-- How many blank lines stand in front of the first row -/
  blankFront : Nat
  /-- All rows but the last one, with how many blank lines stand behind each -/
  front : List (WrittenRow × Nat)
  last : WrittenRow
  /-- How many blank lines stand behind the last row, if that ends like the others -/
  blankBack : Option Nat

namespace WrittenTable

def rows (table : WrittenTable) : List WrittenRow := table.front.map (·.1) ++ [table.last]

/-- The end of a line and blank lines behind it. -/
def endText (newline : Newline) (blank : Nat) : List Char :=
  newline.chars ++ blankLines newline blank

/-- The text of the rows of a table, from some row on. -/
def textFrom (table : WrittenTable) (rows : List (WrittenRow × Nat)) : List Char :=
  (rows.flatMap fun entry => entry.1.text ++ endText table.newline entry.2)
    ++ (table.last.text ++ table.blankBack.elim [] (endText table.newline))

def text (table : WrittenTable) : List Char :=
  blankLines table.newline table.blankFront ++ table.textFrom table.front

end WrittenTable

/-! ## Reading fields -/

theorem isPlain_iff (c : Char) :
    isPlain c = true ↔ c ≠ '\t' ∧ c ≠ '"' ∧ c ≠ '\r' ∧ c ≠ '\n' := by
  simp [isPlain, and_assoc]

/-- A value that is written as it is starts with a plain character. -/
theorem WrittenField.head?_value_ne {f : WrittenField} (hquoted : f.quoted = false) {c : Char}
    (hc : isPlain c = false) : f.value.head? ≠ some c := by
  intro h
  have hplain := f.plain hquoted c (List.mem_of_head? h)
  rw [hc] at hplain
  cases hplain

section
variable {known : Option Newline} {rest behind : List Char} {stop : Stop}

/-- Plain characters are read as they are. -/
theorem bare_append {front : List Char} (hfront : ∀ c ∈ front, isPlain c = true) (quoted : Bool)
    (value : List Char) :
    bare known quoted value (front ++ rest) = bare known quoted (value ++ front) rest := by
  induction front generalizing value with
  | nil => rw [List.nil_append, List.append_nil]
  | cons c cs ih =>
    obtain ⟨hc, hcs⟩ := List.forall_mem_cons.1 hfront
    obtain ⟨htab, hquote, hreturn, hfeed⟩ := (isPlain_iff c).1 hc
    have hnone := newlineAt?_eq_none hreturn hfeed known (cs ++ rest)
    rw [List.cons_append, bare_cons hnone htab hquote, ih hcs, List.append_assoc,
      List.singleton_append]

/-- What stands between quotation marks is read as it is, whatever it is. -/
theorem quoted_doubled (hrest : rest.head? ≠ some '"') (value text : List Char) :
    quoted known value (doubled text ++ '"' :: rest) = closed known (value ++ text) rest := by
  induction text generalizing value with
  | nil =>
    rw [List.append_nil]
    exact quoted_quote hrest known value
  | cons c cs ih =>
    have hvalue : value ++ c :: cs = value ++ [c] ++ cs := by simp
    rw [hvalue, ← ih]
    by_cases hc : c = '"'
    · subst hc
      rfl
    · have hdoubled : doubled (c :: cs) = c :: doubled cs := by simp [doubled, hc]
      rw [hdoubled, List.cons_append, quoted_cons hc]

variable (hstop : stopAt? known rest = some (stop, behind))
include hstop

theorem field_text (f : WrittenField) :
    field known (f.text ++ rest) = .ok (⟨f.value, f.quoted, stop⟩, behind) := by
  have hrest := head?_ne_quote_of_stop hstop
  unfold WrittenField.text
  cases hquoted : f.quoted with
  | true =>
    have hread := (quoted_doubled hrest [] f.value).trans (closed_of_stop hstop _)
    simpa [field] using hread
  | false =>
    have hhead : (f.value ++ rest).head? ≠ some '"' := by
      rw [List.head?_append, ne_eq, Option.or_eq_some_iff]
      rintro (hvalue | ⟨-, h⟩)
      · exact f.head?_value_ne hquoted rfl hvalue
      · exact hrest h
    rw [if_neg Bool.false_ne_true, field_eq_bare hhead, bare_append (f.plain hquoted),
      bare_of_stop hstop, List.nil_append]

/-! ## Reading rows -/

/-- The fields of a row are read one after the other. -/
theorem rows_join (first : WrittenField) (others : List WrittenField) (fields : Row) :
    ∃ front f, front ++ [f.value] = first.value :: others.map (·.value) ∧ f.stop = stop
      ∧ (others = [] → f.quoted = first.quoted)
      ∧ rows known fields (Text.join '\t' ((first :: others).map (·.text)) ++ rest)
        = rowsBehind known (fields ++ front) f behind := by
  induction others generalizing first fields with
  | nil =>
    refine ⟨[], ⟨first.value, first.quoted, stop⟩, rfl, rfl, fun _ => rfl, ?_⟩
    rw [List.append_nil]
    exact rows_of_field (field_text hstop first) fields
  | cons next others ih =>
    obtain ⟨front, f, hvalues, hf, -, hrows⟩ := ih next (fields ++ [first.value])
    refine ⟨first.value :: front, f, ?_, hf, nofun, ?_⟩
    · rw [List.cons_append, hvalues]
      rfl
    · have htext : Text.join '\t' ((first :: next :: others).map (·.text)) ++ rest
          = first.text ++ '\t' :: (Text.join '\t' ((next :: others).map (·.text)) ++ rest) := by
        simp [Text.join]
      have htab : fields ++ first.value :: front = fields ++ [first.value] ++ front := by simp
      rw [htext, htab, ← hrows]
      exact rows_of_field (field_text (stopAt?_tab known _) first) fields

/-- A row is read with its values, and never taken for a blank line. -/
theorem rows_text (row : WrittenRow) :
    ∃ fields f, fields ++ [f.value] = row.values ∧ f.stop = stop
      ∧ consRow row.values f = (row.values :: ·)
      ∧ rows known [] (row.text ++ rest) = rowsBehind known fields f behind := by
  obtain ⟨fields, f, hvalues, hf, hquoted, hrows⟩ := rows_join hstop row.first row.others []
  refine ⟨fields, f, hvalues, hf, funext fun rows => ?_, hrows⟩
  refine if_neg fun ⟨hempty, hbare⟩ => ?_
  obtain ⟨hfirst, hothers⟩ := List.cons.inj hempty
  have hothers := List.map_eq_nil_iff.1 hothers
  rw [hquoted hothers, row.visible hothers hfirst] at hbare
  cases hbare

end

/-- The last row of a text. -/
theorem rows_text_finish (known : Option Newline) (row : WrittenRow) :
    rows known [] row.text = .ok [row.values] := by
  have hstop : stopAt? known [] = some (.finish, []) := rfl
  obtain ⟨fields, f, hvalues, hf, hrow, hrows⟩ := rows_text hstop row
  rw [List.append_nil] at hrows
  rw [hrows, rowsBehind, hf, hvalues]
  exact congrArg Except.ok (congrFun hrow [])

/-- A row in front of the end of a line. -/
theorem rows_text_newline {known : Option Newline} {newline : Newline} {behind : List Char}
    (h : newlineAt? known (newline.chars ++ behind) = some newline) (row : WrittenRow) :
    rows known [] (row.text ++ (newline.chars ++ behind))
      = (rows (some newline) [] behind).map (row.values :: ·) := by
  obtain ⟨fields, f, hvalues, hf, hrow, hrows⟩ := rows_text (stopAt?_of_newline h) row
  rw [hrows, rowsBehind, hf, hvalues, hrow]

/-! ## Blank lines -/

theorem rows_nil (known : Option Newline) : rows known [] [] = .ok [] :=
  rows_eq_rowsFrom known [] nofun

theorem rows_newline {known : Option Newline} {newline : Newline} {text : List Char}
    (h : newlineAt? known (newline.chars ++ text) = some newline) :
    rows known [] (newline.chars ++ text) = rows (some newline) [] text := by
  have hhead := head?_ne_quote_of_stop (stopAt?_of_newline h)
  rw [rows_eq_rowsFrom _ _ hhead, rowsFrom_newline _ _ h]
  cases rows (some newline) [] text <;> rfl

theorem blankLines_succ (newline : Newline) (count : Nat) :
    blankLines newline (count + 1) = newline.chars ++ blankLines newline count := rfl

/-- Blank lines are passed over. -/
theorem rows_blankLines (newline : Newline) (count : Nat) (text : List Char) :
    rows (some newline) [] (blankLines newline count ++ text) = rows (some newline) [] text := by
  induction count with
  | zero => rfl
  | succ count ih =>
    rw [blankLines_succ, List.append_assoc, rows_newline (newlineAt?_some_chars _ _), ih]

/-! ## What stands behind the end of a line -/

theorem WrittenField.head?_text (f : WrittenField) : f.text.head? ≠ some '\n' := by
  unfold text
  cases hquoted : f.quoted with
  | true => simp
  | false => exact f.head?_value_ne hquoted rfl

/-- No row starts with a line feed, as none is an empty line. -/
theorem standsBefore_row (newline : Newline) (row : WrittenRow) (rest : List Char) :
    newline.StandsBefore (row.text ++ rest) := by
  intro _
  rw [WrittenRow.text]
  have hfirst := row.first.head?_text
  cases htext : row.first.text with
  | cons c cs =>
    rw [htext] at hfirst
    cases hothers : row.others <;> simpa [Text.join, htext] using hfirst
  | nil =>
    cases hothers : row.others with
    | cons next others => simp [Text.join, htext]
    | nil =>
      have hvisible := row.visible hothers
      unfold WrittenField.text at htext
      split at htext
      · cases htext
      · next hbare => exact absurd (hvisible htext) hbare

theorem standsBefore_nil (newline : Newline) : newline.StandsBefore [] := fun _ => nofun

theorem standsBefore_blankLines {newline : Newline} {text : List Char}
    (h : newline.StandsBefore text) (count : Nat) :
    newline.StandsBefore (blankLines newline count ++ text) := by
  cases count with
  | zero => exact h
  | succ count =>
    rintro rfl
    simp [blankLines_succ, Newline.chars]

theorem standsBefore_textFrom (table : WrittenTable) (front : List (WrittenRow × Nat)) :
    table.newline.StandsBefore (table.textFrom front) := by
  cases front with
  | nil => exact standsBefore_row _ table.last _
  | cons entry front =>
    rw [WrittenTable.textFrom, List.flatMap_cons, List.append_assoc, List.append_assoc]
    exact standsBefore_row _ entry.1 _

/-! ## Tables -/

/-- The end of a line is found, whether or not it is the first one. -/
theorem newlineAt?_chars {known : Option Newline} {newline : Newline}
    (hknown : known = none ∨ known = some newline) {text : List Char}
    (h : newline.StandsBefore text) : newlineAt? known (newline.chars ++ text) = some newline := by
  rcases hknown with rfl | rfl
  · exact newlineAt?_none_chars h
  · exact newlineAt?_some_chars newline text

theorem rows_textFrom (table : WrittenTable) (front : List (WrittenRow × Nat))
    {known : Option Newline} (hknown : known = none ∨ known = some table.newline) :
    rows known [] (table.textFrom front)
      = .ok (front.map (·.1.values) ++ [table.last.values]) := by
  -- No end of a line is known at the first row, but one is at every later row.
  induction front generalizing known with
  | nil =>
    rw [WrittenTable.textFrom]
    cases table.blankBack with
    | none => exact (congrArg _ (List.append_nil _)).trans (rows_text_finish known table.last)
    | some count =>
      have hstands := standsBefore_blankLines (standsBefore_nil table.newline) count
      have hrow := rows_text_newline (newlineAt?_chars hknown hstands) table.last
      rw [rows_blankLines, rows_nil, List.append_nil] at hrow
      exact hrow
  | cons entry front ih =>
    have hstands := standsBefore_blankLines (standsBefore_textFrom table front) entry.2
    have htext : table.textFrom (entry :: front) = entry.1.text
        ++ (table.newline.chars ++ (blankLines table.newline entry.2 ++ table.textFrom front)) := by
      simp [WrittenTable.textFrom, WrittenTable.endText]
    rw [htext, rows_text_newline (newlineAt?_chars hknown hstands), rows_blankLines,
      ih (.inr rfl)]
    rfl

/-- **A table that was written is read with the values that were written.** -/
theorem parse_text (table : WrittenTable) :
    parse table.text = .ok (table.rows.map (·.values)) := by
  have hrows : table.rows.map (·.values)
      = table.front.map (·.1.values) ++ [table.last.values] := by
    simp [WrittenTable.rows]
  rw [hrows, parse, WrittenTable.text]
  cases table.blankFront with
  | zero => exact rows_textFrom table table.front (.inl rfl)
  | succ count =>
    have hstands := standsBefore_blankLines (standsBefore_textFrom table table.front) count
    rw [blankLines_succ, List.append_assoc, rows_newline (newlineAt?_none_chars hstands),
      rows_blankLines, rows_textFrom table table.front (.inr rfl)]

/-- A blank line in front, a row with a foreign end of a line and a quotation mark in it, and a
    row with nothing but one empty field, with no end of its own. -/
example : WrittenTable.text
    { newline := .crlf
      blankFront := 1
      front := [(⟨⟨"com.example".toList, false, fun _ => List.all_eq_true.1 (by decide)⟩,
        [⟨"a\n\"b".toList, true, nofun⟩], nofun⟩, 0)]
      last := ⟨⟨[], true, nofun⟩, [], fun _ _ => rfl⟩
      blankBack := none }
    = "\r\ncom.example\t\"a\n\"\"b\"\r\n\"\"".toList := by decide

end Tsv

namespace Hostname

/-- **The hosts of a table that was written** are its first column, in order, each with its labels
    turned around, whatever else stands in the rows. -/
theorem ofTable_text (table : Tsv.WrittenTable) : ofTable (String.ofList table.text)
    = .ok (table.rows.map fun row => reverse (String.ofList row.first.value)) := by
  rw [ofTable, String.toList_ofList, Tsv.parse_text, Except.map, List.map_map]
  rfl

end Hostname

end ServedChain
