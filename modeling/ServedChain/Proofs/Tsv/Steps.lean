/-
  How a table is read, one character or one field at a time.

  * `newlineAt?_some_chars`, `newlineAt?_none_chars`: where the end of a line is found;
  * `rows_eq`: the rows of a text are those behind its first field (`rowsBehind`);
  * `rowsFrom` are the rows of a text that starts inside a field without quotation marks,
    with an equation for each kind of character that can follow.
-/
import ServedChain.Tsv

namespace ServedChain.Tsv

/-! ## Ends of lines -/

/-- A text in front of which the end of a line is seen as it is: a carriage return does not run
    into a line feed. -/
def Newline.StandsBefore (newline : Newline) (text : List Char) : Prop :=
  newline = .cr → text.head? ≠ some '\n'

theorem Newline.isPrefixOf_chars_append (newline : Newline) (text : List Char) :
    newline.chars.isPrefixOf (newline.chars ++ text) = true :=
  List.isPrefixOf_iff_prefix.2 (List.prefix_append _ _)

theorem newlineAt?_some_chars (newline : Newline) (text : List Char) :
    newlineAt? (some newline) (newline.chars ++ text) = some newline :=
  if_pos (newline.isPrefixOf_chars_append text)

theorem newlineAt?_none_chars {newline : Newline} {text : List Char}
    (h : newline.StandsBefore text) : newlineAt? none (newline.chars ++ text) = some newline := by
  cases newline with
  | crlf => rfl
  | lf => rfl
  | cr =>
    cases text with
    | nil => rfl
    | cons c cs =>
      have hc : c ≠ '\n' := fun hc => h rfl (congrArg some hc)
      simp [newlineAt?, Newline.first?, Newline.chars, hc]

/-- The end of a line starts with a carriage return or a line feed. -/
theorem newlineAt?_eq_none {c : Char} (hreturn : c ≠ '\r') (hfeed : c ≠ '\n')
    (known : Option Newline) (cs : List Char) : newlineAt? known (c :: cs) = none := by
  match known with
  | none => simp [newlineAt?, Newline.first?, hreturn, hfeed]
  | some .crlf => simp [newlineAt?, Newline.chars, List.isPrefixOf, hreturn.symm]
  | some .lf => simp [newlineAt?, Newline.chars, List.isPrefixOf, hfeed.symm]
  | some .cr => simp [newlineAt?, Newline.chars, List.isPrefixOf, hreturn.symm]

/-! ## Fields -/

theorem Newline.chars_ne_nil (newline : Newline) : newline.chars ≠ [] :=
  List.ne_nil_of_length_pos newline.length_chars_pos

theorem stopAt?_of_newline {known : Option Newline} {newline : Newline} {text : List Char}
    (h : newlineAt? known (newline.chars ++ text) = some newline) :
    stopAt? known (newline.chars ++ text) = some (.newline newline, text) := by
  obtain ⟨c, cs, hchars⟩ := List.exists_cons_of_ne_nil newline.chars_ne_nil
  have htext : newline.chars ++ text = c :: (cs ++ text) := by rw [hchars, List.cons_append]
  rw [htext] at h ⊢
  simp only [stopAt?, h]
  rw [← htext, List.drop_left]

theorem stopAt?_tab (known : Option Newline) (text : List Char) :
    stopAt? known ('\t' :: text) = some (.tab, text) := by
  have hnone : newlineAt? known ('\t' :: text) = none :=
    newlineAt?_eq_none (by decide) (by decide) known text
  simp only [stopAt?, hnone, if_true]

section
variable {known : Option Newline} {text rest : List Char} {stop : Stop}
  (h : stopAt? known text = some (stop, rest))
include h

theorem bare_of_stop (quoted : Bool) (value : List Char) :
    bare known quoted value text = .ok (⟨value, quoted, stop⟩, rest) := by
  cases text with
  | nil => cases h; rfl
  | cons c cs => simp only [bare, h]

theorem closed_of_stop (value : List Char) :
    closed known value text = .ok (⟨value, true, stop⟩, rest) := by
  cases text with
  | nil => cases h; rfl
  | cons c cs => simp only [closed, h]

/-- What ends a field is no quotation mark. -/
theorem head?_ne_quote_of_stop : text.head? ≠ some '"' := by
  cases text with
  | nil => simp
  | cons c cs =>
    intro hquote
    obtain rfl : c = '"' := Option.some.inj hquote
    have hnone : newlineAt? known ('"' :: cs) = none :=
      newlineAt?_eq_none (by decide) (by decide) known cs
    simp [stopAt?, hnone] at h

end

theorem field_eq_bare {known : Option Newline} {text : List Char} (h : text.head? ≠ some '"') :
    field known text = bare known false [] text := by
  unfold field
  split
  · exact absurd rfl h
  · rfl

/-- Any other character but a quotation mark belongs to a field without quotation marks. -/
theorem bare_cons {known : Option Newline} {c : Char} {cs : List Char}
    (hnewline : newlineAt? known (c :: cs) = none) (htab : c ≠ '\t') (hquote : c ≠ '"')
    (quoted : Bool) (value : List Char) :
    bare known quoted value (c :: cs) = bare known quoted (value ++ [c]) cs := by
  have hstop : stopAt? known (c :: cs) = none := by
    simp only [stopAt?, hnewline, if_neg htab]
  simp only [bare, hstop, if_neg hquote]

/-- Inside quotation marks any other character is read as it is. -/
theorem quoted_cons {c : Char} (hc : c ≠ '"') (known : Option Newline) (value cs : List Char) :
    quoted known value (c :: cs) = quoted known (value ++ [c]) cs := by
  rw [quoted]
  · exact fun _ h _ => hc h
  · exact hc

/-- A quotation mark closes a field, unless another one follows. -/
theorem quoted_quote {rest : List Char} (hrest : rest.head? ≠ some '"') (known : Option Newline)
    (value : List Char) : quoted known value ('"' :: rest) = closed known value rest := by
  rw [quoted]
  rintro cs rfl
  exact hrest rfl

/-! ## Rows behind a field -/

/-- The rows of a text from a field on, with what stands behind the field. -/
def rowsBehind (known : Option Newline) (fields : Row) (f : Field) (rest : List Char) :
    Except Error (List Row) :=
  match f.stop with
  | .finish => .ok (consRow (fields ++ [f.value]) f [])
  | .tab => rows known (fields ++ [f.value]) rest
  | .newline form => (rows (some form) [] rest).map (consRow (fields ++ [f.value]) f)

theorem rows_eq (known : Option Newline) (fields : Row) (text : List Char) :
    rows known fields text
      = (field known text).bind fun (f, rest) => rowsBehind known fields f rest := by
  rw [rows]
  split
  · next h => rw [h]; rfl
  · next f rest h =>
    rw [h]
    simp only [Except.bind, rowsBehind]
    split <;> next hstop => rw [hstop]

theorem rows_of_field {known : Option Newline} {text rest : List Char} {f : Field}
    (h : field known text = .ok (f, rest)) (fields : Row) :
    rows known fields text = rowsBehind known fields f rest := by
  rw [rows_eq, h]
  rfl

/-- The rows of a text that starts inside a field without quotation marks, behind `value`. -/
def rowsFrom (known : Option Newline) (fields : Row) (value text : List Char) :
    Except Error (List Row) :=
  (bare known false value text).bind fun (f, rest) => rowsBehind known fields f rest

section
variable (known : Option Newline) (fields : Row) (value : List Char)

/-- A text that does not start with a quotation mark starts inside a field. -/
theorem rows_eq_rowsFrom {text : List Char} (h : text.head? ≠ some '"') :
    rows known fields text = rowsFrom known fields [] text := by
  rw [rows_eq, field_eq_bare h, rowsFrom]

theorem rowsFrom_of_stop {text rest : List Char} {stop : Stop}
    (h : stopAt? known text = some (stop, rest)) :
    rowsFrom known fields value text = rowsBehind known fields ⟨value, false, stop⟩ rest := by
  rw [rowsFrom, bare_of_stop h]
  rfl

theorem rowsFrom_nil :
    rowsFrom known fields value []
      = .ok (consRow (fields ++ [value]) ⟨value, false, .finish⟩ []) := rfl

theorem rowsFrom_tab (text : List Char) :
    rowsFrom known fields value ('\t' :: text) = rows known (fields ++ [value]) text :=
  rowsFrom_of_stop known fields value (stopAt?_tab known text)

variable {known} in
theorem rowsFrom_newline {newline : Newline} {text : List Char}
    (h : newlineAt? known (newline.chars ++ text) = some newline) :
    rowsFrom known fields value (newline.chars ++ text) = (rows (some newline) [] text).map
      (consRow (fields ++ [value]) ⟨value, false, .newline newline⟩) :=
  rowsFrom_of_stop known fields value (stopAt?_of_newline h)

theorem rowsFrom_cons {c : Char} {cs : List Char} (hnewline : newlineAt? known (c :: cs) = none)
    (htab : c ≠ '\t') (hquote : c ≠ '"') :
    rowsFrom known fields value (c :: cs) = rowsFrom known fields (value ++ [c]) cs := by
  rw [rowsFrom, rowsFrom, bare_cons hnewline htab hquote]

end

end ServedChain.Tsv
