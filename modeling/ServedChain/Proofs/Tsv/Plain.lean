/-
  Tables without quotation marks, compared with texts that are cut at line ends and
  tabs.

  * `lines`: a text cut at every end of a line of that form which it has first;
  * `parse_eq_lines`: its rows are the lines with some character, cut at tabs;
  * `ofTable_eq_lines`: so the hosts of a table are what stands in front of the first
    tab of each, with the labels turned around.
-/
import ServedChain.Hostname
import ServedChain.Proofs.Tsv.Steps

namespace ServedChain

namespace Tsv

/-! ## Lines -/

/-- The form of the first end of a line in a text. -/
def firstNewline? (text : List Char) : Option Newline :=
  match text.dropWhile fun c => c != '\r' && c != '\n' with
  | '\r' :: '\n' :: _ => some .crlf
  | '\r' :: _ => some .cr
  | '\n' :: _ => some .lf
  | _ => none

/-- The text between the occurrences of a carriage return with a line feed behind it. -/
def splitCrlf : List Char → List (List Char)
  | [] => [[]]
  | '\r' :: '\n' :: cs => [] :: splitCrlf cs
  | c :: cs =>
    match splitCrlf cs with
    | [] => [[c]]
    | line :: lines => (c :: line) :: lines

/-- The text between the occurrences of one form of the end of a line. -/
def Newline.split : Newline → List Char → List (List Char)
  | crlf => splitCrlf
  | lf => Text.split '\n'
  | cr => Text.split '\r'

/-- The lines of a text whose ends have the given form, if it has any. -/
def linesOf (form : Option Newline) (text : List Char) : List (List Char) :=
  form.elim [text] (·.split text)

/-- The lines of a text: the first end of a line says what ends the others. -/
def lines (text : List Char) : List (List Char) := linesOf (firstNewline? text) text

theorem Newline.split_chars (newline : Newline) (text : List Char) :
    newline.split (newline.chars ++ text) = [] :: newline.split text := by
  cases newline with
  | crlf => rfl
  | lf => exact Text.split_cons_self '\n' text
  | cr => exact Text.split_cons_self '\r' text

theorem splitCrlf_ne_nil (text : List Char) : splitCrlf text ≠ [] := by
  fun_cases splitCrlf text <;> simp_all

theorem Newline.split_cons {newline : Newline} {c : Char} {cs : List Char}
    (h : ¬newline.chars.isPrefixOf (c :: cs) = true) : ∃ line rest, newline.split cs = line :: rest
      ∧ newline.split (c :: cs) = (c :: line) :: rest := by
  cases newline with
  | crlf =>
    obtain ⟨line, rest, hsplit⟩ := List.exists_cons_of_ne_nil (splitCrlf_ne_nil cs)
    refine ⟨line, rest, hsplit, ?_⟩
    have hcrlf : ∀ ds, c = '\r' → cs = '\n' :: ds → False := by
      rintro ds rfl rfl
      exact h rfl
    rw [Newline.split, splitCrlf, hsplit]
    exact hcrlf
  | lf => exact Text.split_cons_of_ne (fun hc => h (by rw [hc]; rfl)) cs
  | cr => exact Text.split_cons_of_ne (fun hc => h (by rw [hc]; rfl)) cs

/-! ## Where lines end -/

theorem firstNewline?_cons {c : Char} (hreturn : c ≠ '\r') (hfeed : c ≠ '\n') (cs : List Char) :
    firstNewline? (c :: cs) = firstNewline? cs := by
  rw [firstNewline?, List.dropWhile_cons_of_pos (by simp [hreturn, hfeed])]
  rfl

/-- The end of a line at the front of a text is the first one in it. -/
theorem firstNewline?_of_first? {text : List Char} {newline : Newline}
    (h : Newline.first? text = some newline) :
    firstNewline? text = some newline ∧ ∃ rest, text = newline.chars ++ rest := by
  unfold Newline.first? at h
  split at h
  · cases h
    exact ⟨rfl, _, rfl⟩
  · cases h
    exact ⟨rfl, _, rfl⟩
  · next cs hcrlf =>
    cases h
    refine ⟨?_, _, rfl⟩
    rw [firstNewline?, List.dropWhile_cons_of_neg (by decide)]
    split
    · next heq =>
      cases heq
      exact absurd rfl (hcrlf _)
    · rfl
    · next heq => cases heq
    · next hreturn _ => exact absurd rfl (hreturn _)
  · cases h

theorem ne_of_first?_eq_none {c : Char} {cs : List Char} (h : Newline.first? (c :: cs) = none) :
    c ≠ '\r' ∧ c ≠ '\n' := by
  unfold Newline.first? at h
  split at h <;> simp_all

section
variable {known : Option Newline}

theorem newlineAt?_some (newline : Newline) (text : List Char) :
    newlineAt? (some newline) text
      = if newline.chars.isPrefixOf text then some newline else none := rfl

/-- The lines of a text that starts with the end of a line. -/
theorem linesOf_of_newline {text : List Char} {newline : Newline}
    (h : newlineAt? known text = some newline) : ∃ rest, text = newline.chars ++ rest
      ∧ linesOf (known.or (firstNewline? text)) text = [] :: newline.split rest := by
  have hform : known.or (firstNewline? text) = some newline
      ∧ ∃ rest, text = newline.chars ++ rest := by
    cases known with
    | none => exact firstNewline?_of_first? h
    | some form =>
      rw [newlineAt?_some] at h
      split at h
      · next hprefix =>
        cases h
        obtain ⟨rest, rfl⟩ := List.isPrefixOf_iff_prefix.1 hprefix
        exact ⟨rfl, rest, rfl⟩
      · cases h
  obtain ⟨hform, rest, rfl⟩ := hform
  rw [hform]
  exact ⟨rest, rfl, newline.split_chars rest⟩

/-- The lines of a text that starts with another character. -/
theorem linesOf_of_not_newline {c : Char} {cs : List Char} (h : newlineAt? known (c :: cs) = none) :
    ∃ line rest, linesOf (known.or (firstNewline? cs)) cs = line :: rest
      ∧ linesOf (known.or (firstNewline? (c :: cs))) (c :: cs) = (c :: line) :: rest := by
  cases known with
  | some form =>
    rw [newlineAt?_some] at h
    split at h
    · cases h
    · next hprefix => exact Newline.split_cons hprefix
  | none =>
    obtain ⟨hreturn, hfeed⟩ := ne_of_first?_eq_none h
    rw [firstNewline?_cons hreturn hfeed]
    match firstNewline? cs with
    | none => exact ⟨cs, [], rfl, rfl⟩
    | some newline =>
      have hnone := newlineAt?_eq_none hreturn hfeed (some newline) cs
      rw [newlineAt?_some, ite_eq_right_iff] at hnone
      exact Newline.split_cons fun hprefix => nomatch hnone hprefix

end

/-! ## Rows -/

/-- The row of a line, some fields of which are known, and the front of the next one. -/
def rowBehind (fields : Row) (value line : List Char) : Row :=
  match Text.split '\t' line with
  | [] => fields ++ [value]
  | piece :: pieces => fields ++ (value ++ piece) :: pieces

/-- The rows of some lines; those without any character are no rows. -/
def rowsOfLines (lines : List (List Char)) : List Row :=
  (lines.filter (· ≠ [])).map (Text.split '\t')

theorem rowBehind_nil (fields : Row) (value : List Char) :
    rowBehind fields value [] = fields ++ [value] := by
  simp [rowBehind, Text.split]

theorem rowBehind_tab (fields : Row) (value line : List Char) :
    rowBehind fields value ('\t' :: line) = rowBehind (fields ++ [value]) [] line := by
  obtain ⟨piece, pieces, hsplit⟩ := List.exists_cons_of_ne_nil (Text.split_ne_nil '\t' line)
  simp [rowBehind, Text.split_cons_self, hsplit]

theorem rowBehind_cons {c : Char} (hc : c ≠ '\t') (fields : Row) (value line : List Char) :
    rowBehind fields value (c :: line) = rowBehind fields (value ++ [c]) line := by
  obtain ⟨piece, pieces, hsplit, hcons⟩ := Text.split_cons_of_ne hc line
  simp [rowBehind, hcons, hsplit]

theorem rowBehind_nil_nil (line : List Char) : rowBehind [] [] line = Text.split '\t' line := by
  obtain ⟨piece, pieces, hsplit⟩ := List.exists_cons_of_ne_nil (Text.split_ne_nil '\t' line)
  simp [rowBehind, hsplit]

/-- A row without quotation marks is left out if it has no character. -/
theorem consRow_of_not_quoted {last : Field} (h : last.quoted = false) (row : Row)
    (rows : List Row) : consRow row last rows = if row = [[]] then rows else row :: rows := by
  simp [consRow, h]

theorem rowsOfLines_cons (line : List Char) (lines : List (List Char)) :
    rowsOfLines (line :: lines) = if Text.split '\t' line = [[]] then rowsOfLines lines
      else Text.split '\t' line :: rowsOfLines lines := by
  by_cases hline : line = []
  · subst hline
    rfl
  · have hsplit : Text.split '\t' line ≠ [[]] := by
      intro hsplit
      have hjoin := Text.join_split '\t' line
      rw [hsplit] at hjoin
      exact hline hjoin.symm
    rw [if_neg hsplit, rowsOfLines, List.filter_cons_of_pos (by simpa using hline)]
    rfl

/-- What is read of a text that starts inside a line: the rest of that line, and the others. -/
def ReadAsLines (known : Option Newline) (text : List Char) : Prop :=
  ∃ line rest, linesOf (known.or (firstNewline? text)) text = line :: rest
    ∧ ∀ fields value, rowsFrom known fields value text
      = .ok (if rowBehind fields value line = [[]] then rowsOfLines rest
        else rowBehind fields value line :: rowsOfLines rest)

theorem ReadAsLines.rows_eq {known : Option Newline} {text : List Char}
    (h : ReadAsLines known text) (hquote : '"' ∉ text) : rows known [] text
      = .ok (rowsOfLines (linesOf (known.or (firstNewline? text)) text)) := by
  obtain ⟨line, rest, hlines, hrows⟩ := h
  have hhead : text.head? ≠ some '"' := fun h => hquote (List.mem_of_head? h)
  rw [rows_eq_rowsFrom known [] hhead, hrows, hlines, rowBehind_nil_nil, rowsOfLines_cons]

/-- Without quotation marks a text is read as lines, from any character on. -/
theorem readAsLines (known : Option Newline) (text : List Char) (hquote : '"' ∉ text) :
    ReadAsLines known text := by
  match text with
  | [] =>
    refine ⟨[], [], ?_, fun fields value => ?_⟩
    · match known with
      | none => rfl
      | some .crlf => rfl
      | some .lf => rfl
      | some .cr => rfl
    · rw [rowsFrom_nil, consRow_of_not_quoted rfl, rowBehind_nil]
      rfl
  | c :: cs =>
    cases h : newlineAt? known (c :: cs) with
    | some newline =>
      -- The form of line ends is known behind the first of them, whatever it was found by.
      obtain ⟨rest, htext, hlines⟩ := linesOf_of_newline h
      have hrest : '"' ∉ rest := fun hmem =>
        hquote (htext ▸ List.mem_append_right newline.chars hmem)
      have hshorter : rest.length < (c :: cs).length := by
        rw [htext, List.length_append]
        have := newline.length_chars_pos
        omega
      have hread := (readAsLines (some newline) rest hrest).rows_eq hrest
      refine ⟨[], newline.split rest, hlines, fun fields value => ?_⟩
      rw [htext] at h ⊢
      rw [rowsFrom_newline fields value h, hread, rowBehind_nil, Except.map]
      rw [consRow_of_not_quoted rfl]
      rfl
    | none =>
      obtain ⟨hc, hcs⟩ := not_or.1 (mt List.mem_cons.2 hquote)
      obtain ⟨line, rest, hcs', hlines⟩ := linesOf_of_not_newline h
      -- The same line goes on, at a tab with another field.
      obtain ⟨line', rest', hsame, hrows⟩ := readAsLines known cs hcs
      obtain ⟨rfl, rfl⟩ := List.cons.inj (hcs'.symm.trans hsame)
      refine ⟨c :: line, rest, hlines, fun fields value => ?_⟩
      by_cases htab : c = '\t'
      · subst htab
        have hhead : cs.head? ≠ some '"' := fun h => hcs (List.mem_of_head? h)
        rw [rowsFrom_tab, rows_eq_rowsFrom _ _ hhead, hrows, rowBehind_tab]
      · rw [rowsFrom_cons _ _ _ h htab (Ne.symm hc), hrows, rowBehind_cons htab]
termination_by text.length
decreasing_by
  · exact Nat.lt_succ_self cs.length
  · exact hshorter

/-! ## Tables -/

/-- **The rows of a table without quotation marks** are its lines, cut at tabs. -/
theorem parse_eq_lines {text : List Char} (hquote : '"' ∉ text) :
    parse text = .ok ((lines text |>.filter (· ≠ [])).map (Text.split '\t')) :=
  (readAsLines none text hquote).rows_eq hquote

/-- The first piece of a line is what stands in front of the separator. -/
theorem headD_split (separator : Char) (line : List Char) :
    (Text.split separator line).headD [] = line.takeWhile (· != separator) := by
  induction line with
  | nil => rfl
  | cons c cs ih =>
    by_cases hc : c = separator
    · subst hc
      simp [Text.split_cons_self]
    · obtain ⟨piece, pieces, hsplit, hcons⟩ := Text.split_cons_of_ne hc cs
      rw [hsplit] at ih
      rw [hcons, List.takeWhile_cons_of_pos (by simpa using hc), ← ih]
      rfl

end Tsv

namespace Hostname

/-- **The hosts of a table without quotation marks**: the text in front of the first tab of each
    line that has any character, with its labels turned around. -/
theorem ofTable_eq_lines {table : String} (hquote : '"' ∉ table.toList) :
    ofTable table = .ok (((Tsv.lines table.toList).filter (· ≠ [])).map fun line =>
      reverse (String.ofList (line.takeWhile (· != '\t')))) := by
  rw [ofTable, Tsv.parse_eq_lines hquote, Except.map, List.map_map]
  simp only [Function.comp_def, Tsv.headD_split]

/-- Lines that end in both characters, the first and the last of them empty, with single ones of
    the two and an empty first field in others. -/
theorem ofTable_eq_lines_crlf :
    let table := "\r\ncom.example\tx\r\nb\rc\nd\r\n\t\t\r\norg.a\r"
    '"' ∉ table.toList ∧ ofTable table = .ok ["example.com", "b\rc\nd", "", "a\r.org"] := by
  intro table
  have hquote : '"' ∉ table.toList := by decide
  exact ⟨hquote, (ofTable_eq_lines hquote).trans (congrArg Except.ok (by decide))⟩

end Hostname

end ServedChain
