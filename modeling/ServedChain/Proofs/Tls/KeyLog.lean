/-
  Which lines of a key log are read, and with which secret.

  * `Line`: fields with single spaces between, in white space; `fields_eq_iff`:
    these are the fields that are read of a line;
  * `exists_fields_written`: the first three fields are read whatever follows them;
  * `secret?_reads_secrets`: a secret is read exactly of the lines with the label
    and the secret in the first and the third field.
-/
import Mathlib.Data.List.Basic
import Mathlib.Tactic.MkIffOfInductiveProp
import ServedChain.Proofs.Hex
import ServedChain.Proofs.Trimming
import ServedChain.Tls.KeyLog

namespace ServedChain.Tls.KeyLog

open Text (IsTrimmed isBlank)

/-! ## Lines -/

/-- A line with white space around some fields, between which there are single spaces. -/
structure Line (line : List Char) (fields : List (List Char)) : Prop where
  ne_nil : fields ≠ []
  separate : ∀ field ∈ fields, ' ' ∉ field
  trimmed : IsTrimmed (Text.join ' ' fields)
  around : ∃ front back, line = front ++ (Text.join ' ' fields ++ back)
    ∧ (∀ c ∈ front, isBlank c = true) ∧ ∀ c ∈ back, isBlank c = true

/-- **The fields that are read of a line** are those that stand in it. -/
theorem fields_eq_iff {line : String} {pieces : List (List Char)} :
    fields line = pieces ↔ Line line.toList pieces := by
  constructor
  · rintro rfl
    have hjoin : Text.join ' ' (fields line) = Text.trim line.toList := Text.join_split ' ' _
    obtain ⟨htrimmed, haround⟩ := Text.trim_eq_iff.1 hjoin.symm
    exact ⟨Text.split_ne_nil ' ' _, fun _ hmem => Text.not_mem_of_mem_split hmem, htrimmed, haround⟩
  · intro h
    have htrim : Text.trim line.toList = Text.join ' ' pieces :=
      Text.trim_eq_iff.2 ⟨h.trimmed, h.around⟩
    rw [fields, htrim, Text.split_join h.ne_nil h.separate]

/-- A field of hexadecimal digits, two for each byte, which is not empty. -/
@[mk_iff]
structure IsHexField (field : List Char) : Prop where
  ne_nil : field ≠ []
  even : field.length % 2 = 0
  digits : ∀ c ∈ field, c ∈ Hex.digits

/-- These are the fields that are read as hexadecimal. -/
theorem isHexField_iff_isSome (field : List Char) :
    IsHexField field ↔ field ≠ [] ∧ (Hex.decode? field).isSome = true := by
  rw [isHexField_iff, Hex.isSome_decode?_iff]

theorem secret?_eq_some_iff {label line : String} {secret : Bytes} :
    secret? label line = some secret ↔ ∃ second third rest,
      fields line = label.toList :: second :: third :: rest
        ∧ third ≠ [] ∧ Hex.decode? third = some secret := by
  unfold secret?
  constructor
  · intro h
    split at h
    · next first second third rest hfields =>
      split at h
      · next hthird =>
        obtain ⟨rfl, hne⟩ := hthird
        exact ⟨second, third, rest, hfields, hne, h⟩
      · cases h
    · cases h
  · rintro ⟨second, third, rest, hfields, hne, hsecret⟩
    simp [hfields, hne, hsecret]

/-! ## Written lines -/

theorem isBlank_of_any {text : List Char} (h : text.any isBlank = false) :
    ∀ c ∈ text, isBlank c = false := fun c hc => Bool.eq_false_iff.2 (List.any_eq_false.1 h c hc)

theorem isBlank_of_mem_digits {c : Char} (h : c ∈ Hex.digits) : isBlank c = false :=
  isBlank_of_any (by decide) c h

theorem space_not_mem {field : List Char} (h : ∀ c ∈ field, isBlank c = false) : ' ' ∉ field := by
  intro hmem
  exact absurd (h ' ' hmem) (by decide)

section
variable {label middle written : List Char}

/-- Three fields with single spaces between have white space at neither end. -/
theorem isTrimmed_join (hlabel : label ≠ []) (hblank : ∀ c ∈ label, isBlank c = false)
    (middle : List Char) (hwritten : IsHexField written) :
    IsTrimmed (Text.join ' ' [label, middle, written]) := by
  have hjoin : Text.join ' ' [label, middle, written] = label ++ ' ' :: (middle ++ ' ' :: written) :=
    rfl
  rw [hjoin]
  constructor
  · intro c hc
    obtain ⟨d, ds, rfl⟩ := List.exists_cons_of_ne_nil hlabel
    obtain rfl : d = c := Option.some.inj hc
    exact hblank d List.mem_cons_self
  · intro c hc
    have hends : label ++ ' ' :: (middle ++ ' ' :: written)
        = label ++ ' ' :: middle ++ [' '] ++ written := by simp
    rw [hends, List.getLast?_append_of_ne_nil _ hwritten.ne_nil] at hc
    exact isBlank_of_mem_digits (hwritten.digits c (List.mem_of_getLast? hc))

theorem split_join_three (hblank : ∀ c ∈ label, isBlank c = false)
    (hmiddle : ∀ c ∈ middle, isBlank c = false) (hwritten : IsHexField written) :
    Text.split ' ' (Text.join ' ' [label, middle, written]) = [label, middle, written] := by
  refine Text.split_join (List.cons_ne_nil _ _) fun field hmem => space_not_mem ?_
  rcases List.mem_cons.1 hmem with rfl | hmem
  · exact hblank
  · rcases List.mem_pair.1 hmem with rfl | rfl
    · exact hmiddle
    · exact fun c hc => isBlank_of_mem_digits (hwritten.digits c hc)

/-- The pieces in front of a space stay, whatever is trimmed behind it. -/
theorem exists_split_trimBack (front back : List Char) :
    ∃ rest, Text.split ' ' (front ++ Text.trimBack (' ' :: back))
      = Text.split ' ' front ++ rest := by
  -- What is left behind the front is nothing, or starts with that space.
  cases hleft : Text.trimBack (' ' :: back) with
  | nil => exact ⟨[], by rw [List.append_nil, List.append_nil]⟩
  | cons c left =>
    have hmem : c ∈ (Text.trimBack (' ' :: back)).head? := by
      rw [hleft]
      rfl
    obtain rfl : ' ' = c := Option.some.inj (Text.head?_trimBack hmem)
    exact ⟨Text.split ' ' left, Text.split_append ' ' front left⟩

/-- The first three fields are read, whatever fields follow. -/
theorem exists_fields_written (hlabel : label ≠ []) (hblank : ∀ c ∈ label, isBlank c = false)
    (hmiddle : ∀ c ∈ middle, isBlank c = false) (hwritten : IsHexField written)
    (further : List (List Char)) {front back : List Char}
    (hfront : ∀ c ∈ front, isBlank c = true) (hback : ∀ c ∈ back, isBlank c = true) :
    ∃ rest, fields
        (String.ofList (front ++ (Text.join ' ' (label :: middle :: written :: further) ++ back)))
      = label :: middle :: written :: rest := by
  have htrimmed := isTrimmed_join hlabel hblank middle hwritten
  have hsplit := split_join_three hblank hmiddle hwritten
  have hne : Text.join ' ' [label, middle, written] ≠ [] := by
    simp [Text.join]
  rw [fields, String.toList_ofList]
  cases further with
  | nil =>
    rw [Text.trim_append hfront htrimmed hne, Text.trimBack_eq_nil hback, List.append_nil, hsplit]
    exact ⟨[], rfl⟩
  | cons next further =>
    have hjoin : Text.join ' ' (label :: middle :: written :: next :: further)
        = Text.join ' ' [label, middle, written] ++ ' ' :: Text.join ' ' (next :: further) :=
      Text.join_append (List.cons_ne_nil label [middle, written]) (List.cons_ne_nil _ _)
    rw [hjoin, List.append_assoc, Text.trim_append hfront htrimmed hne, List.cons_append]
    obtain ⟨rest, hrest⟩ := exists_split_trimBack (Text.join ' ' [label, middle, written])
      (Text.join ' ' (next :: further) ++ back)
    exact ⟨rest, hrest.trans (by rw [hsplit]; rfl)⟩

end

/-! ## Secrets -/

theorem isHexField_of_written {secret : Bytes} {written : List Char} (hsecret : secret ≠ [])
    (hwritten : written.map Char.toLower = Hex.encode secret) : IsHexField written := by
  have hread := Option.isSome_of_eq_some (Hex.decode?_eq_some_iff.2 hwritten)
  refine (isHexField_iff_isSome written).2 ⟨?_, hread⟩
  rintro rfl
  obtain ⟨b, bs, rfl⟩ := List.exists_cons_of_ne_nil hsecret
  cases hwritten

/-- **Which lines a secret is read of**: those whose first field is the label and whose third field
    is the writing of the secret, with single spaces between the fields and white space around
    them.  Every line with pairs of digits in the third field has a secret; and the secret of a
    line that is written so is read whatever the case of its letters, the field before it, the
    fields behind it and the white space around. -/
theorem secret?_reads_secrets (label : String) (hlabel : label.toList ≠ [])
    (hblank : ∀ c ∈ label.toList, isBlank c = false) :
    (∀ (line : String) (secret : Bytes), secret? label line = some secret ↔
      ∃ second third rest, Line line.toList (label.toList :: second :: third :: rest)
        ∧ IsHexField third ∧ third.map Char.toLower = Hex.encode secret)
    ∧ (∀ (line : String) (second third : List Char) (rest : List (List Char)),
      Line line.toList (label.toList :: second :: third :: rest) → IsHexField third →
        ∃ secret, secret? label line = some secret)
    ∧ ∀ (secret : Bytes) (middle written : List Char) (further : List (List Char))
        (front back : List Char), secret ≠ [] →
      (∀ c ∈ middle, isBlank c = false) → written.map Char.toLower = Hex.encode secret →
      (∀ c ∈ front, isBlank c = true) → (∀ c ∈ back, isBlank c = true) →
        secret? label (String.ofList
          (front ++ (Text.join ' ' (label.toList :: middle :: written :: further) ++ back)))
          = some secret := by
  refine ⟨fun line secret => ?_, ?_, ?_⟩
  · rw [secret?_eq_some_iff]
    constructor
    · rintro ⟨second, third, rest, hfields, hne, hsecret⟩
      have hfield := (isHexField_iff_isSome third).2 ⟨hne, Option.isSome_of_eq_some hsecret⟩
      exact ⟨second, third, rest, fields_eq_iff.1 hfields, hfield, Hex.decode?_eq_some_iff.1 hsecret⟩
    · rintro ⟨second, third, rest, hline, hfield, hsecret⟩
      exact ⟨second, third, rest, fields_eq_iff.2 hline, hfield.ne_nil,
        Hex.decode?_eq_some_iff.2 hsecret⟩
  · intro line second third rest hline hfield
    obtain ⟨secret, hsecret⟩ := Option.isSome_iff_exists.1 ((isHexField_iff_isSome third).1 hfield).2
    exact ⟨secret, secret?_eq_some_iff.2
      ⟨second, third, rest, fields_eq_iff.2 hline, hfield.ne_nil, hsecret⟩⟩
  · intro secret middle written further front back hsecret hmiddle hwritten hfront hback
    have hfield := isHexField_of_written hsecret hwritten
    obtain ⟨rest, hfields⟩ :=
      exists_fields_written hlabel hblank hmiddle hfield further hfront hback
    exact secret?_eq_some_iff.2
      ⟨middle, written, rest, hfields, hfield.ne_nil, Hex.decode?_eq_some_iff.2 hwritten⟩

/-- A secret in letters of both cases, with an empty field behind it and before the end of the
    line. -/
theorem secret?_reads_secrets_mixed :
    let line := String.ofList ("\t".toList
      ++ (Text.join ' ' [serverHandshakeLabel.toList, "ab".toList, "0fFa".toList, [], "x".toList]
        ++ " \r\n".toList))
    secret? serverHandshakeLabel line = some [0x0f, 0xfa]
      ∧ ∃ second third rest,
        Line line.toList (serverHandshakeLabel.toList :: second :: third :: rest)
          ∧ IsHexField third ∧ third.map Char.toLower = "0ffa".toList := by
  intro line
  obtain ⟨hread, -, hwritten⟩ :=
    secret?_reads_secrets serverHandshakeLabel (by decide) (isBlank_of_any (by decide))
  have hsecret : secret? serverHandshakeLabel line = some [0x0f, 0xfa] :=
    hwritten _ "ab".toList _ [[], "x".toList] _ _ (List.cons_ne_nil _ _)
      (isBlank_of_any (by decide)) (by decide) (List.all_eq_true.1 (by decide))
      (List.all_eq_true.1 (by decide))
  exact ⟨hsecret, (hread line _).1 hsecret⟩

end ServedChain.Tls.KeyLog
