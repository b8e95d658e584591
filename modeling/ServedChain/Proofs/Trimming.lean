/-
  What is left of a text without the white space at its ends.

  * `trim_append`: behind a text without such white space only what follows is
    trimmed;
  * `trim_eq_iff`: trimming leaves the text between white space at both ends.
-/
import ServedChain.Text.Blank

namespace ServedChain.Text

variable {front text back : List Char}

/-! ## The front -/

theorem trimFront_append (hfront : ∀ c ∈ front, isBlank c = true) (text : List Char) :
    trimFront (front ++ text) = trimFront text := List.dropWhile_append_of_pos hfront

theorem trimFront_eq_self (h : ∀ c ∈ text.head?, isBlank c = false) : trimFront text = text := by
  cases text with
  | nil => rfl
  | cons c cs =>
    have hc : ¬isBlank c = true := by simp [h c rfl]
    exact List.dropWhile_cons_of_neg hc

theorem head?_trimFront (text : List Char) : ∀ c ∈ (trimFront text).head?, isBlank c = false := by
  intro c hc
  have hhead := List.head?_dropWhile_not isBlank text
  rw [trimFront, Option.mem_def] at hc
  rw [hc] at hhead
  exact hhead

theorem exists_trimFront (text : List Char) :
    ∃ front, text = front ++ trimFront text ∧ ∀ c ∈ front, isBlank c = true :=
  ⟨text.takeWhile isBlank, List.takeWhile_append_dropWhile.symm,
    List.all_eq_true.1 List.all_takeWhile⟩

/-! ## The back -/

theorem trimBack_append (hback : ∀ c ∈ back, isBlank c = true) (text : List Char) :
    trimBack (text ++ back) = trimBack text := by
  rw [trimBack, List.reverse_append, trimFront_append (by simpa using hback), trimBack]

theorem trimBack_eq_self (h : ∀ c ∈ text.getLast?, isBlank c = false) : trimBack text = text := by
  rw [trimBack, trimFront_eq_self (by simpa using h), List.reverse_reverse]

theorem getLast?_trimBack (text : List Char) :
    ∀ c ∈ (trimBack text).getLast?, isBlank c = false := by
  simpa [trimBack] using head?_trimFront text.reverse

theorem exists_trimBack (text : List Char) :
    ∃ back, text = trimBack text ++ back ∧ ∀ c ∈ back, isBlank c = true := by
  obtain ⟨front, htext, hfront⟩ := exists_trimFront text.reverse
  refine ⟨front.reverse, ?_, by simpa using hfront⟩
  have hreversed := congrArg List.reverse htext
  rwa [List.reverse_reverse, List.reverse_append] at hreversed

theorem trimBack_eq_nil (hback : ∀ c ∈ back, isBlank c = true) : trimBack back = [] :=
  trimBack_append hback []

/-- What is left of a text starts as the text does. -/
theorem head?_trimBack {c : Char} (h : c ∈ (trimBack text).head?) : c ∈ text.head? := by
  obtain ⟨back, htext, -⟩ := exists_trimBack text
  rw [htext, List.head?_append]
  exact Option.or_eq_some_iff.2 (.inl h)

/-! ## Both ends -/

/-- A text with no white space at its ends; it may be empty. -/
structure IsTrimmed (text : List Char) : Prop where
  first : ∀ c ∈ text.head?, isBlank c = false
  last : ∀ c ∈ text.getLast?, isBlank c = false

/-- Behind a text that does not end in white space, only what follows is trimmed. -/
theorem trim_append (hfront : ∀ c ∈ front, isBlank c = true) (htext : IsTrimmed text)
    (hne : text ≠ []) (rest : List Char) :
    trim (front ++ (text ++ rest)) = text ++ trimBack rest := by
  obtain ⟨c, cs, rfl⟩ := List.exists_cons_of_ne_nil hne
  obtain ⟨back, hrest, hback⟩ := exists_trimBack rest
  have hlast : ∀ d ∈ (c :: cs ++ trimBack rest).getLast?, isBlank d = false := by
    intro d hd
    rw [List.getLast?_append] at hd
    rcases Option.or_eq_some_iff.1 hd with hd | ⟨-, hd⟩
    · exact getLast?_trimBack rest d hd
    · exact htext.last d hd
  rw [trim, trimFront_append hfront, trimFront_eq_self (by simpa using htext.first)]
  calc trimBack (c :: cs ++ rest)
      = trimBack (c :: cs ++ trimBack rest ++ back) := by rw [List.append_assoc, ← hrest]
    _ = trimBack (c :: cs ++ trimBack rest) := trimBack_append hback _
    _ = c :: cs ++ trimBack rest := trimBack_eq_self hlast

theorem isTrimmed_trim (text : List Char) : IsTrimmed (trim text) where
  first c hc := head?_trimFront text c (head?_trimBack hc)
  last := getLast?_trimBack _

/-- **What trimming leaves** is the text between white space at both ends. -/
theorem trim_eq_iff {line : List Char} : trim line = text ↔ IsTrimmed text
    ∧ ∃ front back, line = front ++ (text ++ back)
      ∧ (∀ c ∈ front, isBlank c = true) ∧ ∀ c ∈ back, isBlank c = true := by
  constructor
  · rintro rfl
    obtain ⟨front, hline, hfront⟩ := exists_trimFront line
    obtain ⟨back, hrest, hback⟩ := exists_trimBack (trimFront line)
    exact ⟨isTrimmed_trim line, front, back, hline.trans (congrArg _ hrest), hfront, hback⟩
  · rintro ⟨htext, front, back, rfl, hfront, hback⟩
    by_cases hne : text = []
    · subst hne
      have hblank : trimFront back = [] := by
        have h := trimFront_append hback []
        rwa [List.append_nil] at h
      rw [trim, trimFront_append hfront, List.nil_append, hblank]
      rfl
    · rw [trim_append hfront htext hne, trimBack_eq_nil hback, List.append_nil]

end ServedChain.Text
