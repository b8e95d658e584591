/-
  ServedChain — splitting a text at every occurrence of a character, and joining
  the pieces again.

  * `join_split`: joining undoes splitting;
  * `split_append`: splitting two texts with the separator between them;
  * `split_join`: splitting undoes joining, if no piece has the separator in it, and
    `not_mem_of_mem_split`: no piece of a text has;
  * `perm_join`: a joined text has the characters of its pieces and the separators.
-/

namespace ServedChain.Text

/-- The pieces of a text between the occurrences of a character; always one more than those. -/
def split (separator : Char) : List Char → List (List Char)
  | [] => [[]]
  | c :: cs =>
    if c = separator then [] :: split separator cs
    else match split separator cs with
      | [] => [[c]]
      | piece :: pieces => (c :: piece) :: pieces

/-- The pieces with a character between each two. -/
def join (separator : Char) : List (List Char) → List Char
  | [] => []
  | [piece] => piece
  | piece :: pieces => piece ++ separator :: join separator pieces

theorem split_ne_nil (separator : Char) (text : List Char) : split separator text ≠ [] := by
  cases text with
  | nil => simp [split]
  | cons c cs =>
    rw [split]
    split
    · simp
    · split <;> simp

theorem split_cons_self (separator : Char) (text : List Char) :
    split separator (separator :: text) = [] :: split separator text := by
  simp [split]

theorem split_cons_of_ne {separator c : Char} (h : c ≠ separator) (text : List Char) :
    ∃ piece pieces, split separator text = piece :: pieces
      ∧ split separator (c :: text) = (c :: piece) :: pieces := by
  match hs : split separator text with
  | [] => exact absurd hs (split_ne_nil separator text)
  | piece :: pieces => exact ⟨piece, pieces, rfl, by rw [split, if_neg h, hs]⟩

theorem join_cons_cons (separator c : Char) (piece : List Char) (pieces : List (List Char)) :
    join separator ((c :: piece) :: pieces) = c :: join separator (piece :: pieces) := by
  cases pieces <;> rfl

/-- Joining undoes splitting. -/
theorem join_split (separator : Char) (text : List Char) :
    join separator (split separator text) = text := by
  induction text with
  | nil => rfl
  | cons c cs ih =>
    by_cases h : c = separator
    · subst h
      rw [split_cons_self]
      match hs : split c cs with
      | [] => exact absurd hs (split_ne_nil c cs)
      | piece :: pieces => rw [hs] at ih; simp [join, ih]
    · obtain ⟨piece, pieces, hs, hcons⟩ := split_cons_of_ne h cs
      rw [hcons, join_cons_cons, ← hs, ih]

/-- Splitting two texts with the separator between them gives the pieces of both. -/
theorem split_append (separator : Char) (a b : List Char) :
    split separator (a ++ separator :: b) = split separator a ++ split separator b := by
  induction a with
  | nil => simp [split]
  | cons c cs ih =>
    by_cases h : c = separator
    · subst h
      rw [List.cons_append, split_cons_self, split_cons_self, ih, List.cons_append]
    · obtain ⟨piece, pieces, hs, hcons⟩ := split_cons_of_ne h cs
      obtain ⟨piece', pieces', hs', hcons'⟩ := split_cons_of_ne h (cs ++ separator :: b)
      rw [ih, hs, List.cons_append] at hs'
      cases hs'
      rw [List.cons_append, hcons', hcons, List.cons_append]

/-- No piece has the separator in it. -/
theorem not_mem_of_mem_split {separator : Char} {text piece : List Char}
    (h : piece ∈ split separator text) : separator ∉ piece := by
  induction text generalizing piece with
  | nil =>
    rw [split, List.mem_singleton] at h
    subst h
    exact List.not_mem_nil
  | cons c cs ih =>
    by_cases hc : c = separator
    · subst hc
      rw [split_cons_self] at h
      rcases List.mem_cons.1 h with rfl | h
      · exact List.not_mem_nil
      · exact ih h
    · obtain ⟨first, rest, hs, hcons⟩ := split_cons_of_ne hc cs
      rw [hcons] at h
      rcases List.mem_cons.1 h with rfl | h
      · have hfirst : separator ∉ first := ih (hs ▸ List.mem_cons_self)
        simpa [Ne.symm hc] using hfirst
      · exact ih (hs ▸ List.mem_cons_of_mem _ h)

theorem split_of_not_mem {separator : Char} {text : List Char} (h : separator ∉ text) :
    split separator text = [text] := by
  induction text with
  | nil => rfl
  | cons c cs ih =>
    obtain ⟨hc, hcs⟩ := not_or.1 (mt List.mem_cons.2 h)
    rw [split, if_neg (Ne.symm hc), ih hcs]

/-- Splitting undoes joining pieces without the separator. -/
theorem split_join {separator : Char} {pieces : List (List Char)} (hne : pieces ≠ [])
    (h : ∀ piece ∈ pieces, separator ∉ piece) :
    split separator (join separator pieces) = pieces := by
  induction pieces with
  | nil => exact absurd rfl hne
  | cons piece pieces ih =>
    have hpiece := split_of_not_mem (h piece List.mem_cons_self)
    cases pieces with
    | nil => exact hpiece
    | cons next pieces =>
      have hrest := ih (List.cons_ne_nil _ _) fun p hp => h p (List.mem_cons_of_mem _ hp)
      calc split separator (join separator (piece :: next :: pieces))
          = split separator (piece ++ separator :: join separator (next :: pieces)) := rfl
        _ = piece :: next :: pieces := by
          rw [split_append, hpiece, hrest, List.singleton_append]

theorem join_append {separator : Char} {front back : List (List Char)} (hfront : front ≠ [])
    (hback : back ≠ []) :
    join separator (front ++ back) = join separator front ++ separator :: join separator back := by
  induction front with
  | nil => exact absurd rfl hfront
  | cons piece front ih =>
    cases front with
    | nil =>
      obtain ⟨next, back, rfl⟩ := List.exists_cons_of_ne_nil hback
      rfl
    | cons next front => simp [join, ← ih (List.cons_ne_nil _ _)]

/-- A joined text consists of the pieces and of one separator less than those. -/
theorem perm_join (separator : Char) (pieces : List (List Char)) :
    (join separator pieces).Perm
      (pieces.flatten ++ List.replicate (pieces.length - 1) separator) := by
  induction pieces with
  | nil => exact .nil
  | cons piece pieces ih =>
    cases pieces with
    | nil => simp [join]
    | cons next pieces =>
      have hrest : (separator :: join separator (next :: pieces)).Perm
          ((next :: pieces).flatten ++ List.replicate (pieces.length + 1) separator) :=
        (ih.cons separator).trans List.perm_middle.symm
      simpa [join, List.append_assoc] using hrest.append_left piece

/-- In another order the pieces make a text of the same characters. -/
theorem perm_join_of_perm (separator : Char) {pieces others : List (List Char)}
    (h : pieces.Perm others) : (join separator pieces).Perm (join separator others) := by
  refine (perm_join separator pieces).trans (.trans ?_ (perm_join separator others).symm)
  rw [h.length_eq]
  exact h.flatten.append_right _

end ServedChain.Text
