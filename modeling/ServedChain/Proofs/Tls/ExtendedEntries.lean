/-
  Lists of certificates in the form of TLS 1.3 are read as far as they are complete.

  * `extendedEntries_of_divides`: read are the certificates of the entries that a byte
    string divides into, and then what is read of the rest;
  * `extendedEntries_of_overruns`: that is one more certificate if only its extensions
    are cut off, and else nothing;
  * `parseExtended_recovers_entries`: what is read of every message body, and that a
    list that its lengths fit reads back.
-/
import ServedChain.Proofs.Tls.CertificateList

namespace ServedChain.Tls.CertificateList

open Bytes (Divides IsSelfDelimiting)

/-! ## Entries -/

/-- The lengths of a certificate and its extensions can be written. -/
def EntryFits (entry : Bytes × Bytes) : Prop :=
  entry.1.length < 1 <<< 24 ∧ entry.2.length < 1 <<< 16

/-- A certificate is complete, but of its extensions there are fewer bytes than their length says,
    and nothing else. -/
def Overruns (bs certificate : Bytes) : Prop :=
  ∃ (length : Nat) (extensions : Bytes), certificate.length < 1 <<< 24 ∧ length < 1 <<< 16
    ∧ extensions.length < length
    ∧ bs = encodeEntry certificate ++ Bytes.ofNat 2 length ++ extensions

theorem extendedEntries_eq (bs : Bytes) :
    extendedEntries bs = match Bytes.uint? 3 bs with
      | none => []
      | some (length, rest) => match Bytes.cut? length rest with
        | none => []
        | some (certificate, rest) => match Bytes.uint? 2 rest with
          | none => []
          | some (extensionsLength, rest) =>
            certificate :: extendedEntries (rest.drop extensionsLength) := by
  rw [extendedEntries]
  split <;> simp_all
  split <;> simp_all
  split <;> simp_all

theorem extendedEntries_nil : extendedEntries [] = [] := by
  rw [extendedEntries_eq]
  rfl

/-- A certificate counts as soon as the length of its extensions is there. -/
theorem extendedEntries_append {certificate : Bytes} (h : certificate.length < 1 <<< 24)
    {length : Nat} (hlength : length < 1 <<< 16) (rest : Bytes) :
    extendedEntries (encodeEntry certificate ++ Bytes.ofNat 2 length ++ rest)
      = certificate :: extendedEntries (rest.drop length) := by
  rw [extendedEntries_eq, encodeEntry]
  simp only [List.append_assoc, @Bytes.uint?_ofNat_append 3 _ h, Bytes.cut?_append rfl,
    @Bytes.uint?_ofNat_append 2 _ hlength]

theorem encodeExtendedEntry_append (entry : Bytes × Bytes) (more : Bytes) :
    encodeExtendedEntry entry ++ more
      = encodeEntry entry.1 ++ (Bytes.lengthFirst 2 entry.2 ++ more) := by
  rw [encodeExtendedEntry, Bytes.lengthFirst, List.append_assoc, List.append_assoc,
    List.append_assoc]

theorem isSelfDelimiting_encodeExtendedEntry :
    IsSelfDelimiting encodeExtendedEntry EntryFits where
  unique h h' heq := by
    rw [encodeExtendedEntry_append, encodeExtendedEntry_append] at heq
    obtain ⟨hcertificate, hrest⟩ := isSelfDelimiting_encodeEntry.unique h.1 h'.1 heq
    obtain ⟨hextensions, hmore⟩ := @Bytes.lengthFirst_unique 2 _ _ _ _ h.2 h'.2 hrest
    exact ⟨Prod.ext hcertificate hextensions, hmore⟩
  ne_nil entry heq := by simpa [encodeExtendedEntry, encodeEntry] using congrArg List.length heq

/-- The certificates of the entries of a division are read, and what is read of the rest. -/
theorem extendedEntries_of_divides {bs rest : Bytes} {entries : List (Bytes × Bytes)}
    (h : Divides encodeExtendedEntry EntryFits bs entries rest) :
    extendedEntries bs = entries.map Prod.fst ++ extendedEntries rest := by
  induction entries generalizing bs with
  | nil => rw [h.eq]; rfl
  | cons entry entries ih =>
    obtain ⟨hbs, htail⟩ := h.tail
    obtain ⟨hcertificate, hextensions⟩ := h.fits entry List.mem_cons_self
    rw [hbs, encodeExtendedEntry, List.append_assoc,
      extendedEntries_append hcertificate hextensions, List.drop_left, ih htail, List.map_cons, List.cons_append]

theorem extendedEntries_of_overruns {bs certificate : Bytes} (h : Overruns bs certificate) :
    extendedEntries bs = [certificate] := by
  obtain ⟨length, extensions, hcertificate, hlength, hshort, rfl⟩ := h
  rw [extendedEntries_append hcertificate hlength,
    List.drop_eq_nil_of_le (Nat.le_of_lt hshort), extendedEntries_nil]

/-- What overruns does not begin with a complete entry. -/
theorem Overruns.ne_append {bs certificate : Bytes} (h : Overruns bs certificate)
    (entry : Bytes × Bytes) (more : Bytes) (hfits : EntryFits entry) :
    bs ≠ encodeExtendedEntry entry ++ more := by
  obtain ⟨length, extensions, hcertificate, hlength, hshort, rfl⟩ := h
  intro heq
  rw [List.append_assoc, encodeExtendedEntry_append] at heq
  obtain ⟨-, hrest⟩ := isSelfDelimiting_encodeEntry.unique hcertificate hfits.1 heq
  have hread := congrArg (Bytes.uint? 2) hrest
  rw [Bytes.lengthFirst, List.append_assoc, @Bytes.uint?_ofNat_append 2 _ hlength,
    @Bytes.uint?_ofNat_append 2 _ hfits.2] at hread
  obtain ⟨rfl, rfl⟩ := Prod.mk.inj (Option.some.inj hread)
  rw [List.length_append] at hshort
  omega

/-- What is read of a rest whose first entry is not complete. -/
theorem extendedEntries_of_rest {bs : Bytes}
    (h : ∀ entry more, EntryFits entry → bs ≠ encodeExtendedEntry entry ++ more)
    (hnone : ∀ certificate, ¬Overruns bs certificate) : extendedEntries bs = [] := by
  rw [extendedEntries_eq]
  split
  · rfl
  · next length rest hread =>
    split
    · rfl
    · next certificate rest hcut =>
      split
      · rfl
      · next extensionsLength extensions hextensions =>
        obtain ⟨hlt, rfl⟩ := Bytes.uint?_eq_some_iff.1 hread
        obtain ⟨rfl, rfl⟩ := Bytes.cut?_eq_some_iff.1 hcut
        obtain ⟨hlt', rfl⟩ := Bytes.uint?_eq_some_iff.1 hextensions
        have hbs : Bytes.ofNat 3 certificate.length
              ++ (certificate ++ (Bytes.ofNat 2 extensionsLength ++ extensions))
            = encodeEntry certificate ++ Bytes.ofNat 2 extensionsLength ++ extensions := by
          rw [encodeEntry, List.append_assoc, List.append_assoc]
        rw [hbs] at h hnone
        by_cases hshort : extensions.length < extensionsLength
        · exact absurd ⟨_, _, hlt, hlt', hshort, rfl⟩ (hnone certificate)
        · have htake := List.length_take_of_le (Nat.le_of_not_lt hshort)
          refine absurd ?_ (h (certificate, extensions.take extensionsLength)
            (extensions.drop extensionsLength) ⟨hlt, by rw [htake]; exact hlt'⟩)
          rw [encodeExtendedEntry, htake, List.append_assoc, List.append_assoc, List.append_assoc,
            List.take_append_drop]

/-! ## Bodies -/

/-- Where the length of the list stands in a message body. -/
def listOffset (body : Bytes) : Nat := 1 + Bytes.toNat (body.take 1)

/-- The bytes of the list in a message body, as far as they are there. -/
def extendedListText (body : Bytes) : Bytes :=
  (body.drop (listOffset body + 3)).take (Bytes.toNat ((body.drop (listOffset body)).take 3))

theorem parseExtended_eq_nil {body : Bytes} (h : body.length < listOffset body + 3) :
    parseExtended body = [] := by
  rw [listOffset] at h
  rcases Nat.lt_or_ge body.length 1 with hempty | hcontext
  · rw [parseExtended, Bytes.uint?_eq_none_iff.2 hempty]
    rfl
  · rw [parseExtended, Bytes.uint?_of_le hcontext]
    simp only [Option.bind_eq_bind, Option.bind_some]
    rcases Nat.lt_or_ge body.length (1 + Bytes.toNat (body.take 1)) with hlt | hge
    · rw [Bytes.cut?_drop_eq_none hcontext hlt]
      rfl
    · rw [Bytes.cut?_drop hge, Option.bind_some, Bytes.uint?_drop_eq_none hge h]
      rfl

theorem parseExtended_eq_extendedEntries {body : Bytes} (h : listOffset body + 3 ≤ body.length) :
    parseExtended body = extendedEntries (extendedListText body) := by
  have hoffset : 1 + Bytes.toNat (body.take 1) + 3 ≤ body.length := h
  rw [parseExtended, Bytes.uint?_of_le (by omega)]
  simp only [Option.bind_eq_bind, Option.bind_some]
  rw [Bytes.cut?_drop (by omega), Option.bind_some, Bytes.uint?_drop hoffset]
  rfl

theorem length_le_of_mem_extended {entry : Bytes × Bytes} {certificates : List (Bytes × Bytes)}
    (h : entry ∈ certificates) :
    entry.1.length ≤ (certificates.flatMap encodeExtendedEntry).length := by
  obtain ⟨front, back, rfl⟩ := List.append_of_mem h
  simp only [List.flatMap_append, List.flatMap_cons, encodeExtendedEntry, encodeEntry,
    List.length_append]
  omega

/-- A list that the lengths fit reads back without the extensions, whatever stands behind it. -/
theorem parseExtended_encodeExtended_append {context : Bytes} {certificates : List (Bytes × Bytes)}
    (hcontext : context.length < 1 <<< 8)
    (h : (certificates.flatMap encodeExtendedEntry).length < 1 <<< 24)
    (hextensions : ∀ entry ∈ certificates, entry.2.length < 1 <<< 16) (more : Bytes) :
    parseExtended (encodeExtended context certificates ++ more) = certificates.map Prod.fst := by
  have hentries : ∀ entry ∈ certificates, EntryFits entry := fun entry hmem =>
    ⟨Nat.lt_of_le_of_lt (length_le_of_mem_extended hmem) h, hextensions entry hmem⟩
  have hdivides := Bytes.divides_flatMap isSelfDelimiting_encodeExtendedEntry hentries
  rw [parseExtended, encodeExtended]
  simp only [List.append_assoc, @Bytes.uint?_ofNat_append 1 _ hcontext, Bytes.cut?_append rfl,
    @Bytes.uint?_ofNat_append 3 _ h, Option.bind_eq_bind, Option.bind_some, Option.pure_def,
    List.take_left, extendedEntries_of_divides hdivides, extendedEntries_nil, List.append_nil]

/-- A list that the lengths fit reads back without the extensions. -/
theorem parseExtended_encodeExtended {context : Bytes} {certificates : List (Bytes × Bytes)}
    (hcontext : context.length < 1 <<< 8)
    (h : (certificates.flatMap encodeExtendedEntry).length < 1 <<< 24)
    (hextensions : ∀ entry ∈ certificates, entry.2.length < 1 <<< 16) :
    parseExtended (encodeExtended context certificates) = certificates.map Prod.fst := by
  have hparse := parseExtended_encodeExtended_append hcontext h hextensions []
  rwa [List.append_nil] at hparse

/-- **A body in the form of TLS 1.3 is read as far as its certificates are complete.**  A body in
    which the context or the length of the list is cut off has no certificates.  In any other, the
    bytes of the list are in one way complete entries and a rest that begins with none, and the
    certificates of these entries are read, with one more behind them exactly if the rest has a
    complete certificate and the length of its extensions, but fewer bytes than that.  In
    particular a list that the lengths fit reads back, whatever stands behind it. -/
theorem parseExtended_recovers_entries :
    (∀ body : Bytes, body.length < listOffset body + 3 → parseExtended body = [])
    ∧ (∀ body : Bytes, listOffset body + 3 ≤ body.length → ∃ entries rest,
      Divides encodeExtendedEntry EntryFits (extendedListText body) entries rest
      ∧ (∀ entries' rest',
        Divides encodeExtendedEntry EntryFits (extendedListText body) entries' rest' →
          entries' = entries ∧ rest' = rest)
      ∧ (∀ certificate, Overruns rest certificate →
        parseExtended body = entries.map Prod.fst ++ [certificate])
      ∧ ((∀ certificate, ¬Overruns rest certificate) → parseExtended body = entries.map Prod.fst))
    ∧ ∀ (context : Bytes) (certificates : List (Bytes × Bytes)) (more : Bytes),
      context.length < 1 <<< 8 → (certificates.flatMap encodeExtendedEntry).length < 1 <<< 24 →
      (∀ entry ∈ certificates, entry.2.length < 1 <<< 16) →
        parseExtended (encodeExtended context certificates ++ more)
          = certificates.map Prod.fst := by
  refine ⟨fun body => parseExtended_eq_nil, fun body hbody => ?_,
    fun context certificates more hcontext h hextensions =>
      parseExtended_encodeExtended_append hcontext h hextensions more⟩
  obtain ⟨entries, rest, h⟩ := Bytes.exists_divides isSelfDelimiting_encodeExtendedEntry
    (extendedListText body)
  have hparse : parseExtended body = entries.map Prod.fst ++ extendedEntries rest := by
    rw [parseExtended_eq_extendedEntries hbody, extendedEntries_of_divides h]
  refine ⟨entries, rest, h, fun entries' rest' h' =>
    h'.unique isSelfDelimiting_encodeExtendedEntry h, fun certificate hoverruns => ?_,
    fun hnone => ?_⟩
  · rw [hparse, extendedEntries_of_overruns hoverruns]
  · rw [hparse, extendedEntries_of_rest h.ends hnone, List.append_nil]

/-- A complete entry, and behind it one whose extensions go on beyond the end of the list. -/
theorem parseExtended_recovers_entries_overrun :
    parseExtended [0, 0, 0, 13, 0, 0, 1, 7, 0, 0, 0, 0, 1, 8, 0, 5, 9, 9, 9, 9, 9]
      = [[7], [8]] := by
  obtain ⟨-, hread, -⟩ := parseExtended_recovers_entries
  obtain ⟨entries, rest, -, hunique, hoverrun, -⟩ :=
    hread [0, 0, 0, 13, 0, 0, 1, 7, 0, 0, 0, 0, 1, 8, 0, 5, 9, 9, 9, 9, 9] (by decide)
  have hrest : Overruns [0, 0, 1, 8, 0, 5, 9] [8] :=
    ⟨5, [9], by decide, by decide, by decide, rfl⟩
  have hfits : ∀ entry ∈ [([7], [])], EntryFits entry := by
    intro entry hmem
    rw [List.mem_singleton.1 hmem]
    exact ⟨by decide, by decide⟩
  obtain ⟨rfl, rfl⟩ := hunique [([7], [])] [0, 0, 1, 8, 0, 5, 9]
    ⟨by decide, hfits, hrest.ne_append⟩
  exact hoverrun [8] hrest

end ServedChain.Tls.CertificateList
