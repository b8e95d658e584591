/-
  Lists of certificates are read as far as they are complete.

  * `entries_of_divides`: read are the entries that a byte string divides into;
  * `entries_take`: of a cut list, the entries wholly in it;
  * `parse_recovers_entries`: what is read of every message body, and that a list that
    its lengths fit reads back.
-/
import ServedChain.Proofs.Division
import ServedChain.Tls.CertificateList

namespace ServedChain.Tls.CertificateList

open Bytes (Divides IsSelfDelimiting)

/-! ## TLS 1.2 -/

theorem entries_eq (bs : Bytes) :
    entries bs = match Bytes.uint? 3 bs with
      | none => []
      | some (length, rest) => match Bytes.cut? length rest with
        | none => []
        | some (certificate, rest) => certificate :: entries rest := by
  rw [entries]
  split <;> simp_all
  split <;> simp_all

theorem entries_append {certificate : Bytes} (h : certificate.length < 1 <<< 24) (rest : Bytes) :
    entries (encodeEntry certificate ++ rest) = certificate :: entries rest := by
  rw [entries_eq, encodeEntry, List.append_assoc, @Bytes.uint?_ofNat_append 3 _ h]
  simp only [Bytes.cut?_append rfl]

theorem entries_nil : entries [] = [] := by
  rw [entries_eq]
  rfl

theorem entries_eq_nil {bs : Bytes}
    (h : ∀ certificate more, certificate.length < 1 <<< 24 → bs ≠ encodeEntry certificate ++ more) :
    entries bs = [] := by
  rw [entries_eq]
  split
  · rfl
  · next length rest hlength =>
    split
    · rfl
    · next certificate more hcut =>
      obtain ⟨hlt, rfl⟩ := Bytes.uint?_eq_some_iff.1 hlength
      obtain ⟨rfl, rfl⟩ := Bytes.cut?_eq_some_iff.1 hcut
      exact absurd (List.append_assoc ..).symm (h certificate more hlt)

theorem isSelfDelimiting_encodeEntry : IsSelfDelimiting encodeEntry (·.length < 1 <<< 24) where
  unique h h' heq := @Bytes.lengthFirst_unique 3 _ _ _ _ h h' heq
  ne_nil certificate heq := by simpa [encodeEntry] using congrArg List.length heq

/-- The entries that are read are those of the division. -/
theorem entries_of_divides {bs rest : Bytes} {certificates : List Bytes}
    (h : Divides encodeEntry (·.length < 1 <<< 24) bs certificates rest) :
    entries bs = certificates := by
  induction certificates generalizing bs with
  | nil =>
    rw [h.eq]
    exact entries_eq_nil h.ends
  | cons certificate certificates ih =>
    obtain ⟨hbs, htail⟩ := h.tail
    rw [hbs, entries_append (h.fits certificate List.mem_cons_self), ih htail]

/-- There are too few bytes for a length, or for what it says. -/
def IsPartial (bs : Bytes) : Prop :=
  bs.length < 3 ∨ (bs.drop 3).length < Bytes.toNat (bs.take 3)

theorem isPartial_iff {bs : Bytes} :
    IsPartial bs
      ↔ ∀ certificate more, certificate.length < 1 <<< 24 →
        bs ≠ encodeEntry certificate ++ more := by
  constructor
  · rintro h certificate more hlt rfl
    have hle : 3 ≤ (encodeEntry certificate ++ more).length := by
      simp only [encodeEntry, List.length_append, Bytes.length_ofNat]
      omega
    have hread := Bytes.uint?_of_le hle
    rw [encodeEntry, List.append_assoc, @Bytes.uint?_ofNat_append 3 _ hlt] at hread
    obtain ⟨hlength, hrest⟩ := Prod.mk.inj (Option.some.inj hread)
    rcases h with h | h
    · omega
    · rw [encodeEntry, List.append_assoc, ← hlength, ← hrest, List.length_append] at h
      omega
  · intro h
    refine Classical.byContradiction fun hwhole => ?_
    obtain ⟨hle, hlength⟩ := not_or.1 hwhole
    obtain ⟨hlt, hbs⟩ := Bytes.uint?_eq_some_iff.1 (Bytes.uint?_of_le (Nat.not_lt.1 hle))
    have hcertificate : ((bs.drop 3).take (Bytes.toNat (bs.take 3))).length
        = Bytes.toNat (bs.take 3) := List.length_take_of_le (Nat.not_lt.1 hlength)
    refine h ((bs.drop 3).take (Bytes.toNat (bs.take 3)))
      ((bs.drop 3).drop (Bytes.toNat (bs.take 3))) (by rw [hcertificate]; exact hlt) ?_
    rw [encodeEntry, hcertificate, List.append_assoc, List.take_append_drop]
    exact hbs

theorem length_le_of_mem {certificate : Bytes} {certificates : List Bytes}
    (h : certificate ∈ certificates) :
    certificate.length ≤ (certificates.flatMap encodeEntry).length := by
  obtain ⟨front, back, rfl⟩ := List.append_of_mem h
  simp only [List.flatMap_append, List.flatMap_cons, encodeEntry, List.length_append]
  omega

/-- What is read of a byte string that a list can have. -/
theorem entries_eq_iff {bs : Bytes} (hbs : bs.length < 1 <<< 24) {certificates : List Bytes} :
    entries bs = certificates
      ↔ ∃ rest, bs = certificates.flatMap encodeEntry ++ rest ∧ IsPartial rest := by
  constructor
  · rintro rfl
    obtain ⟨certificates, rest, h⟩ := Bytes.exists_divides isSelfDelimiting_encodeEntry bs
    exact ⟨rest, by rw [entries_of_divides h]; exact h.eq, isPartial_iff.2 h.ends⟩
  · rintro ⟨rest, heq, hpartial⟩
    refine entries_of_divides ⟨heq, fun certificate hmem => ?_, isPartial_iff.1 hpartial⟩
    have hle := length_le_of_mem hmem
    rw [heq, List.length_append] at hbs
    exact Nat.lt_of_le_of_lt (Nat.le_trans hle (Nat.le_add_right ..)) hbs

theorem entries_flatMap_encodeEntry {certificates : List Bytes}
    (h : ∀ certificate ∈ certificates, certificate.length < 1 <<< 24) :
    entries (certificates.flatMap encodeEntry) = certificates :=
  entries_of_divides (Bytes.divides_flatMap isSelfDelimiting_encodeEntry h)

/-- Of a cut list, the entries wholly in it are read. -/
theorem entries_take {certificates : List Bytes}
    (h : ∀ certificate ∈ certificates, certificate.length < 1 <<< 24) (n : Nat) :
    ∃ count ≤ certificates.length,
      entries ((certificates.flatMap encodeEntry).take n) = certificates.take count
        ∧ ∀ i < certificates.length,
          i < count ↔ ((certificates.take (i + 1)).flatMap encodeEntry).length ≤ n := by
  induction certificates generalizing n with
  | nil =>
    refine ⟨0, Nat.le_refl 0, ?_, fun i hi => absurd hi (Nat.not_lt_zero i)⟩
    rw [List.flatMap_nil, List.take_nil, entries_nil, List.take_nil]
  | cons certificate certificates ih =>
    have hfirst := h certificate List.mem_cons_self
    have hlength : ∀ i, (((certificate :: certificates).take (i + 1)).flatMap encodeEntry).length
        = (encodeEntry certificate).length
          + ((certificates.take i).flatMap encodeEntry).length := by
      intro i
      rw [List.take_succ_cons, List.flatMap_cons, List.length_append]
    by_cases hle : (encodeEntry certificate).length ≤ n
    · obtain ⟨count, hcount, hentries, hwhole⟩ := ih
        (fun c hc => h c (List.mem_cons_of_mem _ hc)) (n - (encodeEntry certificate).length)
      refine ⟨count + 1, Nat.succ_le_succ hcount, ?_, fun i hi => ?_⟩
      · rw [List.flatMap_cons, List.take_append, List.take_of_length_le hle,
          entries_append hfirst, hentries, List.take_succ_cons]
      · rw [hlength]
        cases i with
        | zero =>
          simp only [List.take_zero, List.flatMap_nil, List.length_nil, Nat.add_zero, hle, iff_true]
          omega
        | succ i =>
          have hi := hwhole i (Nat.lt_of_succ_lt_succ hi)
          omega
    · refine ⟨0, Nat.zero_le _, ?_, fun i _ => ?_⟩
      · -- A complete entry would be the first one, which is cut off
        refine entries_eq_nil fun certificate' more hlt heq => ?_
        have hbs := (List.take_append_drop n
          ((certificate :: certificates).flatMap encodeEntry)).symm
        rw [heq, List.flatMap_cons, List.append_assoc] at hbs
        obtain ⟨rfl, -⟩ := isSelfDelimiting_encodeEntry.unique hfirst hlt hbs
        have hlonger := congrArg List.length heq
        rw [List.length_take, List.length_append] at hlonger
        omega
      · rw [hlength]
        omega

/-- The bytes of the list in a message body, as far as they are there. -/
def listText (body : Bytes) : Bytes := (body.drop 3).take (Bytes.toNat (body.take 3))

theorem length_listText_lt (body : Bytes) : (listText body).length < 1 <<< 24 := by
  have hle : (listText body).length ≤ Bytes.toNat (body.take 3) := List.length_take_le ..
  have hlt := Bytes.toNat_lt (body.take 3)
  have hwidth : (body.take 3).length ≤ 3 := List.length_take_le ..
  refine Nat.lt_of_le_of_lt hle (Nat.lt_of_lt_of_le hlt ?_)
  rw [Nat.one_shiftLeft, Nat.one_shiftLeft]
  exact Nat.pow_le_pow_right (by decide) (Nat.mul_le_mul_left 8 hwidth)

theorem parse_eq_entries (body : Bytes) : parse body = entries (listText body) := by
  by_cases h : 3 ≤ body.length
  · rw [parse, Bytes.uint?_of_le h]
    rfl
  · have hshort := Nat.lt_of_not_le h
    rw [parse, Bytes.uint?_eq_none_iff.2 hshort, listText,
      List.drop_eq_nil_of_le (Nat.le_of_lt hshort), List.take_nil, entries_nil]

theorem listText_encode_append {certificates : List Bytes}
    (h : (certificates.flatMap encodeEntry).length < 1 <<< 24) (more : Bytes) :
    listText (encode certificates ++ more) = certificates.flatMap encodeEntry := by
  have hread := @Bytes.uint?_ofNat_append 3 _ h (certificates.flatMap encodeEntry ++ more)
  rw [Bytes.uint?_of_le (by simp only [List.length_append, Bytes.length_ofNat]; omega)] at hread
  obtain ⟨hlength, hrest⟩ := Prod.mk.inj (Option.some.inj hread)
  rw [listText, encode, List.append_assoc, hlength, hrest, List.take_left]

/-- A list that its length fits reads back, whatever stands behind it. -/
theorem parse_encode_append {certificates : List Bytes}
    (h : (certificates.flatMap encodeEntry).length < 1 <<< 24) (more : Bytes) :
    parse (encode certificates ++ more) = certificates := by
  rw [parse_eq_entries, listText_encode_append h]
  exact entries_flatMap_encodeEntry fun c hc => Nat.lt_of_le_of_lt (length_le_of_mem hc) h

/-- A list that its length fits reads back. -/
theorem parse_encode {certificates : List Bytes}
    (h : (certificates.flatMap encodeEntry).length < 1 <<< 24) :
    parse (encode certificates) = certificates := by
  have hparse := parse_encode_append h []
  rwa [List.append_nil] at hparse

theorem listText_take (body : Bytes) (n : Nat) :
    listText (body.take n) = (listText body).take (n - 3) := by
  rw [listText, listText, List.drop_take]
  rcases Nat.lt_or_ge n 3 with hlt | hge
  · rw [Nat.sub_eq_zero_of_le (Nat.le_of_lt hlt), List.take_zero, List.take_zero, List.take_nil]
  · have hfront : (body.take n).take 3 = body.take 3 := by
      rw [List.take_take, Nat.min_eq_left hge]
    rw [hfront, List.take_take, List.take_take, Nat.min_comm]

/-- Of a list that is cut somewhere, the entries wholly in it are read. -/
theorem parse_take_encode {certificates : List Bytes}
    (h : (certificates.flatMap encodeEntry).length < 1 <<< 24) (n : Nat) :
    ∃ count ≤ certificates.length, parse ((encode certificates).take n) = certificates.take count
      ∧ ∀ i < certificates.length,
        i < count ↔ 3 + ((certificates.take (i + 1)).flatMap encodeEntry).length ≤ n := by
  have hlist : listText (encode certificates) = certificates.flatMap encodeEntry := by
    have hlist := listText_encode_append h []
    rwa [List.append_nil] at hlist
  obtain ⟨count, hcount, hentries, hwhole⟩ := entries_take
    (fun c hc => Nat.lt_of_le_of_lt (length_le_of_mem hc) h) (n - 3)
  refine ⟨count, hcount, ?_, fun i hi => ?_⟩
  · rw [parse_eq_entries, listText_take, hlist, hentries]
  · rw [hwhole i hi]
    -- An entry is longer than nothing, so it is not in a body without a length either
    have hpos : 0 < ((certificates.take (i + 1)).flatMap encodeEntry).length := by
      cases certificates with
      | nil => exact absurd hi (Nat.not_lt_zero i)
      | cons certificate certificates =>
        rw [List.take_succ_cons, List.flatMap_cons, encodeEntry]
        simp only [List.length_append, Bytes.length_ofNat]
        omega
    omega

/-- **A body is read as far as its entries are complete.**  A body of fewer than three bytes has no
    certificates.  In any other, the certificates that are read are the only ones of which the
    bytes of the list consist, up to a rest that is too short for a length or for what it says;
    written again they are the beginning of these bytes.  Hence a list that its length fits reads
    back, whatever stands behind it, and one that is cut somewhere gives the entries wholly in
    it. -/
theorem parse_recovers_entries :
    (∀ body : Bytes, body.length < 3 → parse body = [])
    ∧ (∀ body : Bytes, 3 ≤ body.length →
      let list := (body.drop 3).take (Bytes.toNat (body.take 3))
      (∀ certificates, parse body = certificates
        ↔ ∃ rest, list = certificates.flatMap encodeEntry ++ rest
          ∧ (rest.length < 3 ∨ (rest.drop 3).length < Bytes.toNat (rest.take 3)))
      ∧ (parse body).flatMap encodeEntry <+: list)
    ∧ ∀ certificates : List Bytes, (certificates.flatMap encodeEntry).length < 1 <<< 24 →
      (∀ more, parse (encode certificates ++ more) = certificates)
      ∧ ∀ n, ∃ count ≤ certificates.length,
        parse ((encode certificates).take n) = certificates.take count
        ∧ ∀ i < certificates.length,
          i < count ↔ 3 + ((certificates.take (i + 1)).flatMap encodeEntry).length ≤ n := by
  refine ⟨fun body hshort => ?_, fun body _ => ?_, fun certificates h =>
    ⟨parse_encode_append h, parse_take_encode h⟩⟩
  · rw [parse, Bytes.uint?_eq_none_iff.2 hshort]
  · intro list
    have hiff : ∀ certificates, parse body = certificates
        ↔ ∃ rest, list = certificates.flatMap encodeEntry ++ rest ∧ IsPartial rest := by
      intro certificates
      rw [parse_eq_entries]
      exact entries_eq_iff (length_listText_lt body)
    obtain ⟨rest, hlist, -⟩ := (hiff (parse body)).1 rfl
    exact ⟨hiff, rest, hlist.symm⟩

/-- A list cut in the length of its second entry, and a list that says that it is shorter than it
    is. -/
theorem parse_recovers_entries_cut :
    parse ((encode [[1, 2], [3]]).take 10) = [[1, 2]]
      ∧ parse [0, 0, 6, 0, 0, 1, 7, 0, 0, 1, 8] = [[7]] := by
  obtain ⟨-, hread, hencoded⟩ := parse_recovers_entries
  constructor
  · obtain ⟨count, -, hparse, hwhole⟩ := (hencoded [[1, 2], [3]] (by decide)).2 10
    have hfirst := (hwhole 0 (by decide)).2 (by decide)
    have hsecond : ¬1 < count := fun h => absurd ((hwhole 1 (by decide)).1 h) (by decide)
    have hcount : count = 1 := by omega
    rw [hparse, hcount]
    rfl
  · exact ((hread _ (by decide)).1 [[7]]).2 ⟨[0, 0], rfl, Or.inl (by decide)⟩

end ServedChain.Tls.CertificateList
