/-
  ServedChain — the records that a TLS connection consists of: a type, a version,
  a length of two bytes and a fragment.

  * `Record.cut` takes the first record off a byte string; `Record.cutAll` all of
    them, and says what is left;
  * `cut_encode_append`: a record is cut off as it was written;
  * `cutAll_append`: what is left carries on with what comes later.
-/
import ServedChain.Bytes

namespace ServedChain.Tls

/-! ## Content types -/

/-- The type of the content of a record. -/
inductive ContentType where
  | changeCipherSpec
  | alert
  | handshake
  | applicationData
  deriving DecidableEq, Repr

namespace ContentType

def code : ContentType → UInt8
  | changeCipherSpec => 20
  | alert => 21
  | handshake => 22
  | applicationData => 23

def ofCode? (n : UInt8) : Option ContentType :=
  [changeCipherSpec, alert, handshake, applicationData].find? fun type => type.code == n

theorem ofCode?_eq_some_iff {n : UInt8} {type : ContentType} :
    ofCode? n = some type ↔ type.code = n := by
  constructor
  · intro h
    simpa using List.find?_some h
  · rintro rfl
    cases type <;> decide

end ContentType

/-! ## Records -/

structure Record where
  type : ContentType
  /-- The two bytes of the version, which say nothing -/
  version : UInt8 × UInt8
  fragment : Bytes
  deriving DecidableEq, Repr

namespace Record

/-- The greatest length of a fragment: 2^14 and what protection may add. -/
def maxLength : Nat := 16384 + 2048

/-- The five bytes in front of the fragment. -/
def header (record : Record) : Bytes :=
  record.type.code :: record.version.1 :: record.version.2
    :: Bytes.ofNat 2 record.fragment.length

def encode (record : Record) : Bytes := record.header ++ record.fragment

/-- What a byte string begins with. -/
inductive Front where
  /-- A record, and what follows it -/
  | whole (record : Record) (rest : Bytes)
  /-- The beginning of a record, or nothing -/
  | incomplete
  /-- Something that cannot become a record -/
  | malformed
  deriving DecidableEq, Repr

/-- What a byte string begins with. -/
def cut : Bytes → Front
  | code :: v :: v' :: l :: l' :: rest =>
    match ContentType.ofCode? code with
    | none => .malformed
    | some type =>
      let length := Bytes.toNat [l, l']
      if maxLength < length then .malformed
      else match Bytes.cut? length rest with
        | none => .incomplete
        | some (fragment, rest) => .whole ⟨type, (v, v'), fragment⟩ rest
  | _ => .incomplete

theorem length_lt_of_cut {bs rest : Bytes} {record : Record} (h : cut bs = .whole record rest) :
    rest.length < bs.length := by
  unfold cut at h
  split at h
  · split at h
    · cases h
    · simp only at h
      split at h
      · cases h
      · split at h
        · cases h
        · next hcut =>
          cases h
          rw [(Bytes.cut?_eq_some_iff.1 hcut).1]
          simp only [List.length_cons, List.length_append]
          omega
  · cases h

/-- A record is cut off as it was written. -/
theorem cut_encode_append {record : Record} (h : record.fragment.length ≤ maxLength)
    (rest : Bytes) : cut (record.encode ++ rest) = .whole record rest := by
  have hlen : record.fragment.length % 65536 = record.fragment.length :=
    Nat.mod_eq_of_lt (by rw [maxLength] at h; omega)
  obtain ⟨type, ⟨v, v'⟩, fragment⟩ := record
  have htype : ContentType.ofCode? type.code = some type := ContentType.ofCode?_eq_some_iff.2 rfl
  match hw : Bytes.ofNat 2 fragment.length with
  | [l, l'] =>
    have hlength : Bytes.toNat [l, l'] = fragment.length := by
      rw [← hw, Bytes.toNat_ofNat]; exact hlen
    have hcut : Bytes.cut? fragment.length (fragment ++ rest) = some (fragment, rest) :=
      Bytes.cut?_append rfl rest
    simp only [encode, header, hw, List.cons_append, List.nil_append, cut, htype, hlength,
      Nat.not_lt.2 h, if_false, hcut]
  | [] | [_] | _ :: _ :: _ :: _ => exact absurd (congrArg List.length hw) (by simp)

/-- The end of a byte string cut into records. -/
inductive Tail where
  /-- The bytes from the first record on that is not complete -/
  | incomplete (rest : Bytes)
  /-- There is something that cannot become a record -/
  | malformed
  deriving DecidableEq, Repr

/-- The records of a byte string, and its end. -/
def cutAll (bs : Bytes) : List Record × Tail :=
  match _h : cut bs with
  | .whole record rest =>
    let (records, tail) := cutAll rest
    (record :: records, tail)
  | .incomplete => ([], .incomplete bs)
  | .malformed => ([], .malformed)
termination_by bs.length
decreasing_by exact length_lt_of_cut _h

theorem cutAll_of_whole {bs rest : Bytes} {record : Record} (h : cut bs = .whole record rest) :
    cutAll bs = (record :: (cutAll rest).1, (cutAll rest).2) := by
  rw [cutAll]
  split <;> simp_all

theorem cutAll_of_incomplete {bs : Bytes} (h : cut bs = .incomplete) :
    cutAll bs = ([], .incomplete bs) := by
  rw [cutAll]
  split <;> simp_all

theorem cutAll_of_malformed {bs : Bytes} (h : cut bs = .malformed) :
    cutAll bs = ([], .malformed) := by
  rw [cutAll]
  split <;> simp_all

/-! ## Carrying on -/

theorem cut_append_of_whole {bs rest : Bytes} {record : Record} (h : cut bs = .whole record rest)
    (more : Bytes) : cut (bs ++ more) = .whole record (rest ++ more) := by
  unfold cut at h
  split at h
  · split at h
    · cases h
    · next htype =>
      simp only at h
      split at h
      · cases h
      · next hlen =>
        split at h
        · cases h
        · next hcut =>
          cases h
          obtain ⟨hbs, hl⟩ := Bytes.cut?_eq_some_iff.1 hcut
          subst hbs
          simp only [List.cons_append, cut, htype, if_neg hlen, List.append_assoc,
            Bytes.cut?_append hl]
  · cases h

theorem cut_append_of_malformed {bs : Bytes} (h : cut bs = .malformed) (more : Bytes) :
    cut (bs ++ more) = .malformed := by
  unfold cut at h
  split at h
  · split at h
    · next htype => simp only [List.cons_append, cut, htype]
    · next htype =>
      simp only at h
      split at h
      · next hlen => simp only [List.cons_append, cut, htype, if_pos hlen]
      · split at h <;> cases h
  · cases h

/-- The records of a longer byte string: those of its front, then those of what was left of it
    and the bytes behind. -/
theorem cutAll_append (bs more : Bytes) :
    cutAll (bs ++ more) = match cutAll bs with
      | (records, .malformed) => (records, .malformed)
      | (records, .incomplete rest) =>
        (records ++ (cutAll (rest ++ more)).1, (cutAll (rest ++ more)).2) := by
  match h : cut bs with
  | .incomplete => simp [cutAll_of_incomplete h]
  | .malformed =>
    rw [cutAll_of_malformed h, cutAll_of_malformed (cut_append_of_malformed h more)]
  | .whole record rest =>
    have := length_lt_of_cut h
    rw [cutAll_of_whole (cut_append_of_whole h more), cutAll_of_whole h, cutAll_append rest more]
    match cutAll rest with
    | (_, .malformed) => rfl
    | (_, .incomplete _) => rfl
termination_by bs.length

end Record

end ServedChain.Tls
