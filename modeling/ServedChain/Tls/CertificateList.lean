/-
  ServedChain — the message in which a server presents its certificates, in the
  forms of TLS 1.2 and TLS 1.3.  In the later one a context stands in front of
  the list and each certificate has extensions behind it.

  Both are read as far as they are complete: the first entry that is not ends
  the list.  In the later form a certificate counts as soon as the length of its
  extensions is there.
-/
import ServedChain.Bytes

namespace ServedChain.Tls.CertificateList

/-! ## TLS 1.2 -/

/-- The certificates at the front of a byte string. -/
def entries (bs : Bytes) : List Bytes :=
  match _hlength : Bytes.uint? 3 bs with
  | none => []
  | some (length, rest) =>
    match _hcut : Bytes.cut? length rest with
    | none => []
    | some (certificate, rest) => certificate :: entries rest
termination_by bs.length
decreasing_by
  obtain ⟨front, hbs, hfront, -⟩ := Bytes.uint?_eq_some _hlength
  obtain ⟨hrest, -⟩ := Bytes.cut?_eq_some_iff.1 _hcut
  subst hbs
  subst hrest
  simp only [List.length_append]
  omega

/-- The certificates of a message body. -/
def parse (body : Bytes) : List Bytes :=
  match Bytes.uint? 3 body with
  | none => []
  | some (length, rest) => entries (rest.take length)

/-- A certificate behind its length. -/
def encodeEntry (certificate : Bytes) : Bytes :=
  Bytes.ofNat 3 certificate.length ++ certificate

/-- The message body with a list of certificates. -/
def encode (certificates : List Bytes) : Bytes :=
  let list := certificates.flatMap encodeEntry
  Bytes.ofNat 3 list.length ++ list

/-! ## TLS 1.3 -/

/-- The certificates at the front of a byte string, each with extensions behind it. -/
def extendedEntries (bs : Bytes) : List Bytes :=
  match _hlength : Bytes.uint? 3 bs with
  | none => []
  | some (length, rest) =>
    match _hcut : Bytes.cut? length rest with
    | none => []
    | some (certificate, rest) =>
      match _hextensions : Bytes.uint? 2 rest with
      | none => []
      | some (extensionsLength, rest) =>
        certificate :: extendedEntries (rest.drop extensionsLength)
termination_by bs.length
decreasing_by
  obtain ⟨front, hbs, hfront, -⟩ := Bytes.uint?_eq_some _hlength
  obtain ⟨hrest, -⟩ := Bytes.cut?_eq_some_iff.1 _hcut
  obtain ⟨front', hrest', -, -⟩ := Bytes.uint?_eq_some _hextensions
  subst hbs
  subst hrest
  subst hrest'
  simp only [List.length_append, List.length_drop]
  omega

/-- The certificates of a message body in the form of TLS 1.3. -/
def parseExtended (body : Bytes) : List Bytes :=
  let list := do
    let (contextLength, rest) ← Bytes.uint? 1 body
    let (_, rest) ← Bytes.cut? contextLength rest
    let (length, rest) ← Bytes.uint? 3 rest
    return rest.take length
  match list with
  | none => []
  | some list => extendedEntries list

/-- A certificate behind its length, and extensions behind theirs. -/
def encodeExtendedEntry (entry : Bytes × Bytes) : Bytes :=
  encodeEntry entry.1 ++ Bytes.ofNat 2 entry.2.length ++ entry.2

/-- The message body with a context and a list of certificates with their extensions. -/
def encodeExtended (context : Bytes) (certificates : List (Bytes × Bytes)) : Bytes :=
  let list := certificates.flatMap encodeExtendedEntry
  Bytes.ofNat 1 context.length ++ context ++ Bytes.ofNat 3 list.length ++ list

end ServedChain.Tls.CertificateList
