/-
  ServedChain — the chain of certificates that a server sends, as far as it is
  looked at: who a certificate speaks about and who signed it.

  * `Identity.ofBytes?` decodes a certificate, `Chain.ofBytes` a chain;
  * `Chain.describe` is a chain as text.
-/
import ServedChain.X509.Pem

namespace ServedChain

/-- The common names of the subject and the issuer of a certificate; the empty text stands for
    none. -/
structure Identity where
  subject : String
  issuer : String
  deriving DecidableEq, Repr

/-- Certificates as served, the leaf first. -/
abbrev Chain := List Identity

/-- The last common name in the text of a distinguished name. -/
def commonNameIn (text : String) : String := String.ofList (X509.commonNameIn text.toList)

/-- The common name of a name, if the name has any text at all. -/
def commonNameIn? (name : X509.Name) : Option String :=
  if name.render.isEmpty then none else some (String.ofList (X509.commonNameIn name.render))

namespace Identity

/-- The common names in a certificate, both of whose names have some text. -/
def ofCertificate? (certificate : X509.Certificate) : Option Identity := do
  return ⟨← commonNameIn? certificate.subject, ← commonNameIn? certificate.issuer⟩

/-- The common names in an encoded certificate. -/
def ofBytes? (bs : Bytes) : Option Identity := do
  ofCertificate? (← X509.Certificate.parse? bs)

/-- The text of an identity under a label. -/
def describe (label : String) (identity : Identity) : String :=
  label ++ " [subject: " ++ identity.subject ++ " | issuer: " ++ identity.issuer ++ "]"

end Identity

namespace Chain

/-- The identities of the records that are certificates, in order. -/
def ofBytes (records : List Bytes) : Chain := records.filterMap Identity.ofBytes?

/-- The label of the certificate at a place. -/
def label (place : Nat) : String :=
  if place = 0 then "leaf" else "chain[" ++ toString place ++ "]"

/-- The text of a chain, the leaf first. -/
def describe (chain : Chain) : String :=
  " -> ".intercalate (chain.zipIdx.map fun (identity, place) => identity.describe (label place))

end Chain

end ServedChain
