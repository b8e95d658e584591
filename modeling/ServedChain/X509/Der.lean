/-
  ServedChain — certificates (RFC 5280) in binary form.

  A certificate is read for the names of its subject and its issuer.  All other
  fields must be there in the right form, but what they say is not looked at.
-/
import ServedChain.X509.Name

namespace ServedChain.X509

open Asn1 (Element universal context optional elements?)

/-- What is read off a certificate. -/
structure Certificate where
  subject : Name
  issuer : Name
  deriving DecidableEq, Repr

/-! ## Fields -/

/-- An algorithm, with parameters or without. -/
def isAlgorithm (e : Element) : Bool :=
  match e.sequence? with
  | some [algorithm] => algorithm.oid?.isSome
  | some [algorithm, parameters] => algorithm.oid?.isSome && parameters.isValue
  | _ => false

def isTime (e : Element) : Bool := e.isOf 23 || e.isOf 24

def isValidity (e : Element) : Bool :=
  match e.sequence? with
  | some [start, stop] => isTime start && isTime stop
  | _ => false

/-- A public key with its algorithm. -/
def isPublicKey (e : Element) : Bool :=
  match e.sequence? with
  | some [algorithm, key] => isAlgorithm algorithm && key.isOf 3
  | _ => false

/-- An extension: its type, perhaps whether it is critical, and its contents. -/
def isExtension (e : Element) : Bool :=
  match e.sequence? with
  | some [type, value] => type.oid?.isSome && value.isOf 4
  | some [type, critical, value] => type.oid?.isSome && critical.isOf 1 && value.isOf 4
  | _ => false

/-- A version under its tag. -/
def isVersion (e : Element) : Bool :=
  (e.tagged? 0).any fun version => version.tag = universal 2 && version.isInteger

/-- Extensions under their tag. -/
def areExtensions (e : Element) : Bool :=
  ((e.tagged? 3).bind (·.items? (universal 16))).any (·.all isExtension)

/-! ## Certificates -/

/-- The names in the signed part of a certificate. -/
def Certificate.ofSigned? (e : Element) : Option Certificate := do
  let (version, fields) := optional (context 0) (← e.sequence?)
  match fields with
  | serial :: algorithm :: issuer :: validity :: subject :: key :: rest =>
    let (issuerId, rest) := optional (context 1) rest
    let (subjectId, rest) := optional (context 2) rest
    let (extensions, rest) := optional (context 3) rest
    let issuer ← Name.ofElement? issuer
    let subject ← Name.ofElement? subject
    if version.all isVersion && serial.tag = universal 2 && serial.isInteger
        && isAlgorithm algorithm && isValidity validity && isPublicKey key
        && issuerId.all (·.bits?.isSome) && subjectId.all (·.bits?.isSome)
        && extensions.all areExtensions && rest.isEmpty then
      some ⟨subject, issuer⟩
    else none
  | _ => none

/-- The certificate that an element holds. -/
def Certificate.ofElement? (e : Element) : Option Certificate := do
  match ← e.sequence? with
  | [signed, algorithm, signature] =>
    if isAlgorithm algorithm && signature.isOf 3 then Certificate.ofSigned? signed else none
  | _ => none

/-- The certificate at the front of a byte string, which starts within eight bytes. -/
def Certificate.ofDer? (bs : Bytes) : Option Certificate := do
  let _ ← Asn1.Header.read? (bs.take 8)
  let (element, _) ← Element.read? bs
  Certificate.ofElement? element

/-! ## Trust settings -/

/-- A list of object identifiers under a tag. -/
def areOids (tag : Asn1.Tag) (e : Element) : Bool :=
  (e.items? tag).any (·.all (·.oid?.isSome))

/-- What a holder of a certificate may add to it: purposes that it is trusted for or not, a
    name, a key identifier and other things. -/
def areTrustSettings (e : Element) : Bool :=
  match e.sequence? with
  | none => false
  | some fields =>
    let (trusted, fields) := optional (universal 16) fields
    let (rejected, fields) := optional (context 0) fields
    let (friendly, fields) := optional (universal 12) fields
    let (keyId, fields) := optional (universal 4) fields
    let (others, fields) := optional (context 1) fields
    trusted.all (areOids (universal 16)) && rejected.all (areOids (context 0))
      && friendly.all (·.isValue) && keyId.all (·.isValue)
      && others.all (fun e => (e.items? (context 1)).any (·.all isAlgorithm))
      && fields.isEmpty

/-- The certificate at the front of a byte string, with nothing or trust settings behind it. -/
def Certificate.ofTrusted? (bs : Bytes) : Option Certificate := do
  let (element, rest) ← Element.read? bs
  let certificate ← Certificate.ofElement? element
  if rest.isEmpty || (Element.read? rest).any (fun (e, _) => areTrustSettings e) then
    some certificate
  else none

end ServedChain.X509
