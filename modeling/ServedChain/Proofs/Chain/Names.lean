/-
  The names in a decoded chain, compared with those in the certificates.

  * `commonNameIn?_eq`: a name with an attribute gives what its text shows;
  * `ofBytes_append_cons`: a certificate of such names gives the identity of what
    the two texts show, wherever it stands among the records;
  * `ofBytes_shows_names` says when these are the last common names, and
    `ofBytes_misses_names` has a certificate for which they are not.
-/
import ServedChain.Chain.Identity
import ServedChain.Proofs.X509.CommonName

namespace ServedChain

open X509 (Certificate Name)

/-! ## Identities -/

/-- A name gives what its text shows as its common name, if it has an attribute. -/
theorem commonNameIn?_eq (name : Name) : commonNameIn? name
    = if name.flatten = [] then none else some (String.ofList name.shownCommonName) := by
  by_cases h : name.flatten = []
  · rw [if_pos h, commonNameIn?, (X509.render_eq_nil_iff name).2 h, List.isEmpty_nil, if_pos rfl]
  · have htext : ¬name.render.isEmpty = true := by
      rw [List.isEmpty_iff, X509.render_eq_nil_iff]
      exact h
    rw [if_neg h, commonNameIn?, if_neg htext, X509.commonNameIn_render]

/-- What the texts of the names in a certificate show. -/
def Identity.shownBy (certificate : Certificate) : Identity :=
  ⟨String.ofList certificate.subject.shownCommonName,
    String.ofList certificate.issuer.shownCommonName⟩

theorem Identity.ofCertificate?_eq {certificate : Certificate}
    (hsubject : certificate.subject.flatten ≠ []) (hissuer : certificate.issuer.flatten ≠ []) :
    ofCertificate? certificate = some (shownBy certificate) := by
  rw [ofCertificate?, commonNameIn?_eq, commonNameIn?_eq, if_neg hsubject, if_neg hissuer]
  rfl

/-! ## Made-up certificates -/

namespace Sample

/-- An element with less than 256 bytes of contents. -/
def element (tag : UInt8) (contents : Bytes) : Bytes :=
  let length := UInt8.ofNat contents.length
  if contents.length < 0x80 then tag :: length :: contents else tag :: 0x81 :: length :: contents

/-- An attribute as directories have it. -/
def entry (arc : UInt8) (text : String) : Bytes :=
  element 0x30 (element 0x06 [0x55, 0x04, arc] ++ element 0x0c (X509.Pem.ascii text))

def commonName (text : String) : Bytes := entry 3 text

def unit (text : String) : Bytes := entry 11 text

/-- A name made of relative names, each of the given entries. -/
def name (relatives : List (List Bytes)) : Bytes :=
  element 0x30 (relatives.flatMap fun entries => element 0x31 entries.flatten)

/-- ECDSA with SHA-256. -/
def algorithm : Bytes :=
  element 0x30 (element 0x06 [0x2a, 0x86, 0x48, 0xce, 0x3d, 0x04, 0x03, 0x02])

def validity : Bytes :=
  element 0x30 (element 0x17 (X509.Pem.ascii "200101000000Z")
    ++ element 0x17 (X509.Pem.ascii "491231235959Z"))

/-- A key on P-256, which is no point of it. -/
def publicKey : Bytes :=
  element 0x30
    (element 0x30 (element 0x06 [0x2a, 0x86, 0x48, 0xce, 0x3d, 0x02, 0x01]
      ++ element 0x06 [0x2a, 0x86, 0x48, 0xce, 0x3d, 0x03, 0x01, 0x07])
    ++ element 0x03 (0x00 :: 0x04 :: List.replicate 64 0x11))

/-- A signature that is none. -/
def signature : Bytes := element 0x03 [0x00, 0x30, 0x06, 0x02, 0x01, 0x01, 0x02, 0x01, 0x01]

/-- A certificate with the given names. -/
def certificate (subject issuer : List (List Bytes)) : Bytes :=
  element 0x30
    (element 0x30 (element 0xa0 (element 0x02 [0x02]) ++ element 0x02 [0x01] ++ algorithm
      ++ name issuer ++ validity ++ name subject ++ publicKey)
    ++ algorithm ++ signature)

end Sample

/-! ## Chains -/

namespace Chain

theorem ofBytes_append_cons {raw : Bytes} {certificate : Certificate}
    (hraw : Certificate.parse? raw = some certificate)
    (hsubject : certificate.subject.flatten ≠ []) (hissuer : certificate.issuer.flatten ≠ [])
    (front back : List Bytes) :
    ofBytes (front ++ raw :: back)
      = ofBytes front ++ Identity.shownBy certificate :: ofBytes back := by
  have hdecoded : Identity.ofBytes? raw = some (Identity.shownBy certificate) := by
    rw [Identity.ofBytes?, hraw]
    exact Identity.ofCertificate?_eq hsubject hissuer
  rw [ofBytes, List.filterMap_append, List.filterMap_cons, hdecoded]
  rfl

/-- **What the decoded chain says of a certificate with names**, whatever other records there are:
    the two common names that the texts of its names show.  Such a text shows the last common name
    as it is written, if no common name shares a relative name with another attribute; then it is
    the common name itself exactly if that is plain.  Without a common name it shows nothing. -/
theorem ofBytes_shows_names {raw : Bytes} {certificate : Certificate}
    (hraw : Certificate.parse? raw = some certificate)
    (hsubject : certificate.subject.flatten ≠ []) (hissuer : certificate.issuer.flatten ≠ [])
    (front back : List Bytes) :
    ofBytes (front ++ raw :: back) = ofBytes front
        ++ ⟨String.ofList certificate.subject.shownCommonName,
          String.ofList certificate.issuer.shownCommonName⟩ :: ofBytes back
      ∧ ∀ name ∈ [certificate.subject, certificate.issuer],
        (name.CommonNamesAlone →
          name.shownCommonName = X509.escape name.lastCommonName
          ∧ (name.shownCommonName = name.lastCommonName ↔ X509.IsPlain name.lastCommonName))
        ∧ (name.commonNames = [] → name.shownCommonName = []) := by
  refine ⟨ofBytes_append_cons hraw hsubject hissuer front back, fun name _ => ⟨fun h => ?_, ?_⟩⟩
  · have hshown := X509.shownCommonName_of_alone h
    exact ⟨hshown, hshown ▸ X509.escape_eq_self_iff _⟩
  · exact X509.shownCommonName_of_no_commonNames

/-- A leaf whose subject has two common names, behind a record that is no certificate. -/
theorem ofBytes_shows_names_plain :
    let raw := Sample.certificate
      [[Sample.commonName "first"], [Sample.commonName "shop.example"]] [[Sample.commonName "R3"]]
    let subject : Name := [[⟨X509.commonName, "first".toList⟩],
      [⟨X509.commonName, "shop.example".toList⟩]]
    let issuer : Name := [[⟨X509.commonName, "R3".toList⟩]]
    Certificate.parse? raw = some ⟨subject, issuer⟩
      ∧ subject.shownCommonName = "shop.example".toList
      ∧ ofBytes [[0x30, 0x00], raw] = [⟨"shop.example", "R3"⟩] := by
  intro raw subject issuer
  have hraw : Certificate.parse? raw = some ⟨subject, issuer⟩ := by decide +kernel
  obtain ⟨hchain, hnames⟩ := ofBytes_shows_names hraw (by decide) (by decide) [[0x30, 0x00]] []
  have hsubject := (hnames subject (by simp)).1 (by decide)
  have hissuer := (hnames issuer (by simp)).1 (by decide)
  have hfront : ofBytes [[0x30, 0x00]] = [] := by decide +kernel
  refine ⟨hraw, ?_, ?_⟩
  · exact hsubject.2.2 (by decide)
  · rw [List.singleton_append, hfront] at hchain
    rw [hchain, hsubject.1, hissuer.1]
    decide

/-- A common name behind another attribute of its relative name is not shown, and one with a comma
    is shown with a backslash. -/
theorem ofBytes_misses_names :
    let raw := Sample.certificate
      [[Sample.unit "x", Sample.commonName "shop.example"]] [[Sample.commonName "Acme, Inc."]]
    ∃ certificate, Certificate.parse? raw = some certificate
      ∧ certificate.subject.lastCommonName = "shop.example".toList
      ∧ certificate.issuer.lastCommonName = "Acme, Inc.".toList
      ∧ ofBytes [raw] = [⟨"", "Acme\\, Inc."⟩] := by
  intro raw
  have hraw : Certificate.parse? raw = some
      ⟨[[⟨[2, 5, 4, 11], "x".toList⟩, ⟨X509.commonName, "shop.example".toList⟩]],
        [[⟨X509.commonName, "Acme, Inc.".toList⟩]]⟩ := by decide +kernel
  have hchain := ofBytes_append_cons hraw (by decide) (by decide) [] []
  exact ⟨_, hraw, by decide, by decide, hchain.trans (by decide)⟩

end Chain

end ServedChain
