/-
  Which records have a place in a decoded chain.

  * `Certificate.isNamed`: both names of a certificate have an attribute;
  * `ofBytes?_eq`: a record is decoded exactly if it is a certificate with such names;
  * `ofBytes_keeps_named`: so a decoded chain has the certificates with such names,
    in order, and all certificates only if there are no others;
  * `ofBytes_drops_unnamed` has a certificate that is dropped.
-/
import ServedChain.Proofs.Chain.Names

namespace ServedChain

open X509 (Certificate)

/-! ## Certificates with names -/

/-- Both names have an attribute, perhaps no common name. -/
def X509.Certificate.isNamed (certificate : Certificate) : Bool :=
  !certificate.subject.flatten.isEmpty && !certificate.issuer.flatten.isEmpty

theorem X509.Certificate.isNamed_iff (certificate : Certificate) : certificate.isNamed = true
    ↔ certificate.subject.flatten ≠ [] ∧ certificate.issuer.flatten ≠ [] := by
  simp only [isNamed, Bool.and_eq_true, Bool.not_eq_true', List.isEmpty_eq_false_iff]

namespace Identity

theorem ofCertificate?_eq_none {certificate : Certificate} (h : ¬certificate.isNamed = true) :
    ofCertificate? certificate = none := by
  rw [ofCertificate?, commonNameIn?_eq, commonNameIn?_eq]
  by_cases hsubject : certificate.subject.flatten = []
  · rw [if_pos hsubject]
    rfl
  · have hissuer : certificate.issuer.flatten = [] := Classical.byContradiction fun hissuer =>
      h (certificate.isNamed_iff.2 ⟨hsubject, hissuer⟩)
    rw [if_neg hsubject, if_pos hissuer]
    rfl

/-- A record is decoded exactly if it is a certificate with names. -/
theorem ofBytes?_eq (raw : Bytes) :
    ofBytes? raw = ((Certificate.parse? raw).filter (·.isNamed)).map shownBy := by
  rw [ofBytes?]
  cases Certificate.parse? raw with
  | none => rfl
  | some certificate =>
    by_cases h : certificate.isNamed = true
    · obtain ⟨hsubject, hissuer⟩ := certificate.isNamed_iff.1 h
      rw [Option.filter_some_pos h]
      exact ofCertificate?_eq hsubject hissuer
    · rw [Option.filter_some_neg (Bool.eq_false_iff.2 h)]
      exact ofCertificate?_eq_none h

end Identity

/-! ## Chains -/

namespace Chain

theorem ofBytes_eq_map_shownBy (records : List Bytes) : ofBytes records
    = ((records.filterMap Certificate.parse?).filter (·.isNamed)).map Identity.shownBy := by
  rw [List.filter_filterMap, List.map_filterMap, ofBytes]
  exact List.filterMap_congr fun raw _ => Identity.ofBytes?_eq raw

/-- **Which records are kept**: the certificates with names, in order, each with what its names
    show, which is nothing for a name without a common name.  No certificate is dropped only if
    all have names. -/
theorem ofBytes_keeps_named (records : List Bytes) :
    let certificates := records.filterMap Certificate.parse?
    ofBytes records = (certificates.filter (·.isNamed)).map Identity.shownBy
      ∧ (ofBytes records = certificates.map Identity.shownBy
        ↔ ∀ certificate ∈ certificates, certificate.isNamed = true)
      ∧ ∀ certificate ∈ certificates,
        (certificate.subject.commonNames = [] → (Identity.shownBy certificate).subject = "")
        ∧ (certificate.issuer.commonNames = [] → (Identity.shownBy certificate).issuer = "") := by
  intro certificates
  have hkept : ofBytes records = (certificates.filter (·.isNamed)).map Identity.shownBy :=
    ofBytes_eq_map_shownBy records
  refine ⟨hkept, ?_, fun certificate _ => ⟨fun h => ?_, fun h => ?_⟩⟩
  · rw [hkept]
    constructor
    · intro h
      have hlength := congrArg List.length h
      rw [List.length_map, List.length_map] at hlength
      exact List.length_filter_eq_length_iff.1 hlength
    · intro h
      rw [List.filter_eq_self.2 h]
  · rw [Identity.shownBy, X509.shownCommonName_of_no_commonNames h]
  · rw [Identity.shownBy, X509.shownCommonName_of_no_commonNames h]

/-- A certificate whose subject has no attribute is read, and dropped. -/
theorem ofBytes_drops_unnamed :
    let raw := Sample.certificate [] [[Sample.commonName "R3"]]
    (∃ certificate, Certificate.parse? raw = some certificate ∧ certificate.subject = []
        ∧ Identity.shownBy certificate = ⟨"", "R3"⟩)
      ∧ ofBytes [raw] = [] := by
  intro raw
  have hraw : Certificate.parse? raw = some ⟨[], [[⟨X509.commonName, "R3".toList⟩]]⟩ := by
    decide +kernel
  refine ⟨⟨_, hraw, rfl, by decide⟩, ?_⟩
  rw [ofBytes_eq_map_shownBy, List.filterMap_cons, hraw]
  rfl

end Chain

end ServedChain
