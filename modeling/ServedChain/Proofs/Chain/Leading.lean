/-
  Which record the verdict on a list of records is about.

  * `ofBytes_eq_cons_iff`: the leaf of a decoded chain is the first record that is a
    certificate, however many others stand in front of it;
  * `audit_ne_noIssue_iff`: when the audit of a chain gives the name of its leaf;
  * `verdict_about_first_certificate` puts the two together, and
    `not_verdict_about_first_record` is a verdict on the second record.
-/
import ServedChain.Probe
import ServedChain.Proofs.Chain.Audit
import ServedChain.Proofs.Chain.Names

namespace ServedChain.Chain

/-! ## The leaf -/

theorem ofBytes_eq_cons_iff {records : List Bytes} {leaf : Identity} {rest : Chain} :
    ofBytes records = leaf :: rest ↔ ∃ front raw back, records = front ++ raw :: back
      ∧ (∀ r ∈ front, Identity.ofBytes? r = none)
      ∧ Identity.ofBytes? raw = some leaf ∧ ofBytes back = rest :=
  List.filterMap_eq_cons_iff

/-- A verdict other than that there is no issue is the name of a leaf with something behind it. -/
theorem audit_ne_noIssue_iff {chain : Chain} {policy : AuditPolicy} {verdict : Verdict}
    (h : chain.audit policy = verdict) :
    verdict ≠ .noIssue ↔ ∃ leaf rest, chain = leaf :: rest ∧ rest ≠ []
      ∧ Misses policy.target chain ∧ leaf.subject ≠ "" ∧ verdict = leaf.subject := by
  constructor
  · intro hissue
    match chain with
    | [] => exact absurd h.symm hissue
    | [leaf] => exact absurd h.symm hissue
    | leaf :: second :: rest =>
      by_cases hmisses : Misses policy.target (leaf :: second :: rest)
      · have hverdict : verdict = leaf.subject := h.symm.trans (audit_of_misses hmisses)
        have hsubject : leaf.subject ≠ "" := hverdict ▸ hissue
        exact ⟨leaf, second :: rest, rfl, List.cons_ne_nil _ _, hmisses, hsubject, hverdict⟩
      · exact absurd (h.symm.trans (audit_of_not_misses hmisses)) hissue
  · rintro ⟨leaf, rest, -, -, -, hsubject, rfl⟩
    exact hsubject

/-! ## Verdicts on records -/

/-- **A finding is about the first record that is a certificate.**  The inspector always has a
    verdict.  Other than that there is no issue it says of a list of records exactly if the first
    certificate among them names the target as its issuer and has a common name itself, and there
    are certificates behind it, none of them the target's; then the verdict is that common name. -/
theorem verdict_about_first_certificate (policy : AuditPolicy) (records : List Bytes)
    (host : String) :
    ∃ verdict, (Inspector.ofPolicy policy records host).1 = .ok verdict
      ∧ (verdict ≠ .noIssue ↔ ∃ front raw back leaf, records = front ++ raw :: back
        ∧ (∀ r ∈ front, Identity.ofBytes? r = none) ∧ Identity.ofBytes? raw = some leaf
        ∧ leaf.issuer = policy.target ∧ leaf.subject ≠ "" ∧ verdict = leaf.subject
        ∧ ofBytes back ≠ [] ∧ ∀ identity ∈ ofBytes back, identity.subject ≠ policy.target) := by
  refine ⟨(ofBytes records).audit policy, rfl, ?_⟩
  rw [audit_ne_noIssue_iff rfl]
  constructor
  · rintro ⟨leaf, rest, hchain, hrest, hmisses, hsubject, hverdict⟩
    rw [hchain] at hmisses
    obtain ⟨hissuer, hmissing⟩ := hmisses
    obtain ⟨front, raw, back, hrecords, hfront, hraw, rfl⟩ := ofBytes_eq_cons_iff.1 hchain
    exact ⟨front, raw, back, leaf, hrecords, hfront, hraw, hissuer, hsubject, hverdict, hrest,
      hmissing⟩
  · rintro ⟨front, raw, back, leaf, hrecords, hfront, hraw, hissuer, hsubject, hverdict, hrest,
      hmissing⟩
    have hchain : ofBytes records = leaf :: ofBytes back :=
      ofBytes_eq_cons_iff.2 ⟨front, raw, back, hrecords, hfront, hraw, rfl⟩
    have hmisses : Misses policy.target (ofBytes records) := by
      rw [hchain]
      exact ⟨hissuer, hmissing⟩
    exact ⟨leaf, ofBytes back, hchain, hrest, hmisses, hsubject, hverdict⟩

/-- A finding need not be about the first record: one that is no certificate is passed over. -/
theorem not_verdict_about_first_record :
    ¬∀ (policy : AuditPolicy) (records : List Bytes) (host : String) (verdict : Verdict),
      (Inspector.ofPolicy policy records host).1 = .ok verdict → verdict ≠ .noIssue →
      ∃ first back leaf, records = first :: back ∧ Identity.ofBytes? first = some leaf
        ∧ leaf.issuer = policy.target ∧ verdict = leaf.subject := by
  intro h
  let garbage : Bytes := [0x6e, 0x6f, 0x70, 0x65]
  let leaf := Sample.certificate [[Sample.commonName "example.com"]] [[Sample.commonName "R3"]]
  let other := Sample.certificate [[Sample.commonName "OtherCA"]] [[Sample.commonName "Root"]]
  have hchain : ofBytes [garbage, leaf, other]
      = [⟨"example.com", "R3"⟩, ⟨"OtherCA", "Root"⟩] := by decide +kernel
  have hverdict : (Inspector.ofPolicy ⟨"R3", false⟩ [garbage, leaf, other] "host.example").1
      = .ok "example.com" := by
    rw [Inspector.ofPolicy, hchain]
    rfl
  obtain ⟨first, back, identity, hrecords, hfirst, -⟩ := h _ _ _ _ hverdict (by decide)
  have hgarbage : Identity.ofBytes? garbage = none := by decide +kernel
  rw [← (List.cons.inj hrecords).1, hgarbage] at hfirst
  cases hfirst

end ServedChain.Chain
