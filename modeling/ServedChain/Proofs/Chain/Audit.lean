/-
  Which chains an audit reports.

  * `Chain.Misses`: the leaf names the target as its issuer, and the target is not
    served behind it;
  * `audit_of_misses` and `audit_of_not_misses`: the verdict on such a chain is the
    common name of the leaf, and on any other chain that there is no issue;
  * `isReported_audit_iff`: hence such a chain is reported, unless its leaf has no
    common name; `not_isReported_audit_unnamed` is one that is not.
-/
import ServedChain.Chain.Audit

namespace ServedChain

theorem Verdict.isReported_iff (verdict : Verdict) : verdict.isReported = true ↔ verdict ≠ "" := by
  simp [isReported, noIssue]

namespace Chain

/-- The leaf names the target as its issuer, and no certificate behind it has the target as its
    subject. -/
def Misses (target : String) : Chain → Prop
  | [] => False
  | leaf :: rest => leaf.issuer = target ∧ ∀ identity ∈ rest, identity.subject ≠ target

variable {leaf second : Identity} {rest : Chain} {policy : AuditPolicy}

theorem audit_of_misses (h : Misses policy.target (leaf :: second :: rest)) :
    audit (leaf :: second :: rest) policy = leaf.subject :=
  audit_eq_subject h.1 h.2

theorem audit_of_not_misses (h : ¬Misses policy.target (leaf :: second :: rest)) :
    audit (leaf :: second :: rest) policy = .noIssue := by
  by_cases hissuer : leaf.issuer = policy.target
  · obtain ⟨identity, hmem, hsubject⟩ : ∃ identity ∈ second :: rest,
        identity.subject = policy.target := by
      refine Classical.byContradiction fun hnone => h ⟨hissuer, ?_⟩
      exact fun identity hmem hsubject => hnone ⟨identity, hmem, hsubject⟩
    exact audit_eq_noIssue_of_served hmem hsubject
  · simp [audit, hissuer]

/-- **A chain of at least two certificates is reported exactly if it misses the target and its leaf
    has a common name**, with diagnostics as well as without. -/
theorem isReported_audit_iff (leaf second : Identity) (rest : Chain) (target : String)
    (diagnostics : Bool) :
    (audit (leaf :: second :: rest) ⟨target, diagnostics⟩).isReported = true
      ↔ Misses target (leaf :: second :: rest) ∧ leaf.subject ≠ "" := by
  rw [Verdict.isReported_iff]
  by_cases h : Misses target (leaf :: second :: rest)
  · rw [@audit_of_misses _ _ _ ⟨target, diagnostics⟩ h]
    simp only [h, true_and]
  · rw [@audit_of_not_misses _ _ _ ⟨target, diagnostics⟩ h]
    simp [h, Verdict.noIssue]

/-- A chain that misses the target is not reported when its leaf has no common name: its verdict is
    that of a chain without an issue. -/
theorem not_isReported_audit_unnamed :
    let chain : Chain := [⟨"", "R3"⟩, ⟨"Other CA", "Root"⟩]
    Misses "R3" chain ∧ (audit chain ⟨"R3", false⟩).isReported = false := by
  intro chain
  exact ⟨⟨rfl, by simp⟩, by decide⟩

end Chain

end ServedChain
