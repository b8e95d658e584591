/-
  ServedChain — the audit of a chain: a leaf whose issuer is the target must be
  served together with a certificate whose subject is the target.

  Only names are compared; neither signatures nor dates are looked at.

  * `audit` gives the verdict, `auditTraces` what diagnostics show;
  * `audit_eq_noIssue_of_served`, `audit_eq_subject`: the verdict is empty when
    the target is served, and else the common name of the leaf.
-/
import ServedChain.Chain.Identity

namespace ServedChain

/-- The outcome for one host: the common name of the leaf, or nothing. -/
abbrev Verdict := String

/-- The verdict that there is no issue. -/
def Verdict.noIssue : Verdict := ""

def Verdict.isReported (verdict : Verdict) : Bool := verdict != noIssue

structure AuditPolicy where
  /-- The common name of the intermediate that must be served -/
  target : String
  /-- Show every chain that is audited -/
  diagnostics : Bool
  deriving DecidableEq, Repr

namespace Chain

def audit (chain : Chain) (policy : AuditPolicy) : Verdict :=
  match chain with
  | [] | [_] => .noIssue
  | leaf :: rest =>
    if leaf.issuer ≠ policy.target then .noIssue
    else if rest.any fun identity => identity.subject == policy.target then .noIssue
    else leaf.subject

/-- What diagnostics show of a chain. -/
def auditTraces (chain : Chain) (policy : AuditPolicy) : List String :=
  if 1 < chain.length ∧ policy.diagnostics then [chain.describe] else []

theorem audit_eq_noIssue_of_served {leaf identity : Identity} {rest : Chain} {policy : AuditPolicy}
    (h : identity ∈ rest) (hsubject : identity.subject = policy.target) :
    audit (leaf :: rest) policy = .noIssue := by
  have hany : rest.any (fun i => i.subject == policy.target) :=
    List.any_eq_true.2 ⟨identity, h, by simp [hsubject]⟩
  match rest with
  | [] => rfl
  | _ :: _ => simp [audit, hany]

theorem audit_eq_subject {leaf second : Identity} {rest : Chain} {policy : AuditPolicy}
    (hissuer : leaf.issuer = policy.target)
    (h : ∀ identity ∈ second :: rest, identity.subject ≠ policy.target) :
    audit (leaf :: second :: rest) policy = leaf.subject := by
  have hany : ¬ (second :: rest).any (fun i => i.subject == policy.target) := by
    simpa using h
  simp only [audit, hissuer, ne_eq, not_true_eq_false, if_false, if_neg hany]

end Chain

end ServedChain
