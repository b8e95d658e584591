/-
  What a certificate can make the output show.

  * `RelativeName.isLedByCommonName`: the first attribute is a common name;
  * `shownCommonName_append_cons`: the last such relative name alone decides what
    the text of a name shows, whatever the values around it hold;
  * `common_names_confined`: what is shown is free of control characters, and
    whatever a probe finds is printed on one line.
-/
import ServedChain.Proofs.Chain.Names
import ServedChain.Proofs.Probe
import ServedChain.Scan.Reporter

namespace ServedChain

open X509 (Name)

/-! ## The relative name that is shown -/

namespace X509

/-- A relative name whose first attribute is a common name. -/
def RelativeName.isLedByCommonName (relative : RelativeName) : Bool :=
  relative.head?.any Attribute.isCommonName

section
variable {relative : RelativeName}

theorem RelativeName.shown?_of_not_led (h : relative.isLedByCommonName = false) :
    relative.shown? = none := by
  cases relative with
  | nil => rfl
  | cons a as =>
    have ha : a.isCommonName = false := h
    rw [shown?, ha, if_neg Bool.false_ne_true]

/-- What is shown of a relative name led by a common name is its text behind `CN=`. -/
theorem RelativeName.exists_of_led (h : relative.isLedByCommonName = true) :
    ∃ value, relative.shown? = some value ∧ relative.render = "CN=".toList ++ value := by
  cases relative with
  | nil => cases h
  | cons a as =>
    have ha : a.isCommonName = true := h
    have htype : typeText a.type = ['C', 'N'] := (typeText_eq_iff _).2 (a.isCommonName_iff.1 ha)
    refine ⟨escape a.value ++ renderBehind as, ?_, ?_⟩
    · rw [shown?, if_pos ha]
    · rw [render_cons, Attribute.render, htype]
      simp

/-- The last relative name led by a common name decides what the text of a name shows. -/
theorem shownCommonName_append_cons {front back : Name} {value : List Char}
    (hshown : relative.shown? = some value)
    (hback : ∀ later ∈ back, later.isLedByCommonName = false) :
    Name.shownCommonName (front ++ relative :: back) = value := by
  have hnone : back.filterMap RelativeName.shown? = [] :=
    List.filterMap_eq_nil_iff.2 fun later hmem => RelativeName.shown?_of_not_led (hback later hmem)
  rw [Name.shownCommonName, List.filterMap_append, List.filterMap_cons_some hshown, hnone,
    List.getLastD_concat]

theorem shownCommonName_of_no_led {name : Name}
    (h : ∀ relative ∈ name, relative.isLedByCommonName = false) : name.shownCommonName = [] := by
  have hnone : name.filterMap RelativeName.shown? = [] :=
    List.filterMap_eq_nil_iff.2 fun later hmem => RelativeName.shown?_of_not_led (h later hmem)
  rw [Name.shownCommonName, hnone, List.getLastD_nil]

end

/-- A name has a last relative name led by a common name, or none at all. -/
theorem Name.no_led_or_last_led (name : Name) :
    (∀ relative ∈ name, relative.isLedByCommonName = false)
      ∨ ∃ front relative back, name = front ++ relative :: back
        ∧ relative.isLedByCommonName = true
        ∧ ∀ later ∈ back, later.isLedByCommonName = false := by
  induction name with
  | nil => exact .inl fun _ hmem => absurd hmem List.not_mem_nil
  | cons relative name ih =>
    rcases ih with hnone | ⟨front, last, back, rfl, hled, hback⟩
    · cases hled : relative.isLedByCommonName with
      | false => exact .inl (List.forall_mem_cons.2 ⟨hled, hnone⟩)
      | true => exact .inr ⟨[], relative, name, rfl, hled, hnone⟩
    · exact .inr ⟨relative :: front, last, back, rfl, hled, hback⟩

/-- What the text of a name shows has no control characters in it. -/
theorem isControl_of_mem_shownCommonName {name : Name} {c : Char} (h : c ∈ name.shownCommonName) :
    isControl c = false := by
  rcases name.no_led_or_last_led with hnone | ⟨front, relative, back, rfl, hled, hback⟩
  · rw [shownCommonName_of_no_led hnone] at h
    cases h
  · obtain ⟨value, hshown, hrender⟩ := RelativeName.exists_of_led hled
    rw [shownCommonName_append_cons hshown hback] at h
    have hmem : c ∈ relative.render := by
      rw [hrender]
      exact List.mem_append_right _ h
    exact isControl_of_mem_relativeName hmem

end X509

/-! ## Verdicts -/

/-- Text without control characters. -/
def IsPrintable (text : String) : Prop := ∀ c ∈ text.toList, X509.isControl c = false

theorem isPrintable_of_commonNameIn? {name : Name} {text : String}
    (h : commonNameIn? name = some text) : IsPrintable text := by
  rw [commonNameIn?_eq] at h
  split at h
  · cases h
  · cases h
    intro c hmem
    rw [String.toList_ofList] at hmem
    exact X509.isControl_of_mem_shownCommonName hmem

theorem Identity.isPrintable_subject {record : Bytes} {identity : Identity}
    (h : ofBytes? record = some identity) : IsPrintable identity.subject := by
  obtain ⟨certificate, -, hidentity⟩ := Option.bind_eq_some_iff.1 h
  obtain ⟨subject, hsubject, hrest⟩ := Option.bind_eq_some_iff.1 hidentity
  obtain ⟨issuer, -, hmade⟩ := Option.bind_eq_some_iff.1 hrest
  cases hmade
  exact isPrintable_of_commonNameIn? hsubject

theorem isPrintable_noIssue : IsPrintable Verdict.noIssue := fun _ hmem => by cases hmem

/-- The verdict on a chain is printable, whatever its records hold. -/
theorem Chain.isPrintable_audit (records : List Bytes) (policy : AuditPolicy) :
    IsPrintable ((ofBytes records).audit policy) := by
  rcases hchain : ofBytes records with _ | ⟨leaf, _ | ⟨second, rest⟩⟩
  · exact isPrintable_noIssue
  · exact isPrintable_noIssue
  · have hmem : leaf ∈ ofBytes records := by
      rw [hchain]
      exact List.mem_cons_self
    obtain ⟨record, -, hleaf⟩ := List.mem_filterMap.1 hmem
    simp only [audit]
    split
    · exact isPrintable_noIssue
    · split
      · exact isPrintable_noIssue
      · exact Identity.isPrintable_subject hleaf

theorem Inspector.isPrintable_verdictOn (policy : AuditPolicy) (host : String)
    (shown : List (List Bytes)) : IsPrintable ((ofPolicy policy).verdictOn host shown) := by
  rw [verdictOn]
  split
  · exact isPrintable_noIssue
  · exact Chain.isPrintable_audit _ policy

/-- Printable text has one line when it is printed as a finding. -/
theorem split_findingText {verdict : Verdict} (h : IsPrintable verdict) :
    Text.split '\n' (Reporter.findingText verdict).toList = [verdict.toList, []] := by
  have hnewline : '\n' ∉ verdict.toList := by
    intro hmem
    exact absurd (h '\n' hmem) (by decide)
  have htext : (Reporter.findingText verdict).toList = verdict.toList ++ '\n' :: [] := by
    rw [Reporter.findingText, String.toList_append]
    rfl
  rw [htext, Text.split_append, Text.split_of_not_mem hnewline]
  rfl

/-- **No certificate makes the output show a name that it should not show, or more than a line.**
    The text of a name shows nothing, if no relative name is led by a common name, and else what
    follows `CN=` in the text of the last one that is; other relative names before it and behind
    it may be any, with the same outcome.  What is shown has no control characters in it, and a
    probe that audits the chain of its host ends with a verdict that is printed on one line,
    whatever it receives. -/
theorem common_names_confined :
    (∀ name : Name,
      ((∀ relative ∈ name, relative.isLedByCommonName = false)
          ∧ X509.commonNameIn name.render = []
        ∨ ∃ front relative back, name = front ++ relative :: back
          ∧ relative.isLedByCommonName = true
          ∧ (∀ later ∈ back, later.isLedByCommonName = false)
          ∧ relative.render = "CN=".toList ++ X509.commonNameIn name.render
          ∧ ∀ front' back' : Name, (∀ later ∈ back', later.isLedByCommonName = false) →
            X509.commonNameIn (Name.render (front' ++ relative :: back'))
              = X509.commonNameIn name.render)
      ∧ ∀ c ∈ X509.commonNameIn name.render, 0x20 ≤ c.toNat ∧ c.toNat ≠ 0x7f)
    ∧ ∀ (policy : AuditPolicy) (host : String) (events : List ProbeEvent) (verdict : Verdict),
      (Probe.run (.ofPolicy policy) host events).result = some verdict →
      (∀ c ∈ verdict.toList, 0x20 ≤ c.toNat ∧ c.toNat ≠ 0x7f)
        ∧ Text.split '\n' (Reporter.findingText verdict).toList = [verdict.toList, []] := by
  have hplain : ∀ c : Char, X509.isControl c = false → 0x20 ≤ c.toNat ∧ c.toNat ≠ 0x7f := by
    intro c hc
    have hnot := mt (X509.isControl_iff c).2 (Bool.eq_false_iff.1 hc)
    omega
  refine ⟨fun name => ⟨?_, fun c hmem => hplain c ?_⟩, fun policy host events verdict h => ?_⟩
  · rcases name.no_led_or_last_led with hnone | ⟨front, relative, back, rfl, hled, hback⟩
    · refine .inl ⟨hnone, ?_⟩
      rw [X509.commonNameIn_render, X509.shownCommonName_of_no_led hnone]
    · obtain ⟨value, hshown, hrender⟩ := X509.RelativeName.exists_of_led hled
      refine .inr ⟨front, relative, back, rfl, hled, hback, ?_, fun front' back' hback' => ?_⟩
      · rw [X509.commonNameIn_render, X509.shownCommonName_append_cons hshown hback, hrender]
      · rw [X509.commonNameIn_render, X509.commonNameIn_render,
          X509.shownCommonName_append_cons hshown hback,
          X509.shownCommonName_append_cons hshown hback']
  · rw [X509.commonNameIn_render] at hmem
    exact X509.isControl_of_mem_shownCommonName hmem
  · have hverdict : IsPrintable verdict := by
      rw [Probe.result_run] at h
      split at h
      · cases h
        exact Inspector.isPrintable_verdictOn policy host _
      · cases h
    exact ⟨fun c hmem => hplain c (hverdict c hmem), split_findingText hverdict⟩

/-- A leaf whose names have line feeds and equals signs in them, served in the clear. -/
theorem common_names_confined_line_feed :
    let relative : X509.RelativeName := [⟨X509.commonName, "shop\n".toList⟩]
    let unit : X509.RelativeName := [⟨[2, 5, 4, 11], "x\nCN=R3".toList⟩]
    let leaf := Sample.certificate
      [[Sample.commonName "shop\n"], [Sample.unit "x\nCN=R3"]] [[Sample.commonName "R3"]]
    let root := Sample.certificate [[Sample.commonName "X1"]] [[Sample.commonName "X1"]]
    let framed : Bytes → Bytes := fun bs => Bytes.ofNat 3 bs.length ++ bs
    let message := (11 : UInt8) :: framed (framed (framed leaf ++ framed root))
    let events : List ProbeEvent :=
      [.chunk ([22, 3, 3] ++ Bytes.ofNat 2 message.length ++ message), .secured]
    X509.commonNameIn (Name.render [relative, unit]) = "shop\\0A".toList
      ∧ (Probe.run (.ofPolicy ⟨"R3", false⟩) "host" events).result = some "shop\\0A"
      ∧ Text.split '\n' (Reporter.findingText "shop\\0A").toList = ["shop\\0A".toList, []] := by
  intro relative unit leaf root framed message events
  obtain ⟨hnames, hprobes⟩ := common_names_confined
  have hresult : (Probe.run (.ofPolicy ⟨"R3", false⟩) "host" events).result = some "shop\\0A" := by
    decide +kernel
  refine ⟨?_, hresult, (hprobes _ _ _ _ hresult).2⟩
  rcases (hnames [relative, unit]).1 with
    ⟨hnone, -⟩ | ⟨front, last, back, hname, hled, -, hrender, -⟩
  · exact absurd (hnone relative List.mem_cons_self) (by decide)
  · match front with
    | [] =>
      obtain ⟨rfl, -⟩ := List.cons_eq_cons.1 hname
      have hline : relative.render = "CN=".toList ++ "shop\\0A".toList := by decide +kernel
      exact (List.append_cancel_left (hline.symm.trans hrender)).symm
    | [_] =>
      obtain ⟨-, hrest⟩ := List.cons_eq_cons.1 hname
      obtain ⟨rfl, -⟩ := List.cons_eq_cons.1 hrest
      exact absurd hled (by decide)
    | _ :: _ :: front => simp at hname

end ServedChain
