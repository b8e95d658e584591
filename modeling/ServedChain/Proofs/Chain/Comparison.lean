/-
  What it says of two certificates that the names shown of them are equal.

  Names are compared as they are written, with escapes.

  * `unescape` undoes the escapes, so `escape_injective`: no two values are written
    alike;
  * `shownCommonName_eq_iff`: names whose common names stand alone show the same
    exactly if their last common names are the same;
  * `common_names_compared`: this decides which certificates are taken for the
    target of an audit.
-/
import Mathlib.Logic.Function.Basic
import ServedChain.Chain.Audit
import ServedChain.Proofs.Chain.Dropped

namespace ServedChain

namespace X509

/-! ## Undoing escapes -/

/-- The value that a written text stands for: two hexadecimal digits behind a backslash are the
    number of a character, and another character there is the character itself. -/
def unescape : List Char → List Char
  | '\\' :: c :: d :: rest =>
    match Hex.value? c, Hex.value? d with
    | some high, some low => Char.ofNat (high * 16 + low) :: unescape rest
    | _, _ => c :: unescape (d :: rest)
  | ['\\', c] => [c]
  | c :: rest => c :: unescape rest
  | [] => []

theorem unescape_cons {c : Char} (h : c ≠ '\\') (rest : List Char) :
    unescape (c :: rest) = c :: unescape rest := by
  rw [unescape]
  · rintro _ _ _ rfl
    exact absurd rfl h
  · rintro _ rfl
    exact absurd rfl h

/-- No character that is escaped by itself is a hexadecimal digit. -/
theorem value?_of_isSpecial {place : Place} {c : Char} (h : isSpecial place c = true) :
    Hex.value? c = none := by
  have hall : (specials.all fun c => (Hex.value? c).isNone) = true := by decide
  exact Option.isNone_iff_eq_none.1 (List.all_eq_true.1 hall c (mem_specials h))

theorem unescape_special {place : Place} {c : Char} (h : isSpecial place c = true)
    (rest : List Char) : unescape ('\\' :: c :: rest) = c :: unescape rest := by
  cases rest with
  | nil => rfl
  | cons d rest => rw [unescape, value?_of_isSpecial h]

theorem unescape_control {c : Char} (h : isControl c = true) (rest : List Char) :
    unescape ('\\' :: Hex.upperDigit (c.toNat / 16) :: Hex.upperDigit (c.toNat % 16) :: rest)
      = c :: unescape rest := by
  have hdigit : ∀ n < 16, Hex.value? (Hex.upperDigit n) = some n := by decide
  have hnumber : c.toNat / 16 * 16 + c.toNat % 16 = c.toNat := by omega
  rw [isControl_iff] at h
  rw [unescape, hdigit _ (by omega), hdigit _ (by omega)]
  simp only [hnumber, Char.ofNat_toNat]

/-- A written character is read back, wherever it stands and whatever follows. -/
theorem unescape_escapeChar (place : Place) (c : Char) (rest : List Char) :
    unescape (escapeChar place c ++ rest) = c :: unescape rest := by
  unfold escapeChar
  split
  · next hspecial => exact unescape_special hspecial rest
  · next hplain =>
    split
    · next hcontrol => exact unescape_control hcontrol rest
    · refine unescape_cons ?_ rest
      rintro rfl
      exact hplain (by cases place <;> decide)

theorem unescape_escapeFrom (place : Place) (value : List Char) :
    unescape (escapeFrom place value) = value := by
  induction value generalizing place with
  | nil => rfl
  | cons c cs ih =>
    cases cs with
    | nil =>
      have hlast := unescape_escapeChar .last c []
      rwa [List.append_nil] at hlast
    | cons d ds => rw [escapeFrom_cons_cons, unescape_escapeChar, ih]

/-- **No two values are written alike**, although the escapes depend on the place. -/
theorem escape_injective : Function.Injective escape :=
  Function.LeftInverse.injective (unescape_escapeFrom .first)

/-! ## Names -/

/-- Names whose common names stand alone show the same only if their last ones are the same. -/
theorem shownCommonName_eq_iff {name other : Name} (h : name.CommonNamesAlone)
    (hother : other.CommonNamesAlone) :
    name.shownCommonName = other.shownCommonName ↔ name.lastCommonName = other.lastCommonName := by
  rw [shownCommonName_of_alone h, shownCommonName_of_alone hother]
  exact escape_injective.eq_iff

/-- Every relative name has one attribute. -/
def Name.IsSingleValued (name : Name) : Prop := ∀ relative ∈ name, relative.length = 1

instance (name : Name) : Decidable name.IsSingleValued :=
  inferInstanceAs (Decidable (∀ relative ∈ name, relative.length = 1))

theorem Name.IsSingleValued.commonNamesAlone {name : Name} (h : name.IsSingleValued) :
    name.CommonNamesAlone := by
  intro relative hrelative a ha _
  obtain ⟨b, rfl⟩ := List.length_eq_one_iff.1 (h relative hrelative)
  rw [List.mem_singleton.1 ha]

end X509

open X509 (Certificate Name)

/-! ## Certificates -/

theorem commonNameIn_render (name : Name) :
    commonNameIn (String.ofList name.render) = String.ofList name.shownCommonName := by
  rw [commonNameIn, String.toList_ofList, X509.commonNameIn_render]

/-- A decoded record has what the names of its certificate show. -/
theorem Identity.eq_shownBy {record : Bytes} {certificate : Certificate} {identity : Identity}
    (hcertificate : Certificate.parse? record = some certificate)
    (hidentity : ofBytes? record = some identity) : identity = shownBy certificate := by
  rw [ofBytes?_eq, hcertificate, Option.map_eq_some_iff] at hidentity
  obtain ⟨named, hnamed, rfl⟩ := hidentity
  obtain rfl : certificate = named := by
    rw [Option.filter_eq_some_iff] at hnamed
    exact Option.some.inj hnamed.1
  rfl

/-- **Comparing the names that are shown merges no common names and splits none.**  Of names in
    which every relative name has one attribute the texts show the same exactly if the last common
    names are the same characters.  So if the issuer of a leaf is the target of an audit, the
    subject of a certificate is exactly if it has the same common name, whatever string types the
    two records have it in. -/
theorem common_names_compared :
    (∀ name other : Name, name.IsSingleValued → other.IsSingleValued →
      (commonNameIn (String.ofList name.render) = commonNameIn (String.ofList other.render)
        ↔ name.lastCommonName = other.lastCommonName))
    ∧ ∀ (policy : AuditPolicy) (leafRecord record : Bytes) (leafCertificate certificate : Certificate)
        (leaf identity : Identity),
      Certificate.parse? leafRecord = some leafCertificate →
      Certificate.parse? record = some certificate →
      Identity.ofBytes? leafRecord = some leaf → Identity.ofBytes? record = some identity →
      leafCertificate.issuer.IsSingleValued → certificate.subject.IsSingleValued →
      leaf.issuer = policy.target →
        (identity.subject = policy.target
          ↔ leafCertificate.issuer.lastCommonName = certificate.subject.lastCommonName) := by
  constructor
  · intro name other hname hother
    rw [commonNameIn_render, commonNameIn_render, String.ofList_inj]
    exact X509.shownCommonName_eq_iff hname.commonNamesAlone hother.commonNamesAlone
  · intro policy leafRecord record leafCertificate certificate leaf identity hleafCertificate
      hcertificate hleaf hidentity hissuer hsubject htarget
    obtain rfl := Identity.eq_shownBy hleafCertificate hleaf
    obtain rfl := Identity.eq_shownBy hcertificate hidentity
    rw [← htarget, eq_comm]
    exact String.ofList_inj.trans
      (X509.shownCommonName_eq_iff hissuer.commonNamesAlone hsubject.commonNamesAlone)

/-- The same name as bytes of Latin-1 and as UTF-8, with a space at its end. -/
theorem common_names_compared_string_types :
    let named : UInt8 → Bytes → Bytes := fun tag octets =>
      Sample.element 0x30 (Sample.element 0x06 [0x55, 0x04, 0x03] ++ Sample.element tag octets)
    let latin1 := named 0x14 [0x5a, 0xfc, 0x72, 0x69, 0x20]
    let utf8 := named 0x0c [0x5a, 0xc3, 0xbc, 0x72, 0x69, 0x20]
    let leafRecord := Sample.certificate [[Sample.commonName "shop"]] [[latin1]]
    let record := Sample.certificate [[utf8]] [[Sample.commonName "X1"]]
    let name : Name := [[⟨X509.commonName, "Züri ".toList⟩]]
    let policy : AuditPolicy := ⟨"Züri\\ ", false⟩
    Certificate.parse? leafRecord = some ⟨[[⟨X509.commonName, "shop".toList⟩]], name⟩
      ∧ Certificate.parse? record = some ⟨name, [[⟨X509.commonName, "X1".toList⟩]]⟩
      ∧ name.IsSingleValued
      ∧ ∃ leaf identity, Identity.ofBytes? leafRecord = some leaf
        ∧ Identity.ofBytes? record = some identity
        ∧ leaf.issuer = policy.target ∧ identity.subject = policy.target := by
  intro named latin1 utf8 leafRecord record name policy
  have hleafRecord : Certificate.parse? leafRecord
      = some ⟨[[⟨X509.commonName, "shop".toList⟩]], name⟩ := by decide +kernel
  have hrecord : Certificate.parse? record
      = some ⟨name, [[⟨X509.commonName, "X1".toList⟩]]⟩ := by decide +kernel
  have hleaf : Identity.ofBytes? leafRecord = some ⟨"shop", "Züri\\ "⟩ := by
    rw [Identity.ofBytes?, hleafRecord]
    decide
  obtain ⟨identity, hidentity⟩ : ∃ identity, Identity.ofBytes? record = some identity := by
    rw [Identity.ofBytes?_eq, hrecord]
    exact ⟨_, rfl⟩
  have hname : name.IsSingleValued := by decide
  have htarget := common_names_compared.2 policy leafRecord record _ _ _ _ hleafRecord hrecord hleaf
    hidentity hname hname rfl
  exact ⟨hleafRecord, hrecord, hname, _, identity, hleaf, hidentity, rfl, htarget.2 rfl⟩

end ServedChain
