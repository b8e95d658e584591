/-
  A secret means nothing to a tap that knows of no cipher suite.

  Such a tap opens nothing, so each step does under another secret what it does
  without it (`takeRecord_rekey`); a course of inputs then comes to what its bytes
  alone come to (`run_eq_push_stream`).
-/
import ServedChain.Proofs.Tls.Chunking
import ServedChain.Proofs.Tls.Reassembly

namespace ServedChain.Tls.Tap

/-- The tap neither knows of a cipher suite nor opens records. -/
def Keyless (tap : Tap) : Prop := tap.suite = none ∧ tap.opener = none

theorem rekey_self {tap : Tap} (h : tap.opener = none) : tap.rekey tap.secret none = tap := by
  rw [rekey, ← h]

section
variable (secret : Option Bytes)

theorem takeRecord_rekey {tap : Tap} (h : tap.Keyless) (record : Record) :
    (tap.rekey secret none).takeRecord record = (tap.takeRecord record).rekey secret none := by
  rcases hd : tap.done with _ | _
  · rw [takeRecord, takeRecord, if_neg (by simp [rekey, hd]), if_neg (by simp [hd]),
      show (tap.rekey secret none).version = tap.version from rfl]
    split
    · rfl
    · rfl
    · have hheld : ({ tap with held := tap.held ++ [record] } : Tap).Keyless := h
      have hrekey : (({ tap with held := tap.held ++ [record] } : Tap).rekey secret none).Keyless :=
        ⟨h.1, rfl⟩
      rw [openHeld_of_no_suite _ hheld.2 hheld.1]
      exact openHeld_of_no_suite _ hrekey.2 hrekey.1
    · exact takeHandshake_rekey tap secret none record.fragment
    · rfl
    · rfl
    · rfl
  · rw [takeRecord_of_done hd, takeRecord_of_done (by exact hd)]

theorem opener_takeRecord {tap : Tap} (h : tap.Keyless) (record : Record) :
    (tap.takeRecord record).opener = none := by
  have htake := takeRecord_rekey tap.secret h record
  rw [rekey_self h.2] at htake
  rw [htake, rekey]

theorem foldl_takeRecord_rekey {tap : Tap} (ho : tap.opener = none) {records : List Record}
    (h : (records.foldl takeRecord tap).suite = none) :
    records.foldl takeRecord (tap.rekey secret none)
        = (records.foldl takeRecord tap).rekey secret none
      ∧ (records.foldl takeRecord tap).opener = none := by
  induction records generalizing tap with
  | nil => exact ⟨rfl, ho⟩
  | cons record records ih =>
    -- A suite would have lasted until the end
    have hsuite : tap.suite = none := Decidable.byContradiction fun hne =>
      lasting_suite.foldl_takeRecord tap hne (record :: records) h
    rw [List.foldl_cons, takeRecord_rekey secret ⟨hsuite, ho⟩]
    exact ih (opener_takeRecord ⟨hsuite, ho⟩ record) h

theorem push_rekey {tap : Tap} (ho : tap.opener = none) {chunk : Bytes}
    (h : (tap.push chunk).suite = none) :
    (tap.rekey secret none).push chunk = (tap.push chunk).rekey secret none
      ∧ (tap.push chunk).opener = none := by
  rw [push_eq_takeAll, suite_takeAll] at h
  obtain ⟨hfold, hlast⟩ := foldl_takeRecord_rekey secret ho h
  rw [push_eq_takeAll, push_eq_takeAll, show (tap.rekey secret none).records = tap.records from rfl]
  simp only [takeAll, hfold]
  clear h hfold
  generalize List.foldl takeRecord tap _ = last at hlast ⊢
  cases (Record.cutAll (tap.records ++ chunk)).2 <;> grind [withRecords, finish, rekey]

end

theorem supplySecret_of_keyless {tap : Tap} (h : tap.Keyless) (secret : Bytes) :
    ∃ kept, tap.supplySecret secret = tap.rekey kept none := by
  rcases hd : tap.done with _ | _
  · exact ⟨some secret, supplySecret_of_no_suite tap hd h.2 h.1 secret⟩
  · exact ⟨tap.secret, by rw [supplySecret_of_done hd, rekey_self h.2]⟩

/-- **Without a cipher suite, inputs come to what their bytes alone come to.** -/
theorem run_eq_push_stream {tap : Tap} (ht : tap.Settled) (ho : tap.opener = none)
    {inputs : List Input} (h : (tap.push (stream inputs)).suite = none) :
    ∃ secret, tap.run inputs = (tap.push (stream inputs)).rekey secret none := by
  induction inputs generalizing tap with
  | nil =>
    refine ⟨tap.secret, ?_⟩
    rw [show stream [] = [] from rfl, push_nil ht, rekey_self ho]
    rfl
  | cons input inputs ih =>
    cases input with
    | chunk bytes =>
      have hstream : stream (.chunk bytes :: inputs) = bytes ++ stream inputs := rfl
      rw [hstream, ← push_append] at h ⊢
      have hsuite : (tap.push bytes).suite = none := Decidable.byContradiction fun hne =>
        lasting_suite.push (tap.push bytes) hne (stream inputs) h
      exact ih (settled_push tap bytes) (push_rekey none ho hsuite).2 h
    | secret secret =>
      have hstream : stream (.secret secret :: inputs) = stream inputs := rfl
      rw [hstream] at h ⊢
      have hsuite : tap.suite = none := Decidable.byContradiction fun hne =>
        lasting_suite.push tap hne (stream inputs) h
      obtain ⟨kept, hkept⟩ := supplySecret_of_keyless ⟨hsuite, ho⟩ secret
      obtain ⟨hpush, -⟩ := push_rekey kept ho h
      have hsettled := settled_supplySecret ht secret
      rw [hkept] at hsettled
      obtain ⟨last, hlast⟩ := ih hsettled rfl (by rw [hpush]; exact h)
      refine ⟨last, ?_⟩
      calc tap.run (.secret secret :: inputs) = (tap.rekey kept none).run inputs := by
            rw [← hkept]; rfl
        _ = (tap.push (stream inputs)).rekey last none := by rw [hlast, hpush]; rfl

/-! ## The version -/

/-- The tap opens nothing, and as long as the server does not speak TLS 1.3 it knows of no cipher
    suite. -/
def Unkeyed (tap : Tap) : Prop :=
  (tap.version = .tls12 → tap.suite = none) ∧ tap.opener = none

theorem version_foldl_takeRecord_rekey (secret : Option Bytes) {tap : Tap} (ht : tap.Unkeyed)
    {records : List Record} (h : (records.foldl takeRecord tap).version = .tls13) :
    (records.foldl takeRecord (tap.rekey secret none)).version = .tls13 := by
  induction records generalizing tap with
  | nil => exact h
  | cons record records ih =>
    rcases hv : tap.version with _ | _
    · have hkeyless : tap.Keyless := ⟨ht.1 hv, ht.2⟩
      rw [List.foldl_cons, takeRecord_rekey secret hkeyless]
      exact ih ⟨lasting_tls12_suite.takeRecord tap ht.1 record, opener_takeRecord hkeyless record⟩ h
    · exact lasting_tls13.foldl_takeRecord (tap.rekey secret none) hv _

theorem version_push_rekey (secret : Option Bytes) {tap : Tap} (ht : tap.Unkeyed) {chunk : Bytes}
    (h : (tap.push chunk).version = .tls13) :
    ((tap.rekey secret none).push chunk).version = .tls13 := by
  rw [push_eq_takeAll, version_takeAll] at h ⊢
  exact version_foldl_takeRecord_rekey secret ht h

/-- The version that a tap finds in some inputs is there in the bytes among them. -/
theorem version_run_of_push_stream {tap : Tap} (hs : tap.Settled) (ht : tap.Unkeyed)
    {inputs : List Input} (h : (tap.push (stream inputs)).version = .tls13) :
    (tap.run inputs).version = .tls13 := by
  induction inputs generalizing tap with
  | nil => rwa [show stream [] = [] from rfl, push_nil hs] at h
  | cons input inputs ih =>
    rcases hv : (tap.take input).version with _ | _
    · cases input with
      | chunk bytes =>
        have hsuite := lasting_tls12_suite.push tap ht.1 bytes
        rw [show stream (.chunk bytes :: inputs) = bytes ++ stream inputs from rfl,
          ← push_append] at h
        exact ih (settled_push tap bytes) ⟨hsuite, (push_rekey none ht.2 (hsuite hv)).2⟩ h
      | secret secret =>
        have hversion : tap.version = .tls12 := by
          rcases hv' : tap.version with _ | _
          · rfl
          · rw [← hv, ← lasting_tls13.supplySecret tap hv' secret]; rfl
        obtain ⟨kept, hkept⟩ := supplySecret_of_keyless ⟨ht.1 hversion, ht.2⟩ secret
        have hsettled := settled_supplySecret hs secret
        refine @ih (tap.supplySecret secret) hsettled ?_ ?_
        · rw [hkept]; exact ⟨ht.1, rfl⟩
        · rw [hkept]; exact version_push_rekey kept ht h
    · exact lasting_tls13.run (tap.take input) hv inputs

end ServedChain.Tls.Tap
