/-
  The steps of a tap: what ends it, what lasts, and what a step does not look at.

  * A tap that is done takes nothing in (`takeMessage_of_done` and its like).
  * What is known of the version and the cipher suite lasts if it lasts through a
    message (`Lasting`): they do not go back.
  * No step looks at the beginning of a record that a tap holds, so all of them
    commute with `withRecords`.
-/
import ServedChain.Tls.Tap

namespace ServedChain.Tls.Tap

/-! ## A tap that is done -/

theorem takeMessage_of_done {tap : Tap} (h : tap.done = true) (message : HandshakeMessage) :
    tap.takeMessage message = tap := by
  rw [takeMessage, if_pos h]

theorem foldl_takeMessage_of_done {tap : Tap} (h : tap.done = true)
    (messages : List HandshakeMessage) : messages.foldl takeMessage tap = tap := by
  induction messages with
  | nil => rfl
  | cons message messages ih => rw [List.foldl_cons, takeMessage_of_done h, ih]

theorem takeHandshake_of_done {tap : Tap} (h : tap.done = true) (fragment : Bytes) :
    tap.takeHandshake fragment = tap := by
  simp only [takeHandshake, foldl_takeMessage_of_done h, if_pos h]

theorem openRecord_of_done {tap : Tap} (h : tap.done = true) (record : Record) :
    tap.openRecord record = tap := by
  rw [openRecord, if_pos h]

theorem foldl_openRecord_of_done {tap : Tap} (h : tap.done = true) (records : List Record) :
    records.foldl openRecord tap = tap := by
  induction records with
  | nil => rfl
  | cons record records ih => rw [List.foldl_cons, openRecord_of_done h, ih]

theorem takeRecord_of_done {tap : Tap} (h : tap.done = true) (record : Record) :
    tap.takeRecord record = tap := by
  rw [takeRecord, if_pos h]

theorem foldl_takeRecord_of_done {tap : Tap} (h : tap.done = true) (records : List Record) :
    records.foldl takeRecord tap = tap := by
  induction records with
  | nil => rfl
  | cons record records ih => rw [List.foldl_cons, takeRecord_of_done h, ih]

theorem push_of_done {tap : Tap} (h : tap.done = true) (chunk : Bytes) : tap.push chunk = tap := by
  rw [push, if_pos h]

theorem supplySecret_of_done {tap : Tap} (h : tap.done = true) (secret : Bytes) :
    tap.supplySecret secret = tap := by
  rw [supplySecret, if_pos h]

/-! ## Messages -/

section
variable {tap : Tap} {message : HandshakeMessage}

theorem takeMessage_serverHello (hd : tap.done = false)
    (h : message.type = HandshakeMessage.serverHello) :
    tap.takeMessage message = tap.takeServerHello message.body := by
  rw [takeMessage, if_neg (by simp [hd]), if_pos h]

theorem takeMessage_certificate (hd : tap.done = false)
    (h : message.type = HandshakeMessage.certificate) :
    tap.takeMessage message = tap.finishWith (.certificates (match tap.version with
      | .tls12 => CertificateList.parse message.body
      | .tls13 => CertificateList.parseExtended message.body)) := by
  have hne : message.type ≠ HandshakeMessage.serverHello := by rw [h]; decide
  unfold takeMessage
  exact (if_neg (by simp [hd])).trans ((if_neg hne).trans (if_pos h))

theorem done_takeMessage (h : message.type ≠ HandshakeMessage.certificate) :
    (tap.takeMessage message).done = tap.done := by
  grind [takeMessage, takeServerHello]

end

/-! ## Held records -/

section
variable (tap : Tap)

theorem openHeld_of_opener (h : tap.opener.isSome) :
    tap.openHeld = tap.held.foldl openRecord { tap with held := [] } := by
  obtain ⟨opener, hopener⟩ := Option.isSome_iff_exists.1 h
  have hkeys : tap.withOpener = tap := by rw [withOpener, hopener]
  rw [openHeld, hkeys, if_pos h]

theorem openHeld_of_no_secret (ho : tap.opener = none) (hs : tap.secret = none) :
    tap.openHeld = tap := by
  have hkeys : tap.withOpener = tap := by rw [withOpener, ho, hs]
  rw [openHeld, hkeys, if_neg (by simp [ho])]

theorem openHeld_of_no_suite (ho : tap.opener = none) (hsuite : tap.suite = none) :
    tap.openHeld = tap := by
  have hkeys : tap.withOpener = tap := by
    unfold withOpener
    split
    · next hsome => rw [hsuite] at hsome; cases hsome
    · rfl
  rw [openHeld, hkeys, if_neg (by simp [ho])]

theorem openHeld_of_suite_unknown {secret : Bytes} {code : Nat} (ho : tap.opener = none)
    (hs : tap.secret = some secret) (hsuite : tap.suite = some code)
    (hcode : CipherSuite.ofCode? code = none) :
    tap.openHeld = tap.finishWith (.failure (.unsupportedSuite code)) := by
  have hkeys : tap.withOpener = tap.finishWith (.failure (.unsupportedSuite code)) := by
    simp only [withOpener, ho, hs, hsuite, hcode]
  rw [openHeld, hkeys, if_neg (by simp [finishWith, finish, ho])]

theorem openHeld_of_suite {secret : Bytes} {code : Nat} {suite : CipherSuite}
    (ho : tap.opener = none) (hs : tap.secret = some secret) (hsuite : tap.suite = some code)
    (hcode : CipherSuite.ofCode? code = some suite) :
    tap.openHeld = tap.held.foldl openRecord
      { tap with opener := some (Opener.ofSecret suite secret), held := [] } := by
  have hkeys : tap.withOpener = { tap with opener := some (Opener.ofSecret suite secret) } := by
    simp only [withOpener, ho, hs, hsuite, hcode]
  rw [openHeld, hkeys]
  exact if_pos rfl

end

/-! ## What lasts -/

/-- A property of the version and the cipher suite that no message takes away. -/
structure Lasting (P : Version → Option Nat → Prop) : Prop where
  takeMessage : ∀ (tap : Tap) (message : HandshakeMessage), P tap.version tap.suite →
    P (tap.takeMessage message).version (tap.takeMessage message).suite

theorem lasting_tls13 : Lasting fun version _ => version = .tls13 where
  takeMessage tap message h := by
    simp only [Tap.takeMessage, takeServerHello, finishWith, finish]
    grind

/-- A cipher suite is known only of a server that speaks TLS 1.3. -/
theorem lasting_tls12_suite :
    Lasting fun version suite => version = .tls12 → suite = none where
  takeMessage tap message h := by
    simp only [Tap.takeMessage, takeServerHello, finishWith, finish]
    grind

theorem lasting_suite : Lasting fun _ suite => suite ≠ none where
  takeMessage tap message h := by
    simp only [Tap.takeMessage, takeServerHello, finishWith, finish]
    grind

namespace Lasting
variable {P : Version → Option Nat → Prop} (hP : Lasting P)
include hP

theorem foldl_takeMessage (tap : Tap) (h : P tap.version tap.suite)
    (messages : List HandshakeMessage) :
    P (messages.foldl Tap.takeMessage tap).version (messages.foldl Tap.takeMessage tap).suite := by
  induction messages generalizing tap with
  | nil => exact h
  | cons message messages ih => exact ih (tap.takeMessage message) (hP.takeMessage tap message h)

theorem takeHandshake (tap : Tap) (h : P tap.version tap.suite) (fragment : Bytes) :
    P (tap.takeHandshake fragment).version (tap.takeHandshake fragment).suite := by
  have hlast := hP.foldl_takeMessage tap h (HandshakeMessage.cutAll (tap.handshake ++ fragment)).1
  simp only [Tap.takeHandshake]
  split <;> exact hlast

theorem takeInner (tap : Tap) (h : P tap.version tap.suite) (inner : InnerText) :
    P (tap.takeInner inner).version (tap.takeInner inner).suite := by
  unfold Tap.takeInner
  split
  · exact hP.takeHandshake tap h inner.content
  · exact h
  · exact h

theorem openRecord (tap : Tap) (h : P tap.version tap.suite) (record : Record) :
    P (tap.openRecord record).version (tap.openRecord record).suite := by
  simp only [Tap.openRecord]
  split
  · exact h
  · split
    · exact h
    · next opener _ =>
      split
      · exact h
      · exact hP.takeInner
          { tap with opener := some (opener.next record.header record.fragment).2 } h _

theorem foldl_openRecord (tap : Tap) (h : P tap.version tap.suite) (records : List Record) :
    P (records.foldl Tap.openRecord tap).version (records.foldl Tap.openRecord tap).suite := by
  induction records generalizing tap with
  | nil => exact h
  | cons record records ih => exact ih (tap.openRecord record) (hP.openRecord tap h record)

omit hP in
theorem withOpener (tap : Tap) (h : P tap.version tap.suite) :
    P tap.withOpener.version tap.withOpener.suite := by
  unfold Tap.withOpener
  split
  · split <;> exact h
  · exact h

theorem openHeld (tap : Tap) (h : P tap.version tap.suite) :
    P tap.openHeld.version tap.openHeld.suite := by
  have hopener := withOpener tap h
  simp only [Tap.openHeld]
  split
  · exact hP.foldl_openRecord { tap.withOpener with held := [] } hopener _
  · exact hopener

theorem takeRecord (tap : Tap) (h : P tap.version tap.suite) (record : Record) :
    P (tap.takeRecord record).version (tap.takeRecord record).suite := by
  unfold Tap.takeRecord
  split
  · exact h
  · split
    · exact h
    · exact h
    · exact hP.openHeld { tap with held := tap.held ++ [record] } h
    · exact hP.takeHandshake tap h record.fragment
    · exact h
    · exact h
    · exact h

theorem foldl_takeRecord (tap : Tap) (h : P tap.version tap.suite) (records : List Record) :
    P (records.foldl Tap.takeRecord tap).version (records.foldl Tap.takeRecord tap).suite := by
  induction records generalizing tap with
  | nil => exact h
  | cons record records ih => exact ih (tap.takeRecord record) (hP.takeRecord tap h record)

theorem push (tap : Tap) (h : P tap.version tap.suite) (chunk : Bytes) :
    P (tap.push chunk).version (tap.push chunk).suite := by
  have hlast := hP.foldl_takeRecord { tap with records := [] } h
    (Record.cutAll (tap.records ++ chunk)).1
  simp only [Tap.push]
  split
  · exact h
  · split
    · exact hlast
    · split <;> exact hlast

theorem supplySecret (tap : Tap) (h : P tap.version tap.suite) (secret : Bytes) :
    P (tap.supplySecret secret).version (tap.supplySecret secret).suite := by
  unfold Tap.supplySecret
  split
  · exact h
  · exact hP.openHeld { tap with secret := some secret } h

theorem run (tap : Tap) (h : P tap.version tap.suite) (inputs : List Input) :
    P (tap.run inputs).version (tap.run inputs).suite := by
  induction inputs generalizing tap with
  | nil => exact h
  | cons input inputs ih =>
    cases input with
    | chunk bytes => exact ih (tap.push bytes) (hP.push tap h bytes)
    | secret secret => exact ih (tap.supplySecret secret) (hP.supplySecret tap h secret)

end Lasting

/-! ## The beginning of a record -/

/-- The tap holding another beginning of a record, if it can hold one. -/
def withRecords (tap : Tap) (records : Bytes) : Tap :=
  if tap.done then tap else { tap with records }

theorem withRecords_of_done {tap : Tap} (h : tap.done = true) (records : Bytes) :
    tap.withRecords records = tap := by
  rw [withRecords, if_pos h]

theorem withRecords_of_not_done {tap : Tap} (h : tap.done = false) (records : Bytes) :
    tap.withRecords records = { tap with records } := by
  rw [withRecords, h]; rfl

@[simp] theorem done_withRecords (tap : Tap) (records : Bytes) :
    (tap.withRecords records).done = tap.done := by
  unfold withRecords; split <;> rfl

@[simp] theorem reports_withRecords (tap : Tap) (records : Bytes) :
    (tap.withRecords records).reports = tap.reports := by
  unfold withRecords; split <;> rfl

@[simp] theorem version_withRecords (tap : Tap) (records : Bytes) :
    (tap.withRecords records).version = tap.version := by
  unfold withRecords; split <;> rfl

@[simp] theorem withRecords_withRecords (tap : Tap) (a b : Bytes) :
    (tap.withRecords a).withRecords b = tap.withRecords b := by
  grind [withRecords]

section
variable (tap : Tap) (records : Bytes)

theorem takeMessage_withRecords (message : HandshakeMessage) :
    (tap.withRecords records).takeMessage message
      = (tap.takeMessage message).withRecords records := by
  simp only [withRecords, takeMessage, takeServerHello, finishWith, finish]
  grind

theorem takeHandshake_withRecords (fragment : Bytes) :
    (tap.withRecords records).takeHandshake fragment
      = (tap.takeHandshake fragment).withRecords records := by
  have hhandshake : (tap.withRecords records).handshake = tap.handshake := by
    unfold withRecords; split <;> rfl
  simp only [takeHandshake, hhandshake]
  rw [List.foldl_hom (fun t => withRecords t records) fun t m =>
    takeMessage_withRecords t records m]
  grind [withRecords]

theorem takeInner_withRecords (inner : InnerText) :
    (tap.withRecords records).takeInner inner = (tap.takeInner inner).withRecords records := by
  unfold takeInner
  split
  · exact takeHandshake_withRecords tap records inner.content
  · grind [withRecords, finish]
  · rfl

theorem openRecord_withRecords (record : Record) :
    (tap.withRecords records).openRecord record = (tap.openRecord record).withRecords records := by
  rcases h : tap.done with _ | _
  · rcases ho : tap.opener with _ | opener
    · rw [withRecords_of_not_done h]
      simp only [openRecord, h, ho, Bool.false_eq_true, if_false, withRecords_of_not_done h]
    · rw [withRecords_of_not_done h]
      simp only [openRecord, h, ho, Bool.false_eq_true, if_false]
      split
      · rw [withRecords_of_done rfl]; rfl
      · rw [← takeInner_withRecords, withRecords_of_not_done rfl]
  · rw [withRecords_of_done h, openRecord_of_done h, withRecords_of_done h]

theorem foldl_openRecord_withRecords (held : List Record) :
    held.foldl openRecord (tap.withRecords records)
      = (held.foldl openRecord tap).withRecords records :=
  List.foldl_hom (fun t => withRecords t records) fun t r => openRecord_withRecords t records r

theorem openHeld_withRecords (h : tap.done = false) :
    (tap.withRecords records).openHeld = tap.openHeld.withRecords records := by
  have hopener : (tap.withRecords records).withOpener = tap.withOpener.withRecords records := by
    rw [withRecords_of_not_done h]
    simp only [withOpener, finishWith, finish]
    grind [withRecords]
  have hfields : ∀ t : Tap, (t.withRecords records).opener = t.opener
      ∧ (t.withRecords records).held = t.held := by
    intro t; unfold withRecords; split <;> exact ⟨rfl, rfl⟩
  simp only [openHeld, hopener, (hfields _).1, (hfields _).2]
  split
  · rw [← foldl_openRecord_withRecords]
    congr 1
    grind [withRecords]
  · rfl

theorem takeRecord_withRecords (record : Record) :
    (tap.withRecords records).takeRecord record = (tap.takeRecord record).withRecords records := by
  rcases h : tap.done with _ | _
  · rw [takeRecord, takeRecord, done_withRecords, if_neg (by simp [h]), if_neg (by simp [h]),
      version_withRecords]
    split
    · grind [withRecords, finish]
    · grind [withRecords, finish]
    · refine Eq.trans (congrArg openHeld ?_)
        (openHeld_withRecords { tap with held := tap.held ++ [record] } records h)
      grind [withRecords]
    · exact takeHandshake_withRecords tap records record.fragment
    · rfl
    · rfl
    · rfl
  · rw [withRecords_of_done h, takeRecord_of_done h, withRecords_of_done h]

theorem foldl_takeRecord_withRecords (taken : List Record) :
    taken.foldl takeRecord (tap.withRecords records)
      = (taken.foldl takeRecord tap).withRecords records :=
  List.foldl_hom (fun t => withRecords t records) fun t r => takeRecord_withRecords t records r

theorem supplySecret_withRecords (secret : Bytes) :
    (tap.withRecords records).supplySecret secret
      = (tap.supplySecret secret).withRecords records := by
  rcases h : tap.done with _ | _
  · rw [supplySecret, supplySecret, done_withRecords, if_neg (by simp [h]), if_neg (by simp [h])]
    refine Eq.trans (congrArg openHeld ?_)
      (openHeld_withRecords { tap with secret := some secret } records h)
    grind [withRecords]
  · rw [withRecords_of_done h, supplySecret_of_done h, withRecords_of_done h]

end

end ServedChain.Tls.Tap
