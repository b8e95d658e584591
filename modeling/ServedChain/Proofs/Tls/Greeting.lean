/-
  When a tap learns the cipher suite of a server that speaks TLS 1.3.

  * `HandshakeMessage.choice?` is a hello that chooses TLS 1.3, and
    `HandshakeMessage.greeting?` one that does not ask for another client hello;
  * `foldl_takeRecord_of_continues`: what a tap without a secret makes of records, as
    long as none ends a handshake in the clear;
  * `suite_push_ne_none_iff`: it learns of a cipher suite exactly if a greeting is
    read, where `Greets` reads the records at once.
-/
import Mathlib.Data.List.Basic
import Mathlib.Data.List.Induction
import ServedChain.Proofs.Tls.Cleartext
import ServedChain.Proofs.Tls.Holding

namespace ServedChain.Tls

namespace HandshakeMessage

/-! ## Hellos -/

/-- The hello of a server that chooses TLS 1.3. -/
def choice? (message : HandshakeMessage) : Option ServerHello :=
  if message.type = 2 then (ServerHello.parse? message.body).filter (·.version = 0x0304) else none

/-- Such a hello that does not ask for another client hello. -/
def greeting? (message : HandshakeMessage) : Option ServerHello :=
  message.choice?.filter fun hello => !hello.isRetry

/-- The messages in front of the first list of certificates. -/
def reached (text : Bytes) : List HandshakeMessage :=
  (Cleartext.messages text).takeWhile fun message => message.type ≠ 11

end HandshakeMessage

namespace Tap

open HandshakeMessage (reached)

/-! ## Messages -/

/-- A message takes effect by the hello that it may be. -/
theorem takeMessage_of_not_certificate {tap : Tap} (hd : tap.done = false)
    {message : HandshakeMessage} (h : message.type ≠ 11) :
    tap.takeMessage message = { tap with
      version := if message.choice?.isSome then .tls13 else tap.version
      suite := message.greeting?.elim tap.suite fun hello => some hello.cipherSuite } := by
  by_cases htype : message.type = 2
  · rw [takeMessage_serverHello hd htype, takeServerHello]
    rcases hparse : ServerHello.parse? message.body with _ | hello
    · simp [HandshakeMessage.greeting?, HandshakeMessage.choice?, hparse]
    · by_cases hversion : hello.version = 0x0304
      · have hchoice : message.choice? = some hello := by
          simp [HandshakeMessage.choice?, htype, hparse, hversion]
        cases hretry : hello.isRetry <;>
          simp [HandshakeMessage.greeting?, hchoice, Option.filter, hretry, ServerHello.tls13,
            hversion]
      · have hchoice : message.choice? = none := by
          simp [HandshakeMessage.choice?, htype, hparse, hversion]
        simp [HandshakeMessage.greeting?, hchoice, ServerHello.tls13, hversion]
  · have hchoice : message.choice? = none := by simp [HandshakeMessage.choice?, htype]
    have hidle : tap.takeMessage message = tap := by
      rw [takeMessage, if_neg (by simp [hd]), if_neg (by exact htype), if_neg (by exact h)]
    simp [hidle, HandshakeMessage.greeting?, hchoice]

/-- Messages take effect by the hellos among those in front of the first list of certificates. -/
theorem foldl_takeMessage_eq {tap : Tap} (hd : tap.done = false) (messages : List HandshakeMessage) :
    let front := messages.takeWhile fun message => message.type ≠ 11
    (messages.foldl takeMessage tap).version
        = (if front.any (·.choice?.isSome) then .tls13 else tap.version)
      ∧ (messages.foldl takeMessage tap).suite
        = (front.filterMap HandshakeMessage.greeting?).foldl
          (fun _ hello => some hello.cipherSuite) tap.suite
      ∧ (messages.foldl takeMessage tap).done = messages.any fun message => message.type = 11 := by
  induction messages generalizing tap with
  | nil => exact ⟨rfl, rfl, hd⟩
  | cons message messages ih =>
    by_cases htype : message.type = 11
    · rw [List.foldl_cons, takeMessage_certificate hd htype, foldl_takeMessage_of_done rfl]
      simp [finishWith, finish, htype]
    · have htake := takeMessage_of_not_certificate hd htype
      obtain ⟨hversion, hsuite, hdone⟩ := @ih (tap.takeMessage message) (by rw [htake]; exact hd)
      rw [List.foldl_cons, hversion, hsuite, hdone, htake]
      refine ⟨?_, ?_, ?_⟩
      · cases hchoice : message.choice?.isSome <;> simp [htype, hchoice]
      · cases hgreeting : message.greeting? <;> simp [htype, hgreeting]
      · simp [htype]

/-- What a tap makes of the handshake in the clear, put together. -/
theorem takeHandshake_initial_eq (text : Bytes) :
    (initial.takeHandshake text).version
        = (if (reached text).any (·.choice?.isSome) then .tls13 else .tls12)
      ∧ (initial.takeHandshake text).suite
        = ((reached text).filterMap HandshakeMessage.greeting?).foldl
          (fun _ hello => some hello.cipherSuite) none
      ∧ (initial.takeHandshake text).done
        = (Cleartext.messages text).any fun message => message.type = 11 := by
  rw [takeHandshake_eq, show initial.handshake = [] from rfl, List.nil_append, ← messages_eq]
  have hfields : ∀ (t : Tap) (rest : Bytes), (t.withHandshake rest).version = t.version
      ∧ (t.withHandshake rest).suite = t.suite ∧ (t.withHandshake rest).done = t.done := by
    intro t rest; unfold withHandshake; split <;> exact ⟨rfl, rfl, rfl⟩
  obtain ⟨hversion, hsuite, hdone⟩ := hfields
    ((Cleartext.messages text).foldl takeMessage initial) (HandshakeMessage.cutAll text).2
  rw [hversion, hsuite, hdone]
  exact foldl_takeMessage_eq rfl _

theorem version_takeHandshake_initial_iff (text : Bytes) :
    (initial.takeHandshake text).version = .tls13
      ↔ ∃ message ∈ reached text, message.choice?.isSome := by
  rw [(takeHandshake_initial_eq text).1, ← List.any_eq_true]
  split <;> simp_all

theorem foldl_cipherSuite_ne_none_iff (hellos : List ServerHello) (suite : Option Nat) :
    hellos.foldl (fun _ hello => some hello.cipherSuite) suite ≠ none
      ↔ hellos ≠ [] ∨ suite ≠ none := by
  induction hellos generalizing suite with
  | nil => simp
  | cons hello hellos ih => simp [ih]

theorem suite_takeHandshake_initial_iff (text : Bytes) :
    (initial.takeHandshake text).suite ≠ none
      ↔ ∃ message ∈ reached text, message.greeting?.isSome := by
  rw [(takeHandshake_initial_eq text).2.1, foldl_cipherSuite_ne_none_iff]
  simp [List.filterMap_eq_nil_iff, Option.ne_none_iff_isSome]

/-! ## Records without a secret -/

/-- The tap holding some more encrypted records, if it can hold them. -/
def keep (tap : Tap) (records : List Record) : Tap :=
  if tap.done then tap else { tap with held := tap.held ++ records }

theorem keep_of_done {tap : Tap} (h : tap.done = true) (records : List Record) :
    tap.keep records = tap := by
  rw [keep, if_pos h]

theorem keep_of_not_done {tap : Tap} (h : tap.done = false) (records : List Record) :
    tap.keep records = { tap with held := tap.held ++ records } := by
  rw [keep, h]; rfl

@[simp] theorem keep_nil (tap : Tap) : tap.keep [] = tap := by
  unfold keep; split <;> simp

@[simp] theorem version_keep (tap : Tap) (records : List Record) :
    (tap.keep records).version = tap.version := by
  unfold keep; split <;> rfl

@[simp] theorem suite_keep (tap : Tap) (records : List Record) :
    (tap.keep records).suite = tap.suite := by
  unfold keep; split <;> rfl

@[simp] theorem opener_keep (tap : Tap) (records : List Record) :
    (tap.keep records).opener = tap.opener := by
  unfold keep; split <;> rfl

@[simp] theorem secret_keep (tap : Tap) (records : List Record) :
    (tap.keep records).secret = tap.secret := by
  unfold keep; split <;> rfl

theorem keep_append (tap : Tap) (a b : List Record) :
    (tap.keep a).keep b = tap.keep (a ++ b) := by
  grind [keep]

theorem takeMessage_keep (tap : Tap) (records : List Record) (message : HandshakeMessage) :
    (tap.keep records).takeMessage message = (tap.takeMessage message).keep records := by
  rcases hd : tap.done with _ | _
  · rw [keep_of_not_done hd]
    by_cases htype : message.type = 11
    · rw [takeMessage_certificate hd htype, keep_of_done rfl]
      exact takeMessage_certificate hd htype
    · rw [takeMessage_of_not_certificate hd htype, keep_of_not_done (by exact hd)]
      exact @takeMessage_of_not_certificate { tap with held := tap.held ++ records } hd _ htype
  · rw [keep_of_done hd, takeMessage_of_done hd, keep_of_done hd]

theorem takeHandshake_keep (tap : Tap) (records : List Record) (fragment : Bytes) :
    (tap.keep records).takeHandshake fragment = (tap.takeHandshake fragment).keep records := by
  have hhandshake : (tap.keep records).handshake = tap.handshake := by
    unfold keep; split <;> rfl
  rw [takeHandshake_eq, takeHandshake_eq, hhandshake,
    List.foldl_hom (fun t => keep t records) fun t m => takeMessage_keep t records m]
  grind [keep, withHandshake]

/-- A record that does not end a handshake in the clear, at that version. -/
def Continues (version : Version) (record : Record) : Prop :=
  version = .tls13 ∨ record.type = .handshake ∨ record.type = .alert

theorem takeRecord_of_continues {tap : Tap} (ho : tap.opener = none) (hs : tap.secret = none)
    (ha : tap.Assembled) {record : Record} (h : Continues tap.version record) :
    tap.takeRecord record
      = (tap.takeHandshake (handshakeText [record])).keep (hidden [record]) := by
  rcases hd : tap.done with _ | _
  · by_cases htype : record.type = .applicationData
    · have hv : tap.version = .tls13 := h.resolve_right (by simp [htype])
      rw [takeRecord_of_applicationData hd hv htype,
        openHeld_of_no_secret _ (by exact ho) (by exact hs),
        show handshakeText [record] = [] by simp [handshakeText, htype],
        show hidden [record] = [record] by simp [hidden, htype], ha, keep_of_not_done hd]
    · have hplain : IsPlain tap.version record := by
        rcases h with hv | htype | htype
        · cases hr : record.type <;> simp_all [IsPlain]
        · exact Or.inl htype
        · exact Or.inr (Or.inl htype)
      rw [takeRecord_of_isPlain ha hplain, show hidden [record] = [] by simp [hidden, htype],
        keep_nil]
  · rw [takeRecord_of_done hd, takeHandshake_of_done hd, keep_of_done hd]

theorem takeRecord_of_not_continues {tap : Tap} {record : Record}
    (h : ¬Continues tap.version record) :
    tap.version = .tls12 ∧ (tap.takeRecord record).done = true
      ∧ (tap.takeRecord record).suite = tap.suite := by
  obtain ⟨hv, htype⟩ := not_or.1 h
  replace hv : tap.version = .tls12 := by cases hversion : tap.version <;> simp_all
  refine ⟨hv, ?_⟩
  rcases hd : tap.done with _ | _
  · have hfinish : tap.takeRecord record = tap.finish := by
      rw [takeRecord, if_neg (by simp [hd]), hv]
      cases hr : record.type <;> simp_all
    rw [hfinish]
    exact ⟨rfl, rfl⟩
  · rw [takeRecord_of_done hd]
    exact ⟨hd, rfl⟩

/-- No record ends a handshake in the clear. -/
def ContinuesAll (tap : Tap) (records : List Record) : Prop :=
  ∀ front record back, records = front ++ record :: back →
    Continues (tap.takeHandshake (handshakeText front)).version record

theorem continuesAll_append_singleton {tap : Tap} {records : List Record} {record : Record} :
    tap.ContinuesAll (records ++ [record]) ↔ tap.ContinuesAll records
      ∧ Continues (tap.takeHandshake (handshakeText records)).version record := by
  refine ⟨fun h => ⟨fun front r back heq => ?_, h records record [] rfl⟩, ?_⟩
  · exact h front r (back ++ [record]) (by rw [heq, List.append_assoc]; rfl)
  · rintro ⟨hrecords, hlast⟩ front r back heq
    rcases List.eq_nil_or_concat' back with rfl | ⟨back, last, rfl⟩
    · obtain ⟨rfl, hr⟩ := List.append_inj' heq rfl
      cases hr
      exact hlast
    · rw [← List.cons_append, ← List.append_assoc] at heq
      exact hrecords front r back (List.append_inj' heq rfl).1

theorem secret_takeHandshake (tap : Tap) (fragment : Bytes) :
    (tap.takeHandshake fragment).secret = tap.secret := by
  have htake := takeHandshake_rekey tap tap.secret tap.opener fragment
  rw [show tap.rekey tap.secret tap.opener = tap from rfl] at htake
  rw [htake, rekey]

/-- Records none of which ends a handshake in the clear are taken in like the handshake that they
    carry, put together; the encrypted ones are held. -/
theorem foldl_takeRecord_of_continues {tap : Tap} (ho : tap.opener = none) (hs : tap.secret = none)
    (ha : tap.Assembled) {records : List Record} (h : tap.ContinuesAll records) :
    records.foldl takeRecord tap
      = (tap.takeHandshake (handshakeText records)).keep (hidden records) := by
  induction records using List.reverseRecOn with
  | nil =>
    rw [show handshakeText [] = [] from rfl, show hidden [] = [] from rfl, ha, keep_nil]
    rfl
  | append_singleton records record ih =>
    obtain ⟨hrecords, hlast⟩ := continuesAll_append_singleton.1 h
    have hassembled : ((tap.takeHandshake (handshakeText records)).keep
        (hidden records)).Assembled := by
      rw [Assembled, takeHandshake_keep, assembled_takeHandshake]
    rw [List.foldl_append, ih hrecords, List.foldl_cons, List.foldl_nil,
      takeRecord_of_continues (by rw [opener_keep, opener_takeHandshake, ho])
        (by rw [secret_keep, secret_takeHandshake, hs]) hassembled (by rwa [version_keep]),
      takeHandshake_keep, takeHandshake_append, ← handshakeText_append, keep_append, hidden, hidden,
      ← List.filter_append]
    rfl

/-- The first record that ends a handshake in the clear ends the tap, which then knows of no cipher
    suite. -/
theorem suite_foldl_takeRecord_of_not_continues {records : List Record}
    (h : ¬initial.ContinuesAll records) :
    (records.foldl takeRecord initial).done = true
      ∧ (records.foldl takeRecord initial).suite = none := by
  induction records using List.reverseRecOn with
  | nil => exact absurd (fun front _ _ heq => absurd heq (by simp)) h
  | append_singleton records record ih =>
    rw [List.foldl_append, List.foldl_cons, List.foldl_nil]
    by_cases hrecords : initial.ContinuesAll records
    · have hends : ¬Continues (records.foldl takeRecord initial).version record := by
        rw [foldl_takeRecord_of_continues rfl rfl (assembled_of_handshake_eq_nil initial rfl)
          hrecords, version_keep]
        exact fun hlast => h (continuesAll_append_singleton.2 ⟨hrecords, hlast⟩)
      obtain ⟨hv, hdone, hsuite⟩ := takeRecord_of_not_continues hends
      have hlasting := lasting_tls12_suite.foldl_takeRecord initial (fun _ => rfl) records
      exact ⟨hdone, hsuite.trans (hlasting hv)⟩
    · obtain ⟨hdone, hsuite⟩ := ih hrecords
      rw [takeRecord_of_done hdone]
      exact ⟨hdone, hsuite⟩

/-! ## Greetings -/

/-- A hello among the messages in front of the first list of certificates chooses TLS 1.3 without
    asking for another client hello, and every encrypted record or change to such records stands
    behind a hello that chooses TLS 1.3. -/
def Greets (records : List Record) : Prop :=
  (∃ message ∈ reached (handshakeText records), message.greeting?.isSome)
    ∧ ∀ front record back, records = front ++ record :: back →
      record.type = .changeCipherSpec ∨ record.type = .applicationData →
      ∃ message ∈ reached (handshakeText front), message.choice?.isSome

theorem continuesAll_initial_iff (records : List Record) :
    initial.ContinuesAll records
      ↔ ∀ front record back, records = front ++ record :: back →
        record.type = .changeCipherSpec ∨ record.type = .applicationData →
        ∃ message ∈ reached (handshakeText front), message.choice?.isSome := by
  refine forall₄_congr fun front record back _ => ?_
  rw [← version_takeHandshake_initial_iff, Continues]
  cases record.type <;> simp

theorem suite_foldl_takeRecord_initial_iff (records : List Record) :
    (records.foldl takeRecord initial).suite ≠ none ↔ Greets records := by
  rw [Greets, ← continuesAll_initial_iff]
  by_cases h : initial.ContinuesAll records
  · rw [foldl_takeRecord_of_continues rfl rfl (assembled_of_handshake_eq_nil initial rfl) h,
      suite_keep, suite_takeHandshake_initial_iff]
    exact (and_iff_left h).symm
  · simp [suite_foldl_takeRecord_of_not_continues h, h]

/-- **A tap without a secret learns of a cipher suite exactly if it reads a greeting.** -/
theorem suite_push_ne_none_iff (bs : Bytes) :
    (initial.push bs).suite ≠ none ↔ Greets (Record.cutAll bs).1 := by
  rw [push_eq_takeAll, suite_takeAll, suite_foldl_takeRecord_initial_iff]
  rfl

end Tap

end ServedChain.Tls
