/-
  Encrypted records that wait in a tap which knows both the secret and the cipher suite.

  A tap tries to open what it holds when an encrypted record comes and when it is told a
  secret, but not when it learns the cipher suite from a hello.

  * `eventsFrom` are the records and the secrets that inputs come to, in order, and
    `run_withRecords` says that inputs are taken in like them;
  * `foldl_takeEvent_of_keyless`: a tap that knows of no cipher suite holds every
    encrypted record;
  * `CaughtUp`: one that knows it holds nothing once it tried with the secret;
  * `held_of_known_keys`: hence what waits are the records in front of the greeting, up
    to the next encrypted record or secret behind it.
-/
import ServedChain.Proofs.Tls.Ending
import ServedChain.Proofs.Tls.Flight
import ServedChain.Proofs.Tls.Greeting
import ServedChain.Proofs.Tls.Secrets

namespace ServedChain.Tls.Tap

/-! ## Records and secrets in order -/

/-- What inputs come to: a whole record or a secret. -/
inductive Event where
  | record (record : Record)
  | secret (secret : Bytes)
  deriving DecidableEq, Repr

namespace Event

/-- The tap tries to open what it holds. -/
def wakes : Event → Bool
  | .record r => r.type = .applicationData
  | .secret _ => true

def record? : Event → Option Record
  | .record r => some r
  | .secret _ => none

/-- The encrypted records among some events. -/
def encrypted (events : List Event) : List Record := hidden (events.filterMap record?)

theorem encrypted_append (events events' : List Event) :
    encrypted (events ++ events') = encrypted events ++ encrypted events' := by
  simp only [encrypted, hidden, List.filterMap_append, List.filter_append]

theorem encrypted_of_not_wakes {event : Event} (h : event.wakes = false) :
    encrypted [event] = [] := by
  cases event with
  | record record => simpa [encrypted, hidden, record?, wakes] using h
  | secret secret => rfl

end Event

def takeEvent (tap : Tap) : Event → Tap
  | .record record => tap.takeRecord record
  | .secret secret => tap.supplySecret secret

/-- The events that inputs come to behind the beginning of a record, up to what is no record. -/
def eventsFrom (beginning : Bytes) : List Input → List Event
  | [] => []
  | .secret secret :: inputs => .secret secret :: eventsFrom beginning inputs
  | .chunk bytes :: inputs =>
    match Record.cutAll (beginning ++ bytes) with
    | (records, .incomplete rest) => records.map .record ++ eventsFrom rest inputs
    | (records, .malformed) => records.map .record

/-- **Inputs are taken in like the records and the secrets that they come to.** -/
theorem run_withRecords {tap : Tap} {beginning : Bytes} {inputs : List Input}
    (hd : ((tap.withRecords beginning).run inputs).done = false) :
    ∃ rest, (tap.withRecords beginning).run inputs
      = ((eventsFrom beginning inputs).foldl takeEvent tap).withRecords rest := by
  induction inputs generalizing tap beginning with
  | nil => exact ⟨beginning, rfl⟩
  | cons input inputs ih =>
    cases input with
    | secret secret =>
      have hrun : (tap.withRecords beginning).run (.secret secret :: inputs)
          = ((tap.supplySecret secret).withRecords beginning).run inputs := by
        rw [← supplySecret_withRecords]; rfl
      rw [hrun] at hd ⊢
      exact ih hd
    | chunk bytes =>
      have hrun : (tap.withRecords beginning).run (.chunk bytes :: inputs)
          = (tap.takeAll (Record.cutAll (beginning ++ bytes))).run inputs := by
        rw [← push_withRecords]; rfl
      rw [hrun] at hd ⊢
      rw [eventsFrom]
      rcases hcut : Record.cutAll (beginning ++ bytes) with ⟨records, rest | _⟩ <;> rw [hcut] at hd
      · obtain ⟨last, hlast⟩ := @ih (records.foldl takeRecord tap) rest hd
        refine ⟨last, ?_⟩
        rw [List.foldl_append, List.foldl_map]
        exact hlast
      · have hmalformed : (tap.takeAll (records, .malformed)).done = true := by
          simp [done_takeAll]
        rw [run_of_done hmalformed, hmalformed] at hd
        cases hd

theorem takeEvent_of_done {tap : Tap} (h : tap.done = true) (event : Event) :
    tap.takeEvent event = tap := by
  cases event with
  | record record => exact takeRecord_of_done h record
  | secret secret => exact supplySecret_of_done h secret

theorem not_done_of_takeEvent {tap : Tap} {event : Event}
    (h : (tap.takeEvent event).done = false) : tap.done = false :=
  Bool.eq_false_iff.2 fun hd => by rw [takeEvent_of_done hd, hd] at h; cases h

theorem not_done_of_foldl_takeEvent {tap : Tap} {events : List Event}
    (h : (events.foldl takeEvent tap).done = false) : tap.done = false := by
  induction events generalizing tap with
  | nil => exact h
  | cons event events ih => exact not_done_of_takeEvent (ih h)

namespace Lasting
variable {P : Version → Option Nat → Prop} (hP : Lasting P)
include hP

theorem takeEvent (tap : Tap) (h : P tap.version tap.suite) (event : Event) :
    P (tap.takeEvent event).version (tap.takeEvent event).suite := by
  cases event with
  | record record => exact hP.takeRecord tap h record
  | secret secret => exact hP.supplySecret tap h secret

theorem foldl_takeEvent (tap : Tap) (h : P tap.version tap.suite) (events : List Event) :
    P (events.foldl Tap.takeEvent tap).version (events.foldl Tap.takeEvent tap).suite := by
  induction events generalizing tap with
  | nil => exact h
  | cons event events ih => exact ih (tap.takeEvent event) (hP.takeEvent tap h event)

end Lasting

/-! ## Records that are not encrypted -/

/-- What a record can do to a tap that it does not end. -/
theorem takeRecord_cases {tap : Tap} {record : Record} (hd : (tap.takeRecord record).done = false) :
    (record.type = .applicationData ∧ tap.version = .tls13
        ∧ tap.takeRecord record = { tap with held := tap.held ++ [record] }.openHeld)
      ∨ (record.type = .handshake ∧ tap.takeRecord record = tap.takeHandshake record.fragment)
      ∨ (record.type ≠ .applicationData ∧ tap.takeRecord record = tap) := by
  have htap : tap.done = false := @not_done_of_takeEvent tap (.record record) hd
  rw [takeRecord, if_neg (by simp [htap])] at hd ⊢
  split at hd
  · cases hd
  · cases hd
  · next hv htype => exact Or.inl ⟨htype, hv, rfl⟩
  · next htype => exact Or.inr (Or.inl ⟨htype, rfl⟩)
  all_goals
    next htype => exact Or.inr (Or.inr ⟨by simp [htype], rfl⟩)

theorem held_takeHandshake_of_not_done {tap : Tap} {fragment : Bytes}
    (hd : (tap.takeHandshake fragment).done = false) :
    (tap.takeHandshake fragment).held = tap.held := by
  have htap : tap.done = false := Bool.eq_false_iff.2 fun h => by
    rw [takeHandshake_of_done h, h] at hd
    cases hd
  -- The tap with nothing held, and then with what was held, takes the fragment in alike
  have hkeep : ({ tap with held := [] } : Tap).keep tap.held = tap := by
    rw [keep_of_not_done (by exact htap)]; rfl
  have htake := takeHandshake_keep { tap with held := [] } tap.held fragment
  rw [hkeep] at htake
  have hnil : (({ tap with held := [] } : Tap).takeHandshake fragment).held = [] :=
    held_takeHandshake rfl fragment
  rw [htake] at hd ⊢
  unfold keep at hd ⊢
  split at hd
  · next hdone => rw [hdone] at hd; cases hd
  · next hdone => rw [if_neg hdone, hnil, List.nil_append]

/-- Without an encrypted record and without a secret, nothing that is held is touched. -/
theorem takeEvent_of_not_wakes {tap : Tap} {event : Event} (h : event.wakes = false)
    (hd : (tap.takeEvent event).done = false) :
    (tap.takeEvent event).held = tap.held ∧ (tap.takeEvent event).secret = tap.secret := by
  cases event with
  | secret secret => cases h
  | record record =>
    have htype : record.type ≠ .applicationData := by simpa [Event.wakes] using h
    rw [takeEvent] at hd ⊢
    rcases takeRecord_cases hd with ⟨happlication, -⟩ | ⟨-, htake⟩ | ⟨-, htake⟩
    · exact absurd happlication htype
    · rw [htake] at hd ⊢
      exact ⟨held_takeHandshake_of_not_done hd, secret_takeHandshake tap record.fragment⟩
    · rw [htake]
      exact ⟨rfl, rfl⟩

theorem held_foldl_of_not_wakes {tap : Tap} {events : List Event}
    (h : ∀ event ∈ events, event.wakes = false)
    (hd : (events.foldl takeEvent tap).done = false) :
    (events.foldl takeEvent tap).held = tap.held := by
  induction events generalizing tap with
  | nil => rfl
  | cons event events ih =>
    rw [List.foldl_cons] at hd ⊢
    rw [ih (fun e he => h e (List.mem_cons_of_mem _ he)) hd]
    exact (takeEvent_of_not_wakes (h event List.mem_cons_self)
      (not_done_of_foldl_takeEvent hd)).1

/-! ## Without a cipher suite -/

theorem takeEvent_of_keyless {tap : Tap} (h : tap.Keyless) {event : Event}
    (hd : (tap.takeEvent event).done = false) :
    (tap.takeEvent event).opener = none
      ∧ (tap.takeEvent event).held = tap.held ++ Event.encrypted [event] := by
  cases event with
  | secret secret =>
    rw [takeEvent, supplySecret_of_no_suite tap (not_done_of_takeEvent hd) h.2 h.1]
    exact ⟨rfl, (List.append_nil _).symm⟩
  | record record =>
    refine ⟨opener_takeRecord h record, ?_⟩
    rcases hwakes : (Event.record record).wakes with _ | _
    · rw [(takeEvent_of_not_wakes hwakes hd).1, Event.encrypted_of_not_wakes hwakes,
        List.append_nil]
    · have htype : record.type = .applicationData := by simpa [Event.wakes] using hwakes
      rcases takeRecord_cases hd with ⟨-, -, htake⟩ | ⟨hhandshake, -⟩ | ⟨hother, -⟩
      · rw [takeEvent, htake, openHeld_of_no_suite _ (by exact h.2) (by exact h.1)]
        simp [Event.encrypted, Event.record?, hidden, htype]
      · simp [htype] at hhandshake
      · exact absurd htype hother

/-- **A tap that knows of no cipher suite holds every encrypted record.** -/
theorem foldl_takeEvent_of_keyless {tap : Tap} (ho : tap.opener = none) {events : List Event}
    (hd : (events.foldl takeEvent tap).done = false)
    (hsuite : (events.foldl takeEvent tap).suite = none) :
    (events.foldl takeEvent tap).opener = none
      ∧ (events.foldl takeEvent tap).held = tap.held ++ Event.encrypted events := by
  induction events generalizing tap with
  | nil => exact ⟨ho, (List.append_nil _).symm⟩
  | cons event events ih =>
    rw [List.foldl_cons] at hd hsuite ⊢
    -- A suite would have lasted until the end
    have hkeyless : tap.Keyless := ⟨Decidable.byContradiction fun hne =>
      lasting_suite.foldl_takeEvent tap hne (event :: events) hsuite, ho⟩
    obtain ⟨hopener, hheld⟩ := takeEvent_of_keyless hkeyless (not_done_of_foldl_takeEvent hd)
    obtain ⟨hlast, hlastHeld⟩ := ih hopener hd hsuite
    refine ⟨hlast, ?_⟩
    rw [hlastHeld, hheld, List.append_assoc, ← Event.encrypted_append, List.singleton_append]

/-- The event that makes the cipher suite known is a record of a handshake in the clear. -/
theorem exists_record_of_suite {tap : Tap} (h : tap.Keyless) {event : Event}
    (hd : (tap.takeEvent event).done = false) (hsuite : (tap.takeEvent event).suite ≠ none) :
    ∃ hello, event = .record hello ∧ hello.type = .handshake := by
  cases event with
  | secret secret =>
    rw [takeEvent, supplySecret_of_no_suite tap (not_done_of_takeEvent hd) h.2 h.1] at hsuite
    exact absurd h.1 hsuite
  | record record =>
    rw [takeEvent] at hsuite
    rcases takeRecord_cases hd with ⟨-, -, htake⟩ | ⟨htype, -⟩ | ⟨-, htake⟩
    · rw [htake, openHeld_of_no_suite _ (by exact h.2) (by exact h.1)] at hsuite
      exact absurd h.1 hsuite
    · exact ⟨record, rfl, htype⟩
    · rw [htake] at hsuite
      exact absurd h.1 hsuite

/-- A cipher suite becomes known with some event. -/
theorem exists_first_suite {tap : Tap} (h : tap.suite = none) {events : List Event}
    (hsuite : (events.foldl takeEvent tap).suite ≠ none) :
    ∃ front event back, events = front ++ event :: back
      ∧ (front.foldl takeEvent tap).suite = none
      ∧ ((front.foldl takeEvent tap).takeEvent event).suite ≠ none := by
  induction events generalizing tap with
  | nil => exact absurd h hsuite
  | cons event events ih =>
    by_cases hnext : (tap.takeEvent event).suite = none
    · obtain ⟨front, last, back, rfl, hfront, hlast⟩ := ih hnext hsuite
      exact ⟨event :: front, last, back, rfl, hfront, hlast⟩
    · exact ⟨[], event, events, rfl, h, hnext⟩

/-! ## With a cipher suite -/

/-- The tap knows the cipher suite of a server that speaks TLS 1.3. -/
def Greeted (tap : Tap) : Prop := tap.version = .tls13 ∧ tap.suite ≠ none

theorem Greeted.takeEvent {tap : Tap} (h : tap.Greeted) (event : Event) :
    (tap.takeEvent event).Greeted :=
  ⟨lasting_tls13.takeEvent tap h.1 event, lasting_suite.takeEvent tap h.2 event⟩

/-- With a secret, the tap holds nothing. -/
def CaughtUp (tap : Tap) : Prop := tap.secret ≠ none → tap.held = []

/-- An attempt to open what is held leaves nothing of it, unless there is no secret. -/
theorem caughtUp_openHeld {tap : Tap} (h : tap.Greeted) : tap.openHeld.CaughtUp := by
  intro hsecret
  rcases ho : tap.opener with _ | opener
  · rcases hs : tap.secret with _ | secret
    · rw [openHeld_of_no_secret tap ho hs] at hsecret
      exact absurd hs hsecret
    · obtain ⟨code, hcode⟩ := Option.ne_none_iff_exists'.1 h.2
      rcases hsuite : CipherSuite.ofCode? code with _ | suite
      · rw [openHeld_of_suite_unknown tap ho hs hcode hsuite]
        rfl
      · rw [openHeld_of_suite tap ho hs hcode hsuite]
        refine (Opening.foldl_openRecord ?_ tap.held).held
        exact ⟨h.1, rfl, rfl⟩
  · rw [openHeld_of_opener tap (by simp [ho])]
    refine (Opening.foldl_openRecord ?_ tap.held).held
    exact ⟨h.1, by simp [ho], rfl⟩

theorem caughtUp_takeEvent_of_wakes {tap : Tap} (h : tap.Greeted) {event : Event}
    (hwakes : event.wakes = true) (hd : tap.done = false) : (tap.takeEvent event).CaughtUp := by
  cases event with
  | record record =>
    have htype : record.type = .applicationData := by simpa [Event.wakes] using hwakes
    rw [takeEvent, takeRecord_of_applicationData hd h.1 htype]
    exact caughtUp_openHeld h
  | secret secret =>
    rw [takeEvent, supplySecret, if_neg (by simp [hd])]
    exact caughtUp_openHeld h

theorem CaughtUp.takeEvent {tap : Tap} (hcaught : tap.CaughtUp) (h : tap.Greeted) {event : Event}
    (hd : (tap.takeEvent event).done = false) : (tap.takeEvent event).CaughtUp := by
  rcases hwakes : event.wakes with _ | _
  · obtain ⟨hheld, hsecret⟩ := takeEvent_of_not_wakes hwakes hd
    rw [CaughtUp, hheld, hsecret]
    exact hcaught
  · exact caughtUp_takeEvent_of_wakes h hwakes (not_done_of_takeEvent hd)

theorem CaughtUp.foldl_takeEvent {tap : Tap} (hcaught : tap.CaughtUp) (h : tap.Greeted)
    {events : List Event} (hd : (events.foldl Tap.takeEvent tap).done = false) :
    (events.foldl Tap.takeEvent tap).CaughtUp := by
  induction events generalizing tap with
  | nil => exact hcaught
  | cons event events ih =>
    exact ih (hcaught.takeEvent h (not_done_of_foldl_takeEvent hd)) (h.takeEvent event) hd

/-- **Once a tap knows the cipher suite, it has caught up from the first encrypted record or
    secret on.** -/
theorem caughtUp_foldl_of_wakes {tap : Tap} (h : tap.Greeted) {events : List Event}
    (hwakes : events.any Event.wakes = true)
    (hd : (events.foldl Tap.takeEvent tap).done = false) :
    (events.foldl Tap.takeEvent tap).CaughtUp := by
  induction events generalizing tap with
  | nil => cases hwakes
  | cons event events ih =>
    rw [List.foldl_cons] at hd ⊢
    have hnext := not_done_of_foldl_takeEvent hd
    rcases hevent : event.wakes with _ | _
    · exact ih (h.takeEvent event) (by simpa [hevent] using hwakes) hd
    · exact (caughtUp_takeEvent_of_wakes h hevent (not_done_of_takeEvent hnext)).foldl_takeEvent
        (h.takeEvent event) hd

/-! ## What waits -/

/-- **Which encrypted records wait although the secret and the cipher suite are known.**  Among the
    records and secrets that a tap took in (`run_withRecords`), the cipher suite became known with
    a record of the handshake in the clear.  If an encrypted record or a secret came behind it, no
    encrypted record waits; otherwise all of those do that came in front of it. -/
theorem held_of_known_keys (inputs : List Input) (hd : (initial.run inputs).done = false)
    (hsecret : (initial.run inputs).secret ≠ none) (hsuite : (initial.run inputs).suite ≠ none) :
    ∃ front hello back, eventsFrom [] inputs = front ++ .record hello :: back
      ∧ hello.type = .handshake
      ∧ (front.foldl takeEvent initial).suite = none
      ∧ ((front.foldl takeEvent initial).takeRecord hello).suite ≠ none
      ∧ (initial.run inputs).held
        = if back.any Event.wakes then [] else Event.encrypted front := by
  obtain ⟨rest, hrun⟩ := @run_withRecords initial [] inputs hd
  rw [show initial.withRecords [] = initial from rfl] at hrun
  have hlast : ((eventsFrom [] inputs).foldl takeEvent initial).done = false := by
    rwa [hrun, done_withRecords] at hd
  rw [withRecords_of_not_done hlast] at hrun
  rw [hrun] at hsecret hsuite ⊢
  simp only at hsecret hsuite ⊢
  obtain ⟨front, event, back, hevents, hfront, hevent⟩ := exists_first_suite rfl hsuite
  rw [hevents, List.foldl_append, List.foldl_cons] at hlast hsecret ⊢
  -- Up to the event that makes the suite known, everything encrypted is held
  have hknown := not_done_of_foldl_takeEvent hlast
  obtain ⟨hopener, hheld⟩ :=
    foldl_takeEvent_of_keyless rfl (not_done_of_takeEvent hknown) hfront
  have hkeyless : (front.foldl takeEvent initial).Keyless := ⟨hfront, hopener⟩
  obtain ⟨hello, rfl, htype⟩ := exists_record_of_suite hkeyless hknown hevent
  refine ⟨front, hello, back, rfl, htype, hfront, hevent, ?_⟩
  have hgreeted : ((front.foldl takeEvent initial).takeRecord hello).Greeted := by
    refine ⟨?_, hevent⟩
    have hlasting := lasting_tls12_suite.foldl_takeEvent initial (fun _ => rfl)
      (front ++ [.record hello])
    rw [List.foldl_append] at hlasting
    rcases hv : ((front.foldl takeEvent initial).takeRecord hello).version with _ | _
    · exact absurd (hlasting hv) hevent
    · rfl
  -- From there on, only an encrypted record or a secret makes it try
  rcases hwakes : back.any Event.wakes with _ | _
  · have hidle : (Event.record hello).wakes = false := by simp [Event.wakes, htype]
    rw [if_neg Bool.false_ne_true,
      held_foldl_of_not_wakes (by simpa using hwakes) hlast,
      (takeEvent_of_not_wakes hidle hknown).1, hheld]
    rfl
  · rw [if_pos rfl]
    exact caughtUp_foldl_of_wakes hgreeted hwakes hlast hsecret

/-- A hello that asks for another client hello, an encrypted record, a secret and only then the
    hello with the cipher suite. -/
def overtaken : List Input :=
  let hello (fields : ServerHello.Fields) : Input :=
    .chunk (Record.encode ⟨.handshake, (3, 3), fields.message.encode⟩)
  Flight.small.retries.map hello
    ++ [.chunk (Record.encode ⟨.applicationData, (3, 3),
        [0x29, 0x19, 0x43, 0x31, 0x3b, 0x1e, 0xf0, 0x93, 0x5d, 0xd8, 0x22, 0x88, 0xb5, 0x1a, 0x3f,
          0x06, 0x09, 0xd0, 0x47, 0x76, 0x95, 0xf6, 0xa2, 0x06, 0xf7, 0x36, 0x45, 0xa7, 0xff,
          0xa2, 0xa3]⟩),
      .secret Flight.small.secret, hello Flight.small.hello]

/-- The record came in front of the hello with the cipher suite, and nothing came behind it. -/
theorem held_of_known_keys_overtaken :
    (initial.run overtaken).done = false ∧ (initial.run overtaken).secret ≠ none
      ∧ (initial.run overtaken).suite ≠ none
      ∧ ∃ front hello back, eventsFrom [] overtaken = front ++ .record hello :: back
        ∧ (initial.run overtaken).held
          = if back.any Event.wakes then [] else Event.encrypted front := by
  have hd : (initial.run overtaken).done = false := by decide +kernel
  have hsecret : (initial.run overtaken).secret ≠ none := by decide +kernel
  have hsuite : (initial.run overtaken).suite ≠ none := by decide +kernel
  obtain ⟨front, hello, back, hevents, -, -, -, hheld⟩ :=
    held_of_known_keys overtaken hd hsecret hsuite
  exact ⟨hd, hsecret, hsuite, front, hello, back, hevents, hheld⟩

/-- A tap with the secret and the cipher suite that still holds an encrypted record. -/
theorem held_despite_known_keys :
    ¬∀ inputs : List Input, (initial.run inputs).done = false →
      (initial.run inputs).secret ≠ none → (initial.run inputs).suite ≠ none →
      (initial.run inputs).held = [] := by
  intro h
  have hheld : (initial.run overtaken).held ≠ [] := by decide +kernel
  exact hheld (h overtaken (by decide +kernel) (by decide +kernel) (by decide +kernel))

end ServedChain.Tls.Tap
