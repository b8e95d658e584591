/-
  When a tap is told the secret does not matter.

  * `run_of_not_greets`: without a greeting, inputs come to what their bytes alone
    come to;
  * `LoneGreeting` is a stream with one greeting, at the end of the handshake in the
    clear;
  * `Waiting.foldl_takeRecord_rekey`: a tap that was told the secret before the
    greeting gets the keys with the first encrypted record;
  * `takeRecords_around_secret`: hence it comes to the same as one that is told the
    secret right behind the greeting, and so does one that is told it later;
  * `secret_timing_irrelevant`: the same for inputs.
-/
import Mathlib.Data.List.TakeWhile
import ServedChain.Proofs.Tls.Flight
import ServedChain.Proofs.Tls.Greeting

namespace ServedChain.Tls

/-! ## Streams with one greeting -/

/-- A stream of bytes with one greeting, complete with the last record that carries a handshake
    in the clear. -/
structure LoneGreeting (bs : Bytes) where
  /-- The records in front of the one with the end of the greeting -/
  clear : List Record
  last : Record
  behind : List Record
  /-- The beginning of a record, or nothing -/
  rest : Bytes
  hello : ServerHello
  cutAll_eq : Record.cutAll bs = (clear ++ last :: behind, .incomplete rest)
  last_type : last.type = .handshake
  behind_type : ∀ record ∈ behind, record.type ≠ .handshake
  clear_type : ∀ record ∈ clear, record.type ≠ .applicationData
  /-- There is no other greeting, and this one is not complete before -/
  greetings_eq : (Cleartext.messages (Tap.handshakeText (clear ++ [last]))).filterMap
    HandshakeMessage.greeting? = [hello]
  greetings_clear : (Cleartext.messages (Tap.handshakeText clear)).filterMap
    HandshakeMessage.greeting? = []
  /-- The cipher suite is known, or its use is attempted -/
  suite_known_or_used : (CipherSuite.ofCode? hello.cipherSuite).isSome
    ∨ ∃ record ∈ behind, record.type = .applicationData

namespace LoneGreeting
variable {bs : Bytes} (lone : LoneGreeting bs)

/-- The records up to the end of the greeting. -/
def opening : List Record := lone.clear ++ [lone.last]

/-- What a tap without a secret makes of them. -/
def greeted : Tap := lone.opening.foldl Tap.takeRecord Tap.initial

end LoneGreeting

namespace Tap

/-- The input is a piece of the stream. -/
def Input.isChunk : Input → Bool
  | chunk _ => true
  | secret _ => false

theorem stream_append (inputs inputs' : List Input) :
    stream (inputs ++ inputs') = stream inputs ++ stream inputs' := List.flatMap_append

theorem stream_filter_isChunk (inputs : List Input) :
    stream (inputs.filter Input.isChunk) = stream inputs := by
  induction inputs with
  | nil => rfl
  | cons input inputs ih =>
    cases input with
    | chunk bytes => exact congrArg (bytes ++ ·) ih
    | secret secret => exact ih

/-! ## Without a greeting -/

/-- A tap that reads no greeting has come, at any time, to what the bytes up to there come to. -/
theorem run_of_not_greets {inputs front : List Input}
    (h : ¬Greets (Record.cutAll (stream inputs)).1) (hfront : front <+: inputs) :
    ∃ secret, initial.run front = (initial.push (stream front)).rekey secret none := by
  obtain ⟨back, rfl⟩ := hfront
  refine run_eq_push_stream settled_initial rfl (Decidable.byContradiction fun hsuite => h ?_)
  rw [← suite_push_ne_none_iff, stream_append, ← push_append]
  exact lasting_suite.push (initial.push (stream front)) hsuite (stream back)

/-! ## Records under another secret -/

/-- A record that is not encrypted is taken in without a look at the keys. -/
theorem takeRecord_rekey_of_not_applicationData (tap : Tap) (secret : Option Bytes)
    (opener : Option Opener) {record : Record} (h : record.type ≠ .applicationData) :
    (tap.rekey secret opener).takeRecord record = (tap.takeRecord record).rekey secret opener := by
  have hdone : (tap.rekey secret opener).done = tap.done := rfl
  have hversion : (tap.rekey secret opener).version = tap.version := rfl
  rw [takeRecord, takeRecord, hdone, hversion]
  split
  · rfl
  · split
    · rfl
    · rfl
    · next htype => exact absurd htype h
    · exact takeHandshake_rekey tap secret opener record.fragment
    · rfl
    · rfl
    · rfl

theorem foldl_takeRecord_rekey_of_not_applicationData (tap : Tap) (secret : Option Bytes)
    (opener : Option Opener) {records : List Record}
    (h : ∀ record ∈ records, record.type ≠ .applicationData) :
    records.foldl takeRecord (tap.rekey secret opener)
      = (records.foldl takeRecord tap).rekey secret opener := by
  induction records generalizing tap with
  | nil => rfl
  | cons record records ih =>
    rw [List.foldl_cons, takeRecord_rekey_of_not_applicationData tap secret opener
      (h record List.mem_cons_self), ih _ fun r hr => h r (List.mem_cons_of_mem _ hr)]
    rfl

/-! ## Behind the greeting -/

theorem isHidden_of_mem_hidden {records : List Record} :
    ∀ record ∈ hidden records, IsHidden record :=
  fun _ h => Or.inl (by simpa using (List.mem_filter.1 h).2)

theorem hidden_hidden (records : List Record) : hidden (hidden records) = hidden records := by
  rw [hidden, hidden, List.filter_filter]
  simp

/-- At TLS 1.3, what does not carry a handshake in the clear is taken in as far as it is
    encrypted. -/
theorem foldl_takeRecord_eq_hidden {tap : Tap} (hv : tap.version = .tls13) {records : List Record}
    (h : ∀ record ∈ records, record.type ≠ .handshake) :
    records.foldl takeRecord tap = (hidden records).foldl takeRecord tap := by
  induction records generalizing tap with
  | nil => rfl
  | cons record records ih =>
    have hrest := @ih (tap.takeRecord record) (lasting_tls13.takeRecord tap hv record)
      fun r hr => h r (List.mem_cons_of_mem _ hr)
    rw [List.foldl_cons, hrest]
    by_cases htype : record.type = .applicationData
    · rw [hidden, hidden, List.filter_cons_of_pos (by simpa using htype), List.foldl_cons]
    · have hidle : tap.takeRecord record = tap := by
        have hhandshake := h record List.mem_cons_self
        rw [takeRecord, hv]
        cases hr : record.type <;> simp_all
      rw [hidle, hidden, hidden, List.filter_cons_of_neg (by simpa using htype)]

/-- The tap takes records in, knows of a cipher suite for TLS 1.3 and is not told a secret. -/
structure Waiting (tap : Tap) (code : Nat) : Prop where
  done : tap.done = false
  version : tap.version = .tls13
  suite : tap.suite = some code
  opener : tap.opener = none
  secret : tap.secret = none
  held : tap.held = []

section
variable {tap : Tap} {code : Nat} (ht : tap.Waiting code) (secret : Bytes)
include ht

/-- A secret can come before the records as well as behind them. -/
theorem Waiting.supplySecret_foldl_takeRecord {records : List Record}
    (h : ∀ record ∈ records, record.type ≠ .handshake) :
    (records.foldl takeRecord tap).supplySecret secret
      = records.foldl takeRecord (tap.supplySecret secret) := by
  rw [foldl_takeRecord_eq_hidden ht.version h,
    foldl_takeRecord_eq_hidden (lasting_tls13.supplySecret tap ht.version secret) h]
  exact Tap.supplySecret_foldl_takeRecord tap ht.done ht.version ht.opener ht.secret ht.suite secret
    isHidden_of_mem_hidden

/-- A tap that was told the secret before it knew of a cipher suite comes to the same as one that
    is told it now, if the suite is known or its use is attempted. -/
theorem Waiting.foldl_takeRecord_rekey {records : List Record}
    (h : ∀ record ∈ records, record.type ≠ .handshake)
    (hcode : (CipherSuite.ofCode? code).isSome
      ∨ ∃ record ∈ records, record.type = .applicationData) :
    (records.foldl takeRecord (tap.rekey (some secret) none)).reports
        = (records.foldl takeRecord (tap.supplySecret secret)).reports
      ∧ (records.foldl takeRecord (tap.rekey (some secret) none)).done
        = (records.foldl takeRecord (tap.supplySecret secret)).done := by
  have hearly : (tap.rekey (some secret) none).version = .tls13 := ht.version
  rw [foldl_takeRecord_eq_hidden hearly h,
    foldl_takeRecord_eq_hidden (lasting_tls13.supplySecret tap ht.version secret) h]
  have hused : (∃ record ∈ records, record.type = .applicationData) → hidden records ≠ [] := by
    rintro ⟨record, hmem, htype⟩
    exact List.ne_nil_of_mem (List.mem_filter.2 ⟨hmem, by simpa using htype⟩)
  rcases hsuite : CipherSuite.ofCode? code with _ | suite
  · -- The attempt to open the first record fails like the attempt to get the keys
    have hne : hidden records ≠ [] := hused (hcode.resolve_left (by simp [hsuite]))
    obtain ⟨record, more, hhidden⟩ := List.exists_cons_of_ne_nil hne
    have htype : record.type = .applicationData := by
      have hmem : record ∈ hidden records := by rw [hhidden]; exact List.mem_cons_self
      simpa using (List.mem_filter.1 hmem).2
    rw [hhidden, List.foldl_cons, takeRecord_of_applicationData (by exact ht.done) hearly htype,
      openHeld_of_suite_unknown _ (by exact rfl) (by exact rfl) (by exact ht.suite) hsuite,
      foldl_takeRecord_of_done rfl, Tap.supplySecret, if_neg (by simp [ht.done]),
      openHeld_of_suite_unknown _ (by exact ht.opener) (by exact rfl) (by exact ht.suite) hsuite,
      foldl_takeRecord_of_done rfl]
    exact ⟨rfl, rfl⟩
  · have hsupply := supplySecret_of_suite tap ht.done ht.opener ht.held ht.suite hsuite secret
    rw [hsupply]
    by_cases hne : hidden records = []
    · rw [hne]
      exact ⟨rfl, rfl⟩
    · rw [foldl_takeRecord_of_suite (by exact ht.done) hearly rfl rfl (by exact ht.suite) hsuite
        isHidden_of_mem_hidden (by rwa [hidden_hidden])]
      exact ⟨rfl, rfl⟩

end

/-! ## Around the greeting -/

theorem messages_prefix_append (a b : Bytes) :
    Cleartext.messages a <+: Cleartext.messages (a ++ b) := by
  rw [messages_eq, messages_eq, HandshakeMessage.cutAll_append]
  exact List.prefix_append _ _

section
variable {bs : Bytes} (lone : LoneGreeting bs)

/-- In front of the greeting a tap knows of no cipher suite. -/
theorem keyless_of_prefix_clear {front : List Record} (h : front <+: lone.clear) :
    (front.foldl takeRecord initial).Keyless := by
  have hsuite : (front.foldl takeRecord initial).suite = none := by
    refine Decidable.byContradiction fun hne => ?_
    obtain ⟨⟨message, hreached, hgreeting⟩, -⟩ := (suite_foldl_takeRecord_initial_iff front).1 hne
    obtain ⟨more, hclear⟩ := h
    have hmem : message ∈ Cleartext.messages (handshakeText lone.clear) := by
      rw [← hclear, handshakeText_append]
      exact (messages_prefix_append _ _).mem ((List.takeWhile_prefix _).mem hreached)
    have hnone := List.filterMap_eq_nil_iff.1 lone.greetings_clear message hmem
    simp [hnone] at hgreeting
  exact ⟨hsuite, (foldl_takeRecord_rekey none rfl hsuite).2⟩

theorem hidden_opening : hidden lone.opening = [] := by
  refine List.filter_eq_nil_iff.2 fun record hmem => ?_
  rcases List.mem_append.1 hmem with hmem | hmem
  · simpa using lone.clear_type record hmem
  · rw [List.mem_singleton.1 hmem, lone.last_type]
    simp

/-- Behind the greeting a tap waits for the secret, or it is done. -/
theorem waiting_greeted (h : lone.greeted.done = false) :
    lone.greeted.Waiting lone.hello.cipherSuite := by
  have hcontinues : initial.ContinuesAll lone.opening := by
    refine Classical.byContradiction fun hends => ?_
    have hdone := (suite_foldl_takeRecord_of_not_continues hends).1
    rw [← LoneGreeting.greeted, h] at hdone
    cases hdone
  have hgreeted : lone.greeted = initial.takeHandshake (handshakeText lone.opening) := by
    rw [LoneGreeting.greeted, foldl_takeRecord_of_continues rfl rfl
      (assembled_of_handshake_eq_nil initial rfl) hcontinues, hidden_opening, keep_nil]
  obtain ⟨-, hsuite, hdone⟩ := takeHandshake_initial_eq (handshakeText lone.opening)
  -- All messages are reached, or the tap would be done
  have hreached : HandshakeMessage.reached (handshakeText lone.opening)
      = Cleartext.messages (handshakeText lone.opening) := by
    rw [← hgreeted, h, eq_comm, List.any_eq_false] at hdone
    exact List.takeWhile_eq_self_iff.2 fun message hmem => by simpa using hdone message hmem
  have hcode : lone.greeted.suite = some lone.hello.cipherSuite := by
    rw [hgreeted, hsuite, hreached, LoneGreeting.opening, lone.greetings_eq]
    rfl
  have hversion : lone.greeted.version = .tls13 := by
    have hlasting := lasting_tls12_suite.foldl_takeRecord initial (fun _ => rfl) lone.opening
    rw [← LoneGreeting.greeted, hcode] at hlasting
    cases hv : lone.greeted.version
    · cases hlasting hv
    · rfl
  refine ⟨h, hversion, hcode, ?_, ?_, ?_⟩
  · rw [hgreeted, opener_takeHandshake]; rfl
  · rw [hgreeted, secret_takeHandshake]; rfl
  · rw [hgreeted]; exact held_takeHandshake rfl _

/-- A secret that comes before the greeting is kept until then. -/
theorem foldl_takeRecord_supplySecret_of_clear {front middle : List Record}
    (h : lone.clear = front ++ middle) (secret : Bytes) :
    ∃ kept, (middle ++ [lone.last]).foldl takeRecord
        ((front.foldl takeRecord initial).supplySecret secret) = lone.greeted.rekey kept none
      ∧ (lone.greeted.done = false → kept = some secret) := by
  have hkeyless := keyless_of_prefix_clear lone ⟨middle, h.symm⟩
  have hgreeted : lone.greeted
      = (middle ++ [lone.last]).foldl takeRecord (front.foldl takeRecord initial) := by
    rw [LoneGreeting.greeted, LoneGreeting.opening, h, List.append_assoc, List.foldl_append]
  have hclear : ∀ record ∈ middle ++ [lone.last], record.type ≠ .applicationData := by
    intro record hmem
    rcases List.mem_append.1 hmem with hmem | hmem
    · exact lone.clear_type record (h ▸ List.mem_append_right _ hmem)
    · rw [List.mem_singleton.1 hmem, lone.last_type]
      decide
  rcases hd : (front.foldl takeRecord initial).done with _ | _
  · refine ⟨some secret, ?_, fun _ => rfl⟩
    rw [supplySecret_of_no_suite _ hd hkeyless.2 hkeyless.1,
      foldl_takeRecord_rekey_of_not_applicationData _ _ _ hclear, hgreeted]
  · obtain ⟨kept, hkept⟩ := supplySecret_of_keyless hkeyless secret
    refine ⟨kept, ?_, ?_⟩
    · rw [hkept, foldl_takeRecord_rekey_of_not_applicationData _ _ _ hclear, hgreeted]
    · rw [hgreeted, foldl_takeRecord_of_done hd, hd]
      rintro ⟨⟩

/-- The records are cut into two in front of the end of the greeting or behind it. -/
theorem front_or_behind {front back : List Record}
    (h : front ++ back = lone.clear ++ lone.last :: lone.behind) :
    (∃ middle, lone.clear = front ++ middle ∧ back = middle ++ [lone.last] ++ lone.behind)
      ∨ ∃ middle, front = lone.opening ++ middle ∧ lone.behind = middle ++ back := by
  rcases List.append_eq_append_iff.1 h with ⟨middle, hclear, hback⟩ | ⟨middle, hfront, hback⟩
  · exact Or.inl ⟨middle, hclear, by rw [hback, List.append_assoc]; rfl⟩
  · rcases middle with _ | ⟨record, middle⟩
    · exact Or.inl ⟨[], by rw [hfront, List.append_nil, List.append_nil], hback.symm⟩
    · obtain ⟨rfl, hbehind⟩ := List.cons.inj hback
      exact Or.inr ⟨middle, by rw [hfront, LoneGreeting.opening, List.append_assoc]; rfl, hbehind⟩

/-- **Wherever among the records the secret is supplied, they come to what they come to with the
    secret behind the greeting.** -/
theorem takeRecords_around_secret {front back : List Record}
    (h : front ++ back = lone.clear ++ lone.last :: lone.behind) (secret : Bytes) :
    let last := back.foldl takeRecord ((front.foldl takeRecord initial).supplySecret secret)
    let last' := lone.behind.foldl takeRecord (lone.greeted.supplySecret secret)
    last.reports = last'.reports ∧ last.done = last'.done := by
  intro last last'
  have hdone (hd : lone.greeted.done = true) : last' = lone.greeted := by
    simp only [last']
    rw [supplySecret_of_done hd, foldl_takeRecord_of_done hd]
  rcases front_or_behind lone h with ⟨middle, hclear, hback⟩ | ⟨middle, hfront, hbehind⟩
  · obtain ⟨kept, hkept, hsecret⟩ := foldl_takeRecord_supplySecret_of_clear lone hclear secret
    have hlast : last = lone.behind.foldl takeRecord (lone.greeted.rekey kept none) := by
      rw [← hkept, ← List.foldl_append, ← hback]
    rcases hd : lone.greeted.done with _ | _
    · rw [hlast, hsecret hd]
      exact (waiting_greeted lone hd).foldl_takeRecord_rekey secret lone.behind_type
        lone.suite_known_or_used
    · rw [hlast, hdone hd, foldl_takeRecord_of_done (by exact hd)]
      exact ⟨rfl, rfl⟩
  · have hlast : last = back.foldl takeRecord
        ((middle.foldl takeRecord lone.greeted).supplySecret secret) := by
      rw [LoneGreeting.greeted, ← List.foldl_append, ← hfront]
    rcases hd : lone.greeted.done with _ | _
    · have hmiddle : ∀ record ∈ middle, record.type ≠ .handshake := fun record hmem =>
        lone.behind_type record (hbehind ▸ List.mem_append_left _ hmem)
      have hsame : last = last' := by
        rw [hlast, (waiting_greeted lone hd).supplySecret_foldl_takeRecord secret hmiddle,
          ← List.foldl_append, ← hbehind]
      rw [hsame]
      exact ⟨rfl, rfl⟩
    · rw [hlast, hdone hd, foldl_takeRecord_of_done hd, supplySecret_of_done hd,
        foldl_takeRecord_of_done hd]
      exact ⟨rfl, rfl⟩

/-- A run with the secret anywhere among the chunks comes to the same. -/
theorem run_around_secret {before after : List Bytes} (h : before.flatten ++ after.flatten = bs)
    (secret : Bytes) :
    let last := initial.run (before.map .chunk ++ .secret secret :: after.map .chunk)
    let last' := lone.behind.foldl takeRecord (lone.greeted.supplySecret secret)
    last.reports = last'.reports ∧ last.done = last'.done := by
  intro last last'
  have hcut : Record.cutAll (initial.records ++ (before.flatten ++ after.flatten))
      = (lone.clear ++ lone.last :: lone.behind, .incomplete lone.rest) := by
    rw [h]
    exact lone.cutAll_eq
  obtain ⟨front, back, hrecords, hpush⟩ := push_supplySecret_push hcut secret
  have hlast : last = ((initial.push before.flatten).supplySecret secret).push after.flatten := by
    have hsettled := settled_supplySecret (settled_push initial before.flatten) secret
    rw [← run_map_chunk hsettled, ← run_map_chunk settled_initial]
    exact List.foldl_append
  rw [hlast, hpush, reports_withRecords, done_withRecords]
  exact takeRecords_around_secret lone hrecords.symm secret

end

/-! ## The whole -/

/-- **When the secret is supplied does not matter.**  As long as no greeting is read, secrets
    change at no time what was reported or whether the tap is done.  And if a stream has one
    greeting, with the encrypted records behind it, the end is the same wherever among its chunks
    a secret comes, whatever the encrypted records are. -/
theorem secret_timing_irrelevant :
    (∀ inputs : List Input, ¬Greets (Record.cutAll (stream inputs)).1 →
      ∀ front, front <+: inputs →
        (initial.run front).reports = (initial.run (front.filter Input.isChunk)).reports
          ∧ (initial.run front).done = (initial.run (front.filter Input.isChunk)).done)
    ∧ ∀ (bs : Bytes) (_ : LoneGreeting bs) (secret : Bytes)
        (before after before' after' : List Bytes),
      before.flatten ++ after.flatten = bs → before'.flatten ++ after'.flatten = bs →
      let last := initial.run (before.map .chunk ++ .secret secret :: after.map .chunk)
      let last' := initial.run (before'.map .chunk ++ .secret secret :: after'.map .chunk)
      last.reports = last'.reports ∧ last.done = last'.done := by
  constructor
  · intro inputs h front hfront
    obtain ⟨secret, hrun⟩ := run_of_not_greets h hfront
    obtain ⟨secret', hrun'⟩ := @run_of_not_greets (inputs.filter Input.isChunk)
      (front.filter Input.isChunk) (by rwa [stream_filter_isChunk]) (hfront.filter _)
    rw [hrun, hrun', stream_filter_isChunk]
    exact ⟨rfl, rfl⟩
  · intro bs lone secret before after before' after' h h' last last'
    obtain ⟨hreports, hdone⟩ := run_around_secret lone h secret
    obtain ⟨hreports', hdone'⟩ := run_around_secret lone h' secret
    exact ⟨hreports.trans hreports'.symm, hdone.trans hdone'.symm⟩

end Tap

/-! ## The hellos of a flight -/

theorem HandshakeMessage.greeting?_message {fields : ServerHello.Fields}
    (hversion : fields.version = ServerHello.tls13) :
    fields.message.greeting?
      = if fields.isRetry then none else some ⟨fields.version, fields.cipherSuite, false⟩ := by
  have hparse := @ServerHello.parse?_encode_append fields [] fun _ => rfl
  rw [List.append_nil] at hparse
  have hchoice : fields.message.choice?
      = some ⟨fields.version, fields.cipherSuite, fields.isRetry⟩ := by
    have htype : fields.message.type = 2 := rfl
    rw [choice?, if_pos htype, show ServerHello.parse? fields.message.body = _ from hparse,
      hversion]
    rfl
  rw [greeting?, hchoice]
  cases hretry : fields.isRetry <;> simp [Option.filter]

/-- The hellos of a flight have one greeting, the last. -/
theorem Flight.filterMap_greeting?_hellos (flight : Flight) :
    (flight.retries.map ServerHello.Fields.message).filterMap HandshakeMessage.greeting? = []
      ∧ flight.hellos.filterMap HandshakeMessage.greeting?
        = [⟨ServerHello.tls13, flight.suite.code, false⟩] := by
  have hretries : (flight.retries.map ServerHello.Fields.message).filterMap
      HandshakeMessage.greeting? = [] := by
    refine List.filterMap_eq_nil_iff.2 fun message hmem => ?_
    obtain ⟨fields, hfields, rfl⟩ := List.mem_map.1 hmem
    obtain ⟨hversion, hretry⟩ := flight.retry_spec fields hfields
    rw [HandshakeMessage.greeting?_message hversion, hretry, if_pos rfl]
  refine ⟨hretries, ?_⟩
  rw [Flight.hellos, List.filterMap_append, hretries, List.filterMap_cons,
    HandshakeMessage.greeting?_message flight.hello_version, flight.hello_isRetry,
    flight.hello_version, flight.hello_cipherSuite]
  rfl

/-! ## A small stream -/

namespace Flight.small

/-- The hellos of the small flight in a record each, a record of another kind between them, and
    an encrypted record that cannot be opened. -/
def greeting : List Record :=
  [⟨.handshake, (3, 3),
      (small.retries.map ServerHello.Fields.message).flatMap HandshakeMessage.encode⟩,
    ⟨.changeCipherSpec, (3, 3), [1]⟩,
    ⟨.handshake, (3, 3), small.hello.message.encode⟩,
    ⟨.applicationData, (3, 3), [0]⟩]

def loneGreeting : LoneGreeting (greeting.flatMap Record.encode) where
  clear := greeting.take 2
  last := ⟨.handshake, (3, 3), small.hello.message.encode⟩
  behind := [⟨.applicationData, (3, 3), [0]⟩]
  rest := []
  hello := ⟨ServerHello.tls13, small.suite.code, false⟩
  cutAll_eq := Record.cutAll_flatMap_encode (by simp only [greeting, List.forall_mem_cons]; decide)
  last_type := rfl
  behind_type := by simp
  clear_type := by simp [greeting]
  greetings_eq := by
    have htext : Tap.handshakeText (greeting.take 2
        ++ [⟨.handshake, (3, 3), small.hello.message.encode⟩]) = small.helloText := by
      simp [greeting, Tap.handshakeText, helloText, hellos]
    rw [htext, Tap.messages_eq, cutAll_helloText]
    exact small.filterMap_greeting?_hellos.2
  greetings_clear := by
    have htext : Tap.handshakeText (greeting.take 2)
        = (small.retries.map ServerHello.Fields.message).flatMap HandshakeMessage.encode := by
      simp [greeting, Tap.handshakeText]
    rw [htext, Tap.messages_eq, HandshakeMessage.cutAll_flatMap_encode]
    · exact small.filterMap_greeting?_hellos.1
    · exact fun message hmem => small.length_hello_lt (List.mem_append_left _ hmem)
  suite_known_or_used := Or.inl rfl

end Flight.small

namespace Tap

/-- Secrets around an alert; and the small stream in two chunks, with the secret in front of them
    and behind them. -/
theorem secret_timing_irrelevant_small :
    let alert : List Input := [.secret [1], .chunk [21, 3, 3, 0, 2, 1, 0], .secret [2]]
    let bytes := Flight.small.greeting.flatMap Record.encode
    let chunks := [bytes.take 7, bytes.drop 7]
    let early := initial.run (.secret Flight.small.secret :: chunks.map .chunk)
    let late := initial.run (chunks.map .chunk ++ [.secret Flight.small.secret])
    ((initial.run alert).reports = (initial.run (alert.filter Input.isChunk)).reports
        ∧ (initial.run alert).done = (initial.run (alert.filter Input.isChunk)).done)
      ∧ early.reports = late.reports ∧ early.done = late.done := by
  intro alert bytes chunks early late
  have hchunks : chunks.flatten = bytes := by simp [chunks]
  refine ⟨secret_timing_irrelevant.1 alert ?_ alert List.prefix_rfl,
    secret_timing_irrelevant.2 bytes Flight.small.loneGreeting Flight.small.secret
      [] chunks chunks [] hchunks (by rw [List.flatten_nil, List.append_nil, hchunks])⟩
  have hcut : Record.cutAll (stream alert) = ([⟨.alert, (3, 3), [1, 0]⟩], .incomplete []) :=
    @Record.cutAll_flatMap_encode [⟨.alert, (3, 3), [1, 0]⟩] (by decide)
  rw [hcut]
  rintro ⟨⟨message, hmem, -⟩, -⟩
  simp [HandshakeMessage.reached, Cleartext.messages, handshakeText] at hmem

end Tap

end ServedChain.Tls
