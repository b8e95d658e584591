/-
  A tap reports the certificates of a server that speaks TLS 1.3.

  * `Flight` is what such a server says up to its certificates: hellos in the clear,
    and then, under encryption, other messages and the certificates;
  * `Flight.Transmission` is a way to put it into records;
  * `takeHandshake_of_prefix`: what a tap makes of a part of the hellos;
  * `foldl_takeRecord_transmission`: what it makes of the records, with the secret
    supplied anywhere among them;
  * `reports_transmission`: what it reports in the end, whatever the chunks are.
-/
import ServedChain.Proofs.Tls.Chunking
import ServedChain.Proofs.Tls.ExtendedEntries
import ServedChain.Proofs.Tls.Holding
import ServedChain.Proofs.Tls.Sealing
import ServedChain.Proofs.Tls.ServerHello

namespace ServedChain.Tls

/-! ## Flights -/

/-- What a server that speaks TLS 1.3 says up to its certificates. -/
structure Flight where
  suite : CipherSuite
  secret : Bytes
  /-- The hellos that ask for another client hello -/
  retries : List ServerHello.Fields
  hello : ServerHello.Fields
  /-- What comes in front of the certificates under encryption -/
  others : List HandshakeMessage
  context : Bytes
  /-- The certificates with their extensions -/
  certificates : List (Bytes × Bytes)
  retry_spec : ∀ retry ∈ retries, retry.version = ServerHello.tls13 ∧ retry.isRetry = true
  hello_version : hello.version = ServerHello.tls13
  hello_isRetry : hello.isRetry = false
  hello_cipherSuite : hello.cipherSuite = suite.code
  other_type : ∀ message ∈ others, message.type ≠ HandshakeMessage.certificate
  length_other : ∀ message ∈ others, message.body.length < 1 <<< 24
  length_context : context.length < 1 <<< 8
  length_extensions : ∀ entry ∈ certificates, entry.2.length < 1 <<< 16
  length_certificates :
    (CertificateList.encodeExtended context certificates).length < 1 <<< 24

/-- The message with a hello. -/
def ServerHello.Fields.message (fields : ServerHello.Fields) : HandshakeMessage :=
  ⟨HandshakeMessage.serverHello, fields.encode⟩

namespace Flight
variable (flight : Flight)

/-- The messages in the clear. -/
def hellos : List HandshakeMessage :=
  flight.retries.map ServerHello.Fields.message ++ [flight.hello.message]

/-- The first hello. -/
def firstHello : HandshakeMessage := (flight.retries.headD flight.hello).message

/-- The message with the certificates. -/
def certificateMessage : HandshakeMessage :=
  ⟨HandshakeMessage.certificate, CertificateList.encodeExtended flight.context flight.certificates⟩

/-- The handshake in the clear. -/
def helloText : Bytes := flight.hellos.flatMap HandshakeMessage.encode

/-- The handshake under encryption. -/
def hiddenText : Bytes :=
  (flight.others ++ [flight.certificateMessage]).flatMap HandshakeMessage.encode

/-- The keys of the server's handshake. -/
def keys : TrafficKeys := TrafficKeys.ofSecret flight.suite flight.secret

/-- A way to put a flight into records. -/
structure Transmission where
  records : List Record
  /-- The records in the clear that carry the hellos -/
  plain : List Record
  /-- The pieces of the rest of the handshake -/
  pieces : List Piece
  plain_type : ∀ record ∈ plain, record.type = .handshake
  plain_text : plain.flatMap (·.fragment) = flight.helloText
  pieces_text : pieces.flatMap Piece.content = flight.hiddenText
  /-- All records but those of another kind are these, in order -/
  order : records.filter (·.type ≠ .changeCipherSpec)
    = plain ++ Piece.toRecords flight.suite flight.secret 0 pieces
  /-- Those of the other kind come when the first hello is complete -/
  change_after : ∀ front record back, records = front ++ record :: back →
    record.type = .changeCipherSpec → flight.firstHello.encode <+: Tap.handshakeText front
  length_fragment : ∀ record ∈ records, record.fragment.length ≤ Record.maxLength

/-- The bytes of a transmission. -/
def Transmission.bytes {flight : Flight} (transmission : flight.Transmission) : Bytes :=
  transmission.records.flatMap Record.encode

end Flight

/-! ## Encodings -/

theorem ServerHello.Fields.length_encode_lt (fields : ServerHello.Fields) :
    fields.encode.length < 1 <<< 24 := by
  have hblock : fields.block.length < 2 + 1 <<< 16 := by
    unfold block
    split
    · exact Nat.succ_pos _
    · next list hlist =>
      have hlength := fields.length_extensions list hlist
      simp only [List.length_append, Bytes.length_ofNat]
      omega
  have hrandom := fields.length_random
  have hsession := fields.length_sessionId
  simp only [encode, List.length_append, Bytes.length_ofNat, List.length_singleton]
  omega

theorem HandshakeMessage.cutAll_flatMap_encode {messages : List HandshakeMessage}
    (h : ∀ message ∈ messages, message.body.length < 1 <<< 24) :
    cutAll (messages.flatMap encode) = (messages, []) := by
  induction messages with
  | nil => exact cutAll_of_none rfl
  | cons message messages ih =>
    rw [List.flatMap_cons, cutAll_of_some (cut?_encode_append (h message List.mem_cons_self) _),
      ih fun m hm => h m (List.mem_cons_of_mem _ hm)]

theorem Record.cutAll_flatMap_encode {records : List Record}
    (h : ∀ record ∈ records, record.fragment.length ≤ maxLength) :
    cutAll (records.flatMap encode) = (records, .incomplete []) := by
  induction records with
  | nil => exact cutAll_of_incomplete rfl
  | cons record records ih =>
    rw [List.flatMap_cons, cutAll_of_whole (cut_encode_append (h record List.mem_cons_self) _),
      ih fun r hr => h r (List.mem_cons_of_mem _ hr)]

namespace Flight
variable (flight : Flight)

theorem length_hello_lt {message : HandshakeMessage} (h : message ∈ flight.hellos) :
    message.body.length < 1 <<< 24 := by
  rcases List.mem_append.1 h with h | h
  · obtain ⟨fields, -, rfl⟩ := List.mem_map.1 h
    exact fields.length_encode_lt
  · rw [List.mem_singleton.1 h]
    exact flight.hello.length_encode_lt

theorem cutAll_helloText : HandshakeMessage.cutAll flight.helloText = (flight.hellos, []) :=
  HandshakeMessage.cutAll_flatMap_encode fun _ h => flight.length_hello_lt h

theorem cutAll_hiddenText : HandshakeMessage.cutAll flight.hiddenText
    = (flight.others ++ [flight.certificateMessage], []) := by
  refine HandshakeMessage.cutAll_flatMap_encode fun message h => ?_
  rcases List.mem_append.1 h with h | h
  · exact flight.length_other message h
  · rw [List.mem_singleton.1 h]
    exact flight.length_certificates

end Flight

namespace Tap

/-! ## The hellos -/

theorem takeMessage_hello {tap : Tap} (hd : tap.done = false) {fields : ServerHello.Fields}
    (hv : fields.version = ServerHello.tls13) :
    tap.takeMessage fields.message = { tap with
      version := .tls13
      suite := if fields.isRetry then tap.suite else some fields.cipherSuite } := by
  have hparse := @ServerHello.parse?_encode_append fields [] fun _ => rfl
  rw [List.append_nil] at hparse
  rw [takeMessage_serverHello hd rfl, takeServerHello,
    show ServerHello.parse? fields.message.body = _ from hparse]
  exact if_pos hv

theorem foldl_takeMessage_retries (tap : Tap) (hd : tap.done = false)
    {retries : List ServerHello.Fields}
    (h : ∀ retry ∈ retries, retry.version = ServerHello.tls13 ∧ retry.isRetry = true) :
    ∃ version, (retries.map ServerHello.Fields.message).foldl takeMessage tap
      = { tap with version } := by
  induction retries generalizing tap with
  | nil => exact ⟨tap.version, rfl⟩
  | cons retry retries ih =>
    obtain ⟨hversion, hretry⟩ := h retry List.mem_cons_self
    have htake := takeMessage_hello hd hversion
    rw [hretry, if_pos rfl] at htake
    obtain ⟨version, hlast⟩ := ih (tap.takeMessage retry.message) (by rw [htake]; exact hd)
      fun r hr => h r (List.mem_cons_of_mem _ hr)
    refine ⟨version, ?_⟩
    rw [List.map_cons, List.foldl_cons, hlast, htake]

variable (flight : Flight)

/-- A tap that took in all hellos. -/
def greeted (code : Nat) : Tap := { initial with version := .tls13, suite := some code }

theorem foldl_takeMessage_hellos :
    flight.hellos.foldl takeMessage initial = greeted flight.suite.code := by
  obtain ⟨version, hretries⟩ := foldl_takeMessage_retries initial rfl flight.retry_spec
  rw [Flight.hellos, List.foldl_append, hretries, List.foldl_cons, List.foldl_nil,
    takeMessage_hello (by rfl) flight.hello_version, flight.hello_isRetry, if_neg (by simp),
    flight.hello_cipherSuite]
  rfl

theorem takeHandshake_helloText :
    initial.takeHandshake flight.helloText = greeted flight.suite.code := by
  rw [takeHandshake_eq, show initial.handshake = [] from rfl, List.nil_append,
    flight.cutAll_helloText, foldl_takeMessage_hellos]
  rfl

/-- What a tap makes of a part of the hellos: it knows of the cipher suite or of none. -/
theorem takeHandshake_of_prefix {text : Bytes} (h : text <+: flight.helloText) :
    ∃ version suite handshake,
      initial.takeHandshake text = { initial with version, suite, handshake }
        ∧ (suite = none ∨ suite = some flight.suite.code) := by
  obtain ⟨rest, hrest⟩ := h
  have hcut := HandshakeMessage.cutAll_append text rest
  rw [hrest, flight.cutAll_helloText] at hcut
  have hprefix : (HandshakeMessage.cutAll text).1 <+: flight.hellos :=
    ⟨_, (Prod.mk.inj hcut).1.symm⟩
  rw [takeHandshake_eq, show initial.handshake = [] from rfl, List.nil_append]
  rcases List.prefix_concat_iff.1 hprefix with hall | hretries
  · refine ⟨.tls13, some flight.suite.code, (HandshakeMessage.cutAll text).2, ?_, Or.inr rfl⟩
    rw [show (HandshakeMessage.cutAll text).1 = flight.hellos from hall,
      foldl_takeMessage_hellos]
    rfl
  · obtain ⟨retries, hsub, heq⟩ := List.prefix_map_iff.1 hretries
    obtain ⟨version, hlast⟩ := @foldl_takeMessage_retries initial rfl retries
      fun r hr => flight.retry_spec r (hsub.mem hr)
    refine ⟨version, none, (HandshakeMessage.cutAll text).2, ?_, Or.inl rfl⟩
    rw [heq, hlast]
    rfl

theorem version_takeHandshake_of_firstHello {text : Bytes}
    (h : flight.firstHello.encode <+: text) : (initial.takeHandshake text).version = .tls13 := by
  obtain ⟨rest, rfl⟩ := h
  have hversion : (flight.retries.headD flight.hello).version = ServerHello.tls13 := by
    rcases hretries : flight.retries with _ | ⟨retry, retries⟩
    · exact flight.hello_version
    · exact (flight.retry_spec retry (by rw [hretries]; exact List.mem_cons_self)).1
  have hcut := @HandshakeMessage.cutAll_flatMap_encode [flight.firstHello]
    fun m hm => by
      rw [List.mem_singleton.1 hm]
      exact (flight.retries.headD flight.hello).length_encode_lt
  rw [List.flatMap_singleton] at hcut
  rw [← takeHandshake_append]
  refine lasting_tls13.takeHandshake (initial.takeHandshake _) ?_ rest
  rw [takeHandshake_eq, show initial.handshake = [] from rfl, List.nil_append, hcut,
    version_withHandshake, List.foldl_cons, List.foldl_nil, Flight.firstHello,
    takeMessage_hello rfl hversion]

/-- When a secret comes with a part of the hellos, a tap has the keys or will get them. -/
theorem supplySecret_of_prefix {text : Bytes} (h : text <+: flight.helloText) :
    ∃ opener, (initial.takeHandshake text).supplySecret flight.secret
        = (initial.takeHandshake text).rekey (some flight.secret) opener
      ∧ (opener = none ∨ opener = some ⟨flight.keys, 0⟩) := by
  obtain ⟨version, suite, handshake, htext, hsuite⟩ := takeHandshake_of_prefix flight h
  rw [htext]
  rcases hsuite with rfl | rfl
  · exact ⟨none, supplySecret_of_no_suite _ rfl rfl rfl flight.secret, Or.inl rfl⟩
  · exact ⟨_, supplySecret_of_suite _ rfl rfl rfl rfl (CipherSuite.ofCode?_eq_some_iff.2 rfl)
      flight.secret, Or.inr rfl⟩

/-! ## The certificates -/

theorem foldl_takeMessage_others (tap : Tap) {messages : List HandshakeMessage}
    (h : ∀ message ∈ messages, message.type ≠ HandshakeMessage.certificate) :
    (messages.foldl takeMessage tap).done = tap.done
      ∧ (messages.foldl takeMessage tap).reports = tap.reports := by
  induction messages generalizing tap with
  | nil => exact ⟨rfl, rfl⟩
  | cons message messages ih =>
    have htype := h message List.mem_cons_self
    obtain ⟨hdone, hreports⟩ := ih (tap.takeMessage message)
      fun m hm => h m (List.mem_cons_of_mem _ hm)
    refine ⟨hdone.trans (done_takeMessage htype), hreports.trans ?_⟩
    grind [takeMessage, takeServerHello]

/-- What a tap makes of the handshake under encryption. -/
theorem takeHandshake_hiddenText (code : Nat) :
    ((greeted code).takeHandshake flight.hiddenText).reports
        = [.certificates (flight.certificates.map Prod.fst)]
      ∧ ((greeted code).takeHandshake flight.hiddenText).done = true := by
  obtain ⟨hdone, hreports⟩ := foldl_takeMessage_others (greeted code) flight.other_type
  have hversion := lasting_tls13.foldl_takeMessage (greeted code) rfl flight.others
  have hlist : (flight.certificates.flatMap CertificateList.encodeExtendedEntry).length
      < 1 <<< 24 := by
    have hbody := flight.length_certificates
    simp only [CertificateList.encodeExtended, List.length_append, Bytes.length_ofNat] at hbody
    omega
  have hlast : (flight.others ++ [flight.certificateMessage]).foldl takeMessage (greeted code)
      = (flight.others.foldl takeMessage (greeted code)).finishWith
        (.certificates (flight.certificates.map Prod.fst)) := by
    rw [List.foldl_append, List.foldl_cons, List.foldl_nil, takeMessage_certificate hdone rfl,
      hversion, ← CertificateList.parseExtended_encodeExtended flight.length_context hlist
        flight.length_extensions]
    rfl
  rw [takeHandshake_eq, show (greeted code).handshake = [] from rfl, List.nil_append,
    flight.cutAll_hiddenText, hlast, withHandshake_of_done rfl]
  exact ⟨by rw [finishWith, hreports]; rfl, rfl⟩

end Tap

/-! ## The records -/

theorem filter_type_eq {type : ContentType} (h : type ≠ .changeCipherSpec) (records : List Record) :
    (records.filter (·.type ≠ .changeCipherSpec)).filter (·.type = type)
      = records.filter (·.type = type) := by
  rw [List.filter_filter]
  refine List.filter_congr fun record _ => ?_
  by_cases htype : record.type = type
  · simp [htype, h]
  · simp [htype]

/-- A transmission consists of records in the clear and hidden ones behind them. -/
theorem Flight.Transmission.exists_clear_hidden {flight : Flight}
    (transmission : flight.Transmission) :
    ∃ clear rest, transmission.records = clear ++ rest
      ∧ (∀ record ∈ clear, record.type = .handshake ∨ record.type = .changeCipherSpec)
      ∧ Tap.handshakeText clear = flight.helloText
      ∧ (∀ record ∈ rest, Tap.IsHidden record)
      ∧ Tap.hidden rest = Piece.toRecords flight.suite flight.secret 0 transmission.pieces := by
  obtain ⟨clear, rest, hsplit, hclear, hrest⟩ := List.filter_eq_append_iff.1 transmission.order
  have hmem : ∀ {records : List Record} {record : Record}, record ∈ records →
      record.type ≠ .changeCipherSpec →
      record ∈ records.filter (·.type ≠ .changeCipherSpec) :=
    fun hmem htype => List.mem_filter.2 ⟨hmem, by simpa using htype⟩
  refine ⟨clear, rest, hsplit, fun record hrecord => ?_, ?_, fun record hrecord => ?_, ?_⟩
  · by_cases htype : record.type = .changeCipherSpec
    · exact Or.inr htype
    · exact Or.inl (transmission.plain_type record (hclear ▸ hmem hrecord htype))
  · rw [Tap.handshakeText, ← filter_type_eq (by decide), hclear, ← transmission.plain_text,
      List.filter_eq_self.2 fun r hr => by simpa using transmission.plain_type r hr]
  · by_cases htype : record.type = .changeCipherSpec
    · exact Or.inr htype
    · exact Or.inl (Piece.type_of_mem_toRecords (hrest ▸ hmem hrecord htype))
  · rw [Tap.hidden, ← filter_type_eq (by decide), hrest,
      List.filter_eq_self.2 fun r hr => by simpa using Piece.type_of_mem_toRecords hr]

namespace Tap

section
variable {flight : Flight} (transmission : flight.Transmission)

/-- Records in the clear are taken in like the hellos that they carry, also in the middle of a
    transmission. -/
theorem foldl_takeRecord_clear (secret : Option Bytes) (opener : Option Opener)
    (front middle back : List Record) (h : transmission.records = front ++ middle ++ back)
    (hmiddle : ∀ record ∈ middle, record.type = .handshake ∨ record.type = .changeCipherSpec) :
    middle.foldl takeRecord ((initial.takeHandshake (handshakeText front)).rekey secret opener)
      = (initial.takeHandshake (handshakeText (front ++ middle))).rekey secret opener := by
  have ha : ((initial.takeHandshake (handshakeText front)).rekey secret opener).Assembled := by
    rw [Assembled, takeHandshake_rekey, assembled_takeHandshake]
  rw [foldl_takeRecord_handshake ha, takeHandshake_rekey, takeHandshake_append,
    ← handshakeText_append]
  intro before record after heq
  rcases hmiddle record (by rw [heq]; exact List.mem_append_right _ List.mem_cons_self)
    with htype | htype
  · exact Or.inl htype
  · refine Or.inr (Or.inr ⟨?_, htype⟩)
    rw [takeHandshake_rekey, takeHandshake_append, ← handshakeText_append]
    refine version_takeHandshake_of_firstHello flight
      (transmission.change_after (front ++ before) record (after ++ back) ?_ htype)
    rw [h, heq]
    simp only [List.append_assoc, List.cons_append]

theorem foldl_takeRecord_initial_clear (front back : List Record)
    (h : transmission.records = front ++ back)
    (hfront : ∀ record ∈ front, record.type = .handshake ∨ record.type = .changeCipherSpec) :
    front.foldl takeRecord initial = initial.takeHandshake (handshakeText front) := by
  have hclear := foldl_takeRecord_clear transmission none none [] front back (by simpa using h)
    hfront
  have hnil : initial.takeHandshake (handshakeText []) = initial :=
    assembled_of_handshake_eq_nil initial rfl
  rw [hnil, List.nil_append, ← takeHandshake_rekey] at hclear
  exact hclear

theorem foldl_takeRecord_hidden {opener : Option Opener}
    (ho : opener = none ∨ opener = some ⟨flight.keys, 0⟩) {back : List Record}
    (h : ∀ record ∈ back, IsHidden record)
    (hback : hidden back = Piece.toRecords flight.suite flight.secret 0 transmission.pieces) :
    ∃ last, back.foldl takeRecord
        ((greeted flight.suite.code).rekey (some flight.secret) opener)
      = ((greeted flight.suite.code).takeHandshake flight.hiddenText).rekey (some flight.secret)
        (some last) := by
  have hne : hidden back ≠ [] := by
    intro hnil
    have hpieces : transmission.pieces = [] := by
      rcases hpieces : transmission.pieces with _ | ⟨piece, pieces⟩
      · rfl
      · rw [hnil, hpieces] at hback; cases hback
    have htext := transmission.pieces_text
    rw [hpieces, Flight.hiddenText, List.flatMap_append] at htext
    exact absurd (congrArg List.length htext)
      (by simp [HandshakeMessage.encode])
  have hkeys : back.foldl takeRecord
        ((greeted flight.suite.code).rekey (some flight.secret) opener)
      = back.foldl takeRecord
        ((greeted flight.suite.code).rekey (some flight.secret) (some ⟨flight.keys, 0⟩)) := by
    rcases ho with rfl | rfl
    · exact foldl_takeRecord_of_suite rfl rfl rfl rfl rfl (CipherSuite.ofCode?_eq_some_iff.2 rfl) h
        hne
    · rfl
  obtain ⟨last, hlast⟩ := foldl_openRecord_toRecords
    (assembled_of_handshake_eq_nil (greeted flight.suite.code) rfl) (some flight.secret)
    flight.suite flight.secret 0 transmission.pieces
  refine ⟨last, ?_⟩
  rw [hkeys, foldl_takeRecord_of_opening ⟨rfl, rfl, rfl⟩ h, hback, Flight.keys, hlast,
    transmission.pieces_text]

/-- **A transmission comes to the handshake that it carries**, wherever among the records the
    secret is supplied. -/
theorem foldl_takeRecord_transmission {front back : List Record}
    (h : transmission.records = front ++ back) :
    ∃ last, back.foldl takeRecord ((front.foldl takeRecord initial).supplySecret flight.secret)
      = ((greeted flight.suite.code).takeHandshake flight.hiddenText).rekey (some flight.secret)
        (some last) := by
  obtain ⟨clear, rest, hsplit, hclearType, hclearText, hrestHidden, hhidden⟩ :=
    transmission.exists_clear_hidden
  rw [h] at hsplit
  rcases List.append_eq_append_iff.1 hsplit with ⟨middle, rfl, rfl⟩ | ⟨middle, rfl, rfl⟩
  · -- The secret comes before the last hello is complete, or with it
    have hfront := foldl_takeRecord_initial_clear transmission front (middle ++ rest) h
      fun r hr => hclearType r (List.mem_append_left _ hr)
    have hprefix : handshakeText front <+: flight.helloText := by
      rw [← hclearText, handshakeText_append]
      exact List.prefix_append _ _
    obtain ⟨opener, hsupply, hopener⟩ := supplySecret_of_prefix flight hprefix
    have hmiddle := foldl_takeRecord_clear transmission (some flight.secret) opener
      front middle rest (by rw [h, List.append_assoc])
      fun r hr => hclearType r (List.mem_append_right _ hr)
    rw [hfront, hsupply, List.foldl_append, hmiddle, hclearText, takeHandshake_helloText]
    exact foldl_takeRecord_hidden transmission hopener hrestHidden hhidden
  · -- It comes behind the hellos: the records up to there could have come later as well
    have hfront := foldl_takeRecord_initial_clear transmission clear (middle ++ back)
      (by rw [h, List.append_assoc]) hclearType
    have hlate := supplySecret_foldl_takeRecord (greeted flight.suite.code) rfl rfl rfl rfl
      rfl flight.secret fun r hr => hrestHidden r (List.mem_append_left _ hr)
    have hsupply := supplySecret_of_suite (greeted flight.suite.code) rfl rfl rfl rfl
      (CipherSuite.ofCode?_eq_some_iff.2 rfl) flight.secret
    rw [List.foldl_append, hfront, hclearText, takeHandshake_helloText, hlate, ← List.foldl_append,
      hsupply]
    exact foldl_takeRecord_hidden transmission (Or.inr rfl) hrestHidden hhidden

/-! ## The whole -/

/-- **A tap reports the certificates of a server that speaks TLS 1.3, once and without a failure.**
    It does so for every cipher suite and secret, every split of the messages over records and of
    the records over chunks, and whenever the secret is supplied. -/
theorem reports_transmission (before after : List Bytes)
    (h : before.flatten ++ after.flatten = transmission.bytes) :
    let tap := initial.run
      (before.map .chunk ++ .secret flight.secret :: after.map .chunk)
    tap.reports = [.certificates (flight.certificates.map Prod.fst)] ∧ tap.done = true := by
  intro tap
  have hcut : Record.cutAll (initial.records ++ (before.flatten ++ after.flatten))
      = (transmission.records, .incomplete []) := by
    rw [h]
    exact Record.cutAll_flatMap_encode transmission.length_fragment
  obtain ⟨front, back, hrecords, hpush⟩ := push_supplySecret_push hcut flight.secret
  obtain ⟨last, hlast⟩ := foldl_takeRecord_transmission transmission hrecords
  obtain ⟨hreports, hdone⟩ := takeHandshake_hiddenText flight flight.suite.code
  have htap : tap = ((initial.push before.flatten).supplySecret flight.secret).push
      after.flatten := by
    have hsettled := settled_supplySecret (settled_push initial before.flatten) flight.secret
    rw [← run_map_chunk hsettled, ← run_map_chunk settled_initial]
    exact List.foldl_append
  rw [htap, hpush, hlast, reports_withRecords, done_withRecords]
  exact ⟨hreports, hdone⟩

end

end Tap

/-! ## A small flight -/

/-- A hello for TLS 1.3 with a given random value. -/
def ServerHello.Fields.small (random : Bytes) (h : random.length = 32) : ServerHello.Fields where
  legacyVersion := 0x0303
  random := random
  sessionId := [7]
  cipherSuite := CipherSuite.chaCha20Poly1305Sha256.code
  compression := 0
  extensions := some [(ServerHello.supportedVersions, [0x03, 0x04])]
  legacyVersion_lt := by decide
  length_random := h
  length_sessionId := by decide
  cipherSuite_lt := by decide
  extension_lt := by rintro _ ⟨⟩; decide
  length_extensions := by rintro _ ⟨⟩; decide

/-- A hello that asks for another client hello, a second one, and two certificates. -/
def Flight.small : Flight where
  suite := .chaCha20Poly1305Sha256
  secret := List.replicate 32 1
  retries := [.small ServerHello.retryRandom rfl]
  hello := .small (List.replicate 32 2) rfl
  others := [⟨8, [0, 0]⟩]
  context := []
  certificates := [([5, 6], []), ([7], [0])]
  retry_spec := by decide
  hello_version := by decide
  hello_isRetry := by decide
  hello_cipherSuite := rfl
  other_type := by decide
  length_other := by decide
  length_context := by decide
  length_extensions := by decide
  length_certificates := by decide

namespace Flight.small

/-- Both hellos. -/
def plain : Record := ⟨.handshake, (3, 3), Flight.small.helloText⟩

/-- A record of another kind. -/
def change : Record := ⟨.changeCipherSpec, (3, 3), [1]⟩

/-- A piece that ends within the certificates, an empty one, and what is left. -/
def pieces : List Piece := [⟨(3, 3), Flight.small.hiddenText.take 9, 0⟩, ⟨(3, 3), [], 2⟩,
  ⟨(3, 3), Flight.small.hiddenText.drop 9, 4⟩]

/-- The hellos in one record, the rest in three, and records of another kind behind the hellos and
    behind the first piece. -/
def transmission : Flight.small.Transmission where
  records := [plain, change]
    ++ (Piece.toRecords Flight.small.suite Flight.small.secret 0 pieces).take 1 ++ [change]
    ++ (Piece.toRecords Flight.small.suite Flight.small.secret 0 pieces).drop 1
  plain := [plain]
  pieces := pieces
  plain_type := by simp [plain]
  plain_text := by simp [plain]
  pieces_text := by simp [pieces]
  order := rfl
  change_after := by
    -- The first record holds both hellos
    intro front record back h htype
    match front with
    | [] => cases h; cases htype
    | first :: front =>
      obtain rfl : plain = first := (List.cons.inj h).1
      refine List.IsPrefix.trans ?_ (List.prefix_append Flight.small.helloText _)
      exact ⟨ServerHello.Fields.message (.small (List.replicate 32 2) rfl) |>.encode, by decide⟩
  length_fragment := by
    intro record h
    simp only [pieces, Piece.toRecords, List.take_succ_cons, List.take_zero, List.drop_succ_cons,
      List.drop_zero, List.cons_append, List.nil_append, List.mem_cons, List.not_mem_nil,
      or_false] at h
    rcases h with rfl | rfl | rfl | rfl | rfl | rfl
    · decide
    · decide
    · exact Nat.le_trans (Nat.le_of_eq (Piece.length_fragment ..)) (by decide)
    · decide
    · exact Nat.le_trans (Nat.le_of_eq (Piece.length_fragment ..)) (by decide)
    · exact Nat.le_trans (Nat.le_of_eq (Piece.length_fragment ..)) (by decide)

end Flight.small

namespace Tap

/-- The small flight in four chunks, one of them empty.  The secret comes when one sealed record is
    held already. -/
theorem reports_transmission_small :
    let early := (Flight.small.transmission.records.take 3).flatMap Record.encode
    let before := [early.take 7, [], early.drop 7]
    let after := [(Flight.small.transmission.records.drop 3).flatMap Record.encode]
    before.flatten ++ after.flatten = Flight.small.transmission.bytes
      ∧ (initial.run (before.map .chunk)).held.length = 1
      ∧ (initial.run (before.map .chunk ++ .secret Flight.small.secret
          :: after.map .chunk)).reports = [.certificates [[5, 6], [7]]] := by
  intro early before after
  have hearly : before.flatten = early := by simp [before]
  have hbytes : before.flatten ++ after.flatten = Flight.small.transmission.bytes := by
    rw [hearly]
    simp only [early, after, List.flatten_cons, List.flatten_nil, List.append_nil]
    rw [← List.flatMap_append, List.take_append_drop, Flight.Transmission.bytes]
  refine ⟨hbytes, ?_, (reports_transmission Flight.small.transmission _ _ hbytes).1⟩
  -- The first record greets the tap, and the third one waits for the secret
  have hcut : Record.cutAll (initial.records ++ early)
      = (Flight.small.transmission.records.take 3, .incomplete []) :=
    Record.cutAll_flatMap_encode fun record hmem =>
      Flight.small.transmission.length_fragment record (List.mem_of_mem_take hmem)
  have hgreeted : initial.takeRecord Flight.small.plain = greeted Flight.small.suite.code :=
    takeHandshake_helloText Flight.small
  have hrecords : Flight.small.transmission.records.take 3 = [Flight.small.plain,
      Flight.small.change, Piece.toRecord Flight.small.suite Flight.small.secret 0
        ⟨(3, 3), Flight.small.hiddenText.take 9, 0⟩] := rfl
  rw [run_map_chunk settled_initial, hearly, push_eq_takeAll, hcut, hrecords]
  simp only [takeAll, List.foldl_cons, List.foldl_nil, hgreeted]
  rfl

end Tap

end ServedChain.Tls
