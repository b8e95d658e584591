/-
  What a tap reports of a handshake in the clear.

  `Cleartext` reads a whole byte string at once, and byte by byte: its records, the
  handshake that they carry, the messages in it and the first list of certificates.

  * `records_eq`: the records are those that a tap cuts off, up to the first that
    ends a handshake in the clear;
  * `takeHandshake_initial_of_isTls12`: what a tap makes of the handshake, put together;
  * `run_eq_cleartext`: a tap comes to the same, whatever the chunks are.
-/
import ServedChain.Proofs.Tls.CertificateList
import ServedChain.Proofs.Tls.Secrets

namespace ServedChain.Tls

namespace Cleartext

/-! ## Reading at once -/

/-- Why no further record is read. -/
inductive Stop where
  /-- There are too few bytes -/
  | missing
  /-- The type or the length is not one of a record -/
  | malformed
  /-- What follows is encrypted -/
  | encrypted
  deriving DecidableEq, Repr

/-- The types and fragments of the records of a byte string, and why there are no more. -/
def records : Bytes → List (UInt8 × Bytes) × Stop
  | type :: _ :: _ :: l :: l' :: rest =>
    let length := 256 * l.toNat + l'.toNat
    if type < 20 ∨ 23 < type ∨ 18432 < length then ([], .malformed)
    else if rest.length < length then ([], .missing)
    else if type = 20 ∨ type = 23 then ([], .encrypted)
    else
      let (more, stop) := records (rest.drop length)
      ((type, rest.take length) :: more, stop)
  | _ => ([], .missing)
termination_by bs => bs.length
decreasing_by simp only [List.length_drop, List.length_cons]; omega

/-- The handshake that the records carry. -/
def handshake (bs : Bytes) : Bytes :=
  ((records bs).1.filter fun record => record.1 = 22).flatMap Prod.snd

/-- The complete messages of a handshake. -/
def messages : Bytes → List HandshakeMessage
  | type :: a :: b :: c :: rest =>
    let length := 65536 * a.toNat + 256 * b.toNat + c.toNat
    if rest.length < length then []
    else ⟨type, rest.take length⟩ :: messages (rest.drop length)
  | _ => []
termination_by bs => bs.length
decreasing_by simp only [List.length_drop, List.length_cons]; omega

/-- The first list of certificates. -/
def certificates? (bs : Bytes) : Option (List Bytes) :=
  ((messages (handshake bs)).find? fun message => message.type = 11).map fun message =>
    CertificateList.parse message.body

/-- The messages in front of the first list of certificates. -/
def reached (bs : Bytes) : List HandshakeMessage :=
  (messages (handshake bs)).takeWhile fun message => message.type ≠ 11

/-- There is nothing more to read. -/
def done (bs : Bytes) : Bool :=
  (certificates? bs).isSome || decide ((records bs).2 ≠ .missing)

end Cleartext

/-- No server that is reached chooses TLS 1.3. -/
def IsTls12 (bs : Bytes) : Prop :=
  ∀ message ∈ Cleartext.reached bs, message.type = 2 →
    ∀ hello, ServerHello.parse? message.body = some hello → hello.version ≠ 0x0304

namespace Tap

/-! ## The records -/

/-- A record that does not end a handshake in the clear. -/
def IsClear (record : Record) : Bool :=
  record.type = .handshake ∨ record.type = .alert

theorem ofCode?_eq_none_iff {n : UInt8} :
    ContentType.ofCode? n = none ↔ n < 20 ∨ 23 < n := by
  simp only [ContentType.ofCode?, List.find?_eq_none, List.mem_cons, List.not_mem_nil, or_false,
    forall_eq_or_imp, forall_eq, ContentType.code, beq_iff_eq, ← UInt8.toNat_inj,
    UInt8.lt_iff_toNat_lt, UInt8.toNat_ofNat]
  omega

section
variable {code v v' l l' : UInt8} {rest : Bytes}

theorem toNat_pair : Bytes.toNat [l, l'] = 256 * l.toNat + l'.toNat := by
  simp only [Bytes.toNat, List.foldl_cons, List.foldl_nil]
  omega

theorem cut_of_header_malformed
    (h : code < 20 ∨ 23 < code ∨ 18432 < 256 * l.toNat + l'.toNat) :
    Record.cut (code :: v :: v' :: l :: l' :: rest) = .malformed := by
  simp only [Record.cut, toNat_pair]
  split
  · rfl
  · next htype =>
    have hcode : ¬(code < 20 ∨ 23 < code) := by
      rw [← ofCode?_eq_none_iff, htype]; simp
    have hlong : Record.maxLength < 256 * l.toNat + l'.toNat :=
      (or_assoc.2 h).resolve_left hcode
    rw [if_pos hlong]

theorem type_of_header (h : ¬(code < 20 ∨ 23 < code ∨ 18432 < 256 * l.toNat + l'.toNat)) :
    ∃ type, ContentType.ofCode? code = some type := by
  rw [← Option.ne_none_iff_exists', ne_eq, ofCode?_eq_none_iff]
  exact fun hcode => h (or_assoc.1 (Or.inl hcode))

theorem cut_of_fragment_incomplete
    (h : ¬(code < 20 ∨ 23 < code ∨ 18432 < 256 * l.toNat + l'.toNat))
    (hshort : rest.length < 256 * l.toNat + l'.toNat) :
    Record.cut (code :: v :: v' :: l :: l' :: rest) = .incomplete := by
  obtain ⟨type, htype⟩ := type_of_header h
  have hmax : ¬Record.maxLength < 256 * l.toNat + l'.toNat :=
    fun hlong => h (Or.inr (Or.inr hlong))
  simp only [Record.cut, htype, toNat_pair, if_neg hmax, Bytes.cut?_eq_none_iff.2 hshort]

theorem cut_of_fragment_complete
    (h : ¬(code < 20 ∨ 23 < code ∨ 18432 < 256 * l.toNat + l'.toNat))
    (hlong : ¬rest.length < 256 * l.toNat + l'.toNat) :
    ∃ type, ContentType.code type = code
      ∧ Record.cut (code :: v :: v' :: l :: l' :: rest)
        = .whole ⟨type, (v, v'), rest.take (256 * l.toNat + l'.toNat)⟩
          (rest.drop (256 * l.toNat + l'.toNat)) := by
  obtain ⟨type, htype⟩ := type_of_header h
  have hmax : ¬Record.maxLength < 256 * l.toNat + l'.toNat :=
    fun hlong => h (Or.inr (Or.inr hlong))
  refine ⟨type, ContentType.ofCode?_eq_some_iff.1 htype, ?_⟩
  simp only [Record.cut, htype, toNat_pair, if_neg hmax, Bytes.cut?_of_le (Nat.not_lt.1 hlong)]

end

theorem isClear_eq_false_iff (type : ContentType) (version : UInt8 × UInt8) (fragment : Bytes) :
    IsClear ⟨type, version, fragment⟩ = false ↔ type.code = 20 ∨ type.code = 23 := by
  cases type <;> simp [IsClear, ContentType.code]

/-- Why no further record is read when a tap has cut off all that it can. -/
def stopOf (records : List Record) (tail : Record.Tail) : Cleartext.Stop :=
  if records.all IsClear then
    match tail with
    | .incomplete _ => .missing
    | .malformed => .malformed
  else .encrypted

/-- The records read at once are those that a tap cuts off in front of the first that ends a
    handshake in the clear. -/
theorem records_eq (bs : Bytes) :
    Cleartext.records bs
      = (((Record.cutAll bs).1.takeWhile IsClear).map fun r => (r.type.code, r.fragment),
        stopOf (Record.cutAll bs).1 (Record.cutAll bs).2) := by
  match bs with
  | code :: v :: v' :: l :: l' :: rest =>
    rw [Cleartext.records]
    simp only
    split
    · next hbad =>
      rw [Record.cutAll_of_malformed (cut_of_header_malformed hbad)]
      rfl
    · next hgood =>
      split
      · next hshort =>
        rw [Record.cutAll_of_incomplete (cut_of_fragment_incomplete hgood hshort)]
        rfl
      · next hlong =>
        obtain ⟨type, rfl, hcut⟩ := @cut_of_fragment_complete _ v v' _ _ _ hgood hlong
        have hshorter := Record.length_lt_of_cut hcut
        have hclear := isClear_eq_false_iff type (v, v')
          (rest.take (256 * l.toNat + l'.toNat))
        rw [Record.cutAll_of_whole hcut]
        split
        · next hends =>
          rw [← hclear] at hends
          simp [stopOf, hends]
        · next hends =>
          rw [← hclear, Bool.not_eq_false] at hends
          rw [records_eq (rest.drop (256 * l.toNat + l'.toNat)), List.takeWhile_cons_of_pos hends]
          simp [stopOf, hends]
  | [] | [_] | [_, _] | [_, _, _] | [_, _, _, _] =>
    rw [Record.cutAll_of_incomplete rfl]
    simp [Cleartext.records, stopOf]
termination_by bs.length

/-- The handshake read at once is the one of these records. -/
theorem handshake_eq (bs : Bytes) :
    Cleartext.handshake bs = handshakeText ((Record.cutAll bs).1.takeWhile IsClear) := by
  rw [Cleartext.handshake, records_eq, handshakeText]
  induction (Record.cutAll bs).1.takeWhile IsClear with
  | nil => rfl
  | cons record records ih =>
    obtain ⟨type, version, fragment⟩ := record
    cases type <;> simpa [List.filter_cons, ContentType.code] using ih

/-! ## The messages -/

/-- The messages read at once are those that a tap cuts off. -/
theorem messages_eq (bs : Bytes) : Cleartext.messages bs = (HandshakeMessage.cutAll bs).1 := by
  match bs with
  | type :: a :: b :: c :: rest =>
    rw [Cleartext.messages]
    split
    · next hshort =>
      have hcut : HandshakeMessage.cut? (type :: a :: b :: c :: rest) = none := by
        rw [HandshakeMessage.cut?_cons, Bytes.cut?_eq_none_iff.2 hshort, Option.map_none]
      rw [HandshakeMessage.cutAll_of_none hcut]
    · next hlong =>
      have hcut : HandshakeMessage.cut? (type :: a :: b :: c :: rest)
          = some (⟨type, rest.take (65536 * a.toNat + 256 * b.toNat + c.toNat)⟩,
            rest.drop (65536 * a.toNat + 256 * b.toNat + c.toNat)) := by
        rw [HandshakeMessage.cut?_cons, Bytes.cut?_of_le (Nat.not_lt.1 hlong), Option.map_some]
      have hshorter := HandshakeMessage.length_lt_of_cut? hcut
      rw [HandshakeMessage.cutAll_of_some hcut,
        messages_eq (rest.drop (65536 * a.toNat + 256 * b.toNat + c.toNat))]
  | [] | [_] | [_, _] | [_, _, _] =>
    rw [HandshakeMessage.cutAll_of_none rfl]
    simp [Cleartext.messages]
termination_by bs.length

/-- What messages come to, if none in front of the first list of certificates chooses TLS 1.3. -/
theorem foldl_takeMessage_of_isIdle {tap : Tap} (hd : tap.done = false) (hv : tap.version = .tls12)
    {messages : List HandshakeMessage}
    (h : ∀ message ∈ messages.takeWhile fun m => m.type ≠ 11, IsIdle message) :
    messages.foldl takeMessage tap = match messages.find? fun m => m.type = 11 with
      | some message => tap.finishWith (.certificates (CertificateList.parse message.body))
      | none => tap := by
  induction messages with
  | nil => rfl
  | cons message messages ih =>
    by_cases htype : message.type = 11
    · have htake : tap.takeMessage message
          = tap.finishWith (.certificates (CertificateList.parse message.body)) := by
        rw [takeMessage_certificate hd htype, hv]
      rw [List.foldl_cons, htake, foldl_takeMessage_of_done rfl,
        List.find?_cons_of_pos (by simpa using htype)]
    · rw [List.takeWhile_cons_of_pos (by simpa using htype)] at h
      rw [List.foldl_cons, takeMessage_of_isIdle tap (h message List.mem_cons_self),
        ih fun m hm => h m (List.mem_cons_of_mem _ hm),
        List.find?_cons_of_neg (by simpa using htype)]

theorem isIdle_of_isTls12 {bs : Bytes} (h : IsTls12 bs) :
    ∀ message ∈ Cleartext.reached bs, IsIdle message := by
  intro message hmem
  have htype := List.all_eq_true.1 List.all_takeWhile message hmem
  exact ⟨of_decide_eq_true htype, h message hmem⟩

/-- What a tap makes of the handshake, put together. -/
theorem takeHandshake_initial_of_isTls12 {bs : Bytes} (h : IsTls12 bs) :
    ∃ rest, initial.takeHandshake (Cleartext.handshake bs)
      = match Cleartext.certificates? bs with
        | some list => initial.finishWith (.certificates list)
        | none => { initial with handshake := rest } := by
  refine ⟨(HandshakeMessage.cutAll (Cleartext.handshake bs)).2, ?_⟩
  rw [takeHandshake_eq, show initial.handshake = [] from rfl, List.nil_append, ← messages_eq,
    foldl_takeMessage_of_isIdle rfl rfl (isIdle_of_isTls12 h), Cleartext.certificates?]
  cases (Cleartext.messages (Cleartext.handshake bs)).find? fun m => m.type = 11 <;> rfl

/-! ## The whole -/

theorem takeRecord_of_not_isClear {tap : Tap} (hd : tap.done = false) (hv : tap.version = .tls12)
    {record : Record} (h : IsClear record = false) : tap.takeRecord record = tap.finish := by
  obtain ⟨type, version, fragment⟩ := record
  rw [takeRecord, if_neg (by simp [hd]), hv]
  cases type <;> simp_all [IsClear]

/-- What all records come to: those in the clear to the handshake that they carry, and the first
    other one to the end. -/
theorem foldl_takeRecord_initial (records : List Record) :
    records.foldl takeRecord initial
      = (records.dropWhile IsClear).foldl takeRecord
        (initial.takeHandshake (handshakeText (records.takeWhile IsClear))) := by
  have hplain : ∀ front record back, records.takeWhile IsClear = front ++ record :: back →
      IsPlain (initial.takeHandshake (handshakeText front)).version record := by
    intro front record back heq
    have hclear := List.all_eq_true.1 List.all_takeWhile record
      (by rw [heq]; exact List.mem_append_right front List.mem_cons_self)
    simp only [IsClear, decide_eq_true_eq] at hclear
    rcases hclear with htype | htype
    · exact Or.inl htype
    · exact Or.inr (Or.inl htype)
  rw [← foldl_takeRecord_handshake (assembled_of_handshake_eq_nil initial rfl) hplain, ← List.foldl_append,
    List.takeWhile_append_dropWhile]

/-- What a tap is when all records are taken in. -/
theorem foldl_takeRecord_of_isTls12 {bs : Bytes} (h : IsTls12 bs) :
    let last := (Record.cutAll bs).1.foldl takeRecord initial
    last.reports = (Cleartext.certificates? bs).toList.map .certificates
      ∧ last.done = ((Cleartext.certificates? bs).isSome || !(Record.cutAll bs).1.all IsClear)
      ∧ last.version = .tls12 ∧ last.suite = none := by
  intro last
  obtain ⟨rest, htake⟩ := takeHandshake_initial_of_isTls12 h
  have hlast : last = _ := foldl_takeRecord_initial (Record.cutAll bs).1
  rw [← handshake_eq, htake] at hlast
  clear_value last
  generalize (Record.cutAll bs).1 = records at hlast ⊢
  generalize Cleartext.certificates? bs = certificates at hlast ⊢
  rcases certificates with _ | list
  · rcases hdrop : records.dropWhile IsClear with _ | ⟨record, more⟩
    · have hall : records.all IsClear = true := by
        rw [← List.takeWhile_append_dropWhile (p := IsClear) (l := records), hdrop, List.append_nil]
        exact List.all_takeWhile
      rw [hdrop] at hlast
      rw [hlast, hall]
      exact ⟨rfl, rfl, rfl, rfl⟩
    · have hrecord : IsClear record = false := by
        simpa [hdrop] using List.head_dropWhile_not IsClear (l := records) (by simp [hdrop])
      have hall : records.all IsClear = false := by
        refine List.all_eq_false.2 ⟨record, ?_, by simp [hrecord]⟩
        exact (List.dropWhile_sublist IsClear).subset (by rw [hdrop]; exact List.mem_cons_self)
      rw [hdrop, List.foldl_cons, takeRecord_of_not_isClear rfl rfl hrecord,
        foldl_takeRecord_of_done rfl] at hlast
      rw [hlast, hall]
      exact ⟨rfl, rfl, rfl, rfl⟩
  · rw [foldl_takeRecord_of_done rfl] at hlast
    rw [hlast]
    exact ⟨rfl, rfl, rfl, rfl⟩

theorem push_initial_of_isTls12 {bs : Bytes} (h : IsTls12 bs) :
    (initial.push bs).reports = (Cleartext.certificates? bs).toList.map .certificates
      ∧ (initial.push bs).done = Cleartext.done bs
      ∧ (initial.push bs).version = .tls12 ∧ (initial.push bs).suite = none := by
  obtain ⟨hreports, hdone, hversion, hsuite⟩ := foldl_takeRecord_of_isTls12 h
  rw [push_eq_takeAll, show initial.records = [] from rfl, List.nil_append]
  refine ⟨by rw [reports_takeAll, hreports], ?_, by rw [version_takeAll, hversion],
    by rw [suite_takeAll, hsuite]⟩
  rw [done_takeAll, hdone, Cleartext.done, records_eq]
  rcases Record.cutAll bs with ⟨records, rest | _⟩ <;> simp only [stopOf] <;>
    cases records.all IsClear <;> simp

/-! ## The version -/

theorem version_foldl_takeMessage (tap : Tap) (hd : tap.done = false)
    {messages : List HandshakeMessage} {message : HandshakeMessage}
    (hmem : message ∈ messages.takeWhile fun m => m.type ≠ 11) (htype : message.type = 2)
    {hello : ServerHello} (hparse : ServerHello.parse? message.body = some hello)
    (hversion : hello.version = 0x0304) : (messages.foldl takeMessage tap).version = .tls13 := by
  induction messages generalizing tap with
  | nil => cases hmem
  | cons first messages ih =>
    by_cases hfirst : first.type = 11
    · rw [List.takeWhile_cons_of_neg (by simpa using hfirst)] at hmem
      cases hmem
    · rw [List.takeWhile_cons_of_pos (by simpa using hfirst)] at hmem
      rcases List.mem_cons.1 hmem with rfl | hmem
      · refine lasting_tls13.foldl_takeMessage (tap.takeMessage message) ?_ messages
        rw [takeMessage_serverHello hd htype, takeServerHello, hparse]
        simp only [if_pos (show hello.version = ServerHello.tls13 from hversion)]
      · exact ih (tap.takeMessage first) (by rw [done_takeMessage hfirst, hd]) hmem

theorem version_push_of_not_isTls12 {bs : Bytes} (h : ¬IsTls12 bs) :
    (initial.push bs).version = .tls13 := by
  obtain ⟨message, hmem, htype, hello, hparse, hversion⟩ : ∃ message ∈ Cleartext.reached bs,
      message.type = 2 ∧ ∃ hello, ServerHello.parse? message.body = some hello
        ∧ hello.version = 0x0304 := by
    simpa [IsTls12] using h
  have hmessages := version_foldl_takeMessage initial rfl hmem htype hparse hversion
  rw [push_eq_takeAll, version_takeAll, show initial.records = [] from rfl, List.nil_append,
    foldl_takeRecord_initial]
  refine lasting_tls13.foldl_takeRecord (takeHandshake _ _) ?_ _
  rw [← handshake_eq, takeHandshake_eq, show initial.handshake = [] from rfl, List.nil_append,
    ← messages_eq, version_withHandshake, hmessages]

/-- A tap finds TLS 1.3 exactly if a server that is reached chooses it. -/
theorem version_run_eq_tls12_iff (inputs : List Input) :
    (initial.run inputs).version = .tls12 ↔ IsTls12 (stream inputs) := by
  constructor
  · intro hversion
    refine Classical.byContradiction fun h => ?_
    have hrun := version_run_of_push_stream settled_initial ⟨fun _ => rfl, rfl⟩
      (version_push_of_not_isTls12 h)
    rw [hrun] at hversion
    cases hversion
  · intro h
    obtain ⟨-, -, hversion, hsuite⟩ := push_initial_of_isTls12 h
    obtain ⟨secret, hlast⟩ := run_eq_push_stream settled_initial rfl hsuite
    rw [hlast]
    exact hversion

/-- **A tap of a handshake in the clear comes to what is read at once.**  Whatever the chunks are
    and whenever a secret is supplied, as long as no server that is reached chooses TLS 1.3, the
    tap reports the first list of certificates, nothing before it and nothing after it; and it is
    done exactly if there is nothing more to read.  In particular how the handshake is split over
    records does not matter. -/
theorem run_eq_cleartext (inputs : List Input) (h : IsTls12 (stream inputs)) :
    (initial.run inputs).reports
        = (Cleartext.certificates? (stream inputs)).toList.map .certificates
      ∧ (initial.run inputs).done = Cleartext.done (stream inputs)
      ∧ ∀ inputs' : List Input,
        Cleartext.handshake (stream inputs') = Cleartext.handshake (stream inputs) →
        (initial.run inputs').reports = (initial.run inputs).reports := by
  have hrun : ∀ inputs : List Input, IsTls12 (stream inputs) →
      (initial.run inputs).reports
          = (Cleartext.certificates? (stream inputs)).toList.map .certificates
        ∧ (initial.run inputs).done = Cleartext.done (stream inputs) := by
    intro inputs h
    obtain ⟨hreports, hdone, -, hsuite⟩ := push_initial_of_isTls12 h
    obtain ⟨secret, hlast⟩ := run_eq_push_stream settled_initial rfl hsuite
    rw [hlast]
    exact ⟨hreports, hdone⟩
  obtain ⟨hreports, hdone⟩ := hrun inputs h
  refine ⟨hreports, hdone, fun inputs' hsame => ?_⟩
  have h' : IsTls12 (stream inputs') := by
    rw [IsTls12, Cleartext.reached, hsame]
    exact h
  rw [(hrun inputs' h').1, hreports, Cleartext.certificates?, hsame, Cleartext.certificates?]

/-- A list of certificates over two records, with an alert between them and a secret that comes
    early. -/
theorem run_eq_cleartext_over_two_records :
    let inputs : List Input := [.chunk [22, 3, 3, 0, 5, 11, 0, 0, 7, 0], .secret [1],
      .chunk [21, 3, 3, 0, 2, 1, 0, 22, 3, 3, 0, 6, 0, 4, 0, 0, 1, 42]]
    IsTls12 (stream inputs) ∧ (initial.run inputs).reports = [.certificates [[42]]]
      ∧ (initial.run inputs).done = true := by
  intro inputs
  have hmessages : Cleartext.messages (Cleartext.handshake (stream inputs))
      = [⟨11, [0, 0, 4, 0, 0, 1, 42]⟩] := by
    simp [inputs, stream, Cleartext.handshake, Cleartext.records, Cleartext.messages]
  have hreached : IsTls12 (stream inputs) := by
    simp [IsTls12, Cleartext.reached, hmessages]
  have hcertificates : Cleartext.certificates? (stream inputs) = some [[42]] := by
    rw [Cleartext.certificates?, hmessages]
    exact congrArg some (@CertificateList.parse_encode [[42]] (by decide))
  obtain ⟨hreports, hdone, -⟩ := run_eq_cleartext inputs hreached
  exact ⟨hreached, by rw [hreports, hcertificates]; rfl, by
    rw [hdone, Cleartext.done, hcertificates]; rfl⟩

end Tap

end ServedChain.Tls
