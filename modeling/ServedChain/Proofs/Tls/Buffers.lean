/-
  What a tap holds between inputs: beginnings only, and no record that it could open.

  * `Record.Unfinished` and `HandshakeMessage.Unfinished`: the beginning of a record and
    that of a message, by their bytes; `cut_eq_incomplete_iff` and `cut?_eq_none_iff`:
    nothing can be cut off exactly from these;
  * `Orderly` is what holds of a tap between two steps, and `Consistent` what is left of
    it while a record waits that could be opened (`Consistent.openHeld`);
  * `Orderly.run`: every step keeps it, hence every run;
  * `holds_beginnings_only` puts this together.
-/
import ServedChain.Proofs.Tls.Cleartext
import ServedChain.Proofs.Tls.Ending
import ServedChain.Proofs.Tls.Flight

namespace ServedChain.Tls

/-! ## Beginnings -/

/-- The beginning of a record: a header that can be one and fewer bytes behind it than it says, or
    fewer bytes than a header has. -/
def Record.Unfinished : Bytes → Prop
  | type :: _ :: _ :: l :: l' :: rest =>
    20 ≤ type ∧ type ≤ 23 ∧ 256 * l.toNat + l'.toNat ≤ 18432
      ∧ rest.length < 256 * l.toNat + l'.toNat
  | _ => True

/-- The beginning of a handshake message: a header and fewer bytes behind it than it says, or fewer
    bytes than a header has. -/
def HandshakeMessage.Unfinished : Bytes → Prop
  | _ :: a :: b :: c :: rest => rest.length < 65536 * a.toNat + 256 * b.toNat + c.toNat
  | _ => True

/-- A byte string is incomplete exactly if it is the beginning of a record. -/
theorem Record.cut_eq_incomplete_iff {bs : Bytes} : cut bs = .incomplete ↔ Unfinished bs := by
  match bs with
  | [] | [_] | [_, _] | [_, _, _] | [_, _, _, _] => exact iff_of_true rfl trivial
  | type :: v :: v' :: l :: l' :: rest =>
    have hfits : ¬(type < 20 ∨ 23 < type ∨ 18432 < 256 * l.toNat + l'.toNat)
        ↔ 20 ≤ type ∧ type ≤ 23 ∧ 256 * l.toNat + l'.toNat ≤ 18432 := by
      simp only [not_or, UInt8.not_lt, Nat.not_lt]
    by_cases hheader : type < 20 ∨ 23 < type ∨ 18432 < 256 * l.toNat + l'.toNat
    · rw [Tap.cut_of_header_malformed hheader]
      refine iff_of_false Front.noConfusion ?_
      rintro ⟨hlow, hhigh, hlong, -⟩
      exact hfits.2 ⟨hlow, hhigh, hlong⟩ hheader
    · obtain ⟨hlow, hhigh, hlong⟩ := hfits.1 hheader
      by_cases hshort : rest.length < 256 * l.toNat + l'.toNat
      · exact iff_of_true (Tap.cut_of_fragment_incomplete hheader hshort)
          ⟨hlow, hhigh, hlong, hshort⟩
      · obtain ⟨_, -, hcut⟩ := @Tap.cut_of_fragment_complete type v v' l l' rest hheader hshort
        rw [hcut]
        refine iff_of_false Front.noConfusion ?_
        rintro ⟨-, -, -, h⟩
        exact hshort h

theorem HandshakeMessage.cut?_eq_none_iff {bs : Bytes} : cut? bs = none ↔ Unfinished bs := by
  match bs with
  | [] | [_] | [_, _] | [_, _, _] => exact iff_of_true rfl trivial
  | type :: a :: b :: c :: rest =>
    rw [cut?_cons, Option.map_eq_none_iff, Bytes.cut?_eq_none_iff]
    rfl

theorem Record.Unfinished.length_lt {bs : Bytes} (h : Unfinished bs) : bs.length < 5 + 18432 := by
  match bs, h with
  | [], _ | [_], _ | [_, _], _ | [_, _, _], _ | [_, _, _, _], _ => simp
  | _ :: _ :: _ :: l :: l' :: rest, ⟨_, _, hlong, hshort⟩ =>
    simp only [List.length_cons]
    omega

theorem HandshakeMessage.Unfinished.length_lt {bs : Bytes} (h : Unfinished bs) :
    bs.length < 4 + 1 <<< 24 := by
  match bs, h with
  | [], _ | [_], _ | [_, _], _ | [_, _, _], _ => simp
  | _ :: a :: b :: c :: rest, hshort =>
    have ha := a.toNat_lt
    have hb := b.toNat_lt
    have hc := c.toNat_lt
    rw [Unfinished] at hshort
    simp only [List.length_cons]
    omega

namespace Tap

/-! ## What holds between steps -/

/-- The tap holds the beginning of a message, has keys only of a secret and a cipher suite, and
    holds encrypted records only of a server that speaks TLS 1.3. -/
structure Consistent (tap : Tap) : Prop where
  handshake : HandshakeMessage.Unfinished tap.handshake
  keys : tap.opener.isSome → tap.secret.isSome ∧ tap.suite.isSome
  tls12 : tap.version = .tls12 → tap.held = [] ∧ tap.suite = none

/-- Besides, it holds no record that it could open. -/
structure Orderly (tap : Tap) : Prop extends Consistent tap where
  opened : tap.opener.isSome → tap.held = []

theorem orderly_initial : initial.Orderly where
  handshake := trivial
  keys h := by cases h
  tls12 _ := ⟨rfl, rfl⟩
  opened h := by cases h

section
variable {tap : Tap}

theorem Consistent.finish (h : tap.Consistent) : tap.finish.Orderly where
  handshake := trivial
  keys := h.keys
  tls12 hv := ⟨rfl, (h.tls12 hv).2⟩
  opened _ := rfl

theorem Consistent.finishWith (h : tap.Consistent) (report : Report) :
    (tap.finishWith report).Orderly := by
  obtain ⟨⟨hhandshake, hkeys, htls12⟩, hopened⟩ := h.finish
  exact ⟨⟨hhandshake, hkeys, htls12⟩, hopened⟩

/-! ## Messages -/

theorem Orderly.takeServerHello (h : tap.Orderly) (body : Bytes) :
    (tap.takeServerHello body).Orderly := by
  unfold Tap.takeServerHello
  split
  · exact h
  · next hello _ =>
    split
    · refine ⟨⟨h.handshake, ?_, fun hv => Version.noConfusion hv⟩, h.opened⟩
      intro ho
      refine ⟨(h.keys ho).1, ?_⟩
      show (if hello.isRetry then tap.suite else some hello.cipherSuite).isSome
      split
      · exact (h.keys ho).2
      · rfl
    · exact h

theorem Orderly.takeMessage (h : tap.Orderly) (message : HandshakeMessage) :
    (tap.takeMessage message).Orderly := by
  unfold Tap.takeMessage
  split
  · exact h
  · split
    · exact h.takeServerHello message.body
    · split
      · exact h.finishWith _
      · exact h

theorem Orderly.takeHandshake (h : tap.Orderly) (fragment : Bytes) :
    (tap.takeHandshake fragment).Orderly := by
  have hmessages : ((HandshakeMessage.cutAll (tap.handshake ++ fragment)).1.foldl Tap.takeMessage
      tap).Orderly :=
    List.foldlRecOn _ _ h fun _ h message _ => h.takeMessage message
  have hrest := HandshakeMessage.cut?_eq_none_iff.1
    (HandshakeMessage.cut?_cutAll (tap.handshake ++ fragment))
  simp only [Tap.takeHandshake]
  split
  · exact hmessages
  · exact ⟨⟨hrest, hmessages.keys, hmessages.tls12⟩, hmessages.opened⟩

/-! ## Encrypted records -/

theorem Orderly.takeInner (h : tap.Orderly) (inner : InnerText) : (tap.takeInner inner).Orderly := by
  unfold Tap.takeInner
  split
  · exact h.takeHandshake inner.content
  · exact h.finish
  · exact h

theorem Orderly.openRecord (h : tap.Orderly) (record : Record) :
    (tap.openRecord record).Orderly := by
  simp only [Tap.openRecord]
  split
  · exact h
  · split
    · exact h
    · next opener hopener =>
      have hsome : tap.opener.isSome := by rw [hopener]; rfl
      have hnext : ({ tap with
          opener := some (opener.next record.header record.fragment).2 } : Tap).Orderly :=
        ⟨⟨h.handshake, fun _ => h.keys hsome, h.tls12⟩, fun _ => h.opened hsome⟩
      split
      · exact hnext.finishWith _
      · exact hnext.takeInner _

theorem Consistent.withOpener (h : tap.Consistent) : tap.withOpener.Consistent := by
  unfold Tap.withOpener
  split
  · next secret code _ hsecret hsuite =>
    split
    · exact (h.finishWith _).toConsistent
    · refine ⟨h.handshake, fun _ => ?_, h.tls12⟩
      rw [hsecret, hsuite]
      exact ⟨rfl, rfl⟩
  · exact h

/-- An attempt to open what is held leaves nothing that could be opened. -/
theorem Consistent.openHeld (h : tap.Consistent) : tap.openHeld.Orderly := by
  have hopener := h.withOpener
  simp only [Tap.openHeld]
  split
  · have hnone : ({ tap.withOpener with held := [] } : Tap).Orderly :=
      ⟨⟨hopener.handshake, hopener.keys, fun hv => ⟨rfl, (hopener.tls12 hv).2⟩⟩, fun _ => rfl⟩
    exact List.foldlRecOn _ _ hnone fun _ h record _ => h.openRecord record
  · next hnone => exact ⟨hopener, fun hsome => absurd hsome hnone⟩

/-! ## Inputs -/

theorem Orderly.takeRecord (h : tap.Orderly) (record : Record) :
    (tap.takeRecord record).Orderly := by
  unfold Tap.takeRecord
  split
  · exact h
  · split
    · exact h.finish
    · exact h.finish
    · next hv _ =>
      -- The record may be one that can be opened, so up to `openHeld` the tap is not orderly
      have hheld : ({ tap with held := tap.held ++ [record] } : Tap).Consistent :=
        ⟨h.handshake, h.keys, fun hv' => by rw [hv] at hv'; cases hv'⟩
      exact hheld.openHeld
    · exact h.takeHandshake record.fragment
    · exact h
    · exact h
    · exact h

theorem Orderly.withRecords (h : tap.Orderly) (records : Bytes) :
    (tap.withRecords records).Orderly := by
  unfold Tap.withRecords
  split
  · exact h
  · exact ⟨⟨h.handshake, h.keys, h.tls12⟩, h.opened⟩

theorem Orderly.push (h : tap.Orderly) (chunk : Bytes) : (tap.push chunk).Orderly := by
  have hrecords : ((Record.cutAll (tap.records ++ chunk)).1.foldl Tap.takeRecord tap).Orderly :=
    List.foldlRecOn _ _ h fun _ h record _ => h.takeRecord record
  rw [push_eq_takeAll]
  simp only [takeAll]
  split
  · split
    · exact hrecords
    · exact hrecords.finish
  · exact hrecords.withRecords _

theorem Orderly.supplySecret (h : tap.Orderly) (secret : Bytes) :
    (tap.supplySecret secret).Orderly := by
  unfold Tap.supplySecret
  split
  · exact h
  · have hsecret : ({ tap with secret := some secret } : Tap).Consistent :=
      ⟨h.handshake, fun ho => ⟨rfl, (h.keys ho).2⟩, h.tls12⟩
    exact hsecret.openHeld

theorem Orderly.take (h : tap.Orderly) (input : Input) : (tap.take input).Orderly := by
  cases input with
  | chunk bytes => exact h.push bytes
  | secret secret => exact h.supplySecret secret

theorem Orderly.run (h : tap.Orderly) (inputs : List Input) : (tap.run inputs).Orderly :=
  List.foldlRecOn _ _ h fun _ h input _ => h.take input

end

/-! ## Between inputs -/

/-- What is left of the records is the beginning of one, also if the tap is done. -/
theorem unfinished_records_run (inputs : List Input) :
    Record.Unfinished (initial.run inputs).records := by
  rcases settled_run settled_initial inputs with hd | hcut
  · have htidy := (changes_run tidy_initial inputs).tidy tidy_initial
    rw [(htidy.empty hd).1]
    trivial
  · exact Record.cut_eq_incomplete_iff.1 hcut

/-- However much a server sends, a bounded part of it waits to be completed. -/
theorem length_run_lt (inputs : List Input) :
    (initial.run inputs).records.length < 5 + 18432
      ∧ (initial.run inputs).handshake.length < 4 + 1 <<< 24 :=
  ⟨(unfinished_records_run inputs).length_lt, (orderly_initial.run inputs).handshake.length_lt⟩

/-- **Between inputs a tap holds beginnings only, and no record that it could open.**  Whatever it
    took in, what it keeps of the records and of the handshake is the beginning of a record and of
    a message.  If it opens records then it knows the secret and the cipher suite and holds no
    encrypted record.  As long as it takes the version to be TLS 1.2 it neither holds an encrypted
    record nor knows a cipher suite nor opens records, and from TLS 1.3 it never goes back. -/
theorem holds_beginnings_only (inputs : List Input) :
    let tap := initial.run inputs
    Record.Unfinished tap.records
      ∧ HandshakeMessage.Unfinished tap.handshake
      ∧ (tap.opener.isSome → tap.held = [] ∧ tap.secret.isSome ∧ tap.suite.isSome)
      ∧ (tap.version = .tls12 → tap.held = [] ∧ tap.suite = none ∧ tap.opener = none)
      ∧ (tap.version = .tls13 → ∀ more, (tap.run more).version = .tls13) := by
  intro tap
  have horderly : tap.Orderly := orderly_initial.run inputs
  refine ⟨unfinished_records_run inputs, horderly.handshake, ?_, ?_, ?_⟩
  · intro ho
    exact ⟨horderly.opened ho, horderly.keys ho⟩
  · intro hv
    obtain ⟨hheld, hsuite⟩ := horderly.tls12 hv
    refine ⟨hheld, hsuite, Option.not_isSome_iff_eq_none.1 ?_⟩
    intro ho
    have hknown := (horderly.keys ho).2
    rw [hsuite] at hknown
    cases hknown
  · intro hv more
    exact lasting_tls13.run tap hv more

/-- A hello with the beginning of a message behind it and that of a record behind both, a secret,
    and more of the record. -/
theorem holds_beginnings_only_greeted :
    let hello := Record.encode ⟨.handshake, (3, 3), Flight.small.hello.message.encode ++ [11, 0, 1]⟩
    let early := initial.run [.secret [7], .chunk (hello.take 9)]
    let tap := initial.run [.chunk (hello ++ [23, 3]), .secret Flight.small.secret,
      .chunk [3, 0, 9, 42]]
    (early.version = .tls12 ∧ early.held = [] ∧ early.suite = none ∧ early.opener = none)
      ∧ tap.done = false
      ∧ (tap.records = [23, 3, 3, 0, 9, 42] ∧ Record.Unfinished tap.records)
      ∧ (tap.handshake = [11, 0, 1] ∧ HandshakeMessage.Unfinished tap.handshake)
      ∧ (tap.opener.isSome ∧ tap.held = [] ∧ tap.secret.isSome ∧ tap.suite.isSome)
      ∧ (tap.version = .tls13 ∧ ∀ more, (tap.run more).version = .tls13) := by
  intro hello early tap
  have htls12 : early.version = .tls12 := by decide +kernel
  have hd : tap.done = false := by decide +kernel
  have hrecords : tap.records = [23, 3, 3, 0, 9, 42] := by decide +kernel
  have hhandshake : tap.handshake = [11, 0, 1] := by decide +kernel
  have hopener : tap.opener.isSome := by decide +kernel
  have htls13 : tap.version = .tls13 := by decide +kernel
  obtain ⟨-, -, -, hearly, -⟩ := holds_beginnings_only [.secret [7], .chunk (hello.take 9)]
  obtain ⟨hrecord, hmessage, hopened, -, hlast⟩ := holds_beginnings_only
    [.chunk (hello ++ [23, 3]), .secret Flight.small.secret, .chunk [3, 0, 9, 42]]
  exact ⟨⟨htls12, hearly htls12⟩, hd, ⟨hrecords, hrecord⟩, ⟨hhandshake, hmessage⟩,
    ⟨hopener, hopened hopener⟩, htls13, hlast htls13⟩

end Tap

end ServedChain.Tls
