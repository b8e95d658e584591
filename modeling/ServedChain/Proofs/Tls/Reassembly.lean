/-
  How the messages of a handshake are split over records does not matter to a tap.

  * `takeHandshake_append`: two pieces are taken in like the two in one;
  * `foldl_takeRecord_handshake`: records in the clear are taken in like the
    handshake that they carry, put together;
  * `takeMessage_of_isIdle`: messages that say nothing new change nothing.
-/
import ServedChain.Proofs.Tls.Steps

namespace ServedChain.Tls.Tap

/-! ## Keys -/

/-- The tap with another secret and another opener. -/
def rekey (tap : Tap) (secret : Option Bytes) (opener : Option Opener) : Tap :=
  { tap with secret, opener }

section
variable (tap : Tap) (secret : Option Bytes) (opener : Option Opener)

theorem takeMessage_rekey (message : HandshakeMessage) :
    (tap.rekey secret opener).takeMessage message
      = (tap.takeMessage message).rekey secret opener := by
  simp only [rekey, takeMessage, takeServerHello, finishWith, finish]
  grind

theorem takeHandshake_rekey (fragment : Bytes) :
    (tap.rekey secret opener).takeHandshake fragment
      = (tap.takeHandshake fragment).rekey secret opener := by
  have hhandshake : (tap.rekey secret opener).handshake = tap.handshake := rfl
  simp only [takeHandshake, hhandshake]
  rw [List.foldl_hom (fun t => rekey t secret opener) fun t m =>
    takeMessage_rekey t secret opener m]
  grind [rekey]

end

theorem opener_takeHandshake (tap : Tap) (fragment : Bytes) :
    (tap.takeHandshake fragment).opener = tap.opener := by
  have htake := takeHandshake_rekey tap tap.secret tap.opener fragment
  rw [show tap.rekey tap.secret tap.opener = tap from rfl] at htake
  rw [htake, rekey]

theorem supplySecret_of_no_suite (tap : Tap) (hd : tap.done = false) (ho : tap.opener = none)
    (hsuite : tap.suite = none) (secret : Bytes) :
    tap.supplySecret secret = tap.rekey (some secret) none := by
  rw [supplySecret, if_neg (by simp [hd]), openHeld_of_no_suite { tap with secret := some secret } ho hsuite,
    rekey, ← ho]

theorem supplySecret_of_suite (tap : Tap) (hd : tap.done = false) (ho : tap.opener = none)
    (hheld : tap.held = []) {code : Nat} (hsuite : tap.suite = some code) {suite : CipherSuite}
    (hcode : CipherSuite.ofCode? code = some suite) (secret : Bytes) :
    tap.supplySecret secret = tap.rekey (some secret) (some (Opener.ofSecret suite secret)) := by
  rw [supplySecret, if_neg (by simp [hd]),
    openHeld_of_suite { tap with secret := some secret } ho rfl hsuite hcode, hheld,
    List.foldl_nil, rekey, ← hheld]

/-! ## Pieces of the handshake -/

/-- The tap holding another beginning of a message, if it can hold one. -/
def withHandshake (tap : Tap) (handshake : Bytes) : Tap :=
  if tap.done then tap else { tap with handshake }

theorem withHandshake_of_done {tap : Tap} (h : tap.done = true) (handshake : Bytes) :
    tap.withHandshake handshake = tap := by
  rw [withHandshake, if_pos h]

theorem withHandshake_of_not_done {tap : Tap} (h : tap.done = false) (handshake : Bytes) :
    tap.withHandshake handshake = { tap with handshake } := by
  rw [withHandshake, h]; rfl

@[simp] theorem withHandshake_withHandshake (tap : Tap) (a b : Bytes) :
    (tap.withHandshake a).withHandshake b = tap.withHandshake b := by
  grind [withHandshake]

@[simp] theorem version_withHandshake (tap : Tap) (handshake : Bytes) :
    (tap.withHandshake handshake).version = tap.version := by
  unfold withHandshake; split <;> rfl

theorem takeMessage_withHandshake (tap : Tap) (handshake : Bytes) (message : HandshakeMessage) :
    (tap.withHandshake handshake).takeMessage message
      = (tap.takeMessage message).withHandshake handshake := by
  simp only [withHandshake, takeMessage, takeServerHello, finishWith, finish]
  grind

theorem foldl_takeMessage_withHandshake (tap : Tap) (handshake : Bytes)
    (messages : List HandshakeMessage) :
    messages.foldl takeMessage (tap.withHandshake handshake)
      = (messages.foldl takeMessage tap).withHandshake handshake :=
  List.foldl_hom (fun t => withHandshake t handshake) fun t m =>
    takeMessage_withHandshake t handshake m

/-- A piece is taken in message by message, and what is left of it is held. -/
theorem takeHandshake_eq (tap : Tap) (fragment : Bytes) :
    tap.takeHandshake fragment
      = ((HandshakeMessage.cutAll (tap.handshake ++ fragment)).1.foldl takeMessage tap).withHandshake
        (HandshakeMessage.cutAll (tap.handshake ++ fragment)).2 := rfl

/-- **Two pieces of the handshake are taken in like the two in one.** -/
theorem takeHandshake_append (tap : Tap) (a b : Bytes) :
    (tap.takeHandshake a).takeHandshake b = tap.takeHandshake (a ++ b) := by
  rcases h : tap.done with _ | _
  · have hcut := HandshakeMessage.cutAll_append (tap.handshake ++ a) b
    rw [takeHandshake_eq tap a, takeHandshake_eq tap (a ++ b), ← List.append_assoc, hcut,
      List.foldl_append]
    rcases HandshakeMessage.cutAll (tap.handshake ++ a) with ⟨messages, rest⟩
    simp only
    generalize messages.foldl takeMessage tap = last
    rcases hl : last.done with _ | _
    · have hhandshake : (last.withHandshake rest).handshake = rest := by
        rw [withHandshake_of_not_done hl]
      rw [takeHandshake_eq, hhandshake, foldl_takeMessage_withHandshake,
        withHandshake_withHandshake]
    · rw [withHandshake_of_done hl, takeHandshake_of_done hl, foldl_takeMessage_of_done hl,
        withHandshake_of_done hl]
  · rw [takeHandshake_of_done h, takeHandshake_of_done h, takeHandshake_of_done h]

/-- The tap is done or holds no complete message. -/
def Assembled (tap : Tap) : Prop := tap.takeHandshake [] = tap

theorem assembled_takeHandshake (tap : Tap) (fragment : Bytes) :
    (tap.takeHandshake fragment).Assembled := by
  rw [Assembled, takeHandshake_append, List.append_nil]

theorem assembled_of_handshake_eq_nil (tap : Tap) (h : tap.handshake = []) : tap.Assembled := by
  rw [Assembled, takeHandshake_eq, h]
  have hcut : HandshakeMessage.cutAll ([] ++ []) = ([], []) :=
    HandshakeMessage.cutAll_of_none rfl
  rw [hcut]
  unfold withHandshake
  split
  · rfl
  · rw [← h]; rfl

/-! ## Records in the clear -/

/-- The handshake that some records carry in the clear. -/
def handshakeText (records : List Record) : Bytes :=
  (records.filter (·.type = .handshake)).flatMap (·.fragment)

theorem handshakeText_append (records records' : List Record) :
    handshakeText (records ++ records') = handshakeText records ++ handshakeText records' := by
  simp only [handshakeText, List.filter_append, List.flatMap_append]

/-- A record that a tap, if it is at that version, takes in as a piece of the handshake or not
    at all. -/
def IsPlain (version : Version) (record : Record) : Prop :=
  record.type = .handshake ∨ record.type = .alert
    ∨ version = .tls13 ∧ record.type = .changeCipherSpec

theorem takeRecord_of_isPlain {tap : Tap} (ha : tap.Assembled) {record : Record}
    (h : IsPlain tap.version record) :
    tap.takeRecord record = tap.takeHandshake (handshakeText [record]) := by
  rcases hd : tap.done with _ | _
  · rw [takeRecord, if_neg (by simp [hd])]
    rcases h with h | h | ⟨hv, h⟩
    · have htext : handshakeText [record] = record.fragment := by simp [handshakeText, h]
      rw [h, htext]
      cases tap.version <;> rfl
    · have htext : handshakeText [record] = [] := by simp [handshakeText, h]
      rw [h, htext, ha]
      cases tap.version <;> rfl
    · have htext : handshakeText [record] = [] := by simp [handshakeText, h]
      rw [h, hv, htext, ha]
  · rw [takeRecord_of_done hd, takeHandshake_of_done hd]

/-- **Records in the clear are taken in like the handshake that they carry, put together.** -/
theorem foldl_takeRecord_handshake {tap : Tap} (ha : tap.Assembled) {records : List Record}
    (h : ∀ front record back, records = front ++ record :: back →
      IsPlain (tap.takeHandshake (handshakeText front)).version record) :
    records.foldl takeRecord tap = tap.takeHandshake (handshakeText records) := by
  induction records generalizing tap with
  | nil => exact ha.symm
  | cons record records ih =>
    have hfirst : IsPlain tap.version record := by
      have hplain := h [] record records rfl
      rwa [show handshakeText [] = [] from rfl, ha] at hplain
    have hrest : ∀ front r back, records = front ++ r :: back →
        IsPlain ((tap.takeHandshake (handshakeText [record])).takeHandshake
          (handshakeText front)).version r := by
      intro front r back heq
      rw [takeHandshake_append, ← handshakeText_append]
      exact h (record :: front) r back (by rw [heq]; rfl)
    rw [List.foldl_cons, takeRecord_of_isPlain ha hfirst, ih (assembled_takeHandshake _ _) hrest,
      takeHandshake_append, ← handshakeText_append, List.singleton_append]

/-! ## Messages -/

/-- A message that is neither a list of certificates nor the choices of a server that speaks
    TLS 1.3. -/
def IsIdle (message : HandshakeMessage) : Prop :=
  message.type ≠ HandshakeMessage.certificate
    ∧ (message.type = HandshakeMessage.serverHello →
      ∀ hello, ServerHello.parse? message.body = some hello → hello.version ≠ ServerHello.tls13)

theorem takeMessage_of_isIdle (tap : Tap) {message : HandshakeMessage} (h : IsIdle message) :
    tap.takeMessage message = tap := by
  obtain ⟨hcertificate, hhello⟩ := h
  rw [takeMessage]
  split
  · rfl
  · split
    · next htype =>
      rw [takeServerHello]
      split
      · rfl
      · next hello hparse => rw [if_neg (hhello htype hello hparse)]
    · rfl

end ServedChain.Tls.Tap
