/-
  Encrypted records open as they were sealed.

  * `unprotect_protect`: what a fragment protects comes out again;
  * `Piece.toRecords`: pieces of the handshake, each sealed in a record of its own, one
    number after another;
  * `foldl_openRecord_toRecords`: a tap with the keys takes such records in like the
    pieces, put together.
-/
import ServedChain.Proofs.Tls.Protection
import ServedChain.Proofs.Tls.Reassembly

namespace ServedChain.Tls

/-! ## Fragments -/

namespace TrafficKeys
variable (keys : TrafficKeys) (sequence : Nat) (header : Bytes) (inner : InnerText) (padding : Nat)

theorem length_protect : (keys.protect sequence header inner padding).length
    = inner.content.length + 1 + padding + tagLength := by
  rw [protect, Aead.length_encrypt, InnerText.encode, List.length_append, List.length_cons,
    List.length_replicate]
  omega

/-- What a fragment protects comes out again. -/
theorem unprotect_protect (h : inner.contentType ≠ 0) :
    keys.unprotect sequence header (keys.protect sequence header inner padding) = .ok inner :=
  unprotect_eq_ok_iff.2 ⟨h, padding, rfl⟩

end TrafficKeys

/-! ## Records -/

/-- A piece of the handshake that goes into a record of its own. -/
structure Piece where
  /-- The version of the record -/
  version : UInt8 × UInt8
  content : Bytes
  /-- How many zero bytes stand behind the content -/
  padding : Nat
  deriving DecidableEq, Repr

namespace Piece

/-- Bytes of the fragment that protects a piece: its content, a type, the padding and a tag. -/
def length (piece : Piece) : Nat := piece.content.length + 1 + piece.padding + 16

/-- The header of the record, which is one with application data. -/
def header (piece : Piece) : Bytes :=
  23 :: piece.version.1 :: piece.version.2 :: Bytes.ofNat 2 piece.length

/-- The fragment that seals a piece as the record with a number (RFC 8446, 5.2 and 5.3): the
    encryption of the content, the type of the handshake and the padding, where the nonce is the
    initialization vector of the secret, and the number added to its end bit by bit. -/
def fragment (suite : CipherSuite) (secret : Bytes) (sequence : Nat) (piece : Piece) : Bytes :=
  let key := Hkdf.expandLabel suite.hash secret "key" [] suite.aead.keyLength
  let iv := Hkdf.expandLabel suite.hash secret "iv" [] 12
  suite.aead.encrypt key (Bytes.xor iv (Bytes.ofNat 12 sequence)) piece.header
    (piece.content ++ 22 :: List.replicate piece.padding 0)

/-- The record that seals a piece. -/
def toRecord (suite : CipherSuite) (secret : Bytes) (sequence : Nat) (piece : Piece) : Record :=
  ⟨.applicationData, piece.version, piece.fragment suite secret sequence⟩

/-- The records that seal some pieces, numbered from `sequence` on. -/
def toRecords (suite : CipherSuite) (secret : Bytes) (sequence : Nat) : List Piece → List Record
  | [] => []
  | piece :: pieces =>
    piece.toRecord suite secret sequence :: toRecords suite secret (sequence + 1) pieces

section
variable (suite : CipherSuite) (secret : Bytes) (sequence : Nat) (piece : Piece)

/-- The keys of a secret protect a piece by the same fragment. -/
theorem protect_eq_fragment : (TrafficKeys.ofSecret suite secret).protect sequence piece.header
    ⟨ContentType.handshake.code, piece.content⟩ piece.padding
      = piece.fragment suite secret sequence := rfl

theorem length_fragment : (piece.fragment suite secret sequence).length = piece.length :=
  (TrafficKeys.ofSecret suite secret).length_protect sequence piece.header
    ⟨ContentType.handshake.code, piece.content⟩ piece.padding

theorem header_toRecord : (piece.toRecord suite secret sequence).header = piece.header := by
  rw [Record.header, toRecord, length_fragment]
  rfl

end

theorem type_of_mem_toRecords {suite : CipherSuite} {secret : Bytes} {sequence : Nat}
    {pieces : List Piece} {record : Record} (h : record ∈ toRecords suite secret sequence pieces) :
    record.type = .applicationData := by
  induction pieces generalizing sequence with
  | nil => cases h
  | cons piece pieces ih =>
    rcases List.mem_cons.1 h with rfl | h
    · rfl
    · exact ih h

end Piece

/-! ## Taps -/

namespace Tap

theorem openRecord_toRecord {tap : Tap} (hd : tap.done = false) (supplied : Option Bytes)
    (suite : CipherSuite) (secret : Bytes) (sequence : Nat) (piece : Piece) :
    (tap.rekey supplied (some ⟨.ofSecret suite secret, sequence⟩)).openRecord
        (piece.toRecord suite secret sequence)
      = (tap.takeHandshake piece.content).rekey supplied
        (some ⟨.ofSecret suite secret, sequence + 1⟩) := by
  have hnext : Opener.next ⟨.ofSecret suite secret, sequence⟩ piece.header
      (piece.toRecord suite secret sequence).fragment
      = (.ok ⟨ContentType.handshake.code, piece.content⟩,
        ⟨.ofSecret suite secret, sequence + 1⟩) := by
    have hlong : ¬(piece.toRecord suite secret sequence).fragment.length < tagLength := by
      rw [Piece.toRecord, piece.length_fragment, Piece.length, tagLength]
      omega
    rw [Opener.next, if_neg hlong, Piece.toRecord, ← Piece.protect_eq_fragment]
    exact Prod.ext (TrafficKeys.unprotect_protect _ sequence piece.header _ _
      (show ContentType.handshake.code ≠ 0 by decide)) rfl
  rw [openRecord, if_neg (by simp [rekey, hd])]
  simp only [rekey, Piece.header_toRecord, hnext]
  exact takeHandshake_rekey tap supplied (some ⟨.ofSecret suite secret, sequence + 1⟩)
    piece.content

/-- **A tap with the keys takes sealed records in like the pieces, put together.** -/
theorem foldl_openRecord_toRecords {tap : Tap} (ha : tap.Assembled) (supplied : Option Bytes)
    (suite : CipherSuite) (secret : Bytes) (sequence : Nat) (pieces : List Piece) :
    ∃ opener, (Piece.toRecords suite secret sequence pieces).foldl openRecord
        (tap.rekey supplied (some ⟨.ofSecret suite secret, sequence⟩))
      = (tap.takeHandshake (pieces.flatMap Piece.content)).rekey supplied (some opener) := by
  induction pieces generalizing tap sequence with
  | nil => exact ⟨⟨.ofSecret suite secret, sequence⟩, by rw [List.flatMap_nil, ha]; rfl⟩
  | cons piece pieces ih =>
    rcases hd : tap.done with _ | _
    · obtain ⟨opener, hopener⟩ := ih (assembled_takeHandshake tap piece.content) (sequence + 1)
      refine ⟨opener, ?_⟩
      rw [Piece.toRecords, List.foldl_cons, openRecord_toRecord hd, hopener, takeHandshake_append]
      rfl
    · refine ⟨⟨.ofSecret suite secret, sequence⟩, ?_⟩
      rw [foldl_openRecord_of_done (by exact hd), takeHandshake_of_done hd]

end Tap

end ServedChain.Tls
