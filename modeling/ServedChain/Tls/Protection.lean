/-
  ServedChain — the protection of TLS 1.3 records (RFC 8446, 5.2 and 5.3).

  A protected fragment is the encryption of a content, its type and any number
  of zero bytes; the header of the record is the additional data, and the nonce
  is made of the initialization vector and the number of the record.

  * `TrafficKeys.ofSecret` derives the keys of a traffic secret;
  * `TrafficKeys.protect` and `TrafficKeys.unprotect` are the two directions;
  * `Opener` opens the records of one sender in order.  A fragment too short to
    hold a tag does not count as a record, any other one does.
-/
import ServedChain.Crypto.Hkdf
import ServedChain.Tls.CipherSuite

namespace ServedChain.Tls

/-! ## Contents -/

/-- What a protected record holds: a content and its type, which is not zero. -/
structure InnerText where
  /-- The type, of which only some values have a meaning -/
  contentType : UInt8
  content : Bytes
  deriving DecidableEq, Repr

namespace InnerText

/-- The plaintext, with `padding` zero bytes. -/
def encode (inner : InnerText) (padding : Nat) : Bytes :=
  inner.content ++ inner.contentType :: List.replicate padding 0

/-- The content of a plaintext: its last byte that is not zero is the type. -/
def decode? (plaintext : Bytes) : Option InnerText :=
  match plaintext.reverse.dropWhile (· == 0) with
  | [] => none
  | contentType :: content => some ⟨contentType, content.reverse⟩

/-- A content with its type reads back, however much padding there is. -/
theorem decode?_encode {inner : InnerText} (h : inner.contentType ≠ 0) (padding : Nat) :
    decode? (inner.encode padding) = some inner := by
  have hzeros : ∀ rest : Bytes,
      (List.replicate padding (0 : UInt8) ++ rest).dropWhile (· == 0)
        = rest.dropWhile (· == 0) := by
    intro rest
    induction padding with
    | zero => rfl
    | succ padding ih => rw [List.replicate_succ, List.cons_append, List.dropWhile_cons_of_pos rfl, ih]
  simp [decode?, encode, hzeros, h]

end InnerText

/-! ## Keys -/

/-- The keys of one direction of a connection. -/
structure TrafficKeys where
  suite : CipherSuite
  key : Bytes
  /-- The initialization vector -/
  iv : Bytes
  deriving DecidableEq, Repr

/-- Why a fragment does not open. -/
inductive OpenError where
  | shorterThanTag (length : Nat)
  | notAuthentic
  | noContentType
  deriving DecidableEq, Repr

def OpenError.message : OpenError → String
  | shorterThanTag n => "encrypted record of " ++ toString n ++ " bytes is shorter than its tag"
  | notAuthentic => "Unsupported state or unable to authenticate data"
  | noContentType => "encrypted record carries no content type"

namespace TrafficKeys

/-- Bytes of an initialization vector, and of a nonce. -/
def ivLength : Nat := 12

/-- The keys derived from a traffic secret. -/
def ofSecret (suite : CipherSuite) (secret : Bytes) : TrafficKeys where
  suite := suite
  key := Hkdf.expandLabel suite.hash secret "key" [] suite.aead.keyLength
  iv := Hkdf.expandLabel suite.hash secret "iv" [] ivLength

def nonce (keys : TrafficKeys) (sequence : Nat) : Bytes :=
  Bytes.xor keys.iv (Bytes.ofNat ivLength sequence)

/-- The fragment that protects a content. -/
def protect (keys : TrafficKeys) (sequence : Nat) (header : Bytes) (inner : InnerText)
    (padding : Nat) : Bytes :=
  keys.suite.aead.encrypt keys.key (keys.nonce sequence) header (inner.encode padding)

/-- The content of a protected fragment. -/
def unprotect (keys : TrafficKeys) (sequence : Nat) (header fragment : Bytes) :
    Except OpenError InnerText :=
  if fragment.length < tagLength then .error (.shorterThanTag fragment.length)
  else
    let length := fragment.length - tagLength
    match keys.suite.aead.decrypt? keys.key (keys.nonce sequence) header
        (fragment.take length) (fragment.drop length) with
    | none => .error .notAuthentic
    | some plaintext =>
      match InnerText.decode? plaintext with
      | none => .error .noContentType
      | some inner => .ok inner

end TrafficKeys

/-! ## Records in order -/

/-- The keys of a sender, and the number of its next record. -/
structure Opener where
  keys : TrafficKeys
  sequence : Nat
  deriving DecidableEq, Repr

namespace Opener

/-- The opener for the first record under a traffic secret. -/
def ofSecret (suite : CipherSuite) (secret : Bytes) : Opener :=
  ⟨TrafficKeys.ofSecret suite secret, 0⟩

/-- What the next fragment holds, and the opener for the one after it. -/
def next (opener : Opener) (header fragment : Bytes) : Except OpenError InnerText × Opener :=
  (opener.keys.unprotect opener.sequence header fragment,
    if fragment.length < tagLength then opener
    else { opener with sequence := opener.sequence + 1 })

/-- What each of several fragments holds. -/
def run (opener : Opener) : List (Bytes × Bytes) → List (Except OpenError InnerText)
  | [] => []
  | (header, fragment) :: rest =>
    let (result, opener) := opener.next header fragment
    result :: opener.run rest

end Opener

end ServedChain.Tls
