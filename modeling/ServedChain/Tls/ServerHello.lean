/-
  ServedChain — the message in which a server states its choices (RFC 8446,
  4.1.3).

  The version is the one of the extension for supported versions, if there is
  one; a server that wants to see another client hello sends a fixed random
  value.
-/
import ServedChain.Hex

namespace ServedChain.Tls

structure ServerHello where
  version : Nat
  cipherSuite : Nat
  /-- The server asks for another client hello -/
  isRetry : Bool
  deriving DecidableEq, Repr

namespace ServerHello

/-- The version TLS 1.3. -/
def tls13 : Nat := 0x0304

/-- The number of the extension for supported versions. -/
def supportedVersions : Nat := 43

/-- The random value with which another client hello is asked for. -/
def retryRandom : Bytes :=
  [0xcf, 0x21, 0xad, 0x74, 0xe5, 0x9a, 0x61, 0x11, 0xbe, 0x1d, 0x8c, 0x02, 0x1e, 0x65, 0xb8, 0x91,
    0xc2, 0xa2, 0x11, 0x16, 0x7a, 0xbb, 0x8c, 0x5e, 0x07, 0x9e, 0x09, 0xe2, 0xc8, 0xa8, 0x33, 0x9c]

/-- The version after a block of extensions: that of the last one which states a version, even
    if its data go on beyond the block, and else `version`. -/
def versionAfter (version : Nat) : (block : Bytes) → Nat
  | t :: t' :: l :: l' :: rest =>
    let length := Bytes.toNat [l, l']
    let stated := match rest with
      | v :: v' :: _ =>
        if Bytes.toNat [t, t'] = supportedVersions ∧ 2 ≤ length then Bytes.toNat [v, v']
        else version
      | _ => version
    versionAfter stated (rest.drop length)
  | _ => version
termination_by block => block.length
decreasing_by simp only [List.length_drop, List.length_cons]; omega

/-- The choices in the body of a message.  Everything up to the compression method must be
    there; extensions may be cut off anywhere. -/
def parse? (body : Bytes) : Option ServerHello := do
  let (version, rest) ← Bytes.uint? 2 body
  let (random, rest) ← Bytes.cut? 32 rest
  let (sessionLength, rest) ← Bytes.uint? 1 rest
  let (_, rest) ← Bytes.cut? sessionLength rest
  let (cipherSuite, rest) ← Bytes.uint? 2 rest
  let (_, rest) ← Bytes.cut? 1 rest
  let version := match Bytes.uint? 2 rest with
    | none => version
    | some (length, rest) => versionAfter version (rest.take length)
  return { version, cipherSuite, isRetry := random = retryRandom }

end ServerHello

end ServedChain.Tls
