/-
  ServedChain — a tap on the bytes that a server sends during a handshake, which
  reports the certificates of the server as they are served.

  A server that speaks TLS 1.2 sends its certificates in the clear, before it
  changes to encrypted records.  In TLS 1.3 they are encrypted: the tap holds
  such records until it is told the secret of the server's handshake.

  * `Tap.push` and `Tap.supplySecret` are the two inputs, `Tap.run` takes in several;
  * `Tap.reports` is what the tap reported so far;
  * a tap that is `done` holds nothing back and takes nothing in.
-/
import ServedChain.Tls.CertificateList
import ServedChain.Tls.HandshakeMessage
import ServedChain.Tls.Protection
import ServedChain.Tls.Record
import ServedChain.Tls.ServerHello

namespace ServedChain.Tls

/-! ## Reports -/

/-- Why the certificates of a server cannot be read. -/
inductive TapError where
  /-- The server chose a cipher suite that is not known -/
  | unsupportedSuite (code : Nat)
  | unreadable (error : OpenError)
  deriving DecidableEq, Repr

def TapError.message : TapError → String
  | unsupportedSuite code =>
    "unsupported TLS 1.3 cipher suite 0x" ++ String.ofList (Hex.encode (Bytes.ofNat 2 code))
  | unreadable error => error.message

inductive Report where
  | certificates (list : List Bytes)
  | failure (error : TapError)
  deriving DecidableEq, Repr

/-! ## State -/

/-- The version of TLS that a server speaks, as far as it is known. -/
inductive Version where
  | tls12
  | tls13
  deriving DecidableEq, Repr

structure Tap where
  /-- There is nothing more to report -/
  done : Bool
  /-- The beginning of a record -/
  records : Bytes
  /-- The beginning of a handshake message -/
  handshake : Bytes
  version : Version
  /-- The cipher suite that the server chose for TLS 1.3 -/
  suite : Option Nat
  /-- Encrypted records that cannot be opened yet -/
  held : List Record
  secret : Option Bytes
  opener : Option Opener
  /-- Everything reported so far -/
  reports : List Report
  deriving DecidableEq, Repr

namespace Tap

/-- A tap before the first byte. -/
def initial : Tap where
  done := false
  records := []
  handshake := []
  version := .tls12
  suite := none
  held := []
  secret := none
  opener := none
  reports := []

def finish (tap : Tap) : Tap :=
  { tap with done := true, records := [], handshake := [], held := [] }

/-- The tap, done with a last report. -/
def finishWith (tap : Tap) (report : Report) : Tap :=
  { tap.finish with reports := tap.reports ++ [report] }

/-! ## Handshake messages -/

/-- The choices of the server taken in.  A server that asks for another client hello will state
    its cipher suite again. -/
def takeServerHello (tap : Tap) (body : Bytes) : Tap :=
  match ServerHello.parse? body with
  | none => tap
  | some hello =>
    if hello.version = ServerHello.tls13 then
      { tap with
        version := .tls13
        suite := if hello.isRetry then tap.suite else some hello.cipherSuite }
    else tap

def takeMessage (tap : Tap) (message : HandshakeMessage) : Tap :=
  if tap.done then tap
  else if message.type = HandshakeMessage.serverHello then tap.takeServerHello message.body
  else if message.type = HandshakeMessage.certificate then
    tap.finishWith <| .certificates <| match tap.version with
      | .tls12 => CertificateList.parse message.body
      | .tls13 => CertificateList.parseExtended message.body
  else tap

/-- A piece of the handshake taken in. -/
def takeHandshake (tap : Tap) (fragment : Bytes) : Tap :=
  let (messages, rest) := HandshakeMessage.cutAll (tap.handshake ++ fragment)
  let tap := messages.foldl takeMessage tap
  if tap.done then tap else { tap with handshake := rest }

/-! ## Encrypted records -/

/-- An opened content taken in. -/
def takeInner (tap : Tap) (inner : InnerText) : Tap :=
  match ContentType.ofCode? inner.contentType with
  | some .handshake => tap.takeHandshake inner.content
  | some .alert => tap.finish
  | _ => tap

/-- An encrypted record opened and taken in. -/
def openRecord (tap : Tap) (record : Record) : Tap :=
  if tap.done then tap
  else match tap.opener with
    | none => tap
    | some opener =>
      let (result, opener) := opener.next record.header record.fragment
      let tap := { tap with opener := some opener }
      match result with
      | .error error => tap.finishWith (.failure (.unreadable error))
      | .ok inner => tap.takeInner inner

/-- The tap with an opener, if the secret and the cipher suite are there. -/
def withOpener (tap : Tap) : Tap :=
  match tap.opener, tap.secret, tap.suite with
  | none, some secret, some code =>
    match CipherSuite.ofCode? code with
    | none => tap.finishWith (.failure (.unsupportedSuite code))
    | some suite => { tap with opener := some (Opener.ofSecret suite secret) }
  | _, _, _ => tap

/-- All records opened that are held, if they can be. -/
def openHeld (tap : Tap) : Tap :=
  let tap := tap.withOpener
  if tap.opener.isSome then tap.held.foldl openRecord { tap with held := [] } else tap

/-! ## Inputs -/

def takeRecord (tap : Tap) (record : Record) : Tap :=
  if tap.done then tap
  else match tap.version, record.type with
    | .tls12, .changeCipherSpec | .tls12, .applicationData => tap.finish
    | .tls13, .applicationData => { tap with held := tap.held ++ [record] }.openHeld
    | _, .handshake => tap.takeHandshake record.fragment
    | .tls12, .alert | .tls13, .alert | .tls13, .changeCipherSpec => tap

/-- Bytes from the server taken in. -/
def push (tap : Tap) (chunk : Bytes) : Tap :=
  if tap.done then tap
  else
    let (records, tail) := Record.cutAll (tap.records ++ chunk)
    let tap := records.foldl takeRecord { tap with records := [] }
    if tap.done then tap
    else match tail with
      | .malformed => tap.finish
      | .incomplete rest => { tap with records := rest }

/-- The secret of the server's handshake taken in. -/
def supplySecret (tap : Tap) (secret : Bytes) : Tap :=
  if tap.done then tap else { tap with secret := some secret }.openHeld

inductive Input where
  | chunk (bytes : Bytes)
  | secret (secret : Bytes)
  deriving DecidableEq, Repr

def take (tap : Tap) : Input → Tap
  | .chunk bytes => tap.push bytes
  | .secret secret => tap.supplySecret secret

/-- Several inputs taken in, one after another. -/
def run (tap : Tap) (inputs : List Input) : Tap := inputs.foldl take tap

/-- The bytes from the server among some inputs. -/
def stream (inputs : List Input) : Bytes :=
  inputs.flatMap fun
    | .chunk bytes => bytes
    | .secret _ => []

end Tap

end ServedChain.Tls
