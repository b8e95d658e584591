/-
  ServedChain — key logs, in which a TLS client writes down the secrets of its
  connections: each line is a label, the random value of the client and the
  secret, the last two in hexadecimal, with single spaces between.
-/
import ServedChain.Hex
import ServedChain.Text.Blank
import ServedChain.Text.Split

namespace ServedChain.Tls.KeyLog

/-- The label of the secret that protects the handshake of the server. -/
def serverHandshakeLabel : String := "SERVER_HANDSHAKE_TRAFFIC_SECRET"

/-- The fields of a line, without white space at its ends. -/
def fields (line : String) : List (List Char) := Text.split ' ' (Text.trim line.toList)

/-- The secret of a line with the given label. -/
def secret? (label line : String) : Option Bytes :=
  match fields line with
  | first :: _ :: third :: _ =>
    if first = label.toList ∧ third ≠ [] then Hex.decode? third else none
  | _ => none

end ServedChain.Tls.KeyLog
