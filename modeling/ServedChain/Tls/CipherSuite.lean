/-
  ServedChain — the cipher suites of TLS 1.3 whose records can be opened.

  `ofCode?_eq_some_iff`: a code stands for a suite exactly if it is the code of
  that suite.
-/
import ServedChain.Crypto.Gcm
import ServedChain.Crypto.Poly1305
import ServedChain.Crypto.Sha2

namespace ServedChain.Tls

/-- A cipher suite: a scheme for authenticated encryption and a hash function. -/
inductive CipherSuite where
  | aes128GcmSha256
  | aes256GcmSha384
  | chaCha20Poly1305Sha256
  deriving DecidableEq, Repr

namespace CipherSuite

/-- The number of a suite on the wire. -/
def code : CipherSuite → Nat
  | aes128GcmSha256 => 0x1301
  | aes256GcmSha384 => 0x1302
  | chaCha20Poly1305Sha256 => 0x1303

def ofCode? (n : Nat) : Option CipherSuite :=
  [aes128GcmSha256, aes256GcmSha384, chaCha20Poly1305Sha256].find? fun suite => suite.code == n

def name : CipherSuite → String
  | aes128GcmSha256 => "TLS_AES_128_GCM_SHA256"
  | aes256GcmSha384 => "TLS_AES_256_GCM_SHA384"
  | chaCha20Poly1305Sha256 => "TLS_CHACHA20_POLY1305_SHA256"

/-- The name of the encryption scheme. -/
def algorithm : CipherSuite → String
  | aes128GcmSha256 => "aes-128-gcm"
  | aes256GcmSha384 => "aes-256-gcm"
  | chaCha20Poly1305Sha256 => "chacha20-poly1305"

def aead : CipherSuite → Aead
  | aes128GcmSha256 => .aesGcm 16
  | aes256GcmSha384 => .aesGcm 32
  | chaCha20Poly1305Sha256 => .chaCha20Poly1305

/-- The hash function that keys are derived with. -/
def hash : CipherSuite → Hash
  | aes128GcmSha256 | chaCha20Poly1305Sha256 => .sha256
  | aes256GcmSha384 => .sha384

theorem ofCode?_eq_some_iff {n : Nat} {suite : CipherSuite} :
    ofCode? n = some suite ↔ suite.code = n := by
  constructor
  · intro h
    simpa using List.find?_some h
  · rintro rfl
    cases suite <;> decide

end CipherSuite

end ServedChain.Tls
