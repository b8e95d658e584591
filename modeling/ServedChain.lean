import ServedChain.Asn1.Element
import ServedChain.Asn1.Value
import ServedChain.Bytes
import ServedChain.Chain.Audit
import ServedChain.Chain.Identity
import ServedChain.Channel.Basic
import ServedChain.Channel.Exchange
import ServedChain.CommandLine.Arguments
import ServedChain.CommandLine.Options
import ServedChain.CommandLine.Run
import ServedChain.Crypto.Aead
import ServedChain.Crypto.Aes
import ServedChain.Crypto.ChaCha20
import ServedChain.Crypto.Gcm
import ServedChain.Crypto.Hkdf
import ServedChain.Crypto.Poly1305
import ServedChain.Crypto.Sha2
import ServedChain.Files
import ServedChain.Hex
import ServedChain.Hostname
import ServedChain.InputError
import ServedChain.Log.Line
import ServedChain.Log.Notice
import ServedChain.Log.Setup
import ServedChain.Main
import ServedChain.Number.Binary64
import ServedChain.Number.Leading
import ServedChain.Number.Shortest
import ServedChain.Probe
import ServedChain.Scan.Reporter
import ServedChain.Scan.Run
import ServedChain.Scan.State
import ServedChain.Settings.Environment
import ServedChain.Settings.EnvironmentFile
import ServedChain.Text.Base64
import ServedChain.Text.Blank
import ServedChain.Text.LowerCase
import ServedChain.Text.Pattern
import ServedChain.Text.Quoted
import ServedChain.Text.Split
import ServedChain.Text.Utf8
import ServedChain.Tls.CertificateList
import ServedChain.Tls.CipherSuite
import ServedChain.Tls.HandshakeMessage
import ServedChain.Tls.KeyLog
import ServedChain.Tls.Protection
import ServedChain.Tls.Record
import ServedChain.Tls.ServerHello
import ServedChain.Tls.Tap
import ServedChain.Tsv
import ServedChain.X509.AttributeType
import ServedChain.X509.Der
import ServedChain.X509.Name
import ServedChain.X509.Pem
import ServedChain.Proofs.Tls.Chunking
import ServedChain.Proofs.Tls.Reassembly
import ServedChain.Proofs.Tls.Secrets
import ServedChain.Proofs.Scan.Books
import ServedChain.Proofs.Scan.Completion
import ServedChain.Proofs.Scan.Failures
import ServedChain.Proofs.Tls.CertificateList
import ServedChain.Proofs.Tls.Cleartext
import ServedChain.Proofs.Tls.Flight
import ServedChain.Proofs.Channel.Calls
import ServedChain.Proofs.Channel.Ledger
import ServedChain.Proofs.Channel.ClosedForm
import ServedChain.Proofs.Channel.Conservation
import ServedChain.Proofs.Chain.Audit
import ServedChain.Proofs.Tls.Greeting
import ServedChain.Proofs.Tls.Timing
import ServedChain.Proofs.Tls.Protection
import ServedChain.Proofs.Scan.Reporters
import ServedChain.Proofs.Scan.Rest
import ServedChain.Proofs.Tls.Ending
import ServedChain.Proofs.X509.CommonName
import ServedChain.Proofs.Chain.Names
import ServedChain.Proofs.Chain.Leading
import ServedChain.Proofs.CommandLine.Numbers
import ServedChain.Proofs.CommandLine.Exit
import ServedChain.Proofs.Scan.Answered
import ServedChain.Proofs.Probe
import ServedChain.Proofs.Chain.Printing
import ServedChain.Proofs.Scan.Prompt
import ServedChain.Proofs.CommandLine.Transcript
import ServedChain.Proofs.Channel.Looping
import ServedChain.Proofs.Tls.ExtendedEntries
import ServedChain.Proofs.Tls.HelloInPlace
import ServedChain.Proofs.Tls.Backlog
import ServedChain.Proofs.Chain.Dropped
import ServedChain.Proofs.Tsv.Steps
import ServedChain.Proofs.Tsv.Plain
import ServedChain.Proofs.Tsv.Written
import ServedChain.Proofs.Hostname
import ServedChain.Proofs.Crypto.Expansion
import ServedChain.Proofs.Hex
import ServedChain.Proofs.Trimming
import ServedChain.Proofs.Tls.KeyLog
import ServedChain.Proofs.Chain.Comparison
import ServedChain.Proofs.Channel.Regular
import ServedChain.Proofs.Tls.Nonces
import ServedChain.Proofs.Crypto.Label
import ServedChain.Proofs.Tls.Buffers
