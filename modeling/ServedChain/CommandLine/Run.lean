/-
  ServedChain — a run of the program: either something is wrong with its input,
  or help is asked for, or the hosts are scanned.

  * `CommandLine.run` is a run, with what it writes and logs;
  * `CommandLine.program` is the program with its environment.
-/
import ServedChain.CommandLine.Options
import ServedChain.Hostname
import ServedChain.Log.Setup
import ServedChain.Scan.Run
import ServedChain.Settings.EnvironmentFile
import ServedChain.Text.Utf8

namespace ServedChain.CommandLine

/-- The text that explains the program. -/
def usage : String :=
  "Usage: chain-auditor [options] [hostname ...]\n\n"
    ++ "Reports every host whose leaf certificate names the audit target as issuer\n"
    ++ "while the served chain does not contain the audit target.\n\n"
    ++ "Options:\n"
    ++ "  --tsv-file <path>    read hostnames (labels reversed) from the first column of a tsv file\n"
    ++ "  --target <cn>        subject CN of the intermediate to check for (default: R3)\n"
    ++ "  --workers <n>        concurrent probes (default: 10)\n"
    ++ "  --timeout-ms <ms>    per-host connection timeout (default: 1000)\n"
    ++ "  --port <port>        port to probe (default: 443)\n"
    ++ "  --debug              log every audited chain\n"
    ++ "  -h, --help           show this message\n"

/-! ## Input -/

/-- The contents of files by their paths. -/
abbrev Reader := (path : String) → Except FileError Bytes

def hostsOfFile (read : Reader) (path : String) : Except InputError (List String) :=
  match read path with
  | .error cause => .error (.unreadableFile path cause)
  | .ok contents =>
    match Hostname.ofTable (String.ofList (Utf8.decode contents)) with
    | .error cause => .error (.malformedFile cause)
    | .ok hostnames => .ok hostnames

def Options.hosts (read : Reader) (options : Options) :
    Except InputError (List String) := do
  let hostnames ← match options.tsvFile with
    | some path => hostsOfFile read path
    | none => .ok options.hostnames
  if hostnames.isEmpty then .error .noHosts else .ok hostnames

/-- What a run is asked to do. -/
inductive Task where
  | help
  | scan (options : Options) (hostnames : List String)
  deriving DecidableEq, Repr

/-- What a run is asked to do, or what is wrong with its input. -/
def Task.parse (arguments : List String) (settings : Settings) (read : Reader) :
    Except InputError Task := do
  let options ← Options.parse arguments settings
  if options.help then .ok .help else return .scan options (← options.hosts read)

/-! ## Runs -/

/-- What a run leaves behind. -/
structure Transcript where
  /-- The exit code, or why there is none -/
  exit : Except ScanError Nat
  /-- What was written, one entry for each time -/
  stdout : List String
  stderr : List String
  /-- The hosts probed, in order -/
  probed : List String
  notices : List Notice

/-- A run in which the input is rejected. -/
def reject (error : InputError) : Transcript where
  exit := .ok 1
  stdout := []
  stderr := [error.message ++ "\n\n" ++ usage]
  probed := []
  notices := [.inputRejected error]

/-- A run that scans some hosts. -/
def scan (hostnames : List String) (workers : Nat) (outcome : String → Outcome) : Transcript :=
  match Scan.prepare hostnames (.ofNat workers) with
  | .error ending => ⟨ending.result.map fun _ => 0, ending.texts, [], [], ending.notices⟩
  | .ok scan =>
    let scan := scan.answerAll .reliable outcome
    let ending := scan.ending .reliable
    ⟨ending.result.map fun _ => 0, ending.texts, [], scan.probes, ending.notices⟩

/-- A run, with the outcomes of probes. -/
def run (arguments : List String) (settings : Settings) (read : Reader)
    (outcome : String → Outcome) : Transcript :=
  match Task.parse arguments settings read with
  | .error error => reject error
  | .ok .help => ⟨.ok 0, [usage], [], [], []⟩
  | .ok (.scan options hostnames) => scan hostnames options.workers outcome

/-! ## The program -/

/-- What the program leaves behind. -/
structure Report where
  code : Nat
  stdout : String
  stderr : String
  log : List Log.Line

/-- The environment with the variables of a file in the working directory, if there is one. -/
def environment (env : Environment) (read : Reader) : Environment :=
  match read ".env" with
  | .ok contents => env.extend (EnvironmentFile.parse (Utf8.decode contents))
  | .error _ => env

/-- The program: a run whose log is filtered; a scan that fails ends it early. -/
def program (arguments : List String) (env : Environment) (read : Reader)
    (outcome : String → Outcome) : Report :=
  let env := environment env read
  match Log.Setup.ofEnvironment env with
  | .error message => ⟨1, "", message ++ "\n", []⟩
  | .ok setup =>
    let transcript := run arguments (.ofEnvironment env) read outcome
    let (code, last) := match transcript.exit with
      | .ok code => (code, [])
      | .error error => (1, [Notice.aborted error.kind error.message])
    { code
      stdout := String.join transcript.stdout
      stderr := String.join transcript.stderr
      log := setup.filter ((transcript.notices ++ last).map Notice.line) }

end ServedChain.CommandLine
