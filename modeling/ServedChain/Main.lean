/-
  ServedChain — the program on the command line: the environment and the files
  are read, and what a run leaves behind is written.

  There are no connections here, so a probe ends like one of a host that refuses
  them: with no finding.
-/
import ServedChain.CommandLine.Run

namespace ServedChain.CommandLine

/-- The variables that the program knows. -/
def variableNames : List String :=
  ["AUDIT_TARGET_CN", "AUDIT_DEBUG", "PROBE_WORKERS", "PROBE_TIMEOUT_MS", "PROBE_PORT",
    "LOG_LEVEL", "NODE_ENV"]

/-- The paths that a run may read. -/
def paths (arguments : List String) : List String :=
  match Arguments.parse arguments with
  | .ok given => ".env" :: given.tsvFile.toList
  | .error _ => [".env"]

/-- Why the system does not give out a file; what has no code of its own counts as not found. -/
def fileError (path : String) : IO.Error → FileError
  | .inappropriateType .. => if path.endsWith "/" then .notDirectory else .isDirectory
  | .invalidArgument .. => .nameTooLong
  | _ => .notFound

/-- The file at a path. -/
def readFile (path : String) : IO (Except FileError Bytes) := do
  match ← (IO.FS.readBinFile path).toBaseIO with
  | .ok contents => return .ok contents.toList
  | .error cause => return .error (fileError path cause)

def readEnvironment : IO Environment :=
  variableNames.filterMapM fun name => return (← IO.getEnv name).map (name, ·)

/-- The program, up to its exit code. -/
def execute (arguments : List String) : IO UInt32 := do
  let files ← (paths arguments).mapM fun path => return (path, ← readFile path)
  let read := fun path => (files.lookup path).getD (.error .notFound)
  let report := program arguments (← readEnvironment) read fun _ => .verdict .noIssue
  IO.print report.stdout
  IO.eprint report.stderr
  for line in report.log do
    IO.eprintln line.json
  return UInt32.ofNat report.code

end ServedChain.CommandLine

def main (arguments : List String) : IO UInt32 := ServedChain.CommandLine.execute arguments
