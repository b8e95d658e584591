/-
  ServedChain — what can be wrong with the input of the program, before any host
  is probed.
-/
import ServedChain.Files
import ServedChain.Tsv

namespace ServedChain

inductive InputError where
  | noHosts
  /-- An option, what it should be, and its value if that is known -/
  | badOption (option expected : String) (value : Option String)
  | unreadableFile (path : String) (cause : FileError)
  | malformedFile (cause : Tsv.Error)
  deriving DecidableEq, Repr

namespace InputError

def code : InputError → String
  | noHosts => "VALIDATION_NO_HOSTNAMES"
  | badOption .. => "VALIDATION_INVALID_OPTION"
  | unreadableFile .. => "INPUT_FILE_UNREADABLE"
  | malformedFile _ => "INPUT_FILE_MALFORMED"

def message : InputError → String
  | noHosts => "You must supply at least one hostname as an argument or via --tsv-file"
  | badOption option expected _ => "Invalid --" ++ option ++ ". " ++ expected
  | unreadableFile path _ => "Couldn't open the tsv file " ++ path
  | malformedFile _ => "Issue parsing entry in tsv file"

/-- The details of an error, if it has any. -/
def details? : InputError → Option (List (String × String))
  | badOption option expected value =>
    some ([("option", option), ("expected", expected)] ++ value.toList.map fun v => ("value", v))
  | unreadableFile path _ => some [("path", path)]
  | noHosts | malformedFile _ => none

/-- The code of the error behind an error, if there is one. -/
def cause? : InputError → Option String
  | unreadableFile _ cause => some cause.code
  | malformedFile cause => some cause.code
  | noHosts | badOption .. => none

end InputError

end ServedChain
