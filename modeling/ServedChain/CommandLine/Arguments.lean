/-
  ServedChain — the arguments of the program, as options and positional
  arguments.

  A long option is written `--name`, with its value behind an equals sign or in
  the next argument; short options may be grouped.  After `--` everything is
  positional.  Of an option given several times the last one counts.

  * `Token.ofArguments` says what each argument is;
  * `Arguments.parse` checks the options and collects them.
-/
import ServedChain.Text.Quoted

namespace ServedChain.CommandLine

/-! ## Options -/

inductive Switch where
  | tsvFile
  | target
  | workers
  | timeoutMs
  | port
  | debug
  | help
  deriving DecidableEq, Repr

namespace Switch

/-- The long name of an option. -/
def name : Switch → String
  | tsvFile => "tsv-file"
  | target => "target"
  | workers => "workers"
  | timeoutMs => "timeout-ms"
  | port => "port"
  | debug => "debug"
  | help => "help"

def takesValue : Switch → Bool
  | debug | help => false
  | _ => true

/-- The one-letter name of an option. -/
def short? : Switch → Option Char
  | help => some 'h'
  | _ => none

def all : List Switch := [tsvFile, target, workers, timeoutMs, port, debug, help]

/-- The option with a long name. -/
def ofName? (name : String) : Option Switch := all.find? (·.name == name)

/-- The long name for a letter; a letter that is no option stands for itself. -/
def nameOfShort (c : Char) : String :=
  match all.find? (·.short? == some c) with
  | some switch => switch.name
  | none => String.singleton c

end Switch

/-! ## Tokens -/

inductive Token where
  /-- An option by its long name, as it was written, with a value that may be part of the same
      argument -/
  | option (name written : String) (value : Option String) (attached : Bool)
  | positional (value : String)
  deriving DecidableEq, Repr

namespace Token

/-- The options of a group of letters; a hyphen among them makes everything behind it
    positional. -/
def ofLetters (letters : List Char) : List Token × Option (List Token) :=
  let options := (letters.takeWhile (· != '-')).map fun c =>
    option (Switch.nameOfShort c) (String.ofList ['-', c]) none false
  match letters.dropWhile (· != '-') with
  | [] => (options, none)
  | _ :: behind => (options, some (behind.map fun c => positional (String.ofList ['-', c])))

/-- Whether a long name, as it is written, has a value behind an equals sign.  A name is not
    empty, unless two equals signs follow. -/
def hasAttached (written : List Char) : Bool := (written.drop 1).contains '='

/-- Whether the option with a name takes the next argument as its value. -/
def takesNext (name : List Char) : Bool :=
  (Switch.ofName? (String.ofList name)).any (·.takesValue)

def ofArguments : List String → List Token
  | [] => []
  | argument :: rest =>
    match argument.toList with
    | ['-', '-'] => rest.map positional
    | '-' :: '-' :: written =>
      if hasAttached written then
        let name := written.takeWhile (· != '=')
        let value := (written.dropWhile (· != '=')).drop 1
        option (String.ofList name) (String.ofList ('-' :: '-' :: name))
          (some (String.ofList value)) true :: ofArguments rest
      else if takesNext written then
        match rest with
        | [] => [option (String.ofList written) argument none false]
        | value :: rest =>
          option (String.ofList written) argument (some value) false :: ofArguments rest
      else option (String.ofList written) argument none false :: ofArguments rest
    | '-' :: c :: cs =>
      match ofLetters (c :: cs) with
      | (options, none) => options ++ ofArguments rest
      | (options, some positionals) => options ++ positionals ++ rest.map positional
    | _ => positional argument :: ofArguments rest
termination_by arguments => arguments.length

end Token

/-! ## Errors -/

inductive UsageError where
  | unknownOption (written : String)
  | missingValue (switch : Switch)
  | unexpectedValue (switch : Switch)
  /-- The next argument, taken as the value, looks like an option -/
  | ambiguousValue (written : String)
  deriving DecidableEq, Repr

def UsageError.message : UsageError → String
  | unknownOption written =>
    "Unknown option '" ++ written ++ "'. To specify a positional argument starting with a '-', "
      ++ "place it at the end of the command after '--', as in '-- " ++ Text.quote written
  | missingValue switch => "Option '" ++ names switch ++ " <value>' argument missing"
  | unexpectedValue switch => "Option '" ++ names switch ++ "' does not take an argument"
  | ambiguousValue written =>
    "Option '" ++ written ++ "' argument is ambiguous.\n"
      ++ "Did you forget to specify the option argument for '" ++ written ++ "'?\n"
      ++ "To specify an option argument starting with a dash use '" ++ written ++ "=-XYZ'."
where
  /-- The names of an option. -/
  names (switch : Switch) : String :=
    match switch.short? with
    | some c => "-" ++ String.singleton c ++ ", --" ++ switch.name
    | none => "--" ++ switch.name

/-! ## Arguments -/

/-- The options that were given, and the positional arguments. -/
structure Arguments where
  tsvFile : Option String
  target : Option String
  workers : Option String
  timeoutMs : Option String
  port : Option String
  debug : Bool
  help : Bool
  positionals : List String
  deriving DecidableEq, Repr

namespace Arguments

def none : Arguments := ⟨.none, .none, .none, .none, .none, false, false, []⟩

/-- The arguments with an option set. -/
def set (arguments : Arguments) (switch : Switch) (value : String) : Arguments :=
  match switch with
  | .tsvFile => { arguments with tsvFile := some value }
  | .target => { arguments with target := some value }
  | .workers => { arguments with workers := some value }
  | .timeoutMs => { arguments with timeoutMs := some value }
  | .port => { arguments with port := some value }
  | .debug => { arguments with debug := true }
  | .help => { arguments with help := true }

/-- Whether a value looks like an option. -/
def looksLikeOption (value : String) : Bool :=
  match value.toList with
  | '-' :: _ :: _ => true
  | _ => false

/-- The arguments with one more token. -/
def add (arguments : Arguments) : Token → Except UsageError Arguments
  | .positional value => .ok { arguments with positionals := arguments.positionals ++ [value] }
  | .option name written value attached =>
    match Switch.ofName? name with
    | .none => .error (.unknownOption written)
    | some switch =>
      match switch.takesValue, value with
      | true, .none => .error (.missingValue switch)
      | false, some _ => .error (.unexpectedValue switch)
      | false, .none => .ok (arguments.set switch "")
      | true, some value =>
        if !attached && looksLikeOption value then .error (.ambiguousValue written)
        else .ok (arguments.set switch value)

/-- The options and positional arguments in a list of arguments, unless something is wrong with
    one of them; the first such thing counts. -/
def parse (arguments : List String) : Except UsageError Arguments :=
  (Token.ofArguments arguments).foldlM add none

end Arguments

end ServedChain.CommandLine
