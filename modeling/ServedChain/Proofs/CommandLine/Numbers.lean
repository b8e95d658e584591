/-
  The numbers among the options.

  * `Numeric` names them, with where each is found, and `Numeric.resolve` is what it
    comes to;
  * `inRange?_ofNat`: no number that is too great is rounded into the range;
  * `parse_eq_ok_iff`: a command line is accepted exactly if its arguments are, and all
    numbers are in range;
  * `numbers_are_exact`: so a text of digits stands for what it says, whether it is an
    argument or a setting.
-/
import ServedChain.CommandLine.Options

namespace ServedChain.CommandLine

/-! ## Texts of digits -/

def IsDigits (text : String) : Prop := text ≠ "" ∧ ∀ c ∈ text.toList, c.isDigit = true

instance (text : String) : Decidable (IsDigits text) :=
  @instDecidableAnd _ _ _ (List.decidableBAll _ _)

/-- The number that a text of digits denotes. -/
def digitsNumber (text : String) : Nat := Nat.ofDigitChars 10 text.toList 0

theorem isDigits_iff (text : String) :
    IsDigits text ↔ ¬(text.isEmpty || !text.toList.all Char.isDigit) = true := by
  simp [IsDigits]

/-- A setting that is a text of digits is the number that it denotes, rounded. -/
theorem number_of_digits {env : Environment} {name text : String} (htext : IsDigits text)
    (hset : env.lookup name = some text) (default : Binary64) :
    env.number name default = .ofNat (digitsNumber text) := by
  have hvalue : env.value? name = some text := by
    rw [Environment.value?, hset, Option.filter_some_pos (by simpa using htext.1)]
  have hleading := leadingInt?_of_digits (mt String.toList_eq_nil_iff.1 htext.1) htext.2
  rw [Environment.number, hvalue, Option.bind_some, Environment.number?, hleading, Option.map_some,
    Option.getD_some, Binary64.ofInt_natCast, digitsValue_eq, digitsNumber]

/-! ## Ranges -/

namespace NumberOption
variable {option : NumberOption} {n : Nat}

theorem le_of_inRange? {number : Binary64} (h : option.inRange? number = some n) :
    1 ≤ n ∧ n ≤ option.greatest := by
  unfold inRange? at h
  split at h
  · split at h
    · next hrange =>
      cases h
      exact hrange
    · cases h
  · cases h

theorem le_of_ofArgument {value : String} (h : option.ofArgument value = .ok n) :
    1 ≤ n ∧ n ≤ option.greatest := by
  unfold ofArgument at h
  split at h
  · cases h
  · split at h
    · next hrange =>
      cases h
      exact le_of_inRange? hrange
    · cases h

theorem le_of_ofSetting {number : Binary64} (h : option.ofSetting number = .ok n) :
    1 ≤ n ∧ n ≤ option.greatest := by
  unfold ofSetting at h
  split at h
  · next hrange =>
    cases h
    exact le_of_inRange? hrange
  · cases h

/-- A number that is accepted is in range, wherever it comes from. -/
theorem le_of_resolve {argument : Option String} {setting : Binary64}
    (h : option.resolve argument setting = .ok n) : 1 ≤ n ∧ n ≤ option.greatest := by
  cases argument with
  | none => exact le_of_ofSetting h
  | some value => exact le_of_ofArgument h

/-- **Rounding does not bring a number into range**, or change one that is. -/
theorem inRange?_ofNat (hgreatest : option.greatest ≤ greatestExact) (n : Nat) :
    option.inRange? (.ofNat n) = if 1 ≤ n ∧ n ≤ option.greatest then some n else none := by
  by_cases hexact : n < 1 <<< 53
  · rw [inRange?, Binary64.toInt?_ofNat_of_lt hexact]
    rfl
  · have hrange : ¬(1 ≤ n ∧ n ≤ option.greatest) := by
      rw [greatestExact] at hgreatest
      omega
    rw [if_neg hrange, inRange?]
    split
    · next m hm =>
      have hle := Int.ofNat_le.1 (Binary64.le_of_toInt?_ofNat (Nat.not_lt.1 hexact) hm)
      rw [greatestExact] at hgreatest
      exact if_neg (by omega)
    · rfl

theorem toOption_ofSetting (number : Binary64) :
    (option.ofSetting number).toOption = option.inRange? number := by
  unfold ofSetting
  split <;> next h => exact h.symm

theorem toOption_ofArgument {text : String} (htext : IsDigits text) :
    (option.ofArgument text).toOption = option.inRange? (.ofNat (digitsNumber text)) := by
  unfold ofArgument
  rw [if_neg ((isDigits_iff text).1 htext), digitsValue_eq]
  split <;> next h => exact h.symm

theorem ofArgument_of_not_isDigits {text : String} (htext : ¬IsDigits text) : option.ofArgument text
    = .error (.badOption option.name "Expected a positive integer" (some text)) :=
  if_pos (Classical.not_not.1 (mt (isDigits_iff text).2 htext))

/-- A number that is refused is named in the error. -/
theorem exists_of_resolve_eq_error {argument : Option String} {setting : Binary64}
    {error : InputError} (h : option.resolve argument setting = .error error) :
    ∃ expected value, error = .badOption option.name expected value := by
  cases argument with
  | none =>
    simp only [resolve, ofSetting] at h
    split at h
    · cases h
    · cases h
      exact ⟨_, _, rfl⟩
  | some text =>
    simp only [resolve, ofArgument] at h
    split at h
    · cases h
      exact ⟨_, _, rfl⟩
    · split at h
      · cases h
      · cases h
        exact ⟨_, _, rfl⟩

end NumberOption

/-! ## The three numbers -/

inductive Numeric where
  | workers
  | timeoutMs
  | port
  deriving DecidableEq, Repr

namespace Numeric

def option : Numeric → NumberOption
  | workers => .workers
  | timeoutMs => .timeoutMs
  | port => .port

/-- The greatest number that is accepted: of two of them, the one in front of 2 ^ 53. -/
def limit : Numeric → Nat
  | workers | timeoutMs => 9007199254740991
  | port => 65535

def argument (number : Numeric) (given : Arguments) : Option String :=
  match number with
  | workers => given.workers
  | timeoutMs => given.timeoutMs
  | port => given.port

def setting (number : Numeric) (settings : Settings) : Binary64 :=
  match number with
  | workers => settings.workers
  | timeoutMs => settings.timeoutMs
  | port => settings.port

def value (number : Numeric) (options : Options) : Nat :=
  match number with
  | workers => options.workers
  | timeoutMs => options.timeoutMs
  | port => options.port

/-- What a number comes to. -/
def resolve (number : Numeric) (given : Arguments) (settings : Settings) : Except InputError Nat :=
  number.option.resolve (number.argument given) (number.setting settings)

variable {number : Numeric} {given : Arguments} {settings : Settings}

theorem greatest_eq (number : Numeric) : number.option.greatest = number.limit := by
  cases number <;> rfl

theorem inRange?_ofNat (number : Numeric) (n : Nat) : number.option.inRange? (.ofNat n)
    = if 1 ≤ n ∧ n ≤ number.limit then some n else none := by
  rw [← greatest_eq]
  exact NumberOption.inRange?_ofNat (by cases number <;> decide) n

theorem setting_ofEnvironment (number : Numeric) (env : Environment) :
    number.setting (.ofEnvironment env)
      = env.number number.option.variableName (number.setting .default) := by
  cases number <;> rfl

/-- A number that comes from a text of digits. -/
theorem toOption_resolve_of_digits {env : Environment} {text : String} (htext : IsDigits text)
    (hfrom : number.argument given = some text ∨ number.argument given = none
      ∧ env.lookup number.option.variableName = some text) :
    (number.resolve given (.ofEnvironment env)).toOption
      = if 1 ≤ digitsNumber text ∧ digitsNumber text ≤ number.limit then some (digitsNumber text)
        else none := by
  rw [← inRange?_ofNat, resolve]
  rcases hfrom with hgiven | ⟨hnone, hset⟩
  · rw [hgiven]
    exact NumberOption.toOption_ofArgument htext
  · rw [hnone, setting_ofEnvironment, number_of_digits htext hset]
    exact NumberOption.toOption_ofSetting _

end Numeric

/-! ## Options -/

/-- A computation in two parts succeeds only if both of them do. -/
theorem exists_of_bind_eq_ok {ε α β : Type} {x : Except ε α} {f : α → Except ε β} {b : β}
    (h : (x >>= f) = .ok b) : ∃ a, x = .ok a ∧ f a = .ok b := by
  cases x with
  | error e => cases h
  | ok a => exact ⟨a, rfl, h⟩

theorem eq_ok_of_toOption {ε α : Type} {x : Except ε α} {a : α} (h : x.toOption = some a) :
    x = .ok a := by
  cases x with
  | error e => cases h
  | ok b => exact congrArg Except.ok (Option.some.inj h)

theorem eq_error_of_bind_eq_error {ε α β : Type} {x : Except ε α} {f : α → Except ε β} {e : ε}
    (h : (x >>= f) = .error e) : x = .error e ∨ ∃ a, x = .ok a ∧ f a = .error e := by
  cases x with
  | error e' => exact .inl (Except.error.inj h ▸ rfl)
  | ok a => exact .inr ⟨a, rfl, h⟩

namespace Options
variable {arguments : List String} {given : Arguments} {settings : Settings} {options : Options}

/-- The options of some arguments under some settings, when the numbers are known. -/
def ofNumbers (given : Arguments) (settings : Settings) (numbers : Numeric → Nat) : Options where
  hostnames := given.positionals
  tsvFile := given.tsvFile.filter (· ≠ "")
  help := given.help
  debug := given.debug || settings.debug
  target := given.target.getD settings.target
  workers := numbers .workers
  timeoutMs := numbers .timeoutMs
  port := numbers .port

theorem parse_eq (h : Arguments.parse arguments = .ok given) :
    parse arguments settings = (do
      let workers ← Numeric.workers.resolve given settings
      let timeoutMs ← Numeric.timeoutMs.resolve given settings
      let port ← Numeric.port.resolve given settings
      return ofNumbers given settings fun
        | .workers => workers
        | .timeoutMs => timeoutMs
        | .port => port) := by
  rw [parse, h]
  rfl

/-- **A command line is accepted exactly if its arguments are, and all numbers are in range.** -/
theorem parse_eq_ok_iff : parse arguments settings = .ok options
    ↔ ∃ given numbers, Arguments.parse arguments = .ok given
      ∧ (∀ number : Numeric, number.resolve given settings = .ok (numbers number))
      ∧ options = ofNumbers given settings numbers := by
  constructor
  · intro h
    cases hgiven : Arguments.parse arguments with
    | error error =>
      rw [parse, hgiven] at h
      cases h
    | ok given =>
      rw [parse_eq hgiven] at h
      obtain ⟨workers, hworkers, h⟩ := exists_of_bind_eq_ok h
      obtain ⟨timeoutMs, htimeoutMs, h⟩ := exists_of_bind_eq_ok h
      obtain ⟨port, hport, h⟩ := exists_of_bind_eq_ok h
      refine ⟨given, _, rfl, fun number => ?_, (Except.ok.inj h).symm⟩
      cases number with
      | workers => exact hworkers
      | timeoutMs => exact htimeoutMs
      | port => exact hport
  · rintro ⟨given, numbers, hgiven, hnumbers, rfl⟩
    rw [parse_eq hgiven, hnumbers .workers, hnumbers .timeoutMs, hnumbers .port]
    rfl

theorem value_ofNumbers (number : Numeric) (numbers : Numeric → Nat) :
    number.value (ofNumbers given settings numbers) = numbers number := by
  cases number <;> rfl

/-- Options that are accepted come from accepted arguments, with numbers that are resolved. -/
theorem exists_of_parse (h : Options.parse arguments settings = .ok options) :
    ∃ given, Arguments.parse arguments = .ok given
      ∧ NumberOption.workers.resolve given.workers settings.workers = .ok options.workers
      ∧ options.hostnames = given.positionals ∧ options.tsvFile = given.tsvFile.filter (· ≠ "")
      ∧ options.help = given.help := by
  obtain ⟨given, numbers, hgiven, hnumbers, rfl⟩ := parse_eq_ok_iff.1 h
  exact ⟨given, hgiven, hnumbers .workers, rfl, rfl, rfl⟩

/-- If the arguments and all numbers but one are accepted, that one decides. -/
theorem toOption_parse {number : Numeric} (hgiven : Arguments.parse arguments = .ok given)
    (hothers : ∀ other, other ≠ number → ∃ n, other.resolve given settings = .ok n) :
    (parse arguments settings).toOption.map number.value
      = (number.resolve given settings).toOption := by
  cases hnumber : number.resolve given settings with
  | error error =>
    cases hparse : parse arguments settings with
    | error error => rfl
    | ok options =>
      obtain ⟨_, numbers, hsame, hnumbers, rfl⟩ := parse_eq_ok_iff.1 hparse
      cases hgiven.symm.trans hsame
      cases hnumber.symm.trans (hnumbers number)
  | ok n =>
    have hall : ∀ other : Numeric, ∃ m, other.resolve given settings = .ok m := by
      intro other
      by_cases hother : other = number
      · exact ⟨n, hother ▸ hnumber⟩
      · exact hothers other hother
    obtain ⟨numbers, hnumbers⟩ := Classical.skolem.1 hall
    have hparse := parse_eq_ok_iff.2 ⟨given, numbers, hgiven, hnumbers, rfl⟩
    have hn : numbers number = n := Except.ok.inj ((hnumbers number).symm.trans hnumber)
    rw [hparse]
    exact congrArg some ((value_ofNumbers number numbers).trans hn)

/-- Whatever is wrong with a command line, it is an option. -/
theorem exists_of_parse_eq_error {error : InputError}
    (h : parse arguments settings = .error error) :
    ∃ option expected value, error = .badOption option expected value := by
  cases hgiven : Arguments.parse arguments with
  | error usage =>
    rw [parse, hgiven] at h
    cases h
    exact ⟨_, _, _, rfl⟩
  | ok given =>
    have hresolve : ∀ {number : Numeric}, number.resolve given settings = .error error →
        ∃ option expected value, error = .badOption option expected value :=
      fun h => ⟨_, NumberOption.exists_of_resolve_eq_error h⟩
    rw [parse_eq hgiven] at h
    rcases eq_error_of_bind_eq_error h with h | ⟨_, -, h⟩
    · exact hresolve h
    rcases eq_error_of_bind_eq_error h with h | ⟨_, -, h⟩
    · exact hresolve h
    rcases eq_error_of_bind_eq_error h with h | ⟨_, -, h⟩
    · exact hresolve h
    · cases h

/-- All numbers that are accepted are in range. -/
theorem value_le_of_parse (h : parse arguments settings = .ok options) (number : Numeric) :
    1 ≤ number.value options ∧ number.value options ≤ number.option.greatest := by
  obtain ⟨given, numbers, -, hnumbers, rfl⟩ := parse_eq_ok_iff.1 h
  rw [value_ofNumbers]
  exact NumberOption.le_of_resolve (hnumbers number)

/-- An argument for a number that is no text of digits is refused. -/
theorem exists_of_not_isDigits {number : Numeric} {text : String}
    (hgiven : Arguments.parse arguments = .ok given) (hargument : number.argument given = some text)
    (htext : ¬IsDigits text) : ∃ error, parse arguments settings = .error error
      ∧ error.code = "VALIDATION_INVALID_OPTION" := by
  cases hparse : parse arguments settings with
  | error error =>
    obtain ⟨_, _, _, rfl⟩ := exists_of_parse_eq_error hparse
    exact ⟨_, rfl, rfl⟩
  | ok options =>
    obtain ⟨_, numbers, hsame, hnumbers, -⟩ := parse_eq_ok_iff.1 hparse
    cases hgiven.symm.trans hsame
    have hnumber := hnumbers number
    rw [Numeric.resolve, hargument] at hnumber
    cases (NumberOption.ofArgument_of_not_isDigits htext).symm.trans hnumber

end Options

/-! ## Arguments before settings -/

section
variable {number : Numeric} {env env' : Environment}
  (hagree : ∀ name, name ≠ number.option.variableName → env.lookup name = env'.lookup name)
include hagree

theorem value?_congr {name : String} (h : name ≠ number.option.variableName) :
    env.value? name = env'.value? name := by
  rw [Environment.value?, Environment.value?, hagree name h]

/-- Each variable holds one number, so the others do not notice what it holds. -/
theorem setting_congr {other : Numeric} (h : other ≠ number) :
    other.setting (.ofEnvironment env) = other.setting (.ofEnvironment env') := by
  have hname : other.option.variableName ≠ number.option.variableName := by
    revert h
    cases other <;> cases number <;> decide
  rw [Numeric.setting_ofEnvironment, Numeric.setting_ofEnvironment, Environment.number,
    Environment.number, value?_congr hagree hname]

theorem ofNumbers_congr (given : Arguments) (numbers : Numeric → Nat) :
    Options.ofNumbers given (.ofEnvironment env) numbers
      = Options.ofNumbers given (.ofEnvironment env') numbers := by
  have hdebug : env.value? "AUDIT_DEBUG" = env'.value? "AUDIT_DEBUG" :=
    value?_congr hagree (by cases number <;> decide)
  have htarget : env.value? "AUDIT_TARGET_CN" = env'.value? "AUDIT_TARGET_CN" :=
    value?_congr hagree (by cases number <;> decide)
  simp only [Options.ofNumbers, Settings.ofEnvironment, Environment.flag, Environment.text, hdebug,
    htarget]

/-- An argument decides alone, whatever the variable of the same number holds. -/
theorem parse_congr {arguments : List String} {given : Arguments} {text : String}
    (hgiven : Arguments.parse arguments = .ok given) (htext : number.argument given = some text) :
    Options.parse arguments (.ofEnvironment env)
      = Options.parse arguments (.ofEnvironment env') := by
  have hresolve : ∀ other : Numeric, other.resolve given (.ofEnvironment env)
      = other.resolve given (.ofEnvironment env') := by
    intro other
    rw [Numeric.resolve, Numeric.resolve]
    by_cases hother : other = number
    · subst hother
      rw [htext]
      rfl
    · rw [setting_congr hagree hother]
  rw [Options.parse_eq hgiven, Options.parse_eq hgiven]
  simp only [hresolve, ofNumbers_congr hagree]

end

/-! ## Exactness -/

/-- **Numbers are exact, and the same from both sources.**  A text of digits, given as an argument
    or, without one, as the variable, is accepted exactly if the number that it denotes is in
    range, and then stands for that number, however many digits it has; any other text is refused
    as an argument.  All numbers that are accepted are in range, and an argument makes it
    irrelevant what the variable holds. -/
theorem numbers_are_exact (number : Numeric) :
    (∀ text arguments given env, IsDigits text → Arguments.parse arguments = .ok given →
      (number.argument given = some text ∨ number.argument given = none
        ∧ env.lookup number.option.variableName = some text) →
      (∀ other, other ≠ number → ∃ n, other.resolve given (.ofEnvironment env) = .ok n) →
      (Options.parse arguments (.ofEnvironment env)).toOption.map number.value
        = if 1 ≤ digitsNumber text ∧ digitsNumber text ≤ number.limit then some (digitsNumber text)
          else none)
    ∧ (∀ text arguments given settings, ¬IsDigits text → Arguments.parse arguments = .ok given →
      number.argument given = some text → ∃ error, Options.parse arguments settings = .error error
        ∧ error.code = "VALIDATION_INVALID_OPTION")
    ∧ (∀ arguments env options, Options.parse arguments (.ofEnvironment env) = .ok options →
      1 ≤ number.value options ∧ number.value options ≤ number.limit)
    ∧ ∀ text arguments given env env', Arguments.parse arguments = .ok given →
      number.argument given = some text →
      (∀ name, name ≠ number.option.variableName → env.lookup name = env'.lookup name) →
      Options.parse arguments (.ofEnvironment env)
        = Options.parse arguments (.ofEnvironment env') := by
  refine ⟨fun text arguments given env htext hgiven hfrom hothers => ?_,
    fun text arguments given settings htext hgiven hargument =>
      Options.exists_of_not_isDigits hgiven hargument htext,
    fun arguments env options hparse => ?_,
    fun text arguments given env env' hgiven hargument hagree =>
      parse_congr hagree hgiven hargument⟩
  · rw [Options.toOption_parse hgiven hothers]
    exact Numeric.toOption_resolve_of_digits htext hfrom
  · rw [← number.greatest_eq]
    exact Options.value_le_of_parse hparse number

/-- The greatest number of workers with zeros in front of it as an argument, a number that rounding
    brings down to the one behind it as a variable, and an argument with an exponent. -/
theorem numbers_are_exact_greatest :
    let greatest := ["--workers", "009007199254740991"]
    let env : Environment := [("PROBE_WORKERS", "9007199254740993")]
    (∃ options, Options.parse greatest (.ofEnvironment env) = .ok options
        ∧ options.workers = 9007199254740991)
      ∧ (Options.parse [] (.ofEnvironment env)).toOption = none
      ∧ (∃ error, Options.parse ["--workers", "1e3"] (.ofEnvironment env) = .error error
        ∧ error.code = "VALIDATION_INVALID_OPTION")
      ∧ (∀ options, Options.parse greatest (.ofEnvironment env) = .ok options →
        options.workers ≤ 9007199254740991)
      ∧ Options.parse greatest (.ofEnvironment env)
        = Options.parse greatest (.ofEnvironment []) := by
  intro greatest env
  obtain ⟨hdigits, hrefused, hrange, halone⟩ := numbers_are_exact .workers
  have hgreatest : Arguments.parse greatest
      = .ok { Arguments.none with workers := some "009007199254740991" } :=
    eq_ok_of_toOption (by decide +kernel)
  have hothers : ∀ given : Arguments, given.timeoutMs = none → given.port = none →
      ∀ other, other ≠ Numeric.workers → ∃ n, other.resolve given (.ofEnvironment env) = .ok n := by
    intro given htimeoutMs hport other hother
    cases other with
    | workers => exact absurd rfl hother
    | timeoutMs =>
      rw [Numeric.resolve, Numeric.argument, htimeoutMs]
      exact ⟨1000, rfl⟩
    | port =>
      rw [Numeric.resolve, Numeric.argument, hport]
      exact ⟨443, rfl⟩
  refine ⟨?_, ?_, ?_, fun options h => (hrange _ _ options h).2, ?_⟩
  · have haccepted := hdigits "009007199254740991" greatest _ env (by decide) hgreatest (.inl rfl)
      (hothers _ rfl rfl)
    have hvalues := haccepted.trans (if_pos (by decide))
    obtain ⟨options, hparse, hvalue⟩ := Option.map_eq_some_iff.1 hvalues
    exact ⟨options, eq_ok_of_toOption hparse, hvalue⟩
  · have hgiven : Arguments.parse [] = .ok .none := eq_ok_of_toOption (by decide +kernel)
    have hnone := hdigits "9007199254740993" [] .none env (by decide) hgiven (.inr ⟨rfl, rfl⟩)
      (hothers _ rfl rfl)
    exact Option.map_eq_none_iff.1 (hnone.trans (if_neg (by decide)))
  · exact hrefused "1e3" ["--workers", "1e3"] { Arguments.none with workers := some "1e3" } _
      (by decide) (eq_ok_of_toOption (by decide +kernel)) rfl
  · refine halone "009007199254740991" greatest _ env [] hgreatest rfl fun name hname => ?_
    have hne : (name == "PROBE_WORKERS") = false := beq_eq_false_iff_ne.2 hname
    rw [List.lookup_cons, hne]

end ServedChain.CommandLine
