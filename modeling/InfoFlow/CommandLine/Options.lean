import InfoFlow.Program.Selector

/-!
The options of the command line.

An argument is an option if it starts with a dash. Long options may be joined to their value by an
equals sign, short ones may be joined to each other. Two dashes alone end the options. No option may
be given twice.
-/

namespace InfoFlow

/-- What the command prints about itself. -/
def usage : String := "
Estimate the leakage of a black-box system from samples.

Usage: privug mi [options] <samples>
       privug vulnerability [options] <samples>
       privug (--help | --version)

Options:
    --estimator=<e>             Mutual information estimator: auto,
                                continuous, discrete or mixed
                                [default: auto].
    --n-neigh=<k>               Neighbors for the k-NN estimators
                                [default: 20].
    --min-samples=<n>           Minimum number of samples [default: 100].
    --nats                      Report nats instead of bits.
    --seed=<s>                  Seed for the noise added to continuous
                                samples [default: 0].
    --curve=<steps>             Estimate on <steps> growing prefixes of
                                the samples, and check convergence.
    --delta=<d>                 Delta for delta covergence [default: 0.1].
                                Multiple deltas can be specified as
                                comma-separated values.
    --qstop=<q>                 Number of prefixes to declare
                                delta-convergence [default: 3].
    --abs                       Use absolute convergence instead of relative
                                convergence.
    -v, --verbose               Log progress to stderr.
    -h, --help                  Show help.
    --version                   Show the version."

def version : String := "0.1.0"

/-- What the samples are used for. -/
inductive Command where
  | mutualInformation
  | vulnerability
  deriving Repr, DecidableEq

inductive CommandOption where
  | estimator
  | neighbors
  | minSamples
  | nats
  | seed
  | curve
  | delta
  | window
  | absolute
  | verbose
  | help
  | version
  deriving Repr, DecidableEq

namespace CommandOption

def takesValue : CommandOption → Bool
  | estimator | neighbors | minSamples | seed | curve | delta | window => true
  | nats | absolute | verbose | help | version => false

/-- The option of a long name, which includes its dashes. -/
def ofLong? (name : String) : Option CommandOption :=
  [("--estimator", estimator), ("--n-neigh", neighbors), ("--min-samples", minSamples),
    ("--nats", nats), ("--seed", seed), ("--curve", curve), ("--delta", delta),
    ("--qstop", window), ("--abs", absolute), ("--verbose", verbose), ("--help", help),
    ("--version", version)].lookup name

def ofShort? : Char → Option CommandOption
  | 'v' => some verbose
  | 'h' => some help
  | _ => none

end CommandOption

/-- Arguments sorted into options with their values, and words. -/
structure Arguments where
  options : List (CommandOption × Option String)
  words : List String
  deriving Repr, DecidableEq

namespace Arguments

/-- A dash and another character that is no dash, without blanks after them. -/
def isShort : List Char → Bool
  | '-' :: c :: cs => c != '-' && !cs.any Text.isBlank
  | _ => false

/-- Two dashes and a name. Blanks may only follow an equals sign, and not be line breaks. -/
def isLong : List Char → Bool
  | '-' :: '-' :: cs =>
    let name := cs.takeWhile fun c => !Text.isBlank c
    let rest := cs.drop name.length
    !name.isEmpty && (rest.isEmpty || ((name.drop 1).contains '=' && !rest.contains '\n'))
  | _ => false

/-- A long option and the value it is joined to. -/
def splitLong (cs : List Char) : String × Option String :=
  let name := cs.takeWhile (· != '=')
  let value := (cs.drop name.length).drop 1
  (String.ofList name,
    if name.length < cs.length && !value.contains '\n' then some (String.ofList value) else none)

def addOption (a : Arguments) (option : CommandOption) (value : Option String) : Arguments :=
  { a with options := (option, value) :: a.options }

def addWord (a : Arguments) (word : String) : Arguments := { a with words := word :: a.words }

/-- Sorts arguments; `none` if there is an unknown option, or one with a value too many or too few. -/
def ofList? : List String → Option Arguments
  | [] => some ⟨[], []⟩
  | argument :: rest =>
    let cs := argument.toList
    if isShort cs then do
      let options ← (cs.drop 1).mapM CommandOption.ofShort?
      return options.foldr (fun option a => a.addOption option none) (← ofList? rest)
    else if isLong cs then
      let (name, value) := splitLong cs
      match CommandOption.ofLong? name, value, rest with
      | none, _, _ => none
      | some option, some value, rest =>
        if option.takesValue then (ofList? rest).map (·.addOption option (some value)) else none
      | some option, none, rest =>
        if !option.takesValue then (ofList? rest).map (·.addOption option none)
        else match rest with
          | value :: rest => (ofList? rest).map (·.addOption option (some value))
          | [] => none
    else if argument == "--" then some ⟨[], rest⟩
    else (ofList? rest).map (·.addWord argument)

/-- Whether an option is given. -/
def has (a : Arguments) (option : CommandOption) : Bool := a.options.any (·.1 == option)

/-- The value of an option. -/
def value? (a : Arguments) (option : CommandOption) : Option String := do
  (← a.options.find? (·.1 == option)).2

/-- Whether no option is given twice. -/
def isWithoutRepeats (a : Arguments) : Bool := decide (a.options.map (·.1)).Nodup

/-- A number of 64 bits; blanks alone stand for 0. -/
def readCount? (s : String) : Option UInt64 :=
  if (Text.trim s.toList).isEmpty then some 0
  else (Selector.readIndex? s.toList).map Nat.toUInt64

/-- A number that an option gives, or its default. -/
def count? (a : Arguments) (option : CommandOption) (default : UInt64) : Option UInt64 :=
  match a.value? option with
  | some s => readCount? s
  | none => some default

end Arguments

/-- An estimate that is asked for. -/
structure EstimateRequest where
  command : Command
  estimator : String
  neighbors : UInt64
  minSamples : UInt64
  isNats : Bool
  seed : UInt64
  /-- The number of steps of a curve, if one is asked for. -/
  curve : Option UInt64
  deltas : String
  window : UInt64
  isAbsolute : Bool
  path : String
  deriving Repr, DecidableEq

/-- What a command line asks for. -/
inductive Request where
  | help
  | version
  | estimate (r : EstimateRequest)
  deriving Repr, DecidableEq

namespace Request

def commandOf? : String → Option Command
  | "mi" => some .mutualInformation
  | "vulnerability" => some .vulnerability
  | _ => none

/-- The estimate that a command with some options asks for. -/
def estimateOf? (a : Arguments) (command : Command) (path : String) : Option EstimateRequest := do
  return {
    command := command
    estimator := (a.value? .estimator).getD "auto"
    neighbors := ← a.count? .neighbors 20
    minSamples := ← a.count? .minSamples 100
    isNats := a.has .nats
    seed := ← a.count? .seed 0
    curve := ← match a.value? .curve with
      | some s => (Arguments.readCount? s).map some
      | none => some none
    deltas := (a.value? .delta).getD "0.1"
    window := ← a.count? .window 3
    isAbsolute := a.has .absolute
    path := path
  }

/-- What sorted arguments ask for: a command and a path with any options, or one of the two questions
about the command itself. -/
def ofArguments? (a : Arguments) : Option Request := do
  if !a.isWithoutRepeats then none
  match a.words with
  | [command, path] =>
    let command ← commandOf? command
    if a.has .help then return .help
    if a.has .version then return .version
    return .estimate (← estimateOf? a command path)
  | [] =>
    match a.options.map (·.1) with
    | [CommandOption.help] => return .help
    | [CommandOption.version] => return .version
    | _ => none
  | _ => none

/-- What a command line asks for; `none` if it does not match the usage. -/
def ofList? (arguments : List String) : Option Request := do
  ofArguments? (← Arguments.ofList? arguments)

end Request

end InfoFlow
