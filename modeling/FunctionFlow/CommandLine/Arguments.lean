import FunctionFlow.Event
import FunctionFlow.Text.Case
import FunctionFlow.Text.Digit

/-!
Contract: the arguments of the command line.

A long option has its value in the next argument or after an equals sign, a short one also right
behind its letter. After two hyphens everything is an input.
-/

namespace FunctionFlow

inductive CommandOption where
  | strategy
  | callGraph
  | flowGraph
  | output
  | filter
  | natives
  | times
  | jobs
  | logLevel
  deriving DecidableEq, Repr

namespace CommandOption

def hasValue : CommandOption → Bool
  | callGraph | flowGraph | times => false
  | _ => true

def ofName? : String → Option CommandOption
  | "strategy" => some strategy
  | "cg" => some callGraph
  | "fg" => some flowGraph
  | "output" => some output
  | "filter" => some filter
  | "natives" => some natives
  | "time" => some times
  | "jobs" => some jobs
  | "log-level" => some logLevel
  | _ => none

def ofLetter? : Char → Option CommandOption
  | 'o' => some output
  | 'j' => some jobs
  | _ => none

end CommandOption

inductive ArgumentForm where
  | input
  | endOfOptions
  | named (option : CommandOption) (value : Option String)
  | unknown
  deriving DecidableEq, Repr

namespace ArgumentForm

def ofLong (text : List Char) : ArgumentForm :=
  let name := text.takeWhile (· ≠ '=')
  let value := match text.dropWhile (· ≠ '=') with
    | [] => none
    | _ :: rest => some (String.ofList rest)
  match CommandOption.ofName? (String.ofList name) with
  | some option => named option value
  | none => unknown

def ofShort (letter : Char) (rest : List Char) : ArgumentForm :=
  match CommandOption.ofLetter? letter with
  | none => unknown
  | some option =>
    match rest with
    | [] => named option none
    | '=' :: rest => named option (some (String.ofList rest))
    | rest => named option (some (String.ofList rest))

def ofArgument (argument : String) : ArgumentForm :=
  match argument.toList with
  | ['-', '-'] => endOfOptions
  | '-' :: '-' :: text => ofLong text
  | '-' :: letter :: rest => ofShort letter rest
  | _ => input

end ArgumentForm

structure Given where
  options : List (CommandOption × String)
  inputs : List String
  deriving DecidableEq, Repr

namespace Given

def value? (given : Given) (option : CommandOption) : Option String :=
  given.options.lookup option

def has (given : Given) (option : CommandOption) : Bool :=
  (given.value? option).isSome

def addOption (given : Given) (option : CommandOption) (value : String) : Option Given :=
  if given.has option then none
  else some { given with options := given.options ++ [(option, value)] }

def addInput (given : Given) (input : String) : Given :=
  { given with inputs := given.inputs ++ [input] }

def scan : Given → List String → Option Given
  | given, [] => some given
  | given, argument :: rest =>
    match ArgumentForm.ofArgument argument with
    | .input => (given.addInput argument).scan rest
    | .endOfOptions => some { given with inputs := given.inputs ++ rest }
    | .unknown => none
    | .named option (some value) =>
      if option.hasValue then do (← given.addOption option value).scan rest else none
    | .named option none =>
      if !option.hasValue then do (← given.addOption option "").scan rest
      else
        match rest with
        | [] => none
        | value :: rest =>
          if ArgumentForm.ofArgument value = .input then do
            (← given.addOption option value).scan rest
          else none

end Given

structure Arguments where
  inputs : List String
  strategy : String
  showsCallGraph : Bool
  showsFlowGraph : Bool
  output : Option String
  filter : Option String
  natives : Option String
  showsTimes : Bool
  jobs : Option Nat
  logLevel : Option Level
  deriving DecidableEq, Repr

namespace Arguments

def logLevel? (word : String) : Option (Option Level) :=
  match Text.lower word with
  | "off" => some none
  | "error" => some (some .error)
  | "warn" => some (some .warn)
  | "info" => some (some .info)
  | "debug" => some (some .debug)
  | "trace" => some (some .trace)
  | _ => none

def number? (word : String) : Option Nat :=
  let digits := match word.toList with
    | '+' :: digits => digits
    | digits => digits
  let value := numberOf 10 digits
  if digits.isEmpty ∨ ¬ digits.all (isDigitOf 10) ∨ Nat.pow 2 64 ≤ value then none else some value

def path? (word : String) : Option String :=
  if word.isEmpty then none else some word

def valueWith {α : Type} (given : Given) (option : CommandOption) (read : String → Option α) :
    Option (Option α) :=
  match given.value? option with
  | none => some none
  | some word => (read word).map some

def parse? (words : List String) : Option Arguments := do
  let given ← Given.scan ⟨[], []⟩ words
  if given.inputs.isEmpty then failure
  let filter ← valueWith given .filter path?
  let natives ← valueWith given .natives path?
  let jobs ← valueWith given .jobs number?
  let logLevel ← valueWith given .logLevel logLevel?
  return {
    inputs := given.inputs
    strategy := (given.value? .strategy).getD "ONESHOT"
    showsCallGraph := given.has .callGraph
    showsFlowGraph := given.has .flowGraph
    output := given.value? .output
    filter
    natives
    showsTimes := given.has .times
    jobs
    logLevel := logLevel.getD (some .warn) }

end Arguments

end FunctionFlow
