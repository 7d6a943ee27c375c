import FunctionFlow.CommandLine.Arguments
import FunctionFlow.Project.Run
import FunctionFlow.Text.Plain

/-!
Contract: what the command line does with its arguments.

Without an option that says otherwise, the call graph is put out; the option for the flow graph
says otherwise.
-/

namespace FunctionFlow

def Event.isLogged (event : Event) : Option Level → Bool
  | none => false
  | some level => event.level.detail ≤ level.detail

def indentLines (text : String) : String :=
  String.ofList (text.toList.flatMap fun char =>
    if char = '\n' then '\n' :: List.replicate 4 ' ' else [char])

def Event.logLine (event : Event) : String :=
  let level := event.level.name
  let padding := String.ofList (List.replicate (5 - level.length) ' ')
  Text.plain s!"[{level}{padding} {event.origin}] {indentLines event.message}"

def Summary.event (summary : Summary) : Event :=
  .runFinished summary.files summary.functions summary.calls summary.vertices summary.edges
    summary.bindings

structure Report where
  code : Nat
  output : String
  log : List String
  error : Option String
  files : FileTree
  deriving Inhabited

namespace Arguments

def settings (arguments : Arguments) : Fallible Settings := do
  return {
    inputs := arguments.inputs
    strategy := ← Strategy.parse arguments.strategy
    showsCallGraph := arguments.showsCallGraph || !arguments.showsFlowGraph
    showsFlowGraph := arguments.showsFlowGraph
    output := arguments.output
    filter := arguments.filter
    natives := arguments.natives }

def run (arguments : Arguments) : Run Summary := do
  let settings ← Run.ofFallible arguments.settings
  let summary ← settings.execute
  Run.report [summary.event]
  return summary

def log (arguments : Arguments) (outcome : Outcome Summary) : List String :=
  let lines := (outcome.progress.events.filter (·.isLogged arguments.logLevel)).map Event.logLine
  match outcome.result with
  | .ok summary =>
    lines ++ if arguments.showsTimes then summary.phases.map ("[Time] " ++ ·) else []
  | .error _ => lines

end Arguments

namespace Report

def ofRun (arguments : Arguments) (files : FileTree) : Report :=
  let outcome := arguments.run.on files
  let (code, error) := match outcome.result with
    | .ok _ => (0, none)
    | .error failure => (1, some failure.message)
  { code
    output := outcome.progress.printed
    log := arguments.log outcome
    error
    files := outcome.progress.files }

def ofArguments (words : List String) (files : FileTree) : Report :=
  match Arguments.parse? words with
  | some arguments => ofRun arguments files
  | none => { code := 2, output := "", log := [], error := none, files }

end Report

end FunctionFlow
