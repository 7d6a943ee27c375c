/-!
Contract: what a run reports about itself.

Analyses return the events of their run in order; nothing else about logging concerns them.
-/

namespace FunctionFlow

inductive Level where
  | error
  | warn
  | info
  | debug
  | trace
  deriving DecidableEq, Repr, Inhabited

def Level.name : Level → String
  | error => "ERROR"
  | warn => "WARN"
  | info => "INFO"
  | debug => "DEBUG"
  | trace => "TRACE"

def Level.detail : Level → Nat
  | error => 1
  | warn => 2
  | info => 3
  | debug => 4
  | trace => 5

inductive Event where
  | missingInput (path : String)
  | skippedInput (path : String)
  | unreadableFile (path reason : String)
  | syntaxErrors (path : String)
  | referencesResolved (declared global : Nat)
  | filesParsed (files functions calls : Nat)
  | fullUnavailable
  | nativesSeeded (edges : Nat)
  | directCallsResolved (calls : Nat)
  | bodiesBuilt (vertices edges : Nat)
  | fixedPointReached (steps linked : Nat)
  | demandRound (round edges : Nat)
  | demandConverged (rounds : Nat)
  | recordsWritten (records : Nat) (path : String)
  | runFinished (files functions calls vertices edges bindings : Nat)
  deriving DecidableEq, Repr, Inhabited

namespace Event

def level : Event → Level
  | missingInput _ | skippedInput _ | unreadableFile .. | syntaxErrors _ | fullUnavailable => .warn
  | filesParsed .. | demandConverged _ | recordsWritten .. | runFinished .. => .info
  | referencesResolved .. | nativesSeeded _ | directCallsResolved _ | bodiesBuilt ..
  | fixedPointReached .. | demandRound .. => .debug

def message : Event → String
  | missingInput path => s!"The path \"{path}\" does not exist."
  | skippedInput path => s!"Skipping \"{path}\": not a JavaScript, TypeScript or Vue file."
  | unreadableFile path reason => s!"Cannot read {path}: {reason}"
  | syntaxErrors path => s!"{path}: syntax errors, analysis may be incomplete"
  | referencesResolved declared global => s!"resolved {declared} local and {global} global references"
  | filesParsed files functions calls =>
    s!"parsed {files} files: {functions} functions, {calls} calls"
  | fullUnavailable => "strategy FULL not implemented yet; using DEMAND instead"
  | nativesSeeded edges => s!"seeded {edges} native flow edges"
  | directCallsResolved calls => s!"resolved {calls} direct calls"
  | bodiesBuilt vertices edges =>
    s!"intraprocedural flow graph: {vertices} vertices, {edges} edges"
  | fixedPointReached steps linked => s!"fixed point after {steps} steps, {linked} calls linked"
  | demandRound round edges => s!"demand round {round}: {edges} new flow edges"
  | demandConverged rounds => s!"demand engine converged after {rounds} rounds"
  | recordsWritten records path => s!"wrote {records} binding records to {path}"
  | runFinished files functions calls vertices edges bindings =>
    s!"{files} files, {functions} functions, {calls} calls, {vertices} flow vertices, {edges} flow edges, {bindings} bindings"

def origin : Event → String
  | missingInput _ | skippedInput _ | unreadableFile .. =>
    "js_callgraph::infrastructure::project_loader"
  | syntaxErrors _ => "js_callgraph::infrastructure::js_parser"
  | referencesResolved .. => "js_callgraph::domain::bindings"
  | filesParsed .. => "js_callgraph::application"
  | fullUnavailable => "js_callgraph::domain::strategy"
  | nativesSeeded _ => "js_callgraph::domain::natives"
  | directCallsResolved _ | bodiesBuilt .. => "js_callgraph::domain::flow_builder"
  | fixedPointReached .. => "js_callgraph::domain::pessimistic"
  | demandRound .. | demandConverged _ => "js_callgraph::domain::semioptimistic"
  | recordsWritten .. => "js_callgraph::ports::json_exporter"
  | runFinished .. => "js_callgraph"

def line (event : Event) : String :=
  s!"{event.level.name} {event.message}"

end Event

end FunctionFlow
