import FunctionFlow.Analysis.Strategy
import FunctionFlow.CallGraph.Export
import FunctionFlow.Flow.NativeFile
import FunctionFlow.Flow.StandardNatives
import FunctionFlow.Project.Collect
import FunctionFlow.Project.Filter

/-!
Contract: one run, from settings to output.

What was reported, printed or created before a failure stays.
-/

namespace FunctionFlow

structure Settings where
  inputs : List String
  strategy : Strategy := .standard
  showsCallGraph : Bool
  showsFlowGraph : Bool
  output : Option String := none
  filter : Option String := none
  natives : Option String := none
  deriving DecidableEq, Repr, Inhabited

structure Summary where
  files : Nat
  functions : Nat
  calls : Nat
  vertices : Nat
  edges : Nat
  bindings : Nat
  phases : List String
  deriving DecidableEq, Repr, Inhabited

structure Progress where
  files : FileTree
  events : List Event := []
  printed : String := ""
  deriving Inhabited

abbrev Run := ExceptT Failure (StateM Progress)

namespace Run

def report (events : List Event) : Run Unit :=
  modify fun progress => { progress with events := progress.events ++ events }

def print (text : String) : Run Unit :=
  modify fun progress => { progress with printed := progress.printed ++ text }

def files : Run FileTree := return (← get).files

def ofFallible {α : Type} (result : Fallible α) : Run α := liftExcept result

def ofChecked {α : Type} (result : Checked α) : Run α := ofFallible result

end Run

/-- The end of a run, with all that was done on the way. -/
structure Outcome (α : Type) where
  result : Fallible α
  progress : Progress

def Run.on {α : Type} (run : Run α) (files : FileTree) : Outcome α :=
  let (result, progress) := (ExceptT.run run).run { files }
  { result, progress }

namespace Settings

def resolveFiles (settings : Settings) : Run (List String) := do
  let root ← Run.files
  Run.report (root.collectEvents settings.inputs)
  let collected := root.collect settings.inputs
  let kept ← match settings.filter with
    | none => pure collected
    | some path =>
      match root.readText path with
      | .error _ => throw (.unreadableRules path)
      | .ok text => pure (Filter.choose (← Run.ofFallible (FilterRule.parseAll text)) collected)
  if kept.isEmpty then throw .noFiles
  return kept

def loadSources (paths : List String) : Run (List SourceFile) := do
  let root ← Run.files
  Run.report (root.loadEvents paths)
  return root.load paths

def nativeTable (settings : Settings) : Run NativeTable := do
  match settings.natives with
  | none => return .standard
  | some path =>
    match (← Run.files).readText path with
    | .error _ => throw (.unreadableNatives path)
    | .ok text =>
      match NativeTable.ofToml? text with
      | some table => return table
      | none => throw (.invalidNativesFile path)

def printCallGraph (program : Program) (graph : CallGraph) : Run Nat := do
  let (lines, failure) := graph.listing program
  Run.print (joinLines lines)
  match failure with
  | some failure => throw failure
  | none => return lines.length

def store (path : String) (sink : Sink) : Run Unit := do
  match (← Run.files).create path { bytes := sink.bytes.toByteArray } with
  | some files => modify fun progress => { progress with files }
  | none => throw (.uncreatable path)

def writeCallGraph (program : Program) (graph : CallGraph) (path : String) : Run Nat := do
  store path .perfect
  match graph.write program (.fresh .perfect ArrayWriter.standardThreshold) with
  | (some failure, writer) =>
    store path writer.abandon.sink
    throw failure
  | (none, writer) =>
    let (fault, closed) := writer.finish
    store path closed.sink
    match fault with
    | some fault => throw (.unwritten fault)
    | none =>
      Run.report [.recordsWritten writer.records path]
      return writer.records

def exportCallGraph (settings : Settings) (program : Program) (graph : CallGraph) : Run Nat :=
  match settings.output with
  | none => printCallGraph program graph
  | some path => writeCallGraph program graph (jsonPath path)

def analyse (settings : Settings) (strategy : Strategy) (sources : List SourceFile)
    (natives : NativeTable) : Run Summary := do
  let { program, events } ← Run.ofChecked (Program.ofSources sources)
  Run.report events
  Run.report
    [.filesParsed program.files.size program.functions.size program.calls.size]
  let analysis ← Run.ofChecked (Analysis.ofStrategy program natives strategy)
  Run.report analysis.events
  if settings.showsFlowGraph then
    Run.print (joinLines (← Run.ofChecked (analysis.flow.dump program)))
  let bindings ←
    if settings.showsCallGraph then settings.exportCallGraph program analysis.callGraph
    else pure 0
  return {
    files := program.files.size
    functions := program.functions.size
    calls := program.calls.size
    vertices := analysis.flow.size
    edges := analysis.flow.edgeCount
    bindings
    phases := ["parse", "analysis"] ++ if settings.showsCallGraph then ["output"] else [] }

/-- The whole run. A failure of the analysis is reported under the name of the strategy. -/
def execute (settings : Settings) : Run Summary := do
  let paths ← settings.resolveFiles
  let sources ← loadSources paths
  let natives ← settings.nativeTable
  Run.report settings.strategy.events
  let strategy := settings.strategy.effective
  tryCatch (settings.analyse strategy sources natives) fun failure =>
    throw (.analysis strategy.name failure)

end Settings

end FunctionFlow
