import FunctionFlow.Event
import FunctionFlow.Lowering.Statement
import FunctionFlow.Program.Binding
import FunctionFlow.Tree.Component

/-!
Contract: from source files to the program.
-/

namespace FunctionFlow

structure SyntaxTree where
  hasErrors : Bool
  root : Node
  deriving Inhabited

/-- A source file. The tree of a component is the tree of its script. -/
structure SourceFile where
  path : String
  text : String
  tree : SyntaxTree
  deriving Inhabited

def SourceFile.analysedText (file : SourceFile) : String :=
  if Text.endsInWord ".vue" file.path then
    match Component.scriptOf? file.text with
    | some (script, _) => script
    | none => ""
  else file.text

def SourceFile.events (file : SourceFile) : List Event :=
  if file.tree.hasErrors then [.syntaxErrors file.path] else []

def Program.addSource (program : Program) (source : SourceFile) : Checked Program := do
  let (file, program) := program.addFile source.path
  let (scope, program) := program.addScope .file none
  let context : Lowering.Context :=
    { source := .ofString source.analysedText, file, scope, function := none, receiver := none }
  let root := source.tree.root
  let lowered := (Lowering.Rules.atHeight root.height).statements context root
  let ((), state) ← lowered.run { program, body := [] }
  let program := state.program
  return { program with modules := program.modules.push { file, scope, body := state.body } }

def Program.addSources : Program → List SourceFile → Checked Program
  | program, [] => return program
  | program, source :: rest => do addSources (← program.addSource source) rest

structure Parsed where
  program : Program
  events : List Event

def Program.ofSources (sources : List SourceFile) : Checked Parsed := do
  let lowered ← ({} : Program).addSources sources
  let bound ← lowered.bind
  return {
    program := bound.program
    events := sources.flatMap SourceFile.events
      ++ [.referencesResolved bound.declared bound.global] }

end FunctionFlow
