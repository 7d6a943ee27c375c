import FunctionFlow.CallGraph.Basic
import FunctionFlow.Error

/-!
Contract: binding records, the reported form of the call graph.

Only a callee can be the source of a record, and only a function or a built-in function its target.
-/

namespace FunctionFlow

/-- A point of a record; unknown for built-in functions. -/
structure RecordPoint where
  row : Option Nat
  column : Option Nat
  deriving DecidableEq, Repr, Inhabited

/-- A byte range of a record; unknown for built-in functions. -/
structure RecordRange where
  start : Option Nat
  stop : Option Nat
  deriving DecidableEq, Repr, Inhabited

structure Endpoint where
  label : String
  file : String
  start : RecordPoint
  stop : RecordPoint
  range : RecordRange
  deriving DecidableEq, Repr, Inhabited

structure BindingRecord where
  source : Endpoint
  target : Endpoint
  deriving DecidableEq, Repr, Inhabited

def RecordPoint.ofPosition (position : Position) : RecordPoint :=
  ⟨some position.row, some position.column⟩

def RecordPoint.unknown : RecordPoint := ⟨none, none⟩

namespace Endpoint

def located (label file : String) (span : Span) : Endpoint where
  label := label
  file := file
  start := .ofPosition span.start
  stop := .ofPosition span.stop
  range := ⟨some span.startByte, some span.endByte⟩

def native (name : String) : Endpoint where
  label := name
  file := "Native"
  start := .unknown
  stop := .unknown
  range := ⟨none, none⟩

def ofSource (program : Program) : Vertex → Fallible Endpoint
  | .callee id => do
    let site ← program.call id
    let label ← program.enclosingName site.enclosing
    return located label (← program.file site.file) site.span
  | other => do throw (.strangeVertex (← other.label program))

def ofTarget (program : Program) : Vertex → Fallible Endpoint
  | .function id => do
    let function ← program.function id
    return located function.displayName (← program.file function.file) function.span
  | .native name => return native name
  | other => do throw (.strangeVertex (← other.label program))

end Endpoint

def BindingRecord.ofPair (program : Program) (pair : Vertex × Vertex) : Fallible BindingRecord := do
  let source ← Endpoint.ofSource program pair.1
  let target ← Endpoint.ofTarget program pair.2
  return { source, target }

namespace CallGraph

def records (program : Program) (graph : CallGraph) : List (Fallible BindingRecord) :=
  graph.pairs.map (BindingRecord.ofPair program)

/-- The lines of the pairs up to the first one that has no record, and the failure at that pair. -/
def listPairs (program : Program) : List (Vertex × Vertex) → List String × Option Failure
  | [] => ([], none)
  | pair :: rest =>
    let line : Fallible String := do
      discard <| BindingRecord.ofPair program pair
      pretty program pair.1 pair.2
    match line with
    | .ok text =>
      let (lines, failure) := listPairs program rest
      (text :: lines, failure)
    | .error failure => ([], some failure)

def listing (program : Program) (graph : CallGraph) : List String × Option Failure :=
  listPairs program graph.pairs

end CallGraph

def joinLines (lines : List String) : String :=
  String.join (lines.map (· ++ "\n"))

end FunctionFlow
