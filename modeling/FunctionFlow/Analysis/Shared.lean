import FunctionFlow.Analysis.Facts
import FunctionFlow.Flow.Graph
import FunctionFlow.Program.Call
import FunctionFlow.Program.Scope

/-!
Contract: the slots that are read in more than one activation.
-/

namespace FunctionFlow

/-- The slot that an expression in a body of `current` reads, if it belongs to another function. -/
def Program.foreignSlot (program : Program) (current : Option FunctionId) :
    Expr → Checked (Option Vertex)
  | .ident _ { binding := .declared decl, .. } => do
    let owner ← program.owner (← program.decl decl).scope
    if owner = current then return none else return some (← program.declVertex decl)
  | .this _ (some function) =>
    return if some function = current then none else some (.slot (.param function 0))
  | _ => return none

/-- The ids of the slots that some body reads without owning them, by increasing id. -/
def FlowGraph.sharedSlots (graph : FlowGraph) (program : Program) : Checked (List VertexId) := do
  let slots ← program.bodies.mapM fun (current, body) =>
    (body.flatMap Stmt.exprs).mapM (program.foreignSlot current)
  return insertIds ((slots.flatten.filterMap id).filterMap graph.lookup) []

end FunctionFlow
