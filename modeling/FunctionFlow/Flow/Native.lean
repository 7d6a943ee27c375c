import FunctionFlow.Flow.Graph

/-!
Contract: built-in functions as sources of flow.
-/

namespace FunctionFlow

/-- Built-in functions with the identifiers through which programs see them. -/
abbrev NativeTable := NameTable String

namespace Build

/-- Adds an edge from each built-in function to the slot of its identifier, and counts the new
ones. -/
def natives : List (String × String) → Build Nat
  | [] => return 0
  | (native, identifier) :: rest => do
    let source ← vertex (.native native)
    let target ← vertex (.named identifier)
    let isNew ← edge source target
    let later ← natives rest
    return if isNew then later + 1 else later

end Build

def FlowGraph.addNatives (graph : FlowGraph) (table : NativeTable) : Checked (Nat × FlowGraph) :=
  (Build.natives table.entries).run graph

end FunctionFlow
