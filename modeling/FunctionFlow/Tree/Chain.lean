import FunctionFlow.Tree.Node

/-!
Contract: operator chains and comma chains, read as flat lists.

Both walks collect the operands in source order, whatever the length of the chain.
-/

namespace FunctionFlow.Node

/-- Walks down the left spine of a chain; `later` are the operands right of `node`. -/
def operatorChainFrom (node : Node) (logical : Bool) (later : List Node) : List Node :=
  let operands := (node.field? "right").toList ++ later
  match _found : node.field? "left" with
  | some left =>
    if left.kind = "binary_expression" ∧ left.isLogical = logical then
      operatorChainFrom left logical operands
    else left :: operands
  | none => operands
termination_by node.height
decreasing_by exact height_lt_of_field? _found

/-- The operands of a chain of binary operators. The walk goes on into a left operand whose
operator is of the same class, choosing (`logical`) or not. -/
def operatorChain (node : Node) (logical : Bool) : List Node :=
  operatorChainFrom node logical []

/-- Walks down the right spine of a comma expression; `earlier` are the items left of `node`. -/
def sequenceItemsFrom (node : Node) (earlier : List Node) : List Node :=
  match _found : node.parts.getLast? with
  | some last =>
    let items := earlier ++ node.parts.dropLast
    if last.kind = "sequence_expression" then sequenceItemsFrom last items
    else items ++ [last]
  | none => earlier
termination_by node.height
decreasing_by exact height_lt_of_mem_parts (List.mem_of_getLast? _found)

def sequenceItems (node : Node) : List Node :=
  sequenceItemsFrom node []

end FunctionFlow.Node
