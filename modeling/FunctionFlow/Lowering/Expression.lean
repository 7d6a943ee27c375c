import FunctionFlow.Lowering.Function
import FunctionFlow.Tree.Chain

/-!
Contract: lowering of expressions.

Operator chains and comma chains become one flat expression, whatever their length.
-/

namespace FunctionFlow.Lowering

/-- Lowers the callee of a call. What `super` and `import` invoke is not followed. -/
def callee (inner : Rules) (context : Context) (node : Option Node) : Lower Expr :=
  match node with
  | some node =>
    if node.kind = "super" ∨ node.kind = "import" then inert []
    else inner.expression context node none
  | none => inert []

/-- Lowers the arguments of a call. A template is evaluated, and passes no argument on. -/
def arguments (inner : Rules) (context : Context) (node : Option Node) : Lower (List Expr) := do
  match node with
  | some list =>
    if list.kind = "arguments" then
      list.parts.mapM fun part => inner.expression context part none
    else
      inner.effects context list
      return []
  | none => return []

def call (inner : Rules) (context : Context) (node : Node) (calleeField : String) (isNew : Bool) :
    Lower Expr := do
  let id ← openCall context node isNew
  let target ← callee inner context (node.field? calleeField)
  let args ← arguments inner context (node.field? "arguments")
  closeCall id args.length (!isNew && target.isMember)
  fresh (.call · id target args)

/-- The name that an assignment suggests for the function assigned. -/
def assignmentHint (context : Context) (target : Option Node) : Lower (Option String) :=
  match target with
  | some target =>
    match target.kind with
    | "identifier" => return some (← text context target)
    | "member_expression" => text? context (target.field? "property")
    | _ => return none
  | none => return none

def isPlace (kind : String) : Bool :=
  kind == "identifier" || kind == "member_expression" || kind == "subscript_expression"
    || kind == "parenthesized_expression"

/-- Lowers the target of an assignment. The parts of a pattern are evaluated only. -/
def assignmentTarget (inner : Rules) (context : Context) (node : Option Node) : Lower Expr :=
  match node with
  | some node =>
    if isPlace node.kind then inner.expression context node none else inner.inertParts context node
  | none => inert []

def assignment (inner : Rules) (context : Context) (node : Node) : Lower Expr := do
  let hint ← assignmentHint context (node.field? "left")
  let value ← inner.expression? context (node.field? "right") hint
  let target ← assignmentTarget inner context (node.field? "left")
  fresh (.assign · target value)

def isLogicalUpdate (node : Node) : Bool :=
  match node.field? "operator" with
  | some operator => ["||=", "&&=", "??="].contains operator.kind
  | none => false

/-- Lowers a member of an object literal; a member without a value of its own is evaluated. -/
def objectMember (inner : Rules) (context : Context) (node : Node) : Lower (Option Property) := do
  match node.kind with
  | "pair" =>
    let key ← propertyKey? context (node.field? "key")
    match node.field? "value" with
    | some value => return some (.mk key (← inner.expression context value key))
    | none => return none
  | "method_definition" =>
    let key ← propertyKey? context (node.field? "name")
    return some (.mk key (← functionExpr inner context node key))
  | "shorthand_property_identifier" =>
    let key ← text context node
    return some (.mk (some key) (← reference context node))
  | _ =>
    inner.effects context node
    return none

def objectLiteral (inner : Rules) (context : Context) (node : Node) : Lower Expr := do
  let properties := (← node.parts.mapM (objectMember inner context)).filterMap id
  fresh (.object · properties)

def memberAccess (inner : Rules) (context : Context) (node : Node) : Lower Expr := do
  let object ← inner.expression? context (node.field? "object") none
  let property ← propertyKey? context (node.field? "property")
  fresh (.member · object property)

def indexKey (context : Context) (index : Option Node) : Lower (Option String) :=
  match index with
  | some index =>
    if index.kind = "string" ∨ index.kind = "number" then propertyKey context index else return none
  | none => return none

/-- Lowers an access to a property by index. A computed index is evaluated first. -/
def subscriptAccess (inner : Rules) (context : Context) (node : Node) : Lower Expr := do
  let object ← inner.expression? context (node.field? "object") none
  let property ← indexKey context (node.field? "index")
  match node.field? "index", property with
  | some index, none => inner.effects context index
  | _, _ => pure ()
  fresh (.member · object property)

def binary (inner : Rules) (context : Context) (node : Node) (hint : Option String) :
    Lower Expr := do
  let logical := node.isLogical
  let operands ← (node.operatorChain logical).mapM fun operand =>
    inner.expression context operand hint
  if logical then fresh (.select · [] operands) else inert operands

def conditional (inner : Rules) (context : Context) (node : Node) (hint : Option String) :
    Lower Expr := do
  let guards ← (node.field? "condition").toList.mapM fun part => inner.expression context part none
  let branches := (node.field? "consequence").toList ++ (node.field? "alternative").toList
  let values ← branches.mapM fun part => inner.expression context part hint
  fresh (.select · guards values)

def sequence (inner : Rules) (context : Context) (node : Node) (hint : Option String) :
    Lower Expr := do
  let items ← node.sequenceItems.mapM fun item => inner.expression context item hint
  fresh (.select · items.dropLast items.getLast?.toList)

def expression (inner : Rules) (context : Context) (node : Node) (hint : Option String) :
    Lower Expr :=
  match ExpressionForm.ofKind node.kind with
  | .name => reference context node
  | .this => fresh (.this · context.receiver)
  | .wrapped => inner.expression? context node.parts.head? hint
  | .function => functionExpr inner context node hint
  | .classDef => classDef inner context node hint
  | .member => memberAccess inner context node
  | .subscript => subscriptAccess inner context node
  | .call => call inner context node "function" false
  | .construct => call inner context node "constructor" true
  | .assign => assignment inner context node
  | .update =>
    if isLogicalUpdate node then assignment inner context node else inner.inertParts context node
  | .binary => binary inner context node hint
  | .conditional => conditional inner context node hint
  | .sequence => sequence inner context node hint
  | .object => objectLiteral inner context node
  | .inert => inner.inertParts context node

end FunctionFlow.Lowering
