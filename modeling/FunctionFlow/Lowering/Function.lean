import FunctionFlow.Lowering.State

/-!
Contract: lowering of functions and classes.

Parameters are numbered from one; position zero is the receiver.
-/

namespace FunctionFlow.Lowering

/-- The pattern of a parameter and its default. A typed receiver is no parameter. -/
def parameterParts (node : Node) : Option (Node × Option Node) :=
  match node.kind with
  | "required_parameter" | "optional_parameter" =>
    match node.field? "pattern" with
    | some pattern => if pattern.kind = "this" then none else some (pattern, node.field? "value")
    | none => none
  | "assignment_pattern" => (node.field? "left").map fun pattern => (pattern, node.field? "right")
  | _ => some (node, none)

/-- Lowers one parameter. Only a plain name has a declaration as a parameter. -/
def parameter (inner : Rules) (context : Context) (function : FunctionId) (index : Nat)
    (pattern : Node) (initial : Option Node) : Lower (Option DeclId) := do
  if pattern.kind = "identifier" then
    let decl ← declare context context.scope pattern (.parameter function index)
    match initial with
    | some initial =>
      let name ← text context pattern
      emit (.declare decl (some (← inner.expression context initial (some name))))
    | none => pure ()
    return some decl
  else
    inner.pattern context pattern context.scope .lexical none
    match initial with
    | some initial => inner.effects context initial
    | none => pure ()
    return none

def parameterList (inner : Rules) (context : Context) (function : FunctionId) :
    (index : Nat) → List (Node × Option Node) → Lower (List (Option DeclId))
  | _, [] => return []
  | index, (pattern, initial) :: rest => do
    let first ← parameter inner context function index pattern initial
    let rest ← parameterList inner context function (index + 1) rest
    return first :: rest

def parameters (inner : Rules) (context : Context) (node : Node) (function : FunctionId) :
    Lower (List (Option DeclId)) := do
  match node.field? "parameter", node.field? "parameters" with
  | some single, _ =>
    return [some (← declare context context.scope single (.parameter function 1))]
  | none, some list =>
    parameterList inner context function 1 (list.parts.filterMap parameterParts)
  | none, none => return []

/-- Whether a function can refer to itself by its own name. -/
def bindsOwnName (kind : String) : Bool :=
  kind == "function_expression" || kind == "function" || kind == "generator_function"

/-- Lowers what a function runs. A body that is an expression is also its result. -/
def functionBody (inner : Rules) (context : Context) (node : Node) : Lower Unit := do
  match node.field? "body" with
  | some body =>
    if body.kind = "statement_block" then inner.statements context body
    else emit (.result (some (← inner.expression context body none)))
  | none => return ()

def declareOwnName (context : Context) (name : Node) (function : FunctionId) : Lower Unit := do
  let decl ← declare context context.scope name .function
  emit (.declare decl (some (← fresh (.function · function))))

/-- Adds the function that a node defines. A function without a name of its own is called `hint`. -/
def functionDef (inner : Rules) (context : Context) (node : Node) (hint : Option String) :
    Lower FunctionId := do
  let ownName := if node.kind = "method_definition" then none else node.field? "name"
  let name := (← text? context ownName).or hint
  let isArrow := node.kind == "arrow_function"
  let (id, scope) ← openFunction context node name isArrow
  let outer ← takeBody
  let inside := { context with
    scope, function := some id, receiver := if isArrow then context.receiver else some id }
  match ownName, bindsOwnName node.kind with
  | some name, true => declareOwnName inside name id
  | _, _ => pure ()
  let params ← parameters inner inside node id
  functionBody inner inside node
  closeFunction id params outer
  return id

def functionExpr (inner : Rules) (context : Context) (node : Node) (hint : Option String) :
    Lower Expr := do
  let function ← functionDef inner context node hint
  fresh (.function · function)

inductive ClassMember where
  | constructor (function : FunctionId)
  | property (entry : Property)
  | nothing

def ClassMember.constructor? (members : List ClassMember) : Option FunctionId :=
  (members.filterMap fun
    | .constructor function => some function
    | _ => none).getLast?

def ClassMember.properties (members : List ClassMember) : List Property :=
  members.filterMap fun
    | .property entry => some entry
    | _ => none

def classMember (inner : Rules) (context : Context) (className : Option String) (node : Node) :
    Lower ClassMember := do
  match node.kind with
  | "method_definition" =>
    let key ← propertyKey? context (node.field? "name")
    if key = some "constructor" then
      return .constructor (← functionDef inner context node className)
    else return .property (.mk key (← functionExpr inner context node key))
  | "field_definition" | "public_field_definition" =>
    let key ← propertyKey? context ((node.field? "property").or (node.field? "name"))
    match node.field? "value" with
    | some value => return .property (.mk key (← inner.expression context value key))
    | none => return .nothing
  | "class_static_block" =>
    inner.statement context node
    return .nothing
  | _ => return .nothing

def classPart (inner : Rules) (context : Context) (className : Option String) (node : Node) :
    Lower (List ClassMember) := do
  match node.kind with
  | "class_heritage" =>
    node.parts.forM (inner.effects context)
    return []
  | "class_body" => node.parts.mapM (classMember inner context className)
  | _ => return []

/-- Lowers a class. A class without a name of its own is called `hint`. -/
def classDef (inner : Rules) (context : Context) (node : Node) (hint : Option String) :
    Lower Expr := do
  let name := (← text? context (node.field? "name")).or hint
  let members := (← node.parts.mapM (classPart inner context name)).flatten
  match ClassMember.properties members with
  | [] => pure ()
  | properties => effect (← fresh (.object · properties))
  match ClassMember.constructor? members with
  | some function => fresh (.function · function)
  | none => inert []

end FunctionFlow.Lowering
