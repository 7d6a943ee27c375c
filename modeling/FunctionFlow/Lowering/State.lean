import FunctionFlow.Program.Scope
import FunctionFlow.Tree.Form

/-!
Contract: the state of lowering a syntax tree into the program.
-/

namespace FunctionFlow.Lowering

structure Context where
  source : Source
  file : FileId
  scope : ScopeId
  function : Option FunctionId
  /-- The nearest function around the node that has a receiver of its own. -/
  receiver : Option FunctionId

/-- The program so far, and the statements of the body that is being collected. -/
structure State where
  program : Program
  body : List Stmt

end Lowering

abbrev Lower := StateT Lowering.State Checked

namespace Lowering

def text (context : Context) (node : Node) : Lower String :=
  context.source.slice node.info.startByte node.info.endByte

def spanOf (context : Context) (node : Node) : Span :=
  context.source.spanOf node.info.startByte node.info.endByte

def fresh (build : NodeId → Expr) : Lower Expr := do
  let state ← get
  let (node, program) := state.program.freshNode
  set { state with program }
  return build node

def inert (parts : List Expr) : Lower Expr :=
  fresh (.inert · parts)

def emit (stmt : Stmt) : Lower Unit :=
  modify fun state => { state with body := state.body ++ [stmt] }

def effect (value : Expr) : Lower Unit :=
  emit (.expr value)

def addScope (context : Context) (kind : ScopeKind) : Lower ScopeId := do
  let state ← get
  let (scope, program) := state.program.addScope kind (some context.scope)
  set { state with program }
  return scope

def enterBlock (context : Context) : Lower Context := do
  return { context with scope := ← addScope context .block }

/-- The scope that hoisted declarations go to. -/
def hoistingScope (context : Context) : Lower ScopeId := do
  (← get).program.hoistingScope context.scope

def declare (context : Context) (scope : ScopeId) (node : Node) (kind : DeclKind) :
    Lower DeclId := do
  let name ← text context node
  let state ← get
  let (decl, program) ← state.program.declare scope name kind context.file (spanOf context node)
  set { state with program }
  return decl

def reference (context : Context) (node : Node) : Lower Expr := do
  let name ← text context node
  fresh (.ident · { name, scope := context.scope, binding := .unresolved })

/-- A read of a property of some object that is not followed. -/
def propertyRead (key : String) : Lower Expr := do
  let object ← inert []
  fresh (.member · object (some key))

def readInto (decl : DeclId) (key : String) : Lower Unit := do
  emit (.declare decl (some (← propertyRead key)))

/-- Writes a value to the property `key` of an object that nothing else refers to. -/
def exportProperty (key : String) (value : Expr) : Lower Unit := do
  effect (← fresh (.object · [.mk (some key) value]))

def unquote (raw : String) : String :=
  let isQuote := fun char : Char => char == '"' || char == '\''
  String.ofList ((raw.toList.dropWhile isQuote).reverse.dropWhile isQuote).reverse

/-- The name that a property key spells; a computed key spells none. -/
def propertyKey (context : Context) (node : Node) : Lower (Option String) := do
  match KeyForm.ofKind node.kind with
  | .plain => return some (← text context node)
  | .quoted => return some (unquote (← text context node))
  | .computed => return none

def propertyKey? (context : Context) (node : Option Node) : Lower (Option String) :=
  match node with
  | some node => propertyKey context node
  | none => return none

def text? (context : Context) (node : Option Node) : Lower (Option String) :=
  match node with
  | some node => return some (← text context node)
  | none => return none

def openFunction (context : Context) (node : Node) (name : Option String) (isArrow : Bool) :
    Lower (FunctionId × ScopeId) := do
  let scope ← addScope context .function
  let state ← get
  let id := state.program.functions.size
  let definition : FunctionDef :=
    { id, name, file := context.file, enclosing := context.function, span := spanOf context node
      params := [], isArrow, scope, body := [] }
  let program := { state.program with functions := state.program.functions.push definition }
  set { state with program }
  return (id, scope)

def takeBody : Lower (List Stmt) :=
  modifyGet fun state => (state.body, { state with body := [] })

/-- Ends a function: the collected statements are its body, and `outer` is collected again. -/
def closeFunction (id : FunctionId) (params : List (Option DeclId)) (outer : List Stmt) :
    Lower Unit := do
  let state ← get
  let definition ← state.program.function id
  let closed := { definition with params, body := state.body }
  let program := { state.program with functions := state.program.functions.setIfInBounds id closed }
  set { state with program, body := outer }

def openCall (context : Context) (node : Node) (isNew : Bool) : Lower CallId := do
  let state ← get
  let id := state.program.calls.size
  let site : CallSite :=
    { id, file := context.file, enclosing := context.function, span := spanOf context node
      isNew, arity := 0, hasReceiver := false }
  set { state with program := { state.program with calls := state.program.calls.push site } }
  return id

def closeCall (id : CallId) (arity : Nat) (hasReceiver : Bool) : Lower Unit := do
  let state ← get
  let site ← state.program.call id
  let closed := { site with arity, hasReceiver }
  set { state with
    program := { state.program with calls := state.program.calls.setIfInBounds id closed } }

/-- How the nodes of a tree are lowered. The rules for trees of some height rest on the rules for
lower trees. -/
structure Rules where
  statement : Context → Node → Lower Unit
  /-- A function without a name of its own takes the name in the last argument. -/
  expression : Context → Node → Option String → Lower Expr
  /-- Declares the names of a pattern in a scope. The last argument is the property that a plain
  name is read from. -/
  pattern : Context → Node → ScopeId → DeclKind → Option String → Lower Unit
  imports : Context → Node → Lower Unit

def Rules.statements (inner : Rules) (context : Context) (node : Node) : Lower Unit :=
  node.parts.forM (inner.statement context)

/-- Lowers a node and keeps its value for its effects only. -/
def Rules.effects (inner : Rules) (context : Context) (node : Node) : Lower Unit := do
  effect (← inner.expression context node none)

def Rules.expression? (inner : Rules) (context : Context) (node : Option Node)
    (hint : Option String) : Lower Expr :=
  match node with
  | some node => inner.expression context node hint
  | none => inert []

def Rules.inertParts (inner : Rules) (context : Context) (node : Node) : Lower Expr := do
  inert (← node.parts.mapM fun part => inner.expression context part none)

end FunctionFlow.Lowering
