import FunctionFlow.Flow.Graph

/-!
Contract: the flow inside the bodies of a program.

These edges depend on the program only. Every function and every call has its vertex, also when
nothing flows into it; which function a call invokes is not decided here.
-/

namespace FunctionFlow

namespace Build

def reference (program : Program) (reference : Reference) : Build VertexId := do
  match reference.binding with
  | .declared decl => vertex (← program.declVertex decl)
  | .global | .unresolved => vertex (.named reference.name)

/-- The vertex of a property; a computed property has none. -/
def property (name : Option String) : Build (Option VertexId) :=
  match name with
  | some name => return some (← vertex (.named name))
  | none => return none

/-- Passes the object of a called property on as the receiver of the call. -/
def receiver (program : Program) (site : CallId) (object : Option VertexId) : Build Unit := do
  if (← program.call site).hasReceiver then
    flow object (← vertex (.slot (.arg site 0)))

/-- The vertex at which the values of several vertices meet. One vertex needs no meeting point. -/
def merge (node : NodeId) (sources : List VertexId) : Build (Option VertexId) := do
  match sources with
  | [] => return none
  | [single] => return some single
  | several =>
    let target ← vertex (.slot (.merge node))
    several.forM fun source => discard <| edge source target
    return some target

mutual
/-- Adds the edges of an expression. The answer is the vertex that holds the value of the
expression, if that value can carry a function. -/
def expr (program : Program) : Expr → Build (Option VertexId)
  | .function _ target => return some (← vertex (.function target))
  | .ident _ target => return some (← reference program target)
  | .this _ owner =>
    match owner with
    | some function => return some (← vertex (.slot (.param function 0)))
    | none => return none
  | .member _ object name => do
    discard <| expr program object
    property name
  | .call _ site (.member _ object name) arguments => do
    let object ← expr program object
    receiver program site object
    let callee ← property name
    flow callee (← vertex (.callee site))
    args program site 1 arguments
    return some (← vertex (.slot (.result site)))
  | .call _ site callee arguments => do
    let callee ← expr program callee
    flow callee (← vertex (.callee site))
    args program site 1 arguments
    return some (← vertex (.slot (.result site)))
  | .assign _ target value => do
    let value ← expr program value
    match ← expr program target with
    | some target => flow value target
    | none => pure ()
    return value
  | .select node guards values => do
    discard <| exprs program guards
    merge node (← exprs program values)
  | .object _ entries => do
    properties program entries
    return none
  | .inert _ parts => do
    discard <| exprs program parts
    return none
def exprs (program : Program) : List Expr → Build (List VertexId)
  | [] => return []
  | first :: rest => do
    let first ← expr program first
    let rest ← exprs program rest
    return first.toList ++ rest
def args (program : Program) (site : CallId) (index : Nat) : List Expr → Build Unit
  | [] => return ()
  | first :: rest => do
    let value ← expr program first
    flow value (← vertex (.slot (.arg site index)))
    args program site (index + 1) rest
def properties (program : Program) : List Property → Build Unit
  | [] => return ()
  | .mk key value :: rest => do
    let value ← expr program value
    match key with
    | some name => flow value (← vertex (.named name))
    | none => pure ()
    properties program rest
end

def stmt (program : Program) (function : Option FunctionId) : Stmt → Build Unit
  | .expr value => discard <| expr program value
  | .declare _ none => return ()
  | .declare decl (some initial) => do
    let value ← expr program initial
    flow value (← vertex (← program.declVertex decl))
  | .result value => do
    let value ← match value with
      | some value => expr program value
      | none => pure none
    match function with
    | some function => flow value (← vertex (.slot (.returned function)))
    | none => return ()

/-- Adds the edges of all bodies, after a vertex for each function and each call. -/
def bodies (program : Program) : Build Unit := do
  (List.range program.functions.size).forM fun id => discard <| vertex (.function id)
  (List.range program.calls.size).forM fun id => discard <| vertex (.callee id)
  program.bodies.forM fun (function, body) => body.forM (stmt program function)

end Build

def FlowGraph.addBodies (graph : FlowGraph) (program : Program) : Checked FlowGraph := do
  let ((), graph) ← (Build.bodies program).run graph
  return graph

end FunctionFlow
