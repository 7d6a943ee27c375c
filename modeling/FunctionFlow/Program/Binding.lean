import FunctionFlow.Program.Scope

/-!
Contract: binding resolution.

The whole program is known before names are resolved, so a hoisted declaration is visible
everywhere in its scope.
-/

namespace FunctionFlow

structure Resolution where
  decls : Array Declaration
  declared : Nat := 0
  global : Nat := 0

abbrev Resolve := StateT Resolution Checked

namespace Resolve

/-- Counts one write of `decl` and lets `update` see the value that it holds. -/
def write (decl : DeclId) (update : Option FunctionId → Option FunctionId) : Resolve Unit := do
  let state ← get
  let entry ← fetch state.decls decl (.declaration decl)
  let written :=
    { entry with writes := entry.writes + 1, functionValue := update entry.functionValue }
  set { state with decls := state.decls.setIfInBounds decl written }

def reference (program : Program) (reference : Reference) : Resolve Reference := do
  match reference.binding with
  | .declared _ | .global => return reference
  | .unresolved =>
    match ← program.lookup reference.scope reference.name with
    | some decl =>
      modify fun state => { state with declared := state.declared + 1 }
      return { reference with binding := .declared decl }
    | none =>
      modify fun state => { state with global := state.global + 1 }
      return { reference with binding := .global }

/-- Counts the write that an assignment to `target` makes. The first function literal that a name
is assigned stays its function value. -/
def assignment (target value : Expr) : Resolve Unit := do
  match target with
  | .ident _ { binding := .declared decl, .. } => write decl fun held => held.or value.literal?
  | _ => return ()

mutual
def expr (program : Program) : Expr → Resolve Expr
  | .function node target => return .function node target
  | .this node owner => return .this node owner
  | .ident node target => return .ident node (← reference program target)
  | .member node object property => return .member node (← expr program object) property
  | .call node site callee args => do
    let callee ← expr program callee
    let args ← exprs program args
    return .call node site callee args
  | .assign node target value => do
    let target ← expr program target
    let value ← expr program value
    assignment target value
    return .assign node target value
  | .select node guards values => do
    let guards ← exprs program guards
    let values ← exprs program values
    return .select node guards values
  | .object node entries => return .object node (← properties program entries)
  | .inert node parts => return .inert node (← exprs program parts)
def exprs (program : Program) : List Expr → Resolve (List Expr)
  | [] => return []
  | first :: rest => do
    let first ← expr program first
    let rest ← exprs program rest
    return first :: rest
def properties (program : Program) : List Property → Resolve (List Property)
  | [] => return []
  | .mk key value :: rest => do
    let value ← expr program value
    let rest ← properties program rest
    return .mk key value :: rest
end

/-- Resolves the references of a statement. An initialisation is a write, and the function literal
of the last initialisation is the function value. -/
def stmt (program : Program) : Stmt → Resolve Stmt
  | .expr value => return .expr (← expr program value)
  | .declare decl none => do
    discard <| fetch (← get).decls decl (.declaration decl)
    return .declare decl none
  | .declare decl (some initial) => do
    write decl fun held => initial.literal?.or held
    return .declare decl (some (← expr program initial))
  | .result none => return .result none
  | .result (some value) => return .result (some (← expr program value))

def body (program : Program) : List Stmt → Resolve (List Stmt)
  | [] => return []
  | first :: rest => do
    let first ← stmt program first
    let rest ← body program rest
    return first :: rest

def modules (program : Program) : List SourceModule → Resolve (List SourceModule)
  | [] => return []
  | first :: rest => do
    let resolved ← body program first.body
    let rest ← modules program rest
    return { first with body := resolved } :: rest

def functions (program : Program) : List FunctionDef → Resolve (List FunctionDef)
  | [] => return []
  | first :: rest => do
    let resolved ← body program first.body
    let rest ← functions program rest
    return { first with body := resolved } :: rest

end Resolve

structure Bound where
  program : Program
  declared : Nat
  global : Nat

/-- Resolves all references of a program, those of modules before those of functions. -/
def Program.bind (program : Program) : Checked Bound := do
  let resolveAll : Resolve (List SourceModule × List FunctionDef) := do
    let modules ← Resolve.modules program program.modules.toList
    let functions ← Resolve.functions program program.functions.toList
    return (modules, functions)
  let ((modules, functions), resolution) ← resolveAll.run { decls := program.decls }
  return {
    program := { program with
      modules := modules.toArray, functions := functions.toArray, decls := resolution.decls }
    declared := resolution.declared
    global := resolution.global }

end FunctionFlow
