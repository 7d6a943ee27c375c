import FunctionFlow.Program.Basic

/-!
Contract: walks along scope chains.

A chain without repetition visits each scope once, so a walk that ends takes at most as many steps
as the program has scopes. A walk that takes more runs in a circle, and fails.
-/

namespace FunctionFlow.Program

/-- Follows parents from `scope` for at most `steps` scopes and gives the first answer of `ask`. -/
def climbWithin {α : Type} (program : Program) (ask : ScopeId → Scope → Option α) :
    (steps : Nat) → (scope : ScopeId) → Checked (Option α)
  | 0, _ => throw .endless
  | steps + 1, id => do
    let scope ← program.scope id
    match ask id scope, scope.parent with
    | some answer, _ => return some answer
    | none, some parent => climbWithin program ask steps parent
    | none, none => return none

def climb {α : Type} (program : Program) (ask : ScopeId → Scope → Option α) (scope : ScopeId) :
    Checked (Option α) :=
  climbWithin program ask (program.scopes.size + 1) scope

/-- The declaration of `name` in the nearest scope that has one. -/
def lookup (program : Program) (scope : ScopeId) (name : String) : Checked (Option DeclId) :=
  program.climb (fun _ entry => entry.names.find? name) scope

/-- The scope that hoisted declarations go to: the nearest one that is no inner block. -/
def hoistingScope (program : Program) (scope : ScopeId) : Checked ScopeId := do
  let found ← program.climb
    (fun id entry => if entry.kind = .block ∧ entry.parent.isSome then none else some id) scope
  return found.getD scope

def functionOfScope? (program : Program) (scope : ScopeId) : Option FunctionId :=
  (program.functions.toList.zipIdx.reverse.find? (·.1.scope == scope)).map (·.2)

/-- Follows parents until the scope of a function. -/
def ownerWithin (program : Program) : (steps : Nat) → (scope : ScopeId) → Checked (Option FunctionId)
  | 0, _ => throw .endless
  | steps + 1, id =>
    match program.functionOfScope? id with
    | some function => return some function
    | none => do
      match (← program.scope id).parent with
      | some parent => ownerWithin program steps parent
      | none => return none

/-- The function in whose activation the names of `scope` live. A scope that is a function's own
answers without a look at the table of scopes. -/
def owner (program : Program) (scope : ScopeId) : Checked (Option FunctionId) :=
  ownerWithin program (program.scopes.size + 1) scope

end FunctionFlow.Program
