import FunctionFlow.Program.Basic

/-!
Contract: the expressions of a program, its calls, and the calls that need no flow analysis.
-/

namespace FunctionFlow

mutual
/-- An expression followed by all expressions inside it. -/
def Expr.all : Expr → List Expr
  | expr@(.function ..) | expr@(.ident ..) | expr@(.this ..) => [expr]
  | expr@(.member _ object _) => expr :: object.all
  | expr@(.call _ _ callee args) => expr :: (callee.all ++ Expr.allOf args)
  | expr@(.assign _ target value) => expr :: (target.all ++ value.all)
  | expr@(.select _ guards values) => expr :: (Expr.allOf guards ++ Expr.allOf values)
  | expr@(.object _ properties) => expr :: Property.allOf properties
  | expr@(.inert _ parts) => expr :: Expr.allOf parts
/-- The expressions of a list, each followed by the expressions inside it. -/
def Expr.allOf : List Expr → List Expr
  | [] => []
  | first :: rest => first.all ++ Expr.allOf rest
def Property.allOf : List Property → List Expr
  | [] => []
  | .mk _ value :: rest => value.all ++ Property.allOf rest
end

def Stmt.exprs : Stmt → List Expr
  | .expr value | .declare _ (some value) | .result (some value) => value.all
  | .declare _ none | .result none => []

def Expr.asCall? : Expr → Option (CallId × Expr)
  | .call _ site callee _ => some (site, callee)
  | _ => none

namespace Program

def exprs (program : Program) : List Expr :=
  program.bodies.flatMap fun (_, body) => body.flatMap Stmt.exprs

/-- Every call expression with its callee, by increasing call. -/
def callExpressions (program : Program) : List (CallId × Expr) :=
  (program.exprs.filterMap Expr.asCall?).mergeSort fun left right => left.1 ≤ right.1

/-- The one function that a declaration can denote: it is written once, and the value written is a
function literal. Callers write parameters, so a parameter never qualifies. -/
def directFunction (program : Program) (id : DeclId) : Checked (Option FunctionId) := do
  let decl ← program.decl id
  match decl.kind with
  | .parameter .. => return none
  | _ => return if decl.writes = 1 then decl.functionValue else none

/-- The function that a callee denotes without following any flow. -/
def directCallee (program : Program) : Expr → Checked (Option FunctionId)
  | .function _ target => return some target
  | .ident _ { binding := .declared decl, .. } => program.directFunction decl
  | .select _ _ [value] => program.directCallee value
  | _ => return none

end Program

end FunctionFlow
