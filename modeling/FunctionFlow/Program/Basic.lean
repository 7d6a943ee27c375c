import FunctionFlow.NameTable
import FunctionFlow.Text.Path
import FunctionFlow.Text.Source

/-!
Contract: the program under analysis, reduced to what moves function values.

The order of statements is kept but never read: the analysis is insensitive to it. Nested blocks
are flattened into the body of their function, and every reference keeps the scope it was read in.
-/

namespace FunctionFlow

inductive Binding where
  /-- Not looked up yet. -/
  | unresolved
  | declared (decl : DeclId)
  /-- A property of the global object. -/
  | global
  deriving DecidableEq, Repr, Inhabited

/-- A name that is read or written, with the scope in which it stands. -/
structure Reference where
  name : String
  scope : ScopeId
  binding : Binding
  deriving DecidableEq, Repr, Inhabited

mutual
/-- An expression. The first argument of each form is the expression's identity. -/
inductive Expr where
  | function (node : NodeId) (target : FunctionId)
  | ident (node : NodeId) (reference : Reference)
  /-- The receiver of the nearest function that binds one. -/
  | this (node : NodeId) (owner : Option FunctionId)
  /-- A property access; a computed property has no name. -/
  | member (node : NodeId) (object : Expr) (property : Option String)
  | call (node : NodeId) (site : CallId) (callee : Expr) (args : List Expr)
  | assign (node : NodeId) (target value : Expr)
  /-- One of `values`; the `guards` are evaluated only. -/
  | select (node : NodeId) (guards values : List Expr)
  | object (node : NodeId) (properties : List Property)
  /-- Parts that are evaluated, in a whole that carries no function. -/
  | inert (node : NodeId) (parts : List Expr)
/-- A property of an object literal; a computed key has no name. -/
inductive Property where
  | mk (key : Option String) (value : Expr)
end

instance : Inhabited Expr := ⟨.inert 0 []⟩

namespace Expr

def node : Expr → NodeId
  | function node _ | ident node _ | this node _ | member node _ _ | call node _ _ _
  | assign node _ _ | select node _ _ | object node _ | inert node _ => node

def literal? : Expr → Option FunctionId
  | function _ target => some target
  | _ => none

def isMember : Expr → Bool
  | member .. => true
  | _ => false

end Expr

/-- A statement, as far as values move in it. -/
inductive Stmt where
  | expr (value : Expr)
  | declare (decl : DeclId) (initial : Option Expr)
  | result (value : Option Expr)
  deriving Inhabited

inductive DeclKind where
  | hoisted
  | lexical
  | constant
  | function
  | classDef
  /-- The parameter of `function` at position `index`, counted from one. -/
  | parameter (function : FunctionId) (index : Nat)
  | caught
  | imported
  deriving DecidableEq, Repr, Inhabited

structure Declaration where
  id : DeclId := 0
  name : String
  kind : DeclKind
  scope : ScopeId
  file : FileId
  span : Span
  /-- The function literal that the name was given, if any. -/
  functionValue : Option FunctionId
  /-- The number of initialisations and assignments. -/
  writes : Nat
  deriving DecidableEq, Repr, Inhabited

inductive ScopeKind where
  | file
  | function
  | block
  deriving DecidableEq, Repr, Inhabited

structure Scope where
  id : ScopeId := 0
  kind : ScopeKind
  parent : Option ScopeId
  names : NameTable DeclId
  deriving DecidableEq, Repr, Inhabited

structure FunctionDef where
  id : FunctionId := 0
  /-- The declared name, or a name taken from where the function stands. -/
  name : Option String
  file : FileId
  enclosing : Option FunctionId
  span : Span
  /-- The positional parameters; a destructured parameter has no declaration of its own. -/
  params : List (Option DeclId)
  isArrow : Bool
  scope : ScopeId
  body : List Stmt
  deriving Inhabited

structure CallSite where
  id : CallId := 0
  file : FileId
  enclosing : Option FunctionId
  span : Span
  isNew : Bool
  arity : Nat
  /-- Whether the callee is a property access, whose object becomes the receiver. -/
  hasReceiver : Bool
  deriving DecidableEq, Repr, Inhabited

structure SourceModule where
  file : FileId
  scope : ScopeId
  body : List Stmt
  deriving Inhabited

/-- The whole program. Ids are positions in the tables, and the entries of a table carry their own. -/
structure Program where
  files : Array String := #[]
  functions : Array FunctionDef := #[]
  calls : Array CallSite := #[]
  decls : Array Declaration := #[]
  scopes : Array Scope := #[]
  modules : Array SourceModule := #[]
  nextNode : NodeId := 0
  deriving Inhabited

def FunctionDef.displayName (function : FunctionDef) : String :=
  function.name.getD "anon"

namespace Program

def file (program : Program) (id : FileId) : Checked String :=
  fetch program.files id (.file id)

def function (program : Program) (id : FunctionId) : Checked FunctionDef :=
  fetch program.functions id (.function id)

def call (program : Program) (id : CallId) : Checked CallSite :=
  fetch program.calls id (.call id)

def decl (program : Program) (id : DeclId) : Checked Declaration :=
  fetch program.decls id (.declaration id)

def scope (program : Program) (id : ScopeId) : Checked Scope :=
  fetch program.scopes id (.scope id)

def addFile (program : Program) (path : String) : FileId × Program :=
  (program.files.size, { program with files := program.files.push path })

def addScope (program : Program) (kind : ScopeKind) (parent : Option ScopeId) :
    ScopeId × Program :=
  (program.scopes.size,
    { program with
      scopes := program.scopes.push { id := program.scopes.size, kind, parent, names := .empty } })

/-- Adds a declaration and enters its name into `scope`, whose entry is `entry`. -/
def addDeclaration (program : Program) (scope : ScopeId) (entry : Scope) (name : String)
    (kind : DeclKind) (file : FileId) (span : Span) : DeclId × Program :=
  let id := program.decls.size
  (id,
    { program with
      decls := program.decls.push
        { id, name, kind, scope, file, span, functionValue := none, writes := 0 }
      scopes := program.scopes.setIfInBounds scope
        { entry with names := entry.names.insert name id } })

/-- Declares `name` in `scope`. A name that the scope has already keeps its declaration. -/
def declare (program : Program) (scope : ScopeId) (name : String) (kind : DeclKind)
    (file : FileId) (span : Span) : Checked (DeclId × Program) := do
  let entry ← program.scope scope
  match entry.names.find? name with
  | some existing => return (existing, program)
  | none => return program.addDeclaration scope entry name kind file span

def freshNode (program : Program) : NodeId × Program :=
  (program.nextNode, { program with nextNode := program.nextNode + 1 })

def shortName (program : Program) (id : FileId) : Checked String := do
  let path ← program.file id
  return (Path.fileName? path).getD path

/-- The name of the function around a call, `global` outside all functions. -/
def enclosingName (program : Program) (enclosing : Option FunctionId) : Checked String :=
  match enclosing with
  | some id => return (← program.function id).displayName
  | none => return "global"

/-- Whether a declaration is a property of the global object: it stands in the scope of a file
and is no import. -/
def isGlobal (program : Program) (id : DeclId) : Checked Bool := do
  let decl ← program.decl id
  if decl.kind = .imported then return false
  return (← program.scope decl.scope).kind = .file

def placeLabel (program : Program) (file : FileId) (span : Span) : Checked String := do
  let name ← program.shortName file
  return s!"{name}@{span.start.row}:{span.startByte}-{span.endByte}"

/-- The bodies of the program with the functions that own them: modules first, then functions. -/
def bodies (program : Program) : List (Option FunctionId × List Stmt) :=
  program.modules.toList.map (fun top => (none, top.body))
    ++ program.functions.toList.zipIdx.map fun (function, id) => (some id, function.body)

end Program

end FunctionFlow
