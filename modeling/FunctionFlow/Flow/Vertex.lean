import FunctionFlow.Program.Basic

/-!
Contract: the places between which function values move.

Properties are stored by name alone: every object shares one slot per property name, and global
names are such properties too.
-/

namespace FunctionFlow

inductive Slot where
  /-- A global name or a property, shared by all objects. -/
  | named (name : String)
  | declared (decl : DeclId)
  /-- A parameter of a function; position zero is the receiver. -/
  | param (function : FunctionId) (index : Nat)
  | returned (function : FunctionId)
  /-- An argument of a call; position zero is the receiver. -/
  | arg (call : CallId) (index : Nat)
  | result (call : CallId)
  /-- The value of an expression that chooses between several. -/
  | merge (node : NodeId)
  deriving DecidableEq, Repr, Inhabited

inductive Vertex where
  | function (id : FunctionId)
  /-- What a call invokes. -/
  | callee (call : CallId)
  | native (name : String)
  | slot (slot : Slot)
  deriving DecidableEq, Repr, Inhabited

namespace Vertex

abbrev named (name : String) : Vertex := .slot (.named name)

/-- Whether the vertex is a value, rather than a place that values reach. -/
def isValue : Vertex → Bool
  | function _ | native _ => true
  | callee _ | slot _ => false

def sortKey : Vertex → Nat × Nat × Nat × String
  | function id => (0, id, 0, "")
  | callee call => (1, call, 0, "")
  | native name => (2, 0, 0, name)
  | slot (.named name) => (3, 0, 0, name)
  | slot (.declared decl) => (4, decl, 0, "")
  | slot (.param owner index) => (5, owner, index, "")
  | slot (.returned owner) => (6, owner, 0, "")
  | slot (.arg call index) => (7, call, index, "")
  | slot (.result call) => (8, call, 0, "")
  | slot (.merge node) => (9, node, 0, "")

def keyBefore (left right : Nat × Nat × Nat × String) : Bool :=
  left.1 < right.1 || (left.1 == right.1 &&
    (left.2.1 < right.2.1 || (left.2.1 == right.2.1 &&
      (left.2.2.1 < right.2.2.1 || (left.2.2.1 == right.2.2.1 &&
        left.2.2.2 < right.2.2.2)))))

/-- The order of vertices: functions, callees, natives, slots; then by ids and names. -/
def before (left right : Vertex) : Bool :=
  keyBefore left.sortKey right.sortKey

end Vertex

def Slot.label (program : Program) : Slot → Checked String
  | .named name => return s!"Prop({name})"
  | .declared id => do
    let decl ← program.decl id
    let file ← program.shortName decl.file
    return s!"Var({decl.name}@{file}:{decl.span.start.row})"
  | .param id index => do
    let name := (← program.function id).displayName
    return s!"Param({name}, {index})"
  | .returned id => do
    let name := (← program.function id).displayName
    return s!"Ret({name})"
  | .arg id index => do
    let site ← program.call id
    let place ← program.placeLabel site.file site.span
    return s!"Arg({place}, {index})"
  | .result id => do
    let site ← program.call id
    let place ← program.placeLabel site.file site.span
    return s!"Res({place})"
  | .merge node => return s!"Expr(#{node})"

/-- The label of a vertex. A callee goes by the name of the function around the call. -/
def Vertex.label (program : Program) : Vertex → Checked String
  | .function id => do
    let function ← program.function id
    let name := function.displayName
    let place ← program.placeLabel function.file function.span
    return s!"'{name}' ({place})"
  | .callee id => do
    let site ← program.call id
    let name ← program.enclosingName site.enclosing
    let place ← program.placeLabel site.file site.span
    return s!"'{name}' ({place})"
  | .native name => return s!"'{name}' (Native)"
  | .slot location => location.label program

/-- The vertex in which the value of a declaration lives. -/
def Program.declVertex (program : Program) (id : DeclId) : Checked Vertex := do
  let decl ← program.decl id
  match decl.kind with
  | .parameter function index => return .slot (.param function index)
  | _ => if ← program.isGlobal id then return .named decl.name else return .slot (.declared id)

end FunctionFlow
