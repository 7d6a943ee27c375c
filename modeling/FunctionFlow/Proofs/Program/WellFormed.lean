import FunctionFlow.Proofs.Program.References

/-!
Contract: well-formed programs.
-/

namespace FunctionFlow

/-- Every entry of a table has its position as its id. -/
def Table.OwnIds {α : Type} (idOf : α → Nat) (entries : Array α) : Prop :=
  ∀ position entry, entries[position]? = some entry → idOf entry = position

/-- Where a body runs: its file, the scope that its function or its file has of its own, and the
function, if it is the body of one. -/
structure Home where
  file : FileId
  scope : ScopeId
  owner : Option FunctionId

namespace Program

/-- The bodies of a program, with the places where they run. -/
inductive BodyAt (program : Program) : Home → List Stmt → Prop
  | top {top : SourceModule} (member : top ∈ program.modules) :
    BodyAt program ⟨top.file, top.scope, none⟩ top.body
  | function {id : FunctionId} {definition : FunctionDef}
    (found : program.functions[id]? = some definition) :
    BodyAt program ⟨definition.file, definition.scope, some id⟩ definition.body

/-- The function whose receiver `this` denotes in the body of `owner`: the nearest one that is no
arrow function. -/
inductive ReceiverOf (program : Program) : Option FunctionId → Option FunctionId → Prop
  | top : ReceiverOf program none none
  | own {id : FunctionId} {definition : FunctionDef}
    (found : program.functions[id]? = some definition) (notArrow : definition.isArrow = false) :
    ReceiverOf program (some id) (some id)
  | arrow {id : FunctionId} {definition : FunctionDef} {receiver : Option FunctionId}
    (found : program.functions[id]? = some definition) (isArrow : definition.isArrow = true)
    (around : ReceiverOf program definition.enclosing receiver) :
    ReceiverOf program (some id) receiver

def tops (program : Program) : List ScopeId :=
  program.modules.toList.map SourceModule.scope

/-- `scope` was made for the file at position `file`: the scopes of a file are those from its own
scope on, up to the own scope of the next file. The own scopes of all files are `tops`. -/
def MadeFor (tops : List ScopeId) (scope : ScopeId) (file : FileId) : Prop :=
  ∃ top, tops[file]? = some top ∧ top ≤ scope ∧
    ∀ later next, file < later → tops[later]? = some next → scope < next

/-- `outer` is a scope around `inner`, or is `inner` itself. -/
def Surrounds (program : Program) (outer inner : ScopeId) : Prop :=
  program.Climbs (fun _ _ => True) inner outer

end Program

/-- What stands in a body fits the place where the body runs. A reference is in a block of the
body, so that the way out of its scope meets the scope of the body before any other function's,
`this` denotes the receiver of the nearest function that has one, and a call is recorded for the
body's function and file. -/
def Expr.StandsIn (program : Program) (home : Home) : Expr → Prop
  | .ident _ reference => program.LeavesBlocks reference.scope home.scope
  | .this _ receiver => program.ReceiverOf home.owner receiver
  | .call _ site _ _ => ∃ entry, program.calls[site]? = some entry ∧ entry.file = home.file ∧
      entry.enclosing = home.owner
  | .function .. | .member .. | .assign .. | .select .. | .object .. | .inert .. => True

def Expr.Unresolved : Expr → Prop
  | .ident _ reference => reference.binding = .unresolved
  | .function .. | .this .. | .member .. | .call .. | .assign .. | .select .. | .object ..
  | .inert .. => False

namespace Program

variable {tops : List ScopeId}

/-- The names of scopes and the declarations correspond one to one. -/
def NamesMatch (program : Program) : Prop :=
  ∀ (scope : ScopeId) (name : String) (id : DeclId),
    (∃ entry, program.scopes[scope]? = some entry ∧ entry.names.find? name = some id) ↔
      ∃ decl, program.decls[id]? = some decl ∧ decl.name = name ∧ decl.scope = scope

/-- Functions, calls, declarations and scopes carry their positions as their ids. -/
structure OwnIds (program : Program) : Prop where
  functions : Table.OwnIds FunctionDef.id program.functions
  calls : Table.OwnIds CallSite.id program.calls
  decls : Table.OwnIds Declaration.id program.decls
  scopes : Table.OwnIds Scope.id program.scopes

/-- Scopes form one tree for each file, with the file's own scope at the top, and every function
belongs to the file of the function around it. The own scopes of the files are `tops`. -/
structure Rooted (program : Program) (tops : List ScopeId) : Prop where
  ownScopes : ∀ {file : FileId} {top : ScopeId}, tops[file]? = some top →
    ∃ entry, program.scopes[top]? = some entry ∧ entry.kind = .file ∧ entry.parent = none
  scopes : ∀ {scope : ScopeId}, scope < program.scopes.size →
    ∃ file top, MadeFor tops scope file ∧ tops[file]? = some top ∧ program.Surrounds top scope
  functions : ∀ {id : FunctionId} {definition : FunctionDef},
    program.functions[id]? = some definition → MadeFor tops definition.scope definition.file
  enclosing : ∀ {id outer : FunctionId} {definition : FunctionDef},
    program.functions[id]? = some definition → definition.enclosing = some outer →
    outer < id ∧ ∃ around, program.functions[outer]? = some around ∧ around.file = definition.file

def Placed (program : Program) : Prop :=
  ∀ home body, program.BodyAt home body → ∀ stmt ∈ body, ∀ expr ∈ stmt.exprs,
    expr.StandsIn program home

/-- What the analyses may rely on. Ids are positions in the tables, and all of them are in range. -/
structure WellFormed (program : Program) : Prop where
  inRange : program.InRange
  ownIds : program.OwnIds
  /-- The module at position `file` is the top-level code of that file. -/
  modules : program.modules.toList.map SourceModule.file = List.range program.files.size
  wellScoped : program.WellScoped
  rooted : program.Rooted program.tops
  /-- The chain of a function's scope ends in the own scope of its file. -/
  functionScopes : ∀ {id : FunctionId} {definition : FunctionDef},
    program.functions[id]? = some definition →
    ∃ top, program.modules[definition.file]? = some top ∧
      program.Surrounds top.scope definition.scope
  namesMatch : program.NamesMatch
  distinctNodes : (program.exprs.map Expr.node).Nodup
  placed : program.Placed
  resolved : ∀ expr ∈ program.exprs, ¬ expr.Unresolved

/-! ### What is kept -/

namespace Extends

variable {before after : Program} (extended : before.Extends after)
include extended

theorem surrounds {outer inner : ScopeId} (surrounds : before.Surrounds outer inner) :
    after.Surrounds outer inner :=
  extended.climbs (fun _ => True) surrounds

theorem receiverOf {owner receiver : Option FunctionId}
    (isReceiver : before.ReceiverOf owner receiver) : after.ReceiverOf owner receiver := by
  induction isReceiver with
  | top => exact .top
  | own found notArrow =>
    obtain ⟨later, isLater, same⟩ := extended.functions _ _ found
    exact .own isLater ((congrArg FunctionDef.isArrow same).trans notArrow)
  | @arrow id definition _ found isArrow _ inductionHypothesis =>
    obtain ⟨later, isLater, same⟩ := extended.functions _ _ found
    refine .arrow isLater ((congrArg FunctionDef.isArrow same).trans isArrow) ?_
    have sameEnclosing : later.enclosing = definition.enclosing :=
      (congrArg FunctionDef.enclosing same :)
    rw [sameEnclosing]
    exact inductionHypothesis

theorem standsIn {home : Home} {expr : Expr} (stands : expr.StandsIn before home) :
    expr.StandsIn after home := by
  cases expr with
  | ident => exact extended.leavesBlocks stands
  | this => exact extended.receiverOf stands
  | call =>
    obtain ⟨entry, found, isFile, isOwner⟩ := stands
    obtain ⟨later, isLater, same⟩ := extended.calls _ _ found
    exact ⟨later, isLater, (congrArg CallSite.file same).trans isFile,
      (congrArg CallSite.enclosing same).trans isOwner⟩
  | _ => trivial

end Extends

theorem MadeFor.unique {scope : ScopeId} {file other : FileId} (made : MadeFor tops scope file)
    (madeToo : MadeFor tops scope other) : file = other := by
  obtain ⟨top, isTop, fromTop, beforeNext⟩ := made
  obtain ⟨otherTop, isOtherTop, fromOtherTop, beforeOtherNext⟩ := madeToo
  rcases Nat.lt_trichotomy file other with less | same | greater
  · exact absurd fromOtherTop (Nat.not_le_of_lt (beforeNext other otherTop less isOtherTop))
  · exact same
  · exact absurd fromTop (Nat.not_le_of_lt (beforeOtherNext file top greater isTop))

theorem Rooted.surrounds {program : Program} (rooted : program.Rooted tops) {scope top : ScopeId}
    {file : FileId} (below : scope < program.scopes.size) (made : MadeFor tops scope file)
    (isTop : tops[file]? = some top) : program.Surrounds top scope := by
  obtain ⟨other, otherTop, madeToo, isOtherTop, surrounds⟩ := rooted.scopes below
  cases made.unique madeToo
  rw [isTop] at isOtherTop
  cases isOtherTop
  exact surrounds

/-! ### What binding keeps -/

section

variable {program after : Program} (binds : program.BindsTo after)
include binds

theorem BindsTo.tops_eq : after.tops = program.tops := by
  unfold tops
  rw [binds.modules, Array.toList_map, List.map_map]
  rfl

theorem Rooted.bindsTo (rooted : program.Rooted tops) :
    after.Rooted tops where
  ownScopes isTop := binds.scopes ▸ rooted.ownScopes isTop
  scopes below := by
    obtain ⟨file, top, made, isTop, surrounds⟩ := rooted.scopes (binds.scopes ▸ below)
    exact ⟨file, top, made, isTop, binds.extends.surrounds surrounds⟩
  functions found := by
    obtain ⟨old, isOld, rfl⟩ := binds.function_cases found
    exact (rooted.functions isOld :)
  enclosing found isOuter := by
    obtain ⟨old, isOld, rfl⟩ := binds.function_cases found
    obtain ⟨below, around, isAround, sameFile⟩ := rooted.enclosing isOld isOuter
    obtain ⟨later, isLater, same⟩ := binds.extends.functions _ _ isAround
    exact ⟨below, later, isLater, (congrArg FunctionDef.file same).trans sameFile⟩

theorem BindsTo.bodyAt_cases {home : Home} {body : List Stmt} (isBody : after.BodyAt home body) :
    ∃ old, program.BodyAt home old ∧ body = old.map (Stmt.mapReferences program.resolve) := by
  cases isBody with
  | top member =>
    rw [binds.modules] at member
    obtain ⟨old, isOld, rfl⟩ := Array.mem_map.mp member
    exact ⟨old.body, .top isOld, rfl⟩
  | function found =>
    obtain ⟨old, isOld, rfl⟩ := binds.function_cases found
    exact ⟨old.body, .function isOld, rfl⟩

end

end Program

end FunctionFlow
