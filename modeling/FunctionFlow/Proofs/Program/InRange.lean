import FunctionFlow.Proofs.Checked
import FunctionFlow.Proofs.Program.Parts

/-!
Contract: programs whose ids stay inside their tables.

Whether an id is in range depends on the sizes of the tables only. Tables that grow keep what was in
range, and a program that is rewritten in place keeps its sizes.
-/

namespace FunctionFlow

variable {expr : Expr} {stmt : Stmt}

/-- The sizes of the tables that ids point into. -/
structure TableSizes where
  files : Nat
  functions : Nat
  calls : Nat
  decls : Nat
  scopes : Nat
  deriving DecidableEq, Repr

namespace TableSizes

structure Le (small large : TableSizes) : Prop where
  files : small.files ≤ large.files
  functions : small.functions ≤ large.functions
  calls : small.calls ≤ large.calls
  decls : small.decls ≤ large.decls
  scopes : small.scopes ≤ large.scopes

instance : LE TableSizes := ⟨Le⟩

theorem le_refl (sizes : TableSizes) : sizes ≤ sizes :=
  ⟨Nat.le_refl _, Nat.le_refl _, Nat.le_refl _, Nat.le_refl _, Nat.le_refl _⟩

theorem le_trans {first second third : TableSizes} (left : first ≤ second)
    (right : second ≤ third) : first ≤ third :=
  ⟨Nat.le_trans left.files right.files, Nat.le_trans left.functions right.functions,
    Nat.le_trans left.calls right.calls, Nat.le_trans left.decls right.decls,
    Nat.le_trans left.scopes right.scopes⟩

end TableSizes

def Program.sizes (program : Program) : TableSizes where
  files := program.files.size
  functions := program.functions.size
  calls := program.calls.size
  decls := program.decls.size
  scopes := program.scopes.size

def Binding.InRange (sizes : TableSizes) : Binding → Prop
  | declared decl => decl < sizes.decls
  | unresolved | global => True

namespace Expr

/-- Whether the ids that an expression itself holds are in range, its parts left aside. -/
def HeadInRange (sizes : TableSizes) : Expr → Prop
  | function _ target => target < sizes.functions
  | ident _ reference => reference.scope < sizes.scopes ∧ reference.binding.InRange sizes
  | this _ owner => ∀ function ∈ owner, function < sizes.functions
  | call _ site _ _ => site < sizes.calls
  | member .. | assign .. | select .. | object .. | inert .. => True

def InRange (sizes : TableSizes) (expr : Expr) : Prop :=
  ∀ part ∈ expr.all, part.HeadInRange sizes

end Expr

def Stmt.InRange (sizes : TableSizes) : Stmt → Prop
  | .expr value => value.InRange sizes
  | .declare decl initial => decl < sizes.decls ∧ ∀ value ∈ initial, value.InRange sizes
  | .result returned => ∀ value ∈ returned, value.InRange sizes

def DeclKind.InRange (sizes : TableSizes) : DeclKind → Prop
  | parameter owner _ => owner < sizes.functions
  | hoisted | lexical | constant | function | classDef | caught | imported => True

structure FunctionDef.InRange (sizes : TableSizes) (function : FunctionDef) : Prop where
  id : function.id < sizes.functions
  file : function.file < sizes.files
  enclosing : ∀ outer ∈ function.enclosing, outer < sizes.functions
  params : ∀ param ∈ function.params, ∀ decl ∈ param, decl < sizes.decls
  scope : function.scope < sizes.scopes
  body : ∀ stmt ∈ function.body, stmt.InRange sizes

structure CallSite.InRange (sizes : TableSizes) (site : CallSite) : Prop where
  id : site.id < sizes.calls
  file : site.file < sizes.files
  enclosing : ∀ outer ∈ site.enclosing, outer < sizes.functions

structure Declaration.InRange (sizes : TableSizes) (decl : Declaration) : Prop where
  id : decl.id < sizes.decls
  kind : decl.kind.InRange sizes
  scope : decl.scope < sizes.scopes
  file : decl.file < sizes.files
  functionValue : ∀ function ∈ decl.functionValue, function < sizes.functions

structure Scope.InRange (sizes : TableSizes) (scope : Scope) : Prop where
  id : scope.id < sizes.scopes
  parent : ∀ parent ∈ scope.parent, parent < sizes.scopes
  names : ∀ entry ∈ scope.names.entries, entry.2 < sizes.decls

structure SourceModule.InRange (sizes : TableSizes) (top : SourceModule) : Prop where
  file : top.file < sizes.files
  scope : top.scope < sizes.scopes
  body : ∀ stmt ∈ top.body, stmt.InRange sizes

/-- Whether every id that a program holds points into its table. -/
structure Program.InRange (program : Program) : Prop where
  functions : ∀ function ∈ program.functions, function.InRange program.sizes
  calls : ∀ site ∈ program.calls, site.InRange program.sizes
  decls : ∀ decl ∈ program.decls, decl.InRange program.sizes
  scopes : ∀ scope ∈ program.scopes, scope.InRange program.sizes
  modules : ∀ top ∈ program.modules, top.InRange program.sizes

/-! ### Deciding -/

instance (sizes : TableSizes) (binding : Binding) : Decidable (binding.InRange sizes) := by
  unfold Binding.InRange
  cases binding <;> infer_instance

instance (sizes : TableSizes) (expr : Expr) : Decidable (expr.HeadInRange sizes) := by
  unfold Expr.HeadInRange
  cases expr <;> infer_instance

instance (sizes : TableSizes) (expr : Expr) : Decidable (expr.InRange sizes) := by
  unfold Expr.InRange
  infer_instance

instance (sizes : TableSizes) (stmt : Stmt) : Decidable (stmt.InRange sizes) := by
  unfold Stmt.InRange
  cases stmt <;> infer_instance

instance (sizes : TableSizes) (kind : DeclKind) : Decidable (kind.InRange sizes) := by
  unfold DeclKind.InRange
  cases kind <;> infer_instance

instance (sizes : TableSizes) (function : FunctionDef) : Decidable (function.InRange sizes) :=
  decidable_of_iff
    (function.id < sizes.functions ∧ function.file < sizes.files ∧
      (∀ outer ∈ function.enclosing, outer < sizes.functions) ∧
      (∀ param ∈ function.params, ∀ decl ∈ param, decl < sizes.decls) ∧
      function.scope < sizes.scopes ∧ ∀ stmt ∈ function.body, stmt.InRange sizes)
    ⟨fun ⟨id, file, enclosing, params, scope, body⟩ => ⟨id, file, enclosing, params, scope, body⟩,
      fun ⟨id, file, enclosing, params, scope, body⟩ => ⟨id, file, enclosing, params, scope, body⟩⟩

instance (sizes : TableSizes) (site : CallSite) : Decidable (site.InRange sizes) :=
  decidable_of_iff
    (site.id < sizes.calls ∧ site.file < sizes.files ∧
      ∀ outer ∈ site.enclosing, outer < sizes.functions)
    ⟨fun ⟨id, file, enclosing⟩ => ⟨id, file, enclosing⟩,
      fun ⟨id, file, enclosing⟩ => ⟨id, file, enclosing⟩⟩

instance (sizes : TableSizes) (decl : Declaration) : Decidable (decl.InRange sizes) :=
  decidable_of_iff
    (decl.id < sizes.decls ∧ decl.kind.InRange sizes ∧ decl.scope < sizes.scopes ∧
      decl.file < sizes.files ∧ ∀ function ∈ decl.functionValue, function < sizes.functions)
    ⟨fun ⟨id, kind, scope, file, value⟩ => ⟨id, kind, scope, file, value⟩,
      fun ⟨id, kind, scope, file, value⟩ => ⟨id, kind, scope, file, value⟩⟩

instance (sizes : TableSizes) (scope : Scope) : Decidable (scope.InRange sizes) :=
  decidable_of_iff
    (scope.id < sizes.scopes ∧ (∀ parent ∈ scope.parent, parent < sizes.scopes) ∧
      ∀ entry ∈ scope.names.entries, entry.2 < sizes.decls)
    ⟨fun ⟨id, parent, names⟩ => ⟨id, parent, names⟩,
      fun ⟨id, parent, names⟩ => ⟨id, parent, names⟩⟩

instance (sizes : TableSizes) (top : SourceModule) : Decidable (top.InRange sizes) :=
  decidable_of_iff
    (top.file < sizes.files ∧ top.scope < sizes.scopes ∧ ∀ stmt ∈ top.body, stmt.InRange sizes)
    ⟨fun ⟨file, scope, body⟩ => ⟨file, scope, body⟩, fun ⟨file, scope, body⟩ => ⟨file, scope, body⟩⟩

instance (program : Program) : Decidable program.InRange :=
  decidable_of_iff
    ((∀ function ∈ program.functions, function.InRange program.sizes) ∧
      (∀ site ∈ program.calls, site.InRange program.sizes) ∧
      (∀ decl ∈ program.decls, decl.InRange program.sizes) ∧
      (∀ scope ∈ program.scopes, scope.InRange program.sizes) ∧
      ∀ top ∈ program.modules, top.InRange program.sizes)
    ⟨fun ⟨functions, calls, decls, scopes, modules⟩ => ⟨functions, calls, decls, scopes, modules⟩,
      fun ⟨functions, calls, decls, scopes, modules⟩ => ⟨functions, calls, decls, scopes, modules⟩⟩

/-! ### Larger tables -/

section

variable {small large : TableSizes} (grow : small ≤ large)
include grow

theorem Binding.InRange.mono {binding : Binding} (inRange : binding.InRange small) :
    binding.InRange large := by
  cases binding with
  | declared decl => exact Nat.lt_of_lt_of_le inRange grow.decls
  | unresolved | global => trivial

theorem Expr.HeadInRange.mono (inRange : expr.HeadInRange small) : expr.HeadInRange large := by
  cases expr with
  | function => exact Nat.lt_of_lt_of_le inRange grow.functions
  | ident => exact ⟨Nat.lt_of_lt_of_le inRange.1 grow.scopes, inRange.2.mono grow⟩
  | this => exact fun owner isOwner => Nat.lt_of_lt_of_le (inRange owner isOwner) grow.functions
  | call => exact Nat.lt_of_lt_of_le inRange grow.calls
  | _ => trivial

theorem Expr.InRange.mono (inRange : expr.InRange small) : expr.InRange large :=
  fun part inside => (inRange part inside).mono grow

theorem Stmt.InRange.mono (inRange : stmt.InRange small) : stmt.InRange large := by
  cases stmt with
  | expr value => exact Expr.InRange.mono grow inRange
  | declare decl initial =>
    exact ⟨Nat.lt_of_lt_of_le inRange.1 grow.decls,
      fun value isInitial => (inRange.2 value isInitial).mono grow⟩
  | result returned => exact fun value isReturned => (inRange value isReturned).mono grow

theorem DeclKind.InRange.mono {kind : DeclKind} (inRange : kind.InRange small) :
    kind.InRange large := by
  cases kind with
  | parameter => exact Nat.lt_of_lt_of_le inRange grow.functions
  | _ => trivial

theorem FunctionDef.InRange.mono {function : FunctionDef} (inRange : function.InRange small) :
    function.InRange large where
  id := Nat.lt_of_lt_of_le inRange.id grow.functions
  file := Nat.lt_of_lt_of_le inRange.file grow.files
  enclosing outer isOuter := Nat.lt_of_lt_of_le (inRange.enclosing outer isOuter) grow.functions
  params param isParam decl isDecl :=
    Nat.lt_of_lt_of_le (inRange.params param isParam decl isDecl) grow.decls
  scope := Nat.lt_of_lt_of_le inRange.scope grow.scopes
  body stmt inside := (inRange.body stmt inside).mono grow

theorem CallSite.InRange.mono {site : CallSite} (inRange : site.InRange small) :
    site.InRange large where
  id := Nat.lt_of_lt_of_le inRange.id grow.calls
  file := Nat.lt_of_lt_of_le inRange.file grow.files
  enclosing outer isOuter := Nat.lt_of_lt_of_le (inRange.enclosing outer isOuter) grow.functions

theorem Declaration.InRange.mono {decl : Declaration} (inRange : decl.InRange small) :
    decl.InRange large where
  id := Nat.lt_of_lt_of_le inRange.id grow.decls
  kind := inRange.kind.mono grow
  scope := Nat.lt_of_lt_of_le inRange.scope grow.scopes
  file := Nat.lt_of_lt_of_le inRange.file grow.files
  functionValue function isValue :=
    Nat.lt_of_lt_of_le (inRange.functionValue function isValue) grow.functions

theorem Scope.InRange.mono {scope : Scope} (inRange : scope.InRange small) :
    scope.InRange large where
  id := Nat.lt_of_lt_of_le inRange.id grow.scopes
  parent parent isParent := Nat.lt_of_lt_of_le (inRange.parent parent isParent) grow.scopes
  names entry inside := Nat.lt_of_lt_of_le (inRange.names entry inside) grow.decls

theorem SourceModule.InRange.mono {top : SourceModule} (inRange : top.InRange small) :
    top.InRange large where
  file := Nat.lt_of_lt_of_le inRange.file grow.files
  scope := Nat.lt_of_lt_of_le inRange.scope grow.scopes
  body stmt inside := (inRange.body stmt inside).mono grow

end

/-- A program whose tables have grown is in range if its tables hold old entries, or entries that
are in range. -/
theorem Program.InRange.grow {before after : Program} (inRange : before.InRange)
    (grow : before.sizes ≤ after.sizes)
    (functions : ∀ function ∈ after.functions,
      function ∈ before.functions ∨ function.InRange after.sizes)
    (calls : ∀ site ∈ after.calls, site ∈ before.calls ∨ site.InRange after.sizes)
    (decls : ∀ decl ∈ after.decls, decl ∈ before.decls ∨ decl.InRange after.sizes)
    (scopes : ∀ scope ∈ after.scopes, scope ∈ before.scopes ∨ scope.InRange after.sizes)
    (modules : ∀ top ∈ after.modules, top ∈ before.modules ∨ top.InRange after.sizes) :
    after.InRange where
  functions function member :=
    (functions function member).elim (fun old => (inRange.functions function old).mono grow) id
  calls site member := (calls site member).elim (fun old => (inRange.calls site old).mono grow) id
  decls decl member := (decls decl member).elim (fun old => (inRange.decls decl old).mono grow) id
  scopes scope member :=
    (scopes scope member).elim (fun old => (inRange.scopes scope old).mono grow) id
  modules top member :=
    (modules top member).elim (fun old => (inRange.modules top old).mono grow) id

/-! ### Expressions in range, form by form -/

theorem Expr.argument_mem_all {node : NodeId} {site : CallId} {callee value : Expr}
    {arguments : List Expr} (inside : value ∈ arguments) :
    value ∈ (Expr.call node site callee arguments).all :=
  Expr.mem_all_of_part (List.mem_cons_of_mem _ inside)

theorem Expr.choice_mem_all {node : NodeId} {guards values : List Expr} {value : Expr}
    (inside : value ∈ values) : value ∈ (Expr.select node guards values).all :=
  Expr.mem_all_of_part (List.mem_append_right _ inside)

theorem Property.mem_allOf {part : Expr} {properties : List Property} :
    part ∈ Property.allOf properties ↔
      ∃ key value, Property.mk key value ∈ properties ∧ part ∈ value.all := by
  simp only [Property.allOf_eq, Expr.mem_allOf, List.mem_map]
  constructor
  · rintro ⟨_, ⟨⟨key, value⟩, isEntry, rfl⟩, inside⟩
    exact ⟨key, value, isEntry, inside⟩
  · rintro ⟨key, value, isEntry, inside⟩
    exact ⟨value, ⟨_, isEntry, rfl⟩, inside⟩

namespace Expr

variable {sizes : TableSizes} {node : NodeId}

theorem inRange_iff :
    expr.InRange sizes ↔ expr.HeadInRange sizes ∧ ∀ part ∈ expr.parts, part.InRange sizes := by
  rw [InRange, all_eq, List.forall_mem_cons]
  simp only [List.mem_flatMap, InRange]
  exact and_congr_right fun _ => ⟨fun all part isPart inner inside => all inner ⟨part, isPart, inside⟩,
    fun all inner ⟨part, isPart, inside⟩ => all part isPart inner inside⟩

theorem inRange_function {target : FunctionId} :
    (function node target).InRange sizes ↔ target < sizes.functions :=
  inRange_iff.trans (and_iff_left nofun)

theorem inRange_ident {reference : Reference} :
    (ident node reference).InRange sizes ↔
      reference.scope < sizes.scopes ∧ reference.binding.InRange sizes :=
  inRange_iff.trans (and_iff_left nofun)

theorem inRange_this {owner : Option FunctionId} :
    (this node owner).InRange sizes ↔ ∀ function ∈ owner, function < sizes.functions :=
  inRange_iff.trans (and_iff_left nofun)

theorem inRange_member {whole : Expr} {name : Option String} :
    (member node whole name).InRange sizes ↔ whole.InRange sizes :=
  inRange_iff.trans ((and_iff_right trivial).trans List.forall_mem_singleton)

theorem inRange_call {site : CallId} {callee : Expr} {arguments : List Expr} :
    (call node site callee arguments).InRange sizes ↔
      site < sizes.calls ∧ callee.InRange sizes ∧
        ∀ argument ∈ arguments, argument.InRange sizes :=
  inRange_iff.trans (and_congr_right fun _ => List.forall_mem_cons)

theorem inRange_assign {target value : Expr} :
    (assign node target value).InRange sizes ↔ target.InRange sizes ∧ value.InRange sizes :=
  inRange_iff.trans ((and_iff_right trivial).trans (by simp [parts]))

theorem inRange_select {guards values : List Expr} :
    (select node guards values).InRange sizes ↔
      (∀ guard ∈ guards, guard.InRange sizes) ∧ ∀ value ∈ values, value.InRange sizes :=
  inRange_iff.trans ((and_iff_right trivial).trans List.forall_mem_append)

theorem inRange_object {entries : List Property} :
    (object node entries).InRange sizes ↔
      ∀ key value, Property.mk key value ∈ entries → value.InRange sizes := by
  refine inRange_iff.trans ((and_iff_right trivial).trans (List.forall_mem_map.trans ?_))
  exact ⟨fun all key value => all (.mk key value), fun all ⟨key, value⟩ => all key value⟩

theorem inRange_inert {parts : List Expr} :
    (inert node parts).InRange sizes ↔ ∀ part ∈ parts, part.InRange sizes :=
  inRange_iff.trans (and_iff_right trivial)

end Expr

theorem Stmt.InRange.value {sizes : TableSizes} (inRange : stmt.InRange sizes) {value : Expr}
    (isValue : value ∈ stmt.value?) : value.InRange sizes := by
  cases stmt with
  | expr =>
    cases isValue
    exact inRange
  | declare => exact inRange.2 value isValue
  | result => exact inRange value isValue

theorem Stmt.InRange.head {sizes : TableSizes} (inRange : stmt.InRange sizes)
    (member : expr ∈ stmt.exprs) : expr.HeadInRange sizes := by
  obtain ⟨value, isValue, inside⟩ := Stmt.mem_exprs.mp member
  exact inRange.value isValue expr inside

/-! ### Bodies and their expressions -/

namespace Program

variable {owner : Option FunctionId} {program : Program}

theorem mem_bodies {body : List Stmt} :
    (owner, body) ∈ program.bodies ↔
      (∃ top ∈ program.modules, owner = none ∧ body = top.body) ∨
        ∃ id function, program.functions[id]? = some function ∧ owner = some id ∧
          body = function.body := by
  simp only [bodies, List.mem_append, List.mem_map, Prod.mk.injEq, Prod.exists,
    List.mk_mem_zipIdx_iff_getElem?, Array.mem_toList_iff, Array.getElem?_toList]
  constructor
  · rintro (⟨top, member, rfl, rfl⟩ | ⟨function, id, found, rfl, rfl⟩)
    · exact .inl ⟨top, member, rfl, rfl⟩
    · exact .inr ⟨id, function, found, rfl, rfl⟩
  · rintro (⟨top, member, rfl, rfl⟩ | ⟨id, function, found, rfl, rfl⟩)
    · exact .inl ⟨top, member, rfl, rfl⟩
    · exact .inr ⟨function, id, found, rfl, rfl⟩

theorem InRange.body (inRange : program.InRange) {body : List Stmt}
    (member : (owner, body) ∈ program.bodies) (inside : stmt ∈ body) :
    stmt.InRange program.sizes := by
  rcases mem_bodies.mp member with ⟨top, isTop, _, rfl⟩ | ⟨id, function, found, _, rfl⟩
  · exact (inRange.modules top isTop).body stmt inside
  · exact (inRange.functions function (Array.mem_of_getElem? found)).body stmt inside

/-- A body of `owner` has an expression, on its own or as a part. -/
def BodyHas (program : Program) (owner : Option FunctionId) (expr : Expr) : Prop :=
  ∃ body stmt, (owner, body) ∈ program.bodies ∧ stmt ∈ body ∧ expr ∈ stmt.exprs

theorem BodyHas.part {part : Expr} (has : program.BodyHas owner expr) (inside : part ∈ expr.all) :
    program.BodyHas owner part := by
  obtain ⟨body, stmt, isBody, inBody, inStmt⟩ := has
  exact ⟨body, stmt, isBody, inBody, Stmt.mem_exprs_trans inside inStmt⟩

theorem mem_exprs :
    expr ∈ program.exprs ↔
      ∃ owner body stmt, (owner, body) ∈ program.bodies ∧ stmt ∈ body ∧ expr ∈ stmt.exprs := by
  simp only [exprs, List.mem_flatMap, Prod.exists]
  constructor
  · rintro ⟨owner, body, isBody, stmt, inside, part⟩
    exact ⟨owner, body, stmt, isBody, inside, part⟩
  · rintro ⟨owner, body, stmt, isBody, inside, part⟩
    exact ⟨owner, body, isBody, stmt, inside, part⟩

def stmts (program : Program) : List Stmt :=
  program.bodies.flatMap (·.2)

theorem mem_stmts :
    stmt ∈ program.stmts ↔ ∃ owner body, (owner, body) ∈ program.bodies ∧ stmt ∈ body := by
  simp only [stmts, List.mem_flatMap, Prod.exists]

theorem stmts_eq (program : Program) :
    program.stmts = program.modules.toList.flatMap (·.body) ++
      program.functions.toList.flatMap (·.body) := by
  have ofFunctions (definitions : List FunctionDef) (first : Nat) :
      (definitions.zipIdx first).flatMap (·.1.body) = definitions.flatMap (·.body) := by
    induction definitions generalizing first with
    | nil => rfl
    | cons definition rest inductionHypothesis =>
      rw [List.zipIdx_cons, List.flatMap_cons, List.flatMap_cons, inductionHypothesis]
  rw [stmts, bodies, List.flatMap_append, List.flatMap_map, List.flatMap_map]
  exact congrArg _ (ofFunctions _ _)

theorem exprs_eq_flatMap (program : Program) :
    program.exprs = program.stmts.flatMap Stmt.exprs := by
  rw [stmts, List.flatMap_assoc]
  rfl

theorem exprs_eq (program : Program) :
    program.exprs = program.modules.toList.flatMap (·.body.flatMap Stmt.exprs) ++
      program.functions.toList.flatMap (·.body.flatMap Stmt.exprs) := by
  rw [exprs_eq_flatMap, stmts_eq, List.flatMap_append, List.flatMap_assoc, List.flatMap_assoc]

theorem mem_exprs_of_part {part : Expr} (member : expr ∈ program.exprs) (inside : part ∈ expr.all) :
    part ∈ program.exprs := by
  obtain ⟨owner, has⟩ := mem_exprs.mp member
  exact mem_exprs.mpr ⟨owner, BodyHas.part has inside⟩

theorem InRange.head (inRange : program.InRange) (member : expr ∈ program.exprs) :
    expr.HeadInRange program.sizes := by
  obtain ⟨owner, body, stmt, isBody, inside, part⟩ := mem_exprs.mp member
  exact (inRange.body isBody inside).head part

end Program

end FunctionFlow
