import FunctionFlow.Proofs.Program.Extension
import FunctionFlow.Proofs.Program.Renaming
import FunctionFlow.Proofs.Program.Resolution

/-!
Contract: binding succeeds, and records what is written to each declaration.
-/

namespace FunctionFlow

variable {sizes : TableSizes}

/-! ### Where writes stand -/

def Stmt.ownWrites : Stmt → List Write
  | .declare decl (some value) => [⟨decl, value, true⟩]
  | _ => []

theorem Expr.writes_perm (expr : Expr) : expr.writes.Perm (expr.all.flatMap Expr.ownWrites) := by
  induction expr using Expr.partsInduction with
  | step expr inductionHypothesis =>
    rw [Expr.writes_eq, Expr.all_eq, List.flatMap_cons, List.flatMap_assoc]
    exact ((List.Perm.flatMap_left _ inductionHypothesis).append_right _).trans List.perm_append_comm

theorem Stmt.writes_perm (stmt : Stmt) :
    stmt.writes.Perm (stmt.ownWrites ++ stmt.exprs.flatMap Expr.ownWrites) := by
  cases stmt with
  | expr value => exact value.writes_perm
  | declare _ initial =>
    cases initial with
    | none => exact .nil
    | some value => exact value.writes_perm.cons _
  | result returned =>
    cases returned with
    | none => exact .nil
    | some value => exact value.writes_perm

theorem Program.writes_perm (program : Program) :
    program.writes.Perm
      (program.stmts.flatMap Stmt.ownWrites ++ program.exprs.flatMap Expr.ownWrites) := by
  rw [Program.writes, Program.exprs_eq_flatMap]
  generalize program.stmts = stmts
  induction stmts with
  | nil => exact .nil
  | cons first rest inductionHypothesis =>
    simp only [List.flatMap_cons, List.flatMap_append]
    have both := first.writes_perm.append inductionHypothesis
    refine both.trans ?_
    simp only [List.append_assoc]
    refine .append_left _ ?_
    rw [← List.append_assoc, ← List.append_assoc]
    exact List.perm_append_comm.append_right _

/-- A declaration is initialised with, or assigned, the value of an expression. -/
inductive Program.Writes (program : Program) (decl : DeclId) (value : Expr) : Prop
  | initialises {owner : Option FunctionId} {body : List Stmt}
    (isBody : (owner, body) ∈ program.bodies) (inside : .declare decl (some value) ∈ body)
  | assigns {node inner : NodeId} {reference : Reference}
    (member : .assign node (.ident inner reference) value ∈ program.exprs)
    (bound : reference.binding = .declared decl)

theorem Binding.decl?_eq_some {binding : Binding} {decl : DeclId} :
    binding.decl? = some decl ↔ binding = .declared decl := by
  cases binding <;> simp [Binding.decl?]

theorem Expr.declared?_eq_some {expr : Expr} {decl : DeclId} :
    expr.declared? = some decl ↔
      ∃ node reference, expr = .ident node reference ∧ reference.binding = .declared decl := by
  constructor
  · intro denotes
    cases expr with
    | ident node reference => exact ⟨node, reference, rfl, Binding.decl?_eq_some.mp denotes⟩
    | _ => cases denotes
  · rintro ⟨node, reference, rfl, bound⟩
    exact Binding.decl?_eq_some.mpr bound

theorem Expr.cases_of_ownWrites {expr : Expr} {write : Write} (member : write ∈ expr.ownWrites) :
    ∃ node target, expr = .assign node target write.value ∧
      target.declared? = some write.decl := by
  cases expr with
  | assign node target value =>
    obtain ⟨decl, denotes, rfl⟩ := List.mem_map.mp member
    exact ⟨node, target, rfl, Option.mem_toList.mp denotes⟩
  | _ => cases member

theorem Stmt.cases_of_ownWrites {stmt : Stmt} {write : Write} (member : write ∈ stmt.ownWrites) :
    stmt = .declare write.decl (some write.value) := by
  cases stmt with
  | declare decl initial =>
    cases initial with
    | none => cases member
    | some value =>
      cases List.mem_singleton.mp member
      rfl
  | expr | result => cases member

theorem Program.Writes.of_mem {program : Program} {write : Write}
    (member : write ∈ program.writes) : program.Writes write.decl write.value := by
  rcases List.mem_append.mp (program.writes_perm.mem_iff.mp member) with inStmts | inExprs
  · obtain ⟨stmt, inside, own⟩ := List.mem_flatMap.mp inStmts
    obtain ⟨owner, body, isBody, inside⟩ := mem_stmts.mp inside
    exact .initialises isBody (stmt.cases_of_ownWrites own ▸ inside)
  · obtain ⟨expr, inside, own⟩ := List.mem_flatMap.mp inExprs
    obtain ⟨node, target, rfl, denotes⟩ := expr.cases_of_ownWrites own
    obtain ⟨inner, reference, rfl, bound⟩ := Expr.declared?_eq_some.mp denotes
    exact .assigns inside bound

/-! ### What writes leave -/

namespace Declaration

def writtenBy (entry : Declaration) (writes : List Write) : Declaration :=
  writes.foldl (fun entry write => entry.written write.update) entry

theorem heading_writtenBy (entry : Declaration) (writes : List Write) :
    (entry.writtenBy writes).heading = entry.heading := by
  induction writes generalizing entry with
  | nil => rfl
  | cons write rest inductionHypothesis => exact inductionHypothesis (entry.written write.update)

theorem writes_writtenBy (entry : Declaration) (writes : List Write) :
    (entry.writtenBy writes).writes = entry.writes + writes.length := by
  induction writes generalizing entry with
  | nil => rfl
  | cons write rest inductionHypothesis =>
    have counted := inductionHypothesis (entry.written write.update)
    rw [List.length_cons, ← Nat.add_assoc, Nat.add_right_comm]
    exact counted

theorem functionValue_writtenBy {entry : Declaration} {writes : List Write}
    {function : FunctionId} (holds : (entry.writtenBy writes).functionValue = some function) :
    entry.functionValue = some function ∨
      ∃ write ∈ writes, write.value.literal? = some function := by
  induction writes generalizing entry with
  | nil => exact .inl holds
  | cons write rest inductionHypothesis =>
    rcases @inductionHypothesis (entry.written write.update) holds with held | later
    · replace held : write.update entry.functionValue = some function := held
      unfold Write.update at held
      split at held
      · rcases Option.or_eq_some_iff.mp held with literal | ⟨_, old⟩
        · exact .inr ⟨write, List.mem_cons_self, literal⟩
        · exact .inl old
      · rcases Option.or_eq_some_iff.mp held with old | ⟨_, literal⟩
        · exact .inl old
        · exact .inr ⟨write, List.mem_cons_self, literal⟩
    · obtain ⟨later, inside, literal⟩ := later
      exact .inr ⟨later, List.mem_cons_of_mem _ inside, literal⟩

end Declaration

theorem Write.getElem?_foldl_apply (writes : List Write) (decls : Array Declaration)
    (id : DeclId) :
    (writes.foldl Write.apply decls)[id]? =
      decls[id]?.map (·.writtenBy (writes.filter (·.decl = id))) := by
  induction writes generalizing decls with
  | nil => exact Option.map_id'.symm
  | cons write rest inductionHypothesis =>
    rw [List.foldl_cons, inductionHypothesis, Write.apply, Array.getElem?_modify]
    by_cases same : write.decl = id
    · rw [if_pos same, Option.map_map, List.filter_cons_of_pos (by simpa using same)]
      rfl
    · rw [if_neg same, List.filter_cons_of_neg (by simpa using same)]

/-! ### Success -/

namespace Resolve

def Ends {α : Type} (count : Nat) (compute : Resolve α) : Prop :=
  ∀ state : Resolution, state.decls.size = count →
    ∃ answer after, compute.run state = .ok (answer, after)

namespace Ends

variable {α β : Type} {count : Nat} {first : Resolve α} {answer : α} {writes : List Write}

theorem pure (answer : α) : Ends count (Pure.pure answer) :=
  fun state _ => ⟨answer, state, rfl⟩

theorem bind {next : α → Resolve β} (begins : Ends count first)
    (makes : Makes first answer writes) (goesOn : Ends count (next answer)) :
    Ends count (first >>= next) := by
  intro state sameSize
  obtain ⟨_, between, ran⟩ := begins state sameSize
  obtain ⟨rfl, isBetween⟩ := makes _ _ _ ran
  obtain ⟨result, after, ranOn⟩ := goesOn between <| by
    rw [isBetween, Write.size_foldl_apply, sameSize]
  refine ⟨result, after, ?_⟩
  rw [StateT.run_bind, ran]
  exact ranOn

theorem map {move : α → β} (ends : Ends count first) :
    Ends count (first >>= fun found => Pure.pure (move found)) := by
  intro state sameSize
  obtain ⟨answer, after, ran⟩ := ends state sameSize
  refine ⟨move answer, after, ?_⟩
  rw [StateT.run_bind, ran]
  rfl

end Ends

theorem write_ends {decl : DeclId} {count : Nat} (below : decl < count)
    (update : Option FunctionId → Option FunctionId) : Ends count (write decl update) := by
  intro state sameSize
  have found := Array.getElem?_eq_getElem (sameSize ▸ below)
  exact ⟨(), _, write_eq_ok.mpr ⟨_, found, rfl⟩⟩

end Resolve

def Reference.InRange (sizes : TableSizes) (reference : Reference) : Prop :=
  reference.scope < sizes.scopes ∧ reference.binding.InRange sizes

def Expr.NamesInRange (sizes : TableSizes) (expr : Expr) : Prop :=
  ∀ node reference, .ident node reference ∈ expr.all → reference.InRange sizes

theorem Expr.NamesInRange.part {expr part : Expr} (inRange : expr.NamesInRange sizes)
    (inside : part ∈ expr.all) : part.NamesInRange sizes :=
  fun node reference deeper => inRange node reference (Expr.mem_all_trans deeper expr inside)

/-- The ids that binding follows are in range: those of scopes, of references and of declared
names. -/
structure Program.Bindable (program : Program) : Prop where
  scopes : ∀ scope ∈ program.scopes, scope.InRange program.sizes
  references : ∀ node reference, .ident node reference ∈ program.exprs →
    reference.InRange program.sizes
  declares : ∀ decl initial, .declare decl initial ∈ program.stmts → decl < program.decls.size

theorem Program.InRange.bindable {program : Program} (inRange : program.InRange) :
    program.Bindable where
  scopes := inRange.scopes
  references _ _ member := inRange.head member
  declares _ _ member := by
    obtain ⟨owner, body, isBody, inside⟩ := mem_stmts.mp member
    exact (inRange.body isBody inside).1

namespace Resolve

section

variable {program : Program} (scopes : ∀ scope ∈ program.scopes, scope.InRange program.sizes)
include scopes

theorem resolve_inRange {reference : Reference} (inRange : reference.InRange program.sizes) :
    (program.resolve reference).InRange program.sizes := by
  obtain ⟨name, scope, binding⟩ := reference
  cases binding with
  | declared | global => exact inRange
  | unresolved =>
    unfold Program.resolve
    cases looked : program.lookup scope name with
    | error => exact ⟨inRange.1, trivial⟩
    | ok answer =>
      cases answer with
      | none => exact ⟨inRange.1, trivial⟩
      | some decl => exact ⟨inRange.1, Program.lookup_lt scopes looked⟩

variable (parents : program.ParentsFirst)

omit scopes in
include parents in
theorem reference_ends {reference : Reference} (inRange : reference.InRange program.sizes)
    (count : Nat) : Ends count (Resolve.reference program reference) := by
  intro state _
  unfold Resolve.reference
  cases reference.binding with
  | declared | global => exact ⟨_, _, rfl⟩
  | unresolved =>
    obtain ⟨answer, looked⟩ := parents.lookup_ok inRange.1 reference.name
    simp only [looked]
    cases answer with
    | none => exact ⟨_, _, rfl⟩
    | some decl => exact ⟨_, _, rfl⟩

theorem assignment_ends {target : Expr} (value : Expr)
    (inRange : target.NamesInRange program.sizes) :
    Ends program.decls.size (assignment (target.mapReferences program.resolve) value) := by
  cases target with
  | ident node reference =>
    have resolvedInRange := resolve_inRange scopes (inRange node reference List.mem_cons_self)
    rw [Expr.mapReferences]
    generalize program.resolve reference = resolved at resolvedInRange
    obtain ⟨name, scope, binding⟩ := resolved
    cases binding with
    | declared decl =>
      have below : decl < program.decls.size := resolvedInRange.2
      exact write_ends below fun held => held.or value.literal?
    | unresolved | global => exact .pure ()
  | _ => exact .pure ()

omit scopes in
theorem exprs_ends {exprs : List Expr}
    (each : ∀ expr ∈ exprs, Ends program.decls.size (Resolve.expr program expr)) :
    Ends program.decls.size (Resolve.exprs program exprs) := by
  induction exprs with
  | nil => exact .pure []
  | cons first rest inductionHypothesis =>
    obtain ⟨ofFirst, ofRest⟩ := List.forall_mem_cons.mp each
    exact ofFirst.bind (expr_makes first) (inductionHypothesis ofRest).map

omit scopes in
theorem properties_ends {entries : List Property}
    (each : ∀ entry ∈ entries, Ends program.decls.size (Resolve.expr program entry.value)) :
    Ends program.decls.size (properties program entries) := by
  induction entries with
  | nil => exact .pure []
  | cons first rest inductionHypothesis =>
    obtain ⟨key, value⟩ := first
    obtain ⟨ofFirst, ofRest⟩ := List.forall_mem_cons.mp each
    exact ofFirst.bind (expr_makes value) (inductionHypothesis ofRest).map

include parents in
theorem expr_ends (expr : Expr) (inRange : expr.NamesInRange program.sizes) :
    Ends program.decls.size (Resolve.expr program expr) := by
  induction expr using Expr.partsInduction with
  | step expr inductionHypothesis =>
    have ofParts (part : Expr) (isPart : part ∈ expr.parts) :
        Ends program.decls.size (Resolve.expr program part) :=
      inductionHypothesis part isPart (inRange.part (Expr.mem_all_of_part isPart))
    cases expr with
    | function | this => exact .pure _
    | ident node reference =>
      exact (reference_ends parents (inRange node reference List.mem_cons_self) _).map
    | member _ whole => exact (List.forall_mem_singleton.mp ofParts).map
    | call _ _ callee arguments =>
      obtain ⟨ofCallee, ofArguments⟩ := List.forall_mem_cons.mp ofParts
      exact ofCallee.bind (expr_makes callee) (exprs_ends ofArguments).map
    | assign _ target value =>
      obtain ⟨ofTarget, ofValue⟩ := List.forall_mem_cons.mp ofParts
      have targetInRange : target.NamesInRange program.sizes :=
        inRange.part (Expr.mem_all_of_part List.mem_cons_self)
      exact ofTarget.bind (expr_makes target) ((List.forall_mem_singleton.mp ofValue).bind
        (expr_makes value) (assignment_ends scopes _ targetInRange).map)
    | select _ guards values =>
      obtain ⟨ofGuards, ofValues⟩ := List.forall_mem_append.mp ofParts
      exact (exprs_ends ofGuards).bind (exprs_makes guards) (exprs_ends ofValues).map
    | object =>
      exact (properties_ends fun _ inside => ofParts _ (List.mem_map_of_mem inside)).map
    | inert => exact (exprs_ends ofParts).map

include parents in
theorem stmt_ends (stmt : Stmt)
    (inRange : ∀ node reference, .ident node reference ∈ stmt.exprs →
      reference.InRange program.sizes)
    (declares : ∀ decl initial, .declare decl initial = stmt → decl < program.decls.size) :
    Ends program.decls.size (Resolve.stmt program stmt) := by
  cases stmt with
  | expr value => exact (expr_ends scopes parents value inRange).map
  | declare decl initial =>
    have below := declares decl initial rfl
    cases initial with
    | none =>
      intro state sameSize
      have found := Array.getElem?_eq_getElem (sameSize ▸ below)
      exact ⟨_, _, declare_eq_ok.mpr ⟨_, found, rfl, rfl⟩⟩
    | some value =>
      exact (write_ends below _).bind (write_makes ⟨decl, value, true⟩)
        (expr_ends scopes parents value inRange).map
  | result returned =>
    cases returned with
    | none => exact .pure _
    | some value => exact (expr_ends scopes parents value inRange).map

end

section

variable {program : Program} (bindable : program.Bindable) (parents : program.ParentsFirst)
include bindable parents

theorem body_ends (stmts : List Stmt) (within : stmts ⊆ program.stmts) :
    Ends program.decls.size (Resolve.body program stmts) := by
  induction stmts with
  | nil => exact .pure []
  | cons first rest inductionHypothesis =>
    obtain ⟨isStmt, restWithin⟩ := List.cons_subset.mp within
    have firstEnds := stmt_ends bindable.scopes parents first
      (fun node reference inside => bindable.references node reference <| by
        rw [Program.exprs_eq_flatMap]
        exact List.mem_flatMap.mpr ⟨first, isStmt, inside⟩)
      (fun decl initial same => bindable.declares decl initial (same ▸ isStmt))
    exact firstEnds.bind (stmt_makes first) (inductionHypothesis restWithin).map

theorem modules_ends (tops : List SourceModule)
    (within : ∀ top ∈ tops, top.body ⊆ program.stmts) :
    Ends program.decls.size (Resolve.modules program tops) := by
  induction tops with
  | nil => exact .pure []
  | cons first rest inductionHypothesis =>
    obtain ⟨ofFirst, ofRest⟩ := List.forall_mem_cons.mp within
    exact (body_ends bindable parents _ ofFirst).bind (body_makes first.body)
      (inductionHypothesis ofRest).map

theorem functions_ends (definitions : List FunctionDef)
    (within : ∀ definition ∈ definitions, definition.body ⊆ program.stmts) :
    Ends program.decls.size (Resolve.functions program definitions) := by
  induction definitions with
  | nil => exact .pure []
  | cons first rest inductionHypothesis =>
    obtain ⟨ofFirst, ofRest⟩ := List.forall_mem_cons.mp within
    exact (body_ends bindable parents _ ofFirst).bind (body_makes first.body)
      (inductionHypothesis ofRest).map

end

end Resolve

namespace Program

/-- Binding a program whose names are in range, with scopes that come after their parents, succeeds
and gives `program.bound`. -/
theorem Bindable.bind_eq {program : Program} (bindable : program.Bindable)
    (parents : program.ParentsFirst) :
    ∃ bound, program.bind = .ok bound ∧ bound.program = program.bound := by
  have within : ∀ stmt, (∃ top ∈ program.modules.toList, stmt ∈ top.body) ∨
      (∃ definition ∈ program.functions.toList, stmt ∈ definition.body) → stmt ∈ program.stmts := by
    simp only [stmts_eq, List.mem_append, List.mem_flatMap, imp_self, implies_true]
  obtain ⟨tops, middle, ranTops⟩ := Resolve.modules_ends bindable parents program.modules.toList
    (fun top isTop stmt inside => within stmt (.inl ⟨top, isTop, inside⟩)) { decls := program.decls }
    rfl
  have sameSize : middle.decls.size = program.decls.size := by
    rw [(Resolve.modules_makes _ _ _ _ ranTops).2, Write.size_foldl_apply]
  obtain ⟨definitions, final, ranDefinitions⟩ :=
    Resolve.functions_ends bindable parents program.functions.toList
      (fun definition isDefinition stmt inside =>
        within stmt (.inr ⟨definition, isDefinition, inside⟩)) middle sameSize
  have ran := bind_eq_ok.mpr ⟨tops, middle, definitions, final, ranTops, ranDefinitions, rfl⟩
  exact ⟨_, ran, program_eq_of_bind ran⟩

end Program

/-! ### Programs in range -/

theorem Expr.InRange.mapReferences {replace : Reference → Reference}
    (keeps : ∀ reference, reference.InRange sizes → (replace reference).InRange sizes) {expr : Expr}
    (inRange : expr.InRange sizes) : (expr.mapReferences replace).InRange sizes := by
  intro part inside
  rw [(Expr.mapReferences_maps replace).all] at inside
  obtain ⟨old, isOld, rfl⟩ := List.mem_map.mp inside
  have oldInRange := inRange old isOld
  cases old with
  | ident _ reference => exact keeps reference oldInRange
  | function | this | call => exact oldInRange
  | _ => trivial

theorem Stmt.InRange.mapReferences {replace : Reference → Reference}
    (keeps : ∀ reference, reference.InRange sizes → (replace reference).InRange sizes) {stmt : Stmt}
    (inRange : stmt.InRange sizes) : (stmt.mapReferences replace).InRange sizes := by
  cases stmt with
  | expr value => exact Expr.InRange.mapReferences keeps inRange
  | declare decl initial =>
    refine ⟨inRange.1, fun value isInitial => ?_⟩
    obtain ⟨old, isOld, rfl⟩ := Option.map_eq_some_iff.mp isInitial
    exact (inRange.2 old isOld).mapReferences keeps
  | result returned =>
    intro value isReturned
    obtain ⟨old, isOld, rfl⟩ := Option.map_eq_some_iff.mp isReturned
    exact (inRange old isOld).mapReferences keeps

namespace Program

def LiteralsWritten (program : Program) : Prop :=
  ∀ id decl function, program.decls[id]? = some decl → decl.functionValue = some function →
    ∃ node, program.Writes id (.function node function)

variable {program : Program}

theorem bound_decl_cases {id : DeclId} {decl : Declaration}
    (found : program.bound.decls[id]? = some decl) :
    ∃ old, program.decls[id]? = some old ∧
      decl = old.writtenBy (program.bound.writes.filter (·.decl = id)) := by
  rw [bound, Write.getElem?_foldl_apply] at found
  obtain ⟨old, isOld, rfl⟩ := Option.map_eq_some_iff.mp found
  exact ⟨old, isOld, rfl⟩

theorem isGlobal_bound (program : Program) (id : DeclId) :
    program.bound.isGlobal id = program.isGlobal id := by
  have later : program.bound.decls[id]? = program.decls[id]?.map fun old =>
      old.writtenBy (program.bound.writes.filter (·.decl = id)) := by
    rw [bound, Write.getElem?_foldl_apply]
    rfl
  rw [isGlobal, isGlobal, decl, decl, fetch, fetch, later]
  cases program.decls[id]? with
  | none => rfl
  | some old =>
    have same := old.heading_writtenBy (program.bound.writes.filter (·.decl = id))
    have sameKind : (old.writtenBy _).kind = old.kind := (congrArg Declaration.kind same :)
    have sameScope : (old.writtenBy _).scope = old.scope := (congrArg Declaration.scope same :)
    simp only [Option.map_some, Checked.ok_bind, sameKind, sameScope]
    rfl

theorem literalsWritten_bound (unwritten : ∀ decl ∈ program.decls, decl.functionValue = none) :
    program.bound.LiteralsWritten := by
  intro id decl function found holds
  obtain ⟨old, isOld, rfl⟩ := bound_decl_cases found
  rcases Declaration.functionValue_writtenBy holds with held | ⟨write, member, literal⟩
  · rw [unwritten old (Array.mem_of_getElem? isOld)] at held
    cases held
  · obtain ⟨inProgram, isDecl⟩ := List.mem_filter.mp member
    have writes := Writes.of_mem inProgram
    rw [of_decide_eq_true isDecl] at writes
    generalize write.value = value at writes literal
    cases value with
    | function node target =>
      cases literal
      exact ⟨node, writes⟩
    | _ => cases literal

theorem sizes_bound (program : Program) : program.bound.sizes = program.sizes := by
  simp [sizes, bound, resolved, mapReferences, Write.size_foldl_apply]

theorem Writes.literal_lt (bodies : ∀ stmt ∈ program.stmts, stmt.InRange sizes) {decl : DeclId}
    {node : NodeId} {function : FunctionId}
    (writes : program.Writes decl (.function node function)) : function < sizes.functions := by
  cases writes with
  | initialises isBody inside =>
    have isStmt := mem_stmts.mpr ⟨_, _, isBody, inside⟩
    exact Expr.inRange_function.mp ((bodies _ isStmt).2 _ rfl)
  | assigns member _ =>
    have literal : .function node function ∈ program.exprs :=
      mem_exprs_of_part member (by simp [Expr.all])
    rw [exprs_eq_flatMap] at literal
    obtain ⟨stmt, isStmt, inside⟩ := List.mem_flatMap.mp literal
    exact (bodies stmt isStmt).head inside

theorem InRange.bound (inRange : program.InRange)
    (unwritten : ∀ decl ∈ program.decls, decl.functionValue = none) : program.bound.InRange := by
  have keeps (reference : Reference) (fine : reference.InRange program.sizes) :
      (program.resolve reference).InRange program.sizes :=
    Resolve.resolve_inRange inRange.scopes fine
  have functions : ∀ definition ∈ program.bound.functions, definition.InRange program.sizes := by
    intro definition member
    obtain ⟨old, isOld, rfl⟩ := Array.mem_map.mp member
    obtain ⟨id, file, enclosing, params, scope, body⟩ := inRange.functions old isOld
    refine ⟨id, file, enclosing, params, scope, List.forall_mem_map.mpr fun stmt inside => ?_⟩
    exact (body stmt inside).mapReferences keeps
  have modules : ∀ top ∈ program.bound.modules, top.InRange program.sizes := by
    intro top member
    obtain ⟨old, isOld, rfl⟩ := Array.mem_map.mp member
    obtain ⟨file, scope, body⟩ := inRange.modules old isOld
    refine ⟨file, scope, List.forall_mem_map.mpr fun stmt inside => ?_⟩
    exact (body stmt inside).mapReferences keeps
  have bodies : ∀ stmt ∈ program.bound.stmts, stmt.InRange program.sizes := by
    intro stmt member
    rw [stmts_eq, List.mem_append, List.mem_flatMap, List.mem_flatMap] at member
    rcases member with ⟨top, isTop, inside⟩ | ⟨definition, isDefinition, inside⟩
    · exact (modules top (Array.mem_toList_iff.mp isTop)).body stmt inside
    · exact (functions definition (Array.mem_toList_iff.mp isDefinition)).body stmt inside
  have sameSizes := sizes_bound program
  constructor
  case functions => exact sameSizes ▸ functions
  case calls => exact sameSizes ▸ inRange.calls
  case scopes => exact sameSizes ▸ inRange.scopes
  case modules => exact sameSizes ▸ modules
  case decls =>
    intro decl member
    obtain ⟨id, found⟩ := Array.getElem?_of_mem member
    obtain ⟨old, isOld, isWritten⟩ := bound_decl_cases found
    have same : decl.heading = old.heading := isWritten ▸ old.heading_writtenBy _
    have oldInRange := inRange.decls old (Array.mem_of_getElem? isOld)
    have sameId : decl.id = old.id := (congrArg Declaration.id same :)
    have sameKind : decl.kind = old.kind := (congrArg Declaration.kind same :)
    have sameScope : decl.scope = old.scope := (congrArg Declaration.scope same :)
    have sameFile : decl.file = old.file := (congrArg Declaration.file same :)
    rw [sameSizes]
    refine ⟨sameId ▸ oldInRange.id, sameKind ▸ oldInRange.kind, sameScope ▸ oldInRange.scope,
      sameFile ▸ oldInRange.file, fun function holds => ?_⟩
    obtain ⟨node, writes⟩ := literalsWritten_bound unwritten id decl function found holds
    exact writes.literal_lt bodies

/-- Binding a program in range succeeds. The bound program is in range, and its declarations hold
only functions that are written to them. -/
theorem bind_ok (inRange : program.InRange) (parents : program.ParentsFirst)
    (unwritten : ∀ decl ∈ program.decls, decl.functionValue = none) :
    ∃ bound, program.bind = .ok bound ∧ bound.program.InRange ∧ bound.program.LiteralsWritten := by
  obtain ⟨bound, ran, isBound⟩ := inRange.bindable.bind_eq parents
  refine ⟨bound, ran, ?_, ?_⟩
  · exact isBound ▸ inRange.bound unwritten
  · exact isBound ▸ literalsWritten_bound unwritten

end Program

end FunctionFlow
