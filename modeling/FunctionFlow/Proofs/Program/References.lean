import FunctionFlow.Proofs.Program.Binding
import FunctionFlow.Proofs.Program.Ownership

/-!
Contract: binding replaces references and leaves the rest of a program as it is.
-/

namespace FunctionFlow

namespace Program

/-- `after` is the program with its references resolved. Declarations may have been written. -/
structure BindsTo (program after : Program) : Prop where
  modules : after.modules = program.modules.map (SourceModule.mapReferences program.resolve)
  functions : after.functions = program.functions.map (FunctionDef.mapReferences program.resolve)
  calls : after.calls = program.calls
  scopes : after.scopes = program.scopes
  files : after.files = program.files
  declCount : after.decls.size = program.decls.size
  decls : ∀ {id : DeclId} {decl : Declaration}, after.decls[id]? = some decl →
    ∃ old, program.decls[id]? = some old ∧ decl.heading = old.heading

theorem bindsTo_bound (program : Program) : program.BindsTo program.bound where
  modules := rfl
  functions := rfl
  calls := rfl
  scopes := rfl
  files := rfl
  declCount := Write.size_foldl_apply _ _
  decls found := by
    obtain ⟨old, isOld, rfl⟩ := bound_decl_cases found
    exact ⟨old, isOld, old.heading_writtenBy _⟩

theorem bind_bindsTo {program : Program} {bound : Bound} (ran : program.bind = .ok bound) :
    program.BindsTo bound.program :=
  program_eq_of_bind ran ▸ program.bindsTo_bound

end Program

/-! ### What binding keeps -/

section

variable {program after : Program} {owner : Option FunctionId}

theorem Expr.CalledFrom.mapReferences (replace : Reference → Reference) {expr : Expr}
    (called : expr.CalledFrom program owner) :
    (expr.mapReferences replace).CalledFrom program owner := by
  cases expr with
  | call => exact called
  | _ => trivial

theorem Stmt.LivesIn.mapReferences (replace : Reference → Reference) {stmt : Stmt}
    (lives : stmt.LivesIn program owner) : (stmt.mapReferences replace).LivesIn program owner := by
  constructor
  · intro expr member
    rw [Stmt.exprs_mapReferences] at member
    obtain ⟨old, isOld, rfl⟩ := List.mem_map.mp member
    exact (lives.calls old isOld).mapReferences replace
  · have declares := lives.declares
    cases stmt with
    | declare => exact declares
    | expr | result => trivial

namespace Program

variable (binds : program.BindsTo after)
include binds

theorem BindsTo.function_cases {id : FunctionId} {definition : FunctionDef}
    (found : after.functions[id]? = some definition) :
    ∃ old, program.functions[id]? = some old ∧ definition = old.mapReferences program.resolve := by
  rw [binds.functions, Array.getElem?_map] at found
  obtain ⟨old, isOld, same⟩ := Option.map_eq_some_iff.mp found
  exact ⟨old, isOld, same.symm⟩

theorem BindsTo.decl_kept {id : DeclId} {decl : Declaration}
    (found : program.decls[id]? = some decl) :
    ∃ later, after.decls[id]? = some later ∧ later.heading = decl.heading := by
  have below : id < after.decls.size := by
    rw [binds.declCount]
    exact Table.below found
  have isLater := Array.getElem?_eq_getElem below
  obtain ⟨old, isOld, same⟩ := binds.decls isLater
  rw [found] at isOld
  cases isOld
  exact ⟨_, isLater, same⟩

theorem BindsTo.extends : program.Extends after where
  files := Nat.le_of_eq (congrArg Array.size binds.files.symm)
  scopes found := ⟨_, binds.scopes ▸ found, rfl, rfl, id⟩
  functions id definition found := by
    refine ⟨definition.mapReferences program.resolve, ?_, rfl⟩
    rw [binds.functions, Array.getElem?_map, found]
    rfl
  newFunctions found isNew := by
    obtain ⟨old, isOld, rfl⟩ := binds.function_cases found
    exact absurd (Table.below isOld) (Nat.not_lt_of_le isNew)
  calls _ _ found := ⟨_, binds.calls ▸ found, rfl⟩
  decls _ _ := binds.decl_kept

theorem BindsTo.body_cases {body : List Stmt} (isBody : (owner, body) ∈ after.bodies) :
    ∃ old, (owner, old) ∈ program.bodies ∧
      body = old.map (Stmt.mapReferences program.resolve) := by
  rcases mem_bodies.mp isBody with ⟨top, isTop, rfl, rfl⟩ | ⟨id, definition, found, rfl, rfl⟩
  · rw [binds.modules] at isTop
    obtain ⟨old, isOld, rfl⟩ := Array.mem_map.mp isTop
    exact ⟨old.body, mem_bodies.mpr (.inl ⟨old, isOld, rfl, rfl⟩), rfl⟩
  · obtain ⟨old, isOld, rfl⟩ := binds.function_cases found
    exact ⟨old.body, mem_bodies.mpr (.inr ⟨id, old, isOld, rfl, rfl⟩), rfl⟩

theorem WellScoped.bindsTo (wellScoped : program.WellScoped) : after.WellScoped where
  parents scope entry found := wellScoped.parents scope entry (binds.scopes ▸ found)
  ownScope found := by
    obtain ⟨old, isOld, rfl⟩ := binds.function_cases found
    obtain ⟨entry, isEntry, isFunction⟩ := wellScoped.ownScope isOld
    exact ⟨entry, binds.scopes ▸ isEntry, isFunction⟩
  distinct found foundToo sameScope := by
    obtain ⟨old, isOld, rfl⟩ := binds.function_cases found
    obtain ⟨oldToo, isOldToo, rfl⟩ := binds.function_cases foundToo
    exact wellScoped.distinct isOld isOldToo sameScope
  names found known := by
    obtain ⟨decl, isDecl, rfl⟩ := wellScoped.names (binds.scopes ▸ found) known
    obtain ⟨later, isLater, same⟩ := binds.decl_kept isDecl
    exact ⟨later, isLater, (congrArg Declaration.scope same :)⟩

theorem Housed.bindsTo (housed : program.Housed) : after.Housed := by
  refine housed.keep binds.extends (housed.wellScoped.bindsTo binds) ?_ ?_
  · intro id decl function index found _
    obtain ⟨old, isOld, same⟩ := binds.decls found
    exact .inl ⟨old, isOld, (congrArg Declaration.kind same).symm,
      (congrArg Declaration.scope same).symm⟩
  · intro owner body stmt isBody inside
    obtain ⟨oldBody, isOldBody, rfl⟩ := binds.body_cases isBody
    obtain ⟨old, isOld, rfl⟩ := List.mem_map.mp inside
    exact .inr (((housed.bodies isOldBody isOld).mono binds.extends).mapReferences program.resolve)

theorem BindsTo.stmts_eq :
    after.stmts = program.stmts.map (Stmt.mapReferences program.resolve) := by
  rw [← stmts_mapReferences, Program.stmts_eq, Program.stmts_eq, binds.modules, binds.functions]
  rfl

theorem BindsTo.exprs_eq :
    after.exprs = program.exprs.map (Expr.mapReferences program.resolve) := by
  rw [← exprs_mapReferences, exprs_eq_flatMap, exprs_eq_flatMap, binds.stmts_eq,
    stmts_mapReferences]

theorem BindsTo.map_node : after.exprs.map Expr.node = program.exprs.map Expr.node := by
  have sameNode : Expr.node ∘ Expr.mapReferences program.resolve = Expr.node :=
    funext (Expr.node_mapReferences program.resolve)
  rw [binds.exprs_eq, List.map_map, sameNode]

end Program

end

end FunctionFlow
