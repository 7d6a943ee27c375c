import FunctionFlow.Proofs.Program.NearestScope

/-!
Contract: another name for a local declaration.
-/

namespace FunctionFlow

variable {answer : Option DeclId}

def Declaration.withName (fresh : String) (entry : Declaration) : Declaration :=
  { entry with name := fresh }

def Scope.withName (old fresh : String) (decl : DeclId) (scope : Scope) : Scope :=
  { scope with names := (scope.names.erase old).insert fresh decl }

theorem Binding.elim_eq_declared {decl : DeclId} :
    answer.elim Binding.global Binding.declared = .declared decl ↔ answer = some decl := by
  cases answer <;> simp

def Reference.withName (decl : DeclId) (fresh : String) (reference : Reference) : Reference :=
  if reference.binding = .declared decl then { reference with name := fresh } else reference

theorem Reference.binding_withName (decl : DeclId) (fresh : String) (reference : Reference) :
    (reference.withName decl fresh).binding = reference.binding := by
  rw [Reference.withName]
  split <;> rfl

theorem Scope.InRange.withName {sizes : TableSizes} {scope : Scope} (inRange : scope.InRange sizes)
    {decl : DeclId} (below : decl < sizes.decls) {old fresh : String} :
    (scope.withName old fresh decl).InRange sizes := by
  refine ⟨inRange.id, inRange.parent, fun named member => ?_⟩
  rcases NameTable.mem_insert member with rfl | kept
  · exact below
  · exact inRange.names named (List.mem_of_mem_filter kept)

namespace Program

/-- The name occurs in no scope and in no reference of the program. -/
structure Unused (program : Program) (name : String) : Prop where
  scopes : ∀ scope ∈ program.scopes, scope.names.find? name = none
  references : ∀ reference ∈ program.references, reference.name ≠ name

instance (program : Program) (name : String) : Decidable (program.Unused name) :=
  decidable_of_iff
    ((∀ scope ∈ program.scopes, scope.names.find? name = none) ∧
      ∀ reference ∈ program.references, reference.name ≠ name)
    ⟨fun unused => ⟨unused.1, unused.2⟩, fun unused => ⟨unused.scopes, unused.references⟩⟩

/-- A reference before binding, under another name if it will denote the declaration. -/
def respell (program : Program) (decl : DeclId) (fresh : String) (reference : Reference) :
    Reference :=
  if (program.resolve reference).binding = .declared decl then { reference with name := fresh }
  else reference

theorem respell_inRange {program : Program} {sizes : TableSizes} {decl : DeclId} {fresh : String}
    {reference : Reference} (inRange : reference.InRange sizes) :
    (program.respell decl fresh reference).InRange sizes := by
  rw [respell]
  split <;> exact inRange

/-- The program with other references, and with another name for the declaration `entry`, also in
its scope. -/
def withName (program : Program) (replace : Reference → Reference) (decl : DeclId)
    (entry : Declaration) (fresh : String) : Program :=
  { program.mapReferences replace with
    decls := program.decls.modify decl (Declaration.withName fresh)
    scopes := program.scopes.modify entry.scope (Scope.withName entry.name fresh decl) }

/-- The program with another name for a declaration: where it is declared, in its scope, and in every
reference that resolves to it. -/
def renameLocal (program : Program) (decl : DeclId) (fresh : String) : Program :=
  match program.decls[decl]? with
  | some entry => program.withName (program.respell decl fresh) decl entry fresh
  | none => program

/-! ### Look-ups -/

section

variable {name : String} {program : Program} {decl : DeclId} {entry : Declaration} {fresh : String}

theorem size_scopes_withName (replace : Reference → Reference) :
    (program.withName replace decl entry fresh).scopes.size = program.scopes.size :=
  Array.size_modify

theorem withName_scope (replace : Reference → Reference) {id : ScopeId} {around : Scope}
    (isScope : program.scopes[id]? = some around) :
    ∃ later, (program.withName replace decl entry fresh).scopes[id]? = some later ∧
      later.parent = around.parent ∧
      ∀ name, later.names.find? name =
        if entry.scope = id then
          if name = fresh then some decl
          else if name = entry.name then none else around.names.find? name
        else around.names.find? name := by
  have changed : (program.withName replace decl entry fresh).scopes[id]? =
      if entry.scope = id then some (around.withName entry.name fresh decl) else some around := by
    rw [withName, Array.getElem?_modify, isScope]
    rfl
  by_cases isOwn : entry.scope = id
  · rw [if_pos isOwn] at changed
    refine ⟨_, changed, rfl, fun name => ?_⟩
    rw [if_pos isOwn, Scope.withName, NameTable.find?_insert, NameTable.find?_erase]
  · rw [if_neg isOwn] at changed
    exact ⟨around, changed, rfl, fun name => (if_neg isOwn).symm⟩

variable (found : program.decls[decl]? = some entry) (matched : program.NamesMatch)
  (unused : program.Unused fresh)
include found matched

theorem NamesMatch.known_iff {id : ScopeId} {around : Scope}
    (isScope : program.scopes[id]? = some around) :
    around.names.find? name = some decl ↔ entry.name = name ∧ entry.scope = id := by
  have matches_ := matched id name decl
  constructor
  · intro known
    obtain ⟨same, isSame, isName, isScope⟩ := matches_.mp ⟨around, isScope, known⟩
    cases found.symm.trans isSame
    exact ⟨isName, isScope⟩
  · intro named
    obtain ⟨same, isSame, known⟩ := matches_.mpr ⟨entry, found, named⟩
    cases isScope.symm.trans isSame
    exact known

theorem lookup_other (replace : Reference → Reference) {scope : ScopeId} (notFresh : name ≠ fresh)
    (looked : program.lookup scope name = .ok answer) (isOther : answer ≠ some decl) :
    (program.withName replace decl entry fresh).lookup scope name = .ok answer := by
  refine lookup_congr (size_scopes_withName replace) (fun id around isScope asked => ?_) looked
  obtain ⟨later, isLater, sameParent, find_later⟩ := withName_scope replace isScope
  refine ⟨later, isLater, sameParent, ?_⟩
  rw [find_later]
  by_cases isOwn : entry.scope = id
  · have notName : name ≠ entry.name := by
      intro isName
      have known := (matched.known_iff found isScope).mpr ⟨isName.symm, isOwn⟩
      rcases asked with unknown | answered
      · exact nomatch known.symm.trans unknown
      · exact isOther (answered.symm.trans known)
    rw [if_pos isOwn, if_neg notFresh, if_neg notName]
  · rw [if_neg isOwn]

include unused

theorem lookup_fresh (replace : Reference → Reference) {scope : ScopeId}
    (looked : program.lookup scope name = .ok (some decl)) :
    (program.withName replace decl entry fresh).lookup scope fresh = .ok (some decl) := by
  obtain ⟨_, _, _, isHolder, holds⟩ := climbs_of_climbWithin looked
  have isName := ((matched.known_iff found isHolder).mp holds).1
  refine lookup_congr (size_scopes_withName replace) (fun id around isScope asked => ?_) looked
  obtain ⟨later, isLater, sameParent, find_later⟩ := withName_scope replace isScope
  refine ⟨later, isLater, sameParent, ?_⟩
  have known_iff : around.names.find? name = some decl ↔ entry.name = name ∧ entry.scope = id :=
    matched.known_iff found isScope
  rw [find_later]
  by_cases isOwn : entry.scope = id
  · rw [if_pos isOwn, if_pos rfl]
    exact (known_iff.mpr ⟨isName, isOwn⟩).symm
  · have unknown : around.names.find? name = none :=
      asked.resolve_right fun known => isOwn (known_iff.mp known).2
    rw [if_neg isOwn, unknown]
    exact unused.scopes around (Array.mem_of_getElem? isScope)

theorem lookup_respelled (replace : Reference → Reference) {scope : ScopeId}
    (notFresh : name ≠ fresh) (looked : program.lookup scope name = .ok answer) :
    (program.withName replace decl entry fresh).lookup scope
      (if answer = some decl then fresh else name) = .ok answer := by
  by_cases isDecl : answer = some decl
  · subst isDecl
    rw [if_pos rfl]
    exact lookup_fresh found matched unused replace looked
  · rw [if_neg isDecl]
    exact lookup_other found matched replace notFresh looked isDecl

theorem resolve_respell (parents : program.ParentsFirst)
    (replace : Reference → Reference) {reference : Reference}
    (below : reference.scope < program.scopes.size) (notFresh : reference.name ≠ fresh) :
    (program.withName replace decl entry fresh).resolve (program.respell decl fresh reference) =
      (program.resolve reference).withName decl fresh := by
  obtain ⟨name, scope, binding⟩ := reference
  by_cases isUnresolved : binding = .unresolved
  · subst isUnresolved
    obtain ⟨answer, looked⟩ := parents.lookup_ok below name
    have resolved : program.resolve ⟨name, scope, .unresolved⟩ =
        ⟨name, scope, answer.elim .global .declared⟩ := resolve_of_lookup rfl looked
    have respelled : program.respell decl fresh ⟨name, scope, .unresolved⟩ =
        ⟨if answer = some decl then fresh else name, scope, .unresolved⟩ := by
      rw [respell, resolved]
      simp only [Binding.elim_eq_declared]
      split <;> rfl
    have resolvedToo : (program.withName replace decl entry fresh).resolve
        ⟨if answer = some decl then fresh else name, scope, .unresolved⟩ =
        ⟨if answer = some decl then fresh else name, scope, answer.elim .global .declared⟩ :=
      resolve_of_lookup rfl (lookup_respelled found matched unused replace notFresh looked)
    rw [respelled, resolvedToo, resolved, Reference.withName]
    simp only [Binding.elim_eq_declared]
    split <;> rfl
  · have resolved : program.resolve ⟨name, scope, binding⟩ = ⟨name, scope, binding⟩ :=
      resolve_of_ne isUnresolved
    have respelled : program.respell decl fresh ⟨name, scope, binding⟩ =
        Reference.withName decl fresh ⟨name, scope, binding⟩ := by
      rw [respell, resolved]
      rfl
    have keepsBinding := Reference.binding_withName decl fresh ⟨name, scope, binding⟩
    rw [respelled, resolved, resolve_of_ne (keepsBinding ▸ isUnresolved)]

end

end Program

/-! ### Binding -/

theorem Write.foldl_apply_modify {change : Declaration → Declaration}
    (commutes : ∀ entry update, change (entry.written update) = (change entry).written update)
    (writes : List Write) (decls : Array Declaration) (decl : DeclId) :
    writes.foldl Write.apply (decls.modify decl change) =
      (writes.foldl Write.apply decls).modify decl change := by
  induction writes generalizing decls with
  | nil => rfl
  | cons write rest inductionHypothesis =>
    have swap : Write.apply (decls.modify decl change) write =
        (Write.apply decls write).modify decl change := by
      refine Array.ext_getElem? fun id => ?_
      simp only [Write.apply, Array.getElem?_modify]
      by_cases isWritten : write.decl = id <;> by_cases isChanged : decl = id
      · simp only [isWritten, isChanged, if_true, Option.map_map, Function.comp_def, commutes]
      · simp only [isWritten, isChanged, if_true, if_false]
      · simp only [isWritten, isChanged, if_true, if_false]
      · simp only [isWritten, isChanged, if_false]
    rw [List.foldl_cons, List.foldl_cons, swap, inductionHypothesis]

namespace Program

section

variable {program : Program} {decl : DeclId} {entry : Declaration} {fresh : String}
  (found : program.decls[decl]? = some entry) (matched : program.NamesMatch)
  (unused : program.Unused fresh) (bindable : program.Bindable) (parents : program.ParentsFirst)
include found matched unused bindable parents

theorem resolved_withName :
    (program.withName (program.respell decl fresh) decl entry fresh).resolved =
      { program.resolved.mapReferences (Reference.withName decl fresh) with
        decls := program.decls.modify decl (Declaration.withName fresh)
        scopes := program.scopes.modify entry.scope (Scope.withName entry.name fresh decl) } := by
  have bodies : (program.mapReferences (program.respell decl fresh)).mapReferences
        (program.withName (program.respell decl fresh) decl entry fresh).resolve =
      program.resolved.mapReferences (Reference.withName decl fresh) := by
    rw [resolved, mapReferences_mapReferences, mapReferences_mapReferences]
    refine program.mapReferences_congr _ fun node reference occurs => ?_
    have notFresh : reference.name ≠ fresh :=
      unused.references reference (List.mem_filterMap.mpr ⟨_, occurs, rfl⟩)
    exact resolve_respell found matched unused parents _
      (bindable.references node reference occurs).1 notFresh
  rw [← bodies]
  rfl

theorem bound_withName :
    (program.withName (program.respell decl fresh) decl entry fresh).bound =
      program.bound.withName (Reference.withName decl fresh) decl entry fresh := by
  have same := resolved_withName found matched unused bindable parents
  have writes : (program.withName (program.respell decl fresh) decl entry fresh).resolved.writes =
      program.resolved.writes.map (Write.mapReferences (Reference.withName decl fresh)) := by
    rw [same]
    show (program.resolved.mapReferences (Reference.withName decl fresh)).writes = _
    rw [Program.writes, Program.writes, stmts_mapReferences, List.flatMap_map, List.map_flatMap]
    simp only [Stmt.writes_mapReferences (Reference.binding_withName decl fresh)]
  have decls : (program.resolved.writes.map
        (Write.mapReferences (Reference.withName decl fresh))).foldl Write.apply
          (program.decls.modify decl (Declaration.withName fresh)) =
      program.bound.decls.modify decl (Declaration.withName fresh) := by
    rw [List.foldl_map]
    simp only [Write.apply_mapReferences]
    exact Write.foldl_apply_modify (fun _ _ => rfl) _ _ _
  rw [bound, writes, same, withName, withName, decls]
  rfl

end

theorem Bindable.respelled {program : Program} (bindable : program.Bindable) {decl : DeclId}
    (below : decl < program.decls.size) (entry : Declaration) (fresh : String) :
    (program.withName (program.respell decl fresh) decl entry fresh).Bindable := by
  have sameSizes : (program.withName (program.respell decl fresh) decl entry fresh).sizes =
      program.sizes := by
    simp only [sizes, withName, mapReferences, Array.size_map, Array.size_modify]
  refine ⟨fun scope member => ?_, fun node reference member => ?_, fun id initial member => ?_⟩
  · rw [sameSizes]
    rcases Table.modify_cases member with unchanged | ⟨old, isOld, rfl⟩
    · exact bindable.scopes scope unchanged
    · exact (bindable.scopes old isOld).withName below
  · rw [sameSizes]
    have respelled : .ident node reference ∈
        program.exprs.map (Expr.mapReferences (program.respell decl fresh)) := by
      rw [← exprs_mapReferences]
      exact member
    obtain ⟨expr, isOld, same⟩ := List.mem_map.mp respelled
    cases expr with
    | ident _ old =>
      cases same
      exact respell_inRange (bindable.references _ old isOld)
    | _ => cases same
  · have declared : .declare id initial ∈
        program.stmts.map (Stmt.mapReferences (program.respell decl fresh)) := by
      rw [← stmts_mapReferences]
      exact member
    obtain ⟨stmt, isOld, same⟩ := List.mem_map.mp declared
    have sameSize : (program.withName (program.respell decl fresh) decl entry fresh).decls.size =
        program.decls.size := Array.size_modify
    rw [sameSize]
    cases stmt with
    | declare _ old =>
      cases same
      exact bindable.declares _ old isOld
    | expr | result => cases same

theorem ParentsFirst.withName {program : Program} (parents : program.ParentsFirst)
    (replace : Reference → Reference) (decl : DeclId) (entry : Declaration) (fresh : String) :
    (program.withName replace decl entry fresh).ParentsFirst := by
  intro scope later isLater
  have below : scope < program.scopes.size :=
    (size_scopes_withName replace).subst (Table.below isLater)
  have isScope := Array.getElem?_eq_getElem below
  obtain ⟨_, isLaterToo, sameParent, _⟩ := withName_scope replace isScope
  cases isLater.symm.trans isLaterToo
  rw [sameParent]
  exact parents scope _ isScope

end Program

end FunctionFlow
