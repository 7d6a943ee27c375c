import FunctionFlow.Proofs.Program.Extension

/-!
Contract: the function in whose activation the names of a scope live.
-/

namespace FunctionFlow

namespace Program

variable {scope : ScopeId} {owner : Option FunctionId}

/-- No function has `scope` as its own. -/
def IsInner (program : Program) (scope : ScopeId) : Prop :=
  ∀ (id : FunctionId) (definition : FunctionDef), program.functions[id]? = some definition →
    definition.scope ≠ scope

/-- The function whose own scope is the nearest one around a scope, if there is one. -/
inductive ScopeOwner (program : Program) : ScopeId → Option FunctionId → Prop
  | own {id : FunctionId} {definition : FunctionDef}
    (found : program.functions[id]? = some definition) :
    ScopeOwner program definition.scope (some id)
  | outer {scope parent : ScopeId} {entry : Scope} {owner : Option FunctionId}
    (found : program.scopes[scope]? = some entry) (isInner : program.IsInner scope)
    (isParent : entry.parent = some parent) (onward : ScopeOwner program parent owner) :
    ScopeOwner program scope owner
  | top {scope : ScopeId} {entry : Scope} (found : program.scopes[scope]? = some entry)
    (isInner : program.IsInner scope) (noParent : entry.parent = none) :
    ScopeOwner program scope none

/-- Scopes come after the scopes around them, every function has a scope of its own, and the names
of a scope are those declared in it. -/
structure WellScoped (program : Program) : Prop where
  parents : program.ParentsFirst
  ownScope : ∀ {id : FunctionId} {definition : FunctionDef},
    program.functions[id]? = some definition →
    ∃ entry, program.scopes[definition.scope]? = some entry ∧ entry.kind = .function
  distinct : ∀ {id other : FunctionId} {definition otherDefinition : FunctionDef},
    program.functions[id]? = some definition → program.functions[other]? = some otherDefinition →
    definition.scope = otherDefinition.scope → id = other
  names : ∀ {scope : ScopeId} {entry : Scope} {name : String} {id : DeclId},
    program.scopes[scope]? = some entry → entry.names.find? name = some id →
    ∃ decl, program.decls[id]? = some decl ∧ decl.scope = scope

variable {program : Program}

/-! ### Owners of scopes -/

theorem ScopeOwner.inner_cases {entry : Scope} (owns : program.ScopeOwner scope owner)
    (found : program.scopes[scope]? = some entry) (isInner : program.IsInner scope) :
    (∃ parent, entry.parent = some parent ∧ program.ScopeOwner parent owner) ∨
      (entry.parent = none ∧ owner = none) := by
  cases owns with
  | own isFunction => exact absurd rfl (isInner _ _ isFunction)
  | outer foundToo _ isParent onward =>
    rw [found] at foundToo
    cases foundToo
    exact .inl ⟨_, isParent, onward⟩
  | top foundToo _ noParent =>
    rw [found] at foundToo
    cases foundToo
    exact .inr ⟨noParent, rfl⟩

theorem ScopeOwner.unique (wellScoped : program.WellScoped) {other : Option FunctionId}
    (owns : program.ScopeOwner scope owner) (ownsToo : program.ScopeOwner scope other) :
    owner = other := by
  induction owns generalizing other with
  | own found =>
    generalize isScope : FunctionDef.scope _ = scope at ownsToo
    cases ownsToo with
    | own foundToo => rw [wellScoped.distinct found foundToo isScope]
    | outer _ isInner => exact absurd isScope (isInner _ _ found)
    | top _ isInner => exact absurd isScope (isInner _ _ found)
  | outer found isInner isParent _ inductionHypothesis =>
    rcases ownsToo.inner_cases found isInner with ⟨_, isParentToo, onward⟩ | ⟨noParent, _⟩
    · rw [isParent] at isParentToo
      cases isParentToo
      exact inductionHypothesis onward
    · rw [isParent] at noParent
      cases noParent
  | top found isInner noParent =>
    rcases ownsToo.inner_cases found isInner with ⟨_, isParent, _⟩ | ⟨_, isTop⟩
    · rw [noParent] at isParent
      cases isParent
    · exact isTop.symm

theorem functionOfScope?_eq_some {id : FunctionId}
    (answered : program.functionOfScope? scope = some id) :
    ∃ definition, program.functions[id]? = some definition ∧ definition.scope = scope := by
  obtain ⟨⟨definition, position⟩, found, rfl⟩ := Option.map_eq_some_iff.mp answered
  have member := List.mem_of_find?_eq_some found
  have isScope := List.find?_some found
  rw [List.mem_reverse, List.mk_mem_zipIdx_iff_getElem?, Array.getElem?_toList] at member
  exact ⟨definition, member, eq_of_beq isScope⟩

theorem functionOfScope?_eq_none (answered : program.functionOfScope? scope = none) :
    program.IsInner scope := by
  intro id definition found isScope
  have absent := List.find?_eq_none.mp (Option.map_eq_none_iff.mp answered) (definition, id)
  rw [List.mem_reverse, List.mk_mem_zipIdx_iff_getElem?, Array.getElem?_toList] at absent
  exact absent found (beq_iff_eq.mpr isScope)

theorem scopeOwner_of_ownerWithin {steps : Nat}
    (walked : program.ownerWithin steps scope = .ok owner) : program.ScopeOwner scope owner := by
  induction steps generalizing scope with
  | zero => cases walked
  | succ steps inductionHypothesis =>
    unfold Program.ownerWithin at walked
    cases answered : program.functionOfScope? scope with
    | some id =>
      rw [answered] at walked
      cases walked
      obtain ⟨definition, found, rfl⟩ := functionOfScope?_eq_some answered
      exact .own found
    | none =>
      rw [answered] at walked
      have isInner := functionOfScope?_eq_none answered
      obtain ⟨entry, fetched, onward⟩ := Checked.bind_eq_ok.mp walked
      have found := fetch_eq_ok.mp fetched
      cases isParent : entry.parent with
      | some parent =>
        rw [isParent] at onward
        exact .outer found isInner isParent (inductionHypothesis onward)
      | none =>
        rw [isParent] at onward
        cases onward
        exact .top found isInner isParent

namespace WellScoped

variable (wellScoped : program.WellScoped)
include wellScoped

theorem ownScope_lt {id : FunctionId} {definition : FunctionDef}
    (found : program.functions[id]? = some definition) :
    definition.scope < program.scopes.size := by
  obtain ⟨entry, isEntry, _⟩ := wellScoped.ownScope found
  exact Table.below isEntry

theorem scopeOwner_lt (owns : program.ScopeOwner scope owner) : scope < program.scopes.size := by
  cases owns with
  | own found => exact wellScoped.ownScope_lt found
  | outer found => exact Table.below found
  | top found => exact Table.below found

theorem isInner_of_block {entry : Scope} (found : program.scopes[scope]? = some entry)
    (isBlock : entry.kind = .block) : program.IsInner scope := by
  rintro id definition isFunction rfl
  obtain ⟨own, foundOwn, isFunctionScope⟩ := wellScoped.ownScope isFunction
  rw [found] at foundOwn
  cases foundOwn
  rw [isBlock] at isFunctionScope
  cases isFunctionScope

theorem scopeOwner_of_leavesBlocks {inner outer : ScopeId} (owns : program.ScopeOwner inner owner)
    (leaves : program.LeavesBlocks inner outer) : program.ScopeOwner outer owner := by
  induction leaves with
  | here => exact owns
  | leave found isBlock isParent _ inductionHypothesis =>
    apply inductionHypothesis
    rcases owns.inner_cases found (wellScoped.isInner_of_block found isBlock) with
      ⟨_, isParentToo, onward⟩ | ⟨noParent, _⟩
    · rw [isParent] at isParentToo
      cases isParentToo
      exact onward
    · rw [isParent] at noParent
      cases noParent

end WellScoped

/-! ### Tables that keep owners -/

namespace Extends

variable {before after : Program} (extended : before.Extends after)
include extended

theorem isInner (below : scope < before.scopes.size) (isInner : before.IsInner scope) :
    after.IsInner scope := by
  intro id definition found isScope
  by_cases isNew : before.functions.size ≤ id
  · exact absurd below (Nat.not_lt_of_le (isScope ▸ extended.newFunctions found isNew))
  · obtain ⟨old, isOld⟩ : ∃ old, before.functions[id]? = some old :=
      ⟨_, Array.getElem?_eq_getElem (Nat.lt_of_not_le isNew)⟩
    obtain ⟨later, isLater, same⟩ := extended.functions _ _ isOld
    rw [found] at isLater
    cases isLater
    exact isInner id old isOld ((congrArg FunctionDef.scope same).symm.trans isScope)

theorem scopeOwner (owns : before.ScopeOwner scope owner) : after.ScopeOwner scope owner := by
  induction owns with
  | @own _ definition found =>
    obtain ⟨later, isLater, same⟩ := extended.functions _ _ found
    have sameScope : later.scope = definition.scope := (congrArg FunctionDef.scope same :)
    rw [← sameScope]
    exact .own isLater
  | outer found isInner isParent _ inductionHypothesis =>
    obtain ⟨later, isLater, _, same, _⟩ := extended.scopes found
    have below := Table.below found
    exact .outer isLater (extended.isInner below isInner) (same.trans isParent) inductionHypothesis
  | top found isInner noParent =>
    obtain ⟨later, isLater, _, same, _⟩ := extended.scopes found
    have below := Table.below found
    exact .top isLater (extended.isInner below isInner) (same.trans noParent)

end Extends

end Program

/-! ### Bodies -/

def Expr.CalledFrom (program : Program) (owner : Option FunctionId) : Expr → Prop
  | .call _ site _ _ => ∃ entry, program.calls[site]? = some entry ∧ entry.enclosing = owner
  | .function .. | .ident .. | .this .. | .member .. | .assign .. | .select .. | .object ..
  | .inert .. => True

def Stmt.DeclaresFor (program : Program) (owner : Option FunctionId) : Stmt → Prop
  | .declare id _ => ∃ decl, program.decls[id]? = some decl ∧ program.ScopeOwner decl.scope owner
  | .expr _ | .result _ => True

/-- The calls and the declaration of a statement belong to `owner`. -/
structure Stmt.LivesIn (program : Program) (owner : Option FunctionId) (stmt : Stmt) : Prop where
  calls : ∀ expr ∈ stmt.exprs, expr.CalledFrom program owner
  declares : stmt.DeclaresFor program owner

/-- Parameters, and the statements of all bodies, belong to the functions that they are recorded
for. -/
structure Program.Housed (program : Program) : Prop where
  wellScoped : program.WellScoped
  parameters : ∀ {id : DeclId} {decl : Declaration} {function : FunctionId} {index : Nat},
    program.decls[id]? = some decl → decl.kind = .parameter function index →
    program.ScopeOwner decl.scope (some function)
  bodies : ∀ {owner : Option FunctionId} {body : List Stmt} {stmt : Stmt},
    (owner, body) ∈ program.bodies → stmt ∈ body → stmt.LivesIn program owner

section

variable {before after : Program} {owner : Option FunctionId} (extended : before.Extends after)
include extended

theorem Expr.CalledFrom.mono {expr : Expr} (called : expr.CalledFrom before owner) :
    expr.CalledFrom after owner := by
  cases expr with
  | call =>
    obtain ⟨entry, found, enclosing⟩ := called
    obtain ⟨later, isLater, same⟩ := extended.calls _ _ found
    exact ⟨later, isLater, (congrArg CallSite.enclosing same).trans enclosing⟩
  | _ => trivial

theorem Stmt.LivesIn.mono {stmt : Stmt} (lives : stmt.LivesIn before owner) :
    stmt.LivesIn after owner := by
  refine ⟨fun expr member => (lives.calls expr member).mono extended, ?_⟩
  have declares := lives.declares
  cases stmt with
  | declare =>
    obtain ⟨decl, found, owns⟩ := declares
    obtain ⟨later, isLater, same⟩ := extended.decls _ _ found
    have sameScope : later.scope = decl.scope := (congrArg Declaration.scope same :)
    exact ⟨later, isLater, sameScope ▸ extended.scopeOwner owns⟩
  | expr | result => trivial

/-- A program that is extended stays housed if its new parameters and its new
statements belong to the functions that they are recorded for. -/
theorem Program.Housed.keep (housed : before.Housed) (wellScoped : after.WellScoped)
    (parameters : ∀ {id : DeclId} {decl : Declaration} {function : FunctionId} {index : Nat},
      after.decls[id]? = some decl → decl.kind = .parameter function index →
      (∃ old, before.decls[id]? = some old ∧ old.kind = decl.kind ∧ old.scope = decl.scope) ∨
        after.ScopeOwner decl.scope (some function))
    (bodies : ∀ {owner : Option FunctionId} {body : List Stmt} {stmt : Stmt},
      (owner, body) ∈ after.bodies → stmt ∈ body →
      (∃ old, (owner, old) ∈ before.bodies ∧ stmt ∈ old) ∨ stmt.LivesIn after owner) :
    after.Housed where
  wellScoped := wellScoped
  parameters found isParameter := by
    rcases parameters found isParameter with ⟨old, isOld, sameKind, sameScope⟩ | owns
    · rw [← sameKind] at isParameter
      exact sameScope ▸ extended.scopeOwner (housed.parameters isOld isParameter)
    · exact owns
  bodies isBody inside := by
    rcases bodies isBody inside with ⟨old, isOld, insideOld⟩ | lives
    · exact (housed.bodies isOld insideOld).mono extended
    · exact lives

end

end FunctionFlow
