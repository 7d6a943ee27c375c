import FunctionFlow.Proofs.Program.WellFormed
import Mathlib.Data.List.Forall2

/-!
Contract: binding looks names up in the nearest scope, and touches nothing else.

A chain whose parents have smaller ids ends, so that looking a name up until the chain ends says
whether some scope of it declares the name.
-/

namespace FunctionFlow

def Expr.reference? : Expr → Option Reference
  | .ident _ reference => some reference
  | _ => none

namespace Program

/-- `decl` is the entry of the name in the nearest scope around `scope` that declares it. -/
def Nearest (program : Program) (scope : ScopeId) (name : String) (decl : DeclId) : Prop :=
  ∃ outer entry, program.Climbs (fun _ passed => passed.names.find? name = none) scope outer ∧
    program.scopes[outer]? = some entry ∧ entry.names.find? name = some decl

/-- No scope around `scope` declares the name. -/
def Undeclared (program : Program) (scope : ScopeId) (name : String) : Prop :=
  ∀ outer entry, program.Surrounds outer scope → program.scopes[outer]? = some entry →
    entry.names.find? name = none

section

variable {program : Program} {scope : ScopeId} {name : String} {decl other : DeclId}

theorem Nearest.not_undeclared (nearest : program.Nearest scope name decl) :
    ¬ program.Undeclared scope name := by
  intro undeclared
  obtain ⟨outer, entry, climbs, isEntry, known⟩ := nearest
  have unknown := undeclared outer entry (climbs.imp fun _ _ _ => trivial) isEntry
  exact nomatch known.symm.trans unknown

theorem Nearest.unique (nearest : program.Nearest scope name decl)
    (nearestToo : program.Nearest scope name other) : decl = other := by
  obtain ⟨outer, entry, climbs, isEntry, known⟩ := nearest
  obtain ⟨outerToo, entryToo, climbsToo, isEntryToo, knownToo⟩ := nearestToo
  induction climbs with
  | here =>
    cases climbsToo with
    | here =>
      cases isEntry.symm.trans isEntryToo
      exact Option.some.inj (known.symm.trans knownToo)
    | leave found unknown =>
      cases isEntry.symm.trans found
      exact nomatch known.symm.trans unknown
  | leave found unknown parent _ inductionHypothesis =>
    cases climbsToo with
    | here =>
      cases found.symm.trans isEntryToo
      exact nomatch unknown.symm.trans knownToo
    | leave foundToo _ parentToo onward =>
      cases found.symm.trans foundToo
      cases parent.symm.trans parentToo
      exact inductionHypothesis isEntry onward

theorem asked_of_climbWithin {α : Type} {ask : ScopeId → Scope → Option α} {steps : Nat}
    (nothing : program.climbWithin ask steps scope = .ok none) {outer : ScopeId} {entry : Scope}
    (surrounds : program.Surrounds outer scope) (isEntry : program.scopes[outer]? = some entry) :
    ask outer entry = none := by
  induction surrounds generalizing steps with
  | @here scope =>
    cases steps with
    | zero => cases nothing
    | succ steps =>
      rw [climbWithin, Program.scope, fetch_eq_ok.mpr isEntry, Checked.ok_bind] at nothing
      cases answered : ask scope entry with
      | none => rfl
      | some answer =>
        rw [answered] at nothing
        cases nothing
  | @leave scope between outer passed found _ parent _ inductionHypothesis =>
    cases steps with
    | zero => cases nothing
    | succ steps =>
      rw [climbWithin, Program.scope, fetch_eq_ok.mpr found, Checked.ok_bind, parent] at nothing
      cases answered : ask scope passed with
      | some answer =>
        rw [answered] at nothing
        cases nothing
      | none =>
        rw [answered] at nothing
        exact inductionHypothesis nothing isEntry

variable (parents : program.ParentsFirst)
  (below : scope < program.scopes.size)
include parents below

theorem lookup_cases :
    (∃ decl, program.lookup scope name = .ok (some decl) ∧ program.Nearest scope name decl) ∨
      program.lookup scope name = .ok none ∧ program.Undeclared scope name := by
  obtain ⟨answer, looked⟩ := parents.lookup_ok below name
  cases answer with
  | some decl => exact .inl ⟨decl, looked, climbs_of_climbWithin looked⟩
  | none =>
    refine .inr ⟨looked, fun outer entry surrounds isEntry => ?_⟩
    have nothing : program.climbWithin (fun _ entry => entry.names.find? name)
        (program.scopes.size + 1) scope = .ok none := looked
    exact asked_of_climbWithin nothing surrounds isEntry

end

def references (program : Program) : List Reference :=
  program.exprs.filterMap Expr.reference?

end Program

/-- `after` is what the program's scopes make of the reference `before`. A reference that is resolved
already is kept; the others denote the nearest declaration of their name, and the global object just
if no scope of the chain declares the name. -/
structure Reference.BecomesIn (program : Program) (before after : Reference) : Prop where
  name : after.name = before.name
  scope : after.scope = before.scope
  kept : before.binding ≠ .unresolved → after.binding = before.binding
  resolved : after.binding ≠ .unresolved
  declared : before.binding = .unresolved → ∀ decl,
    after.binding = .declared decl ↔ program.Nearest before.scope before.name decl
  global : before.binding = .unresolved →
    (after.binding = .global ↔ program.Undeclared before.scope before.name)

theorem Program.ParentsFirst.resolve_becomes {program : Program} (parents : program.ParentsFirst)
    {reference : Reference} (below : reference.scope < program.scopes.size) :
    reference.BecomesIn program (program.resolve reference) := by
  have becomes (isUnresolved : reference.binding = .unresolved) :
      (∀ decl, (program.resolve reference).binding = .declared decl ↔
          program.Nearest reference.scope reference.name decl) ∧
        ((program.resolve reference).binding = .global ↔
          program.Undeclared reference.scope reference.name) := by
    rcases @lookup_cases program reference.scope reference.name parents below with
      ⟨found, looked, nearest⟩ | ⟨looked, undeclared⟩
    · rw [resolve_of_lookup isUnresolved looked]
      refine ⟨fun decl => ⟨?_, ?_⟩, ?_, ?_⟩
      · rintro ⟨⟩
        exact nearest
      · intro nearestToo
        exact congrArg Binding.declared (nearest.unique nearestToo)
      · rintro ⟨⟩
      · intro undeclared
        exact absurd undeclared nearest.not_undeclared
    · rw [resolve_of_lookup isUnresolved looked]
      refine ⟨fun decl => ⟨?_, ?_⟩, fun _ => undeclared, fun _ => rfl⟩
      · rintro ⟨⟩
      · intro nearest
        exact absurd undeclared nearest.not_undeclared
  exact {
    name := program.resolve_name reference
    scope := program.resolve_scope reference
    kept := fun isResolved => by rw [resolve_of_ne isResolved]
    resolved := program.resolve_binding reference
    declared := fun isUnresolved => (becomes isUnresolved).1
    global := fun isUnresolved => (becomes isUnresolved).2 }

def Reference.unbound (reference : Reference) : Reference :=
  { reference with binding := .unresolved }

/-- The program without the bindings of its references and without what is recorded about the
values of its declarations. -/
def Program.unbound (program : Program) : Program :=
  { program.mapReferences Reference.unbound with decls := program.decls.map Declaration.heading }

theorem Program.unbound_resolve (program : Program) :
    Reference.unbound ∘ program.resolve = Reference.unbound := by
  funext reference
  have sameName := program.resolve_name reference
  have sameScope := program.resolve_scope reference
  simp only [Function.comp_apply, Reference.unbound, sameName, sameScope]

theorem Program.unbound_bound (program : Program) : program.bound.unbound = program.unbound := by
  have bodies : program.resolved.mapReferences Reference.unbound =
      program.mapReferences Reference.unbound := by
    rw [resolved, mapReferences_mapReferences, unbound_resolve]
  have decls : program.bound.decls.map Declaration.heading =
      program.decls.map Declaration.heading := by
    refine Array.ext_getElem? fun id => ?_
    simp only [bound, Array.getElem?_map, Write.getElem?_foldl_apply, Option.map_map,
      Function.comp_def, Declaration.heading_writtenBy]
  rw [unbound, decls, unbound, ← bodies]
  rfl

theorem Expr.reference?_mapReferences (replace : Reference → Reference) (expr : Expr) :
    (expr.mapReferences replace).reference? = expr.reference?.map replace := by
  cases expr <;> rfl

theorem Program.references_bound (program : Program) :
    program.bound.references = program.references.map program.resolve := by
  rw [references, references, program.bindsTo_bound.exprs_eq, List.filterMap_map,
    List.map_filterMap]
  congr 1
  funext expr
  exact expr.reference?_mapReferences program.resolve

/-- Binding ends. Each reference becomes what the chain of its scope makes of it, however deep it
stands, and but for references and written values the program is kept. -/
theorem binding_nearest_scope (program : Program) (bindable : program.Bindable)
    (parents : program.ParentsFirst) :
    ∃ bound, program.bind = .ok bound ∧
      List.Forall₂ (Reference.BecomesIn program) program.references bound.program.references ∧
      bound.program.unbound = program.unbound := by
  obtain ⟨bound, ran, isBound⟩ := bindable.bind_eq parents
  refine ⟨bound, ran, ?_, ?_⟩
  · rw [isBound, program.references_bound, List.forall₂_map_right_iff, List.forall₂_same]
    intro reference member
    obtain ⟨expr, inside, isReference⟩ := List.mem_filterMap.mp member
    cases expr with
    | ident node =>
      cases isReference
      exact parents.resolve_becomes (bindable.references node _ inside).1
    | _ => cases isReference
  · rw [isBound, program.unbound_bound]

/-- A name of the file is declared again in a function. In a block of the function it is assigned,
and two names are read: one of the file, and one that is declared nowhere. One reference says already
that it means the global object. -/
def redeclared : Program where
  files := #["a.js"]
  functions := #[{
    (default : FunctionDef) with
    scope := 1
    body := [
      .expr (.assign 1 (.ident 2 ⟨"x", 2, .unresolved⟩) (.ident 3 ⟨"y", 2, .unresolved⟩)),
      .result (some (.member 4 (.ident 5 ⟨"z", 2, .unresolved⟩) (some "x"))),
      .expr (.ident 6 ⟨"x", 2, .global⟩)] }]
  decls := #[
    { (default : Declaration) with name := "x", scope := 0 },
    { (default : Declaration) with name := "x", scope := 1 },
    { (default : Declaration) with name := "y", scope := 0 }]
  scopes := #[
    { kind := .file, parent := none, names := ⟨[("x", 0), ("y", 2)]⟩ },
    { kind := .function, parent := some 0, names := ⟨[("x", 1)]⟩ },
    { kind := .block, parent := some 1, names := .empty }]
  modules := #[{ file := 0, scope := 0, body := [.expr (.ident 0 ⟨"x", 0, .unresolved⟩)] }]
  nextNode := 7

theorem binding_nearest_scope_redeclared :
    redeclared.Bindable ∧ redeclared.ParentsFirst ∧
      ∃ bound, redeclared.bind = .ok bound ∧
        bound.program.references.map (·.binding) =
          [.declared 0, .declared 1, .declared 2, .global, .global] ∧
        bound.program.unbound = redeclared.unbound := by
  have inRange : redeclared.InRange := by decide
  have parents : redeclared.ParentsFirst := by decide
  obtain ⟨bound, ran, _, kept⟩ :=
    binding_nearest_scope redeclared inRange.bindable parents
  refine ⟨inRange.bindable, parents, bound, ran, ?_, kept⟩
  rw [Program.program_eq_of_bind ran, Program.references_bound]
  decide

end FunctionFlow
