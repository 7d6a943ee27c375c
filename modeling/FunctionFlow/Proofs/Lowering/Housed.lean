import FunctionFlow.Proofs.Lowering.Derivation
import FunctionFlow.Proofs.Program.Ownership

/-!
Contract: lowering puts everything into the body of the function that it belongs to.
-/

namespace FunctionFlow

/-! ### Steps that keep scopes well formed -/

namespace Program.WellScoped

variable {program : Program} (wellScoped : program.WellScoped)
include wellScoped

theorem addScope (kind : ScopeKind) {parent : Option ScopeId}
    (inside : ∀ outer ∈ parent, outer < program.scopes.size) :
    (program.addScope kind parent).2.WellScoped where
  parents := wellScoped.parents.addScope kind inside
  ownScope found := by
    obtain ⟨entry, isEntry, isFunction⟩ := wellScoped.ownScope found
    exact ⟨entry, Table.push_kept isEntry, isFunction⟩
  distinct := wellScoped.distinct
  names found known := by
    rcases Table.push_cases found with old | ⟨_, rfl⟩
    · exact wellScoped.names old known
    · cases known

theorem declare {scope : ScopeId} {name : String} {kind : DeclKind} {file : FileId} {span : Span}
    {decl : DeclId} {after : Program}
    (declared : program.declare scope name kind file span = .ok (decl, after)) :
    after.WellScoped := by
  have extended := Extends.declare declared
  obtain ⟨entry, isEntry, ⟨_, rfl⟩ | ⟨_, added⟩⟩ := declare_cases declared
  · exact wellScoped
  cases added
  constructor
  case parents => exact wellScoped.parents.declare declared
  case ownScope =>
    intro id definition found
    obtain ⟨own, isOwn, isFunction⟩ := wellScoped.ownScope found
    obtain ⟨later, isLater, sameKind, _, _⟩ := extended.scopes isOwn
    exact ⟨later, isLater, sameKind.trans isFunction⟩
  case distinct => exact wellScoped.distinct
  case names =>
    have old {id : ScopeId} {older : Scope} {other : String} {known : DeclId} {last : Declaration}
        (found : program.scopes[id]? = some older)
        (isKnown : older.names.find? other = some known) :
        ∃ later, (program.decls.push last)[known]? = some later ∧ later.scope = id := by
      obtain ⟨decl, isDecl, same⟩ := wellScoped.names found isKnown
      exact ⟨decl, Table.push_kept isDecl, same⟩
    intro id later other known found isKnown
    rcases Table.set_cases found with ⟨rfl, rfl⟩ | ⟨_, isOld⟩
    · rw [NameTable.find?_insert] at isKnown
      split at isKnown
      · cases isKnown
        exact ⟨_, Array.getElem?_push_size, rfl⟩
      · exact old isEntry isKnown
    · exact old isOld isKnown

end Program.WellScoped

namespace Lowering

/-- What is lowered so far belongs to the functions that it is recorded for. -/
structure Housed (context : Context) (state : State) : Prop where
  program : state.program.Housed
  body : ∀ stmt ∈ state.body, stmt.LivesIn state.program context.function
  scope : state.program.ScopeOwner context.scope context.function

/-! ### Steps on housed states -/

namespace Housed

variable {context : Context} {state : State} (housed : Housed context state)
include housed

theorem keep {after : Program} (extended : state.program.Extends after)
    (wellScoped : after.WellScoped) (sameDecls : after.decls = state.program.decls)
    (sameBodies : after.bodies = state.program.bodies) :
    Housed context { state with program := after } where
  program := housed.program.keep extended wellScoped
    (fun found _ => .inl ⟨_, sameDecls ▸ found, rfl, rfl⟩)
    (fun isBody inside => .inl ⟨_, sameBodies ▸ isBody, inside⟩)
  body stmt member := (housed.body stmt member).mono extended
  scope := extended.scopeOwner housed.scope

theorem numbered : Housed context state.numbered := by
  obtain ⟨parents, ownScope, distinct, names⟩ := housed.program.wellScoped
  exact housed.keep State.extends_numbered ⟨parents, ownScope, distinct, names⟩ rfl rfl

theorem withCall (site : CallSite) : Housed context (state.withCall site) := by
  obtain ⟨parents, ownScope, distinct, names⟩ := housed.program.wellScoped
  exact housed.keep (State.extends_withCall site) ⟨parents, ownScope, distinct, names⟩ rfl rfl

theorem setCall {id : CallId} {site old : CallSite}
    (found : state.program.calls[id]? = some old) (same : site.heading = old.heading) :
    Housed context (state.setCall id site) := by
  obtain ⟨parents, ownScope, distinct, names⟩ := housed.program.wellScoped
  exact housed.keep (State.extends_setCall found same) ⟨parents, ownScope, distinct, names⟩ rfl rfl

theorem withStmt {stmt : Stmt} (lives : stmt.LivesIn state.program context.function) :
    Housed context (state.withStmt stmt) := by
  refine ⟨housed.program, fun other member => ?_, housed.scope⟩
  rcases List.mem_append.mp member with old | new
  · exact housed.body other old
  · rw [List.mem_singleton] at new
    exact new ▸ lives

theorem declare {scope : ScopeId} {name : String} {kind : DeclKind} {file : FileId} {span : Span}
    {decl : DeclId} {after : Program}
    (inSight : state.program.LeavesBlocks context.scope scope) (admits : context.Admits kind)
    (declared : state.program.declare scope name kind file span = .ok (decl, after)) :
    Housed context { state with program := after } := by
  have extended := Program.Extends.declare declared
  have wellScoped := housed.program.wellScoped.declare declared
  have owns := housed.program.wellScoped.scopeOwner_of_leavesBlocks housed.scope inSight
  obtain ⟨entry, _, ⟨_, rfl⟩ | ⟨_, added⟩⟩ := Program.declare_cases declared
  · exact housed
  cases added
  refine ⟨housed.program.keep extended wellScoped ?_ fun isBody inside => .inl ⟨_, isBody, inside⟩,
    fun stmt member => (housed.body stmt member).mono extended, extended.scopeOwner housed.scope⟩
  intro id later function index found isParameter
  rcases Table.push_cases found with old | ⟨_, rfl⟩
  · exact .inl ⟨_, old, rfl, rfl⟩
  · cases isParameter
    rw [← show context.function = some function from admits]
    exact .inr (extended.scopeOwner owns)

theorem inBlock : Housed (context.inBlock state) (state.withBlock context.scope) := by
  have wellScoped := housed.program.wellScoped
  have extended := state.extends_withBlock context.scope
  have inside : ∀ outer ∈ some context.scope, outer < state.program.scopes.size := by
    rintro _ ⟨⟩
    exact wellScoped.scopeOwner_lt housed.scope
  have kept := housed.keep extended (wellScoped.addScope .block inside) rfl rfl
  refine ⟨kept.program, kept.body, ?_⟩
  refine .outer Array.getElem?_push_size ?_ rfl kept.scope
  intro id definition found
  exact Nat.ne_of_lt (wellScoped.ownScope_lt found)

theorem inFunction (node : Node) (name : Option String) (isArrow : Bool) :
    Housed (context.inFunction state isArrow)
      (state.withFunction context.scope (context.functionAt state node name isArrow)) := by
  have wellScoped := housed.program.wellScoped
  have extended := state.extends_withFunction context.scope
    (show (context.functionAt state node name isArrow).scope = _ from rfl)
  have inside : ∀ outer ∈ some context.scope, outer < state.program.scopes.size := by
    rintro _ ⟨⟩
    exact wellScoped.scopeOwner_lt housed.scope
  obtain ⟨parents, ownScope, _, names⟩ := wellScoped.addScope .function inside
  refine ⟨housed.program.keep extended ⟨parents, ?_, ?_, names⟩
    (fun found _ => .inl ⟨_, found, rfl, rfl⟩) ?_, List.forall_mem_nil _, ?_⟩
  · intro id definition found
    rcases Table.push_cases found with old | ⟨_, rfl⟩
    · exact ownScope old
    · exact ⟨_, Array.getElem?_push_size, rfl⟩
  · intro id other definition otherDefinition found foundToo sameScope
    rcases Table.push_cases found with old | ⟨rfl, rfl⟩
    · rcases Table.push_cases foundToo with oldToo | ⟨rfl, rfl⟩
      · exact wellScoped.distinct old oldToo sameScope
      · exact absurd sameScope (Nat.ne_of_lt (wellScoped.ownScope_lt old))
    · rcases Table.push_cases foundToo with oldToo | ⟨rfl, _⟩
      · exact absurd sameScope.symm (Nat.ne_of_lt (wellScoped.ownScope_lt oldToo))
      · rfl
  · intro owner body stmt isBody inBody
    rcases Program.mem_bodies.mp isBody with isTop | ⟨id, definition, found, rfl, rfl⟩
    · exact .inl ⟨body, Program.mem_bodies.mpr (.inl isTop), inBody⟩
    · rcases Table.push_cases found with old | ⟨_, rfl⟩
      · exact .inl ⟨_, Program.mem_bodies.mpr (.inr ⟨id, definition, old, rfl, rfl⟩), inBody⟩
      · cases inBody
  · have found : (state.withFunction context.scope
        (context.functionAt state node name isArrow)).program.functions[
          state.program.functions.size]? = some (context.functionAt state node name isArrow) :=
      Array.getElem?_push_size
    exact .own found

theorem setFunction {inner : Context} {after : State} (housedAfter : Housed inner after)
    (lowered : state.program.Extends after.program) {id : FunctionId}
    {definition old : FunctionDef} (isFunction : inner.function = some id)
    (found : after.program.functions[id]? = some old) (same : definition.heading = old.heading)
    (isBody : definition.body = after.body) :
    Housed context (after.setFunction id definition state.body) := by
  have closes : after.program.Extends (after.setFunction id definition state.body).program :=
    State.extends_setFunction found same
  have sameScope : definition.scope = old.scope := (congrArg FunctionDef.scope same :)
  have extended := lowered.trans closes
  have wasThere {other : FunctionId} {changed : FunctionDef}
      (isChanged : (after.program.functions.setIfInBounds id definition)[other]? = some changed) :
      ∃ was, after.program.functions[other]? = some was ∧ was.scope = changed.scope := by
    rcases Table.set_cases isChanged with ⟨rfl, rfl⟩ | ⟨_, kept⟩
    · exact ⟨old, found, sameScope.symm⟩
    · exact ⟨changed, kept, rfl⟩
  obtain ⟨parents, ownScope, distinct, names⟩ := housedAfter.program.wellScoped
  refine ⟨housedAfter.program.keep closes ⟨parents, ?_, ?_, names⟩
    (fun isDecl _ => .inl ⟨_, isDecl, rfl, rfl⟩) ?_,
    fun stmt member => (housed.body stmt member).mono extended, extended.scopeOwner housed.scope⟩
  · intro other changed isChanged
    obtain ⟨was, isWas, same⟩ := wasThere isChanged
    exact same ▸ ownScope isWas
  · intro one two changedOne changedTwo isOne isTwo sameScopes
    obtain ⟨_, wasOne, sameOne⟩ := wasThere isOne
    obtain ⟨_, wasTwo, sameTwo⟩ := wasThere isTwo
    exact distinct wasOne wasTwo (sameOne.trans (sameScopes.trans sameTwo.symm))
  · intro owner body stmt isOwned inBody
    rcases Program.mem_bodies.mp isOwned with isTop | ⟨other, changed, isChanged, rfl, rfl⟩
    · exact .inl ⟨body, Program.mem_bodies.mpr (.inl isTop), inBody⟩
    · rcases Table.set_cases isChanged with ⟨rfl, rfl⟩ | ⟨_, kept⟩
      · rw [isBody] at inBody
        exact .inr (isFunction ▸ (housedAfter.body stmt inBody).mono closes)
      · exact .inl ⟨_, Program.mem_bodies.mpr (.inr ⟨other, changed, kept, rfl, rfl⟩), inBody⟩

end Housed

/-! ### Derivations -/

/-- Derivations lead from housed states to housed states, and the calls in hand are calls of the
function around them. -/
theorem Lowers.housed_and_calledFrom {root : Node} {context : Context} {before after : State}
    {exprs : List Expr} (lowered : Lowers root context before exprs after)
    (housed : Housed context before) :
    Housed context after ∧
      ∀ part ∈ Expr.allOf exprs, part.CalledFrom after.program context.function := by
  induction lowered with
  | done => exact ⟨housed, List.forall_mem_nil _⟩
  | seq _ second firstHypothesis secondHypothesis =>
    obtain ⟨housedMiddle, leftCalled⟩ := firstHypothesis housed
    obtain ⟨housedAfter, rightCalled⟩ := secondHypothesis housedMiddle
    refine ⟨housedAfter, fun part member => ?_⟩
    rw [Expr.allOf_append, List.mem_append] at member
    rcases member with inLeft | inRight
    · exact (leftCalled part inLeft).mono second.extends
    · exact rightCalled part inRight
  | build _ builds inductionHypothesis =>
    obtain ⟨housedAfter, partsCalled⟩ := inductionHypothesis housed
    refine ⟨housedAfter.numbered, fun part member => ?_⟩
    rw [Expr.allOf, Expr.allOf, List.append_nil, builds.all_perm.mem_iff, List.mem_cons] at member
    rcases member with rfl | inside
    · cases builds <;> trivial
    · exact (partsCalled part inside).mono State.extends_numbered
  | skip => exact ⟨housed.numbered, List.forall_mem_nil _⟩
  | emit _ emits inductionHypothesis =>
    obtain ⟨housedAfter, called⟩ := inductionHypothesis housed
    refine ⟨housedAfter.withStmt ⟨?_, ?_⟩, List.forall_mem_nil _⟩
    · rw [emits.exprs_eq]
      exact called
    · cases emits with
      | expr | result => trivial
      | declare _ inSight =>
        obtain ⟨outer, entry, name, leaves, isEntry, known⟩ := inSight
        obtain ⟨decl, isDecl, rfl⟩ := housedAfter.program.wellScoped.names isEntry known
        exact ⟨decl, isDecl, housedAfter.program.wellScoped.scopeOwner_of_leavesBlocks
          housedAfter.scope leaves⟩
  | declare _ inSight admits _ declared =>
    exact ⟨housed.declare inSight admits declared, List.forall_mem_nil _⟩
  | block lowered inductionHypothesis =>
    obtain ⟨housedAfter, _⟩ := inductionHypothesis housed.inBlock
    have extended := (State.extends_withBlock _).trans lowered.extends
    exact ⟨⟨housedAfter.program, housedAfter.body, extended.scopeOwner housed.scope⟩,
      List.forall_mem_nil _⟩
  | @call _ node context before after isNew site callee arguments _ lowered found
      inductionHypothesis =>
    obtain ⟨housedAfter, partsCalled⟩ :=
      inductionHypothesis (housed.withCall (context.callAt _ node isNew))
    cases lowered.opened_call found
    have below : before.program.calls.size < after.program.calls.size := Table.below found
    constructor
    · apply Housed.numbered
      exact housedAfter.setCall found rfl
    intro part member
    rw [Expr.allOf, Expr.allOf, List.append_nil, Expr.all, List.mem_cons] at member
    rcases member with rfl | inside
    · exact ⟨_, Array.getElem?_setIfInBounds_self_of_lt below, rfl⟩
    · refine (partsCalled part inside).mono (Program.Extends.trans ?_ State.extends_numbered)
      exact State.extends_setCall found rfl
  | @function _ node _ _ _ name isArrow definition params _ lowered found parameters
      inductionHypothesis =>
    obtain ⟨housedAfter, _⟩ := inductionHypothesis (housed.inFunction node name isArrow)
    have extended := (State.extends_withFunction _ rfl).trans lowered.extends
    exact ⟨housed.setFunction housedAfter extended rfl found rfl rfl, List.forall_mem_nil _⟩

end Lowering

end FunctionFlow
