import FunctionFlow.Proofs.Lowering.WellFormed
import FunctionFlow.Proofs.Program.CallSites

/-!
Contract: lowering makes one expression for every call.
-/

namespace FunctionFlow

namespace Lowering

variable {root : Node} {context : Context} {before middle after state : State} {exprs : List Expr}

/-! ### One expression for each call -/

/-- From one state to another the expressions `made` were added, those in `hand` included. They make
the calls that were added, each once. -/
structure Made (before after : State) (hand made : List Expr) : Prop where
  grown : before.program.calls.size ≤ after.program.calls.size
  exprs : (after.exprs ++ Expr.allOf hand).Perm (before.exprs ++ made)
  sites : (made.filterMap Expr.site?).Perm
    (List.range' before.program.calls.size
      (after.program.calls.size - before.program.calls.size))
  described : ∀ expr ∈ made, expr.Described after.program

namespace Made

variable {hand left right made madeFirst madeSecond : List Expr}

theorem of_eq (sameExprs : after.exprs = before.exprs)
    (sameCalls : after.program.calls = before.program.calls) : Made before after [] [] where
  grown := Nat.le_of_eq (congrArg Array.size sameCalls).symm
  exprs := by
    rw [sameExprs]
    exact .refl _
  sites := by
    rw [sameCalls, Nat.sub_self]
    exact .refl _
  described := List.forall_mem_nil _

theorem le_site (added : Made before after hand made) {expr : Expr} (member : expr ∈ made)
    {id : CallId} (isSite : expr.site? = some id) : before.program.calls.size ≤ id := by
  have listed := added.sites.mem_iff.mp (List.mem_filterMap.mpr ⟨expr, member, isSite⟩)
  exact (List.mem_range'_1.mp listed).1

theorem trans (first : Made before middle left madeFirst)
    (second : Made middle after right madeSecond)
    (kept : ∀ {id : CallId} {site : CallSite}, middle.program.calls[id]? = some site →
      after.program.calls[id]? = some site) :
    Made before after (left ++ right) (madeFirst ++ madeSecond) where
  grown := Nat.le_trans first.grown second.grown
  exprs := by
    rw [Expr.allOf_append]
    calc
      List.Perm (after.exprs ++ (Expr.allOf left ++ Expr.allOf right))
          ((after.exprs ++ Expr.allOf right) ++ Expr.allOf left) := by
        rw [List.append_assoc]
        exact List.perm_append_comm.append_left _
      List.Perm _ ((middle.exprs ++ madeSecond) ++ Expr.allOf left) :=
        second.exprs.append_right _
      List.Perm _ ((middle.exprs ++ Expr.allOf left) ++ madeSecond) := by
        rw [List.append_assoc, List.append_assoc]
        exact List.perm_append_comm.append_left _
      List.Perm _ (before.exprs ++ (madeFirst ++ madeSecond)) := by
        rw [← List.append_assoc]
        exact first.exprs.append_right _
  sites := by
    have split : after.program.calls.size - before.program.calls.size =
        (middle.program.calls.size - before.program.calls.size) +
          (after.program.calls.size - middle.program.calls.size) := by
      have := first.grown
      have := second.grown
      omega
    have next : before.program.calls.size +
        (middle.program.calls.size - before.program.calls.size) = middle.program.calls.size :=
      Nat.add_sub_cancel' first.grown
    rw [List.filterMap_append, split, ← List.range'_append_1, next]
    exact first.sites.append second.sites
  described expr member := by
    rcases List.mem_append.mp member with inFirst | inSecond
    · exact (first.described expr inFirst).mono fun _ _ _ found => kept found
    · exact second.described expr inSecond

theorem build (added : Made before after hand made) {next : State} {expr : Expr}
    (sameExprs : next.exprs = after.exprs) (sameCalls : next.program.calls = after.program.calls)
    (parts : expr.all.Perm (expr :: Expr.allOf hand)) (noSite : expr.site? = none) :
    Made before next [expr] (expr :: made) where
  grown := by
    rw [sameCalls]
    exact added.grown
  exprs := by
    rw [Expr.allOf, Expr.allOf, List.append_nil, sameExprs]
    refine (parts.append_left _).trans ?_
    exact List.perm_middle.trans ((added.exprs.cons expr).trans List.perm_middle.symm)
  sites := by
    rw [List.filterMap_cons_none noSite, sameCalls]
    exact added.sites
  described part member := by
    rcases List.mem_cons.mp member with rfl | old
    · cases part with
      | call => cases noSite
      | _ => trivial
    · refine (added.described part old).mono fun _ _ _ found => ?_
      rw [sameCalls]
      exact found

end Made

theorem Builds.site?_eq {program : Program} {node : NodeId} {parts : List Expr} {expr : Expr}
    (builds : Builds context program node parts expr) : expr.site? = none := by
  cases builds <;> rfl

theorem Lowers.made (lowered : Lowers root context before exprs after) :
    ∃ made, Made before after exprs made := by
  induction lowered with
  | done => exact ⟨[], .of_eq rfl rfl⟩
  | seq _ second firstHypothesis secondHypothesis =>
    obtain ⟨madeFirst, first⟩ := firstHypothesis
    obtain ⟨madeSecond, later⟩ := secondHypothesis
    exact ⟨madeFirst ++ madeSecond, first.trans later second.keeps.calls⟩
  | build _ builds inductionHypothesis =>
    obtain ⟨made, added⟩ := inductionHypothesis
    exact ⟨_, added.build rfl rfl builds.all_perm builds.site?_eq⟩
  | skip => exact ⟨[], .of_eq rfl rfl⟩
  | emit _ emits inductionHypothesis =>
    obtain ⟨made, added⟩ := inductionHypothesis
    refine ⟨made, added.grown, ?_, added.sites, added.described⟩
    rw [State.exprs_withStmt, emits.exprs_eq, Expr.allOf, List.append_nil]
    exact added.exprs
  | declare _ _ _ _ declared =>
    obtain ⟨_, _, rfl, _⟩ := Program.declare_frame declared
    exact ⟨[], .of_eq rfl rfl⟩
  | block _ inductionHypothesis =>
    obtain ⟨made, added⟩ := inductionHypothesis
    exact ⟨made, added.grown, added.exprs, added.sites, added.described⟩
  | @call _ node context before after isNew site callee arguments _ lowered found
      inductionHypothesis =>
    obtain ⟨made, added⟩ := inductionHypothesis
    have below : before.program.calls.size < after.program.calls.size := Table.below found
    have opened : (before.withCall (context.callAt before node isNew)).program.calls.size =
        before.program.calls.size + 1 := Array.size_push _
    cases lowered.opened_call found
    refine ⟨.call after.program.nextNode before.program.calls.size callee arguments :: made,
      ?_, ?_, ?_, ?_⟩
    · show before.program.calls.size ≤ (after.program.calls.setIfInBounds _ _).size
      rw [Array.size_setIfInBounds]
      exact Nat.le_of_lt below
    · rw [Expr.allOf, Expr.allOf, List.append_nil, Expr.all, ← Expr.allOf]
      exact List.perm_middle.trans ((added.exprs.cons _).trans List.perm_middle.symm)
    · show (before.program.calls.size :: made.filterMap Expr.site?).Perm
        (List.range' _ ((after.program.calls.setIfInBounds _ _).size - _))
      have count : after.program.calls.size - before.program.calls.size =
          after.program.calls.size - (before.program.calls.size + 1) + 1 := by
        omega
      rw [Array.size_setIfInBounds, count, List.range'_succ, ← opened]
      exact added.sites.cons _
    · intro expr member
      rcases List.mem_cons.mp member with rfl | old
      · exact ⟨_, Array.getElem?_setIfInBounds_self_of_lt below, rfl, rfl⟩
      · refine (added.described expr old).mono fun id isSite entry isEntry => ?_
        have isLater := added.le_site old isSite
        rw [opened] at isLater
        exact (Array.getElem?_setIfInBounds_ne (Nat.ne_of_lt isLater)).trans isEntry
  | @function _ node context before after name isArrow definition params _ lowered found _
      inductionHypothesis =>
    obtain ⟨made, added⟩ := inductionHypothesis
    cases lowered.opened_function found
    refine ⟨made, added.grown, ?_, added.sites, fun expr member =>
      (added.described expr member).mono fun _ _ _ isEntry => isEntry⟩
    rw [Expr.allOf, List.append_nil]
    -- the statements around the function come back next to its body
    have inner : after.exprs.Perm (before.program.exprs ++ made) := by
      have perm := added.exprs
      rw [Expr.allOf, List.append_nil, State.exprs_withFunction rfl] at perm
      exact perm
    calc
      List.Perm (after.setFunction _ _ before.body).exprs
          (after.exprs ++ before.body.flatMap Stmt.exprs) :=
        State.exprs_setFunction_perm found rfl rfl
      List.Perm _ ((before.program.exprs ++ made) ++ before.body.flatMap Stmt.exprs) :=
        inner.append_right _
      List.Perm _ (before.exprs ++ made) := by
        rw [State.exprs, List.append_assoc, List.append_assoc]
        exact List.perm_append_comm.append_left _

/-! ### Spans inside spans -/

/-- Calls and functions lie inside the function around them, and so does what is lowered in the
context. -/
structure Spanned (root : Node) (context : Context) (state : State) : Prop where
  program : state.program.SpansNested
  around : ∀ outer, context.function = some outer → ∀ node, Node.Inside root node →
    state.program.Encloses outer context.file (spanOf context node)

namespace Spanned

variable (spanned : Spanned root context state)
include spanned

theorem of_extends {next : State} (extended : state.program.Extends next.program)
    (program : next.program.SpansNested) : Spanned root context next where
  program := program
  around outer isOuter node inside := extended.encloses (spanned.around outer isOuter node inside)

theorem keep {next : State} (extended : state.program.Extends next.program)
    (sameCalls : next.program.calls = state.program.calls)
    (sameFunctions : next.program.functions = state.program.functions) :
    Spanned root context next := by
  apply spanned.of_extends extended
  apply spanned.program.keep extended
  · intro id site found
    exact .inl ⟨site, sameCalls ▸ found, rfl⟩
  · intro id definition found
    exact .inl ⟨definition, sameFunctions ▸ found, rfl⟩

theorem numbered : Spanned root context state.numbered :=
  spanned.keep State.extends_numbered rfl rfl

theorem declare {scope : ScopeId} {name : String} {kind : DeclKind} {file : FileId} {span : Span}
    {decl : DeclId} {program : Program}
    (declared : state.program.declare scope name kind file span = .ok (decl, program)) :
    Spanned root context { state with program } := by
  have extended := Program.Extends.declare declared
  obtain ⟨_, _, rfl, _⟩ := Program.declare_frame declared
  exact spanned.keep extended rfl rfl

theorem withCall {node : Node} (inside : Node.Inside root node) (isNew : Bool) :
    Spanned node context (state.withCall (context.callAt state node isNew)) := by
  have extended : state.program.Extends (state.withCall (context.callAt state node isNew)).program :=
    (State.extends_withCall _)
  constructor
  · apply spanned.program.keep extended
    · intro id site found
      rcases Table.push_cases found with old | ⟨_, rfl⟩
      · exact .inl ⟨site, old, rfl⟩
      · exact .inr fun outer isOuter => extended.encloses (spanned.around outer isOuter node inside)
    · intro id definition found
      exact .inl ⟨definition, found, rfl⟩
  · intro outer isOuter inner isInner
    exact extended.encloses (spanned.around outer isOuter inner (inside.trans isInner))

theorem setCall {id : CallId} {site old : CallSite} (isOld : state.program.calls[id]? = some old)
    (same : site.heading = old.heading) : Spanned root context (state.setCall id site) := by
  have extended : state.program.Extends (state.setCall id site).program :=
    State.extends_setCall isOld same
  apply spanned.of_extends extended
  apply spanned.program.keep extended
  · intro other entry found
    rcases Table.set_cases found with ⟨rfl, rfl⟩ | ⟨_, kept⟩
    · exact .inl ⟨old, isOld, same.symm⟩
    · exact .inl ⟨entry, kept, rfl⟩
  · intro other definition found
    exact .inl ⟨definition, found, rfl⟩

theorem inFunction {tree node : Node} (nested : tree.Nested) (isRoot : Node.Inside tree root)
    (inside : Node.Inside root node) (name : Option String) (isArrow : Bool) :
    Spanned node (context.inFunction state isArrow)
      (state.withFunction context.scope (context.functionAt state node name isArrow)) := by
  have extended : state.program.Extends
      (state.withFunction context.scope (context.functionAt state node name isArrow)).program :=
    State.extends_withFunction _ rfl
  constructor
  · apply spanned.program.keep extended
    · intro id site found
      exact .inl ⟨site, found, rfl⟩
    · intro id definition found
      rcases Table.push_cases found with old | ⟨_, rfl⟩
      · exact .inl ⟨definition, old, rfl⟩
      · exact .inr fun outer isOuter => extended.encloses (spanned.around outer isOuter node inside)
  · intro outer isOuter inner isInner
    cases isOuter
    exact ⟨_, Array.getElem?_push_size, rfl, nested.range_of_inside (isRoot.trans inside) isInner⟩

end Spanned

theorem Lowers.spanned (lowered : Lowers root context before exprs after) {tree : Node}
    (nested : tree.Nested) (isRoot : Node.Inside tree root) (spanned : Spanned root context before) :
    Spanned root context after := by
  induction lowered with
  | done => exact spanned
  | seq _ _ first second => exact second isRoot (first isRoot spanned)
  | build _ _ inductionHypothesis => exact (inductionHypothesis isRoot spanned).numbered
  | skip => exact spanned.numbered
  | emit _ _ inductionHypothesis =>
    obtain ⟨program, around⟩ := inductionHypothesis isRoot spanned
    exact ⟨program, around⟩
  | declare _ _ _ _ declared => exact spanned.declare declared
  | @block _ context before _ _ inductionHypothesis =>
    have extended : before.program.Extends (before.withBlock context.scope).program :=
      State.extends_withBlock _
    obtain ⟨program, around⟩ := spanned.keep extended rfl rfl
    obtain ⟨programAfter, aroundAfter⟩ := inductionHypothesis isRoot ⟨program, around⟩
    exact ⟨programAfter, aroundAfter⟩
  | @call _ node context before after isNew site callee arguments inside lowered found
      inductionHypothesis =>
    have opened := inductionHypothesis (isRoot.trans inside) (spanned.withCall inside isNew)
    have closed : Spanned node context (after.setCall before.program.calls.size
        { site with
          arity := arguments.length
          hasReceiver := !isNew && callee.isMember }) := opened.setCall found rfl
    exact spanned.of_extends (Lowers.call inside lowered found).extends closed.numbered.program
  | @function _ node context before after name isArrow definition params inside lowered found
      parameters inductionHypothesis =>
    have opened := inductionHypothesis (isRoot.trans inside)
      (spanned.inFunction nested isRoot inside name isArrow)
    have closes : after.program.Extends (after.setFunction before.program.functions.size
        { definition with params, body := after.body } before.body).program :=
      State.extends_setFunction found rfl
    apply spanned.of_extends (Lowers.function inside lowered found parameters).extends
    apply opened.program.keep closes
    · intro id site isSite
      exact .inl ⟨site, isSite, rfl⟩
    · intro id changed isChanged
      rcases Table.set_cases isChanged with ⟨rfl, rfl⟩ | ⟨_, kept⟩
      · exact .inl ⟨definition, found, rfl⟩
      · exact .inl ⟨changed, kept, rfl⟩

end Lowering

end FunctionFlow
