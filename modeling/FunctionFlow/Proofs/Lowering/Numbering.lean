import FunctionFlow.Proofs.Lowering.Derivation

/-!
Contract: lowering gives every expression an identity of its own.

Expressions move from hand to the body that is collected, and from there into a function. What
counts is that none of them is copied, so lists of identities are compared up to order.
-/

namespace FunctionFlow

namespace Lowering

def State.exprs (state : State) : List Expr :=
  state.program.exprs ++ state.body.flatMap Stmt.exprs

def State.nodes (state : State) : List NodeId :=
  state.exprs.map Expr.node

/-- The expressions of a state, and those of `held` identities, are told apart by their identities,
none of which will be given away again. -/
structure Numbered (state : State) (held : List NodeId) : Prop where
  distinct : (state.nodes ++ held).Nodup
  below : ∀ node ∈ state.nodes ++ held, node < state.program.nextNode

namespace Numbered

variable {before after : State} {held heldAfter : List NodeId}

theorem of_perm (numbered : Numbered before held)
    (perm : (after.nodes ++ heldAfter).Perm (before.nodes ++ held))
    (grow : before.program.nextNode ≤ after.program.nextNode) : Numbered after heldAfter where
  distinct := perm.nodup_iff.mpr numbered.distinct
  below node member := Nat.lt_of_lt_of_le (numbered.below node (perm.mem_iff.mp member)) grow

theorem fresh (numbered : Numbered before held) :
    Numbered before.numbered (before.program.nextNode :: held) := by
  have perm : (before.nodes ++ before.program.nextNode :: held).Perm
      (before.program.nextNode :: (before.nodes ++ held)) := List.perm_middle
  constructor
  · refine perm.nodup_iff.mpr (List.nodup_cons.mpr ⟨fun member => ?_, numbered.distinct⟩)
    exact Nat.lt_irrefl _ (numbered.below _ member)
  · intro node member
    rcases List.mem_cons.mp (perm.mem_iff.mp member) with rfl | old
    · exact Nat.lt_succ_self _
    · exact Nat.lt_succ_of_lt (numbered.below node old)

end Numbered

theorem map_node_perm {expr : Expr} {node : NodeId} {parts : List Expr} (isNode : expr.node = node)
    (perm : expr.all.Perm (expr :: Expr.allOf parts)) :
    ((Expr.allOf [expr]).map Expr.node).Perm (node :: (Expr.allOf parts).map Expr.node) := by
  rw [Expr.allOf, Expr.allOf, List.append_nil, ← isNode]
  exact perm.map Expr.node

theorem flatMap_set_perm {definitions : List FunctionDef} {id : Nat} {old : FunctionDef}
    (found : definitions[id]? = some old) (isEmpty : old.body = []) (new : FunctionDef) :
    ((definitions.set id new).flatMap (·.body.flatMap Stmt.exprs)).Perm
      (definitions.flatMap (·.body.flatMap Stmt.exprs) ++ new.body.flatMap Stmt.exprs) := by
  induction definitions generalizing id with
  | nil => cases found
  | cons first rest inductionHypothesis =>
    cases id with
    | zero =>
      cases found
      rw [List.set_cons_zero, List.flatMap_cons, List.flatMap_cons, isEmpty, List.flatMap_nil,
        List.nil_append]
      exact List.perm_append_comm
    | succ id =>
      rw [List.set_cons_succ, List.flatMap_cons, List.flatMap_cons, List.append_assoc]
      exact (inductionHypothesis found).append_left _

theorem State.exprs_withStmt (state : State) (stmt : Stmt) :
    (state.withStmt stmt).exprs = state.exprs ++ stmt.exprs := by
  simp [State.exprs, State.withStmt]

theorem State.exprs_withFunction {state : State} {scope : ScopeId} {definition : FunctionDef}
    (isEmpty : definition.body = []) :
    (state.withFunction scope definition).exprs = state.program.exprs := by
  simp [State.exprs, State.withFunction, Program.addScope, Program.exprs_eq, isEmpty]

/-- The body of a function moves into the table, and the statements around it come back. -/
theorem State.exprs_setFunction_perm {state : State} {id : FunctionId} {old new : FunctionDef}
    {outer : List Stmt} (found : state.program.functions[id]? = some old)
    (isEmpty : old.body = []) (isBody : new.body = state.body) :
    ((state.setFunction id new outer).exprs).Perm
      (state.exprs ++ outer.flatMap Stmt.exprs) := by
  have moved := flatMap_set_perm (Array.getElem?_toList.trans found) isEmpty new
  apply List.Perm.append_right
  rw [State.exprs, Program.exprs_eq, Program.exprs_eq, List.append_assoc, ← isBody,
    State.setFunction]
  simp only [Array.toList_setIfInBounds]
  exact moved.append_left _

/-- Derivations keep identities distinct; `held` are those of expressions that are put aside. -/
theorem Lowers.numbered {root : Node} {context : Context} {before after : State}
    {exprs : List Expr} (lowered : Lowers root context before exprs after) {held : List NodeId}
    (numbered : Numbered before held) :
    Numbered after (held ++ (Expr.allOf exprs).map Expr.node) := by
  induction lowered generalizing held with
  | done =>
    rw [Expr.allOf, List.map_nil, List.append_nil]
    exact numbered
  | seq _ _ first second =>
    rw [Expr.allOf_append, List.map_append, ← List.append_assoc]
    exact second (first numbered)
  | build _ builds inductionHypothesis =>
    have fresh := (inductionHypothesis numbered).fresh
    refine fresh.of_perm (List.Perm.append_left _ ?_) (Nat.le_refl _)
    exact ((map_node_perm builds.node_eq builds.all_perm).append_left held).trans List.perm_middle
  | skip =>
    rw [Expr.allOf, List.map_nil, List.append_nil]
    exact numbered.of_perm (.refl _) (Nat.le_succ _)
  | emit _ emits inductionHypothesis =>
    refine (inductionHypothesis numbered).of_perm ?_ (Nat.le_refl _)
    rw [State.nodes, State.exprs_withStmt, List.map_append, emits.exprs_eq, Expr.allOf,
      List.map_nil, List.append_nil, List.append_assoc]
    exact List.perm_append_comm.append_left _
  | declare _ _ _ _ declared =>
    rw [Expr.allOf, List.map_nil, List.append_nil]
    obtain ⟨_, _, rfl, _⟩ := Program.declare_frame declared
    exact ⟨numbered.distinct, numbered.below⟩
  | block _ inductionHypothesis => exact inductionHypothesis ⟨numbered.distinct, numbered.below⟩
  | call _ _ _ inductionHypothesis =>
    have fresh := (inductionHypothesis ⟨numbered.distinct, numbered.below⟩).fresh
    refine fresh.of_perm (List.Perm.append_left _ ?_) (Nat.le_refl _)
    exact ((map_node_perm rfl (.refl _)).append_left held).trans List.perm_middle
  | @function _ node context before after name isArrow definition params _ lowered found _
      inductionHypothesis =>
    -- the statements around the function are put aside while its body is lowered
    have aside : Numbered (before.withFunction context.scope
        (context.functionAt before node name isArrow))
          (held ++ (before.body.flatMap Stmt.exprs).map Expr.node) := by
      refine numbered.of_perm ?_ (Nat.le_refl _)
      rw [State.nodes, State.exprs_withFunction rfl, State.nodes, State.exprs, List.map_append,
        List.append_assoc]
      exact List.perm_append_comm.append_left _
    cases lowered.opened_function found
    refine (inductionHypothesis aside).of_perm ?_ (Nat.le_refl _)
    refine (((State.exprs_setFunction_perm found rfl rfl).map Expr.node).append_right _).trans ?_
    simp only [Expr.allOf, List.map_nil, List.append_nil, List.map_append, List.append_assoc]
    exact List.perm_append_comm.append_left _

end Lowering

end FunctionFlow
