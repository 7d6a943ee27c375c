import FunctionFlow.Proofs.Analysis.Bridges

/-!
Contract: choices inside choices may be flattened.
-/

namespace FunctionFlow

/-! ### Foreign slots -/

namespace Program.SameTables

variable {program other : Program} (same : program.SameTables other)
include same

theorem owner (scope : ScopeId) : other.owner scope = program.owner scope := by
  have ofScope (scope : ScopeId) : other.functionOfScope? scope = program.functionOfScope? scope := by
    have byScopes (program : Program) : program.functionOfScope? scope =
        ((program.functions.toList.map (·.scope)).zipIdx.reverse.find? (·.1 == scope)).map (·.2) := by
      simp only [functionOfScope?, List.zipIdx_map, ← List.map_reverse, List.find?_map,
        Option.map_map]
      rfl
    rw [byScopes, byScopes, same.ownScopes]
  have within (steps : Nat) : other.ownerWithin steps scope = program.ownerWithin steps scope := by
    induction steps generalizing scope with
    | zero => rfl
    | succ steps inductionHypothesis =>
      simp only [ownerWithin, ofScope, Program.scope, same.scopes, inductionHypothesis]
  rw [Program.owner, Program.owner, same.scopes, within]

theorem foreignSlot (owner : Option FunctionId) {expr bare : Expr} (sameBare : bare.bare = expr.bare) :
    other.foreignSlot owner bare = program.foreignSlot owner expr := by
  cases expr with
  | ident node reference =>
    cases bare <;> cases sameBare
    simp only [Program.foreignSlot, same.owner, Program.decl, same.decls, Program.declVertex,
      Program.isGlobal, Program.scope, same.scopes]
  | this _ receiver =>
    cases bare <;> cases sameBare
    cases receiver <;> rfl
  | _ =>
    cases bare <;> cases sameBare
    rfl

end Program.SameTables

namespace Nesting

variable {nesting : Nesting} {fill : Expr → Program} (place : Program.Place fill)
include place

theorem foreign_iff {vertex : Vertex} :
    (fill nesting.nested).Foreign vertex ↔ (fill nesting.flat).Foreign vertex := by
  constructor
  · rintro ⟨owner, expr, has, answered⟩
    rcases (place.bodyHas nesting.oneMore).1 has with isInner | ⟨whole, hasWhole, same⟩
    · cases expr <;> cases isInner
      cases answered
    · exact ⟨owner, whole, hasWhole,
        ((place.sameTables nesting.nested nesting.flat).foreignSlot owner same).trans answered⟩
  · rintro ⟨owner, expr, has, answered⟩
    obtain ⟨whole, hasWhole, same⟩ := (place.bodyHas nesting.oneMore).2 has
    exact ⟨owner, whole, hasWhole,
      ((place.sameTables nesting.flat nesting.nested).foreignSlot owner same).trans answered⟩

theorem slotsKnown_iff : (fill nesting.nested).SlotsKnown ↔ (fill nesting.flat).SlotsKnown := by
  constructor
  · intro known owner expr has
    obtain ⟨whole, hasWhole, same⟩ := (place.bodyHas nesting.oneMore).2 has
    obtain ⟨slot, answered⟩ := known owner whole hasWhole
    exact ⟨slot, ((place.sameTables nesting.nested nesting.flat).foreignSlot owner
      same.symm).trans answered⟩
  · intro known owner expr has
    rcases (place.bodyHas nesting.oneMore).1 has with isInner | ⟨whole, hasWhole, same⟩
    · cases expr <;> cases isInner
      exact ⟨none, rfl⟩
    · obtain ⟨slot, answered⟩ := known owner whole hasWhole
      exact ⟨slot, ((place.sameTables nesting.flat nesting.nested).foreignSlot owner
        same.symm).trans answered⟩

end Nesting

/-! ### Flattening -/

def Expr.FlattensOnce (expr other : Expr) : Prop :=
  ∃ nesting : Nesting, expr = nesting.nested ∧ other = nesting.flat

def Expr.Flattens : Expr → Expr → Prop :=
  Relation.ReflTransGen Expr.FlattensOnce

theorem Expr.Flattens.sameCalls {expr other : Expr} (flattens : expr.Flattens other)
    {fill : Expr → Program} (place : Program.Place fill) (inRange : (fill expr).InRange)
    (distinct : ((fill expr).exprs.map Expr.node).Nodup) : (fill expr).SameCalls (fill other) := by
  induction flattens using Relation.ReflTransGen.head_induction_on with
  | refl => exact .refl inRange
  | head once _ inductionHypothesis =>
    obtain ⟨nesting, rfl, rfl⟩ := once
    have flatInRange := place.inRange nesting.oneMore inRange
    have flatDistinct := (List.nodup_cons.mp
      ((place.oneMore nesting.oneMore).nodes.nodup_iff.mp distinct)).2
    have into : (fill nesting.nested).FlowsInto (fill nesting.flat) :=
      ⟨place.sameTables _ _, fun notMerge => (Nesting.place_iff place notMerge).mp,
        Nesting.bridge_flat place distinct, Nesting.foreign_iff place,
        (Nesting.slotsKnown_iff place).mp⟩
    have back : (fill nesting.flat).FlowsInto (fill nesting.nested) :=
      ⟨place.sameTables _ _, fun notMerge => (Nesting.place_iff place notMerge).mpr,
        Nesting.bridge_nested place distinct, (Nesting.foreign_iff place).symm,
        (Nesting.slotsKnown_iff place).mpr⟩
    exact (into.sameCalls back inRange flatInRange).trans
      (inductionHypothesis flatInRange flatDistinct)

/-- A chain of operators, each of which takes what is on its left as one operand. -/
def Expr.operatorChain (first : Expr) (rest : List (NodeId × Expr)) : Expr :=
  rest.foldl (fun left operand => .select operand.1 [] [left, operand.2]) first

/-- A chain of commas, each of which takes what is on its right as its value. -/
def Expr.commaChain (last : Expr) : List (NodeId × Expr) → Expr
  | [] => last
  | (node, first) :: rest => .select node [first] [Expr.commaChain last rest]

theorem Expr.flattens_operatorChain (node : NodeId) (first : Expr) (rest : List (NodeId × Expr))
    (operands : List Expr) :
    (Expr.select node [] (Expr.operatorChain first rest :: operands)).Flattens
      (.select node [] (first :: rest.map (·.2) ++ operands)) := by
  induction rest using List.reverseRecOn generalizing operands with
  | nil => exact .refl
  | append_singleton rest operand inductionHypothesis =>
    refine .head ⟨⟨node, operand.1, [], [], [], [Expr.operatorChain first rest, operand.2],
      operands⟩, ?_, rfl⟩ ?_
    · simp [Expr.operatorChain, Nesting.nested]
    · simpa [Expr.Flattens, Nesting.flat] using inductionHypothesis (operand.2 :: operands)

theorem Expr.flattens_commaChain (node : NodeId) (guards : List Expr) (last : Expr)
    (rest : List (NodeId × Expr)) :
    (Expr.select node guards [Expr.commaChain last rest]).Flattens
      (.select node (guards ++ rest.map (·.2)) [last]) := by
  induction rest generalizing guards with
  | nil =>
    rw [List.map_nil, List.append_nil]
    exact .refl
  | cons guard rest inductionHypothesis =>
    refine .head ⟨⟨node, guard.1, guards, [guard.2], [], [Expr.commaChain last rest], []⟩, rfl,
      rfl⟩ ?_
    simpa [Expr.Flattens, Nesting.flat] using inductionHypothesis (guards ++ [guard.2])

/-- In a program in range whose nodes are distinct, a choice inside another one may be flattened, at
any place. Hence chains of operators and chains of commas may be one choice each. -/
theorem flattening_preserves_calls {fill : Expr → Program} (place : Program.Place fill) :
    (∀ outer inner guards innerGuards before values after,
      let nested : Expr := .select outer guards (before ++ .select inner innerGuards values :: after)
      let flat : Expr := .select outer (guards ++ innerGuards) (before ++ values ++ after)
      (fill nested).InRange → ((fill nested).exprs.map Expr.node).Nodup →
        (fill nested).SameCalls (fill flat)) ∧
    (∀ first rest node right,
      let chain := Expr.operatorChain first (rest ++ [(node, right)])
      let flat : Expr := .select node [] (first :: rest.map (·.2) ++ [right])
      (fill chain).InRange → ((fill chain).exprs.map Expr.node).Nodup →
        (fill chain).SameCalls (fill flat)) ∧
    ∀ node first rest last,
      let chain := Expr.commaChain last ((node, first) :: rest)
      let flat : Expr := .select node (first :: rest.map (·.2)) [last]
      (fill chain).InRange → ((fill chain).exprs.map Expr.node).Nodup →
        (fill chain).SameCalls (fill flat) := by
  refine ⟨?nested, ?operators, ?commas⟩
  case nested =>
    intro outer inner guards innerGuards before values after nested flat
    have flattens : nested.Flattens flat :=
      .single ⟨⟨outer, inner, guards, innerGuards, before, values, after⟩, rfl, rfl⟩
    exact flattens.sameCalls place
  case operators =>
    intro first rest node right chain flat
    have isChoice : chain = .select node [] [Expr.operatorChain first rest, right] := by
      simp [chain, Expr.operatorChain]
    rw [isChoice]
    exact (Expr.flattens_operatorChain node first rest [right]).sameCalls place
  case commas =>
    intro node first rest last chain flat
    exact (Expr.flattens_commaChain node [first] last rest).sameCalls place

/-- A call, at the top level, of what an expression gives. -/
def calling (callee : Expr) : Program :=
  { files := #["a.js"]
    functions := #[default, default, default]
    calls := #[default]
    scopes := #[{ kind := .file, parent := none, names := .empty }]
    modules := #[{ file := 0, scope := 0, body := [.expr (.call 0 0 callee [])] }]
    nextNode := 6 }

/-- A chain of two operators between three functions, any of which may be called. -/
theorem flattening_preserves_calls_three :
    let chain : Expr := .operatorChain (.function 1 0) [(2, .function 3 1), (4, .function 5 2)]
    let flat : Expr := .select 4 [] [.function 1 0, .function 3 1, .function 5 2]
    (calling chain).InRange ∧ ((calling chain).exprs.map Expr.node).Nodup ∧
      (calling chain).SameCalls (calling flat) := by
  have place : Program.Place calling :=
    .topLevel (calling (.inert 0 [])) [] [] { file := 0, scope := 0, body := [] } [] []
      (.expr (.callee 0 0 [] .here))
  have inRange : (calling (.operatorChain (.function 1 0)
    [(2, .function 3 1), (4, .function 5 2)])).InRange := by decide
  have distinct : ((calling (.operatorChain (.function 1 0)
    [(2, .function 3 1), (4, .function 5 2)])).exprs.map Expr.node).Nodup := by decide
  exact ⟨inRange, distinct, (flattening_preserves_calls place).2.1 (.function 1 0)
    [(2, .function 3 1)] 4 (.function 5 2) inRange distinct⟩

end FunctionFlow
