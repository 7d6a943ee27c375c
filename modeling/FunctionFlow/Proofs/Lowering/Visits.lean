import FunctionFlow.Proofs.Lowering.Additions
import FunctionFlow.Proofs.Lowering.Faithful

/-!
Contract: the calls that lowering a tree adds.
-/

namespace FunctionFlow

theorem ExpressionForm.kind_of_call {kind : String} (isCall : ExpressionForm.ofKind kind = .call) :
    kind = "call_expression" := by
  unfold ExpressionForm.ofKind at isCall
  split at isCall <;> first | rfl | cases isCall

theorem ExpressionForm.kind_of_construct {kind : String}
    (isConstruct : ExpressionForm.ofKind kind = .construct) : kind = "new_expression" := by
  unfold ExpressionForm.ofKind at isConstruct
  split at isConstruct <;> first | rfl | cases isConstruct

namespace Lowering

variable {node child : Node} {name : String} {α : Type}

/-! ### Rules -/

/-- Rules that add one call for each visited call, in trees of at most the height `bound`. -/
structure Rules.Complete (rules : Rules) (bound : Nat) : Prop where
  statement : ∀ context node, node.height ≤ bound →
    Adds (context.origins .statement node) (rules.statement context node)
  expression : ∀ context node hint, node.height ≤ bound →
    Adds (context.origins .expression node) (rules.expression context node hint)
  pattern : ∀ context node scope kind key, node.height ≤ bound →
    Adds (context.origins .pattern node) (rules.pattern context node scope kind key)
  imports : ∀ context node, Quiet (rules.imports context node)

section

variable {inner : Rules} {bound : Nat} (complete : inner.Complete bound)

theorem lower_field (low : node.height ≤ bound + 1) (found : node.field? name = some child) :
    child.height ≤ bound :=
  Nat.le_of_lt_succ (Nat.lt_of_lt_of_le (Node.height_lt_of_field? found) low)

theorem lower_part (low : node.height ≤ bound + 1) (member : child ∈ node.parts) :
    child.height ≤ bound :=
  Nat.le_of_lt_succ (Nat.lt_of_lt_of_le (Node.height_lt_of_mem_parts member) low)

theorem lower_below {inner : Node} (low : node.height ≤ bound + 1) (member : child ∈ node.children)
    (below : Node.Inside child inner) : inner.height ≤ bound := by
  have lower := Node.height_lt_of_mem_children member
  have inside := below.height_le
  omega

include complete

namespace Rules.Complete

theorem effects (context : Context) (node : Node) (low : node.height ≤ bound) :
    Adds (context.origins .expression node) (inner.effects context node) :=
  (complete.expression context node .none low).then_quiet fun _ => effect_quiet _

theorem statements (context : Context) (node : Node) (low : node.height ≤ bound + 1) :
    Adds (context.origins .statements node) (inner.statements context node) := by
  rw [Context.origins_statements]
  exact .forM fun part member => complete.statement context part (lower_part low member)

theorem inertParts (context : Context) (node : Node) (low : node.height ≤ bound + 1) :
    Adds (context.origins .expressions node) (inner.inertParts context node) := by
  rw [Context.origins_expressions]
  refine Adds.then_quiet (.mapM fun part member => ?_) fun _ => inert_quiet _
  exact complete.expression context part .none (lower_part low member)

theorem expression?_field {context : Context} (low : node.height ≤ bound + 1) (name : String)
    (hint : Option String) :
    Adds (context.fieldOrigins node name .expression)
      (inner.expression? context (node.field? name) hint) :=
  .field (inner.expression? context · hint) (inert_quiet []) fun child found =>
    complete.expression context child hint (lower_field low found)

end Rules.Complete

variable (context : Context) (low : node.height ≤ bound + 1)
include low

/-! #### Patterns, imports and exports -/

omit low in
theorem importClause_quiet (node : Node) : Quiet (importClause inner context node) := by
  refine .forM fun part => ?_
  have declareImport_quiet (name : Node) (imported : String) :
      Quiet (declareImport context name imported) :=
    (declare_quiet context context.scope name .imported).bind fun _ => readInto_quiet _ _
  split
  · exact declareImport_quiet _ _
  · refine (propertyKey?_quiet context _).bind fun imported => ?_
    split
    · exact declareImport_quiet _ _
    · exact .pure ()
  · exact .forM fun name => (declare_quiet context context.scope name .imported).discard
  · exact complete.imports context part

theorem exportStatement_adds :
    Adds (context.planOrigins node (.ofExport node)) (exportStatement inner context node) := by
  unfold exportStatement Plan.ofExport
  cases isDeclaration : node.field? "declaration" with
  | some declaration =>
    simp only [Option.isSome_some, if_true, Context.planOrigins_field,
      Context.fieldOrigins_some isDeclaration]
    refine (complete.statement context declaration (lower_field low isDeclaration)).then_quiet
      fun _ => ?_
    split
    · exact (reference_quiet context _).bind fun _ => exportProperty_quiet _ _
    · exact .pure ()
  | none =>
    simp only [Option.isSome_none, Bool.false_eq_true, if_false, Context.planOrigins_field]
    cases isValue : node.field? "value" with
    | some value =>
      rw [Context.fieldOrigins_some isValue]
      exact (complete.expression context value _ (lower_field low isValue)).then_quiet fun _ =>
        exportProperty_quiet _ _
    | none =>
      rw [Context.fieldOrigins_none isValue]
      apply Adds.of_quiet
      show Quiet (if _ then _ else _)
      split
      · exact .forM fun clause => .forM (exportSpecifier_quiet context)
      · exact .pure ()

theorem bindPattern_adds (scope : ScopeId) (kind : DeclKind) (key : Option String) :
    Adds (context.origins .pattern node) (bindPattern inner context node scope kind key) := by
  rw [Context.origins_settled .pattern rfl (by decide), Role.plan, Plan.ofPattern]
  unfold bindPattern
  cases isForm : PatternForm.ofKind node.kind with
  | name =>
    refine .of_quiet ((declare_quiet context scope node kind).bind fun _ => ?_)
    cases key with
    | none => exact .pure ()
    | some key => exact readInto_quiet _ _
  | shorthand =>
    exact .of_quiet ((declare_quiet context scope node kind).bind fun _ =>
      (text_quiet context node).bind fun _ => readInto_quiet _ _)
  | defaulted =>
    simp only [Context.planOrigins_fields, Context.planOrigins_field]
    cases isLeft : node.field? "left" with
    | none =>
      rw [Context.fieldOrigins_none isLeft]
      exact .optional fun right found => complete.effects context right (lower_field low found)
    | some left =>
      rw [Context.fieldOrigins_some isLeft]
      exact (complete.pattern context left scope kind key (lower_field low isLeft)).bind fun _ =>
        .optional fun right found => complete.effects context right (lower_field low found)
  | pair =>
    rw [Context.planOrigins_field]
    apply Adds.after_quiet (propertyKey?_quiet context _)
    intro key
    exact .optional fun value found =>
      complete.pattern context value scope kind key (lower_field low found)
  | nested =>
    rw [Context.planOrigins_parts]
    exact .forM fun part member =>
      complete.pattern context part scope kind .none (lower_part low member)
  | nothing => exact .of_quiet (.pure ())

/-! #### Functions and classes -/

omit complete low in
theorem origins_parameter (node : Node) :
    context.origins .parameter node =
      (parameterParts node).toList.flatMap context.parameterOrigins := by
  unfold parameterParts
  split
  iterate 2
    · rename_i isKind
      rw [Context.origins_settled .parameter (by simp [Role.settle, isKind]) (by decide), Role.plan,
        Plan.ofParameter, isKind, if_neg (by decide)]
      cases isPattern : node.field? "pattern" with
      | none => rfl
      | some pattern =>
        by_cases isReceiver : pattern.kind = "this"
        · simp only [if_pos isReceiver]
          rfl
        · simp only [if_neg isReceiver, Context.planOrigins_fields, Context.planOrigins_field,
            Context.fieldOrigins_some isPattern]
          exact (List.flatMap_singleton ..).symm
  · rename_i isKind
    rw [Context.origins_settled .parameter (by simp [Role.settle, isKind]) (by decide), Role.plan,
      Plan.ofParameter, if_pos isKind]
    cases isLeft : node.field? "left" with
    | none => rfl
    | some left =>
      simp only [Option.isSome_some, if_true, Context.planOrigins_fields,
        Context.planOrigins_field, Context.fieldOrigins_some isLeft]
      exact (List.flatMap_singleton ..).symm
  · rename_i notRequired notOptional notDefaulted
    rw [Option.toList_some, List.flatMap_singleton, Context.parameterOrigins, Option.toList_none,
      List.flatMap_nil, List.append_nil]
    exact Context.origins_congr .parameter .pattern
      (if_neg (not_or.mpr ⟨notRequired, not_or.mpr ⟨notOptional, notDefaulted⟩⟩))

omit low in
theorem parameter_adds (function : FunctionId) (index : Nat) {pattern : Node}
    {initial : Option Node} (lowPattern : pattern.height ≤ bound)
    (lowInitial : ∀ value ∈ initial, value.height ≤ bound) :
    Adds (context.parameterOrigins (pattern, initial))
      (parameter inner context function index pattern initial) := by
  rw [Context.parameterOrigins]
  unfold parameter
  split
  · rename_i isName
    rw [Context.origins_name isName]
    apply Adds.after_quiet (declare_quiet context context.scope pattern _)
    intro decl
    cases initial with
    | none => exact .of_quiet (.pure _)
    | some value =>
      rw [Option.toList_some, List.flatMap_singleton]
      apply Adds.after_quiet (text_quiet context pattern)
      intro name
      exact (complete.expression context value _ (lowInitial value rfl)).then_quiet fun _ =>
        (emit_quiet _).bind fun _ => .pure _
  · refine (complete.pattern context pattern _ _ _ lowPattern).bind fun _ => ?_
    cases initial with
    | none => exact .of_quiet (.pure _)
    | some value =>
      rw [Option.toList_some, List.flatMap_singleton]
      exact (complete.effects context value (lowInitial value rfl)).then_quiet fun _ => .pure _

omit low in
theorem parameterList_adds (function : FunctionId) {parts : List (Node × Option Node)}
    (low : ∀ pattern initial, (pattern, initial) ∈ parts →
      pattern.height ≤ bound ∧ ∀ value ∈ initial, value.height ≤ bound) (index : Nat) :
    Adds (parts.flatMap context.parameterOrigins)
      (parameterList inner context function index parts) := by
  induction parts generalizing index with
  | nil => exact .of_quiet (.pure [])
  | cons first rest inductionHypothesis =>
    obtain ⟨pattern, initial⟩ := first
    obtain ⟨lowPattern, lowInitial⟩ := low pattern initial List.mem_cons_self
    have lowRest : ∀ pattern initial, (pattern, initial) ∈ rest → _ :=
      fun pattern initial member => low pattern initial (List.mem_cons_of_mem _ member)
    rw [List.flatMap_cons]
    exact (parameter_adds complete context function index lowPattern lowInitial).bind fun _ =>
      (inductionHypothesis lowRest (index + 1)).then_quiet fun _ => .pure _

theorem parameters_adds (function : FunctionId) (notSingle : node.field? "parameter" = none) :
    Adds (context.fieldOrigins node "parameters" .parameters)
      (parameters inner context node function) := by
  unfold parameters
  rw [notSingle]
  cases isList : node.field? "parameters" with
  | none => exact Context.fieldOrigins_none isList ▸ .of_quiet (.pure _)
  | some list =>
    have isParameters : context.origins .parameters list =
        (list.parts.filterMap parameterParts).flatMap context.parameterOrigins := by
      rw [Context.origins_settled .parameters rfl (by decide), Role.plan, Context.planOrigins_parts,
        List.filterMap_eq_flatMap_toList, List.flatMap_assoc]
      exact List.flatMap_congr fun part _ => origins_parameter context part
    rw [Context.fieldOrigins_some isList, isParameters]
    refine parameterList_adds complete context function (fun pattern initial member => ?_) 1
    obtain ⟨part, isPart, isParts⟩ := List.mem_filterMap.mp member
    have lowPart := lower_part (Nat.le_succ_of_le (lower_field low isList)) isPart
    obtain ⟨inPattern, inInitial⟩ := inside_of_parameterParts .self isParts
    exact ⟨Nat.le_trans inPattern.height_le lowPart,
      fun value isValue => Nat.le_trans (inInitial value isValue).height_le lowPart⟩

theorem functionBody_adds :
    Adds (context.fieldOrigins node "body" .functionBody) (functionBody inner context node) := by
  unfold functionBody
  cases isBody : node.field? "body" with
  | none => exact Context.fieldOrigins_none isBody ▸ .of_quiet (.pure ())
  | some body =>
    have lowBody := lower_field low isBody
    rw [Context.fieldOrigins_some isBody]
    show Adds _ (if _ then _ else _)
    split
    · rename_i isBlock
      rw [Context.origins_congr .functionBody .statements (if_pos isBlock)]
      exact complete.statements context body (Nat.le_succ_of_le lowBody)
    · rename_i notBlock
      rw [Context.origins_congr .functionBody .expression (if_neg notBlock)]
      exact (complete.expression context body _ lowBody).then_quiet fun _ => emit_quiet _

theorem functionDef_adds (hint : Option String) :
    Adds (context.planOrigins node (.ofFunction node)) (functionDef inner context node hint) := by
  unfold functionDef
  apply Adds.after_quiet (text?_quiet context _)
  intro spelled
  apply Adds.after_quiet (openFunction_quiet context node _ _)
  intro opened
  apply Adds.after_quiet takeBody_quiet
  intro outer
  -- the context inside reads the same file
  have adds (inside : Context) (same : inside.planOrigins = context.planOrigins) :
      Adds (context.planOrigins node (.ofFunction node)) (do
        let params ← parameters inner inside node opened.1
        functionBody inner inside node
        closeFunction opened.1 params outer
        return opened.1) := by
    have body (params : List (Option DeclId)) :
        Adds (inside.fieldOrigins node "body" .functionBody) (do
          functionBody inner inside node
          closeFunction opened.1 params outer
          return opened.1) :=
      (functionBody_adds complete inside low).then_quiet fun _ =>
        (closeFunction_quiet _ _ _).bind fun _ => .pure _
    rw [← same, Plan.ofFunction]
    cases isSingle : node.field? "parameter" with
    | some single =>
      simp only [Option.isSome_some, if_true, Context.planOrigins_field]
      unfold parameters
      rw [isSingle]
      exact Adds.after_quiet ((declare_quiet inside inside.scope single _).bind fun _ => .pure _)
        body
    | none =>
      simp only [Option.isSome_none, Bool.false_eq_true, if_false, Context.planOrigins_fields,
        Context.planOrigins_field]
      exact (parameters_adds complete inside low opened.1 isSingle).bind body
  dsimp only
  split
  · exact Adds.after_quiet ((declare_quiet _ _ _ _).bind fun _ =>
      (fresh_quiet _).bind fun _ => emit_quiet _) fun _ => adds _ rfl
  · exact adds _ rfl

theorem functionExpr_adds (hint : Option String) :
    Adds (context.planOrigins node (.ofFunction node)) (functionExpr inner context node hint) :=
  (functionDef_adds complete context low hint).then_quiet fun _ => fresh_quiet _

theorem entry_adds {quiet : Lower (Option String)} (isQuiet : Quiet quiet) {none : α}
    {build : Option String → Expr → α} :
    Adds (context.origins .entry node) (do
      let key ← quiet
      match node.field? "value" with
      | some value => return build key (← inner.expression context value key)
      | .none => return none) := by
  rw [Context.origins_settled .entry rfl (by decide), Role.plan]
  rw [Context.planOrigins_field]
  apply Adds.after_quiet isQuiet
  intro key
  cases isValue : node.field? "value" with
  | none => exact Context.fieldOrigins_none isValue ▸ .of_quiet (.pure _)
  | some value =>
    rw [Context.fieldOrigins_some isValue]
    exact (complete.expression context value key (lower_field low isValue)).then_quiet fun _ =>
      .pure _

omit low in
theorem classMember_adds (className : Option String) (node : Node) (low : node.height ≤ bound) :
    Adds (context.origins .classMember node) (classMember inner context className node) := by
  have lowHere := Nat.le_succ_of_le low
  have isFunction : context.origins .function node = context.planOrigins node (.ofFunction node) :=
    Context.origins_settled .function rfl (by decide)
  unfold classMember
  split
  · rename_i isKind
    rw [Context.origins_congr .classMember .function (if_pos isKind), isFunction]
    apply Adds.after_quiet (propertyKey?_quiet context _)
    intro key
    split
    · exact (functionDef_adds complete context lowHere className).then_quiet fun _ => .pure _
    · exact (functionExpr_adds complete context lowHere key).then_quiet fun _ => .pure _
  iterate 2
    · rename_i isKind
      rw [Context.origins_congr .classMember .entry (by simp [Role.settle, isKind])]
      exact entry_adds complete context lowHere (propertyKey?_quiet context _)
  · rename_i isKind
    have isBlock : StatementForm.ofKind node.kind = .block := isKind ▸ rfl
    rw [Context.origins_congr .classMember .statements (by simp [Role.settle, isKind]),
      Context.origins_statements]
    have adds := complete.statement context node low
    rw [Context.origins_statement (by rw [isBlock]; decide), Plan.ofStatement, isBlock,
      Context.planOrigins_parts] at adds
    exact adds.then_quiet fun _ => .pure _
  · rename_i noMethod noField noPublicField noBlock
    have isNothing : Role.classMember.settle node = .nothing := by
      simp [Role.settle, eq_false noMethod, eq_false noField, eq_false noPublicField,
        eq_false noBlock]
    rw [Context.origins_nothing .classMember isNothing]
    exact .of_quiet (.pure _)

omit low in
theorem classPart_adds (className : Option String) (node : Node) (low : node.height ≤ bound) :
    Adds (context.origins .classPart node) (classPart inner context className node) := by
  have lowParts {part : Node} (member : part ∈ node.parts) : part.height ≤ bound :=
    lower_part (Nat.le_succ_of_le low) member
  unfold classPart
  split
  · rename_i isKind
    rw [Context.origins_congr .classPart .expressions (if_pos isKind), Context.origins_expressions]
    exact Adds.then_quiet (.forM fun part member => complete.effects context part (lowParts member))
      fun _ => .pure _
  · rename_i isKind
    rw [Context.origins_congr .classPart .classBody (by simp [Role.settle, isKind]),
      Context.origins_settled .classBody rfl (by decide), Role.plan, Context.planOrigins_parts]
    exact .mapM fun part member =>
      classMember_adds complete context className part (lowParts member)
  · rename_i noHeritage noBody
    have isNothing : Role.classPart.settle node = .nothing := by
      simp [Role.settle, eq_false noHeritage, eq_false noBody]
    rw [Context.origins_nothing .classPart isNothing]
    exact .of_quiet (.pure _)

theorem classDef_adds (hint : Option String) :
    Adds (node.parts.flatMap (context.origins .classPart)) (classDef inner context node hint) := by
  unfold classDef
  apply Adds.after_quiet (text?_quiet context _)
  intro spelled
  refine Adds.then_quiet (.mapM fun part member =>
    classPart_adds complete context _ part (lower_part low member)) fun members => ?_
  dsimp only
  cases ClassMember.constructor? members.flatten with
  | none =>
    split
    · exact inert_quiet []
    · exact (fresh_quiet _).bind fun _ => (effect_quiet _).bind fun _ => inert_quiet []
  | some function =>
    split
    · exact fresh_quiet _
    · exact (fresh_quiet _).bind fun _ => (effect_quiet _).bind fun _ => fresh_quiet _

/-! #### Expressions -/

theorem callee_adds (name : String) :
    Adds (context.fieldOrigins node name .callee)
      (callee inner context (node.field? name)) := by
  refine .field (callee inner context ·) (inert_quiet []) fun target found => ?_
  unfold callee
  dsimp only
  split
  · rename_i isNothing
    rw [Context.origins_nothing .callee (if_pos isNothing)]
    exact .of_quiet (inert_quiet [])
  · rename_i isExpression
    rw [Context.origins_congr .callee .expression (if_neg isExpression)]
    exact complete.expression context target .none (lower_field low found)

theorem arguments_adds :
    Adds (context.fieldOrigins node "arguments" .arguments)
      (arguments inner context (node.field? "arguments")) := by
  refine .field (arguments inner context ·) (.pure []) fun list found => ?_
  have lowList := lower_field low found
  unfold arguments
  dsimp only
  split
  · rename_i isList
    rw [Context.origins_congr .arguments .expressions (if_pos isList), Context.origins_expressions]
    exact .mapM fun part member =>
      complete.expression context part .none (lower_part (Nat.le_succ_of_le lowList) member)
  · rename_i notList
    rw [Context.origins_congr .arguments .expression (if_neg notList)]
    exact (complete.effects context list lowList).then_quiet fun _ => .pure []

theorem call_adds {calleeField : String} {isNew : Bool}
    (isKind : (node.kind == "new_expression") = isNew) :
    Adds (node.origin context.source context.file ::
        (context.fieldOrigins node calleeField .callee ++
          context.fieldOrigins node "arguments" .arguments))
      (call inner context node calleeField isNew) := by
  intro state answer after ran
  have rest (id : CallId) : Adds (context.fieldOrigins node calleeField .callee ++
      context.fieldOrigins node "arguments" .arguments) (do
        let target ← callee inner context (node.field? calleeField)
        let args ← arguments inner context (node.field? "arguments")
        closeCall id args.length (!isNew && target.isMember)
        fresh (.call · id target args)) :=
    (callee_adds complete context low calleeField).bind fun _ =>
      (arguments_adds complete context low).then_quiet fun _ =>
        (closeCall_quiet _ _ _).bind fun _ => fresh_quiet _
  obtain ⟨added, isAdded, isAfter⟩ :=
    rest state.program.calls.size (state.withCall (context.callAt state node isNew)) answer after ran
  refine ⟨context.callAt state node isNew :: added, ?_, ?_⟩
  · rw [List.map_cons, isAdded, Node.origin, isKind]
    rfl
  · rw [isAfter]
    simp [State.headings, State.withCall, Context.callAt, CallSite.heading]

theorem assignment_adds :
    Adds (context.planOrigins node .ofAssignment) (assignment inner context node) := by
  have assignmentHint_quiet (target : Option Node) : Quiet (assignmentHint context target) := by
    unfold assignmentHint
    split
    · split
      · exact (text_quiet context _).bind fun _ => .pure _
      · exact text?_quiet context _
      · exact .pure _
    · exact .pure _
  have target : Adds (context.fieldOrigins node "left" .target)
      (assignmentTarget inner context (node.field? "left")) := by
    refine .field (assignmentTarget inner context ·) (inert_quiet []) fun target found => ?_
    have lowTarget := lower_field low found
    unfold assignmentTarget
    dsimp only
    split
    · rename_i isPlace
      rw [Context.origins_congr .target .expression (if_pos isPlace)]
      exact complete.expression context target .none lowTarget
    · rename_i notPlace
      rw [Context.origins_congr .target .expressions (if_neg notPlace)]
      exact complete.inertParts context target (Nat.le_succ_of_le lowTarget)
  simp only [Plan.ofAssignment, Context.planOrigins_fields, Context.planOrigins_field]
  apply Adds.after_quiet (assignmentHint_quiet _)
  intro hint
  exact (complete.expression?_field low "right" hint).bind fun _ =>
    target.then_quiet fun _ => fresh_quiet _

omit low in
theorem objectMember_adds (node : Node) (low : node.height ≤ bound) :
    Adds (context.origins .objectMember node) (objectMember inner context node) := by
  have lowHere := Nat.le_succ_of_le low
  unfold objectMember
  split
  · rename_i isKind
    rw [Context.origins_congr .objectMember .entry (if_pos isKind)]
    exact entry_adds complete context lowHere (propertyKey?_quiet context _)
  · rename_i isKind
    rw [Context.origins_congr .objectMember .function (by simp [Role.settle, isKind]),
      Context.origins_settled .function rfl (by decide)]
    apply Adds.after_quiet (propertyKey?_quiet context _)
    intro key
    exact (functionExpr_adds complete context lowHere key).then_quiet fun _ => .pure _
  · rename_i isKind
    rw [Context.origins_nothing .objectMember (by simp [Role.settle, isKind])]
    exact .of_quiet ((text_quiet context node).bind fun _ =>
      (reference_quiet context node).bind fun _ => .pure _)
  · rename_i noPair noMethod noShorthand
    have isExpression : Role.objectMember.settle node = .expression := by
      simp [Role.settle, eq_false noPair, eq_false noMethod, eq_false noShorthand]
    rw [Context.origins_congr .objectMember .expression isExpression]
    exact (complete.effects context node low).then_quiet fun _ => .pure _

omit complete low in
theorem propertyKey_of_spelled (isSpelled : node.kind = "string" ∨ node.kind = "number") :
    ∃ spell : String → String,
      propertyKey context node = do return some (spell (← text context node)) := by
  unfold propertyKey
  rcases isSpelled with isString | isNumber
  · rw [isString]
    exact ⟨unquote, rfl⟩
  · rw [isNumber]
    exact ⟨id, rfl⟩

theorem subscriptAccess_adds :
    Adds (context.fieldOrigins node "object" .expression ++
        context.fieldOrigins node "index" .index)
      (subscriptAccess inner context node) := by
  refine (complete.expression?_field low "object" .none).bind fun object => ?_
  cases found : node.field? "index" with
  | none =>
    rw [Context.fieldOrigins_none found]
    refine .of_quiet ((Quiet.pure _).bind fun property => ?_)
    cases property with
    | none => exact fresh_quiet _
    | some => exact fresh_quiet _
  | some index =>
    rw [Context.fieldOrigins_some found]
    unfold indexKey
    dsimp only
    by_cases isSpelled : index.kind = "string" ∨ index.kind = "number"
    · -- a key that is spelled out is not evaluated
      rw [Context.origins_nothing .index (if_pos isSpelled), if_pos isSpelled]
      obtain ⟨spell, isKey⟩ := propertyKey_of_spelled context isSpelled
      simp only [isKey, bind_assoc, pure_bind]
      exact .of_quiet ((text_quiet context index).bind fun _ => fresh_quiet _)
    · rw [Context.origins_congr .index .expression (if_neg isSpelled), if_neg isSpelled]
      exact (complete.effects context index (lower_field low found)).then_quiet fun _ =>
        fresh_quiet _

theorem conditional_adds (hint : Option String) :
    Adds (context.fieldOrigins node "condition" .expression ++
        (context.fieldOrigins node "consequence" .expression ++
          context.fieldOrigins node "alternative" .expression))
      (conditional inner context node hint) := by
  have operand (name : String) (hint : Option String) :
      Adds (context.fieldOrigins node name .expression)
        ((node.field? name).toList.mapM fun part => inner.expression context part hint) :=
    .mapM fun part member =>
      complete.expression context part hint (lower_field low (Option.mem_toList.mp member))
  refine (operand "condition" .none).bind fun guards => ?_
  dsimp only
  rw [List.mapM_append]
  refine Adds.then_quiet ?_ fun _ => fresh_quiet _
  exact (operand "consequence" hint).bind fun _ =>
    (operand "alternative" hint).then_quiet fun _ => .pure _

/-! #### Chains -/

omit complete low in
theorem chain_origins (node : Node) (logical : Bool) :
    (node.chain logical).flatMap (context.origins .expression) =
      context.fieldOrigins node "left" .expression ++
        context.fieldOrigins node "right" .expression := by
  induction node using Node.induction_children with
  | step node inductionHypothesis =>
    cases found : node.field? "left" with
    | none =>
      rw [Node.chain_of_no_left logical found, Context.fieldOrigins_none found]
      rfl
    | some left =>
      rw [Node.chain_of_left logical found, List.flatMap_append, Context.fieldOrigins_some found]
      congr 1
      split
      · rename_i goesOn
        obtain ⟨_, _, isChild⟩ := Option.bind_eq_some_iff.mp found
        rw [inductionHypothesis left (List.mem_of_getElem? isChild),
          Context.origins_expression (by simp [Node.isCall, goesOn.1]), Plan.ofExpression, goesOn.1]
        simp [ExpressionForm.ofKind]
      · exact List.flatMap_singleton _ _

omit complete low in
theorem items_origins (node : Node) :
    node.items.flatMap (context.origins .expression) =
      node.parts.flatMap (context.origins .expression) := by
  induction node using Node.induction_children with
  | step node inductionHypothesis =>
    rw [Node.items]
    cases found : node.parts.getLast? with
    | none => rw [List.getLast?_eq_none_iff.mp found]; rfl
    | some last =>
      conv_rhs => rw [← List.dropLast_append_getLast? last found]
      rw [List.flatMap_append, List.flatMap_append]
      congr 1
      dsimp only
      split
      · rename_i goesOn
        have isChild := (List.mem_filter.mp (List.mem_of_getLast? found)).1
        rw [inductionHypothesis last isChild, List.flatMap_singleton,
          Context.origins_expression (by simp [Node.isCall, goesOn]), Plan.ofExpression, goesOn]
        simp [ExpressionForm.ofKind]
      · rfl

theorem binary_adds (hint : Option String) :
    Adds (context.fieldOrigins node "left" .expression ++
        context.fieldOrigins node "right" .expression)
      (binary inner context node hint) := by
  rw [← chain_origins context node node.isLogical, ← node.operatorChain_eq]
  refine Adds.then_quiet (.mapM fun operand member => ?_) fun operands => ?_
  · obtain ⟨child, isChild, below⟩ := Node.below_of_mem_operatorChain member
    exact complete.expression context operand hint (lower_below low isChild below)
  · split
    · exact fresh_quiet _
    · exact inert_quiet _

theorem sequence_adds (hint : Option String) :
    Adds (node.parts.flatMap (context.origins .expression)) (sequence inner context node hint) := by
  rw [← items_origins context node, ← node.sequenceItems_eq]
  refine Adds.then_quiet (.mapM fun item member => ?_) fun _ => fresh_quiet _
  obtain ⟨child, isChild, below⟩ := Node.below_of_mem_sequenceItems member
  exact complete.expression context item hint (lower_below low isChild below)

/-! #### All expressions -/

theorem expression_adds (hint : Option String) :
    Adds (context.origins .expression node) (expression inner context node hint) := by
  unfold expression
  by_cases isCall : node.isCall
  · rw [Context.origins_call isCall, Plan.ofExpression]
    unfold Node.isCall at isCall
    rw [Bool.or_eq_true, beq_iff_eq, beq_iff_eq] at isCall
    rcases isCall with isKind | isKind
    all_goals
      rw [isKind]
      simp only [ExpressionForm.ofKind, Context.planOrigins_fields, Context.planOrigins_field]
      exact call_adds complete context low (by rw [isKind]; rfl)
  · rw [Context.origins_expression isCall, Plan.ofExpression]
    cases isForm : ExpressionForm.ofKind node.kind with
    | call => simp [Node.isCall, ExpressionForm.kind_of_call isForm] at isCall
    | construct => simp [Node.isCall, ExpressionForm.kind_of_construct isForm] at isCall
    | name => exact .of_quiet (reference_quiet context node)
    | this => exact .of_quiet (fresh_quiet _)
    | wrapped =>
      rw [Context.planOrigins_firstPart]
      cases isHead : node.parts.head? with
      | none => exact .of_quiet (inert_quiet [])
      | some part =>
        rw [Option.toList_some, List.flatMap_singleton]
        exact complete.expression context part hint
          (lower_part low (List.mem_of_mem_head? isHead))
    | function => exact functionExpr_adds complete context low hint
    | classDef =>
      rw [Context.planOrigins_parts]
      exact classDef_adds complete context low hint
    | member =>
      rw [Context.planOrigins_field]
      exact (complete.expression?_field low "object" .none).then_quiet fun _ =>
        (propertyKey?_quiet context _).bind fun _ => fresh_quiet _
    | subscript =>
      simp only [Context.planOrigins_fields, Context.planOrigins_field]
      exact subscriptAccess_adds complete context low
    | assign => exact assignment_adds complete context low
    | update =>
      dsimp only
      split
      · exact assignment_adds complete context low
      · rw [Context.planOrigins_parts, ← Context.origins_expressions]
        exact complete.inertParts context node low
    | binary =>
      simp only [Context.planOrigins_fields, Context.planOrigins_field]
      exact binary_adds complete context low hint
    | conditional =>
      simp only [Context.planOrigins_fields, Context.planOrigins_field]
      exact conditional_adds complete context low hint
    | sequence =>
      rw [Context.planOrigins_parts]
      exact sequence_adds complete context low hint
    | object =>
      rw [Context.planOrigins_parts]
      exact Adds.then_quiet (.mapM fun part member =>
        objectMember_adds complete context part (lower_part low member)) fun _ => fresh_quiet _
    | inert =>
      rw [Context.planOrigins_parts, ← Context.origins_expressions]
      exact complete.inertParts context node low

/-! #### Statements -/

theorem functionDeclaration_adds :
    Adds (context.planOrigins node (.ofFunction node))
      (functionDeclaration inner context node) := by
  apply Adds.after_quiet (text?_quiet context _)
  intro spelled
  refine (functionDef_adds complete context low spelled).then_quiet fun function => ?_
  cases node.field? "name" with
  | none => exact .pure ()
  | some name =>
    exact (declare_quiet context context.scope name .function).bind fun _ =>
      (fresh_quiet _).bind fun _ => emit_quiet _

theorem classDeclaration_adds :
    Adds (node.parts.flatMap (context.origins .classPart))
      (classDeclaration inner context node) := by
  apply Adds.after_quiet (text?_quiet context _)
  intro spelled
  refine (classDef_adds complete context low spelled).then_quiet fun value => ?_
  cases node.field? "name" with
  | none => exact .pure ()
  | some name =>
    exact (declare_quiet context context.scope name .classDef).bind fun _ => emit_quiet _

omit low in
theorem declarator_adds (scope : ScopeId) (kind : DeclKind) (node : Node)
    (low : node.height ≤ bound) (isKind : node.kind = "variable_declarator") :
    Adds (context.origins .declarator node) (declarator inner context scope kind node) := by
  have lowHere := Nat.le_succ_of_le low
  have isSettled : Role.declarator.settle node = .declarator := if_pos isKind
  rw [Context.origins_settled .declarator isSettled (by decide), Role.plan]
  unfold declarator
  cases isName : node.field? "name" with
  | none => exact .of_quiet (.pure ())
  | some name =>
    simp only [Option.isSome_some, if_true, Context.planOrigins_fields, Context.planOrigins_field,
      Context.fieldOrigins_some isName]
    split
    · rename_i isIdentifier
      rw [Context.origins_name isIdentifier]
      apply Adds.after_quiet (declare_quiet context scope name kind)
      intro decl
      cases isValue : node.field? "value" with
      | none =>
        rw [Context.fieldOrigins_none isValue]
        exact .of_quiet (emit_quiet _)
      | some value =>
        rw [Context.fieldOrigins_some isValue]
        apply Adds.after_quiet (text_quiet context name)
        intro hint
        exact (complete.expression context value hint (lower_field lowHere isValue)).then_quiet
          fun _ => emit_quiet _
    · exact (complete.pattern context name scope kind .none (lower_field lowHere isName)).bind
        fun _ => .optional fun value found =>
          complete.effects context value (lower_field lowHere found)

theorem declarators_adds (scope : ScopeId) (kind : DeclKind) :
    Adds (node.parts.flatMap (context.origins .declarator))
      (declarators inner context scope kind node) := by
  have isFilter : node.parts.flatMap (context.origins .declarator) =
      (node.parts.filter (·.kind == "variable_declarator")).flatMap
        (context.origins .declarator) := by
    induction node.parts with
    | nil => rfl
    | cons first rest inductionHypothesis =>
      rw [List.flatMap_cons, List.filter_cons, inductionHypothesis]
      by_cases isKind : first.kind = "variable_declarator"
      · rw [if_pos (by simpa using isKind), List.flatMap_cons]
      · rw [if_neg (by simpa using isKind), Context.origins_nothing .declarator (if_neg isKind)]
        rfl
  rw [isFilter]
  refine .forM fun part member => ?_
  obtain ⟨isPart, isKind⟩ := List.mem_filter.mp member
  exact declarator_adds complete context scope kind part (lower_part low isPart)
    (by simpa using isKind)

theorem declaringLoop_adds (kind : DeclKind) {left : Node}
    (isLeft : node.field? "left" = some left) :
    Adds (context.fieldOrigins node "left" .pattern ++
        (context.fieldOrigins node "right" .expression ++
          context.fieldOrigins node "body" .statement))
      (declaringLoop inner context node left kind) := by
  unfold declaringLoop
  extract_lets afterNames inScope
  have body : Adds (context.fieldOrigins node "body" .statement) (match node.field? "body" with
      | some body => inner.statement context body
      | none => return ()) :=
    .optional fun body found => complete.statement context body (lower_field low found)
  have adds (scope : ScopeId) : Adds (context.fieldOrigins node "left" .pattern ++
      (context.fieldOrigins node "right" .expression ++
        context.fieldOrigins node "body" .statement)) (inScope scope) := by
    rw [Context.fieldOrigins_some isLeft]
    refine (complete.pattern context left scope kind .none (lower_field low isLeft)).bind
      fun _ => ?_
    cases isRight : node.field? "right" with
    | none =>
      rw [Context.fieldOrigins_none isRight]
      exact body
    | some right =>
      rw [Context.fieldOrigins_some isRight]
      exact (complete.effects context right (lower_field low isRight)).bind fun _ => body
  split
  · exact Adds.after_quiet (hoistingScope_quiet context) adds
  · exact Adds.after_quiet (.pure context.scope) adds

theorem loop_adds : Adds (context.planOrigins node (.ofLoop node)) (loop inner context node) := by
  unfold loop Plan.ofLoop
  by_cases declares : node.kind = "for_in_statement" ∧ (loopKind node).isSome ∧
      (node.field? "left").isSome
  · rw [if_pos declares]
    obtain ⟨isKind, hasLoopKind, hasLeft⟩ := declares
    obtain ⟨kind, isLoopKind⟩ := Option.isSome_iff_exists.mp hasLoopKind
    obtain ⟨left, isLeft⟩ := Option.isSome_iff_exists.mp hasLeft
    simp only [isKind, isLoopKind, isLeft, beq_self_eq_true, Context.planOrigins_fields,
      Context.planOrigins_field]
    exact declaringLoop_adds complete context low kind isLeft
  · rw [if_neg declares, Context.planOrigins_parts, ← Context.origins_statements]
    split
    · rename_i isKind isLoopKind isLeft
      exact absurd ⟨beq_iff_eq.mp isKind, by rw [isLoopKind]; rfl, by rw [isLeft]; rfl⟩ declares
    · exact complete.statements context node low

theorem handler_adds :
    Adds (context.fieldOrigins node "parameter" .pattern ++
        context.fieldOrigins node "body" .statements)
      (handler inner context node) := by
  have body : Adds (context.fieldOrigins node "body" .statements) (match node.field? "body" with
      | some body => inner.statements context body
      | none => return ()) :=
    .optional fun body found =>
      complete.statements context body (Nat.le_succ_of_le (lower_field low found))
  unfold handler
  cases isParameter : node.field? "parameter" with
  | none =>
    rw [Context.fieldOrigins_none isParameter]
    exact body
  | some parameter =>
    rw [Context.fieldOrigins_some isParameter]
    exact (complete.pattern context parameter _ _ _ (lower_field low isParameter)).bind
      fun _ => body

theorem namespaceBody_adds :
    Adds (context.fieldOrigins node "body" .statements) (namespaceBody inner context node) := by
  unfold namespaceBody
  cases isBody : node.field? "body" with
  | none => exact Context.fieldOrigins_none isBody ▸ .of_quiet (.pure ())
  | some body =>
    rw [Context.fieldOrigins_some isBody]
    exact .enterBlock fun scope => complete.statements { context with scope } body
      (Nat.le_succ_of_le (lower_field low isBody))

theorem result_adds :
    Adds (node.parts.head?.toList.flatMap (context.origins .expression))
      (result inner context node) := by
  unfold result
  cases isHead : node.parts.head? with
  | none => exact .of_quiet (emit_quiet _)
  | some value =>
    rw [Option.toList_some, List.flatMap_singleton]
    exact (complete.expression context value _
      (lower_part low (List.mem_of_mem_head? isHead))).then_quiet fun _ => emit_quiet _

theorem statement_adds : Adds (context.origins .statement node) (statement inner context node) := by
  by_cases isBare : StatementForm.ofKind node.kind = .bare
  · unfold statement
    rw [Context.origins_bare isBare, isBare]
    exact (expression_adds complete context low .none).then_quiet fun _ => effect_quiet _
  · unfold statement
    rw [Context.origins_statement isBare, Plan.ofStatement]
    cases isForm : StatementForm.ofKind node.kind with
    | bare => exact absurd isForm isBare
    | function => exact functionDeclaration_adds complete context low
    | classDef =>
      rw [Context.planOrigins_parts]
      exact classDeclaration_adds complete context low
    | hoisted =>
      rw [Context.planOrigins_parts]
      exact Adds.after_quiet (hoistingScope_quiet context) fun scope =>
        declarators_adds complete context low scope .hoisted
    | lexical =>
      rw [Context.planOrigins_parts]
      exact declarators_adds complete context low _ _
    | expressions =>
      rw [Context.planOrigins_parts]
      exact .forM fun part member => complete.effects context part (lower_part low member)
    | result =>
      rw [Context.planOrigins_firstPart]
      exact result_adds complete context low
    | block =>
      rw [Context.planOrigins_parts, ← Context.origins_statements]
      exact .enterBlock fun scope => complete.statements { context with scope } node low
    | loop => exact .enterBlock fun scope => loop_adds complete { context with scope } low
    | handler =>
      simp only [Context.planOrigins_fields, Context.planOrigins_field]
      exact .enterBlock fun scope => handler_adds complete { context with scope } low
    | imports =>
      exact .of_quiet (.forM (complete.imports context))
    | exports => exact exportStatement_adds complete context low
    | namespaceBody =>
      rw [Context.planOrigins_field]
      exact namespaceBody_adds complete context low
    | nothing => exact .of_quiet (.pure ())
    | compound =>
      rw [Context.planOrigins_parts, ← Context.origins_statements]
      exact complete.statements context node low

omit low in
theorem Rules.Complete.raise : inner.raise.Complete (bound + 1) where
  statement context _ low := statement_adds complete context low
  expression context _ hint low := expression_adds complete context low hint
  pattern context _ scope kind key low := bindPattern_adds complete context low scope kind key
  imports := importClause_quiet complete

end

theorem Rules.atHeight_complete (height : Nat) : (Rules.atHeight height).Complete height := by
  induction height with
  | zero =>
    have notZero (node : Node) (low : node.height ≤ 0) : False := by
      cases node with
      | mk info children => exact Nat.not_succ_le_zero _ low
    exact ⟨fun _ node low => (notZero node low).elim, fun _ node _ low => (notZero node low).elim,
      fun _ node _ _ _ low => (notZero node low).elim, fun _ _ => .pure ()⟩
  | succ height inductionHypothesis => exact inductionHypothesis.raise

end Lowering

end FunctionFlow
