import FunctionFlow.Lowering.Statement
import FunctionFlow.Proofs.Program.Append

/-!
Contract: lowering behind another program.

Rules only see the ids that they are given and that they make, so all of them move. Each rule is
taken by itself, and the rules for lower trees are only known to move.
-/

namespace FunctionFlow

namespace Lowering

def State.behind (base : Program) (state : State) : State where
  program := base.append state.program
  body := state.body.map (·.rename (.shift base.counts))

def Context.behind (base : Program) (context : Context) : Context where
  source := context.source
  file := Renaming.shift base.counts .file context.file
  scope := Renaming.shift base.counts .scope context.scope
  function := context.function.map (Renaming.shift base.counts .function)
  receiver := context.receiver.map (Renaming.shift base.counts .function)

def Moves {α β : Type} (base : Program) (move : α → β) (lower : Lower α) (moved : Lower β) : Prop :=
  ∀ state, (moved.run (state.behind base)).toOption =
    (lower.run state).toOption.map fun outcome => (move outcome.1, outcome.2.behind base)

abbrev Relocates {α : Type} (base : Program) (move : α → α) (context : Context)
    (lower : Context → Lower α) : Prop :=
  Moves base move (lower context) (lower (context.behind base))

variable {base : Program} {context : Context} {node : Node}

namespace Moves

variable {α β γ δ : Type} {move : α → β} {moveNext : γ → δ}

theorem pure (answer : α) : Moves base move (Pure.pure answer) (Pure.pure (move answer)) :=
  fun _ => rfl

theorem bind {lower : Lower α} {moved : Lower β} {next : α → Lower γ} {movedNext : β → Lower δ}
    (begins : Moves base move lower moved)
    (goesOn : ∀ answer, Moves base moveNext (next answer) (movedNext (move answer))) :
    Moves base moveNext (lower >>= next) (moved >>= movedNext) := by
  intro state
  rw [StateT.run_bind, StateT.run_bind, Checked.toOption_bind, Checked.toOption_bind, begins state]
  cases (lower.run state).toOption with
  | none => rfl
  | some outcome => exact goesOn outcome.1 outcome.2

theorem lift (compute : Checked α) : Moves base id (liftM compute) (liftM compute) := by
  intro state
  cases compute <;> rfl

theorem ask {ask : State → Checked α} {asked : State → Checked β}
    (same : ∀ state, (asked (state.behind base)).toOption = (ask state).toOption.map move) :
    Moves base move (do let state ← get; ask state) (do let state ← get; asked state) := by
  intro state
  have runs {ε : Type} (compute : Checked ε) (start : State) :
      ((liftM compute : Lower ε).run start).toOption = compute.toOption.map (·, start) := by
    cases compute <;> rfl
  change ((liftM (asked (state.behind base)) : Lower β).run _).toOption =
    ((liftM (ask state) : Lower α).run _).toOption.map _
  rw [runs, runs, same, Option.map_map, Option.map_map]
  rfl

/-- A look at the state that gives the same answer, and what is done with the answer there. -/
theorem look {ask : State → Checked α} {asked : State → Checked β}
    {next : State → α → Lower γ} {movedNext : State → β → Lower δ}
    (same : ∀ state, (asked (state.behind base)).toOption = (ask state).toOption.map move)
    (goesOn : ∀ state answer,
      ((movedNext (state.behind base) (move answer)).run (state.behind base)).toOption =
        ((next state answer).run state).toOption.map
          fun outcome => (moveNext outcome.1, outcome.2.behind base)) :
    Moves base moveNext (do let state ← get; let answer ← ask state; next state answer)
      (do let state ← get; let answer ← asked state; movedNext state answer) := by
  intro state
  have runs {ε ζ : Type} (compute : Checked ε) (further : ε → Lower ζ) (start : State) :
      ((liftM compute >>= further).run start).toOption =
        compute.toOption.bind fun answer => ((further answer).run start).toOption := by
    cases compute <;> rfl
  change ((liftM (asked (state.behind base)) >>= movedNext (state.behind base)).run _).toOption =
    ((liftM (ask state) >>= next state).run _).toOption.map _
  rw [runs, runs, same]
  cases (ask state).toOption with
  | none => rfl
  | some answer => exact goesOn state answer

theorem discard {lower : Lower α} {moved : Lower β} (moves : Moves base move lower moved) :
    Moves base id (Functor.discard lower) (Functor.discard moved) := by
  have eq {γ : Type} (compute : Lower γ) :
      Functor.discard compute = (compute >>= fun _ => Pure.pure PUnit.unit) :=
    map_eq_pure_bind (fun _ => PUnit.unit) compute
  rw [eq, eq]
  exact moves.bind fun _ => .pure _

theorem forM {items : List Node} {lower moved : Node → Lower PUnit}
    (moves : ∀ item, Moves base id (lower item) (moved item)) :
    Moves base id (items.forM lower) (items.forM moved) := by
  induction items with
  | nil => exact .pure PUnit.unit
  | cons first rest inductionHypothesis => exact (moves first).bind fun _ => inductionHypothesis

theorem optional (part : Option Node) {lower moved : Node → Lower Unit}
    (moves : ∀ item, Moves base id (lower item) (moved item)) :
    Moves base id
      (match part with
        | some item => lower item
        | none => return ())
      (match part with
        | some item => moved item
        | none => return ()) := by
  cases part with
  | none => exact .pure ()
  | some item => exact moves item

theorem mapM {items : List Node} {lower : Node → Lower α} {moved : Node → Lower β}
    (moves : ∀ item, Moves base move (lower item) (moved item)) :
    Moves base (List.map move) (items.mapM lower) (items.mapM moved) := by
  induction items with
  | nil => exact .pure []
  | cons first rest inductionHypothesis =>
    rw [List.mapM_cons, List.mapM_cons]
    exact (moves first).bind fun answer => inductionHypothesis.bind fun answers =>
      .pure (answer :: answers)

end Moves

/-! ### Elementary operations -/

theorem text_moves : Relocates base id context (text · node) :=
  .lift _

theorem fresh_moves {build built : NodeId → Expr}
    (same : ∀ node, built (base.offset .node node) =
      (build node).rename base.offset) :
    Moves base (Expr.rename base.offset) (fresh build) (fresh built) := by
  intro state
  exact congrArg (fun expr => some (expr, _)) (same state.program.nextNode)

theorem inert_moves (parts : List Expr) :
    Moves base (Expr.rename base.offset) (inert parts)
      (inert (parts.map (Expr.rename base.offset))) :=
  fresh_moves fun _ => by rw [Expr.rename, Expr.renameAll_eq]

theorem object_moves (entries : List Property) :
    Moves base (Expr.rename base.offset) (fresh (.object · entries))
      (fresh (.object · (entries.map (Property.rename base.offset)))) :=
  fresh_moves fun _ => by rw [Expr.rename, Property.renameAll_eq]

theorem select_moves (guards values : List Expr) :
    Moves base (Expr.rename base.offset) (fresh (.select · guards values))
      (fresh (.select · (guards.map (Expr.rename base.offset))
        (values.map (Expr.rename base.offset)))) :=
  fresh_moves fun _ => by rw [Expr.rename, Expr.renameAll_eq, Expr.renameAll_eq]

theorem emit_moves (stmt : Stmt) :
    Moves base id (emit stmt) (emit (stmt.rename base.offset)) := by
  intro state
  have bodies : state.body.map (·.rename base.offset) ++
      [stmt.rename base.offset] =
        (state.body ++ [stmt]).map (·.rename base.offset) := by
    rw [List.map_append, List.map_singleton]
  exact congrArg (fun body => some ((), State.mk (base.append state.program) body)) bodies

theorem effect_moves (value : Expr) :
    Moves base id (effect value) (effect (value.rename base.offset)) :=
  emit_moves (.expr value)

theorem addScope_moves (kind : ScopeKind) :
    Relocates base (base.offset .scope) context (addScope · kind) := by
  intro state
  exact congrArg (fun added : ScopeId × Program =>
    some (added.1, State.mk added.2 (state.behind base).body))
      (Program.addScope_append kind (some context.scope))

theorem enterBlock_moves :
    Relocates base (Context.behind base) context enterBlock :=
  (addScope_moves .block).bind fun _ => .pure _

theorem hoistingScope_moves :
    Relocates base (base.offset .scope) context hoistingScope :=
  .ask fun _ => Program.hoistingScope_append context.scope

theorem declare_moves (scope : ScopeId) (kind : DeclKind) :
    Moves base (base.offset .decl) (declare context scope node kind)
      (declare (context.behind base) (base.offset .scope scope) node
        (kind.rename base.offset)) := by
  refine text_moves.bind fun name => ?_
  exact .look (fun state => Program.declare_append scope name kind context.file _) fun _ _ => rfl

theorem reference_moves :
    Relocates base (Expr.rename base.offset) context (reference · node) :=
  text_moves.bind fun _ => fresh_moves fun _ => rfl

theorem propertyRead_moves (key : String) :
    Moves base (Expr.rename base.offset) (propertyRead key) (propertyRead key) :=
  (inert_moves []).bind fun _ => fresh_moves fun _ => rfl

theorem readInto_moves (decl : DeclId) (key : String) :
    Moves base id (readInto decl key) (readInto (base.offset .decl decl) key) :=
  (propertyRead_moves key).bind fun value => emit_moves (.declare decl (some value))

theorem exportProperty_moves (key : String) (value : Expr) :
    Moves base id (exportProperty key value)
      (exportProperty key (value.rename base.offset)) :=
  (fresh_moves fun _ => rfl).bind fun whole => effect_moves whole

theorem propertyKey_moves :
    Relocates base id context (propertyKey · node) := by
  unfold propertyKey
  split
  · exact text_moves.bind fun _ => .pure _
  · exact text_moves.bind fun _ => .pure _
  · exact .pure _

theorem propertyKey?_moves {node : Option Node} :
    Relocates base id context (propertyKey? · node) := by
  cases node with
  | none => exact .pure _
  | some node => exact propertyKey_moves

theorem text?_moves {node : Option Node} :
    Relocates base id context (text? · node) := by
  cases node with
  | none => exact .pure _
  | some node => exact text_moves.bind fun _ => .pure _

def moveFunction (base : Program) (opened : FunctionId × ScopeId) : FunctionId × ScopeId :=
  (Renaming.shift base.counts .function opened.1, Renaming.shift base.counts .scope opened.2)

theorem openFunction_moves (name : Option String) (isArrow : Bool) :
    Relocates base (moveFunction base) context (openFunction · node name isArrow) := by
  refine (addScope_moves .function).bind fun scope state => ?_
  exact congrArg (fun pushed : FunctionId × Program =>
      some ((pushed.1, base.offset .scope scope),
        State.mk pushed.2 (state.behind base).body))
    (Program.push_function_append base state.program
      { name, file := context.file, enclosing := context.function, span := spanOf context node
        params := [], isArrow, scope, body := [] })

theorem takeBody_moves :
    Moves base (List.map (Stmt.rename base.offset)) takeBody takeBody :=
  fun _ => rfl

theorem closeFunction_moves (function : FunctionId) (params : List (Option DeclId))
    (outer : List Stmt) :
    Moves base id (closeFunction function params outer)
      (closeFunction (base.offset .function function)
        (params.map (·.map (base.offset .decl)))
        (outer.map (Stmt.rename base.offset))) := by
  refine .look (fun state => Program.function_append function) fun state definition => ?_
  exact congrArg (fun program =>
      some ((), State.mk program (outer.map (Stmt.rename base.offset))))
    (Program.set_function_append base state.program { definition with params, body := state.body }
      function)

theorem openCall_moves (isNew : Bool) :
    Relocates base (base.offset .call) context (openCall · node isNew) := by
  intro state
  exact congrArg (fun pushed : CallId × Program =>
      some (pushed.1, State.mk pushed.2 (state.behind base).body))
    (Program.push_call_append base state.program
      { file := context.file, enclosing := context.function, span := spanOf context node
        isNew, arity := 0, hasReceiver := false })

theorem closeCall_moves (site : CallId) (arity : Nat) (hasReceiver : Bool) :
    Moves base id (closeCall site arity hasReceiver)
      (closeCall (base.offset .call site) arity hasReceiver) := by
  refine .look (fun state => Program.call_append site) fun state entry => ?_
  exact congrArg (fun program => some ((), State.mk program (state.behind base).body))
    (Program.set_call_append base state.program { entry with arity, hasReceiver } site)

/-! ### Rules -/

/-- The rules do behind `base` what they do alone. -/
structure Rules.Moving (inner : Rules) (base : Program) : Prop where
  statement : ∀ context node,
    Relocates base id context (inner.statement · node)
  expression : ∀ context node hint,
    Relocates base (Expr.rename (.shift base.counts)) context (inner.expression · node hint)
  pattern : ∀ context node scope kind key,
    Moves base id (inner.pattern context node scope kind key)
      (inner.pattern (context.behind base) node (Renaming.shift base.counts .scope scope)
        (kind.rename (.shift base.counts)) key)
  imports : ∀ context node,
    Relocates base id context (inner.imports · node)

variable {inner : Rules} (moving : inner.Moving base)
include moving

namespace Rules.Moving

theorem statements (context : Context) (node : Node) :
    Relocates base id context (inner.statements · node) :=
  .forM fun part => moving.statement context part

theorem effects (context : Context) (node : Node) :
    Relocates base id context (inner.effects · node) :=
  (moving.expression context node _).bind effect_moves

theorem expression? (context : Context) (node : Option Node) (hint : Option String) :
    Relocates base (Expr.rename base.offset) context (inner.expression? · node hint) := by
  cases node with
  | none => exact inert_moves []
  | some node => exact moving.expression context node hint

theorem expressions (context : Context) (nodes : List Node) (hint : Option String) :
    Moves base (List.map (Expr.rename base.offset))
      (nodes.mapM fun part => inner.expression context part hint)
      (nodes.mapM fun part => inner.expression (context.behind base) part hint) :=
  .mapM fun part => moving.expression context part hint

theorem inertParts (context : Context) (node : Node) :
    Relocates base (Expr.rename base.offset) context (inner.inertParts · node) :=
  (moving.expressions context node.parts _).bind inert_moves

end Rules.Moving

/-! ### Patterns, imports and exports -/

theorem bindPattern_moves (scope : ScopeId) (kind : DeclKind) (key : Option String) :
    Moves base id (bindPattern inner context node scope kind key)
      (bindPattern inner (context.behind base) node (base.offset .scope scope)
        (kind.rename base.offset) key) := by
  unfold bindPattern
  split
  · refine (declare_moves scope kind).bind fun decl => ?_
    cases key with
    | none => exact .pure ()
    | some key => exact readInto_moves decl key
  · exact (declare_moves scope kind).bind fun decl => text_moves.bind fun key =>
      readInto_moves decl key
  · have right := Moves.optional (node.field? "right") (moving.effects context)
    cases node.field? "left" with
    | none => exact right
    | some left => exact (moving.pattern context left scope kind key).bind fun _ => right
  · exact propertyKey?_moves.bind fun key =>
      .optional (node.field? "value") fun value => moving.pattern context value scope kind key
  · exact .forM fun part => moving.pattern context part scope kind none
  · exact .pure ()

omit moving in
theorem declareImport_moves (imported : String) :
    Relocates base id context (declareImport · node imported) :=
  (declare_moves context.scope .imported).bind fun decl => readInto_moves decl imported

omit moving in
theorem importSpecifier_moves :
    Relocates base id context (importSpecifier · node) := by
  refine propertyKey?_moves.bind fun imported => ?_
  dsimp only [id]
  split
  · exact declareImport_moves _
  · exact .pure ()

theorem importClause_moves :
    Relocates base id context (importClause inner · node) := by
  refine .forM fun part => ?_
  split
  · exact declareImport_moves _
  · exact importSpecifier_moves
  · exact .forM fun name => (declare_moves context.scope .imported).discard
  · exact moving.imports context part

theorem importStatement_moves :
    Relocates base id context (importStatement inner · node) :=
  .forM (moving.imports context)

omit moving in
theorem exportSpecifier_moves :
    Relocates base id context (exportSpecifier · node) := by
  refine propertyKey?_moves.bind fun renamed => ?_
  dsimp only [id]
  split
  · split
    · refine text_moves.bind fun spelled => ?_
      dsimp only [id]
      split
      · exact .pure ()
      · exact reference_moves.bind fun value => exportProperty_moves _ value
    · exact .pure ()
  · exact .pure ()

theorem exportStatement_moves :
    Relocates base id context (exportStatement inner · node) := by
  unfold exportStatement
  split
  · rename_i declaration _
    refine (moving.statement context declaration).bind fun _ => ?_
    split
    · exact reference_moves.bind fun value => exportProperty_moves _ value
    · exact .pure ()
  · exact (moving.expression context _ _).bind fun value => exportProperty_moves _ value
  · split
    · exact .forM fun clause => .forM fun part => exportSpecifier_moves
    · exact .pure ()

/-! ### Functions and classes -/

theorem parameter_moves (function : FunctionId) (index : Nat) (initial : Option Node) :
    Moves base (Option.map (base.offset .decl))
      (parameter inner context function index node initial)
      (parameter inner (context.behind base) (base.offset .function function) index
        node initial) := by
  unfold parameter
  split
  · refine (declare_moves context.scope (.parameter function index)).bind fun decl => ?_
    cases initial with
    | none => exact .pure (some decl)
    | some initial =>
      exact text_moves.bind fun name => (moving.expression context initial (some name)).bind
        fun value => (emit_moves (.declare decl (some value))).bind fun _ => .pure (some decl)
  · refine (moving.pattern context node context.scope .lexical none).bind fun _ => ?_
    cases initial with
    | none => exact .pure none
    | some initial => exact (moving.effects context initial).bind fun _ => .pure none

theorem parameterList_moves (function : FunctionId) (index : Nat)
    (items : List (Node × Option Node)) :
    Moves base (List.map (Option.map (base.offset .decl)))
      (parameterList inner context function index items)
      (parameterList inner (context.behind base) (base.offset .function function)
        index items) := by
  induction items generalizing index with
  | nil => exact .pure []
  | cons first rest inductionHypothesis =>
    exact (parameter_moves moving function index first.2).bind fun param =>
      (inductionHypothesis (index + 1)).bind fun params => .pure (param :: params)

theorem parameters_moves (function : FunctionId) :
    Moves base (List.map (Option.map (base.offset .decl)))
      (parameters inner context node function)
      (parameters inner (context.behind base) node
        (base.offset .function function)) := by
  unfold parameters
  split
  · exact (declare_moves context.scope (.parameter function 1)).bind fun decl => .pure [some decl]
  · exact parameterList_moves moving function 1 _
  · exact .pure []

theorem functionBody_moves :
    Moves base id (functionBody inner context node)
      (functionBody inner (context.behind base) node) := by
  unfold functionBody
  split
  · split
    · exact moving.statements context _
    · exact (moving.expression context _ _).bind fun value => emit_moves (.result (some value))
  · exact .pure ()

omit moving in
theorem declareOwnName_moves (function : FunctionId) :
    Moves base id (declareOwnName context node function)
      (declareOwnName (context.behind base) node
        (base.offset .function function)) :=
  (declare_moves context.scope .function).bind fun decl =>
    (fresh_moves fun _ => rfl).bind fun value => emit_moves (.declare decl (some value))

theorem functionDef_moves (hint : Option String) :
    Moves base (base.offset .function) (functionDef inner context node hint)
      (functionDef inner (context.behind base) node hint) := by
  unfold functionDef
  extract_lets ownName isArrow
  refine text?_moves.bind fun spelled => (openFunction_moves _ isArrow).bind fun opened =>
    takeBody_moves.bind fun outer => ?_
  obtain ⟨function, scope⟩ := opened
  have receivers : (if isArrow = true then (context.behind base).receiver
      else some (base.offset .function function)) =
        (if isArrow = true then context.receiver else some function).map
          (base.offset .function) := by
    split <;> rfl
  have rest (inside : Context) : Moves base (base.offset .function)
      (do
        let params ← parameters inner inside node function
        functionBody inner inside node
        closeFunction function params outer
        return function)
      (do
        let params ← parameters inner (inside.behind base) node
          (base.offset .function function)
        functionBody inner (inside.behind base) node
        closeFunction (base.offset .function function) params
          (outer.map (Stmt.rename base.offset))
        return base.offset .function function) :=
    (parameters_moves moving function).bind fun params => (functionBody_moves moving).bind fun _ =>
      (closeFunction_moves function params outer).bind fun _ => .pure function
  dsimp only [moveFunction]
  rw [receivers]
  split
  · exact (declareOwnName_moves function).bind fun _ => rest _
  · exact rest _

theorem functionExpr_moves (hint : Option String) :
    Moves base (Expr.rename base.offset) (functionExpr inner context node hint)
      (functionExpr inner (context.behind base) node hint) :=
  (functionDef_moves moving hint).bind fun _ => fresh_moves fun _ => rfl

def ClassMember.behind (base : Program) : ClassMember → ClassMember
  | .constructor function => .constructor (Renaming.shift base.counts .function function)
  | .property entry => .property (entry.rename (.shift base.counts))
  | .nothing => .nothing

omit moving in
theorem ClassMember.properties_behind (members : List ClassMember) :
    ClassMember.properties (members.map (ClassMember.behind base)) =
      (ClassMember.properties members).map (Property.rename base.offset) := by
  simp only [ClassMember.properties, List.filterMap_map, List.map_filterMap]
  congr 1
  funext member
  cases member <;> rfl

omit moving in
theorem ClassMember.constructor?_behind (members : List ClassMember) :
    ClassMember.constructor? (members.map (ClassMember.behind base)) =
      (ClassMember.constructor? members).map (base.offset .function) := by
  simp only [ClassMember.constructor?, List.filterMap_map, ← List.getLast?_map,
    List.map_filterMap]
  congr 2
  funext member
  cases member <;> rfl

theorem classMember_moves (className : Option String) :
    Relocates base (ClassMember.behind base) context (classMember inner · className node) := by
  unfold classMember
  split
  · refine propertyKey?_moves.bind fun key => ?_
    dsimp only [id]
    split
    · exact (functionDef_moves moving className).bind fun function =>
        .pure (ClassMember.constructor function)
    · exact (functionExpr_moves moving key).bind fun value =>
        .pure (ClassMember.property (.mk key value))
  iterate 2
    · refine propertyKey?_moves.bind fun key => ?_
      dsimp only [id]
      split
      · exact (moving.expression context _ key).bind fun value =>
          .pure (ClassMember.property (.mk key value))
      · exact .pure ClassMember.nothing
  · exact (moving.statement context node).bind fun _ => .pure ClassMember.nothing
  · exact .pure ClassMember.nothing

theorem classPart_moves (className : Option String) :
    Relocates base (List.map (ClassMember.behind base)) context (classPart inner · className node) := by
  unfold classPart
  split
  · exact (Moves.forM (moving.effects context)).bind fun _ => .pure []
  · exact .mapM fun _ => classMember_moves moving className
  · exact .pure []

theorem classDef_moves (hint : Option String) :
    Relocates base (Expr.rename base.offset) context (classDef inner · node hint) := by
  refine text?_moves.bind fun name =>
    (Moves.mapM fun _ => classPart_moves moving (name.or hint)).bind fun found => ?_
  dsimp only
  rw [← List.map_flatten, ClassMember.properties_behind, ClassMember.constructor?_behind]
  -- the properties are written before the value is put together
  cases ClassMember.constructor? found.flatten with
  | none =>
    cases ClassMember.properties found.flatten with
    | nil => exact inert_moves []
    | cons first rest =>
      exact (object_moves (first :: rest)).bind fun whole => (effect_moves whole).bind fun _ =>
        inert_moves []
  | some function =>
    have value : Moves base (Expr.rename base.offset) (fresh (.function · function))
        (fresh (.function · (base.offset .function function))) :=
      fresh_moves fun _ => rfl
    cases ClassMember.properties found.flatten with
    | nil => exact value
    | cons first rest =>
      exact (object_moves (first :: rest)).bind fun whole =>
        (effect_moves whole).bind fun _ => value

/-! ### Expressions -/

theorem callee_moves (target : Option Node) :
    Relocates base (Expr.rename base.offset) context (callee inner · target) := by
  cases target with
  | none => exact inert_moves []
  | some target =>
    unfold callee
    dsimp only
    split
    · exact inert_moves []
    · exact moving.expression context target none

theorem arguments_moves (list : Option Node) :
    Relocates base (List.map (Expr.rename base.offset)) context (arguments inner · list) := by
  cases list with
  | none => exact .pure []
  | some list =>
    unfold arguments
    dsimp only
    split
    · exact moving.expressions context list.parts none
    · exact (moving.effects context list).bind fun _ => .pure []

theorem call_moves (calleeField : String) (isNew : Bool) :
    Relocates base (Expr.rename base.offset) context (call inner · node calleeField isNew) := by
  refine (openCall_moves isNew).bind fun site => (callee_moves moving _).bind fun target =>
    (arguments_moves moving _).bind fun args => ?_
  rw [List.length_map, Expr.isMember_rename]
  exact (closeCall_moves site args.length (!isNew && target.isMember)).bind fun _ =>
    fresh_moves fun _ => by rw [Expr.rename, Expr.renameAll_eq]

omit moving in
theorem assignmentHint_moves (target : Option Node) :
    Relocates base id context (assignmentHint · target) := by
  cases target with
  | none => exact .pure none
  | some target =>
    unfold assignmentHint
    dsimp only
    split
    · exact text_moves.bind fun name => .pure (some name)
    · exact text?_moves
    · exact .pure none

theorem assignmentTarget_moves (target : Option Node) :
    Relocates base (Expr.rename base.offset) context (assignmentTarget inner · target) := by
  cases target with
  | none => exact inert_moves []
  | some target =>
    unfold assignmentTarget
    dsimp only
    split
    · exact moving.expression context target none
    · exact moving.inertParts context target

theorem assignment_moves :
    Relocates base (Expr.rename base.offset) context (assignment inner · node) :=
  (assignmentHint_moves _).bind fun hint => (moving.expression? context _ hint).bind fun _ =>
    (assignmentTarget_moves moving _).bind fun _ => fresh_moves fun _ => rfl

theorem objectMember_moves :
    Relocates base (Option.map (Property.rename base.offset)) context (objectMember inner · node) := by
  unfold objectMember
  split
  · refine propertyKey?_moves.bind fun key => ?_
    dsimp only [id]
    split
    · exact (moving.expression context _ key).bind fun value => .pure (some (Property.mk key value))
    · exact .pure none
  · exact propertyKey?_moves.bind fun key => (functionExpr_moves moving key).bind fun value =>
      .pure (some (Property.mk key value))
  · exact text_moves.bind fun key => reference_moves.bind fun value =>
      .pure (some (Property.mk (some key) value))
  · exact (moving.effects context node).bind fun _ => .pure none

theorem objectLiteral_moves :
    Relocates base (Expr.rename base.offset) context (objectLiteral inner · node) := by
  refine (Moves.mapM fun _ => objectMember_moves moving).bind fun members => ?_
  have kept : (members.map (Option.map (Property.rename base.offset))).filterMap id =
      (members.filterMap id).map (Property.rename base.offset) := by
    rw [List.filterMap_map, List.map_filterMap]
    rfl
  dsimp only
  rw [kept]
  exact object_moves _

theorem memberAccess_moves :
    Relocates base (Expr.rename base.offset) context (memberAccess inner · node) :=
  (moving.expression? context _ none).bind fun _ => propertyKey?_moves.bind fun _ =>
    fresh_moves fun _ => rfl

omit moving in
theorem indexKey_moves (index : Option Node) :
    Relocates base id context (indexKey · index) := by
  cases index with
  | none => exact .pure none
  | some index =>
    unfold indexKey
    dsimp only
    split
    · exact propertyKey_moves
    · exact .pure none

theorem subscriptAccess_moves :
    Relocates base (Expr.rename base.offset) context (subscriptAccess inner · node) := by
  refine (moving.expression? context _ none).bind fun whole => (indexKey_moves _).bind
    fun property => ?_
  dsimp only [id]
  split
  · exact (moving.effects context _).bind fun _ => fresh_moves fun _ => rfl
  · exact fresh_moves fun _ => rfl

theorem binary_moves (hint : Option String) :
    Relocates base (Expr.rename base.offset) context (binary inner · node hint) := by
  refine (moving.expressions context _ hint).bind fun operands => ?_
  split
  · exact select_moves [] operands
  · exact inert_moves operands

theorem conditional_moves (hint : Option String) :
    Relocates base (Expr.rename base.offset) context (conditional inner · node hint) :=
  (moving.expressions context _ none).bind fun guards =>
    (moving.expressions context _ hint).bind fun values => select_moves guards values

theorem sequence_moves (hint : Option String) :
    Relocates base (Expr.rename base.offset) context (sequence inner · node hint) := by
  refine (moving.expressions context _ hint).bind fun items => ?_
  have last : (items.map (Expr.rename base.offset)).getLast?.toList =
      items.getLast?.toList.map (Expr.rename base.offset) := by
    rw [List.getLast?_map, Option.toList_map]
  rw [← List.map_dropLast, last]
  exact select_moves items.dropLast items.getLast?.toList

theorem expression_moves (hint : Option String) :
    Relocates base (Expr.rename base.offset) context (expression inner · node hint) := by
  unfold expression
  cases ExpressionForm.ofKind node.kind with
  | name => exact reference_moves
  | this => exact fresh_moves fun _ => rfl
  | wrapped => exact moving.expression? context _ hint
  | function => exact functionExpr_moves moving hint
  | classDef => exact classDef_moves moving hint
  | member => exact memberAccess_moves moving
  | subscript => exact subscriptAccess_moves moving
  | call => exact call_moves moving "function" false
  | construct => exact call_moves moving "constructor" true
  | assign => exact assignment_moves moving
  | update =>
    dsimp only
    split
    · exact assignment_moves moving
    · exact moving.inertParts context node
  | binary => exact binary_moves moving hint
  | conditional => exact conditional_moves moving hint
  | sequence => exact sequence_moves moving hint
  | object => exact objectLiteral_moves moving
  | inert => exact moving.inertParts context node

/-! ### Statements -/

theorem functionDeclaration_moves :
    Moves base id (functionDeclaration inner context node)
      (functionDeclaration inner (context.behind base) node) := by
  refine text?_moves.bind fun name => (functionDef_moves moving name).bind fun function => ?_
  cases node.field? "name" with
  | none => exact .pure ()
  | some own =>
    exact (declare_moves context.scope .function).bind fun decl =>
      (fresh_moves fun _ => rfl).bind fun value => emit_moves (.declare decl (some value))

theorem classDeclaration_moves :
    Relocates base id context (classDeclaration inner · node) := by
  refine text?_moves.bind fun name => (classDef_moves moving name).bind fun value => ?_
  cases node.field? "name" with
  | none => exact .pure ()
  | some own =>
    exact (declare_moves context.scope .classDef).bind fun decl =>
      emit_moves (.declare decl (some value))

theorem declarator_moves (scope : ScopeId) (kind : DeclKind) :
    Moves base id (declarator inner context scope kind node)
      (declarator inner (context.behind base) (base.offset .scope scope)
        (kind.rename base.offset) node) := by
  unfold declarator
  cases node.field? "name" with
  | none => exact .pure ()
  | some name =>
    dsimp only
    split
    · refine (declare_moves scope kind).bind fun decl => ?_
      cases node.field? "value" with
      | none => exact emit_moves (.declare decl none)
      | some value =>
        exact text_moves.bind fun hint => (moving.expression context value (some hint)).bind
          fun initial => emit_moves (.declare decl (some initial))
    · exact (moving.pattern context name scope kind none).bind fun _ =>
        .optional (node.field? "value") (moving.effects context)

theorem declarators_moves (scope : ScopeId) (kind : DeclKind) :
    Moves base id (declarators inner context scope kind node)
      (declarators inner (context.behind base) (base.offset .scope scope)
        (kind.rename base.offset) node) :=
  .forM fun _ => declarator_moves moving scope kind

omit moving in
theorem lexicalKind_rename (ids : Renaming) : (lexicalKind node).rename ids = lexicalKind node := by
  unfold lexicalKind
  split
  · split <;> rfl
  · rfl

omit moving in
theorem loopKind_rename (ids : Renaming) {kind : DeclKind} (isKind : loopKind node = some kind) :
    kind.rename ids = kind := by
  unfold loopKind at isKind
  split at isKind
  · cases isKind; rfl
  · cases isKind; rfl
  · cases isKind; rfl
  · cases isKind

theorem declaringLoop_moves (left : Node) {kind : DeclKind}
    (plain : kind.rename base.offset = kind) :
    Relocates base id context (declaringLoop inner · node left kind) := by
  have body := Moves.optional (node.field? "body") (moving.statement context)
  unfold Relocates declaringLoop
  beta_reduce
  extract_lets afterNames inScope movedAfterNames movedInScope
  have rest (scope : ScopeId) : Moves base id (inScope scope)
      (movedInScope (base.offset .scope scope)) := by
    have pattern := moving.pattern context left scope kind none
    rw [plain] at pattern
    refine pattern.bind fun _ => ?_
    cases node.field? "right" with
    | none => exact body
    | some right => exact (moving.effects context right).bind fun _ => body
  by_cases isHoisted : kind = .hoisted
  · rw [if_pos isHoisted, if_pos isHoisted]
    exact hoistingScope_moves.bind rest
  · rw [if_neg isHoisted, if_neg isHoisted]
    exact rest context.scope

theorem loop_moves :
    Relocates base id context (loop inner · node) := by
  unfold loop
  split
  · rename_i kind left _ isKind _
    exact declaringLoop_moves moving left (loopKind_rename _ isKind)
  · exact moving.statements context node

theorem handler_moves :
    Relocates base id context (handler inner · node) := by
  have body := Moves.optional (node.field? "body") (moving.statements context)
  unfold handler
  cases node.field? "parameter" with
  | none => exact body
  | some parameter =>
    exact (moving.pattern context parameter context.scope .caught none).bind fun _ => body

theorem namespaceBody_moves :
    Relocates base id context (namespaceBody inner · node) := by
  unfold namespaceBody
  cases node.field? "body" with
  | none => exact .pure ()
  | some body => exact enterBlock_moves.bind fun inside => moving.statements inside body

theorem result_moves :
    Relocates base id context (result inner · node) := by
  unfold result
  cases node.parts.head? with
  | none => exact emit_moves (.result none)
  | some value =>
    exact (moving.expression context value none).bind fun returned =>
      emit_moves (.result (some returned))

theorem statement_moves :
    Relocates base id context (statement inner · node) := by
  unfold statement
  cases StatementForm.ofKind node.kind with
  | function => exact functionDeclaration_moves moving
  | classDef => exact classDeclaration_moves moving
  | hoisted =>
    exact hoistingScope_moves.bind fun scope => declarators_moves moving scope .hoisted
  | lexical =>
    have moves : Moves base id (declarators inner context context.scope (lexicalKind node) node)
        (declarators inner (context.behind base) (base.offset .scope context.scope)
          ((lexicalKind node).rename base.offset) node) :=
      declarators_moves moving context.scope (lexicalKind node)
    rw [lexicalKind_rename] at moves
    exact moves
  | expressions => exact .forM (moving.effects context)
  | result => exact result_moves moving
  | block => exact enterBlock_moves.bind fun inside => moving.statements inside node
  | loop => exact enterBlock_moves.bind fun _ => loop_moves moving
  | handler => exact enterBlock_moves.bind fun _ => handler_moves moving
  | imports => exact importStatement_moves moving
  | exports => exact exportStatement_moves moving
  | namespaceBody => exact namespaceBody_moves moving
  | nothing => exact .pure ()
  | compound => exact moving.statements context node
  | bare => exact (expression_moves moving none).bind effect_moves

theorem Rules.raise_moving : inner.raise.Moving base where
  statement _ _ := statement_moves moving
  expression _ _ hint := expression_moves moving hint
  pattern _ _ scope kind key := bindPattern_moves moving scope kind key
  imports _ _ := importClause_moves moving

omit moving in
theorem Rules.atHeight_moving (base : Program) (height : Nat) :
    (Rules.atHeight height).Moving base := by
  induction height with
  | zero =>
    exact ⟨fun _ _ => .pure (), fun _ _ _ => inert_moves [], fun _ _ _ _ _ => .pure (),
      fun _ _ => .pure ()⟩
  | succ height inductionHypothesis => exact Rules.raise_moving inductionHypothesis

end Lowering

end FunctionFlow
