import FunctionFlow.Proofs.Lowering.Sound

/-!
Contract: computations of lowering that follow derivations.
-/

namespace FunctionFlow.Lowering

variable {root node : Node} {context : Context} {state before : State} {source : Source}
  {α β : Type} {items : List α}

/-- Some node of the tree `root` has a range that lies outside the source. -/
def Unreadable (root : Node) (source : Source) (failure : OutOfRange) : Prop :=
  ∃ node, Node.Inside root node ∧
    source.slice node.info.startByte node.info.endByte = .error failure

/-- After the computation `holds` is true of its answer and of the state, unless some text inside
`root` cannot be read. -/
def Outcome (root : Node) (source : Source) (compute : Lower α) (state : State)
    (holds : α → State → Prop) : Prop :=
  match compute.run state with
  | .ok (answer, after) => holds answer after
  | .error failure => Unreadable root source failure

/-- From every sound state the computation leads along a derivation, with the expressions `hand` of
its answer in hand. -/
def Follows (root : Node) (context : Context) (compute : Lower α) (hand : α → List Expr) : Prop :=
  ∀ state, Sound context state → Outcome root context.source compute state fun answer after =>
    Lowers root context state (hand answer) after

/-- The computation leaves every state as it is. -/
def Reads (root : Node) (context : Context) (compute : Lower α) : Prop :=
  ∀ state, Outcome root context.source compute state fun _ after => after = state

/-! ### Sequences of computations -/

namespace Outcome

variable {compute : Lower α} {next : α → Lower β} {holds : β → State → Prop}
  {middle weaker : α → State → Prop}

theorem pure {answer : β} (here : holds answer state) :
    Outcome root source (Pure.pure answer) state holds := here

theorem lift {lookup : Checked β} (found : ∀ answer, lookup = .ok answer → holds answer state)
    (fails : ∀ failure, lookup = .error failure → Unreadable root source failure) :
    Outcome root source (liftM lookup) state holds := by
  cases lookup with
  | ok answer => exact found answer rfl
  | error failure => exact fails failure rfl

theorem get : Outcome root source (MonadState.get : Lower State) state fun answer after =>
    answer = state ∧ after = state := ⟨rfl, rfl⟩

theorem bind (begins : Outcome root source compute state middle)
    (goesOn : ∀ answer after, middle answer after →
      Outcome root source (next answer) after holds) :
    Outcome root source (compute >>= next) state holds := by
  unfold Outcome at begins ⊢
  rw [StateT.run_bind]
  cases ran : compute.run state with
  | error failure =>
    rw [ran] at begins
    exact begins
  | ok result =>
    rw [ran] at begins
    exact goesOn _ _ begins

theorem mono (outcome : Outcome root source compute state middle)
    (implies : ∀ answer after, middle answer after → weaker answer after) :
    Outcome root source compute state weaker := by
  unfold Outcome at outcome ⊢
  split at outcome
  · exact implies _ _ outcome
  · exact outcome

theorem discard {holds : State → Prop}
    (outcome : Outcome root source compute state fun _ after => holds after) :
    Outcome root source (Functor.discard compute) state fun _ after => holds after := by
  have same : (Functor.discard compute).run state =
      (fun result => ((), result.2)) <$> compute.run state := by
    change StateT.run ((fun _ => ()) <$> compute) state = _
    rw [StateT.run_map]
  unfold Outcome at outcome ⊢
  rw [same]
  cases ran : compute.run state with
  | error failure =>
    rw [ran] at outcome
    exact outcome
  | ok result =>
    rw [ran] at outcome
    exact outcome

theorem widen {inner : Node} (outcome : Outcome inner source compute state middle)
    (inside : Node.Inside root inner) : Outcome root source compute state middle := by
  unfold Outcome at outcome ⊢
  split at outcome
  · exact outcome
  · obtain ⟨node, within, fails⟩ := outcome
    exact ⟨node, inside.trans within, fails⟩

end Outcome

theorem Follows.andThen {compute : Lower α} {next : α → Lower β} {hand : α → List Expr}
    {holds : β → State → Prop} (follows : Follows root context compute hand)
    (sound : Sound context state)
    (goesOn : ∀ answer after, Lowers root context state (hand answer) after →
      Sound context after → Outcome root context.source (next answer) after holds) :
    Outcome root context.source (compute >>= next) state holds :=
  (follows state sound).bind fun answer after lowered =>
    goesOn answer after lowered (lowered.sound sound)

theorem Follows.widen {compute : Lower α} {hand : α → List Expr} {inner : Node}
    (follows : Follows inner context compute hand) (inside : Node.Inside root inner) :
    Follows root context compute hand := fun state sound =>
  ((follows state sound).mono fun _ _ lowered => lowered.widen inside).widen inside

theorem Reads.andThen {compute : Lower α} {next : α → Lower β} {holds : β → State → Prop}
    (reads : Reads root context compute)
    (goesOn : ∀ answer, Outcome root context.source (next answer) state holds) :
    Outcome root context.source (compute >>= next) state holds :=
  (reads state).bind fun answer _ same => same ▸ goesOn answer

theorem mapM_outcome {step : α → Lower β} (hand : β → List Expr) (also : β → Program → Prop)
    (persists : ∀ result {before after : Program}, before.Extends after →
      also result before → also result after) (each : ∀ item ∈ items, ∀ state, Sound context state →
      Outcome root context.source (step item) state fun result after =>
        Lowers root context state (hand result) after ∧ also result after.program)
    (sound : Sound context state) :
    Outcome root context.source (items.mapM step) state fun results after =>
      Lowers root context state (results.flatMap hand) after ∧
        ∀ result ∈ results, also result after.program := by
  induction items generalizing state with
  | nil => exact .pure ⟨.done, nofun⟩
  | cons first rest inductionHypothesis =>
    rw [List.mapM_cons]
    refine (each first List.mem_cons_self state sound).bind fun result middle ⟨lowered, known⟩ => ?_
    refine (inductionHypothesis (fun item member => each item (List.mem_cons_of_mem _ member))
      (lowered.sound sound)).bind fun results after ⟨loweredRest, knownRest⟩ => ?_
    refine .pure ⟨.seq lowered loweredRest, fun other member => ?_⟩
    rcases List.mem_cons.mp member with rfl | later
    · exact persists _ loweredRest.extends known
    · exact knownRest other later

theorem mapM_follows {step : α → Lower β} {hand : β → List Expr}
    (each : ∀ item ∈ items, Follows root context (step item) hand) :
    Follows root context (items.mapM step) fun results => results.flatMap hand := fun _ sound =>
  (mapM_outcome hand (fun _ _ => True) (fun _ _ _ _ known => known)
    (fun item member state sound => (each item member state sound).mono
      fun _ _ lowered => ⟨lowered, trivial⟩) sound).mono fun _ _ => And.left

theorem mapM_exprs {step : α → Lower Expr}
    (each : ∀ item ∈ items, Follows root context (step item) ([·])) :
    Follows root context (items.mapM step) id := by
  have follows := mapM_follows each
  simp only [List.flatMap_singleton'] at follows
  exact follows

theorem forM_outcome {step : α → Lower Unit} {given : Program → Prop}
    (persists : ∀ {before after : Program}, before.Extends after → given before → given after)
    (each : ∀ item ∈ items, ∀ state, Sound context state → given state.program →
      Outcome root context.source (step item) state fun _ after =>
        Lowers root context state [] after) (sound : Sound context state)
    (holds : given state.program) :
    Outcome root context.source (items.forM step) state fun _ after =>
      Lowers root context state [] after := by
  induction items generalizing state with
  | nil => exact .pure .done
  | cons first rest inductionHypothesis =>
    refine (each first List.mem_cons_self state sound holds).bind fun _ middle lowered => ?_
    refine (inductionHypothesis (fun item member => each item (List.mem_cons_of_mem _ member))
      (lowered.sound sound) (persists lowered.extends holds)).mono fun _ _ loweredRest => ?_
    exact .seq lowered loweredRest

theorem forM_follows {step : α → Lower Unit}
    (each : ∀ item ∈ items, Follows root context (step item) fun _ => []) :
    Follows root context (items.forM step) fun _ => [] := fun _ sound =>
  forM_outcome (fun _ (known : True) => known)
    (fun item member state sound _ => each item member state sound) sound trivial

theorem optional_outcome (part : Option Node) {step : Node → Lower Unit}
    (each : ∀ item ∈ part, Follows root context (step item) fun _ => [])
    (lowered : Lowers root context before [] state) (sound : Sound context state) :
    Outcome root context.source (match part with
      | some item => step item
      | none => return ()) state fun _ after => Lowers root context before [] after := by
  cases part with
  | none => exact .pure lowered
  | some item =>
    exact (each item rfl state sound).mono fun _ _ loweredPart => lowered.seq loweredPart

/-! ### Elementary operations -/

theorem text_reads (inside : Node.Inside root node) : Reads root context (text context node) :=
  fun _ => .lift (fun _ _ => rfl) fun _ fails => ⟨node, inside, fails⟩

theorem text?_reads {node : Option Node} (inside : ∀ inner ∈ node, Node.Inside root inner) :
    Reads root context (text? context node) := by
  intro state
  cases node with
  | none => exact .pure rfl
  | some node => exact (text_reads (inside node rfl)).andThen fun _ => .pure rfl

theorem propertyKey_reads (inside : Node.Inside root node) :
    Reads root context (propertyKey context node) := by
  intro state
  unfold propertyKey
  split
  · exact (text_reads inside).andThen fun _ => .pure rfl
  · exact (text_reads inside).andThen fun _ => .pure rfl
  · exact .pure rfl

theorem propertyKey?_reads {node : Option Node} (inside : ∀ inner ∈ node, Node.Inside root inner) :
    Reads root context (propertyKey? context node) := by
  cases node with
  | none => exact fun _ => .pure rfl
  | some node => exact propertyKey_reads (inside node rfl)

theorem fresh_outcome {parts : List Expr} {build : NodeId → Expr}
    (lowered : Lowers root context before parts state)
    (builds : Builds context state.program state.program.nextNode parts
      (build state.program.nextNode)) :
    Outcome root source (fresh build) state fun expr after =>
      Lowers root context before [expr] after :=
  Lowers.build lowered builds

theorem fresh_andThen {build : NodeId → Expr} {next : Expr → Lower β} {holds : β → State → Prop}
    (goesOn : Outcome root source (next (build state.program.nextNode)) state.numbered holds) :
    Outcome root source (fresh build >>= next) state holds := goesOn

theorem inert_outcome {parts : List Expr} (lowered : Lowers root context before parts state) :
    Outcome root source (inert parts) state fun expr after =>
      Lowers root context before [expr] after :=
  fresh_outcome lowered .inert

theorem emit_outcome {exprs : List Expr} {stmt : Stmt}
    (lowered : Lowers root context before exprs state)
    (emits : Emits context state.program exprs stmt) :
    Outcome root source (emit stmt) state fun _ after => Lowers root context before [] after :=
  Lowers.emit lowered emits

theorem emit_andThen {stmt : Stmt} {next : Unit → Lower β} {holds : β → State → Prop}
    (goesOn : Outcome root source (next ()) (state.withStmt stmt) holds) :
    Outcome root source (emit stmt >>= next) state holds := goesOn

theorem effect_outcome {value : Expr} (lowered : Lowers root context before [value] state) :
    Outcome root source (effect value) state fun _ after => Lowers root context before [] after :=
  emit_outcome lowered .expr

theorem reference_follows (inside : Node.Inside root node) :
    Follows root context (reference context node) ([·]) := fun _ _ =>
  (text_reads inside).andThen fun _ => fresh_outcome .done .ident

theorem propertyRead_follows (key : String) : Follows root context (propertyRead key) ([·]) := by
  intro state sound
  exact (inert_outcome .done).bind fun _ _ lowered => fresh_outcome lowered .member

theorem exportProperty_outcome {key : String} {value : Expr}
    (lowered : Lowers root context before [value] state) :
    Outcome root source (exportProperty key value) state fun _ after =>
      Lowers root context before [] after :=
  Outcome.bind (fresh_outcome lowered (.object [.mk (some key) value]))
    fun _ _ lowered => effect_outcome lowered

theorem declare_runs {scope : ScopeId} (kind : DeclKind) (sound : Sound context state)
    (inside : Node.Inside root node) (inSight : state.program.LeavesBlocks context.scope scope) :
    Outcome root context.source (declare context scope node kind) state fun decl after =>
      ∃ name program, node.Spells context.source name ∧
        state.program.declare scope name kind context.file (spanOf context node) =
          .ok (decl, program) ∧ after = { state with program } := by
  have named : Outcome root context.source (text context node) state fun name after =>
      node.Spells context.source name ∧ after = state :=
    .lift (fun _ spells => ⟨spells, rfl⟩) fun _ fails => ⟨node, inside, fails⟩
  refine named.bind ?_
  rintro name _ ⟨spells, rfl⟩
  refine Outcome.get.bind ?_
  rintro _ _ ⟨rfl, rfl⟩
  have below := sound.program.climbs_lt inSight sound.context.scope
  obtain ⟨decl, after, declared⟩ :=
    Program.declare_ok below name kind context.file (spanOf context node)
  rw [declared]
  exact ⟨name, after, spells, declared, rfl⟩

theorem declare_outcome {scope : ScopeId} (kind : DeclKind) (sound : Sound context state)
    (inside : Node.Inside root node) (inSight : state.program.LeavesBlocks context.scope scope)
    (admits : context.Admits kind) :
    Outcome root context.source (declare context scope node kind) state fun decl after =>
      Lowers root context state [] after ∧ after.program.Declares context.scope decl := by
  refine (declare_runs kind sound inside inSight).mono ?_
  rintro decl _ ⟨name, after, spells, declared, rfl⟩
  exact ⟨.declare inside inSight admits spells declared,
    Program.declares_of_declare declared inSight⟩

theorem readInto_outcome {decl : DeclId} {key : String}
    (lowered : Lowers root context before [] state) (sound : Sound context state)
    (inSight : state.program.Declares context.scope decl) :
    Outcome root context.source (readInto decl key) state fun _ after =>
      Lowers root context before [] after := by
  refine (propertyRead_follows key).andThen sound fun value _ loweredValue _ => ?_
  exact emit_outcome (lowered.seq loweredValue)
    (.declare (some value) (loweredValue.extends.declares inSight))

theorem hoistingScope_outcome (sound : Sound context state) :
    Outcome root context.source (hoistingScope context) state fun scope after =>
      after = state ∧ state.program.LeavesBlocks context.scope scope := by
  refine Outcome.get.bind ?_
  rintro _ _ ⟨rfl, rfl⟩
  obtain ⟨outer, hoisted, leaves⟩ := sound.parents.hoistingScope_ok sound.context.scope
  rw [hoisted]
  exact ⟨rfl, leaves⟩

theorem block_follows {compute : Context → Lower Unit}
    (follows : ∀ inner, Follows root inner (compute inner) fun _ => []) :
    Follows root context (enterBlock context >>= compute) fun _ => [] := by
  intro state sound
  have entered : Outcome root context.source (enterBlock context) state fun inner after =>
      inner = context.inBlock state ∧ after = state.withBlock context.scope := ⟨rfl, rfl⟩
  refine entered.bind ?_
  rintro _ _ ⟨rfl, rfl⟩
  exact (follows (context.inBlock state) _ sound.inBlock).mono fun _ _ lowered => .block lowered

/-! ### Rules -/

/-- Every rule leads along derivations. -/
structure Rules.Faithful (rules : Rules) : Prop where
  statement : ∀ context node, Follows node context (rules.statement context node) fun _ => []
  expression : ∀ context node hint,
    Follows node context (rules.expression context node hint) ([·])
  pattern : ∀ context node scope kind key state, Sound context state →
    state.program.LeavesBlocks context.scope scope → context.Admits kind →
    Outcome node context.source (rules.pattern context node scope kind key) state fun _ after =>
      Lowers node context state [] after
  imports : ∀ context node, Follows node context (rules.imports context node) fun _ => []

section

variable {inner : Rules} (faithful : inner.Faithful)
include faithful

namespace Rules.Faithful

variable {hint : Option String}

theorem expressionIn (inside : Node.Inside root node) :
    Follows root context (inner.expression context node hint) ([·]) :=
  (faithful.expression context node hint).widen inside

theorem statementIn (inside : Node.Inside root node) :
    Follows root context (inner.statement context node) fun _ => [] :=
  (faithful.statement context node).widen inside

theorem patternIn {scope : ScopeId} (kind : DeclKind) {key : Option String}
    (inside : Node.Inside root node) (sound : Sound context state)
    (inSight : state.program.LeavesBlocks context.scope scope) (admits : context.Admits kind) :
    Outcome root context.source (inner.pattern context node scope kind key) state fun _ after =>
      Lowers root context state [] after :=
  ((faithful.pattern context node scope kind key state sound inSight admits).mono
    fun _ _ lowered => lowered.widen inside).widen inside

theorem statements (inside : Node.Inside root node) :
    Follows root context (inner.statements context node) fun _ => [] :=
  forM_follows fun _ member => faithful.statementIn (inside.part member)

theorem effects (inside : Node.Inside root node) :
    Follows root context (inner.effects context node) fun _ => [] := fun _ sound =>
  (faithful.expressionIn inside).andThen sound fun _ _ lowered _ => effect_outcome lowered

theorem expression? {node : Option Node} (inside : ∀ child ∈ node, Node.Inside root child) :
    Follows root context (inner.expression? context node hint) ([·]) := by
  cases node with
  | none => exact fun _ _ => inert_outcome .done
  | some node => exact faithful.expressionIn (inside node rfl)

theorem expressions {nodes : List Node} (inside : ∀ child ∈ nodes, Node.Inside root child) :
    Follows root context (nodes.mapM fun child => inner.expression context child hint) id :=
  mapM_exprs fun child member => faithful.expressionIn (inside child member)

theorem inertParts (inside : Node.Inside root node) :
    Follows root context (inner.inertParts context node) ([·]) := fun _ sound =>
  (faithful.expressions fun _ member => inside.part member).andThen sound
    fun _ _ lowered _ => inert_outcome lowered

end Rules.Faithful

end

end FunctionFlow.Lowering
