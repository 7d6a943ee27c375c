import FunctionFlow.Proofs.Lowering.Derivation

/-!
Contract: lowering keeps every id in range.
-/

namespace FunctionFlow

def Program.Unwritten (program : Program) : Prop :=
  ∀ decl ∈ program.decls, decl.functionValue = none

namespace Lowering

variable {exprs : List Expr}

structure Context.InRange (sizes : TableSizes) (context : Context) : Prop where
  file : context.file < sizes.files
  scope : context.scope < sizes.scopes
  function : ∀ function ∈ context.function, function < sizes.functions
  receiver : ∀ function ∈ context.receiver, function < sizes.functions

theorem Context.InRange.mono {small large : TableSizes} (grow : small ≤ large) {context : Context}
    (inRange : context.InRange small) : context.InRange large where
  file := Nat.lt_of_lt_of_le inRange.file grow.files
  scope := Nat.lt_of_lt_of_le inRange.scope grow.scopes
  function function isFunction :=
    Nat.lt_of_lt_of_le (inRange.function function isFunction) grow.functions
  receiver function isReceiver :=
    Nat.lt_of_lt_of_le (inRange.receiver function isReceiver) grow.functions

/-- All ids are in range, scopes come after the scopes around them, and no declaration has a function
value. -/
structure Sound (context : Context) (state : State) : Prop where
  program : state.program.InRange
  body : ∀ stmt ∈ state.body, stmt.InRange state.program.sizes
  context : context.InRange state.program.sizes
  unwritten : state.program.Unwritten
  parents : state.program.ParentsFirst

variable {context : Context} {state : State}

/-! ### Expressions and statements -/

theorem Builds.inRange {program : Program} {node : NodeId} {parts : List Expr} {expr : Expr}
    (builds : Builds context program node parts expr) (inRange : context.InRange program.sizes)
    (partsInRange : ∀ part ∈ parts, part.InRange program.sizes) : expr.InRange program.sizes := by
  cases builds with
  | function known => exact Expr.inRange_function.mpr known
  | ident => exact Expr.inRange_ident.mpr ⟨inRange.scope, trivial⟩
  | this => exact Expr.inRange_this.mpr inRange.receiver
  | member => exact Expr.inRange_member.mpr (partsInRange _ List.mem_cons_self)
  | assign =>
    obtain ⟨valueInRange, targetInRange⟩ := List.forall_mem_cons.mp partsInRange
    exact Expr.inRange_assign.mpr ⟨targetInRange _ List.mem_cons_self, valueInRange⟩
  | select => exact Expr.inRange_select.mpr (List.forall_mem_append.mp partsInRange)
  | object =>
    exact Expr.inRange_object.mpr fun key value isEntry =>
      partsInRange value (List.mem_map.mpr ⟨_, isEntry, rfl⟩)
  | inert => exact Expr.inRange_inert.mpr partsInRange

theorem Emits.inRange {program : Program} {stmt : Stmt} (emits : Emits context program exprs stmt)
    (inRange : program.InRange) (exprsInRange : ∀ expr ∈ exprs, expr.InRange program.sizes) :
    stmt.InRange program.sizes := by
  cases emits with
  | expr => exact exprsInRange _ List.mem_cons_self
  | declare _ inSight =>
    exact ⟨inRange.declares_lt inSight,
      fun value isInitial => exprsInRange value (Option.mem_toList.mpr isInitial)⟩
  | result => exact fun value isReturned => exprsInRange value (Option.mem_toList.mpr isReturned)

/-! ### Steps -/

namespace Sound

variable (sound : Sound context state)
include sound

theorem numbered : Sound context state.numbered :=
  ⟨⟨sound.program.functions, sound.program.calls, sound.program.decls, sound.program.scopes,
    sound.program.modules⟩, sound.body, sound.context, sound.unwritten, sound.parents⟩

theorem withStmt {stmt : Stmt} (inRange : stmt.InRange state.program.sizes) :
    Sound context (state.withStmt stmt) := by
  refine ⟨sound.program, fun other member => ?_, sound.context, sound.unwritten, sound.parents⟩
  rcases List.mem_append.mp member with old | new
  · exact sound.body other old
  · cases List.mem_singleton.mp new
    exact inRange

theorem declare {scope : ScopeId} {name : String} {kind : DeclKind} {span : Span} {decl : DeclId}
    {after : Program} (admits : context.Admits kind)
    (declared : state.program.declare scope name kind context.file span = .ok (decl, after)) :
    Sound context { state with program := after } := by
  have grow := (Program.Extends.declare declared).sizes
  have parents := sound.parents.declare declared
  obtain ⟨entry, isEntry, ⟨_, rfl⟩ | ⟨_, added⟩⟩ := Program.declare_cases declared
  · exact sound
  have scopeBelow : scope < state.program.scopes.size := Table.below isEntry
  have entryInRange := (sound.program.scopes entry (Array.mem_of_getElem? isEntry)).mono grow
  have kindInRange : kind.InRange state.program.sizes := by
    cases kind with
    | parameter function _ => exact sound.context.function function admits
    | _ => trivial
  cases added
  refine ⟨sound.program.grow grow (fun _ => .inl) (fun _ => .inl) ?_ ?_ (fun _ => .inl),
    fun stmt member => (sound.body stmt member).mono grow, sound.context.mono grow, ?_, parents⟩
  · intro other member
    refine (Array.mem_push.mp member).imp_right ?_
    rintro rfl
    exact ⟨by simp [Program.sizes], kindInRange.mono grow, Nat.lt_of_lt_of_le scopeBelow grow.scopes,
      Nat.lt_of_lt_of_le sound.context.file grow.files, nofun⟩
  · intro other member
    refine (Array.mem_or_eq_of_mem_setIfInBounds member).imp_right ?_
    rintro rfl
    refine ⟨entryInRange.id, entryInRange.parent, fun named isNamed => ?_⟩
    rcases NameTable.mem_insert isNamed with rfl | old
    · simp [Program.sizes]
    · exact entryInRange.names named old
  · intro other member
    rcases Array.mem_push.mp member with old | rfl
    · exact sound.unwritten other old
    · rfl

theorem inBlock : Sound (context.inBlock state) (state.withBlock context.scope) := by
  have grow := (state.extends_withBlock context.scope).sizes
  have inside : ∀ outer ∈ some context.scope, outer < state.program.scopes.size := by
    rintro _ ⟨⟩
    exact sound.context.scope
  refine ⟨sound.program.grow grow (fun _ => .inl) (fun _ => .inl) (fun _ => .inl) ?_
      (fun _ => .inl),
    fun stmt member => (sound.body stmt member).mono grow, ?_, sound.unwritten,
    sound.parents.addScope .block inside⟩
  · intro scope member
    refine (Array.mem_push.mp member).imp_right ?_
    rintro rfl
    exact ⟨by simp [State.withBlock, Program.addScope, Program.sizes],
      fun outer isOuter => Nat.lt_of_lt_of_le (inside outer isOuter) grow.scopes, nofun⟩
  · have inRange := sound.context.mono grow
    exact ⟨inRange.file,
      by simp [Context.inBlock, State.withBlock, Program.addScope, Program.sizes],
      inRange.function, inRange.receiver⟩

theorem withCall (node : Node) (isNew : Bool) :
    Sound context (state.withCall (context.callAt state node isNew)) := by
  have grow := (state.extends_withCall (context.callAt state node isNew)).sizes
  have inRange := sound.context.mono grow
  refine ⟨sound.program.grow grow (fun _ => .inl) ?_ (fun _ => .inl) (fun _ => .inl)
      (fun _ => .inl),
    fun stmt member => (sound.body stmt member).mono grow, inRange, sound.unwritten, sound.parents⟩
  intro site member
  refine (Array.mem_push.mp member).imp_right ?_
  rintro rfl
  exact ⟨by simp [State.withCall, Context.callAt, Program.sizes], inRange.file, inRange.function⟩

theorem setCall {id : CallId} {site old : CallSite} (inRange : site.InRange state.program.sizes)
    (found : state.program.calls[id]? = some old) (same : site.heading = old.heading) :
    Sound context (state.setCall id site) := by
  have grow := (State.extends_setCall found same).sizes
  refine ⟨sound.program.grow grow (fun _ => .inl) ?_ (fun _ => .inl) (fun _ => .inl)
      (fun _ => .inl),
    fun stmt member => (sound.body stmt member).mono grow, sound.context.mono grow,
    sound.unwritten, sound.parents⟩
  intro other member
  refine (Array.mem_or_eq_of_mem_setIfInBounds member).imp_right ?_
  rintro rfl
  exact inRange.mono grow

theorem inFunction (node : Node) (name : Option String) (isArrow : Bool) :
    Sound (context.inFunction state isArrow)
      (state.withFunction context.scope (context.functionAt state node name isArrow)) := by
  have extended : state.program.Extends (state.withFunction context.scope
    (context.functionAt state node name isArrow)).program := state.extends_withFunction _ rfl
  have grow := extended.sizes
  have inRange := sound.context.mono grow
  have newScope : state.program.scopes.size < (state.withFunction context.scope
      (context.functionAt state node name isArrow)).program.sizes.scopes := by
    simp [State.withFunction, Program.addScope, Program.sizes]
  have newFunction : state.program.functions.size <
      (state.withFunction context.scope
        (context.functionAt state node name isArrow)).program.sizes.functions := by
    simp [State.withFunction, Program.sizes]
  have inside : ∀ outer ∈ some context.scope, outer < state.program.scopes.size := by
    rintro _ ⟨⟩
    exact sound.context.scope
  refine ⟨sound.program.grow grow ?_ (fun _ => .inl) (fun _ => .inl) ?_ (fun _ => .inl),
    List.forall_mem_nil _, ?_, sound.unwritten, sound.parents.addScope .function inside⟩
  · intro function member
    refine (Array.mem_push.mp member).imp_right ?_
    rintro rfl
    exact ⟨newFunction, inRange.file, inRange.function, List.forall_mem_nil _, newScope,
      List.forall_mem_nil _⟩
  · intro scope member
    refine (Array.mem_push.mp member).imp_right ?_
    rintro rfl
    exact ⟨newScope, fun outer isOuter => Nat.lt_of_lt_of_le (inside outer isOuter) grow.scopes,
      List.forall_mem_nil _⟩
  · refine ⟨inRange.file, newScope, ?_, ?_⟩
    · rintro _ ⟨⟩
      exact newFunction
    · intro function isReceiver
      cases isArrow with
      | true => exact inRange.receiver function isReceiver
      | false =>
        cases isReceiver
        exact newFunction

theorem setFunction {inner : Context} {after : State} (soundAfter : Sound inner after)
    (grow : state.program.sizes ≤ after.program.sizes) {id : FunctionId}
    {definition old : FunctionDef} (found : after.program.functions[id]? = some old)
    (same : definition.heading = old.heading) (inRange : definition.InRange after.program.sizes) :
    Sound context (after.setFunction id definition state.body) := by
  have closes : after.program.Extends (after.setFunction id definition state.body).program :=
    State.extends_setFunction found same
  have growClosed := closes.sizes
  have growAll := TableSizes.le_trans grow growClosed
  refine ⟨soundAfter.program.grow growClosed ?_ (fun _ => .inl) (fun _ => .inl) (fun _ => .inl)
    (fun _ => .inl), fun stmt member => (sound.body stmt member).mono growAll,
    sound.context.mono growAll, soundAfter.unwritten, soundAfter.parents⟩
  intro other member
  refine (Array.mem_or_eq_of_mem_setIfInBounds member).imp_right ?_
  rintro rfl
  exact inRange.mono growClosed

end Sound

/-! ### Derivations -/

theorem Lowers.sound_and_inRange {root : Node} {before after : State}
    (lowered : Lowers root context before exprs after) (sound : Sound context before) :
    Sound context after ∧ ∀ expr ∈ exprs, expr.InRange after.program.sizes := by
  induction lowered with
  | done => exact ⟨sound, List.forall_mem_nil _⟩
  | seq _ second firstHypothesis secondHypothesis =>
    obtain ⟨soundMiddle, leftInRange⟩ := firstHypothesis sound
    obtain ⟨soundAfter, rightInRange⟩ := secondHypothesis soundMiddle
    refine ⟨soundAfter, fun expr member => ?_⟩
    rcases List.mem_append.mp member with inLeft | inRight
    · exact (leftInRange expr inLeft).mono second.extends.sizes
    · exact rightInRange expr inRight
  | build _ builds inductionHypothesis =>
    obtain ⟨soundAfter, partsInRange⟩ := inductionHypothesis sound
    refine ⟨soundAfter.numbered, fun expr member => ?_⟩
    cases List.mem_singleton.mp member
    exact builds.inRange soundAfter.context partsInRange
  | skip => exact ⟨sound.numbered, List.forall_mem_nil _⟩
  | emit _ emits inductionHypothesis =>
    obtain ⟨soundAfter, exprsInRange⟩ := inductionHypothesis sound
    exact ⟨soundAfter.withStmt (emits.inRange soundAfter.program exprsInRange),
      List.forall_mem_nil _⟩
  | declare _ _ admits _ declared =>
    exact ⟨sound.declare admits declared, List.forall_mem_nil _⟩
  | block lowered inductionHypothesis =>
    obtain ⟨soundAfter, _⟩ := inductionHypothesis sound.inBlock
    have grow := ((State.extends_withBlock _).trans lowered.extends).sizes
    exact ⟨⟨soundAfter.program, soundAfter.body, sound.context.mono grow, soundAfter.unwritten,
      soundAfter.parents⟩, List.forall_mem_nil _⟩
  | @call _ node context before after isNew site callee arguments _ lowered found
      inductionHypothesis =>
    obtain ⟨soundAfter, partsInRange⟩ := inductionHypothesis (sound.withCall node isNew)
    have siteInRange := soundAfter.program.calls site (Array.mem_of_getElem? found)
    have known : before.program.calls.size < after.program.calls.size := Table.below found
    have closedInRange : CallSite.InRange after.program.sizes
        { site with arity := arguments.length, hasReceiver := !isNew && callee.isMember } :=
      ⟨siteInRange.id, siteInRange.file, siteInRange.enclosing⟩
    refine ⟨(soundAfter.setCall closedInRange found rfl).numbered, fun expr member => ?_⟩
    cases List.mem_singleton.mp member
    have callInRange : Expr.InRange after.program.sizes
        (.call after.program.nextNode before.program.calls.size callee arguments) :=
      Expr.inRange_call.mpr ⟨known, List.forall_mem_cons.mp partsInRange⟩
    refine Expr.InRange.mono (Program.Extends.sizes (.trans ?_ State.extends_numbered)) callInRange
    exact State.extends_setCall found rfl
  | @function _ node _ _ _ name isArrow definition params _ lowered found parameters
      inductionHypothesis =>
    obtain ⟨soundAfter, _⟩ := inductionHypothesis (sound.inFunction node name isArrow)
    have grow := ((State.extends_withFunction _ rfl).trans lowered.extends).sizes
    have inRange := soundAfter.program.functions definition (Array.mem_of_getElem? found)
    have closedInRange : FunctionDef.InRange _ { definition with params, body := _ } :=
      ⟨inRange.id, inRange.file, inRange.enclosing,
        fun param isParam decl isDecl =>
          soundAfter.program.declares_lt (parameters.declares param isParam decl isDecl),
        inRange.scope, soundAfter.body⟩
    exact ⟨sound.setFunction soundAfter grow found rfl closedInRange, List.forall_mem_nil _⟩

theorem Lowers.sound {root : Node} {before after : State}
    (lowered : Lowers root context before exprs after) (sound : Sound context before) :
    Sound context after :=
  (lowered.sound_and_inRange sound).1

end Lowering

end FunctionFlow
