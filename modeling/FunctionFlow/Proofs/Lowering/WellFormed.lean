import FunctionFlow.Proofs.Lowering.Sources
import FunctionFlow.Proofs.Program.WellFormed

/-!
Contract: lowering keeps programs well formed.
-/

namespace FunctionFlow

/-! ### Own ids -/

namespace Table.OwnIds

variable {α : Type} {idOf : α → Nat} {entries : Array α}

theorem empty : Table.OwnIds idOf #[] := by simp [Table.OwnIds]

theorem push (ownIds : Table.OwnIds idOf entries) {last : α} (isNext : idOf last = entries.size) :
    Table.OwnIds idOf (entries.push last) := by
  intro position entry found
  rcases Table.push_cases found with old | ⟨rfl, rfl⟩
  · exact ownIds position entry old
  · exact isNext

theorem set (ownIds : Table.OwnIds idOf entries) {changed : Nat} {old new : α}
    (found : entries[changed]? = some old) (same : idOf new = idOf old) :
    Table.OwnIds idOf (entries.setIfInBounds changed new) := by
  intro position entry isEntry
  rcases Table.set_cases isEntry with ⟨rfl, rfl⟩ | ⟨_, unchanged⟩
  · exact same.trans (ownIds position old found)
  · exact ownIds position entry unchanged

end Table.OwnIds

namespace Program.OwnIds

variable {program after : Program} (ownIds : program.OwnIds)
include ownIds

theorem addScope (kind : ScopeKind) (parent : Option ScopeId) :
    (program.addScope kind parent).2.OwnIds :=
  ⟨ownIds.functions, ownIds.calls, ownIds.decls, ownIds.scopes.push rfl⟩

theorem declare {scope : ScopeId} {name : String} {kind : DeclKind} {file : FileId} {span : Span}
    {decl : DeclId} (declared : program.declare scope name kind file span = .ok (decl, after)) :
    after.OwnIds := by
  obtain ⟨entry, isEntry, ⟨_, rfl⟩ | ⟨_, added⟩⟩ := declare_cases declared
  · exact ownIds
  cases added
  exact ⟨ownIds.functions, ownIds.calls, ownIds.decls.push rfl, ownIds.scopes.set isEntry rfl⟩

theorem bindsTo (binds : program.BindsTo after) : after.OwnIds where
  functions position definition found := by
    obtain ⟨old, isOld, rfl⟩ := binds.function_cases found
    exact ownIds.functions position old isOld
  calls := binds.calls ▸ ownIds.calls
  decls position decl found := by
    obtain ⟨old, isOld, same⟩ := binds.decls found
    exact (congrArg Declaration.id same :).trans (ownIds.decls position old isOld)
  scopes := binds.scopes ▸ ownIds.scopes

end Program.OwnIds

/-! ### Names and declarations -/

namespace Program.NamesMatch

variable {program after : Program} (matched : program.NamesMatch)
include matched

theorem congr (sameScopes : after.scopes = program.scopes) (sameDecls : after.decls = program.decls) :
    after.NamesMatch := by
  intro scope name id
  rw [sameScopes, sameDecls]
  exact matched scope name id

theorem push {entry : Scope} (isEmpty : entry.names = .empty)
    (sameScopes : after.scopes = program.scopes.push entry)
    (sameDecls : after.decls = program.decls) : after.NamesMatch := by
  intro scope name id
  rw [sameScopes, sameDecls, ← matched scope name id]
  constructor
  · rintro ⟨found, isFound, known⟩
    rcases Table.push_cases isFound with old | ⟨_, rfl⟩
    · exact ⟨found, old, known⟩
    · rw [isEmpty] at known
      cases known
  · rintro ⟨found, isFound, known⟩
    exact ⟨found, Table.push_kept isFound, known⟩

theorem declare {scope : ScopeId} {name : String} {kind : DeclKind} {file : FileId} {span : Span}
    {decl : DeclId} (declared : program.declare scope name kind file span = .ok (decl, after)) :
    after.NamesMatch := by
  obtain ⟨entry, isEntry, ⟨_, rfl⟩ | ⟨isNew, added⟩⟩ := declare_cases declared
  · exact matched
  have below : scope < program.scopes.size := Table.below isEntry
  cases added
  intro other spelled id
  constructor
  · rintro ⟨found, isFound, known⟩
    have isOld {found : Scope} {last : Declaration} (isFound : program.scopes[other]? = some found)
        (known : found.names.find? spelled = some id) : ∃ decl,
          (program.decls.push last)[id]? = some decl ∧ decl.name = spelled ∧ decl.scope = other := by
      obtain ⟨decl, isDecl, same⟩ := (matched other spelled id).mp ⟨found, isFound, known⟩
      exact ⟨decl, Table.push_kept isDecl, same⟩
    rcases Table.set_cases isFound with ⟨rfl, rfl⟩ | ⟨_, old⟩
    · rw [NameTable.find?_insert] at known
      by_cases same : spelled = name
      · rw [if_pos same] at known
        cases known
        exact ⟨_, Array.getElem?_push_size, same.symm, rfl⟩
      · rw [if_neg same] at known
        exact isOld isEntry known
    · exact isOld old known
  · rintro ⟨found, isFound, rfl, rfl⟩
    rcases Table.push_cases isFound with old | ⟨rfl, rfl⟩
    · obtain ⟨older, isOlder, known⟩ := (matched _ _ id).mpr ⟨found, old, rfl, rfl⟩
      by_cases same : scope = found.scope
      · subst same
        cases isEntry.symm.trans isOlder
        refine ⟨_, Array.getElem?_setIfInBounds_self_of_lt below, ?_⟩
        have apart : found.name ≠ name := by
          rintro rfl
          cases isNew.symm.trans known
        rw [NameTable.find?_insert, if_neg apart]
        exact known
      · exact ⟨older, (Array.getElem?_setIfInBounds_ne same).trans isOlder, known⟩
    · refine ⟨_, Array.getElem?_setIfInBounds_self_of_lt below, ?_⟩
      rw [NameTable.find?_insert, if_pos rfl]

end Program.NamesMatch

/-- Whatever stays rooted keeps its tops; new scopes and new functions have to be accounted for. -/
theorem Program.Rooted.keep {before after : Program} {tops : List ScopeId}
    (rooted : before.Rooted tops) (extended : before.Extends after)
    (scopes : ∀ {scope : ScopeId}, scope < after.scopes.size → scope < before.scopes.size ∨
      ∃ file top, MadeFor tops scope file ∧ tops[file]? = some top ∧ after.Surrounds top scope)
    (functions : ∀ {id : FunctionId} {definition : FunctionDef},
      after.functions[id]? = some definition →
      (∃ old, before.functions[id]? = some old ∧ old.heading = definition.heading) ∨
        MadeFor tops definition.scope definition.file ∧
          ∀ outer, definition.enclosing = some outer → outer < id ∧
            ∃ around, after.functions[outer]? = some around ∧ around.file = definition.file) :
    after.Rooted tops where
  ownScopes isTop := by
    obtain ⟨entry, isEntry, kind, parent⟩ := rooted.ownScopes isTop
    obtain ⟨later, isLater, sameKind, sameParent, _⟩ := extended.scopes isEntry
    exact ⟨later, isLater, sameKind.trans kind, sameParent.trans parent⟩
  scopes below := by
    rcases scopes below with old | new
    · obtain ⟨file, top, made, isTop, surrounds⟩ := rooted.scopes old
      exact ⟨file, top, made, isTop, extended.surrounds surrounds⟩
    · exact new
  functions {id definition} found := by
    rcases functions found with ⟨old, isOld, same⟩ | ⟨made, _⟩
    · have sameScope : old.scope = definition.scope := (congrArg FunctionDef.scope same :)
      have sameFile : old.file = definition.file := (congrArg FunctionDef.file same :)
      rw [← sameScope, ← sameFile]
      exact rooted.functions isOld
    · exact made
  enclosing {id outer definition} found isOuter := by
    rcases functions found with ⟨old, isOld, same⟩ | ⟨_, enclosing⟩
    · have sameFile : old.file = definition.file := (congrArg FunctionDef.file same :)
      have sameEnclosing : old.enclosing = definition.enclosing :=
        (congrArg FunctionDef.enclosing same :)
      obtain ⟨below, around, isAround, aroundFile⟩ :=
        rooted.enclosing isOld (sameEnclosing.trans isOuter)
      obtain ⟨later, isLater, sameAround⟩ := extended.functions _ _ isAround
      have sameAroundFile : later.file = around.file := (congrArg FunctionDef.file sameAround :)
      exact ⟨below, later, isLater, sameAroundFile.trans (aroundFile.trans sameFile)⟩
    · exact enclosing outer isOuter

theorem Program.BodyAt.congr {before after : Program} {home : Home} {body : List Stmt}
    (isBody : before.BodyAt home body) (sameModules : before.modules = after.modules)
    (sameFunctions : before.functions = after.functions) : after.BodyAt home body := by
  cases isBody with
  | top member => exact .top (sameModules ▸ member)
  | function found => exact .function (sameFunctions ▸ found)

theorem Program.Placed.keep {before after : Program} (placed : before.Placed)
    (extended : before.Extends after)
    (bodies : ∀ {home : Home} {body : List Stmt}, after.BodyAt home body →
      before.BodyAt home body ∨
        ∀ stmt ∈ body, ∀ expr ∈ stmt.exprs, expr.StandsIn after home) : after.Placed := by
  intro home body isBody stmt inBody expr inStmt
  rcases bodies isBody with old | new
  · exact extended.standsIn (placed home body old stmt inBody expr inStmt)
  · exact new stmt inBody expr inStmt

namespace Lowering

variable {root : Node} {context : Context} {before after state : State} {exprs : List Expr}

theorem Lowers.ownIds (lowered : Lowers root context before exprs after)
    (ownIds : before.program.OwnIds) : after.program.OwnIds := by
  induction lowered with
  | done => exact ownIds
  | seq _ _ first second => exact second (first ownIds)
  | build _ _ inductionHypothesis =>
    obtain ⟨functions, calls, decls, scopes⟩ := inductionHypothesis ownIds
    exact ⟨functions, calls, decls, scopes⟩
  | skip => exact ⟨ownIds.functions, ownIds.calls, ownIds.decls, ownIds.scopes⟩
  | emit _ _ inductionHypothesis => exact inductionHypothesis ownIds
  | declare _ _ _ _ declared => exact ownIds.declare declared
  | block _ inductionHypothesis => exact inductionHypothesis (ownIds.addScope .block _)
  | call _ _ found inductionHypothesis =>
    obtain ⟨functions, calls, decls, scopes⟩ :=
      inductionHypothesis ⟨ownIds.functions, ownIds.calls.push rfl, ownIds.decls, ownIds.scopes⟩
    exact ⟨functions, calls.set found rfl, decls, scopes⟩
  | function _ _ found _ inductionHypothesis =>
    obtain ⟨functions, calls, decls, scopes⟩ := inductionHypothesis
      ⟨ownIds.functions.push rfl, ownIds.calls, ownIds.decls, ownIds.scopes.push rfl⟩
    exact ⟨functions.set found rfl, calls, decls, scopes⟩

theorem Lowers.namesMatch (lowered : Lowers root context before exprs after)
    (matched : before.program.NamesMatch) : after.program.NamesMatch := by
  induction lowered with
  | done => exact matched
  | seq _ _ first second => exact second (first matched)
  | build _ _ inductionHypothesis => exact (inductionHypothesis matched).congr rfl rfl
  | skip => exact matched.congr rfl rfl
  | emit _ _ inductionHypothesis => exact inductionHypothesis matched
  | declare _ _ _ _ declared => exact matched.declare declared
  | block _ inductionHypothesis => exact inductionHypothesis (matched.push rfl rfl rfl)
  | call _ _ _ inductionHypothesis =>
    exact (inductionHypothesis (matched.congr rfl rfl)).congr rfl rfl
  | function _ _ _ _ inductionHypothesis =>
    exact (inductionHypothesis (matched.push rfl rfl rfl)).congr rfl rfl

/-! ### One tree of scopes for each file -/

/-- Scopes form one tree for each file. The file being lowered is the last one, and the context
stands in it. -/
structure Rooted (tops : List ScopeId) (context : Context) (state : State) : Prop where
  program : state.program.Rooted tops
  last : tops.length = context.file + 1
  below : context.scope < state.program.scopes.size
  scope : Program.MadeFor tops context.scope context.file
  function : ∀ id, context.function = some id →
    ∃ definition, state.program.functions[id]? = some definition ∧ definition.file = context.file

namespace Rooted

variable {tops : List ScopeId} (rooted : Rooted tops context state)
include rooted

theorem madeFor_new : Program.MadeFor tops state.program.scopes.size context.file := by
  obtain ⟨top, isTop, fromTop, _⟩ := rooted.scope
  refine ⟨top, isTop, Nat.le_of_lt (Nat.lt_of_le_of_lt fromTop rooted.below), ?_⟩
  intro later next isLater isNext
  have inside : later < tops.length := (List.getElem?_eq_some_iff.mp isNext).1
  rw [rooted.last] at inside
  exact absurd isLater (Nat.not_lt_of_le (Nat.le_of_lt_succ inside))

theorem push {after : Program} {kind : ScopeKind} (extended : state.program.Extends after)
    (pushed : after.scopes = state.program.scopes.push
      { id := state.program.scopes.size, kind, parent := some context.scope, names := .empty })
    {scope : ScopeId} (below : scope < after.scopes.size) :
    scope < state.program.scopes.size ∨
      ∃ file top, Program.MadeFor tops scope file ∧ tops[file]? = some top ∧
        after.Surrounds top scope := by
  rw [pushed, Array.size_push] at below
  apply (Nat.lt_succ_iff_lt_or_eq.mp below).imp_right
  rintro rfl
  obtain ⟨top, isTop, _⟩ := rooted.scope
  have around := rooted.program.surrounds rooted.below rooted.scope isTop
  have found : after.scopes[state.program.scopes.size]? = some
      { id := state.program.scopes.size, kind, parent := some context.scope, names := .empty } := by
    rw [pushed]
    exact Array.getElem?_push_size
  exact ⟨context.file, top, rooted.madeFor_new, isTop,
    .leave found trivial rfl (extended.surrounds around)⟩

theorem of_extends {next : State} (extended : state.program.Extends next.program)
    (program : next.program.Rooted tops) : Rooted tops context next where
  program := program
  last := rooted.last
  below := by
    obtain ⟨_, isLater, _⟩ := extended.scopes (Array.getElem?_eq_getElem rooted.below)
    exact Table.below isLater
  scope := rooted.scope
  function id isFunction := by
    obtain ⟨definition, found, isFile⟩ := rooted.function id isFunction
    obtain ⟨later, isLater, same⟩ := extended.functions _ _ found
    exact ⟨later, isLater, (congrArg FunctionDef.file same).trans isFile⟩

theorem keep {next : State} (extended : state.program.Extends next.program)
    (sameSize : next.program.scopes.size = state.program.scopes.size)
    (sameFunctions : next.program.functions = state.program.functions) :
    Rooted tops context next := by
  apply rooted.of_extends extended
  apply rooted.program.keep extended
  · intro scope below
    rw [sameSize] at below
    exact .inl below
  · intro id definition found
    rw [sameFunctions] at found
    exact .inl ⟨definition, found, rfl⟩

theorem numbered : Rooted tops context state.numbered :=
  rooted.keep State.extends_numbered rfl rfl

theorem withCall (site : CallSite) : Rooted tops context (state.withCall site) :=
  rooted.keep (State.extends_withCall _) rfl rfl

theorem setCall {id : CallId} {site old : CallSite} (found : state.program.calls[id]? = some old)
    (same : site.heading = old.heading) : Rooted tops context (state.setCall id site) :=
  rooted.keep (State.extends_setCall found same) rfl rfl

theorem declare {scope : ScopeId} {name : String} {kind : DeclKind} {file : FileId} {span : Span}
    {decl : DeclId} {program : Program}
    (declared : state.program.declare scope name kind file span = .ok (decl, program)) :
    Rooted tops context { state with program } := by
  have extended := Program.Extends.declare declared
  obtain ⟨_, _, rfl, sameSize⟩ := Program.declare_frame declared
  exact rooted.keep extended sameSize rfl

theorem inBlock : Rooted tops (context.inBlock state) (state.withBlock context.scope) := by
  have extended : state.program.Extends (state.withBlock context.scope).program :=
    State.extends_withBlock _
  have kept := rooted.of_extends extended <| rooted.program.keep extended
    (rooted.push extended rfl) (fun found => .inl ⟨_, found, rfl⟩)
  refine ⟨kept.program, kept.last, ?_, rooted.madeFor_new, kept.function⟩
  show state.program.scopes.size < (state.program.scopes.push _).size
  rw [Array.size_push]
  exact Nat.lt_succ_self _

theorem inFunction (node : Node) (name : Option String) (isArrow : Bool) :
    Rooted tops (context.inFunction state isArrow)
      (state.withFunction context.scope (context.functionAt state node name isArrow)) := by
  let next := state.withFunction context.scope (context.functionAt state node name isArrow)
  have extended : state.program.Extends next.program := State.extends_withFunction _ rfl
  have newFunction : next.program.functions[state.program.functions.size]? =
      some (context.functionAt state node name isArrow) := Array.getElem?_push_size
  have program : next.program.Rooted tops := by
    apply rooted.program.keep extended (rooted.push extended rfl)
    · intro id definition found
      rcases Table.push_cases found with old | ⟨rfl, rfl⟩
      · exact .inl ⟨definition, old, rfl⟩
      · refine .inr ⟨rooted.madeFor_new, fun outer isOuter => ?_⟩
        obtain ⟨around, isAround, sameFile⟩ := rooted.function outer isOuter
        exact ⟨Table.below isAround, around, Table.push_kept isAround,
          sameFile⟩
  refine ⟨program, rooted.last, ?_, rooted.madeFor_new, ?_⟩
  · show state.program.scopes.size < (state.program.scopes.push _).size
    rw [Array.size_push]
    exact Nat.lt_succ_self _
  · rintro _ ⟨⟩
    exact ⟨_, newFunction, rfl⟩

end Rooted

theorem Lowers.rooted (lowered : Lowers root context before exprs after) {tops : List ScopeId}
    (rooted : Rooted tops context before) : Rooted tops context after := by
  induction lowered with
  | done => exact rooted
  | seq _ _ first second => exact second (first rooted)
  | build _ _ inductionHypothesis => exact (inductionHypothesis rooted).numbered
  | skip => exact rooted.numbered
  | emit _ _ inductionHypothesis =>
    obtain ⟨program, last, below, scope, function⟩ := inductionHypothesis rooted
    exact ⟨program, last, below, scope, function⟩
  | declare _ _ _ _ declared => exact rooted.declare declared
  | block lowered inductionHypothesis =>
    exact rooted.of_extends ((State.extends_withBlock _).trans lowered.extends)
      (inductionHypothesis rooted.inBlock).program
  | @call _ node context before _ isNew _ _ _ _ _ found inductionHypothesis =>
    have inside := inductionHypothesis (rooted.withCall (context.callAt _ node isNew))
    apply Rooted.numbered
    exact inside.setCall found rfl
  | @function _ node context before after name isArrow definition params _ lowered found _
      inductionHypothesis =>
    have inside := inductionHypothesis (rooted.inFunction node name isArrow)
    have closes : after.program.Extends (after.setFunction before.program.functions.size
        { definition with params, body := after.body } before.body).program :=
      State.extends_setFunction found rfl
    apply rooted.of_extends (((State.extends_withFunction _ rfl).trans lowered.extends).trans closes)
    apply inside.program.keep closes
    · intro scope below
      exact .inl below
    · intro id changed isChanged
      rcases Table.set_cases isChanged with ⟨rfl, rfl⟩ | ⟨_, kept⟩
      · exact .inl ⟨definition, found, rfl⟩
      · exact .inl ⟨changed, kept, rfl⟩

/-! ### Expressions where they belong -/

/-- Every expression stands where it belongs, those collected so far at `home`, and so does the
context. -/
structure Placed (home : Home) (context : Context) (state : State) : Prop where
  file : home.file = context.file
  owner : home.owner = context.function
  leaves : state.program.LeavesBlocks context.scope home.scope
  receiver : state.program.ReceiverOf context.function context.receiver
  program : state.program.Placed
  body : ∀ stmt ∈ state.body, ∀ expr ∈ stmt.exprs, expr.StandsIn state.program home

namespace Placed

variable {home : Home} (placed : Placed home context state)
include placed

theorem keep {program : Program} (extended : state.program.Extends program)
    (sameModules : program.modules = state.program.modules)
    (sameFunctions : program.functions = state.program.functions) :
    Placed home context { state with program } where
  file := placed.file
  owner := placed.owner
  leaves := extended.leavesBlocks placed.leaves
  receiver := extended.receiverOf placed.receiver
  program := placed.program.keep extended fun isBody =>
    .inl (isBody.congr sameModules sameFunctions)
  body stmt member expr inside := extended.standsIn (placed.body stmt member expr inside)

theorem numbered : Placed home context state.numbered :=
  placed.keep State.extends_numbered rfl rfl

theorem withCall (site : CallSite) : Placed home context (state.withCall site) :=
  placed.keep (State.extends_withCall _) rfl rfl

theorem setCall {id : CallId} {site old : CallSite} (found : state.program.calls[id]? = some old)
    (same : site.heading = old.heading) : Placed home context (state.setCall id site) :=
  placed.keep (State.extends_setCall found same) rfl rfl

theorem withStmt {stmt : Stmt} (stands : ∀ expr ∈ stmt.exprs, expr.StandsIn state.program home) :
    Placed home context (state.withStmt stmt) := by
  refine ⟨placed.file, placed.owner, placed.leaves, placed.receiver, placed.program, ?_⟩
  intro other member
  rcases List.mem_append.mp member with old | new
  · exact placed.body other old
  · rw [List.mem_singleton] at new
    rw [new]
    exact stands

theorem declare {scope : ScopeId} {name : String} {kind : DeclKind} {file : FileId} {span : Span}
    {decl : DeclId} {program : Program}
    (declared : state.program.declare scope name kind file span = .ok (decl, program)) :
    Placed home context { state with program } := by
  have extended := Program.Extends.declare declared
  obtain ⟨_, _, rfl, _⟩ := Program.declare_frame declared
  exact placed.keep extended rfl rfl

theorem inBlock : Placed home (context.inBlock state) (state.withBlock context.scope) := by
  have extended : state.program.Extends (state.withBlock context.scope).program :=
    State.extends_withBlock _
  have kept := placed.keep extended rfl rfl
  refine ⟨kept.file, kept.owner, ?_, kept.receiver, kept.program, kept.body⟩
  exact .leave Array.getElem?_push_size rfl rfl kept.leaves

theorem inFunction (node : Node) (name : Option String) (isArrow : Bool) :
    Placed ⟨context.file, state.program.scopes.size, some state.program.functions.size⟩
      (context.inFunction state isArrow)
      (state.withFunction context.scope (context.functionAt state node name isArrow)) := by
  have extended : state.program.Extends
      (state.withFunction context.scope (context.functionAt state node name isArrow)).program :=
    State.extends_withFunction _ rfl
  have isNew : (state.withFunction context.scope
      (context.functionAt state node name isArrow)).program.functions[
        state.program.functions.size]? = some (context.functionAt state node name isArrow) :=
    Array.getElem?_push_size
  refine ⟨rfl, rfl, .here, ?_, ?_, List.forall_mem_nil _⟩
  · cases isArrow with
    | true => exact .arrow isNew rfl (extended.receiverOf placed.receiver)
    | false => exact .own isNew rfl
  · apply placed.program.keep extended
    intro home body isBody
    cases isBody with
    | top member => exact .inl (.top member)
    | function found =>
      rcases Table.push_cases found with old | ⟨_, rfl⟩
      · exact .inl (.function old)
      · exact .inr (List.forall_mem_nil _)

theorem setFunction {innerHome : Home} {inner : Context} {after : State}
    (placedAfter : Placed innerHome inner after) (lowered : state.program.Extends after.program)
    {id : FunctionId} {definition old : FunctionDef}
    (found : after.program.functions[id]? = some old) (same : definition.heading = old.heading)
    (isBody : definition.body = after.body)
    (isHome : innerHome = ⟨definition.file, definition.scope, some id⟩) :
    Placed home context (after.setFunction id definition state.body) := by
  have closes : after.program.Extends (after.setFunction id definition state.body).program :=
    State.extends_setFunction found same
  have extended := lowered.trans closes
  refine ⟨placed.file, placed.owner, extended.leavesBlocks placed.leaves,
    extended.receiverOf placed.receiver, ?_, fun stmt member expr inside =>
      extended.standsIn (placed.body stmt member expr inside)⟩
  apply placedAfter.program.keep closes
  intro other body isOther
  cases isOther with
  | top member => exact .inl (.top member)
  | function isChanged =>
    rcases Table.set_cases isChanged with ⟨rfl, rfl⟩ | ⟨_, kept⟩
    · rw [isBody, ← isHome]
      exact .inr fun stmt member expr inside =>
        closes.standsIn (placedAfter.body stmt member expr inside)
    · exact .inl (.function kept)

end Placed

theorem Builds.standsIn {program : Program} {node : NodeId} {parts : List Expr} {expr : Expr}
    {home : Home} (builds : Builds context program node parts expr)
    (owner : home.owner = context.function)
    (leaves : program.LeavesBlocks context.scope home.scope)
    (receiver : program.ReceiverOf context.function context.receiver) :
    expr.StandsIn program home := by
  cases builds with
  | ident => exact leaves
  | this =>
    show program.ReceiverOf home.owner context.receiver
    rw [owner]
    exact receiver
  | _ => trivial

theorem Lowers.placed (lowered : Lowers root context before exprs after) {home : Home}
    (placed : Placed home context before) :
    Placed home context after ∧
      ∀ part ∈ Expr.allOf exprs, part.StandsIn after.program home := by
  induction lowered generalizing home with
  | done => exact ⟨placed, List.forall_mem_nil _⟩
  | seq _ second firstHypothesis secondHypothesis =>
    obtain ⟨placedMiddle, leftStand⟩ := firstHypothesis placed
    obtain ⟨placedAfter, rightStand⟩ := secondHypothesis placedMiddle
    refine ⟨placedAfter, fun part member => ?_⟩
    rw [Expr.allOf_append, List.mem_append] at member
    rcases member with inLeft | inRight
    · exact second.extends.standsIn (leftStand part inLeft)
    · exact rightStand part inRight
  | build _ builds inductionHypothesis =>
    obtain ⟨placedAfter, partsStand⟩ := inductionHypothesis placed
    refine ⟨placedAfter.numbered, fun part member => State.extends_numbered.standsIn ?_⟩
    rw [Expr.allOf, Expr.allOf, List.append_nil, builds.all_perm.mem_iff, List.mem_cons] at member
    rcases member with rfl | inside
    · exact builds.standsIn placedAfter.owner placedAfter.leaves placedAfter.receiver
    · exact partsStand part inside
  | skip => exact ⟨placed.numbered, List.forall_mem_nil _⟩
  | emit _ emits inductionHypothesis =>
    obtain ⟨placedAfter, stand⟩ := inductionHypothesis placed
    rw [← emits.exprs_eq] at stand
    exact ⟨placedAfter.withStmt stand, List.forall_mem_nil _⟩
  | declare _ _ _ _ declared => exact ⟨placed.declare declared, List.forall_mem_nil _⟩
  | block lowered inductionHypothesis =>
    obtain ⟨placedAfter, _⟩ := inductionHypothesis placed.inBlock
    have extended := (State.extends_withBlock _).trans lowered.extends
    exact ⟨⟨placedAfter.file, placedAfter.owner, extended.leavesBlocks placed.leaves,
      placedAfter.receiver, placedAfter.program, placedAfter.body⟩, List.forall_mem_nil _⟩
  | @call _ node context before after isNew site callee arguments _ lowered found
      inductionHypothesis =>
    obtain ⟨placedAfter, partsStand⟩ :=
      inductionHypothesis (placed.withCall (context.callAt _ node isNew))
    cases lowered.opened_call found
    have below : before.program.calls.size < after.program.calls.size := Table.below found
    have closes : after.program.Extends (after.setCall before.program.calls.size
        { context.callAt before node isNew with
          arity := arguments.length
          hasReceiver := !isNew && callee.isMember }).program :=
      State.extends_setCall found rfl
    constructor
    · apply Placed.numbered
      exact placedAfter.setCall found rfl
    · intro part member
      apply State.extends_numbered.standsIn
      rw [Expr.allOf, Expr.allOf, List.append_nil, Expr.all, List.mem_cons] at member
      rcases member with rfl | inside
      · exact ⟨_, Array.getElem?_setIfInBounds_self_of_lt below, placed.file.symm,
          placed.owner.symm⟩
      · exact closes.standsIn (partsStand part inside)
  | @function _ node context before after name isArrow definition params _ lowered found _
      inductionHypothesis =>
    obtain ⟨placedAfter, _⟩ := inductionHypothesis (placed.inFunction node name isArrow)
    cases lowered.opened_function found
    have extended := (State.extends_withFunction _ rfl).trans lowered.extends
    exact ⟨placed.setFunction placedAfter extended found rfl rfl rfl, List.forall_mem_nil _⟩

theorem Lowers.files_and_modules (lowered : Lowers root context before exprs after) :
    after.program.files = before.program.files ∧
      after.program.modules = before.program.modules := by
  induction lowered with
  | done | skip => exact ⟨rfl, rfl⟩
  | seq _ _ first second => exact ⟨second.1.trans first.1, second.2.trans first.2⟩
  | build _ _ inductionHypothesis => exact inductionHypothesis
  | emit _ _ inductionHypothesis => exact inductionHypothesis
  | declare _ _ _ _ declared =>
    obtain ⟨_, _, rfl, _⟩ := Program.declare_frame declared
    exact ⟨rfl, rfl⟩
  | block _ inductionHypothesis => exact inductionHypothesis
  | call _ _ _ inductionHypothesis => exact inductionHypothesis
  | function _ _ _ _ inductionHypothesis => exact inductionHypothesis

end Lowering

/-! ### Files -/

namespace Program

variable {done : List SourceFile} {program : Program} {file : SourceFile} {state : Lowering.State}

/-- What lowering makes of the files `done`, before references are resolved. -/
structure Formed (done : List SourceFile) (program : Program) : Prop where
  files : program.files.toList = done.map SourceFile.path
  modules : program.modules.toList.map SourceModule.file = List.range program.files.size
  ownIds : program.OwnIds
  rooted : program.Rooted program.tops
  namesMatch : program.NamesMatch
  placed : program.Placed

theorem Formed.tops_length (formed : program.Formed done) :
    program.tops.length = program.files.size := by
  have sameLength := congrArg List.length formed.modules
  rw [List.length_map, List.length_range] at sameLength
  rw [tops, List.length_map]
  exact sameLength

theorem MadeFor.concat {tops : List ScopeId} {scope next : ScopeId} {file : FileId}
    (made : MadeFor tops scope file) (below : scope < next) : MadeFor (tops ++ [next]) scope file := by
  obtain ⟨top, isTop, fromTop, beforeNext⟩ := made
  have inside : file < tops.length := (List.getElem?_eq_some_iff.mp isTop).1
  refine ⟨top, (List.getElem?_append_left inside).trans isTop, fromTop, ?_⟩
  intro later other isLater isOther
  by_cases old : later < tops.length
  · rw [List.getElem?_append_left old] at isOther
    exact beforeNext later other isLater isOther
  · rw [List.getElem?_append_right (Nat.le_of_not_lt old)] at isOther
    rw [List.mem_singleton.mp (List.mem_of_getElem? isOther)]
    exact below

theorem Formed.rooted_start (formed : program.Formed done) (inRange : program.InRange) :
    Lowering.Rooted (program.tops ++ [program.scopes.size]) (program.topContext file)
      (program.topState file) := by
  have isLast : (program.tops ++ [program.scopes.size])[program.files.size]? =
      some program.scopes.size := by
    rw [← formed.tops_length]
    exact List.getElem?_concat_length
  have atEnd : MadeFor (program.tops ++ [program.scopes.size]) program.scopes.size
      program.files.size := by
    refine ⟨program.scopes.size, isLast, Nat.le_refl _, fun later next isLater isNext => ?_⟩
    have inside := (List.getElem?_eq_some_iff.mp isNext).1
    rw [List.length_append, formed.tops_length, List.length_singleton] at inside
    exact absurd isLater (Nat.not_lt_of_le (Nat.le_of_lt_succ inside))
  have extended := extends_topState program file
  have ownScope : (program.topState file).program.scopes[program.scopes.size]? =
      some { id := program.scopes.size, kind := .file, parent := none, names := .empty } :=
    Array.getElem?_push_size
  refine ⟨⟨?_, ?_, ?_, ?_⟩, ?_, ?_, atEnd, by simp [topContext]⟩
  · intro position top isTop
    by_cases old : position < program.tops.length
    · rw [List.getElem?_append_left old] at isTop
      obtain ⟨entry, isEntry, kind, parent⟩ := formed.rooted.ownScopes isTop
      exact ⟨entry, Table.push_kept isEntry, kind, parent⟩
    · rw [List.getElem?_append_right (Nat.le_of_not_lt old)] at isTop
      rw [List.mem_singleton.mp (List.mem_of_getElem? isTop)]
      exact ⟨_, ownScope, rfl, rfl⟩
  · intro scope below
    rw [topState, addScope, Array.size_push] at below
    rcases Nat.lt_succ_iff_lt_or_eq.mp below with old | new
    · obtain ⟨position, top, made, isTop, surrounds⟩ := formed.rooted.scopes old
      have inside := (List.getElem?_eq_some_iff.mp isTop).1
      exact ⟨position, top, made.concat old, (List.getElem?_append_left inside).trans isTop,
        extended.surrounds surrounds⟩
    · exact ⟨program.files.size, program.scopes.size, new ▸ atEnd, isLast, new ▸ .here⟩
  · intro id definition found
    exact (formed.rooted.functions found).concat
      (inRange.functions definition (Array.mem_of_getElem? found)).scope
  · exact formed.rooted.enclosing
  · rw [List.length_append, formed.tops_length]
    rfl
  · exact Table.below ownScope

theorem Formed.placed_start (formed : program.Formed done) :
    Lowering.Placed ⟨program.files.size, program.scopes.size, none⟩ (program.topContext file)
      (program.topState file) := by
  have extended := extends_topState program file
  exact ⟨rfl, rfl, .here, .top,
    formed.placed.keep extended (fun isBody => .inl (isBody.congr rfl rfl)), List.forall_mem_nil _⟩

theorem Formed.addTop (formed : program.Formed done) (inRange : program.InRange)
    (lowered : Lowering.Lowers file.tree.root (program.topContext file) (program.topState file) []
      state) : (program.withTop state).Formed (done ++ [file]) := by
  obtain ⟨sameFiles, sameModules⟩ := lowered.files_and_modules
  have rooted := lowered.rooted (formed.rooted_start inRange)
  obtain ⟨placed, _⟩ := lowered.placed formed.placed_start
  have extended := extends_withTop program state
  have isFiles : state.program.files = program.files.push file.path := sameFiles
  have isModules : state.program.modules = program.modules := sameModules
  constructor
  case files =>
    show state.program.files.toList = _
    rw [isFiles, Array.toList_push, formed.files, List.map_append]
    rfl
  case modules =>
    show (state.program.modules.push _).toList.map _ = List.range state.program.files.size
    rw [isFiles, isModules, Array.size_push, List.range_succ, ← formed.modules, Array.toList_push,
      List.map_append]
    rfl
  case ownIds =>
    have started : (program.addFile file.path).2.OwnIds :=
      ⟨formed.ownIds.functions, formed.ownIds.calls, formed.ownIds.decls, formed.ownIds.scopes⟩
    have ownIds := lowered.ownIds (started.addScope .file none)
    exact ⟨ownIds.functions, ownIds.calls, ownIds.decls, ownIds.scopes⟩
  case rooted =>
    have isTops : (program.withTop state).tops = program.tops ++ [program.scopes.size] := by
      show (state.program.modules.push _).toList.map _ = _
      rw [isModules, Array.toList_push, List.map_append]
      rfl
    rw [isTops]
    exact rooted.program.keep extended (fun below => .inl below) (fun found => .inl ⟨_, found, rfl⟩)
  case namesMatch =>
    exact (lowered.namesMatch (formed.namesMatch.push rfl rfl rfl)).congr rfl rfl
  case placed =>
    apply placed.program.keep extended
    intro home body isBody
    cases isBody with
    | top member =>
      rcases Array.mem_push.mp member with old | rfl
      · exact .inl (.top old)
      · exact .inr fun stmt inBody expr inStmt =>
          extended.standsIn (placed.body stmt inBody expr inStmt)
    | function found => exact .inl (.function found)

theorem formed_empty : ({} : Program).Formed [] where
  files := rfl
  modules := rfl
  ownIds := ⟨.empty, .empty, .empty, .empty⟩
  rooted := ⟨by simp [tops], by simp, by simp, by simp⟩
  namesMatch := by simp [NamesMatch]
  placed := by
    intro home body isBody
    cases isBody with
    | top member => simp at member
    | function found => simp at found

/-! ### Bound programs -/

section

variable {after : Program} (binds : program.BindsTo after)
include binds

theorem NamesMatch.bindsTo (matched : program.NamesMatch) : after.NamesMatch := by
  intro scope name id
  rw [binds.scopes, matched scope name id]
  constructor
  · rintro ⟨decl, isDecl, rfl, rfl⟩
    obtain ⟨later, isLater, same⟩ := binds.decl_kept isDecl
    exact ⟨later, isLater, (congrArg Declaration.name same :), (congrArg Declaration.scope same :)⟩
  · rintro ⟨decl, isDecl, rfl, rfl⟩
    obtain ⟨old, isOld, same⟩ := binds.decls isDecl
    exact ⟨old, isOld, (congrArg Declaration.name same.symm :),
      (congrArg Declaration.scope same.symm :)⟩

theorem Placed.bindsTo (placed : program.Placed) : after.Placed := by
  intro home body isBody stmt inBody expr inStmt
  obtain ⟨old, isOld, rfl⟩ := binds.bodyAt_cases isBody
  obtain ⟨oldStmt, inOld, rfl⟩ := List.mem_map.mp inBody
  rw [Stmt.exprs_mapReferences] at inStmt
  obtain ⟨oldExpr, inOldStmt, rfl⟩ := List.mem_map.mp inStmt
  have stands := binds.extends.standsIn (placed home old isOld oldStmt inOld oldExpr inOldStmt)
  cases oldExpr with
  | ident node reference =>
    show after.LeavesBlocks (program.resolve reference).scope home.scope
    rw [resolve_scope]
    exact stands
  | this | call => exact stands
  | _ => trivial

theorem BindsTo.not_unresolved {expr : Expr} (member : expr ∈ after.exprs) :
    ¬ expr.Unresolved := by
  obtain ⟨owner, body, stmt, isBody, inBody, inStmt⟩ := mem_exprs.mp member
  obtain ⟨old, _, rfl⟩ := binds.body_cases isBody
  obtain ⟨oldStmt, _, rfl⟩ := List.mem_map.mp inBody
  rw [Stmt.exprs_mapReferences] at inStmt
  obtain ⟨oldExpr, _, rfl⟩ := List.mem_map.mp inStmt
  cases oldExpr with
  | ident node reference => exact program.resolve_binding reference
  | _ => exact id

end

theorem Formed.wellFormed {after : Program} (formed : program.Formed done)
    (lowered : program.Lowered) (binds : program.BindsTo after) (inRange : after.InRange) :
    after.WellFormed := by
  have rooted : after.Rooted after.tops := by
    rw [binds.tops_eq]
    exact formed.rooted.bindsTo binds
  constructor
  case inRange => exact inRange
  case ownIds => exact formed.ownIds.bindsTo binds
  case modules =>
    rw [binds.modules, binds.files, Array.toList_map, List.map_map]
    exact formed.modules
  case wellScoped => exact lowered.housed.wellScoped.bindsTo binds
  case rooted => exact rooted
  case functionScopes =>
    intro id definition found
    obtain ⟨top, isTop, _⟩ := rooted.functions found
    have below := (inRange.functions definition (Array.mem_of_getElem? found)).scope
    have surrounds := rooted.surrounds below (rooted.functions found) isTop
    rw [tops, List.getElem?_map, Array.getElem?_toList] at isTop
    obtain ⟨code, isCode, rfl⟩ := Option.map_eq_some_iff.mp isTop
    exact ⟨code, isCode, surrounds⟩
  case namesMatch => exact formed.namesMatch.bindsTo binds
  case distinctNodes =>
    rw [binds.map_node]
    have distinct := lowered.numbered.distinct
    simpa [Lowering.State.nodes, Lowering.State.exprs] using distinct
  case placed => exact formed.placed.bindsTo binds
  case resolved => exact fun expr member => binds.not_unresolved member

theorem ofSources_ok {files : List SourceFile} (fits : ∀ file ∈ files, file.Fits) :
    ∃ parsed, Program.ofSources files = .ok parsed := by
  have outcome := ofSources_outcome files
  cases made : Program.ofSources files with
  | ok parsed => exact ⟨parsed, rfl⟩
  | error failure =>
    rw [made] at outcome
    obtain ⟨file, member, unreadable⟩ := outcome
    exact absurd unreadable ((fits file member).readable failure)

theorem ofSources_formed {files : List SourceFile} {parsed : Parsed}
    (made : Program.ofSources files = .ok parsed) :
    parsed.program.WellFormed ∧ parsed.program.files.toList = files.map SourceFile.path := by
  obtain ⟨program, added, lowered, binds⟩ := ofSources_bindsTo made
  have formed := addSources_run Formed
    (fun _ lowered formed derived => formed.addTop lowered.inRange derived)
    formed_empty added
  refine ⟨formed.wellFormed lowered binds (ofSources_inRange made), ?_⟩
  rw [binds.files]
  exact formed.files

end Program

/-- Files whose trees fit their texts make a well-formed program, with one module for each file. -/
theorem lowered_wellFormed (files : List SourceFile) (fits : ∀ file ∈ files, file.Fits) :
    ∃ parsed, Program.ofSources files = .ok parsed ∧ parsed.program.WellFormed ∧
      parsed.program.files.toList = files.map SourceFile.path := by
  obtain ⟨parsed, made⟩ := Program.ofSources_ok fits
  exact ⟨parsed, made, Program.ofSources_formed made⟩

/-- A file with an arrow function that refers to the receiver of the function around it. -/
def capturedReceiver : SourceFile where
  path := "a.js"
  text := "function f() { { return () => this; } }"
  tree := {
    hasErrors := false
    root :=
      .rule "program" 0 39 [] [
        .rule "function_declaration" 0 39 ["name", "parameters", "body"] [
          .rule "identifier" 9 10 [] [],
          .rule "formal_parameters" 10 12 [] [],
          .rule "statement_block" 13 39 [] [
            .rule "statement_block" 15 37 [] [
              .rule "return_statement" 17 35 [] [
                .rule "arrow_function" 24 34 ["parameters", "body"] [
                  .rule "formal_parameters" 24 26 [] [],
                  .rule "this" 30 34 [] []]]]]]] }

/-- The arrow function stands in a block of the function around it, and its `this` denotes the
receiver of that function. -/
theorem lowered_wellFormed_capturedReceiver :
    capturedReceiver.Fits ∧ ∃ parsed, Program.ofSources [capturedReceiver] = .ok parsed ∧
      parsed.program.WellFormed ∧ parsed.program.ReceiverOf (some 1) (some 0) ∧
      ∃ top, parsed.program.modules[0]? = some top ∧ parsed.program.Surrounds top.scope 3 := by
  have fits : capturedReceiver.Fits := by decide +kernel
  have tables : (Program.ofSources [capturedReceiver]).toOption.map (fun parsed =>
      parsed.program.functions.toList.map fun definition =>
        (definition.scope, definition.file, definition.enclosing, definition.isArrow)) =
      some [(1, 0, none, false), (3, 0, some 0, true)] := by
    decide +kernel
  obtain ⟨parsed, made, wellFormed, _⟩ := lowered_wellFormed [capturedReceiver] (by simpa using fits)
  rw [made] at tables
  have headings := Option.some.inj tables
  have entry (id : FunctionId) := congrArg (·[id]?) headings
  simp only [List.getElem?_map, Array.getElem?_toList] at entry
  obtain ⟨outer, isOuter, outerHeading⟩ := Option.map_eq_some_iff.mp (entry 0)
  obtain ⟨inner, isInner, innerHeading⟩ := Option.map_eq_some_iff.mp (entry 1)
  simp only [Prod.mk.injEq] at outerHeading innerHeading
  obtain ⟨_, _, _, outerArrow⟩ := outerHeading
  obtain ⟨isScope, isFile, isEnclosing, innerArrow⟩ := innerHeading
  refine ⟨fits, parsed, made, wellFormed, .arrow isInner innerArrow ?_, ?_⟩
  · rw [isEnclosing]
    exact .own isOuter outerArrow
  · have chain := wellFormed.functionScopes isInner
    rw [isScope, isFile] at chain
    exact chain

end FunctionFlow
