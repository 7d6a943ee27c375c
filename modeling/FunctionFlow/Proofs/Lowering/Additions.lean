import FunctionFlow.Proofs.Lowering.Derivation
import FunctionFlow.Proofs.Program.WellFormed
import FunctionFlow.Proofs.Tree.Roles

/-!
Contract: computations that add calls.
-/

namespace FunctionFlow

/-- The call was made from the node at `address`. -/
def Node.CallAt (root : Node) (source : Source) (address : Address) (site : CallSite) : Prop :=
  ∃ node, root.nodeAt? address = some node ∧
    node.kind = (if site.isNew then "new_expression" else "call_expression") ∧
    site.span = source.spanOf node.info.startByte node.info.endByte

/-- What a call takes over from its node. -/
structure CallOrigin where
  file : FileId
  span : Span
  isNew : Bool
  deriving DecidableEq, Repr

def CallSite.origin (site : CallSite) : CallOrigin where
  file := site.file
  span := site.span
  isNew := site.isNew

def Node.origin (source : Source) (file : FileId) (node : Node) : CallOrigin where
  file := file
  span := source.spanOf node.info.startByte node.info.endByte
  isNew := node.kind == "new_expression"

theorem Node.callAt_of_origin {root node : Node} {source : Source} {file : FileId}
    {address : Address} {site : CallSite} (located : root.nodeAt? address = some node)
    (isCall : node.isCall) (isOrigin : site.origin = node.origin source file) :
    root.CallAt source address site ∧ site.file = file := by
  have isSpan : site.span = source.spanOf node.info.startByte node.info.endByte :=
    congrArg CallOrigin.span isOrigin
  have isNew : site.isNew = (node.kind == "new_expression") := congrArg CallOrigin.isNew isOrigin
  refine ⟨⟨node, located, ?_, isSpan⟩, congrArg CallOrigin.file isOrigin⟩
  rw [isNew]
  unfold Node.isCall at isCall
  rw [Bool.or_eq_true, beq_iff_eq, beq_iff_eq] at isCall
  rcases isCall with isKind | isKind
  · rw [isKind]
    rfl
  · rw [isKind]
    rfl

namespace Lowering

def State.headings (state : State) : List CallSite :=
  state.program.calls.toList.map CallSite.heading

def Quiet {α : Type} (compute : Lower α) : Prop :=
  ∀ state answer after, compute.run state = .ok (answer, after) → after.headings = state.headings

variable {node child : Node} {context : Context} {role : Role} {name : String} {α β : Type}

/-! ### Computations that add no call -/

namespace Quiet

variable {compute : Lower α} {next : α → Lower β}

theorem pure (answer : α) : Quiet (Pure.pure answer) := by
  intro state result after ran
  cases ran
  rfl

theorem bind (begins : Quiet compute) (goesOn : ∀ answer, Quiet (next answer)) :
    Quiet (compute >>= next) := by
  intro state result after ran
  rw [StateT.run_bind] at ran
  obtain ⟨⟨answer, between⟩, ranFirst, ranNext⟩ := Checked.bind_eq_ok.mp ran
  exact (goesOn answer _ _ _ ranNext).trans (begins _ _ _ ranFirst)

theorem lift (lookup : Checked α) : Quiet (liftM lookup : Lower α) := by
  intro state answer after ran
  cases lookup with
  | error => cases ran
  | ok value =>
    cases ran
    rfl

theorem discard (quiet : Quiet compute) : Quiet (Functor.discard compute) :=
  quiet.bind fun _ => pure ()

theorem forM {items : List α} {step : α → Lower Unit} (each : ∀ item, Quiet (step item)) :
    Quiet (items.forM step) := by
  induction items with
  | nil => exact pure ()
  | cons first rest inductionHypothesis =>
    exact (each first).bind fun _ => inductionHypothesis

end Quiet

theorem text_quiet (context : Context) (node : Node) : Quiet (text context node) :=
  .lift _

theorem text?_quiet (context : Context) (node : Option Node) : Quiet (text? context node) := by
  cases node with
  | none => exact .pure _
  | some node => exact (text_quiet context node).bind fun _ => .pure _

theorem propertyKey_quiet (context : Context) (node : Node) : Quiet (propertyKey context node) := by
  unfold propertyKey
  split
  · exact (text_quiet context node).bind fun _ => .pure _
  · exact (text_quiet context node).bind fun _ => .pure _
  · exact .pure _

theorem propertyKey?_quiet (context : Context) (node : Option Node) :
    Quiet (propertyKey? context node) := by
  cases node with
  | none => exact .pure _
  | some node => exact propertyKey_quiet context node

theorem fresh_quiet (build : NodeId → Expr) : Quiet (fresh build) := by
  intro state answer after ran
  cases ran
  rfl

theorem inert_quiet (parts : List Expr) : Quiet (inert parts) :=
  fresh_quiet _

theorem emit_quiet (stmt : Stmt) : Quiet (emit stmt) := by
  intro state answer after ran
  cases ran
  rfl

theorem effect_quiet (value : Expr) : Quiet (effect value) :=
  emit_quiet _

theorem hoistingScope_quiet (context : Context) : Quiet (hoistingScope context) := by
  intro state answer after ran
  exact Quiet.lift (state.program.hoistingScope context.scope) state answer after ran

theorem declare_quiet (context : Context) (scope : ScopeId) (node : Node) (kind : DeclKind) :
    Quiet (declare context scope node kind) := by
  refine (text_quiet context node).bind fun name => ?_
  intro state answer after ran
  obtain ⟨⟨⟨decl, program⟩, between⟩, lifted, isAfter⟩ := Checked.bind_eq_ok.mp ran
  cases isAfter
  have declared := Checked.eq_ok_of_run_lift lifted
  obtain ⟨_, _, rfl, _⟩ := Program.declare_frame declared
  rfl

theorem reference_quiet (context : Context) (node : Node) : Quiet (reference context node) :=
  (text_quiet context node).bind fun _ => fresh_quiet _

theorem readInto_quiet (decl : DeclId) (key : String) : Quiet (readInto decl key) :=
  ((inert_quiet []).bind fun _ => fresh_quiet _).bind fun _ => emit_quiet _

theorem exportProperty_quiet (key : String) (value : Expr) : Quiet (exportProperty key value) :=
  (fresh_quiet _).bind fun _ => effect_quiet _

theorem exportSpecifier_quiet (context : Context) (node : Node) :
    Quiet (exportSpecifier context node) := by
  refine (propertyKey?_quiet context _).bind fun renamed => ?_
  split
  · split
    · refine (text_quiet context _).bind fun spelled => ?_
      split
      · exact .pure ()
      · exact (reference_quiet context _).bind fun _ => exportProperty_quiet _ _
    · exact .pure ()
  · exact .pure ()

theorem openFunction_quiet (context : Context) (node : Node) (name : Option String)
    (isArrow : Bool) : Quiet (openFunction context node name isArrow) := by
  intro state answer after ran
  cases ran
  rfl

theorem takeBody_quiet : Quiet takeBody := by
  intro state answer after ran
  cases ran
  rfl

theorem closeFunction_quiet (id : FunctionId) (params : List (Option DeclId))
    (outer : List Stmt) : Quiet (closeFunction id params outer) := by
  intro state answer after ran
  obtain ⟨⟨definition, between⟩, lifted, isAfter⟩ := Checked.bind_eq_ok.mp ran
  cases isAfter
  rfl

theorem closeCall_quiet (id : CallId) (arity : Nat) (hasReceiver : Bool) :
    Quiet (closeCall id arity hasReceiver) := by
  intro state answer after ran
  obtain ⟨⟨site, between⟩, lifted, isAfter⟩ := Checked.bind_eq_ok.mp ran
  cases isAfter
  have found := fetch_eq_ok.mp (Checked.eq_ok_of_run_lift lifted)
  have isHeading : state.headings[id]? = some site.heading := by
    rw [State.headings, List.getElem?_map, Array.getElem?_toList, found]
    rfl
  obtain ⟨below, atId⟩ := List.getElem?_eq_some_iff.mp isHeading
  show ((state.program.calls.setIfInBounds id _).toList.map CallSite.heading) = _
  rw [Array.toList_setIfInBounds, List.map_set]
  show state.headings.set id site.heading = state.headings
  rw [← atId, List.set_getElem_self]

/-! ### Origins -/

namespace Context

def origins (context : Context) (role : Role) (node : Node) : List CallOrigin :=
  (node.visitedCalls role).map fun entry => entry.2.origin context.source context.file

def fieldOrigins (context : Context) (node : Node) (name : String) (role : Role) :
    List CallOrigin :=
  (node.field? name).toList.flatMap (context.origins role)

def planOrigins (context : Context) (node : Node) (plan : Plan) : List CallOrigin :=
  (plan.children node).flatMap fun read => context.origins read.1 read.2

theorem fieldOrigins_some (found : node.field? name = some child) :
    context.fieldOrigins node name role = context.origins role child := by
  rw [fieldOrigins, found, Option.toList_some, List.flatMap_singleton]

theorem fieldOrigins_none (missing : node.field? name = none) :
    context.fieldOrigins node name role = [] := by
  rw [fieldOrigins, missing]
  rfl

@[simp]
theorem planOrigins_field (name : String) (role : Role) (distinct : [name].Nodup) :
    context.planOrigins node (.fields [(name, role)] distinct) =
      context.fieldOrigins node name role := by
  simp only [planOrigins, Plan.children, List.flatMap_singleton, List.flatMap_map, fieldOrigins]

@[simp]
theorem planOrigins_fields (first second : String × Role) (rest : List (String × Role))
    (distinct : ((first :: second :: rest).map Prod.fst).Nodup) :
    context.planOrigins node (.fields (first :: second :: rest) distinct) =
      context.fieldOrigins node first.1 first.2 ++
        context.planOrigins node (.fields (second :: rest) (List.nodup_cons.mp distinct).2) := by
  simp only [planOrigins, Plan.children, List.flatMap_cons, List.flatMap_append, List.flatMap_map,
    fieldOrigins]

@[simp]
theorem planOrigins_parts (role : Role) :
    context.planOrigins node (.parts role) = node.parts.flatMap (context.origins role) := by
  simp only [planOrigins, Plan.children, List.flatMap_map]

@[simp]
theorem planOrigins_firstPart (role : Role) :
    context.planOrigins node (.firstPart role) =
      node.parts.head?.toList.flatMap (context.origins role) := by
  simp only [planOrigins, Plan.children, List.flatMap_map, List.take_one]

theorem origins_eq (context : Context) (role : Role) (node : Node) :
    context.origins role node =
      (node.ownCall role).map (fun entry => entry.2.origin context.source context.file) ++
        context.planOrigins node ((role.settle node).plan node) := by
  rw [origins, Node.visitedCalls_eq, List.map_append, planOrigins, ← Plan.filterMap_positions,
    List.filterMap_eq_flatMap_toList, List.flatMap_assoc, List.map_flatMap]
  congr 2
  funext entry
  cases node.children[entry.2]? with
  | none => rfl
  | some child =>
    simp only [Option.toList_some, List.flatMap_singleton, List.map_map, Option.map_some]
    rfl

theorem origins_congr (role other : Role) (same : role.settle node = other.settle node) :
    context.origins role node = context.origins other node := by
  rw [origins_eq, origins_eq, Node.ownCall, Node.ownCall, same]

theorem origins_settled (settled : Role) (isSettled : role.settle node = settled)
    (noExpression : settled ≠ .expression) :
    context.origins role node = context.planOrigins node (settled.plan node) := by
  subst isSettled
  rw [origins_eq, Node.ownCall, if_neg fun isCall => noExpression isCall.1]
  rfl

theorem origins_nothing (role : Role) (isNothing : role.settle node = .nothing) :
    context.origins role node = [] :=
  origins_settled .nothing isNothing (by decide)

theorem origins_statements :
    context.origins .statements node = node.parts.flatMap (context.origins .statement) := by
  rw [origins_settled .statements rfl (by decide), Role.plan, planOrigins_parts]

theorem origins_expressions :
    context.origins .expressions node = node.parts.flatMap (context.origins .expression) := by
  rw [origins_settled .expressions rfl (by decide), Role.plan, planOrigins_parts]

theorem origins_expression (noCall : ¬ node.isCall) :
    context.origins .expression node = context.planOrigins node (.ofExpression node) := by
  rw [origins_eq, Node.ownCall, if_neg fun isCall => noCall isCall.2]
  rfl

theorem origins_call (isCall : node.isCall) :
    context.origins .expression node = node.origin context.source context.file ::
      context.planOrigins node (.ofExpression node) := by
  rw [origins_eq, Node.ownCall, if_pos ⟨rfl, isCall⟩]
  rfl

theorem origins_statement (notBare : StatementForm.ofKind node.kind ≠ .bare) :
    context.origins .statement node = context.planOrigins node (.ofStatement node) :=
  origins_settled .statement (if_neg notBare) (by decide)

theorem origins_bare (isBare : StatementForm.ofKind node.kind = .bare) :
    context.origins .statement node = context.origins .expression node :=
  origins_congr .statement .expression (if_pos isBare)

theorem origins_name (isName : node.kind = "identifier") : context.origins .pattern node = [] := by
  rw [origins_settled .pattern rfl (by decide), Role.plan, Plan.ofPattern, isName]
  rfl

def parameterOrigins (context : Context) (parts : Node × Option Node) : List CallOrigin :=
  context.origins .pattern parts.1 ++ parts.2.toList.flatMap (context.origins .expression)

end Context

/-! ### Computations that add calls -/

def Adds {α : Type} (origins : List CallOrigin) (compute : Lower α) : Prop :=
  ∀ state answer after, compute.run state = .ok (answer, after) →
    ∃ added, added.map CallSite.origin = origins ∧ after.headings = state.headings ++ added

namespace Adds

variable {origins more : List CallOrigin} {compute : Lower α} {next : α → Lower β}

theorem of_quiet (quiet : Quiet compute) : Adds [] compute := by
  intro state answer after ran
  exact ⟨[], rfl, (quiet state answer after ran).trans (List.append_nil _).symm⟩

theorem bind (begins : Adds origins compute) (goesOn : ∀ answer, Adds more (next answer)) :
    Adds (origins ++ more) (compute >>= next) := by
  intro state result after ran
  rw [StateT.run_bind] at ran
  obtain ⟨⟨answer, between⟩, ranFirst, ranNext⟩ := Checked.bind_eq_ok.mp ran
  obtain ⟨first, isFirst, isBetween⟩ := begins _ _ _ ranFirst
  obtain ⟨second, isSecond, isAfter⟩ := goesOn answer _ _ _ ranNext
  refine ⟨first ++ second, ?_, ?_⟩
  · rw [List.map_append, isFirst, isSecond]
  · rw [isAfter, isBetween, List.append_assoc]

theorem after_quiet (begins : Quiet compute) (goesOn : ∀ answer, Adds origins (next answer)) :
    Adds origins (compute >>= next) :=
  (of_quiet begins).bind goesOn

theorem then_quiet (begins : Adds origins compute) (goesOn : ∀ answer, Quiet (next answer)) :
    Adds origins (compute >>= next) := by
  rw [← List.append_nil origins]
  exact begins.bind fun answer => of_quiet (goesOn answer)

theorem mapM {items : List α} {made : α → List CallOrigin} {step : α → Lower β}
    (each : ∀ item ∈ items, Adds (made item) (step item)) :
    Adds (items.flatMap made) (items.mapM step) := by
  induction items with
  | nil => exact of_quiet (.pure [])
  | cons first rest inductionHypothesis =>
    obtain ⟨eachFirst, eachRest⟩ := List.forall_mem_cons.mp each
    rw [List.mapM_cons, List.flatMap_cons]
    exact eachFirst.bind fun _ => (inductionHypothesis eachRest).then_quiet fun _ => .pure _

theorem forM {items : List α} {made : α → List CallOrigin} {step : α → Lower Unit}
    (each : ∀ item ∈ items, Adds (made item) (step item)) :
    Adds (items.flatMap made) (items.forM step) := by
  induction items with
  | nil => exact of_quiet (.pure ())
  | cons first rest inductionHypothesis =>
    obtain ⟨eachFirst, eachRest⟩ := List.forall_mem_cons.mp each
    rw [List.flatMap_cons]
    exact eachFirst.bind fun _ => inductionHypothesis eachRest

theorem field (compute : Option Node → Lower α) (quiet : Quiet (compute none))
    (each : ∀ child, node.field? name = some child →
      Adds (context.origins role child) (compute (some child))) :
    Adds (context.fieldOrigins node name role) (compute (node.field? name)) := by
  cases found : node.field? name with
  | none =>
    rw [Context.fieldOrigins_none found]
    exact of_quiet quiet
  | some child =>
    rw [Context.fieldOrigins_some found]
    exact each child found

theorem optional {step : Node → Lower Unit}
    (each : ∀ child, node.field? name = some child →
      Adds (context.origins role child) (step child)) :
    Adds (context.fieldOrigins node name role) (match node.field? name with
      | some child => step child
      | none => return ()) := by
  cases found : node.field? name with
  | none =>
    rw [Context.fieldOrigins_none found]
    exact of_quiet (.pure ())
  | some child =>
    rw [Context.fieldOrigins_some found]
    exact each child found

theorem enterBlock {compute : Context → Lower β}
    (each : ∀ scope, Adds origins (compute { context with scope })) :
    Adds origins (enterBlock context >>= compute) :=
  fun state => each state.program.scopes.size (state.withBlock context.scope)

end Adds

end Lowering

end FunctionFlow
