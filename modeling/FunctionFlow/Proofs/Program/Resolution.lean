import FunctionFlow.Program.Binding
import FunctionFlow.Proofs.Program.InRange

/-!
Contract: binding as a function of the program.
-/

namespace FunctionFlow

/-! ### Other references -/

mutual
def Expr.mapReferences (replace : Reference → Reference) : Expr → Expr
  | .function node target => .function node target
  | .ident node reference => .ident node (replace reference)
  | .this node owner => .this node owner
  | .member node whole name => .member node (whole.mapReferences replace) name
  | .call node site callee arguments =>
    .call node site (callee.mapReferences replace) (Expr.mapReferencesIn replace arguments)
  | .assign node target value =>
    .assign node (target.mapReferences replace) (value.mapReferences replace)
  | .select node guards values =>
    .select node (Expr.mapReferencesIn replace guards) (Expr.mapReferencesIn replace values)
  | .object node entries => .object node (Property.mapReferencesIn replace entries)
  | .inert node parts => .inert node (Expr.mapReferencesIn replace parts)
def Expr.mapReferencesIn (replace : Reference → Reference) : List Expr → List Expr
  | [] => []
  | first :: rest => first.mapReferences replace :: Expr.mapReferencesIn replace rest
def Property.mapReferencesIn (replace : Reference → Reference) : List Property → List Property
  | [] => []
  | .mk key value :: rest =>
    .mk key (value.mapReferences replace) :: Property.mapReferencesIn replace rest
end

def Stmt.mapReferences (replace : Reference → Reference) : Stmt → Stmt
  | .expr value => .expr (value.mapReferences replace)
  | .declare decl initial => .declare decl (initial.map (·.mapReferences replace))
  | .result returned => .result (returned.map (·.mapReferences replace))

def FunctionDef.mapReferences (replace : Reference → Reference) (definition : FunctionDef) :
    FunctionDef :=
  { definition with body := definition.body.map (Stmt.mapReferences replace) }

def SourceModule.mapReferences (replace : Reference → Reference) (top : SourceModule) :
    SourceModule :=
  { top with body := top.body.map (Stmt.mapReferences replace) }

def Program.mapReferences (replace : Reference → Reference) (program : Program) : Program :=
  { program with
    modules := program.modules.map (SourceModule.mapReferences replace)
    functions := program.functions.map (FunctionDef.mapReferences replace) }

section

variable {further : Reference → Reference} (replace : Reference → Reference)

theorem Expr.literal?_mapReferences (expr : Expr) :
    (expr.mapReferences replace).literal? = expr.literal? := by
  cases expr <;> rfl

theorem Expr.node_mapReferences (expr : Expr) : (expr.mapReferences replace).node = expr.node := by
  cases expr <;> rfl

theorem Expr.mapReferencesIn_eq (exprs : List Expr) :
    Expr.mapReferencesIn replace exprs = exprs.map (Expr.mapReferences replace) := by
  induction exprs with
  | nil => rfl
  | cons first rest inductionHypothesis =>
    rw [Expr.mapReferencesIn, inductionHypothesis, List.map_cons]

theorem Property.mapReferencesIn_eq (entries : List Property) :
    Property.mapReferencesIn replace entries =
      entries.map (Property.mapValue (Expr.mapReferences replace)) := by
  induction entries with
  | nil => rfl
  | cons first rest inductionHypothesis =>
    obtain ⟨key, value⟩ := first
    rw [Property.mapReferencesIn, inductionHypothesis]
    rfl

def Expr.mapReference : Expr → Expr
  | .ident node reference => .ident node (replace reference)
  | expr => expr

theorem Expr.mapReferences_maps :
    Expr.Maps (Expr.mapReference replace) (Expr.mapReferences replace) where
  parts_head expr := by cases expr <;> rfl
  eq expr := by
    cases expr <;> simp only [Expr.mapReferences, Expr.mapReference, Expr.mapParts,
      Expr.mapReferencesIn_eq, Property.mapReferencesIn_eq]

theorem Expr.mapReferences_mapReferences (further : Reference → Reference) (expr : Expr) :
    (expr.mapReferences replace).mapReferences further =
      expr.mapReferences (further ∘ replace) := by
  have both := (Expr.mapReferences_maps replace).comp (Expr.mapReferences_maps further)
    fun _ expr => by cases expr <;> rfl
  exact both.congr (Expr.mapReferences_maps _) expr fun part _ => by cases part <;> rfl

theorem Stmt.mapReferences_mapReferences (further : Reference → Reference) (stmt : Stmt) :
    (stmt.mapReferences replace).mapReferences further =
      stmt.mapReferences (further ∘ replace) := by
  have combine : Expr.mapReferences further ∘ Expr.mapReferences replace =
      Expr.mapReferences (further ∘ replace) :=
    funext (Expr.mapReferences_mapReferences replace further)
  cases stmt with
  | expr value => exact congrArg Stmt.expr (value.mapReferences_mapReferences replace further)
  | declare | result => simp only [Stmt.mapReferences, Option.map_map, combine]

theorem Expr.mapReferences_congr (expr : Expr)
    (same : ∀ node reference, .ident node reference ∈ expr.all →
      replace reference = further reference) :
    expr.mapReferences replace = expr.mapReferences further := by
  refine (Expr.mapReferences_maps _).congr (Expr.mapReferences_maps _) expr fun part inside => ?_
  cases part with
  | ident node reference => exact congrArg (Expr.ident node) (same node reference inside)
  | _ => rfl

theorem Stmt.mapReferences_congr (stmt : Stmt)
    (same : ∀ node reference, .ident node reference ∈ stmt.exprs →
      replace reference = further reference) :
    stmt.mapReferences replace = stmt.mapReferences further := by
  have sameValue (value : Expr) (isValue : value ∈ stmt.value?) :
      value.mapReferences replace = value.mapReferences further :=
    value.mapReferences_congr replace fun node reference inside =>
      same node reference (Stmt.mem_exprs.mpr ⟨value, isValue, inside⟩)
  cases stmt with
  | expr value => exact congrArg Stmt.expr (sameValue value rfl)
  | declare decl => exact congrArg (Stmt.declare decl) (Option.map_congr sameValue)
  | result => exact congrArg Stmt.result (Option.map_congr sameValue)

theorem Stmt.exprs_mapReferences (stmt : Stmt) :
    (stmt.mapReferences replace).exprs = stmt.exprs.map (Expr.mapReferences replace) :=
  (Expr.mapReferences_maps replace).exprs (by cases stmt <;> rfl)

namespace Program

theorem bodies_mapReferences (program : Program) :
    (program.mapReferences replace).bodies =
      program.bodies.map fun entry => (entry.1, entry.2.map (Stmt.mapReferences replace)) := by
  simp only [bodies, mapReferences, Array.toList_map, List.map_append, List.map_map,
    List.zipIdx_map]
  rfl

theorem stmts_mapReferences (program : Program) :
    (program.mapReferences replace).stmts = program.stmts.map (Stmt.mapReferences replace) := by
  rw [stmts, stmts, bodies_mapReferences, List.flatMap_map, List.map_flatMap]

theorem exprs_mapReferences (program : Program) :
    (program.mapReferences replace).exprs = program.exprs.map (Expr.mapReferences replace) := by
  rw [exprs_eq_flatMap, exprs_eq_flatMap, stmts_mapReferences]
  simp only [List.flatMap_map, List.map_flatMap, Stmt.exprs_mapReferences]

theorem mapReferences_mapReferences (further : Reference → Reference) (program : Program) :
    (program.mapReferences replace).mapReferences further =
      program.mapReferences (further ∘ replace) := by
  have bodies (body : List Stmt) :
      (body.map (Stmt.mapReferences replace)).map (Stmt.mapReferences further) =
        body.map (Stmt.mapReferences (further ∘ replace)) := by
    rw [List.map_map]
    exact List.map_congr_left fun stmt _ => stmt.mapReferences_mapReferences replace further
  have modules : SourceModule.mapReferences further ∘ SourceModule.mapReferences replace =
      SourceModule.mapReferences (further ∘ replace) :=
    funext fun top => congrArg (SourceModule.mk top.file top.scope) (bodies top.body)
  have functions : FunctionDef.mapReferences further ∘ FunctionDef.mapReferences replace =
      FunctionDef.mapReferences (further ∘ replace) :=
    funext fun definition => congrArg (fun body => { definition with body }) (bodies definition.body)
  simp only [mapReferences, Array.map_map, modules, functions]

theorem mapReferences_congr (program : Program)
    (same : ∀ node reference, .ident node reference ∈ program.exprs →
      replace reference = further reference) :
    program.mapReferences replace = program.mapReferences further := by
  have bodies {owner : Option FunctionId} {body : List Stmt}
      (isBody : (owner, body) ∈ program.bodies) :
      body.map (Stmt.mapReferences replace) = body.map (Stmt.mapReferences further) :=
    List.map_congr_left fun stmt inside =>
      stmt.mapReferences_congr replace fun node reference member =>
        same node reference (mem_exprs.mpr ⟨owner, body, stmt, isBody, inside, member⟩)
  have modules : program.modules.map (SourceModule.mapReferences replace) =
      program.modules.map (SourceModule.mapReferences further) := by
    refine Array.map_inj_left.mpr fun top isTop => ?_
    have isBody := mem_bodies.mpr (.inl ⟨top, isTop, rfl, rfl⟩)
    exact congrArg (SourceModule.mk top.file top.scope) (bodies isBody)
  have functions : program.functions.map (FunctionDef.mapReferences replace) =
      program.functions.map (FunctionDef.mapReferences further) := by
    refine Array.map_inj_left.mpr fun definition isDefinition => ?_
    obtain ⟨id, found⟩ := Array.getElem?_of_mem isDefinition
    have isBody := mem_bodies.mpr (.inr ⟨id, definition, found, rfl, rfl⟩)
    exact congrArg (fun body => { definition with body }) (bodies isBody)
  rw [mapReferences, modules, functions]
  rfl

end Program

end

/-! ### Resolution -/

/-- The reference as binding leaves it: a name that is not looked up yet denotes its declaration in
the nearest scope, or the global object. -/
def Program.resolve (program : Program) (reference : Reference) : Reference :=
  match reference.binding with
  | .unresolved =>
    match program.lookup reference.scope reference.name with
    | .ok (some decl) => { reference with binding := .declared decl }
    | .ok none | .error _ => { reference with binding := .global }
  | .declared _ | .global => reference

namespace Program

theorem resolve_name (program : Program) (reference : Reference) :
    (program.resolve reference).name = reference.name := by
  unfold resolve
  cases reference.binding with
  | declared | global => rfl
  | unresolved =>
    dsimp only
    split <;> rfl

theorem resolve_scope (program : Program) (reference : Reference) :
    (program.resolve reference).scope = reference.scope := by
  unfold resolve
  cases reference.binding with
  | declared | global => rfl
  | unresolved =>
    dsimp only
    split <;> rfl

theorem resolve_binding (program : Program) (reference : Reference) :
    (program.resolve reference).binding ≠ .unresolved := by
  unfold resolve
  cases isBinding : reference.binding with
  | declared | global =>
    rw [isBinding]
    simp
  | unresolved =>
    dsimp only
    split <;> simp

theorem resolve_of_ne {program : Program} {reference : Reference}
    (isResolved : reference.binding ≠ .unresolved) : program.resolve reference = reference := by
  unfold resolve
  cases isBinding : reference.binding with
  | declared | global => rfl
  | unresolved => exact absurd isBinding isResolved

theorem resolve_of_lookup {program : Program} {reference : Reference}
    (isUnresolved : reference.binding = .unresolved) {answer : Option DeclId}
    (looked : program.lookup reference.scope reference.name = .ok answer) :
    program.resolve reference = { reference with binding := answer.elim .global .declared } := by
  unfold resolve
  simp only [isUnresolved, looked]
  cases answer <;> rfl

end Program

/-! ### Writes -/

def Declaration.written (update : Option FunctionId → Option FunctionId) (entry : Declaration) :
    Declaration :=
  { entry with writes := entry.writes + 1, functionValue := update entry.functionValue }

/-- A value that is written to a declaration, by an initialisation or by an assignment. -/
structure Write where
  decl : DeclId
  value : Expr
  isInitial : Bool

namespace Write

/-- What a declaration holds after the write. A function literal replaces an older one if it is an
initial value, and only then. -/
def update (write : Write) (held : Option FunctionId) : Option FunctionId :=
  if write.isInitial then write.value.literal?.or held else held.or write.value.literal?

def apply (decls : Array Declaration) (write : Write) : Array Declaration :=
  decls.modify write.decl (Declaration.written write.update)

theorem size_foldl_apply (writes : List Write) (decls : Array Declaration) :
    (writes.foldl apply decls).size = decls.size := by
  induction writes generalizing decls with
  | nil => rfl
  | cons write rest inductionHypothesis =>
    rw [List.foldl_cons, inductionHypothesis, apply, Array.size_modify]

end Write

def Binding.decl? : Binding → Option DeclId
  | .declared decl => some decl
  | .unresolved | .global => none

def Expr.declared? : Expr → Option DeclId
  | .ident _ reference => reference.binding.decl?
  | _ => none

def Expr.assigned (target value : Expr) : List Write :=
  target.declared?.toList.map fun decl => ⟨decl, value, false⟩

mutual
/-- The writes inside a bound expression. An assignment takes effect after those in its target and
its value. -/
def Expr.writes : Expr → List Write
  | .function .. | .ident .. | .this .. => []
  | .member _ whole _ => whole.writes
  | .call _ _ callee arguments => callee.writes ++ Expr.writesIn arguments
  | .assign _ target value => target.writes ++ (value.writes ++ target.assigned value)
  | .select _ guards values => Expr.writesIn guards ++ Expr.writesIn values
  | .object _ entries => Property.writesIn entries
  | .inert _ parts => Expr.writesIn parts
def Expr.writesIn : List Expr → List Write
  | [] => []
  | first :: rest => first.writes ++ Expr.writesIn rest
def Property.writesIn : List Property → List Write
  | [] => []
  | .mk _ value :: rest => value.writes ++ Property.writesIn rest
end

def Expr.ownWrites : Expr → List Write
  | .assign _ target value => target.assigned value
  | _ => []

theorem Expr.writesIn_eq (exprs : List Expr) : Expr.writesIn exprs = exprs.flatMap Expr.writes := by
  induction exprs with
  | nil => rfl
  | cons first rest inductionHypothesis =>
    rw [Expr.writesIn, inductionHypothesis, List.flatMap_cons]

theorem Property.writesIn_eq (entries : List Property) :
    Property.writesIn entries = (entries.map Property.value).flatMap Expr.writes := by
  induction entries with
  | nil => rfl
  | cons first rest inductionHypothesis =>
    obtain ⟨key, value⟩ := first
    rw [Property.writesIn, inductionHypothesis]
    rfl

theorem Expr.writes_eq (expr : Expr) :
    expr.writes = expr.parts.flatMap Expr.writes ++ expr.ownWrites := by
  cases expr <;>
    simp [Expr.writes, Expr.parts, Expr.ownWrites, Expr.writesIn_eq, Property.writesIn_eq]

/-- The writes of a bound statement. An initialisation takes effect before the writes in its value. -/
def Stmt.writes : Stmt → List Write
  | .expr value => value.writes
  | .declare decl (some value) => ⟨decl, value, true⟩ :: value.writes
  | .result (some value) => value.writes
  | .declare _ none | .result none => []

/-- The writes of a bound program, those of modules before those of functions. -/
def Program.writes (program : Program) : List Write :=
  program.stmts.flatMap Stmt.writes

def Write.mapReferences (replace : Reference → Reference) (write : Write) : Write :=
  { write with value := write.value.mapReferences replace }

section

variable {replace : Reference → Reference}

theorem Write.apply_mapReferences (decls : Array Declaration) (write : Write) :
    apply decls (write.mapReferences replace) = apply decls write := by
  have sameUpdate : (write.mapReferences replace).update = write.update := by
    funext held
    simp only [update, Write.mapReferences, Expr.literal?_mapReferences]
  rw [apply, apply, sameUpdate]
  rfl

section

variable (keeps : ∀ reference, (replace reference).binding = reference.binding)
include keeps

theorem Expr.declared?_mapReferences (expr : Expr) :
    (expr.mapReferences replace).declared? = expr.declared? := by
  cases expr with
  | ident _ reference => exact congrArg Binding.decl? (keeps reference)
  | _ => rfl

theorem Expr.assigned_mapReferences (target value : Expr) :
    (target.mapReferences replace).assigned (value.mapReferences replace) =
      (target.assigned value).map (Write.mapReferences replace) := by
  rw [Expr.assigned, Expr.assigned, target.declared?_mapReferences keeps, List.map_map]
  rfl

theorem Expr.writes_mapReferences (expr : Expr) :
    (expr.mapReferences replace).writes = expr.writes.map (Write.mapReferences replace) := by
  induction expr using Expr.partsInduction with
  | step expr inductionHypothesis =>
    have own : (expr.mapReferences replace).ownWrites =
        expr.ownWrites.map (Write.mapReferences replace) := by
      cases expr with
      | assign _ target value => exact target.assigned_mapReferences keeps value
      | _ => rfl
    rw [Expr.writes_eq, (Expr.mapReferences_maps replace).parts, own, expr.writes_eq,
      List.map_append, List.flatMap_map, List.map_flatMap, List.flatMap_congr inductionHypothesis]

theorem Stmt.writes_mapReferences (stmt : Stmt) :
    (stmt.mapReferences replace).writes = stmt.writes.map (Write.mapReferences replace) := by
  cases stmt with
  | expr value => exact value.writes_mapReferences keeps
  | declare _ initial =>
    cases initial with
    | none => rfl
    | some value => exact congrArg _ (value.writes_mapReferences keeps)
  | result returned =>
    cases returned with
    | none => rfl
    | some value => exact value.writes_mapReferences keeps

end

end

def Program.resolved (program : Program) : Program :=
  program.mapReferences program.resolve

def Program.bound (program : Program) : Program :=
  { program.resolved with decls := program.resolved.writes.foldl Write.apply program.decls }

/-! ### Computations that make writes -/

namespace Resolve

def Makes {α : Type} (compute : Resolve α) (answer : α) (writes : List Write) : Prop :=
  ∀ state result after, compute.run state = .ok (result, after) →
    result = answer ∧ after.decls = writes.foldl Write.apply state.decls

namespace Makes

variable {α β : Type} {first : Resolve α} {answer : α} {writes : List Write}

theorem pure (answer : α) : Makes (Pure.pure answer) answer [] := by
  rintro state _ _ ⟨⟩
  exact ⟨rfl, rfl⟩

theorem bind {next : α → Resolve β} {result : β} {further : List Write}
    (begins : Makes first answer writes) (goesOn : Makes (next answer) result further) :
    Makes (first >>= next) result (writes ++ further) := by
  intro state other after ran
  rw [StateT.run_bind] at ran
  obtain ⟨⟨_, between⟩, ranFirst, ranNext⟩ := Checked.bind_eq_ok.mp ran
  obtain ⟨rfl, isBetween⟩ := begins _ _ _ ranFirst
  obtain ⟨rfl, isAfter⟩ := goesOn _ _ _ ranNext
  rw [List.foldl_append, ← isBetween]
  exact ⟨rfl, isAfter⟩

theorem map {move : α → β} (makes : Makes first answer writes) :
    Makes (first >>= fun found => Pure.pure (move found)) (move answer) writes := by
  have mapped : Makes (first >>= fun found => Pure.pure (move found)) (move answer) (writes ++ []) :=
    makes.bind (.pure _)
  rwa [List.append_nil] at mapped

end Makes

theorem write_eq_ok {decl : DeclId} {update : Option FunctionId → Option FunctionId}
    {state after : Resolution} :
    (write decl update).run state = .ok ((), after) ↔
      ∃ entry, state.decls[decl]? = some entry ∧
        { state with decls := state.decls.setIfInBounds decl (entry.written update) } = after := by
  have runs : (write decl update).run state =
      (fetch state.decls decl (.declaration decl) >>= fun entry => .ok ((),
        { state with decls := state.decls.setIfInBounds decl (entry.written update) })) := by
    show (liftM (fetch state.decls decl (.declaration decl)) >>= fun entry =>
      set { state with decls := state.decls.setIfInBounds decl (entry.written update) } :
        Resolve Unit).run state = _
    cases fetch state.decls decl (.declaration decl) <;> rfl
  simp only [runs, Checked.bind_eq_ok, fetch_eq_ok, Except.ok.injEq, Prod.mk.injEq, true_and]

theorem declare_eq_ok {program : Program} {decl : DeclId} {answer : Stmt}
    {state after : Resolution} :
    (stmt program (.declare decl none)).run state = .ok (answer, after) ↔
      ∃ entry, state.decls[decl]? = some entry ∧ .declare decl none = answer ∧ state = after := by
  have runs : (stmt program (.declare decl none)).run state =
      (fetch state.decls decl (.declaration decl) >>= fun _ =>
        .ok (.declare decl none, state)) := by
    show (discard (liftM (fetch state.decls decl (.declaration decl))) >>= fun _ =>
      return .declare decl none : Resolve Stmt).run state = _
    cases fetch state.decls decl (.declaration decl) <;> rfl
  simp only [runs, Checked.bind_eq_ok, fetch_eq_ok, Except.ok.injEq, Prod.mk.injEq]

theorem write_makes (made : Write) : Makes (write made.decl made.update) () [made] := by
  intro state _ after ran
  obtain ⟨entry, found, rfl⟩ := write_eq_ok.mp ran
  exact ⟨rfl, (Table.modify_eq_set found _).symm⟩

variable {program : Program}

theorem reference_makes (reference : Reference) :
    Makes (Resolve.reference program reference) (program.resolve reference) [] := by
  unfold Resolve.reference Program.resolve
  cases reference.binding with
  | declared | global => exact .pure _
  | unresolved =>
    intro state result after ran
    obtain ⟨⟨answer, _⟩, looked, ran⟩ := Checked.bind_eq_ok.mp ran
    cases found : program.lookup reference.scope reference.name with
    | error =>
      rw [found] at looked
      cases looked
    | ok known =>
      rw [found] at looked
      cases looked
      cases answer with
      | none =>
        cases ran
        exact ⟨rfl, rfl⟩
      | some decl =>
        cases ran
        exact ⟨rfl, rfl⟩

theorem assignment_makes (target value : Expr) :
    Makes (assignment target value) () (target.assigned value) := by
  cases target with
  | ident _ reference =>
    obtain ⟨name, scope, binding⟩ := reference
    cases binding with
    | declared decl => exact write_makes ⟨decl, value, false⟩
    | unresolved | global => exact .pure ()
  | _ => exact .pure ()

mutual
theorem expr_makes (expr : Expr) :
    Makes (Resolve.expr program expr) (expr.mapReferences program.resolve)
      (expr.mapReferences program.resolve).writes := by
  cases expr with
  | function | this => exact .pure _
  | ident _ reference => exact (reference_makes reference).map
  | member _ whole => exact (expr_makes whole).map
  | call _ _ callee arguments => exact (expr_makes callee).bind (exprs_makes arguments).map
  | assign _ target value =>
    exact (expr_makes target).bind ((expr_makes value).bind (assignment_makes _ _).map)
  | select _ guards values => exact (exprs_makes guards).bind (exprs_makes values).map
  | object _ entries => exact (properties_makes entries).map
  | inert _ parts => exact (exprs_makes parts).map
theorem exprs_makes (exprs : List Expr) :
    Makes (Resolve.exprs program exprs) (Expr.mapReferencesIn program.resolve exprs)
      (Expr.writesIn (Expr.mapReferencesIn program.resolve exprs)) := by
  cases exprs with
  | nil => exact .pure []
  | cons first rest => exact (expr_makes first).bind (exprs_makes rest).map
theorem properties_makes (entries : List Property) :
    Makes (properties program entries) (Property.mapReferencesIn program.resolve entries)
      (Property.writesIn (Property.mapReferencesIn program.resolve entries)) := by
  cases entries with
  | nil => exact .pure []
  | cons first rest =>
    obtain ⟨key, value⟩ := first
    exact (expr_makes value).bind (properties_makes rest).map
end

theorem stmt_makes (stmt : Stmt) :
    Makes (Resolve.stmt program stmt) (stmt.mapReferences program.resolve)
      (stmt.mapReferences program.resolve).writes := by
  cases stmt with
  | expr value => exact (expr_makes value).map
  | declare decl initial =>
    cases initial with
    | none =>
      intro state answer after ran
      obtain ⟨_, _, rfl, rfl⟩ := declare_eq_ok.mp ran
      exact ⟨rfl, rfl⟩
    | some value =>
      -- the write happens while the value is not resolved, and sees the same literal
      have writes : Makes (write decl fun held => value.literal?.or held) ()
          [⟨decl, value.mapReferences program.resolve, true⟩] := by
        rw [← value.literal?_mapReferences program.resolve]
        exact write_makes ⟨decl, value.mapReferences program.resolve, true⟩
      exact writes.bind (expr_makes value).map
  | result returned =>
    cases returned with
    | none => exact .pure _
    | some value => exact (expr_makes value).map

theorem body_makes (stmts : List Stmt) :
    Makes (Resolve.body program stmts) (stmts.map (Stmt.mapReferences program.resolve))
      ((stmts.map (Stmt.mapReferences program.resolve)).flatMap Stmt.writes) := by
  induction stmts with
  | nil => exact .pure []
  | cons first _ inductionHypothesis => exact (stmt_makes first).bind inductionHypothesis.map

theorem modules_makes (tops : List SourceModule) :
    Makes (Resolve.modules program tops) (tops.map (SourceModule.mapReferences program.resolve))
      ((tops.map (SourceModule.mapReferences program.resolve)).flatMap
        fun top => top.body.flatMap Stmt.writes) := by
  induction tops with
  | nil => exact .pure []
  | cons first _ inductionHypothesis => exact (body_makes first.body).bind inductionHypothesis.map

theorem functions_makes (definitions : List FunctionDef) :
    Makes (Resolve.functions program definitions)
      (definitions.map (FunctionDef.mapReferences program.resolve))
      ((definitions.map (FunctionDef.mapReferences program.resolve)).flatMap
        fun definition => definition.body.flatMap Stmt.writes) := by
  induction definitions with
  | nil => exact .pure []
  | cons first _ inductionHypothesis => exact (body_makes first.body).bind inductionHypothesis.map

end Resolve

/-! ### Programs -/

namespace Program

theorem bind_eq_ok {program : Program} {bound : Bound} :
    program.bind = .ok bound ↔ ∃ tops middle definitions final,
      (Resolve.modules program program.modules.toList).run { decls := program.decls } =
        .ok (tops, middle) ∧
      (Resolve.functions program program.functions.toList).run middle = .ok (definitions, final) ∧
      { program := { program with
          modules := tops.toArray, functions := definitions.toArray, decls := final.decls }
        declared := final.declared
        global := final.global : Bound } = bound := by
  simp only [bind, StateT.run_bind, Checked.bind_eq_ok]
  constructor
  · rintro ⟨_, ⟨⟨tops, middle⟩, ranTops, ⟨definitions, final⟩, ranDefinitions, ran⟩, isBound⟩
    cases ran
    exact ⟨tops, middle, definitions, final, ranTops, ranDefinitions, Except.ok.inj isBound⟩
  · rintro ⟨tops, middle, definitions, final, ranTops, ranDefinitions, rfl⟩
    exact ⟨_, ⟨_, ranTops, _, ranDefinitions, rfl⟩, rfl⟩

theorem program_eq_of_bind {program : Program} {bound : Bound} (ran : program.bind = .ok bound) :
    bound.program = program.bound := by
  obtain ⟨tops, middle, definitions, final, ranTops, ranDefinitions, rfl⟩ := bind_eq_ok.mp ran
  obtain ⟨rfl, isMiddle⟩ := Resolve.modules_makes _ _ _ _ ranTops
  obtain ⟨rfl, isFinal⟩ := Resolve.functions_makes _ _ _ _ ranDefinitions
  have isDecls : final.decls = program.resolved.writes.foldl Write.apply program.decls := by
    rw [isFinal, isMiddle, ← List.foldl_append, writes, stmts_eq, List.flatMap_append,
      List.flatMap_assoc, List.flatMap_assoc, resolved, mapReferences, Array.toList_map,
      Array.toList_map]
  rw [bound, ← isDecls, resolved, mapReferences]
  simp only [← Array.toList_map, Array.toArray_toList]

end Program

end FunctionFlow
