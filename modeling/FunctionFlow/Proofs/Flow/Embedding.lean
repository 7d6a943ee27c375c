import FunctionFlow.Proofs.Flow.Heads
import FunctionFlow.Proofs.Program.Embedding

/-!
Contract: the flow of a program inside another one.
-/

namespace FunctionFlow

/-! ### Places under other ids -/

def Slot.rename (ids : Renaming) : Slot → Slot
  | named name => named name
  | declared decl => declared (ids .decl decl)
  | param function index => param (ids .function function) index
  | returned function => returned (ids .function function)
  | arg call index => arg (ids .call call) index
  | result call => result (ids .call call)
  | merge node => merge (ids .node node)

def Vertex.rename (ids : Renaming) : Vertex → Vertex
  | function id => function (ids .function id)
  | callee call => callee (ids .call call)
  | native name => native name
  | slot location => slot (location.rename ids)

@[simp] theorem Vertex.isValue_rename (ids : Renaming) (vertex : Vertex) :
    (vertex.rename ids).isValue = vertex.isValue := by
  cases vertex <;> rfl

@[simp] theorem Vertex.rename_refl (vertex : Vertex) : vertex.rename .refl = vertex := by
  rcases vertex with _ | _ | _ | (_ | _ | _ | _ | _ | _ | _) <;> rfl

theorem Vertex.rename_undone {ids back : Renaming}
    (undone : ∀ kind id, back kind (ids kind id) = id) (vertex : Vertex) :
    (vertex.rename ids).rename back = vertex := by
  cases vertex with
  | function id => exact congrArg function (undone .function id)
  | callee call => exact congrArg callee (undone .call call)
  | native name => rfl
  | slot location => cases location <;> simp [Vertex.rename, Slot.rename, undone]

def Renaming.Injective (ids : Renaming) : Prop :=
  ∀ kind, Function.Injective (ids kind)

theorem Vertex.rename_injective {ids : Renaming} (injective : ids.Injective) :
    Function.Injective (Vertex.rename ids) := by
  intro first second same
  have inj {kind : IdKind} {left right : Nat} : ids kind left = ids kind right ↔ left = right :=
    (injective kind).eq_iff
  cases first with
  | slot location =>
    cases second with
    | slot other => cases location <;> cases other <;> simp_all [Vertex.rename, Slot.rename]
    | function | callee | native => simp [Vertex.rename] at same
  | function | callee | native => cases second <;> simp_all [Vertex.rename]

namespace Growth

def rename (ids : Renaming) (growth : Growth) : Growth where
  places := growth.places.map (Vertex.rename ids)
  arrows := growth.arrows.map (Prod.map (Vertex.rename ids) (Vertex.rename ids))

def Item.rename (ids : Renaming) : Item → Item
  | place vertex => place (vertex.rename ids)
  | arrow source target => arrow (source.rename ids) (target.rename ids)

theorem Has.rename {growth : Growth} {item : Item} (has : growth.Has item) (ids : Renaming) :
    (growth.rename ids).Has (item.rename ids) := by
  cases item with
  | place vertex => exact List.mem_map_of_mem has
  | arrow source target => exact List.mem_map_of_mem has

section

variable (ids : Renaming)

@[simp] theorem rename_empty : ({} : Growth).rename ids = {} := rfl

@[simp] theorem rename_append (first second : Growth) :
    (first ++ second).rename ids = first.rename ids ++ second.rename ids := by
  simp only [rename, places_append, arrows_append, List.map_append]
  rfl

@[simp] theorem rename_arrow (source target : Vertex) :
    (arrow source target).rename ids = arrow (source.rename ids) (target.rename ids) := rfl

@[simp] theorem rename_property (name : Option String) :
    (property name).rename ids = property name := by
  cases name <;> rfl

theorem rename_sum (growths : List Growth) :
    (sum growths).rename ids = sum (growths.map (Growth.rename ids)) := by
  induction growths with
  | nil => rfl
  | cons first rest inductionHypothesis =>
    rw [sum, rename_append, inductionHypothesis, List.map_cons, sum]

theorem meeting_rename (node : NodeId) (sources : List Vertex) :
    meeting (ids .node node) (sources.map (Vertex.rename ids)) =
      (meeting node sources).map (Vertex.rename ids) := by
  match sources with
  | [] | [_] | _ :: _ :: _ => rfl

theorem meet_rename (node : NodeId) (sources : List Vertex) :
    meet (ids .node node) (sources.map (Vertex.rename ids)) = (meet node sources).rename ids := by
  match sources with
  | [] | [_] => rfl
  | first :: second :: rest =>
    have meets (sources : List Vertex) :
        (sum (sources.map fun source => arrow source (.slot (.merge node)))).rename ids =
          sum ((sources.map (Vertex.rename ids)).map fun source =>
            arrow source (.slot (.merge (ids .node node)))) := by
      rw [rename_sum, List.map_map, List.map_map]
      rfl
    exact congrArg (place (.slot (.merge (ids .node node))) ++ ·)
      (meets (first :: second :: rest)).symm

end

theorem flow_rename {ids : Renaming} (injective : ids.Injective) (source : Option Vertex)
    (target : Vertex) :
    flow (source.map (Vertex.rename ids)) (target.rename ids) =
      (flow source target).rename ids := by
  cases source with
  | none => rfl
  | some source =>
    by_cases same : source = target
    · simp [flow, same]
    · have apart : source.rename ids ≠ target.rename ids := fun alike =>
        same (Vertex.rename_injective injective alike)
      simp [flow, same, apart]

end Growth

/-! ### Expressions and statements of the program -/

theorem Expr.holders_rename {program whole : Program} {ids : Renaming} {exprs : List Expr}
    (each : ∀ expr ∈ exprs,
      (expr.rename ids).holder whole = (expr.holder program).map (Vertex.rename ids)) :
    Expr.holders whole (exprs.map (Expr.rename ids)) =
      (Expr.holders program exprs).map (Vertex.rename ids) := by
  induction exprs with
  | nil => rfl
  | cons first rest inductionHypothesis =>
    obtain ⟨ofFirst, ofRest⟩ := List.forall_mem_cons.mp each
    rw [List.map_cons, Expr.holders, Expr.holders, List.map_append, ofFirst,
      inductionHypothesis ofRest]
    cases first.holder program <;> rfl

namespace Program.Embeds

variable {program whole : Program} {ids : Renaming} (embeds : program.Embeds ids whole)
  (inRange : program.InRange)
include embeds

theorem passesReceiver {site : CallId} (below : site < program.calls.size) :
    whole.passesReceiver (ids .call site) = program.passesReceiver site := by
  have found : program.calls[site]? = some program.calls[site] := Array.getElem?_eq_getElem below
  rw [Program.passesReceiver, Program.passesReceiver, found, embeds.calls site _ found]
  rfl

include inRange

theorem isGlobal {id : DeclId} (below : id < program.decls.size) :
    whole.isGlobal (ids .decl id) = program.isGlobal id := by
  obtain ⟨decl, found, declInRange⟩ := inRange.decl_of_lt below
  obtain ⟨scope, _, isScope⟩ := fetch_of_lt declInRange.scope (.scope decl.scope)
  have foundWhole : whole.decl (ids .decl id) = .ok (decl.rename ids) :=
    fetch_eq_ok.mpr (embeds.decls id decl (fetch_eq_ok.mp found))
  have scopeWhole : whole.scope (ids .scope decl.scope) = .ok (scope.rename ids) :=
    fetch_eq_ok.mpr (embeds.scopes decl.scope scope (fetch_eq_ok.mp isScope))
  have isScope : program.scope decl.scope = .ok scope := isScope
  have sameKind : (decl.rename ids).kind = .imported ↔ decl.kind = .imported := by
    cases kind : decl.kind <;> simp [Declaration.rename, DeclKind.rename, kind]
  simp only [Program.isGlobal, found, foundWhole, Checked.ok_bind, sameKind]
  split
  · rfl
  · rw [isScope, show (decl.rename ids).scope = ids .scope decl.scope from rfl, scopeWhole]
    rfl

theorem slotOf {id : DeclId} (below : id < program.decls.size) :
    whole.slotOf (ids .decl id) = (program.slotOf id).rename ids := by
  obtain ⟨decl, found, declInRange⟩ := inRange.decl_of_lt below
  have foundWhole : whole.decl (ids .decl id) = .ok (decl.rename ids) :=
    fetch_eq_ok.mpr (embeds.decls id decl (fetch_eq_ok.mp found))
  simp only [Program.slotOf, Program.declVertex, found, foundWhole, Checked.ok_bind,
    embeds.isGlobal inRange below]
  obtain ⟨isGlobal, answered⟩ := inRange.isGlobal_of_lt below
  rw [answered]
  cases kind : decl.kind <;> cases isGlobal <;>
    simp only [Declaration.rename, DeclKind.rename, kind] <;> rfl

theorem slot {reference : Reference} (isInRange : reference.binding.InRange program.sizes) :
    (reference.rename ids).slot whole = (reference.slot program).rename ids := by
  obtain ⟨name, scope, binding⟩ := reference
  cases binding with
  | declared decl => exact embeds.slotOf inRange isInRange
  | global | unresolved => rfl

theorem holder (expr : Expr) (isInRange : expr.InRange program.sizes) :
    (expr.rename ids).holder whole = (expr.holder program).map (Vertex.rename ids) := by
  induction expr using Expr.formInduction with
  | function | call => rfl
  | ident node reference =>
    have sameSlot := embeds.slot inRange (Expr.inRange_ident.mp isInRange).2
    exact congrArg (fun slot => some (Vertex.slot slot)) sameSlot
  | this node owner => cases owner <;> rfl
  | member node receiver name => cases name <;> rfl
  | assign node target value _ ofValue => exact ofValue (Expr.inRange_assign.mp isInRange).2
  | select node guards values _ ofValues =>
    have valuesInRange := (Expr.inRange_select.mp isInRange).2
    have held := Expr.holders_rename fun value inside =>
      ofValues value inside (valuesInRange value inside)
    rw [Expr.rename, Expr.holder, Expr.holder, Expr.renameAll_eq, held, Growth.meeting_rename]
  | object | inert => rfl

theorem holders {exprs : List Expr} (areInRange : ∀ expr ∈ exprs, expr.InRange program.sizes) :
    Expr.holders whole (exprs.map (Expr.rename ids)) =
      (Expr.holders program exprs).map (Vertex.rename ids) :=
  Expr.holders_rename fun expr inside => embeds.holder inRange expr (areInRange expr inside)

section

variable (injective : ids.Injective)
include injective

theorem flow {expr : Expr} (isInRange : expr.InRange program.sizes) (target : Vertex) :
    Growth.flow ((expr.rename ids).holder whole) (target.rename ids) =
      (Growth.flow (expr.holder program) target).rename ids := by
  rw [embeds.holder inRange expr isInRange, Growth.flow_rename injective]

theorem receiverGrowth {site : CallId} (below : site < program.calls.size) {callee : Expr}
    (isInRange : callee.InRange program.sizes) :
    (callee.rename ids).receiverGrowth whole (ids .call site) =
      (callee.receiverGrowth program site).rename ids := by
  cases callee with
  | member node receiver name =>
    have received := embeds.flow inRange injective (Expr.inRange_member.mp isInRange)
      (.slot (.arg site 0))
    simp only [Expr.rename, Expr.receiverGrowth, embeds.passesReceiver below]
    split
    · rw [Growth.rename_append, ← received]
      rfl
    · rfl
  | _ => rfl

theorem argumentHeads {site : CallId} {index : Nat} {arguments : List Expr}
    (areInRange : ∀ value ∈ arguments, value.InRange program.sizes) :
    Expr.argumentHeads whole (ids .call site) index (arguments.map (Expr.rename ids)) =
      (Expr.argumentHeads program site index arguments).rename ids := by
  rw [Expr.argumentHeads, Expr.argumentHeads, Growth.rename_sum, List.zipIdx_map, List.map_map,
    List.map_map]
  refine congrArg Growth.sum (List.map_congr_left fun item inside => ?_)
  have argued := embeds.flow inRange injective
    (areInRange item.1 (List.fst_mem_of_mem_zipIdx inside)) (.slot (.arg site item.2))
  simp only [Function.comp_apply, Growth.rename_append, ← argued]
  rfl

theorem propertyHead {entry : Property}
    (isInRange : ∀ key value, entry = .mk key value → value.InRange program.sizes) :
    (entry.rename ids).headGrowth whole = (entry.headGrowth program).rename ids := by
  obtain ⟨key, value⟩ := entry
  cases key with
  | none => rfl
  | some name =>
    have kept := embeds.flow inRange injective (isInRange _ _ rfl) (.named name)
    rw [Property.rename, Property.headGrowth, Property.headGrowth, Growth.rename_append, ← kept]
    rfl

theorem headGrowth {part : Expr} (isInRange : part.InRange program.sizes) :
    (part.rename ids).headGrowth whole = (part.headGrowth program).rename ids := by
  cases part with
  | function | inert => rfl
  | ident node reference =>
    have sameSlot := embeds.slot inRange (Expr.inRange_ident.mp isInRange).2
    exact congrArg (fun slot => Growth.place (.slot slot)) sameSlot
  | this node owner => cases owner <;> rfl
  | member node receiver name => exact (Growth.rename_property ids name).symm
  | call node site callee arguments =>
    obtain ⟨below, calleeInRange, argumentsInRange⟩ := Expr.inRange_call.mp isInRange
    have called := embeds.flow inRange injective calleeInRange (.callee site)
    simp only [Expr.rename, Expr.renameAll_eq, Expr.headGrowth_call, Growth.rename_append,
      embeds.receiverGrowth inRange injective below calleeInRange,
      embeds.argumentHeads inRange injective argumentsInRange, ← called]
    rfl
  | assign node target value =>
    obtain ⟨targetInRange, valueInRange⟩ := Expr.inRange_assign.mp isInRange
    rw [Expr.rename, Expr.headGrowth_assign, Expr.headGrowth_assign,
      embeds.holder inRange target targetInRange]
    cases target.holder program with
    | none => rfl
    | some place => exact embeds.flow inRange injective valueInRange place
  | select node guards values =>
    rw [Expr.rename, Expr.headGrowth_select, Expr.headGrowth_select, Expr.renameAll_eq,
      embeds.holders inRange (Expr.inRange_select.mp isInRange).2, Growth.meet_rename]
  | object node entries =>
    rw [Expr.rename, Expr.headGrowth_object, Expr.headGrowth_object, Property.renameAll_eq,
      Growth.rename_sum, List.map_map, List.map_map]
    refine congrArg Growth.sum (List.map_congr_left fun entry inside => ?_)
    refine embeds.propertyHead inRange injective fun key value isEntry => ?_
    exact Expr.inRange_object.mp isInRange key value (isEntry ▸ inside)

theorem stmtHead {owner : Option FunctionId} {stmt : Stmt}
    (isInRange : stmt.InRange program.sizes) :
    (stmt.rename ids).headGrowth whole (owner.map (ids .function)) =
      (stmt.headGrowth program owner).rename ids := by
  cases stmt with
  | expr => rfl
  | declare decl initial =>
    cases initial with
    | none => rfl
    | some value =>
      have written := embeds.flow inRange injective (isInRange.2 value rfl)
        (.slot (program.slotOf decl))
      have sameSlot := embeds.slotOf inRange isInRange.1
      simp only [Stmt.rename, Option.map_some, Stmt.headGrowth, sameSlot, Growth.rename_append,
        ← written]
      rfl
  | result returned =>
    cases owner with
    | none => rfl
    | some function =>
      cases returned with
      | none => rfl
      | some value =>
        have given := embeds.flow inRange injective (isInRange value rfl)
          (.slot (.returned function))
        simp only [Stmt.rename, Option.map_some, Stmt.headGrowth, Option.bind_some,
          Growth.rename_append, ← given]
        rfl

theorem growth {item : Growth.Item} (has : program.growth.Has item) :
    whole.growth.Has (item.rename ids) := by
  rw [Program.has_growth] at has ⊢
  rcases has with ⟨id, below, rfl⟩ | ⟨id, below, rfl⟩ | ⟨owner, body, stmt, isBody, inside, here⟩ |
    ⟨part, member, here⟩
  · have found := embeds.functions id _ (Array.getElem?_eq_getElem below)
    exact .inl ⟨_, Table.below found, rfl⟩
  · have found := embeds.calls id _ (Array.getElem?_eq_getElem below)
    exact .inr (.inl ⟨_, Table.below found, rfl⟩)
  · refine .inr (.inr (.inl ⟨_, _, _, embeds.bodies isBody, List.mem_map_of_mem inside, ?_⟩))
    rw [embeds.stmtHead inRange injective (inRange.body isBody inside)]
    exact here.rename ids
  · refine .inr (.inr (.inr ⟨_, embeds.exprs member, ?_⟩))
    rw [embeds.headGrowth inRange injective fun inner isInner =>
      inRange.head (Program.mem_exprs_of_part member isInner)]
    exact here.rename ids

end

end Program.Embeds

/-! ### The graph of the program -/

/-- Everything in the first graph is in the second one, under other ids. -/
structure FlowGraph.Embeds (ids : Renaming) (graph whole : FlowGraph) : Prop where
  vertices : ∀ vertex ∈ graph.vertices, vertex.rename ids ∈ whole.vertices
  arrows : ∀ source target, graph.Arrow source target →
    whole.Arrow (source.rename ids) (target.rename ids)

theorem Analysis.bodyGraph_embeds {program whole : Program} {ids : Renaming}
    (embeds : program.Embeds ids whole) (injective : ids.Injective) (inRange : program.InRange)
    (wholeInRange : whole.InRange) {natives more : NativeTable}
    (included : natives.entries ⊆ more.entries) {graph wholeGraph : FlowGraph}
    {events wholeEvents : List Event} (built : bodyGraph program natives = .ok (graph, events))
    (builtWhole : bodyGraph whole more = .ok (wholeGraph, wholeEvents)) :
    graph.Embeds ids wholeGraph := by
  obtain ⟨_, _, builtToo, grown⟩ := bodyGraph_grown inRange natives
  cases built.symm.trans builtToo
  obtain ⟨_, _, builtWholeToo, grownWhole⟩ := bodyGraph_grown wholeInRange more
  cases builtWhole.symm.trans builtWholeToo
  constructor
  case vertices =>
    intro vertex member
    rw [grown.mem_vertices, Growth.places_append, List.mem_append, Growth.mem_places_sum_map]
      at member
    rw [grownWhole.mem_vertices, Growth.places_append, List.mem_append, Growth.mem_places_sum_map]
    rcases member with old | ⟨entry, isEntry, here⟩ | here
    · cases old with | mk old => cases old
    · refine .inr (.inl ⟨entry, included isEntry, ?_⟩)
      have same : vertex = .native entry.1 ∨ vertex = .named entry.2 := by
        simpa [Build.nativeGrowth] using here
      rcases same with rfl | rfl <;> simp [Build.nativeGrowth, Vertex.rename, Slot.rename]
    · have moved : whole.growth.Has (.place (vertex.rename ids)) :=
        embeds.growth inRange injective (show program.growth.Has (.place vertex) from here)
      exact .inr (.inr moved)
  case arrows =>
    intro source target arrow
    rcases grown.arrow_natives_iff.mp arrow with ⟨entry, isEntry, rfl, rfl⟩ | here
    · exact grownWhole.arrow_natives_iff.mpr (.inl ⟨entry, included isEntry, rfl, rfl⟩)
    · exact grownWhole.arrow_natives_iff.mpr (.inr (embeds.growth inRange injective here))

end FunctionFlow
