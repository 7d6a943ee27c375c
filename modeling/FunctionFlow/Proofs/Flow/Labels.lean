import FunctionFlow.Proofs.Flow.Heads

/-!
Contract: graphs whose vertices belong to a program, and the labels of their vertices.
-/

namespace FunctionFlow

variable {vertex : Vertex} {graph : FlowGraph}

def Slot.InRange (sizes : TableSizes) : Slot → Prop
  | named _ | merge _ => True
  | declared decl => decl < sizes.decls
  | param function _ | returned function => function < sizes.functions
  | arg call _ | result call => call < sizes.calls

def Vertex.InRange (sizes : TableSizes) : Vertex → Prop
  | function id => id < sizes.functions
  | callee call => call < sizes.calls
  | native _ => True
  | slot location => location.InRange sizes

/-- A graph between vertices that belong to the program. -/
structure FlowGraph.Of (program : Program) (graph : FlowGraph) : Prop where
  wellFormed : graph.WellFormed
  inRange : ∀ vertex ∈ graph.vertices, vertex.InRange program.sizes

variable {program : Program}

theorem FlowGraph.Of.of_vertices {origin : FlowGraph} (of : origin.Of program)
    (wellFormed : graph.WellFormed) (same : graph.vertices = origin.vertices) : graph.Of program :=
  ⟨wellFormed, fun vertex member => of.inRange vertex (same ▸ member)⟩

/-! ### Labels -/

namespace Program

/-- The name under which the code of a function is reported, or the code outside all functions. -/
inductive GoesBy (program : Program) : Option FunctionId → String → Prop
  | top : GoesBy program none "global"
  | named {id : FunctionId} {definition : FunctionDef} {name : String}
    (found : program.functions[id]? = some definition) (isNamed : definition.name = some name) :
    GoesBy program (some id) name
  | unnamed {id : FunctionId} {definition : FunctionDef}
    (found : program.functions[id]? = some definition) (isUnnamed : definition.name = none) :
    GoesBy program (some id) "anon"

theorem goesBy_displayName {id : FunctionId} {definition : FunctionDef}
    (found : program.functions[id]? = some definition) :
    program.GoesBy (some id) definition.displayName := by
  unfold FunctionDef.displayName
  cases isNamed : definition.name with
  | none => exact .unnamed found isNamed
  | some name => exact .named found isNamed

end Program

namespace Program.InRange

variable (inRange : program.InRange)
include inRange

theorem function_of_lt {id : FunctionId} (below : id < program.functions.size) :
    ∃ definition, program.functions[id]? = some definition ∧
      program.function id = .ok definition ∧ definition.InRange program.sizes := by
  obtain ⟨definition, member, found⟩ := fetch_of_lt below (.function id)
  exact ⟨definition, fetch_eq_ok.mp found, found, inRange.functions definition member⟩

theorem call_of_lt {id : CallId} (below : id < program.calls.size) :
    ∃ site, program.calls[id]? = some site ∧ program.call id = .ok site ∧
      site.InRange program.sizes := by
  obtain ⟨site, member, found⟩ := fetch_of_lt below (.call id)
  exact ⟨site, fetch_eq_ok.mp found, found, inRange.calls site member⟩

theorem enclosingName_goesBy {enclosing : Option FunctionId}
    (within : ∀ id ∈ enclosing, id < program.functions.size) :
    ∃ name, program.enclosingName enclosing = .ok name ∧ program.GoesBy enclosing name := by
  cases enclosing with
  | none => exact ⟨"global", rfl, .top⟩
  | some id =>
    obtain ⟨definition, isEntry, found, _⟩ := inRange.function_of_lt (within id rfl)
    refine ⟨definition.displayName, ?_, goesBy_displayName isEntry⟩
    rw [enclosingName, found]
    rfl

omit inRange in
theorem file_of_lt {file : FileId} (below : file < program.files.size) :
    ∃ path, program.files[file]? = some path ∧ program.file file = .ok path := by
  obtain ⟨path, _, found⟩ := fetch_of_lt below (.file file)
  exact ⟨path, fetch_eq_ok.mp found, found⟩

omit inRange in
theorem shortName_ok {file : FileId} (below : file < program.files.size) :
    ∃ name, program.shortName file = .ok name := by
  obtain ⟨path, _, found⟩ := file_of_lt below
  exact ⟨(Path.fileName? path).getD path, by rw [shortName, found]; rfl⟩

omit inRange in
theorem placeLabel_ok {file : FileId} (below : file < program.files.size) (span : Span) :
    ∃ label, program.placeLabel file span = .ok label := by
  obtain ⟨name, found⟩ := shortName_ok below
  rw [placeLabel, found]
  exact ⟨_, rfl⟩

theorem slot_label_ok {location : Slot} (within : location.InRange program.sizes) :
    ∃ label, location.label program = .ok label := by
  cases location with
  | named | merge => exact ⟨_, rfl⟩
  | declared id =>
    obtain ⟨decl, found, declInRange⟩ := inRange.decl_of_lt within
    obtain ⟨file, named⟩ := shortName_ok declInRange.file
    rw [Slot.label, found, Checked.ok_bind, named]
    exact ⟨_, rfl⟩
  | param function | returned function =>
    obtain ⟨definition, _, found, _⟩ := inRange.function_of_lt within
    rw [Slot.label, found]
    exact ⟨_, rfl⟩
  | arg call | result call =>
    obtain ⟨site, _, found, siteInRange⟩ := inRange.call_of_lt within
    obtain ⟨place, placed⟩ := placeLabel_ok siteInRange.file site.span
    rw [Slot.label, found, Checked.ok_bind, placed]
    exact ⟨_, rfl⟩

theorem label_ok (within : vertex.InRange program.sizes) :
    ∃ label, vertex.label program = .ok label := by
  cases vertex with
  | function id =>
    obtain ⟨definition, _, found, isInRange⟩ := inRange.function_of_lt within
    obtain ⟨place, placed⟩ := placeLabel_ok isInRange.file definition.span
    rw [Vertex.label, found, Checked.ok_bind, placed]
    exact ⟨_, rfl⟩
  | callee call =>
    obtain ⟨site, _, found, siteInRange⟩ := inRange.call_of_lt within
    obtain ⟨name, named, _⟩ := inRange.enclosingName_goesBy siteInRange.enclosing
    obtain ⟨place, placed⟩ := placeLabel_ok siteInRange.file site.span
    rw [Vertex.label, found, Checked.ok_bind, named, Checked.ok_bind, placed]
    exact ⟨_, rfl⟩
  | native => exact ⟨_, rfl⟩
  | slot location => exact inRange.slot_label_ok within

end Program.InRange

theorem FlowGraph.Of.dump_ok (of : graph.Of program) (inRange : program.InRange) :
    ∃ lines, graph.dump program = .ok lines := by
  have total : ∀ edge ∈ graph.edges.toList, ∃ line,
      (do
        let sourceLabel ← (← graph.get edge.1).label program
        let targetLabel ← (← graph.get edge.2).label program
        return s!"{sourceLabel} => {targetLabel}" : Checked String) = .ok line := by
    rintro ⟨source, target⟩ member
    obtain ⟨sourceVertex, targetVertex, atSource, atTarget⟩ :=
      of.wellFormed.ends_of_edge (Array.mem_toList_iff.mp member)
    obtain ⟨sourceLabel, sourceLabelled⟩ := inRange.label_ok (of.inRange _ atSource.mem)
    obtain ⟨targetLabel, targetLabelled⟩ := inRange.label_ok (of.inRange _ atTarget.mem)
    simp only [get_eq_ok.mpr atSource, get_eq_ok.mpr atTarget, Checked.ok_bind, sourceLabelled,
      targetLabelled]
    exact ⟨_, rfl⟩
  obtain ⟨lines, shown, _⟩ := Checked.mapM_eq_ok total
  exact ⟨lines, shown⟩

/-! ### What bodies add -/

namespace Program.InRange

variable (inRange : program.InRange)
include inRange

theorem slotOf {id : DeclId} (below : id < program.decls.size) :
    (program.slotOf id).InRange program.sizes := by
  obtain ⟨decl, found, declInRange⟩ := inRange.decl_of_lt below
  rcases slotOf_cases (fetch_eq_ok.mp found) with ⟨_, _, isKind, same⟩ | ⟨_, same⟩ | same
  · have kindInRange := declInRange.kind
    rw [isKind] at kindInRange
    rw [same]
    exact kindInRange
  · rw [same]
    trivial
  · rw [same]
    exact below

theorem reference {target : Reference} (within : target.binding.InRange program.sizes) :
    (target.slot program).InRange program.sizes := by
  unfold Reference.slot
  cases bound : target.binding with
  | declared decl =>
    rw [bound] at within
    exact inRange.slotOf within
  | global | unresolved => trivial

theorem place_of_expr {expr : Expr} (head : expr.HeadInRange program.sizes)
    (place : vertex ∈ (expr.headGrowth program).places) : vertex.InRange program.sizes := by
  cases expr with
  | function _ target =>
    cases List.mem_singleton.mp place
    exact head
  | ident _ reference =>
    cases List.mem_singleton.mp place
    exact inRange.reference head.2
  | this _ owner =>
    cases owner with
    | none => cases place
    | some function =>
      cases List.mem_singleton.mp place
      exact head function rfl
  | member _ _ name =>
    cases name with
    | none => cases place
    | some name =>
      cases List.mem_singleton.mp place
      trivial
  | call _ site callee arguments =>
    -- all vertices of a call carry its id
    have receiver (here : vertex ∈ (callee.receiverGrowth program site).places) :
        vertex = .slot (.arg site 0) := by
      unfold Expr.receiverGrowth at here
      split at here
      · split at here <;> simp at here
        exact here
      · cases here
    have argument (here : vertex ∈ (Expr.argumentHeads program site 1 arguments).places) :
        ∃ index, vertex = .slot (.arg site index) := by
      rw [Expr.argumentHeads, Growth.mem_places_sum_map] at here
      obtain ⟨⟨value, index⟩, _, here⟩ := here
      exact ⟨index, by simpa using here⟩
    simp only [Expr.headGrowth_call, Growth.places_append, Growth.places_place,
      Growth.places_flow, List.append_nil, List.mem_append, List.mem_singleton] at place
    rcases place with ((here | rfl) | here) | rfl
    · rw [receiver here]
      exact head
    · exact head
    · obtain ⟨index, rfl⟩ := argument here
      exact head
    · exact head
  | assign _ target _ =>
    simp only [Expr.headGrowth_assign] at place
    split at place <;> simp at place
  | select node _ values =>
    have isMerge : vertex = .slot (.merge node) := by
      rw [Expr.headGrowth_select, Growth.meet.eq_def] at place
      split at place
      · cases place
      · cases place
      · simpa [Growth.mem_places_sum] using place
    rw [isMerge]
    trivial
  | object _ entries =>
    rw [Expr.headGrowth_object, Growth.mem_places_sum_map] at place
    obtain ⟨⟨key, value⟩, _, here⟩ := place
    cases key with
    | none => cases here
    | some name =>
      have isNamed : vertex = .named name := by simpa [Property.headGrowth] using here
      rw [isNamed]
      trivial
  | inert => cases place

theorem place_of_stmt {owner : Option FunctionId}
    (within : ∀ function ∈ owner, function < program.functions.size) {stmt : Stmt}
    (stmtInRange : stmt.InRange program.sizes)
    (place : vertex ∈ (stmt.headGrowth program owner).places) : vertex.InRange program.sizes := by
  cases stmt with
  | expr => cases place
  | declare decl initial =>
    cases initial with
    | none => cases place
    | some value =>
      have isSlot : vertex = .slot (program.slotOf decl) := by simpa [Stmt.headGrowth] using place
      rw [isSlot]
      exact inRange.slotOf stmtInRange.1
  | result returned =>
    cases owner with
    | none => cases place
    | some function =>
      have isReturned : vertex = .slot (.returned function) := by
        simpa [Stmt.headGrowth] using place
      rw [isReturned]
      exact within function rfl

theorem place (isPlace : vertex ∈ program.growth.places) : vertex.InRange program.sizes := by
  have has : program.growth.Has (.place vertex) := isPlace
  rw [Program.has_growth] at has
  rcases has with ⟨id, below, same⟩ | ⟨id, below, same⟩ | ⟨owner, body, stmt, isBody, inside, here⟩ |
    ⟨part, member, here⟩
  · cases same
    exact below
  · cases same
    exact below
  · have within : ∀ function ∈ owner, function < program.functions.size := by
      rcases Program.mem_bodies.mp isBody with ⟨_, _, rfl, _⟩ | ⟨id, _, found, rfl, _⟩
      · intro function isOwner
        cases isOwner
      · intro function isOwner
        cases isOwner
        exact Table.below found
    exact inRange.place_of_stmt within (inRange.body isBody inside) here
  · exact inRange.place_of_expr (inRange.head member) here

end Program.InRange

theorem FlowGraph.Grown.of {natives : NativeTable} {growth : Growth}
    (grown : ({} : FlowGraph).Grown (.sum (natives.entries.map Build.nativeGrowth) ++ growth) graph)
    (inside : ∀ vertex ∈ growth.places, vertex.InRange program.sizes) : graph.Of program where
  wellFormed := grown.wellFormed
  inRange vertex member := by
    rcases grown.mem_vertices.mp member with nothing | added
    · cases nothing with | mk nothing => cases nothing
    · rw [Growth.places_append, List.mem_append, Growth.mem_places_sum_map] at added
      rcases added with ⟨entry, _, here⟩ | here
      · have isNative : vertex = .native entry.1 ∨ vertex = .named entry.2 := by
          simpa [Build.nativeGrowth] using here
        rcases isNative with rfl | rfl <;> trivial
      · exact inside vertex here

theorem Analysis.bodyGraph_of (inRange : program.InRange) {natives : NativeTable}
    {events : List Event} (built : Analysis.bodyGraph program natives = .ok (graph, events)) :
    graph.Of program := by
  obtain ⟨_, _, builtToo, grown⟩ := Analysis.bodyGraph_grown inRange natives
  cases built.symm.trans builtToo
  exact grown.of fun _ => inRange.place

end FunctionFlow
