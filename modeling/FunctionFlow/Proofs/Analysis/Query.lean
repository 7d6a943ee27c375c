import FunctionFlow.Analysis.Query
import FunctionFlow.Proofs.Flow.Representation
import FunctionFlow.Proofs.Program.InRange

/-!
Contract: what a backward query finds.
-/

namespace FunctionFlow

variable {point : Waypoint}

namespace Query

variable {seen : Std.HashSet Waypoint} {found : List VertexId}

/-- A walk may go backwards along an edge from one point to another. -/
inductive Crosses (graph : FlowGraph) (depth : Nat) (shared : List VertexId) :
    Waypoint → Waypoint → Prop
  | cross {point : Waypoint} {source : VertexId} {sourceVertex targetVertex : Vertex}
    {pending : List CallId} (edge : (source, point.vertex) ∈ graph.edges)
    (atSource : graph.At source sourceVertex) (atTarget : graph.At point.vertex targetVertex)
    (isPlace : sourceVertex.isValue = false)
    (stepped : stepBack depth (shared.contains source) sourceVertex targetVertex point.pending =
      some pending) : Crosses graph depth shared point ⟨source, pending⟩

def Meets (graph : FlowGraph) (point : Waypoint) (value : VertexId) : Prop :=
  (value, point.vertex) ∈ graph.edges ∧ ∃ vertex, graph.At value vertex ∧ vertex.isValue

/-- The points of the walks backwards from `start`, on which no call is pending at first. -/
inductive Passes (graph : FlowGraph) (depth : Nat) (shared : List VertexId) (start : VertexId) :
    Waypoint → Prop
  | start : Passes graph depth shared start ⟨start, []⟩
  | step {point next : Waypoint} (passed : Passes graph depth shared start point)
    (crossed : Crosses graph depth shared point next) : Passes graph depth shared start next

def Finds (graph : FlowGraph) (depth : Nat) (shared : List VertexId) (start value : VertexId) :
    Prop :=
  ∃ point, Passes graph depth shared start point ∧ Meets graph point value

variable {graph : FlowGraph} {depth : Nat} {shared : List VertexId} {start : VertexId}

/-! ### One point -/

theorem not_meets {source : VertexId} {sourceVertex : Vertex}
    (atSource : graph.At source sourceVertex) (isPlace : ¬ sourceVertex.isValue) :
    ¬ Meets graph point source := by
  rintro ⟨_, found, atFound, isValue⟩
  cases atSource.vertex_unique atFound
  exact isPlace isValue

theorem not_crosses {next : Waypoint} {sourceVertex : Vertex}
    (atSource : graph.At next.vertex sourceVertex) (isValue : sourceVertex.isValue) :
    ¬ Crosses graph depth shared point next := by
  rintro @⟨_, _, _, _, _, atNext, _, isPlace, _⟩
  cases atSource.vertex_unique atNext
  rw [isValue] at isPlace
  cases isPlace

theorem crosses_iff {next : Waypoint} {sourceVertex targetVertex : Vertex}
    (edge : (next.vertex, point.vertex) ∈ graph.edges)
    (atSource : graph.At next.vertex sourceVertex) (atTarget : graph.At point.vertex targetVertex)
    (isPlace : ¬ sourceVertex.isValue) :
    Crosses graph depth shared point next ↔
      stepBack depth (shared.contains next.vertex) sourceVertex targetVertex point.pending =
        some next.pending := by
  constructor
  · rintro @⟨_, _, _, _, _, atNext, atPoint, _, stepped⟩
    cases atSource.vertex_unique atNext
    cases atTarget.vertex_unique atPoint
    exact stepped
  · exact fun stepped => .cross edge atSource atTarget (by simpa using isPlace) stepped

theorem arrive_spec (inside : point ∈ waypoints graph depth) {targetVertex : Vertex}
    (atTarget : graph.vertices[point.vertex]? = some targetVertex) {sources : List VertexId}
    (edges : ∀ source ∈ sources, (source, point.vertex) ∈ graph.edges)
    (below : ∀ source ∈ sources, source < graph.size) :
    ∃ arrivals, arrive graph depth shared point inside targetVertex atTarget sources =
        .ok arrivals ∧
      (∀ value, value ∈ arrivals.found ↔ value ∈ sources ∧ Meets graph point value) ∧
      ∀ next, (∃ known, ⟨next, known⟩ ∈ arrivals.next) ↔
        next.vertex ∈ sources ∧ Crosses graph depth shared point next := by
  induction sources with
  | nil => exact ⟨⟨[], []⟩, rfl, by simp, by simp⟩
  | cons source rest inductionHypothesis =>
    obtain ⟨sourceVertex, atSource⟩ :=
      FlowGraph.exists_at_of_below (below source List.mem_cons_self)
    obtain ⟨later, arrived, foundIff, nextIff⟩ := inductionHypothesis
      (fun other member => edges other (List.mem_cons_of_mem _ member))
      (fun other member => below other (List.mem_cons_of_mem _ member))
    have edge := edges source List.mem_cons_self
    unfold arrive
    split
    · rename_i missing
      rw [atSource] at missing
      cases missing
    · rename_i found atFound
      cases atSource.symm.trans atFound
      rw [arrived, Checked.ok_bind]
      split
      · rename_i isValue
        refine ⟨{ later with found := source :: later.found }, rfl, fun value => ?_, fun next => ?_⟩
        · rw [List.mem_cons, foundIff, List.mem_cons, or_and_right]
          refine or_congr ⟨fun same => ⟨same, ?_⟩, And.left⟩ Iff.rfl
          exact same ▸ ⟨edge, sourceVertex, atSource, isValue⟩
        · rw [nextIff, List.mem_cons, or_and_right]
          refine (or_iff_right ?_).symm
          rintro ⟨same, crossed⟩
          exact not_crosses (same ▸ atSource) isValue crossed
      · rename_i isPlace
        have sameFound (value : VertexId) : value ∈ later.found ↔
            value ∈ source :: rest ∧ Meets graph point value := by
          rw [foundIff, List.mem_cons, or_and_right]
          refine (or_iff_right ?_).symm
          rintro ⟨same, met⟩
          exact not_meets atSource isPlace (same ▸ met)
        split
        · rename_i pending stepped
          refine ⟨_, rfl, sameFound, fun next => ?_⟩
          rw [List.mem_cons, or_and_right, ← nextIff]
          constructor
          · rintro ⟨known, member⟩
            rcases List.mem_cons.mp member with same | old
            · cases same
              exact .inl ⟨rfl, (crosses_iff edge atSource atTarget isPlace).mpr stepped⟩
            · exact .inr ⟨known, old⟩
          · rintro (⟨same, crossed⟩ | ⟨known, old⟩)
            · cases next
              cases same
              rw [crosses_iff edge atSource atTarget isPlace, stepped] at crossed
              cases crossed
              exact ⟨_, List.mem_cons_self⟩
            · exact ⟨known, List.mem_cons_of_mem _ old⟩
        · rename_i blocked
          refine ⟨later, rfl, sameFound, fun next => ?_⟩
          rw [nextIff, List.mem_cons, or_and_right]
          refine (or_iff_right ?_).symm
          rintro ⟨same, crossed⟩
          cases next
          cases same
          rw [crosses_iff edge atSource atTarget isPlace, blocked] at crossed
          cases crossed

/-! ### The exploration -/

/-- What holds while the points of a query are explored: only points of walks are looked at, and
what lies before a point that was looked at is listed. -/
structure Exploring (graph : FlowGraph) (depth : Nat) (shared : List VertexId) (start : VertexId)
    (seen : Std.HashSet Waypoint)
    (todo : List { point : Waypoint // point ∈ waypoints graph depth }) (found : List VertexId) :
    Prop where
  seenPassed : ∀ point ∈ seen, Passes graph depth shared start point
  todoPassed : ∀ point ∈ todo, Passes graph depth shared start point.1
  started : ⟨start, []⟩ ∈ seen ∨ ∃ known, ⟨⟨start, []⟩, known⟩ ∈ todo
  closed : ∀ point ∈ seen, ∀ next, Crosses graph depth shared point next →
    next ∈ seen ∨ ∃ known, ⟨next, known⟩ ∈ todo
  foundSound : ∀ value ∈ found, Finds graph depth shared start value
  foundComplete : ∀ point ∈ seen, ∀ value, Meets graph point value → value ∈ found

theorem Exploring.skip {known : point ∈ waypoints graph depth}
    {rest : List { point : Waypoint // point ∈ waypoints graph depth }}
    (exploring : Exploring graph depth shared start seen (⟨point, known⟩ :: rest) found)
    (isSeen : point ∈ seen) : Exploring graph depth shared start seen rest found := by
  have listed {next : Waypoint} (here : next ∈ seen ∨ ∃ known',
      (⟨next, known'⟩ : { point // point ∈ waypoints graph depth }) ∈ ⟨point, known⟩ :: rest) :
      next ∈ seen ∨ ∃ known',
        (⟨next, known'⟩ : { point // point ∈ waypoints graph depth }) ∈ rest := by
    rcases here with old | ⟨known', member⟩
    · exact .inl old
    · rcases List.mem_cons.mp member with same | later
      · cases same
        exact .inl isSeen
      · exact .inr ⟨known', later⟩
  exact
    { exploring with
      todoPassed := fun other member => exploring.todoPassed other (List.mem_cons_of_mem _ member)
      started := listed exploring.started
      closed := fun other member next crossed =>
        listed (exploring.closed other member next crossed) }

theorem Exploring.visit {known : point ∈ waypoints graph depth}
    {rest next : List { point : Waypoint // point ∈ waypoints graph depth }} {fresh : List VertexId}
    (exploring : Exploring graph depth shared start seen (⟨point, known⟩ :: rest) found)
    (freshIff : ∀ value, value ∈ fresh ↔ Meets graph point value)
    (nextIff : ∀ other, (∃ known, ⟨other, known⟩ ∈ next) ↔ Crosses graph depth shared point other) :
    Exploring graph depth shared start (seen.insert point) (next.reverse ++ rest)
      (insertIds fresh found) := by
  have passed : Passes graph depth shared start point :=
    exploring.todoPassed ⟨point, known⟩ List.mem_cons_self
  have mem_seen {other : Waypoint} : other ∈ seen.insert point ↔ other ∈ seen ∨ other = point := by
    rw [Std.HashSet.mem_insert, beq_iff_eq, or_comm, eq_comm]
  have mem_todo {other : { point : Waypoint // point ∈ waypoints graph depth }} :
      other ∈ next.reverse ++ rest ↔ other ∈ next ∨ other ∈ rest := by
    rw [List.mem_append, List.mem_reverse]
  have listed {other : Waypoint} (here : other ∈ seen ∨ ∃ known',
      (⟨other, known'⟩ : { point // point ∈ waypoints graph depth }) ∈ ⟨point, known⟩ :: rest) :
      other ∈ seen.insert point ∨ ∃ known',
        (⟨other, known'⟩ : { point // point ∈ waypoints graph depth }) ∈ next.reverse ++ rest := by
    rcases here with old | ⟨known', member⟩
    · exact .inl (mem_seen.mpr (.inl old))
    · rcases List.mem_cons.mp member with same | later
      · cases same
        exact .inl (mem_seen.mpr (.inr rfl))
      · exact .inr ⟨known', mem_todo.mpr (.inr later)⟩
  constructor
  case seenPassed =>
    intro other member
    rcases mem_seen.mp member with old | rfl
    · exact exploring.seenPassed other old
    · exact passed
  case todoPassed =>
    intro other member
    rcases mem_todo.mp member with new | later
    · exact .step passed ((nextIff other.1).mp ⟨other.2, new⟩)
    · exact exploring.todoPassed other (List.mem_cons_of_mem _ later)
  case started => exact listed exploring.started
  case closed =>
    intro other member before crossed
    rcases mem_seen.mp member with old | rfl
    · exact listed (exploring.closed other old before crossed)
    · obtain ⟨known', new⟩ := (nextIff before).mpr crossed
      exact .inr ⟨known', mem_todo.mpr (.inl new)⟩
  case foundSound =>
    intro value member
    rcases mem_insertIds.mp member with new | old
    · exact ⟨point, passed, (freshIff value).mp new⟩
    · exact exploring.foundSound value old
  case foundComplete =>
    intro other member value met
    rcases mem_seen.mp member with old | rfl
    · exact mem_insertIds.mpr (.inr (exploring.foundComplete other old value met))
    · exact mem_insertIds.mpr (.inl ((freshIff value).mpr met))

theorem Exploring.finds (exploring : Exploring graph depth shared start seen [] found)
    {value : VertexId} : value ∈ found ↔ Finds graph depth shared start value := by
  have allSeen {point : Waypoint} (passed : Passes graph depth shared start point) :
      point ∈ seen := by
    induction passed with
    | start => exact exploring.started.resolve_right (by simp)
    | step _ crossed inductionHypothesis =>
      exact (exploring.closed _ inductionHypothesis _ crossed).resolve_right (by simp)
  refine ⟨exploring.foundSound value, ?_⟩
  rintro ⟨point, passed, met⟩
  exact exploring.foundComplete point (allSeen passed) value met

theorem explore_finds (wellFormed : graph.WellFormed)
    {todo : List { point : Waypoint // point ∈ waypoints graph depth }}
    (exploring : Exploring graph depth shared start seen todo found) :
    ∃ result, explore graph depth shared seen todo found = .ok result ∧
      ∀ value, value ∈ result ↔ Finds graph depth shared start value := by
  fun_induction explore graph depth shared seen todo found with
  | case1 seen found => exact ⟨found, rfl, fun _ => exploring.finds⟩
  | case2 seen found point known rest isSeen inductionHypothesis =>
    exact inductionHypothesis (exploring.skip isSeen)
  | case3 seen found point known rest notSeen missing =>
    obtain ⟨vertex, atPoint⟩ := FlowGraph.exists_at_of_below (mem_waypoints.mp known).1
    exact nomatch missing.symm.trans atPoint
  | case4 seen found point known rest notSeen targetVertex atTarget inductionHypothesis =>
    have below := (mem_waypoints.mp known).1
    have edges : ∀ source ∈ FlowGraph.sourcesIn graph.edges.toList point.vertex,
        (source, point.vertex) ∈ graph.edges := fun source member =>
      Array.mem_toList_iff.mp (FlowGraph.mem_sourcesIn.mp member)
    obtain ⟨arrivals, arrived, foundIff, nextIff⟩ := arrive_spec known atTarget edges
      fun source member => (wellFormed.edgesInside _ (edges source member)).1
    rw [wellFormed.predecessors_eq below, Checked.ok_bind, arrived, Checked.ok_bind]
    refine inductionHypothesis arrivals (exploring.visit (fun value => ?_) fun other => ?_)
    · rw [foundIff]
      refine and_iff_right_of_imp fun met => ?_
      exact FlowGraph.mem_sourcesIn.mpr (Array.mem_toList_iff.mpr met.1)
    · rw [nextIff]
      refine and_iff_right_of_imp fun crossed => ?_
      obtain ⟨edge, _, _, _, _⟩ := crossed
      exact FlowGraph.mem_sourcesIn.mpr (Array.mem_toList_iff.mpr edge)

end Query

open Query in
/-- A query at a vertex of a well-formed graph succeeds, and its answer lists the values at which
walks backwards from the vertex end. -/
theorem FlowGraph.query_finds {graph : FlowGraph} (wellFormed : graph.WellFormed)
    (shared : List VertexId) (depth : Nat) {start : VertexId} (below : start < graph.size) :
    ∃ found, graph.query shared depth start = .ok found ∧
      ∀ value, value ∈ found ↔ Finds graph depth shared start value := by
  unfold FlowGraph.query
  rw [dif_pos below]
  refine explore_finds wellFormed ?_
  exact
    { seenPassed := by simp
      todoPassed := by
        intro point member
        cases List.mem_singleton.mp member
        exact .start
      started := .inr ⟨_, List.mem_cons_self⟩
      closed := by simp
      foundSound := by simp
      foundComplete := by simp }

theorem FlowGraph.exists_query_iff {graph : FlowGraph} (wellFormed : graph.WellFormed)
    {shared : List VertexId} {depth : Nat} {start value : VertexId} (below : start < graph.size) :
    (∃ found, graph.query shared depth start = .ok found ∧ value ∈ found) ↔
      Query.Finds graph depth shared start value := by
  obtain ⟨found, queried, mem_found⟩ := query_finds wellFormed shared depth below
  rw [queried, ← mem_found]
  simp

/-! ### Larger graphs -/

/-- The vertices of a graph keep their ids in a larger one, which also has its edges. -/
structure FlowGraph.Within (small large : FlowGraph) : Prop where
  kept : ∀ {id vertex}, small.At id vertex → large.At id vertex
  edges : ∀ {edge}, edge ∈ small.edges → edge ∈ large.edges

theorem FlowGraph.Within.arrow {small large : FlowGraph} (within : small.Within large)
    {source target : Vertex} (arrow : small.Arrow source target) : large.Arrow source target := by
  obtain ⟨tail, head, atTail, atHead, edge⟩ := arrow
  exact ⟨tail, head, within.kept atTail, within.kept atHead, within.edges edge⟩

namespace Query

variable {small large : FlowGraph} {depth : Nat} {shared : List VertexId}

theorem Crosses.mono (within : small.Within large) {next : Waypoint}
    (crossed : Crosses small depth shared point next) : Crosses large depth shared point next := by
  obtain ⟨edge, atSource, atTarget, isPlace, stepped⟩ := crossed
  exact .cross (within.edges edge) (within.kept atSource) (within.kept atTarget) isPlace stepped

theorem Passes.mono (within : small.Within large) {start : VertexId}
    (passed : Passes small depth shared start point) : Passes large depth shared start point := by
  induction passed with
  | start => exact .start
  | step _ crossed inductionHypothesis => exact .step inductionHypothesis (crossed.mono within)

theorem Finds.mono (within : small.Within large) {start value : VertexId}
    (finds : Finds small depth shared start value) : Finds large depth shared start value := by
  obtain ⟨point, passed, edge, vertex, atValue, isValue⟩ := finds
  exact ⟨point, passed.mono within, within.edges edge, vertex, within.kept atValue, isValue⟩

theorem Finds.isValue {graph : FlowGraph} {start value : VertexId}
    (finds : Finds graph depth shared start value) :
    ∃ vertex, graph.At value vertex ∧ vertex.isValue := by
  obtain ⟨_, _, _, found⟩ := finds
  exact found

end Query

end FunctionFlow
