import FunctionFlow.Analysis.Facts
import FunctionFlow.Flow.Graph
import Std.Data.HashSet

/-!
Contract: backward queries that match calls with returns.

A value that left a function through a call can only have entered it through the arguments of that
call. A query remembers the calls that it has entered backwards, the latest first and at most
`depth` of them, and crosses the edges of no other call while one is pending.
-/

namespace FunctionFlow

/-- A point of a query: a vertex and the calls that are pending there, the latest first. -/
structure Waypoint where
  vertex : VertexId
  pending : List CallId
  deriving DecidableEq, Hashable, Repr, Inhabited

namespace Query

/-- The pending calls after the edge from `source` to `target` is crossed backwards; `none` if the
edge belongs to a call other than the latest pending one. Values in shared slots and in named slots
are not tied to one activation, so nothing stays pending there. -/
def stepBack (depth : Nat) (isShared : Bool) (source target : Vertex) (pending : List CallId) :
    Option (List CallId) :=
  if isShared then some []
  else
    match source, target with
    | .slot (.returned _), .slot (.result call) => some ((call :: pending).take depth)
    | .slot (.arg call _), .slot (.param _ _) =>
      match pending with
      | [] => some []
      | latest :: earlier => if latest = call then some earlier else none
    | .slot (.named _), _ => some []
    | _, _ => some pending

def resultCalls (graph : FlowGraph) : List CallId :=
  graph.vertices.toList.filterMap fun
    | .slot (.result call) => some call
    | _ => none

def wordsUpTo (letters : List CallId) : (length : Nat) → List (List CallId)
  | 0 => [[]]
  | length + 1 => [] :: letters.flatMap fun letter => (wordsUpTo letters length).map (letter :: ·)

def waypoints (graph : FlowGraph) (depth : Nat) : List Waypoint :=
  (List.range graph.size).flatMap fun vertex =>
    (wordsUpTo (resultCalls graph) depth).map fun pending => ⟨vertex, pending⟩

theorem mem_wordsUpTo {letters word : List CallId} {length : Nat} :
    word ∈ wordsUpTo letters length ↔ word.length ≤ length ∧ ∀ letter ∈ word, letter ∈ letters := by
  induction length generalizing word with
  | zero =>
    cases word <;> simp [wordsUpTo]
  | succ length inductionHypothesis =>
    cases word with
    | nil => simp [wordsUpTo]
    | cons letter rest =>
      simp only [wordsUpTo, List.mem_cons, reduceCtorEq, List.mem_flatMap, List.mem_map,
        List.cons.injEq, false_or, List.length_cons, Nat.add_le_add_iff_right, forall_eq_or_imp]
      constructor
      · rintro ⟨_, known, _, member, rfl, rfl⟩
        have bounds := inductionHypothesis.mp member
        exact ⟨bounds.1, known, bounds.2⟩
      · rintro ⟨short, known, restKnown⟩
        exact ⟨letter, known, rest, inductionHypothesis.mpr ⟨short, restKnown⟩, rfl, rfl⟩

theorem mem_waypoints {graph : FlowGraph} {depth : Nat} {point : Waypoint} :
    point ∈ waypoints graph depth ↔
      point.vertex < graph.size ∧ point.pending.length ≤ depth ∧
        ∀ call ∈ point.pending, call ∈ resultCalls graph := by
  obtain ⟨vertex, pending⟩ := point
  simp only [waypoints, List.mem_flatMap, List.mem_range, List.mem_map, Waypoint.mk.injEq]
  constructor
  · rintro ⟨_, below, _, word, rfl, rfl⟩
    exact ⟨below, mem_wordsUpTo.mp word⟩
  · rintro ⟨below, word⟩
    exact ⟨vertex, below, pending, mem_wordsUpTo.mpr word, rfl, rfl⟩

theorem mem_resultCalls {graph : FlowGraph} {id : VertexId} {call : CallId}
    (found : graph.vertices[id]? = some (.slot (.result call))) : call ∈ resultCalls graph := by
  have member : Vertex.slot (.result call) ∈ graph.vertices.toList :=
    Array.mem_toList_iff.mpr (Array.mem_of_getElem? found)
  exact List.mem_filterMap.mpr ⟨_, member, rfl⟩

theorem stepBack_mem {graph : FlowGraph} {depth : Nat} {isShared : Bool} {point : Waypoint}
    {source : VertexId} {sourceVertex targetVertex : Vertex} {pending : List CallId}
    (inside : point ∈ waypoints graph depth)
    (atSource : graph.vertices[source]? = some sourceVertex)
    (atTarget : graph.vertices[point.vertex]? = some targetVertex)
    (stepped : stepBack depth isShared sourceVertex targetVertex point.pending = some pending) :
    (⟨source, pending⟩ : Waypoint) ∈ waypoints graph depth := by
  obtain ⟨_, short, known⟩ := mem_waypoints.mp inside
  have below : source < graph.size := (Array.getElem?_eq_some_iff.mp atSource).1
  refine mem_waypoints.mpr ⟨below, ?_⟩
  unfold stepBack at stepped
  split at stepped
  · cases stepped; simp
  · split at stepped
    · rename_i call
      cases stepped
      refine ⟨List.length_take_le _ _, fun other member => ?_⟩
      rcases List.mem_cons.mp (List.mem_of_mem_take member) with same | earlier
      · exact same ▸ mem_resultCalls atTarget
      · exact known other earlier
    · split at stepped
      · cases stepped; simp
      · rename_i latest earlier atPending
        split at stepped
        · cases stepped
          rw [atPending] at short known
          simp only [List.length_cons, List.forall_mem_cons] at short known
          exact ⟨Nat.le_of_succ_le short, known.2⟩
        · cases stepped
    · cases stepped; simp
    · cases stepped; exact ⟨short, known⟩

/-- The points before a point, and the values found on the way to them. -/
structure Arrivals (graph : FlowGraph) (depth : Nat) where
  found : List VertexId
  next : List { point : Waypoint // point ∈ waypoints graph depth }

/-- Crosses the edges from `sources` to a point backwards. -/
def arrive (graph : FlowGraph) (depth : Nat) (shared : List VertexId) (point : Waypoint)
    (inside : point ∈ waypoints graph depth) (targetVertex : Vertex)
    (atTarget : graph.vertices[point.vertex]? = some targetVertex) :
    List VertexId → Checked (Arrivals graph depth)
  | [] => return ⟨[], []⟩
  | source :: rest =>
    match atSource : graph.vertices[source]? with
    | none => .error (.vertex source)
    | some sourceVertex => do
      let later ← arrive graph depth shared point inside targetVertex atTarget rest
      if sourceVertex.isValue then return { later with found := source :: later.found }
      else
        match stepped : stepBack depth (shared.contains source) sourceVertex targetVertex
            point.pending with
        | some pending =>
          return { later with
            next := ⟨⟨source, pending⟩, stepBack_mem inside atSource atTarget stepped⟩ :: later.next }
        | none => return later

def unseen (graph : FlowGraph) (depth : Nat) (seen : Std.HashSet Waypoint) : Nat :=
  (waypoints graph depth).countP fun point => !seen.contains point

theorem unseen_insert_lt {graph : FlowGraph} {depth : Nat} {seen : Std.HashSet Waypoint}
    {point : Waypoint} (inside : point ∈ waypoints graph depth)
    (isNew : seen.contains point = false) :
    unseen graph depth (seen.insert point) < unseen graph depth seen := by
  refine countP_lt_of_imp inside (fun other => ?_) ?_ ?_
  · simp only [Std.HashSet.contains_insert, Bool.not_eq_true', Bool.or_eq_false_iff]
    exact fun both => both.2
  · simp [isNew]
  · simp

/-- Follows all points of `todo` backwards, except those in `seen`, and adds the values that are
found to `found`. -/
def explore (graph : FlowGraph) (depth : Nat) (shared : List VertexId)
    (seen : Std.HashSet Waypoint)
    (todo : List { point : Waypoint // point ∈ waypoints graph depth })
    (found : List VertexId) : Checked (List VertexId) :=
  match todo with
  | [] => return found
  | ⟨point, inside⟩ :: rest =>
    if _isSeen : seen.contains point = true then explore graph depth shared seen rest found
    else
      match atTarget : graph.vertices[point.vertex]? with
      | none => .error (.vertex point.vertex)
      | some targetVertex => do
        let sources ← graph.predecessors point.vertex
        let arrivals ← arrive graph depth shared point inside targetVertex atTarget sources
        explore graph depth shared (seen.insert point) (arrivals.next.reverse ++ rest)
          (insertIds arrivals.found found)
termination_by (unseen graph depth seen, todo.length)
decreasing_by
  · exact .right _ (Nat.lt_succ_self _)
  · exact .left _ _ (unseen_insert_lt inside (Bool.eq_false_iff.mpr _isSeen))

theorem start_mem_waypoints {graph : FlowGraph} (depth : Nat) {start : VertexId}
    (below : start < graph.size) : (⟨start, []⟩ : Waypoint) ∈ waypoints graph depth :=
  mem_waypoints.mpr ⟨below, Nat.zero_le _, by simp⟩

end Query

/-- The values that may reach `start`, by increasing id. The slots in `shared` are read in several
activations. -/
def FlowGraph.query (graph : FlowGraph) (shared : List VertexId) (depth : Nat)
    (start : VertexId) : Checked (List VertexId) :=
  if below : start < graph.size then
    Query.explore graph depth shared ∅ [⟨⟨start, []⟩, Query.start_mem_waypoints depth below⟩] []
  else .error (.vertex start)

end FunctionFlow
