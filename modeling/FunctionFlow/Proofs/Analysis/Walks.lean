import FunctionFlow.Proofs.Analysis.Facts
import FunctionFlow.Proofs.Analysis.Query
import Mathlib.Data.ENat.Basic

/-!
Contract: queries in terms of walks, rule by rule.

The rules are stated for themselves, without the function that a query uses. A walk that forgets the
oldest calls has the first part of what the same walk with more memory has pending.
-/

namespace FunctionFlow

variable {depth : Nat} {pending : List CallId}

namespace Query

/-! ### Rules -/

/-- One more pending call. Where `depth` calls are pending already, the oldest is dropped. -/
def remember (depth : ℕ∞) (call : CallId) (pending : List CallId) : List CallId :=
  if pending.length < depth then call :: pending else (call :: pending).dropLast

/-- An edge that is none of a call, from a slot that is not named. -/
structure IsPlain (source target : Vertex) : Prop where
  notResult : ∀ function call,
    source = .slot (.returned function) → target ≠ .slot (.result call)
  notArgument : ∀ call index function position,
    source = .slot (.arg call index) → target ≠ .slot (.param function position)
  notNamed : ∀ name, source ≠ .named name

/-- A walk may cross the edge from `source` to `target` backwards, and the calls that are pending
change from the first list to the second one. -/
inductive Permits (depth : ℕ∞) (isShared : Prop) :
    (source target : Vertex) → List CallId → List CallId → Prop
  | shared {source target : Vertex} {pending : List CallId} (known : isShared) :
    Permits depth isShared source target pending []
  | enter {function : FunctionId} {call : CallId} {pending : List CallId} (unshared : ¬ isShared) :
    Permits depth isShared (.slot (.returned function)) (.slot (.result call)) pending
      (remember depth call pending)
  | leave {call : CallId} {index : Nat} {function : FunctionId} {position : Nat}
    {earlier : List CallId} (unshared : ¬ isShared) :
    Permits depth isShared (.slot (.arg call index)) (.slot (.param function position))
      (call :: earlier) earlier
  | leaveAny {call : CallId} {index : Nat} {function : FunctionId} {position : Nat}
    (unshared : ¬ isShared) :
    Permits depth isShared (.slot (.arg call index)) (.slot (.param function position)) [] []
  | named {name : String} {target : Vertex} {pending : List CallId} (unshared : ¬ isShared) :
    Permits depth isShared (.named name) target pending []
  | plain {source target : Vertex} {pending : List CallId} (unshared : ¬ isShared)
    (isPlain : IsPlain source target) : Permits depth isShared source target pending pending

/-- A walk backwards from `start`, with no call pending at first, comes to a vertex with the given
calls pending. All vertices behind `start` are slots or callees. -/
inductive Walk (graph : FlowGraph) (depth : ℕ∞) (shared : List VertexId) (start : VertexId) :
    VertexId → List CallId → Prop
  | start : Walk graph depth shared start start []
  | back {source target : VertexId} {sourceVertex targetVertex : Vertex}
    {pending next : List CallId} (walk : Walk graph depth shared start target pending)
    (edge : (source, target) ∈ graph.edges) (atSource : graph.At source sourceVertex)
    (atTarget : graph.At target targetVertex) (isPlace : sourceVertex.isValue = false)
    (permits : Permits depth (source ∈ shared) sourceVertex targetVertex pending next) :
    Walk graph depth shared start source next

/-- A walk backwards from `start` comes to a vertex with an edge out of `value`. -/
def LeadsTo (graph : FlowGraph) (depth : ℕ∞) (shared : List VertexId) (start value : VertexId) :
    Prop :=
  ∃ target pending, Walk graph depth shared start target pending ∧
    (value, target) ∈ graph.edges ∧ ∃ vertex, graph.At value vertex ∧ vertex.isValue

/-! ### Forgetting -/

theorem remember_prefix {shallow deep : ℕ∞} (lower : shallow ≤ deep) (call : CallId)
    {few many : List CallId} (isFirst : few <+: many) :
    remember shallow call few <+: remember deep call many := by
  have consFirst : call :: few <+: call :: many := List.cons_prefix_cons.mpr ⟨rfl, isFirst⟩
  have keptFirst : remember shallow call few <+: call :: many := by
    unfold remember
    split
    · exact consFirst
    · exact (List.dropLast_prefix _).trans consFirst
  by_cases fits : (many.length : ℕ∞) < deep
  · have keptAll : remember deep call many = call :: many := if_pos fits
    rw [keptAll]
    exact keptFirst
  · -- both lists begin as `call :: many` does, and the left one is not the longer one
    have atMost : (remember shallow call few).length ≤ many.length := by
      unfold remember
      split
      · rename_i fitsFew
        have below : (few.length : ℕ∞) < many.length :=
          lt_of_lt_of_le fitsFew (lower.trans (not_lt.mp fits))
        exact Nat.cast_lt.mp below
      · simpa using isFirst.length_le
    have dropped : remember deep call many = (call :: many).dropLast := if_neg fits
    rw [dropped]
    apply List.prefix_of_prefix_length_le keptFirst (List.dropLast_prefix _)
    simpa using atMost

theorem Permits.forget {shallow deep : ℕ∞} (lower : shallow ≤ deep) {isShared : Prop}
    {source target : Vertex} {many manyNext few : List CallId}
    (permits : Permits deep isShared source target many manyNext) (isFirst : few <+: many) :
    ∃ fewNext, Permits shallow isShared source target few fewNext ∧ fewNext <+: manyNext := by
  cases permits with
  | shared known => exact ⟨[], .shared known, List.nil_prefix⟩
  | enter unshared => exact ⟨_, .enter unshared, remember_prefix lower _ isFirst⟩
  | leave unshared =>
    cases few with
    | nil => exact ⟨[], .leaveAny unshared, List.nil_prefix⟩
    | cons latest rest =>
      obtain ⟨same, restFirst⟩ := List.cons_prefix_cons.mp isFirst
      subst same
      exact ⟨rest, .leave unshared, restFirst⟩
  | leaveAny unshared =>
    have nothing : few = [] := List.prefix_nil.mp isFirst
    subst nothing
    exact ⟨[], .leaveAny unshared, List.nil_prefix⟩
  | named unshared => exact ⟨[], .named unshared, List.nil_prefix⟩
  | plain unshared isPlain => exact ⟨few, .plain unshared isPlain, isFirst⟩

variable {graph : FlowGraph} {shared : List VertexId} {start : VertexId}

theorem Walk.forget {shallow deep : ℕ∞} (lower : shallow ≤ deep) {place : VertexId}
    {many : List CallId} (walk : Walk graph deep shared start place many) :
    ∃ few, Walk graph shallow shared start place few ∧ few <+: many := by
  induction walk with
  | start => exact ⟨[], .start, List.nil_prefix⟩
  | back _ edge atSource atTarget isPlace permits inductionHypothesis =>
    obtain ⟨few, walk, isFirst⟩ := inductionHypothesis
    obtain ⟨fewNext, permitsFew, nextFirst⟩ := permits.forget lower isFirst
    exact ⟨fewNext, .back walk edge atSource atTarget isPlace permitsFew, nextFirst⟩

theorem LeadsTo.forget {shallow deep : ℕ∞} (lower : shallow ≤ deep) {value : VertexId}
    (leads : LeadsTo graph deep shared start value) :
    LeadsTo graph shallow shared start value := by
  obtain ⟨target, _, walk, met⟩ := leads
  obtain ⟨few, walkFew, _⟩ := walk.forget lower
  exact ⟨target, few, walkFew, met⟩

/-! ### Queries follow the rules -/

theorem remember_eq_take (short : pending.length ≤ depth) (call : CallId) :
    remember depth call pending = (call :: pending).take depth := by
  unfold remember
  split
  · rename_i fits
    rw [List.take_of_length_le (Nat.cast_lt.mp fits)]
  · rename_i full
    have exactly : pending.length = depth :=
      Nat.le_antisymm short (Nat.cast_le.mp (not_lt.mp full))
    rw [List.dropLast_eq_take, List.length_cons, Nat.add_sub_cancel, exactly]

theorem edge_cases (source target : Vertex) :
    (∃ function call, source = .slot (.returned function) ∧ target = .slot (.result call)) ∨
      (∃ call index function position, source = .slot (.arg call index) ∧
        target = .slot (.param function position)) ∨
      (∃ name, source = .named name) ∨ IsPlain source target := by
  by_contra other
  simp only [not_or, not_exists, not_and] at other
  obtain ⟨notResult, notArgument, notNamed, notPlain⟩ := other
  exact notPlain ⟨notResult, notArgument, notNamed⟩

theorem stepBack_plain {source target : Vertex} (isPlain : IsPlain source target)
    (pending : List CallId) : stepBack depth false source target pending = some pending := by
  unfold stepBack
  rw [if_neg Bool.false_ne_true]
  split
  · exact absurd rfl (isPlain.notResult _ _ rfl)
  · exact absurd rfl (isPlain.notArgument _ _ _ _ rfl)
  · exact absurd rfl (isPlain.notNamed _)
  · rfl

theorem permits_iff {isShared : Bool} {source target : Vertex} {next : List CallId}
    (short : pending.length ≤ depth) :
    Permits depth (isShared = true) source target pending next ↔
      stepBack depth isShared source target pending = some next := by
  cases isShared with
  | true =>
    have reset : stepBack depth true source target pending = some [] := rfl
    rw [reset, Option.some.injEq]
    constructor
    · intro permits
      cases permits with
      | shared _ => rfl
      | enter unshared | leave unshared | leaveAny unshared | named unshared | plain unshared _ =>
        exact absurd rfl unshared
    · intro same
      subst same
      exact .shared rfl
  | false =>
    have unshared : ¬ (false = true) := Bool.false_ne_true
    constructor
    · intro permits
      cases permits with
      | shared known => exact absurd known unshared
      | enter _ => simp [stepBack, remember_eq_take short]
      | leave _ => simp [stepBack]
      | leaveAny _ => simp [stepBack]
      | named _ => simp [stepBack]
      | plain _ isPlain => exact stepBack_plain isPlain pending
    · intro stepped
      rcases edge_cases source target with ⟨function, call, rfl, rfl⟩ |
        ⟨call, index, function, position, rfl, rfl⟩ | ⟨name, rfl⟩ | isPlain
      · cases stepped
        rw [← remember_eq_take short]
        exact .enter unshared
      · cases pending with
        | nil =>
          cases stepped
          exact .leaveAny unshared
        | cons latest earlier =>
          by_cases same : latest = call
          · subst same
            simp only [stepBack, Bool.false_eq_true, if_false, if_true,
              Option.some.injEq] at stepped
            subst stepped
            exact .leave unshared
          · simp [stepBack, same] at stepped
      · cases stepped
        exact .named unshared
      · rw [stepBack_plain isPlain, Option.some.injEq] at stepped
        subst stepped
        exact .plain unshared isPlain

theorem Walk.short {depth : ℕ∞} {place : VertexId}
    (walk : Walk graph depth shared start place pending) : pending.length ≤ depth := by
  induction walk with
  | start => simp
  | @back _ _ _ _ pending _ _ _ _ _ _ permits inductionHypothesis =>
    cases permits with
    | shared _ | leaveAny _ | named _ => simp
    | enter _ =>
      unfold remember
      split
      · rename_i fits
        simpa using Order.add_one_le_of_lt fits
      · simpa using inductionHypothesis
    | leave _ =>
      apply le_trans _ inductionHypothesis
      simp
    | plain _ _ => exact inductionHypothesis

theorem passes_iff {point : Waypoint} :
    Passes graph depth shared start point ↔
      Walk graph depth shared start point.vertex point.pending := by
  have sharedIff (source : VertexId) : (source ∈ shared) = (shared.contains source = true) :=
    propext List.contains_iff_mem.symm
  constructor
  · intro passed
    induction passed with
    | start => exact .start
    | step _ crossed inductionHypothesis =>
      obtain ⟨edge, atSource, atTarget, isPlace, stepped⟩ := crossed
      have short := Nat.cast_le.mp inductionHypothesis.short
      apply inductionHypothesis.back edge atSource atTarget isPlace
      rw [sharedIff, permits_iff short]
      exact stepped
  · intro walk
    obtain ⟨place, pending⟩ := point
    dsimp only at walk
    induction walk with
    | start => exact .start
    | back walk edge atSource atTarget isPlace permits inductionHypothesis =>
      rw [sharedIff, permits_iff (Nat.cast_le.mp walk.short)] at permits
      exact inductionHypothesis.step (.cross edge atSource atTarget isPlace permits)

theorem finds_iff {value : VertexId} :
    Finds graph depth shared start value ↔ LeadsTo graph depth shared start value := by
  constructor
  · rintro ⟨point, passed, met⟩
    exact ⟨point.vertex, point.pending, passes_iff.mp passed, met⟩
  · rintro ⟨target, pending, walk, met⟩
    exact ⟨⟨target, pending⟩, passes_iff.mpr walk, met⟩

theorem Finds.forget {shallow deep : Nat} (lower : shallow ≤ deep) {value : VertexId}
    (finds : Finds graph deep shared start value) : Finds graph shallow shared start value :=
  finds_iff.mpr ((finds_iff.mp finds).forget (Nat.cast_le.mpr lower))

end Query

/-! ### Answers are sets -/

theorem Query.explore_increasing {graph : FlowGraph} {shared : List VertexId}
    {seen : Std.HashSet Waypoint}
    {todo : List { point : Waypoint // point ∈ waypoints graph depth }}
    {found result : List VertexId} (increasing : found.Pairwise (· < ·))
    (explored : explore graph depth shared seen todo found = .ok result) :
    result.Pairwise (· < ·) := by
  fun_induction explore graph depth shared seen todo found with
  | case1 seen found =>
    cases explored
    exact increasing
  | case2 seen found point known rest isSeen inductionHypothesis =>
    exact inductionHypothesis increasing explored
  | case3 seen found point known rest notSeen missing => cases explored
  | case4 seen found point known rest notSeen targetVertex atTarget inductionHypothesis =>
    obtain ⟨sources, _, explored⟩ := Checked.bind_eq_ok.mp explored
    obtain ⟨arrivals, _, explored⟩ := Checked.bind_eq_ok.mp explored
    exact inductionHypothesis arrivals (pairwise_insertIds increasing) explored

theorem FlowGraph.query_increasing {graph : FlowGraph} {shared : List VertexId} {start : VertexId}
    {found : List VertexId} (queried : graph.query shared depth start = .ok found) :
    found.Pairwise (· < ·) := by
  unfold FlowGraph.query at queried
  split at queried
  · exact Query.explore_increasing .nil queried
  · cases queried

open Query

/-- A query at a vertex of a well-formed graph ends. It lists, each once, the values to which walks
lead that remember `depth` calls, and so it misses no value to which a walk leads that remembers all
calls. -/
theorem query_lists_walks (graph : FlowGraph) (wellFormed : graph.WellFormed)
    (shared : List VertexId) (depth : Nat) (start : VertexId) (below : start < graph.size) :
    ∃ found, graph.query shared depth start = .ok found ∧ found.Pairwise (· < ·) ∧
      (∀ value, value ∈ found ↔ LeadsTo graph depth shared start value) ∧
      ∀ value, LeadsTo graph ⊤ shared start value → value ∈ found := by
  obtain ⟨found, queried, mem_found⟩ := graph.query_finds wellFormed shared depth below
  have mem_iff (value : VertexId) : value ∈ found ↔ LeadsTo graph depth shared start value :=
    (mem_found value).trans finds_iff
  refine ⟨found, queried, FlowGraph.query_increasing queried, mem_iff, fun value leads => ?_⟩
  rw [mem_iff]
  exact leads.forget le_top

/-- A function that returns its argument, called with two functions. The first result is called. -/
def passedBack : FlowGraph where
  vertices := #[.function 1, .function 2, .slot (.arg 0 1), .slot (.arg 1 1), .slot (.param 0 1),
    .slot (.returned 0), .slot (.result 0), .slot (.result 1), .callee 2]
  edges := #[(0, 2), (1, 3), (2, 4), (3, 4), (4, 5), (5, 6), (5, 7), (6, 8)]
  successorRows := #[[2], [3], [4], [4], [5], [6, 7], [8], [], []]
  predecessorRows := #[[], [], [0], [1], [2, 3], [4], [5], [5], [6]]

/-- The points of the walks from the callee that remember one call. They leave the function through
the arguments of the call by which they entered it. -/
def passedBackPoints : List (VertexId × List CallId) :=
  [(8, []), (6, []), (5, [0]), (4, [0]), (2, [])]

theorem Query.walk_passedBack {place : VertexId} (walk : Walk passedBack 1 [] 8 place pending) :
    (place, pending) ∈ passedBackPoints := by
  have closed : ∀ edge ∈ passedBack.edges, ∀ point ∈ passedBackPoints, edge.2 = point.1 →
      ∀ source ∈ passedBack.vertices[edge.1]?, ∀ target ∈ passedBack.vertices[edge.2]?,
      source.isValue = false → ∀ next ∈ stepBack 1 false source target point.2,
      (edge.1, next) ∈ passedBackPoints := by
    decide
  induction walk with
  | start => exact List.mem_cons_self
  | @back source target sourceVertex targetVertex pending next walk edge atSource atTarget isPlace
      permits inductionHypothesis =>
    have short : pending.length ≤ 1 := Nat.cast_le.mp walk.short
    have unshared : (source ∈ ([] : List VertexId)) = (false = true) := by simp
    rw [unshared] at permits
    exact closed _ edge _ inductionHypothesis rfl sourceVertex atSource targetVertex atTarget
      isPlace next ((permits_iff short).mp permits)

/-- The query of the call finds the function that was passed to the first call, and not the one that
was passed to the second. -/
theorem query_lists_walks_passedBack :
    passedBack.WellFormed ∧ ∃ found, passedBack.query [] 1 8 = .ok found ∧ 0 ∈ found ∧
      1 ∉ found := by
  have wellFormed : passedBack.WellFormed := by decide
  obtain ⟨found, queried, _, mem_found, _⟩ :=
    query_lists_walks passedBack wellFormed [] 1 8 (by decide)
  have unshared (source : VertexId) : source ∉ ([] : List VertexId) := List.not_mem_nil
  refine ⟨wellFormed, found, queried, ?_, ?_⟩
  · have edge {source target : VertexId} (member : (source, target) ∈ passedBack.edges.toList) :
        (source, target) ∈ passedBack.edges := Array.mem_toList_iff.mp member
    have toCallee : IsPlain (.slot (.result 0)) (.callee 2) := ⟨by simp, by simp, by simp⟩
    have toReturned : IsPlain (.slot (.param 0 1)) (.slot (.returned 0)) :=
      ⟨by simp, by simp, by simp⟩
    have atResult : Walk passedBack 1 [] 8 6 [] :=
      .back .start (edge (by decide)) rfl rfl rfl (.plain (unshared 6) toCallee)
    have atReturned : Walk passedBack 1 [] 8 5 [0] :=
      .back atResult (edge (by decide)) rfl rfl rfl (.enter (unshared 5))
    have atParameter : Walk passedBack 1 [] 8 4 [0] :=
      .back atReturned (edge (by decide)) rfl rfl rfl (.plain (unshared 4) toReturned)
    have atArgument : Walk passedBack 1 [] 8 2 [] :=
      .back atParameter (edge (by decide)) rfl rfl rfl (.leave (unshared 2))
    exact (mem_found 0).mpr ⟨2, [], atArgument, edge (by decide), .function 1, rfl, rfl⟩
  · intro member
    obtain ⟨target, pending, walk, edge, _⟩ := (mem_found 1).mp member
    have noEdge : ∀ point ∈ passedBackPoints, (1, point.1) ∉ passedBack.edges.toList := by
      decide
    exact noEdge _ (walk_passedBack walk) (Array.mem_toList_iff.mpr edge)

end FunctionFlow
