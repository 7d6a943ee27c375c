import FunctionFlow.Proofs.CallGraph.Order
import FunctionFlow.Proofs.Flow.Heads
import FunctionFlow.Proofs.Program.Binding

/-!
Contract: the calls that need no flow analysis.
-/

namespace FunctionFlow

variable {graph : FlowGraph} {program : Program}

namespace Program

def CallsDirectly (program : Program) (call : CallId) (function : FunctionId) : Prop :=
  ∃ node callee arguments, .call node call callee arguments ∈ program.exprs ∧
    program.directCallee callee = .ok (some function)

theorem mem_callExpressions {call : CallId} {callee : Expr} :
    (call, callee) ∈ program.callExpressions ↔
      ∃ node arguments, .call node call callee arguments ∈ program.exprs := by
  rw [callExpressions, List.mem_mergeSort, List.mem_filterMap]
  constructor
  · rintro ⟨expr, member, isCall⟩
    cases expr with
    | call node site target arguments =>
      cases isCall
      exact ⟨node, arguments, member⟩
    | _ => cases isCall
  · rintro ⟨node, arguments, member⟩
    exact ⟨_, member, rfl⟩

theorem directFunction_eq_some {id : DeclId} {function : FunctionId} :
    program.directFunction id = .ok (some function) ↔ ∃ entry, program.decls[id]? = some entry ∧
      (∀ owner index, entry.kind ≠ .parameter owner index) ∧
      entry.writes = 1 ∧ entry.functionValue = some function := by
  rw [directFunction, Checked.bind_eq_ok]
  refine exists_congr fun entry => and_congr fetch_eq_ok ?_
  cases isKind : entry.kind with
  | parameter owner index => simp [pure, Except.pure]
  | _ =>
    simp [pure, Except.pure, Option.ite_none_right_eq_some]

theorem directFunction_ok {decl : DeclId} (below : decl < program.decls.size) :
    ∃ answer, program.directFunction decl = .ok answer := by
  obtain ⟨entry, _, found⟩ := fetch_of_lt below (.declaration decl)
  rw [directFunction, Program.decl, found, Checked.ok_bind]
  split <;> exact ⟨_, rfl⟩

theorem directCallee_ok
    (names : ∀ node reference, .ident node reference ∈ program.exprs →
      reference.binding.InRange program.sizes) (callee : Expr)
    (member : callee ∈ program.exprs) : ∃ answer, program.directCallee callee = .ok answer := by
  induction callee using directCallee.induct with
  | case1 node target => exact ⟨_, rfl⟩
  | case2 node decl => exact directFunction_ok (names _ _ member)
  | case3 node guards value inductionHypothesis =>
    rw [directCallee]
    refine inductionHypothesis (mem_exprs_of_part member ?_)
    simp [Expr.all, Expr.allOf, Expr.mem_all_self]
  | case4 callee notLiteral notName notChoice =>
    exact ⟨none, directCallee.eq_4 program callee notLiteral notName notChoice⟩

def TellsDirect (program : Program) : Prop :=
  ∀ call callee, (call, callee) ∈ program.callExpressions →
    ∃ answer, program.directCallee callee = .ok answer

theorem tellsDirect_of_names
    (names : ∀ node reference, .ident node reference ∈ program.exprs →
      reference.binding.InRange program.sizes) : program.TellsDirect := by
  intro call callee member
  obtain ⟨node, arguments, isCall⟩ := mem_callExpressions.mp member
  exact directCallee_ok names callee
    (mem_exprs_of_part isCall (by simp [Expr.all, Expr.mem_all_self]))

theorem InRange.tellsDirect (inRange : program.InRange) : program.TellsDirect :=
  tellsDirect_of_names fun _ _ member => (inRange.head member).2

end Program

/-! ### The graph and the call graph of the direct calls -/

def Program.directGrowth (program : Program) : CallId × Expr → Growth
  | (call, callee) =>
    match program.directCallee callee with
    | .ok (some function) =>
      .place (.function function) ++ .place (.callee call)
        ++ .arrow (.function function) (.callee call)
    | _ => {}

theorem Program.mem_arrows_directGrowth {call : CallId} {callee : Expr} {source target : Vertex} :
    (source, target) ∈ (program.directGrowth (call, callee)).arrows ↔
      ∃ function, program.directCallee callee = .ok (some function) ∧
        source = .function function ∧ target = .callee call := by
  simp only [Program.directGrowth]
  split
  · rename_i function denotes
    simp [denotes]
  · rename_i otherwise
    simp only [List.not_mem_nil, false_iff, not_exists]
    rintro function ⟨denotes, _⟩
    exact otherwise function denotes

theorem Build.direct_yields (wellFormed : graph.WellFormed) {calls : List (CallId × Expr)}
    (total : ∀ call callee, (call, callee) ∈ calls →
      ∃ answer, program.directCallee callee = .ok answer) :
    Yields (Build.direct program calls) graph fun _ after =>
      graph.Grown (.sum (calls.map program.directGrowth)) after := by
  induction calls generalizing graph with
  | nil => exact .pure (.refl wellFormed)
  | cons first rest inductionHypothesis =>
    obtain ⟨call, callee⟩ := first
    obtain ⟨answer, denotes⟩ := total call callee List.mem_cons_self
    have totalRest : ∀ call callee, (call, callee) ∈ rest →
        ∃ answer, program.directCallee callee = .ok answer :=
      fun call callee member => total call callee (List.mem_cons_of_mem _ member)
    refine Yields.lift_bind denotes ?_
    cases answer with
    | none =>
      refine (inductionHypothesis wellFormed totalRest).mono fun _ after grown => ?_
      have nothing : program.directGrowth (call, callee) = {} := by
        simp only [Program.directGrowth, denotes]
      rw [List.map_cons, Growth.sum, nothing]
      exact (FlowGraph.Grown.refl wellFormed).trans grown
    | some function =>
      refine (vertex_yields wellFormed _).bind fun source afterSource ⟨grown, atSource⟩ => ?_
      refine (vertex_yields grown.wellFormed _).bind fun target afterTarget ⟨grown', atTarget⟩ => ?_
      refine (edge_yields grown'.wellFormed (grown'.kept atSource) atTarget).bind
        fun isNew afterEdge grown'' => ?_
      refine (inductionHypothesis grown''.wellFormed totalRest).bind fun later final grownRest => ?_
      have one : program.directGrowth (call, callee) =
          .place (.function function) ++ .place (.callee call)
            ++ .arrow (.function function) (.callee call) := by
        simp only [Program.directGrowth, denotes]
      rw [List.map_cons, Growth.sum, one]
      exact .pure (((grown.trans grown').trans grown'').trans grownRest)

namespace Analysis

theorem directPair?_eq {source target : VertexId} {sourceVertex targetVertex : Vertex}
    (atSource : graph.At source sourceVertex) (atTarget : graph.At target targetVertex) :
    ∃ found, directPair? graph (source, target) = .ok found ∧ ∀ pair, found = some pair ↔
      ∃ call function, sourceVertex = .function function ∧ targetVertex = .callee call ∧
        pair = (.callee call, .function function) := by
  unfold directPair?
  rw [FlowGraph.get_eq_ok.mpr atSource, FlowGraph.get_eq_ok.mpr atTarget, Checked.ok_bind,
    Checked.ok_bind]
  split
  · rename_i function call
    refine ⟨_, rfl, fun pair => ?_⟩
    constructor
    · rintro ⟨⟩
      exact ⟨call, function, rfl, rfl, rfl⟩
    · rintro ⟨_, _, ⟨⟩, ⟨⟩, rfl⟩
      rfl
  · rename_i other
    refine ⟨none, rfl, fun pair => ?_⟩
    constructor
    · rintro ⟨⟩
    · rintro ⟨call, function, isFunction, isCallee, _⟩
      exact (other function call isFunction isCallee).elim

theorem directPairs_eq (wellFormed : graph.WellFormed) :
    ∃ pairs, directPairs graph = .ok pairs ∧ ∀ pair, pair ∈ pairs ↔
      ∃ call function, graph.Arrow (.function function) (.callee call) ∧
        pair = (.callee call, .function function) := by
  have total : ∀ edge ∈ graph.edges.toList, ∃ found, directPair? graph edge = .ok found := by
    rintro ⟨source, target⟩ member
    obtain ⟨_, _, atSource, atTarget⟩ := wellFormed.ends_of_edge (Array.mem_toList_iff.mp member)
    obtain ⟨found, made, _⟩ := directPair?_eq atSource atTarget
    exact ⟨found, made⟩
  obtain ⟨results, computed, mem_results⟩ := Checked.mapM_eq_ok total
  refine ⟨results.filterMap id, ?_, fun pair => ?_⟩
  · rw [directPairs, computed]
    rfl
  · simp only [List.mem_filterMap, id, exists_eq_right, mem_results, Prod.exists]
    constructor
    · rintro ⟨source, target, member, made⟩
      have edge := Array.mem_toList_iff.mp member
      obtain ⟨_, _, atSource, atTarget⟩ := wellFormed.ends_of_edge edge
      obtain ⟨_, made', found_iff⟩ := directPair?_eq atSource atTarget
      cases made.symm.trans made'
      obtain ⟨call, function, rfl, rfl, rfl⟩ := (found_iff pair).mp rfl
      exact ⟨call, function, ⟨source, target, atSource, atTarget, edge⟩, rfl⟩
    · rintro ⟨call, function, ⟨source, target, atSource, atTarget, edge⟩, rfl⟩
      obtain ⟨_, made, found_iff⟩ := directPair?_eq atSource atTarget
      refine ⟨source, target, Array.mem_toList_iff.mpr edge, ?_⟩
      rw [made, (found_iff _).mpr ⟨call, function, rfl, rfl, rfl⟩]

theorem direct_grown (tells : program.TellsDirect) (natives : NativeTable) :
    ∃ analysis, direct program natives = .ok analysis ∧ analysis.callGraph.Increasing ∧
      ({} : FlowGraph).Grown (.sum (natives.entries.map Build.nativeGrowth) ++
        .sum (program.callExpressions.map program.directGrowth)) analysis.flow ∧
      ∀ pair, pair ∈ analysis.callGraph.pairs ↔
        ∃ call function, program.CallsDirectly call function ∧
          pair = (.callee call, .function function) := by
  obtain ⟨seeded, before, ranNatives, grown⟩ :=
    Build.natives_yields FlowGraph.wellFormed_empty natives.entries
  obtain ⟨count, graph, ran, grownDirect⟩ :=
    Build.direct_yields grown.wellFormed tells
  obtain ⟨pairs, computed, mem_pairs⟩ := directPairs_eq grownDirect.wellFormed
  refine ⟨⟨graph, CallGraph.empty.insertAll pairs,
    [.nativesSeeded seeded, .directCallsResolved count]⟩, ?_,
    CallGraph.increasing_empty.insertAll pairs, grown.trans grownDirect, fun pair => ?_⟩
  · simp only [direct, FlowGraph.addNatives, FlowGraph.addDirect, ranNatives, ran, computed,
      Checked.ok_bind]
    rfl
  rw [CallGraph.mem_empty_insertAll, mem_pairs]
  refine exists_congr fun call => exists_congr fun function => and_congr_left fun _ => ?_
  have noArrow : ¬ ({} : FlowGraph).Arrow (.function function) (.callee call) := by
    rintro ⟨_, _, _, _, edge⟩
    cases edge with | mk edge => cases edge
  -- the table of built-in functions has arrows to named slots only
  have notNative : (.function function, .callee call) ∉
      (Growth.sum (natives.entries.map Build.nativeGrowth)).arrows := by
    simp [Growth.mem_arrows_sum_map, Build.nativeGrowth]
  rw [(grown.trans grownDirect).arrow_iff, Growth.arrows_append, List.mem_append,
    or_iff_right noArrow, or_iff_right notNative, Growth.mem_arrows_sum_map, Prod.exists]
  simp only [Program.mem_arrows_directGrowth, Program.mem_callExpressions, Vertex.function.injEq,
    Vertex.callee.injEq]
  constructor
  · rintro ⟨_, callee, ⟨node, arguments, member⟩, _, denotes, rfl, rfl⟩
    exact ⟨node, callee, arguments, member, denotes⟩
  · rintro ⟨node, callee, arguments, member, denotes⟩
    exact ⟨call, callee, ⟨node, arguments, member⟩, function, denotes, rfl, rfl⟩

theorem direct_eq (tells : program.TellsDirect) (natives : NativeTable) :
    ∃ analysis, direct program natives = .ok analysis ∧ ∀ pair, pair ∈ analysis.callGraph.pairs ↔
      ∃ call function, program.CallsDirectly call function ∧
        pair = (.callee call, .function function) := by
  obtain ⟨analysis, ran, _, _, mem_pairs⟩ := direct_grown tells natives
  exact ⟨analysis, ran, mem_pairs⟩

end Analysis

/-! ### Function values that stand in the program -/

namespace Program

theorem Writes.into {decl : DeclId} {value : Expr} (writes : program.Writes decl value) :
    program.Into value (.slot (program.slotOf decl)) := by
  cases writes with
  | initialises isBody inside => exact .declared isBody inside
  | assigns member bound => exact .assigned member (by rw [Expr.holder, Reference.slot, bound])

/-- The value of a direct callee is the function itself, or it is held by a slot to which the
function is written. -/
theorem holder_of_directCallee (written : program.LiteralsWritten) (callee : Expr)
    {function : FunctionId} (denotes : program.directCallee callee = .ok (some function)) :
    callee.holder program = some (.function function) ∨
      ∃ slot node, callee.holder program = some (.slot slot) ∧
        program.Into (.function node function) (.slot slot) := by
  induction callee using directCallee.induct with
  | case1 node target =>
    cases denotes
    exact .inl rfl
  | case2 node name scope decl =>
    obtain ⟨entry, found, _, _, holds⟩ := directFunction_eq_some.mp denotes
    obtain ⟨writer, writes⟩ := written decl entry function found holds
    exact .inr ⟨program.slotOf decl, writer, rfl, writes.into⟩
  | case3 node guards value inductionHypothesis =>
    rw [directCallee] at denotes
    have sameHolder : Expr.holder program (.select node guards [value]) = value.holder program := by
      simp only [Expr.holder, Expr.holders, List.append_nil]
      cases value.holder program <;> rfl
    rw [sameHolder]
    exact inductionHypothesis denotes
  | case4 callee notLiteral notName notChoice =>
    rw [directCallee.eq_4 program callee notLiteral notName notChoice] at denotes
    cases denotes

end Program

end FunctionFlow
