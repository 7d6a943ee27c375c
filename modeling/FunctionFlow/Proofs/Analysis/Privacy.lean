import FunctionFlow.Proofs.Analysis.Precision
import Mathlib.Data.List.Pairwise

/-!
Contract: slots that no closure reads are private to one function.
-/

namespace FunctionFlow

variable {expr : Expr} {vertex : Vertex}

/-- The function in whose activations a vertex lives, `none` outside all functions. Values and named
slots have none. -/
inductive Program.Owns (program : Program) : Option FunctionId → Vertex → Prop
  | declared {owner : Option FunctionId} {id : DeclId} {decl : Declaration}
    (found : program.decls[id]? = some decl) (owns : program.ScopeOwner decl.scope owner) :
    Owns program owner (.slot (.declared id))
  | param {function : FunctionId} {index : Nat} :
    Owns program (some function) (.slot (.param function index))
  | returned {function : FunctionId} : Owns program (some function) (.slot (.returned function))
  | callee {call : CallId} {site : CallSite} (found : program.calls[call]? = some site) :
    Owns program site.enclosing (.callee call)
  | arg {call : CallId} {site : CallSite} {index : Nat}
    (found : program.calls[call]? = some site) :
    Owns program site.enclosing (.slot (.arg call index))
  | result {call : CallId} {site : CallSite} (found : program.calls[call]? = some site) :
    Owns program site.enclosing (.slot (.result call))
  | merge {owner : Option FunctionId} {expr : Expr} (has : program.BodyHas owner expr) :
    Owns program owner (.slot (.merge expr.node))

/-- Whether a vertex belongs to one function at most: no value and no named slot does. -/
def Vertex.isLocal : Vertex → Bool
  | .function _ | .native _ | .slot (.named _) => false
  | .callee _ | .slot _ => true

/-- An expression in a body of `owner` takes its value from `vertex`. -/
def Program.Reads (program : Program) (owner : Option FunctionId) (vertex : Vertex) : Prop :=
  ∃ expr, program.BodyHas owner expr ∧ expr.HeldBy program vertex

/-- The edges of a call: from an argument to the parameter at its position, and from the returned
value to the result. -/
inductive Program.Links (program : Program) : Vertex → Vertex → Prop
  | argument {call : CallId} {site : CallSite} {function : FunctionId} {index : Nat}
    (isCall : program.calls[call]? = some site) (within : index ≤ site.arity) :
    Links program (.slot (.arg call index)) (.slot (.param function index))
  | result {call : CallId} {site : CallSite} {function : FunctionId}
    (isCall : program.calls[call]? = some site) :
    Links program (.slot (.returned function)) (.slot (.result call))

variable {program : Program} {owner : Option FunctionId}

/-! ### One owner -/

theorem Program.BodyHas.unique (distinct : (program.exprs.map Expr.node).Nodup)
    {other : Option FunctionId} {otherExpr : Expr} (has : program.BodyHas owner expr)
    (hasOther : program.BodyHas other otherExpr) (same : expr.node = otherExpr.node) :
    owner = other := by
  obtain ⟨body, stmt, isBody, inBody, inStmt⟩ := has
  obtain ⟨otherBody, otherStmt, isOtherBody, inOtherBody, inOtherStmt⟩ := hasOther
  rw [Program.exprs, List.map_flatMap, List.nodup_flatMap] at distinct
  by_contra apart
  have apartBodies : (owner, body) ≠ (other, otherBody) := by
    intro sameBody
    exact apart (congrArg Prod.fst sameBody)
  have symmetric : Std.Symm (Function.onFun List.Disjoint
      fun item : Option FunctionId × List Stmt => (item.2.flatMap Stmt.exprs).map Expr.node) :=
    ⟨fun _ _ disjoint _ inLeft inRight => disjoint inRight inLeft⟩
  have disjoint := List.Pairwise.forall distinct.2 isBody isOtherBody apartBodies
  have inside : expr.node ∈ (body.flatMap Stmt.exprs).map Expr.node :=
    List.mem_map_of_mem (List.mem_flatMap.mpr ⟨stmt, inBody, inStmt⟩)
  have insideOther : otherExpr.node ∈ (otherBody.flatMap Stmt.exprs).map Expr.node :=
    List.mem_map_of_mem (List.mem_flatMap.mpr ⟨otherStmt, inOtherBody, inOtherStmt⟩)
  exact disjoint inside (same ▸ insideOther)

theorem Program.Owns.unique (wellScoped : program.WellScoped)
    (distinct : (program.exprs.map Expr.node).Nodup) {other : Option FunctionId}
    (owns : program.Owns owner vertex) (ownsToo : program.Owns other vertex) : owner = other := by
  have sameSite {call : CallId} {site otherSite : CallSite}
      (found : program.calls[call]? = some site)
      (foundToo : program.calls[call]? = some otherSite) : site.enclosing = otherSite.enclosing := by
    rw [found] at foundToo
    cases foundToo
    rfl
  cases owns with
  | declared found owns =>
    cases ownsToo with
    | declared foundToo ownsToo =>
      rw [found] at foundToo
      cases foundToo
      exact owns.unique wellScoped ownsToo
  | param =>
    cases ownsToo
    rfl
  | returned =>
    cases ownsToo
    rfl
  | callee found =>
    cases ownsToo with
    | callee foundToo => exact sameSite found foundToo
  | arg found =>
    cases ownsToo with
    | arg foundToo => exact sameSite found foundToo
  | result found =>
    cases ownsToo with
    | result foundToo => exact sameSite found foundToo
  | @merge _ expr has =>
    generalize isNode : expr.node = node at ownsToo
    cases ownsToo with
    | merge hasToo => exact has.unique distinct hasToo isNode

/-! ### Slots that a body reads -/

theorem Program.reads_of_holder (has : program.BodyHas owner expr)
    (held : expr.holder program = some vertex) : program.Reads owner vertex := by
  obtain ⟨part, inside, isHeld⟩ := expr.heldBy_of_holder held
  exact ⟨part, has.part inside, isHeld⟩

namespace Program.Housed

variable (housed : program.Housed)
include housed

theorem owns_slotOf {id : DeclId} {decl : Declaration} (found : program.decls[id]? = some decl)
    (owns : program.ScopeOwner decl.scope owner)
    (isLocal : (Vertex.slot (program.slotOf id)).isLocal) :
    program.Owns owner (.slot (program.slotOf id)) := by
  rcases slotOf_cases found with ⟨function, index, isParameter, isSlot⟩ | ⟨name, isSlot⟩ | isSlot
  · rw [isSlot, owns.unique housed.wellScoped (housed.parameters found isParameter)]
    exact .param
  · rw [isSlot] at isLocal
    cases isLocal
  · rw [isSlot]
    exact .declared found owns

theorem calledFrom (has : program.BodyHas owner expr) : expr.CalledFrom program owner := by
  obtain ⟨_, _, isBody, inside, isPart⟩ := has
  exact (housed.bodies isBody inside).calls _ isPart

theorem foreign_iff (distinct : (program.exprs.map Expr.node).Nodup) {slotOwner : Option FunctionId}
    {slot : Vertex} (isLocal : vertex.isLocal) (owns : slot.isLocal → program.Owns slotOwner slot) :
    (if slotOwner = owner then none else some slot) = some vertex ↔
      slot = vertex ∧ ¬ program.Owns owner vertex := by
  by_cases isSlot : slot = vertex
  · subst isSlot
    have ownsSlot := owns isLocal
    by_cases same : slotOwner = owner
    · subst same
      simp [ownsSlot]
    · have foreign : ¬ program.Owns owner slot := fun ownsToo =>
        same (ownsSlot.unique housed.wellScoped distinct ownsToo)
      simp [same, foreign]
  · split <;> simp [isSlot]

theorem foreignSlot_iff (inRange : program.InRange) (distinct : (program.exprs.map Expr.node).Nodup)
    (has : program.BodyHas owner expr) (isLocal : vertex.isLocal) :
    program.foreignSlot owner expr = .ok (some vertex) ↔
      expr.HeldBy program vertex ∧ ¬ program.Owns owner vertex := by
  -- a form other than a variable or a receiver reads nothing, or a vertex of the body's own
  have onlyOwn (answered : program.foreignSlot owner expr = .ok none)
      (owns : expr.HeldBy program vertex → program.Owns owner vertex) :
      program.foreignSlot owner expr = .ok (some vertex) ↔
        expr.HeldBy program vertex ∧ ¬ program.Owns owner vertex := by
    rw [answered]
    exact iff_of_false (by simp) fun held => held.2 (owns held.1)
  cases expr with
  | ident node reference =>
    obtain ⟨name, scope, binding⟩ := reference
    cases binding with
    | declared id =>
      have head := inRange.head (Program.mem_exprs.mpr ⟨owner, has⟩)
      obtain ⟨decl, isDecl, declInRange⟩ := inRange.decl_of_lt head.2
      have found := fetch_eq_ok.mp isDecl
      obtain ⟨slotOwner, walked⟩ := housed.wellScoped.parents.owner_ok declInRange.scope
      have answered := inRange.foreignSlot_eq owner node name scope found walked
      have ownsScope := Program.scopeOwner_of_ownerWithin walked
      rw [answered, Except.ok.injEq,
        housed.foreign_iff distinct isLocal (housed.owns_slotOf found ownsScope)]
      apply and_congr_left
      intro _
      constructor
      · rintro rfl
        exact .ident
      · intro held
        cases held
        rfl
    | global | unresolved =>
      refine onlyOwn rfl fun held => ?_
      cases held
      cases isLocal
  | this node receiver =>
    cases receiver with
    | none => exact onlyOwn rfl fun held => by cases held
    | some function =>
      have answered : program.foreignSlot owner (.this node (some function)) =
          .ok (if some function = owner then none else some (.slot (.param function 0))) := rfl
      rw [answered, Except.ok.injEq, housed.foreign_iff distinct isLocal fun _ => .param]
      apply and_congr_left
      intro _
      constructor
      · rintro rfl
        exact .this
      · intro held
        cases held
        rfl
  | call =>
    refine onlyOwn rfl fun held => ?_
    cases held
    obtain ⟨site, found, rfl⟩ := housed.calledFrom has
    exact .result found
  | select =>
    refine onlyOwn rfl fun held => ?_
    cases held
    exact .merge has
  | function | member =>
    refine onlyOwn rfl fun held => ?_
    cases held
    cases isLocal
  | assign | object | inert => exact onlyOwn rfl fun held => by cases held

theorem reads_of_into {source target : Vertex} (into : program.Into expr target)
    (held : expr.holder program = some source) (isLocal : target.isLocal) :
    ∃ owner, program.Reads owner source ∧
      (program.Owns owner target ∨ program.Reads owner target) := by
  -- what a call takes is read in the body for which the call is recorded
  have atCall {node : NodeId} {site : CallId} {callee : Expr} {arguments : List Expr}
      (member : .call node site callee arguments ∈ program.exprs)
      (inside : expr ∈ (Expr.call node site callee arguments).all) :
      ∃ entry, program.calls[site]? = some entry ∧ program.Reads entry.enclosing source := by
    obtain ⟨owner, has⟩ := Program.mem_exprs.mp member
    obtain ⟨entry, found, rfl⟩ := housed.calledFrom has
    exact ⟨entry, found, reads_of_holder (BodyHas.part has inside) held⟩
  cases into with
  | callee member =>
    obtain ⟨entry, found, reads⟩ := atCall member (by simp [Expr.all, Expr.mem_all_self])
    exact ⟨entry.enclosing, reads, .inl (.callee found)⟩
  | receiver member _ =>
    obtain ⟨entry, found, reads⟩ := atCall member (by simp [Expr.all, Expr.mem_all_self])
    exact ⟨entry.enclosing, reads, .inl (.arg found)⟩
  | argument member isArgument =>
    obtain ⟨entry, found, reads⟩ :=
      atCall member (Expr.argument_mem_all (List.mem_of_getElem? isArgument))
    exact ⟨entry.enclosing, reads, .inl (.arg found)⟩
  | @assigned _ place _ _ member placeHeld =>
    obtain ⟨owner, has⟩ := Program.mem_exprs.mp member
    have inside : program.BodyHas owner expr :=
      BodyHas.part has (by simp [Expr.all, Expr.mem_all_self])
    have placeInside : program.BodyHas owner place :=
      BodyHas.part has (by simp [Expr.all, Expr.mem_all_self])
    exact ⟨owner, reads_of_holder inside held, .inr (reads_of_holder placeInside placeHeld)⟩
  | chosen member isChoice _ =>
    obtain ⟨owner, has⟩ := Program.mem_exprs.mp member
    have inside := BodyHas.part has (Expr.choice_mem_all isChoice)
    exact ⟨owner, reads_of_holder inside held, .inl (.merge has)⟩
  | keyed => cases isLocal
  | @declared owner _ _ _ isBody inBody =>
    have has : program.BodyHas owner expr := ⟨_, _, isBody, inBody, expr.mem_all_self⟩
    obtain ⟨decl, found, owns⟩ := (housed.bodies isBody inBody).declares
    exact ⟨owner, reads_of_holder has held, .inl (housed.owns_slotOf found owns isLocal)⟩
  | @returned function _ _ isBody inBody =>
    have has : program.BodyHas (some function) expr := ⟨_, _, isBody, inBody, expr.mem_all_self⟩
    exact ⟨some function, reads_of_holder has held, .inl .returned⟩

end Program.Housed

/-! ### Flow graphs -/

/-- The local slots in `shared` are those that a body reads without owning them, and every edge
between other local vertices stays inside one function or links a call. -/
structure FlowGraph.Private (graph : FlowGraph) (program : Program) (shared : List VertexId) :
    Prop where
  mem_shared : ∀ {id : VertexId} {vertex : Vertex}, graph.At id vertex → vertex.isLocal →
    (id ∈ shared ↔ ∃ reader, program.Reads reader vertex ∧ ¬ program.Owns reader vertex)
  edge : ∀ {sourceId targetId : VertexId} {source target : Vertex},
    (sourceId, targetId) ∈ graph.edges → graph.At sourceId source → graph.At targetId target →
    source.isLocal → target.isLocal → sourceId ∉ shared → targetId ∉ shared →
    (∃ owner, program.Owns owner source ∧ program.Owns owner target) ∨ program.Links source target

theorem FlowGraph.Represents.exists_private {origin graph : FlowGraph} {natives : NativeTable}
    (represents : origin.Represents program natives) (inRange : program.InRange)
    (housed : program.Housed) (distinct : (program.exprs.map Expr.node).Nodup)
    (wellFormed : graph.WellFormed)
    (arrow_cases : ∀ {source target}, graph.Arrow source target →
      origin.Arrow source target ∨ program.Links source target) :
    ∃ shared, graph.sharedSlots program = .ok shared ∧ graph.Private program shared := by
  obtain ⟨shared, computed, mem_found⟩ :=
    (inRange.slotsKnown housed.wellScoped.parents).sharedSlots_eq graph
  have mem_shared {id : VertexId} {vertex : Vertex} (atId : graph.At id vertex)
      (isLocal : vertex.isLocal) :
      id ∈ shared ↔ ∃ reader, program.Reads reader vertex ∧ ¬ program.Owns reader vertex := by
    rw [mem_found]
    constructor
    · rintro ⟨reader, expr, slot, has, foreign, looked⟩
      cases atId.vertex_unique (wellFormed.lookup_eq_some.mp looked)
      obtain ⟨held, notOwn⟩ := (housed.foreignSlot_iff inRange distinct has isLocal).mp foreign
      exact ⟨reader, ⟨expr, has, held⟩, notOwn⟩
    · rintro ⟨reader, ⟨expr, has, held⟩, notOwn⟩
      exact ⟨reader, expr, vertex, has,
        (housed.foreignSlot_iff inRange distinct has isLocal).mpr ⟨held, notOwn⟩,
        wellFormed.lookup_eq_some.mpr atId⟩
  refine ⟨shared, computed, mem_shared, ?_⟩
  intro sourceId targetId source target edge atSource atTarget sourceLocal targetLocal
    sourceUnshared targetUnshared
  have owns {owner : Option FunctionId} {id : VertexId} {vertex : Vertex}
      (atId : graph.At id vertex) (isLocal : vertex.isLocal) (unshared : id ∉ shared)
      (reads : program.Reads owner vertex) : program.Owns owner vertex := by
    by_contra notOwn
    exact unshared ((mem_shared atId isLocal).mpr ⟨owner, reads, notOwn⟩)
  rcases arrow_cases ⟨sourceId, targetId, atSource, atTarget, edge⟩ with old | links
  · rcases represents.arrow_cases old with ⟨_, _, rfl, _⟩ | ⟨expr, into, held⟩
    · cases sourceLocal
    · obtain ⟨owner, readsSource, placed⟩ := housed.reads_of_into into held targetLocal
      exact .inl ⟨owner, owns atSource sourceLocal sourceUnshared readsSource,
        placed.elim id (owns atTarget targetLocal targetUnshared)⟩
  · exact .inr links

theorem Propagation.Solved.links_of_arrow {state : Propagation} {origin : FlowGraph}
    (solved : state.Solved program origin) {source target : Vertex}
    (arrow : state.graph.Arrow source target) :
    origin.Arrow source target ∨ program.Links source target := by
  rcases solved.arrow_iff.mp arrow with old | ⟨_, _, _, _, _, isCall, _, tied, rfl, rfl, _, _⟩
  · exact .inl old
  · rcases mem_linkEdges.mp tied with ⟨_, within, rfl, rfl⟩ | ⟨rfl, rfl⟩
    · exact .inr (.argument isCall within)
    · exact .inr (.result isCall)

/-- Of every list of files whose trees fit their texts: vertices have one owner at most, and in the
flow graph of the one-shot analysis, as in that of the demand-driven analysis at any depth, an edge
between unshared slots stays inside one function, unless it links a call. -/
theorem unshared_slots_private (files : List SourceFile) (natives : NativeTable) :
    (∃ failure, Program.ofSources files = .error failure ∧
      ∃ file ∈ files, file.Unreadable failure) ∨
    ∃ (parsed : Parsed) (oneShot : Analysis),
      Program.ofSources files = .ok parsed ∧
      Analysis.oneShot parsed.program natives = .ok oneShot ∧
      (∀ vertex owner other, parsed.program.Owns owner vertex → parsed.program.Owns other vertex →
        owner = other) ∧
      (∃ shared, oneShot.flow.sharedSlots parsed.program = .ok shared ∧
        oneShot.flow.Private parsed.program shared) ∧
      ∀ depth, ∃ demand shared, Analysis.demand parsed.program natives depth = .ok demand ∧
        demand.flow.sharedSlots parsed.program = .ok shared ∧
        demand.flow.Private parsed.program shared := by
  have outcome := Program.ofSources_outcome files
  split at outcome
  · rename_i parsed made
    obtain ⟨inRange, _⟩ := outcome
    obtain ⟨housed, distinct⟩ := Program.ofSources_housed made
    obtain ⟨graph, _, state, oneShot, built, represents, solved, ranOneShot, flow, _, _⟩ :=
      Analysis.oneShot_solved inRange natives
    refine .inr ⟨parsed, oneShot, made, ranOneShot, fun _ _ _ owns ownsToo =>
      owns.unique housed.wellScoped distinct ownsToo, ?_, fun depth => ?_⟩
    · rw [flow]
      exact represents.exists_private inRange housed distinct solved.consistent.wellFormed
        solved.links_of_arrow
    · obtain ⟨_, _, _, _, final, demand, built', run⟩ :=
        Analysis.demand_converged inRange housed.wellScoped.parents natives depth
      cases built.symm.trans built'
      obtain ⟨shared, computed, isPrivate⟩ :=
        represents.exists_private inRange housed distinct run.leastLinked.wellFormed fun arrow =>
          solved.links_of_arrow ((run.within_solved solved).arrow arrow)
      rw [← run.flow] at computed isPrivate
      exact ⟨demand, shared, run.demand, computed, isPrivate⟩
  · rename_i failure failed
    exact .inl ⟨failure, failed, outcome⟩

def capturedParameter : SourceFile where
  path := "a.js"
  text := "function f(x) { return () => x; }"
  tree := {
    hasErrors := false
    root :=
      .rule "program" 0 33 [] [
        .rule "function_declaration" 0 33 ["name", "parameters", "body"] [
          .rule "identifier" 9 10 [] [],
          .rule "formal_parameters" 10 13 [] [.rule "identifier" 11 12 [] []],
          .rule "statement_block" 14 33 [] [
            .rule "return_statement" 16 31 [] [
              .rule "arrow_function" 23 30 ["parameters", "body"] [
                .rule "formal_parameters" 23 25 [] [],
                .rule "identifier" 29 30 [] []]]]]] }

/-- The closure returns the parameter of the function around it: that edge leaves a function and
links no call, so one of its ends is shared. -/
theorem unshared_slots_private_capturedParameter :
    ∃ (parsed : Parsed) (oneShot : Analysis) (shared : List VertexId),
      Program.ofSources [capturedParameter] = .ok parsed ∧
      Analysis.oneShot parsed.program ⟨[]⟩ = .ok oneShot ∧
      oneShot.flow.sharedSlots parsed.program = .ok shared ∧
      oneShot.flow.At 4 (.slot (.param 0 1)) ∧ oneShot.flow.At 5 (.slot (.returned 1)) ∧
      (4, 5) ∈ oneShot.flow.edges ∧ (4 ∈ shared ∨ 5 ∈ shared) := by
  have built : (Program.ofSources [capturedParameter] >>= fun parsed =>
      Analysis.bodyGraph parsed.program ⟨[]⟩ >>= fun built =>
        pure (built.1.vertices, built.1.edges)) =
      .ok (#[.function 0, .function 1, .named "f", .slot (.returned 0), .slot (.param 0 1),
        .slot (.returned 1)], #[(0, 2), (1, 3), (4, 5)]) := by
    decide +kernel
  rcases unshared_slots_private [capturedParameter] ⟨[]⟩ with ⟨failure, failed, _⟩ | ⟨parsed,
    oneShot, made, ran, unique, ⟨shared, computed, isPrivate⟩, _⟩
  · rw [failed] at built
    cases built
  · obtain ⟨graph, events, state, _, isGraph, _, solved, ranToo, flow, _, _⟩ :=
      Analysis.oneShot_solved (Program.ofSources_inRange made) ⟨[]⟩
    cases ran.symm.trans ranToo
    rw [made, Checked.ok_bind, isGraph] at built
    obtain ⟨vertices, edges⟩ := Prod.mk.inj (Except.ok.inj built)
    have atParameter : oneShot.flow.At 4 (.slot (.param 0 1)) := by
      rw [flow]
      exact solved.within.1 (by rw [FlowGraph.At, vertices]; rfl)
    have atReturned : oneShot.flow.At 5 (.slot (.returned 1)) := by
      rw [flow]
      exact solved.within.1 (by rw [FlowGraph.At, vertices]; rfl)
    have edge : (4, 5) ∈ oneShot.flow.edges := by
      rw [flow]
      exact solved.within.2 (by rw [edges]; simp)
    refine ⟨parsed, oneShot, shared, made, ran, computed, atParameter, atReturned, edge, ?_⟩
    by_contra unshared
    rw [not_or] at unshared
    rcases isPrivate.edge edge atParameter atReturned rfl rfl unshared.1 unshared.2 with
      ⟨owner, ownsParameter, ownsReturned⟩ | links
    · cases (unique _ _ _ ownsParameter .param).symm.trans (unique _ _ _ ownsReturned .returned)
    · cases links

end FunctionFlow
