import FunctionFlow.Proofs.Analysis.Bridges
import FunctionFlow.Proofs.Analysis.Direct

/-!
Contract: what the analyses find in a program, they find where the program is part of a whole.
-/

namespace FunctionFlow

variable {function : FunctionId} {vertex : Vertex}

/-! ### Functions called directly -/

namespace Program.Embeds

variable {program whole : Program} {ids : Renaming} (embeds : program.Embeds ids whole)
include embeds

theorem directFunction {decl : DeclId}
    (denotes : program.directFunction decl = .ok (some function)) :
    whole.directFunction (ids .decl decl) = .ok (some (ids .function function)) := by
  obtain ⟨entry, found, notParameter, once, holds⟩ := directFunction_eq_some.mp denotes
  refine directFunction_eq_some.mpr ⟨_, embeds.decls decl entry found, ?_, once, ?_⟩
  · intro owner index isParameter
    cases isKind : entry.kind with
    | parameter owner index => exact notParameter owner index isKind
    | _ =>
      rw [Declaration.rename, isKind] at isParameter
      cases isParameter
  · exact congrArg (Option.map (ids .function)) holds

theorem directCallee {callee : Expr} (denotes : program.directCallee callee = .ok (some function)) :
    whole.directCallee (callee.rename ids) = .ok (some (ids .function function)) := by
  induction callee using Program.directCallee.induct with
  | case1 node target =>
    cases denotes
    rfl
  | case2 node name scope decl => exact embeds.directFunction denotes
  | case3 node guards value inductionHypothesis => exact inductionHypothesis denotes
  | case4 callee notLiteral notName notChoice =>
    rw [Program.directCallee.eq_4 program callee notLiteral notName notChoice] at denotes
    cases denotes

theorem callsDirectly {call : CallId} (calls : program.CallsDirectly call function) :
    whole.CallsDirectly (ids .call call) (ids .function function) := by
  obtain ⟨node, callee, arguments, member, denotes⟩ := calls
  exact ⟨_, _, _, embeds.exprs member, embeds.directCallee denotes⟩

theorem callsIn : program.CallsIn ids whole :=
  fun isCall => ⟨_, embeds.calls _ _ isCall, rfl⟩

end Program.Embeds

/-! ### Flow -/

theorem FlowGraph.Embeds.bridgedIn {ids : Renaming} {graph wholeGraph : FlowGraph}
    (embeds : graph.Embeds ids wholeGraph)
    (noPorts : ∀ {source target}, graph.Arrow source target → source.isPort = false) :
    graph.BridgedIn ids wholeGraph := by
  refine ⟨fun _ => embeds.vertices _, ?bridges, ?ports⟩
  case bridges =>
    rintro source target - - - ⟨last, way, here⟩
    exact ⟨_, way.lift (Vertex.rename ids) fun _ _ ⟨arrow, isMerge⟩ =>
      ⟨embeds.arrows _ _ arrow, by simpa using isMerge⟩, embeds.arrows _ _ here⟩
  case ports =>
    intro source target isPort arrow
    rw [noPorts arrow] at isPort
    cases isPort

/-! ### Shared slots -/

/-- Everything in `program` is in `whole`, where different ids stay different, and scopes that are
no function's own do not become one. -/
structure Program.Part (ids : Renaming) (program whole : Program) : Prop where
  embeds : program.Embeds ids whole
  injective : ids.Injective
  inner : ∀ {scope : ScopeId}, scope < program.scopes.size → program.IsInner scope →
    whole.IsInner (ids .scope scope)

namespace Program.Part

variable {program whole : Program} {ids : Renaming} (part : program.Part ids whole)
include part

theorem scopeOwner {scope : ScopeId} {owner : Option FunctionId}
    (owns : program.ScopeOwner scope owner) :
    whole.ScopeOwner (ids .scope scope) (owner.map (ids .function)) := by
  have inside {scope : ScopeId} {entry : Scope} (found : program.scopes[scope]? = some entry) :
      scope < program.scopes.size := Table.below found
  induction owns with
  | @own id definition found => exact .own (part.embeds.functions id definition found)
  | @outer scope parent entry owner found isInner isParent _ inductionHypothesis =>
    refine .outer (part.embeds.scopes scope entry found) (part.inner (inside found) isInner) ?_
      inductionHypothesis
    exact congrArg (Option.map (ids .scope)) isParent
  | @top scope entry found isInner noParent =>
    refine .top (part.embeds.scopes scope entry found) (part.inner (inside found) isInner) ?_
    exact congrArg (Option.map (ids .scope)) noParent

variable (formed : program.WellFormed) (wholeFormed : whole.WellFormed)
include formed wholeFormed

theorem foreignSlot {owner : Option FunctionId} {expr : Expr} {answer : Option Vertex}
    (head : expr.HeadInRange program.sizes)
    (answered : program.foreignSlot owner expr = .ok answer) :
    whole.foreignSlot (owner.map (ids .function)) (expr.rename ids) =
      .ok (answer.map (Vertex.rename ids)) := by
  have sameOwner {first second : Option FunctionId} :
      first.map (ids .function) = second.map (ids .function) ↔ first = second :=
    (Option.map_injective (part.injective .function)).eq_iff
  cases expr with
  | ident node reference =>
    obtain ⟨name, scope, binding⟩ := reference
    cases binding with
    | declared id =>
      obtain ⟨decl, slotOwner, found, owned, rfl⟩ :=
        formed.inRange.foreignSlot_declared owner node name scope answered
      have foundWhole := part.embeds.decls id decl found
      have wholeBelow :=
        (wholeFormed.inRange.decls _ (Array.mem_of_getElem? foundWhole)).scope
      obtain ⟨wholeOwner, wholeOwned⟩ := wholeFormed.wellScoped.parents.owner_ok wholeBelow
      have isOwner : wholeOwner = slotOwner.map (ids .function) :=
        (scopeOwner_of_ownerWithin wholeOwned).unique wholeFormed.wellScoped
          (part.scopeOwner (scopeOwner_of_ownerWithin owned))
      refine (wholeFormed.inRange.foreignSlot_eq (owner.map (ids .function)) (ids .node node) name
        (ids .scope scope) foundWhole wholeOwned).trans ?_
      rw [isOwner, part.embeds.slotOf formed.inRange head.2]
      simp only [sameOwner]
      by_cases own : slotOwner = owner
      · rw [if_pos own, if_pos own]
        rfl
      · rw [if_neg own, if_neg own]
        rfl
    | global | unresolved =>
      cases answered
      rfl
  | this node receiver =>
    cases receiver with
    | none =>
      cases answered
      rfl
    | some function =>
      have sameReceiver : some (ids .function function) = owner.map (ids .function) ↔
          some function = owner := @sameOwner (some function) owner
      cases Except.ok.inj answered
      refine congrArg Except.ok ?_
      simp only [sameReceiver]
      by_cases own : some function = owner
      · rw [if_pos own, if_pos own]
        rfl
      · rw [if_neg own, if_neg own]
        rfl
  | _ =>
    cases answered
    rfl

theorem foreign (foreign : program.Foreign vertex) : whole.Foreign (vertex.rename ids) := by
  obtain ⟨owner, expr, has, answered⟩ := foreign
  have head := formed.inRange.head (Program.mem_exprs.mpr ⟨owner, has⟩)
  exact ⟨_, _, part.embeds.bodyHas has, part.foreignSlot formed wholeFormed head answered⟩

end Program.Part

namespace Program.Alike

variable {program other : Program} {ids back : Renaming} (alike : program.Alike ids back other)
include alike

theorem injective : ids.Injective :=
  fun kind => Function.LeftInverse.injective (alike.undone kind)

theorem part : program.Part ids other where
  embeds := alike.embeds
  injective := alike.injective
  inner _ isInner id definition found isScope := by
    refine isInner _ _ (alike.embedsBack.functions id definition found) ?_
    exact (congrArg (back .scope) isScope).trans (alike.undone .scope _)

theorem sharesAlike (formed : program.WellFormed) (otherFormed : other.WellFormed) :
    program.SharesAlike ids other := by
  refine fun _ _ => ⟨alike.part.foreign formed otherFormed, fun foreign => ?_⟩
  have foreignBack := alike.symm.part.foreign otherFormed formed foreign
  rwa [Vertex.rename_undone alike.undone] at foreignBack

end Program.Alike

/-! ### The pairs of the analyses -/

namespace Analysis

section

variable {program whole : Program} {ids : Renaming} (embeds : program.Embeds ids whole)
  (inRange : program.InRange) (wholeInRange : whole.InRange) {natives more : NativeTable}
  {analysis wholeAnalysis : Analysis}
include embeds inRange wholeInRange

theorem direct_embeds (ran : direct program natives = .ok analysis)
    (ranWhole : direct whole more = .ok wholeAnalysis) :
    analysis.callGraph.Embeds ids wholeAnalysis.callGraph := by
  obtain ⟨_, ranToo, mem_pairs⟩ := direct_eq inRange.tellsDirect natives
  cases ran.symm.trans ranToo
  obtain ⟨_, ranWholeToo, mem_wholePairs⟩ := direct_eq wholeInRange.tellsDirect more
  cases ranWhole.symm.trans ranWholeToo
  intro pair member
  obtain ⟨call, function, calls, rfl⟩ := (mem_pairs pair).mp member
  exact (mem_wholePairs _).mpr ⟨_, _, embeds.callsDirectly calls, rfl⟩

variable (injective : ids.Injective) (included : natives.entries ⊆ more.entries)
include injective included

theorem bodyGraph_bridged {graph wholeGraph : FlowGraph} {events wholeEvents : List Event}
    (built : bodyGraph program natives = .ok (graph, events))
    (builtWhole : bodyGraph whole more = .ok (wholeGraph, wholeEvents)) :
    graph.BridgedIn ids wholeGraph := by
  obtain ⟨_, _, builtToo, grown⟩ := bodyGraph_grown inRange natives
  cases built.symm.trans builtToo
  exact (bodyGraph_embeds embeds injective inRange wholeInRange included built builtWhole).bridgedIn
    grown.notPort

theorem oneShot_embeds (ran : oneShot program natives = .ok analysis)
    (ranWhole : oneShot whole more = .ok wholeAnalysis) :
    analysis.callGraph.Embeds ids wholeAnalysis.callGraph :=
  oneShot_embeds_of_bridged inRange wholeInRange embeds.callsIn
    (bodyGraph_bridged embeds inRange wholeInRange injective included) ran ranWhole

theorem demand_embeds_of_shared {depth : Nat} (sharesAlike : program.SharesAlike ids whole)
    (ran : demand program natives depth = .ok analysis)
    (ranWhole : demand whole more depth = .ok wholeAnalysis) :
    analysis.callGraph.Embeds ids wholeAnalysis.callGraph :=
  demand_embeds_of_bridged inRange wholeInRange embeds.callsIn
    (bodyGraph_bridged embeds inRange wholeInRange injective included) injective sharesAlike ran
    ranWhole

end

theorem demand_embeds {program other : Program} {ids back : Renaming}
    (alike : program.Alike ids back other) (formed : program.WellFormed)
    (otherFormed : other.WellFormed) {natives : NativeTable} {depth : Nat}
    {analysis otherAnalysis : Analysis} (ran : demand program natives depth = .ok analysis)
    (ranOther : demand other natives depth = .ok otherAnalysis) :
    analysis.callGraph.Embeds ids otherAnalysis.callGraph :=
  demand_embeds_of_shared alike.embeds formed.inRange otherFormed.inRange alike.injective
    (List.Subset.refl _) (alike.sharesAlike formed otherFormed) ran ranOther

end Analysis

end FunctionFlow
