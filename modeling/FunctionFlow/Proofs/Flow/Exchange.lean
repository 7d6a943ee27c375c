import FunctionFlow.Proofs.Flow.Heads
import FunctionFlow.Proofs.Program.Replacement

/-!
Contract: the flow around a place of a program.

Nothing is said of the vertices around the place. Where one of them is related to another vertex, an
arrow may end at either of the two.
-/

namespace FunctionFlow

/-! ### Programs that differ in their bodies -/

section

variable {program other : Program}

theorem Program.SameTables.slotOf (same : program.SameTables other) (id : DeclId) :
    other.slotOf id = program.slotOf id := by
  simp only [Program.slotOf, Program.declVertex, Program.isGlobal, Program.decl, Program.scope,
    same.decls, same.scopes]

theorem Program.SameTables.slot (same : program.SameTables other) (reference : Reference) :
    reference.slot other = reference.slot program := by
  simp only [Reference.slot, same.slotOf]

theorem Program.SameTables.passesReceiver (same : program.SameTables other) (site : CallId) :
    other.passesReceiver site = program.passesReceiver site := by
  rw [Program.passesReceiver, Program.passesReceiver, same.calls]

mutual
theorem Expr.holder_sameTables (same : program.SameTables other) :
    (expr : Expr) → expr.holder other = expr.holder program
  | .ident _ reference => by simp only [Expr.holder, same.slot]
  | .assign _ _ value => by rw [Expr.holder, Expr.holder, value.holder_sameTables same]
  | .select _ _ values => by rw [Expr.holder, Expr.holder, Expr.holders_sameTables same values]
  | .function .. | .this .. | .member .. | .call .. | .object .. | .inert .. => by
    simp only [Expr.holder]
theorem Expr.holders_sameTables (same : program.SameTables other) : (exprs : List Expr) →
    Expr.holders other exprs = Expr.holders program exprs
  | [] => rfl
  | first :: rest => by
    rw [Expr.holders, Expr.holders, first.holder_sameTables same,
      Expr.holders_sameTables same rest]
end

theorem Expr.receiverGrowth_sameTables (same : program.SameTables other) (site : CallId) (expr : Expr) :
    expr.receiverGrowth other site = expr.receiverGrowth program site := by
  cases expr <;> simp only [Expr.receiverGrowth, same.passesReceiver, Expr.holder_sameTables same]

mutual
theorem Expr.growth_sameTables (same : program.SameTables other) :
    (expr : Expr) → expr.growth other = expr.growth program
  | .ident _ reference => by simp only [Expr.growth, same.slot]
  | .member _ object _ => by simp only [Expr.growth, object.growth_sameTables same]
  | .call _ _ callee args => by
    simp only [Expr.growth, callee.growth_sameTables same, Expr.receiverGrowth_sameTables same,
      Expr.holder_sameTables same, Expr.argumentGrowth_sameTables same _ _ args]
  | .assign _ target value => by
    simp only [Expr.growth, target.growth_sameTables same, value.growth_sameTables same,
      Expr.holder_sameTables same]
  | .select _ guards values => by
    simp only [Expr.growth, Expr.growths_sameTables same guards, Expr.growths_sameTables same values,
      Expr.holders_sameTables same]
  | .object _ entries => by simp only [Expr.growth, Property.growths_sameTables same entries]
  | .inert _ parts => by simp only [Expr.growth, Expr.growths_sameTables same parts]
  | .function .. | .this .. => by simp only [Expr.growth]
theorem Expr.growths_sameTables (same : program.SameTables other) : (exprs : List Expr) →
    Expr.growths other exprs = Expr.growths program exprs
  | [] => rfl
  | first :: rest => by
    rw [Expr.growths, Expr.growths, first.growth_sameTables same, Expr.growths_sameTables same rest]
theorem Expr.argumentGrowth_sameTables (same : program.SameTables other) (site : CallId)
    (index : Nat) : (args : List Expr) →
    Expr.argumentGrowth other site index args = Expr.argumentGrowth program site index args
  | [] => rfl
  | first :: rest => by
    rw [Expr.argumentGrowth, Expr.argumentGrowth, first.growth_sameTables same,
      Expr.holder_sameTables same, Expr.argumentGrowth_sameTables same site (index + 1) rest]
theorem Property.growths_sameTables (same : program.SameTables other) : (entries : List Property) →
    Property.growths other entries = Property.growths program entries
  | [] => rfl
  | .mk key value :: rest => by
    simp only [Property.growths, value.growth_sameTables same, Expr.holder_sameTables same,
      Property.growths_sameTables same rest]
end

theorem Stmt.growth_sameTables (same : program.SameTables other) (owner : Option FunctionId)
    (stmt : Stmt) : stmt.growth other owner = stmt.growth program owner := by
  cases stmt with
  | expr value => exact Expr.growth_sameTables same value
  | declare _ initial =>
    cases initial <;>
      simp only [Stmt.growth, same.slotOf, Expr.growth_sameTables same, Expr.holder_sameTables same]
  | result returned =>
    simp only [Stmt.growth, Expr.growth_sameTables same, Expr.holder_sameTables same]

end

/-! ### Growths up to related vertices -/

/-- A comparison of the flow in two programs: vertices may be exchanged for related ones, and
`known` is left aside. -/
structure Exchange where
  program : Program
  other : Program
  same : program.SameTables other
  related : Vertex → Vertex → Prop
  refl : ∀ vertex, related vertex vertex
  known : Growth

theorem rel_of_eq {related : Vertex → Vertex → Prop} (refl : ∀ vertex, related vertex vertex)
    {first second : Option Vertex} (same : first = second) : Option.Rel related first second := by
  subst same
  cases first with
  | none => exact .none
  | some vertex => exact .some (refl vertex)

namespace Exchange

variable (exchange : Exchange)

/-- The ends of an arrow are exchanged for related ones. -/
inductive Moves : Growth.Item → Growth.Item → Prop
  | place (vertex : Vertex) : Moves (.place vertex) (.place vertex)
  | arrow {source target newSource newTarget : Vertex}
    (ofSource : exchange.related source newSource) (ofTarget : exchange.related target newTarget) :
    Moves (.arrow source target) (.arrow newSource newTarget)

/-- All that is not known of the first growth is in the second one. Only an arrow whose ends become
one vertex may be missing there. -/
def Covers (growth other : Growth) : Prop :=
  ∀ item, growth.Has item → exchange.known.Has item ∨ ∃ moved, exchange.Moves item moved ∧
    (other.Has moved ∨ item ≠ moved ∧ ∃ vertex, moved = .arrow vertex vertex)

theorem moves_refl (item : Growth.Item) : exchange.Moves item item := by
  cases item with
  | place vertex => exact .place vertex
  | arrow => exact .arrow (exchange.refl _) (exchange.refl _)

theorem rel_refl (vertex : Option Vertex) : Option.Rel exchange.related vertex vertex :=
  rel_of_eq exchange.refl rfl

theorem covers_refl (growth : Growth) : exchange.Covers growth growth :=
  fun item has => .inr ⟨item, exchange.moves_refl item, .inl has⟩

variable {exchange}

theorem Covers.append {first second other more : Growth} (covers : exchange.Covers first other)
    (further : exchange.Covers second more) : exchange.Covers (first ++ second) (other ++ more) := by
  intro item has
  rcases Growth.has_append.mp has with here | here
  · exact (covers item here).imp_right fun ⟨moved, moves, found⟩ =>
      ⟨moved, moves, found.imp_left fun there => Growth.has_append.mpr (.inl there)⟩
  · exact (further item here).imp_right fun ⟨moved, moves, found⟩ =>
      ⟨moved, moves, found.imp_left fun there => Growth.has_append.mpr (.inr there)⟩

theorem Covers.flow {source newSource : Option Vertex} {target newTarget : Vertex}
    (ofSource : Option.Rel exchange.related source newSource)
    (ofTarget : exchange.related target newTarget) :
    exchange.Covers (.flow source target) (.flow newSource newTarget) := by
  rintro (vertex | ⟨origin, goal⟩) has
  · simp [Growth.Has] at has
  obtain ⟨rfl, rfl, apart⟩ := Growth.mem_arrows_flow.mp has
  obtain @⟨_, newOrigin, related⟩ := ofSource
  refine .inr ⟨.arrow newOrigin newTarget, .arrow related ofTarget, ?_⟩
  by_cases joined : newOrigin = newTarget
  · refine .inr ⟨?_, newOrigin, by rw [joined]⟩
    rintro ⟨⟩
    exact apart joined
  · exact .inl (Growth.mem_arrows_flow.mpr ⟨rfl, rfl, joined⟩)

def Similar (exchange : Exchange) (vertices others : List Vertex) : Prop :=
  others.length = vertices.length ∧
    ∀ vertex ∈ vertices, ∃ other ∈ others, exchange.related vertex other

theorem similar_refl (vertices : List Vertex) : exchange.Similar vertices vertices :=
  ⟨rfl, fun vertex member => ⟨vertex, member, exchange.refl vertex⟩⟩

theorem Similar.append {vertex other : Option Vertex} {vertices others : List Vertex}
    (first : Option.Rel exchange.related vertex other) (rest : exchange.Similar vertices others) :
    exchange.Similar (vertex.toList ++ vertices) (other.toList ++ others) := by
  cases first with
  | none => exact rest
  | some related =>
    refine ⟨congrArg (· + 1) rest.1, fun vertex member => ?_⟩
    rcases List.mem_cons.mp member with rfl | later
    · exact ⟨_, List.mem_cons_self, related⟩
    · obtain ⟨other, isOther, here⟩ := rest.2 vertex later
      exact ⟨other, List.mem_cons_of_mem _ isOther, here⟩

theorem Similar.meeting {vertices others : List Vertex} (similar : exchange.Similar vertices others)
    (node : NodeId) :
    Option.Rel exchange.related (Growth.meeting node vertices) (Growth.meeting node others) := by
  obtain ⟨sameLength, related⟩ := similar
  match vertices, others with
  | [], [] => exact .none
  | [vertex], [other] =>
    obtain ⟨_, member, here⟩ := related vertex List.mem_cons_self
    cases List.mem_singleton.mp member
    exact .some here
  | _ :: _ :: _, _ :: _ :: _ => exact exchange.rel_refl _

theorem Covers.meet {sources newSources : List Vertex}
    (similar : exchange.Similar sources newSources) (node : NodeId) :
    exchange.Covers (.meet node sources) (.meet node newSources) := by
  rintro (vertex | ⟨origin, goal⟩) has
  · obtain ⟨several, rfl⟩ := Growth.mem_places_meet.mp has
    exact .inr ⟨_, .place _, .inl (Growth.mem_places_meet.mpr ⟨similar.1 ▸ several, rfl⟩)⟩
  · obtain ⟨several, member, rfl⟩ := Growth.mem_arrows_meet.mp has
    obtain ⟨newOrigin, newMember, here⟩ := similar.2 origin member
    exact .inr ⟨_, .arrow here (exchange.refl _),
      .inl (Growth.mem_arrows_meet.mpr ⟨similar.1 ▸ several, newMember, rfl⟩)⟩

/-! ### From a place outwards -/

variable (exchange)

/-- The values of the two expressions are at related vertices, and so is the flow in them. -/
structure Trades (first second : Expr) : Prop where
  holder : Option.Rel exchange.related (first.holder exchange.program)
    (second.holder exchange.other)
  growth : exchange.Covers (first.growth exchange.program) (second.growth exchange.other)
  receiver : ∀ site, exchange.Covers (first.receiverGrowth exchange.program site)
    (second.receiverGrowth exchange.other site)

/-- The same for several expressions, also as the arguments of a call. -/
structure TradesIn (firsts seconds : List Expr) : Prop where
  holders : exchange.Similar (Expr.holders exchange.program firsts)
    (Expr.holders exchange.other seconds)
  growths : exchange.Covers (Expr.growths exchange.program firsts)
    (Expr.growths exchange.other seconds)
  args : ∀ site index, exchange.Covers (Expr.argumentGrowth exchange.program site index firsts)
    (Expr.argumentGrowth exchange.other site index seconds)

theorem trades_refl (expr : Expr) : exchange.Trades expr expr where
  holder := by
    rw [Expr.holder_sameTables exchange.same]
    exact exchange.rel_refl _
  growth := by
    rw [Expr.growth_sameTables exchange.same]
    exact exchange.covers_refl _
  receiver site := by
    rw [Expr.receiverGrowth_sameTables exchange.same]
    exact exchange.covers_refl _

theorem tradesIn_refl (exprs : List Expr) : exchange.TradesIn exprs exprs where
  holders := by
    rw [Expr.holders_sameTables exchange.same]
    exact similar_refl _
  growths := by
    rw [Expr.growths_sameTables exchange.same]
    exact exchange.covers_refl _
  args site index := by
    rw [Expr.argumentGrowth_sameTables exchange.same]
    exact exchange.covers_refl _

variable {exchange}

theorem Trades.cons {first second : Expr} {rest others : List Expr}
    (trades : exchange.Trades first second) (further : exchange.TradesIn rest others) :
    exchange.TradesIn (first :: rest) (second :: others) where
  holders := .append trades.holder further.holders
  growths := trades.growth.append further.growths
  args site index := ((trades.growth.append (exchange.covers_refl _)).append
    (.flow trades.holder (exchange.refl _))).append (further.args site (index + 1))

namespace Trades

theorem member {object other : Expr} (trades : exchange.Trades object other) (node : NodeId)
    (name : Option String) : exchange.Trades (.member node object name) (.member node other name) where
  holder := exchange.rel_refl _
  growth := trades.growth.append (exchange.covers_refl _)
  receiver site := by
    rw [Expr.receiverGrowth, Expr.receiverGrowth, exchange.same.passesReceiver]
    split
    · exact (exchange.covers_refl _).append (.flow trades.holder (exchange.refl _))
    · exact exchange.covers_refl _

theorem call {callee other : Expr} {args others : List Expr} (trades : exchange.Trades callee other)
    (further : exchange.TradesIn args others) (node : NodeId) (site : CallId) :
    exchange.Trades (.call node site callee args) (.call node site other others) where
  holder := exchange.rel_refl _
  growth := (trades.growth.append (trades.receiver site)).append
    ((((exchange.covers_refl _).append (.flow trades.holder (exchange.refl _))).append
      (further.args site 1)).append (exchange.covers_refl _))
  receiver _ := exchange.covers_refl _

theorem assign {target newTarget value newValue : Expr} (ofTarget : exchange.Trades target newTarget)
    (ofValue : exchange.Trades value newValue) (node : NodeId) :
    exchange.Trades (.assign node target value) (.assign node newTarget newValue) where
  holder := ofValue.holder
  growth := by
    refine (ofValue.growth.append ofTarget.growth).append ?_
    generalize target.holder exchange.program = place, newTarget.holder exchange.other = newPlace,
      ofTarget.holder = related
    cases related with
    | none => exact exchange.covers_refl _
    | some here => exact .flow ofValue.holder here
  receiver _ := exchange.covers_refl _

theorem select {guards newGuards values newValues : List Expr}
    (ofGuards : exchange.TradesIn guards newGuards) (ofValues : exchange.TradesIn values newValues)
    (node : NodeId) :
    exchange.Trades (.select node guards values) (.select node newGuards newValues) where
  holder := ofValues.holders.meeting node
  growth := (ofGuards.growths.append ofValues.growths).append (.meet ofValues.holders node)
  receiver _ := exchange.covers_refl _

theorem object {entries newEntries : List Property}
    (covers : exchange.Covers (Property.growths exchange.program entries)
      (Property.growths exchange.other newEntries)) (node : NodeId) :
    exchange.Trades (.object node entries) (.object node newEntries) :=
  ⟨.none, covers, fun _ => exchange.covers_refl _⟩

theorem inert {parts newParts : List Expr} (trades : exchange.TradesIn parts newParts)
    (node : NodeId) : exchange.Trades (.inert node parts) (.inert node newParts) :=
  ⟨.none, trades.growths, fun _ => exchange.covers_refl _⟩

theorem property {value newValue : Expr} {rest newRest : List Property}
    (trades : exchange.Trades value newValue)
    (covers : exchange.Covers (Property.growths exchange.program rest)
      (Property.growths exchange.other newRest)) (key : Option String) :
    exchange.Covers (Property.growths exchange.program (.mk key value :: rest))
      (Property.growths exchange.other (.mk key newValue :: newRest)) := by
  simp only [Property.growths]
  refine (trades.growth.append ?_).append covers
  cases key with
  | none => exact exchange.covers_refl _
  | some name => exact (exchange.covers_refl _).append (.flow trades.holder (exchange.refl _))

end Trades

end Exchange

section

variable {exchange : Exchange} {old new : Expr}

mutual
theorem Expr.Place.trades (base : exchange.Trades old new) {fill : Expr → Expr} :
    Expr.Place fill → exchange.Trades (fill old) (fill new)
  | .here => base
  | .object node name inside => (inside.trades base).member node name
  | .callee node site args inside =>
    (inside.trades base).call (exchange.tradesIn_refl args) node site
  | .args node site callee inside =>
    (exchange.trades_refl callee).call (inside.trades base) node site
  | .target node value inside => (inside.trades base).assign (exchange.trades_refl value) node
  | .value node target inside => (exchange.trades_refl target).assign (inside.trades base) node
  | .guards node values inside => .select (inside.trades base) (exchange.tradesIn_refl values) node
  | .values node guards inside => .select (exchange.tradesIn_refl guards) (inside.trades base) node
  | .properties node inside => .object (inside.covers base) node
  | .parts node inside => .inert (inside.trades base) node
theorem Expr.PlaceIn.trades (base : exchange.Trades old new) {fill : Expr → List Expr} :
    Expr.PlaceIn fill → exchange.TradesIn (fill old) (fill new)
  | .first rest inside => (inside.trades base).cons (exchange.tradesIn_refl rest)
  | .rest first inside => (exchange.trades_refl first).cons (inside.trades base)
theorem Property.PlaceIn.covers (base : exchange.Trades old new) {fill : Expr → List Property} :
    Property.PlaceIn fill → exchange.Covers (Property.growths exchange.program (fill old))
      (Property.growths exchange.other (fill new))
  | .first key rest inside => (inside.trades base).property (by
      rw [Property.growths_sameTables exchange.same]
      exact exchange.covers_refl _) key
  | .rest (.mk key value) inside => (exchange.trades_refl value).property (inside.covers base) key
end

theorem Stmt.Place.covers (base : exchange.Trades old new) {fill : Expr → Stmt}
    (place : Stmt.Place fill) (owner : Option FunctionId) :
    exchange.Covers ((fill old).growth exchange.program owner)
      ((fill new).growth exchange.other owner) := by
  cases place with
  | expr inside => exact (inside.trades base).growth
  | declare decl inside =>
    have trades := inside.trades base
    rw [Stmt.growth, Stmt.growth, exchange.same.slotOf]
    exact (trades.growth.append (exchange.covers_refl _)).append
      (.flow trades.holder (exchange.refl _))
  | result inside =>
    have trades := inside.trades base
    cases owner with
    | none => exact trades.growth.append (exchange.covers_refl _)
    | some function =>
      exact trades.growth.append ((exchange.covers_refl _).append
        (.flow trades.holder (exchange.refl _)))

theorem Program.Place.has_growth {fill : Expr → Program} (place : Program.Place fill)
    {item : Growth.Item} (here : (old.growth (fill old)).Has item) :
    (fill old).growth.Has item := by
  obtain ⟨part, inside, head⟩ := (Expr.has_growth _ _ _).mp here
  exact (Program.has_growth _ _).mpr (.inr (.inr (.inr ⟨part, place.mem_exprs inside, head⟩)))

/-- Expressions with related values have the same flow around them, up to related vertices. -/
theorem Program.Place.covers {fill : Expr → Program} (place : Program.Place fill)
    {related : Vertex → Vertex → Prop} (refl : ∀ vertex, related vertex vertex)
    (holder : Option.Rel related (old.holder (fill old)) (new.holder (fill old)))
    (noReceiver : ∀ site, old.receiverGrowth (fill old) site = {}) :
    Exchange.Covers ⟨fill old, fill new, place.sameTables old new, related, refl,
      old.growth (fill old)⟩ (fill old).growth (fill new).growth := by
  generalize isExchange : Exchange.mk (fill old) (fill new) (place.sameTables old new) related refl
    (old.growth (fill old)) = exchange
  have base : exchange.Trades old new := by
    subst isExchange
    refine ⟨?_, fun item has => .inl has, fun site item has => ?_⟩
    · change Option.Rel related _ (new.holder (fill new))
      rwa [Expr.holder_sameTables (place.sameTables old new)]
    · change (old.receiverGrowth (fill old) site).Has item at has
      rw [noReceiver] at has
      exact absurd has Growth.not_has_empty
  obtain ⟨ofOld, ofNew⟩ : exchange.program = fill old ∧ exchange.other = fill new := by
    subst isExchange
    exact ⟨rfl, rfl⟩
  rw [← ofOld, ← ofNew, Program.growth, Program.growth, exchange.same.functions,
    exchange.same.calls]
  refine (exchange.covers_refl _).append fun item has => ?_
  simp only [Growth.has_sum_map] at has ⊢
  obtain ⟨⟨owner, body⟩, isBody, stmt, inBody, here⟩ := has
  obtain ⟨newBody, newStmt, isNewBody, inNewBody, filled⟩ :=
    place.exists_stmt old new (ofOld ▸ isBody) inBody
  have covers : exchange.Covers (stmt.growth exchange.program owner)
      (newStmt.growth exchange.other owner) := by
    rcases filled with rfl | ⟨fillStmt, inside, rfl, rfl⟩
    · rw [Stmt.growth_sameTables exchange.same]
      exact exchange.covers_refl _
    · exact inside.covers base owner
  rcases covers item here with known | ⟨moved, moves, found⟩
  · exact .inl known
  · exact .inr ⟨moved, moves, found.imp_left fun there =>
      ⟨(owner, newBody), ofNew ▸ isNewBody, newStmt, inNewBody, there⟩⟩

end

end FunctionFlow
