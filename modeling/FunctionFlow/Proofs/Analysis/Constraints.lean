import FunctionFlow.Proofs.Analysis.LeastSolution
import Mathlib.Data.List.Nodup

/-!
Contract: the one-shot analysis as a system of constraints on the syntax.

The constraints mention no graph: neither callee vertices nor the points at which choices meet.
-/

namespace FunctionFlow

/-- For each slot the function values that it may hold. -/
abbrev Store := Slot → Set Vertex

mutual
/-- The functions that an expression may evaluate to. -/
def Expr.values (program : Program) (store : Store) : Expr → Set Vertex
  | .function _ target => {.function target}
  | .ident _ reference => store (reference.slot program)
  | .this _ (some owner) => store (.param owner 0)
  | .this _ none => ∅
  | .member _ _ (some name) => store (.named name)
  | .member _ _ none => ∅
  | .call _ site _ _ => store (.result site)
  | .assign _ _ value => value.values program store
  | .select _ _ choices => Expr.choiceValues program store choices
  | .object _ _ | .inert _ _ => ∅
def Expr.choiceValues (program : Program) (store : Store) : List Expr → Set Vertex
  | [] => ∅
  | first :: rest => first.values program store ∪ Expr.choiceValues program store rest
end

/-- The slot that an assignment to an expression writes. -/
def Expr.assignedSlot? (program : Program) : Expr → Option Slot
  | .ident _ reference => some (reference.slot program)
  | .member _ _ name => name.map .named
  | _ => none

/-- Whether an expression, if it is an assignment, assigns to a name, a property or a pattern that
holds no value. -/
def Expr.assignsToPlace : Expr → Bool
  | .assign _ (.ident ..) _ | .assign _ (.member ..) _ | .assign _ (.inert ..) _ => true
  | .assign .. => false
  | _ => true

/-- The constraints that a program and a table of built-in functions put on a store. -/
structure Program.Satisfies (program : Program) (natives : NativeTable) (store : Store) : Prop where
  native : ∀ entry ∈ natives.entries, .native entry.1 ∈ store (.named entry.2)
  declared : ∀ owner body decl initial, (owner, body) ∈ program.bodies →
    .declare decl (some initial) ∈ body → initial.values program store ⊆ store (program.slotOf decl)
  assigned : ∀ node target value slot, .assign node target value ∈ program.exprs →
    target.assignedSlot? program = some slot → value.values program store ⊆ store slot
  keyed : ∀ node entries name value, .object node entries ∈ program.exprs →
    .mk (some name) value ∈ entries → value.values program store ⊆ store (.named name)
  returned : ∀ function body value, (some function, body) ∈ program.bodies →
    .result (some value) ∈ body → value.values program store ⊆ store (.returned function)
  argument : ∀ node call callee arguments index value,
    .call node call callee arguments ∈ program.exprs → arguments[index]? = some value →
    value.values program store ⊆ store (.arg call (index + 1))
  receiver : ∀ node call inner whole name arguments,
    .call node call (.member inner whole name) arguments ∈ program.exprs →
    program.passesReceiver call → whole.values program store ⊆ store (.arg call 0)
  parameter : ∀ node call callee arguments site function,
    .call node call callee arguments ∈ program.exprs → program.calls[call]? = some site →
    .function function ∈ callee.values program store → ∀ index ≤ site.arity,
    store (.arg call index) ⊆ store (.param function index)
  result : ∀ node call callee arguments function,
    .call node call callee arguments ∈ program.exprs →
    .function function ∈ callee.values program store →
    store (.returned function) ⊆ store (.result call)

/-- The one-shot analysis of a program pairs each call with the values that its callee has in the
least store that satisfies the constraints. -/
def Program.SolvedByLeastStore (program : Program) (natives : NativeTable) : Prop :=
  ∃ analysis store, Analysis.oneShot program natives = .ok analysis ∧
    IsLeast {store | program.Satisfies natives store} store ∧
    ∀ pair, pair ∈ analysis.callGraph.pairs ↔
      ∃ node call callee arguments, .call node call callee arguments ∈ program.exprs ∧
        pair.1 = .callee call ∧ pair.2 ∈ callee.values program store

variable {program : Program} {natives : NativeTable} {store : Store}

theorem Expr.mem_choiceValues {choices : List Expr} {found : Vertex} :
    found ∈ Expr.choiceValues program store choices ↔
      ∃ choice ∈ choices, found ∈ choice.values program store := by
  induction choices with
  | nil => simp [Expr.choiceValues]
  | cons first rest inductionHypothesis =>
    simp only [Expr.choiceValues, Set.mem_union, inductionHypothesis, List.mem_cons,
      exists_eq_or_imp]

theorem Expr.holder_of_choice {node : NodeId} {guards choices : List Expr} {choice : Expr}
    {holder : Vertex} (inside : choice ∈ choices) (held : choice.holder program = some holder) :
    Expr.holder program (.select node guards choices) = some holder ∨
      (2 ≤ (Expr.holders program choices).length ∧
        Expr.holder program (.select node guards choices) = some (.slot (.merge node))) := by
  have member : holder ∈ Expr.holders program choices := Expr.mem_holders.mpr ⟨choice, inside, held⟩
  simp only [Expr.holder]
  match holders : Expr.holders program choices with
  | [] => simp [holders] at member
  | [single] =>
    rw [holders, List.mem_singleton] at member
    exact .inl (congrArg some member.symm)
  | _ :: _ :: _ => exact .inr ⟨by simp, rfl⟩

/-! ### The flow of a program satisfies its constraints -/

def reachedStore (program : Program) (graph : FlowGraph) : Store
  | .merge _ => ∅
  | slot => {value | Reaches program graph value (.slot slot)}

theorem mem_reachedStore {graph : FlowGraph} {slot : Slot} (notMerge : slot.isMerge = false)
    {value : Vertex} :
    value ∈ reachedStore program graph slot ↔ Reaches program graph value (.slot slot) := by
  cases slot with
  | merge => cases notMerge
  | _ => rfl

theorem reaches_of_mem_reachedStore {graph : FlowGraph} {slot : Slot} {value : Vertex}
    (member : value ∈ reachedStore program graph slot) :
    Reaches program graph value (.slot slot) := by
  cases slot with
  | merge => cases member
  | _ => exact member

section

variable {value : Vertex} {graph : FlowGraph}

mutual
theorem Expr.reaches_holder (represents : graph.Represents program natives)
    (inRange : program.InRange) (expr : Expr) (member : expr ∈ program.exprs)
    (inside : value ∈ expr.values program (reachedStore program graph)) :
    ∃ holder, expr.holder program = some holder ∧ Reaches program graph value holder := by
  cases expr with
  | function node target =>
    cases Set.mem_singleton_iff.mp inside
    exact ⟨_, rfl, .value (represents.function target (inRange.head member)) rfl⟩
  | ident node reference => exact ⟨_, rfl, reaches_of_mem_reachedStore inside⟩
  | this node owner =>
    cases owner with
    | none => cases inside
    | some owner => exact ⟨_, rfl, reaches_of_mem_reachedStore inside⟩
  | member node whole name =>
    cases name with
    | none => cases inside
    | some name => exact ⟨_, rfl, reaches_of_mem_reachedStore inside⟩
  | call node site callee arguments => exact ⟨_, rfl, reaches_of_mem_reachedStore inside⟩
  | assign node target result =>
    exact Expr.reaches_holder represents inRange result
      (Program.mem_exprs_of_part member (by simp [Expr.all, Expr.mem_all_self])) inside
  | select node guards choices =>
    have members : ∀ choice ∈ choices, choice ∈ program.exprs := by
      intro choice isChoice
      exact Program.mem_exprs_of_part member (Expr.choice_mem_all isChoice)
    obtain ⟨choice, isChoice, holder, held, reached⟩ :=
      Expr.reaches_holders represents inRange choices members inside
    rcases Expr.holder_of_choice isChoice held with same | ⟨several, merged⟩
    · exact ⟨holder, same, reached⟩
    · rcases represents.into (.chosen member isChoice several) held with rfl | arrow
      · exact ⟨_, merged, reached⟩
      · exact ⟨_, merged, .arrow reached arrow⟩
  | object => cases inside
  | inert => cases inside
theorem Expr.reaches_holders (represents : graph.Represents program natives)
    (inRange : program.InRange) (exprs : List Expr) (members : ∀ expr ∈ exprs, expr ∈ program.exprs)
    (inside : value ∈ Expr.choiceValues program (reachedStore program graph) exprs) :
    ∃ expr ∈ exprs, ∃ holder, expr.holder program = some holder ∧
      Reaches program graph value holder := by
  cases exprs with
  | nil => cases inside
  | cons first rest =>
    rcases inside with here | later
    · exact ⟨first, List.mem_cons_self,
        Expr.reaches_holder represents inRange first (members first List.mem_cons_self) here⟩
    · obtain ⟨expr, member, reached⟩ := Expr.reaches_holders represents inRange rest
        (fun expr member => members expr (List.mem_cons_of_mem _ member)) later
      exact ⟨expr, List.mem_cons_of_mem _ member, reached⟩
end

theorem Program.Into.reaches (represents : graph.Represents program natives)
    (inRange : program.InRange) {expr : Expr} {target : Vertex} (into : program.Into expr target)
    (inside : value ∈ expr.values program (reachedStore program graph)) :
    Reaches program graph value target := by
  obtain ⟨holder, held, reached⟩ := Expr.reaches_holder represents inRange expr into.mem inside
  rcases represents.into into held with rfl | arrow
  · exact reached
  · exact .arrow reached arrow

theorem Expr.holder_of_assignedSlot {target : Expr} {slot : Slot}
    (assigned : target.assignedSlot? program = some slot) :
    target.holder program = some (.slot slot) ∧ slot.isMerge = false := by
  cases target with
  | ident node reference =>
    cases assigned
    exact ⟨rfl, reference.isMerge_slot program⟩
  | member node whole name =>
    cases name with
    | none => cases assigned
    | some name =>
      cases assigned
      exact ⟨rfl, rfl⟩
  | _ => cases assigned

theorem satisfies_reachedStore (represents : graph.Represents program natives)
    (inRange : program.InRange) : program.Satisfies natives (reachedStore program graph) := by
  have called {node : NodeId} {call : CallId} {callee : Expr} {arguments : List Expr}
      (member : .call node call callee arguments ∈ program.exprs) :
      .callee call ∈ graph.vertices ∧ call < program.calls.size := by
    have below : call < program.calls.size := inRange.head member
    exact ⟨represents.callee_iff.mpr below, below⟩
  constructor
  case native =>
    intro entry member
    have arrow := represents.native entry member
    exact .arrow (.value arrow.source_mem rfl) arrow
  case declared =>
    intro owner body decl initial isBody inside value member
    exact (mem_reachedStore (program.isMerge_slotOf decl)).mpr
      (Program.Into.reaches represents inRange (.declared isBody inside) member)
  case assigned =>
    intro node target value slot member assigned found inside
    obtain ⟨held, notMerge⟩ := Expr.holder_of_assignedSlot assigned
    exact (mem_reachedStore notMerge).mpr
      (Program.Into.reaches represents inRange (.assigned member held) inside)
  case keyed =>
    intro node entries name value member inside found
    exact Program.Into.reaches represents inRange (.keyed member inside)
  case returned =>
    intro function body value isBody inside found
    exact Program.Into.reaches represents inRange (.returned isBody inside)
  case argument =>
    intro node call callee arguments index value member inside found
    exact Program.Into.reaches represents inRange (.argument member inside)
  case receiver =>
    intro node call inner whole name arguments member passes found
    exact Program.Into.reaches represents inRange (.receiver member passes)
  case parameter =>
    intro node call callee arguments site function member isCall inside index within found reached
    exact .link (called member).1 isCall
      (Program.Into.reaches represents inRange (.callee member) inside)
      (mem_linkEdges.mpr (.inl ⟨index, within, rfl, rfl⟩)) reached
  case result =>
    intro node call callee arguments function member inside found reached
    exact .link (called member).1 (Array.getElem?_eq_getElem (called member).2)
      (Program.Into.reaches represents inRange (.callee member) inside)
      (mem_linkEdges.mpr (.inr ⟨rfl, rfl⟩)) reached

/-! ### A store that satisfies the constraints bounds the flow -/

def storeFamily (program : Program) (store : Store) : Vertex → Set Vertex
  | .function id => {.function id}
  | .native name => {.native name}
  | .callee call => {value | ∃ node callee arguments,
      .call node call callee arguments ∈ program.exprs ∧ value ∈ callee.values program store}
  | .slot (.merge node) => {value | ∃ guards choices,
      .select node guards choices ∈ program.exprs ∧ value ∈ Expr.choiceValues program store choices}
  | .slot slot => store slot

theorem storeFamily_slot {slot : Slot} (notMerge : slot.isMerge = false) :
    storeFamily program store (.slot slot) = store slot := by
  cases slot with
  | merge => cases notMerge
  | _ => rfl

mutual
theorem Expr.storeFamily_holder (distinct : (program.exprs.map Expr.node).Nodup) (expr : Expr)
    (member : expr ∈ program.exprs) {holder : Vertex} (held : expr.holder program = some holder)
    (inside : value ∈ storeFamily program store holder) : value ∈ expr.values program store := by
  cases expr with
  | function node target =>
    cases held
    exact inside
  | ident node reference =>
    cases held
    rwa [storeFamily_slot (reference.isMerge_slot program)] at inside
  | this node owner =>
    cases owner with
    | none => cases held
    | some owner =>
      cases held
      exact inside
  | member node whole name =>
    cases name with
    | none => cases held
    | some name =>
      cases held
      exact inside
  | call node site callee arguments =>
    cases held
    exact inside
  | assign node target result =>
    exact Expr.storeFamily_holder distinct result
      (Program.mem_exprs_of_part member (by simp [Expr.all, Expr.mem_all_self])) held inside
  | select node guards choices =>
    rcases Expr.holder_select held with single | ⟨_, rfl⟩
    · have members : ∀ choice ∈ choices, choice ∈ program.exprs := by
        intro choice isChoice
        exact Program.mem_exprs_of_part member (Expr.choice_mem_all isChoice)
      exact Expr.storeFamily_holders distinct choices members (single ▸ List.mem_cons_self) inside
    · -- the only choice that meets at this vertex is the given one
      obtain ⟨guards', choices', member', inside⟩ := inside
      cases List.inj_on_of_nodup_map distinct member' member rfl
      exact inside
  | object => cases held
  | inert => cases held
theorem Expr.storeFamily_holders (distinct : (program.exprs.map Expr.node).Nodup)
    (exprs : List Expr) (members : ∀ expr ∈ exprs, expr ∈ program.exprs) {holder : Vertex}
    (held : holder ∈ Expr.holders program exprs)
    (inside : value ∈ storeFamily program store holder) :
    value ∈ Expr.choiceValues program store exprs := by
  cases exprs with
  | nil => cases held
  | cons first rest =>
    rw [Expr.holders, List.mem_append, Option.mem_toList] at held
    rcases held with here | later
    · exact .inl (Expr.storeFamily_holder distinct first (members first List.mem_cons_self) here
        inside)
    · exact .inr (Expr.storeFamily_holders distinct rest
        (fun expr member => members expr (List.mem_cons_of_mem _ member)) later inside)
end

theorem Expr.assignedSlot_of_holder {node : NodeId} {target value : Expr} {holder : Vertex}
    (toPlace : (Expr.assign node target value).assignsToPlace)
    (held : target.holder program = some holder) :
    ∃ slot, target.assignedSlot? program = some slot ∧ holder = .slot slot := by
  cases target with
  | ident node reference =>
    cases held
    exact ⟨_, rfl, rfl⟩
  | member node whole name =>
    cases name with
    | none => cases held
    | some name =>
      cases held
      exact ⟨_, rfl, rfl⟩
  | inert => cases held
  | _ => cases toPlace

theorem Program.Into.values_subset (satisfies : program.Satisfies natives store)
    (toPlaces : ∀ expr ∈ program.exprs, expr.assignsToPlace) {expr : Expr} {target : Vertex}
    (into : program.Into expr target) :
    expr.values program store ⊆ storeFamily program store target := by
  intro value inside
  cases into with
  | callee member => exact ⟨_, _, _, member, inside⟩
  | receiver member passes => exact satisfies.receiver _ _ _ _ _ _ member passes inside
  | argument member found => exact satisfies.argument _ _ _ _ _ _ member found inside
  | assigned member held =>
    obtain ⟨slot, assigned, rfl⟩ := Expr.assignedSlot_of_holder (toPlaces _ member) held
    rw [storeFamily_slot (Expr.holder_of_assignedSlot assigned).2]
    exact satisfies.assigned _ _ _ _ member assigned inside
  | chosen member isChoice _ =>
    exact ⟨_, _, member, Expr.mem_choiceValues.mpr ⟨expr, isChoice, inside⟩⟩
  | keyed member isEntry => exact satisfies.keyed _ _ _ _ member isEntry inside
  | declared isBody isStmt =>
    rw [storeFamily_slot (program.isMerge_slotOf _)]
    exact satisfies.declared _ _ _ _ isBody isStmt inside
  | returned isBody isStmt => exact satisfies.returned _ _ _ isBody isStmt inside

theorem closed_storeFamily (represents : graph.Represents program natives)
    (satisfies : program.Satisfies natives store)
    (toPlaces : ∀ expr ∈ program.exprs, expr.assignsToPlace)
    (distinct : (program.exprs.map Expr.node).Nodup) :
    graph.Closed program (storeFamily program store) where
  values := by
    intro vertex _ isValue
    cases vertex with
    | function | native => rfl
    | callee | slot => cases isValue
  arrows := by
    intro source target arrow value inside
    rcases represents.arrow_cases arrow with ⟨entry, member, rfl, rfl⟩ | ⟨expr, into, held⟩
    · cases Set.mem_singleton_iff.mp inside
      exact satisfies.native entry member
    · exact into.values_subset satisfies toPlaces
        (Expr.storeFamily_holder distinct expr into.mem held inside)
  arguments := by
    rintro call site function _ isCall ⟨node, callee, arguments, member, called⟩ index within
    exact satisfies.parameter node call callee arguments site function member isCall called index
      within
  results := by
    rintro call function _ ⟨node, callee, arguments, member, called⟩
    exact satisfies.result node call callee arguments function member called

section

variable (represents : graph.Represents program natives) (inRange : program.InRange)
  (toPlaces : ∀ expr ∈ program.exprs, expr.assignsToPlace)
  (distinct : (program.exprs.map Expr.node).Nodup)
include represents inRange toPlaces distinct

/-- The flow through the graph of a program is the least store that satisfies the constraints. -/
theorem isLeast_reachedStore :
    IsLeast {store | program.Satisfies natives store} (reachedStore program graph) := by
  refine ⟨satisfies_reachedStore represents inRange, fun store satisfies slot value inside => ?_⟩
  have closed := closed_storeFamily represents satisfies toPlaces distinct
  have allowed := closed.mem_of_reaches (reaches_of_mem_reachedStore inside)
  cases slot with
  | merge => cases inside
  | _ => exact allowed

theorem reaches_callee_iff {call : CallId} :
    Reaches program graph value (.callee call) ↔
      ∃ node callee arguments, .call node call callee arguments ∈ program.exprs ∧
        value ∈ callee.values program (reachedStore program graph) := by
  constructor
  · intro reached
    exact (closed_storeFamily represents (satisfies_reachedStore represents inRange) toPlaces
      distinct).mem_of_reaches reached
  · rintro ⟨node, callee, arguments, member, inside⟩
    exact Program.Into.reaches represents inRange (.callee member) inside

end

end

/-- The one-shot analysis computes the least solution of the constraints that can be read off the
syntax of a program, provided that its expressions have distinct identities. -/
theorem oneShot_least (program : Program) (natives : NativeTable) (inRange : program.InRange)
    (toPlaces : ∀ expr ∈ program.exprs, expr.assignsToPlace)
    (distinct : (program.exprs.map Expr.node).Nodup) : program.SolvedByLeastStore natives := by
  obtain ⟨graph, events, final, analysis, _, represents, _, ran, _, _, mem_pairs⟩ :=
    Analysis.oneShot_solved inRange natives
  refine ⟨analysis, reachedStore program graph, ran,
    isLeast_reachedStore represents inRange toPlaces distinct, fun pair => ?_⟩
  rw [mem_pairs]
  constructor
  · rintro ⟨call, same, reached⟩
    obtain ⟨node, callee, arguments, member, inside⟩ :=
      (reaches_callee_iff represents inRange toPlaces distinct).mp reached
    exact ⟨node, call, callee, arguments, member, same, inside⟩
  · rintro ⟨node, call, callee, arguments, member, same, inside⟩
    exact ⟨call, same, (reaches_callee_iff represents inRange toPlaces distinct).mpr
      ⟨node, callee, arguments, member, inside⟩⟩

/-! ### Choices that share an identity -/

/-- Two calls, each of which calls one of two functions; `first` and `second` are the identities of
the two choices. -/
def twoChoices (first second : NodeId) : Program where
  files := #["a.js"]
  functions := #[default, default, default, default]
  calls := #[default, default]
  scopes := #[{ kind := .file, parent := none, names := .empty }]
  modules := #[{
    file := 0
    scope := 0
    body := [
      .expr (.call 0 0 (.select first [] [.function 1 0, .function 2 1]) []),
      .expr (.call 3 1 (.select second [] [.function 4 2, .function 5 3]) [])] }]
  nextNode := 10

theorem exprs_twoChoices (first second : NodeId) :
    (twoChoices first second).exprs =
      [.call 0 0 (.select first [] [.function 1 0, .function 2 1]) [],
        .select first [] [.function 1 0, .function 2 1], .function 1 0, .function 2 1,
        .call 3 1 (.select second [] [.function 4 2, .function 5 3]) [],
        .select second [] [.function 4 2, .function 5 3], .function 4 2, .function 5 3] := rfl

/-- With identities of their own the two choices stay apart. -/
theorem oneShot_least_twoChoices :
    (twoChoices 6 7).InRange ∧ (twoChoices 6 7).SolvedByLeastStore .empty :=
  ⟨by decide, oneShot_least (twoChoices 6 7) .empty (by decide)
    (by simp [exprs_twoChoices, Expr.assignsToPlace]) (by simp [exprs_twoChoices, Expr.node])⟩

/-- Choices that share an identity also share their values, which no constraint asks for: the
analysis finds the third function at the first call. -/
theorem twoChoices_shared_not_least :
    (twoChoices 6 6).InRange ∧ (∀ expr ∈ (twoChoices 6 6).exprs, expr.assignsToPlace) ∧
      ¬ (twoChoices 6 6).SolvedByLeastStore .empty := by
  have inRange : (twoChoices 6 6).InRange := by decide
  refine ⟨inRange, by simp [exprs_twoChoices, Expr.assignsToPlace], ?_⟩
  rintro ⟨analysis, store, ran, least, mem_pairs⟩
  obtain ⟨graph, _, _, analysis', _, represents, _, ran', _, _, mem_pairs'⟩ :=
    Analysis.oneShot_solved inRange .empty
  cases ran.symm.trans ran'
  -- the third function flows through the shared meeting point to the first callee
  have exprs := exprs_twoChoices 6 6
  have toMeeting : graph.Arrow (.function 2) (.slot (.merge 6)) := by
    have member : .select 6 [] [.function 4 2, .function 5 3] ∈ (twoChoices 6 6).exprs := by
      simp [exprs]
    have into : (twoChoices 6 6).Into (.function 4 2) (.slot (.merge 6)) :=
      .chosen member List.mem_cons_self (by decide)
    exact (represents.into into rfl).resolve_left (by simp)
  have toCallee : graph.Arrow (.slot (.merge 6)) (.callee 0) := by
    have into : (twoChoices 6 6).Into (.select 6 [] [.function 1 0, .function 2 1]) (.callee 0) :=
      .callee (exprs ▸ List.mem_cons_self)
    exact (represents.into into rfl).resolve_left (by simp)
  have found : (.callee 0, .function 2) ∈ analysis.callGraph.pairs :=
    (mem_pairs' _).mpr
      ⟨0, rfl, .arrow (.arrow (.value toMeeting.source_mem rfl) toMeeting) toCallee⟩
  obtain ⟨node, call, callee, arguments, member, same, inside⟩ := (mem_pairs _).mp found
  cases same
  have isChoice : node = 0 ∧ callee = .select 6 [] [.function 1 0, .function 2 1] ∧
      arguments = [] := by simpa [exprs] using member
  obtain ⟨_, rfl, _⟩ := isChoice
  simp [Expr.values, Expr.choiceValues] at inside

end FunctionFlow
