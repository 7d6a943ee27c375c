import FunctionFlow.Proofs.Analysis.Direct
import FunctionFlow.Proofs.Program.References

/-!
Contract: a name is resolved directly just if one function is all that is ever written to it.

Binding meets the writes in an order of its own, in which an assignment comes after those in its
value. Neither the number of writes nor the value of an only write depends on the order.
-/

namespace FunctionFlow

variable {function : FunctionId} {entry : Declaration}

/-- The value that a statement initialises a declaration with. -/
def Stmt.initialValue? (decl : DeclId) : Stmt → Option Expr
  | .declare other (some value) => if other = decl then some value else none
  | _ => none

/-- The value that an expression assigns to a declaration: its target is a name bound to it. -/
def Expr.assignedValue? (decl : DeclId) : Expr → Option Expr
  | .assign _ target value => if target.declared? = some decl then some value else none
  | _ => none

namespace Program

/-- The values of all initialisations of a declaration. -/
def initialValues (program : Program) (decl : DeclId) : List Expr :=
  program.stmts.filterMap (Stmt.initialValue? decl)

/-- The values of all assignments to a declaration, however deep they stand. -/
def assignedValues (program : Program) (decl : DeclId) : List Expr :=
  program.exprs.filterMap (Expr.assignedValue? decl)

/-- The values written to a declaration anywhere in the program. -/
def valuesOf (program : Program) (decl : DeclId) : List Expr :=
  program.initialValues decl ++ program.assignedValues decl

/-- A declaration that is no parameter has one write, and its value is the literal of a function. -/
def HoldsOnly (program : Program) (decl : DeclId) (function : FunctionId) : Prop :=
  ∃ entry node, program.decls[decl]? = some entry ∧
    (∀ owner index, entry.kind ≠ .parameter owner index) ∧
    program.valuesOf decl = [.function node function]

end Program

/-! ### The writes that binding meets -/

theorem Stmt.values_ownWrites (stmt : Stmt) (decl : DeclId) :
    (stmt.ownWrites.filter (·.decl = decl)).map Write.value =
      (stmt.initialValue? decl).toList := by
  cases stmt with
  | declare other initial =>
    cases initial with
    | none => rfl
    | some value =>
      by_cases same : other = decl
      · simp [Stmt.ownWrites, Stmt.initialValue?, same]
      · simp [Stmt.ownWrites, Stmt.initialValue?, same]
  | expr | result => rfl

theorem Expr.values_ownWrites (expr : Expr) (decl : DeclId) :
    (expr.ownWrites.filter (·.decl = decl)).map Write.value =
      (expr.assignedValue? decl).toList := by
  cases expr with
  | assign _ target value =>
    simp only [Expr.ownWrites, Expr.assigned, Expr.assignedValue?]
    cases target.declared? with
    | none => rfl
    | some other =>
      by_cases same : other = decl
      · simp [same]
      · simp [same]
  | _ => rfl

namespace Program

variable {program : Program}

/-- The writes to a declaration that binding meets have the values that stand in the program. -/
theorem values_perm (program : Program) (decl : DeclId) :
    ((program.writes.filter (·.decl = decl)).map Write.value).Perm (program.valuesOf decl) := by
  have standing := (program.writes_perm.filter (·.decl = decl)).map Write.value
  rw [List.filter_append, List.map_append, List.filter_flatMap, List.filter_flatMap,
    List.map_flatMap, List.map_flatMap] at standing
  simp only [Stmt.values_ownWrites, Expr.values_ownWrites] at standing
  rwa [← List.filterMap_eq_flatMap_toList, ← List.filterMap_eq_flatMap_toList] at standing

end Program

theorem Declaration.functionValue_writtenBy_singleton (unwritten : entry.functionValue = none)
    (write : Write) : (entry.writtenBy [write]).functionValue = write.value.literal? := by
  show write.update entry.functionValue = _
  rw [unwritten, Write.update, Option.or_none, Option.none_or, ite_self]

theorem Expr.literal?_eq_some {expr : Expr} :
    expr.literal? = some function ↔ ∃ node, expr = .function node function := by
  constructor
  · intro literal
    cases expr with
    | function node =>
      cases literal
      exact ⟨node, rfl⟩
    | _ => cases literal
  · rintro ⟨node, rfl⟩
    rfl

namespace Program

variable {program : Program}
  (unwritten : ∀ decl ∈ program.decls, decl.writes = 0 ∧ decl.functionValue = none)
include unwritten

theorem writes_bound {id : DeclId} (found : program.bound.decls[id]? = some entry) :
    entry.writes = (program.bound.valuesOf id).length := by
  obtain ⟨old, isOld, rfl⟩ := bound_decl_cases found
  have none := (unwritten old (Array.mem_of_getElem? isOld)).1
  rw [Declaration.writes_writtenBy, none, Nat.zero_add, ← (values_perm _ id).length_eq,
    List.length_map]

theorem valuesOf_bound {id : DeclId} (found : program.bound.decls[id]? = some entry) :
    entry.writes = 1 ∧ entry.functionValue = some function ↔
      ∃ node, program.bound.valuesOf id = [.function node function] := by
  have counted := writes_bound unwritten found
  obtain ⟨old, isOld, isWritten⟩ := bound_decl_cases found
  have holdsNone := (unwritten old (Array.mem_of_getElem? isOld)).2
  have same := values_perm program.bound id
  generalize program.bound.writes.filter (·.decl = id) = writes at isWritten same
  constructor
  · rintro ⟨once, holds⟩
    obtain ⟨value, isValue⟩ := List.length_eq_one_iff.mp (counted.symm.trans once)
    rw [isValue, List.perm_singleton, List.map_eq_singleton_iff] at same
    obtain ⟨write, rfl, rfl⟩ := same
    rw [isWritten, Declaration.functionValue_writtenBy_singleton holdsNone] at holds
    obtain ⟨node, isLiteral⟩ := Expr.literal?_eq_some.mp holds
    exact ⟨node, isLiteral ▸ isValue⟩
  · rintro ⟨node, isValue⟩
    rw [isValue] at counted
    rw [isValue, List.perm_singleton, List.map_eq_singleton_iff] at same
    obtain ⟨write, rfl, isLiteral⟩ := same
    refine ⟨counted, ?_⟩
    rw [isWritten, Declaration.functionValue_writtenBy_singleton holdsNone, isLiteral]
    rfl

theorem directFunction_bound {id : DeclId} :
    program.bound.directFunction id = .ok (some function) ↔
      program.bound.HoldsOnly id function := by
  rw [directFunction_eq_some]
  constructor
  · rintro ⟨entry, found, notParameter, recorded⟩
    obtain ⟨node, isValue⟩ := (valuesOf_bound unwritten found).mp recorded
    exact ⟨entry, node, found, notParameter, isValue⟩
  · rintro ⟨entry, node, found, notParameter, isValue⟩
    exact ⟨entry, found, notParameter, (valuesOf_bound unwritten found).mpr ⟨node, isValue⟩⟩

end Program

/-! ### Callees -/

/-- The expression behind choices that have one value. -/
def Expr.face : Expr → Expr
  | .select _ _ [value] => value.face
  | expr => expr

/-- A callee is the literal of a function, or a name to which this function is all that is written;
choices that have one value do not matter. -/
def Program.Denotes (program : Program) (callee : Expr) (function : FunctionId) : Prop :=
  (∃ node, callee.face = .function node function) ∨
    ∃ decl, callee.face.declared? = some decl ∧ program.HoldsOnly decl function

namespace Program

variable {program : Program}

theorem directCallee_eq_some {callee : Expr} :
    program.directCallee callee = .ok (some function) ↔
      (∃ node, callee.face = .function node function) ∨
        ∃ decl, callee.face.declared? = some decl ∧
          program.directFunction decl = .ok (some function) := by
  induction callee using directCallee.induct with
  | case1 node target => simp [directCallee, Expr.face, Expr.declared?, pure, Except.pure]
  | case2 node name scope decl => simp [directCallee, Expr.face, Expr.declared?, Binding.decl?]
  | case3 node guards value inductionHypothesis => exact inductionHypothesis
  | case4 callee notLiteral notName notChoice =>
    rw [directCallee.eq_4 program callee notLiteral notName notChoice,
      Expr.face.eq_2 callee notChoice]
    constructor
    · rintro ⟨⟩
    · rintro (⟨node, isLiteral⟩ | ⟨decl, denotes, _⟩)
      · exact absurd isLiteral (notLiteral node function)
      · obtain ⟨node, ⟨name, scope, binding⟩, isName, rfl⟩ := Expr.declared?_eq_some.mp denotes
        exact absurd isName (notName node name scope decl)

end Program

/-! ### Success -/

theorem Build.direct_tells {program : Program} {calls : List (CallId × Expr)}
    {graph after : FlowGraph} {count : Nat}
    (ran : (Build.direct program calls).run graph = .ok (count, after)) {call : CallId}
    {callee : Expr} (member : (call, callee) ∈ calls) :
    ∃ answer, program.directCallee callee = .ok answer := by
  induction calls generalizing graph count after with
  | nil => cases member
  | cons first rest inductionHypothesis =>
    obtain ⟨firstCall, firstCallee⟩ := first
    rw [Build.direct, StateT.run_bind] at ran
    obtain ⟨⟨answer, between⟩, asked, ran⟩ := Checked.bind_eq_ok.mp ran
    have told : program.directCallee firstCallee = .ok answer := Checked.eq_ok_of_run_lift asked
    rcases List.mem_cons.mp member with same | later
    · cases same
      exact ⟨answer, told⟩
    · cases answer with
      | none => exact inductionHypothesis ran later
      | some function =>
        simp only [StateT.run_bind] at ran
        obtain ⟨_, _, ran⟩ := Checked.bind_eq_ok.mp ran
        obtain ⟨_, _, ran⟩ := Checked.bind_eq_ok.mp ran
        obtain ⟨_, _, ran⟩ := Checked.bind_eq_ok.mp ran
        obtain ⟨_, ranRest, _⟩ := Checked.bind_eq_ok.mp ran
        exact inductionHypothesis ranRest later

namespace Program

variable {program : Program}

theorem tellsDirect_of_direct {natives : NativeTable} {analysis : Analysis}
    (ran : Analysis.direct program natives = .ok analysis) : program.TellsDirect := by
  obtain ⟨_, _, ran⟩ := Checked.bind_eq_ok.mp ran
  obtain ⟨⟨count, graph⟩, added, _⟩ := Checked.bind_eq_ok.mp ran
  exact fun call callee => Build.direct_tells added

theorem Bindable.tellsDirect (bindable : program.Bindable) : program.bound.TellsDirect := by
  refine tellsDirect_of_names fun node reference member => ?_
  rw [program.bindsTo_bound.exprs_eq] at member
  obtain ⟨old, isOld, isNew⟩ := List.mem_map.mp member
  cases old with
  | ident oldNode oldReference =>
    cases isNew
    rw [sizes_bound]
    exact (Resolve.resolve_inRange bindable.scopes (bindable.references _ _ isOld)).2
  | _ => cases isNew

end Program

/-- After binding, the write count of a declaration is the number of its initialisations and of the
assignments to it, in all bodies. A name is resolved directly just if it is no parameter and one
function literal is all that is written to it, and the calls that are found without flow are those
of literals and of such names. Binding and this analysis end if ids are in range and scopes come
after their parents. -/
theorem direct_iff_unique_write (program : Program)
    (unwritten : ∀ decl ∈ program.decls, decl.writes = 0 ∧ decl.functionValue = none) :
    (∀ bound, program.bind = .ok bound →
      (∀ id entry, bound.program.decls[id]? = some entry →
        entry.writes = (bound.program.initialValues id).length +
          (bound.program.assignedValues id).length) ∧
      (∀ id function, bound.program.directFunction id = .ok (some function) ↔
        bound.program.HoldsOnly id function) ∧
      ∀ natives analysis, Analysis.direct bound.program natives = .ok analysis →
        ∀ pair, pair ∈ analysis.callGraph.pairs ↔
          ∃ node call callee arguments function,
            .call node call callee arguments ∈ bound.program.exprs ∧
            bound.program.Denotes callee function ∧
            pair = (.callee call, .function function)) ∧
    (program.Bindable → program.ParentsFirst → ∃ bound, program.bind = .ok bound ∧
      ∀ natives, ∃ analysis, Analysis.direct bound.program natives = .ok analysis) := by
  refine ⟨fun bound ran => ?_, fun bindable parents => ?_⟩
  · rw [Program.program_eq_of_bind ran]
    refine ⟨fun id entry found => ?_, fun id function => Program.directFunction_bound unwritten,
      fun natives analysis ran pair => ?_⟩
    · rw [Program.writes_bound unwritten found, Program.valuesOf, List.length_append]
    · obtain ⟨_, ranToo, mem_pairs⟩ :=
        Analysis.direct_eq (Program.tellsDirect_of_direct ran) natives
      cases ran.symm.trans ranToo
      rw [mem_pairs]
      simp only [Program.CallsDirectly, Program.directCallee_eq_some,
        Program.directFunction_bound unwritten]
      constructor
      · rintro ⟨call, function, ⟨node, callee, arguments, member, denotes⟩, isPair⟩
        exact ⟨node, call, callee, arguments, function, member, denotes, isPair⟩
      · rintro ⟨node, call, callee, arguments, function, member, denotes, isPair⟩
        exact ⟨call, function, ⟨node, callee, arguments, member, denotes⟩, isPair⟩
  · obtain ⟨bound, ran, isBound⟩ := bindable.bind_eq parents
    refine ⟨bound, ran, fun natives => ?_⟩
    obtain ⟨analysis, found, _⟩ := Analysis.direct_eq bindable.tellsDirect natives
    exact ⟨analysis, isBound ▸ found⟩

/-- One name is initialised with a function, another one is assigned a function twice, and both are
called, the first one behind a choice. -/
def writtenOnce : Program where
  files := #["a.js"]
  functions := #[default, default]
  calls := #[default, default]
  decls := #[
    { (default : Declaration) with name := "f" },
    { (default : Declaration) with name := "g" }]
  scopes := #[{ kind := .file, parent := none, names := ⟨[("f", 0), ("g", 1)]⟩ }]
  modules := #[{
    file := 0
    scope := 0
    body := [
      .declare 0 (some (.function 0 0)),
      .expr (.assign 1 (.ident 2 ⟨"g", 0, .unresolved⟩) (.function 3 1)),
      .expr (.assign 4 (.ident 5 ⟨"g", 0, .unresolved⟩) (.function 6 1)),
      .expr (.call 7 0 (.select 8 [] [.ident 9 ⟨"f", 0, .unresolved⟩]) []),
      .expr (.call 10 1 (.ident 11 ⟨"g", 0, .unresolved⟩) [])] }]
  nextNode := 12

/-- The call of the first name is found, and no call of the second one. -/
theorem direct_iff_unique_write_writtenOnce :
    (∀ decl ∈ writtenOnce.decls, decl.writes = 0 ∧ decl.functionValue = none) ∧
      ∃ bound analysis, writtenOnce.bind = .ok bound ∧
        Analysis.direct bound.program .empty = .ok analysis ∧
        (.callee 0, .function 0) ∈ analysis.callGraph.pairs ∧
        ∀ function, (.callee 1, .function function) ∉ analysis.callGraph.pairs := by
  have unwritten : ∀ decl ∈ writtenOnce.decls, decl.writes = 0 ∧ decl.functionValue = none := by
    decide
  have inRange : writtenOnce.InRange := by decide
  obtain ⟨holds, ends⟩ := direct_iff_unique_write writtenOnce unwritten
  obtain ⟨bound, ran, total⟩ := ends inRange.bindable (by decide)
  obtain ⟨analysis, ranDirect⟩ := total .empty
  obtain ⟨_, _, found⟩ := holds bound ran
  have exprs := writtenOnce.bindsTo_bound.exprs_eq
  have values (decl : DeclId) : writtenOnce.bound.valuesOf decl =
      (writtenOnce.stmts.map (Stmt.mapReferences writtenOnce.resolve)).filterMap
          (Stmt.initialValue? decl) ++
        (writtenOnce.exprs.map (Expr.mapReferences writtenOnce.resolve)).filterMap
          (Expr.assignedValue? decl) := by
    rw [Program.valuesOf, Program.initialValues, Program.assignedValues, exprs,
      writtenOnce.bindsTo_bound.stmts_eq]
  have notParameter : ∃ entry, writtenOnce.bound.decls[0]? = some entry ∧
      ∀ owner index, entry.kind ≠ .parameter owner index := by
    have old : writtenOnce.decls[0]? = some { (default : Declaration) with name := "f" } := rfl
    obtain ⟨entry, isEntry, same⟩ := writtenOnce.bindsTo_bound.decl_kept old
    have sameKind : entry.kind = default := (congrArg Declaration.kind same :)
    refine ⟨entry, isEntry, fun owner index isParameter => ?_⟩
    exact nomatch sameKind.symm.trans isParameter
  refine ⟨unwritten, bound, analysis, ran, ranDirect, ?_, fun function isPair => ?_⟩
  · have isCall : writtenOnce.bound.exprs[7]? =
        some (.call 7 0 (.select 8 [] [.ident 9 ⟨"f", 0, .declared 0⟩]) []) := by
      rw [exprs]
      rfl
    obtain ⟨entry, isEntry, other⟩ := notParameter
    rw [found .empty analysis ranDirect, Program.program_eq_of_bind ran]
    exact ⟨_, _, _, _, _, List.mem_of_getElem? isCall,
      .inr ⟨0, rfl, entry, 0, isEntry, other, values 0⟩, rfl⟩
  · rw [found .empty analysis ranDirect, Program.program_eq_of_bind ran] at isPair
    obtain ⟨node, _, callee, arguments, _, member, denotes, ⟨⟩⟩ := isPair
    have calls : writtenOnce.bound.exprs.filterMap Expr.asCall? =
        [(0, .select 8 [] [.ident 9 ⟨"f", 0, .declared 0⟩]), (1, .ident 11 ⟨"g", 0, .declared 1⟩)] := by
      rw [exprs]
      rfl
    have isCall : (1, callee) ∈ writtenOnce.bound.exprs.filterMap Expr.asCall? :=
      List.mem_filterMap.mpr ⟨_, member, rfl⟩
    have isName : callee = .ident 11 ⟨"g", 0, .declared 1⟩ := by simpa [calls] using isCall
    rw [isName] at denotes
    rcases denotes with ⟨_, ⟨⟩⟩ | ⟨_, ⟨⟩, _, _, _, _, isValue⟩
    exact nomatch (values 1).symm.trans isValue

end FunctionFlow
