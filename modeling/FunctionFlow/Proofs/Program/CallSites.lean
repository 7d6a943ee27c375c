import FunctionFlow.Proofs.Program.WellFormed

/-!
Contract: calls and the expressions that make them.
-/

namespace FunctionFlow

def Expr.site? (expr : Expr) : Option CallId :=
  expr.asCall?.map Prod.fst

/-- The entry of a call counts its arguments, and says whether an object becomes the receiver. -/
def Expr.Described (program : Program) : Expr → Prop
  | .call _ site callee arguments => ∃ entry, program.calls[site]? = some entry ∧
      entry.arity = arguments.length ∧ entry.hasReceiver = (!entry.isNew && callee.isMember)
  | .function .. | .ident .. | .this .. | .member .. | .assign .. | .select .. | .object ..
  | .inert .. => True

/-- The bytes of `inner` are bytes of `outer`. -/
def Span.Within (inner outer : Span) : Prop :=
  outer.startByte ≤ inner.startByte ∧ inner.endByte ≤ outer.endByte

namespace Program

/-- The function `outer` stands in `file`, around `span`. -/
def Encloses (program : Program) (outer : FunctionId) (file : FileId) (span : Span) : Prop :=
  ∃ around, program.functions[outer]? = some around ∧ around.file = file ∧ span.Within around.span

/-- Calls and functions lie inside the function around them. -/
structure SpansNested (program : Program) : Prop where
  calls : ∀ {id : CallId} {site : CallSite} {outer : FunctionId},
    program.calls[id]? = some site → site.enclosing = some outer →
    program.Encloses outer site.file site.span
  functions : ∀ {id outer : FunctionId} {definition : FunctionDef},
    program.functions[id]? = some definition → definition.enclosing = some outer →
    program.Encloses outer definition.file definition.span

/-- Every call of the table is made by one expression, which its entry describes, and no other
calls are made. -/
structure CallsMatch (program : Program) : Prop where
  sites : (program.exprs.filterMap Expr.site?).Perm (List.range program.calls.size)
  described : ∀ expr ∈ program.exprs, expr.Described program

/-! ### What is kept -/

theorem Extends.encloses {before after : Program} (extended : before.Extends after)
    {outer : FunctionId} {file : FileId} {span : Span} (encloses : before.Encloses outer file span) :
    after.Encloses outer file span := by
  obtain ⟨around, isAround, isFile, within⟩ := encloses
  obtain ⟨later, isLater, same⟩ := extended.functions _ _ isAround
  have sameFile : later.file = around.file := (congrArg FunctionDef.file same :)
  have sameSpan : later.span = around.span := (congrArg FunctionDef.span same :)
  exact ⟨later, isLater, sameFile.trans isFile, sameSpan ▸ within⟩

theorem SpansNested.keep {before after : Program} (nested : before.SpansNested)
    (extended : before.Extends after)
    (calls : ∀ {id : CallId} {site : CallSite}, after.calls[id]? = some site →
      (∃ old, before.calls[id]? = some old ∧ old.heading = site.heading) ∨
        ∀ outer, site.enclosing = some outer → after.Encloses outer site.file site.span)
    (functions : ∀ {id : FunctionId} {definition : FunctionDef},
      after.functions[id]? = some definition →
      (∃ old, before.functions[id]? = some old ∧ old.heading = definition.heading) ∨
        ∀ outer, definition.enclosing = some outer →
          after.Encloses outer definition.file definition.span) : after.SpansNested where
  calls {id site outer} found isOuter := by
    rcases calls found with ⟨old, isOld, same⟩ | new
    · have sameEnclosing : old.enclosing = site.enclosing := (congrArg CallSite.enclosing same :)
      have sameFile : old.file = site.file := (congrArg CallSite.file same :)
      have sameSpan : old.span = site.span := (congrArg CallSite.span same :)
      rw [← sameFile, ← sameSpan]
      exact extended.encloses (nested.calls isOld (sameEnclosing.trans isOuter))
    · exact new outer isOuter
  functions {id outer definition} found isOuter := by
    rcases functions found with ⟨old, isOld, same⟩ | new
    · have sameEnclosing : old.enclosing = definition.enclosing :=
        (congrArg FunctionDef.enclosing same :)
      have sameFile : old.file = definition.file := (congrArg FunctionDef.file same :)
      have sameSpan : old.span = definition.span := (congrArg FunctionDef.span same :)
      rw [← sameFile, ← sameSpan]
      exact extended.encloses (nested.functions isOld (sameEnclosing.trans isOuter))
    · exact new outer isOuter

end Program

theorem Expr.Described.mono {before after : Program} {expr : Expr}
    (described : expr.Described before)
    (kept : ∀ id ∈ expr.site?, ∀ entry, before.calls[id]? = some entry →
      after.calls[id]? = some entry) : expr.Described after := by
  cases expr with
  | call node site callee arguments =>
    obtain ⟨entry, found, isDescribed⟩ := described
    exact ⟨entry, kept site rfl entry found, isDescribed⟩
  | _ => trivial

/-! ### What binding keeps -/

section

variable (replace : Reference → Reference)

theorem Expr.length_mapReferencesIn (exprs : List Expr) :
    (Expr.mapReferencesIn replace exprs).length = exprs.length := by
  induction exprs with
  | nil => rfl
  | cons first rest inductionHypothesis =>
    rw [Expr.mapReferencesIn, List.length_cons, List.length_cons, inductionHypothesis]

theorem Expr.isMember_mapReferences (expr : Expr) :
    (expr.mapReferences replace).isMember = expr.isMember := by
  cases expr <;> rfl

theorem Expr.site?_mapReferences (expr : Expr) :
    (expr.mapReferences replace).site? = expr.site? := by
  cases expr <;> rfl

theorem Expr.Described.mapReferences {program : Program} {expr : Expr}
    (described : expr.Described program) : (expr.mapReferences replace).Described program := by
  cases expr with
  | call node site callee arguments =>
    obtain ⟨entry, found, arity, hasReceiver⟩ := described
    refine ⟨entry, found, ?_, ?_⟩
    · rw [Expr.length_mapReferencesIn]
      exact arity
    · rw [Expr.isMember_mapReferences]
      exact hasReceiver
  | _ => trivial

end

namespace Program

variable {program after : Program}

theorem CallsMatch.bindsTo (matched : program.CallsMatch) (binds : program.BindsTo after) :
    after.CallsMatch where
  sites := by
    have sameSite : Expr.site? ∘ Expr.mapReferences program.resolve = Expr.site? :=
      funext (Expr.site?_mapReferences program.resolve)
    rw [binds.exprs_eq, binds.calls, List.filterMap_map, sameSite]
    exact matched.sites
  described expr member := by
    rw [binds.exprs_eq] at member
    obtain ⟨old, isOld, rfl⟩ := List.mem_map.mp member
    apply Expr.Described.mapReferences
    exact (matched.described old isOld).mono fun _ _ _ found => binds.calls ▸ found

theorem SpansNested.bindsTo (nested : program.SpansNested) (binds : program.BindsTo after) :
    after.SpansNested := by
  apply nested.keep binds.extends
  · intro id site found
    rw [binds.calls] at found
    exact .inl ⟨site, found, rfl⟩
  · intro id definition found
    obtain ⟨old, isOld, rfl⟩ := binds.function_cases found
    exact .inl ⟨old, isOld, rfl⟩

/-! ### The list of call expressions -/

theorem CallsMatch.map_fst_callExpressions (matched : program.CallsMatch) :
    program.callExpressions.map Prod.fst = List.range program.calls.size := by
  have sorted : (program.callExpressions.map Prod.fst).Pairwise (· ≤ ·) := by
    rw [List.pairwise_map]
    have ordered : program.callExpressions.Pairwise fun left right =>
        decide (left.1 ≤ right.1) = true := by
      apply List.pairwise_mergeSort
      · intro first second third
        simpa using Nat.le_trans
      · intro first second
        simpa using Nat.le_total first.1 second.1
    exact ordered.imp fun isLess => of_decide_eq_true isLess
  have listed : (program.callExpressions.map Prod.fst).Perm (List.range program.calls.size) := by
    refine ((List.mergeSort_perm _ _).map Prod.fst).trans ?_
    rw [List.map_filterMap]
    exact matched.sites
  apply listed.eq_of_pairwise _ sorted (List.pairwise_le_range)
  intro left right _ _ less greater
  exact Nat.le_antisymm less greater

end Program

end FunctionFlow
