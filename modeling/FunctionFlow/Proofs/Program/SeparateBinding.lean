import FunctionFlow.Proofs.Program.Append
import FunctionFlow.Proofs.Program.References

/-!
Contract: two programs in one are bound as they are bound alone.

Names are looked up in the scopes of their own program only, and writes go to its declarations only.
So while one program is resolved, the declarations of the other one are left as they are, although
the modules of both programs come before the functions of either.
-/

namespace FunctionFlow

namespace Resolve

/-- The resolution inside a larger one, whose other declarations stand around those of `state`, and
which has counted some references already. -/
def within (ids : Renaming) (front back : Array Declaration) (declared global : Nat)
    (state : Resolution) : Resolution where
  decls := front ++ state.decls.map (·.rename ids) ++ back
  declared := declared + state.declared
  global := global + state.global

def Carries {α β : Type} (place : Resolution → Resolution) (move : α → β) (small : Resolve α)
    (large : Resolve β) : Prop :=
  ∀ state answer after, small.run state = .ok (answer, after) →
    large.run (place state) = .ok (move answer, place after)

namespace Carries

variable {α β γ δ : Type} {place : Resolution → Resolution} {move : α → β} {moveNext : γ → δ}

theorem pure (answer : α) : Carries place move (Pure.pure answer) (Pure.pure (move answer)) := by
  rintro state _ _ ⟨⟩
  rfl

theorem bind {small : Resolve α} {large : Resolve β} {next : α → Resolve γ}
    {largeNext : β → Resolve δ} (begins : Carries place move small large)
    (goesOn : ∀ answer, Carries place moveNext (next answer) (largeNext (move answer))) :
    Carries place moveNext (small >>= next) (large >>= largeNext) := by
  intro state result after ran
  rw [StateT.run_bind] at ran ⊢
  obtain ⟨⟨answer, between⟩, ranFirst, ranNext⟩ := Checked.bind_eq_ok.mp ran
  rw [begins _ _ _ ranFirst]
  exact goesOn answer _ _ _ ranNext

theorem lift {small : Checked α} {large : Checked β}
    (same : ∀ {answer}, small = .ok answer → large = .ok (move answer)) :
    Carries place move (liftM small : Resolve α) (liftM large : Resolve β) := by
  intro state answer after ran
  cases small with
  | error => cases ran
  | ok found =>
    cases ran
    rw [same rfl]
    rfl

end Carries

/-- The names of `program` are looked up alike in `whole`, and its declarations stand behind
`front`. -/
structure PartOf (ids : Renaming) (program whole : Program) (front : Array Declaration) : Prop where
  lookup : ∀ {scope : ScopeId} {name : String} {answer : Option DeclId},
    program.lookup scope name = .ok answer →
      whole.lookup (ids .scope scope) name = .ok (answer.map (ids .decl))
  decl : ∀ id, ids .decl id = front.size + id

section

variable {entry : Declaration} {state : Resolution} {ids : Renaming} {program whole : Program}
  {front back : Array Declaration} {declared global : Nat} (partOf : PartOf ids program whole front)
include partOf

theorem reference_carries (target : Reference) :
    Carries (within ids front back declared global) (Reference.rename ids)
      (reference program target) (reference whole (target.rename ids)) := by
  obtain ⟨name, scope, binding⟩ := target
  cases binding with
  | declared | global => exact .pure _
  | unresolved =>
    refine (Carries.lift partOf.lookup).bind fun answer state _ _ ran => ?_
    cases answer with
    | none =>
      cases ran
      rfl
    | some decl =>
      cases ran
      rfl

omit partOf in
theorem inMiddle_of_found {decl : DeclId} (found : state.decls[decl]? = some entry) :
    front.size + decl < (front ++ state.decls.map (Declaration.rename ids)).size := by
  rw [Array.size_append, Array.size_map]
  exact Nat.add_lt_add_left (Table.below found) _

theorem within_getElem? {decl : DeclId} (found : state.decls[decl]? = some entry) :
    (within ids front back declared global state).decls[ids .decl decl]? =
      some (entry.rename ids) := by
  rw [partOf.decl, within, Array.getElem?_append_left (inMiddle_of_found found),
    Table.behind_getElem?, found]
  rfl

theorem within_setIfInBounds {decl : DeclId} (found : state.decls[decl]? = some entry)
    (later : Declaration) :
    within ids front back declared global
        { state with decls := state.decls.setIfInBounds decl later } =
      { within ids front back declared global state with
        decls := (within ids front back declared global state).decls.setIfInBounds
          (ids .decl decl) (later.rename ids) } := by
  have sets : (front ++ state.decls.map (·.rename ids) ++ back).setIfInBounds (front.size + decl)
        (later.rename ids) =
      front ++ (state.decls.setIfInBounds decl later).map (·.rename ids) ++ back := by
    rw [Array.setIfInBounds_append, if_pos (inMiddle_of_found found), Table.behind_set]
  rw [partOf.decl]
  exact congrArg (Resolution.mk · _ _) sets.symm

theorem write_carries (decl : DeclId) {update moved : Option FunctionId → Option FunctionId}
    (same : ∀ held, moved (held.map (ids .function)) = (update held).map (ids .function)) :
    Carries (within ids front back declared global) id (write decl update)
      (write (ids .decl decl) moved) := by
  intro state _ after ran
  obtain ⟨entry, found, rfl⟩ := write_eq_ok.mp ran
  refine write_eq_ok.mpr ⟨entry.rename ids, within_getElem? partOf found, ?_⟩
  have moves : (entry.rename ids).written moved = (entry.written update).rename ids := by
    simp only [Declaration.written, Declaration.rename, same]
  rw [moves, within_setIfInBounds partOf found]

theorem assignment_carries (target value : Expr) :
    Carries (within ids front back declared global) id (assignment target value)
      (assignment (target.rename ids) (value.rename ids)) := by
  cases target with
  | ident _ reference =>
    obtain ⟨name, scope, binding⟩ := reference
    cases binding with
    | declared decl =>
      show Carries _ id (write decl fun held => held.or value.literal?)
        (write (ids .decl decl) fun held => held.or (value.rename ids).literal?)
      refine write_carries partOf decl fun held => ?_
      rw [Expr.literal?_rename, Option.map_or]
    | unresolved | global => exact .pure ()
  | _ => exact .pure ()

omit partOf in
theorem exprs_carries {values : List Expr}
    (each : ∀ value ∈ values, Carries (within ids front back declared global) (Expr.rename ids)
      (expr program value) (expr whole (value.rename ids))) :
    Carries (within ids front back declared global) (Expr.renameAll ids) (exprs program values)
      (exprs whole (Expr.renameAll ids values)) := by
  induction values with
  | nil => exact .pure []
  | cons first rest inductionHypothesis =>
    obtain ⟨ofFirst, ofRest⟩ := List.forall_mem_cons.mp each
    exact ofFirst.bind fun newFirst => (inductionHypothesis ofRest).bind fun newRest =>
      .pure (newFirst :: newRest)

omit partOf in
theorem properties_carries {entries : List Property}
    (each : ∀ key value, .mk key value ∈ entries →
      Carries (within ids front back declared global) (Expr.rename ids) (expr program value)
        (expr whole (value.rename ids))) :
    Carries (within ids front back declared global) (Property.renameAll ids)
      (properties program entries) (properties whole (Property.renameAll ids entries)) := by
  induction entries with
  | nil => exact .pure []
  | cons first rest inductionHypothesis =>
    obtain ⟨key, value⟩ := first
    have ofRest := inductionHypothesis fun other value inside =>
      each other value (List.mem_cons_of_mem _ inside)
    exact (each key value List.mem_cons_self).bind fun newValue => ofRest.bind fun newRest =>
      .pure (Property.mk key newValue :: newRest)

theorem expr_carries (value : Expr) :
    Carries (within ids front back declared global) (Expr.rename ids) (expr program value)
      (expr whole (value.rename ids)) := by
  induction value using Expr.formInduction with
  | function node target => exact .pure (Expr.function node target)
  | ident node target =>
    exact (reference_carries partOf target).bind fun resolved => .pure (Expr.ident node resolved)
  | this node owner => exact .pure (Expr.this node owner)
  | member node _ name ofWhole =>
    exact ofWhole.bind fun whole => .pure (Expr.member node whole name)
  | call node site _ _ ofCallee ofArguments =>
    exact ofCallee.bind fun callee => (exprs_carries ofArguments).bind fun arguments =>
      .pure (Expr.call node site callee arguments)
  | assign node _ _ ofTarget ofValue =>
    exact ofTarget.bind fun target => ofValue.bind fun value =>
      (assignment_carries partOf target value).bind fun _ => .pure (Expr.assign node target value)
  | select node _ _ ofGuards ofValues =>
    exact (exprs_carries ofGuards).bind fun guards => (exprs_carries ofValues).bind fun values =>
      .pure (Expr.select node guards values)
  | object node _ ofEntries =>
    exact (properties_carries ofEntries).bind fun entries => .pure (Expr.object node entries)
  | inert node _ ofParts =>
    exact (exprs_carries ofParts).bind fun parts => .pure (Expr.inert node parts)

theorem stmt_carries (statement : Stmt) :
    Carries (within ids front back declared global) (Stmt.rename ids) (stmt program statement)
      (stmt whole (statement.rename ids)) := by
  cases statement with
  | expr value => exact (expr_carries partOf value).bind fun resolved => .pure (Stmt.expr resolved)
  | declare decl initial =>
    cases initial with
    | none =>
      intro state answer after ran
      obtain ⟨entry, found, rfl, rfl⟩ := declare_eq_ok.mp ran
      exact declare_eq_ok.mpr ⟨_, within_getElem? partOf found, rfl, rfl⟩
    | some initial =>
      refine (write_carries partOf decl fun held => ?_).bind fun _ =>
        (expr_carries partOf initial).bind fun resolved => .pure (Stmt.declare decl (some resolved))
      rw [Expr.literal?_rename, Option.map_or]
  | result returned =>
    cases returned with
    | none => exact .pure (Stmt.result none)
    | some value =>
      exact (expr_carries partOf value).bind fun resolved => .pure (Stmt.result (some resolved))

theorem body_carries (stmts : List Stmt) :
    Carries (within ids front back declared global) (List.map (Stmt.rename ids))
      (body program stmts) (body whole (stmts.map (Stmt.rename ids))) := by
  induction stmts with
  | nil => exact .pure []
  | cons first rest inductionHypothesis =>
    exact (stmt_carries partOf first).bind fun newFirst => inductionHypothesis.bind fun newRest =>
      .pure (newFirst :: newRest)

theorem modules_carries (tops : List SourceModule) :
    Carries (within ids front back declared global) (List.map (SourceModule.rename ids))
      (modules program tops) (modules whole (tops.map (SourceModule.rename ids))) := by
  induction tops with
  | nil => exact .pure []
  | cons first rest inductionHypothesis =>
    exact (body_carries partOf first.body).bind fun resolved => inductionHypothesis.bind
      fun newRest => .pure ({ first with body := resolved } :: newRest)

theorem functions_carries (definitions : List FunctionDef) :
    Carries (within ids front back declared global) (List.map (FunctionDef.rename ids))
      (functions program definitions)
      (functions whole (definitions.map (FunctionDef.rename ids))) := by
  induction definitions with
  | nil => exact .pure []
  | cons first rest inductionHypothesis =>
    exact (body_carries partOf first.body).bind fun resolved => inductionHypothesis.bind
      fun newRest => .pure ({ first with body := resolved } :: newRest)

end

/-! ### One program after the other -/

theorem modules_append (program : Program) (first second : List SourceModule) :
    modules program (first ++ second) = (do
      let newFirst ← modules program first
      let newSecond ← modules program second
      return newFirst ++ newSecond) := by
  induction first with
  | nil => simp [modules]
  | cons top rest inductionHypothesis => simp [modules, inductionHypothesis]

theorem functions_append (program : Program) (first second : List FunctionDef) :
    functions program (first ++ second) = (do
      let newFirst ← functions program first
      let newSecond ← functions program second
      return newFirst ++ newSecond) := by
  induction first with
  | nil => simp [functions]
  | cons definition rest inductionHypothesis => simp [functions, inductionHypothesis]

end Resolve

namespace Program

open Resolve

variable {base later : Program}

theorem InRange.partOf_append (inRange : base.InRange) :
    PartOf .refl base (base.append later) #[] where
  lookup {scope name answer} looked := by
    have starts : scope < base.scopes.size := by
      rw [lookup, climb, climbWithin] at looked
      obtain ⟨entry, fetched, _⟩ := Checked.bind_eq_ok.mp looked
      exact lt_of_fetch fetched
    have scopes (id : ScopeId) (below : id < base.scopes.size) :
        (base.append later).scopes[Renaming.refl .scope id]? =
          base.scopes[id]?.map (·.rename .refl) := by
      simp [append, Array.getElem?_append_left below]
    have same := lookup_rename scopes
      (fun id entry parent _ found isParent =>
        (inRange.scopes entry (Array.mem_of_getElem? found)).parent parent isParent)
      (by simp [append]) starts name
    rw [looked] at same
    exact Checked.toOption_eq_some.mp same
  decl id := (Nat.zero_add id).symm

theorem partOf_append {front : Array Declaration} (sameSize : front.size = base.decls.size) :
    PartOf base.offset later (base.append later) front where
  lookup {scope name answer} looked := by
    have same := @lookup_append base later scope name
    rw [looked] at same
    exact Checked.toOption_eq_some.mp same
  decl id := by
    rw [sameSize]
    rfl

theorem within_exchange (base : Program) (first second : Resolution) :
    within .refl #[] (second.decls.map (·.rename base.offset)) second.declared
        second.global first =
      within base.offset first.decls #[] first.declared first.global second := by
  simp [within, Nat.add_comm]

theorem carries_both {α β γ : Type} {small large : Resolve α} {smallLater : Resolve β}
    {largeLater : Resolve γ} {move : β → γ} {answer : α} {answerLater : β}
    {before after beforeLater afterLater : Resolution}
    (first : ∀ back declared global,
      Carries (within .refl #[] back declared global) id small large)
    (second : ∀ declared global,
      Carries (within base.offset after.decls #[] declared global) move smallLater
        largeLater)
    (ran : small.run before = .ok (answer, after))
    (ranLater : smallLater.run beforeLater = .ok (answerLater, afterLater)) {δ : Type}
    (combine : α → γ → δ) :
    (do
      let answer ← large
      let answerLater ← largeLater
      return combine answer answerLater : Resolve δ).run
        (within base.offset before.decls #[] before.declared before.global beforeLater) =
      .ok (combine answer (move answerLater),
        within base.offset after.decls #[] after.declared after.global afterLater) := by
  rw [StateT.run_bind, ← within_exchange, first _ _ _ _ _ _ ran, Checked.ok_bind, StateT.run_bind,
    within_exchange, second _ _ _ _ _ ranLater, Checked.ok_bind]
  rfl

theorem BindsTo.counts {program after : Program} (binds : program.BindsTo after)
    (sameNodes : after.nextNode = program.nextNode) : after.counts = program.counts := by
  funext kind
  cases kind with
  | file => exact congrArg Array.size binds.files
  | function => simp [Program.counts, binds.functions]
  | call => exact congrArg Array.size binds.calls
  | decl => exact binds.declCount
  | scope => exact congrArg Array.size binds.scopes
  | node => exact sameNodes
  | top => simp [Program.counts, binds.modules]

theorem bind_append {bound boundLater : Bound} (inRange : base.InRange)
    (ran : base.bind = .ok bound) (ranLater : later.bind = .ok boundLater) :
    (base.append later).bind = .ok {
      program := bound.program.append boundLater.program
      declared := bound.declared + boundLater.declared
      global := bound.global + boundLater.global } := by
  have binds := bind_bindsTo ran
  obtain ⟨tops, middle, definitions, final, ranTops, ranDefinitions, rfl⟩ := bind_eq_ok.mp ran
  obtain ⟨topsLater, middleLater, definitionsLater, finalLater, ranTopsLater, ranDefinitionsLater,
    rfl⟩ := bind_eq_ok.mp ranLater
  have sameSize : middle.decls.size = base.decls.size := by
    rw [(modules_makes _ _ _ _ ranTops).2, Write.size_foldl_apply]
  have partOf : PartOf .refl base (base.append later) #[] := inRange.partOf_append
  have topsCarried (back : Array Declaration) (declared global : Nat) :
      Carries (within .refl #[] back declared global) id
        (Resolve.modules base base.modules.toList)
        (Resolve.modules (base.append later) base.modules.toList) := by
    have carried := @modules_carries _ _ _ _ back declared global partOf base.modules.toList
    rwa [SourceModule.map_rename_refl] at carried
  have functionsCarried (back : Array Declaration) (declared global : Nat) :
      Carries (within .refl #[] back declared global) id
        (Resolve.functions base base.functions.toList)
        (Resolve.functions (base.append later) base.functions.toList) := by
    have carried := @functions_carries _ _ _ _ back declared global partOf base.functions.toList
    rwa [FunctionDef.map_rename_refl] at carried
  have ranAllTops := carries_both topsCarried
    (fun _ _ => modules_carries (partOf_append sameSize) later.modules.toList)
    ranTops ranTopsLater (· ++ ·)
  have ranAllFunctions := carries_both functionsCarried
    (fun _ _ => functions_carries (partOf_append binds.declCount) later.functions.toList)
    ranDefinitions ranDefinitionsLater (· ++ ·)
  have allTops : base.modules.toList ++
      later.modules.toList.map (SourceModule.rename base.offset) =
        (base.append later).modules.toList := by simp [append]
  have allFunctions : base.functions.toList ++
      later.functions.toList.map (FunctionDef.rename base.offset) =
        (base.append later).functions.toList := by simp [append]
  have starts : within base.offset base.decls #[] 0 0 { decls := later.decls } =
      { decls := (base.append later).decls } := by simp [within, append]
  rw [← modules_append, allTops, starts] at ranAllTops
  rw [← functions_append, allFunctions] at ranAllFunctions
  have sameCounts := binds.counts rfl
  refine bind_eq_ok.mpr ⟨_, _, _, _, ranAllTops, ranAllFunctions, ?_⟩
  simp only [append, within, sameCounts]
  simp

end Program

end FunctionFlow
