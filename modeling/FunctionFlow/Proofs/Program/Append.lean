import FunctionFlow.Proofs.Program.Renaming
import FunctionFlow.Proofs.Program.Scope

/-!
Contract: a program behind another one.

Answers are compared and failures are not: the id that a failed look-up names is moved up too.
-/

namespace FunctionFlow

/-! ### Tables -/

namespace Table

variable {α β : Type} {front : Array α} {back : Array β} {move : β → α}

theorem behind_getElem? (id : Nat) :
    (front ++ back.map move)[front.size + id]? = back[id]?.map move := by
  rw [Array.getElem?_append_right (Nat.le_add_right _ _), Nat.add_sub_cancel_left,
    Array.getElem?_map]

theorem behind_push (entry : β) :
    (front ++ back.map move).push (move entry) = front ++ (back.push entry).map move := by
  rw [Array.map_push, Array.append_push]

theorem behind_set (id : Nat) (entry : β) :
    (front ++ back.map move).setIfInBounds (front.size + id) (move entry) =
      front ++ (back.setIfInBounds id entry).map move := by
  rw [Array.setIfInBounds_append, if_neg (Nat.not_lt_of_le (Nat.le_add_right _ _)),
    Nat.add_sub_cancel_left, Array.map_setIfInBounds]

end Table

namespace NameTable

variable {α β : Type} (update : α → β)

theorem find?_map (table : NameTable α) (name : String) :
    (table.map update).find? name = (table.find? name).map update := by
  simp only [find?, map]
  induction table.entries with
  | nil => rfl
  | cons entry rest inductionHypothesis =>
    rw [List.map_cons, List.lookup_cons, List.lookup_cons, inductionHypothesis]
    cases name == entry.1 <;> rfl

theorem map_insert (table : NameTable α) (name : String) (value : α) :
    (table.insert name value).map update = (table.map update).insert name (update value) := by
  simp only [insert, map, mk.injEq]
  fun_induction insertEntry name value table.entries with
  | case1 => rfl
  | case2 other kept rest isBefore => simp [insertEntry, isBefore]
  | case3 kept rest notBefore => simp [insertEntry]
  | case4 other kept rest notBefore notSame inductionHypothesis =>
    rw [List.map_cons, inductionHypothesis, List.map_cons, insertEntry, if_neg notBefore,
      if_neg notSame]

end NameTable

namespace Program

/-! ### Walks under other ids -/

section

variable {program renamed : Program} {ids : Renaming} {inside : ScopeId → Prop}
  (scopes : ∀ id, inside id →
    renamed.scopes[ids .scope id]? = program.scopes[id]?.map (·.rename ids))
  (stays : ∀ id entry parent, inside id → program.scopes[id]? = some entry →
    entry.parent = some parent → inside parent)
include scopes stays

theorem climbWithin_rename {α β : Type} {ask : ScopeId → Scope → Option α}
    {askRenamed : ScopeId → Scope → Option β} {answer : α → β}
    (asked : ∀ id entry, askRenamed (ids .scope id) (entry.rename ids) = (ask id entry).map answer)
    (steps : Nat) {scope : ScopeId} (starts : inside scope) :
    (renamed.climbWithin askRenamed steps (ids .scope scope)).toOption =
      (program.climbWithin ask steps scope).toOption.map (·.map answer) := by
  induction steps generalizing scope with
  | zero => rfl
  | succ steps inductionHypothesis =>
    rw [climbWithin, climbWithin, Checked.toOption_bind, Checked.toOption_bind, Program.scope,
      Program.scope, Checked.toOption_fetch, Checked.toOption_fetch, scopes scope starts]
    cases found : program.scopes[scope]? with
    | none => rfl
    | some entry =>
      simp only [Option.map_some, Option.bind_some, asked]
      cases ask scope entry with
      | some found => rfl
      | none =>
        cases isParent : entry.parent with
        | none => simp [Scope.rename, isParent]; rfl
        | some parent =>
          simpa [Scope.rename, isParent] using
            inductionHypothesis (stays scope entry parent starts found isParent)

variable (grows : program.scopes.size ≤ renamed.scopes.size)
include grows

theorem climb_rename {α β : Type} {ask : ScopeId → Scope → Option α}
    {askRenamed : ScopeId → Scope → Option β} {answer : α → β}
    (asked : ∀ id entry, askRenamed (ids .scope id) (entry.rename ids) = (ask id entry).map answer)
    {scope : ScopeId} (starts : inside scope) :
    (renamed.climb askRenamed (ids .scope scope)).toOption =
      (program.climb ask scope).toOption.map (·.map answer) := by
  rw [climb, climbWithin_rename scopes stays asked _ starts,
    climbWithin_eq_climb (Nat.lt_succ_of_le grows)]

theorem lookup_rename {scope : ScopeId} (starts : inside scope) (name : String) :
    (renamed.lookup (ids .scope scope) name).toOption =
      (program.lookup scope name).toOption.map (·.map (ids .decl)) :=
  climb_rename scopes stays grows (fun _ entry => NameTable.find?_map (ids .decl) entry.names name)
    starts

end

/-! ### A program behind another one -/

def append (base later : Program) : Program where
  files := base.files ++ later.files
  functions := base.functions ++ later.functions.map (·.rename (.shift base.counts))
  calls := base.calls ++ later.calls.map (·.rename (.shift base.counts))
  decls := base.decls ++ later.decls.map (·.rename (.shift base.counts))
  scopes := base.scopes ++ later.scopes.map (·.rename (.shift base.counts))
  modules := base.modules ++ later.modules.map (·.rename (.shift base.counts))
  nextNode := base.nextNode + later.nextNode

abbrev offset (base : Program) : Renaming :=
  .shift base.counts

theorem append_empty (base : Program) : base.append {} = base := by
  simp [append]

variable {base program : Program}

theorem counts_append (kind : IdKind) :
    (base.append program).counts kind = base.counts kind + program.counts kind := by
  cases kind <;> simp [counts, append]

theorem scopes_append (id : ScopeId) :
    (base.append program).scopes[base.offset .scope id]? =
      program.scopes[id]?.map (·.rename base.offset) :=
  Table.behind_getElem? id

theorem addFile_append (path : String) :
    (base.append program).addFile path =
      (base.offset .file (program.addFile path).1,
        base.append (program.addFile path).2) := by
  refine Prod.ext (counts_append .file) ?_
  simp only [addFile, append, mk.injEq, and_true]
  exact Array.append_push.symm

theorem addScope_append (kind : ScopeKind) (parent : Option ScopeId) :
    (base.append program).addScope kind (parent.map (base.offset .scope)) =
      (base.offset .scope (program.addScope kind parent).1,
        base.append (program.addScope kind parent).2) := by
  have sizes : (base.append program).scopes.size = base.offset .scope program.scopes.size :=
    counts_append .scope
  refine Prod.ext sizes ?_
  simp only [addScope, sizes]
  simp only [append, mk.injEq, true_and, and_true]
  exact Table.behind_push (Scope.mk program.scopes.size kind parent .empty)

section

variable (base program) (definition : FunctionDef) (site : CallSite)

theorem push_function_append :
    ((base.append program).functions.size,
      { base.append program with
        functions := (base.append program).functions.push
          { definition.rename base.offset with id := (base.append program).functions.size } }) =
      (base.offset .function program.functions.size,
        base.append { program with
          functions := program.functions.push
            { definition with id := program.functions.size } }) := by
  have sizes : (base.append program).functions.size =
      base.offset .function program.functions.size := counts_append .function
  refine Prod.ext sizes ?_
  simp only [sizes]
  simp only [append, mk.injEq, true_and, and_true]
  exact Table.behind_push { definition with id := program.functions.size }

theorem set_function_append (id : FunctionId) :
    { base.append program with
        functions := ((base.append program).functions.setIfInBounds
          (base.offset .function id) (definition.rename base.offset)) } =
      base.append { program with functions := program.functions.setIfInBounds id definition } := by
  simp only [append, mk.injEq, true_and, and_true]
  exact Table.behind_set id definition

theorem push_call_append :
    ((base.append program).calls.size,
      { base.append program with
        calls := (base.append program).calls.push
          { site.rename base.offset with id := (base.append program).calls.size } }) =
      (base.offset .call program.calls.size,
        base.append { program with
          calls := program.calls.push { site with id := program.calls.size } }) := by
  have sizes : (base.append program).calls.size = base.offset .call program.calls.size :=
    counts_append .call
  refine Prod.ext sizes ?_
  simp only [sizes]
  simp only [append, mk.injEq, true_and, and_true]
  exact Table.behind_push { site with id := program.calls.size }

theorem set_call_append (id : CallId) :
    { base.append program with
        calls := ((base.append program).calls.setIfInBounds
          (base.offset .call id) (site.rename base.offset)) } =
      base.append { program with calls := program.calls.setIfInBounds id site } := by
  simp only [append, mk.injEq, true_and, and_true]
  exact Table.behind_set id site

theorem push_module_append (top : SourceModule) :
    { base.append program with
        modules := ((base.append program).modules.push (top.rename base.offset)) } =
      base.append { program with modules := program.modules.push top } := by
  simp only [append, mk.injEq, true_and, and_true]
  exact Table.behind_push top

end

theorem function_append (id : FunctionId) :
    ((base.append program).function (base.offset .function id)).toOption =
      (program.function id).toOption.map (·.rename base.offset) := by
  rw [Program.function, Program.function, Checked.toOption_fetch, Checked.toOption_fetch]
  exact Table.behind_getElem? id

theorem call_append (id : CallId) :
    ((base.append program).call (base.offset .call id)).toOption =
      (program.call id).toOption.map (·.rename base.offset) := by
  rw [Program.call, Program.call, Checked.toOption_fetch, Checked.toOption_fetch]
  exact Table.behind_getElem? id

theorem scopes_size_append : program.scopes.size ≤ (base.append program).scopes.size := by
  simp [append]

theorem lookup_append (scope : ScopeId) (name : String) :
    ((base.append program).lookup (base.offset .scope scope) name).toOption =
      (program.lookup scope name).toOption.map (·.map (base.offset .decl)) :=
  lookup_rename (fun id (_ : True) => scopes_append id) (fun _ _ _ _ _ _ => trivial)
    scopes_size_append trivial name

def hoistingAnswer (id : ScopeId) (entry : Scope) : Option ScopeId :=
  if entry.kind = .block ∧ entry.parent.isSome then none else some id

theorem hoistingScope_append (scope : ScopeId) :
    ((base.append program).hoistingScope (base.offset .scope scope)).toOption =
      (program.hoistingScope scope).toOption.map (base.offset .scope) := by
  have asked (id : ScopeId) (entry : Scope) :
      hoistingAnswer (base.offset .scope id) (entry.rename base.offset) =
        (hoistingAnswer id entry).map (base.offset .scope) := by
    simp only [hoistingAnswer, Scope.rename, Option.isSome_map]
    split <;> rfl
  have eq (program : Program) (scope : ScopeId) : program.hoistingScope scope =
      (program.climb hoistingAnswer scope >>= fun found => return found.getD scope) := rfl
  rw [eq, eq, Checked.toOption_bind, Checked.toOption_bind,
    climb_rename (fun id (_ : True) => scopes_append id) (fun _ _ _ _ _ _ => trivial)
      scopes_size_append asked trivial]
  cases (program.climb hoistingAnswer scope).toOption with
  | none => rfl
  | some found => cases found <;> rfl

theorem declare_append (scope : ScopeId) (name : String) (kind : DeclKind) (file : FileId)
    (span : Span) :
    ((base.append program).declare (base.offset .scope scope) name
      (kind.rename base.offset) (base.offset .file file) span).toOption =
      (program.declare scope name kind file span).toOption.map fun result =>
        (base.offset .decl result.1, base.append result.2) := by
  rw [declare, declare, Checked.toOption_bind, Checked.toOption_bind, Program.scope,
    Program.scope, Checked.toOption_fetch, Checked.toOption_fetch, scopes_append]
  cases found : program.scopes[scope]? with
  | none => rfl
  | some entry =>
    simp only [Option.map_some, Option.bind_some, Scope.rename, NameTable.find?_map]
    cases entry.names.find? name with
    | some existing => rfl
    | none =>
      have sizes : (base.append program).decls.size =
          base.offset .decl program.decls.size := by
        simp [append, Renaming.shift, counts]
      have names : (entry.names.map (base.offset .decl)).insert name
            (base.offset .decl program.decls.size) =
          (entry.names.insert name program.decls.size).map (base.offset .decl) :=
        (NameTable.map_insert ..).symm
      refine congrArg some (Prod.ext sizes ?_)
      simp only [addDeclaration, sizes, names]
      simp only [append, mk.injEq, true_and, and_true]
      constructor
      · exact Table.behind_push (Declaration.mk program.decls.size name kind scope file span none 0)
      · exact Table.behind_set scope
          { entry with names := entry.names.insert name program.decls.size }

end Program

end FunctionFlow
