import FunctionFlow.Proofs.Program.Scope

/-!
Contract: programs whose tables have grown.
-/

namespace FunctionFlow

def FunctionDef.heading (definition : FunctionDef) : FunctionDef :=
  { definition with params := [], body := [] }

def CallSite.heading (site : CallSite) : CallSite :=
  { site with arity := 0, hasReceiver := false }

def Declaration.heading (decl : Declaration) : Declaration :=
  { decl with functionValue := none, writes := 0 }

namespace Program

variable {scope : ScopeId} {decl : DeclId} {name : String}

/-- Tables have grown. Entries have kept their places and their headings, scopes have also kept
their names, and the functions that are new have new scopes. -/
structure Extends (before after : Program) : Prop where
  files : before.files.size ≤ after.files.size
  scopes : ∀ {id : ScopeId} {entry : Scope}, before.scopes[id]? = some entry →
    ∃ later : Scope, after.scopes[id]? = some later ∧ later.kind = entry.kind ∧
      later.parent = entry.parent ∧
      ∀ {name decl}, entry.names.find? name = some decl → later.names.find? name = some decl
  functions : Table.Kept FunctionDef.heading before.functions after.functions
  newFunctions : ∀ {id : FunctionId} {definition : FunctionDef},
    after.functions[id]? = some definition → before.functions.size ≤ id →
    before.scopes.size ≤ definition.scope
  calls : Table.Kept CallSite.heading before.calls after.calls
  decls : Table.Kept Declaration.heading before.decls after.decls

namespace Extends

variable {before middle after : Program}

theorem refl (program : Program) : program.Extends program where
  files := Nat.le_refl _
  scopes found := ⟨_, found, rfl, rfl, id⟩
  functions := .refl
  newFunctions found isNew := absurd (Table.below found) (Nat.not_lt_of_le isNew)
  calls := .refl
  decls := .refl

theorem scopes_le (extended : before.Extends after) : before.scopes.size ≤ after.scopes.size := by
  have kept : Table.Kept Scope.kind before.scopes after.scopes := by
    intro id entry found
    obtain ⟨later, isLater, kind, _⟩ := extended.scopes found
    exact ⟨later, isLater, kind⟩
  exact kept.size_le

theorem sizes (extended : before.Extends after) : before.sizes ≤ after.sizes :=
  ⟨extended.files, extended.functions.size_le, extended.calls.size_le, extended.decls.size_le,
    extended.scopes_le⟩

theorem trans (first : before.Extends middle) (second : middle.Extends after) :
    before.Extends after where
  files := Nat.le_trans first.files second.files
  scopes found := by
    obtain ⟨_, between, kind, parent, names⟩ := first.scopes found
    obtain ⟨later, isLater, laterKind, laterParent, laterNames⟩ := second.scopes between
    exact ⟨later, isLater, laterKind.trans kind, laterParent.trans parent,
      fun known => laterNames (names known)⟩
  functions := first.functions.trans second.functions
  newFunctions {id definition} found isNew := by
    by_cases between : middle.functions.size ≤ id
    · exact Nat.le_trans first.scopes_le (second.newFunctions found between)
    · obtain ⟨old, isOld⟩ : ∃ old, middle.functions[id]? = some old :=
        ⟨_, Array.getElem?_eq_getElem (Nat.lt_of_not_le between)⟩
      obtain ⟨later, isLater, same⟩ := second.functions _ _ isOld
      rw [found] at isLater
      cases isLater
      have sameScope : definition.scope = old.scope := (congrArg FunctionDef.scope same :)
      rw [sameScope]
      exact first.newFunctions isOld isNew
  calls := first.calls.trans second.calls
  decls := first.decls.trans second.decls

theorem addScope (program : Program) (kind : ScopeKind) (parent : Option ScopeId) :
    program.Extends (program.addScope kind parent).2 :=
  { refl program with scopes := fun found => ⟨_, Table.push_kept found, rfl, rfl, id⟩ }

theorem declare {kind : DeclKind} {file : FileId} {span : Span}
    (declared : before.declare scope name kind file span = .ok (decl, after)) :
    before.Extends after := by
  obtain ⟨entry, isEntry, ⟨_, rfl⟩ | ⟨isNew, added⟩⟩ := declare_cases declared
  · exact .refl _
  cases added
  refine { refl before with scopes := fun {id old} found => ?_, decls := .push }
  by_cases same : scope = id
  · subst same
    cases isEntry.symm.trans found
    refine ⟨_, Array.getElem?_setIfInBounds_self_of_lt ?_, rfl, rfl, fun {other _} known => ?_⟩
    · exact Table.below found
    · have apart : other ≠ name := by
        rintro rfl
        cases isNew.symm.trans known
      rw [NameTable.find?_insert, if_neg apart]
      exact known
  · exact ⟨old, (Array.getElem?_setIfInBounds_ne same).trans found, rfl, rfl, fun known => known⟩

variable (extended : before.Extends after)
include extended

theorem climbs (passed : ScopeKind → Prop) {inner outer : ScopeId}
    (climbs : before.Climbs (fun _ entry => passed entry.kind) inner outer) :
    after.Climbs (fun _ entry => passed entry.kind) inner outer := by
  induction climbs with
  | here => exact .here
  | leave found passes parent _ inductionHypothesis =>
    obtain ⟨later, isLater, kind, laterParent, _⟩ := extended.scopes found
    exact .leave isLater (kind ▸ passes) (laterParent.trans parent) inductionHypothesis

theorem leavesBlocks {inner outer : ScopeId} (leaves : before.LeavesBlocks inner outer) :
    after.LeavesBlocks inner outer :=
  extended.climbs (· = .block) leaves

theorem declares (declared : before.Declares scope decl) : after.Declares scope decl := by
  obtain ⟨outer, entry, name, leaves, found, known⟩ := declared
  obtain ⟨later, isLater, _, _, names⟩ := extended.scopes found
  exact ⟨outer, later, name, extended.leavesBlocks leaves, isLater, names known⟩

end Extends

/-! ### Names -/

/-- In `scope` the name stands for `decl`. -/
def Names (program : Program) (scope : ScopeId) (name : String) (decl : DeclId) : Prop :=
  ∃ table, program.scopes[scope]? = some table ∧ table.names.find? name = some decl

theorem Names.extend {before after : Program} (named : before.Names scope name decl)
    (extended : before.Extends after) : after.Names scope name decl := by
  obtain ⟨table, found, known⟩ := named
  obtain ⟨later, isLater, _, _, names⟩ := extended.scopes found
  exact ⟨later, isLater, names known⟩

theorem Names.unique {program : Program} {other : DeclId} (named : program.Names scope name decl)
    (namedToo : program.Names scope name other) : decl = other := by
  obtain ⟨table, found, known⟩ := named
  obtain ⟨_, foundToo, knownToo⟩ := namedToo
  cases found.symm.trans foundToo
  exact Option.some.inj (known.symm.trans knownToo)

theorem Names.of_push {before after : Program} {last : Scope} (named : after.Names scope name decl)
    (pushed : after.scopes = before.scopes.push last) (below : scope < before.scopes.size) :
    before.Names scope name decl := by
  obtain ⟨table, found, known⟩ := named
  rw [pushed] at found
  rcases Table.push_cases found with old | ⟨rfl, _⟩
  · exact ⟨table, old, known⟩
  · exact absurd below (Nat.lt_irrefl _)

theorem names_of_declare {before after : Program} {kind : DeclKind} {file : FileId} {span : Span}
    (declared : before.declare scope name kind file span = .ok (decl, after)) :
    after.Names scope name decl ∧ (before.Names scope name decl ∨
      ∃ entry, after.decls[decl]? = some entry ∧ entry.kind = kind) := by
  obtain ⟨table, found, ⟨known, rfl⟩ | ⟨_, added⟩⟩ := declare_cases declared
  · exact ⟨⟨table, found, known⟩, .inl ⟨table, found, known⟩⟩
  · cases added
    refine ⟨⟨_, Array.getElem?_setIfInBounds_self_of_lt ?_, ?_⟩,
      .inr ⟨_, Array.getElem?_push_size, rfl⟩⟩
    · exact Table.below found
    · rw [NameTable.find?_insert, if_pos rfl]

theorem declares_of_declare {program after : Program} {base : ScopeId} {kind : DeclKind}
    {file : FileId} {span : Span}
    (declared : program.declare scope name kind file span = .ok (decl, after))
    (inSight : program.LeavesBlocks base scope) : after.Declares base decl := by
  obtain ⟨⟨table, found, known⟩, _⟩ := names_of_declare declared
  exact ⟨scope, table, name, (Extends.declare declared).leavesBlocks inSight, found, known⟩

end Program

end FunctionFlow
