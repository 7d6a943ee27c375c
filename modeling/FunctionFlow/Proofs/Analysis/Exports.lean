import FunctionFlow.Proofs.Flow.Heads
import FunctionFlow.Proofs.Lowering.Clauses
import Mathlib.Logic.Relation

/-!
Contract: what a file exports reaches the files that import it.

What is exported as itself is not written anywhere. It has its global name already, unless it is an
import.
-/

namespace FunctionFlow

namespace Program

variable {program : Program}

/-- In the own scope of a file the name stands for `decl`. -/
def TopNames (program : Program) (file : FileId) (name : String) (decl : DeclId) : Prop :=
  ∃ top, program.modules[file]? = some top ∧ program.Names top.scope name decl

def IsImport (program : Program) (decl : DeclId) : Prop :=
  ∃ entry, program.decls[decl]? = some entry ∧ entry.kind = .imported

theorem resolve_of_names {scope : ScopeId} {name : String} {decl : DeclId}
    (named : program.Names scope name decl) :
    program.resolve ⟨name, scope, .unresolved⟩ = ⟨name, scope, .declared decl⟩ := by
  obtain ⟨table, found, known⟩ := named
  have looked : program.lookup scope name = .ok (some decl) := by
    rw [lookup, climb, climbWithin, Program.scope, fetch_eq_ok.mpr found, Checked.ok_bind, known]
    rfl
  exact @resolve_of_lookup program ⟨name, scope, .unresolved⟩ rfl _ looked

theorem WellFormed.declVertex_top (wellFormed : program.WellFormed) (housed : program.Housed)
    {file : FileId} {name : String} {decl : DeclId} (named : program.TopNames file name decl)
    (notImport : ¬ program.IsImport decl) : program.declVertex decl = .ok (.named name) := by
  obtain ⟨top, isTop, named⟩ := named
  obtain ⟨entry, isEntry, rfl, isScope⟩ := (wellFormed.namesMatch _ _ _).mp named
  have isTopScope : program.tops[file]? = some top.scope := by
    rw [tops, List.getElem?_map, Array.getElem?_toList, isTop]
    rfl
  obtain ⟨table, found, isFile, noParent⟩ := wellFormed.rooted.ownScopes isTopScope
  rw [← isScope] at found
  have isInner : program.IsInner entry.scope := by
    intro id definition isFunction same
    obtain ⟨other, foundToo, isFunctionScope⟩ := wellFormed.wellScoped.ownScope isFunction
    rw [same, found] at foundToo
    cases foundToo
    cases isFile.symm.trans isFunctionScope
  have notImported : entry.kind ≠ .imported := fun isImported => notImport ⟨entry, isEntry, isImported⟩
  rw [declVertex, Program.decl, fetch_eq_ok.mpr isEntry, Checked.ok_bind]
  split
  · rename_i isParameter
    obtain ⟨_, isParent, _⟩ | ⟨_, isNone⟩ :=
      (housed.parameters isEntry isParameter).inner_cases found isInner
    · cases noParent.symm.trans isParent
    · cases isNone
  · rw [isGlobal, Program.decl, fetch_eq_ok.mpr isEntry, Checked.ok_bind, if_neg notImported,
      Program.scope, fetch_eq_ok.mpr found, Checked.ok_bind, isFile]
    rfl

/-- The values of exported declarations go to the names that they are exported as, and what has an
imported name goes to the declaration of the import. -/
theorem ofSources_linked {files : List SourceFile} {parsed : Parsed}
    (made : Program.ofSources files = .ok parsed) {index : FileId} {file : SourceFile}
    (isFile : files[index]? = some file) :
    ∃ top, parsed.program.modules[index]? = some top ∧
      (∀ {own shown decl}, (own, shown) ∈ file.exports → shown ≠ own →
        parsed.program.Names top.scope own decl →
        ∃ node, parsed.program.Into (.ident node ⟨own, top.scope, .declared decl⟩) (.named shown)) ∧
      ∀ {shown own}, (shown, own) ∈ file.imports → ∃ decl node inner,
        parsed.program.Names top.scope own decl ∧
        parsed.program.Into (.member node (.inert inner []) (some shown))
          (.slot (parsed.program.slotOf decl)) := by
  obtain ⟨program, added, _, binds⟩ := ofSources_bindsTo made
  obtain ⟨top, isTop, linked⟩ := addSources_linked added isFile
  have isBound : parsed.program.modules[index]? = some (top.mapReferences program.resolve) := by
    rw [binds.modules, Array.getElem?_map, isTop]
    rfl
  have isBody := mem_bodies.mpr (.inl ⟨_, Array.mem_of_getElem? isBound, rfl, rfl⟩)
  refine ⟨_, isBound, fun {own shown decl} listed renamed named => ?_, fun listed => ?_⟩
  · obtain ⟨node, inner, written⟩ := linked.exports listed renamed
    have resolves : program.resolve ⟨own, top.scope, .unresolved⟩ =
        ⟨own, top.scope, .declared decl⟩ := by
      obtain ⟨table, found, known⟩ := named
      exact resolve_of_names ⟨table, binds.scopes ▸ found, known⟩
    have member := List.mem_map_of_mem (f := Stmt.mapReferences program.resolve) written
    simp only [Stmt.mapReferences, Expr.mapReferences, Property.mapReferencesIn, resolves] at member
    exact ⟨inner, .keyed (mem_exprs.mpr ⟨none, _, _, isBody, member, Expr.mem_all_self _⟩)
      (List.mem_singleton_self _)⟩
  · obtain ⟨decl, node, inner, named, read⟩ := linked.imports listed
    exact ⟨decl, node, inner, named.extend binds.extends, .declared isBody
      (List.mem_map_of_mem (f := Stmt.mapReferences program.resolve) read)⟩

end Program

/-- The values of a declaration reach the name that its file exports it as, and all imports of that
name, unless it is an import that is exported as itself. -/
theorem exports_reach_imports {files : List SourceFile} {parsed : Parsed}
    (made : Program.ofSources files = .ok parsed) (natives : NativeTable) :
    ∃ graph events, Analysis.bodyGraph parsed.program natives = .ok (graph, events) ∧
      ∀ (exporter : FileId) file own shown decl, files[exporter]? = some file →
        (own, shown) ∈ file.exports → parsed.program.TopNames exporter own decl →
        ¬ (parsed.program.IsImport decl ∧ shown = own) →
        ∃ vertex, parsed.program.declVertex decl = .ok vertex ∧
          Relation.ReflTransGen graph.Arrow vertex (.named shown) ∧
          ∀ (importer : FileId) other visible, files[importer]? = some other →
            (shown, visible) ∈ other.imports → ∃ target slot,
              parsed.program.TopNames importer visible target ∧
              parsed.program.declVertex target = .ok slot ∧
              Relation.ReflTransGen graph.Arrow (.named shown) slot := by
  obtain ⟨wellFormed, _⟩ := Program.ofSources_formed made
  obtain ⟨housed, _⟩ := Program.ofSources_housed made
  obtain ⟨graph, events, built, represents⟩ :=
    Analysis.bodyGraph_represents wellFormed.inRange natives
  have leads {expr : Expr} {source target : Vertex} (into : parsed.program.Into expr target)
      (held : expr.holder parsed.program = some source) :
      Relation.ReflTransGen graph.Arrow source target := by
    rcases represents.into into held with rfl | arrow
    · exact .refl
    · exact .single arrow
  have slotOf {scope : ScopeId} {name : String} {decl : DeclId}
      (named : parsed.program.Names scope name decl) :
      parsed.program.declVertex decl = .ok (.slot (parsed.program.slotOf decl)) := by
    obtain ⟨_, isEntry, _⟩ := (wellFormed.namesMatch _ _ _).mp named
    exact wellFormed.inRange.declVertex_eq (Table.below isEntry)
  refine ⟨graph, events, built, fun exporter file own shown decl isFile listed named shows => ?_⟩
  have imported (importer : FileId) (other : SourceFile) (visible : String)
      (isOther : files[importer]? = some other) (listed : (shown, visible) ∈ other.imports) :
      ∃ target slot, parsed.program.TopNames importer visible target ∧
        parsed.program.declVertex target = .ok slot ∧
        Relation.ReflTransGen graph.Arrow (.named shown) slot := by
    obtain ⟨top, isTop, _, imports⟩ := Program.ofSources_linked made isOther
    obtain ⟨target, node, inner, named, into⟩ := imports listed
    exact ⟨target, _, ⟨top, isTop, named⟩, slotOf named, leads into rfl⟩
  by_cases renamed : shown = own
  · subst renamed
    exact ⟨_, wellFormed.declVertex_top housed named fun isImport => shows ⟨isImport, rfl⟩, .refl,
      imported⟩
  · obtain ⟨top, isTop, exports, _⟩ := Program.ofSources_linked made isFile
    obtain ⟨_, isTopToo, named⟩ := named
    cases isTop.symm.trans isTopToo
    obtain ⟨node, into⟩ := exports listed renamed named
    exact ⟨_, slotOf named, leads into rfl, imported⟩

def renamedExport : SourceFile where
  path := "a.js"
  text := "function f() {}\nexport { f as g };"
  tree := {
    hasErrors := false
    root :=
      .rule "program" 0 34 [] [
        .rule "function_declaration" 0 15 ["name", "parameters", "body"] [
          .rule "identifier" 9 10 [] [],
          .rule "formal_parameters" 10 12 [] [],
          .rule "statement_block" 13 15 [] []],
        .rule "export_statement" 16 34 [] [
          .rule "export_clause" 23 33 [] [
            .rule "export_specifier" 25 31 ["name", "alias"] [
              .rule "identifier" 25 26 [] [],
              .rule "identifier" 30 31 [] []]]]] }

def namedImport : SourceFile where
  path := "b.js"
  text := "import { g } from './a.js';"
  tree := {
    hasErrors := false
    root :=
      .rule "program" 0 27 [] [
        .rule "import_statement" 0 27 [] [
          .rule "import_clause" 7 12 [] [
            .rule "named_imports" 7 12 [] [
              .rule "import_specifier" 9 10 ["name"] [
                .rule "identifier" 9 10 [] []]]],
          .rule "string" 18 26 [] []]] }

theorem exports_reach_imports_renamed : ∃ parsed graph events vertex target slot,
    Program.ofSources [renamedExport, namedImport] = .ok parsed ∧
      Analysis.bodyGraph parsed.program .empty = .ok (graph, events) ∧
      parsed.program.TopNames 0 "f" 0 ∧ parsed.program.declVertex 0 = .ok vertex ∧
      parsed.program.TopNames 1 "g" target ∧ parsed.program.declVertex target = .ok slot ∧
      Relation.ReflTransGen graph.Arrow vertex slot := by
  have computed : ((Program.ofSources [renamedExport, namedImport]).toOption.bind fun parsed =>
      parsed.program.modules[0]?.bind fun top => parsed.program.scopes[top.scope]?.bind fun table =>
        table.names.find? "f") = some 0 := by
    decide +kernel
  obtain ⟨parsed, isParsed, computed⟩ := Option.bind_eq_some_iff.mp computed
  obtain ⟨top, isTop, computed⟩ := Option.bind_eq_some_iff.mp computed
  obtain ⟨table, found, known⟩ := Option.bind_eq_some_iff.mp computed
  have made := Checked.toOption_eq_some.mp isParsed
  obtain ⟨graph, events, built, reaches⟩ := exports_reach_imports made .empty
  have named : parsed.program.TopNames 0 "f" 0 := ⟨top, isTop, table, found, known⟩
  have renamed : ¬ (parsed.program.IsImport 0 ∧ "g" = "f") := fun same => absurd same.2 (by decide)
  obtain ⟨vertex, isVertex, path, imported⟩ :=
    reaches 0 renamedExport "f" "g" 0 rfl (by decide +kernel) named renamed
  obtain ⟨target, slot, isTarget, isSlot, onward⟩ :=
    imported 1 namedImport "g" rfl (by decide +kernel)
  exact ⟨parsed, graph, events, vertex, target, slot, made, built, named, isVertex, isTarget, isSlot,
    path.trans onward⟩

/-- A file that exports what it imports. -/
def reexported : SourceFile where
  path := "b.js"
  text := "import x from './a.js';\nexport { x };"
  tree := {
    hasErrors := false
    root :=
      .rule "program" 0 37 [] [
        .rule "import_statement" 0 23 [] [
          .rule "import_clause" 7 8 [] [
            .rule "identifier" 7 8 [] []],
          .rule "string" 14 22 [] []],
        .rule "export_statement" 24 37 [] [
          .rule "export_clause" 31 36 [] [
            .rule "export_specifier" 33 34 ["name"] [
              .rule "identifier" 33 34 [] []]]]] }

/-- The import does not flow anywhere, also not to the name that it is exported as. -/
theorem import_not_exported : ∃ parsed, Program.ofSources [reexported] = .ok parsed ∧
    ("x", "x") ∈ reexported.exports ∧ parsed.program.TopNames 0 "x" 0 ∧
    parsed.program.declVertex 0 = .ok (.slot (.declared 0)) ∧
    ∀ natives graph events, Analysis.bodyGraph parsed.program natives = .ok (graph, events) →
      ¬ Relation.ReflTransGen graph.Arrow (.slot (.declared 0)) (.named "x") := by
  have computed : ((Program.ofSources [reexported]).toOption.bind fun parsed =>
      parsed.program.modules[0]?.bind fun top => parsed.program.scopes[top.scope]?.map fun table =>
        (table.names.find? "x", (parsed.program.declVertex 0).toOption,
          parsed.program.growth.arrows)) =
      some (some 0, some (.slot (.declared 0)), [(.named "default", .slot (.declared 0))]) := by
    decide +kernel
  obtain ⟨parsed, isParsed, computed⟩ := Option.bind_eq_some_iff.mp computed
  obtain ⟨top, isTop, computed⟩ := Option.bind_eq_some_iff.mp computed
  obtain ⟨table, found, same⟩ := Option.map_eq_some_iff.mp computed
  simp only [Prod.mk.injEq] at same
  obtain ⟨known, isVertex, arrows⟩ := same
  have made := Checked.toOption_eq_some.mp isParsed
  refine ⟨parsed, made, by decide +kernel, ⟨top, isTop, table, found, known⟩,
    Checked.toOption_eq_some.mp isVertex, fun natives graph events built path => ?_⟩
  obtain ⟨_, _, builtToo, whole⟩ :=
    Analysis.bodyGraph_grown (Program.ofSources_inRange made) natives
  cases built.symm.trans builtToo
  rcases Relation.ReflTransGen.cases_head path with same | ⟨next, arrow, _⟩
  · cases same
  rcases whole.arrow_natives_iff.mp arrow with ⟨_, _, same, _⟩ | here
  · cases same
  · have member : (_, next) ∈ parsed.program.growth.arrows := here
    rw [arrows, List.mem_singleton] at member
    cases member

end FunctionFlow
