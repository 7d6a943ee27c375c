import FunctionFlow.Proofs.Lowering.WellFormed

/-!
Contract: how the import and export clauses of a file are lowered.
-/

namespace FunctionFlow

/-! ### The clauses of a file -/

namespace Node

def partsOf (kind : String) (node : Node) : List Node := node.parts.filter (·.kind == kind)

def text? (source : Source) (node : Node) : Option String :=
  (source.slice node.info.startByte node.info.endByte).toOption

/-- The name that the node spells as the key of a property. -/
def key? (source : Source) (node : Node) : Option String :=
  match KeyForm.ofKind node.kind with
  | .plain => node.text? source
  | .quoted => (node.text? source).map Lowering.unquote
  | .computed => none

/-- The name that an export specifier refers to, and the name that it exports. -/
def exported? (source : Source) (specifier : Node) : Option (String × String) := do
  let name ← specifier.field? "name"
  guard (name.kind = "identifier")
  let own ← name.text? source
  match specifier.field? "alias" with
  | some other => return (own, ← other.key? source)
  | none => return (own, own)

/-- The name that an import specifier reads, and the name that it declares. -/
def imported? (source : Source) (specifier : Node) : Option (String × String) := do
  let name ← specifier.field? "name"
  return (← name.key? source, ← ((specifier.field? "alias").getD name).text? source)

end Node

namespace SourceFile

/-- The names in the export clauses of a file, and the names that they are exported as. Clauses that
pass on what another file exports are left aside. -/
def exports (file : SourceFile) : List (String × String) :=
  let clauses := ((file.tree.root.partsOf "export_statement").filter fun statement =>
    ["declaration", "value", "source"].all fun field => (statement.field? field).isNone).flatMap
      (·.partsOf "export_clause")
  clauses.flatMap fun clause => clause.parts.filterMap (·.exported? (.ofString file.analysedText))

/-- The names that a file imports one by one, and the names that it gives to them. -/
def imports (file : SourceFile) : List (String × String) :=
  let clauses := (file.tree.root.partsOf "import_statement").flatMap (·.partsOf "import_clause")
  let specifiers := (clauses.flatMap (·.partsOf "named_imports")).flatMap
    (·.partsOf "import_specifier")
  specifiers.filterMap (·.imported? (.ofString file.analysedText))

end SourceFile

/-! ### Lowering the clauses -/

namespace Lowering

variable {root node : Node} {context : Context} {inner : Rules}

theorem Lowers.body_kept {before after : State} {exprs : List Expr}
    (lowered : Lowers root context before exprs after) {stmt : Stmt} (member : stmt ∈ before.body) :
    stmt ∈ after.body := by
  induction lowered with
  | done | skip | declare | function => exact member
  | seq _ _ first second => exact second (first member)
  | build _ _ inductionHypothesis | block _ inductionHypothesis | call _ _ _ inductionHypothesis =>
    exact inductionHypothesis member
  | emit _ _ inductionHypothesis => exact List.mem_append_left _ (inductionHypothesis member)

theorem Follows.lowers {α : Type} {compute : Lower α} {hand : α → List Expr} {state after : State}
    {answer : α} (follows : Follows root context compute hand) (sound : Sound context state)
    (ran : compute.run state = .ok (answer, after)) :
    Lowers root context state (hand answer) after := by
  have outcome := follows state sound
  unfold Outcome at outcome
  rwa [ran] at outcome

def Leaves (context : Context) (compute : Lower Unit) (holds : State → Prop) : Prop :=
  ∀ state after, Sound context state → compute.run state = .ok ((), after) → holds after

section

variable {holds : State → Prop}
  (persists : ∀ {root before after}, Lowers root context before [] after → holds before → holds after)
include persists

theorem forM_leaves {items : List Node} {step : Node → Lower Unit}
    (each : ∀ item ∈ items, Follows root context (step item) fun _ => []) {item : Node}
    (member : item ∈ items) (here : Leaves context (step item) holds) :
    Leaves context (items.forM step) holds := by
  induction items with
  | nil => cases member
  | cons first rest inductionHypothesis =>
    intro state after sound ran
    change (step first >>= fun _ => rest.forM step).run state = _ at ran
    rw [StateT.run_bind] at ran
    obtain ⟨⟨_, middle⟩, ranFirst, ranRest⟩ := Checked.bind_eq_ok.mp ran
    have lowered := (each first List.mem_cons_self).lowers sound ranFirst
    have eachLater : ∀ item ∈ rest, Follows root context (step item) fun _ => [] :=
      fun item later => each item (List.mem_cons_of_mem _ later)
    rcases List.mem_cons.mp member with rfl | later
    · exact persists ((forM_follows eachLater).lowers (lowered.sound sound) ranRest)
        (here state middle sound ranFirst)
    · exact inductionHypothesis eachLater later middle after (lowered.sound sound) ranRest

end

theorem text_eq {text : String} (spells : node.text? context.source = some text) :
    Lowering.text context node = pure text := by
  rw [Lowering.text, Checked.toOption_eq_some.mp spells]
  rfl

theorem propertyKey_eq {key : String} (spells : node.key? context.source = some key) :
    propertyKey context node = pure (some key) := by
  unfold Node.key? at spells
  unfold propertyKey
  cases form : KeyForm.ofKind node.kind with
  | plain =>
    rw [form] at spells
    rw [text_eq spells, pure_bind]
  | quoted =>
    rw [form] at spells
    obtain ⟨raw, isRaw, rfl⟩ := Option.map_eq_some_iff.mp spells
    rw [text_eq isRaw]
    rfl
  | computed =>
    rw [form] at spells
    cases spells

def ExportsIn (scope : ScopeId) (own shown : String) (body : List Stmt) : Prop :=
  ∃ node inner,
    .expr (.object node [.mk (some shown) (.ident inner ⟨own, scope, .unresolved⟩)]) ∈ body

def ImportsIn (program : Program) (scope : ScopeId) (shown own : String) (body : List Stmt) : Prop :=
  ∃ decl node inner, program.Names scope own decl ∧
    .declare decl (some (.member node (.inert inner []) (some shown))) ∈ body

theorem exportSpecifier_leaves {own shown : String}
    (lists : node.exported? context.source = some (own, shown)) (renamed : shown ≠ own) :
    Leaves context (exportSpecifier context node) fun after =>
      ExportsIn context.scope own shown after.body := by
  obtain ⟨name, isName, lists⟩ := Option.bind_eq_some_iff.mp lists
  obtain ⟨_, isGuarded, lists⟩ := Option.bind_eq_some_iff.mp lists
  obtain ⟨spelled, isSpelled, lists⟩ := Option.bind_eq_some_iff.mp lists
  cases isAlias : node.field? "alias" with
  | none =>
    rw [isAlias] at lists
    cases lists
    exact absurd rfl renamed
  | some other =>
    rw [isAlias] at lists
    obtain ⟨key, isKey, same⟩ := Option.bind_eq_some_iff.mp lists
    cases same
    have isIdentifier : name.kind = "identifier" := by simpa [guard] using isGuarded
    have runs : exportSpecifier context node =
        (fresh (.ident · ⟨own, context.scope, .unresolved⟩) >>= exportProperty shown) := by
      simp only [exportSpecifier, isAlias, isName, propertyKey?, propertyKey_eq isKey, pure_bind,
        isIdentifier, if_true, text_eq isSpelled, if_neg renamed.symm, reference]
    intro state after sound ran
    rw [runs] at ran
    cases ran
    exact ⟨_, _, List.mem_append_right _ List.mem_cons_self⟩

theorem importSpecifier_leaves {own shown : String}
    (lists : node.imported? context.source = some (shown, own)) :
    Leaves context (importSpecifier context node) fun after =>
      ImportsIn after.program context.scope shown own after.body := by
  obtain ⟨name, isName, lists⟩ := Option.bind_eq_some_iff.mp lists
  obtain ⟨key, isKey, lists⟩ := Option.bind_eq_some_iff.mp lists
  obtain ⟨spelled, isSpelled, same⟩ := Option.bind_eq_some_iff.mp lists
  cases same
  have runs : importSpecifier context node =
      declareImport context ((node.field? "alias").getD name) shown := by
    simp only [importSpecifier, isName, propertyKey?, propertyKey_eq isKey, pure_bind,
      Option.or_some]
  intro state after sound ran
  rw [runs, declareImport, StateT.run_bind] at ran
  obtain ⟨⟨decl, middle⟩, declared, ranRead⟩ := Checked.bind_eq_ok.mp ran
  have inside : Node.Inside ((node.field? "alias").getD name) _ := .self
  have outcome := declare_runs .imported sound inside .here
  unfold Outcome at outcome
  rw [declared] at outcome
  obtain ⟨_, program, spells, isDeclared, rfl⟩ := outcome
  cases (Checked.toOption_eq_some.mp isSpelled).symm.trans spells
  cases ranRead
  exact ⟨decl, _, _, (Program.names_of_declare isDeclared).1,
    List.mem_append_right _ List.mem_cons_self⟩

section

variable {holds : State → Prop}
  (persists : ∀ {root before after}, Lowers root context before [] after → holds before → holds after)
include persists

theorem exportStatement_leaves {clause specifier : Node}
    (plain : ∀ field ∈ ["declaration", "value", "source"], node.field? field = none)
    (isClause : clause ∈ node.partsOf "export_clause") (member : specifier ∈ clause.parts)
    (here : Leaves context (exportSpecifier context specifier) holds) :
    Leaves context (exportStatement inner context node) holds := by
  have each {clause : Node} (isClause : clause ∈ node.partsOf "export_clause") :
      ∀ part ∈ clause.parts, Follows node context (exportSpecifier context part) fun _ => [] := by
    intro part isPart
    have inside : Node.Inside node clause := Node.Inside.self.part (List.mem_filter.mp isClause).1
    exact exportSpecifier_follows (inside.part isPart)
  have runs : exportStatement inner context node =
      (node.partsOf "export_clause").forM fun clause =>
        clause.parts.forM (exportSpecifier context) := by
    simp only [exportStatement, plain "declaration" (by decide), plain "value" (by decide),
      plain "source" (by decide), Option.isNone_none, if_true]
    rfl
  rw [runs]
  exact forM_leaves persists (fun clause isClause => forM_follows (each isClause)) isClause
    (forM_leaves persists (each isClause) member here)

theorem importStatement_leaves {height : Nat} (enough : node.height ≤ height)
    {clause group specifier : Node} (isClause : clause ∈ node.partsOf "import_clause")
    (isGroup : group ∈ clause.partsOf "named_imports")
    (isSpecifier : specifier ∈ group.partsOf "import_specifier")
    (here : Leaves context (importSpecifier context specifier) holds) :
    Leaves context (importStatement (.atHeight height) context node) holds := by
  obtain ⟨clausePart, clauseKind⟩ := List.mem_filter.mp isClause
  obtain ⟨groupPart, groupKind⟩ := List.mem_filter.mp isGroup
  obtain ⟨specifierPart, specifierKind⟩ := List.mem_filter.mp isSpecifier
  have belowClause := Node.height_lt_of_mem_parts clausePart
  have belowGroup := Node.height_lt_of_mem_parts groupPart
  have belowSpecifier := Node.height_lt_of_mem_parts specifierPart
  obtain ⟨height, rfl⟩ : ∃ lower, height = lower + 1 + 1 := ⟨height - 2, by omega⟩
  have faithful (height : Nat) := Rules.atHeight_faithful height
  refine forM_leaves persists (fun clause isClause => ((faithful _).imports context clause).widen
    (.part .self (List.mem_filter.mp isClause).1)) isClause ?_
  refine forM_leaves persists (fun part member => importPart_follows (faithful _)
    (.part .self member)) groupPart ?_
  rw [beq_iff_eq.mp groupKind]
  refine forM_leaves persists (fun part member => importPart_follows (faithful _)
    (.part .self member)) specifierPart ?_
  rw [beq_iff_eq.mp specifierKind]
  exact here

theorem statements_leave {statement : Node} (isPart : statement ∈ root.parts)
    (here : ∀ height, statement.height ≤ height →
      Leaves context (Lowering.statement (.atHeight height) context statement) holds) :
    Leaves context ((Rules.atHeight root.height).statements context root) holds := by
  have inside : Node.Inside root root := .self
  refine forM_leaves persists
    (fun part member => (Rules.atHeight_faithful _).statementIn (inside.part member)) isPart ?_
  have below := Node.height_lt_of_mem_parts isPart
  obtain ⟨height, isHeight⟩ : ∃ height, root.height = height + 1 := ⟨root.height - 1, by omega⟩
  rw [isHeight] at below ⊢
  exact here height (Nat.le_of_lt_succ below)

end

/-! ### Files -/

section

variable {file : SourceFile} (isSource : context.source = .ofString file.analysedText)
include isSource

theorem exports_lowered {own shown : String} (listed : (own, shown) ∈ file.exports)
    (renamed : shown ≠ own) :
    Leaves context ((Rules.atHeight file.tree.root.height).statements context file.tree.root)
      fun after => ExportsIn context.scope own shown after.body := by
  simp only [SourceFile.exports, List.mem_flatMap, List.mem_filter, List.mem_filterMap,
    List.all_eq_true, Option.isNone_iff_eq_none] at listed
  obtain ⟨clause, ⟨statement, ⟨isStatement, plain⟩, isClause⟩, specifier, member, lists⟩ := listed
  obtain ⟨isPart, isKind⟩ := List.mem_filter.mp isStatement
  have persists {root : Node} {before after : State} (lowered : Lowers root context before [] after) :
      ExportsIn context.scope own shown before.body →
        ExportsIn context.scope own shown after.body :=
    fun ⟨node, inner, member⟩ => ⟨node, inner, lowered.body_kept member⟩
  refine statements_leave persists isPart fun height _ => ?_
  rw [Lowering.statement, beq_iff_eq.mp isKind]
  exact exportStatement_leaves persists plain isClause member
    (exportSpecifier_leaves (isSource ▸ lists) renamed)

theorem imports_lowered {own shown : String} (listed : (shown, own) ∈ file.imports) :
    Leaves context ((Rules.atHeight file.tree.root.height).statements context file.tree.root)
      fun after => ImportsIn after.program context.scope shown own after.body := by
  simp only [SourceFile.imports, List.mem_flatMap, List.mem_filterMap] at listed
  obtain ⟨specifier, ⟨group, ⟨clause, ⟨statement, isStatement, isClause⟩, isGroup⟩, isSpecifier⟩,
    lists⟩ := listed
  obtain ⟨isPart, isKind⟩ := List.mem_filter.mp isStatement
  have persists {root : Node} {before after : State} (lowered : Lowers root context before [] after) :
      ImportsIn before.program context.scope shown own before.body →
        ImportsIn after.program context.scope shown own after.body :=
    fun ⟨decl, node, inner, named, member⟩ =>
      ⟨decl, node, inner, named.extend lowered.extends, lowered.body_kept member⟩
  refine statements_leave persists isPart fun height enough => ?_
  rw [Lowering.statement, beq_iff_eq.mp isKind]
  exact importStatement_leaves persists enough isClause isGroup isSpecifier
    (importSpecifier_leaves (isSource ▸ lists))

end

end Lowering

namespace Program

variable {program : Program}

/-- The top-level code of a file writes what the file exports under another name, and reads what it
imports. -/
structure Linked (program : Program) (file : SourceFile) (top : SourceModule) : Prop where
  exports : ∀ {own shown}, (own, shown) ∈ file.exports → shown ≠ own →
    Lowering.ExportsIn top.scope own shown top.body
  imports : ∀ {shown own}, (shown, own) ∈ file.imports →
    Lowering.ImportsIn program top.scope shown own top.body

theorem Linked.extend {before after : Program} {file : SourceFile} {top : SourceModule}
    (linked : before.Linked file top) (extended : before.Extends after) : after.Linked file top := by
  refine ⟨linked.exports, fun listed => ?_⟩
  obtain ⟨decl, node, inner, named, member⟩ := linked.imports listed
  exact ⟨decl, node, inner, named.extend extended, member⟩

theorem addSources_linked {files : List SourceFile}
    (added : ({} : Program).addSources files = .ok program) {index : FileId} {file : SourceFile}
    (isFile : files[index]? = some file) :
    ∃ top, program.modules[index]? = some top ∧ program.Linked file top := by
  refine (addSources_steps (fun done program => program.modules.size = done.length ∧
    ∀ (index : FileId) file, done[index]? = some file →
      ∃ top, program.modules[index]? = some top ∧ program.Linked file top)
    ?_ ⟨rfl, by simp⟩ added).2 index file isFile
  rintro done program file next _ lowered ⟨counted, linked⟩ addedFile
  rw [addSource_eq] at addedFile
  obtain ⟨⟨_, state⟩, ran, same⟩ := Checked.bind_eq_ok.mp addedFile
  cases same
  have sound := lowered.sound_start file
  have inside : Node.Inside file.tree.root file.tree.root := .self
  have derived := ((Lowering.Rules.atHeight_faithful _).statements inside).lowers sound ran
  have isModules : state.program.modules = program.modules := derived.files_and_modules.2
  have extended : program.Extends (program.withTop state) :=
    (extends_topState program file).trans (derived.extends.trans (extends_withTop program state))
  have atEnd : (program.withTop state).modules[done.length]? =
      some ⟨program.files.size, program.scopes.size, state.body⟩ := by
    rw [← counted, ← isModules]
    exact Array.getElem?_push_size
  refine ⟨?_, fun index other found => ?_⟩
  · show (state.program.modules.push _).size = _
    rw [isModules, Array.size_push, counted, List.length_append, List.length_singleton]
  by_cases old : index < done.length
  · rw [List.getElem?_append_left old] at found
    obtain ⟨top, isTop, linkedOld⟩ := linked index other found
    rw [← isModules] at isTop
    exact ⟨top, Table.push_kept isTop, linkedOld.extend extended⟩
  · have isLast : index = done.length := by
      have below := (List.getElem?_eq_some_iff.mp found).1
      rw [List.length_append, List.length_singleton] at below
      exact Nat.le_antisymm (Nat.le_of_lt_succ below) (Nat.le_of_not_lt old)
    rw [isLast, List.getElem?_concat_length] at found
    cases found
    have isSource : (program.topContext file).source = .ofString file.analysedText := rfl
    refine ⟨_, isLast ▸ atEnd, ?_, ?_⟩
    · exact fun listed renamed => Lowering.exports_lowered isSource listed renamed _ _ sound ran
    · exact fun listed => Lowering.imports_lowered isSource listed _ _ sound ran

end Program

end FunctionFlow
