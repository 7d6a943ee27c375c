import FunctionFlow.Project.Collect
import FunctionFlow.Proofs.Project.Filter
import Mathlib.Data.List.Lex
import Mathlib.Data.Prod.Lex
import Mathlib.Data.String.Basic

/-!
Contract: the files that inputs stand for.

What a directory or a file is called is taken from its place in the tree, and not from the path that
leads there.
-/

namespace FunctionFlow

/-! ### Paths -/

namespace Path

def Component.rank : Component → Nat ×ₗ String
  | .root => toLex (0, "")
  | .current => toLex (1, "")
  | .parent => toLex (2, "")
  | .name text => toLex (3, text)

theorem Component.rank_inj {left right : Component} : left.rank = right.rank ↔ left = right := by
  cases left <;> cases right <;> simp [rank]

theorem Component.before_iff {left right : Component} :
    left.before right = true ↔ left.rank < right.rank := by
  cases left <;> cases right <;> simp [before, rank, Prod.Lex.toLex_lt_toLex]

theorem componentsLe_iff {left right : List Component} :
    componentsLe left right = true ↔ left.map Component.rank ≤ right.map Component.rank := by
  induction left generalizing right with
  | nil => exact iff_of_true rfl (not_lt.mp (List.not_lt_nil _))
  | cons first rest inductionHypothesis =>
    cases right with
    | nil => simp [componentsLe]
    | cons other others =>
      rw [componentsLe, Bool.or_eq_true, Bool.and_eq_true, Component.before_iff,
        inductionHypothesis, beq_iff_eq, ← Component.rank_inj, List.map_cons, List.map_cons,
        ← not_lt, ← not_lt, List.cons_lt_cons_iff]
      rcases lt_trichotomy first.rank other.rank with less | same | greater
      · simp [less, less.not_gt, less.ne']
      · simp [same]
      · simp [greater, greater.not_gt, greater.ne']

/-- Paths are compared step by step: the root, then the directory itself, then the one above, then
names by their characters. -/
def order (path : String) : List (Nat ×ₗ String) := (components path).map Component.rank

theorem le_iff {left right : String} : le left right = true ↔ order left ≤ order right :=
  componentsLe_iff

theorem components_eq_of_order {left right : String} (same : order left = order right) :
    components left = components right :=
  List.map_injective_iff.mpr (fun _ _ => Component.rank_inj.mp) same

theorem pairwise_mergeSort_le (paths : List String) :
    (paths.mergeSort le).Pairwise fun first second => le first second = true := by
  refine List.pairwise_mergeSort (fun first second third => ?_) (fun first second => ?_) paths
  · simpa only [le_iff] using le_trans
  · simpa only [Bool.or_eq_true, le_iff] using le_total _ _

/-- Names of entries: neither empty nor dots that stand for a step, and without slashes. -/
def IsName (name : String) : Prop :=
  name.toList ∉ [[], ['.'], ['.', '.']] ∧ '/' ∉ name.toList

instance (name : String) : Decidable (IsName name) :=
  inferInstanceAs (Decidable (_ ∧ _))

theorem splitSlashes_ne_nil (text : List Char) : splitSlashes text ≠ [] := by
  fun_cases splitSlashes text <;> simp_all

theorem splitSlashes_append (front back : List Char) :
    splitSlashes (front ++ '/' :: back) = splitSlashes front ++ splitSlashes back := by
  fun_induction splitSlashes front with
  | case1 => rfl
  | case2 rest inductionHypothesis => simp [splitSlashes, inductionHypothesis]
  | case3 char rest notSlash none => exact absurd none (splitSlashes_ne_nil rest)
  | case4 _ _ _ _ _ found inductionHypothesis => simp [splitSlashes, inductionHypothesis, found]

theorem splitSlashes_self {text : List Char} (plain : '/' ∉ text) : splitSlashes text = [text] := by
  induction text with
  | nil => rfl
  | cons char rest inductionHypothesis =>
    obtain ⟨notSlash, plain⟩ := not_or.mp (mt List.mem_cons.mpr plain)
    rw [splitSlashes.eq_3 char rest (notSlash ·.symm), inductionHypothesis plain]

def stepsOf : List (List Char) → List Component
  | [] :: rest => .root :: rest.filterMap component?
  | ['.'] :: rest => .current :: rest.filterMap component?
  | pieces => pieces.filterMap component?

theorem stepsOf_append {front : List (List Char)} (notNil : front ≠ []) (last : List Char) :
    stepsOf (front ++ [last]) = stepsOf front ++ (component? last).toList := by
  have single : [last].filterMap component? = (component? last).toList := by
    cases found : component? last <;> simp [found]
  fun_cases stepsOf front with
  | case1 | case2 => simp [stepsOf, List.filterMap_append, single]
  | case3 _ notRoot notCurrent =>
    obtain ⟨first, rest, rfl⟩ := List.exists_cons_of_ne_nil notNil
    rw [List.cons_append, stepsOf.eq_3, ← List.cons_append, List.filterMap_append, single]
    · rintro _ ⟨⟩
      exact notRoot _ rfl
    · rintro _ ⟨⟩
      exact notCurrent _ rfl

theorem components_eq {path : String} (notEmpty : path.toList ≠ []) :
    components path = stepsOf (splitSlashes path.toList) := by
  unfold components
  generalize path.toList = text at notEmpty ⊢
  have notBlank : splitSlashes text ≠ [[]] := by
    fun_cases splitSlashes text <;> simp_all [splitSlashes_ne_nil]
  split <;> simp_all [stepsOf]

theorem components_split {path : String} {front back : List Char} (plain : '/' ∉ back)
    (split : path.toList = front ++ '/' :: back) :
    components path = stepsOf (splitSlashes front) ++ (component? back).toList := by
  rw [components_eq (by simp [split]), split, splitSlashes_append, splitSlashes_self plain,
    stepsOf_append (splitSlashes_ne_nil front)]

theorem components_join (path : String) {name : String} (isName : IsName name) :
    components (join path name) = components path ++ [.name name] := by
  obtain ⟨notDots, plain⟩ := isName
  have isStep : component? name.toList = some (.name name) := by simp_all [component?]
  unfold join
  split
  · rename_i closed
    rcases closed with isEmpty | endsInSlash
    · cases String.isEmpty_iff.mp isEmpty
      rw [String.empty_append, components_eq (by simp_all), splitSlashes_self plain, stepsOf.eq_3]
      · simp [isStep, components, splitSlashes]
      · simp_all
      · simp_all
    · obtain ⟨front, isPath⟩ := List.getLast?_eq_some_iff.mp endsInSlash
      rw [components_split List.not_mem_nil isPath,
        components_split plain (by rw [String.toList_append, isPath, List.append_assoc]; rfl), isStep]
      simp [component?]
  · rename_i isOpen
    have split : (path ++ "/" ++ name).toList = path.toList ++ '/' :: name.toList := by simp
    rw [components_split plain split, isStep, components_eq (by simp_all)]
    rfl

theorem fileName?_join (path : String) {name : String} (isName : IsName name) :
    fileName? (join path name) = some name := by
  simp [fileName?, components_join path isName]

theorem components_foldl_join {path : String} {names : List String}
    (areNames : ∀ name ∈ names, IsName name) :
    components (names.foldl join path) = components path ++ names.map .name := by
  induction names generalizing path with
  | nil => simp
  | cons name rest inductionHypothesis =>
    obtain ⟨isName, areNames⟩ := List.forall_mem_cons.mp areNames
    rw [List.foldl_cons, inductionHypothesis areNames, components_join path isName,
      List.append_assoc]
    rfl

theorem fileName?_eq_some {path name : String} (notEmpty : path.toList ≠ []) :
    fileName? path = some name ↔
      ((splitSlashes path.toList).filterMap component?).getLast? = some (.name name) := by
  have sameLast (pieces : List (List Char)) : (stepsOf pieces).getLast? = some (.name name) ↔
      (pieces.filterMap component?).getLast? = some (.name name) := by
    fun_cases stepsOf pieces with
    | case1 rest | case2 rest =>
      rw [List.filterMap_cons_none (by rfl), List.getLast?_cons]
      cases (rest.filterMap component?).getLast? <;> simp
    | case3 => rfl
  rw [← sameLast, fileName?, components_eq notEmpty]
  split
  · rename_i text found
    simp [found]
  · rename_i notName
    simp only [reduceCtorEq, false_iff]
    exact notName name

theorem extensionOf?_iff {name extension : String} : extensionOf? name = some extension ↔
    ∃ stem, stem ≠ [] ∧ '.' ∉ extension.toList ∧ name.toList = stem ++ '.' :: extension.toList := by
  unfold extensionOf?
  extract_lets reversed
  constructor
  · intro found
    have parts : reversed.takeWhile (· ≠ '.') ++ reversed.dropWhile (· ≠ '.') = name.toList.reverse :=
      List.takeWhile_append_dropWhile
    have stops := List.head?_dropWhile_not (· ≠ '.') reversed
    have noDot : '.' ∉ reversed.takeWhile (· ≠ '.') := fun isDot => by
      simpa using List.all_eq_true.mp List.all_takeWhile _ isDot
    generalize reversed.takeWhile (· ≠ '.') = front at found parts noDot
    split at found
    · cases found
    · cases found
    · rename_i dot stem several isRest
      cases found
      rw [isRest] at parts stops
      cases not_not.mp (of_decide_eq_false stops)
      refine ⟨stem.reverse, mt List.reverse_eq_nil_iff.mp several, by simpa using noDot, ?_⟩
      rw [← List.reverse_reverse name.toList, ← parts]
      simp
  · rintro ⟨stem, notEmpty, noDot, isName⟩
    have isReversed : reversed = extension.toList.reverse ++ '.' :: stem.reverse := by
      simp [reversed, isName]
    have plain : ∀ char ∈ extension.toList.reverse, decide (char ≠ '.') = true := by
      intro char member
      rw [decide_eq_true_eq]
      rintro rfl
      exact noDot (List.mem_reverse.mp member)
    rw [isReversed, List.dropWhile_append_of_pos plain, List.takeWhile_append_of_pos plain]
    obtain ⟨first, rest, isStem⟩ := List.exists_cons_of_ne_nil (mt List.reverse_eq_nil_iff.mp notEmpty)
    simp [isStem]

end Path

/-- The name of a file with one of the extensions of source files, in any case. -/
def SourceName (name : String) : Prop :=
  ∃ stem extension, stem ≠ [] ∧ '.' ∉ extension.toList ∧
    name.toList = stem ++ '.' :: extension.toList ∧
    Text.lower extension ∈ ["js", "jsx", "mjs", "cjs", "ts", "tsx", "vue"]

theorem isSourcePath_iff {path : String} :
    isSourcePath path = true ↔ ∃ name, Path.fileName? path = some name ∧ SourceName name := by
  unfold isSourcePath Path.extension?
  cases Path.fileName? path with
  | none => simp
  | some name =>
    rw [Option.bind_some]
    constructor
    · intro isSource
      split at isSource
      · rename_i extension found
        obtain ⟨stem, notEmpty, noDot, isName⟩ := Path.extensionOf?_iff.mp found
        exact ⟨name, rfl, stem, extension, notEmpty, noDot, isName,
          List.contains_iff_mem.mp isSource⟩
      · cases isSource
    · rintro ⟨_, ⟨⟩, stem, extension, notEmpty, noDot, isName, isKnown⟩
      rw [Path.extensionOf?_iff.mpr ⟨stem, notEmpty, noDot, isName⟩]
      exact List.contains_iff_mem.mpr isKnown

/-- The place of a directory with other people's code or with the history of versions. -/
def Hidden (place : List String) : Prop :=
  place.getLast? = some "node_modules" ∨ place.getLast? = some ".git"

theorem isPassedOver_iff {path : String} : isPassedOver path = true ↔
    Path.fileName? path = some "node_modules" ∨ Path.fileName? path = some ".git" := by
  unfold isPassedOver
  cases Path.fileName? path <;> simp

namespace FileNode

/-! ### Where paths lead -/

theorem descend_append (root : FileNode) (front back : List String) :
    root.descend (front ++ back) = (root.descend front).bind (·.descend back) := by
  fun_induction descend root front with
  | case1 => rfl
  | case2 => rfl
  | case3 entries name names inductionHypothesis =>
    rw [List.cons_append, descend]
    cases child? entries name with
    | none => rfl
    | some child => exact inductionHypothesis child

theorem isDirectoryAt_dropLast {root : FileNode} {place : List String}
    (isDirectory : root.isDirectoryAt place = true) : root.isDirectoryAt place.dropLast = true := by
  rcases List.eq_nil_or_concat place with rfl | ⟨front, last, rfl⟩
  · exact isDirectory
  · rw [List.concat_eq_append] at isDirectory ⊢
    rw [List.dropLast_concat]
    unfold isDirectoryAt at isDirectory ⊢
    rw [descend_append] at isDirectory
    cases found : root.descend front with
    | none => simp [found] at isDirectory
    | some node =>
      cases node with
      | directory entries => rfl
      | file content => simp [found, descend] at isDirectory

theorem not_isDirectoryAt_file {root : FileNode} {place : List String} {content : FileContent}
    (isFile : root.descend place = some (file content)) : ¬ root.isDirectoryAt place = true := by
  simp [isDirectoryAt, isFile]

def next (here : List String) : Option Path.Component → List String
  | some .parent => here.dropLast
  | some (.name text) => here ++ [text]
  | _ => here

theorem follow_cons {root : FileNode} {here place : List String} {piece : List Char}
    {pieces : List (List Char)} : root.follow here (piece :: pieces) = some place ↔
      root.isDirectoryAt here = true ∧
        root.follow (next here (Path.component? piece)) pieces = some place := by
  rw [follow]
  cases root.isDirectoryAt here with
  | false => simp
  | true =>
    simp only [Bool.not_true, Bool.false_eq_true, if_false, true_and, Path.component?]
    split
    · rfl
    · split <;> rfl

theorem follow_blank {root : FileNode} {here place : List String} {pieces : List (List Char)}
    (blank : pieces.filterMap Path.component? = []) (followed : root.follow here pieces = some place) :
    place = here := by
  induction pieces generalizing here with
  | nil =>
    cases followed
    rfl
  | cons piece rest inductionHypothesis =>
    obtain ⟨noStep, blank⟩ := List.forall_mem_cons.mp (List.filterMap_eq_nil_iff.mp blank)
    obtain ⟨_, followed⟩ := follow_cons.mp followed
    rw [noStep] at followed
    exact inductionHypothesis (List.filterMap_eq_nil_iff.mpr blank) followed

theorem getLast?_steps {component : Path.Component} {pieces : List (List Char)}
    (last : (pieces.filterMap Path.component?).getLast? = some component) (piece : List Char) :
    ((piece :: pieces).filterMap Path.component?).getLast? = some component := by
  cases step : Path.component? piece with
  | none => rwa [List.filterMap_cons_none step]
  | some first => rw [List.filterMap_cons_some step, List.getLast?_cons, last, Option.getD_some]

theorem getLast?_of_follow {root : FileNode} {here place : List String}
    {pieces : List (List Char)} {text : String}
    (last : (pieces.filterMap Path.component?).getLast? = some (.name text))
    (followed : root.follow here pieces = some place) : place.getLast? = some text := by
  induction pieces generalizing here with
  | nil => cases last
  | cons piece rest inductionHypothesis =>
    obtain ⟨_, followed⟩ := follow_cons.mp followed
    cases later : (rest.filterMap Path.component?).getLast? with
    | none =>
      have blank := List.getLast?_eq_none_iff.mp later
      cases step : Path.component? piece with
      | none => simp [step, blank] at last
      | some component =>
        have isName : component = .name text := by simpa [step, blank] using last
        rw [step, isName] at followed
        rw [follow_blank blank followed]
        exact List.getLast?_concat
    | some component =>
      cases (getLast?_steps later piece).symm.trans last
      exact inductionHypothesis later followed

theorem exists_name_of_follow {root : FileNode} {here place : List String}
    {pieces : List (List Char)} {content : FileContent} (notNil : pieces ≠ [])
    (followed : root.follow here pieces = some place)
    (isFile : root.descend place = some (file content)) :
    ∃ text, (pieces.filterMap Path.component?).getLast? = some (.name text) := by
  induction pieces generalizing here with
  | nil => exact absurd rfl notNil
  | cons piece rest inductionHypothesis =>
    obtain ⟨isDirectory, followed⟩ := follow_cons.mp followed
    by_cases isLast : rest = []
    · subst isLast
      cases followed
      cases step : Path.component? piece with
      | none =>
        rw [step] at isFile
        exact absurd isDirectory (not_isDirectoryAt_file isFile)
      | some component =>
        rw [step] at isFile
        cases component with
        | name text => exact ⟨text, by simp [step]⟩
        | parent => exact absurd (isDirectoryAt_dropLast isDirectory) (not_isDirectoryAt_file isFile)
        | root | current => exact absurd isDirectory (not_isDirectoryAt_file isFile)
    · obtain ⟨text, later⟩ := inductionHypothesis isLast followed
      exact ⟨text, getLast?_steps later piece⟩

/-! ### Descending -/

/-- All entries have names that paths can be made of. -/
inductive WellNamed : FileNode → Prop
  | file {content : FileContent} : WellNamed (file content)
  | directory {entries : List DirectoryEntry}
    (named : ∀ entry ∈ entries, Path.IsName entry.name)
    (below : ∀ entry ∈ entries, WellNamed entry.node) : WellNamed (directory entries)

/-- Descending from the node at a place through directories that are not passed over, by way of
`names`, leads to another node. -/
inductive Reaches : (place : List String) → FileNode → (names : List String) → FileNode → Prop
  | here {place : List String} {node : FileNode} : Reaches place node [] node
  | enter {place names : List String} {entries : List DirectoryEntry} {entry : DirectoryEntry}
    {final : FileNode} (visible : ¬ Hidden place) (member : entry ∈ entries)
    (further : Reaches (place ++ [entry.name]) entry.node names final) :
    Reaches place (directory entries) (entry.name :: names) final

/-- No directory that is reached from the node lies at a path that is too long. -/
def Walkable (path : String) (place : List String) (node : FileNode) : Prop :=
  ∀ names entries, Reaches place node names (directory entries) →
    Path.isTooLong (names.foldl Path.join path) = false

theorem walkable_file {path : String} {place : List String} {content : FileContent} :
    Walkable path place (file content) := by
  rintro _ _ ⟨⟩

theorem walkable_directory {path : String} {place : List String} {entries : List DirectoryEntry}
    (fits : Path.isTooLong path = false)
    (below : ∀ entry ∈ entries,
      Walkable (Path.join path entry.name) (place ++ [entry.name]) entry.node) :
    Walkable path place (directory entries) := by
  intro names inner reaches
  cases reaches with
  | here => exact fits
  | enter _ member further => exact below _ member _ inner further

theorem WellNamed.descend {node final : FileNode} {names : List String} (wellNamed : node.WellNamed)
    (found : node.descend names = some final) : final.WellNamed := by
  fun_induction FileNode.descend node names with
  | case1 => cases found; exact wellNamed
  | case2 => cases found
  | case3 entries name names inductionHypothesis =>
    obtain ⟨child, isChild, found⟩ := Option.bind_eq_some_iff.mp found
    obtain ⟨entry, isEntry, rfl⟩ := Option.map_eq_some_iff.mp isChild
    cases wellNamed with
    | directory _ below =>
      exact inductionHypothesis _ (below entry (List.mem_of_find?_eq_some isEntry)) found

theorem Reaches.areNames {place names : List String} {node final : FileNode}
    (reaches : Reaches place node names final) (wellNamed : node.WellNamed) :
    ∀ name ∈ names, Path.IsName name := by
  induction reaches with
  | here => exact List.forall_mem_nil _
  | enter _ member _ inductionHypothesis =>
    cases wellNamed with
    | directory named below =>
      exact List.forall_mem_cons.mpr ⟨named _ member, inductionHypothesis (below _ member)⟩

theorem sourcesOf_eq (path : String) (entries : List DirectoryEntry) :
    sourcesOf path entries =
      entries.flatMap fun entry => entry.node.sourcesBelow (Path.join path entry.name) := by
  induction entries with
  | nil => rfl
  | cons first rest inductionHypothesis =>
    obtain ⟨name, node⟩ := first
    rw [sourcesOf, inductionHypothesis]
    rfl

/-- The path shows of the node at a place what a walk reads off it: whether a directory is passed
over, and the name of a file. -/
structure Spells (path : String) (place : List String) (node : FileNode) : Prop where
  passedOver : isPassedOver path = true ↔ Hidden place
  fileName : ∀ content, node = file content → Path.fileName? path = place.getLast?

theorem spells_join (path : String) {place : List String} {node : FileNode} {name : String}
    (isName : Path.IsName name) : Spells (Path.join path name) (place ++ [name]) node where
  passedOver := by rw [isPassedOver_iff, Path.fileName?_join path isName, Hidden,
    List.getLast?_concat]
  fileName _ _ := by rw [Path.fileName?_join path isName, List.getLast?_concat]

theorem mem_sourcesBelow {path found : String} {place : List String} : (node : FileNode) →
    node.WellNamed → Spells path place node → Walkable path place node →
    (found ∈ node.sourcesBelow path ↔ ∃ names content, Reaches place node names (file content) ∧
      found = names.foldl Path.join path ∧
      ∃ name, (place ++ names).getLast? = some name ∧ SourceName name)
  | file content, _, spells, _ => by
    have isSource : isSourcePath path = true ↔ ∃ name, place.getLast? = some name ∧
        SourceName name := by
      rw [isSourcePath_iff, spells.fileName content rfl]
    rw [sourcesBelow]
    constructor
    · intro member
      split at member
      · rename_i source
        cases List.mem_singleton.mp member
        exact ⟨[], content, .here, rfl, by simpa using isSource.mp source⟩
      · cases member
    · rintro ⟨_, _, ⟨⟩, isFound, source⟩
      rw [if_pos (isSource.mpr (by simpa using source))]
      exact List.mem_singleton.mpr isFound
  | directory entries, wellNamed, spells, walkable => by
    have fits := walkable [] entries .here
    rw [List.foldl_nil] at fits
    rw [sourcesBelow, if_neg (by simp [fits])]
    by_cases hidden : isPassedOver path = true
    · rw [if_pos hidden]
      refine iff_of_false List.not_mem_nil ?_
      rintro ⟨_, _, reaches, _⟩
      cases reaches with
      | enter visible => exact visible (spells.passedOver.mp hidden)
    · have visible := mt spells.passedOver.mpr hidden
      obtain ⟨named, belowNamed⟩ : (∀ entry ∈ entries, Path.IsName entry.name) ∧
          ∀ entry ∈ entries, entry.node.WellNamed := by
        cases wellNamed with
        | directory named below => exact ⟨named, below⟩
      rw [if_neg hidden, sourcesOf_eq, List.mem_flatMap]
      have below {entry : DirectoryEntry} (member : entry ∈ entries) :=
        @mem_sourcesBelow (Path.join path entry.name) found (place ++ [entry.name]) entry.node
          (belowNamed entry member) (spells_join path (named entry member))
          fun names inner reaches => walkable _ inner (.enter visible member reaches)
      constructor
      · rintro ⟨entry, member, isBelow⟩
        obtain ⟨names, content, reaches, rfl, source⟩ := (below member).mp isBelow
        exact ⟨entry.name :: names, content, .enter visible member reaches, rfl,
          by simpa using source⟩
      · rintro ⟨_, content, reaches, isFound, source⟩
        cases reaches with
        | @enter _ names _ entry _ _ member further =>
          exact ⟨entry, member, (below member).mpr
            ⟨names, content, further, isFound, by simpa using source⟩⟩
termination_by node => node
decreasing_by
  have smaller := List.sizeOf_lt_of_mem member
  cases entry
  simp only [DirectoryEntry.mk.sizeOf_spec, directory.sizeOf_spec, DirectoryEntry.node] at smaller ⊢
  omega

end FileNode

namespace FileTree

/-- The path leads to a file that is reached from the input and has the name of a source file. -/
def Yields (tree : FileTree) (input path : String) : Prop :=
  ∃ place node names content, tree.locate input = some place ∧
    tree.root.descend place = some node ∧ FileNode.Reaches place node names (.file content) ∧
    path = names.foldl Path.join input ∧
    ∃ name, (place ++ names).getLast? = some name ∧ SourceName name

/-- No directory that is reached from the input lies at a path that is too long. -/
def Walkable (tree : FileTree) (input : String) : Prop :=
  ∀ place node, tree.locate input = some place → tree.root.descend place = some node →
    node.Walkable input place

/-- If the input leads to a directory that is to be passed over, then the input ends in its name. -/
def SpellsHidden (tree : FileTree) (input : String) : Prop :=
  ∀ place, tree.locate input = some place → Hidden place → Path.fileName? input = place.getLast?

variable {tree : FileTree} {input path : String} {place : List String} {node : FileNode}

theorem locate_eq_some : tree.locate input = some place ↔
    input.toList ≠ [] ∧ Path.isUsable input = true ∧
      tree.root.follow (if (Path.splitSlashes input.toList).head? = some [] then [] else tree.here)
        (Path.splitSlashes input.toList) = some place := by
  unfold locate pieces?
  cases empty : input.isEmpty <;> cases usable : Path.isUsable input <;>
    simp_all [String.isEmpty_iff]

theorem getLast?_of_fileName? {name : String} (isAt : tree.locate input = some place)
    (named : Path.fileName? input = some name) : place.getLast? = some name := by
  obtain ⟨notEmpty, _, followed⟩ := locate_eq_some.mp isAt
  exact FileNode.getLast?_of_follow ((Path.fileName?_eq_some notEmpty).mp named) followed

theorem spells_input (isAt : tree.locate input = some place)
    (found : tree.root.descend place = some node) (spelled : tree.SpellsHidden input) :
    FileNode.Spells input place node where
  passedOver := by
    rw [isPassedOver_iff]
    constructor
    · exact Or.imp (getLast?_of_fileName? isAt) (getLast?_of_fileName? isAt)
    · intro hidden
      rw [spelled place isAt hidden]
      exact hidden
  fileName content isFile := by
    obtain ⟨notEmpty, _, followed⟩ := locate_eq_some.mp isAt
    obtain ⟨text, last⟩ := FileNode.exists_name_of_follow (Path.splitSlashes_ne_nil _) followed
      (isFile ▸ found)
    have named := (Path.fileName?_eq_some notEmpty).mpr last
    rw [named, getLast?_of_fileName? isAt named]

theorem mem_collectInput (wellNamed : tree.root.WellNamed) (spelled : tree.SpellsHidden input)
    (walkable : tree.Walkable input) :
    path ∈ (tree.collectInput input).1 ↔ tree.Yields input path := by
  unfold collectInput Yields at?
  cases isAt : tree.locate input with
  | none => simp
  | some place =>
    rw [Option.bind_eq_bind, Option.bind_some]
    cases found : tree.root.descend place with
    | none => simp [found]
    | some node =>
      have below := @FileNode.mem_sourcesBelow input path place node (wellNamed.descend found)
        (spells_input isAt found spelled) (walkable place node isAt found)
      simp only [Option.some.injEq, exists_and_left, exists_eq_left', found] at below ⊢
      rw [← below]
      cases node with
      | directory => exact List.mem_mergeSort
      | file => rw [FileNode.sourcesBelow]; dsimp only; split <;> rfl

theorem pairwise_collectInput (tree : FileTree) (input : String) :
    (tree.collectInput input).1.Pairwise fun first second => Path.le first second = true := by
  unfold collectInput
  split
  · exact .nil
  · exact Path.pairwise_mergeSort_le _
  · split
    · exact List.pairwise_singleton _ _
    · exact .nil

theorem Yields.path_unique (wellNamed : tree.root.WellNamed) {first second : String}
    (yields : tree.Yields input first) (yieldsToo : tree.Yields input second)
    (same : Path.components first = Path.components second) : first = second := by
  obtain ⟨place, node, names, _, isAt, found, reaches, rfl, _⟩ := yields
  obtain ⟨_, _, others, _, isAtToo, foundToo, reachesToo, rfl, _⟩ := yieldsToo
  cases isAt.symm.trans isAtToo
  cases found.symm.trans foundToo
  have below := wellNamed.descend found
  rw [Path.components_foldl_join (reaches.areNames below),
    Path.components_foldl_join (reachesToo.areNames below), List.append_cancel_left_eq] at same
  cases List.map_injective_iff.mpr (fun _ _ => Path.Component.name.inj) same
  rfl

end FileTree

open Classical in
/-- Inputs stand for the files with a source extension that are reached from them, each once. Files
come in the order of the first inputs that yield them, and those of one input by their steps. -/
theorem collect_exact (tree : FileTree) (inputs : List String) (wellNamed : tree.root.WellNamed)
    (spelled : ∀ input ∈ inputs, tree.SpellsHidden input)
    (walkable : ∀ input ∈ inputs, tree.Walkable input) :
    (tree.collect inputs).Nodup ∧
    (∀ path, path ∈ tree.collect inputs ↔ ∃ input ∈ inputs, tree.Yields input path) ∧
    (tree.collect inputs).Pairwise fun first second =>
      inputs.findIdx (tree.Yields · first) < inputs.findIdx (tree.Yields · second) ∨
        inputs.findIdx (tree.Yields · first) = inputs.findIdx (tree.Yields · second) ∧
          Path.order first < Path.order second := by
  have yields {input path : String} (member : input ∈ inputs) :
      path ∈ (tree.collectInput input).1 ↔ tree.Yields input path :=
    FileTree.mem_collectInput wellNamed (spelled input member) (walkable input member)
  refine ⟨nodup_distinct _, fun path => ?_, ?_⟩
  · rw [FileTree.collect, mem_distinct, List.mem_flatMap]
    exact exists_congr fun input => and_congr_right yields
  · have ordered (input : String) (isInput : input ∈ inputs) :
        (tree.collectInput input).1.Pairwise fun first second =>
          first ≠ second → Path.order first < Path.order second := by
      refine tree.pairwise_collectInput input |>.imp_of_mem fun first second inOrder apart => ?_
      rw [yields isInput] at first second
      refine lt_of_le_of_ne (Path.le_iff.mp inOrder) fun same => apart ?_
      exact first.path_unique wellNamed second (Path.components_eq_of_order same)
    have sorted := pairwise_distinct_flatMap (fun input => (tree.collectInput input).1)
      (fun input path => tree.Yields input path)
      (fun input isInput path => (yields isInput).trans decide_eq_true_iff.symm) ordered
    refine (sorted.and (nodup_distinct _)).imp ?_
    rintro first second ⟨isBefore, apart⟩
    exact isBefore.imp_right (And.imp_right (· apart))

def nestedTree : FileTree where
  root := .directory [.mk "d" (.directory [.mk "b.js" (.file default),
    .mk "a" (.directory [.mk "c.TS" (.file default)])])]
  here := ["d"]

/-- From the root, a file in an inner directory is found, with its extension in capitals. -/
theorem collect_exact_nested : nestedTree.root.WellNamed ∧
    (∀ input ∈ ["/d"], nestedTree.SpellsHidden input) ∧
    (∀ input ∈ ["/d"], nestedTree.Walkable input) ∧
    "/d/a/c.TS" ∈ nestedTree.collect ["/d"] := by
  have wellNamed : nestedTree.root.WellNamed := by
    refine .directory (by decide +kernel)
      (List.forall_mem_singleton.mpr (.directory (by decide +kernel) ?_))
    exact List.forall_mem_cons.mpr ⟨.file, List.forall_mem_singleton.mpr
      (.directory (by decide +kernel) (List.forall_mem_singleton.mpr .file))⟩
  have isAt : nestedTree.locate "/d" = some ["d"] := by decide +kernel
  have spelled : ∀ input ∈ ["/d"], nestedTree.SpellsHidden input := by
    refine List.forall_mem_singleton.mpr fun place found => ?_
    cases isAt.symm.trans found
    exact fun _ => by decide +kernel
  have walkable : ∀ input ∈ ["/d"], nestedTree.Walkable input := by
    refine List.forall_mem_singleton.mpr fun place node isAtPlace found => ?_
    cases isAt.symm.trans isAtPlace
    cases found
    refine FileNode.walkable_directory (by decide +kernel) (List.forall_mem_cons.mpr
      ⟨FileNode.walkable_file, List.forall_mem_singleton.mpr ?_⟩)
    exact FileNode.walkable_directory (by decide +kernel)
      (List.forall_mem_singleton.mpr FileNode.walkable_file)
  refine ⟨wellNamed, spelled, walkable,
    ((collect_exact nestedTree ["/d"] wellNamed spelled walkable).2.1 _).mpr ?_⟩
  refine ⟨"/d", List.mem_singleton_self _, ["d"], _, ["a", "c.TS"], default, isAt, rfl, ?_,
    by decide +kernel, "c.TS", rfl, ['c'], "TS", by decide +kernel⟩
  refine .enter (by simp [Hidden]) (List.mem_cons_of_mem _ (List.mem_singleton_self _)) ?_
  exact .enter (by simp [Hidden, DirectoryEntry.name]) (List.mem_singleton_self _) .here

def vendored : FileTree where
  root := .directory [.mk "node_modules"
    (.directory [.mk "dep" (.directory [.mk "index.js" (.file default)])])]
  here := []

/-- An input that leads to a directory to be passed over, by a step back from one of its entries,
stands for no file, and yet a file is collected. -/
theorem parent_step_collected : vendored.root.WellNamed ∧
    vendored.Walkable "node_modules/dep/.." ∧
    vendored.locate "node_modules/dep/.." = some ["node_modules"] ∧
    (∀ path, ¬ vendored.Yields "node_modules/dep/.." path) ∧
    vendored.collect ["node_modules/dep/.."] = ["node_modules/dep/../dep/index.js"] := by
  have isAt : vendored.locate "node_modules/dep/.." = some ["node_modules"] := by decide +kernel
  have isHidden : Hidden ["node_modules"] := .inl rfl
  have wellNamed : vendored.root.WellNamed := by
    refine .directory (by decide +kernel) (List.forall_mem_singleton.mpr (.directory
      (by decide +kernel) (List.forall_mem_singleton.mpr ?_)))
    exact .directory (by decide +kernel) (List.forall_mem_singleton.mpr .file)
  refine ⟨wellNamed, ?_, isAt, ?_, ?_⟩
  · intro place node isAtPlace found
    cases isAt.symm.trans isAtPlace
    cases found
    rintro _ _ (_ | visible)
    · decide +kernel
    · exact absurd isHidden visible
  · rintro path ⟨place, node, names, content, isAtPlace, found, reaches, _⟩
    cases isAt.symm.trans isAtPlace
    cases found
    cases reaches with
    | enter visible => exact visible isHidden
  · have below : FileNode.sourcesBelow "node_modules/dep/.."
        (.directory [.mk "dep" (.directory [.mk "index.js" (.file default)])]) =
          ["node_modules/dep/../dep/index.js"] := by
      decide +kernel
    have isTree : vendored.at? "node_modules/dep/.." =
        some (.directory [.mk "dep" (.directory [.mk "index.js" (.file default)])]) := by
      rw [FileTree.at?, isAt]
      rfl
    simp [FileTree.collect, FileTree.collectInput, isTree, below, distinct]

end FunctionFlow
