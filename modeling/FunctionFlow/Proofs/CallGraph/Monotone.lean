import FunctionFlow.Proofs.Analysis.Embedding
import FunctionFlow.Proofs.CallGraph.Records
import FunctionFlow.Proofs.Lowering.Files

/-!
Contract: more files and more built-in functions take nothing away from a call graph.
-/

namespace FunctionFlow

/-! ### Shared slots of a program in front -/

namespace Program

theorem part_append (base later : Program) : base.Part .refl (base.append later) where
  embeds := embeds_append base later
  injective _ := Function.injective_id
  inner {scope} below isInner id definition found := by
    rcases Table.append_cases found with ⟨_, inBase⟩ | ⟨position, _, inLater⟩
    · exact isInner id definition inBase
    · rw [Array.getElem?_map] at inLater
      obtain ⟨_, _, rfl⟩ := Option.map_eq_some_iff.mp inLater
      exact Nat.ne_of_gt (Nat.lt_of_lt_of_le below (Nat.le_add_right _ _))

theorem part_append_right {base : Program} (inRange : base.InRange) (later : Program) :
    later.Part base.offset (base.append later) where
  embeds := embeds_append_right base later
  injective kind _ _ same := Nat.add_left_cancel same
  inner {scope} _ isInner id definition found := by
    rcases Table.append_cases found with ⟨_, inBase⟩ | ⟨position, _, inLater⟩
    · have below := (inRange.functions definition (Array.mem_of_getElem? inBase)).scope
      exact Nat.ne_of_lt (Nat.lt_of_lt_of_le below (Nat.le_add_right _ _))
    · rw [Array.getElem?_map] at inLater
      obtain ⟨laterDefinition, isLater, rfl⟩ := Option.map_eq_some_iff.mp inLater
      exact fun same => isInner position laterDefinition isLater (Nat.add_left_cancel same)

variable {base later : Program} (formed : base.WellFormed) (laterFormed : later.WellFormed)
  (wholeFormed : (base.append later).WellFormed)
include formed laterFormed wholeFormed

/-- A slot of the program in front that is foreign to some body is foreign to a body of that
program: the ids of what other bodies read are too large. -/
theorem foreignSlot_append {owner : Option FunctionId} {expr : Expr} {vertex : Vertex}
    (has : (base.append later).BodyHas owner expr)
    (answered : (base.append later).foreignSlot owner expr = .ok (some vertex))
    (inRange : vertex.InRange base.sizes) (notNamed : ∀ name, vertex ≠ .named name) :
    base.BodyHas owner expr ∧ base.foreignSlot owner expr = .ok (some vertex) := by
  rcases bodyHas_append has with inBase | ⟨laterOwner, laterExpr, inLater, rfl, rfl⟩
  · have head := formed.inRange.head (mem_exprs.mpr ⟨owner, inBase⟩)
    obtain ⟨answer, baseAnswered⟩ :=
      formed.inRange.foreignSlot_ok formed.wellScoped.parents owner head
    have same := (part_append base later).foreignSlot formed wholeFormed head baseAnswered
    have sameOwner : owner.map (Renaming.refl .function) = owner := Option.map_id'
    rw [sameOwner, Expr.rename_refl] at same
    have sameAnswer := Except.ok.inj (answered.symm.trans same)
    cases answer with
    | none => cases sameAnswer
    | some found =>
      rw [Option.map_some, Vertex.rename_refl] at sameAnswer
      exact ⟨inBase, sameAnswer ▸ baseAnswered⟩
  · exfalso
    have head := laterFormed.inRange.head (mem_exprs.mpr ⟨laterOwner, inLater⟩)
    obtain ⟨answer, laterAnswered⟩ :=
      laterFormed.inRange.foreignSlot_ok laterFormed.wellScoped.parents laterOwner head
    have moved := (part_append_right formed.inRange later).foreignSlot laterFormed wholeFormed head
      laterAnswered
    cases answer with
    | none => cases answered.symm.trans moved
    | some found =>
      cases answered.symm.trans moved
      rcases laterFormed.inRange.foreignSlot_cases laterAnswered with
        ⟨name, rfl⟩ | ⟨decl, rfl⟩ | ⟨function, index, rfl⟩
      · exact notNamed name rfl
      · exact Nat.not_lt_of_le (Nat.le_add_right _ _) inRange
      · exact Nat.not_lt_of_le (Nat.le_add_right _ _) inRange

theorem append_sharesAlike : base.SharesAlike .refl (base.append later) := by
  refine fun inRange notNamed => ⟨(part_append base later).foreign formed wholeFormed, ?_⟩
  rintro ⟨owner, expr, has, answered⟩
  rw [Vertex.rename_refl] at answered
  exact ⟨owner, expr, foreignSlot_append formed laterFormed wholeFormed has answered inRange
    notNamed⟩

end Program

/-! ### Analyses that keep all pairs -/

/-- The analysis ends for every well-formed program, and keeps its pairs when code is added behind the
program and entries are added to the table of built-in functions. -/
structure Analysis.Monotone (analyse : Program → NativeTable → Checked Analysis) : Prop where
  ends : ∀ {program : Program} (natives : NativeTable), program.WellFormed →
    ∃ analysis, analyse program natives = .ok analysis
  keeps : ∀ {base later : Program} {natives more : NativeTable} {analysis wholeAnalysis : Analysis},
    base.WellFormed → later.WellFormed → (base.append later).WellFormed →
    natives.entries ⊆ more.entries → analyse base natives = .ok analysis →
    analyse (base.append later) more = .ok wholeAnalysis →
    analysis.callGraph.Embeds .refl wholeAnalysis.callGraph

namespace Analysis

theorem direct_monotone : Monotone direct where
  ends natives formed := (direct_within formed.inRange natives).imp fun _ ran => ran.1
  keeps {base later _ _ _ _} formed _ wholeFormed _ ran ranWhole :=
    direct_embeds (Program.embeds_append base later) formed.inRange wholeFormed.inRange ran ranWhole

theorem oneShot_monotone : Monotone oneShot where
  ends natives formed := (oneShot_within formed.inRange natives).imp fun _ ran => ran.1
  keeps {base later _ _ _ _} formed _ wholeFormed included ran ranWhole :=
    oneShot_embeds (Program.embeds_append base later) formed.inRange wholeFormed.inRange
      (Program.part_append base later).injective included ran ranWhole

theorem demand_monotone (depth : Nat) : Monotone (demand · · depth) where
  ends natives formed := (demand_within formed natives depth).imp fun _ ran => ran.1
  keeps {base later _ _ _ _} formed laterFormed wholeFormed included ran ranWhole :=
    demand_embeds_of_shared (Program.embeds_append base later) formed.inRange wholeFormed.inRange
      (Program.part_append base later).injective included
      (Program.append_sharesAlike formed laterFormed wholeFormed) ran ranWhole

theorem Monotone.reporting {analyse : Program → NativeTable → Checked Analysis}
    (monotone : Monotone analyse) (events : List Event) :
    Monotone fun program natives => do
      let analysis ← analyse program natives
      return { analysis with events := events ++ analysis.events } where
  ends natives formed := by
    obtain ⟨analysis, ran⟩ := monotone.ends natives formed
    refine ⟨{ analysis with events := events ++ analysis.events }, ?_⟩
    rw [ran]
    rfl
  keeps formed laterFormed wholeFormed included ran ranWhole := by
    obtain ⟨analysis, ranFirst, same⟩ := Checked.bind_eq_ok.mp ran
    obtain ⟨wholeAnalysis, ranSecond, sameWhole⟩ := Checked.bind_eq_ok.mp ranWhole
    cases same
    cases sameWhole
    have kept := monotone.keeps formed laterFormed wholeFormed included ranFirst ranSecond
    exact kept

theorem ofStrategy_monotone (strategy : Strategy) : Monotone (ofStrategy · · strategy) := by
  cases strategy with
  | direct => exact direct_monotone.reporting _
  | oneShot => exact oneShot_monotone.reporting _
  | demand | full => exact (demand_monotone standardDepth).reporting _

/-- Both analyses end, and the pairs of the first one are pairs of the second one. -/
def KeepsPairs (run wholeRun : Checked Analysis) : Prop :=
  ∃ analysis wholeAnalysis, run = .ok analysis ∧ wholeRun = .ok wholeAnalysis ∧
    analysis.callGraph.pairs ⊆ wholeAnalysis.callGraph.pairs

theorem Monotone.keepsPairs {analyse : Program → NativeTable → Checked Analysis}
    (monotone : Monotone analyse) {base later : Program} (formed : base.WellFormed)
    (laterFormed : later.WellFormed) (wholeFormed : (base.append later).WellFormed)
    {natives more : NativeTable} (included : natives.entries ⊆ more.entries) :
    KeepsPairs (analyse base natives) (analyse (base.append later) more) := by
  obtain ⟨analysis, ran⟩ := monotone.ends natives formed
  obtain ⟨wholeAnalysis, ranWhole⟩ := monotone.ends more wholeFormed
  exact ⟨analysis, wholeAnalysis, ran, ranWhole, fun _ member =>
    (monotone.keeps formed laterFormed wholeFormed included ran ranWhole).mem_of_refl member⟩

end Analysis

/-- Further files and further built-in functions take no pair away. Either a tree does not fit its
text, and the longer list of files cannot be read; or both lists can, and under each strategy and at
every depth all pairs for the files are pairs for the files with further ones behind them, with the
same ids. -/
theorem pairs_monotone (files further : List SourceFile) {natives more : NativeTable}
    (included : natives.entries ⊆ more.entries) :
    ((∃ file ∈ files ++ further, ¬ file.Fits) ∧
        ∃ failure, Program.ofSources (files ++ further) = .error failure) ∨
      ∃ parsed whole, Program.ofSources files = .ok parsed ∧
        Program.ofSources (files ++ further) = .ok whole ∧
        (∀ strategy, Analysis.KeepsPairs (Analysis.ofStrategy parsed.program natives strategy)
          (Analysis.ofStrategy whole.program more strategy)) ∧
        ∀ depth, Analysis.KeepsPairs (Analysis.demand parsed.program natives depth)
          (Analysis.demand whole.program more depth) := by
  cases made : Program.ofFiles? (files ++ further) with
  | none =>
    refine .inl ⟨?_, Program.ofFiles?_eq_none.mp made⟩
    by_contra noneUnfit
    have allFit : ∀ file ∈ files ++ further, file.Fits := by
      intro file member
      by_contra unfit
      exact noneUnfit ⟨file, member, unfit⟩
    obtain ⟨parsed, isParsed⟩ := Program.ofSources_ok allFit
    simp [Program.ofFiles?_eq_some.mpr ⟨parsed, isParsed, rfl⟩] at made
  | some program =>
    have together := made
    rw [Program.ofFiles?_append] at together
    obtain ⟨base, madeBase, together⟩ := Option.bind_eq_some_iff.mp together
    obtain ⟨later, madeLater, isProgram⟩ := Option.map_eq_some_iff.mp together
    obtain ⟨parsed, isParsed, rfl⟩ := Program.ofFiles?_eq_some.mp madeBase
    obtain ⟨parsedLater, isParsedLater, rfl⟩ := Program.ofFiles?_eq_some.mp madeLater
    obtain ⟨whole, isWhole, rfl⟩ := Program.ofFiles?_eq_some.mp made
    have formed := (Program.ofSources_formed isParsed).1
    have laterFormed := (Program.ofSources_formed isParsedLater).1
    have wholeFormed := (Program.ofSources_formed isWhole).1
    rw [← isProgram] at wholeFormed
    refine .inr ⟨parsed, whole, isParsed, isWhole, fun strategy => ?_, fun depth => ?_⟩
    · rw [← isProgram]
      exact (Analysis.ofStrategy_monotone strategy).keepsPairs formed laterFormed wholeFormed
        included
    · rw [← isProgram]
      exact (Analysis.demand_monotone depth).keepsPairs formed laterFormed wholeFormed included

/-- The call of a file is still resolved when the file is read once more and there is a built-in
function. -/
theorem pairs_monotone_calledByName :
    (NameTable.empty : NativeTable).entries ⊆
        ((NameTable.empty : NativeTable).insert "alert" "alert").entries ∧
      ∃ parsed whole analysis wholeAnalysis,
        Program.ofSources [calledByName] = .ok parsed ∧
        Program.ofSources ([calledByName] ++ [calledByName]) = .ok whole ∧
        Analysis.ofStrategy parsed.program .empty .direct = .ok analysis ∧
        Analysis.ofStrategy whole.program (.insert .empty "alert" "alert") .direct =
          .ok wholeAnalysis ∧
        analysis.callGraph.pairs = [(.callee 0, .function 1)] ∧
        (.callee 0, .function 1) ∈ wholeAnalysis.callGraph.pairs := by
  have included : (NameTable.empty : NativeTable).entries ⊆
      ((NameTable.empty : NativeTable).insert "alert" "alert").entries := List.nil_subset _
  have allFit : ∀ file ∈ [calledByName] ++ [calledByName], file.Fits := by decide +kernel
  have pairs : (Program.ofSources [calledByName]).toOption.bind (fun parsed =>
      (Analysis.ofStrategy parsed.program .empty .direct).toOption.map (·.callGraph.pairs)) =
      some [(.callee 0, .function 1)] := by decide +kernel
  obtain ⟨⟨file, member, unfit⟩, _⟩ | ⟨parsed, whole, made, madeWhole, strategies, _⟩ :=
    pairs_monotone [calledByName] [calledByName] included
  · exact absurd (allFit file member) unfit
  obtain ⟨analysis, wholeAnalysis, ran, ranWhole, kept⟩ := strategies .direct
  simp only [made, ran, Except.toOption, Option.bind_some, Option.map_some, Option.some.injEq]
    at pairs
  exact ⟨included, parsed, whole, analysis, wholeAnalysis, made, madeWhole, ran, ranWhole, pairs,
    kept (pairs ▸ List.mem_singleton_self _)⟩

end FunctionFlow
