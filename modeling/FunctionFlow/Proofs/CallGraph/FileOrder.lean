import FunctionFlow.Proofs.Analysis.Embedding
import FunctionFlow.Proofs.CallGraph.Records
import FunctionFlow.Proofs.Lowering.Files

/-!
Contract: the records of a list of files do not depend on the order of the files.
-/

namespace FunctionFlow

/-! ### Records without ids -/

namespace Program.Embeds

variable {program whole : Program} {ids : Renaming} (embeds : program.Embeds ids whole)
  (inRange : program.InRange)
include embeds

theorem file {file : FileId} (below : file < program.files.size) :
    whole.file (ids .file file) = program.file file := by
  obtain ⟨path, isPath, opened⟩ := InRange.file_of_lt below
  exact (fetch_eq_ok.mpr (embeds.files file path isPath)).trans opened.symm

include inRange

theorem enclosingName {enclosing : Option FunctionId}
    (within : ∀ id ∈ enclosing, id < program.functions.size) :
    whole.enclosingName (enclosing.map (ids .function)) = program.enclosingName enclosing := by
  cases enclosing with
  | none => rfl
  | some id =>
    obtain ⟨definition, isEntry, found, _⟩ := inRange.function_of_lt (within id rfl)
    have foundWhole : whole.function (ids .function id) = .ok (definition.rename ids) :=
      fetch_eq_ok.mpr (embeds.functions id definition isEntry)
    rw [Option.map_some, Program.enclosingName, Program.enclosingName, found, foundWhole]
    rfl

theorem ofSource {call : CallId} (below : call < program.calls.size) :
    Endpoint.ofSource whole (.callee (ids .call call)) =
      Endpoint.ofSource program (.callee call) := by
  obtain ⟨site, isEntry, found, siteInRange⟩ := inRange.call_of_lt below
  have foundWhole : whole.call (ids .call call) = .ok (site.rename ids) :=
    fetch_eq_ok.mpr (embeds.calls call site isEntry)
  rw [Endpoint.ofSource, Endpoint.ofSource, lift_bind found, lift_bind foundWhole]
  simp only [CallSite.rename, embeds.enclosingName inRange siteInRange.enclosing,
    embeds.file siteInRange.file]

theorem ofTarget {value : Vertex} (isValue : value.isValue = true)
    (within : value.InRange program.sizes) :
    Endpoint.ofTarget whole (value.rename ids) = Endpoint.ofTarget program value := by
  cases value with
  | function id =>
    obtain ⟨definition, isEntry, found, isInRange⟩ := inRange.function_of_lt within
    have foundWhole : whole.function (ids .function id) = .ok (definition.rename ids) :=
      fetch_eq_ok.mpr (embeds.functions id definition isEntry)
    rw [Vertex.rename, Endpoint.ofTarget, Endpoint.ofTarget, lift_bind found, lift_bind foundWhole]
    simp only [FunctionDef.rename, embeds.file isInRange.file]
    rfl
  | native name => rfl
  | callee | slot => cases isValue

theorem ofPair {analysis : Analysis} (within : analysis.Within program) {pair : Vertex × Vertex}
    (member : pair ∈ analysis.callGraph.pairs) :
    BindingRecord.ofPair whole (pair.map (Vertex.rename ids) (Vertex.rename ids)) =
      BindingRecord.ofPair program pair := by
  obtain ⟨source, target⟩ := pair
  obtain ⟨call, below, rfl, isValue, isInRange⟩ := within.pairs _ member
  simp only [BindingRecord.ofPair, Prod.map_fst, Prod.map_snd,
    embeds.ofTarget inRange isValue isInRange, ← embeds.ofSource inRange below]
  rfl

end Program.Embeds

/-! ### Analyses without ids -/

/-- The analysis ends for every well-formed program, and finds the same pairs, under other ids, in
programs that differ in their ids only. -/
structure Analysis.IdFree (analyse : Program → Checked Analysis) : Prop where
  ends : ∀ program : Program, program.WellFormed → ∃ analysis, analyse program = .ok analysis ∧
    analysis.Within program ∧ analysis.callGraph.Increasing
  embeds : ∀ {program other : Program} {ids back : Renaming} {analysis otherAnalysis : Analysis},
    program.Alike ids back other → program.WellFormed → other.WellFormed →
    analyse program = .ok analysis → analyse other = .ok otherAnalysis →
    analysis.callGraph.Embeds ids otherAnalysis.callGraph

namespace Analysis

variable {analyse : Program → Checked Analysis}

theorem direct_idFree (natives : NativeTable) : IdFree (direct · natives) where
  ends program formed := by
    obtain ⟨analysis, ran, within⟩ := direct_within formed.inRange natives
    obtain ⟨_, ranToo, increasing, _⟩ := direct_grown formed.inRange.tellsDirect natives
    cases ran.symm.trans ranToo
    exact ⟨analysis, ran, within, increasing⟩
  embeds alike formed otherFormed ran ranOther :=
    direct_embeds alike.embeds formed.inRange otherFormed.inRange ran ranOther

theorem oneShot_idFree (natives : NativeTable) : IdFree (oneShot · natives) where
  ends program formed := by
    obtain ⟨analysis, ran, within⟩ := oneShot_within formed.inRange natives
    obtain ⟨_, _, _, _, _, _, _, ranToo, _, increasing, _⟩ := oneShot_solved formed.inRange natives
    cases ran.symm.trans ranToo
    exact ⟨analysis, ran, within, increasing⟩
  embeds alike formed otherFormed ran ranOther :=
    oneShot_embeds alike.embeds formed.inRange otherFormed.inRange alike.injective
      (List.Subset.refl _) ran ranOther

theorem demand_idFree (natives : NativeTable) (depth : Nat) :
    IdFree (demand · natives depth) where
  ends program formed := by
    obtain ⟨analysis, ran, within⟩ := demand_within formed natives depth
    obtain ⟨_, _, _, _, _, _, run⟩ := demandRun_of_demand formed.inRange ran
    exact ⟨analysis, ran, within, run.increasing⟩
  embeds alike formed otherFormed ran ranOther :=
    demand_embeds alike formed otherFormed ran ranOther

theorem IdFree.reporting (idFree : IdFree analyse) (events : List Event) :
    IdFree fun program => do
      let analysis ← analyse program
      return { analysis with events := events ++ analysis.events } where
  ends program formed := by
    obtain ⟨analysis, ran, within, increasing⟩ := idFree.ends program formed
    refine ⟨{ analysis with events := events ++ analysis.events }, ?_,
      ⟨within.flow, within.pairs⟩, increasing⟩
    rw [ran]
    rfl
  embeds alike formed otherFormed ran ranOther := by
    obtain ⟨analysis, ranFirst, same⟩ := Checked.bind_eq_ok.mp ran
    obtain ⟨otherAnalysis, ranSecond, sameOther⟩ := Checked.bind_eq_ok.mp ranOther
    cases same
    cases sameOther
    have samePairs := idFree.embeds alike formed otherFormed ranFirst ranSecond
    exact samePairs

theorem ofStrategy_idFree (natives : NativeTable) (strategy : Strategy) :
    IdFree (ofStrategy · natives strategy) := by
  cases strategy with
  | direct => exact (direct_idFree natives).reporting _
  | oneShot => exact (oneShot_idFree natives).reporting _
  | demand | full => exact (demand_idFree natives standardDepth).reporting _

/-- The analysis reports both programs in full, with the same records, each as often. -/
def SameRecords (analyse : Program → Checked Analysis) (program other : Program) : Prop :=
  ∃ (analysis otherAnalysis : Analysis) (records otherRecords : List BindingRecord),
    analyse program = .ok analysis ∧ analyse other = .ok otherAnalysis ∧
    analysis.callGraph.records program = records.map .ok ∧
    otherAnalysis.callGraph.records other = otherRecords.map .ok ∧ records.Perm otherRecords

theorem IdFree.pairs_perm (idFree : IdFree analyse) {program other : Program} {ids back : Renaming}
    (alike : program.Alike ids back other) (formed : program.WellFormed)
    (otherFormed : other.WellFormed) {analysis otherAnalysis : Analysis}
    (ran : analyse program = .ok analysis) (ranOther : analyse other = .ok otherAnalysis)
    (increasing : analysis.callGraph.Increasing)
    (otherIncreasing : otherAnalysis.callGraph.Increasing) :
    (analysis.callGraph.pairs.map (Prod.map (Vertex.rename ids) (Vertex.rename ids))).Perm
      otherAnalysis.callGraph.pairs := by
  have injective := Vertex.rename_injective alike.injective
  refine (List.perm_ext_iff_of_nodup (increasing.nodup.map (injective.prodMap injective))
    otherIncreasing.nodup).mpr fun pair => ?_
  rw [List.mem_map]
  constructor
  · rintro ⟨old, member, rfl⟩
    exact idFree.embeds alike formed otherFormed ran ranOther old member
  · intro member
    refine ⟨_, idFree.embeds alike.symm otherFormed formed ranOther ran pair member, ?_⟩
    exact Prod.ext (Vertex.rename_undone alike.undoneBack _)
      (Vertex.rename_undone alike.undoneBack _)

theorem IdFree.sameRecords (idFree : IdFree analyse) {program other : Program} {ids back : Renaming}
    (alike : program.Alike ids back other) (formed : program.WellFormed)
    (otherFormed : other.WellFormed) (matched : program.CallsMatch)
    (otherMatched : other.CallsMatch) : SameRecords analyse program other := by
  obtain ⟨analysis, ran, within, increasing⟩ := idFree.ends program formed
  obtain ⟨otherAnalysis, ranOther, otherWithin, otherIncreasing⟩ :=
    idFree.ends other otherFormed
  obtain ⟨records, made, _⟩ := (within.reported formed matched).records
  obtain ⟨otherRecords, otherMade, _⟩ := (otherWithin.reported otherFormed otherMatched).records
  refine ⟨analysis, otherAnalysis, records, otherRecords, ran, ranOther, made, otherMade, ?_⟩
  have okInjective : Function.Injective (Except.ok : BindingRecord → Fallible BindingRecord) :=
    fun _ _ => Except.ok.inj
  apply (List.map_perm_map_iff okInjective).mp
  have moved := (idFree.pairs_perm alike formed otherFormed ran ranOther increasing
    otherIncreasing).map (BindingRecord.ofPair other)
  rw [List.map_map] at moved
  have shown : analysis.callGraph.records program = analysis.callGraph.pairs.map
      (BindingRecord.ofPair other ∘ Prod.map (Vertex.rename ids) (Vertex.rename ids)) :=
    List.map_congr_left fun pair member =>
      (alike.embeds.ofPair formed.inRange within member).symm
  rw [← made, ← otherMade, shown]
  exact moved

end Analysis

/-- Files can be read in one order if they can be read in another one, and they can wherever all
trees fit their texts. Under each strategy and at every depth, the analysis of the one program is
reported with the same records as that of the other one, each as often. -/
theorem file_order_irrelevant {files permuted : List SourceFile} (perm : files.Perm permuted)
    (natives : NativeTable) :
    ((∃ file ∈ files, ¬ file.Fits) ∧ (∃ failure, Program.ofSources files = .error failure) ∧
        ∃ failure, Program.ofSources permuted = .error failure) ∨
      ∃ parsed reordered, Program.ofSources files = .ok parsed ∧
        Program.ofSources permuted = .ok reordered ∧
        (∀ strategy, Analysis.SameRecords (Analysis.ofStrategy · natives strategy) parsed.program
          reordered.program) ∧
        ∀ depth, Analysis.SameRecords (Analysis.demand · natives depth) parsed.program
          reordered.program := by
  rcases Program.ofFiles?_perm perm with ⟨failed, failedToo⟩ |
    ⟨program, other, ids, back, made, madeOther, alike⟩
  · refine .inl ⟨?_, Program.ofFiles?_eq_none.mp failed, Program.ofFiles?_eq_none.mp failedToo⟩
    by_contra noneUnfit
    have allFit : ∀ file ∈ files, file.Fits := by simpa using noneUnfit
    obtain ⟨parsed, isParsed⟩ := Program.ofSources_ok allFit
    simp [Program.ofFiles?_eq_some.mpr ⟨parsed, isParsed, rfl⟩] at failed
  · right
    obtain ⟨parsed, isParsed, rfl⟩ := Program.ofFiles?_eq_some.mp made
    obtain ⟨reordered, isReordered, rfl⟩ := Program.ofFiles?_eq_some.mp madeOther
    have formed := (Program.ofSources_formed isParsed).1
    have otherFormed := (Program.ofSources_formed isReordered).1
    have matched := Program.ofSources_callsMatch isParsed
    have otherMatched := Program.ofSources_callsMatch isReordered
    refine ⟨parsed, reordered, isParsed, isReordered, fun strategy => ?_, fun depth => ?_⟩
    · exact (Analysis.ofStrategy_idFree natives strategy).sameRecords alike formed otherFormed
        matched otherMatched
    · exact (Analysis.demand_idFree natives depth).sameRecords alike formed otherFormed matched
        otherMatched

def uncalled : SourceFile where
  path := "b.js"
  text := "function h() {}"
  tree := {
    hasErrors := false
    root :=
      .rule "program" 0 15 [] [
        .rule "function_declaration" 0 15 ["name", "parameters", "body"] [
          .rule "identifier" 9 10 [] [],
          .rule "formal_parameters" 10 12 [] [],
          .rule "statement_block" 13 15 [] []]] }

/-- The function called has another id where the other file comes first. The record is the same. -/
theorem file_order_irrelevant_uncalled :
    [calledByName, uncalled].Perm [uncalled, calledByName] ∧
      ∃ parsed reordered analysis reorderedAnalysis record,
        Program.ofSources [calledByName, uncalled] = .ok parsed ∧
        Program.ofSources [uncalled, calledByName] = .ok reordered ∧
        Analysis.ofStrategy parsed.program .empty .direct = .ok analysis ∧
        Analysis.ofStrategy reordered.program .empty .direct = .ok reorderedAnalysis ∧
        analysis.callGraph.pairs = [(.callee 0, .function 1)] ∧
        reorderedAnalysis.callGraph.pairs = [(.callee 0, .function 2)] ∧
        analysis.callGraph.records parsed.program = [.ok record] ∧
        reorderedAnalysis.callGraph.records reordered.program = [.ok record] := by
  have perm : [calledByName, uncalled].Perm [uncalled, calledByName] := .swap _ _ []
  have allFit : ∀ file ∈ [calledByName, uncalled], file.Fits := by decide +kernel
  obtain ⟨⟨file, member, unfit⟩, _⟩ | ⟨parsed, reordered, made, remade, strategies, _⟩ :=
    file_order_irrelevant perm .empty
  · exact absurd (allFit file member) unfit
  obtain ⟨analysis, reorderedAnalysis, records, reorderedRecords, ran, reran, reported, rereported,
    sameRecords⟩ := strategies .direct
  have pairs : (Program.ofSources [calledByName, uncalled]).toOption.bind (fun parsed =>
      (Analysis.ofStrategy parsed.program .empty .direct).toOption.map (·.callGraph.pairs)) =
      some [(.callee 0, .function 1)] := by decide +kernel
  have reorderedPairs : (Program.ofSources [uncalled, calledByName]).toOption.bind (fun parsed =>
      (Analysis.ofStrategy parsed.program .empty .direct).toOption.map (·.callGraph.pairs)) =
      some [(.callee 0, .function 2)] := by decide +kernel
  simp only [made, ran, Except.toOption, Option.bind_some, Option.map_some, Option.some.injEq]
    at pairs
  simp only [remade, reran, Except.toOption, Option.bind_some, Option.map_some, Option.some.injEq]
    at reorderedPairs
  have single : records.length = 1 := by
    simpa [CallGraph.records, pairs] using congrArg List.length reported.symm
  obtain ⟨record, rfl⟩ := List.length_eq_one_iff.mp single
  cases List.singleton_perm.mp sameRecords
  exact ⟨perm, parsed, reordered, analysis, reorderedAnalysis, record, made, remade, ran, reran,
    pairs, reorderedPairs, reported, rereported⟩

end FunctionFlow
