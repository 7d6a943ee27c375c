import FunctionFlow.Proofs.Lowering.CallSites
import FunctionFlow.Proofs.Lowering.Files

/-!
Contract: the calls of a tree that lowering keeps.
-/

namespace FunctionFlow

namespace Program

variable {program after : Program} {file : SourceFile}

/-- The origin of a call that is made from a node of the next file. -/
def nextOrigin (program : Program) (file : SourceFile) (node : Node) : CallOrigin :=
  node.origin (.ofString file.analysedText) program.files.size

/-- The calls added to the program, up to their arguments, come from `nodes`, in this order. -/
def AddsCallsOf (program after : Program) (file : SourceFile) (nodes : List Node) : Prop :=
  after.calls.toList.map CallSite.origin =
    program.calls.toList.map CallSite.origin ++ nodes.map (program.nextOrigin file)

/-- No call of the tree is lost, and none is added twice. -/
def KeepsCalls (program after : Program) (file : SourceFile) : Prop :=
  ∃ nodes, program.AddsCallsOf after file nodes ∧
    (nodes.map (program.nextOrigin file)).Perm
      ((file.tree.root.all.filter Node.isCall).map (program.nextOrigin file))

theorem addSource_addsCallsOf (added : program.addSource file = .ok after) :
    program.AddsCallsOf after file
      ((file.tree.root.visitedCalls .statements).map Prod.snd) := by
  obtain ⟨calls, isCalls, isHeadings⟩ := addSource_adds added
  -- a call and its heading have one origin
  have origins := congrArg (List.map CallSite.origin) isHeadings
  rw [List.map_append, isCalls, List.map_map, List.map_map] at origins
  rw [AddsCallsOf, List.map_map]
  exact origins

theorem AddsCallsOf.keepsCalls_iff {nodes : List Node}
    (adds : program.AddsCallsOf after file nodes) :
    program.KeepsCalls after file ↔
      (nodes.map (program.nextOrigin file)).Perm
        ((file.tree.root.all.filter Node.isCall).map (program.nextOrigin file)) := by
  constructor
  · rintro ⟨others, addsOthers, perm⟩
    rwa [List.append_cancel_left (addsOthers.symm.trans adds)] at perm
  · exact fun perm => ⟨nodes, adds, perm⟩

theorem Lowered.addSource_ok (lowered : program.Lowered) (fits : file.Fits) :
    ∃ after, program.addSource file = .ok after := by
  have outcome := lowered.addSource_outcome file
  cases added : program.addSource file with
  | ok after => exact ⟨after, rfl⟩
  | error failure =>
    rw [added] at outcome
    exact absurd outcome (fits.readable failure)

end Program

/-- Lowering one more file adds one call for each call of its tree that is visited as an expression,
with the span of its node, and no other call. So the calls of the tree are all kept exactly if every
one of them is visited. -/
theorem calls_kept_iff {files : List SourceFile} {program : Program} (file : SourceFile)
    (lowered : ({} : Program).addSources files = .ok program) (fits : file.Fits)
    (labelled : file.tree.root.Labelled) :
    ∃ after visited, program.addSource file = .ok after ∧
      (visited : List (Address × Node)).Nodup ∧
      (∀ address node, (address, node) ∈ visited ↔
        file.tree.root.Visited .statements address .expression node ∧ node.isCall) ∧
      program.AddsCallsOf after file (visited.map Prod.snd) ∧
      (program.KeepsCalls after file ↔ file.tree.root.AllCallsVisited .statements) := by
  obtain ⟨after, added⟩ := (Program.lowered_of_addSources lowered).addSource_ok fits
  have adds := Program.addSource_addsCallsOf added
  refine ⟨after, file.tree.root.visitedCalls .statements, added,
    Node.visitedCalls_nodup labelled .statements, fun _ _ => Node.mem_visitedCalls, adds, ?_⟩
  rw [adds.keepsCalls_iff, List.map_map]
  exact Node.visitedCalls_perm_iff labelled .statements (program.nextOrigin file)

/-- A file with a call in the default of a pattern, and a call among the arguments of a
construction. -/
def patternDefault : SourceFile where
  path := "a.js"
  text := "const [k = f()] = new A(g());"
  tree := {
    hasErrors := false
    root :=
      .rule "program" 0 29 [] [
        .rule "lexical_declaration" 0 29 [] [
          .rule "variable_declarator" 6 28 ["name", "value"] [
            .rule "array_pattern" 6 15 [] [
              .rule "assignment_pattern" 7 14 ["left", "right"] [
                .rule "identifier" 7 8 [] [],
                .rule "call_expression" 11 14 ["function", "arguments"] [
                  .rule "identifier" 11 12 [] [],
                  .rule "arguments" 12 14 [] []]]],
            .rule "new_expression" 18 28 ["constructor", "arguments"] [
              .rule "identifier" 22 23 [] [],
              .rule "arguments" 23 28 [] [
                .rule "call_expression" 24 27 ["function", "arguments"] [
                  .rule "identifier" 24 25 [] [],
                  .rule "arguments" 25 27 [] []]]]]]] }

/-- All three calls are kept. -/
theorem calls_kept_iff_patternDefault :
    patternDefault.Fits ∧ patternDefault.tree.root.Labelled ∧
      (patternDefault.tree.root.all.filter Node.isCall).length = 3 ∧
      ∃ after, ({} : Program).addSource patternDefault = .ok after ∧
        ({} : Program).KeepsCalls after patternDefault := by
  have fits : patternDefault.Fits := by decide +kernel
  have labelled : patternDefault.tree.root.Labelled := by decide +kernel
  have complete : patternDefault.tree.root.AllCallsVisited .statements := by decide +kernel
  have begins : ({} : Program).addSources [] = .ok {} := rfl
  obtain ⟨after, _, added, _, _, _, keeps⟩ := calls_kept_iff patternDefault begins fits labelled
  exact ⟨fits, labelled, by decide +kernel, after, added, keeps.mpr complete⟩

def computedKey : SourceFile where
  path := "a.js"
  text := "function f() {}\nvar o = { [f()]: 1 };"
  tree := {
    hasErrors := false
    root :=
      .rule "program" 0 37 [] [
        .rule "function_declaration" 0 15 ["name", "parameters", "body"] [
          .rule "identifier" 9 10 [] [],
          .rule "formal_parameters" 10 12 [] [],
          .rule "statement_block" 13 15 [] []],
        .rule "variable_declaration" 16 37 [] [
          .rule "variable_declarator" 20 36 ["name", "value"] [
            .rule "identifier" 20 21 [] [],
            .rule "object" 24 36 [] [
              .rule "pair" 26 34 ["key", "value"] [
                .rule "computed_property_name" 26 31 [] [
                  .rule "call_expression" 27 30 ["function", "arguments"] [
                    .rule "identifier" 27 28 [] [],
                    .rule "arguments" 28 30 [] []]],
                .rule "number" 33 34 [] []]]]]] }

/-- A call in a computed key is lost. -/
theorem call_lost_in_computedKey :
    computedKey.tree.hasErrors = false ∧ computedKey.Fits ∧ computedKey.tree.root.Labelled ∧
      (computedKey.tree.root.all.filter Node.isCall).length = 1 ∧
      ∃ after, ({} : Program).addSource computedKey = .ok after ∧ after.calls.size = 0 ∧
        ¬ ({} : Program).KeepsCalls after computedKey := by
  have one : (computedKey.tree.root.all.filter Node.isCall).length = 1 := by decide +kernel
  have noCall : (({} : Program).addSource computedKey).toOption.map (·.calls.size) = some 0 := by
    decide +kernel
  refine ⟨rfl, by decide +kernel, by decide +kernel, one, ?_⟩
  cases added : ({} : Program).addSource computedKey with
  | error failure => simp [added, Except.toOption] at noCall
  | ok after =>
    rw [added] at noCall
    have isEmpty : after.calls.size = 0 := Option.some.inj noCall
    refine ⟨after, rfl, isEmpty, ?_⟩
    rintro ⟨nodes, adds, perm⟩
    have sameLength := congrArg List.length adds
    have allLength := perm.length_eq
    simp only [List.length_map, List.length_append, Array.length_toList, isEmpty, one] at *
    omega

end FunctionFlow
