import FunctionFlow.Proofs.Lowering.Calls
import FunctionFlow.Proofs.Lowering.Visits

/-!
Contract: calls and call expressions of lowered files correspond.
-/

namespace FunctionFlow

theorem Node.CallAt.heading {root : Node} {source : Source} {address : Address}
    {site other : CallSite} (made : root.CallAt source address site)
    (same : other.heading = site.heading) : root.CallAt source address other := by
  have sameKind : other.isNew = site.isNew := (congrArg CallSite.isNew same :)
  have sameSpan : other.span = site.span := (congrArg CallSite.span same :)
  unfold CallAt
  rw [sameKind, sameSpan]
  exact made

namespace Program

variable {after : Program} {program : Program} {file : SourceFile} {done : List SourceFile}

/-- Each call was made from a node of its file, the one at its address among `origins`. No two calls
of a file were made from one node, and a node's call comes before those of the nodes below it. -/
structure TracedTo (files : List SourceFile) (origins : List Address) (program : Program) :
    Prop where
  length : origins.length = program.calls.size
  made : ∀ {id : CallId} {site : CallSite} {address : Address},
    program.calls[id]? = some site → origins[id]? = some address →
    ∃ file, files[site.file]? = some file ∧
      file.tree.root.CallAt (.ofString file.analysedText) address site
  ordered : ∀ {outer inner : CallId} {outerSite innerSite : CallSite}
    {outerAddress innerAddress : Address},
    program.calls[outer]? = some outerSite → program.calls[inner]? = some innerSite →
    outerSite.file = innerSite.file →
    origins[outer]? = some outerAddress → origins[inner]? = some innerAddress →
    outerAddress <+: innerAddress → outer ≤ inner

theorem addSource_adds (added : program.addSource file = .ok after) :
    ∃ calls : List CallSite,
      calls.map CallSite.origin =
        (file.tree.root.visitedCalls .statements).map (fun entry =>
          entry.2.origin (.ofString file.analysedText) program.files.size) ∧
      after.calls.toList.map CallSite.heading =
        program.calls.toList.map CallSite.heading ++ calls := by
  obtain ⟨⟨_, state⟩, ran, isAfter⟩ := Checked.bind_eq_ok.mp added
  have complete := Lowering.Rules.atHeight_complete file.tree.root.height
  cases isAfter
  exact complete.statements (program.topContext file) file.tree.root (Nat.le_succ _) _ _ _ ran

/-- The calls that lowering a labelled tree adds, with their addresses: each was made from the node
at its address, and none comes before a call whose node is above it. -/
theorem addSource_trace (labelled : file.tree.root.Labelled)
    (added : program.addSource file = .ok after) :
    ∃ trace : List (Address × CallSite),
      (∀ entry ∈ trace,
        file.tree.root.CallAt (.ofString file.analysedText) entry.1 entry.2 ∧
          entry.2.file = program.files.size) ∧
      trace.Pairwise (fun earlier later => ¬ later.1 <+: earlier.1) ∧
      after.calls.toList.map CallSite.heading =
        program.calls.toList.map CallSite.heading ++ trace.map Prod.snd := by
  obtain ⟨calls, isCalls, isHeadings⟩ := addSource_adds added
  let visited := file.tree.root.visitedCalls .statements
  have origins : List.Forall₂ (fun visit site =>
      visit.2.origin (.ofString file.analysedText) program.files.size = site.origin)
      visited calls := by
    rw [← List.forall₂_eq_eq_eq] at isCalls
    exact (List.forall₂_map_left_iff.mp (List.forall₂_map_right_iff.mp isCalls)).flip.imp
      fun _ _ => Eq.symm
  have sameLength : (visited.map Prod.fst).length = calls.length := by
    rw [List.length_map, origins.length_eq]
  refine ⟨(visited.map Prod.fst).zip calls, ?_, ?_, ?_⟩
  · intro entry member
    rw [List.zip_map_left] at member
    obtain ⟨⟨visit, site⟩, isPair, rfl⟩ := List.mem_map.mp member
    have isVisit : visit ∈ visited := (List.of_mem_zip isPair).1
    exact Node.callAt_of_origin (Node.nodeAt?_of_mem_visitedCalls isVisit)
      (Node.mem_visitedCalls.mp isVisit).2 ((List.forall₂_iff_zip.mp origins).2 isPair).symm
  · have addresses : (visited.map Prod.fst).Pairwise fun earlier later => ¬ later <+: earlier :=
      List.pairwise_map.mpr (Node.visitedCalls_ordered labelled .statements)
    rw [← List.map_fst_zip (Nat.le_of_eq sameLength)] at addresses
    exact List.pairwise_map.mp addresses
  · rw [isHeadings, List.map_snd_zip (Nat.le_of_eq sameLength.symm)]

theorem call_cases {origins : List Address} {visited : List (Address × CallSite)}
    (isHeadings : after.calls.toList.map CallSite.heading =
      program.calls.toList.map CallSite.heading ++ visited.map Prod.snd)
    (sameLength : origins.length = program.calls.size) {id : CallId} {site : CallSite}
    {address : Address} (found : after.calls[id]? = some site)
    (isAddress : (origins ++ visited.map Prod.fst)[id]? = some address) :
    (∃ old, program.calls[id]? = some old ∧ old.heading = site.heading ∧
      origins[id]? = some address) ∨
    ∃ entry, visited[id - program.calls.size]? = some entry ∧ program.calls.size ≤ id ∧
      entry.1 = address ∧ entry.2 = site.heading := by
  have isHeading : (after.calls.toList.map CallSite.heading)[id]? = some site.heading := by
    rw [List.getElem?_map, Array.getElem?_toList, found]
    rfl
  rw [isHeadings] at isHeading
  by_cases isOld : id < program.calls.size
  · rw [List.getElem?_append_left (by simpa using isOld), List.getElem?_map,
      Array.getElem?_toList] at isHeading
    obtain ⟨old, foundOld, same⟩ := Option.map_eq_some_iff.mp isHeading
    rw [List.getElem?_append_left (sameLength.symm ▸ isOld)] at isAddress
    exact .inl ⟨old, foundOld, same, isAddress⟩
  · have isNew := Nat.le_of_not_lt isOld
    rw [List.getElem?_append_right (by simpa using isNew), List.getElem?_map, List.length_map,
      Array.length_toList] at isHeading
    rw [List.getElem?_append_right (sameLength.symm ▸ isNew), List.getElem?_map,
      sameLength] at isAddress
    obtain ⟨entry, isEntry, isSite⟩ := Option.map_eq_some_iff.mp isHeading
    rw [isEntry] at isAddress
    exact .inr ⟨entry, isEntry, isNew, Option.some.inj isAddress, isSite⟩

theorem TracedTo.addSource {origins : List Address} (traced : program.TracedTo done origins)
    (counted : program.files.size = done.length) (labelled : file.tree.root.Labelled)
    (added : program.addSource file = .ok after) :
    ∃ more, after.TracedTo (done ++ [file]) (origins ++ more) := by
  obtain ⟨visited, made, ordered, isHeadings⟩ := addSource_trace labelled added
  have oldFile {id : CallId} {old site : CallSite} {address : Address}
      (found : program.calls[id]? = some old) (isAddress : origins[id]? = some address)
      (same : old.heading = site.heading) : site.file < done.length := by
    obtain ⟨_, isFile, _⟩ := traced.made found isAddress
    have sameFile : old.file = site.file := (congrArg CallSite.file same :)
    exact sameFile ▸ (List.getElem?_eq_some_iff.mp isFile).1
  have newFile {position : Nat} {entry : Address × CallSite} {site : CallSite}
      (isEntry : visited[position]? = some entry) (isSite : entry.2 = site.heading) :
      site.file = done.length := by
    have isFile := (made entry (List.mem_of_getElem? isEntry)).2
    rw [isSite, counted] at isFile
    exact isFile
  refine ⟨visited.map Prod.fst, ?_, ?_, ?_⟩
  · have sameLength := congrArg List.length isHeadings
    simp only [List.length_map, List.length_append, Array.length_toList] at sameLength
    rw [List.length_append, List.length_map, traced.length, sameLength]
  · intro id site address found isAddress
    rcases call_cases isHeadings traced.length found isAddress with
      ⟨old, foundOld, same, atOld⟩ | ⟨entry, isEntry, _, rfl, isSite⟩
    · obtain ⟨source, isFile, isCall⟩ := traced.made foundOld atOld
      have sameFile : old.file = site.file := (congrArg CallSite.file same :)
      refine ⟨source, ?_, isCall.heading same.symm⟩
      rw [List.getElem?_append_left (oldFile foundOld atOld same), ← sameFile]
      exact isFile
    · refine ⟨file, ?_, (made entry (List.mem_of_getElem? isEntry)).1.heading ?_⟩
      · rw [newFile isEntry isSite]
        exact List.getElem?_concat_length
      · rw [isSite]
        rfl
  · intro outer inner outerSite innerSite outerAddress innerAddress isOuter isInner sameFile
      atOuter atInner leads
    rcases call_cases isHeadings traced.length isOuter atOuter with
      ⟨oldOuter, foundOuter, sameOuter, atOldOuter⟩ | ⟨_, isOuterEntry, _, rfl, isOuterSite⟩
    · rcases call_cases isHeadings traced.length isInner atInner with
        ⟨oldInner, foundInner, sameInner, atOldInner⟩ | ⟨_, _, newInner, _, _⟩
      · have sameOuterFile : oldOuter.file = outerSite.file := (congrArg CallSite.file sameOuter :)
        have sameInnerFile : oldInner.file = innerSite.file := (congrArg CallSite.file sameInner :)
        exact traced.ordered foundOuter foundInner
          (sameOuterFile.trans (sameFile.trans sameInnerFile.symm)) atOldOuter atOldInner leads
      · exact Nat.le_of_lt (Nat.lt_of_lt_of_le (Table.below foundOuter) newInner)
    · rcases call_cases isHeadings traced.length isInner atInner with
        ⟨oldInner, foundInner, sameInner, atOldInner⟩ | ⟨_, isInnerEntry, newInner, rfl, _⟩
      · -- the two calls would be in different files
        have isOld := oldFile foundInner atOldInner sameInner
        rw [← sameFile, newFile isOuterEntry isOuterSite] at isOld
        exact absurd isOld (Nat.lt_irrefl _)
      · apply Nat.le_of_not_lt
        intro isLater
        obtain ⟨inVisitedInner, rfl⟩ := List.getElem?_eq_some_iff.mp isInnerEntry
        obtain ⟨inVisitedOuter, rfl⟩ := List.getElem?_eq_some_iff.mp isOuterEntry
        have positions : inner - program.calls.size < outer - program.calls.size :=
          Nat.sub_lt_sub_right newInner isLater
        exact List.pairwise_iff_getElem.mp ordered _ _ inVisitedInner inVisitedOuter positions leads

theorem tracedTo_empty : ({} : Program).TracedTo [] [] where
  length := rfl
  made found := by simp at found
  ordered found := by simp at found

/-! ### Files -/

theorem exprs_topState : (program.topState file).exprs = program.exprs :=
  List.append_nil _

theorem CallsMatch.addTop {state : Lowering.State} (matched : program.CallsMatch)
    (lowered : Lowering.Lowers file.tree.root (program.topContext file) (program.topState file) []
      state) : (program.withTop state).CallsMatch := by
  obtain ⟨made, grown, exprs, sites, described⟩ := lowered.made
  rw [Expr.allOf, List.append_nil, exprs_topState] at exprs
  have perm : ((program.withTop state).exprs).Perm (program.exprs ++ made) :=
    (exprs_addModule_perm rfl).trans exprs
  constructor
  · refine (perm.filterMap Expr.site?).trans ?_
    have count : state.program.calls.size =
        program.calls.size + (state.program.calls.size - program.calls.size) :=
      (Nat.add_sub_cancel' grown).symm
    show List.Perm _ (List.range state.program.calls.size)
    rw [List.filterMap_append, count, List.range_eq_range', ← List.range'_append_1, Nat.zero_add,
      ← List.range_eq_range']
    exact matched.sites.append sites
  · intro expr member
    rcases List.mem_append.mp (perm.mem_iff.mp member) with old | new
    · exact (matched.described expr old).mono fun _ _ _ found => lowered.keeps.calls found
    · exact (described expr new).mono fun _ _ _ found => found

theorem callsMatch_empty : ({} : Program).CallsMatch where
  sites := .refl _
  described := List.forall_mem_nil _

theorem SpansNested.addTop {state : Lowering.State} (nested : program.SpansNested)
    (treeNested : file.tree.root.Nested)
    (lowered : Lowering.Lowers file.tree.root (program.topContext file) (program.topState file) []
      state) : (program.withTop state).SpansNested := by
  have starts : Lowering.Spanned file.tree.root (program.topContext file)
      (program.topState file) := by
    refine ⟨nested.keep (extends_topState program file) (fun found => .inl ⟨_, found, rfl⟩)
      (fun found => .inl ⟨_, found, rfl⟩), ?_⟩
    intro outer isOuter
    cases isOuter
  have spanned := lowered.spanned treeNested .self starts
  have extended := extends_withTop program state
  exact spanned.program.keep extended (fun found => .inl ⟨_, found, rfl⟩)
    (fun found => .inl ⟨_, found, rfl⟩)

theorem spansNested_empty : ({} : Program).SpansNested where
  calls found := by simp at found
  functions found := by simp at found

theorem addSources_traced {files : List SourceFile}
    (labelled : ∀ file ∈ files, file.tree.root.Labelled)
    (added : ({} : Program).addSources files = .ok program) :
    ∃ origins, program.TracedTo files origins := by
  -- the number of files says which file a new call belongs to
  have both := addSources_steps (fun done program =>
      program.Formed done ∧ ∃ origins, program.TracedTo done origins)
    (fun member lowered holds addedFile => by
      obtain ⟨formed, origins, traced⟩ := holds
      obtain ⟨state, derived, rfl⟩ := lowered.addSource_lowers addedFile
      have counted := congrArg List.length formed.files
      rw [Array.length_toList, List.length_map] at counted
      obtain ⟨more, tracedAfter⟩ := traced.addSource counted (labelled _ member) addedFile
      exact ⟨formed.addTop lowered.inRange derived, _, tracedAfter⟩)
    ⟨formed_empty, [], tracedTo_empty⟩ added
  exact both.2

theorem ofSources_callsMatch {files : List SourceFile} {parsed : Parsed}
    (made : ofSources files = .ok parsed) : parsed.program.CallsMatch := by
  obtain ⟨program, added, _, binds⟩ := ofSources_bindsTo made
  have matched : program.CallsMatch := addSources_run (fun _ => CallsMatch)
    (fun _ _ matched derived => matched.addTop derived) callsMatch_empty added
  exact matched.bindsTo binds

end Program

/-- The correspondence of calls and call expressions in a program made from `files`. -/
structure Program.CallsCorrespond (files : List SourceFile) (program : Program) : Prop where
  /-- Every call is made by one expression, which its entry describes. -/
  calls : program.CallsMatch
  /-- The expression stands in the body of the function that the entry names, or in the top-level
  code of the entry's file. -/
  placed : program.Placed
  spans : program.SpansNested
  /-- A call whose node contains another call's node comes first. -/
  traced : (∀ file ∈ files, file.tree.root.Labelled) → ∃ origins, program.TracedTo files origins
  listed : program.callExpressions.map Prod.fst = List.range program.calls.size

/-- Files with nested trees make a program whose calls and call expressions correspond; the only
obstacle is a file whose tree does not fit its text. -/
theorem calls_correspond (files : List SourceFile)
    (nested : ∀ file ∈ files, file.tree.root.Nested) :
    (∃ parsed, Program.ofSources files = .ok parsed ∧ parsed.program.CallsCorrespond files) ∨
      ∃ file ∈ files, ∃ failure, file.Unreadable failure := by
  have outcome := Program.ofSources_outcome files
  cases made : Program.ofSources files with
  | error failure =>
    rw [made] at outcome
    obtain ⟨file, member, unreadable⟩ := outcome
    exact .inr ⟨file, member, failure, unreadable⟩
  | ok parsed =>
    refine .inl ⟨parsed, rfl, ?_⟩
    obtain ⟨program, added, lowered, binds⟩ := Program.ofSources_bindsTo made
    have matched := Program.ofSources_callsMatch made
    have spans : program.SpansNested := Program.addSources_run (fun _ => Program.SpansNested)
      (fun member _ spans derived => spans.addTop (nested _ member) derived)
      Program.spansNested_empty added
    constructor
    case calls => exact matched
    case placed => exact (Program.ofSources_formed made).1.placed
    case spans => exact spans.bindsTo binds
    case traced =>
      intro labelled
      obtain ⟨origins, traced⟩ := Program.addSources_traced labelled added
      exact ⟨origins, traced.length.trans (congrArg Array.size binds.calls).symm,
        fun found => traced.made (binds.calls ▸ found),
        fun isOuter isInner => traced.ordered (binds.calls ▸ isOuter) (binds.calls ▸ isInner)⟩
    case listed => exact matched.map_fst_callExpressions

def nestedCalls : SourceFile where
  path := "a.js"
  text := "function h() { f(g()); }"
  tree := {
    hasErrors := false
    root :=
      .rule "program" 0 24 [] [
        .rule "function_declaration" 0 24 ["name", "parameters", "body"] [
          .rule "identifier" 9 10 [] [],
          .rule "formal_parameters" 10 12 [] [],
          .rule "statement_block" 13 24 [] [
            .rule "expression_statement" 15 22 [] [
              .rule "call_expression" 15 21 ["function", "arguments"] [
                .rule "identifier" 15 16 [] [],
                .rule "arguments" 16 21 [] [
                  .rule "call_expression" 17 20 ["function", "arguments"] [
                    .rule "identifier" 17 18 [] [],
                    .rule "arguments" 18 20 [] []]]]]]]] }

/-- The outer call comes first, and the inner one lies inside the function around both. -/
theorem calls_correspond_nestedCalls :
    nestedCalls.tree.root.Nested ∧ nestedCalls.tree.root.Labelled ∧
      ∃ parsed, Program.ofSources [nestedCalls] = .ok parsed ∧
        parsed.program.callExpressions.map Prod.fst = [0, 1] ∧
        (∃ origins, parsed.program.TracedTo [nestedCalls] origins ∧ origins.length = 2) ∧
        ∃ inner, parsed.program.calls[1]? = some inner ∧
          parsed.program.Encloses 0 inner.file inner.span := by
  have nested : nestedCalls.tree.root.Nested := by decide +kernel
  have labelled : nestedCalls.tree.root.Labelled := by decide +kernel
  have fits : nestedCalls.Fits := by decide +kernel
  have table : (Program.ofSources [nestedCalls]).toOption.map (fun parsed =>
      parsed.program.calls.toList.map fun site => (site.enclosing, site.arity)) =
      some [(some 0, 1), (some 0, 0)] := by
    decide +kernel
  rcases calls_correspond [nestedCalls] (by simpa using nested) with
    ⟨parsed, made, _, _, spans, traced, listed⟩ | ⟨file, member, failure, unreadable⟩
  · rw [made] at table
    have entries := Option.some.inj table
    have size := congrArg List.length entries
    rw [List.length_map, Array.length_toList] at size
    have entry := congrArg (·[1]?) entries
    simp only [List.getElem?_map, Array.getElem?_toList] at entry
    obtain ⟨inner, isInner, isEntry⟩ := Option.map_eq_some_iff.mp entry
    obtain ⟨origins, isTraced⟩ := traced (by simpa using labelled)
    rw [size] at listed
    exact ⟨nested, labelled, parsed, made, listed, ⟨origins, isTraced, isTraced.length.trans size⟩,
      inner, isInner, spans.calls isInner (congrArg Prod.fst isEntry)⟩
  · cases List.mem_singleton.mp member
    exact absurd unreadable (fits.readable failure)

end FunctionFlow
