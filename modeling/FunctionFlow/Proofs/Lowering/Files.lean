import FunctionFlow.Proofs.Lowering.Relocation
import FunctionFlow.Proofs.Lowering.Sources
import FunctionFlow.Proofs.Program.Embedding
import FunctionFlow.Proofs.Program.SeparateBinding

/-!
Contract: a program is put together from its files.
-/

namespace FunctionFlow.Program

variable {files : List SourceFile} {program : Program}

theorem size_files_append (base program : Program) :
    (base.append program).files.size = base.offset .file program.files.size :=
  counts_append .file

theorem size_scopes_append (base program : Program) :
    (base.append program).scopes.size = base.offset .scope program.scopes.size :=
  counts_append .scope

theorem topContext_append (base program : Program) (file : SourceFile) :
    (base.append program).topContext file = (program.topContext file).behind base := by
  simp [topContext, Lowering.Context.behind, size_files_append, size_scopes_append]

theorem topState_append (base program : Program) (file : SourceFile) :
    (base.append program).topState file = (program.topState file).behind base := by
  have scope := @addScope_append base (program.addFile file.path).2 .file none
  simp only [topState, Lowering.State.behind, addFile_append]
  exact congrArg (Lowering.State.mk · []) (congrArg Prod.snd scope)

theorem withTop_append (base program : Program) (state : Lowering.State) :
    (base.append program).withTop (state.behind base) = base.append (program.withTop state) := by
  simp only [withTop, size_files_append, size_scopes_append]
  exact push_module_append base state.program
    { file := program.files.size, scope := program.scopes.size, body := state.body }

theorem addSource_append (base program : Program) (file : SourceFile) :
    ((base.append program).addSource file).toOption =
      (program.addSource file).toOption.map base.append := by
  have moved := (Lowering.Rules.atHeight_moving base file.tree.root.height).statements
    (program.topContext file) file.tree.root (program.topState file)
  rw [addSource_eq, addSource_eq, Checked.toOption_bind, Checked.toOption_bind, topContext_append,
    topState_append, moved]
  cases (((Lowering.Rules.atHeight file.tree.root.height).statements (program.topContext file)
    file.tree.root).run (program.topState file)).toOption with
  | none => rfl
  | some outcome => exact congrArg some (withTop_append base program outcome.2)

theorem addSources_append (base program : Program) (files : List SourceFile) :
    ((base.append program).addSources files).toOption =
      (program.addSources files).toOption.map base.append := by
  induction files generalizing program with
  | nil => rfl
  | cons first rest inductionHypothesis =>
    rw [addSources, addSources, Checked.toOption_bind, Checked.toOption_bind, addSource_append]
    cases (program.addSource first).toOption with
    | none => rfl
    | some added => exact inductionHypothesis added

def ofFiles? (files : List SourceFile) : Option Program :=
  (ofSources files).toOption.map Parsed.program

theorem ofFiles?_eq (files : List SourceFile) :
    ofFiles? files = (({} : Program).addSources files).toOption.bind fun lowered =>
      lowered.bind.toOption.map Bound.program := by
  rw [ofFiles?, ofSources, Checked.toOption_bind, Option.map_bind]
  congr 1
  funext lowered
  rw [Function.comp_apply, Checked.toOption_bind]
  cases lowered.bind <;> rfl

theorem Lowered.bind_ok (lowered : program.Lowered) : ∃ bound, program.bind = .ok bound := by
  obtain ⟨bound, ran, _⟩ := Program.bind_ok lowered.inRange lowered.parentsFirst lowered.unwritten
  exact ⟨bound, ran⟩

theorem lowered_of_addSources (added : ({} : Program).addSources files = .ok program) :
    program.Lowered := by
  have outcome := lowered_empty.addSources_outcome files
  rwa [added] at outcome

theorem addSources_files_append (program : Program) (files further : List SourceFile) :
    program.addSources (files ++ further) =
      (program.addSources files >>= fun added => added.addSources further) := by
  induction files generalizing program with
  | nil => rfl
  | cons first rest inductionHypothesis =>
    rw [List.cons_append, addSources, addSources]
    cases program.addSource first with
    | error => rfl
    | ok added => exact inductionHypothesis added

/-- The program of two lists of files is that of the first list with that of the second one behind
it. -/
theorem ofFiles?_append (files further : List SourceFile) :
    ofFiles? (files ++ further) =
      (ofFiles? files).bind fun base => (ofFiles? further).map base.append := by
  rw [ofFiles?_eq, ofFiles?_eq, ofFiles?_eq, addSources_files_append, Checked.toOption_bind]
  cases added : ({} : Program).addSources files with
  | error => rfl
  | ok base =>
    have behind := addSources_append base {} further
    rw [append_empty] at behind
    obtain ⟨bound, ran⟩ := (lowered_of_addSources added).bind_ok
    simp only [Checked.toOption_ok, Option.bind_some, behind, ran, Option.map_some]
    cases addedFurther : ({} : Program).addSources further with
    | error => rfl
    | ok later =>
      obtain ⟨boundLater, ranLater⟩ := (lowered_of_addSources addedFurther).bind_ok
      have together := bind_append (lowered_of_addSources added).inRange ran ranLater
      simp only [Checked.toOption_ok, Option.map_some, Option.bind_some, together, ranLater]

theorem ofFiles?_cons (file : SourceFile) (rest : List SourceFile) :
    ofFiles? (file :: rest) =
      (ofFiles? [file]).bind fun first => (ofFiles? rest).map first.append :=
  ofFiles?_append [file] rest

/-! ### Files in another order -/

theorem ofFiles?_eq_some :
    ofFiles? files = some program ↔
      ∃ parsed, ofSources files = .ok parsed ∧ parsed.program = program := by
  simp only [ofFiles?, Option.map_eq_some_iff, Checked.toOption_eq_some]

theorem ofFiles?_eq_none : ofFiles? files = none ↔ ∃ failure, ofSources files = .error failure := by
  rw [ofFiles?, Option.map_eq_none_iff]
  cases ofSources files <;> simp [Except.toOption]

theorem ofFiles?_selfContained (made : ofFiles? files = some program) : program.SelfContained := by
  obtain ⟨parsed, isParsed, rfl⟩ := ofFiles?_eq_some.mp made
  refine ⟨ofSources_inRange isParsed, ?_⟩
  obtain ⟨lowered, added, isParsed⟩ := Checked.bind_eq_ok.mp isParsed
  obtain ⟨bound, ran, isParsed⟩ := Checked.bind_eq_ok.mp isParsed
  cases isParsed
  have holds := lowered_of_addSources added
  have binds := bind_bindsTo ran
  obtain ⟨tops, middle, definitions, final, _, _, rfl⟩ := bind_eq_ok.mp ran
  intro expr member
  apply holds.numbered.below
  have sameNode : expr.node ∈ lowered.exprs.map Expr.node := by
    rw [← binds.map_node]
    exact List.mem_map_of_mem member
  simpa [Lowering.State.nodes, Lowering.State.exprs] using sameNode

/-- Files that can be read can be read in any order, and the programs that they make differ in their
ids only. -/
theorem ofFiles?_perm {permuted : List SourceFile} (perm : files.Perm permuted) :
    (ofFiles? files = none ∧ ofFiles? permuted = none) ∨
      ∃ program other ids back, ofFiles? files = some program ∧ ofFiles? permuted = some other ∧
        program.Alike ids back other := by
  induction perm with
  | nil =>
    cases made : ofFiles? [] with
    | none => exact .inl ⟨rfl, rfl⟩
    | some program => exact .inr ⟨program, program, _, _, rfl, rfl, .refl program⟩
  | @cons file rest restPermuted perm inductionHypothesis =>
    rw [ofFiles?_cons file rest, ofFiles?_cons file restPermuted]
    cases made : ofFiles? [file] with
    | none => exact .inl ⟨rfl, rfl⟩
    | some first =>
      obtain ⟨failed, failedToo⟩ | ⟨_, _, _, _, madeRest, madePermuted, alike⟩ :=
        inductionHypothesis
      · rw [failed, failedToo]
        exact .inl ⟨rfl, rfl⟩
      · rw [madeRest, madePermuted]
        exact .inr ⟨_, _, _, _, rfl, rfl, alike.behind (ofFiles?_selfContained made)⟩
  | swap second first rest =>
    rw [ofFiles?_cons first, ofFiles?_cons second rest, ofFiles?_cons second (first :: rest),
      ofFiles?_cons first rest]
    cases madeFirst : ofFiles? [first] with
    | none => cases ofFiles? [second] <;> exact .inl ⟨rfl, rfl⟩
    | some firstProgram =>
      cases madeSecond : ofFiles? [second] with
      | none => exact .inl ⟨rfl, rfl⟩
      | some secondProgram =>
        cases ofFiles? rest with
        | none => exact .inl ⟨rfl, rfl⟩
        | some restProgram =>
          exact .inr ⟨_, _, _, _, rfl, rfl, .exchange restProgram
            (ofFiles?_selfContained madeFirst) (ofFiles?_selfContained madeSecond)⟩
  | trans _ _ firstHypothesis secondHypothesis =>
    obtain ⟨failed, failedToo⟩ | ⟨_, _, _, _, made, madeMiddle, alike⟩ := firstHypothesis
    · obtain ⟨_, failedLast⟩ | ⟨_, _, _, _, madeMiddle, _⟩ := secondHypothesis
      · exact .inl ⟨failed, failedLast⟩
      · simp [failedToo] at madeMiddle
    · obtain ⟨failedToo, _⟩ | ⟨_, _, _, _, madeToo, madeLast, further⟩ := secondHypothesis
      · simp [failedToo] at madeMiddle
      · rw [madeMiddle] at madeToo
        cases madeToo
        exact .inr ⟨_, _, _, _, made, madeLast, alike.trans further⟩

end FunctionFlow.Program
