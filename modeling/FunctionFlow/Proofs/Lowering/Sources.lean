import FunctionFlow.Proofs.Lowering.Faithful
import FunctionFlow.Proofs.Lowering.Housed
import FunctionFlow.Proofs.Lowering.Numbering
import FunctionFlow.Proofs.Program.References

/-!
Contract: programs made from source files.
-/

namespace FunctionFlow

variable {file : SourceFile}

/-- Some node of the file's tree has a range that lies outside the text. -/
def SourceFile.Unreadable (file : SourceFile) (failure : OutOfRange) : Prop :=
  Lowering.Unreadable file.tree.root (.ofString file.analysedText) failure

theorem SourceFile.Fits.readable (fits : file.Fits) (failure : OutOfRange) :
    ¬ file.Unreadable failure := by
  rintro ⟨node, inside, fails⟩
  obtain ⟨text, isText⟩ := Source.slice_ok (fits node inside.mem_all)
  rw [isText] at fails
  cases fails

namespace Program

variable {files : List SourceFile} {state : Lowering.State} {top : SourceModule} {program : Program}

def topContext (program : Program) (file : SourceFile) : Lowering.Context where
  source := .ofString file.analysedText
  file := program.files.size
  scope := program.scopes.size
  function := none
  receiver := none

def topState (program : Program) (file : SourceFile) : Lowering.State where
  program := ((program.addFile file.path).2.addScope .file none).2
  body := []

/-- The program once the next file is lowered, with the statements collected as its top-level
code. -/
def withTop (program : Program) (state : Lowering.State) : Program :=
  { state.program with
    modules := state.program.modules.push
      { file := program.files.size, scope := program.scopes.size, body := state.body } }

theorem extends_topState (program : Program) (file : SourceFile) :
    program.Extends (program.topState file).program :=
  { Extends.addScope program .file none with files := by simp [topState, addFile, addScope] }

theorem extends_withTop (program : Program) (state : Lowering.State) :
    state.program.Extends (program.withTop state) :=
  { Extends.refl state.program with }

theorem Housed.start (housed : program.Housed) (file : SourceFile) :
    Lowering.Housed (program.topContext file) (program.topState file) := by
  have extended := extends_topState program file
  have noParent : ∀ outer ∈ (none : Option ScopeId), outer < program.scopes.size := by simp
  obtain ⟨parents, ownScope, distinct, names⟩ := housed.wellScoped.addScope .file noParent
  refine ⟨housed.keep extended ⟨parents, ownScope, distinct, names⟩
    (fun found _ => .inl ⟨_, found, rfl, rfl⟩) (fun isBody inside => .inl ⟨_, isBody, inside⟩),
    List.forall_mem_nil _, .top Array.getElem?_push_size ?_ rfl⟩
  intro id definition found
  exact Nat.ne_of_lt (housed.wellScoped.ownScope_lt found)

theorem Housed.addModule (housed : program.Housed)
    (lives : ∀ stmt ∈ top.body, stmt.LivesIn program none) :
    { program with modules := program.modules.push top }.Housed := by
  have extended : program.Extends { program with modules := program.modules.push top } :=
    { Extends.refl program with }
  obtain ⟨parents, ownScope, distinct, names⟩ := housed.wellScoped
  refine housed.keep extended ⟨parents, ownScope, distinct, names⟩
    (fun found _ => .inl ⟨_, found, rfl, rfl⟩) ?_
  intro owner body stmt isBody inside
  rcases mem_bodies.mp isBody with ⟨other, isTop, rfl, rfl⟩ | isFunction
  · rcases Array.mem_push.mp isTop with old | rfl
    · exact .inl ⟨_, mem_bodies.mpr (.inl ⟨other, old, rfl, rfl⟩), inside⟩
    · exact .inr ((lives stmt inside).mono extended)
  · exact .inl ⟨_, mem_bodies.mpr (.inr isFunction), inside⟩

theorem exprs_addModule_perm (isBody : top.body = state.body) :
    ({ state.program with modules := state.program.modules.push top }.exprs).Perm state.exprs := by
  rw [Lowering.State.exprs, exprs_eq, exprs_eq, ← isBody]
  simp only [Array.toList_push, List.flatMap_append, List.flatMap_cons, List.flatMap_nil,
    List.append_nil, List.append_assoc]
  exact List.perm_append_comm.append_left _

theorem numbered_addModule (numbered : Lowering.Numbered state [])
    (isBody : top.body = state.body) :
    Lowering.Numbered { program := { state.program with modules := state.program.modules.push top }
                        body := [] } [] := by
  refine numbered.of_perm ?_ (Nat.le_refl _)
  apply List.Perm.append_right
  apply List.Perm.map
  rw [Lowering.State.exprs, List.flatMap_nil, List.append_nil]
  exact exprs_addModule_perm isBody

/-- What holds of a program into which files have been lowered. -/
structure Lowered (program : Program) : Prop where
  inRange : program.InRange
  unwritten : program.Unwritten
  housed : program.Housed
  numbered : Lowering.Numbered { program, body := [] } []

theorem Lowered.parentsFirst (lowered : program.Lowered) : program.ParentsFirst :=
  lowered.housed.wellScoped.parents

theorem Lowered.sound_start (lowered : program.Lowered) (file : SourceFile) :
    Lowering.Sound (program.topContext file) (program.topState file) := by
  refine ⟨lowered.inRange.grow (extends_topState program file).sizes (fun _ => .inl) (fun _ => .inl)
    (fun _ => .inl) ?_ (fun _ => .inl), List.forall_mem_nil _, ?_,
    lowered.unwritten, lowered.parentsFirst.addScope .file (by simp)⟩
  · intro scope member
    refine (Array.mem_push.mp member).imp_right ?_
    rintro rfl
    exact ⟨by simp [topState, Program.sizes, addFile, addScope], by simp, List.forall_mem_nil _⟩
  · constructor <;> simp [topContext, topState, Program.sizes, addFile, addScope]

theorem addSource_eq (program : Program) (file : SourceFile) :
    program.addSource file =
      (((Lowering.Rules.atHeight file.tree.root.height).statements (program.topContext file)
        file.tree.root).run (program.topState file) >>= fun outcome =>
          return program.withTop outcome.2) := rfl

section

variable (lowered : program.Lowered)
include lowered

theorem Lowered.addSource_cases (file : SourceFile) :
    match program.addSource file with
    | .ok after => ∃ state, Lowering.Lowers file.tree.root (program.topContext file)
        (program.topState file) [] state ∧ after = program.withTop state
    | .error failure => file.Unreadable failure := by
  have inside : Node.Inside file.tree.root file.tree.root := .self
  have outcome := (Lowering.Rules.atHeight_faithful file.tree.root.height).statements inside _
    (lowered.sound_start file)
  unfold Lowering.Outcome at outcome
  rw [addSource_eq]
  split at outcome
  · rename_i state ran
    rw [ran]
    exact ⟨state, outcome, rfl⟩
  · rename_i ran
    rw [ran]
    exact outcome

theorem Lowered.addSource_lowers {after : Program} (added : program.addSource file = .ok after) :
    ∃ state, Lowering.Lowers file.tree.root (program.topContext file) (program.topState file) []
      state ∧ after = program.withTop state := by
  have cases := lowered.addSource_cases file
  rwa [added] at cases

theorem Lowered.withTop (derived : Lowering.Lowers file.tree.root (program.topContext file)
      (program.topState file) [] state) : (program.withTop state).Lowered := by
  have sound := derived.sound (lowered.sound_start file)
  have housed := (derived.housed_and_calledFrom (lowered.housed.start file)).1
  have numbered := derived.numbered ⟨lowered.numbered.distinct, lowered.numbered.below⟩
  refine ⟨sound.program.grow (TableSizes.le_refl _) (fun _ => .inl) (fun _ => .inl)
    (fun _ => .inl) (fun _ => .inl) ?_, sound.unwritten, housed.program.addModule housed.body,
    numbered_addModule numbered rfl⟩
  intro top member
  refine (Array.mem_push.mp member).imp_right ?_
  rintro rfl
  exact ⟨sound.context.file, sound.context.scope, sound.body⟩

theorem Lowered.addSource_outcome (file : SourceFile) :
    match program.addSource file with
    | .ok after => after.Lowered
    | .error failure => file.Unreadable failure := by
  have outcome := lowered.addSource_cases file
  split at outcome
  · obtain ⟨state, derived, rfl⟩ := outcome
    exact lowered.withTop derived
  · exact outcome

theorem Lowered.addSources_outcome (files : List SourceFile) :
    match program.addSources files with
    | .ok after => after.Lowered
    | .error failure => ∃ file ∈ files, file.Unreadable failure := by
  induction files generalizing program with
  | nil => exact lowered
  | cons first rest inductionHypothesis =>
    have outcome := lowered.addSource_outcome first
    rw [addSources]
    cases added : program.addSource first with
    | error failure =>
      rw [added] at outcome
      exact ⟨first, List.mem_cons_self, outcome⟩
    | ok middle =>
      rw [added] at outcome
      have later := inductionHypothesis outcome
      rw [Checked.ok_bind]
      split at later
      · exact later
      · obtain ⟨file, member, unreadable⟩ := later
        exact ⟨file, List.mem_cons_of_mem _ member, unreadable⟩

end

theorem lowered_empty : ({} : Program).Lowered where
  inRange := by decide
  unwritten := by simp [Unwritten]
  housed := by
    refine ⟨⟨?_, ?_, ?_, ?_⟩, ?_, ?_⟩ <;> simp [bodies, ParentsFirst]
  numbered := ⟨List.nodup_nil, List.forall_mem_nil _⟩

/-- What the lowering of one file after the other keeps holds of the program of all files. The files
lowered so far are `done`. -/
theorem Lowered.addSources_steps {holds : List SourceFile → Program → Prop} {done : List SourceFile}
    {after : Program}
    (step : ∀ {done program file next}, file ∈ files → program.Lowered → holds done program →
      program.addSource file = .ok next → holds (done ++ [file]) next) (lowered : program.Lowered)
    (begins : holds done program) (added : program.addSources files = .ok after) :
    holds (done ++ files) after := by
  induction files generalizing program done with
  | nil =>
    cases added
    rw [List.append_nil]
    exact begins
  | cons first rest inductionHypothesis =>
    obtain ⟨middle, addedFirst, addedRest⟩ := Checked.bind_eq_ok.mp added
    have outcome := lowered.addSource_outcome first
    rw [addedFirst] at outcome
    rw [List.append_cons]
    exact inductionHypothesis (fun member => step (List.mem_cons_of_mem _ member)) outcome
      (step List.mem_cons_self lowered begins addedFirst) addedRest

theorem addSources_steps (holds : List SourceFile → Program → Prop) {after : Program}
    (step : ∀ {done program file next}, file ∈ files → program.Lowered → holds done program →
      program.addSource file = .ok next → holds (done ++ [file]) next) (begins : holds [] {})
    (added : ({} : Program).addSources files = .ok after) : holds files after :=
  lowered_empty.addSources_steps step begins added

theorem addSources_run (holds : List SourceFile → Program → Prop) {after : Program}
    (step : ∀ {done program file state}, file ∈ files → program.Lowered → holds done program →
      Lowering.Lowers file.tree.root (program.topContext file) (program.topState file) [] state →
      holds (done ++ [file]) (program.withTop state)) (begins : holds [] {})
    (added : ({} : Program).addSources files = .ok after) : holds files after := by
  refine addSources_steps holds (fun member lowered holdsBefore addedFile => ?_) begins added
  obtain ⟨state, derived, rfl⟩ := lowered.addSource_lowers addedFile
  exact step member lowered holdsBefore derived

/-- Files make a program in range whose function values are written in it; the only obstacle is a
file whose tree does not fit its text. -/
theorem ofSources_outcome (files : List SourceFile) :
    match Program.ofSources files with
    | .ok parsed => parsed.program.InRange ∧ parsed.program.LiteralsWritten
    | .error failure => ∃ file ∈ files, file.Unreadable failure := by
  have lowered := lowered_empty.addSources_outcome files
  unfold Program.ofSources
  split at lowered
  · rename_i program added
    obtain ⟨bound, resolved, inRange, written⟩ :=
      bind_ok lowered.inRange lowered.parentsFirst lowered.unwritten
    rw [added, Checked.ok_bind, resolved]
    exact ⟨inRange, written⟩
  · rename_i failure failed
    rw [failed]
    exact lowered

theorem ofSources_inRange {parsed : Parsed} (made : Program.ofSources files = .ok parsed) :
    parsed.program.InRange := by
  have outcome := ofSources_outcome files
  rw [made] at outcome
  exact outcome.1

theorem ofSources_bindsTo {parsed : Parsed} (made : Program.ofSources files = .ok parsed) :
    ∃ program, ({} : Program).addSources files = .ok program ∧ program.Lowered ∧
      program.BindsTo parsed.program := by
  obtain ⟨program, added, made⟩ := Checked.bind_eq_ok.mp made
  obtain ⟨bound, ran, made⟩ := Checked.bind_eq_ok.mp made
  cases made
  have lowered := lowered_empty.addSources_outcome files
  rw [added] at lowered
  exact ⟨program, added, lowered, bind_bindsTo ran⟩

/-- In the program of a list of files everything belongs to the function in whose body it stands,
and no two expressions share an identity. -/
theorem ofSources_housed {parsed : Parsed} (made : Program.ofSources files = .ok parsed) :
    parsed.program.Housed ∧ (parsed.program.exprs.map Expr.node).Nodup := by
  obtain ⟨program, _, lowered, binds⟩ := ofSources_bindsTo made
  refine ⟨lowered.housed.bindsTo binds, ?_⟩
  rw [binds.map_node]
  have distinct := lowered.numbered.distinct
  simpa [Lowering.State.nodes, Lowering.State.exprs] using distinct

theorem ofSources_parentsFirst {parsed : Parsed} (made : Program.ofSources files = .ok parsed) :
    parsed.program.ParentsFirst :=
  (ofSources_housed made).1.wellScoped.parents

end Program

end FunctionFlow
