import FunctionFlow.Proofs.Lowering.Outcome

/-!
Contract: the rules for the forms of a tree follow derivations.

Each rule is taken by itself, and the rules for lower trees are only known to be faithful.
-/

namespace FunctionFlow.Lowering

variable {root node : Node} {context : Context} {state : State} {inner : Rules}

section

variable {hint : Option String} {function : FunctionId} {kind : DeclKind} {target : Option Node}
  (faithful : inner.Faithful)
include faithful

/-! ### Patterns, imports and exports -/

theorem bindPattern_outcome {scope : ScopeId} {key : Option String} (sound : Sound context state)
    (inSight : state.program.LeavesBlocks context.scope scope) (admits : context.Admits kind) :
    Outcome node context.source (bindPattern inner context node scope kind key) state fun _ after =>
      Lowers node context state [] after := by
  unfold bindPattern
  split
  · refine (declare_outcome kind sound .self inSight admits).bind
      fun decl after ⟨lowered, known⟩ => ?_
    cases key with
    | none => exact .pure lowered
    | some key => exact readInto_outcome lowered (lowered.sound sound) known
  · refine (declare_outcome kind sound .self inSight admits).bind
      fun decl after ⟨lowered, known⟩ => ?_
    exact (text_reads .self).andThen fun _ => readInto_outcome lowered (lowered.sound sound) known
  · have right {middle : State} (lowered : Lowers node context state [] middle) :=
      optional_outcome (node.field? "right")
        (fun child found => faithful.effects (.field .self found)) lowered
        (lowered.sound sound)
    cases found : node.field? "left" with
    | none => exact right .done
    | some left =>
      exact (faithful.patternIn kind (.field .self found) sound inSight admits).bind
        fun _ _ lowered => right lowered
  · refine (propertyKey?_reads fun _ found => .field .self found).andThen fun key => ?_
    split
    · rename_i value found
      exact faithful.patternIn kind (.field .self found) sound inSight admits
    · exact .pure .done
  · exact forM_outcome (fun extended => extended.leavesBlocks)
      (fun part member state sound inSight =>
        faithful.patternIn kind (.part .self member) sound inSight admits) sound inSight
  · exact .pure .done

omit faithful in
theorem declareImport_follows {imported : String} (inside : Node.Inside root node) :
    Follows root context (declareImport context node imported) fun _ => [] := fun _ sound =>
  (declare_outcome .imported sound inside .here trivial).bind fun _ _ ⟨lowered, known⟩ =>
    readInto_outcome lowered (lowered.sound sound) known

omit faithful in
theorem importSpecifier_follows (inside : Node.Inside root node) :
    Follows root context (importSpecifier context node) fun _ => [] := by
  intro state sound
  refine (propertyKey?_reads fun _ found => inside.field found).andThen fun imported => ?_
  split
  · rename_i visible imported isVisible
    refine declareImport_follows ?_ state sound
    rcases Option.or_eq_some_iff.mp isVisible with isAlias | ⟨_, isName⟩
    · exact inside.field isAlias
    · exact inside.field isName
  · exact .pure .done

theorem importPart_follows (inside : Node.Inside root node) :
    Follows root context (match node.kind with
      | "identifier" => declareImport context node "default"
      | "import_specifier" => importSpecifier context node
      | "namespace_import" =>
        node.parts.forM fun name => discard <| declare context context.scope name .imported
      | _ => inner.imports context node) fun _ => [] := by
  split
  · exact declareImport_follows inside
  · exact importSpecifier_follows inside
  · refine forM_follows fun name isName _ sound => ?_
    exact ((declare_outcome .imported sound (inside.part isName) .here trivial).mono
      fun _ _ => And.left).discard
  · exact (faithful.imports context node).widen inside

theorem importClause_follows :
    Follows node context (importClause inner context node) fun _ => [] :=
  forM_follows fun _ member => importPart_follows faithful (.part .self member)

theorem importStatement_follows :
    Follows node context (importStatement inner context node) fun _ => [] :=
  forM_follows fun clause member => (faithful.imports context clause).widen
    (.part .self (List.mem_filter.mp member).1)

omit faithful in
theorem exportSpecifier_follows (inside : Node.Inside root node) :
    Follows root context (exportSpecifier context node) fun _ => [] := by
  intro state sound
  refine (propertyKey?_reads fun _ found => inside.field found).andThen fun renamed => ?_
  split
  · rename_i name renamed isName
    split
    · refine (text_reads (inside.field isName)).andThen fun spelled => ?_
      split
      · exact .pure .done
      · exact (reference_follows (inside.field isName)).andThen sound
          fun _ _ lowered _ => exportProperty_outcome lowered
    · exact .pure .done
  · exact .pure .done

theorem exportStatement_follows :
    Follows node context (exportStatement inner context node) fun _ => [] := by
  intro state sound
  unfold exportStatement
  split
  · rename_i declaration isDeclaration
    have inside := Node.Inside.self.field isDeclaration
    refine (faithful.statementIn inside).andThen sound fun _ _ lowered soundAfter => ?_
    split
    · rename_i name _ isName
      exact (reference_follows (inside.field isName)).andThen soundAfter
        fun _ _ loweredName _ => exportProperty_outcome (lowered.seq loweredName)
    · exact .pure lowered
  · rename_i value _ isValue
    exact (faithful.expressionIn (.field .self isValue)).andThen sound
      fun _ _ lowered _ => exportProperty_outcome lowered
  · split
    · refine forM_follows (fun clause isClause => forM_follows fun part isPart => ?_) state sound
      have inside := Node.Inside.self.part (List.mem_filter.mp isClause).1
      exact exportSpecifier_follows (inside.part isPart)
    · exact .pure .done

/-! ### Functions -/

/-- While the head of a function is lowered, the names in its scope are declared in the trees that
have been lowered, and its own name stands for the function. -/
structure Head (context : Context) (own : Option Node) (earlier : List Node) (program : Program) :
    Prop where
  declared : ∀ {name decl}, program.Names context.scope name decl →
    program.DeclaredIn earlier context.source name decl
  own : ∀ node ∈ own, ∀ {name}, node.Spells context.source name →
    ∃ decl entry, program.Names context.scope name decl ∧ program.decls[decl]? = some entry ∧
      entry.kind = .function

section

variable {own : Option Node} {earlier : List Node}

omit faithful in
theorem Head.extend (head : Head context own earlier state.program) (sound : Sound context state)
    {tree : Node} {exprs : List Expr} {after : State}
    (lowered : Lowers tree context state exprs after) :
    Head context own (earlier ++ [tree]) after.program where
  declared named := by
    rcases lowered.names_declared sound.context.scope named with known | declared
    · refine ((head.declared known).extend lowered.extends).widen fun part isPart => ?_
      exact ⟨part, List.mem_append_left _ isPart, .self⟩
    · exact declared.widen fun part isPart => ⟨part, List.mem_append_right _ isPart, .self⟩
  own node isOwn _ spells := by
    obtain ⟨decl, entry, named, found, kind⟩ := head.own node isOwn spells
    obtain ⟨later, isLater, same⟩ := lowered.extends.decls _ _ found
    exact ⟨decl, later, named.extend lowered.extends, isLater,
      (congrArg Declaration.kind same).trans kind⟩

omit faithful in
theorem Head.takesOne {index : Nat} {name : String} {span : Span} {decl : DeclId} {after : Program}
    (head : Head context own earlier state.program) (spells : node.Spells context.source name)
    (declared : state.program.declare context.scope name (.parameter function index) context.file
      span = .ok (decl, after)) :
    TakesOne context.source after function context.scope own earlier index node (some decl) := by
  have extended := Program.Extends.declare declared
  obtain ⟨named, origin⟩ := Program.names_of_declare declared
  have ownKind {entry : Declaration} (found : after.decls[decl]? = some entry) (other : Node)
      (isOwn : other ∈ own) (spellsToo : other.Spells context.source name) :
      entry.kind = .function := by
    obtain ⟨_, _, ownNamed, ownFound, kind⟩ := head.own other isOwn spellsToo
    cases named.unique (ownNamed.extend extended)
    obtain ⟨later, isLater, same⟩ := extended.decls _ _ ownFound
    cases found.symm.trans isLater
    exact (congrArg Declaration.kind same).trans kind
  rcases origin with known | ⟨entry, found, kind⟩
  · have before := (head.declared known).extend extended
    have ⟨entry, found, _⟩ := before
    exact ⟨name, entry, spells, named, found, .inr before, ownKind found⟩
  · exact ⟨name, entry, spells, named, found, .inl kind, ownKind found⟩

theorem parameter_outcome {index : Nat} {initial : Option Node} (inside : Node.Inside root node)
    (initialInside : ∀ child ∈ initial, Node.Inside root child)
    (isFunction : context.function = some function) (sound : Sound context state)
    (head : Head context own earlier state.program) :
    Outcome root context.source (parameter inner context function index node initial) state
      fun param after => Lowers root context state [] after ∧
        Head context own (earlier ++ parameterTrees [(node, initial)]) after.program ∧
        TakesOne context.source after.program function context.scope own earlier index node
          param := by
  unfold parameter
  split
  · refine (declare_runs (.parameter function index) sound inside .here).bind ?_
    rintro decl _ ⟨name, program, spells, declared, rfl⟩
    have known := Program.declares_of_declare declared .here
    have admits : context.Admits (.parameter function index) := isFunction
    have lowered : Lowers node context state [] { state with program } :=
      .declare .self .here admits spells declared
    have takes := head.takesOne spells declared
    have soundAfter := lowered.sound sound
    have headAfter := head.extend sound lowered
    cases initial with
    | none => exact .pure ⟨lowered.widen inside, headAfter, takes⟩
    | some initial =>
      refine (text_reads inside).andThen fun name => ?_
      refine ((faithful.expression context initial (some name)).andThen soundAfter
        fun value _ loweredValue _ => ?_).widen (initialInside initial rfl)
      refine (emit_outcome loweredValue
        (.declare (some value) (loweredValue.extends.declares known))).bind
        fun _ _ loweredInitial => ?_
      have headInitial := headAfter.extend soundAfter loweredInitial
      rw [List.append_assoc] at headInitial
      exact .pure ⟨(lowered.widen inside).seq (loweredInitial.widen (initialInside initial rfl)),
        headInitial, takes.extend loweredInitial.extends⟩
  · rename_i notName
    refine ((faithful.pattern context node context.scope .lexical none state sound .here
      trivial).widen inside).bind fun _ _ lowered => ?_
    have soundAfter := lowered.sound sound
    have headAfter := head.extend sound lowered
    cases initial with
    | none => exact .pure ⟨lowered.widen inside, headAfter, notName⟩
    | some initial =>
      refine ((faithful.effects .self).andThen soundAfter fun _ _ loweredInitial _ => ?_).widen
        (initialInside initial rfl)
      have headInitial := headAfter.extend soundAfter loweredInitial
      rw [List.append_assoc] at headInitial
      exact .pure ⟨(lowered.widen inside).seq (loweredInitial.widen (initialInside initial rfl)),
        headInitial, notName⟩

theorem parameterList_outcome {index : Nat} {items : List (Node × Option Node)}
    (inside : ∀ pattern initial, (pattern, initial) ∈ items →
      Node.Inside root pattern ∧ ∀ child ∈ initial, Node.Inside root child)
    (isFunction : context.function = some function) (sound : Sound context state)
    (head : Head context own earlier state.program) :
    Outcome root context.source (parameterList inner context function index items) state
      fun params after => Lowers root context state [] after ∧
        Takes context.source after.program function context.scope own earlier index items
          params := by
  induction items generalizing index state earlier with
  | nil => exact .pure ⟨.done, .nil⟩
  | cons first rest inductionHypothesis =>
    obtain ⟨pattern, initial⟩ := first
    obtain ⟨patternInside, initialInside⟩ := inside pattern initial List.mem_cons_self
    refine (parameter_outcome faithful patternInside initialInside isFunction sound head).bind
      fun param _ ⟨lowered, headAfter, takes⟩ => ?_
    refine (inductionHypothesis
      (fun pattern initial member => inside pattern initial (List.mem_cons_of_mem _ member))
      (lowered.sound sound) headAfter).bind fun params _ ⟨loweredRest, takesRest⟩ => ?_
    exact .pure ⟨lowered.seq loweredRest, .cons (takes.extend loweredRest.extends) takesRest⟩

omit faithful in
theorem inside_of_parameterParts {pattern : Node} {initial : Option Node}
    (inside : Node.Inside root node) (parts : parameterParts node = some (pattern, initial)) :
    Node.Inside root pattern ∧ ∀ child ∈ initial, Node.Inside root child := by
  unfold parameterParts at parts
  split at parts
  iterate 2
    · split at parts
      · rename_i found
        split at parts
        · cases parts
        · cases parts
          exact ⟨inside.field found, fun _ isChild => inside.field isChild⟩
      · cases parts
  · obtain ⟨left, found, same⟩ := Option.map_eq_some_iff.mp parts
    cases same
    exact ⟨inside.field found, fun _ isChild => inside.field isChild⟩
  · cases parts
    exact ⟨inside, nofun⟩

theorem parameters_outcome (isFunction : context.function = some function)
    (sound : Sound context state) (head : Head context own earlier state.program) :
    Outcome node context.source (parameters inner context node function) state
      fun params after => Lowers node context state [] after ∧
        Takes context.source after.program function context.scope own earlier 1
          (parameterNodes node) params := by
  unfold parameters
  split
  · rename_i single isSingle
    have inside := Node.Inside.self.field isSingle
    have admits : context.Admits (.parameter function 1) := isFunction
    have isList : parameterNodes node = [(single, none)] := by simp [parameterNodes, isSingle]
    refine (declare_runs (.parameter function 1) sound inside .here).bind ?_
    rintro decl _ ⟨name, program, spells, declared, rfl⟩
    rw [isList]
    exact .pure ⟨.declare inside .here admits spells declared,
      .cons (head.takesOne spells declared) .nil⟩
  · rename_i list noSingle isList
    rw [show parameterNodes node = list.parts.filterMap parameterParts by
      simp [parameterNodes, noSingle, isList]]
    refine parameterList_outcome faithful (fun pattern initial member => ?_) isFunction sound head
    obtain ⟨part, isPart, parts⟩ := List.mem_filterMap.mp member
    exact inside_of_parameterParts ((Node.Inside.self.field isList).part isPart) parts
  · rename_i noSingle noList
    rw [show parameterNodes node = [] by simp [parameterNodes, noSingle, noList]]
    exact .pure ⟨.done, .nil⟩

end

theorem functionBody_follows :
    Follows node context (functionBody inner context node) fun _ => [] := by
  intro state sound
  unfold functionBody
  split
  · rename_i body isBody
    have inside := Node.Inside.self.field isBody
    split
    · exact faithful.statements inside state sound
    · exact (faithful.expressionIn inside).andThen sound
        fun value _ lowered _ => emit_outcome lowered (.result (some value))
  · exact .pure .done

omit faithful in
/-- A name is declared and initialised with a known function. In a scope without names it then
stands for the function. -/
theorem declareOwnName_outcome (inside : Node.Inside root node) (sound : Sound context state)
    (known : function < state.program.functions.size) :
    Outcome root context.source (declareOwnName context node function) state fun _ after =>
      Lowers root context state [] after ∧
        (Head context none [] state.program → Head context (some node) [node] after.program) := by
  refine (declare_runs .function sound inside .here).bind ?_
  rintro decl _ ⟨name, program, spells, declared, rfl⟩
  have admits : context.Admits .function := trivial
  have lowered : Lowers node context state [] { state with program } :=
    .declare .self .here admits spells declared
  have stillKnown := Nat.lt_of_lt_of_le known lowered.extends.sizes.functions
  have inSight := Program.declares_of_declare declared .here
  refine ⟨.emit ((lowered.widen inside).build (.function stillKnown))
    (.declare (some _) (State.extends_numbered.declares inSight)), fun head => ?_⟩
  refine ⟨(head.extend sound lowered).declared, ?_⟩
  rintro _ ⟨⟩ other spellsToo
  cases spells.symm.trans spellsToo
  obtain ⟨named, old | ⟨entry, found, kind⟩⟩ := Program.names_of_declare declared
  · obtain ⟨_, _, _, member, _⟩ := head.declared old
    cases member
  · exact ⟨decl, entry, named, found, kind⟩

omit faithful in
theorem closeFunction_outcome {id : FunctionId} {definition : FunctionDef}
    {params : List (Option DeclId)} {outer : List Stmt}
    (found : state.program.functions[id]? = some definition) :
    Outcome root context.source (closeFunction id params outer) state fun _ after =>
      after = state.setFunction id { definition with params, body := state.body } outer := by
  refine Outcome.get.bind ?_
  rintro _ _ ⟨rfl, rfl⟩
  rw [Program.function, fetch_eq_ok.mpr found]
  rfl

omit faithful in
theorem ownName?_eq (node : Node) : ownName? node = if bindsOwnName node.kind then
    if node.kind = "method_definition" then none else node.field? "name" else none := by
  unfold ownName?
  by_cases isMethod : node.kind = "method_definition"
  · rw [isMethod]
    rfl
  · rw [if_neg isMethod]

theorem functionRest_outcome {name : Option String} {isArrow : Bool} {middle : State}
    (sound : Sound context state)
    (lowered : Lowers node (context.inFunction state isArrow)
      (state.withFunction context.scope (context.functionAt state node name isArrow)) [] middle)
    (head : Head (context.inFunction state isArrow) (ownName? node) (ownName? node).toList
      middle.program) :
    Outcome node context.source (do
      let params ← parameters inner (context.inFunction state isArrow) node
        state.program.functions.size
      functionBody inner (context.inFunction state isArrow) node
      closeFunction state.program.functions.size params state.body
      return state.program.functions.size) middle fun id after =>
        Lowers node context state [] after ∧ id < after.program.functions.size := by
  have soundMiddle := lowered.sound (sound.inFunction node name isArrow)
  refine (parameters_outcome faithful rfl soundMiddle head).bind ?_
  rintro params afterParams ⟨loweredParams, takes⟩
  have soundParams := loweredParams.sound soundMiddle
  refine (functionBody_follows faithful).andThen soundParams fun _ after loweredBody _ => ?_
  have loweredAll := (lowered.seq loweredParams).seq loweredBody
  have known : state.program.functions.size < after.program.functions.size :=
    Nat.lt_of_lt_of_le (by simp [State.withFunction, Program.sizes])
      loweredAll.extends.sizes.functions
  have found := Array.getElem?_eq_getElem known
  refine (closeFunction_outcome found).bind ?_
  rintro _ _ rfl
  refine .pure ⟨.function .self loweredAll found (takes.extend loweredBody.extends), ?_⟩
  simpa [State.setFunction] using known

theorem functionDef_outcome (sound : Sound context state) :
    Outcome node context.source (functionDef inner context node hint) state fun id after =>
      Lowers node context state [] after ∧ id < after.program.functions.size := by
  unfold functionDef
  extract_lets ownName isArrow
  have ownInside : ∀ child ∈ ownName, Node.Inside node child := by
    intro child isChild
    simp only [ownName] at isChild
    split at isChild
    · cases isChild
    · exact Node.Inside.self.field isChild
  refine (text?_reads ownInside).andThen fun spelled => ?_
  dsimp only
  generalize spelled.or hint = name
  have opened : Outcome node context.source (openFunction context node name isArrow) state
      fun result after => result = (state.program.functions.size, state.program.scopes.size) ∧
        after = { state.withFunction context.scope (context.functionAt state node name isArrow) with
          body := state.body } := ⟨rfl, rfl⟩
  refine opened.bind ?_
  rintro _ _ ⟨rfl, rfl⟩
  have taken (before : State) : Outcome node context.source takeBody before fun outer after =>
      outer = before.body ∧ after = { before with body := [] } := ⟨rfl, rfl⟩
  refine (taken _).bind ?_
  rintro _ _ ⟨rfl, rfl⟩
  dsimp only
  have noNames : Head (context.inFunction state isArrow) none []
      (state.withFunction context.scope (context.functionAt state node name isArrow)).program := by
    refine ⟨?_, nofun⟩
    rintro _ _ ⟨table, found, known⟩
    cases Array.getElem?_push_size.symm.trans found
    cases known
  split
  · rename_i own isOwn binds
    have isOwnName : ownName? node = some own := by
      rw [ownName?_eq, if_pos binds]
      exact isOwn
    refine (declareOwnName_outcome (ownInside own isOwn) (sound.inFunction node name isArrow)
      ?_).bind ?_
    · simp [State.withFunction]
    · rintro _ _ ⟨lowered, head⟩
      exact functionRest_outcome faithful sound lowered (isOwnName ▸ head noNames)
  · rename_i notOwn
    have noName : ownName? node = none := by
      rw [ownName?_eq, ite_eq_right_iff, Option.eq_none_iff_forall_ne_some]
      exact fun binds own isOwn => notOwn own isOwn binds
    exact functionRest_outcome faithful sound .done (noName ▸ noNames)

theorem functionDefIn_outcome (inside : Node.Inside root node) (sound : Sound context state) :
    Outcome root context.source (functionDef inner context node hint) state fun id after =>
      Lowers root context state [] after ∧ id < after.program.functions.size :=
  ((functionDef_outcome faithful sound).mono fun _ _ ⟨lowered, known⟩ =>
    ⟨lowered.widen inside, known⟩).widen inside

theorem functionExpr_follows (inside : Node.Inside root node) :
    Follows root context (functionExpr inner context node hint) ([·]) := fun _ sound =>
  (functionDefIn_outcome faithful inside sound).bind fun _ _ ⟨lowered, known⟩ =>
    fresh_outcome lowered (.function known)

/-! ### Classes -/

def ClassMember.exprs : ClassMember → List Expr
  | .property entry => [entry.value]
  | .constructor _ | .nothing => []

def ClassMember.Known (program : Program) : ClassMember → Prop
  | .constructor function => function < program.functions.size
  | .property _ | .nothing => True

omit faithful in
theorem ClassMember.Known.mono {member : ClassMember} {before after : Program}
    (extended : before.Extends after) (known : member.Known before) : member.Known after := by
  cases member with
  | constructor => exact Nat.lt_of_lt_of_le known extended.sizes.functions
  | property | nothing => trivial

omit faithful in
theorem ClassMember.flatMap_exprs (members : List ClassMember) :
    members.flatMap ClassMember.exprs = (ClassMember.properties members).map Property.value := by
  induction members with
  | nil => rfl
  | cons first rest inductionHypothesis =>
    rw [List.flatMap_cons, inductionHypothesis]
    cases first <;> rfl

omit faithful in
theorem ClassMember.mem_of_constructor? {members : List ClassMember}
    (found : ClassMember.constructor? members = some function) :
    .constructor function ∈ members := by
  obtain ⟨member, isMember, isConstructor⟩ := List.mem_filterMap.mp (List.mem_of_getLast? found)
  cases member with
  | constructor =>
    cases isConstructor
    exact isMember
  | property | nothing => cases isConstructor

theorem classMember_outcome {className : Option String} (inside : Node.Inside root node)
    (sound : Sound context state) :
    Outcome root context.source (classMember inner context className node) state
      fun member after => Lowers root context state member.exprs after ∧
        member.Known after.program := by
  unfold classMember
  split
  · refine (propertyKey?_reads fun _ found => inside.field found).andThen fun key => ?_
    split
    · exact (functionDefIn_outcome faithful inside sound).bind
        fun _ _ ⟨lowered, known⟩ => .pure ⟨lowered, known⟩
    · exact (functionExpr_follows faithful inside).andThen sound
        fun _ _ lowered _ => .pure ⟨lowered, trivial⟩
  iterate 2
    · refine (propertyKey?_reads ?_).andThen fun key => ?_
      · intro child isChild
        rcases Option.or_eq_some_iff.mp isChild with isProperty | ⟨_, isName⟩
        · exact inside.field isProperty
        · exact inside.field isName
      · split
        · rename_i value isValue
          exact (faithful.expressionIn (inside.field isValue)).andThen sound
            fun _ _ lowered _ => .pure ⟨lowered, trivial⟩
        · exact .pure ⟨.done, trivial⟩
  · exact (faithful.statementIn inside).andThen sound
      fun _ _ lowered _ => .pure ⟨lowered, trivial⟩
  · exact .pure ⟨.done, trivial⟩

theorem classPart_outcome {className : Option String} (inside : Node.Inside root node)
    (sound : Sound context state) :
    Outcome root context.source (classPart inner context className node) state
      fun members after => Lowers root context state (members.flatMap ClassMember.exprs) after ∧
        ∀ member ∈ members, member.Known after.program := by
  unfold classPart
  split
  · exact (forM_follows fun _ member => faithful.effects (inside.part member)).andThen sound
      fun _ _ lowered _ => .pure ⟨lowered, nofun⟩
  · exact mapM_outcome ClassMember.exprs (fun member program => member.Known program)
      (fun _ _ _ extended known => known.mono extended)
      (fun part member _ sound => classMember_outcome faithful (inside.part member) sound) sound
  · exact .pure ⟨.done, nofun⟩

theorem classDef_outcome (inside : Node.Inside root node) (sound : Sound context state) :
    Outcome root context.source (classDef inner context node hint) state fun expr after =>
      ∃ middle, Lowers root context state [] middle ∧ after = middle.numbered ∧
        Builds context middle.program middle.program.nextNode [] expr := by
  refine (text?_reads fun _ found => inside.field found).andThen fun spelled => ?_
  refine (mapM_outcome (fun members => members.flatMap ClassMember.exprs)
    (fun members program => ∀ member ∈ members, member.Known program)
    (fun _ _ _ extended known member isMember => (known member isMember).mono extended)
    (fun part member _ sound => classPart_outcome faithful (inside.part member) sound) sound).bind
    fun results after ⟨lowered, known⟩ => ?_
  dsimp only
  have brought : (results.flatMap fun members => members.flatMap ClassMember.exprs) =
      (ClassMember.properties results.flatten).map Property.value := by
    rw [← ClassMember.flatMap_exprs, ← List.flatMap_id, List.flatMap_assoc]
    rfl
  rw [brought] at lowered
  have emitted := (lowered.build (.object _)).emit .expr
  -- the value of the class is its last constructor, which one of the parts has brought
  cases isConstructor : ClassMember.constructor? results.flatten with
  | none =>
    split
    · rename_i noProperty
      rw [noProperty] at lowered
      exact ⟨after, lowered, rfl, .inert⟩
    · exact fresh_andThen (emit_andThen ⟨_, emitted, rfl, .inert⟩)
  | some function =>
    obtain ⟨members, isPart, isMember⟩ :=
      List.mem_flatten.mp (ClassMember.mem_of_constructor? isConstructor)
    have isKnown := known members isPart _ isMember
    split
    · rename_i noProperty
      rw [noProperty] at lowered
      exact ⟨after, lowered, rfl, .function isKnown⟩
    · exact fresh_andThen (emit_andThen
        ⟨_, emitted, rfl, .function (isKnown.mono State.extends_numbered)⟩)

/-! ### Expressions -/

theorem callee_follows (inside : ∀ child ∈ target, Node.Inside root child) :
    Follows root context (callee inner context target) ([·]) := by
  intro state sound
  cases target with
  | none => exact inert_outcome .done
  | some target =>
    unfold callee
    dsimp only
    split
    · exact inert_outcome .done
    · exact faithful.expressionIn (inside target rfl) state sound

theorem arguments_follows {list : Option Node} (inside : ∀ child ∈ list, Node.Inside root child) :
    Follows root context (arguments inner context list) id := by
  intro state sound
  cases list with
  | none => exact .pure .done
  | some list =>
    have listInside := inside list rfl
    unfold arguments
    dsimp only
    split
    · exact faithful.expressions (fun _ member => listInside.part member) state sound
    · exact (faithful.effects listInside).andThen sound fun _ _ lowered _ => .pure lowered

omit faithful in
theorem closeCall_outcome {id : CallId} {site : CallSite} {arity : Nat} {hasReceiver : Bool}
    (found : state.program.calls[id]? = some site) :
    Outcome root context.source (closeCall id arity hasReceiver) state fun _ after =>
      after = state.setCall id { site with arity, hasReceiver } := by
  refine Outcome.get.bind ?_
  rintro _ _ ⟨rfl, rfl⟩
  rw [Program.call, fetch_eq_ok.mpr found]
  rfl

theorem call_follows {calleeField : String} {isNew : Bool} :
    Follows node context (call inner context node calleeField isNew) ([·]) := by
  intro state sound
  have opened : Outcome node context.source (openCall context node isNew) state fun id after =>
      id = state.program.calls.size ∧ after = state.withCall (context.callAt state node isNew) :=
    ⟨rfl, rfl⟩
  refine opened.bind ?_
  rintro _ _ ⟨rfl, rfl⟩
  have field {name : String} : ∀ child ∈ node.field? name, Node.Inside node child :=
    fun _ found => .field .self found
  refine (callee_follows faithful field).andThen (sound.withCall node isNew)
    fun target _ loweredTarget soundTarget => ?_
  refine (arguments_follows faithful field).andThen soundTarget
    fun args after loweredArgs _ => ?_
  have lowered := loweredTarget.seq loweredArgs
  have known : state.program.calls.size < after.program.calls.size :=
    Nat.lt_of_lt_of_le (by simp [State.withCall, Program.sizes]) lowered.extends.sizes.calls
  have found := Array.getElem?_eq_getElem known
  refine (closeCall_outcome found).bind ?_
  rintro _ _ rfl
  exact Lowers.call .self lowered found

omit faithful in
theorem assignmentHint_reads (inside : ∀ child ∈ target, Node.Inside root child) :
    Reads root context (assignmentHint context target) := by
  intro state
  cases target with
  | none => exact .pure rfl
  | some target =>
    have targetInside := inside target rfl
    unfold assignmentHint
    dsimp only
    split
    · exact (text_reads targetInside).andThen fun _ => .pure rfl
    · exact text?_reads (fun _ found => targetInside.field found) state
    · exact .pure rfl

theorem assignmentTarget_follows (inside : ∀ child ∈ target, Node.Inside root child) :
    Follows root context (assignmentTarget inner context target) ([·]) := by
  intro state sound
  cases target with
  | none => exact inert_outcome .done
  | some target =>
    have targetInside := inside target rfl
    unfold assignmentTarget
    dsimp only
    split
    · exact faithful.expressionIn targetInside state sound
    · exact faithful.inertParts targetInside state sound

theorem assignment_follows : Follows node context (assignment inner context node) ([·]) := by
  intro state sound
  have field {name : String} : ∀ child ∈ node.field? name, Node.Inside node child :=
    fun _ found => .field .self found
  refine (assignmentHint_reads field).andThen fun hint => ?_
  refine (faithful.expression? field).andThen sound fun value _ loweredValue soundValue => ?_
  refine (assignmentTarget_follows faithful field).andThen soundValue
    fun target _ loweredTarget _ => ?_
  exact fresh_outcome (loweredValue.seq loweredTarget) .assign

theorem objectMember_follows (inside : Node.Inside root node) :
    Follows root context (objectMember inner context node)
      fun entry => entry.toList.map Property.value := by
  intro state sound
  unfold objectMember
  split
  · refine (propertyKey?_reads fun _ found => inside.field found).andThen fun key => ?_
    split
    · rename_i value isValue
      exact (faithful.expressionIn (inside.field isValue)).andThen sound
        fun _ _ lowered _ => .pure lowered
    · exact .pure .done
  · refine (propertyKey?_reads fun _ found => inside.field found).andThen fun key => ?_
    exact (functionExpr_follows faithful inside).andThen sound fun _ _ lowered _ => .pure lowered
  · refine (text_reads inside).andThen fun key => ?_
    exact (reference_follows inside).andThen sound fun _ _ lowered _ => .pure lowered
  · exact (faithful.effects inside).andThen sound fun _ _ lowered _ => .pure lowered

theorem objectLiteral_follows : Follows node context (objectLiteral inner context node) ([·]) := by
  intro state sound
  refine (mapM_follows fun part member =>
    objectMember_follows faithful (.part .self member)).andThen sound
    fun results _ lowered _ => ?_
  have values : (results.flatMap fun entry => entry.toList.map Property.value) =
      (results.filterMap id).map Property.value := by
    clear lowered
    induction results with
    | nil => rfl
    | cons first rest inductionHypothesis =>
      rw [List.flatMap_cons, inductionHypothesis]
      cases first <;> rfl
  rw [values] at lowered
  exact fresh_outcome lowered (.object _)

theorem memberAccess_follows : Follows node context (memberAccess inner context node) ([·]) := by
  intro state sound
  refine (faithful.expression? fun _ found => .field .self found).andThen sound
    fun whole _ lowered _ => ?_
  exact (propertyKey?_reads fun _ found => .field .self found).andThen
    fun _ => fresh_outcome lowered .member

omit faithful in
theorem indexKey_reads {index : Option Node} (inside : ∀ child ∈ index, Node.Inside root child) :
    Reads root context (indexKey context index) := by
  intro state
  cases index with
  | none => exact .pure rfl
  | some index =>
    unfold indexKey
    dsimp only
    split
    · exact propertyKey_reads (inside index rfl) state
    · exact .pure rfl

theorem subscriptAccess_follows :
    Follows node context (subscriptAccess inner context node) ([·]) := by
  intro state sound
  refine (faithful.expression? fun _ found => .field .self found).andThen sound
    fun whole _ lowered soundWhole => ?_
  refine (indexKey_reads fun _ found => .field .self found).andThen fun property => ?_
  dsimp only
  split
  · rename_i index isIndex
    exact (faithful.effects (.field .self isIndex)).andThen soundWhole
      fun _ _ loweredIndex _ => fresh_outcome (lowered.seq loweredIndex) .member
  · exact fresh_outcome lowered .member

theorem binary_follows : Follows node context (binary inner context node hint) ([·]) := by
  intro state sound
  refine (faithful.expressions Node.Inside.self.operatorChain).andThen sound
    fun operands _ lowered _ => ?_
  split
  · exact fresh_outcome lowered (.select [] operands)
  · exact inert_outcome lowered

theorem conditional_follows : Follows node context (conditional inner context node hint) ([·]) := by
  intro state sound
  have field {name : String} : ∀ child ∈ (node.field? name).toList, Node.Inside node child :=
    fun _ member => .field .self (Option.mem_toList.mp member)
  refine (faithful.expressions field).andThen sound fun guards _ loweredGuards soundGuards => ?_
  refine (faithful.expressions fun child member => ?_).andThen soundGuards
    fun values _ loweredValues _ => fresh_outcome (loweredGuards.seq loweredValues)
      (.select guards values)
  exact (List.mem_append.mp member).elim (field child) (field child)

theorem sequence_follows : Follows node context (sequence inner context node hint) ([·]) := by
  intro state sound
  refine (faithful.expressions Node.Inside.self.sequenceItems).andThen sound
    fun items _ lowered _ => ?_
  have parts : items.dropLast ++ items.getLast?.toList = items := by
    rcases List.eq_nil_or_concat items with rfl | ⟨others, last, rfl⟩
    · rfl
    · simp
  exact fresh_outcome (parts.symm ▸ lowered) (.select _ _)

theorem expression_follows : Follows node context (expression inner context node hint) ([·]) := by
  unfold expression
  split
  · exact reference_follows .self
  · exact fun _ _ => fresh_outcome .done .this
  · exact faithful.expression? fun _ found => .part .self (List.mem_of_head? found)
  · exact functionExpr_follows faithful .self
  · intro state sound
    refine (classDef_outcome faithful .self sound).mono ?_
    rintro _ _ ⟨middle, lowered, rfl, builds⟩
    exact .build lowered builds
  · exact memberAccess_follows faithful
  · exact subscriptAccess_follows faithful
  · exact call_follows faithful
  · exact call_follows faithful
  · exact assignment_follows faithful
  · split
    · exact assignment_follows faithful
    · exact faithful.inertParts .self
  · exact binary_follows faithful
  · exact conditional_follows faithful
  · exact sequence_follows faithful
  · exact objectLiteral_follows faithful
  · exact faithful.inertParts .self

/-! ### Statements -/

theorem functionDeclaration_follows :
    Follows node context (functionDeclaration inner context node) fun _ => [] := by
  intro state sound
  refine (text?_reads fun _ found => .field .self found).andThen fun name => ?_
  refine (functionDef_outcome faithful sound).bind fun function after ⟨lowered, known⟩ => ?_
  dsimp only
  split
  · rename_i name isName
    exact (declareOwnName_outcome (.field .self isName) (lowered.sound sound) known).mono
      fun _ _ ⟨loweredName, _⟩ => lowered.seq loweredName
  · exact .pure lowered

theorem classDeclaration_follows :
    Follows node context (classDeclaration inner context node) fun _ => [] := by
  intro state sound
  refine (text?_reads fun _ found => .field .self found).andThen fun name => ?_
  refine (classDef_outcome faithful .self sound).bind ?_
  rintro value _ ⟨middle, lowered, rfl, builds⟩
  split
  · rename_i name isName
    have loweredValue := lowered.build builds
    refine (declare_outcome .classDef (loweredValue.sound sound) (.field .self isName)
      .here trivial).bind fun decl _ ⟨loweredName, inSight⟩ => ?_
    exact emit_outcome (loweredValue.seq loweredName) (.declare (some value) inSight)
  · exact .pure (lowered.seq .skip)

theorem declarator_outcome {scope : ScopeId} (inside : Node.Inside root node)
    (sound : Sound context state) (inSight : state.program.LeavesBlocks context.scope scope)
    (admits : context.Admits kind) :
    Outcome root context.source (declarator inner context scope kind node) state fun _ after =>
      Lowers root context state [] after := by
  unfold declarator
  split
  · rename_i name isName
    have nameInside := inside.field isName
    split
    · refine (declare_outcome kind sound nameInside inSight admits).bind
        fun decl after ⟨lowered, known⟩ => ?_
      split
      · rename_i value isValue
        refine (text_reads nameInside).andThen fun hint => ?_
        refine (faithful.expressionIn (inside.field isValue)).andThen (lowered.sound sound)
          fun value _ loweredValue _ => ?_
        exact emit_outcome (lowered.seq loweredValue)
          (.declare (some value) (loweredValue.extends.declares known))
      · exact emit_outcome lowered (.declare none known)
    · refine (faithful.patternIn kind nameInside sound inSight admits).bind fun _ _ lowered => ?_
      exact optional_outcome (node.field? "value")
        (fun _ found => faithful.effects (inside.field found)) lowered (lowered.sound sound)
  · exact .pure .done

theorem declarators_outcome {scope : ScopeId} (sound : Sound context state)
    (inSight : state.program.LeavesBlocks context.scope scope) (admits : context.Admits kind) :
    Outcome node context.source (declarators inner context scope kind node) state fun _ after =>
      Lowers node context state [] after :=
  forM_outcome (fun extended => extended.leavesBlocks)
    (fun _ member _ sound inSight => declarator_outcome faithful
      (.part .self (List.mem_filter.mp member).1) sound inSight admits) sound inSight

omit faithful in
theorem admits_lexicalKind : context.Admits (lexicalKind node) := by
  unfold lexicalKind
  split
  · split <;> trivial
  · trivial

omit faithful in
theorem admits_loopKind (found : loopKind node = some kind) : context.Admits kind := by
  unfold loopKind at found
  split at found <;> cases found <;> trivial

theorem declaringLoop_follows {left : Node} (leftInside : Node.Inside node left)
    (admits : context.Admits kind) :
    Follows node context (declaringLoop inner context node left kind) fun _ => [] := by
  intro state sound
  have body {middle : State} (lowered : Lowers node context state [] middle) :=
    optional_outcome (node.field? "body")
      (fun _ found => faithful.statementIn (.field .self found)) lowered
      (lowered.sound sound)
  unfold declaringLoop
  extract_lets afterNames inScope
  have declares {scope : ScopeId} (inSight : state.program.LeavesBlocks context.scope scope) :
      Outcome node context.source (inScope scope) state fun _ after =>
        Lowers node context state [] after := by
    refine (faithful.patternIn kind leftInside sound inSight admits).bind fun _ _ lowered => ?_
    cases found : node.field? "right" with
    | none => exact body lowered
    | some right =>
      exact (faithful.effects (.field .self found)).andThen (lowered.sound sound)
        fun _ _ loweredRight _ => body (lowered.seq loweredRight)
  by_cases isHoisted : kind = .hoisted
  · rw [if_pos isHoisted]
    refine (hoistingScope_outcome sound).bind ?_
    rintro scope _ ⟨rfl, inSight⟩
    exact declares inSight
  · rw [if_neg isHoisted]
    exact declares .here

theorem loop_follows : Follows node context (loop inner context node) fun _ => [] := by
  unfold loop
  split
  · rename_i kind left _ isKind isLeft
    exact declaringLoop_follows faithful (.field .self isLeft) (admits_loopKind isKind)
  · exact faithful.statements .self

theorem handler_follows : Follows node context (handler inner context node) fun _ => [] := by
  intro state sound
  have body {middle : State} (lowered : Lowers node context state [] middle) :=
    optional_outcome (node.field? "body")
      (fun _ found => faithful.statements (.field .self found)) lowered
      (lowered.sound sound)
  unfold handler
  cases found : node.field? "parameter" with
  | none => exact body .done
  | some parameter =>
    exact (faithful.patternIn .caught (.field .self found) sound .here trivial).bind
      fun _ _ lowered => body lowered

theorem namespaceBody_follows :
    Follows node context (namespaceBody inner context node) fun _ => [] := by
  unfold namespaceBody
  split
  · rename_i body isBody
    exact block_follows fun _ => faithful.statements (.field .self isBody)
  · exact fun _ _ => .pure .done

theorem result_follows : Follows node context (result inner context node) fun _ => [] := by
  intro state sound
  unfold result
  split
  · rename_i value isValue
    exact (faithful.expressionIn (.part .self (List.mem_of_head? isValue))).andThen sound
      fun value _ lowered _ => emit_outcome lowered (.result (some value))
  · exact emit_outcome .done (.result none)

theorem statement_follows : Follows node context (statement inner context node) fun _ => [] := by
  unfold statement
  split
  · exact functionDeclaration_follows faithful
  · exact classDeclaration_follows faithful
  · intro state sound
    refine (hoistingScope_outcome sound).bind ?_
    rintro scope _ ⟨rfl, inSight⟩
    exact declarators_outcome faithful sound inSight trivial
  · exact fun _ sound => declarators_outcome faithful sound .here admits_lexicalKind
  · exact forM_follows fun _ member => faithful.effects (.part .self member)
  · exact result_follows faithful
  · exact block_follows fun _ => faithful.statements .self
  · exact block_follows fun _ => loop_follows faithful
  · exact block_follows fun _ => handler_follows faithful
  · exact importStatement_follows faithful
  · exact exportStatement_follows faithful
  · exact namespaceBody_follows faithful
  · exact fun _ _ => .pure .done
  · exact faithful.statements .self
  · exact fun _ sound => (expression_follows faithful).andThen sound
      fun _ _ lowered _ => effect_outcome lowered

/-! ### Trees of any height -/

theorem Rules.Faithful.raise : inner.raise.Faithful where
  statement _ _ := statement_follows faithful
  expression _ _ _ := expression_follows faithful
  pattern _ _ _ _ _ _ sound inSight admits := bindPattern_outcome faithful sound inSight admits
  imports _ _ := importClause_follows faithful

end

theorem Rules.none_faithful : Rules.none.Faithful where
  statement _ _ _ _ := .pure .done
  expression _ _ _ _ _ := inert_outcome .done
  pattern _ _ _ _ _ _ _ _ _ := .pure .done
  imports _ _ _ _ := .pure .done

theorem Rules.atHeight_faithful (height : Nat) : (Rules.atHeight height).Faithful := by
  induction height with
  | zero => exact Rules.none_faithful
  | succ height inductionHypothesis => exact inductionHypothesis.raise

end FunctionFlow.Lowering
