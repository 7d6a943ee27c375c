import FunctionFlow.Proofs.Program.Extension
import FunctionFlow.Proofs.Tree.Chains

/-!
Contract: what lowering does to a program, as derivations.

A derivation names each thing that lowering may do once. A property of lowered programs is proved
by induction on derivations, without a look at the rules for the forms of a tree.
-/

namespace FunctionFlow

namespace Node.Inside

variable {root node : Node}

theorem operatorChain {logical : Bool} (inside : Node.Inside root node) :
    ∀ operand ∈ node.operatorChain logical, Node.Inside root operand := by
  intro operand member
  obtain ⟨child, isChild, below⟩ := Node.below_of_mem_operatorChain member
  exact (inside.child isChild).trans below

theorem sequenceItems (inside : Node.Inside root node) :
    ∀ item ∈ node.sequenceItems, Node.Inside root item := by
  intro item member
  obtain ⟨child, isChild, below⟩ := Node.below_of_mem_sequenceItems member
  exact (inside.child isChild).trans below

end Node.Inside

/-- The text of the node is `name`. -/
def Node.Spells (node : Node) (source : Source) (name : String) : Prop :=
  source.slice node.info.startByte node.info.endByte = .ok name

namespace Program

/-- The declaration `decl` of `name` was made at a node in one of the trees `parts`. -/
def DeclaredIn (program : Program) (parts : List Node) (source : Source) (name : String)
    (decl : DeclId) : Prop :=
  ∃ entry, program.decls[decl]? = some entry ∧ ∃ part ∈ parts, ∃ node, Node.Inside part node ∧
    node.Spells source name ∧
    entry.span = source.spanOf node.info.startByte node.info.endByte

variable {program : Program} {parts : List Node} {source : Source} {name : String} {decl : DeclId}

theorem DeclaredIn.extend {after : Program} (declared : program.DeclaredIn parts source name decl)
    (extended : program.Extends after) : after.DeclaredIn parts source name decl := by
  obtain ⟨entry, found, part, isPart, node, inside, spells, span⟩ := declared
  obtain ⟨later, isLater, same⟩ := extended.decls _ _ found
  exact ⟨later, isLater, part, isPart, node, inside, spells,
    (congrArg Declaration.span same).trans span⟩

theorem DeclaredIn.widen {wholes : List Node} (declared : program.DeclaredIn parts source name decl)
    (within : ∀ part ∈ parts, ∃ whole ∈ wholes, Node.Inside whole part) :
    program.DeclaredIn wholes source name decl := by
  obtain ⟨entry, found, part, isPart, node, inside, made⟩ := declared
  obtain ⟨whole, isWhole, below⟩ := within part isPart
  exact ⟨entry, found, whole, isWhole, node, below.trans inside, made⟩

end Program

namespace Lowering

variable {exprs : List Expr}

/-! ### Changes of the state -/

namespace State

def numbered (state : State) : State :=
  { state with program := state.program.freshNode.2 }

def withStmt (state : State) (stmt : Stmt) : State :=
  { state with body := state.body ++ [stmt] }

def withBlock (state : State) (scope : ScopeId) : State :=
  { state with program := (state.program.addScope .block (some scope)).2 }

def withCall (state : State) (site : CallSite) : State :=
  { state with program := { state.program with calls := state.program.calls.push site } }

def setCall (state : State) (id : CallId) (site : CallSite) : State :=
  { state with
    program := { state.program with calls := state.program.calls.setIfInBounds id site } }

def withFunction (state : State) (scope : ScopeId) (definition : FunctionDef) : State where
  program := { (state.program.addScope .function (some scope)).2 with
    functions := state.program.functions.push definition }
  body := []

def setFunction (state : State) (id : FunctionId) (definition : FunctionDef) (outer : List Stmt) :
    State where
  program := { state.program with
    functions := state.program.functions.setIfInBounds id definition }
  body := outer

end State

namespace Context

def inBlock (context : Context) (state : State) : Context :=
  { context with scope := state.program.scopes.size }

def inFunction (context : Context) (state : State) (isArrow : Bool) : Context :=
  { context with
    scope := state.program.scopes.size
    function := some state.program.functions.size
    receiver := if isArrow then context.receiver else some state.program.functions.size }

def callAt (context : Context) (state : State) (node : Node) (isNew : Bool) : CallSite where
  id := state.program.calls.size
  file := context.file
  enclosing := context.function
  span := spanOf context node
  isNew := isNew
  arity := 0
  hasReceiver := false

def functionAt (context : Context) (state : State) (node : Node) (name : Option String)
    (isArrow : Bool) : FunctionDef where
  id := state.program.functions.size
  name := name
  file := context.file
  enclosing := context.function
  span := spanOf context node
  params := []
  isArrow := isArrow
  scope := state.program.scopes.size
  body := []

/-- Only the function around a declaration has it as a parameter. -/
def Admits (context : Context) : DeclKind → Prop
  | .parameter function _ => context.function = some function
  | .hoisted | .lexical | .constant | .function | .classDef | .caught | .imported => True

end Context

/-! ### Parameters -/

/-- The patterns and the defaults of a function's parameters. -/
def parameterNodes (node : Node) : List (Node × Option Node) :=
  match node.field? "parameter", node.field? "parameters" with
  | some single, _ => [(single, none)]
  | none, some list => list.parts.filterMap parameterParts
  | none, none => []

/-- The name that a function can refer to itself by. -/
def ownName? (node : Node) : Option Node :=
  if bindsOwnName node.kind then node.field? "name" else none

def parameterTrees (items : List (Node × Option Node)) : List Node :=
  items.flatMap fun item => item.1 :: item.2.toList

section

variable (source : Source) (program : Program) (function : FunctionId) (scope : ScopeId)
  (own : Option Node)

/-- What the parameter at position `index` declares, behind the trees `earlier` in the head of its
function. A plain name stands for the parameter unless it is taken, and for the function if it is the
function's own name. Any other pattern makes no declaration that is the parameter. -/
def TakesOne (earlier : List Node) (index : Nat) (pattern : Node) : Option DeclId → Prop
  | none => pattern.kind ≠ "identifier"
  | some decl => ∃ name entry, pattern.Spells source name ∧ program.Names scope name decl ∧
      program.decls[decl]? = some entry ∧
      (entry.kind = .parameter function index ∨ program.DeclaredIn earlier source name decl) ∧
      ∀ node ∈ own, node.Spells source name → entry.kind = .function

/-- What parameters declare, the first of which has position `index`. -/
inductive Takes : List Node → Nat → List (Node × Option Node) → List (Option DeclId) → Prop
  | nil {earlier : List Node} {index : Nat} : Takes earlier index [] []
  | cons {earlier : List Node} {index : Nat} {item : Node × Option Node}
    {items : List (Node × Option Node)} {param : Option DeclId} {params : List (Option DeclId)}
    (first : TakesOne source program function scope own earlier index item.1 param)
    (rest : Takes (earlier ++ parameterTrees [item]) (index + 1) items params) :
    Takes earlier index (item :: items) (param :: params)

end

/-! ### Derivations -/

/-- The expression with identity `node` that is put together from `parts`. Calls are left aside. -/
inductive Builds (context : Context) (program : Program) (node : NodeId) : List Expr → Expr → Prop
  | function {target : FunctionId} (known : target < program.functions.size) :
    Builds context program node [] (.function node target)
  | ident {name : String} :
    Builds context program node [] (.ident node ⟨name, context.scope, .unresolved⟩)
  | this : Builds context program node [] (.this node context.receiver)
  | member {whole : Expr} {property : Option String} :
    Builds context program node [whole] (.member node whole property)
  | assign {target value : Expr} :
    Builds context program node [value, target] (.assign node target value)
  | select (guards values : List Expr) :
    Builds context program node (guards ++ values) (.select node guards values)
  | object (entries : List Property) :
    Builds context program node (entries.map Property.value) (.object node entries)
  | inert {parts : List Expr} : Builds context program node parts (.inert node parts)

/-- The statement that takes the expressions `exprs` out of hand. -/
inductive Emits (context : Context) (program : Program) : List Expr → Stmt → Prop
  | expr {value : Expr} : Emits context program [value] (.expr value)
  | declare {decl : DeclId} (initial : Option Expr)
    (inSight : program.Declares context.scope decl) :
    Emits context program initial.toList (.declare decl initial)
  | result (returned : Option Expr) : Emits context program returned.toList (.result returned)

/-- Lowering parts of the tree `root` leads from one state to another, with expressions in hand. -/
inductive Lowers : Node → Context → State → List Expr → State → Prop
  | done {root : Node} {context : Context} {state : State} : Lowers root context state [] state
  | seq {root : Node} {context : Context} {before middle after : State} {left right : List Expr}
    (first : Lowers root context before left middle)
    (second : Lowers root context middle right after) :
    Lowers root context before (left ++ right) after
  | build {root : Node} {context : Context} {before after : State} {parts : List Expr} {expr : Expr}
    (lowered : Lowers root context before parts after)
    (builds : Builds context after.program after.program.nextNode parts expr) :
    Lowers root context before [expr] after.numbered
  /-- An identity may be given away that no expression takes. -/
  | skip {root : Node} {context : Context} {state : State} :
    Lowers root context state [] state.numbered
  | emit {root : Node} {context : Context} {before after : State} {exprs : List Expr} {stmt : Stmt}
    (lowered : Lowers root context before exprs after)
    (emits : Emits context after.program exprs stmt) :
    Lowers root context before [] (after.withStmt stmt)
  | declare {root node : Node} {context : Context} {state : State} {scope : ScopeId}
    {kind : DeclKind} {name : String} {decl : DeclId} {program : Program}
    (inside : Node.Inside root node) (inSight : state.program.LeavesBlocks context.scope scope)
    (admits : context.Admits kind)
    (spells : node.Spells context.source name)
    (declared : state.program.declare scope name kind context.file (spanOf context node) =
      .ok (decl, program)) :
    Lowers root context state [] { state with program }
  | block {root : Node} {context : Context} {before after : State}
    (lowered : Lowers root (context.inBlock before) (before.withBlock context.scope) [] after) :
    Lowers root context before [] after
  | call {root node : Node} {context : Context} {before after : State} {isNew : Bool}
    {site : CallSite} {callee : Expr} {arguments : List Expr}
    (inside : Node.Inside root node)
    (lowered : Lowers node context (before.withCall (context.callAt before node isNew))
      (callee :: arguments) after)
    (found : after.program.calls[before.program.calls.size]? = some site) :
    Lowers root context before
      [.call after.program.nextNode before.program.calls.size callee arguments]
      (after.setCall before.program.calls.size
        { site with
          arity := arguments.length
          hasReceiver := !isNew && callee.isMember }).numbered
  | function {root node : Node} {context : Context} {before after : State} {name : Option String}
    {isArrow : Bool} {definition : FunctionDef} {params : List (Option DeclId)}
    (inside : Node.Inside root node)
    (lowered : Lowers node (context.inFunction before isArrow)
      (before.withFunction context.scope (context.functionAt before node name isArrow)) [] after)
    (found : after.program.functions[before.program.functions.size]? = some definition)
    (parameters : Takes context.source after.program before.program.functions.size
      before.program.scopes.size (ownName? node) (ownName? node).toList 1 (parameterNodes node)
      params) :
    Lowers root context before []
      (after.setFunction before.program.functions.size
        { definition with params, body := after.body } before.body)

theorem Lowers.widen {root inner : Node} {context : Context} {before after : State}
    (lowered : Lowers inner context before exprs after) (inside : Node.Inside root inner) :
    Lowers root context before exprs after := by
  induction lowered with
  | done => exact .done
  | seq _ _ first second => exact .seq (first inside) (second inside)
  | build _ builds inductionHypothesis => exact .build (inductionHypothesis inside) builds
  | skip => exact .skip
  | emit _ emits inductionHypothesis => exact .emit (inductionHypothesis inside) emits
  | declare here inSight admits spells declared =>
    exact .declare (inside.trans here) inSight admits spells declared
  | block _ inductionHypothesis => exact .block (inductionHypothesis inside)
  | call here lowered found => exact .call (inside.trans here) lowered found
  | function here lowered found parameters =>
    exact .function (inside.trans here) lowered found parameters

/-! ### Parts -/

section

variable {context : Context} {program : Program}

theorem Builds.node_eq {node : NodeId} {parts : List Expr} {expr : Expr}
    (builds : Builds context program node parts expr) : expr.node = node := by
  cases builds <;> rfl

theorem Builds.all_perm {node : NodeId} {parts : List Expr} {expr : Expr}
    (builds : Builds context program node parts expr) :
    expr.all.Perm (expr :: Expr.allOf parts) := by
  cases builds with
  | function | ident | this | inert => exact .refl _
  | member => simp [Expr.all, Expr.allOf]
  | assign =>
    simp only [Expr.all, Expr.allOf, List.append_nil]
    exact List.perm_append_comm.cons _
  | select =>
    rw [Expr.allOf_append]
    exact .refl _
  | object =>
    rw [← Property.allOf_eq]
    exact .refl _

theorem Emits.exprs_eq {stmt : Stmt} (emits : Emits context program exprs stmt) :
    stmt.exprs = Expr.allOf exprs := by
  cases emits with
  | expr => simp [Stmt.exprs, Expr.allOf]
  | declare initial => cases initial <;> simp [Stmt.exprs, Expr.allOf]
  | result returned => cases returned <;> simp [Stmt.exprs, Expr.allOf]

end

/-! ### What derivations keep -/

section

variable {context : Context} {state : State}

theorem State.extends_numbered : state.program.Extends state.numbered.program :=
  { Program.Extends.refl state.program with }

theorem State.extends_withBlock (scope : ScopeId) :
    state.program.Extends (state.withBlock scope).program :=
  .addScope state.program .block (some scope)

theorem State.extends_withCall (site : CallSite) :
    state.program.Extends (state.withCall site).program :=
  { Program.Extends.refl state.program with calls := .push }

theorem State.extends_setCall {id : CallId} {site old : CallSite}
    (found : state.program.calls[id]? = some old) (same : site.heading = old.heading) :
    state.program.Extends (state.setCall id site).program :=
  { Program.Extends.refl state.program with calls := .set found same }

theorem State.extends_withFunction (scope : ScopeId) {definition : FunctionDef}
    (isNew : definition.scope = state.program.scopes.size) :
    state.program.Extends (state.withFunction scope definition).program :=
  { Program.Extends.addScope state.program .function (some scope) with
    functions := .push
    newFunctions := by
      intro id other found below
      rcases Table.push_cases found with old | ⟨_, rfl⟩
      · exact absurd (Table.below old) (Nat.not_lt_of_le below)
      · exact Nat.le_of_eq isNew.symm }

theorem State.extends_setFunction {id : FunctionId} {definition old : FunctionDef}
    {outer : List Stmt} (found : state.program.functions[id]? = some old)
    (same : definition.heading = old.heading) :
    state.program.Extends (state.setFunction id definition outer).program :=
  { Program.Extends.refl state.program with
    functions := .set found same
    newFunctions := by
      intro other entry isEntry below
      have known := Table.below isEntry
      simp only [setFunction, Array.size_setIfInBounds] at known
      exact absurd known (Nat.not_lt_of_le below) }

theorem Lowers.extends {root : Node} {before after : State}
    (lowered : Lowers root context before exprs after) : before.program.Extends after.program := by
  induction lowered with
  | done => exact .refl _
  | seq _ _ first second => exact first.trans second
  | build _ _ inductionHypothesis => exact inductionHypothesis.trans State.extends_numbered
  | skip => exact State.extends_numbered
  | emit _ _ inductionHypothesis => exact inductionHypothesis
  | declare _ _ _ _ declared => exact .declare declared
  | block _ inductionHypothesis => exact (State.extends_withBlock _).trans inductionHypothesis
  | call _ _ found inductionHypothesis =>
    have lowered := (State.extends_withCall _).trans inductionHypothesis
    refine lowered.trans (Program.Extends.trans ?_ State.extends_numbered)
    exact State.extends_setCall found rfl
  | function _ _ found _ inductionHypothesis =>
    have lowered := (State.extends_withFunction _ rfl).trans inductionHypothesis
    apply lowered.trans
    exact State.extends_setFunction found rfl

end

/-- The functions of a program, bodies included, and its calls are in another one as they are. -/
structure Keeps (before after : Program) : Prop where
  functions : ∀ {id : FunctionId} {definition}, before.functions[id]? = some definition →
    after.functions[id]? = some definition
  calls : ∀ {id : CallId} {site}, before.calls[id]? = some site → after.calls[id]? = some site

theorem Lowers.keeps {root : Node} {context : Context} {before after : State} {exprs : List Expr}
    (lowered : Lowers root context before exprs after) : Keeps before.program after.program := by
  induction lowered with
  | done | skip => exact ⟨id, id⟩
  | seq _ _ first second =>
    exact ⟨fun found => second.functions (first.functions found),
      fun found => second.calls (first.calls found)⟩
  | build _ _ inductionHypothesis | emit _ _ inductionHypothesis =>
    exact ⟨inductionHypothesis.functions, inductionHypothesis.calls⟩
  | declare _ _ _ _ declared =>
    obtain ⟨_, _, rfl, _⟩ := Program.declare_frame declared
    exact ⟨id, id⟩
  | block _ inductionHypothesis => exact ⟨inductionHypothesis.functions, inductionHypothesis.calls⟩
  | call _ _ _ inductionHypothesis =>
    refine ⟨inductionHypothesis.functions, fun found => ?_⟩
    have other := Nat.ne_of_gt (Table.below found)
    exact (Array.getElem?_setIfInBounds_ne other).trans
      (inductionHypothesis.calls (Table.push_kept found))
  | function _ _ _ _ inductionHypothesis =>
    refine ⟨fun found => ?_, inductionHypothesis.calls⟩
    have other := Nat.ne_of_gt (Table.below found)
    exact (Array.getElem?_setIfInBounds_ne other).trans
      (inductionHypothesis.functions (Table.push_kept found))

section

variable {root : Node} {context : Context} {before after : State} {exprs : List Expr}

theorem Lowers.opened_call {opened site : CallSite}
    (lowered : Lowers root context (before.withCall opened) exprs after)
    (found : after.program.calls[before.program.calls.size]? = some site) : site = opened :=
  Option.some.inj (found.symm.trans (lowered.keeps.calls Array.getElem?_push_size))

theorem Lowers.opened_function {scope : ScopeId} {opened definition : FunctionDef}
    (lowered : Lowers root context (before.withFunction scope opened) exprs after)
    (found : after.program.functions[before.program.functions.size]? = some definition) :
    definition = opened :=
  Option.some.inj (found.symm.trans (lowered.keeps.functions Array.getElem?_push_size))

end

section

variable {source : Source} {before after : Program} {function : FunctionId} {scope : ScopeId}
  {own : Option Node} {earlier : List Node} {index : Nat}

theorem TakesOne.extend {pattern : Node} {param : Option DeclId}
    (takes : TakesOne source before function scope own earlier index pattern param)
    (extended : before.Extends after) :
    TakesOne source after function scope own earlier index pattern param := by
  cases param with
  | none => exact takes
  | some decl =>
    obtain ⟨name, entry, spells, named, found, fresh, isOwn⟩ := takes
    obtain ⟨later, isLater, same⟩ := extended.decls _ _ found
    have sameKind : later.kind = entry.kind := (congrArg Declaration.kind same :)
    rw [← sameKind] at fresh isOwn
    exact ⟨name, later, spells, named.extend extended, isLater,
      fresh.imp_right fun declared => declared.extend extended, isOwn⟩

variable {items : List (Node × Option Node)} {params : List (Option DeclId)}

theorem Takes.extend (takes : Takes source before function scope own earlier index items params)
    (extended : before.Extends after) :
    Takes source after function scope own earlier index items params := by
  induction takes with
  | nil => exact .nil
  | cons first _ inductionHypothesis => exact .cons (first.extend extended) inductionHypothesis

theorem Takes.declares (takes : Takes source before function scope own earlier index items params) :
    ∀ param ∈ params, ∀ decl ∈ param, before.Declares scope decl := by
  induction takes with
  | nil => exact List.forall_mem_nil _
  | cons first _ inductionHypothesis =>
    refine List.forall_mem_cons.mpr ⟨?_, inductionHypothesis⟩
    rintro decl ⟨⟩
    obtain ⟨name, _, _, ⟨table, found, known⟩, _⟩ := first
    exact ⟨scope, table, name, .here, found, known⟩

end

theorem Lowers.names_declared {root : Node} {context : Context} {before after : State}
    (lowered : Lowers root context before exprs after) {scope : ScopeId}
    (below : scope < before.program.scopes.size) {name : String} {decl : DeclId}
    (named : after.program.Names scope name decl) :
    before.program.Names scope name decl ∨
      after.program.DeclaredIn [root] context.source name decl := by
  have within {whole part : Node} (inside : Node.Inside whole part) :
      ∀ other ∈ [part], ∃ outer ∈ [whole], Node.Inside outer other := by
    intro other isPart
    cases List.mem_singleton.mp isPart
    exact ⟨whole, List.mem_singleton_self whole, inside⟩
  induction lowered with
  | done | skip => exact .inl named
  | seq first second firstHypothesis secondHypothesis =>
    have belowToo := Nat.lt_of_lt_of_le below first.extends.scopes_le
    rcases secondHypothesis belowToo named with known | declared
    · exact (firstHypothesis below known).imp_right fun declared => declared.extend second.extends
    · exact .inr declared
  | build _ _ inductionHypothesis | emit _ _ inductionHypothesis =>
    exact inductionHypothesis below named
  | @declare root node _ state own kind spelled other program inside _ _ spells declared =>
    obtain ⟨table, found, ⟨_, rfl⟩ | ⟨_, added⟩⟩ := Program.declare_cases declared
    · exact .inl named
    cases added
    obtain ⟨later, isLater, known⟩ := named
    rcases Table.set_cases isLater with ⟨rfl, rfl⟩ | ⟨_, old⟩
    · rw [NameTable.find?_insert] at known
      split at known
      · rename_i same
        cases known
        exact .inr ⟨_, Array.getElem?_push_size, root, List.mem_singleton_self root, node, inside,
          same ▸ spells, rfl⟩
      · exact .inl ⟨table, found, known⟩
    · exact .inl ⟨later, old, known⟩
  | block _ inductionHypothesis =>
    refine (inductionHypothesis ?_ named).imp_left fun known => known.of_push rfl below
    exact Nat.lt_of_lt_of_le below (State.extends_withBlock _).scopes_le
  | call inside _ _ inductionHypothesis =>
    exact (inductionHypothesis below named).imp_right fun declared => declared.widen (within inside)
  | function inside _ _ _ inductionHypothesis =>
    refine (inductionHypothesis ?_ named).imp (fun known => known.of_push rfl below)
      fun declared => declared.widen (within inside)
    exact Nat.lt_of_lt_of_le below (State.extends_withFunction _ rfl).scopes_le

end Lowering

end FunctionFlow
