import FunctionFlow.Analysis.Strategy
import FunctionFlow.Proofs.Flow.Bodies

/-!
Contract: the growth of a program, one expression at a time.

A property of the graph of a program is thereby a property of single expressions.
-/

namespace FunctionFlow

namespace Growth

inductive Item where
  | place (vertex : Vertex)
  | arrow (source target : Vertex)

variable {item : Item}

def Has (growth : Growth) : Item → Prop
  | .place vertex => vertex ∈ growth.places
  | .arrow source target => (source, target) ∈ growth.arrows

@[simp] theorem has_append {first second : Growth} :
    (first ++ second).Has item ↔ first.Has item ∨ second.Has item := by
  cases item <;> simp [Has]

@[simp] theorem not_has_empty : ¬ ({} : Growth).Has item := by
  cases item <;> simp [Has]

theorem has_sum {growths : List Growth} :
    (sum growths).Has item ↔ ∃ growth ∈ growths, growth.Has item := by
  cases item with
  | place => exact mem_places_sum
  | arrow => exact mem_arrows_sum

theorem mem_places_sum_map {α : Type} {growth : α → Growth} {sources : List α} {vertex : Vertex} :
    vertex ∈ (sum (sources.map growth)).places ↔
      ∃ source ∈ sources, vertex ∈ (growth source).places := by
  simp only [mem_places_sum, List.mem_map, exists_exists_and_eq_and]

theorem mem_arrows_sum_map {α : Type} {growth : α → Growth} {sources : List α}
    {pair : Vertex × Vertex} :
    pair ∈ (sum (sources.map growth)).arrows ↔
      ∃ source ∈ sources, pair ∈ (growth source).arrows := by
  simp only [mem_arrows_sum, List.mem_map, exists_exists_and_eq_and]

theorem has_sum_map {α : Type} {growth : α → Growth} {sources : List α} :
    (sum (sources.map growth)).Has item ↔ ∃ source ∈ sources, (growth source).Has item := by
  simp only [has_sum, List.mem_map, exists_exists_and_eq_and]

end Growth

def Property.headGrowth (program : Program) : Property → Growth
  | .mk (some name) value => .place (.named name) ++ .flow (value.holder program) (.named name)
  | .mk none _ => {}

def Expr.argumentHeads (program : Program) (site : CallId) (index : Nat) (arguments : List Expr) :
    Growth :=
  .sum ((arguments.zipIdx index).map fun (value, position) =>
    .place (.slot (.arg site position)) ++
      .flow (value.holder program) (.slot (.arg site position)))

def Expr.headGrowth (program : Program) : Expr → Growth
  | .function _ target => .place (.function target)
  | .ident _ reference => .place (.slot (reference.slot program))
  | .this _ (some owner) => .place (.slot (.param owner 0))
  | .this _ none => {}
  | .member _ _ name => .property name
  | .call _ site callee arguments =>
    callee.receiverGrowth program site ++ .place (.callee site)
      ++ .flow (callee.holder program) (.callee site)
      ++ Expr.argumentHeads program site 1 arguments ++ .place (.slot (.result site))
  | .assign _ target value =>
    match target.holder program with
    | some place => .flow (value.holder program) place
    | none => {}
  | .select node _ values => .meet node (Expr.holders program values)
  | .object _ entries => .sum (entries.map (Property.headGrowth program))
  | .inert _ _ => {}

def Stmt.headGrowth (program : Program) (function : Option FunctionId) : Stmt → Growth
  | .expr _ | .declare _ none => {}
  | .declare decl (some initial) =>
    .place (.slot (program.slotOf decl))
      ++ .flow (initial.holder program) (.slot (program.slotOf decl))
  | .result returned =>
    match function with
    | some function =>
      .place (.slot (.returned function))
        ++ .flow (returned.bind (·.holder program)) (.slot (.returned function))
    | none => {}

section

variable (program : Program) (item : Growth.Item)

@[simp] theorem Expr.headGrowth_member (node : NodeId) (whole : Expr) (name : Option String) :
    Expr.headGrowth program (.member node whole name) = .property name := rfl

@[simp] theorem Expr.headGrowth_call (node : NodeId) (site : CallId) (callee : Expr)
    (arguments : List Expr) :
    Expr.headGrowth program (.call node site callee arguments) =
      callee.receiverGrowth program site ++ .place (.callee site)
        ++ .flow (callee.holder program) (.callee site)
        ++ Expr.argumentHeads program site 1 arguments ++ .place (.slot (.result site)) := rfl

@[simp] theorem Expr.headGrowth_assign (node : NodeId) (target value : Expr) :
    Expr.headGrowth program (.assign node target value) =
      match target.holder program with
      | some place => .flow (value.holder program) place
      | none => {} := rfl

@[simp] theorem Expr.headGrowth_select (node : NodeId) (guards values : List Expr) :
    Expr.headGrowth program (.select node guards values) =
      .meet node (Expr.holders program values) := rfl

@[simp] theorem Expr.headGrowth_object (node : NodeId) (entries : List Property) :
    Expr.headGrowth program (.object node entries) =
      .sum (entries.map (Property.headGrowth program)) := rfl

@[simp] theorem Expr.headGrowth_inert (node : NodeId) (parts : List Expr) :
    Expr.headGrowth program (.inert node parts) = {} := rfl

mutual
theorem Expr.has_growth (expr : Expr) :
    (expr.growth program).Has item ↔
      ∃ part ∈ expr.all, (part.headGrowth program).Has item := by
  cases expr with
  | function | ident => simp [Expr.growth, Expr.headGrowth, Expr.all]
  | this _ owner => cases owner <;> simp [Expr.growth, Expr.headGrowth, Expr.all]
  | member _ whole name =>
    simp only [Expr.growth, Growth.has_append, Expr.has_growth whole, Expr.all, List.mem_cons,
      exists_eq_or_imp, Expr.headGrowth_member]
    exact or_comm
  | call _ site callee arguments =>
    simp only [Expr.growth, Growth.has_append, Expr.has_growth callee,
      Expr.has_argumentGrowth site 1 arguments, Expr.all, List.mem_cons, List.mem_append,
      or_and_right, exists_or, exists_eq_left, Expr.headGrowth_call]
    simp only [or_assoc, or_comm, or_left_comm]
  | assign _ target value =>
    simp only [Expr.growth, Growth.has_append, Expr.has_growth target, Expr.has_growth value,
      Expr.all, List.mem_cons, List.mem_append, or_and_right, exists_or, exists_eq_left,
      Expr.headGrowth_assign]
    cases target.holder program <;> simp only [or_comm]
  | select _ guards values =>
    simp only [Expr.growth, Growth.has_append, Expr.has_growths guards, Expr.has_growths values,
      Expr.all, List.mem_cons, List.mem_append, or_and_right, exists_or, exists_eq_left,
      Expr.headGrowth_select]
    exact or_comm
  | object _ entries =>
    simp only [Expr.growth, Property.has_growths entries, Expr.all, List.mem_cons, or_and_right,
      exists_or, exists_eq_left, Expr.headGrowth_object]
  | inert _ parts =>
    simp only [Expr.growth, Expr.has_growths parts, Expr.all, List.mem_cons, exists_eq_or_imp,
      Expr.headGrowth_inert, Growth.not_has_empty, false_or]
theorem Expr.has_growths (exprs : List Expr) :
    (Expr.growths program exprs).Has item ↔
      ∃ part ∈ Expr.allOf exprs, (part.headGrowth program).Has item := by
  cases exprs with
  | nil => simp [Expr.growths, Expr.allOf]
  | cons first rest =>
    simp only [Expr.growths, Growth.has_append, Expr.has_growth first, Expr.has_growths rest,
      Expr.allOf, List.mem_append, or_and_right, exists_or]
theorem Expr.has_argumentGrowth (site : CallId) (index : Nat) (arguments : List Expr) :
    (Expr.argumentGrowth program site index arguments).Has item ↔
      (∃ part ∈ Expr.allOf arguments, (part.headGrowth program).Has item) ∨
        (Expr.argumentHeads program site index arguments).Has item := by
  cases arguments with
  | nil => simp [Expr.argumentGrowth, Expr.allOf, Expr.argumentHeads, Growth.sum]
  | cons first rest =>
    have heads : Expr.argumentHeads program site index (first :: rest) =
        .place (.slot (.arg site index)) ++ .flow (first.holder program) (.slot (.arg site index))
          ++ Expr.argumentHeads program site (index + 1) rest := rfl
    simp only [Expr.argumentGrowth, heads, Growth.has_append, Expr.has_growth first,
      Expr.has_argumentGrowth site (index + 1) rest, Expr.allOf, List.mem_append, or_and_right,
      exists_or]
    simp only [or_assoc, or_comm, or_left_comm]
theorem Property.has_growths (entries : List Property) :
    (Property.growths program entries).Has item ↔
      (Growth.sum (entries.map (Property.headGrowth program))).Has item ∨
        ∃ part ∈ Property.allOf entries, (part.headGrowth program).Has item := by
  cases entries with
  | nil => simp [Property.growths, Property.allOf, Growth.sum]
  | cons first rest =>
    obtain ⟨key, value⟩ := first
    cases key <;>
      simp only [Property.growths, Growth.has_append, Expr.has_growth value,
        Property.has_growths rest, Property.allOf, List.mem_append, or_and_right, exists_or,
        List.map_cons, Growth.sum, Property.headGrowth, Growth.not_has_empty] <;>
      simp only [or_assoc, or_comm, or_left_comm]
end

theorem Stmt.has_growth (owner : Option FunctionId) (stmt : Stmt) :
    (stmt.growth program owner).Has item ↔ (stmt.headGrowth program owner).Has item ∨
      ∃ part ∈ stmt.exprs, (part.headGrowth program).Has item := by
  cases stmt with
  | expr value =>
    simp only [Stmt.growth, Stmt.headGrowth, Stmt.exprs, Expr.has_growth, Growth.not_has_empty,
      false_or]
  | declare decl initial =>
    cases initial with
    | none => simp [Stmt.growth, Stmt.headGrowth, Stmt.exprs]
    | some value =>
      simp only [Stmt.growth, Stmt.headGrowth, Stmt.exprs, Growth.has_append, Expr.has_growth]
      simp only [or_assoc, or_comm]
  | result returned =>
    cases returned with
    | none =>
      cases owner <;> simp [Stmt.growth, Stmt.headGrowth, Stmt.exprs]
    | some value =>
      cases owner <;>
        simp only [Stmt.growth, Stmt.headGrowth, Stmt.exprs, Growth.has_append, Option.map_some,
          Option.getD_some, Option.bind_some, Expr.has_growth, or_comm, Growth.not_has_empty,
          false_or]

/-- The growth of a program: a vertex for every function and every call, and the heads of its
statements and expressions. -/
theorem Program.has_growth :
    program.growth.Has item ↔
      (∃ id < program.functions.size, item = .place (.function id)) ∨
      (∃ id < program.calls.size, item = .place (.callee id)) ∨
      (∃ owner body stmt, (owner, body) ∈ program.bodies ∧ stmt ∈ body ∧
        (stmt.headGrowth program owner).Has item) ∨
      ∃ part ∈ program.exprs, (part.headGrowth program).Has item := by
  have isPlace {vertex : Vertex} : (Growth.place vertex).Has item ↔ item = .place vertex := by
    cases item <;> simp [Growth.Has]
  rw [Program.growth, Growth.has_append, Growth.has_append, or_assoc]
  refine or_congr ?_ (or_congr ?_ ?_)
  · simp only [Growth.has_sum_map, List.mem_range, isPlace]
  · simp only [Growth.has_sum_map, List.mem_range, isPlace]
  · simp only [Growth.has_sum_map, Prod.exists, Stmt.has_growth, Program.exprs, List.mem_flatMap]
    constructor
    · rintro ⟨owner, body, isBody, stmt, inside, here | ⟨part, isPart, here⟩⟩
      · exact .inl ⟨owner, body, stmt, isBody, inside, here⟩
      · exact .inr ⟨part, ⟨owner, body, isBody, stmt, inside, isPart⟩, here⟩
    · rintro (⟨owner, body, stmt, isBody, inside, here⟩ |
        ⟨part, ⟨owner, body, isBody, stmt, inside, isPart⟩, here⟩)
      · exact ⟨owner, body, isBody, stmt, inside, .inl here⟩
      · exact ⟨owner, body, isBody, stmt, inside, .inr ⟨part, isPart, here⟩⟩

end

/-! ### Where the value of an expression goes -/

/-- The value of an expression of the program goes to a vertex. -/
inductive Program.Into (program : Program) : Expr → Vertex → Prop
  | callee {node : NodeId} {site : CallId} {callee : Expr} {arguments : List Expr}
    (member : .call node site callee arguments ∈ program.exprs) :
    Into program callee (.callee site)
  | receiver {node inner : NodeId} {site : CallId} {whole : Expr} {name : Option String}
    {arguments : List Expr}
    (member : .call node site (.member inner whole name) arguments ∈ program.exprs)
    (passes : program.passesReceiver site) : Into program whole (.slot (.arg site 0))
  | argument {node : NodeId} {site : CallId} {callee : Expr} {arguments : List Expr} {index : Nat}
    {value : Expr} (member : .call node site callee arguments ∈ program.exprs)
    (found : arguments[index]? = some value) : Into program value (.slot (.arg site (index + 1)))
  | assigned {node : NodeId} {target value : Expr} {place : Vertex}
    (member : .assign node target value ∈ program.exprs)
    (held : target.holder program = some place) : Into program value place
  | chosen {node : NodeId} {guards values : List Expr} {value : Expr}
    (member : .select node guards values ∈ program.exprs) (inside : value ∈ values)
    (several : 2 ≤ (Expr.holders program values).length) : Into program value (.slot (.merge node))
  | keyed {node : NodeId} {entries : List Property} {name : String} {value : Expr}
    (member : .object node entries ∈ program.exprs) (inside : .mk (some name) value ∈ entries) :
    Into program value (.named name)
  | declared {owner : Option FunctionId} {body : List Stmt} {decl : DeclId} {initial : Expr}
    (isBody : (owner, body) ∈ program.bodies) (inside : .declare decl (some initial) ∈ body) :
    Into program initial (.slot (program.slotOf decl))
  | returned {function : FunctionId} {body : List Stmt} {value : Expr}
    (isBody : (some function, body) ∈ program.bodies) (inside : .result (some value) ∈ body) :
    Into program value (.slot (.returned function))

theorem Expr.mem_holders {program : Program} {exprs : List Expr} {vertex : Vertex} :
    vertex ∈ Expr.holders program exprs ↔ ∃ expr ∈ exprs, expr.holder program = some vertex := by
  induction exprs with
  | nil => simp [Expr.holders]
  | cons first rest inductionHypothesis =>
    simp only [Expr.holders, List.mem_append, Option.mem_toList, inductionHypothesis,
      List.mem_cons, exists_eq_or_imp]

theorem Expr.holder_select {program : Program} {node : NodeId} {guards choices : List Expr}
    {holder : Vertex} (held : Expr.holder program (.select node guards choices) = some holder) :
    Expr.holders program choices = [holder] ∨
      (2 ≤ (Expr.holders program choices).length ∧ holder = .slot (.merge node)) := by
  simp only [Expr.holder] at held
  unfold Growth.meeting at held
  split at held
  · cases held
  · rename_i single
    cases held
    exact .inl single
  · rename_i several
    cases held
    exact .inr ⟨by rw [several]; simp, rfl⟩

/-- The vertex that an expression has for its value, unless it hands on the value of a part. -/
inductive Expr.HeldBy (program : Program) : Expr → Vertex → Prop
  | function {node : NodeId} {target : FunctionId} :
    HeldBy program (.function node target) (.function target)
  | ident {node : NodeId} {reference : Reference} :
    HeldBy program (.ident node reference) (.slot (reference.slot program))
  | this {node : NodeId} {function : FunctionId} :
    HeldBy program (.this node (some function)) (.slot (.param function 0))
  | member {node : NodeId} {whole : Expr} {name : String} :
    HeldBy program (.member node whole (some name)) (.named name)
  | call {node : NodeId} {site : CallId} {callee : Expr} {arguments : List Expr} :
    HeldBy program (.call node site callee arguments) (.slot (.result site))
  | select {node : NodeId} {guards values : List Expr}
    (several : 2 ≤ (Expr.holders program values).length) :
    HeldBy program (.select node guards values) (.slot (.merge node))

-- The induction is on the expression: an assignment hands on the value assigned, a choice with one
-- value that value.
mutual
theorem Expr.heldBy_of_holder {program : Program} (expr : Expr) {holder : Vertex}
    (held : expr.holder program = some holder) :
    ∃ part ∈ expr.all, part.HeldBy program holder := by
  cases expr with
  | function =>
    cases held
    exact ⟨_, Expr.mem_all_self _, .function⟩
  | ident =>
    cases held
    exact ⟨_, Expr.mem_all_self _, .ident⟩
  | this _ owner =>
    cases owner with
    | none => cases held
    | some =>
      cases held
      exact ⟨_, Expr.mem_all_self _, .this⟩
  | member _ _ name =>
    cases name with
    | none => cases held
    | some =>
      cases held
      exact ⟨_, Expr.mem_all_self _, .member⟩
  | call =>
    cases held
    exact ⟨_, Expr.mem_all_self _, .call⟩
  | assign _ _ value =>
    obtain ⟨part, inside, isHeld⟩ := value.heldBy_of_holder held
    exact ⟨part, by simp [Expr.all, inside], isHeld⟩
  | select _ _ values =>
    rcases Expr.holder_select held with single | ⟨several, rfl⟩
    · obtain ⟨part, inside, isHeld⟩ :=
        Expr.heldBy_of_holders values (single ▸ List.mem_singleton_self holder)
      exact ⟨part, by simp [Expr.all, inside], isHeld⟩
    · exact ⟨_, Expr.mem_all_self _, .select several⟩
  | object | inert => cases held
theorem Expr.heldBy_of_holders {program : Program} (exprs : List Expr) {holder : Vertex}
    (held : holder ∈ Expr.holders program exprs) :
    ∃ part ∈ Expr.allOf exprs, part.HeldBy program holder := by
  cases exprs with
  | nil => cases held
  | cons first rest =>
    rw [Expr.holders, List.mem_append, Option.mem_toList] at held
    rcases held with here | later
    · obtain ⟨part, inside, isHeld⟩ := first.heldBy_of_holder here
      exact ⟨part, by simp [Expr.allOf, inside], isHeld⟩
    · obtain ⟨part, inside, isHeld⟩ := Expr.heldBy_of_holders rest later
      exact ⟨part, by simp [Expr.allOf, inside], isHeld⟩
end

theorem Growth.mem_places_meet {node : NodeId} {sources : List Vertex} {vertex : Vertex} :
    vertex ∈ (Growth.meet node sources).places ↔
      2 ≤ sources.length ∧ vertex = .slot (.merge node) := by
  unfold Growth.meet
  split
  · simp
  · simp
  · simp [Growth.mem_places_sum, -List.map_cons]

theorem Growth.mem_arrows_meet {node : NodeId} {sources : List Vertex} {source target : Vertex} :
    (source, target) ∈ (Growth.meet node sources).arrows ↔
      2 ≤ sources.length ∧ source ∈ sources ∧ target = .slot (.merge node) := by
  unfold Growth.meet
  split
  · simp
  · simp
  · simp only [Growth.arrows_append, Growth.arrows_place, List.nil_append, Growth.mem_arrows_sum,
      List.mem_map, exists_exists_and_eq_and, Growth.arrows_arrow, List.mem_singleton,
      Prod.mk.injEq, List.length_cons, Nat.le_add_left, true_and]
    constructor
    · rintro ⟨other, member, rfl, rfl⟩
      exact ⟨member, rfl⟩
    · rintro ⟨member, rfl⟩
      exact ⟨source, member, rfl, rfl⟩

section

variable {program : Program} {source target : Vertex}

theorem Expr.mem_arrows_receiverGrowth {site : CallId} {callee : Expr} :
    (source, target) ∈ (callee.receiverGrowth program site).arrows ↔
      ∃ node whole name, callee = .member node whole name ∧ program.passesReceiver site ∧
        whole.holder program = some source ∧ target = .slot (.arg site 0) ∧ source ≠ target := by
  cases callee with
  | member node whole name =>
    simp only [Expr.receiverGrowth]
    split
    · rename_i passes
      simp only [Growth.arrows_append, Growth.arrows_place, List.nil_append, Growth.mem_arrows_flow]
      constructor
      · rintro ⟨held, rfl, apart⟩
        exact ⟨node, whole, name, rfl, passes, held, rfl, apart⟩
      · rintro ⟨_, _, _, same, _, held, rfl, apart⟩
        cases same
        exact ⟨held, rfl, apart⟩
    · rename_i passesNot
      simp [passesNot]
  | _ =>
    simp [Expr.receiverGrowth]

theorem Expr.mem_arrows_argumentHeads {site : CallId} {index : Nat} {arguments : List Expr} :
    (source, target) ∈ (Expr.argumentHeads program site index arguments).arrows ↔
      ∃ (position : Nat) (value : Expr), arguments[position]? = some value ∧
        value.holder program = some source ∧
        target = .slot (.arg site (index + position)) ∧ source ≠ target := by
  simp only [Expr.argumentHeads, Growth.mem_arrows_sum_map, Prod.exists, Growth.arrows_append,
    Growth.arrows_place, List.nil_append, Growth.mem_arrows_flow,
    List.mem_zipIdx_iff_le_and_getElem?_sub]
  constructor
  · rintro ⟨value, place, ⟨within, found⟩, held, rfl, apart⟩
    exact ⟨place - index, value, found, held, by rw [Nat.add_sub_cancel' within], apart⟩
  · rintro ⟨position, value, found, held, rfl, apart⟩
    refine ⟨value, index + position, ⟨Nat.le_add_right _ _, ?_⟩, held, rfl, apart⟩
    rwa [Nat.add_sub_cancel_left]

theorem Property.mem_arrows_headGrowth {entry : Property} :
    (source, target) ∈ (entry.headGrowth program).arrows ↔
      ∃ name value, entry = .mk (some name) value ∧ value.holder program = some source ∧
        target = .named name ∧ source ≠ target := by
  obtain ⟨key, value⟩ := entry
  cases key with
  | none => simp [Property.headGrowth]
  | some name =>
    simp only [Property.headGrowth, Growth.arrows_append, Growth.arrows_place, List.nil_append,
      Growth.mem_arrows_flow, Property.mk.injEq, Option.some.injEq]
    constructor
    · rintro ⟨held, rfl, apart⟩
      exact ⟨name, value, ⟨rfl, rfl⟩, held, rfl, apart⟩
    · rintro ⟨_, _, ⟨rfl, rfl⟩, held, rfl, apart⟩
      exact ⟨held, rfl, apart⟩

theorem Program.into_of_headGrowth {part : Expr} (member : part ∈ program.exprs)
    (arrow : (source, target) ∈ (part.headGrowth program).arrows) :
    ∃ expr, program.Into expr target ∧ expr.holder program = some source := by
  cases part with
  | function | ident | inert => simp [Expr.headGrowth] at arrow
  | this _ owner => cases owner <;> simp [Expr.headGrowth] at arrow
  | member _ _ name => cases name <;> simp [Growth.property] at arrow
  | call node site callee arguments =>
    simp only [Expr.headGrowth_call, Growth.arrows_append, Growth.arrows_place, List.append_nil,
      List.mem_append, Growth.mem_arrows_flow, Expr.mem_arrows_receiverGrowth,
      Expr.mem_arrows_argumentHeads] at arrow
    rcases arrow with (⟨_, whole, name, rfl, passes, held, rfl, _⟩ | ⟨held, rfl, _⟩) |
      ⟨position, value, found, held, rfl, _⟩
    · exact ⟨whole, .receiver member passes, held⟩
    · exact ⟨callee, .callee member, held⟩
    · rw [Nat.add_comm]
      exact ⟨value, .argument member found, held⟩
  | assign node place value =>
    simp only [Expr.headGrowth_assign] at arrow
    split at arrow
    · rename_i vertex held
      obtain ⟨valueHeld, rfl, _⟩ := Growth.mem_arrows_flow.mp arrow
      exact ⟨value, .assigned member held, valueHeld⟩
    · cases arrow
  | select node guards values =>
    obtain ⟨several, held, rfl⟩ := Growth.mem_arrows_meet.mp arrow
    obtain ⟨value, inside, valueHeld⟩ := Expr.mem_holders.mp held
    exact ⟨value, .chosen member inside several, valueHeld⟩
  | object node entries =>
    simp only [Expr.headGrowth_object, Growth.mem_arrows_sum_map,
      Property.mem_arrows_headGrowth] at arrow
    obtain ⟨_, inside, name, value, rfl, held, rfl, _⟩ := arrow
    exact ⟨value, .keyed member inside, held⟩

theorem Program.into_of_stmt {owner : Option FunctionId} {body : List Stmt} {stmt : Stmt}
    (isBody : (owner, body) ∈ program.bodies) (inside : stmt ∈ body)
    (arrow : (source, target) ∈ (stmt.headGrowth program owner).arrows) :
    ∃ expr, program.Into expr target ∧ expr.holder program = some source := by
  cases stmt with
  | expr => cases arrow
  | declare decl initial =>
    cases initial with
    | none => cases arrow
    | some initial =>
      obtain ⟨held, rfl, _⟩ := Growth.mem_arrows_flow.mp arrow
      exact ⟨initial, .declared isBody inside, held⟩
  | result returned =>
    cases owner with
    | none => cases arrow
    | some function =>
      obtain ⟨held, rfl, _⟩ := Growth.mem_arrows_flow.mp arrow
      cases returned with
      | none => cases held
      | some value => exact ⟨value, .returned isBody inside, held⟩

theorem Program.into_of_growth (arrow : program.growth.Has (.arrow source target)) :
    ∃ expr, program.Into expr target ∧ expr.holder program = some source := by
  rcases (Program.has_growth program _).mp arrow with ⟨_, _, same⟩ | ⟨_, _, same⟩ |
    ⟨owner, body, stmt, isBody, inside, here⟩ | ⟨part, member, here⟩
  · cases same
  · cases same
  · exact Program.into_of_stmt isBody inside here
  · exact Program.into_of_headGrowth member here

theorem Program.Into.arrow {expr : Expr} (into : program.Into expr target)
    (held : expr.holder program = some source) :
    source = target ∨ (source, target) ∈ program.growth.arrows := by
  by_cases same : source = target
  · exact .inl same
  right
  have ofExpr {part : Expr} (member : part ∈ program.exprs)
      (arrow : (source, target) ∈ (part.headGrowth program).arrows) :
      (source, target) ∈ program.growth.arrows :=
    (Program.has_growth program (.arrow source target)).mpr
      (.inr (.inr (.inr ⟨part, member, arrow⟩)))
  have ofStmt {owner : Option FunctionId} {body : List Stmt} {stmt : Stmt}
      (isBody : (owner, body) ∈ program.bodies) (inside : stmt ∈ body)
      (arrow : (source, target) ∈ (stmt.headGrowth program owner).arrows) :
      (source, target) ∈ program.growth.arrows :=
    (Program.has_growth program (.arrow source target)).mpr
      (.inr (.inr (.inl ⟨owner, body, stmt, isBody, inside, arrow⟩)))
  cases into with
  | callee member => exact ofExpr member (by simp [held, same])
  | @receiver _ inner _ _ name _ member passes =>
    have arrow := Expr.mem_arrows_receiverGrowth.mpr ⟨inner, _, name, rfl, passes, held, rfl, same⟩
    exact ofExpr member (by simp only [Expr.headGrowth_call, Growth.arrows_append, List.mem_append,
      arrow, true_or])
  | @argument _ site _ _ index _ member found =>
    rw [Nat.add_comm] at same ofExpr ⊢
    have arrow := Expr.mem_arrows_argumentHeads.mpr ⟨index, _, found, held, rfl, same⟩
    exact ofExpr member (by simp only [Expr.headGrowth_call, Growth.arrows_append, List.mem_append,
      arrow, true_or, or_true])
  | assigned member placed => exact ofExpr member (by simp [placed, held, same])
  | chosen member inside several =>
    exact ofExpr member
      (Growth.mem_arrows_meet.mpr ⟨several, Expr.mem_holders.mpr ⟨_, inside, held⟩, rfl⟩)
  | keyed member inside =>
    exact ofExpr member (Growth.mem_arrows_sum_map.mpr
      ⟨_, inside, Property.mem_arrows_headGrowth.mpr ⟨_, _, rfl, held, rfl, same⟩⟩)
  | declared isBody inside =>
    exact ofStmt isBody inside (by simp [Stmt.headGrowth, held, same])
  | returned isBody inside =>
    exact ofStmt isBody inside (by simp [Stmt.headGrowth, held, same])

theorem Program.Into.mem {expr : Expr} (into : program.Into expr target) :
    expr ∈ program.exprs := by
  cases into with
  | callee member | receiver member _ =>
    exact Program.mem_exprs_of_part member (by simp [Expr.all, Expr.mem_all_self])
  | argument member found =>
    exact Program.mem_exprs_of_part member (Expr.argument_mem_all (List.mem_of_getElem? found))
  | assigned member _ =>
    exact Program.mem_exprs_of_part member (by simp [Expr.all, Expr.mem_all_self])
  | chosen member inside _ =>
    exact Program.mem_exprs_of_part member (Expr.choice_mem_all inside)
  | keyed member inside =>
    refine Program.mem_exprs_of_part member ?_
    simp only [Expr.all, List.mem_cons, Property.mem_allOf]
    exact .inr ⟨_, expr, inside, expr.mem_all_self⟩
  | declared isBody inside | returned isBody inside =>
    exact Program.mem_exprs.mpr ⟨_, _, _, isBody, inside, expr.mem_all_self⟩

theorem Expr.isCall_of_headGrowth {part : Expr} {call : CallId}
    (place : .callee call ∈ (part.headGrowth program).places) :
    ∃ node callee arguments, part = .call node call callee arguments := by
  cases part with
  | function | ident | inert => simp [Expr.headGrowth] at place
  | this _ owner => cases owner <;> simp [Expr.headGrowth] at place
  | member _ _ name => cases name <;> simp [Growth.property] at place
  | call node site callee arguments =>
    have notReceiver : .callee call ∉ (callee.receiverGrowth program site).places := by
      unfold Expr.receiverGrowth
      split
      · split <;> simp
      · simp
    have notArgument : .callee call ∉ (Expr.argumentHeads program site 1 arguments).places := by
      rw [Expr.argumentHeads, Growth.mem_places_sum_map]
      simp
    have same : call = site := by simpa [notReceiver, notArgument] using place
    exact ⟨node, callee, arguments, same ▸ rfl⟩
  | assign _ target _ =>
    simp only [Expr.headGrowth_assign] at place
    split at place <;> simp at place
  | select _ _ values =>
    rw [Expr.headGrowth_select, Growth.meet.eq_def] at place
    split at place
    · simp at place
    · simp at place
    · simp [Growth.mem_places_sum] at place
  | object _ entries =>
    rw [Expr.headGrowth_object, Growth.mem_places_sum_map] at place
    obtain ⟨⟨key, value⟩, _, here⟩ := place
    cases key <;> simp [Property.headGrowth] at here

theorem Stmt.callee_not_mem_headGrowth {owner : Option FunctionId} {stmt : Stmt} {call : CallId} :
    .callee call ∉ (stmt.headGrowth program owner).places := by
  cases stmt with
  | expr => simp [Stmt.headGrowth]
  | declare _ initial => cases initial <;> simp [Stmt.headGrowth]
  | result _ => cases owner <;> simp [Stmt.headGrowth]

end

/-! ### The graph of a program -/

/-- The graph from which the analyses of a program start: the arrows of built-in functions, and
those of the values that go somewhere. -/
structure FlowGraph.Represents (graph : FlowGraph) (program : Program) (natives : NativeTable) :
    Prop where
  wellFormed : graph.WellFormed
  arrow_cases : ∀ {source target}, graph.Arrow source target →
    (∃ entry ∈ natives.entries, source = .native entry.1 ∧ target = .named entry.2) ∨
      ∃ expr, program.Into expr target ∧ expr.holder program = some source
  native : ∀ entry ∈ natives.entries, graph.Arrow (.native entry.1) (.named entry.2)
  into : ∀ {expr source target}, program.Into expr target → expr.holder program = some source →
    source = target ∨ graph.Arrow source target
  function : ∀ id < program.functions.size, .function id ∈ graph.vertices
  callee_iff : ∀ {call}, .callee call ∈ graph.vertices ↔ call < program.calls.size

theorem FlowGraph.not_arrow_empty {source target : Vertex} :
    ¬ ({} : FlowGraph).Arrow source target := by
  rintro ⟨_, _, _, _, edge⟩
  cases edge with | mk edge => cases edge

theorem Analysis.bodyGraph_grown {program : Program} (inRange : program.InRange)
    (natives : NativeTable) :
    ∃ graph events, Analysis.bodyGraph program natives = .ok (graph, events) ∧
      ({} : FlowGraph).Grown (.sum (natives.entries.map Build.nativeGrowth) ++ program.growth)
        graph := by
  obtain ⟨seeded, before, ran, grown⟩ :=
    Build.natives_yields FlowGraph.wellFormed_empty natives.entries
  obtain ⟨graph, built, grownBodies⟩ := FlowGraph.addBodies_grown inRange grown.wellFormed
  refine ⟨graph,
    [.nativesSeeded seeded, .bodiesBuilt graph.size (graph.edgeCount - before.edgeCount)], ?_,
    grown.trans grownBodies⟩
  simp only [Analysis.bodyGraph, FlowGraph.addNatives, ran, Checked.ok_bind, built]
  rfl

theorem FlowGraph.Grown.arrow_natives_iff {program : Program} {natives : NativeTable}
    {graph : FlowGraph} (whole : ({} : FlowGraph).Grown
      (.sum (natives.entries.map Build.nativeGrowth) ++ program.growth) graph)
    {source target : Vertex} : graph.Arrow source target ↔
      (∃ entry ∈ natives.entries, source = .native entry.1 ∧ target = .named entry.2) ∨
        program.growth.Has (.arrow source target) := by
  rw [whole.arrow_iff, Growth.arrows_append, List.mem_append, Growth.mem_arrows_sum_map,
    or_iff_right not_arrow_empty]
  simp [Build.nativeGrowth, Growth.Has]

theorem Analysis.bodyGraph_represents {program : Program} (inRange : program.InRange)
    (natives : NativeTable) :
    ∃ graph events, Analysis.bodyGraph program natives = .ok (graph, events) ∧
      graph.Represents program natives := by
  obtain ⟨graph, events, built, whole⟩ := bodyGraph_grown inRange natives
  refine ⟨graph, events, built, ?_⟩
  have mem_vertices {vertex : Vertex} : vertex ∈ graph.vertices ↔
      vertex ∈ (Growth.sum (natives.entries.map Build.nativeGrowth)).places ∨
        program.growth.Has (.place vertex) := by
    rw [whole.mem_vertices, Growth.places_append, List.mem_append]
    simp [Growth.Has]
  constructor
  case wellFormed => exact whole.wellFormed
  case arrow_cases =>
    intro source target arrow
    exact (whole.arrow_natives_iff.mp arrow).imp_right Program.into_of_growth
  case native => exact fun entry member =>
    whole.arrow_natives_iff.mpr (.inl ⟨entry, member, rfl, rfl⟩)
  case into =>
    exact fun into held => (into.arrow held).imp_right fun here =>
      whole.arrow_natives_iff.mpr (.inr here)
  case function =>
    exact fun id below =>
      mem_vertices.mpr (.inr ((Program.has_growth program _).mpr (.inl ⟨id, below, rfl⟩)))
  case callee_iff =>
    intro call
    rw [mem_vertices, Growth.mem_places_sum_map, Program.has_growth]
    constructor
    · rintro (⟨entry, _, here⟩ | ⟨_, _, same⟩ | ⟨id, below, same⟩ | ⟨_, _, _, _, _, here⟩ |
        ⟨part, member, here⟩)
      · simp [Build.nativeGrowth] at here
      · cases same
      · cases same
        exact below
      · exact absurd here Stmt.callee_not_mem_headGrowth
      · obtain ⟨_, _, _, rfl⟩ := Expr.isCall_of_headGrowth here
        exact inRange.head member
    · exact fun below => .inr (.inr (.inl ⟨call, below, rfl⟩))

end FunctionFlow
