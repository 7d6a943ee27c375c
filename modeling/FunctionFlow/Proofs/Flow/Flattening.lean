import FunctionFlow.Proofs.Flow.Exchange
import Mathlib.Data.List.Nodup
import Mathlib.Logic.Relation

/-!
Contract: a choice among the values of another choice.

The vertex of the inner choice, if there is one, hands its values on to that of the outer choice, or
takes its place where the outer choice has no other value.
-/

namespace FunctionFlow

variable {item : Growth.Item} {vertex : Vertex}

/-! ### Ways through choices -/

def Vertex.isMerge : Vertex → Bool
  | .slot location => location.isMerge
  | _ => false

def Bridge (arrow : Vertex → Vertex → Prop) (source target : Vertex) : Prop :=
  ∃ last, Relation.ReflTransGen (fun first next => arrow first next ∧ next.isMerge) source last ∧
    arrow last target

namespace Bridge

variable {arrow other : Vertex → Vertex → Prop} {source middle target : Vertex}

theorem of_arrow (here : arrow source target) : Bridge arrow source target :=
  ⟨source, .refl, here⟩

theorem trans (first : Bridge arrow source middle) (isMerge : middle.isMerge)
    (second : Bridge arrow middle target) : Bridge arrow source target := by
  obtain ⟨last, way, here⟩ := first
  obtain ⟨final, further, there⟩ := second
  exact ⟨final, (way.tail ⟨here, isMerge⟩).trans further, there⟩

/-- If every arrow has a bridge in its place, or joins vertices of choices that become one, then so
has every bridge. -/
theorem simulated (move : Vertex → Vertex)
    (fixed : ∀ vertex, vertex.isMerge = false → move vertex = vertex)
    (kept : ∀ vertex, vertex.isMerge → (move vertex).isMerge)
    (simulates : ∀ source target, arrow source target →
      Bridge other (move source) (move target) ∨
        (move source = move target ∧ (move source).isMerge))
    (notSource : source.isMerge = false) (notTarget : target.isMerge = false)
    (bridge : Bridge arrow source target) : Bridge other source target := by
  have apart {first second : Vertex} (notMerge : first.isMerge = false)
      (isMerge : second.isMerge) : first ≠ second := by
    rintro rfl
    exact Bool.false_ne_true (notMerge.symm.trans isMerge)
  obtain ⟨last, way, here⟩ := bridge
  have reached : last = source ∨ last.isMerge ∧ Bridge other source (move last) := by
    clear here
    induction way with
    | refl => exact .inl rfl
    | @tail _ next _ step inductionHypothesis =>
      refine .inr ⟨step.2, ?_⟩
      have simulated := simulates _ _ step.1
      rcases inductionHypothesis with rfl | ⟨isMerge, sofar⟩
      · rw [fixed _ notSource] at simulated
        exact simulated.resolve_right fun ⟨joined, isMerge⟩ => apart notSource isMerge rfl
      · rcases simulated with further | ⟨joined, _⟩
        · exact sofar.trans (kept _ isMerge) further
        · rwa [← joined]
  have simulated := simulates _ _ here
  rw [fixed _ notTarget] at simulated
  rcases reached with rfl | ⟨isMerge, sofar⟩
  · rw [fixed _ notSource] at simulated
    exact simulated.resolve_right fun ⟨_, isMerge⟩ => apart notSource isMerge rfl
  · rcases simulated with further | ⟨joined, isMerge⟩
    · exact sofar.trans (kept _ isMerge) further
    · exact absurd joined (apart notTarget isMerge).symm

end Bridge

/-- The arrows that the bodies of a program add to the flow. -/
def Program.Arrow (program : Program) (source target : Vertex) : Prop :=
  program.growth.Has (.arrow source target)

/-- Where an arrow starts or ends at the vertex of a choice, there is such a choice in the program,
with several values. -/
theorem Program.Arrow.exists_choice {program : Program} {source target : Vertex}
    (here : program.Arrow source target) {node : NodeId}
    (atChoice : source = .slot (.merge node) ∨ target = .slot (.merge node)) :
    ∃ guards values, .select node guards values ∈ program.exprs ∧
      2 ≤ (Expr.holders program values).length := by
  have ofHolder {expr : Expr} (member : expr ∈ program.exprs)
      (held : expr.holder program = some (.slot (.merge node))) :
      ∃ guards values, .select node guards values ∈ program.exprs ∧
        2 ≤ (Expr.holders program values).length := by
    obtain ⟨part, inside, isHeld⟩ := expr.heldBy_of_holder held
    generalize atMerge : Vertex.slot (.merge node) = vertex at isHeld
    cases isHeld with
    | ident =>
      have notMerge := Reference.isMerge_slot program ‹_›
      rw [← Vertex.slot.inj atMerge] at notMerge
      cases notMerge
    | select several =>
      cases atMerge
      exact ⟨_, _, Program.mem_exprs_of_part member inside, several⟩
    | function | this | member | call => cases atMerge
  obtain ⟨expr, into, held⟩ := Program.into_of_growth here
  rcases atChoice with rfl | rfl
  · exact ofHolder into.mem held
  · generalize atMerge : Vertex.slot (.merge node) = vertex at into
    cases into with
    | assigned member isPlace =>
      exact ofHolder (Program.mem_exprs_of_part member (by simp [Expr.all, Expr.mem_all_self]))
        (isPlace.trans (congrArg some atMerge.symm))
    | chosen member _ several =>
      cases atMerge
      exact ⟨_, _, member, several⟩
    | declared =>
      have notMerge := Program.isMerge_slotOf program ‹_›
      rw [← Vertex.slot.inj atMerge] at notMerge
      cases notMerge
    | _ => cases atMerge

/-! ### Choices that join -/

/-- The vertex of one choice joins that of another one, if the condition `applies`. -/
structure Joining where
  node : NodeId
  into : NodeId
  applies : Prop

namespace Joining

variable (joining : Joining)

def Related (vertex other : Vertex) : Prop :=
  vertex = other ∨ joining.applies ∧ vertex = .slot (.merge joining.node) ∧
    other = .slot (.merge joining.into)

open Classical in
noncomputable def move (vertex : Vertex) : Vertex :=
  if joining.applies ∧ vertex = .slot (.merge joining.node) then .slot (.merge joining.into)
  else vertex

def Simulates (arrow : Vertex → Vertex → Prop) (source target : Vertex) : Prop :=
  Bridge arrow (joining.move source) (joining.move target) ∨
    joining.move source = joining.move target ∧ (joining.move source).isMerge

variable {joining}

theorem move_of_ne (apart : joining.applies → vertex ≠ .slot (.merge joining.node)) :
    joining.move vertex = vertex :=
  if_neg fun ⟨applies, same⟩ => apart applies same

theorem move_node (applies : joining.applies) :
    joining.move (.slot (.merge joining.node)) = .slot (.merge joining.into) :=
  if_pos ⟨applies, rfl⟩

theorem move_of_isMerge (isMerge : vertex.isMerge) : (joining.move vertex).isMerge := by
  unfold move
  split
  · rfl
  · exact isMerge

theorem Related.move {other : Vertex} (related : joining.Related vertex other)
    (apart : joining.applies → other ≠ .slot (.merge joining.node)) :
    joining.move vertex = other := by
  rcases related with rfl | ⟨applies, rfl, rfl⟩
  · exact move_of_ne apart
  · exact move_node applies

theorem Related.move_into (related : joining.Related vertex (.slot (.merge joining.into))) :
    joining.move vertex = .slot (.merge joining.into) := by
  unfold Joining.move
  split
  · rfl
  · rename_i elsewhere
    exact related.resolve_right fun ⟨applies, same, _⟩ => elsewhere ⟨applies, same⟩

/-- Where an expression is replaced by another one, and the vertex of its choice joins another one
with that, there is a bridge for every bridge. -/
theorem bridge {fill : Expr → Program} (place : Program.Place fill) {old new : Expr}
    (holder : Option.Rel joining.Related (old.holder (fill old)) (new.holder (fill old)))
    (noReceiver : ∀ site, old.receiverGrowth (fill old) site = {})
    (avoids : joining.applies → ∀ {source target}, (fill new).Arrow source target →
      source ≠ .slot (.merge joining.node) ∧ target ≠ .slot (.merge joining.node))
    (inside : ∀ source target, (old.growth (fill old)).Has (.arrow source target) →
      joining.Simulates (fill new).Arrow source target)
    {source target : Vertex} (notSource : source.isMerge = false)
    (notTarget : target.isMerge = false) (bridge : Bridge (fill old).Arrow source target) :
    Bridge (fill new).Arrow source target := by
  refine bridge.simulated joining.move (fun vertex notMerge => move_of_ne fun _ same => ?_)
    (fun _ => move_of_isMerge) (fun source target here => ?_) notSource notTarget
  · rw [same] at notMerge
    cases notMerge
  rcases place.covers (fun _ => .inl rfl) holder noReceiver _ here with known | ⟨_, moves, found⟩
  · exact inside _ _ known
  obtain _ | @⟨_, _, newSource, newTarget, ofSource, ofTarget⟩ := moves
  rcases found with there | ⟨changed, vertex, same⟩
  · rw [ofSource.move fun applies => (avoids applies there).1,
      ofTarget.move fun applies => (avoids applies there).2]
    exact .inl (.of_arrow there)
  · -- one of the two ends has changed, so both are now where the joining goes
    obtain ⟨isSource, isTarget⟩ := Growth.Item.arrow.inj same
    have joined : vertex = .slot (.merge joining.into) := by
      rcases ofSource with rfl | ⟨_, _, joined⟩
      · rcases ofTarget with rfl | ⟨_, _, joined⟩
        · exact absurd rfl changed
        · exact isTarget.symm.trans joined
      · exact isSource.symm.trans joined
    rw [isSource, joined] at ofSource
    rw [isTarget, joined] at ofTarget
    rw [ofSource.move_into, ofTarget.move_into]
    exact .inr ⟨rfl, rfl⟩

end Joining

/-! ### The two forms of a choice -/

theorem Expr.holders_append (program : Program) (first second : List Expr) :
    Expr.holders program (first ++ second) =
      Expr.holders program first ++ Expr.holders program second := by
  induction first with
  | nil => rfl
  | cons head rest inductionHypothesis =>
    rw [List.cons_append, Expr.holders, Expr.holders, inductionHypothesis, List.append_assoc]

theorem Expr.has_growths_append {program : Program} {first second : List Expr} :
    (Expr.growths program (first ++ second)).Has item ↔
      (Expr.growths program first).Has item ∨ (Expr.growths program second).Has item := by
  simp only [Expr.has_growths, Expr.allOf_append, List.mem_append, or_and_right, exists_or]

/-- A choice with another choice among its values. -/
structure Nesting where
  outer : NodeId
  inner : NodeId
  guards : List Expr
  innerGuards : List Expr
  before : List Expr
  values : List Expr
  after : List Expr

namespace Nesting

variable (nesting : Nesting)

def nested : Expr :=
  .select nesting.outer nesting.guards
    (nesting.before ++ .select nesting.inner nesting.innerGuards nesting.values :: nesting.after)

def flat : Expr :=
  .select nesting.outer (nesting.guards ++ nesting.innerGuards)
    (nesting.before ++ nesting.values ++ nesting.after)

def innerVertex : Vertex := .slot (.merge nesting.inner)

def outerVertex : Vertex := .slot (.merge nesting.outer)

/-- The flow in the guards and values of both choices. -/
def parts (program : Program) : Growth :=
  Expr.growths program (nesting.guards ++ nesting.innerGuards ++ nesting.before ++ nesting.values
    ++ nesting.after)

def inside (program : Program) : List Vertex := Expr.holders program nesting.values

def sources (program : Program) : List Vertex :=
  Expr.holders program nesting.before ++
    (Growth.meeting nesting.inner (nesting.inside program)).toList ++
    Expr.holders program nesting.after

def allSources (program : Program) : List Vertex :=
  Expr.holders program nesting.before ++ nesting.inside program ++
    Expr.holders program nesting.after

def Alone (program : Program) : Prop :=
  Expr.holders program nesting.before = [] ∧ Expr.holders program nesting.after = [] ∧
    2 ≤ (nesting.inside program).length

theorem oneMore : Expr.OneMore (.select nesting.inner [] []) nesting.nested.all nesting.flat.all := by
  classical
  refine List.perm_iff_count.mpr fun expr => ?_
  simp only [nested, flat, Expr.all, Expr.allOf_append, Expr.allOf, List.map_append, List.map_cons,
    Expr.bare, List.count_append, List.count_cons]
  omega

variable {nesting} {program : Program}

theorem holder_nested : nesting.nested.holder program =
    Growth.meeting nesting.outer (nesting.sources program) := by
  simp only [nested, Expr.holder, Expr.holders_append, Expr.holders, sources, inside,
    List.append_assoc]

theorem holder_flat : nesting.flat.holder program =
    Growth.meeting nesting.outer (nesting.allSources program) := by
  simp only [flat, Expr.holder, Expr.holders_append, allSources, inside, List.append_assoc]

theorem has_nested : (nesting.nested.growth program).Has item ↔
    (nesting.parts program).Has item ∨
      (Growth.meet nesting.inner (nesting.inside program)).Has item ∨
      (Growth.meet nesting.outer (nesting.sources program)).Has item := by
  simp only [nested, parts, sources, inside, Expr.growth, Expr.growths, Expr.holder, Expr.holders,
    Growth.has_append, Expr.has_growths_append, Expr.holders_append, List.append_assoc]
  tauto

theorem has_flat : (nesting.flat.growth program).Has item ↔
    (nesting.parts program).Has item ∨
      (Growth.meet nesting.outer (nesting.allSources program)).Has item := by
  simp only [flat, parts, allSources, inside, Expr.growth, Growth.has_append,
    Expr.has_growths_append, Expr.holders_append, or_assoc]

theorem sources_of_several (several : 2 ≤ (nesting.inside program).length) :
    nesting.sources program = Expr.holders program nesting.before ++
      nesting.innerVertex :: Expr.holders program nesting.after := by
  unfold sources
  match nesting.inside program, several with
  | _ :: _ :: _, _ => rw [List.append_assoc]; rfl

theorem sources_of_few (few : ¬ 2 ≤ (nesting.inside program).length) :
    nesting.sources program = nesting.allSources program := by
  unfold sources allSources
  match nesting.inside program, few with
  | [], _ | [_], _ => rfl
  | _ :: _ :: _, few => simp at few

theorem several_allSources (several : 2 ≤ (nesting.sources program).length) :
    2 ≤ (nesting.allSources program).length := by
  by_cases atInner : 2 ≤ (nesting.inside program).length
  · simp only [allSources, List.length_append]
    omega
  · rwa [← sources_of_few atInner]

theorem several_sources (notAlone : ¬ nesting.Alone program)
    (several : 2 ≤ (nesting.allSources program).length) :
    2 ≤ (nesting.sources program).length := by
  by_cases atInner : 2 ≤ (nesting.inside program).length
  · rw [sources_of_several atInner, List.length_append, List.length_cons]
    by_contra few
    refine notAlone ⟨List.length_eq_zero_iff.mp ?_, List.length_eq_zero_iff.mp ?_, atInner⟩ <;>
      omega
  · rwa [sources_of_few atInner]

theorem meeting_of_several {node : NodeId} {vertices : List Vertex} (several : 2 ≤ vertices.length) :
    Growth.meeting node vertices = some (.slot (.merge node)) := by
  match vertices, several with
  | _ :: _ :: _, _ => rfl

theorem holder_of_alone (alone : nesting.Alone program) :
    nesting.nested.holder program = some nesting.innerVertex ∧
      nesting.flat.holder program = some nesting.outerVertex := by
  obtain ⟨noneBefore, noneAfter, several⟩ := alone
  rw [holder_nested, sources_of_several several, noneBefore, noneAfter, holder_flat]
  refine ⟨rfl, meeting_of_several ?_⟩
  simpa [allSources, noneBefore, noneAfter] using several

/-- The values of the two forms are at the same vertex, unless the inner choice has all of them. -/
theorem holder_of_not_alone (notAlone : ¬ nesting.Alone program) :
    nesting.nested.holder program = nesting.flat.holder program := by
  rw [holder_nested, holder_flat]
  by_cases atInner : 2 ≤ (nesting.inside program).length
  · have several : 2 ≤ (nesting.allSources program).length := by
      simp only [allSources, List.length_append]
      omega
    rw [meeting_of_several several, meeting_of_several (several_sources notAlone several)]
  · rw [sources_of_few atInner]

def joining : Joining := ⟨nesting.inner, nesting.outer, True⟩

def joiningBack (nesting : Nesting) (program : Program) : Joining :=
  ⟨nesting.outer, nesting.inner, nesting.Alone program⟩

theorem holder_joins : Option.Rel nesting.joining.Related (nesting.nested.holder program)
    (nesting.flat.holder program) := by
  by_cases alone : nesting.Alone program
  · obtain ⟨atInner, atOuter⟩ := holder_of_alone alone
    rw [atInner, atOuter]
    exact .some (.inr ⟨trivial, rfl, rfl⟩)
  · exact rel_of_eq (fun _ => .inl rfl) (holder_of_not_alone alone)

theorem holder_joinsBack : Option.Rel (nesting.joiningBack program).Related
    (nesting.flat.holder program) (nesting.nested.holder program) := by
  by_cases alone : nesting.Alone program
  · obtain ⟨atInner, atOuter⟩ := holder_of_alone alone
    rw [atInner, atOuter]
    exact .some (.inr ⟨alone, rfl, rfl⟩)
  · exact rel_of_eq (fun _ => .inl rfl) (holder_of_not_alone alone).symm

/-! ### The flow around them -/

section

variable {source : Vertex} {fill : Expr → Program} (place : Program.Place fill)

include place

theorem has_parts (here : (nesting.parts (fill nesting.nested)).Has item) :
    (fill nesting.nested).growth.Has item ∧ (fill nesting.flat).growth.Has item := by
  refine ⟨place.has_growth (has_nested.mpr (.inl here)), place.has_growth (has_flat.mpr (.inl ?_))⟩
  rwa [parts, Expr.growths_sameTables (place.sameTables nesting.nested nesting.flat)]

theorem allSources_flat :
    nesting.allSources (fill nesting.flat) = nesting.allSources (fill nesting.nested) := by
  simp only [allSources, inside, Expr.holders_sameTables (place.sameTables nesting.nested _)]

theorem parts_flat : nesting.parts (fill nesting.flat) = nesting.parts (fill nesting.nested) :=
  Expr.growths_sameTables (place.sameTables nesting.nested nesting.flat) _

theorem holder_flat_joinsBack : Option.Rel (nesting.joiningBack (fill nesting.nested)).Related
    (nesting.flat.holder (fill nesting.flat)) (nesting.nested.holder (fill nesting.flat)) := by
  have same := place.sameTables nesting.flat nesting.nested
  rw [← Expr.holder_sameTables same nesting.flat, ← Expr.holder_sameTables same nesting.nested]
  exact holder_joinsBack

theorem place_iff (notMerge : vertex.isMerge = false) :
    (fill nesting.nested).growth.Has (.place vertex) ↔
      (fill nesting.flat).growth.Has (.place vertex) := by
  have notMeet {node : NodeId} {vertices : List Vertex} :
      ¬ (Growth.meet node vertices).Has (.place vertex) := by
    intro here
    obtain ⟨_, rfl⟩ := Growth.mem_places_meet.mp here
    cases notMerge
  constructor
  · intro here
    rcases place.covers (fun _ => .inl rfl) holder_joins (fun _ => rfl) _ here with
      known | ⟨_, ⟨⟩, found⟩
    · rw [has_nested, or_iff_left (by simp [notMeet])] at known
      exact (has_parts place known).2
    · exact found.resolve_right fun ⟨changed, _⟩ => changed rfl
  · intro here
    rcases place.covers (fun _ => .inl rfl) (holder_flat_joinsBack place) (fun _ => rfl) _ here with
      known | ⟨_, ⟨⟩, found⟩
    · rw [has_flat, or_iff_left notMeet, parts_flat place] at known
      exact (has_parts place known).1
    · exact found.resolve_right fun ⟨changed, _⟩ => changed rfl

theorem arrow_flat (member : source ∈ nesting.allSources (fill nesting.nested))
    (several : 2 ≤ (nesting.allSources (fill nesting.nested)).length) :
    (fill nesting.flat).Arrow source nesting.outerVertex := by
  refine place.has_growth (has_flat.mpr (.inr (Growth.mem_arrows_meet.mpr ?_)))
  rw [allSources_flat place]
  exact ⟨several, member, rfl⟩

theorem arrow_inner (member : source ∈ nesting.inside (fill nesting.nested))
    (several : 2 ≤ (nesting.inside (fill nesting.nested)).length) :
    (fill nesting.nested).Arrow source nesting.innerVertex :=
  place.has_growth (has_nested.mpr (.inr (.inl (Growth.mem_arrows_meet.mpr ⟨several, member, rfl⟩))))

theorem arrow_outer (member : source ∈ nesting.sources (fill nesting.nested))
    (several : 2 ≤ (nesting.sources (fill nesting.nested)).length) :
    (fill nesting.nested).Arrow source nesting.outerVertex :=
  place.has_growth (has_nested.mpr (.inr (.inr (Growth.mem_arrows_meet.mpr ⟨several, member, rfl⟩))))

variable (distinct : ((fill nesting.nested).exprs.map Expr.node).Nodup)
include distinct

theorem flat_avoids {target : Vertex} (here : (fill nesting.flat).Arrow source target) :
    source ≠ nesting.innerVertex ∧ target ≠ nesting.innerVertex := by
  rw [← not_or]
  intro atInner
  obtain ⟨guards, values, member, _⟩ := here.exists_choice atInner
  have nodes := (place.oneMore nesting.oneMore).nodes.nodup_iff.mp distinct
  exact (List.nodup_cons.mp nodes).1 (List.mem_map.mpr ⟨_, member, rfl⟩)

theorem nested_avoids (alone : nesting.Alone (fill nesting.nested)) {target : Vertex}
    (here : (fill nesting.nested).Arrow source target) :
    source ≠ nesting.outerVertex ∧ target ≠ nesting.outerVertex := by
  rw [← not_or]
  intro atOuter
  obtain ⟨guards, values, member, several⟩ := here.exists_choice atOuter
  cases List.inj_on_of_nodup_map distinct member (place.mem_exprs nesting.nested.mem_all_self) rfl
  obtain ⟨noneBefore, noneAfter, atInner⟩ := alone
  rw [Expr.holders_append, Expr.holders, noneBefore, noneAfter, Expr.holder] at several
  change 2 ≤ ([] ++ ((Growth.meeting nesting.inner (nesting.inside _)).toList ++ [])).length at several
  rw [meeting_of_several atInner] at several
  simp at several

theorem bridge_flat {target : Vertex} (notSource : source.isMerge = false)
    (notTarget : target.isMerge = false)
    (bridge : Bridge (fill nesting.nested).Arrow source target) :
    Bridge (fill nesting.flat).Arrow source target := by
  let joining := nesting.joining
  have direct {source target : Vertex} (here : (fill nesting.flat).Arrow source target) :
      joining.Simulates (fill nesting.flat).Arrow source target := by
    obtain ⟨notAtSource, notAtTarget⟩ := flat_avoids place distinct here
    rw [Joining.Simulates, Joining.move_of_ne fun _ => notAtSource,
      Joining.move_of_ne fun _ => notAtTarget]
    exact .inl (.of_arrow here)
  have toOuter : joining.move nesting.innerVertex = nesting.outerVertex := joining.move_node trivial
  have kept : joining.move nesting.outerVertex = nesting.outerVertex :=
    Joining.Related.move_into (.inl rfl)
  refine joining.bridge place holder_joins (fun _ => rfl)
    (fun _ _ _ => flat_avoids place distinct) ?_ notSource notTarget bridge
  intro source target known
  rcases has_nested.mp known with part | atInner | atOuter
  · exact direct (has_parts place part).2
  · obtain ⟨several, member, rfl⟩ := Growth.mem_arrows_meet.mp atInner
    have here := direct (arrow_flat place
      (List.mem_append_left _ (List.mem_append_right _ member)) (by
        simp only [allSources, List.length_append]
        omega))
    rwa [Joining.Simulates, kept, ← toOuter] at here
  · obtain ⟨several, member, rfl⟩ := Growth.mem_arrows_meet.mp atOuter
    by_cases atInner : 2 ≤ (nesting.inside (fill nesting.nested)).length
    · have more := several_allSources several
      rw [sources_of_several atInner, List.mem_append, List.mem_cons] at member
      rcases member with isBefore | rfl | isAfter
      · exact direct (arrow_flat place
          (List.mem_append_left _ (List.mem_append_left _ isBefore)) more)
      · exact .inr ⟨toOuter.trans kept.symm, by rw [toOuter]; rfl⟩
      · exact direct (arrow_flat place (List.mem_append_right _ isAfter) more)
    · rw [sources_of_few atInner] at member several
      exact direct (arrow_flat place member several)

theorem bridge_nested {target : Vertex} (notSource : source.isMerge = false)
    (notTarget : target.isMerge = false) (bridge : Bridge (fill nesting.flat).Arrow source target) :
    Bridge (fill nesting.nested).Arrow source target := by
  let joining := nesting.joiningBack (fill nesting.nested)
  have direct {source target : Vertex} (here : (fill nesting.nested).Arrow source target) :
      joining.Simulates (fill nesting.nested).Arrow source target := by
    rw [Joining.Simulates,
      Joining.move_of_ne fun alone => (nested_avoids place distinct alone here).1,
      Joining.move_of_ne fun alone => (nested_avoids place distinct alone here).2]
    exact .inl (.of_arrow here)
  refine joining.bridge place (holder_flat_joinsBack place) (fun _ => rfl)
    (fun alone _ _ => nested_avoids place distinct alone) ?_ notSource notTarget bridge
  intro source target known
  rw [has_flat, parts_flat place, allSources_flat place] at known
  rcases known with part | atOuter
  · exact direct (has_parts place part).1
  obtain ⟨several, member, rfl⟩ := Growth.mem_arrows_meet.mp atOuter
  by_cases alone : nesting.Alone (fill nesting.nested)
  · obtain ⟨noneBefore, noneAfter, atInner⟩ := id alone
    rw [allSources, noneBefore, noneAfter, List.nil_append, List.append_nil] at member
    have here := arrow_inner place member atInner
    have toInner : joining.move nesting.outerVertex = nesting.innerVertex := joining.move_node alone
    refine .inl ?_
    rw [Joining.move_of_ne fun _ => (nested_avoids place distinct alone here).1]
    exact toInner ▸ .of_arrow here
  · rw [Joining.Simulates, Joining.move_of_ne (absurd · alone), Joining.move_of_ne (absurd · alone)]
    have more := several_sources alone several
    by_cases atInner : 2 ≤ (nesting.inside (fill nesting.nested)).length
    · have outer (source : Vertex) (member : source ∈ nesting.sources (fill nesting.nested)) :=
        arrow_outer place member more
      rw [sources_of_several atInner] at outer
      rcases List.mem_append.mp member with front | isAfter
      · rcases List.mem_append.mp front with isBefore | isInside
        · exact .inl (.of_arrow (outer _ (List.mem_append_left _ isBefore)))
        · exact .inl (.trans (.of_arrow (arrow_inner place isInside atInner)) rfl
            (.of_arrow (outer _ (List.mem_append_right _ List.mem_cons_self))))
      · exact .inl (.of_arrow (outer _ (List.mem_append_right _ (List.mem_cons_of_mem _ isAfter))))
    · rw [← sources_of_few atInner] at member
      exact .inl (.of_arrow (arrow_outer place member more))

end

end Nesting

end FunctionFlow
