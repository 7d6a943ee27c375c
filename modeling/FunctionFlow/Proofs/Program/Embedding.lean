import FunctionFlow.Proofs.Program.Append
import FunctionFlow.Proofs.Program.CallSites

/-!
Contract: programs inside others, under other ids.
-/

namespace FunctionFlow

variable {place : Nat → Nat}

/-! ### Tables -/

namespace Table

def under (bound : Nat) (place : Nat → Nat) (id : Nat) : Nat :=
  if id < bound then id else bound + place (id - bound)

def exchange (first second id : Nat) : Nat :=
  if id < first then second + id else if id < first + second then id - first else id

theorem under_of_lt {bound : Nat} {id : Nat} (below : id < bound) : under bound place id = id :=
  if_pos below

theorem under_add (bound : Nat) (place : Nat → Nat) (id : Nat) :
    under bound place (bound + id) = bound + place id := by
  rw [under, if_neg (Nat.not_lt_of_le (Nat.le_add_right _ _)), Nat.add_sub_cancel_left]

theorem exchange_first {first second id : Nat} (below : id < first) :
    exchange first second id = second + id :=
  if_pos below

theorem exchange_second {first second id : Nat} (below : id < second) :
    exchange first second (first + id) = id := by
  rw [exchange, if_neg (by omega), if_pos (by omega), Nat.add_sub_cancel_left]

theorem exchange_rest (first second id : Nat) :
    exchange first second (first + (second + id)) = second + (first + id) := by
  rw [exchange, if_neg (by omega), if_neg (by omega), Nat.add_left_comm]

theorem under_under {bound : Nat} {back : Nat → Nat} (undone : ∀ id, back (place id) = id)
    (id : Nat) : under bound back (under bound place id) = id := by
  by_cases below : id < bound
  · rw [under_of_lt below, under_of_lt below]
  · obtain ⟨later, rfl⟩ := Nat.exists_eq_add_of_le (Nat.le_of_not_lt below)
    rw [under_add, under_add, undone]

theorem exchange_exchange (first second id : Nat) :
    exchange second first (exchange first second id) = id := by
  by_cases inFirst : id < first
  · rw [exchange_first inFirst, exchange_second inFirst]
  · obtain ⟨later, rfl⟩ := Nat.exists_eq_add_of_le (Nat.le_of_not_lt inFirst)
    by_cases inSecond : later < second
    · rw [exchange_second inSecond, exchange_first inSecond]
    · obtain ⟨rest, rfl⟩ := Nat.exists_eq_add_of_le (Nat.le_of_not_lt inSecond)
      rw [exchange_rest, exchange_rest]

variable {α β : Type}

def Embeds (place : Nat → Nat) (move : α → β) (small : Array α) (large : Array β) : Prop :=
  ∀ id entry, small[id]? = some entry → large[place id]? = some (move entry)

theorem append_cases {front back : Array α} {id : Nat} {entry : α}
    (found : (front ++ back)[id]? = some entry) :
    (id < front.size ∧ front[id]? = some entry) ∨
      ∃ later, id = front.size + later ∧ back[later]? = some entry := by
  by_cases below : id < front.size
  · rw [Array.getElem?_append_left below] at found
    exact .inl ⟨below, found⟩
  · have above := Nat.le_of_not_lt below
    rw [Array.getElem?_append_right above] at found
    exact .inr ⟨id - front.size, (Nat.add_sub_of_le above).symm, found⟩

theorem Embeds.behind {front small large : Array α} {inner move shift : α → α}
    (embeds : Embeds place inner small large) (stay : ∀ entry ∈ front, move entry = entry)
    (later : ∀ entry, move (shift entry) = shift (inner entry)) :
    Embeds (under front.size place) move (front ++ small.map shift) (front ++ large.map shift) := by
  intro id entry found
  rcases append_cases found with ⟨below, inFront⟩ | ⟨position, rfl, inBack⟩
  · rw [under_of_lt below, Array.getElem?_append_left below, inFront,
      stay entry (Array.mem_of_getElem? inFront)]
  · rw [Array.getElem?_map] at inBack
    obtain ⟨old, isOld, rfl⟩ := Option.map_eq_some_iff.mp inBack
    rw [under_add, behind_getElem?, embeds position old isOld, Option.map_some, later]

theorem embeds_exchange {first second rest : Array α} {move toFirst toSecond : α → α}
    (ofFirst : ∀ entry ∈ first, move entry = toSecond entry)
    (ofSecond : ∀ entry ∈ second, move (toFirst entry) = entry)
    (ofRest : ∀ entry, move (toFirst (toSecond entry)) = toSecond (toFirst entry)) :
    Embeds (exchange first.size second.size) move
      (first ++ (second ++ rest.map toSecond).map toFirst)
      (second ++ (first ++ rest.map toFirst).map toSecond) := by
  intro id entry found
  rcases append_cases found with ⟨below, inFirst⟩ | ⟨position, rfl, inBack⟩
  · rw [exchange_first below, behind_getElem?, Array.getElem?_append_left below, inFirst,
      Option.map_some, ofFirst entry (Array.mem_of_getElem? inFirst)]
  · rw [Array.getElem?_map] at inBack
    obtain ⟨middle, isMiddle, rfl⟩ := Option.map_eq_some_iff.mp inBack
    rcases append_cases isMiddle with ⟨below, inSecond⟩ | ⟨later, rfl, inRest⟩
    · rw [exchange_second below, Array.getElem?_append_left below, inSecond,
        ofSecond middle (Array.mem_of_getElem? inSecond)]
    · rw [Array.getElem?_map] at inRest
      obtain ⟨old, isOld, rfl⟩ := Option.map_eq_some_iff.mp inRest
      rw [exchange_rest, behind_getElem?, behind_getElem?, isOld, Option.map_some, Option.map_some,
        ofRest]

end Table

/-! ### Programs -/

namespace Program

variable {owner : Option FunctionId}

def renamePath (_ : Renaming) (path : String) : String := path

/-- Everything in `program` is in `whole`, under other ids. -/
structure Embeds (ids : Renaming) (program whole : Program) : Prop where
  files : Table.Embeds (ids .file) (renamePath ids) program.files whole.files
  functions : Table.Embeds (ids .function) (FunctionDef.rename ids) program.functions
    whole.functions
  calls : Table.Embeds (ids .call) (CallSite.rename ids) program.calls whole.calls
  decls : Table.Embeds (ids .decl) (Declaration.rename ids) program.decls whole.decls
  scopes : Table.Embeds (ids .scope) (Scope.rename ids) program.scopes whole.scopes
  modules : Table.Embeds (ids .top) (SourceModule.rename ids) program.modules whole.modules

theorem embeds_refl (program : Program) : program.Embeds .refl program := by
  constructor
  all_goals
    intro id entry found
    simpa [renamePath] using found

theorem Embeds.trans {first second : Renaming} {program middle whole : Program}
    (embeds : program.Embeds first middle) (further : middle.Embeds second whole) :
    program.Embeds (first.trans second) whole where
  files _ _ found := further.files _ _ (embeds.files _ _ found)
  functions _ _ found := by simpa using further.functions _ _ (embeds.functions _ _ found)
  calls _ _ found := by simpa using further.calls _ _ (embeds.calls _ _ found)
  decls _ _ found := by simpa using further.decls _ _ (embeds.decls _ _ found)
  scopes _ _ found := by simpa using further.scopes _ _ (embeds.scopes _ _ found)
  modules _ _ found := by simpa using further.modules _ _ (embeds.modules _ _ found)

theorem files_append (base program : Program) (ids : Renaming) :
    (base.append program).files = base.files ++ program.files.map (renamePath ids) :=
  congrArg (base.files ++ ·) (Array.map_id program.files).symm

theorem embeds_append (base later : Program) : base.Embeds .refl (base.append later) := by
  constructor
  all_goals
    intro id entry found
    have below := Table.below found
    simpa [append, renamePath, Array.getElem?_append_left below] using found

theorem embeds_append_right (base later : Program) :
    later.Embeds base.offset (base.append later) where
  files id path found := by
    rw [files_append base later base.offset]
    exact (Table.behind_getElem? id).trans (congrArg _ found)
  functions id _ found := (Table.behind_getElem? id).trans (congrArg _ found)
  calls id _ found := (Table.behind_getElem? id).trans (congrArg _ found)
  decls id _ found := (Table.behind_getElem? id).trans (congrArg _ found)
  scopes id _ found := (Table.behind_getElem? id).trans (congrArg _ found)
  modules id _ found := (Table.behind_getElem? id).trans (congrArg _ found)

theorem bodyHas_append {base later : Program} {expr : Expr}
    (has : (base.append later).BodyHas owner expr) :
    base.BodyHas owner expr ∨ ∃ laterOwner laterExpr, later.BodyHas laterOwner laterExpr ∧
      owner = laterOwner.map (base.offset .function) ∧
      expr = laterExpr.rename base.offset := by
  obtain ⟨body, stmt, isBody, inBody, inStmt⟩ := has
  have fromLater {laterOwner : Option FunctionId} {laterBody : List Stmt}
      (isLater : (laterOwner, laterBody) ∈ later.bodies)
      (inside : stmt ∈ laterBody.map (Stmt.rename base.offset)) :
      ∃ laterExpr, later.BodyHas laterOwner laterExpr ∧
        expr = laterExpr.rename base.offset := by
    obtain ⟨laterStmt, inLater, rfl⟩ := List.mem_map.mp inside
    rw [Stmt.exprs_rename] at inStmt
    obtain ⟨laterExpr, inLaterStmt, rfl⟩ := List.mem_map.mp inStmt
    exact ⟨laterExpr, ⟨laterBody, laterStmt, isLater, inLater, inLaterStmt⟩, rfl⟩
  rcases mem_bodies.mp isBody with ⟨top, isTop, rfl, rfl⟩ | ⟨id, definition, found, rfl, rfl⟩
  · rcases Array.mem_append.mp isTop with inBase | inLater
    · exact .inl ⟨_, stmt, mem_bodies.mpr (.inl ⟨top, inBase, rfl, rfl⟩), inBody, inStmt⟩
    · obtain ⟨laterTop, isLaterTop, rfl⟩ := Array.mem_map.mp inLater
      obtain ⟨laterExpr, laterHas, rfl⟩ :=
        fromLater (mem_bodies.mpr (.inl ⟨laterTop, isLaterTop, rfl, rfl⟩)) inBody
      exact .inr ⟨none, laterExpr, laterHas, rfl, rfl⟩
  · rcases Table.append_cases found with ⟨_, inBase⟩ | ⟨position, rfl, inLater⟩
    · exact .inl ⟨_, stmt, mem_bodies.mpr (.inr ⟨id, definition, inBase, rfl, rfl⟩), inBody,
        inStmt⟩
    · rw [Array.getElem?_map] at inLater
      obtain ⟨laterDefinition, isLater, rfl⟩ := Option.map_eq_some_iff.mp inLater
      obtain ⟨laterExpr, laterHas, rfl⟩ :=
        fromLater (mem_bodies.mpr (.inr ⟨position, laterDefinition, isLater, rfl, rfl⟩)) inBody
      exact .inr ⟨some position, laterExpr, laterHas, rfl, rfl⟩

namespace Embeds

variable {program whole : Program} {ids : Renaming} (embeds : program.Embeds ids whole)
include embeds

theorem bodies {body : List Stmt} (isBody : (owner, body) ∈ program.bodies) :
    (owner.map (ids .function), body.map (Stmt.rename ids)) ∈ whole.bodies := by
  rcases mem_bodies.mp isBody with ⟨top, isTop, rfl, rfl⟩ | ⟨id, definition, found, rfl, rfl⟩
  · obtain ⟨index, found⟩ := Array.getElem?_of_mem isTop
    exact mem_bodies.mpr
      (.inl ⟨_, Array.mem_of_getElem? (embeds.modules index top found), rfl, rfl⟩)
  · exact mem_bodies.mpr (.inr ⟨_, _, embeds.functions id definition found, rfl, rfl⟩)

theorem bodyHas {expr : Expr} (has : program.BodyHas owner expr) :
    whole.BodyHas (owner.map (ids .function)) (expr.rename ids) := by
  obtain ⟨body, stmt, isBody, inBody, inStmt⟩ := has
  refine ⟨_, stmt.rename ids, embeds.bodies isBody, List.mem_map_of_mem inBody, ?_⟩
  rw [Stmt.exprs_rename]
  exact List.mem_map_of_mem inStmt

theorem exprs {expr : Expr} (member : expr ∈ program.exprs) : expr.rename ids ∈ whole.exprs := by
  obtain ⟨owner, has⟩ := mem_exprs.mp member
  exact mem_exprs.mpr ⟨_, embeds.bodyHas has⟩

end Embeds

/-- The ids that occur in the program are ids of the program. -/
structure SelfContained (program : Program) : Prop where
  inRange : program.InRange
  numbered : ∀ expr ∈ program.exprs, expr.node < program.nextNode

/-- The two renamings do the same to the entries of all tables. -/
structure RenamedAlike (program : Program) (first second : Renaming) : Prop where
  functions : ∀ entry ∈ program.functions, entry.rename first = entry.rename second
  calls : ∀ entry ∈ program.calls, entry.rename first = entry.rename second
  decls : ∀ entry ∈ program.decls, entry.rename first = entry.rename second
  scopes : ∀ entry ∈ program.scopes, entry.rename first = entry.rename second
  modules : ∀ entry ∈ program.modules, entry.rename first = entry.rename second

theorem SelfContained.renamedAlike {program : Program} (selfContained : program.SelfContained)
    {first second : Renaming} (agree : program.Agree first second) :
    program.RenamedAlike first second where
  functions entry member := by
    refine FunctionDef.rename_congr agree (selfContained.inRange.functions entry member) ?_
    intro stmt inside expr isExpr
    obtain ⟨index, found⟩ := Array.getElem?_of_mem member
    exact selfContained.numbered expr (mem_exprs.mpr ⟨some index, entry.body, stmt,
      mem_bodies.mpr (.inr ⟨index, entry, found, rfl, rfl⟩), inside, isExpr⟩)
  calls entry member := CallSite.rename_congr agree (selfContained.inRange.calls entry member)
  decls entry member := Declaration.rename_congr agree (selfContained.inRange.decls entry member)
  scopes entry member := Scope.rename_congr agree (selfContained.inRange.scopes entry member)
  modules entry member := by
    refine SourceModule.rename_congr agree (selfContained.inRange.modules entry member) ?_
    intro stmt inside expr isExpr
    exact selfContained.numbered expr (mem_exprs.mpr ⟨none, entry.body, stmt,
      mem_bodies.mpr (.inl ⟨entry, member, rfl, rfl⟩), inside, isExpr⟩)

end Program

namespace Renaming

def under (bound : IdKind → Nat) (ids : Renaming) : Renaming := fun kind =>
  Table.under (bound kind) (ids kind)

def exchange (first second : IdKind → Nat) : Renaming := fun kind =>
  Table.exchange (first kind) (second kind)

theorem shift_trans_under (bound : IdKind → Nat) (ids : Renaming) :
    (shift bound).trans (under bound ids) = ids.trans (shift bound) :=
  funext fun kind => funext fun id => Table.under_add (bound kind) (ids kind) id

theorem shift_trans_exchange (first second : IdKind → Nat) :
    (shift second).trans ((shift first).trans (exchange first second)) =
      (shift first).trans (shift second) :=
  funext fun kind => funext fun id => Table.exchange_rest (first kind) (second kind) id

/-- Entries of tables are renamed lawfully. -/
structure Acts {α : Type} (rename : Renaming → α → α) : Prop where
  refl : ∀ entry, rename .refl entry = entry
  trans : ∀ first second entry,
    rename second (rename first entry) = rename (first.trans second) entry

namespace Acts

variable {α : Type} {rename : Renaming → α → α} (acts : Acts rename)
include acts

theorem behind {bound : IdKind → Nat} {ids : Renaming} {front small large : Array α}
    (embeds : Table.Embeds place (rename ids) small large)
    (stay : ∀ entry ∈ front, rename (under bound ids) entry = rename .refl entry) :
    Table.Embeds (Table.under front.size place) (rename (under bound ids))
      (front ++ small.map (rename (shift bound))) (front ++ large.map (rename (shift bound))) := by
  refine embeds.behind (fun entry member => ?_) fun entry => ?_
  · exact (stay entry member).trans (acts.refl entry)
  · rw [acts.trans, acts.trans, shift_trans_under]

theorem exchange {first second : IdKind → Nat} {ofFirst ofSecond rest : Array α}
    (firstMoved : ∀ entry ∈ ofFirst, rename (exchange first second) entry =
      rename (shift second) entry)
    (secondMoved : ∀ entry ∈ ofSecond, rename ((shift first).trans (exchange first second)) entry =
      rename .refl entry) :
    Table.Embeds (Table.exchange ofFirst.size ofSecond.size) (rename (exchange first second))
      (ofFirst ++ (ofSecond ++ rest.map (rename (shift second))).map (rename (shift first)))
      (ofSecond ++ (ofFirst ++ rest.map (rename (shift first))).map (rename (shift second))) := by
  refine Table.embeds_exchange firstMoved (fun entry member => ?_) fun entry => ?_
  · rw [acts.trans, secondMoved entry member, acts.refl]
  · rw [acts.trans, acts.trans, acts.trans, shift_trans_exchange]

end Acts

end Renaming

theorem FunctionDef.acts : Renaming.Acts FunctionDef.rename :=
  ⟨rename_refl, fun _ _ => rename_rename⟩

theorem CallSite.acts : Renaming.Acts CallSite.rename :=
  ⟨rename_refl, fun _ _ => rename_rename⟩

theorem Declaration.acts : Renaming.Acts Declaration.rename :=
  ⟨rename_refl, fun _ _ => rename_rename⟩

theorem Scope.acts : Renaming.Acts Scope.rename :=
  ⟨rename_refl, fun _ _ => rename_rename⟩

theorem SourceModule.acts : Renaming.Acts SourceModule.rename :=
  ⟨rename_refl, fun _ _ => rename_rename⟩

namespace Program

theorem acts_renamePath : Renaming.Acts renamePath :=
  ⟨fun _ => rfl, fun _ _ _ => rfl⟩

theorem Embeds.behind {base program whole : Program} {ids : Renaming}
    (embeds : program.Embeds ids whole) (selfContained : base.SelfContained) :
    (base.append program).Embeds (.under base.counts ids) (base.append whole) := by
  have stay : base.RenamedAlike (.under base.counts ids) .refl :=
    selfContained.renamedAlike fun kind id below => Table.under_of_lt below
  constructor
  case files =>
    rw [files_append base program base.offset,
      files_append base whole base.offset]
    exact acts_renamePath.behind embeds.files fun _ _ => rfl
  case functions => exact FunctionDef.acts.behind embeds.functions stay.functions
  case calls => exact CallSite.acts.behind embeds.calls stay.calls
  case decls => exact Declaration.acts.behind embeds.decls stay.decls
  case scopes => exact Scope.acts.behind embeds.scopes stay.scopes
  case modules => exact SourceModule.acts.behind embeds.modules stay.modules

theorem embeds_exchange {first second : Program} (rest : Program)
    (firstContained : first.SelfContained) (secondContained : second.SelfContained) :
    (first.append (second.append rest)).Embeds (.exchange first.counts second.counts)
      (second.append (first.append rest)) := by
  have firstMoved : first.RenamedAlike (.exchange first.counts second.counts)
      (.shift second.counts) :=
    firstContained.renamedAlike fun kind id below => Table.exchange_first below
  have secondMoved : second.RenamedAlike
      ((Renaming.shift first.counts).trans (.exchange first.counts second.counts)) .refl :=
    secondContained.renamedAlike fun kind id below => Table.exchange_second below
  constructor
  case files =>
    rw [files_append first _ (.shift first.counts), files_append second rest (.shift second.counts),
      files_append second _ (.shift second.counts), files_append first rest (.shift first.counts)]
    exact acts_renamePath.exchange (fun _ _ => rfl) fun _ _ => rfl
  case functions => exact FunctionDef.acts.exchange firstMoved.functions secondMoved.functions
  case calls => exact CallSite.acts.exchange firstMoved.calls secondMoved.calls
  case decls => exact Declaration.acts.exchange firstMoved.decls secondMoved.decls
  case scopes => exact Scope.acts.exchange firstMoved.scopes secondMoved.scopes
  case modules => exact SourceModule.acts.exchange firstMoved.modules secondMoved.modules

/-- Each of the programs is inside the other one, and the ids of one are told from those of the
other. -/
structure Alike (ids back : Renaming) (program other : Program) : Prop where
  embeds : program.Embeds ids other
  embedsBack : other.Embeds back program
  undone : ∀ kind id, back kind (ids kind id) = id
  undoneBack : ∀ kind id, ids kind (back kind id) = id

namespace Alike

theorem refl (program : Program) : program.Alike .refl .refl program :=
  ⟨embeds_refl program, embeds_refl program, fun _ _ => rfl, fun _ _ => rfl⟩

theorem symm {program other : Program} {ids back : Renaming}
    (alike : program.Alike ids back other) : other.Alike back ids program :=
  ⟨alike.embedsBack, alike.embeds, alike.undoneBack, alike.undone⟩

theorem trans {program middle other : Program} {first firstBack second secondBack : Renaming}
    (alike : program.Alike first firstBack middle)
    (further : middle.Alike second secondBack other) :
    program.Alike (first.trans second) (secondBack.trans firstBack) other where
  embeds := alike.embeds.trans further.embeds
  embedsBack := further.embedsBack.trans alike.embedsBack
  undone kind id := by
    simp [further.undone kind (first kind id), alike.undone kind id]
  undoneBack kind id := by
    simp [alike.undoneBack kind (secondBack kind id), further.undoneBack kind id]

theorem behind {base program other : Program} {ids back : Renaming}
    (alike : program.Alike ids back other) (selfContained : base.SelfContained) :
    (base.append program).Alike (.under base.counts ids) (.under base.counts back)
      (base.append other) where
  embeds := alike.embeds.behind selfContained
  embedsBack := alike.embedsBack.behind selfContained
  undone kind := Table.under_under (alike.undone kind)
  undoneBack kind := Table.under_under (alike.undoneBack kind)

theorem exchange {first second : Program} (rest : Program)
    (firstContained : first.SelfContained) (secondContained : second.SelfContained) :
    (first.append (second.append rest)).Alike (.exchange first.counts second.counts)
      (.exchange second.counts first.counts) (second.append (first.append rest)) where
  embeds := embeds_exchange rest firstContained secondContained
  embedsBack := embeds_exchange rest secondContained firstContained
  undone kind := Table.exchange_exchange (first.counts kind) (second.counts kind)
  undoneBack kind := Table.exchange_exchange (second.counts kind) (first.counts kind)

end Alike

end Program

end FunctionFlow
