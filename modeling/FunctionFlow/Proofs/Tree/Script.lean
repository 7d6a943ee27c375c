import FunctionFlow.Pattern.Syntax
import FunctionFlow.Proofs.Pattern.Matching
import FunctionFlow.Proofs.Text.Bytes
import FunctionFlow.Tree.Component

/-!
Contract: the script of a component keeps its positions.

The block that is cut out of a text is the first match of the pattern of a block: no match starts or
ends before it.
-/

namespace FunctionFlow

open Text

namespace Component

variable {text : List Char} {component : Component}

/-! ### Tags -/

/-- The first opening tag starts at `tag` and ends at `close`, and the first closing tag behind it
starts at `stop`. -/
structure Tags (bytes : List UInt8) (tag close stop : Nat) : Prop where
  opens : FirstFrom (utf8 "<script") bytes 0 tag
  ends : FirstFrom (utf8 ">") bytes (tag + 7) close
  closes : FirstFrom (utf8 "</script>") bytes (close + 1) stop

def front (component : Component) : List Char :=
  component.before ++ tagStart ++ component.attributes ++ tagEnd

def back (component : Component) : List Char :=
  closingTag ++ component.after

theorem utf8_tagStart : utf8 "<script" = encode tagStart := utf8_eq_encode _

theorem utf8_tagEnd : utf8 ">" = encode tagEnd := utf8_eq_encode _

theorem utf8_closingTag : utf8 "</script>" = encode closingTag := utf8_eq_encode _

theorem length_encode_tagStart (before : List Char) :
    (encode (before ++ tagStart)).length = (encode before).length + 7 := by
  rw [encode_append, List.length_append]
  rfl

theorem length_encode_tagEnd (before : List Char) :
    (encode (before ++ tagEnd)).length = (encode before).length + 1 := by
  rw [encode_append, List.length_append]
  rfl

theorem split_eq_some_iff : split text = some component ↔ ∃ behindStart behindTag,
    breakOn tagStart text = some (component.before, behindStart) ∧
      breakOn tagEnd behindStart = some (component.attributes, behindTag) ∧
      breakOn closingTag behindTag = some (component.body, component.after) := by
  constructor
  · intro found
    obtain ⟨⟨before, behindStart⟩, opens, found⟩ := Option.bind_eq_some_iff.mp found
    obtain ⟨⟨attributes, behindTag⟩, ends, found⟩ := Option.bind_eq_some_iff.mp found
    obtain ⟨⟨body, after⟩, closes, isComponent⟩ := Option.bind_eq_some_iff.mp found
    cases isComponent
    exact ⟨behindStart, behindTag, opens, ends, closes⟩
  · rintro ⟨behindStart, behindTag, opens, ends, closes⟩
    refine Option.bind_eq_some_iff.mpr ⟨_, opens, Option.bind_eq_some_iff.mpr ⟨_, ends, ?_⟩⟩
    exact Option.bind_eq_some_iff.mpr ⟨_, closes, rfl⟩

theorem split_eq_some (found : split text = some component) :
    text = component.front ++ component.body ++ component.back ∧
      ∃ tag close, (encode component.front).length = close + 1 ∧
        Tags (encode text) tag close (encode (component.front ++ component.body)).length := by
  obtain ⟨behindStart, behindTag, opens, ends, closes⟩ := split_eq_some_iff.mp found
  obtain ⟨before, attributes, body, after⟩ := component
  dsimp only at opens ends closes
  have isText : text = before ++ (tagStart ++ behindStart) := (breakOn_eq_some opens).1
  have isBehindStart : behindStart = attributes ++ (tagEnd ++ behindTag) :=
    (breakOn_eq_some ends).1
  have isBehindTag : behindTag = body ++ (closingTag ++ after) := (breakOn_eq_some closes).1
  have first := firstFrom_of_breakOn (by decide) [] opens
  have second := firstFrom_of_breakOn (by decide) (before ++ tagStart) ends
  have third := firstFrom_of_breakOn (by decide) (before ++ tagStart ++ attributes ++ tagEnd) closes
  have throughStart : before ++ tagStart ++ behindStart = text := by
    rw [isText, List.append_assoc]
  have throughTag : before ++ tagStart ++ attributes ++ tagEnd ++ behindTag = text := by
    rw [← throughStart, isBehindStart]
    simp only [List.append_assoc]
  rw [throughStart, length_encode_tagStart] at second
  rw [throughTag, length_encode_tagEnd] at third
  refine ⟨?_, (encode before).length, _, length_encode_tagEnd _, ?_, ?_, ?_⟩
  · rw [← throughTag, isBehindTag]
    simp only [front, back, List.append_assoc]
  · rw [utf8_tagStart]
    exact first
  · rw [utf8_tagEnd]
    exact second
  · rw [utf8_closingTag]
    exact third

theorem split_eq_none (missing : split text = none) {tag close later : Nat}
    (opens : FirstFrom (utf8 "<script") (encode text) 0 tag)
    (ends : FirstFrom (utf8 ">") (encode text) (tag + 7) close) (behind : close < later) :
    ¬ StandsAt (utf8 "</script>") (encode text) later := by
  rw [utf8_tagStart] at opens
  rw [utf8_tagEnd] at ends
  rw [utf8_closingTag]
  cases first : breakOn tagStart text with
  | none => exact absurd opens.stands (not_standsAt_of_breakOn (by decide) [] first opens.start_le)
  | some parts =>
    obtain ⟨before, behindStart⟩ := parts
    obtain rfl : (encode before).length = tag :=
      (firstFrom_of_breakOn (by decide) [] first).unique opens
    have throughStart : before ++ tagStart ++ behindStart = text := by
      rw [(breakOn_eq_some first).1, List.append_assoc]
    rw [← throughStart, ← length_encode_tagStart] at ends
    cases second : breakOn tagEnd behindStart with
    | none =>
      exact absurd ends.stands
        (not_standsAt_of_breakOn (by decide) (before ++ tagStart) second ends.start_le)
    | some parts =>
      obtain ⟨attributes, behindTag⟩ := parts
      obtain rfl := (firstFrom_of_breakOn (by decide) (before ++ tagStart) second).unique ends
      have throughTag : before ++ tagStart ++ attributes ++ tagEnd ++ behindTag = text := by
        rw [← throughStart, (breakOn_eq_some second).1]
        simp only [List.append_assoc]
      have third : breakOn closingTag behindTag = none := by
        cases third : breakOn closingTag behindTag with
        | none => rfl
        | some parts =>
          have found : split text = some ⟨before, attributes, parts.1, parts.2⟩ :=
            split_eq_some_iff.mpr ⟨behindStart, behindTag, first, second, third⟩
          cases missing.symm.trans found
      rw [← throughTag]
      refine not_standsAt_of_breakOn (by decide) _ third ?_
      rw [length_encode_tagEnd]
      exact behind

/-! ### The pattern of a block -/

theorem length_tagStart : tagStart.length = 7 := rfl

theorem length_tagEnd : tagEnd.length = 1 := rfl

theorem length_closingTag : closingTag.length = 9 := rfl

def block : Pattern :=
  .sequence (Pattern.literal tagStart ++
    .captured (.repeated 0 none (.one (CharSet.single '>').complement)) ::
      (Pattern.literal tagEnd ++ .captured (.repeated 0 none (.one .anything)) ::
        Pattern.literal closingTag))

theorem parse_block : Pattern.parse? "(?s)<script([^>]*)>(.*?)</script>" = some block := by
  decide +kernel

def stop (component : Component) : Nat :=
  (component.before.length + 7 + component.attributes.length + 1) + component.body.length + 9

section

variable {start stop : Nat}

theorem contains_complement_tagEnd {char : Char} :
    (CharSet.single '>').complement.contains char = true ↔ char ≠ '>' := by
  have isComplement : (CharSet.single '>').complement = ⟨[(0, 61), (63, CharSet.lastCode)]⟩ := rfl
  have known := CharSet.contains_anything char
  rw [isComplement, Ne, ← Char.toNat_inj]
  simp only [CharSet.contains, CharSet.containsCode, CharSet.anything, CharSet.holdsCode] at known ⊢
  grind

theorem matches_block : block.Matches text.toArray start stop ↔
    tagStart <+: text.drop start ∧ ∃ close, (start + 7 ≤ close ∧
      ∀ place, start + 7 ≤ place → place < close → ∃ char ∈ text[place]?, char ≠ '>') ∧
      tagEnd <+: text.drop close ∧ ∃ tail, (close + 1 ≤ tail ∧
        ∀ place, close + 1 ≤ place → place < tail → ∃ char ∈ text[place]?, True) ∧
      closingTag <+: text.drop tail ∧ tail + 9 = stop := by
  have holds {set : CharSet} {char : Option Char} : set.containsSome char = true ↔
      ∃ found ∈ char, set.contains found = true := by
    cases char <;> simp [CharSet.containsSome]
  rw [block, Pattern.matches_literal, Pattern.matches_sequence]
  simp only [Pattern.matches_many, Pattern.matches_literal, Pattern.matches_sequence,
    Pattern.matches_literal_end, holds, contains_complement_tagEnd, CharSet.contains_anything,
    length_tagStart, length_tagEnd, length_closingTag]

/-- Where the pattern of a block matches, a block is found that starts and ends no later. -/
theorem exists_split_of_matches (isMatch : block.Matches text.toArray start stop) :
    ∃ component, split text = some component ∧ component.before.length ≤ start ∧
      component.stop ≤ stop := by
  obtain ⟨opens, close, ⟨closeLater, _⟩, ends, tail, ⟨tailLater, _⟩, closes, rfl⟩ :=
    matches_block.mp isMatch
  obtain ⟨before, behindStart, first⟩ := exists_breakOn (Nat.zero_le start) opens
  obtain ⟨rfl, _, isFirst⟩ := breakOn_drop_eq_some first
  have startLater := isFirst start (Nat.zero_le start) opens
  rw [length_tagStart] at first
  obtain ⟨attributes, behindTag, second⟩ :=
    exists_breakOn (show 0 + before.length + 7 ≤ close by omega) ends
  obtain ⟨rfl, _, isFirst⟩ := breakOn_drop_eq_some second
  have := isFirst close (by omega) ends
  rw [length_tagEnd] at second
  obtain ⟨body, after, third⟩ :=
    exists_breakOn (show 0 + before.length + 7 + attributes.length + 1 ≤ tail by omega) closes
  have := (breakOn_drop_eq_some third).2.2 tail (by omega) closes
  refine ⟨⟨before, attributes, body, after⟩,
    split_eq_some_iff.mpr ⟨_, _, first, second, third⟩, ?_, ?_⟩
  · show before.length ≤ start
    omega
  · show before.length + 7 + attributes.length + 1 + body.length + 9 ≤ tail + 9
    omega

theorem split_matches (found : split text = some component) :
    block.Matches text.toArray component.before.length component.stop := by
  obtain ⟨behindStart, behindTag, first, second, third⟩ := split_eq_some_iff.mp found
  rw [← List.drop_zero (l := text)] at first
  obtain ⟨rfl, opens, _⟩ := breakOn_drop_eq_some first
  obtain ⟨rfl, ends, isFirst⟩ := breakOn_drop_eq_some second
  obtain ⟨_, closes, _⟩ := breakOn_drop_eq_some third
  rw [Nat.zero_add] at opens ends isFirst closes
  rw [length_tagStart] at ends isFirst closes
  rw [length_tagEnd] at closes
  have endsInside := (List.getElem?_eq_some_iff.mp (Pattern.cons_prefix_drop.mp ends).1).1
  have closesInside := (List.getElem?_eq_some_iff.mp (Pattern.cons_prefix_drop.mp closes).1).1
  refine matches_block.mpr ⟨opens, _, ⟨Nat.le_add_right _ _, fun place behind before => ?_⟩, ends,
    _, ⟨Nat.le_add_right _ _, fun place _ before => ?_⟩, closes, rfl⟩
  · refine ⟨_, List.getElem?_eq_getElem (Nat.lt_trans before endsInside), fun isEnd => ?_⟩
    have stands : tagEnd <+: text.drop place := by
      rw [show tagEnd = ['>'] from rfl, Pattern.cons_prefix_drop, ← isEnd]
      exact ⟨List.getElem?_eq_getElem _, List.nil_prefix⟩
    exact Nat.not_le_of_lt before (isFirst place behind stands)
  · exact ⟨_, List.getElem?_eq_getElem (Nat.lt_trans before closesInside), trivial⟩

end

theorem scriptOf?_isSome (text : String) : (scriptOf? text).isSome = block.isFoundIn text := by
  rw [Bool.eq_iff_iff, Pattern.isFoundIn_iff, scriptOf?, Option.isSome_map,
    Option.isSome_iff_exists]
  constructor
  · rintro ⟨component, found⟩
    refine ⟨_, _, ?_, split_matches found⟩
    obtain ⟨_, _, opens, _⟩ := split_eq_some_iff.mp found
    rw [(breakOn_eq_some opens).1, List.length_append]
    exact Nat.le_add_right _ _
  · rintro ⟨start, stop, _, isMatch⟩
    obtain ⟨component, found, _⟩ := exists_split_of_matches isMatch
    exact ⟨component, found⟩

/-! ### Blanking -/

def blankByte (byte : UInt8) : UInt8 :=
  if byte = lineFeed then lineFeed else space

theorem encode_blankChar (char : Char) :
    encode (blankChar char) = (String.utf8EncodeChar char).map blankByte := by
  unfold blankChar
  split
  · rename_i isLineFeed
    subst isLineFeed
    decide
  · rename_i noLineFeed
    have blanked : ∀ byte ∈ String.utf8EncodeChar char, blankByte byte = space := by
      intro byte member
      refine if_neg ?_
      rintro rfl
      exact noLineFeed (eq_of_lineFeed_mem member)
    have spaces (count : Nat) : encode (List.replicate count ' ') = List.replicate count space := by
      induction count with
      | zero => rfl
      | succ count inductionHypothesis =>
        rw [List.replicate_succ, List.replicate_succ, encode_cons, inductionHypothesis]
        rfl
    rw [spaces, ← String.length_utf8EncodeChar, ← List.map_const]
    exact (List.map_congr_left blanked).symm

theorem encode_blank (chars : List Char) : encode (blank chars) = (encode chars).map blankByte := by
  induction chars with
  | nil => rfl
  | cons char rest inductionHypothesis =>
    have isBlank : blank (char :: rest) = blankChar char ++ blank rest := List.flatMap_cons
    rw [isBlank, encode_append, encode_blankChar, inductionHypothesis, encode_cons, List.map_append]

/-- `blanked` is `bytes` with everything outside the range from `start` to `stop` blanked out. -/
structure Blanked (bytes blanked : List UInt8) (start stop : Nat) : Prop where
  length_eq : blanked.length = bytes.length
  inside : ∀ offset : Nat, start ≤ offset → offset < stop → blanked[offset]? = bytes[offset]?
  lines : ∀ offset : Nat, blanked[offset]? = some lineFeed ↔ bytes[offset]? = some lineFeed
  spaces : ∀ (offset : Nat) (byte : UInt8), bytes[offset]? = some byte → byte ≠ lineFeed →
    offset < start ∨ stop ≤ offset → blanked[offset]? = some space

theorem blankByte_eq_lineFeed {byte : UInt8} : blankByte byte = lineFeed ↔ byte = lineFeed := by
  unfold blankByte
  by_cases isLineFeed : byte = lineFeed
  · rw [if_pos isLineFeed]
    exact ⟨fun _ => isLineFeed, fun _ => rfl⟩
  · rw [if_neg isLineFeed]
    exact ⟨fun isSpace => absurd isSpace (by decide), fun same => absurd same isLineFeed⟩

theorem blanked_append (first body last : List UInt8) :
    Blanked (first ++ body ++ last) (first.map blankByte ++ body ++ last.map blankByte)
      first.length (first ++ body).length := by
  have atOffset (offset : Nat) :
      (first.map blankByte ++ body ++ last.map blankByte)[offset]? =
        if first.length ≤ offset ∧ offset < (first ++ body).length then
          (first ++ body ++ last)[offset]?
        else (first ++ body ++ last)[offset]?.map blankByte := by
    simp only [List.getElem?_append, List.length_append, List.length_map, List.getElem?_map]
    split
    · split
      · rw [if_neg (by omega)]
      · rw [if_pos (by omega)]
    · rw [if_neg (by omega)]
  refine ⟨by simp, fun offset fromStart beforeStop => ?_, fun offset => ?_,
    fun offset byte isByte noLineFeed outside => ?_⟩
  · rw [atOffset, if_pos ⟨fromStart, beforeStop⟩]
  · rw [atOffset]
    split
    · exact Iff.rfl
    · simp only [Option.map_eq_some_iff, blankByte_eq_lineFeed, exists_eq_right]
  · rw [atOffset, if_neg (by omega), isByte]
    exact congrArg some (if_neg noLineFeed)

theorem encode_script (component : Component) :
    encode component.script = (encode component.front).map blankByte ++ encode component.body ++
      (encode component.back).map blankByte := by
  unfold script
  rw [encode_append, encode_append, encode_blank, encode_blank]
  rfl

end Component

/-- A script is found in a text just if an opening tag is followed by a closing one. Then it has the
bytes of the block where the text has them, and spaces and line feeds elsewhere, so that every offset
keeps its position. -/
theorem script_keeps_positions (text : String) :
    ((Component.scriptOf? text).isSome ↔
      ∃ tag close later, FirstFrom (utf8 "<script") (utf8 text) 0 tag ∧
        FirstFrom (utf8 ">") (utf8 text) (tag + 7) close ∧
        close < later ∧ StandsAt (utf8 "</script>") (utf8 text) later) ∧
    ∀ script dialect, Component.scriptOf? text = some (script, dialect) →
      ∃ tag close stop, Component.Tags (utf8 text) tag close stop ∧
        Component.Blanked (utf8 text) (utf8 script) (close + 1) stop ∧
        ∀ offset, (Source.ofString script).positionAt offset =
          (Source.ofString text).positionAt offset := by
  rw [utf8_eq_encode text]
  refine ⟨⟨fun found => ?_, ?_⟩, fun script dialect found => ?_⟩
  · rw [Component.scriptOf?, Option.isSome_map] at found
    obtain ⟨component, isComponent⟩ := Option.isSome_iff_exists.mp found
    obtain ⟨_, tag, close, _, tags⟩ := Component.split_eq_some isComponent
    exact ⟨tag, close, _, tags.opens, tags.ends, tags.closes.start_le, tags.closes.stands⟩
  · rintro ⟨tag, close, later, opens, ends, behind, stands⟩
    rw [Component.scriptOf?, Option.isSome_map, Option.isSome_iff_ne_none]
    exact fun missing => Component.split_eq_none missing opens ends behind stands
  · obtain ⟨component, isComponent, same⟩ := Option.map_eq_some_iff.mp found
    cases same
    obtain ⟨isText, tag, close, isFront, tags⟩ := Component.split_eq_some isComponent
    have blanked : Component.Blanked (encode text.toList) (encode component.script) (close + 1)
        (encode (component.front ++ component.body)).length := by
      rw [Component.encode_script, isText, ← isFront]
      simp only [encode_append]
      exact Component.blanked_append _ _ _
    refine ⟨tag, close, _, tags, ?_, fun offset => ?_⟩
    · rw [utf8_ofList]
      exact blanked
    rw [Source.positionAt, Source.positionAt, Source.advance_eq_walk, Source.advance_eq_walk,
      Source.ofString, Source.ofString, String.toList_ofList]
    exact Source.walk_congr blanked.length_eq blanked.lines offset 1 0

/-- Characters of two bytes stand before the block and in it, and a line ends inside the tag. -/
theorem script_keeps_positions_umlauts :
    ∃ script, Component.scriptOf? "<p>é</p>\n<script\nlang=\"ts\">ü()\n</script>" =
        some (script, .typeScript) ∧
      ∃ tag close stop,
        Component.Tags (utf8 "<p>é</p>\n<script\nlang=\"ts\">ü()\n</script>") tag close stop ∧
        Component.Blanked (utf8 "<p>é</p>\n<script\nlang=\"ts\">ü()\n</script>") (utf8 script)
          (close + 1) stop ∧
        ∀ offset, (Source.ofString script).positionAt offset =
          (Source.ofString "<p>é</p>\n<script\nlang=\"ts\">ü()\n</script>").positionAt offset := by
  have found : Component.scriptOf? "<p>é</p>\n<script\nlang=\"ts\">ü()\n</script>" =
      some ("         \n       \n          ü()\n         ", .typeScript) := by decide +kernel
  exact ⟨_, found, (script_keeps_positions _).2 _ _ found⟩

end FunctionFlow
