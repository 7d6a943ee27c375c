import FunctionFlow.Text.Search
import FunctionFlow.Text.Source
import Mathlib.Data.List.Infix

/-!
Contract: texts as the bytes that they take.

A character starts at its first byte only. So what stands among the bytes of a text stands in the
text, and an offset inside a character is the start of no occurrence.
-/

namespace FunctionFlow

namespace Text

/-! ### Bytes -/

def utf8 (text : String) : List UInt8 := text.toUTF8.toList

theorem toList_eq_data (bytes : ByteArray) : bytes.toList = bytes.data.toList := by
  have fromOn (position : Nat) (read : List UInt8) :
      ByteArray.toList.loop bytes position read =
        read.reverse ++ bytes.data.toList.drop position := by
    fun_induction ByteArray.toList.loop bytes position read with
    | case1 position read below inductionHypothesis =>
      have inside : position < bytes.data.toList.length := below
      rw [inductionHypothesis, List.drop_eq_getElem_cons inside, List.reverse_cons,
        List.append_assoc]
      have isByte : bytes.get! position = bytes.data.toList[position] :=
        getElem!_pos bytes.data position below
      rw [isByte, List.singleton_append]
    | case2 position read above =>
      have outside : bytes.data.toList.length ≤ position := Nat.le_of_not_lt above
      rw [List.drop_eq_nil_of_le outside, List.append_nil]
  exact fromOn 0 []

theorem utf8_append (first second : String) :
    utf8 (first ++ second) = utf8 first ++ utf8 second := by
  simp only [utf8, String.toUTF8, toList_eq_data, String.toByteArray_append,
    ByteArray.toList_data_append]

@[simp] theorem utf8_empty : utf8 "" = [] := by
  simp [utf8, toList_eq_data]

def encode (chars : List Char) : List UInt8 := chars.flatMap String.utf8EncodeChar

theorem utf8_eq_encode (text : String) : utf8 text = encode text.toList := by
  rw [utf8, String.toUTF8, toList_eq_data, ← String.utf8Encode_toList, List.utf8Encode, encode]
  simp

theorem utf8_ofList (chars : List Char) : utf8 (String.ofList chars) = encode chars := by
  rw [utf8_eq_encode, String.toList_ofList]

@[simp] theorem encode_nil : encode [] = [] := rfl

theorem encode_cons (char : Char) (rest : List Char) :
    encode (char :: rest) = String.utf8EncodeChar char ++ encode rest := List.flatMap_cons

@[simp] theorem encode_append (first second : List Char) :
    encode (first ++ second) = encode first ++ encode second := List.flatMap_append

theorem encode_ne_nil {chars : List Char} (nonempty : chars ≠ []) : encode chars ≠ [] := by
  cases chars with
  | nil => exact absurd rfl nonempty
  | cons char rest =>
    rw [encode_cons]
    exact List.append_ne_nil_of_left_ne_nil String.utf8EncodeChar_ne_nil _

def lineFeed : UInt8 := 10

def space : UInt8 := 32

theorem eq_of_lineFeed_mem {char : Char} (member : lineFeed ∈ String.utf8EncodeChar char) :
    char = '\n' := by
  obtain ⟨index, below, atIndex⟩ := List.getElem_of_mem member
  have isFirst : (String.utf8EncodeChar char)[index].IsUTF8FirstByte := by
    rw [atIndex]
    decide
  obtain rfl := UInt8.isUTF8FirstByte_getElem_utf8EncodeChar.mp isFirst
  have isValue : char.val.toNat = 10 := by
    have atFirst := List.getElem?_eq_getElem below
    rw [atIndex, String.utf8EncodeChar.eq_1] at atFirst
    generalize char.val.toNat = value at atFirst ⊢
    -- the first byte of a longer form is at least 192
    split at atFirst
    · have isByte := congrArg UInt8.toNat (Option.some.inj atFirst)
      simp [lineFeed] at isByte
      omega
    · have isByte : ∃ byte, 192 ≤ byte ∧ byte < 256 ∧ UInt8.ofNat byte = lineFeed := by
        split at atFirst
        · exact ⟨_, by omega, by omega, Option.some.inj atFirst⟩
        · split at atFirst
          · exact ⟨_, by omega, by omega, Option.some.inj atFirst⟩
          · exact ⟨_, by omega, by omega, Option.some.inj atFirst⟩
      obtain ⟨byte, large, small, same⟩ := isByte
      have asNat := congrArg UInt8.toNat same
      simp [lineFeed] at asNat
      omega
  exact Char.ext (UInt32.toNat.inj isValue)

/-! ### Occurrences -/

/-- `needle` stands in `bytes` at `offset`. -/
def StandsAt (needle bytes : List UInt8) (offset : Nat) : Prop :=
  needle <+: bytes.drop offset

/-- From `start` on, `needle` stands in `bytes` at `offset` first. -/
structure FirstFrom (needle bytes : List UInt8) (start offset : Nat) : Prop where
  start_le : start ≤ offset
  stands : StandsAt needle bytes offset
  first : ∀ earlier, start ≤ earlier → StandsAt needle bytes earlier → offset ≤ earlier

variable {needle text before after : List Char} {offset : Nat}

theorem FirstFrom.unique {needle bytes : List UInt8} {start offset other : Nat}
    (isFirst : FirstFrom needle bytes start offset) (isOther : FirstFrom needle bytes start other) :
    offset = other :=
  Nat.le_antisymm (isFirst.first other isOther.start_le isOther.stands)
    (isOther.first offset isFirst.start_le isFirst.stands)

theorem standsAt_append (needle front bytes : List UInt8) (offset : Nat) :
    StandsAt needle (front ++ bytes) (front.length + offset) ↔ StandsAt needle bytes offset := by
  rw [StandsAt, StandsAt, List.drop_append, List.drop_eq_nil_of_le (Nat.le_add_right _ _),
    List.nil_append, Nat.add_sub_cancel_left]

theorem prefix_of_encode_prefix (stands : encode needle <+: encode text) : needle <+: text := by
  obtain ⟨later, isText⟩ := stands
  refine List.isPrefix_of_utf8Encode_append_eq_utf8Encode later.toByteArray ?_
  rw [List.utf8Encode, List.utf8Encode, ← List.toByteArray_append]
  exact congrArg List.toByteArray isText

theorem eq_zero_of_standsAt {char : Char} {bytes : List UInt8} (nonempty : needle ≠ [])
    (stands : StandsAt (encode needle) (String.utf8EncodeChar char ++ bytes) offset)
    (inside : offset < (String.utf8EncodeChar char).length) : offset = 0 := by
  cases needle with
  | nil => exact absurd rfl nonempty
  | cons first rest =>
    obtain ⟨later, isDrop⟩ := stands
    have below : 0 < (String.utf8EncodeChar first).length :=
      List.length_pos_iff.mpr String.utf8EncodeChar_ne_nil
    have atOffset : (String.utf8EncodeChar char)[offset]? = (String.utf8EncodeChar first)[0]? := by
      have heads := congrArg (·[0]?) isDrop
      simp only [encode_cons, List.append_assoc, List.getElem?_drop, Nat.add_zero] at heads
      rw [List.getElem?_append_left below, List.getElem?_append_left inside] at heads
      exact heads.symm
    rw [List.getElem?_eq_getElem inside, List.getElem?_eq_getElem below] at atOffset
    have isFirst : (String.utf8EncodeChar char)[offset].IsUTF8FirstByte := by
      rw [Option.some.inj atOffset]
      exact UInt8.isUTF8FirstByte_getElem_zero_utf8EncodeChar
    exact UInt8.isUTF8FirstByte_getElem_utf8EncodeChar.mp isFirst

theorem standsAt_encode (nonempty : needle ≠ []) :
    StandsAt (encode needle) (encode text) offset ↔
      ∃ before after, text = before ++ (needle ++ after) ∧ (encode before).length = offset := by
  constructor
  · intro stands
    induction text generalizing offset with
    | nil =>
      rw [StandsAt, encode_nil, List.drop_nil, List.prefix_nil] at stands
      exact absurd stands (encode_ne_nil nonempty)
    | cons char rest inductionHypothesis =>
      rcases Nat.lt_or_ge offset (String.utf8EncodeChar char).length with inside | beyond
      · obtain rfl := eq_zero_of_standsAt nonempty (encode_cons char rest ▸ stands) inside
        obtain ⟨after, isText⟩ := prefix_of_encode_prefix stands
        exact ⟨[], after, isText.symm, rfl⟩
      · obtain ⟨skipped, rfl⟩ := Nat.exists_eq_add_of_le beyond
        rw [encode_cons, standsAt_append] at stands
        obtain ⟨before, after, rfl, isLength⟩ := inductionHypothesis stands
        refine ⟨char :: before, after, rfl, ?_⟩
        rw [encode_cons, List.length_append, isLength]
  · rintro ⟨before, after, rfl, rfl⟩
    rw [encode_append, ← Nat.add_zero (encode before).length, standsAt_append]
    exact ⟨encode after, (encode_append _ _).symm⟩

/-! ### The first occurrence -/

theorem dropLeading?_eq_some : dropLeading? needle text = some after ↔ text = needle ++ after := by
  fun_induction dropLeading? needle text with
  | case1 text => simp
  | case2 => simp
  | case3 wanted needle text inductionHypothesis => simp [inductionHypothesis]
  | case4 wanted needle found text different => simp [Ne.symm different]

theorem breakOn_eq_none (broken : breakOn needle text = none) :
    ∀ before after, text ≠ before ++ (needle ++ after) := by
  fun_induction breakOn needle text with
  | case1 =>
    intro before after isText
    obtain ⟨rfl, isNeedle⟩ := List.append_eq_nil_iff.mp isText.symm
    rw [dropLeading?_eq_some.mpr isNeedle.symm] at broken
    cases broken
  | case2 => cases broken
  | case3 char text missing inductionHypothesis =>
    intro before after isText
    cases before with
    | nil =>
      rw [dropLeading?_eq_some.mpr (isText.trans (List.nil_append _))] at missing
      cases missing
    | cons first before =>
      obtain ⟨rfl, isRest⟩ := List.cons.inj isText
      exact inductionHypothesis (Option.map_eq_none_iff.mp broken) before after isRest

theorem breakOn_eq_some (broken : breakOn needle text = some (before, after)) :
    text = before ++ (needle ++ after) ∧
      ∀ other later, text = other ++ (needle ++ later) → before.length ≤ other.length := by
  fun_induction breakOn needle text generalizing before with
  | case1 =>
    obtain ⟨rest, found, same⟩ := Option.map_eq_some_iff.mp broken
    cases same
    exact ⟨(dropLeading?_eq_some.mp found).trans (List.nil_append _).symm,
      fun _ _ _ => Nat.zero_le _⟩
  | case2 char text rest found =>
    cases broken
    exact ⟨(dropLeading?_eq_some.mp found).trans (List.nil_append _).symm,
      fun _ _ _ => Nat.zero_le _⟩
  | case3 char text missing inductionHypothesis =>
    obtain ⟨⟨inner, rest⟩, brokenRest, same⟩ := Option.map_eq_some_iff.mp broken
    cases same
    obtain ⟨isText, isFirst⟩ := inductionHypothesis brokenRest
    refine ⟨congrArg (char :: ·) isText, fun other later isOther => ?_⟩
    cases other with
    | nil =>
      rw [dropLeading?_eq_some.mpr (isOther.trans (List.nil_append _))] at missing
      cases missing
    | cons first other =>
      exact Nat.succ_le_succ (isFirst other later (List.cons.inj isOther).2)

theorem breakOn_drop_eq_some (broken : breakOn needle (text.drop start) = some (before, after)) :
    after = text.drop (start + before.length + needle.length) ∧
      needle <+: text.drop (start + before.length) ∧
      ∀ place, start ≤ place → needle <+: text.drop place → start + before.length ≤ place := by
  obtain ⟨isText, isFirst⟩ := breakOn_eq_some broken
  have behind (count : Nat) :
      text.drop (start + count) = (before ++ (needle ++ after)).drop count := by
    rw [← List.drop_drop, isText]
  refine ⟨?_, ?_, fun place later stands => ?_⟩
  · rw [Nat.add_assoc, behind, ← List.append_assoc, ← List.length_append, List.drop_left]
  · rw [behind, List.drop_left]
    exact List.prefix_append needle after
  · obtain ⟨rest, isRest⟩ := stands
    obtain ⟨skipped, rfl⟩ := Nat.exists_eq_add_of_le later
    have := isFirst ((text.drop start).take skipped) rest ?_
    · rw [List.length_take] at this
      omega
    · rw [isRest, ← List.drop_drop, List.take_append_drop]

theorem exists_breakOn (later : start ≤ place) (stands : needle <+: text.drop place) :
    ∃ before after, breakOn needle (text.drop start) = some (before, after) := by
  cases broken : breakOn needle (text.drop start) with
  | some parts => exact ⟨parts.1, parts.2, rfl⟩
  | none =>
    obtain ⟨skipped, rfl⟩ := Nat.exists_eq_add_of_le later
    obtain ⟨rest, isRest⟩ := stands
    refine absurd ?_ (breakOn_eq_none broken ((text.drop start).take skipped) rest)
    rw [isRest, ← List.drop_drop, List.take_append_drop]

theorem length_encode_le {front other rest later : List Char} (same : front ++ rest = other ++ later)
    (shorter : front.length ≤ other.length) : (encode front).length ≤ (encode other).length := by
  obtain ⟨between, rfl⟩ := List.prefix_of_prefix_length_le
    (List.prefix_append front rest) (same ▸ List.prefix_append other later) shorter
  rw [encode_append, List.length_append]
  exact Nat.le_add_right _ _

theorem firstFrom_of_breakOn (nonempty : needle ≠ []) (front : List Char)
    (broken : breakOn needle text = some (before, after)) :
    FirstFrom (encode needle) (encode (front ++ text)) (encode front).length
      (encode (front ++ before)).length := by
  obtain ⟨isText, isFirst⟩ := breakOn_eq_some broken
  rw [encode_append, encode_append, List.length_append]
  refine ⟨Nat.le_add_right _ _, ?_, fun earlier fromStart stands => ?_⟩
  · rw [standsAt_append]
    exact (standsAt_encode nonempty).mpr ⟨before, after, isText, rfl⟩
  · obtain ⟨offset, rfl⟩ := Nat.exists_eq_add_of_le fromStart
    rw [standsAt_append, standsAt_encode nonempty] at stands
    obtain ⟨other, later, isOther, rfl⟩ := stands
    exact Nat.add_le_add_left
      (length_encode_le (isText.symm.trans isOther) (isFirst other later isOther)) _

theorem not_standsAt_of_breakOn (nonempty : needle ≠ []) (front : List Char)
    (broken : breakOn needle text = none) (fromStart : (encode front).length ≤ offset) :
    ¬ StandsAt (encode needle) (encode (front ++ text)) offset := by
  intro stands
  obtain ⟨offset, rfl⟩ := Nat.exists_eq_add_of_le fromStart
  rw [encode_append, standsAt_append, standsAt_encode nonempty] at stands
  obtain ⟨other, later, isOther, _⟩ := stands
  exact breakOn_eq_none broken other later isOther

end Text

/-! ### Positions -/

namespace Source

open Text

def walk : List UInt8 → (offset row column : Nat) → Position
  | _, 0, row, column => ⟨row, column⟩
  | [], offset + 1, row, column => ⟨row, column + (offset + 1)⟩
  | byte :: rest, offset + 1, row, column =>
    if byte = lineFeed then walk rest offset (row + 1) 0 else walk rest offset row (column + 1)

theorem walk_append {bytes : List UInt8} (noLineFeed : lineFeed ∉ bytes) (rest : List UInt8)
    (offset row column : Nat) :
    walk (bytes ++ rest) offset row column =
      if bytes.length ≤ offset then walk rest (offset - bytes.length) row (column + bytes.length)
      else ⟨row, column + offset⟩ := by
  induction bytes generalizing offset column with
  | nil => simp
  | cons byte bytes inductionHypothesis =>
    obtain ⟨different, noLater⟩ := not_or.mp (mt List.mem_cons.mpr noLineFeed)
    cases offset with
    | zero => simp [walk]
    | succ offset =>
      rw [List.cons_append, walk, if_neg (Ne.symm different), inductionHypothesis noLater,
        List.length_cons, Nat.add_sub_add_right]
      simp only [Nat.add_le_add_iff_right, Nat.add_assoc, Nat.add_comm 1]

theorem advance_eq_walk (chars : List Char) (offset row column : Nat) :
    advance chars offset row column = walk (encode chars) offset row column := by
  fun_induction advance chars offset row column with
  | case1 chars row column => cases encode chars <;> rfl
  | case2 offset row column => rfl
  | case3 rest offset row column inductionHypothesis =>
    have isByte : String.utf8EncodeChar '\n' = [lineFeed] := by decide
    rw [encode_cons, isByte, inductionHypothesis]
    rfl
  | case4 char rest offset row column different fits inductionHypothesis =>
    rw [encode_cons, walk_append (mt eq_of_lineFeed_mem different), String.length_utf8EncodeChar,
      if_pos fits, inductionHypothesis]
  | case5 char rest offset row column different tooLong =>
    rw [encode_cons, walk_append (mt eq_of_lineFeed_mem different), String.length_utf8EncodeChar,
      if_neg tooLong]

theorem walk_congr {left right : List UInt8} (sameLength : left.length = right.length)
    (sameLines : ∀ index : Nat, left[index]? = some lineFeed ↔ right[index]? = some lineFeed)
    (offset row column : Nat) : walk left offset row column = walk right offset row column := by
  induction left generalizing right offset row column with
  | nil =>
    obtain rfl := List.length_eq_zero_iff.mp sameLength.symm
    rfl
  | cons first rest inductionHypothesis =>
    cases right with
    | nil => cases sameLength
    | cons other others =>
      cases offset with
      | zero => rfl
      | succ offset =>
        have sameFirst : first = lineFeed ↔ other = lineFeed := by simpa using sameLines 0
        have goesOn := @inductionHypothesis others (Nat.succ.inj sameLength) fun index => by
          simpa using sameLines (index + 1)
        rw [walk, walk]
        by_cases isLineFeed : first = lineFeed
        · rw [if_pos isLineFeed, if_pos (sameFirst.mp isLineFeed)]
          exact goesOn _ _ _
        · rw [if_neg isLineFeed, if_neg (mt sameFirst.mpr isLineFeed)]
          exact goesOn _ _ _

end Source

end FunctionFlow
