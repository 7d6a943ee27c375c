import FunctionFlow.CallGraph.Export
import FunctionFlow.Proofs.Json.Writing

/-!
Contract: what is written as JSON is read back.
-/

namespace FunctionFlow.Json

variable {gap rest : List Char} {char : Char}

/-! ### Texts -/

theorem readText_escapeChar (char : Char) (rest : List Char) :
    readText (escapeChar char ++ rest) = (readText rest).map (Prod.map (char :: ·) id) := by
  have control : ∀ code < 32, codeUnit? '0' '0' (hexDigit (code / 16)) (hexDigit (code % 16)) =
      some code ∧ code.isValidChar := by decide
  unfold escapeChar
  split
  case h_8 _ notQuote notBackslash _ _ _ _ _ =>
    split
    case isTrue small =>
      obtain ⟨isCode, isValid⟩ := control char.toNat small
      rw [List.cons_append, List.cons_append, List.cons_append, List.cons_append, List.cons_append,
        List.cons_append, List.nil_append, readText.eq_3, isCode]
      simp only [isValid, if_true, Char.ofNat_toNat]
      cases readText rest <;> rfl
    case isFalse large =>
      rw [List.singleton_append, readText.eq_5 char rest notQuote (fun _ _ _ _ _ isBackslash =>
        absurd isBackslash notBackslash) (fun _ _ isBackslash => absurd isBackslash notBackslash),
        if_neg (not_or.mpr ⟨large, notBackslash⟩)]
      cases readText rest <;> rfl
  all_goals
    show readText (_ :: _ :: rest) = _
    rw [readText.eq_4 _ _ (by simp)]
    cases readText rest <;> rfl

theorem readText_quote (text : List Char) (rest : List Char) :
    readText (text.flatMap escapeChar ++ '"' :: rest) = some (text, rest) := by
  induction text with
  | nil => rfl
  | cons char text inductionHypothesis =>
    rw [List.flatMap_cons, List.append_assoc, readText_escapeChar, inductionHypothesis]
    rfl

/-! ### Whole numbers -/

def EndsNumber (rest : List Char) : Prop :=
  ∀ char ∈ rest.head?, isDigitOf 10 char = false ∧ char ≠ '.' ∧ char ≠ 'e' ∧ char ≠ 'E'

theorem digitValue?_of_isDigit (isDigit : char.isDigit = true) :
    digitValue? char = some (char.toNat - '0'.toNat) :=
  if_pos (Char.isDigit_iff_toNat.mp isDigit)

theorem isDigitOf_of_isDigit (isDigit : char.isDigit = true) : isDigitOf 10 char = true := by
  have range : 48 ≤ char.toNat ∧ char.toNat ≤ 57 := Char.isDigit_iff_toNat.mp isDigit
  have below : char.toNat - '0'.toNat < 10 := by
    show char.toNat - 48 < 10
    omega
  rw [isDigitOf, digitValue?_of_isDigit isDigit]
  exact decide_eq_true below

theorem takeDigits_eq {digits : List Char} (areDigits : ∀ char ∈ digits, char.isDigit = true)
    (start : Nat) (fits : Nat.ofDigitChars 10 digits start ≤ wordLimit) :
    takeDigits start digits = (Nat.ofDigitChars 10 digits start, []) := by
  induction digits generalizing start with
  | nil => rfl
  | cons digit rest inductionHypothesis =>
    obtain ⟨isDigit, restDigits⟩ := List.forall_mem_cons.mp areDigits
    have value : numberOf 10 [digit] = digit.toNat - '0'.toNat := by
      simp [numberOf, digitValue?_of_isDigit isDigit]
    rw [Nat.ofDigitChars_cons] at fits ⊢
    have below : 10 * start + (digit.toNat - '0'.toNat) ≤ wordLimit := by
      refine le_trans ?_ fits
      rw [Nat.ofDigitChars_eq_ofDigitChars_zero]
      exact Nat.le_add_right_of_le (Nat.le_mul_of_pos_left _ (Nat.pow_pos (by decide)))
    rw [takeDigits]
    simp only [value, if_pos below]
    exact inductionHypothesis restDigits _ fits

theorem toDigits_of_zero_head {number : Nat} (isDigits : Nat.toDigits 10 number = '0' :: rest) :
    rest = [] := by
  induction number using Nat.strong_induction_on generalizing rest with
  | _ number inductionHypothesis =>
  rcases Nat.lt_or_ge number 10 with small | large
  · rw [Nat.toDigits_of_lt_base small] at isDigits
    exact (List.cons.inj isDigits).2.symm
  · rw [Nat.toDigits_of_base_le (by decide) large] at isDigits
    rcases List.append_eq_cons_iff.mp isDigits with ⟨none, _⟩ | ⟨more, isMore, isRest⟩
    · exact absurd none Nat.toDigits_ne_nil
    · have tenth := inductionHypothesis (number / 10) (by omega) isMore
      subst tenth
      have isZero : number / 10 = 0 := by
        rw [← Nat.ofDigitChars_ten_toDigits (n := number / 10), isMore]
        rfl
      omega

theorem readDigits_append {digits : List Char} (some_digits : digits ≠ [])
    (areDigits : ∀ char ∈ digits, char.isDigit = true) (ends : EndsNumber rest) :
    readDigits (digits ++ rest) = some (digits, rest) := by
  have all : ∀ char ∈ digits, isDigitOf 10 char = true := fun char member =>
    isDigitOf_of_isDigit (areDigits char member)
  have none_more : rest.takeWhile (isDigitOf 10) = [] ∧ rest.dropWhile (isDigitOf 10) = rest := by
    cases rest with
    | nil => exact ⟨rfl, rfl⟩
    | cons char rest => simp [(ends char rfl).1]
  simp [readDigits, List.takeWhile_append_of_pos all, List.dropWhile_append_of_pos all, none_more,
    some_digits]

theorem readWhole_append (number : Nat) (ends : EndsNumber rest) :
    readWhole (Nat.toDigits 10 number ++ rest) = some (Nat.toDigits 10 number, rest) := by
  have areDigits : ∀ char ∈ Nat.toDigits 10 number, char.isDigit = true := fun char =>
    Nat.isDigit_of_mem_toDigits (by decide) (by decide)
  rw [readWhole, readDigits_append Nat.toDigits_ne_nil areDigits ends]
  cases isDigits : Nat.toDigits 10 number with
  | nil => rfl
  | cons first others =>
    by_cases isZero : first = '0'
    · subst isZero
      rw [toDigits_of_zero_head isDigits]
      rfl
    · simp [isZero]

theorem readFraction_of_ends (ends : EndsNumber rest) : readFraction rest = some (none, rest) :=
  readFraction.eq_2 rest fun _ isPoint => (ends '.' (by simp [isPoint])).2.1 rfl

theorem readScale_of_ends (ends : EndsNumber rest) : readScale rest = some (none, rest) :=
  readScale.eq_3 rest (fun _ isMark => (ends 'e' (by simp [isMark])).2.2.1 rfl)
    fun _ isMark => (ends 'E' (by simp [isMark])).2.2.2 rfl

theorem readUnsigned_append (isNegative : Bool) {number : Nat} (fits : number ≤ wordLimit)
    (ends : EndsNumber rest) :
    readUnsigned isNegative (Nat.toDigits 10 number ++ rest) =
      (ofWhole isNegative number).map (·, rest) := by
  have taken : takeDigits 0 (Nat.toDigits 10 number) = (number, []) := by
    rw [takeDigits_eq (fun char => Nat.isDigit_of_mem_toDigits (by decide) (by decide)) 0
      (by rwa [Nat.ofDigitChars_ten_toDigits]), Nat.ofDigitChars_ten_toDigits]
  rw [readUnsigned, readWhole_append number ends]
  simp only [Option.bind_eq_bind, Option.bind_some, readFraction_of_ends ends,
    readScale_of_ends ends, taken]
  cases ofWhole isNegative number <;> rfl

/-! ### Spaces -/

def Blank (gap : List Char) : Prop :=
  ∀ char ∈ gap, isSpace char = true

theorem blank_nil : Blank [] :=
  List.forall_mem_nil _

theorem blank_newLine (level : Nat) : Blank (newLine level) := by
  intro char member
  rcases List.mem_cons.mp member with rfl | later
  · rfl
  · rw [List.eq_of_mem_replicate later]
    rfl

theorem skipSpace_blank (blank : Blank gap) (rest : List Char) :
    skipSpace (gap ++ rest) = skipSpace rest :=
  List.dropWhile_append_of_pos blank

theorem skipSpace_cons (visible : isSpace char = false) (rest : List Char) :
    skipSpace (char :: rest) = char :: rest :=
  List.dropWhile_cons_of_neg (by simp [visible])

theorem readValue_blank (blank : Blank gap) (fuel : Nat) (rest : List Char) :
    readValue fuel (gap ++ rest) = readValue fuel rest := by
  cases fuel with
  | zero => rfl
  | succ fuel => simp only [readValue, skipSpace_blank blank]

theorem readElements_blank (blank : Blank gap) (fuel : Nat) (rest : List Char) :
    readElements fuel (gap ++ rest) = readElements fuel rest := by
  cases fuel with
  | zero => rfl
  | succ fuel => simp only [readElements, readValue_blank blank]

theorem endsNumber_cons (isEnd : isSpace char = true ∨ char ∈ [',', ']', '\x7d'])
    (rest : List Char) : EndsNumber (char :: rest) := by
  intro head isHead
  cases isHead
  have oneOf : char ∈ [' ', '\n', '\r', '\t', ',', ']', '\x7d'] := by
    simpa [isSpace, or_assoc] using isEnd
  have noneGoesOn : ∀ char ∈ [' ', '\n', '\r', '\t', ',', ']', '\x7d'],
      isDigitOf 10 char = false ∧ char ≠ '.' ∧ char ≠ 'e' ∧ char ≠ 'E' := by
    simp [isDigitOf, digitValue?]
  exact noneGoesOn char oneOf

theorem endsNumber_blank (blank : Blank gap) (isEnd : char ∈ [',', ']', '\x7d'])
    (rest : List Char) : EndsNumber (gap ++ char :: rest) := by
  cases gap with
  | nil => exact endsNumber_cons (.inr isEnd) rest
  | cons first others =>
    exact endsNumber_cons (.inl (blank first List.mem_cons_self)) _

/-! ### Values -/

/-- The text spells the value, and is read to its end. -/
structure ReadsBack (text : List Char) (value : Json) : Prop where
  begins : ∃ first others, text = first :: others ∧ isSpace first = false ∧ first ≠ ']'
  read : ∀ fuel rest, 2 * text.length ≤ fuel → EndsNumber rest →
    readValue fuel (text ++ rest) = some (value, rest)

theorem ReadsBack.of_step {first : Char} {others : List Char} {value : Json}
    (visible : isSpace first = false) (noBracket : first ≠ ']')
    (read : ∀ fuel rest, 2 * others.length + 1 ≤ fuel → EndsNumber rest →
      readValue (fuel + 1) (first :: (others ++ rest)) = some (value, rest)) :
    ReadsBack (first :: others) value where
  begins := ⟨first, others, rfl, visible, noBracket⟩
  read fuel rest enough ends := by
    rw [List.length_cons] at enough
    obtain ⟨fuel, rfl⟩ := Nat.exists_eq_succ_of_ne_zero (show fuel ≠ 0 by omega)
    exact read fuel rest (by omega) ends

theorem readElements_append {close : List Char} (blank : Blank gap) (closeBlank : Blank close)
    {print : Json → List Char} {first : Json} {others : List Json}
    (each : ∀ value ∈ first :: others, ReadsBack (print value) value) (rest : List Char)
    {fuel : Nat}
    (enough : 2 * (print first ++ others.flatMap fun value => ',' :: (gap ++ print value)).length
      < fuel) :
    readElements fuel (print first ++ ((others.flatMap fun value => ',' :: (gap ++ print value)) ++
      (close ++ ']' :: rest))) = some (first :: others, rest) := by
  induction others generalizing first fuel with
  | nil =>
    obtain ⟨fuel, rfl⟩ := Nat.exists_eq_add_of_lt enough
    simp only [List.flatMap_nil, List.append_nil, List.nil_append]
    rw [readElements, (each first List.mem_cons_self).read _ _ (by simp)
      (endsNumber_blank closeBlank (by simp) rest)]
    simp only [Option.bind_eq_bind, Option.bind_some, skipSpace_blank closeBlank]
    rw [skipSpace_cons rfl]
    rfl
  | cons second others inductionHypothesis =>
    obtain ⟨fuel, rfl⟩ := Nat.exists_eq_succ_of_ne_zero (Nat.ne_zero_of_lt enough)
    simp only [List.flatMap_cons, List.length_append, List.length_cons] at enough
    have later := inductionHypothesis
      (fun value member => each value (List.mem_cons_of_mem first member)) (show _ < fuel by
        rw [List.length_append]
        omega)
    rw [readElements, List.flatMap_cons, List.cons_append, List.cons_append, List.append_assoc,
      List.append_assoc, (each first List.mem_cons_self).read _ _ (by omega)
        (endsNumber_cons (by simp) _)]
    simp only [Option.bind_eq_bind, Option.bind_some]
    rw [skipSpace_cons rfl]
    simp only [readElements_blank blank, later]
    rfl

def memberText (print : Json → List Char) : JsonMember → List Char
  | .mk key value => quote key ++ ": ".toList ++ print value

theorem readMembers_blank (blank : Blank gap) (fuel : Nat) (rest : List Char) :
    readMembers fuel (gap ++ rest) = readMembers fuel rest := by
  cases fuel with
  | zero => rfl
  | succ fuel => simp only [readMembers, skipSpace_blank blank]

theorem memberText_append (print : Json → List Char) (key : String) (value : Json)
    (rest : List Char) :
    memberText print (.mk key value) ++ rest =
      '"' :: (key.toList.flatMap escapeChar ++
        '"' :: (':' :: ([' '] ++ (print value ++ rest)))) := by
  simp [memberText, quote]

theorem blank_space : Blank [' '] :=
  List.forall_mem_singleton.mpr rfl

section

variable {print : Json → List Char} {key : String} {value : Json} {fuel : Nat}
  (readsBack : ReadsBack (print value) value) (enough : 2 * (print value).length ≤ fuel)
include readsBack enough

theorem readMembers_last {close : List Char} (closeBlank : Blank close) (rest : List Char) :
    readMembers (fuel + 1) (memberText print (.mk key value) ++ (close ++ '\x7d' :: rest)) =
      some ([.mk key value], rest) := by
  have ends : EndsNumber (close ++ '\x7d' :: rest) := endsNumber_blank closeBlank (by simp) rest
  rw [memberText_append, readMembers, skipSpace_cons rfl]
  simp only [readText_quote, Option.bind_eq_bind, Option.bind_some]
  rw [skipSpace_cons rfl]
  simp only [readValue_blank blank_space, readsBack.read fuel _ enough ends, Option.bind_some,
    skipSpace_blank closeBlank]
  rw [skipSpace_cons rfl, String.ofList_toList]
  rfl

theorem readMembers_next (rest : List Char) :
    readMembers (fuel + 1) (memberText print (.mk key value) ++ ',' :: rest) =
      (readMembers fuel rest).map (Prod.map (.mk key value :: ·) id) := by
  have ends : EndsNumber (',' :: rest) := endsNumber_cons (by simp) rest
  rw [memberText_append, readMembers, skipSpace_cons rfl]
  simp only [readText_quote, Option.bind_eq_bind, Option.bind_some]
  rw [skipSpace_cons rfl]
  simp only [readValue_blank blank_space, readsBack.read fuel _ enough ends, Option.bind_some]
  rw [skipSpace_cons rfl, String.ofList_toList]
  show ((readMembers fuel rest).bind fun read => some (.mk key value :: read.1, read.2)) = _
  cases readMembers fuel rest <;> rfl

end

theorem readMembers_append {close : List Char} (blank : Blank gap) (closeBlank : Blank close)
    {print : Json → List Char} {first : JsonMember} {others : List JsonMember}
    (each : ∀ key value, .mk key value ∈ first :: others → ReadsBack (print value) value)
    (rest : List Char) {fuel : Nat} (enough : 2 * (memberText print first ++
      others.flatMap fun item => ',' :: (gap ++ memberText print item)).length < fuel) :
    readMembers fuel (memberText print first ++
      ((others.flatMap fun item => ',' :: (gap ++ memberText print item)) ++
        (close ++ '\x7d' :: rest))) = some (first :: others, rest) := by
  induction others generalizing first fuel with
  | nil =>
    obtain ⟨key, value⟩ := first
    obtain ⟨fuel, rfl⟩ := Nat.exists_eq_succ_of_ne_zero (Nat.ne_zero_of_lt enough)
    simp only [memberText, List.length_append, List.flatMap_nil] at enough
    exact readMembers_last (each key value List.mem_cons_self) (by omega) closeBlank rest
  | cons second others inductionHypothesis =>
    obtain ⟨key, value⟩ := first
    obtain ⟨fuel, rfl⟩ := Nat.exists_eq_succ_of_ne_zero (Nat.ne_zero_of_lt enough)
    simp only [List.flatMap_cons, List.length_append, List.length_cons] at enough
    have later := inductionHypothesis
      (fun key value member => each key value (List.mem_cons_of_mem _ member)) (show _ < fuel by
        rw [List.length_append]
        omega)
    simp only [memberText, List.length_append] at enough
    rw [List.flatMap_cons, List.cons_append, List.cons_append, List.append_assoc,
      List.append_assoc, readMembers_next (each key value List.mem_cons_self) (by omega),
      readMembers_blank blank, later]
    rfl

/-- A value whose numbers are whole and have at most 64 bits. -/
inductive Exact : Json → Prop where
  | null : Exact .null
  | bool (value : Bool) : Exact (.bool value)
  | natural {value : Nat} (fits : value ≤ wordLimit) : Exact (.number value)
  | negative {value : Nat} (fits : value < Nat.pow 2 63) : Exact (.number (.negSucc value))
  | text (value : String) : Exact (.text value)
  | array {elements : List Json} (each : ∀ value ∈ elements, Exact value) : Exact (.array elements)
  | object {members : List JsonMember} (each : ∀ key value, .mk key value ∈ members → Exact value) :
    Exact (.object members)

theorem renderElements_eq (level : Nat) (values : List Json) :
    renderElements level values =
      values.flatMap fun value => ',' :: (newLine level ++ value.renderAt level) := by
  induction values with
  | nil => rfl
  | cons value rest inductionHypothesis =>
    rw [renderElements, inductionHypothesis, List.flatMap_cons]
    rfl

theorem renderMembers_eq (level : Nat) (members : List JsonMember) :
    renderMembers level members =
      members.flatMap fun item => ',' :: (newLine level ++ memberText (renderAt level) item) := by
  induction members with
  | nil => rfl
  | cons item rest inductionHypothesis =>
    obtain ⟨key, value⟩ := item
    rw [renderMembers, inductionHypothesis, List.flatMap_cons]
    simp [memberText]

theorem ne_of_startsNumber {first : Char} (isStart : first.isDigit = true ∨ first = '-')
    (member : char ∈ ['"', '[', ']', '\x7b', ' ', '\n', '\r', '\t', 'n', 't', 'f']) :
    first ≠ char := by
  have noStart : ∀ char ∈ ['"', '[', ']', '\x7b', ' ', '\n', '\r', '\t', 'n', 't', 'f'],
      ¬ (char.isDigit = true ∨ char = '-') := by simp
  rintro rfl
  exact noStart _ member isStart

theorem visible_of_startsNumber {first : Char} (isStart : first.isDigit = true ∨ first = '-') :
    isSpace first = false := by
  have differs : ∀ char ∈ [' ', '\n', '\r', '\t'], first ≠ char := fun char member =>
    ne_of_startsNumber isStart (by simp at member ⊢; tauto)
  simp [isSpace, differs ' ', differs '\n', differs '\r', differs '\t']

theorem readValue_number {first : Char} (isStart : first.isDigit = true ∨ first = '-') (fuel : Nat)
    (others : List Char) :
    readValue (fuel + 1) (first :: others) = readNumber (first :: others) := by
  have differs : ∀ char ∈ ['"', '[', '\x7b'], first ≠ char := fun char member =>
    ne_of_startsNumber isStart (by simp at member ⊢; tauto)
  have noLiteral : ∀ char ∈ ['n', 't', 'f'], char ≠ first := fun char member =>
    (ne_of_startsNumber isStart (by simp at member ⊢; tauto)).symm
  have isPlain : readPlain (first :: others) = readNumber (first :: others) := by
    simp [readPlain, Text.dropLeading?, noLiteral 'n', noLiteral 't', noLiteral 'f']
  rw [readValue, skipSpace_cons (visible_of_startsNumber isStart), ← isPlain]
  simp [differs '"', differs '[', differs '\x7b']

theorem readsBack_text (value : String) : ReadsBack (quote value) (.text value) := by
  refine .of_step rfl (by decide) fun fuel rest _ _ => ?_
  show readValue (fuel + 1) ('"' :: (value.toList.flatMap escapeChar ++ ['"'] ++ rest)) = _
  rw [List.append_assoc, List.singleton_append, readValue, skipSpace_cons rfl]
  simp only [readText_quote, Option.bind_eq_bind, Option.bind_some, String.ofList_toList]
  rfl

theorem readsBack_natural {value : Nat} (fits : value ≤ wordLimit) :
    ReadsBack (Nat.toDigits 10 value) (.number value) := by
  obtain ⟨first, others, isDigits⟩ := List.exists_cons_of_ne_nil
    (Nat.toDigits_ne_nil (b := 10) (n := value))
  have isDigit : first.isDigit = true :=
    Nat.isDigit_of_mem_toDigits (b := 10) (n := value) (by decide) (by decide)
      (isDigits ▸ List.mem_cons_self)
  have noMinus : first ≠ '-' := by
    rintro rfl
    exact absurd isDigit (by decide)
  rw [isDigits]
  refine .of_step (visible_of_startsNumber (.inl isDigit))
    (ne_of_startsNumber (.inl isDigit) (by simp)) fun fuel rest _ ends => ?_
  calc readValue (fuel + 1) (first :: (others ++ rest))
      = readNumber (first :: (others ++ rest)) := readValue_number (.inl isDigit) fuel _
    _ = readUnsigned false (Nat.toDigits 10 value ++ rest) := by
        rw [isDigits]
        exact readNumber.eq_2 _ fun _ isMinus => noMinus (List.cons.inj isMinus).1
    _ = some (.number value, rest) := by
        rw [readUnsigned_append false fits ends]
        rfl

theorem readsBack_negative {value : Nat} (fits : value < Nat.pow 2 63) :
    ReadsBack ('-' :: Nat.toDigits 10 (value + 1)) (.number (.negSucc value)) := by
  have small : value + 1 ≤ Nat.pow 2 63 := fits
  have inWord : value + 1 ≤ wordLimit := le_trans small (by decide)
  refine .of_step rfl (by decide) fun fuel rest _ ends => ?_
  rw [readValue_number (.inr rfl), readNumber, readUnsigned_append true inWord ends]
  simp only [ofWhole, Bool.not_true, Bool.false_eq_true, if_false, Nat.zero_lt_succ, small,
    and_self, if_true]
  rfl

theorem readsBack_array {close : List Char} (blank : Blank gap) (closeBlank : Blank close)
    {print : Json → List Char} {first : Json} {others : List Json}
    (each : ∀ value ∈ first :: others, ReadsBack (print value) value) :
    ReadsBack ('[' :: (gap ++ (print first ++
      ((others.flatMap fun value => ',' :: (gap ++ print value)) ++ (close ++ [']'])))))
      (.array (first :: others)) := by
  refine .of_step rfl (by decide) fun fuel rest enough _ => ?_
  obtain ⟨start, more, isFirst, visible, noBracket⟩ := (each first List.mem_cons_self).begins
  simp only [List.length_append] at enough
  have elements := readElements_append blank closeBlank each rest (show _ < fuel by
    rw [List.length_append]
    omega)
  rw [isFirst] at elements ⊢
  simp only [List.cons_append, List.append_assoc, List.nil_append] at elements ⊢
  rw [readValue, skipSpace_cons rfl]
  simp only [skipSpace_blank blank, skipSpace_cons visible]
  simp [noBracket, elements]

theorem readsBack_object {close : List Char} (blank : Blank gap) (closeBlank : Blank close)
    {print : Json → List Char} {first : JsonMember} {others : List JsonMember}
    (each : ∀ key value, .mk key value ∈ first :: others → ReadsBack (print value) value) :
    ReadsBack ('\x7b' :: (gap ++ (memberText print first ++
      ((others.flatMap fun item => ',' :: (gap ++ memberText print item)) ++ (close ++ ['\x7d'])))))
      (.object (first :: others)) := by
  refine .of_step rfl (by decide) fun fuel rest enough _ => ?_
  simp only [List.length_append] at enough
  have members := readMembers_append blank closeBlank each rest (show _ < fuel by
    rw [List.length_append]
    omega)
  obtain ⟨key, value⟩ := first
  simp only [List.append_assoc, List.singleton_append]
  rw [memberText_append] at members ⊢
  rw [readValue, skipSpace_cons rfl]
  simp only [skipSpace_blank blank]
  rw [skipSpace_cons rfl]
  show ((readMembers fuel _).bind fun read => some (object read.1, read.2)) = _
  rw [members]
  rfl

theorem renderAt_natural (level value : Nat) :
    renderAt level (.number value) = Nat.toDigits 10 value := by
  show (Nat.repr value).toList = _
  rw [Nat.repr_eq_ofList_toDigits, String.toList_ofList]

theorem renderAt_negative (level value : Nat) :
    renderAt level (.number (.negSucc value)) = '-' :: Nat.toDigits 10 (value + 1) := by
  show ("-" ++ Nat.repr (value + 1)).toList = _
  simp [Nat.repr_eq_ofList_toDigits]

theorem Exact.readsBack {value : Json} (exact : value.Exact) (level : Nat) :
    ReadsBack (value.renderAt level) value := by
  induction exact generalizing level with
  | null => exact .of_step rfl (by decide) fun _ _ _ _ => rfl
  | bool value =>
    cases value with
    | false => exact .of_step rfl (by decide) fun _ _ _ _ => rfl
    | true => exact .of_step rfl (by decide) fun _ _ _ _ => rfl
  | natural fits =>
    rw [renderAt_natural]
    exact readsBack_natural fits
  | negative fits =>
    rw [renderAt_negative]
    exact readsBack_negative fits
  | text value => exact readsBack_text value
  | @array elements _ inductionHypothesis =>
    cases elements with
    | nil => exact .of_step rfl (by decide) fun _ _ _ _ => rfl
    | cons first others =>
      have read := readsBack_array (blank_newLine (level + 1)) (blank_newLine level)
        fun value member => inductionHypothesis value member (level + 1)
      simpa [renderAt, renderElements_eq] using read
  | @object members _ inductionHypothesis =>
    cases members with
    | nil => exact .of_step rfl (by decide) fun _ _ _ _ => rfl
    | cons first others =>
      obtain ⟨key, value⟩ := first
      have read := readsBack_object (blank_newLine (level + 1)) (blank_newLine level)
        fun key value member => inductionHypothesis key value member (level + 1)
      simpa [renderAt, renderMembers_eq, memberText] using read

/-! ### Documents -/

theorem ReadsBack.parse {text : List Char} {value : Json} (readsBack : ReadsBack text value) :
    parseChars? text = some value := by
  have read := readsBack.read (2 * text.length + 2) [] (by omega) (by simp [EndsNumber])
  rw [List.append_nil] at read
  rw [parseChars?, read]
  rfl

theorem parseBytes?_utf8 (text : String) : parseBytes? (Text.utf8 text) = parse? text := by
  have isText : String.fromUTF8? text.toByteArray = some text := dif_pos text.isValidUTF8
  rw [parseBytes?, Text.utf8, Text.toList_eq_data, Array.toArray_toList]
  exact congrArg (·.bind parse?) isText

theorem intercalate_cons {α : Type} (separator first : List α) (others : List (List α)) :
    separator.intercalate (first :: others) = first ++ others.flatMap (separator ++ ·) := by
  induction others generalizing first with
  | nil => simp
  | cons second others inductionHypothesis =>
    rw [List.intercalate_cons_of_ne_nil (by simp), inductionHypothesis, List.flatMap_cons]
    simp

theorem parseBytes?_arrayBytes {values : List Json} (each : ∀ value ∈ values, value.Exact) :
    parseBytes? (arrayBytes values) = some (.array values) := by
  rw [arrayBytes, parseBytes?_utf8, parse?, String.toList_ofList]
  cases values with
  | nil => rfl
  | cons first others =>
    have read := readsBack_array blank_nil blank_nil fun value member =>
      (each value member).readsBack 0
    refine ReadsBack.parse ?_
    simpa [arrayText, openText, render, intercalate_cons, List.flatMap_map] using read

theorem natOrNull?_ofNat? (value : Option Nat) : (ofNat? value).natOrNull? = some value := by
  cases value <;> rfl

theorem exact_ofNat? {value : Option Nat} (inWord : ∀ number ∈ value, number ≤ wordLimit) :
    (ofNat? value).Exact := by
  cases value with
  | none => exact .null
  | some number => exact .natural (inWord number rfl)

end FunctionFlow.Json

namespace FunctionFlow

/-! ### Binding records -/

def Endpoint.positions (endpoint : Endpoint) : List (Option Nat) :=
  [endpoint.start.row, endpoint.start.column, endpoint.stop.row, endpoint.stop.column,
    endpoint.range.start, endpoint.range.stop]

/-- Every position has at most 64 bits. -/
def BindingRecord.InWords (record : BindingRecord) : Prop :=
  ∀ position ∈ record.source.positions ++ record.target.positions, ∀ number ∈ position,
    number ≤ Json.wordLimit

theorem RecordPoint.ofJson?_toJson (point : RecordPoint) : ofJson? point.toJson = some point := by
  simp [toJson, ofJson?, Json.member?, Json.natOrNull?_ofNat?]

theorem RecordRange.ofJson?_toJson (range : RecordRange) : ofJson? range.toJson = some range := by
  simp [toJson, ofJson?, Json.member?, Json.natOrNull?_ofNat?]

theorem Endpoint.ofJson?_toJson (endpoint : Endpoint) :
    ofJson? endpoint.toJson = some endpoint := by
  simp [toJson, ofJson?, Json.member?, Json.text?, RecordPoint.ofJson?_toJson,
    RecordRange.ofJson?_toJson]

theorem BindingRecord.ofJson?_toJson (record : BindingRecord) :
    ofJson? record.toJson = some record := by
  simp [toJson, ofJson?, Json.member?, Endpoint.ofJson?_toJson]

theorem Json.Exact.pair {first second : String} {left right : Json} (leftExact : left.Exact)
    (rightExact : right.Exact) : Exact (.object [.mk first left, .mk second right]) := by
  refine .object fun key value member => ?_
  rcases List.mem_pair.mp member with isFirst | isSecond
  · cases isFirst
    exact leftExact
  · cases isSecond
    exact rightExact

theorem Endpoint.exact_toJson {endpoint : Endpoint}
    (inWords : ∀ position ∈ endpoint.positions, ∀ number ∈ position, number ≤ Json.wordLimit) :
    endpoint.toJson.Exact := by
  have exact {position : Option Nat} (member : position ∈ endpoint.positions) :
      (Json.ofNat? position).Exact := Json.exact_ofNat? (inWords position member)
  have start : endpoint.start.toJson.Exact :=
    .pair (exact (by simp [positions])) (exact (by simp [positions]))
  have stop : endpoint.stop.toJson.Exact :=
    .pair (exact (by simp [positions])) (exact (by simp [positions]))
  have range : endpoint.range.toJson.Exact :=
    .pair (exact (by simp [positions])) (exact (by simp [positions]))
  refine .object fun key value member => ?_
  simp only [List.mem_cons, List.not_mem_nil, or_false, JsonMember.mk.injEq] at member
  rcases member with ⟨_, rfl⟩ | ⟨_, rfl⟩ | ⟨_, rfl⟩ | ⟨_, rfl⟩ | ⟨_, rfl⟩
  · exact .text _
  · exact .text _
  · exact start
  · exact stop
  · exact range

theorem BindingRecord.InWords.exact_toJson {record : BindingRecord} (inWords : record.InWords) :
    record.toJson.Exact :=
  .pair (Endpoint.exact_toJson fun position member =>
      inWords position (List.mem_append_left _ member))
    (Endpoint.exact_toJson fun position member => inWords position (List.mem_append_right _ member))

theorem BindingRecord.arrayBytes_read_back {records : List BindingRecord}
    (inWords : ∀ record ∈ records, record.InWords) :
    ∃ values, Json.parseBytes? (Json.arrayBytes (records.map toJson)) = some (.array values) ∧
      values.mapM ofJson? = some records := by
  refine ⟨records.map toJson, Json.parseBytes?_arrayBytes fun value member => ?_, ?_⟩
  · obtain ⟨record, isRecord, rfl⟩ := List.mem_map.mp member
    exact (inWords record isRecord).exact_toJson
  · have readsEach : ofJson? ∘ toJson = fun record => pure record := funext ofJson?_toJson
    rw [List.mapM_map, readsEach, List.mapM_pure, List.map_id']
    rfl

/-- Records with any labels, files and positions are written one by one, with chunks of any size, to
a sink that fails no write. The bytes it gets are one JSON document, an array from whose elements
the records are read back in order. -/
theorem records_read_back (answer : Nat → SinkAnswer) (willing : ∀ index, ¬ (answer index).Fails)
    (failsFlush : Bool) (threshold : Nat) (records : List BindingRecord)
    (inWords : ∀ record ∈ records, record.InWords) :
    let start := ArrayWriter.fresh (.fresh answer failsFlush) threshold
    let writer := start.after ((records.map BindingRecord.toJson).map .write)
    (writer.finish.1 = none ↔ failsFlush = false) ∧
    ∃ values, Json.parseBytes? writer.finish.2.sink.bytes = some (.array values) ∧
      values.mapM BindingRecord.ofJson? = some records := by
  intro start writer
  have sameAnswer : writer.finish.2.sink.answer = answer :=
    (writer.serve_answer .finish).trans (start.after_answer _)
  have sound : writer.finish.2.sink.Sound := fun index _ => sameAnswer ▸ willing index
  have isGoing : writer.Going failsFlush (records.map BindingRecord.toJson) := by
    refine (ArrayWriter.going_or_lost answer failsFlush threshold _).resolve_right fun lost => ?_
    exact (lost.serve .finish).broken.not_sound sound
  obtain ⟨ended, reported⟩ := isGoing.finish
  have whole : writer.finish.2.sink.bytes = Json.arrayBytes (records.map BindingRecord.toJson) := by
    rcases ended with ⟨_, whole⟩ | lost
    · exact whole
    · exact absurd sound lost.broken.not_sound
  rw [whole]
  exact ⟨by simp [reported, sound], BindingRecord.arrayBytes_read_back inWords⟩

/-- Two records in chunks of 7 bytes, to a sink that takes 3 bytes at a time. The first has a label
with a quote, a control character and letters beyond ASCII, the second ends at a built-in function,
which has no place. -/
theorem records_read_back_small :
    let call := Endpoint.mk "caf\u00e9 \"\x07\\" "a b.js" ⟨some 0, some 4⟩ ⟨some 1, some 0⟩
      ⟨some 4, some 18446744073709551615⟩
    let builtin := Endpoint.mk "Array.prototype.map" "名前.js" ⟨none, none⟩ ⟨none, none⟩ ⟨none, none⟩
    let records := [BindingRecord.mk call call, ⟨call, builtin⟩]
    let start := ArrayWriter.fresh (.fresh (fun _ => .accept (some 3)) false) 7
    let writer := start.after ((records.map BindingRecord.toJson).map .write)
    writer.finish.1 = none ∧
    ∃ values, Json.parseBytes? writer.finish.2.sink.bytes = some (.array values) ∧
      values.mapM BindingRecord.ofJson? = some records := by
  intro call builtin records
  have inWords : ∀ record ∈ records, record.InWords := by
    simp [records, call, builtin, BindingRecord.InWords, Endpoint.positions, Json.wordLimit]
  have willing : ∀ _ : Nat, ¬ SinkAnswer.Fails (.accept (some 3)) := by simp [SinkAnswer.Fails]
  have readBack := records_read_back (fun _ => .accept (some 3)) willing false 7 records inWords
  simpa only [iff_true] using readBack

end FunctionFlow
