import FunctionFlow.Pattern.Basic
import FunctionFlow.Pattern.CharClass
import FunctionFlow.Unicode.CaseFold
import FunctionFlow.Unicode.PropertyName

/-!
Contract: the written form of patterns.

Look-around and references to groups are not part of patterns. Groups and classes nest through
`choiceAt` and `classAt`, whose argument bounds the depth. The depth of a whole pattern is bounded
as well.
-/

namespace FunctionFlow

namespace Pattern.Syntax

structure Mode where
  ignoresCase : Bool := false
  /-- Whether anchors hold at lines as well. -/
  hasLines : Bool := false
  /-- Whether a point stands for line feeds, too. -/
  pointIsAny : Bool := false
  /-- Whether white space and comments in the pattern are passed over. -/
  isSpaced : Bool := false
  /-- Whether carriage returns end lines. -/
  hasReturns : Bool := false
  /-- Whether classes hold ASCII characters only. -/
  isAscii : Bool := false
  deriving DecidableEq, Repr

structure ReadState where
  mode : Mode := {}
  names : List String := []

abbrev PatternReader := StateT ReadState Reader

/-- A value with the depth of the text that it was read from. Groups, repetitions, bracketed classes,
operations on sets, and two or more parts in a row or in a choice are one deeper than their parts. -/
structure Nested (α : Type) where
  value : α
  depth : Nat := 0

def depthOfParts : (depths : List Nat) → Nat
  | [] => 0
  | [depth] => depth
  | depths => depths.foldl max 0 + 1

inductive Primitive where
  | char (char : Char)
  | set (set : CharSet)
  | check (assertion : Assertion)

variable {α : Type}

def rest : PatternReader (List Char) := liftM (get : Reader (List Char))

def mode : PatternReader Mode := return (← get).mode

def setMode (mode : Mode) : PatternReader Unit := modify fun state => { state with mode }

def char (wanted : Char) : PatternReader Unit := discard (Reader.char wanted : Reader Char)

def satisfy (test : Char → Bool) : PatternReader Char := liftM (Reader.satisfy test)

def word (wanted : String) : PatternReader Unit := liftM (Reader.word wanted)

def option (item : PatternReader α) : PatternReader (Option α) :=
  (some <$> item) <|> pure none

def manyWithin (item : PatternReader α) : (bound : Nat) → PatternReader (List α)
  | 0 => pure []
  | bound + 1 =>
    (do
      let first ← item
      let others ← manyWithin item bound
      return first :: others)
    <|> pure []

def many (item : PatternReader α) : PatternReader (List α) := do
  manyWithin item (← rest).length

def isAhead (item : PatternReader α) : PatternReader Bool := do
  let state ← get
  let text ← rest
  return ((item.run state).run text).isSome

def comment : PatternReader Unit := do
  char '#'
  discard <| liftM (Reader.takeWhile (· != '\n'))
  discard <| option (char '\n')

def space : PatternReader Unit := do
  if (← mode).isSpaced then
    discard <| many ((discard <| satisfy Text.isBlank) <|> comment)

/-! Escapes -/

def isEscapable (char : Char) : Bool :=
  char.toNat < 128 && !char.isAlphanum && char != '<' && char != '>'

def wordSet : PatternReader CharSet := do
  return if (← mode).isAscii then .asciiWord else .word

def orComplement (isComplement : Bool) (set : CharSet) : PatternReader CharSet := do
  if !isComplement then return set
  else if (← mode).isAscii then failure
  else return set.complement

def withCase (set : CharSet) : PatternReader CharSet := do
  let mode ← mode
  if !mode.ignoresCase then return set
  else if mode.isAscii then
    return set.union ((set.intersection .ascii).folded.intersection .ascii)
  else return set.folded

def classOrComplement (isComplement : Bool) (full ascii : CharSet) : PatternReader Primitive := do
  return .set (← orComplement isComplement (if (← mode).isAscii then ascii else full))

def bracedCode : PatternReader Char := do
  char '\x7b'
  space
  let digits ← many (satisfy (isDigitOf 16) <* space)
  char '\x7d'
  space
  let value := numberOf 16 digits
  if digits.isEmpty ∨ ¬ value.isValidChar then failure
  return Char.ofNat value

def codeDigits : (count : Nat) → PatternReader (List Char)
  | 0 => return []
  | count + 1 => do
    space
    let first ← satisfy (isDigitOf 16)
    return first :: (← codeDigits count)

def code (count : Nat) : PatternReader Primitive := do
  space
  if ← isAhead (char '\x7b') then return .char (← bracedCode)
  let value := numberOf 16 (← codeDigits count)
  space
  if !value.isValidChar ∨ (count = 2 ∧ 0x80 ≤ value ∧ (← mode).isAscii) then failure
  return .char (Char.ofNat value)

def boundary (word : CharSet) : PatternReader Primitive := do
  let isNamePart := fun char : Char => char.isAlpha || char == '-'
  let opening : PatternReader Unit := do
    char '\x7b'
    space
  if ← isAhead (opening *> satisfy isNamePart) then
    opening
    let name ← many (satisfy isNamePart <* space)
    char '\x7d'
    match String.ofList name with
    | "start" => return .check (.wordStart word)
    | "end" => return .check (.wordEnd word)
    | "start-half" => return .check (.notAfterWord word)
    | "end-half" => return .check (.notBeforeWord word)
    | _ => failure
  else return .check (.wordBoundary word)

def cutAt? (mark : List Char) : List Char → Option (List Char × List Char)
  | [] => none
  | first :: rest =>
    match Text.dropLeading? mark (first :: rest) with
    | some after => some ([], after)
    | none => (cutAt? mark rest).map fun (before, after) => (first :: before, after)

def propertyChars? (name : List Char) : Option CharSet :=
  match (cutAt? ['!', '='] name) <|> (cutAt? [':'] name) <|> (cutAt? ['='] name) with
  | some (property, value) => PropertyName.charsOfValue? property value
  | none => PropertyName.charsNamed? name

def propertyName : PatternReader (List Char) := do
  space
  if ← isAhead (char '\x7b') then
    char '\x7b'
    space
    let name ← many (satisfy (· != '\x7d') <* space)
    char '\x7d'
    return name
  else
    let letter ← satisfy (· != '\\')
    space
    return [letter]

def property (isComplement : Bool) : PatternReader Primitive := do
  if (← mode).isAscii then failure
  match propertyChars? (← propertyName) with
  | some set => return .set (← orComplement isComplement (← withCase set))
  | none => failure

def escape : PatternReader Primitive := do
  match ← satisfy fun _ => true with
  | 'd' => classOrComplement false .digit .asciiDigit
  | 'D' => classOrComplement true .digit .asciiDigit
  | 's' => classOrComplement false .blank .asciiBlank
  | 'S' => classOrComplement true .blank .asciiBlank
  | 'w' => classOrComplement false .word .asciiWord
  | 'W' => classOrComplement true .word .asciiWord
  | 'p' => property false
  | 'P' => property true
  | 'x' => code 2
  | 'u' => code 4
  | 'U' => code 8
  | 'a' => return .char '\x07'
  | 'f' => return .char '\x0c'
  | 't' => return .char '\t'
  | 'n' => return .char '\n'
  | 'r' => return .char '\r'
  | 'v' => return .char '\x0b'
  | 'A' => return .check .textStart
  | 'z' => return .check .textEnd
  | 'b' => boundary (← wordSet)
  | 'B' => return .check (.noWordBoundary (← wordSet))
  | '<' => return .check (.wordStart (← wordSet))
  | '>' => return .check (.wordEnd (← wordSet))
  | char => if isEscapable char then return .char char else failure

/-! Classes -/

def className : PatternReader (CharSet × Bool) := do
  char ':'
  let isComplement := (← option (char '^')).isSome
  let name ← liftM (Reader.takeWhile (· != ':'))
  word ":]"
  match CharSet.asciiClass? (String.ofList name) with
  | some set => return (set, isComplement)
  | none => failure

def classPrimitive : PatternReader Primitive := do
  match ← satisfy fun _ => true with
  | '\\' => escape
  | char => return .char char

def rangeSet (first last : Char) : PatternReader CharSet := do
  let set := CharSet.range first last
  if last < first ∨ ((← mode).isAscii ∧ !set.isAscii) then failure else return set

def behindHyphen? (isSpaced : Bool) : List Char → Option Char
  | '-' :: rest =>
    if !isSpaced then rest.head?
    else
      match rest.dropWhile Text.isBlank with
      | '#' :: rest => (rest.dropWhile Text.isBlank).head?
      | rest => rest.head?
  | _ => none

def isRangeAhead : PatternReader Bool := do
  match behindHyphen? (← mode).isSpaced (← rest) with
  | some char => return char != ']' && char != '-'
  | none => return false

def classRange : PatternReader CharSet := do
  let first ← classPrimitive
  space
  if ← isRangeAhead then
    char '-'
    space
    match first, ← classPrimitive with
    | .char first, .char last => rangeSet first last
    | _, _ => failure
  else
    match first with
    | .char char => rangeSet char char
    | .set set => return set
    | .check _ => failure

def classOperation : PatternReader (CharSet → CharSet → CharSet) :=
  (do
    word "&&"
    return .intersection)
  <|> (do
    word "--"
    return .difference)
  <|> (do
    word "~~"
    return .symmetricDifference)

/-- Reads a class inside a class, after its opening bracket. What is no name of a class is read as any
other class. -/
def innerClass (inner : PatternReader (Nested CharSet)) : PatternReader (Nested CharSet) := do
  if ← isAhead className then
    let (set, isComplement) ← className
    return { value := ← orComplement isComplement (← withCase set) }
  else inner

def classItem (inner : PatternReader (Nested CharSet)) : PatternReader (Nested CharSet) := do
  space
  if ← isAhead classOperation then failure
  if ← isAhead (char ']') then failure
  if ← isAhead (char '[') then
    char '['
    innerClass inner
  else return { value := ← classRange }

def classOperand (inner : PatternReader (Nested CharSet)) (front : List (Nested CharSet)) :
    PatternReader (Nested CharSet) := do
  let items := front ++ (← many (classItem inner))
  space
  return {
    value := .unionOf (items.map (·.value))
    depth := depthOfParts (items.map (·.depth)) }

def classFront : PatternReader (List (Nested CharSet)) := do
  let hyphens ← many (char '-' *> space)
  if !hyphens.isEmpty then return hyphens.map fun _ => { value := .single '-' }
  match ← option (char ']' *> space) with
  | some _ => return [{ value := .single ']' }]
  | none => return []

def applyOperation (left : Nested CharSet)
    (right : (CharSet → CharSet → CharSet) × Nested CharSet) : PatternReader (Nested CharSet) := do
  let (operation, right) := right
  return {
    value := operation (← withCase left.value) (← withCase right.value)
    depth := max left.depth right.depth + 1 }

def classRest (inner : PatternReader (Nested CharSet)) : PatternReader (Nested CharSet) := do
  space
  let isComplement := (← option (char '^' *> space)).isSome
  let first ← classOperand inner (← classFront)
  let others ← many (do
    let operation ← classOperation
    return (operation, ← classOperand inner []))
  char ']'
  let set ← others.foldlM applyOperation first
  return {
    value := ← orComplement isComplement (← withCase set.value)
    depth := set.depth + 1 }

def depthLimit : Nat := 250

def classAt : (depth : Nat) → PatternReader (Nested CharSet)
  | 0 => failure
  | depth + 1 => classRest (classAt depth)

/-! Repetitions -/

def greatestCount : Nat := 4294967295

def count : PatternReader Nat := do
  discard <| liftM (Reader.takeWhile Text.isBlank)
  let digits ← many (satisfy (isDigitOf 10) <* space)
  discard <| many (satisfy Text.isBlank <* space)
  let value := numberOf 10 digits
  if digits.isEmpty ∨ greatestCount < value then failure
  return value

def counts : PatternReader (Nat × Option Nat) := do
  space
  let least ← count
  if (← option (char ',' *> space)).isNone then return (least, some least)
  if ← isAhead (char '\x7d') then return (least, none)
  let most ← count
  if least ≤ most then return (least, some most) else failure

def lazyMark : PatternReader Unit := discard <| option (char '?')

def repetition : PatternReader (Pattern → Pattern) := do
  space
  match ← satisfy fun _ => true with
  | '*' =>
    lazyMark
    return .times 0 none
  | '+' =>
    lazyMark
    return .times 1 none
  | '?' =>
    lazyMark
    return .times 0 (some 1)
  | '\x7b' =>
    let (least, most) ← counts
    char '\x7d'
    space
    lazyMark
    return .times least most
  | _ => failure

/-! Groups -/

def Mode.switch (mode : Mode) (value : Bool) : Char → Mode
  | 'i' => { mode with ignoresCase := value }
  | 'm' => { mode with hasLines := value }
  | 's' => { mode with pointIsAny := value }
  | 'x' => { mode with isSpaced := value }
  | 'R' => { mode with hasReturns := value }
  | 'u' => { mode with isAscii := !value }
  | _ => mode

def Mode.switchAll (mode : Mode) (value : Bool) : List Char → Mode
  | [] => mode
  | '-' :: switches => switchAll mode false switches
  | switch :: switches => switchAll (mode.switch value switch) value switches

def isDistinct : List Char → Bool
  | [] => true
  | first :: others => !others.contains first && isDistinct others

def switches : PatternReader (List Char) := do
  let switches ← many (satisfy "imsUuRx-".toList.contains)
  if isDistinct switches ∧ switches.getLast? ≠ some '-' then return switches else failure

def groupName : PatternReader Unit := do
  let isLetter := fun char => CharProperty.alphabetic.contains char
  let first ← satisfy fun char => char == '_' || isLetter char
  let others ← many (satisfy fun char =>
    isLetter char || CharSet.number.contains char || "_.[]".toList.contains char)
  char '>'
  let name := String.ofList (first :: others)
  if (← get).names.contains name then failure
  modify fun state => { state with names := name :: state.names }

def groupRest (inner : PatternReader (Nested Pattern)) (outer : Mode) :
    PatternReader (Nested Pattern) := do
  let { value, depth } ← inner
  char ')'
  setMode outer
  return { value, depth := depth + 1 }

def capturedRest (inner : PatternReader (Nested Pattern)) (outer : Mode) :
    PatternReader (Nested Pattern) := do
  let { value, depth } ← groupRest inner outer
  return { value := .captured value, depth }

def group (inner : PatternReader (Nested Pattern)) : PatternReader (Option (Nested Pattern)) := do
  space
  let outer ← mode
  if ← isAhead (word "?P<") then
    word "?P<"
    groupName
    some <$> capturedRest inner outer
  else if ← isAhead (word "?<") then
    word "?<"
    groupName
    some <$> capturedRest inner outer
  else if ← isAhead (char '?') then
    char '?'
    let switches ← switches
    setMode (outer.switchAll true switches)
    if ← isAhead (char ':') then
      char ':'
      some <$> groupRest inner outer
    else
      char ')'
      if switches.isEmpty then failure else return none
  else some <$> capturedRest inner outer

/-! Patterns -/

def ofPrimitive : Primitive → PatternReader Pattern
  | .char char => return .one (← withCase (.single char))
  | .set set => return .one set
  | .check assertion => return .check assertion

def point : PatternReader Pattern := do
  let mode ← mode
  if mode.isAscii then failure
  else if mode.pointIsAny then return .one .anything
  else if mode.hasReturns then
    return .one (CharSet.union (.single '\n') (.single '\r')).complement
  else return .one (CharSet.single '\n').complement

def atom (inner : PatternReader (Nested Pattern)) : PatternReader (Option (Nested Pattern)) := do
  match ← satisfy fun _ => true with
  | '(' => group inner
  | '[' =>
    let { value, depth } ← classAt depthLimit
    return some { value := .one value, depth }
  | '\\' => return some { value := ← escape >>= ofPrimitive }
  | '.' => return some { value := ← point }
  | '^' =>
    let mode ← mode
    return some { value := .check (if mode.hasLines then .lineStart mode.hasReturns else .textStart) }
  | '$' =>
    let mode ← mode
    return some { value := .check (if mode.hasLines then .lineEnd mode.hasReturns else .textEnd) }
  | char =>
    if "*+?|)\x7b".toList.contains char then failure
    else return some { value := ← ofPrimitive (.char char) }

def item (inner : PatternReader (Nested Pattern)) : PatternReader (Nested Pattern) := do
  space
  match ← atom inner with
  | some { value, depth } =>
    let changes ← many repetition
    return {
      value := changes.foldl (fun pattern change => change pattern) value
      depth := depth + changes.length }
  | none => return { value := .empty }

def items (inner : PatternReader (Nested Pattern)) : PatternReader (Nested Pattern) := do
  let items ← many (item inner)
  space
  return {
    value := .sequence (items.map (·.value))
    depth := depthOfParts (items.map (·.depth)) }

def choice (inner : PatternReader (Nested Pattern)) : PatternReader (Nested Pattern) := do
  let first ← items inner
  let branches := first :: (← many (char '|' *> items inner))
  return {
    value := .choice (branches.map (·.value))
    depth := depthOfParts (branches.map (·.depth)) }

def choiceAt : (depth : Nat) → PatternReader (Nested Pattern)
  | 0 => failure
  | depth + 1 => choice (choiceAt depth)

end Pattern.Syntax

def Pattern.parse? (text : String) : Option Pattern := do
  let { value, depth } ← Reader.all ((Syntax.choiceAt (Syntax.depthLimit + 1)).run' {}) text
  if depth ≤ Syntax.depthLimit then some value else none

end FunctionFlow
