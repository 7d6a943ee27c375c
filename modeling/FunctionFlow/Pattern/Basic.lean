import FunctionFlow.Unicode.CharSet

/-!
Contract: patterns and the texts they are found in.

The number of characters bounds every repetition: from that many rounds on, one more round changes
nothing.
-/

namespace FunctionFlow

inductive Assertion where
  | textStart
  | textEnd
  /-- A line starts; line feeds end lines, and if asked for so do carriage returns. -/
  | lineStart (atReturns : Bool)
  | lineEnd (atReturns : Bool)
  /-- The characters around the place differ in belonging to words. -/
  | wordBoundary (word : CharSet)
  | noWordBoundary (word : CharSet)
  | wordStart (word : CharSet)
  | wordEnd (word : CharSet)
  | notAfterWord (word : CharSet)
  | notBeforeWord (word : CharSet)
  deriving DecidableEq, Repr

inductive Pattern where
  | empty
  | one (set : CharSet)
  | check (assertion : Assertion)
  | both (first second : Pattern)
  | either (first second : Pattern)
  /-- The pattern `least` times or more, but at most `most` times if that is given. -/
  | repeated (least : Nat) (most : Option Nat) (inner : Pattern)
  | captured (inner : Pattern)
  deriving DecidableEq, Repr

def charBefore (text : Array Char) (place : Nat) : Option Char :=
  if place = 0 then none else text[place - 1]?

def CharSet.containsSome (set : CharSet) : Option Char → Bool
  | some char => set.contains char
  | none => false

def Assertion.holds (text : Array Char) (place : Nat) : Assertion → Bool
  | textStart => place == 0
  | textEnd => place == text.size
  | lineStart atReturns =>
    place == 0 || charBefore text place == some '\n'
      || atReturns && charBefore text place == some '\r' && text[place]? != some '\n'
  | lineEnd atReturns =>
    place == text.size || atReturns && text[place]? == some '\r'
      || text[place]? == some '\n' && !(atReturns && charBefore text place == some '\r')
  | wordBoundary word =>
    word.containsSome (charBefore text place) != word.containsSome text[place]?
  | noWordBoundary word =>
    word.containsSome (charBefore text place) == word.containsSome text[place]?
  | wordStart word =>
    !word.containsSome (charBefore text place) && word.containsSome text[place]?
  | wordEnd word =>
    word.containsSome (charBefore text place) && !word.containsSome text[place]?
  | notAfterWord word => !word.containsSome (charBefore text place)
  | notBeforeWord word => !word.containsSome text[place]?

def addPlaces (places more : List Nat) : List Nat :=
  more.foldl (fun all place => if all.contains place then all else all ++ [place]) places

def takeSteps (step : List Nat → List Nat) : (count : Nat) → List Nat → List Nat
  | 0, places => places
  | count + 1, places => takeSteps step count (step places)

/-- All places that at most so many steps lead to; the last argument holds those found before. -/
def spread (step : List Nat → List Nat) : (count : Nat) → (newest found : List Nat) → List Nat
  | 0, _, found => found
  | count + 1, newest, found =>
    let next := (step newest).filter fun place => !found.contains place
    if next.isEmpty then found else spread step count next (addPlaces found next)

/-- A round count, up to the number of rounds that can make a difference. -/
def roundsThatCount (text : Array Char) (count : Nat) : Nat := min count (text.size + 1)

namespace Pattern

/-- The places at which matches end that start at the given places. -/
def ends (text : Array Char) : Pattern → List Nat → List Nat
  | empty, starts => starts
  | one set, starts =>
    (starts.filter fun place => set.containsSome text[place]?).map (· + 1)
  | check assertion, starts => starts.filter fun place => assertion.holds text place
  | both first second, starts => second.ends text (first.ends text starts)
  | either first second, starts => addPlaces (first.ends text starts) (second.ends text starts)
  | repeated least most inner, starts =>
    let step := fun places => inner.ends text places
    let base := takeSteps step (roundsThatCount text least) starts
    let more := match most with
      | some most => roundsThatCount text (most - least)
      | none => text.size + 1
    spread step more base base
  | captured inner, starts => inner.ends text starts

def isFoundIn (pattern : Pattern) (text : String) : Bool :=
  let chars := text.toList.toArray
  !(pattern.ends chars (List.range (chars.size + 1))).isEmpty

def sequence : List Pattern → Pattern
  | [] => empty
  | first :: others =>
    match first, sequence others with
    | empty, later => later
    | first, empty => first
    | first, later => both first later

def branches : Pattern → List Pattern
  | either first second => first.branches ++ second.branches
  | pattern => [pattern]

/-- The set of characters that some patterns together stand for, if each of them is one character or
each of them is a set of others. -/
def commonSet? (patterns : List Pattern) : Option CharSet := do
  let sets ← patterns.mapM fun
    | one set => some set
    | _ => none
  if sets.all (·.single?.isSome) || sets.all (·.single?.isNone) then some (.unionOf sets) else none

def choice (patterns : List Pattern) : Pattern :=
  let patterns := patterns.flatMap branches
  match commonSet? patterns, patterns with
  | some set, _ => one set
  | none, [] => empty
  | none, first :: others => others.foldl either first

def isWidthless : Pattern → Bool
  | empty | check _ => true
  | one _ => false
  | both first second | either first second => first.isWidthless && second.isWidthless
  | repeated _ _ inner | captured inner => inner.isWidthless

/-- A pattern `least` times or more, but at most `most` times if that is given. Where no match has any
characters, more than one round makes no difference. -/
def times (least : Nat) (most : Option Nat) (inner : Pattern) : Pattern :=
  let (least, most) :=
    if inner.isWidthless then (min least 1, some (min (most.getD 1) 1)) else (least, most)
  match least, most with
  | 0, some 0 => empty
  | 1, some 1 => inner
  | least, most => repeated least most inner

end Pattern

end FunctionFlow
