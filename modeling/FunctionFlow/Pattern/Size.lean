import FunctionFlow.Pattern.Basic
import FunctionFlow.Text.Distinct
import FunctionFlow.Unicode.ByteRanges

/-!
Contract: the size of the automaton that a pattern stands for.

An automaton reads bytes. Counted repetitions are spelled out, so its size grows with the counts.
Forwards, states that accept the same sequences of bytes are shared; backwards, sequences share
their first bytes only. What is kept of a match is known forwards only.
-/

namespace FunctionFlow

inductive Direction where
  | forward
  | backward
  deriving DecidableEq, Repr

namespace Pattern.Size

def state : Nat := 32

def transition : Nat := 8

def way : Nat := 4

def fork : Nat := state + 2 * way

def tails : List (List ByteRange) → List (ByteRange × List (List ByteRange))
  | [] => []
  | [] :: others => tails others
  | (first :: rest) :: others =>
    match tails others with
    | (next, group) :: groups =>
      if next = first then (first, rest :: group) :: groups
      else (first, [rest]) :: (next, group) :: groups
    | [] => [(first, [rest])]

def forwardStates : (bytes : Nat) → List (List (List ByteRange)) → List (List (List ByteRange))
  | 0, _ => []
  | bytes + 1, states =>
    let next := states.flatMap fun sequences => (tails sequences).map (·.2)
    states ++ forwardStates bytes (next.filter fun sequences => sequences.any (!·.isEmpty))

def forward (sequences : List (List ByteRange)) : Nat :=
  let states := distinct (forwardStates 4 [sequences])
  states.foldl (fun bytes sequences => bytes + state + transition * (tails sequences).length) state

def commonLength : List ByteRange → List ByteRange → Nat
  | left :: lefts, right :: rights => if left = right then commonLength lefts rights + 1 else 0
  | _, _ => 0

def backwardStates : (before : List ByteRange) → List (List ByteRange) → Nat
  | _, [] => 0
  | before, sequence :: others =>
    sequence.length - commonLength before sequence + backwardStates sequence others

def backward (sequences : List (List ByteRange)) : Nat :=
  2 * state + way * sequences.length + state * backwardStates [] sequences

def oneOf (direction : Direction) (set : CharSet) : Nat :=
  match set.single? with
  | some char => state * char.utf8Size
  | none =>
    if set.isAscii then 2 * state + transition * set.ranges.length
    else
      match direction with
      | .forward => forward set.byteSequences
      | .backward => backward set.byteSequences

def hasWidth : Pattern → Bool
  | empty | check _ => false
  | one set => !set.isEmpty
  | both first second => hasWidth first || hasWidth second
  | either first second => hasWidth first && hasWidth second
  | repeated least _ inner => 0 < least && hasWidth inner
  | captured inner => hasWidth inner

def rounds (least : Nat) (most : Option Nat) (hasWidth : Bool) (inner : Nat) : Nat :=
  match least, most with
  | 0, none => inner + if hasWidth then fork else 2 * fork + state
  | 0, some 1 => inner + fork + state
  | least, none => least * inner + fork
  | least, some most =>
    if least = most then least * inner
    else (if least = 0 then state else least * inner) + state + (most - least) * (inner + fork)

def branch (pattern : Pattern) (size : Nat) : Nat :=
  match pattern with
  | either .. => size - 2 * state
  | _ => size + way

def body (direction : Direction) : Pattern → Nat
  | empty | check _ => state
  | one set => oneOf direction set
  | both first second => body direction first + body direction second
  | either first second =>
    2 * state + branch first (body direction first) + branch second (body direction second)
  | repeated least most inner => rounds least most (hasWidth inner) (body direction inner)
  | captured inner =>
    match direction with
    | .forward => 2 * state + body direction inner
    | .backward => body direction inner

def search : Nat := fork + state + (state + transition) + state

end Pattern.Size

namespace Pattern

def size (direction : Direction) (pattern : Pattern) : Nat :=
  Size.search + Size.body direction (captured pattern)

def sizeLimit : Nat := 10 * Nat.pow 2 20

def hasFittingSize (pattern : Pattern) : Bool :=
  pattern.size .forward ≤ sizeLimit && pattern.size .backward ≤ sizeLimit

end Pattern

end FunctionFlow
