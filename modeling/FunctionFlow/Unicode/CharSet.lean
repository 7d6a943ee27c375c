import FunctionFlow.Text.Digit

/-!
Contract: sets of characters.

Complements are taken within all code points. Surrogates are no characters, so it does not matter
whether a set has them.
-/

namespace FunctionFlow

structure CharSet where
  ranges : List (Nat × Nat)
  deriving DecidableEq, Repr, Inhabited

namespace CharSet

def lastCode : Nat := 0x10FFFF

/-- Joins ranges that overlap or touch, given by increasing first code point. -/
def joinRanges : List (Nat × Nat) → List (Nat × Nat)
  | (first, last) :: (next, stop) :: rest =>
    if next ≤ last + 1 then joinRanges ((first, max last stop) :: rest)
    else (first, last) :: joinRanges ((next, stop) :: rest)
  | ranges => ranges
termination_by ranges => ranges.length

def ofRanges (ranges : List (Nat × Nat)) : CharSet where
  ranges := joinRanges (ranges.mergeSort fun left right => left.1 ≤ right.1)

def nothing : CharSet := ⟨[]⟩

def anything : CharSet := ⟨[(0, lastCode)]⟩

def range (first last : Char) : CharSet := ⟨[(first.toNat, last.toNat)]⟩

def single (char : Char) : CharSet := range char char

def ascii : CharSet := range '\x00' '\x7f'

def holdsCode (code : Nat) : List (Nat × Nat) → Bool
  | [] => false
  | (first, last) :: rest => first ≤ code && (code ≤ last || holdsCode code rest)

def containsCode (set : CharSet) (code : Nat) : Bool := holdsCode code set.ranges

def contains (set : CharSet) (char : Char) : Bool := set.containsCode char.toNat

def isEmpty (set : CharSet) : Bool := set.ranges.isEmpty

def isAscii (set : CharSet) : Bool := set.ranges.all fun (_, last) => last < 0x80

def single? (set : CharSet) : Option Char :=
  match set.ranges with
  | [(first, last)] => if first = last then some (Char.ofNat first) else none
  | _ => none

def union (left right : CharSet) : CharSet := ofRanges (left.ranges ++ right.ranges)

def unionOf (sets : List CharSet) : CharSet := ofRanges (sets.flatMap (·.ranges))

def gaps : (start : Nat) → List (Nat × Nat) → List (Nat × Nat)
  | start, [] => if start ≤ lastCode then [(start, lastCode)] else []
  | start, (first, last) :: rest =>
    if start < first then (start, first - 1) :: gaps (last + 1) rest else gaps (last + 1) rest

def complement (set : CharSet) : CharSet := ⟨gaps 0 set.ranges⟩

def intersection (left right : CharSet) : CharSet :=
  (left.complement.union right.complement).complement

def difference (left right : CharSet) : CharSet := left.intersection right.complement

def symmetricDifference (left right : CharSet) : CharSet :=
  (left.union right).difference (left.intersection right)

def codes (set : CharSet) : List Nat :=
  set.ranges.flatMap fun (first, last) => (List.range (last + 1 - first)).map (first + ·)

def ofCodes (codes : List Nat) : CharSet := ofRanges (codes.map fun code => (code, code))

/-- An entry of a table: how far behind the last code point a range begins, how many code points it
has beyond the first one, and how often this repeats. A range of one leaves out the second number,
and an entry that does not repeat the third one. -/
def readEntry (text : String) : List (Nat × Nat) :=
  let (range, times) := match text.splitOn "x" with
    | [range, times] => (range, numberOf 16 times.toList)
    | _ => (text, 1)
  List.replicate times <| match range.splitOn "-" with
    | [gap, more] => (numberOf 16 gap.toList, numberOf 16 more.toList)
    | _ => (numberOf 16 range.toList, 0)

def rangesAfter : (last : Nat) → List (Nat × Nat) → List (Nat × Nat)
  | _, [] => []
  | last, (gap, more) :: rest =>
    (last + gap, last + gap + more) :: rangesAfter (last + gap + more) rest

def read (table : String) : CharSet :=
  let words := (table.splitOn "\n").flatMap (·.splitOn " ")
  .ofRanges (rangesAfter 0 ((words.filter (!·.isEmpty)).flatMap readEntry))

end CharSet

structure NamedTable where
  names : List String
  table : String
  deriving DecidableEq, Repr, Inhabited

namespace NamedTable

def chars (named : NamedTable) : CharSet := .read named.table

def find? (tables : List NamedTable) (name : String) : Option CharSet :=
  (tables.find? fun named => named.names.contains name).map chars

end NamedTable

end FunctionFlow
