import FunctionFlow.Id

/-!
Contract: source texts addressed by UTF-8 byte offset.

Rows count from one and columns from zero; a column counts the bytes since the last line feed.
-/

namespace FunctionFlow

structure Position where
  row : Nat
  column : Nat
  deriving DecidableEq, Repr, Inhabited

/-- A range of a source file, by position and by byte offset. -/
structure Span where
  start : Position
  stop : Position
  startByte : Nat
  endByte : Nat
  deriving DecidableEq, Repr, Inhabited

def Position.render (position : Position) : String :=
  s!"{position.row}:{position.column}"

structure Source where
  chars : List Char
  deriving DecidableEq, Repr, Inhabited

namespace Source

def ofString (text : String) : Source := ⟨text.toList⟩

def byteLength : List Char → Nat
  | [] => 0
  | char :: rest => char.utf8Size + byteLength rest

def suffixAt : List Char → Nat → Option (List Char)
  | chars, 0 => some chars
  | [], _ + 1 => none
  | char :: rest, offset + 1 =>
    if char.utf8Size ≤ offset + 1 then suffixAt rest (offset + 1 - char.utf8Size) else none

def firstBytes : List Char → Nat → Option (List Char)
  | _, 0 => some []
  | [], _ + 1 => none
  | char :: rest, length + 1 =>
    if char.utf8Size ≤ length + 1 then
      (firstBytes rest (length + 1 - char.utf8Size)).map (char :: ·)
    else none

/-- The text of a byte range. A range that cuts a character apart spells nothing. -/
def slice (source : Source) (startByte endByte : Nat) : Checked String :=
  if startByte ≤ endByte ∧ endByte ≤ byteLength source.chars then
    match (suffixAt source.chars startByte).bind (firstBytes · (endByte - startByte)) with
    | some chars => .ok (String.ofList chars)
    | none => .ok ""
  else .error (.text startByte endByte)

def advance : List Char → (offset row column : Nat) → Position
  | _, 0, row, column => ⟨row, column⟩
  | [], offset + 1, row, column => ⟨row, column + (offset + 1)⟩
  | char :: rest, offset + 1, row, column =>
    if char = '\n' then advance rest offset (row + 1) 0
    else if char.utf8Size ≤ offset + 1 then
      advance rest (offset + 1 - char.utf8Size) row (column + char.utf8Size)
    else ⟨row, column + (offset + 1)⟩

def positionAt (source : Source) (offset : Nat) : Position :=
  advance source.chars offset 1 0

def spanOf (source : Source) (startByte endByte : Nat) : Span where
  start := source.positionAt startByte
  stop := source.positionAt endByte
  startByte := startByte
  endByte := endByte

end Source

end FunctionFlow
