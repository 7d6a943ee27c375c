import FunctionFlow.Unicode.CharSet

/-!
Contract: sets of characters as sequences of byte ranges.

A sequence stands for all texts with one byte from each of its ranges. The bytes are those of
UTF-8.
-/

namespace FunctionFlow

abbrev ByteRange := Nat × Nat

def anyContinuation : ByteRange := (0x80, 0xBF)

def splitCodes : (following mark first last : Nat) → List (List ByteRange)
  | 0, mark, first, last => [[(mark + first, mark + last)]]
  | following + 1, mark, first, last =>
    let unit := 64 ^ (following + 1)
    let behind := fun byte first last =>
      (splitCodes following 0x80 first last).map ((mark + byte, mark + byte) :: ·)
    let low := first / unit
    let high := last / unit
    if low = high then behind low (first % unit) (last % unit)
    else
      let isWholeFront := first % unit = 0
      let isWholeBack := last % unit = unit - 1
      let front := if isWholeFront then [] else behind low (first % unit) (unit - 1)
      let back := if isWholeBack then [] else behind high 0 (last % unit)
      let start := if isWholeFront then low else low + 1
      let stop := if isWholeBack then high + 1 else high
      let middle := if start < stop then
          [(mark + start, mark + stop - 1) :: List.replicate (following + 1) anyContinuation]
        else []
      front ++ middle ++ back

structure CodeBlock where
  first : Nat
  last : Nat
  following : Nat
  mark : Nat

def codeBlocks : List CodeBlock := [
  ⟨0, 0x7F, 0, 0⟩, ⟨0x80, 0x7FF, 1, 0xC0⟩, ⟨0x800, 0xD7FF, 2, 0xE0⟩, ⟨0xE000, 0xFFFF, 2, 0xE0⟩,
  ⟨0x10000, 0x10FFFF, 3, 0xF0⟩]

def CodeBlock.sequences (block : CodeBlock) (first last : Nat) : List (List ByteRange) :=
  let low := max first block.first
  let high := min last block.last
  if low ≤ high then splitCodes block.following block.mark low high else []

def CharSet.byteSequences (set : CharSet) : List (List ByteRange) :=
  set.ranges.flatMap fun (first, last) => codeBlocks.flatMap (·.sequences first last)

end FunctionFlow
