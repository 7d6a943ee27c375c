import FunctionFlow.Text.Reader

/-!
Contract: numbers written in digits.
-/

namespace FunctionFlow

def digitValue? (char : Char) : Option Nat :=
  if '0' ≤ char ∧ char ≤ '9' then some (char.toNat - '0'.toNat)
  else if 'a' ≤ char ∧ char ≤ 'f' then some (char.toNat - 'a'.toNat + 10)
  else if 'A' ≤ char ∧ char ≤ 'F' then some (char.toNat - 'A'.toNat + 10)
  else none

def isDigitOf (base : Nat) (char : Char) : Bool :=
  match digitValue? char with
  | some value => value < base
  | none => false

def numberOf (base : Nat) (digits : List Char) : Nat :=
  digits.foldl (fun number char => number * base + (digitValue? char).getD 0) 0

def padded (width value : Nat) : String :=
  let digits := toString value
  String.ofList (List.replicate (width - digits.length) '0') ++ digits

namespace Reader

def digit (base : Nat) : Reader Char := satisfy (isDigitOf base)

def exactly (base : Nat) : (count : Nat) → Reader (List Char)
  | 0 => pure []
  | count + 1 => do
    let first ← digit base
    let rest ← exactly base count
    return first :: rest

def hexChar (count : Nat) : Reader Char := do
  let value := numberOf 16 (← exactly 16 count)
  if value.isValidChar then return Char.ofNat value else failure

end Reader

end FunctionFlow
