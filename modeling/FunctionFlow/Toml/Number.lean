import FunctionFlow.Text.Digit

/-!
Contract: numbers of TOML documents.

What a number amounts to is of no use to the program, so the readers answer nothing.
-/

namespace FunctionFlow.Toml

def digitGroups (base : Nat) : Reader (List Char) := do
  let first ← Reader.digit base
  let rest ← Reader.many
    (Reader.digit base <|> (Reader.char '_' *> Reader.digit base))
  return first :: rest

def sign : Reader Bool := do
  let found ← Reader.option (Reader.satisfy fun char => char == '+' || char == '-')
  return found = some '-'

def decimalDigits : Reader (List Char) :=
  (do
    let digits ← digitGroups 10
    if digits.head? = some '0' then failure
    return digits)
  <|> (do return [← Reader.char '0'])

def greatestWhole : Nat := Nat.pow 2 63 - 1

def markedWhole (mark : String) (base : Nat) : Reader Unit := do
  Reader.word mark
  let digits ← digitGroups base
  if numberOf base digits ≤ greatestWhole then return () else failure

def decimalWhole : Reader Unit := do
  let isNegative ← sign
  let digits ← decimalDigits
  let bound := if isNegative then greatestWhole + 1 else greatestWhole
  if numberOf 10 digits ≤ bound then return () else failure

def whole : Reader Unit :=
  markedWhole "0x" 16 <|> markedWhole "0o" 8 <|> markedWhole "0b" 2 <|> decimalWhole

def infinityBound : Nat := Nat.pow 2 1024 - Nat.pow 2 970

def isTooGreat (digits : List Char) (exponent : Int) : Bool :=
  let number := numberOf 10 digits
  let magnitude := exponent + (toString number).length
  if number = 0 ∨ magnitude < 0 then false
  else if 400 < magnitude then true
  else if exponent < 0 then infinityBound * Nat.pow 10 (-exponent).toNat ≤ number
  else infinityBound ≤ number * Nat.pow 10 exponent.toNat

def exponent : Reader Int := do
  discard <| Reader.satisfy fun char => char == 'e' || char == 'E'
  let isNegative ← sign
  let digits ← digitGroups 10
  let value : Int := numberOf 10 digits
  return if isNegative then -value else value

def fraction : Reader (List Char) :=
  Reader.char '.' *> digitGroups 10

def fractionPart : Reader (List Char × Int) :=
  (do return ([], ← exponent))
  <|> (do
    let digits ← fraction
    return (digits, (← Reader.option exponent).getD 0))

def decimalFraction : Reader Unit := do
  let isNegative ← sign
  let before ← decimalDigits
  let (after, exponent) ← fractionPart
  if !isNegative && isTooGreat (before ++ after) (exponent - after.length) then failure

def specialNumber : Reader Unit := do
  discard sign
  Reader.word "inf" <|> Reader.word "nan"

def number : Reader Unit :=
  decimalFraction <|> specialNumber <|> whole

end FunctionFlow.Toml
