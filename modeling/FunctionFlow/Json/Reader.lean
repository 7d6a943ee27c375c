import FunctionFlow.Json.Value

/-!
Contract: reading JSON.

Whole numbers are kept within 64 bits, other numbers in the 64-bit binary format. A nested value is
read with less fuel than the value around it, and the length of the text is fuel enough.
-/

namespace FunctionFlow.Json

def isSpace (char : Char) : Bool :=
  char == ' ' || char == '\n' || char == '\r' || char == '\t'

def skipSpace (text : List Char) : List Char := text.dropWhile isSpace

def escaped? : Char → Option Char
  | '"' => some '"'
  | '\\' => some '\\'
  | '/' => some '/'
  | 'b' => some '\x08'
  | 'f' => some '\x0c'
  | 'n' => some '\n'
  | 'r' => some '\r'
  | 't' => some '\t'
  | _ => none

def codeUnit? (first second third fourth : Char) : Option Nat :=
  let digits := [first, second, third, fourth]
  if digits.all (isDigitOf 16) then some (numberOf 16 digits) else none

def ofSurrogates? (high low : Nat) : Option Char :=
  if 0xD800 ≤ high ∧ high < 0xDC00 ∧ 0xDC00 ≤ low ∧ low < 0xE000 then
    some (Char.ofNat (0x10000 + (high - 0xD800) * 0x400 + (low - 0xDC00)))
  else none

def readText : List Char → Option (List Char × List Char)
  | [] => none
  | '"' :: rest => some ([], rest)
  | '\\' :: 'u' :: first :: second :: third :: fourth :: rest =>
    match codeUnit? first second third fourth with
    | none => none
    | some unit =>
      if unit.isValidChar then do
        let (chars, rest) ← readText rest
        return (Char.ofNat unit :: chars, rest)
      else
        match rest with
        | '\\' :: 'u' :: first :: second :: third :: fourth :: rest => do
          let char ← ofSurrogates? unit (← codeUnit? first second third fourth)
          let (chars, rest) ← readText rest
          return (char :: chars, rest)
        | _ => none
  | '\\' :: letter :: rest => do
    let char ← escaped? letter
    let (chars, rest) ← readText rest
    return (char :: chars, rest)
  | char :: rest =>
    if char.toNat < 32 ∨ char = '\\' then none
    else do
      let (chars, rest) ← readText rest
      return (char :: chars, rest)

def wordLimit : Nat := Nat.pow 2 64 - 1

def takeDigits : (start : Nat) → List Char → Nat × List Char
  | start, [] => (start, [])
  | start, digit :: rest =>
    let next := 10 * start + numberOf 10 [digit]
    if next ≤ wordLimit then takeDigits next rest else (start, digit :: rest)

def readDigits (text : List Char) : Option (List Char × List Char) :=
  let digits := text.takeWhile (isDigitOf 10)
  if digits.isEmpty then none else some (digits, text.dropWhile (isDigitOf 10))

def readWhole (text : List Char) : Option (List Char × List Char) := do
  match ← readDigits text with
  | ('0' :: _ :: _, _) => none
  | read => read

def readFraction : List Char → Option (Option (List Char) × List Char)
  | '.' :: rest => do
    let (digits, rest) ← readDigits rest
    return (some digits, rest)
  | rest => some (none, rest)

def readExponent : List Char → Option (Int × List Char)
  | '-' :: rest => (readDigits rest).map fun (digits, rest) => (-numberOf 10 digits, rest)
  | '+' :: rest => (readDigits rest).map fun (digits, rest) => (numberOf 10 digits, rest)
  | rest => (readDigits rest).map fun (digits, rest) => (numberOf 10 digits, rest)

def readScale : List Char → Option (Option Int × List Char)
  | 'e' :: rest | 'E' :: rest => (readExponent rest).map fun (power, rest) => (some power, rest)
  | rest => some (none, rest)

def ofWhole (isNegative : Bool) (whole : Nat) : Option Json :=
  if !isNegative then some (.number whole)
  else if 0 < whole ∧ whole ≤ Nat.pow 2 63 then some (.number (-(whole : Int)))
  else (Binary64.nearest? whole 1).map fun value => .real { value with isNegative }

def readUnsigned (isNegative : Bool) (text : List Char) : Option (Json × List Char) := do
  let (whole, rest) ← readWhole text
  let (fraction, rest) ← readFraction rest
  let (power, rest) ← readScale rest
  let (start, others) := takeDigits 0 whole
  if fraction.isNone && power.isNone && others.isEmpty then
    return (← ofWhole isNegative start, rest)
  let fraction := fraction.getD []
  let (significand, unread) := takeDigits start fraction
  let shift : Int := others.length - (fraction.length - unread.length : Nat)
  let value ← Binary64.scaled? significand (shift + power.getD 0)
  return (.real { value with isNegative }, rest)

def readNumber : List Char → Option (Json × List Char)
  | '-' :: input => readUnsigned true input
  | input => readUnsigned false input

def readPlain (text : List Char) : Option (Json × List Char) :=
  match Text.dropLeading? "null".toList text with
  | some rest => some (.null, rest)
  | none =>
    match Text.dropLeading? "true".toList text with
    | some rest => some (.bool true, rest)
    | none =>
      match Text.dropLeading? "false".toList text with
      | some rest => some (.bool false, rest)
      | none => readNumber text

mutual
def readValue : (fuel : Nat) → List Char → Option (Json × List Char)
  | 0, _ => none
  | fuel + 1, input =>
    match skipSpace input with
    | '"' :: rest => do
      let (chars, rest) ← readText rest
      return (.text (String.ofList chars), rest)
    | '[' :: rest =>
      match skipSpace rest with
      | ']' :: rest => some (.array [], rest)
      | rest => do
        let (elements, rest) ← readElements fuel rest
        return (.array elements, rest)
    | '\x7b' :: rest =>
      match skipSpace rest with
      | '\x7d' :: rest => some (.object [], rest)
      | rest => do
        let (members, rest) ← readMembers fuel rest
        return (.object members, rest)
    | rest => readPlain rest
def readElements : (fuel : Nat) → List Char → Option (List Json × List Char)
  | 0, _ => none
  | fuel + 1, input => do
    let (first, rest) ← readValue fuel input
    match skipSpace rest with
    | ',' :: rest =>
      let (others, rest) ← readElements fuel rest
      return (first :: others, rest)
    | ']' :: rest => return ([first], rest)
    | _ => none
def readMembers : (fuel : Nat) → List Char → Option (List JsonMember × List Char)
  | 0, _ => none
  | fuel + 1, input =>
    match skipSpace input with
    | '"' :: rest => do
      let (key, rest) ← readText rest
      match skipSpace rest with
      | ':' :: rest =>
        let (value, rest) ← readValue fuel rest
        let first := JsonMember.mk (String.ofList key) value
        match skipSpace rest with
        | ',' :: rest =>
          let (others, rest) ← readMembers fuel rest
          return (first :: others, rest)
        | '\x7d' :: rest => return ([first], rest)
        | _ => none
      | _ => none
    | _ => none
end

def parseChars? (text : List Char) : Option Json := do
  let (value, rest) ← readValue (2 * text.length + 2) text
  if (skipSpace rest).isEmpty then some value else none

def parse? (text : String) : Option Json := parseChars? text.toList

def parseBytes? (bytes : List UInt8) : Option Json :=
  (String.fromUTF8? ⟨bytes.toArray⟩).bind parse?

def member? (value : Json) (key : String) : Option Json :=
  match value with
  | .object members =>
    (members.find? fun (.mk name _) => name == key).map fun (.mk _ value) => value
  | _ => none

def elements? : Json → Option (List Json)
  | .array elements => some elements
  | _ => none

def text? : Json → Option String
  | .text value => some value
  | _ => none

def bool? : Json → Option Bool
  | .bool value => some value
  | _ => none

def nat? : Json → Option Nat
  | .number (.ofNat value) => some value
  | _ => none

def natOrNull? : Json → Option (Option Nat)
  | .null => some none
  | value => value.nat?.map some

end FunctionFlow.Json
