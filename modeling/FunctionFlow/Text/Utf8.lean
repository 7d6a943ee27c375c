/-!
Contract: texts shown from bytes that may be no text.

Bytes are read one at a time. What is known of an unfinished character is the value of the bytes
read so far, how many are missing, and the range in which the next one must lie.
-/

namespace FunctionFlow.Utf8

def replacement : Char := '�'

structure Unfinished where
  value : Nat
  missing : Nat
  least : Nat
  greatest : Nat
  deriving DecidableEq, Repr

inductive Beginning where
  | whole (char : Char)
  | part (unfinished : Unfinished)
  | invalid
  deriving DecidableEq, Repr

def Beginning.ofByte (byte : Nat) : Beginning :=
  if byte < 0x80 then .whole (Char.ofNat byte)
  else if byte < 0xc2 then .invalid
  else if byte < 0xe0 then .part ⟨byte - 0xc0, 1, 0x80, 0xbf⟩
  else if byte = 0xe0 then .part ⟨0, 2, 0xa0, 0xbf⟩
  else if byte = 0xed then .part ⟨0xd, 2, 0x80, 0x9f⟩
  else if byte < 0xf0 then .part ⟨byte - 0xe0, 2, 0x80, 0xbf⟩
  else if byte = 0xf0 then .part ⟨0, 3, 0x90, 0xbf⟩
  else if byte < 0xf4 then .part ⟨byte - 0xf0, 3, 0x80, 0xbf⟩
  else if byte = 0xf4 then .part ⟨4, 3, 0x80, 0x8f⟩
  else .invalid

def Unfinished.extend (unfinished : Unfinished) (byte : Nat) : Beginning :=
  let value := unfinished.value * 64 + (byte - 0x80)
  if unfinished.missing ≤ 1 then .whole (Char.ofNat value)
  else .part ⟨value, unfinished.missing - 1, 0x80, 0xbf⟩

def step (unfinished : Option Unfinished) (byte : Nat) : List Char × Option Unfinished :=
  match unfinished with
  | none => settle [] (Beginning.ofByte byte)
  | some unfinished =>
    if unfinished.least ≤ byte ∧ byte ≤ unfinished.greatest then
      settle [] (unfinished.extend byte)
    else settle [replacement] (Beginning.ofByte byte)
where
  settle (before : List Char) : Beginning → List Char × Option Unfinished
    | .whole char => (before ++ [char], none)
    | .part unfinished => (before, some unfinished)
    | .invalid => (before ++ [replacement], none)

def charsFrom : Option Unfinished → List UInt8 → List Char
  | none, [] => []
  | some _, [] => [replacement]
  | unfinished, byte :: rest =>
    let (chars, unfinished) := step unfinished byte.toNat
    chars ++ charsFrom unfinished rest

def textOf (bytes : List UInt8) : String := String.ofList (charsFrom none bytes)

end FunctionFlow.Utf8
