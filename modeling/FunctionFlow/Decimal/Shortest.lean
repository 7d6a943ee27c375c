import FunctionFlow.Decimal.Binary64

/-!
Contract: the shortest decimal for a number of the 64-bit binary format.

A decimal is `digits * 10 ^ place`. Numbers and decimals are compared in quarters of the distance
between neighbouring numbers, in which the limits of rounding are whole.
-/

namespace FunctionFlow.Binary64

def decimalAt (value : Binary64) (place : Int) (digits : Nat) : Nat :=
  digits * Nat.pow 10 place.toNat * Nat.pow 2 (2 - value.exponent).toNat

def quartersAt (value : Binary64) (place : Int) (quarters : Nat) : Nat :=
  quarters * Nat.pow 10 (-place).toNat * Nat.pow 2 (value.exponent - 2).toNat

def lowerQuarters (value : Binary64) : Nat :=
  if value.mantissa = Nat.pow 2 (precision - 1) ∧ leastExponent < value.exponent then
    4 * value.mantissa - 1
  else 4 * value.mantissa - 2

def upperQuarters (value : Binary64) : Nat := 4 * value.mantissa + 2

def readsBack (value : Binary64) (place : Int) (digits : Nat) : Bool :=
  let low := value.quartersAt place value.lowerQuarters
  let high := value.quartersAt place value.upperQuarters
  let decimal := value.decimalAt place digits
  if value.mantissa % 2 = 0 then low ≤ decimal && decimal ≤ high
  else low < decimal && decimal < high

def digitsAt? (value : Binary64) (place : Int) : Option Nat :=
  let exact := value.quartersAt place (4 * value.mantissa)
  let unit := value.decimalAt place 1
  let below := exact / unit
  match value.readsBack place below, value.readsBack place (below + 1) with
  | false, false => none
  | true, false => some below
  | false, true => some (below + 1)
  | true, true => some (roundDiv exact unit)

def places : List Int := (List.range 633).map fun step : Nat => (308 : Int) - step

def shortest (value : Binary64) : Nat × Int :=
  if value.mantissa = 0 then (0, 0)
  else
    (places.findSome? fun place => (value.digitsAt? place).map fun digits => (digits, place)).getD
      (0, 0)

end FunctionFlow.Binary64
