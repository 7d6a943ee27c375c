/-!
Contract: numbers of the 64-bit binary format.

The mantissa has at most 53 bits, and exactly 53 unless the exponent is the least one. Infinities
are no numbers here: what is too great has no nearest number.
-/

namespace FunctionFlow

structure Binary64 where
  isNegative : Bool := false
  mantissa : Nat
  exponent : Int
  deriving DecidableEq, Repr, Inhabited

namespace Binary64

def precision : Nat := 53

def leastExponent : Int := -1074

def greatestExponent : Int := 971

def zero : Binary64 where
  mantissa := 0
  exponent := leastExponent

def roundDiv (numerator denominator : Nat) : Nat :=
  let quotient := numerator / denominator
  match compare (2 * (numerator % denominator)) denominator with
  | .lt => quotient
  | .gt => quotient + 1
  | .eq => quotient + quotient % 2

def unitsOf (numerator denominator : Nat) (exponent : Int) : Nat :=
  roundDiv (numerator * Nat.pow 2 (-exponent).toNat) (denominator * Nat.pow 2 exponent.toNat)

def nearest? (numerator denominator : Nat) : Option Binary64 :=
  if numerator = 0 then some zero
  else
    let estimate : Int := (numerator.log2 : Int) - denominator.log2 - precision
    let low := max estimate leastExponent
    let exponent := if unitsOf numerator denominator low < Nat.pow 2 precision then low else low + 1
    if greatestExponent < exponent then none
    else some { mantissa := unitsOf numerator denominator exponent, exponent }

def numerator (value : Binary64) : Nat := value.mantissa * Nat.pow 2 value.exponent.toNat

def denominator (value : Binary64) : Nat := Nat.pow 2 (-value.exponent).toNat

def times? (left right : Binary64) : Option Binary64 :=
  nearest? (left.numerator * right.numerator) (left.denominator * right.denominator)

def over? (left right : Binary64) : Option Binary64 :=
  nearest? (left.numerator * right.denominator) (left.denominator * right.numerator)

def greatestPower : Nat := 308

def timesPower? : (steps : Nat) → (value : Binary64) → (power : Int) → Option Binary64
  | steps, value, power =>
    if power.natAbs ≤ greatestPower then do
      let factor ← nearest? (Nat.pow 10 power.natAbs) 1
      if 0 ≤ power then value.times? factor else value.over? factor
    else if value.mantissa = 0 then some value
    else if 0 < power then none
    else
      match steps with
      | 0 => some zero
      | steps + 1 => do
        let factor ← nearest? (Nat.pow 10 greatestPower) 1
        timesPower? steps (← value.over? factor) (power + greatestPower)

def scaled? (significand : Nat) (power : Int) : Option Binary64 := do
  timesPower? 3 (← nearest? significand 1) power

end Binary64

end FunctionFlow
