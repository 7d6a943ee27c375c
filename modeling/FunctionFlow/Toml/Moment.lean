import FunctionFlow.Text.Digit

/-!
Contract: dates and times of TOML documents.

Days are checked against their month. Seconds may be sixty. Fractions keep nine digits.
-/

namespace FunctionFlow.Toml

structure Date where
  year : Nat
  month : Nat
  day : Nat
  deriving DecidableEq, Repr

structure Time where
  hour : Nat
  minute : Nat
  second : Nat
  nanosecond : Nat
  deriving DecidableEq, Repr

inductive Offset where
  | universal
  | ahead (minutes : Nat)
  | behind (minutes : Nat)
  deriving DecidableEq, Repr

inductive Moment where
  | date (date : Date)
  | time (time : Time)
  | both (date : Date) (time : Time) (offset : Option Offset)
  deriving DecidableEq, Repr

def daysIn (year month : Nat) : Nat :=
  if month = 2 then
    if year % 4 = 0 ∧ (year % 100 ≠ 0 ∨ year % 400 = 0) then 29 else 28
  else if month = 4 ∨ month = 6 ∨ month = 9 ∨ month = 11 then 30
  else 31

def ranged (count lowest highest : Nat) : Reader Nat := do
  let value := numberOf 10 (← Reader.exactly 10 count)
  if lowest ≤ value ∧ value ≤ highest then return value else failure

def readDate : Reader Date := do
  let year ← ranged 4 0 9999
  discard <| Reader.char '-'
  let month ← ranged 2 1 12
  discard <| Reader.char '-'
  let day ← ranged 2 1 (daysIn year month)
  return { year, month, day }

def readFraction : Reader Nat := do
  discard <| Reader.char '.'
  let first ← Reader.digit 10
  let rest ← Reader.takeWhile (isDigitOf 10)
  let kept := (first :: rest).take 9
  return numberOf 10 kept * Nat.pow 10 (9 - kept.length)

def readTime : Reader Time := do
  let hour ← ranged 2 0 23
  discard <| Reader.char ':'
  let minute ← ranged 2 0 59
  discard <| Reader.char ':'
  let second ← ranged 2 0 60
  let fraction ← Reader.option readFraction
  return { hour, minute, second, nanosecond := fraction.getD 0 }

def readDistance : Reader Nat := do
  let hours ← ranged 2 0 23
  discard <| Reader.char ':'
  let minutes ← ranged 2 0 59
  return hours * 60 + minutes

def readOffset : Reader Offset :=
  (do
    discard <| Reader.satisfy fun char => char == 'Z' || char == 'z'
    return .universal)
  <|> (do return .ahead (← Reader.char '+' *> readDistance))
  <|> (do return .behind (← Reader.char '-' *> readDistance))

def readTimeAfterDate : Reader (Time × Option Offset) := do
  discard <| Reader.satisfy fun char => char == 'T' || char == 't' || char == ' '
  let time ← readTime
  return (time, ← Reader.option readOffset)

def readMoment : Reader Moment :=
  (do
    let date ← readDate
    match ← Reader.option readTimeAfterDate with
    | some (time, offset) => return .both date time offset
    | none => return .date date)
  <|> (do return .time (← readTime))

def Date.render (date : Date) : String :=
  padded 4 date.year ++ "-" ++ padded 2 date.month ++ "-" ++ padded 2 date.day

def renderFraction (nanosecond : Nat) : String :=
  if nanosecond = 0 then ""
  else "." ++ String.ofList ((padded 9 nanosecond).toList.reverse.dropWhile (· == '0')).reverse

def Time.render (time : Time) : String :=
  padded 2 time.hour ++ ":" ++ padded 2 time.minute ++ ":" ++ padded 2 time.second
    ++ renderFraction time.nanosecond

def Offset.render : Offset → String
  | universal => "Z"
  | ahead minutes => "+" ++ padded 2 (minutes / 60) ++ ":" ++ padded 2 (minutes % 60)
  | behind 0 => "+00:00"
  | behind minutes => "-" ++ padded 2 (minutes / 60) ++ ":" ++ padded 2 (minutes % 60)

def Moment.render : Moment → String
  | date day => day.render
  | time clock => clock.render
  | both day clock offset => day.render ++ "T" ++ clock.render ++ (offset.map Offset.render).getD ""

end FunctionFlow.Toml
