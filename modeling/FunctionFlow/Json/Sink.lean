/-!
Contract: places that bytes are written to, and that can fail.
-/

namespace FunctionFlow

inductive SinkAnswer where
  | refuse
  /-- At most so many bytes are accepted; no bound accepts everything. -/
  | accept (atMost : Option Nat)
  deriving DecidableEq, Repr, Inhabited

structure Sink where
  answer : Nat → SinkAnswer
  failsFlush : Bool
  writes : Nat
  accepted : List (List UInt8)
  flushes : Nat

namespace Sink

def fresh (answer : Nat → SinkAnswer) (failsFlush : Bool) : Sink where
  answer := answer
  failsFlush := failsFlush
  writes := 0
  accepted := []
  flushes := 0

def perfect : Sink := fresh (fun _ => .accept none) false

def write (sink : Sink) (bytes : List UInt8) : Option Nat × Sink :=
  match sink.answer sink.writes with
  | .refuse => (none, { sink with writes := sink.writes + 1 })
  | .accept atMost =>
    let taken := match atMost with
      | some bound => bytes.take bound
      | none => bytes
    (some taken.length,
      { sink with writes := sink.writes + 1, accepted := sink.accepted ++ [taken] })

/-- Writes until everything is accepted, and says whether that came about. A write that accepts
nothing is a failure. -/
def writeAll (sink : Sink) (bytes : List UInt8) : Bool × Sink :=
  if _more : bytes = [] then (true, sink)
  else
    match sink.write bytes with
    | (some (count + 1), sink) => sink.writeAll (bytes.drop (count + 1))
    | (_, sink) => (false, sink)
termination_by bytes.length
decreasing_by
  have positive := List.length_pos_iff.mpr _more
  rw [List.length_drop]
  omega

def flush (sink : Sink) : Bool × Sink :=
  (!sink.failsFlush, { sink with flushes := sink.flushes + 1 })

def bytes (sink : Sink) : List UInt8 := sink.accepted.flatten

end Sink

end FunctionFlow
